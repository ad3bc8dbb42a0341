import FixTables.FileSystem
import FixTables.Identifier
import FixTables.Notice

namespace FixTables

/-- The steps in which an artifact is written: a temporary file is made beside the target, filled,
brought to the disk and moved over the target. -/
inductive WriteStep
  | create
  | fill
  | sync
  | publish
  deriving DecidableEq

/-- Failures that come from outside the file system's own rules. -/
abbrev Faults := WriteStep → Option IoError

def noFaults : Faults := fun _ => none

/-- Why an artifact was not written, with the temporary file if the failure names it. -/
structure ArtifactError where
  cause : IoError
  temporary : Option String
  deriving DecidableEq

def ArtifactError.message (e : ArtifactError) : String :=
  match e.temporary with
  | some path => s!"{e.cause.message} at path {quoted path}"
  | none => e.cause.message

/-- What a write did: the file systems it went through, the last of which stays, and its outcome. -/
structure ArtifactRun where
  states : List FileSystem
  outcome : Except ArtifactError Unit

namespace FileSystem

/-- The names of all entries and of the directories that lead to the working directory. -/
def usedNames (fs : FileSystem) : List String := fs.home ++ fs.entries.filterMap (·.1.getLast?)

/-- The name of temporary files, with a number where it is taken. -/
def temporaryName : String := ".tmpAAAAAA"

/-- Runs steps on a file system in which a temporary file is live. The first one that fails is the
last one, and the temporary file is removed after it. -/
def runSteps (temporary : Place) : FileSystem →
    List (FileSystem → Except ArtifactError FileSystem) → ArtifactRun
  | _, [] => ⟨[], .ok ()⟩
  | fs, step :: steps =>
    match step fs with
    | .error e => ⟨[fs.remove temporary], .error e⟩
    | .ok next =>
      let later := runSteps temporary next steps
      ⟨next :: later.states, later.outcome⟩

/-- A step that fails if a fault hits it. -/
def guarded (faults : Faults) (step : WriteStep) (temporary : Option String)
    (act : FileSystem → Except IoError FileSystem) (fs : FileSystem) :
    Except ArtifactError FileSystem :=
  match faults step with
  | some cause => .error ⟨cause, temporary⟩
  | none => (act fs).mapError (⟨·, none⟩)

/-- The path of a temporary file beside the entry at a path. -/
def temporaryPath (fs : FileSystem) (path name : String) : String :=
  joinPath (fs.absolutePath (parentPath path)) name

/-- Writes an artifact, step by step. The temporary file gets a name that neither the target nor
anything else has. -/
def writeArtifact (faults : Faults) (fs : FileSystem) (path contents : String) : ArtifactRun :=
  let name := uniqueIdentifier ((fileName? path).toList ++ fs.usedNames) temporaryName
  let shown := fs.temporaryPath path name
  match faults .create, fs.locate shown with
  | some cause, _ | none, .error cause => ⟨[], .error ⟨cause, some shown⟩⟩
  | none, .ok temporary =>
    let created := fs.put temporary (.file .empty)
    let rest := runSteps temporary created
      [guarded faults .fill (some shown) fun fs => .ok (fs.put temporary (.file contents.toUTF8)),
        guarded faults .sync none .ok,
        guarded faults .publish none fun fs =>
          (fs.targetOf path).map fun target => fs.move temporary target]
    ⟨created :: rest.states, rest.outcome⟩

end FileSystem

/-- The file system that a run leaves behind. -/
def ArtifactRun.final (r : ArtifactRun) (fs : FileSystem) : FileSystem :=
  r.states.getLast?.getD fs

/-- What a run gives notice of. -/
def ArtifactRun.notices (r : ArtifactRun) (path contents : String) : List Notice :=
  match r.outcome with
  | .ok _ => [.wroteArtifact path contents.utf8ByteSize]
  | .error _ => []

end FixTables
