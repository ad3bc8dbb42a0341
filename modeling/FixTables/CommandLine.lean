import FixTables.Artifact
import FixTables.Generate

namespace FixTables

/-- The arguments of a run and the settings it finds in its environment. -/
structure Invocation where
  arguments : List String
  tagBound : Option String
  lenient : Option String

/-- Why a run of the command fails. -/
inductive CommandError
  | usage
  | invalidTagBound (raw : String) (cause : NumeralError)
  | generate (path : String) (cause : GenerateError)
  | write (path : String) (cause : ArtifactError)
  deriving DecidableEq

namespace CommandError

def message : CommandError → String
  | usage => "usage: fixspec-gen <dictionary.xml> [<output.rs>]"
  | invalidTagBound raw _ => s!"invalid FIXSPEC_TAG_BOUND '{raw}'"
  | generate path _ => s!"failed to generate tables from {path}"
  | write path _ => s!"failed to write {path}"

def causes : CommandError → List String
  | usage => []
  | invalidTagBound _ cause => [cause.message]
  | generate _ cause => cause.chain
  | write _ cause => [cause.message]

/-- A text whose later lines are set in as far as `margin` is wide. -/
def indentLines (margin text : String) : String := ("\n" ++ margin).intercalate (text.splitOn "\n")

/-- A number at the right end of five columns, and a colon. -/
def causeNumber (n : Nat) : String :=
  let digits := Nat.repr n
  String.ofList (List.replicate (5 - digits.length) ' ') ++ digits ++ ": "

/-- The causes of an error, one to a paragraph and numbered if there are several. -/
def causeLines : List String → List String
  | [] => []
  | [cause] => ["", "Caused by:", "    " ++ indentLines "    " cause]
  | causes => ["", "Caused by:"] ++
    causes.zipIdx.map fun (cause, n) => causeNumber n ++ indentLines "       " cause

/-- How the command reports an error. -/
def report (e : CommandError) : String :=
  String.join ((("Error: " ++ e.message) :: causeLines e.causes).map (· ++ "\n"))

end CommandError

namespace Invocation

/-- The dictionary to read and the file to write, if there is one. -/
def paths (i : Invocation) : Except CommandError (String × Option String) :=
  match i.arguments with
  | [input] => .ok (input, none)
  | [input, output] => .ok (input, some output)
  | _ => .error .usage

/-- Whether a setting is switched on. -/
def isEnabled (raw : String) : Bool :=
  ["1", "true", "yes", "y"].contains
    (String.ofList ((trimBlanks raw).toList.map Char.toLower))

def config (i : Invocation) : Except CommandError CompilerConfig := do
  let bounded ← match i.tagBound with
    | none => .ok CompilerConfig.default
    | some raw =>
      match readUnsigned Field.maxTag (trimBlanks raw) with
      | .ok bound => .ok (CompilerConfig.default.withTagBound bound)
      | .error cause => .error (.invalidTagBound raw cause)
  match i.lenient with
  | none => return bounded
  | some raw => return bounded.withStrict (!isEnabled raw)

/-- What is to be done: the dictionary to read, the file to write and the configuration. -/
def request (i : Invocation) : Except CommandError (String × Option String × CompilerConfig) := do
  let (input, output) ← i.paths
  return (input, output, ← i.config)

end Invocation

/-- What a run leaves behind: the text on its standard output, the file system and its outcome. -/
structure CommandRun where
  output : String
  files : FileSystem
  notices : List Notice
  outcome : Except CommandError Unit

namespace CommandRun

def exitCode (r : CommandRun) : Nat :=
  match r.outcome with
  | .ok _ => 0
  | .error _ => 1

def report? (r : CommandRun) : Option String :=
  match r.outcome with
  | .ok _ => none
  | .error e => some e.report

end CommandRun

/-- Runs the command on a file system where reading the dictionary and writing the tables can also
fail from outside. -/
def FileSystem.runCommandUnder (unreadable : Option IoError) (faults : Faults) (fs : FileSystem)
    (i : Invocation) : CommandRun :=
  match i.request with
  | .error e => ⟨"", fs, [], .error e⟩
  | .ok (input, output, config) =>
    let bytes := match unreadable with
      | some cause => .error cause
      | none => fs.readBytes input
    let generated := generateBytes input bytes config .default
    match generated.outcome, output with
    | .error cause, _ => ⟨"", fs, generated.notices, .error (.generate input cause)⟩
    | .ok text, none => ⟨text, fs, generated.notices, .ok ()⟩
    | .ok text, some path =>
      let run := fs.writeArtifact faults path text
      ⟨"", run.final fs, generated.notices ++ run.notices path text,
        run.outcome.mapError (.write path)⟩

/-- Runs the command on a file system. -/
def FileSystem.runCommand (fs : FileSystem) (i : Invocation) : CommandRun :=
  fs.runCommandUnder none noFaults i

end FixTables
