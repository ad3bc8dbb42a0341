import FixTables.CommandLine

open FixTables

/-- The class of an error that the operating system reports, by its number. -/
def ioErrorOfCode (code : UInt32) (text : String) : IoError :=
  match code with
  | 2 => .notFound
  | 16 => .busy
  | 20 => .notADirectory
  | 21 => .isADirectory
  | 36 => .nameTooLong
  | _ => .other text

def ioErrorOf (e : IO.Error) : IoError :=
  match e with
  | .noFileOrDirectory _ code _ | .inappropriateType _ code _ | .resourceBusy code _
  | .invalidArgument _ code _ | .illegalOperation code _ | .otherError code _ =>
    ioErrorOfCode code (toString e)
  | _ => .other (toString e)

/-- Runs an action on files and keeps its failure as a value. -/
def attempt (act : IO α) : IO (Except IoError α) := do
  match ← act.toBaseIO with
  | .ok a => return .ok a
  | .error e => return .error (ioErrorOf e)

/-- Writes the notices that matter to the standard error. -/
def logNotices (notices : List Notice) : IO Unit := do
  for n in notices do
    if n.severity ≠ .debug then
      IO.eprintln n.line

/-- Fills a temporary file beside the target and moves it over the target; a failure removes it. -/
def writeFile (path contents : String) : IO (Except ArtifactError Unit) := do
  let home := (FileSystem.namesOf (toString (← IO.currentDir))).filter (· ≠ "")
  let temporary := FileSystem.temporaryPath ⟨home, []⟩ path s!".tmp{← IO.rand 0 0xffffffff}"
  match ← attempt (IO.FS.Handle.mk temporary .writeNew) with
  | .error cause => return .error ⟨cause, some temporary⟩
  | .ok handle =>
    let filled ← attempt do
      handle.putStr contents
      handle.flush
    let published ← match filled with
      | .error cause => pure (Except.error (ArtifactError.mk cause (some temporary)))
      | .ok _ => do
        let moved ← attempt (IO.FS.rename temporary path)
        pure (moved.mapError fun cause => ⟨cause, none⟩)
    if let .error _ := published then
      let _ ← attempt (IO.FS.removeFile temporary)
    return published

/-- Carries out a request and gives its outcome. -/
def runRequest (input : String) (output : Option String) (config : CompilerConfig) :
    IO (Except CommandError Unit) := do
  let bytes ← attempt (IO.FS.readBinFile input)
  let generated := generateBytes input bytes config .default
  logNotices generated.notices
  match generated.outcome, output with
  | .error cause, _ => return .error (.generate input cause)
  | .ok text, none => do
    IO.print text
    return .ok ()
  | .ok text, some path => do
    match ← writeFile path text with
    | .error cause => return .error (.write path cause)
    | .ok _ => do
      logNotices [.wroteArtifact path text.utf8ByteSize]
      return .ok ()

def main (arguments : List String) : IO UInt32 := do
  let invocation : Invocation :=
    ⟨arguments, ← IO.getEnv "FIXSPEC_TAG_BOUND", ← IO.getEnv "FIXSPEC_LENIENT"⟩
  let outcome ← match invocation.request with
    | .error e => pure (Except.error e)
    | .ok (input, output, config) => runRequest input output config
  match outcome with
  | .ok _ => return 0
  | .error e => do
    IO.eprint e.report
    return 1
