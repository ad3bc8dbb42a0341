import FixTables.FileSystem
import FixTables.Listing.Source

namespace FixTables

/-- Why no source text was generated. -/
inductive GenerateError
  | compile (cause : CompileError)
  | io (cause : IoError)
  deriving DecidableEq

namespace GenerateError

def message : GenerateError → String
  | compile cause => cause.message
  | io cause => "IO error: " ++ cause.message

/-- The message of an error, followed by those of its causes from the nearest on. -/
def chain (e : GenerateError) : List String :=
  e.message ::
  match e with
  | compile cause => cause.fault.chain
  | io cause => [cause.message]

end GenerateError

/-- The source text of the tables of a dictionary under a root element. -/
def generateNode (root : Node) (config : CompilerConfig) (emitter : EmitterConfig) :
    Traced CompileError String := do
  (← Spec.compile root config).emit emitter

/-- The source text of the tables of a dictionary document. -/
def generateText (document : String) (config : CompilerConfig) (emitter : EmitterConfig) :
    Traced CompileError String := do
  (← Spec.compileText document config).emit emitter

/-- The configuration for a document read from a file: the banner names the file unless it names
something else. -/
def EmitterConfig.forFile (c : EmitterConfig) (path : String) : EmitterConfig :=
  { c with sourceName := c.sourceName.or (FileSystem.fileName? path) }

/-- The source text for a document of which `bytes` is what reading its file gave. -/
def generateBytes (path : String) (bytes : Except IoError ByteArray) (config : CompilerConfig)
    (emitter : EmitterConfig) : Traced GenerateError String :=
  match bytes >>= FileSystem.decodeText with
  | .error cause => .fail (.io cause)
  | .ok document => (generateText document config (emitter.forFile path)).mapError .compile

/-- The source text for the dictionary in a file. -/
def FileSystem.generateFile (fs : FileSystem) (path : String) (config : CompilerConfig)
    (emitter : EmitterConfig) : Traced GenerateError String :=
  generateBytes path (fs.readBytes path) config emitter

end FixTables
