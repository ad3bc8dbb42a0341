import FixTables.Markup.Error

namespace FixTables

/-- Why the parts of a dictionary do not form a schema. -/
inductive SchemaError
  | invalidField (name reason : String)
  | duplicateTag (tag : Nat) (name existing : String)
  | duplicateName (kind name : String)
  | unknownFieldType (field typeName : String)
  | unresolvedHeaderField (name : String)
  | unresolvedTrailerField (name : String)
  | unresolvedReference (name context : String)
  | cyclicReference (path : List String)
  | invalidMessage (name reason : String)
  deriving DecidableEq

def SchemaError.message : SchemaError → String
  | .invalidField name reason => s!"invalid field '{name}': {reason}"
  | .duplicateTag tag name existing =>
    s!"duplicate tag {tag}: field '{name}' collides with '{existing}'"
  | .duplicateName kind name => s!"duplicate {kind} name '{name}'"
  | .unknownFieldType field typeName => s!"unknown field type '{typeName}' for field '{field}'"
  | .unresolvedHeaderField name =>
    s!"header member '{name}' does not resolve to a registered field"
  | .unresolvedTrailerField name =>
    s!"trailer member '{name}' does not resolve to a registered field"
  | .unresolvedReference name context => s!"unresolved reference '{name}' in {context}"
  | .cyclicReference path => "cyclic component reference: " ++ " -> ".intercalate path
  | .invalidMessage name reason => s!"invalid message '{name}': {reason}"

/-- Why a text does not hold a dictionary document. -/
inductive ParseError
  | xml (cause : MarkupError)
  | missingAttribute (element key : String)
  | invalidAttribute (element key value : String)
  | missingSection (name : String)
  | invalidStructure (fault : String)
  deriving DecidableEq

def ParseError.message : ParseError → String
  | .xml cause => "XML parsing error: " ++ cause.message
  | .missingAttribute element key =>
    s!"missing required attribute '{key}' on element '{element}'"
  | .invalidAttribute element key value =>
    s!"invalid value '{value}' for attribute '{key}' on element '{element}'"
  | .missingSection name => s!"missing <{name}> section"
  | .invalidStructure fault => "invalid document structure: " ++ fault

/-- The message of an error, followed by those of its causes from the nearest on. -/
def ParseError.chain (e : ParseError) : List String :=
  e.message ::
  match e with
  | .xml cause => cause.chain
  | _ => []

/-- What stopped a compilation. -/
inductive CompileFault
  | parse (cause : ParseError)
  | schema (cause : SchemaError)
  deriving DecidableEq

def CompileFault.message : CompileFault → String
  | .parse cause => cause.message
  | .schema cause => cause.message

def CompileFault.chain : CompileFault → List String
  | .parse cause => cause.chain
  | .schema cause => [cause.message]

/-- A fault together with the label of the version it was found in. -/
structure CompileError where
  version : String
  fault : CompileFault
  deriving DecidableEq

def CompileError.message (e : CompileError) : String := s!"{e.version}: {e.fault.message}"

end FixTables
