import FixTables.FieldType
import FixTables.Location
import FixTables.Markup.Node
import FixTables.Text.Blank

namespace FixTables

/-- One value of an enumerated field. -/
structure EnumValue where
  code : String
  description : String
  deriving DecidableEq

/-- A field of a dictionary. `related` is the tag of the field that counts its bytes, or whose bytes
it counts, and 0 without one. A field without `values` is not enumerated. -/
structure Field where
  tag : Nat
  name : String
  type : FieldType
  location : Location
  related : Nat
  values : List EnumValue
  description : Option String
  deriving DecidableEq

namespace Field

/-- A body field without values, description and relation. -/
def plain (tag : Nat) (name : String) (type : FieldType) : Field :=
  ⟨tag, name, type, .body, 0, [], none⟩

def isEnumerated (f : Field) : Bool := !f.values.isEmpty

/-- The largest tag. -/
def maxTag : Nat := 0xffffffff

/-- How errors call a declaration without a name. -/
def unnamed : String := "<unnamed>"

def readName (n : Node) : Except SchemaError String :=
  match n.attribute? "name" with
  | none | some "" => .error (.invalidField unnamed "missing name")
  | some name => .ok name

def readTag (name : String) (n : Node) : Except SchemaError Nat :=
  match n.attribute? "number" with
  | none => .error (.invalidField name "missing tag number")
  | some raw =>
    match readUnsigned maxTag (trimBlanks raw) with
    | .error _ => .error (.invalidField name s!"non-numeric tag '{raw}'")
    | .ok 0 => .error (.invalidField name "tag must be positive")
    | .ok tag => .ok tag

def readType (name : String) (n : Node) : Except SchemaError FieldType :=
  let typeName := n.attributeD "type"
  match FieldType.ofSpelling? typeName with
  | some type => .ok type
  | none => .error (.unknownFieldType name typeName)

/-- Adds the value that an element declares, under a code not used before. -/
def addValue (name : String) (values : List EnumValue) (n : Node) :
    Except SchemaError (List EnumValue) :=
  match n.attribute? "enum" with
  | none => .error (.invalidField name "value without enum code")
  | some code =>
    if values.any (·.code = code) then
      .error (.invalidField name s!"duplicate enum code '{code}'")
    else .ok (values ++ [⟨code, n.attributeD "description"⟩])

/-- The field that an element declares. Its name is looked at first, then its tag, its type and its
values. -/
def ofNode (n : Node) : Except SchemaError Field := do
  let name ← readName n
  let tag ← readTag name n
  let type ← readType name n
  let values ← (n.childrenNamed "value").foldlM (addValue name) []
  return { plain tag name type with values, description := n.attribute? "description" }

end Field

end FixTables
