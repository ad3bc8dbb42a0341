import FixTables.Field
import FixTables.Notice

namespace FixTables

/-- The fields of one dictionary version, in the order of their registration. -/
structure FieldRegistry where
  fields : List Field

namespace FieldRegistry

def empty : FieldRegistry := ⟨[]⟩

def lookup (r : FieldRegistry) (name : String) : Option Field := r.fields.find? (·.name = name)

def lookupTag (r : FieldRegistry) (tag : Nat) : Option Field := r.fields.find? (·.tag = tag)

/-- Adds a field whose name and tag are both new. -/
def register (r : FieldRegistry) (f : Field) : Traced SchemaError FieldRegistry :=
  match r.lookup f.name, r.lookupTag f.tag with
  | some _, _ => .fail (.duplicateName "field" f.name)
  | none, some existing => .fail (.duplicateTag f.tag f.name existing.name)
  | none, none => do
    .note (.registeredField f.tag f.name)
    return ⟨r.fields ++ [f]⟩

def registerNode (r : FieldRegistry) (n : Node) : Traced SchemaError FieldRegistry := do
  r.register (← .ofExcept (Field.ofNode n))

/-- Whether a name starts another, longer one. -/
def startsLonger (name longer : String) : Bool :=
  name.toList.isPrefixOf longer.toList && name != longer

/-- Whether `data` may hold the bytes that `length` counts. -/
def isCandidate (length data : Field) : Bool :=
  !data.type.isLength && startsLonger data.name length.name

/-- Walks through the fields and gives each length field without a partner the first candidate not
yet taken. `taken` holds the tags of the fields that have a partner. -/
def pairUp (fields : List Field) : List Nat → List Field → List (Nat × Nat)
  | _, [] => []
  | taken, l :: ls =>
    if l.type.isLength && !taken.contains l.tag then
      match fields.find? fun d => !taken.contains d.tag && isCandidate l d with
      | some d => (l.tag, d.tag) :: pairUp fields (l.tag :: d.tag :: taken) ls
      | none => pairUp fields taken ls
    else pairUp fields taken ls

/-- The pairs still to be made, each as the tags of the length field and of the data field. -/
def lengthPairs (r : FieldRegistry) : List (Nat × Nat) :=
  pairUp r.fields ((r.fields.filter (·.related != 0)).map (·.tag)) r.fields

/-- Lets the two fields of a pair point at each other. -/
def relate (r : FieldRegistry) (pair : Nat × Nat) : FieldRegistry :=
  ⟨r.fields.map fun f =>
    if f.tag = pair.1 then { f with related := pair.2 }
    else if f.tag = pair.2 then { f with related := pair.1 }
    else f⟩

def pairLengths (r : FieldRegistry) : Traced SchemaError FieldRegistry :=
  ⟨r.lengthPairs.map fun (l, d) => .pairedLength l d, .ok (r.lengthPairs.foldl relate r)⟩

/-- Registers the fields of a section and pairs length fields with data fields. -/
def ofSection (sectionNode : Node) : Traced SchemaError FieldRegistry := do
  pairLengths (← (sectionNode.childrenNamed "field").foldlM registerNode empty)

/-- Moves a field to another part of its messages; `none` where no field has the name. -/
def setLocation (r : FieldRegistry) (name : String) (location : Location) : Option FieldRegistry :=
  if r.fields.any (·.name = name) then
    some ⟨r.fields.map fun f => if f.name = name then { f with location } else f⟩
  else none

def sortedByTag (r : FieldRegistry) : List Field := r.fields.mergeSort (·.tag ≤ ·.tag)

end FieldRegistry

end FixTables
