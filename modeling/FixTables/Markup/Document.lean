import FixTables.Markup.Node

namespace FixTables

/-- Why the tags of a document do not form one tree. -/
inductive StructureError
  | secondRoot (name : String)
  | unclosed (name : String)
  | noRoot
  deriving DecidableEq

def StructureError.message : StructureError → String
  | .secondRoot name => s!"second root element <{name}>"
  | .unclosed name => s!"unclosed element <{name}>"
  | .noRoot => "no root element found"

/-- A document read in part: the open elements, innermost first, each with the children finished so
far, and the root once it is finished. -/
structure PartialDocument where
  opened : List Node
  root : Option Node

namespace PartialDocument

def empty : PartialDocument := ⟨[], none⟩

/-- Hands a finished element to the innermost open one, or makes it the root. -/
def finish (n : Node) : PartialDocument → Except StructureError PartialDocument
  | ⟨parent :: outer, root⟩ => .ok ⟨parent.append n :: outer, root⟩
  | ⟨[], none⟩ => .ok ⟨[], some n⟩
  | ⟨[], some _⟩ => .error (.secondRoot n.name)

def step (d : PartialDocument) : Event → Except StructureError PartialDocument
  | .openTag name attributes => .ok ⟨⟨name, .ofList attributes, []⟩ :: d.opened, d.root⟩
  | .emptyTag name attributes => d.finish ⟨name, .ofList attributes, []⟩
  | .closeTag _ =>
    match d.opened with
    | n :: outer => finish n ⟨outer, d.root⟩
    | [] => .ok d
  | .aside _ => .ok d

/-- The document's tree, once every event is read. -/
def result (d : PartialDocument) : Except StructureError Node :=
  match d.opened, d.root with
  | n :: _, _ => .error (.unclosed n.name)
  | [], some root => .ok root
  | [], none => .error .noRoot

end PartialDocument

/-- The tree that a complete sequence of events spells. -/
def Node.ofEvents (events : List Event) : Except StructureError Node := do
  (← events.foldlM PartialDocument.step .empty).result

/-- The tree of a document's root element. Of several faults the one met first is reported; an open
element and a missing root show only at the end. -/
def Node.parse (s : String) : Except ParseError Node :=
  let stream := EventStream.ofString s
  let structural {α : Type} (r : Except StructureError α) : Except ParseError α :=
    r.mapError (.invalidStructure ·.message)
  match stream.failure with
  | none => structural (ofEvents stream.events)
  | some cause => do
    let _ ← structural (stream.events.foldlM PartialDocument.step .empty)
    .error (.xml cause)

end FixTables
