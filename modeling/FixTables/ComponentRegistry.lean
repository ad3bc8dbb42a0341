import FixTables.Field
import FixTables.Notice

namespace FixTables

/-- A named fragment of members that messages and other components share. -/
structure Component where
  name : String
  members : List Member

namespace Component

/-- The members under one root that bears the component's name. -/
def root (c : Component) : Member := .root c.name c.members

def ofNode (n : Node) : Except SchemaError Component :=
  match n.attribute? "name" with
  | none | some "" => .error (.invalidField Field.unnamed "component without name")
  | some name => .ok ⟨name, Member.childrenOf n⟩

end Component

/-- The components of one dictionary version, in the order of their registration. -/
structure ComponentRegistry where
  components : List Component

namespace ComponentRegistry

def empty : ComponentRegistry := ⟨[]⟩

def lookup (r : ComponentRegistry) (name : String) : Option Component :=
  r.components.find? (·.name = name)

/-- Adds a component whose name is new. -/
def register (r : ComponentRegistry) (c : Component) : Traced SchemaError ComponentRegistry :=
  match r.lookup c.name with
  | some _ => .fail (.duplicateName "component" c.name)
  | none => do
    .note (.registeredComponent c.name c.members.length)
    return ⟨r.components ++ [c]⟩

def registerNode (r : ComponentRegistry) (n : Node) : Traced SchemaError ComponentRegistry := do
  r.register (← .ofExcept (Component.ofNode n))

def ofSection (sectionNode : Node) : Traced SchemaError ComponentRegistry :=
  (sectionNode.childrenNamed "component").foldlM registerNode empty

end ComponentRegistry

end FixTables
