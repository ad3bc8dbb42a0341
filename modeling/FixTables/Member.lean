import FixTables.Markup.Node

namespace FixTables

/-- What a member of a message refers to. -/
inductive MemberKind
  | field
  | group
  | component
  deriving DecidableEq

/-- The element that declares members of a kind. -/
def MemberKind.element : MemberKind → String
  | .field => "field"
  | .group => "group"
  | .component => "component"

def MemberKind.ofElement? (name : String) : Option MemberKind :=
  [MemberKind.field, .group, .component].find? (·.element = name)

/-- A reference to a field, a repeating group or a component, with the members declared inside it.
`requiredDeclared` tells whether the declaration said at all if it is required. -/
structure Member where
  name : String
  kind : MemberKind
  required : Bool
  requiredDeclared : Bool
  children : List Member

namespace Member

def field (name : String) (required : Bool) : Member := ⟨name, .field, required, true, []⟩

def component (name : String) (required : Bool) : Member := ⟨name, .component, required, true, []⟩

def group (name : String) (required : Bool) (children : List Member) : Member :=
  ⟨name, .group, required, true, children⟩

/-- The root of a named fragment: a component's body, the header or the trailer. -/
def root (name : String) (children : List Member) : Member :=
  ⟨name, .component, true, false, children⟩

mutual
/-- The member that an element declares; `none` for elements that declare none. -/
def ofNode? : Node → Option Member
  | ⟨element, attributes, children⟩ =>
    (MemberKind.ofElement? element).map fun kind =>
      { name := (attributes.get? "name").getD ""
        kind
        required := attributes.get? "required" = some "Y"
        requiredDeclared := (attributes.get? "required").isSome
        children := ofNodes children }
/-- The members that a list of elements declares, in document order. -/
def ofNodes : List Node → List Member
  | [] => []
  | n :: ns =>
    match ofNode? n with
    | some m => m :: ofNodes ns
    | none => ofNodes ns
end

/-- The members declared directly under an element. -/
def childrenOf (n : Node) : List Member := ofNodes n.children

end Member

end FixTables
