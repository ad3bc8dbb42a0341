import FixTables.Error
import FixTables.Markup.Attributes
import FixTables.Markup.EventStream

namespace FixTables

/-- An element of a document with its attributes and child elements in document order. -/
structure Node where
  name : String
  attributes : Attributes
  children : List Node

namespace Node

/-- An element without attributes and children. -/
def leaf (name : String) : Node := ⟨name, .empty, []⟩

def withAttribute (n : Node) (name value : String) : Node :=
  { n with attributes := n.attributes.insert name value }

def append (n child : Node) : Node := { n with children := n.children ++ [child] }

def attribute? (n : Node) (name : String) : Option String := n.attributes.get? name

/-- The value of an attribute, or `""` where it is absent. -/
def attributeD (n : Node) (name : String) : String := (n.attribute? name).getD ""

def requireAttribute (n : Node) (name : String) : Except ParseError String :=
  match n.attribute? name with
  | some value => .ok value
  | none => .error (.missingAttribute n.name name)

/-- The children with the given name, in document order. -/
def childrenNamed (n : Node) (name : String) : List Node := n.children.filter (·.name = name)

mutual
/-- The first descendant with the given name, depth first in document order. -/
def find? (name : String) : Node → Option Node
  | ⟨_, _, children⟩ => findIn? name children
def findIn? (name : String) : List Node → Option Node
  | [] => none
  | n :: ns => if n.name = name then some n else (find? name n).or (findIn? name ns)
end

mutual
protected def decEq : (a b : Node) → Decidable (a = b)
  | ⟨n, as, cs⟩, ⟨m, bs, ds⟩ =>
    match String.decEq n m, Attributes.decEq as bs, Node.decEqs cs ds with
    | .isTrue h, .isTrue h₁, .isTrue h₂ => .isTrue (by rw [h, h₁, h₂])
    | .isFalse h, _, _ => .isFalse (by rintro ⟨⟩; exact h rfl)
    | _, .isFalse h, _ => .isFalse (by rintro ⟨⟩; exact h rfl)
    | _, _, .isFalse h => .isFalse (by rintro ⟨⟩; exact h rfl)
protected def decEqs : (as bs : List Node) → Decidable (as = bs)
  | [], [] => .isTrue rfl
  | [], _ :: _ => .isFalse (by simp)
  | _ :: _, [] => .isFalse (by simp)
  | a :: as, b :: bs =>
    match Node.decEq a b, Node.decEqs as bs with
    | .isTrue h, .isTrue h₁ => .isTrue (by rw [h, h₁])
    | .isFalse h, _ => .isFalse (by rintro ⟨⟩; exact h rfl)
    | _, .isFalse h => .isFalse (by rintro ⟨⟩; exact h rfl)
end

instance : DecidableEq Node := Node.decEq

end Node

end FixTables
