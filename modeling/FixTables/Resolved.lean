namespace FixTables

/-- A member whose name has been looked up. A group holds the members of each of its entries. -/
inductive Resolved
  | field (tag : Nat) (name : String) (required : Bool)
  | group (countTag : Nat) (name : String) (required : Bool) (members : List Resolved)
  | unresolved (name : String)

namespace Resolved

/-- The tag that a member takes up in the table of the list it stands in. -/
def tag? : Resolved → Option Nat
  | field tag _ _ => some tag
  | group countTag _ _ _ => some countTag
  | unresolved _ => none

def name : Resolved → String
  | field _ name _ => name
  | group _ name _ _ => name
  | unresolved name => name

def required : Resolved → Bool
  | field _ _ required => required
  | group _ _ required _ => required
  | unresolved _ => false

mutual
/-- The larger of `max` and the tags in a member, those inside its groups included. -/
def maxTagFrom (max : Nat) : Resolved → Nat
  | field tag _ _ => Nat.max max tag
  | group countTag _ _ members => maxTagsFrom (Nat.max max countTag) members
  | unresolved _ => max
def maxTagsFrom (max : Nat) : List Resolved → Nat
  | [] => max
  | m :: ms => maxTagsFrom (maxTagFrom max m) ms
end

/-- The largest tag in a list of members at any depth, 0 without one. -/
def maxTag (members : List Resolved) : Nat := maxTagsFrom 0 members

end Resolved

end FixTables
