import FixTables.MessageRegistry
import FixTables.TagSequence

namespace FixTables

/-- The layout of a repeating group: the tag that starts each entry, the positions of the members
of an entry, and the groups nested in it. -/
structure GroupLayout where
  name : String
  countTag : Nat
  delimiterTag : Nat
  sequence : TagSequence
  groups : List GroupLayout

namespace GroupLayout

/-- The first tag in a list of members. -/
def delimiter (owner name : String) (members : List Resolved) : Except SchemaError Nat :=
  match members.findSome? Resolved.tag? with
  | some tag => .ok tag
  | none => .error (.invalidMessage owner s!"group '{name}' has no members")

mutual
/-- The layout of a member that is a group. -/
def ofMember? (bound : Nat) (owner : String) : Resolved → Option (Traced SchemaError GroupLayout)
  | .group countTag name _ members => some do
    let delimiterTag ← .ofExcept (delimiter owner name members)
    let sequence ← TagSequence.build members bound owner
    let groups ← ofMembers bound owner members
    return { name, countTag, delimiterTag, sequence, groups }
  | _ => none
/-- The layouts of the groups in a list of members, in order. -/
def ofMembers (bound : Nat) (owner : String) :
    List Resolved → Traced SchemaError (List GroupLayout)
  | [] => return []
  | m :: ms =>
    match ofMember? bound owner m with
    | some layout => return (← layout) :: (← ofMembers bound owner ms)
    | none => ofMembers bound owner ms
end

mutual
/-- The first group with the given count tag, an outer one before those nested in it. -/
def find? (countTag : Nat) : GroupLayout → Option GroupLayout
  | ⟨name, tag, delimiterTag, sequence, groups⟩ =>
    if tag = countTag then some ⟨name, tag, delimiterTag, sequence, groups⟩
    else findIn? countTag groups
def findIn? (countTag : Nat) : List GroupLayout → Option GroupLayout
  | [] => none
  | g :: gs => (find? countTag g).or (findIn? countTag gs)
end

end GroupLayout

/-- The layout of a message: its members, header and trailer included, their positions, and the
groups among them. -/
structure MessageLayout where
  name : String
  msgType : String
  typeId : UInt64
  members : List Resolved
  sequence : TagSequence
  groups : List GroupLayout

namespace MessageLayout

def build (m : Message) (members : List Resolved) (bound : Nat) :
    Traced SchemaError MessageLayout := do
  let sequence ← TagSequence.build members bound m.name
  let groups ← GroupLayout.ofMembers bound m.name members
  return { name := m.name, msgType := m.msgType, typeId := m.typeId, members, sequence, groups }

def position (l : MessageLayout) (tag : Nat) : Option Nat := l.sequence.position tag

/-- The first group with the given count tag, at any depth. -/
def group? (l : MessageLayout) (countTag : Nat) : Option GroupLayout :=
  GroupLayout.findIn? countTag l.groups

end MessageLayout

end FixTables
