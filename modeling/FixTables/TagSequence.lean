import FixTables.Error
import FixTables.Notice
import FixTables.Resolved

namespace FixTables

/-- The expected positions of the members of a list, by tag: counted from one, and 0 for a tag that
has no position. -/
structure TagSequence where
  slots : Array Nat
  deriving DecidableEq

namespace TagSequence

/-- The largest position, and so the largest number of members in a list. -/
def maxMembers : Nat := 0xffff

/-- The number of slots; a tag from there on has no position. -/
def bound (s : TagSequence) : Nat := s.slots.size

def position (s : TagSequence) (tag : Nat) : Option Nat :=
  match s.slots[tag]? with
  | none | some 0 => none
  | some n => some n

/-- Whether the field `next` may come right after the field `prev`. -/
def inOrder (s : TagSequence) (prev next : Nat) : Bool :=
  match s.position prev, s.position next with
  | some p, some n => p < n
  | _, _ => false

/-- The tags that have a position, with it, ascending by tag. -/
def entries (s : TagSequence) : List (Nat × Nat) :=
  (s.slots.toList.zipIdx.filter (·.1 != 0)).map fun (n, tag) => (tag, n)

/-- A table under construction: the position of the next member, and the notices given so far, the
latest first. -/
structure Filling where
  slots : Array Nat
  next : Nat
  notices : List Notice

/-- Enters a member unless it has no tag, or a tag outside the table or already entered. It takes
up a position all the same. -/
def Filling.place (owner : String) : Filling → Resolved → Filling
  | ⟨slots, next, notices⟩, m =>
    match m.tag? with
    | none => ⟨slots, next + 1, notices⟩
    | some tag =>
      if h : tag < slots.size then
        if slots[tag] = 0 then ⟨slots.set tag next, next + 1, notices⟩
        else ⟨slots, next + 1, .tagRepeated owner tag m.name :: notices⟩
      else ⟨slots, next + 1, .tagOutsideTable owner tag slots.size m.name :: notices⟩

/-- The table of a list of members. -/
def build (members : List Resolved) (bound : Nat) (owner : String) :
    Traced SchemaError TagSequence :=
  let filled := (members.take maxMembers).foldl (Filling.place owner) ⟨.replicate bound 0, 1, []⟩
  ⟨filled.notices.reverse,
    if members.length ≤ maxMembers then .ok ⟨filled.slots⟩
    else .error (.invalidMessage owner s!"more than {maxMembers} members")⟩

end TagSequence

end FixTables
