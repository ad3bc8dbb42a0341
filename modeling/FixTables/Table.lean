import FixTables.BinarySearch
import FixTables.Location
import FixTables.TagSequence
import FixTables.Text.Quoted
import FixTables.WireType

namespace FixTables

/-- What a tag table tells about a field. `lead` is how the field starts on the wire, the digits of
its tag and an equals sign, and `tagLength` the number of those digits. -/
structure TagRow where
  tag : Nat
  wireType : WireType
  location : Location
  related : Nat
  tagLength : Nat
  lead : String
  deriving DecidableEq

namespace TagRow

def make (tag : Nat) (wireType : WireType) (location : Location) (related : Nat) : TagRow :=
  let digits := Nat.repr tag
  { tag, wireType, location, related, tagLength := digits.length, lead := digits ++ "=" }

/-- The row that ends a tag table. -/
def sentinel : TagRow := ⟨0, .string, .body, 0, 0, ""⟩

def isSentinel (r : TagRow) : Bool := r.tag = 0

/-- The rows of a table before its sentinel. -/
def withoutSentinel (rows : Array TagRow) : Array TagRow :=
  match rows.back? with
  | some last => if last.isSentinel then rows.pop else rows
  | none => rows

/-- The row of a tag in a table that ascends by tag. The sentinel is never found. -/
def find? (rows : Array TagRow) (tag : Nat) : Option TagRow :=
  if tag = 0 then none else binarySearch (fun r => compare r.tag tag) (withoutSentinel rows)

end TagRow

/-- The table of a repeating group, for the members of one entry. -/
structure GroupTable where
  countTag : Nat
  delimiterTag : Nat
  sequence : TagSequence
  groups : List GroupTable

namespace GroupTable

/-- The group that a path of count tags leads to, each step being to the first group of its tag. -/
def at? : List GroupTable → List Nat → Option GroupTable
  | _, [] => none
  | gs, [tag] => gs.find? (·.countTag = tag)
  | gs, tag :: tags =>
    match gs.find? (·.countTag = tag) with
    | some g => at? g.groups tags
    | none => none

end GroupTable

/-- The table of a message. -/
structure MessageTable where
  typeId : UInt64
  msgType : String
  name : String
  sequence : TagSequence
  groups : List GroupTable

namespace MessageTable

/-- The first group of the message itself with the given count tag. -/
def group? (m : MessageTable) (countTag : Nat) : Option GroupTable :=
  m.groups.find? (·.countTag = countTag)

/-- The parts of a message that a description shows, with the begin string of its version. -/
def described (m : MessageTable) (beginString : String) : List (String × String) :=
  [("version", quoted beginString), ("tid", toString m.typeId), ("msg_type", quoted m.msgType),
    ("name", quoted m.name), ("groups", toString m.groups.length)]

/-- A description in one line. -/
def describe (m : MessageTable) (beginString : String) : String :=
  let parts := (m.described beginString).map fun (key, value) => s!"{key}: {value}, "
  "MsgSpec \x7b " ++ String.join parts ++ ".. \x7d"

/-- A description with one part to a line. -/
def describeLines (m : MessageTable) (beginString : String) : String :=
  let parts := (m.described beginString).map fun (key, value) => s!"    {key}: {value},\n"
  "MsgSpec \x7b\n" ++ String.join parts ++ "    ..\n\x7d"

end MessageTable

/-- The tables of one version: a row for every field, and the messages in the order of their
types. -/
structure VersionTable where
  major : Nat
  minor : Nat
  servicePack : Nat
  beginString : String
  tags : Array TagRow
  messages : Array MessageTable

namespace VersionTable

def tag? (v : VersionTable) (tag : Nat) : Option TagRow := TagRow.find? v.tags tag

def message? (v : VersionTable) (msgType : String) : Option MessageTable :=
  binarySearch (fun m => compare m.msgType msgType) v.messages

end VersionTable

end FixTables
