import FixTables.Markup.Node
import FixTables.Text.Blank

namespace FixTables

/-- The version of a dictionary; a transport version is one of the session layer alone. -/
structure Version where
  major : Nat
  minor : Nat
  servicePack : Nat
  transport : Bool
  deriving DecidableEq

namespace Version

/-- The name of a dictionary's root element. -/
def rootElement : String := "fix"

/-- The largest part of a version. -/
def maxPart : Nat := 0xff

def readPart (root : Node) (key : String) : Except ParseError Nat := do
  let raw ← root.requireAttribute key
  match readUnsigned maxPart (trimBlanks raw) with
  | .ok n => .ok n
  | .error _ => .error (.invalidAttribute rootElement key raw)

/-- The service pack, 0 if none is declared. -/
def readServicePack (root : Node) : Except ParseError Nat :=
  if (root.attribute? "servicepack").isSome then readPart root "servicepack" else .ok 0

/-- The version that a root element declares. The service pack is looked at first. -/
def ofNode (root : Node) : Except ParseError Version := do
  if root.name ≠ rootElement then
    throw (.invalidStructure s!"expected <fix> root element, found <{root.name}>")
  let servicePack ← readServicePack root
  let major ← readPart root "major"
  let minor ← readPart root "minor"
  return { major, minor, servicePack, transport := root.attribute? "type" = some "FIXT" }

def family (v : Version) : String := if v.transport then "FIXT" else "FIX"

/-- The mark of a service pack after `gap`, nothing without one. -/
def servicePackMark (v : Version) (gap : String) : String :=
  if v.servicePack = 0 then "" else s!"{gap}SP{v.servicePack}"

/-- The value of the first field of every message of this version. -/
def beginString (v : Version) : String :=
  s!"{v.family}.{v.major}.{v.minor}" ++ v.servicePackMark ""

/-- The version as readers know it. -/
def label (v : Version) : String :=
  s!"{v.family} {v.major}.{v.minor}" ++ v.servicePackMark " "

/-- The identifier of the version in generated code. -/
def symbol (v : Version) : String :=
  s!"{v.family}{v.major}{v.minor}" ++ v.servicePackMark ""

end Version

end FixTables
