import FixTables.Field
import FixTables.Notice
import FixTables.TypeId

namespace FixTables

/-- Whether a message serves the session or the application. -/
inductive MessageCategory
  | admin
  | app
  deriving DecidableEq

namespace MessageCategory

def name : MessageCategory → String
  | admin => "Admin"
  | app => "App"

def ofAttribute? : String → Option MessageCategory
  | "admin" => some admin
  | "app" => some app
  | _ => none

end MessageCategory

/-- A message with its own members between the header and the trailer that all messages share. -/
structure Message where
  name : String
  msgType : String
  category : MessageCategory
  description : Option String
  header : List Member
  body : List Member
  trailer : List Member

namespace Message

/-- The longest message type, in bytes. -/
def maxTypeLength : Nat := 8

def members (m : Message) : List Member := m.header ++ m.body ++ m.trailer

def typeId (m : Message) : UInt64 := packTypeId m.msgType

def isAdmin (m : Message) : Bool := m.category = .admin

/-- An application message with the given parts, if its name and its message type are allowed. -/
def make (name msgType : String) (header body trailer : List Member) :
    Except SchemaError Message :=
  if name = "" then .error (.invalidMessage Field.unnamed "missing name")
  else if msgType = "" ∨ maxTypeLength < msgType.utf8ByteSize then
    .error (.invalidMessage name s!"msgtype '{msgType}' must be 1 to {maxTypeLength} bytes")
  else .ok ⟨name, msgType, .app, none, header, body, trailer⟩

def readCategory (name : String) (n : Node) : Except SchemaError MessageCategory :=
  match n.attribute? "msgcat" with
  | none => .ok .app
  | some raw =>
    match MessageCategory.ofAttribute? raw with
    | some category => .ok category
    | none => .error (.invalidMessage name s!"unknown msgcat '{raw}'")

def ofNode (header trailer : List Member) (n : Node) : Except SchemaError Message := do
  let m ← make (n.attributeD "name") (n.attributeD "msgtype") header (Member.childrenOf n) trailer
  return { m with category := ← readCategory m.name n, description := n.attribute? "description" }

end Message

/-- The messages of one dictionary version, in the order of their registration. -/
structure MessageRegistry where
  messages : List Message

namespace MessageRegistry

def empty : MessageRegistry := ⟨[]⟩

def lookup (r : MessageRegistry) (msgType : String) : Option Message :=
  r.messages.find? (·.msgType = msgType)

def lookupName (r : MessageRegistry) (name : String) : Option Message :=
  r.messages.find? (·.name = name)

/-- Adds a message whose type and name are both new. -/
def register (r : MessageRegistry) (m : Message) : Traced SchemaError MessageRegistry :=
  match r.lookup m.msgType, r.lookupName m.name with
  | some _, _ => .fail (.duplicateName "msgtype" m.msgType)
  | none, some _ => .fail (.duplicateName "message" m.name)
  | none, none => do
    .note (.registeredMessage m.msgType m.name m.members.length)
    return ⟨r.messages ++ [m]⟩

def registerNode (header trailer : List Member) (r : MessageRegistry) (n : Node) :
    Traced SchemaError MessageRegistry := do
  r.register (← .ofExcept (Message.ofNode header trailer n))

def ofSection (header trailer : List Member) (sectionNode : Node) :
    Traced SchemaError MessageRegistry :=
  (sectionNode.childrenNamed "message").foldlM (registerNode header trailer) empty

def sortedByType (r : MessageRegistry) : List Message :=
  r.messages.mergeSort (·.msgType ≤ ·.msgType)

end MessageRegistry

end FixTables
