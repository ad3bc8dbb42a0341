import FixTables.Identifier
import FixTables.Spec
import FixTables.Table

namespace FixTables

/-- A group table with the identifier it is declared under. -/
structure GroupListing where
  identifier : String
  name : String
  countTag : Nat
  delimiterTag : Nat
  sequence : TagSequence
  groups : List GroupListing

/-- A message table with the identifier it is declared under. -/
structure MessageListing where
  identifier : String
  name : String
  msgType : String
  typeId : UInt64
  sequence : TagSequence
  groups : List GroupListing

/-- The tables of a version with all identifiers settled. -/
structure Listing where
  version : Version
  symbol : String
  tagsIdentifier : String
  rows : List TagRow
  messages : List MessageListing

/-- Declares an identifier close to `base`; gives it and all identifiers taken then. -/
def declareIdentifier (taken : List String) (base : String) : String × List String :=
  let identifier := uniqueIdentifier taken base
  (identifier, identifier :: taken)

def childIdentifier (parent name : String) : String := s!"{parent}_{screamingSnake name}"

mutual
/-- Names a group after its parent, before the groups nested in it. -/
def GroupListing.ofLayout (parent : String) (taken : List String) :
    GroupLayout → GroupListing × List String
  | ⟨name, countTag, delimiterTag, sequence, groups⟩ =>
    let (identifier, taken₁) := declareIdentifier taken (childIdentifier parent name)
    let (nested, taken₂) := GroupListing.ofLayouts identifier taken₁ groups
    (⟨identifier, name, countTag, delimiterTag, sequence, nested⟩, taken₂)
def GroupListing.ofLayouts (parent : String) (taken : List String) :
    List GroupLayout → List GroupListing × List String
  | [] => ([], taken)
  | g :: gs =>
    let (first, taken₁) := GroupListing.ofLayout parent taken g
    let (others, taken₂) := GroupListing.ofLayouts parent taken₁ gs
    (first :: others, taken₂)
end

namespace Listing

/-- Declares the identifiers of the messages, in order. -/
def declareMessages (symbol : String) (taken : List String) :
    List MessageLayout → List (String × MessageLayout) × List String
  | [] => ([], taken)
  | l :: ls =>
    let (identifier, taken₁) := declareIdentifier taken (childIdentifier symbol l.name)
    let (others, taken₂) := declareMessages symbol taken₁ ls
    ((identifier, l) :: others, taken₂)

/-- Declares the identifiers of the groups, message by message. -/
def declareGroups (withGroups : Bool) (taken : List String) :
    List (String × MessageLayout) → List MessageListing
  | [] => []
  | (identifier, l) :: ls =>
    let (groups, taken₁) :=
      if withGroups then GroupListing.ofLayouts identifier taken l.groups else ([], taken)
    { identifier, name := l.name, msgType := l.msgType, typeId := l.typeId,
      sequence := l.sequence, groups } :: declareGroups withGroups taken₁ ls

end Listing

/-- The rows of a specification's tag table, ascending by tag. -/
def Spec.tagRows (s : Spec) : List TagRow :=
  s.fields.sortedByTag.map fun f => .make f.tag f.type.wireType f.location f.related

/-- The tables of a specification, with groups or without. The version's own identifier comes first,
then that of the tag table, the messages' and the groups'. -/
def Spec.listing (s : Spec) (withGroups : Bool) : Listing :=
  let symbol := s.version.symbol
  let (tagsIdentifier, taken) := declareIdentifier [symbol] s!"{symbol}_TAGS"
  let (messages, taken₁) := Listing.declareMessages symbol taken s.layouts
  { version := s.version, symbol, tagsIdentifier, rows := s.tagRows,
    messages := Listing.declareGroups withGroups taken₁ messages }

mutual
def GroupListing.table : GroupListing → GroupTable
  | ⟨_, _, countTag, delimiterTag, sequence, groups⟩ =>
    ⟨countTag, delimiterTag, sequence, GroupListing.tables groups⟩
def GroupListing.tables : List GroupListing → List GroupTable
  | [] => []
  | g :: gs => g.table :: GroupListing.tables gs
end

def MessageListing.table (m : MessageListing) : MessageTable :=
  ⟨m.typeId, m.msgType, m.name, m.sequence, GroupListing.tables m.groups⟩

/-- The tables that the declarations of a listing hold. -/
def Listing.table (l : Listing) : VersionTable :=
  { major := l.version.major, minor := l.version.minor, servicePack := l.version.servicePack
    beginString := l.version.beginString
    tags := (l.rows ++ [TagRow.sentinel]).toArray
    messages := (l.messages.map (·.table)).toArray }

end FixTables
