import FixTables.Listing

namespace FixTables

/-- How tables are written out as source text. -/
structure EmitterConfig where
  runtimePath : String
  visibility : String
  emitGroups : Bool
  sourceName : Option String

def EmitterConfig.default : EmitterConfig := ⟨"fixspec_core::table", "pub", true, none⟩

/-- Cuts a list into pieces of `n + 1` elements, the last one possibly shorter. -/
def piecesOf (n : Nat) (xs : List α) : List (List α) :=
  match xs with
  | [] => []
  | x :: r => (x :: r.take n) :: piecesOf n (r.drop n)
termination_by xs.length
decreasing_by
  simp only [List.length_cons, List.length_drop]
  omega

namespace TagSequence

/-- Positions to a line of source text, less one. -/
def morePerLine : Nat := 31

/-- One line of positions. -/
def sourceLine (slots : List Nat) : String :=
  "        " ++ " ".intercalate (slots.map fun n => s!"{n},")

def sourceLines (s : TagSequence) : List String :=
  ["    tag_seq: &["] ++ (piecesOf morePerLine s.slots.toList).map sourceLine ++ ["    ],"]

end TagSequence

/-- A list of references to declarations, one to a line. -/
def referenceLines (field : String) (identifiers : List String) : List String :=
  [s!"    {field}: &["] ++ identifiers.map (fun i => s!"        &{i},") ++ ["    ],"]

def groupReferenceLines (identifiers : List String) : List String :=
  if identifiers.isEmpty then ["    groups: &[],"] else referenceLines "groups" identifiers

/-- The first line of a declaration. -/
def declarationLine (visibility identifier type : String) : String :=
  s!"{visibility} static {identifier}: {type} = {type} \x7b"

/-- The lines that end a declaration. -/
def declarationEnd : List String := ["\x7d;", ""]

mutual
/-- A group's declaration, after those of the groups nested in it. -/
def GroupListing.sourceLines (visibility : String) : GroupListing → List String
  | ⟨identifier, name, countTag, delimiterTag, sequence, groups⟩ =>
    GroupListing.allSourceLines visibility groups ++
    [s!"/// {name} group (count tag {countTag}).",
      declarationLine visibility identifier "GroupSpec",
      s!"    count_tag: {countTag},",
      s!"    delimiter_tag: {delimiterTag},"] ++
    sequence.sourceLines ++ groupReferenceLines (groups.map (·.identifier)) ++ declarationEnd
def GroupListing.allSourceLines (visibility : String) : List GroupListing → List String
  | [] => []
  | g :: gs => g.sourceLines visibility ++ GroupListing.allSourceLines visibility gs
end

/-- A message's declaration, after those of its groups. -/
def MessageListing.sourceLines (visibility symbol : String) (m : MessageListing) : List String :=
  GroupListing.allSourceLines visibility m.groups ++
  [s!"/// {m.name} (MsgType = {m.msgType}).",
    declarationLine visibility m.identifier "MsgSpec",
    s!"    version: &{symbol},",
    s!"    tid: {m.typeId},",
    s!"    msg_type: {quoted m.msgType},",
    s!"    name: {quoted m.name},"] ++
  m.sequence.sourceLines ++ groupReferenceLines (m.groups.map (·.identifier)) ++ declarationEnd

def TagRow.sourceLine (r : TagRow) : String :=
  s!"    TagSpec \x7b tag: {r.tag}, wire_type: WireType::{r.wireType.name}, " ++
    s!"location: Location::{r.location.name}, related: {r.related}, " ++
    s!"tag_len: {r.tagLength}, prefix: {quoted r.lead} \x7d,"

namespace Listing

/-- The record types that a listing's source text uses. -/
def recordTypes (l : Listing) : List String :=
  (if l.messages.any (!·.groups.isEmpty) then ["GroupSpec"] else []) ++
    ["Location", "MsgSpec", "TagSpec", "VersionSpec", "WireType"]

def preambleLines (c : EmitterConfig) (l : Listing) : List String :=
  [s!"//! Generated {l.version.label} tables.", "//!"] ++
  (c.sourceName.map fun name => s!"//! Source: {name}").toList ++
  ["//! This file was automatically generated. Do not edit.", "",
    s!"use {c.runtimePath}::\x7b" ++ ", ".intercalate l.recordTypes ++ "\x7d;", ""]

def versionLines (c : EmitterConfig) (l : Listing) : List String :=
  [s!"/// {l.version.label} specification.",
    declarationLine c.visibility l.symbol "VersionSpec",
    s!"    major: {l.version.major},",
    s!"    minor: {l.version.minor},",
    s!"    service_pack: {l.version.servicePack},",
    s!"    begin_string: {quoted l.version.beginString},",
    s!"    tags: &{l.tagsIdentifier},"] ++
  referenceLines "messages" (l.messages.map (·.identifier)) ++ declarationEnd

def tagTableLines (c : EmitterConfig) (l : Listing) : List String :=
  [s!"/// {l.version.label} tag table, sorted by tag.",
    s!"{c.visibility} static {l.tagsIdentifier}: [TagSpec; {l.rows.length + 1}] = ["] ++
  l.rows.map (·.sourceLine) ++ ["    TagSpec::SENTINEL,", "];", ""]

def sourceLines (c : EmitterConfig) (l : Listing) : List String :=
  l.preambleLines c ++ l.versionLines c ++ l.tagTableLines c ++
    l.messages.flatMap (·.sourceLines c.visibility l.symbol)

end Listing

/-- The source text that declares the tables of a specification. -/
def Spec.source (s : Spec) (c : EmitterConfig) : String :=
  String.join (((s.listing c.emitGroups).sourceLines c).map (· ++ "\n"))

/-- Writes the tables of a specification out. -/
def Spec.emit (s : Spec) (c : EmitterConfig) : Traced ε String := do
  let text := s.source c
  .note (.emittedTables s.version.label s.fields.fields.length s.layouts.length text.utf8ByteSize)
  return text

end FixTables
