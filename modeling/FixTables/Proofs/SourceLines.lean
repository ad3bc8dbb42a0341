import FixTables.Proofs.SourceTables

namespace FixTables

/-- A line of source text, by what it is there for. -/
inductive SourceLine
  | blank
  | note (text : String)
  | doc (text : String)
  | use (types : List String)
  | record (identifier type : String)
  | table (identifier : String) (length : Nat)
  | row (r : TagRow)
  | number (field : String) (n : Nat)
  | literal (field text : String)
  | refer (field identifier : String)
  | list (field : String)
  | slots (positions : List Nat)
  | reference (identifier : String)
  | mark (text : String)

namespace SourceLine

def text (c : EmitterConfig) : SourceLine → String
  | blank => ""
  | note text => "//!" ++ text
  | doc text => "/// " ++ text
  | use types => "use " ++ c.runtimePath ++ "::\x7b" ++ ", ".intercalate types ++ "\x7d;"
  | record identifier type => declarationLine c.visibility identifier type
  | table identifier length =>
    c.visibility ++ " static " ++ identifier ++ ": [TagSpec; " ++ length.repr ++ "] = ["
  | row r => r.sourceLine
  | number field n => numberLine ("    " ++ field ++ ": ") n
  | literal field text => quotedLine ("    " ++ field ++ ": ") text
  | refer field identifier => "    " ++ field ++ ": &" ++ identifier ++ ","
  | list field => "    " ++ field ++ ": &["
  | slots positions => TagSequence.sourceLine positions
  | reference identifier => "        &" ++ identifier ++ ","
  | mark text => text

def references (field : String) (identifiers : List String) : List SourceLine :=
  list field :: identifiers.map reference ++ [mark "    ],"]

def groupReferences (identifiers : List String) : List SourceLine :=
  if identifiers.isEmpty then [mark "    groups: &[],"] else references "groups" identifiers

variable (c : EmitterConfig)

@[simp] theorem map_text_references (field : String) (identifiers : List String) :
    (references field identifiers).map (text c) = referenceLines field identifiers := by
  simp [references, referenceLines, text, Function.comp_def, toString]

@[simp] theorem map_text_groupReferences (identifiers : List String) :
    (groupReferences identifiers).map (text c) = groupReferenceLines identifiers := by
  unfold groupReferences groupReferenceLines
  split
  · rfl
  · exact map_text_references c "groups" identifiers

end SourceLine

def TagSequence.outline (s : TagSequence) : List SourceLine :=
  .list "tag_seq" :: (piecesOf morePerLine s.slots.toList).map .slots ++ [.mark "    ],"]

@[simp] theorem TagSequence.map_text_outline (c : EmitterConfig) (s : TagSequence) :
    s.outline.map (SourceLine.text c) = s.sourceLines := by
  simp [outline, sourceLines, SourceLine.text, Function.comp_def]

/-- What the comment before an item's declaration tells of it. -/
def Item.title : Item → String
  | .group g => g.name ++ " group (count tag " ++ g.countTag.repr ++ ")."
  | .message m => m.name ++ " (MsgType = " ++ m.msgType ++ ")."

def Item.outline (symbol : String) : Item → List SourceLine
  | .group g =>
    .doc (title (.group g)) :: .record g.identifier "GroupSpec" ::
      .number "count_tag" g.countTag :: .number "delimiter_tag" g.delimiterTag ::
      (g.sequence.outline ++ SourceLine.groupReferences (g.groups.map (·.identifier)) ++
        [.mark "\x7d;", .blank])
  | .message m =>
    .doc (title (.message m)) :: .record m.identifier "MsgSpec" :: .refer "version" symbol ::
      .number "tid" m.typeId.toNat :: .literal "msg_type" m.msgType :: .literal "name" m.name ::
      (m.sequence.outline ++ SourceLine.groupReferences (m.groups.map (·.identifier)) ++
        [.mark "\x7d;", .blank])

namespace Listing

variable (c : EmitterConfig) (l : Listing)

def preambleOutline : List SourceLine :=
  .note (" Generated " ++ l.version.label ++ " tables.") :: .note "" ::
    ((c.sourceName.map fun name => SourceLine.note (" Source: " ++ name)).toList ++
      [.note " This file was automatically generated. Do not edit.", .blank, .use l.recordTypes,
        .blank])

def versionOutline : List SourceLine :=
  .doc (l.version.label ++ " specification.") :: .record l.symbol "VersionSpec" ::
    .number "major" l.version.major :: .number "minor" l.version.minor ::
    .number "service_pack" l.version.servicePack ::
    .literal "begin_string" l.version.beginString :: .refer "tags" l.tagsIdentifier ::
    (SourceLine.references "messages" (l.messages.map (·.identifier)) ++ [.mark "\x7d;", .blank])

def tagTableOutline : List SourceLine :=
  .doc (l.version.label ++ " tag table, sorted by tag.") ::
    .table l.tagsIdentifier (l.rows.length + 1) ::
    (l.rows.map .row ++ [.mark "    TagSpec::SENTINEL,", .mark "];", .blank])

def outline : List SourceLine :=
  l.preambleOutline c ++ l.versionOutline ++ l.tagTableOutline ++
    l.items.flatMap (Item.outline l.symbol)

theorem preambleLines_eq_outline :
    l.preambleLines c = (l.preambleOutline c).map (SourceLine.text c) := by
  have generated : "//! Generated " = "//!" ++ " Generated " := by simp
  have source : "//! Source: " = "//!" ++ " Source: " := by simp
  have warning : "//! This file was automatically generated. Do not edit." =
    "//!" ++ " This file was automatically generated. Do not edit." := by simp
  cases hs : c.sourceName <;>
    simp [preambleLines, preambleOutline, SourceLine.text, hs, toString, generated, source,
      warning, String.append_assoc, -String.reduceAppend]

theorem versionLines_eq_outline :
    l.versionLines c = l.versionOutline.map (SourceLine.text c) := by
  simp [versionLines, versionOutline, SourceLine.text, declarationEnd, numberLine, quotedLine,
    toString, String.append_assoc]

theorem tagTableLines_eq_outline :
    l.tagTableLines c = l.tagTableOutline.map (SourceLine.text c) := by
  simp [tagTableLines, tagTableOutline, SourceLine.text, Function.comp_def, toString,
    String.append_assoc]

theorem messageLines_eq_outline :
    l.messages.flatMap (·.sourceLines c.visibility l.symbol) =
      (l.items.flatMap (Item.outline l.symbol)).map (SourceLine.text c) := by
  rw [items, itemsOf, List.flatMap_assoc, List.map_flatMap]
  refine List.flatMap_congr fun m _ => ?_
  rw [MessageListing.sourceLines, GroupListing.allSourceLines_eq_flatMap]
  -- Groups come before the message they stand in, each with lines of its own.
  have own : GroupListing.ownLines c.visibility = fun g =>
      ((Item.group g).outline l.symbol).map (SourceLine.text c) := by
    funext g
    simp [GroupListing.ownLines, Item.outline, Item.title, SourceLine.text, declarationEnd,
      numberLine, toString, String.append_assoc]
  rw [own, List.flatMap_append, List.flatMap_map, List.map_append, List.map_flatMap]
  simp [Item.outline, Item.title, SourceLine.text, declarationEnd, numberLine, quotedLine,
    toString, String.append_assoc]

theorem sourceLines_eq_outline : l.sourceLines c = (l.outline c).map (SourceLine.text c) := by
  rw [sourceLines, outline, preambleLines_eq_outline, versionLines_eq_outline,
    tagTableLines_eq_outline, messageLines_eq_outline]
  simp only [List.map_append]

end Listing

theorem Spec.source_eq_outline (s : Spec) (c : EmitterConfig) :
    s.source c = String.join
      (((s.listing c.emitGroups).outline c).map fun line => line.text c ++ "\n") := by
  rw [source, Listing.sourceLines_eq_outline, List.map_map]
  rfl

end FixTables
