import FixTables.Proofs.GroupForests
import FixTables.Proofs.SourceReading

namespace FixTables

namespace GroupListing

/-- The lines of a group's own declaration. -/
def ownLines (visibility : String) (g : GroupListing) : List String :=
  [s!"/// {g.name} group (count tag {g.countTag}).",
    declarationLine visibility g.identifier "GroupSpec", s!"    count_tag: {g.countTag},",
    s!"    delimiter_tag: {g.delimiterTag},"] ++
  g.sequence.sourceLines ++ groupReferenceLines (g.groups.map (·.identifier)) ++ declarationEnd

theorem allSourceLines_eq_flatMap (visibility : String) (gs : List GroupListing) :
    allSourceLines visibility gs = (all gs).flatMap (ownLines visibility) := by
  induction gs using forest_induction with
  | nil => rw [allSourceLines, all, List.flatMap_nil]
  | cons g gs nested others =>
    rw [all_cons, List.flatMap_append, List.flatMap_cons, ← nested, ← others]
    cases g
    rw [allSourceLines, sourceLines]
    simp [ownLines]

theorem allSourceLines_eq (symbol : String) (gs : List GroupListing) :
    allSourceLines "pub" gs = (all gs).flatMap fun g => (Item.group g).lines symbol ++ [""] := by
  rw [allSourceLines_eq_flatMap]
  refine List.flatMap_congr fun g _ => ?_
  simp [ownLines, Item.lines, bodyLines, declarationEnd, numberLine, toString]

end GroupListing

/-- Messages and all their groups, in the order of the text. -/
def itemsOf (ms : List MessageListing) : List Item :=
  ms.flatMap fun m => (GroupListing.all m.groups).map .group ++ [.message m]

namespace Listing

/-- All that is declared on its own, in the order of the text. -/
def items (l : Listing) : List Item := itemsOf l.messages

theorem items_sourceLines (l : Listing) :
    l.messages.flatMap (·.sourceLines "pub" l.symbol) =
      l.items.flatMap (·.lines l.symbol ++ [""]) := by
  rw [items, itemsOf, List.flatMap_assoc]
  refine List.flatMap_congr fun m _ => ?_
  rw [MessageListing.sourceLines, GroupListing.allSourceLines_eq l.symbol]
  simp [Item.lines, bodyLines, declarationEnd, numberLine, quotedLine, List.flatMap_map, toString]

/-- The lines of a tag table but for the empty one at its end. -/
def tagLines (l : Listing) : List String :=
  ["/// " ++ l.version.label ++ " tag table, sorted by tag.",
    "pub static " ++ l.tagsIdentifier ++ ": [TagSpec; " ++ (l.rows.length + 1).repr ++ "] = ["] ++
  l.rows.map (·.sourceLine) ++ ["    TagSpec::SENTINEL,", "];"]

/-- The lines before the first declaration but for the empty ones. -/
def preambleParagraphs (l : Listing) : List (List String) :=
  [["//! Generated " ++ l.version.label ++ " tables.", "//!",
      "//! This file was automatically generated. Do not edit."],
    ["use fixspec_core::table::\x7b" ++ ", ".intercalate l.recordTypes ++ "\x7d;"]]

def paragraphs (l : Listing) : List (List String) :=
  l.preambleParagraphs ++ [VersionHead.lines l, l.tagLines] ++ l.items.map (·.lines l.symbol)

/-- The text is made of paragraphs, each ended by an empty line. -/
theorem sourceLines_eq (l : Listing) :
    l.sourceLines .default = l.paragraphs.flatMap (· ++ [""]) := by
  rw [sourceLines, EmitterConfig.default, items_sourceLines]
  simp [paragraphs, preambleParagraphs, tagLines, VersionHead.lines, preambleLines, versionLines,
    tagTableLines, declarationEnd, numberLine, quotedLine, List.flatMap_map, toString]

end Listing

/-- A text that stands in one line and is not empty. -/
def IsLine (text : String) : Prop := OneLine text ∧ text ≠ ""

instance (text : String) : Decidable (IsLine text) := inferInstanceAs (Decidable (_ ∧ _))

section IsLine

theorem IsLine.append {a b : String} (h : IsLine a) (hb : OneLine b) : IsLine (a ++ b) := by
  refine ⟨oneLine_append.mpr ⟨h.1, hb⟩, ?_⟩
  simp [String.append_eq_empty_iff, h.2]

theorem isLine_between {front text back : String} (hf : IsLine front) (ht : OneLine text)
    (hb : OneLine back) : IsLine (front ++ text ++ back) :=
  (hf.append ht).append hb

theorem isLine_numberLine {front : String} (h : IsLine front) (n : Nat) :
    IsLine (numberLine front n) :=
  isLine_between h (oneLine_repr n) (by decide)

theorem isLine_quotedLine {front : String} (h : IsLine front) (s : String) :
    IsLine (quotedLine front s) :=
  isLine_between h (oneLine_quoted s) (by decide)

theorem isLine_declarationLine {identifier type : String} (hi : OneLine identifier)
    (ht : OneLine type) : IsLine (declarationLine "pub" identifier type) := by
  rw [declarationLine_pub]
  exact isLine_between (by decide) hi (by simp [ht]; decide)

theorem isLine_sourceLine (slots : List Nat) : IsLine (TagSequence.sourceLine slots) := by
  refine ⟨fun h => ?_, by simp [TagSequence.sourceLine, String.append_eq_empty_iff]⟩
  -- Leaving the spaces out leaves only digits and commas.
  have kept : '\n' ∈ (TagSequence.sourceLine slots).toList.filter (· ≠ ' ') :=
    List.mem_filter.mpr ⟨h, by decide⟩
  rw [TagSequence.filter_sourceLine] at kept
  obtain ⟨n, _, hn⟩ := List.mem_flatMap.mp kept
  rcases List.mem_append.mp hn with hn | hn
  · exact oneLine_repr n hn
  · simp at hn

theorem isLine_referenceLines {field : String} (hf : OneLine field) {identifiers : List String}
    (hi : ∀ i ∈ identifiers, OneLine i) :
    ∀ line ∈ referenceLines field identifiers, IsLine line := by
  simp only [referenceLines, List.forall_mem_append, List.forall_mem_singleton, List.forall_mem_map]
  refine ⟨⟨?_, ?_⟩, by decide⟩
  · exact isLine_between (by decide) hf (by decide)
  · exact fun i h => isLine_between (by decide) (hi i h) (by decide)

theorem isLine_bodyLines (s : TagSequence) {identifiers : List String}
    (hi : ∀ i ∈ identifiers, OneLine i) : ∀ line ∈ bodyLines s identifiers, IsLine line := by
  simp only [bodyLines, TagSequence.sourceLines, List.forall_mem_append, List.forall_mem_singleton,
    List.forall_mem_map]
  refine ⟨⟨⟨⟨by decide, fun slots _ => isLine_sourceLine slots⟩, by decide⟩, ?_⟩, by decide⟩
  unfold groupReferenceLines
  split
  · decide
  · exact isLine_referenceLines (by decide) hi

theorem oneLine_join {texts : List String} (h : ∀ t ∈ texts, OneLine t) :
    OneLine (String.join texts) := by
  intro hm
  rw [String.toList_join] at hm
  obtain ⟨t, ht, hn⟩ := List.mem_flatMap.mp hm
  exact h t ht hn

theorem TagRow.isLine_sourceLine (r : TagRow) : IsLine r.sourceLine := by
  have wireType : OneLine r.wireType.name := by
    cases r.wireType <;> decide
  have location : OneLine r.location.name := by
    cases r.location <;> decide
  rw [sourceLine_eq_join]
  refine ⟨oneLine_join (List.forall_mem_map.mpr fun cell hc => ?_), ?_⟩
  · suffices OneLine cell from oneLine_append.mpr ⟨this, by decide⟩
    revert cell
    simp only [cells, List.forall_mem_cons, oneLine_append, oneLine_repr, oneLine_quoted, wireType,
      location, and_true]
    exact ⟨by decide, by decide, by decide, by decide, by decide, by decide, by simp⟩
  · simp [cells, String.append_eq_empty_iff]

theorem isLine_recordTypes (l : Listing) :
    IsLine ("use fixspec_core::table::\x7b" ++ ", ".intercalate l.recordTypes ++ "\x7d;") := by
  unfold Listing.recordTypes
  split <;> decide

end IsLine

namespace Listing

/-- Whatever is written out unquoted stands in one line. -/
structure InLines (l : Listing) : Prop where
  label : OneLine l.version.label
  symbol : OneLine l.symbol
  tags : OneLine l.tagsIdentifier
  messages : ∀ m ∈ l.messages, OneLine m.identifier ∧ OneLine m.name ∧ OneLine m.msgType
  groups : ∀ m ∈ l.messages, ∀ g ∈ GroupListing.all m.groups,
    OneLine g.identifier ∧ OneLine g.name

variable {l : Listing}

theorem isLine_versionLines (h : l.InLines) : ∀ line ∈ VersionHead.lines l, IsLine line := by
  simp only [VersionHead.lines, List.forall_mem_append, List.forall_mem_cons]
  refine ⟨⟨⟨?_, ?_, ?_, ?_, ?_, ?_, ?_, by simp⟩, ?_⟩, by decide⟩
  · exact isLine_between (by decide) h.label (by decide)
  · exact isLine_declarationLine h.symbol (by decide)
  · exact isLine_numberLine (by decide) _
  · exact isLine_numberLine (by decide) _
  · exact isLine_numberLine (by decide) _
  · exact isLine_quotedLine (by decide) _
  · exact isLine_between (by decide) h.tags (by decide)
  · exact isLine_referenceLines (by decide)
      (List.forall_mem_map.mpr fun m hm => (h.messages m hm).1)

theorem isLine_tagLines (h : l.InLines) : ∀ line ∈ l.tagLines, IsLine line := by
  simp only [tagLines, List.forall_mem_append, List.forall_mem_cons, List.forall_mem_map]
  refine ⟨⟨⟨?_, ?_, by simp⟩, fun r _ => r.isLine_sourceLine⟩, by decide, by decide, by simp⟩
  · exact isLine_between (by decide) h.label (by decide)
  · have head : IsLine ("pub static " ++ l.tagsIdentifier ++ ": [TagSpec; ") :=
      isLine_between (by decide) h.tags (by decide)
    exact isLine_between head (oneLine_repr _) (by decide)

theorem isLine_itemLines (h : l.InLines) :
    ∀ item ∈ l.items, ∀ line ∈ item.lines l.symbol, IsLine line := by
  simp only [items, itemsOf, List.forall_mem_flatMap, List.forall_mem_append, List.forall_mem_map,
    List.forall_mem_singleton]
  intro m hm
  obtain ⟨identifier, name, msgType⟩ := h.messages m hm
  constructor
  · intro g hg
    obtain ⟨identifier, name⟩ := h.groups m hm g hg
    simp only [Item.lines, List.forall_mem_append, List.forall_mem_cons]
    refine ⟨⟨?_, ?_, ?_, ?_, by simp⟩, ?_⟩
    · have head : IsLine ("/// " ++ g.name ++ " group (count tag ") :=
        isLine_between (by decide) name (by decide)
      exact isLine_between head (oneLine_repr _) (by decide)
    · exact isLine_declarationLine identifier (by decide)
    · exact isLine_numberLine (by decide) _
    · exact isLine_numberLine (by decide) _
    · refine isLine_bodyLines _ (List.forall_mem_map.mpr fun inner hi => ?_)
      exact (h.groups m hm inner (GroupListing.groups_subset_all hg hi)).1
  · simp only [Item.lines, List.forall_mem_append, List.forall_mem_cons]
    refine ⟨⟨?_, ?_, ?_, ?_, ?_, ?_, by simp⟩, ?_⟩
    · have head : IsLine ("/// " ++ m.name ++ " (MsgType = ") :=
        isLine_between (by decide) name (by decide)
      exact isLine_between head msgType (by decide)
    · exact isLine_declarationLine identifier (by decide)
    · exact isLine_between (by decide) h.symbol (by decide)
    · exact isLine_numberLine (by decide) _
    · exact isLine_quotedLine (by decide) _
    · exact isLine_quotedLine (by decide) _
    · refine isLine_bodyLines _ (List.forall_mem_map.mpr fun inner hi => ?_)
      exact (h.groups m hm inner (GroupListing.subset_all _ hi)).1

theorem isLine_paragraphs (h : l.InLines) : ∀ p ∈ l.paragraphs, ∀ line ∈ p, IsLine line := by
  simp only [paragraphs, preambleParagraphs, List.forall_mem_append, List.forall_mem_cons,
    List.forall_mem_map]
  refine ⟨⟨⟨⟨?_, by decide, by decide, by simp⟩, ⟨?_, by simp⟩, by simp⟩, ?_, ?_, by simp⟩, ?_⟩
  · exact isLine_between (by decide) h.label (by decide)
  · exact isLine_recordTypes l
  · exact isLine_versionLines h
  · exact isLine_tagLines h
  · exact isLine_itemLines h

/-- The source text falls into its paragraphs again. -/
theorem parts_pieces_source (h : l.InLines) :
    parts "" (pieces '\n' (String.join ((l.sourceLines .default).map (· ++ "\n")))) =
      l.paragraphs := by
  have isLine := isLine_paragraphs h
  have lines : ∀ line ∈ l.sourceLines .default, '\n' ∉ line.toList := by
    rw [sourceLines_eq]
    simp only [List.forall_mem_flatMap, List.forall_mem_append, List.forall_mem_singleton]
    exact fun p hp => ⟨fun line hl => (isLine p hp line hl).1, by decide⟩
  have cut := pieces_join lines
  rw [show String.singleton '\n' = "\n" from rfl] at cut
  rw [cut, sourceLines_eq, parts_flatMap]
  exact fun p hp hm => (isLine p hp "" hm).2 rfl

end Listing

end FixTables
