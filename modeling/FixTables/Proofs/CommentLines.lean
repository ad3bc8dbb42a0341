import FixTables.Proofs.DeclaredNames
import FixTables.Proofs.Partners

namespace FixTables

namespace SourceLine

def sharedTypes : List String := ["Location", "MsgSpec", "TagSpec", "VersionSpec", "WireType"]

/-- The lines that are the same everywhere. -/
@[simp] def marks : List String :=
  ["    TagSpec::SENTINEL,", "    groups: &[],", "    ],", "];", "\x7d;"]

/-- A line of code. Texts of a dictionary stand in it as quoted literals only, or as identifiers. -/
@[simp] def IsCode : SourceLine → Prop
  | blank | note _ | doc _ => False
  | use types => types = sharedTypes ∨ types = "GroupSpec" :: sharedTypes
  | record identifier type =>
    IsIdentifier identifier ∧ type ∈ ["GroupSpec", "MsgSpec", "VersionSpec"]
  | table identifier _ => IsIdentifier identifier
  | row _ => True
  | number field _ =>
    field ∈ ["major", "minor", "service_pack", "tid", "count_tag", "delimiter_tag"]
  | literal field _ => field ∈ ["begin_string", "msg_type", "name"]
  | refer field identifier => field ∈ ["tags", "version"] ∧ IsIdentifier identifier
  | list field => field ∈ ["messages", "groups", "tag_seq"]
  | slots _ => True
  | reference identifier => IsIdentifier identifier
  | mark text => text ∈ marks

theorem IsCode.oneLine {line : SourceLine} (h : line.IsCode) : OneLine (line.text .default) := by
  have front {fields : List String} (inLine : ∀ f ∈ fields, OneLine f) {field : String}
      (hf : field ∈ fields) : IsLine ("    " ++ field ++ ": ") :=
    isLine_between (by decide) (inLine field hf) (by decide)
  cases line with
  | blank | note | doc => exact h.elim
  | use types =>
    obtain rfl | rfl := h <;> decide
  | record identifier type =>
    have inLine : ∀ t ∈ ["GroupSpec", "MsgSpec", "VersionSpec"], OneLine t := by decide
    exact (isLine_declarationLine h.1.oneLine (inLine type h.2)).1
  | table identifier length =>
    have head : IsLine ("pub static " ++ identifier ++ ": [TagSpec; ") :=
      isLine_between (by decide) (IsIdentifier.oneLine h) (by decide)
    exact (isLine_between head (oneLine_repr length) (by decide)).1
  | row r => exact r.isLine_sourceLine.1
  | number field n => exact (isLine_numberLine (front (by decide) h) n).1
  | literal field text => exact (isLine_quotedLine (front (by decide) h) text).1
  | refer field identifier =>
    have inLine : ∀ f ∈ ["tags", "version"], OneLine f := by decide
    have head : IsLine ("    " ++ field ++ ": &") :=
      isLine_between (by decide) (inLine field h.1) (by decide)
    exact (isLine_between head h.2.oneLine (by decide)).1
  | list field =>
    have inLine : ∀ f ∈ ["messages", "groups", "tag_seq"], OneLine f := by decide
    exact (isLine_between (by decide) (inLine field h) (by decide)).1
  | slots positions => exact (isLine_sourceLine positions).1
  | reference identifier =>
    exact (isLine_between (by decide) (IsIdentifier.oneLine h) (by decide)).1
  | mark text =>
    have inLine : ∀ t ∈ marks, OneLine t := by decide
    exact inLine text h

theorem IsCode.head {line : SourceLine} (h : line.IsCode) :
    ∃ c ∈ ['u', 'p', ' ', ']', '\x7d'], (line.text .default).toList.head? = some c := by
  cases line with
  | blank | note | doc => exact h.elim
  | use types => exact ⟨'u', by simp, by simp [SourceLine.text]⟩
  | record identifier type =>
    have shape := declarationLine_pub identifier type
    exact ⟨'p', by simp, by simp [SourceLine.text, EmitterConfig.default, shape]⟩
  | table identifier length =>
    exact ⟨'p', by simp, by simp [SourceLine.text, EmitterConfig.default]⟩
  | row r =>
    exact ⟨' ', by simp, by simp [SourceLine.text, TagRow.sourceLine_eq_join, TagRow.cells]⟩
  | number field n => exact ⟨' ', by simp, by simp [SourceLine.text, numberLine]⟩
  | literal field text => exact ⟨' ', by simp, by simp [SourceLine.text, quotedLine]⟩
  | refer field identifier => exact ⟨' ', by simp, by simp [SourceLine.text]⟩
  | list field => exact ⟨' ', by simp, by simp [SourceLine.text]⟩
  | slots positions => exact ⟨' ', by simp, by simp [SourceLine.text, TagSequence.sourceLine]⟩
  | reference identifier => exact ⟨' ', by simp, by simp [SourceLine.text]⟩
  | mark text =>
    have heads : ∀ t ∈ marks, ∃ c ∈ ['u', 'p', ' ', ']', '\x7d'], t.toList.head? = some c := by
      simp
    exact heads text h

def IsComment : SourceLine → Prop
  | note _ | doc _ => True
  | _ => False

theorem IsComment.slashes {line : SourceLine} (h : line.IsComment) (c : EmitterConfig) :
    "//".toList <+: (line.text c).toList := by
  cases line with
  | note text => exact ⟨'!' :: text.toList, by simp [SourceLine.text]⟩
  | doc text => exact ⟨'/' :: ' ' :: text.toList, by simp [SourceLine.text]⟩
  | _ => exact h.elim

/-- A line of code, an empty line, or a comment that stands in one line or has one of the given
titles. -/
@[simp] def Among (titles : List String) : SourceLine → Prop
  | blank => True
  | note text => OneLine text
  | doc text => OneLine text ∨ text ∈ titles
  | line => line.IsCode

variable {titles : List String} {line : SourceLine}

theorem Among.cases (h : line.Among titles) : line = blank ∨ line.IsComment ∨ line.IsCode := by
  cases line <;> first | exact .inl rfl | exact .inr (.inl trivial) | exact .inr (.inr h)

theorem Among.oneLine (h : line.Among titles) (titled : ∀ t ∈ titles, OneLine t) :
    OneLine (line.text .default) := by
  cases line with
  | blank => decide
  | note text => exact oneLine_append.mpr ⟨by decide, h⟩
  | doc text => exact oneLine_append.mpr ⟨by decide, h.elim id (titled text)⟩
  | _ => exact IsCode.oneLine h

theorem among_references {field : String} (hf : field ∈ ["messages", "groups", "tag_seq"])
    {identifiers : List String} (hi : ∀ i ∈ identifiers, IsIdentifier i) :
    ∀ line ∈ references field identifiers, line.Among titles := by
  simp only [references, List.cons_append, List.forall_mem_cons, List.forall_mem_append,
    List.forall_mem_map]
  exact ⟨hf, hi, by simp, by simp⟩

theorem among_groupReferences {identifiers : List String} (hi : ∀ i ∈ identifiers, IsIdentifier i) :
    ∀ line ∈ groupReferences identifiers, line.Among titles := by
  unfold groupReferences
  split
  · simp
  · exact among_references (by simp) hi

end SourceLine

theorem TagSequence.among_outline (s : TagSequence) (titles : List String) :
    ∀ line ∈ s.outline, line.Among titles := by
  simp only [outline, List.cons_append, List.forall_mem_cons, List.forall_mem_append,
    List.forall_mem_map]
  simp

namespace Listing

variable {l : Listing}

theorem WellNamed.references (h : l.WellNamed) :
    ∀ item ∈ l.items, ∀ i ∈ item.static.references, IsIdentifier i := by
  intro item hi i hr
  have referred : i ∈ l.items.flatMap (·.static.references) := List.mem_flatMap.mpr ⟨item, hi, hr⟩
  have known := l.references_perm_items.mem_iff.mp (List.mem_append_right _ referred)
  obtain ⟨declared, hd, rfl⟩ := List.mem_map.mp known
  exact h.items declared hd

theorem among_preamble (titles : List String) (label : OneLine l.version.label) :
    ∀ line ∈ l.preambleOutline .default, line.Among titles := by
  have generated : OneLine (" Generated " ++ l.version.label ++ " tables.") :=
    oneLine_append.mpr ⟨oneLine_append.mpr ⟨by decide, label⟩, by decide⟩
  have types : l.recordTypes = SourceLine.sharedTypes ∨
      l.recordTypes = "GroupSpec" :: SourceLine.sharedTypes := by
    unfold recordTypes
    split
    · exact .inr rfl
    · exact .inl rfl
  have warning : OneLine " This file was automatically generated. Do not edit." := by decide
  simp only [preambleOutline, EmitterConfig.default, Option.map_none, Option.toList_none,
    List.nil_append, List.forall_mem_cons]
  exact ⟨generated, (by decide : OneLine ""), warning, trivial, types, trivial, by simp⟩

theorem among_version (h : l.WellNamed) (titles : List String) (label : OneLine l.version.label) :
    ∀ line ∈ l.versionOutline, line.Among titles := by
  have specification : OneLine (l.version.label ++ " specification.") :=
    oneLine_append.mpr ⟨label, by decide⟩
  have references : ∀ i ∈ l.messages.map (·.identifier), IsIdentifier i :=
    List.forall_mem_map.mpr h.messages
  simp only [versionOutline, List.forall_mem_cons, List.forall_mem_append]
  exact ⟨.inl specification, ⟨h.symbol, by simp⟩, by simp, by simp, by simp, by simp,
    ⟨by simp, h.tags⟩, SourceLine.among_references (by simp) references, by simp, trivial, by simp⟩

theorem among_tagTable (h : l.WellNamed) (titles : List String) (label : OneLine l.version.label) :
    ∀ line ∈ l.tagTableOutline, line.Among titles := by
  have table : OneLine (l.version.label ++ " tag table, sorted by tag.") :=
    oneLine_append.mpr ⟨label, by decide⟩
  simp only [tagTableOutline, List.forall_mem_cons, List.forall_mem_append, List.forall_mem_map]
  exact ⟨.inl table, h.tags, fun _ _ => trivial, by simp, by simp, trivial, by simp⟩

theorem among_items (h : l.WellNamed) :
    ∀ item ∈ l.items, ∀ line ∈ item.outline l.symbol, line.Among (l.items.map Item.title) := by
  intro item hi
  have title := List.mem_map_of_mem (f := Item.title) hi
  have named := h.items item hi
  have groups := h.references item hi
  cases item with
  | group g =>
    simp only [Item.outline, List.append_assoc, List.forall_mem_cons, List.forall_mem_append]
    exact ⟨.inr title, ⟨named, by simp⟩, by simp, by simp, g.sequence.among_outline _,
      SourceLine.among_groupReferences groups, by simp, trivial, by simp⟩
  | message m =>
    simp only [Item.outline, List.append_assoc, List.forall_mem_cons, List.forall_mem_append]
    exact ⟨.inr title, ⟨named, by simp⟩, ⟨by simp, h.symbol⟩, by simp, by simp, by simp,
      m.sequence.among_outline _, SourceLine.among_groupReferences groups, by simp, trivial,
      by simp⟩

/-- Each line of a listing's source text is code, empty or a comment; comments stand in one line but
for the titles of messages and groups. -/
theorem among_outline (h : l.WellNamed) (label : OneLine l.version.label) :
    ∀ line ∈ l.outline .default, line.Among (l.items.map Item.title) := by
  simp only [outline, List.forall_mem_append, List.forall_mem_flatMap]
  exact ⟨⟨⟨among_preamble _ label, among_version h _ label⟩, among_tagTable h _ label⟩,
    among_items h⟩

theorem oneLine_title_iff (item : Item) :
    OneLine item.title ↔ match item with
      | .group g => OneLine g.name
      | .message m => OneLine m.name ∧ OneLine m.msgType := by
  have group : OneLine " group (count tag " := by decide
  have type : OneLine " (MsgType = " := by decide
  have ending : OneLine ")." := by decide
  cases item <;> simp [Item.title, group, type, ending]

theorem doc_title_mem_outline {item : Item} (hi : item ∈ l.items) (c : EmitterConfig) :
    .doc item.title ∈ l.outline c := by
  refine List.mem_append_right _ (List.mem_flatMap.mpr ⟨item, hi, ?_⟩)
  cases item <;> simp [Item.outline]

/-- The text stands in its lines exactly if the names of its messages and groups do. -/
theorem outline_oneLine_iff (h : l.WellNamed) (label : OneLine l.version.label) :
    (∀ line ∈ l.outline .default, OneLine (line.text .default)) ↔
      ∀ m ∈ l.messages, OneLine m.name ∧ OneLine m.msgType ∧
        ∀ g ∈ GroupListing.all m.groups, OneLine g.name := by
  have titles : (∀ item ∈ l.items, OneLine item.title) ↔
      ∀ m ∈ l.messages, OneLine m.name ∧ OneLine m.msgType ∧
        ∀ g ∈ GroupListing.all m.groups, OneLine g.name := by
    simp only [items, itemsOf, List.forall_mem_flatMap, List.forall_mem_append,
      List.forall_mem_map, List.forall_mem_singleton, oneLine_title_iff]
    exact forall₂_congr fun m _ => by rw [and_comm, and_assoc]
  rw [← titles]
  constructor
  · intro whole item hi
    exact (oneLine_append.mp (whole _ (doc_title_mem_outline hi .default))).2
  · intro whole line hl
    exact (among_outline h label line hl).oneLine (List.forall_mem_map.mpr whole)

end Listing

theorem GroupListing.forall_all_layouts_iff {P : String → Prop} (gs : List GroupListing) :
    (∀ g ∈ GroupLayout.all (layouts gs), P g.name) ↔ ∀ g ∈ all gs, P g.name := by
  induction gs using forest_induction with
  | nil => simp [layouts, all, GroupLayout.all]
  | cons g gs nested others =>
    cases g
    simp [layouts, all_cons, GroupLayout.all_cons, or_imp, forall_and, nested, others]

/-- The names that a layout's comments hold stand in one line each. -/
def MessageLayout.NamedInLine (l : MessageLayout) : Prop :=
  OneLine l.name ∧ OneLine l.msgType ∧ ∀ g ∈ GroupLayout.all l.groups, OneLine g.name

namespace Spec

theorem listing_named_in_line_iff (s : Spec) :
    (∀ m ∈ (s.listing true).messages, OneLine m.name ∧ OneLine m.msgType ∧
      ∀ g ∈ GroupListing.all m.groups, OneLine g.name) ↔ ∀ l ∈ s.layouts, l.NamedInLine := by
  let inLine (p : String × String × List GroupLayout) : Prop :=
    OneLine p.1 ∧ OneLine p.2.1 ∧ ∀ g ∈ GroupLayout.all p.2.2, OneLine g.name
  have layouts := s.listing_layouts true
  have listed : (∀ m ∈ (s.listing true).messages, OneLine m.name ∧ OneLine m.msgType ∧
      ∀ g ∈ GroupListing.all m.groups, OneLine g.name) ↔
      ∀ p ∈ (s.listing true).messages.map
        (fun m => (m.name, m.msgType, GroupListing.layouts m.groups)), inLine p := by
    simp only [inLine, List.forall_mem_map, GroupListing.forall_all_layouts_iff]
  rw [listed, layouts]
  simp only [inLine, List.forall_mem_map, MessageLayout.NamedInLine, ↓reduceIte]

theorem source_eq_join (s : Spec) :
    s.source .default = String.join
      ((((s.listing true).outline .default).map (·.text .default)).map
        (· ++ String.singleton '\n')) := by
  rw [List.map_map]
  exact s.source_eq_outline .default

theorem source_pieces (s : Spec) :
    pieces '\n' (s.source .default) = ((s.listing true).outline .default).flatMap fun line =>
      pieces '\n' (line.text .default ++ "\n") := by
  rw [source_eq_join, pieces_join_eq_flatMap, List.flatMap_map]
  rfl

/-- The source text falls apart line by line, each of which is empty, a comment or a line of code.
Code stands in its line whatever it quotes, and comments do exactly if the names in them have no
line breaks; then nothing else is in the text. -/
theorem source_lines_whole_iff (s : Spec) :
    let lines := (s.listing true).outline .default
    pieces '\n' (s.source .default) =
        lines.flatMap (fun line => pieces '\n' (line.text .default ++ "\n")) ∧
      (∀ line ∈ lines, line = .blank ∨ line.IsComment ∨ line.IsCode) ∧
      (∀ line ∈ lines, line.IsCode → OneLine (line.text .default)) ∧
      ((∀ line ∈ lines, OneLine (line.text .default)) ↔ ∀ l ∈ s.layouts, l.NamedInLine) ∧
      ((∀ l ∈ s.layouts, l.NamedInLine) → ∀ p ∈ pieces '\n' (s.source .default),
        p = "" ∨ "//".toList <+: p.toList ∨
          ∃ line ∈ lines, line.IsCode ∧ p = line.text .default) := by
  intro lines
  have label := s.version.oneLine_label
  have named := s.listing_wellNamed true
  have kinds : ∀ line ∈ lines, line = .blank ∨ line.IsComment ∨ line.IsCode :=
    fun line hl => (Listing.among_outline named label line hl).cases
  have whole : (∀ line ∈ lines, OneLine (line.text .default)) ↔ ∀ l ∈ s.layouts, l.NamedInLine :=
    (Listing.outline_oneLine_iff named label).trans s.listing_named_in_line_iff
  refine ⟨s.source_pieces, kinds, fun _ _ code => code.oneLine, whole, fun names p hp => ?_⟩
  have closed : ∀ p ∈ lines.map (·.text .default), '\n' ∉ p.toList :=
    List.forall_mem_map.mpr (whole.mpr names)
  rw [source_eq_join, pieces_join closed] at hp
  obtain ⟨line, hl, rfl⟩ := List.mem_map.mp hp
  obtain rfl | comment | code := kinds line hl
  · exact .inl rfl
  · exact .inr (.inl (comment.slashes .default))
  · exact .inr (.inr ⟨line, hl, code, rfl⟩)

/-- A dictionary of one message with the given name. -/
def newsNamed (name : String) : Node :=
  let member name := (Node.leaf "field").withAttribute "name" name
  let news := ((Node.leaf "message").withAttribute "name" name).withAttribute "msgtype" "B"
  { ((Node.leaf "fix").withAttribute "major" "4").withAttribute "minor" "4" with
    children := [
      { Node.leaf "fields" with
        children := [FieldRegistry.fieldNode "8" "BeginString" "STRING",
          FieldRegistry.fieldNode "10" "CheckSum" "STRING"] },
      (Node.leaf "header").append (member "BeginString"),
      (Node.leaf "trailer").append (member "CheckSum"),
      { Node.leaf "messages" with children := [news] }] }

theorem source_lines_whole_iff_of_quotes :
    ∃ s, (compile (newsNamed "\"News\" // Flash") .default).outcome = .ok s ∧
      s.layouts.map (·.name) = ["\"News\" // Flash"] ∧
      ∀ p ∈ pieces '\n' (s.source .default), p = "" ∨ "//".toList <+: p.toList ∨
        ∃ line ∈ (s.listing true).outline .default, line.IsCode ∧ p = line.text .default := by
  have compiled : (compile (newsNamed "\"News\" // Flash") .default).outcome.map (fun s =>
      (s.layouts.map (·.name), decide s.OneLineNames)) = .ok (["\"News\" // Flash"], true) := by
    cbv
  obtain ⟨s, hs, facts⟩ := except_map_eq_ok_iff.mp compiled
  obtain ⟨layouts, names⟩ := Prod.mk.inj facts
  obtain ⟨t⟩ := compile_eq_ok_iff.mp hs
  obtain ⟨-, -, -, -, classified⟩ := source_lines_whole_iff s
  exact ⟨s, hs, layouts, classified (t.layout_oneLine (of_decide_eq_true names))⟩

/-- A line break in a name ends its comment: what follows it stands in a line of its own, which is
neither empty nor a comment nor a line of code. -/
theorem comment_ends_at_newline :
    ∃ s, (compile (newsNamed "News\nFlash") .default).outcome = .ok s ∧
      ∃ p ∈ pieces '\n' (s.source .default), p ≠ "" ∧ ¬ "//".toList <+: p.toList ∧
        ∀ line : SourceLine, line.IsCode → p ≠ line.text .default := by
  have compiled : (compile (newsNamed "News\nFlash") .default).outcome.map (fun s =>
      s.layouts.map fun l => (l.name, l.msgType)) = .ok [("News\nFlash", "B")] := by
    cbv
  obtain ⟨s, hs, layouts⟩ := except_map_eq_ok_iff.mp compiled
  obtain ⟨l, hl, named⟩ : ∃ l ∈ s.layouts, (l.name, l.msgType) = ("News\nFlash", "B") := by
    rw [← List.mem_map, layouts]
    exact List.mem_singleton_self _
  have listed := List.mem_map_of_mem (f := fun l => (l.name, l.msgType, l.groups)) hl
  rw [show s.layouts.map (fun l => (l.name, l.msgType, l.groups)) = _ from
    (s.listing_layouts true).symm] at listed
  obtain ⟨m, hm, same⟩ := List.mem_map.mp listed
  have item : .message m ∈ (s.listing true).items :=
    List.mem_flatMap.mpr ⟨m, hm, List.mem_append_right _ (List.mem_singleton_self _)⟩
  have title : (Item.message m).title = "News\nFlash (MsgType = B)." := by
    obtain ⟨name, type, -⟩ : m.name = l.name ∧ m.msgType = l.msgType ∧ _ := by simpa using same
    obtain ⟨name', type'⟩ := Prod.mk.inj named
    rw [Item.title, name, type, name', type']
    decide
  have doc := Listing.doc_title_mem_outline item .default
  refine ⟨s, hs, "Flash (MsgType = B).", ?_, by decide, by decide, fun line code same => ?_⟩
  · rw [source_pieces]
    refine List.mem_flatMap.mpr ⟨_, doc, ?_⟩
    rw [title]
    decide
  · obtain ⟨c, hc, head⟩ := code.head
    rw [← same] at head
    obtain rfl : 'F' = c := Option.some.inj head
    simp at hc

end Spec

end FixTables
