import FixTables.Listing.Source
import FixTables.Proofs.OrderedSearch
import FixTables.Proofs.TextParts
import Std.Data.String.ToNat

namespace FixTables

theorem mapM_map_eq_some {f : β → Option γ} {g : α → β} {h : α → γ} {xs : List α}
    (agree : ∀ x ∈ xs, f (g x) = some (h x)) : (xs.map g).mapM f = some (xs.map h) := by
  induction xs with
  | nil => rfl
  | cons x xs ih =>
    obtain ⟨hx, hxs⟩ := List.forall_mem_cons.mp agree
    simp [List.mapM_cons, hx, ih hxs]

/-- A line that gives a number. -/
def numberLine (front : String) (n : Nat) : String := front ++ n.repr ++ ","

def readNumber (front line : String) : Option Nat := (between front "," line).bind String.toNat?

@[simp] theorem readNumber_numberLine (front : String) (n : Nat) :
    readNumber front (numberLine front n) = some n := by
  rw [readNumber, numberLine, between_append, Option.bind_some, Nat.toNat?_repr]

/-- A line that gives a text between quotes. -/
def quotedLine (front s : String) : String := front ++ quoted s ++ ","

def readQuoted (front line : String) : Option String := (between front "," line).bind unquote

@[simp] theorem readQuoted_quotedLine (front s : String) :
    readQuoted front (quotedLine front s) = some s := by
  rw [readQuoted, quotedLine, between_append, Option.bind_some, unquote_quoted]

/-- The identifier that the first line of a declaration of a type gives. -/
def readIdentifier (type line : String) : Option String :=
  between "pub static " (": " ++ type ++ " = " ++ type ++ " \x7b") line

theorem declarationLine_pub (identifier type : String) :
    declarationLine "pub" identifier type =
      "pub static " ++ identifier ++ (": " ++ type ++ " = " ++ type ++ " \x7b") := by
  show "pub" ++ " static " ++ identifier ++ ": " ++ type ++ " = " ++ type ++ " \x7b" = _
  simp only [String.append_assoc]
  rfl

@[simp] theorem readIdentifier_declarationLine (identifier type : String) :
    readIdentifier type (declarationLine "pub" identifier type) = some identifier := by
  rw [readIdentifier, declarationLine_pub, between_append]

namespace TagSequence

theorem flatten_piecesOf (n : Nat) (xs : List α) : (piecesOf n xs).flatten = xs := by
  induction xs using piecesOf.induct n with
  | case1 => rw [piecesOf, List.flatten_nil]
  | case2 x r ih => rw [piecesOf, List.flatten_cons, ih, List.cons_append, List.take_append_drop]

/-- Reads the positions in lines of source text back. -/
def readLines (lines : List String) : Option TagSequence :=
  ((parts ',' ((lines.flatMap String.toList).filter (· ≠ ' '))).mapM fun digits =>
    (String.ofList digits).toNat?).map fun slots => ⟨slots.toArray⟩

theorem filter_intercalate {p : α → Bool} {x : α} (hx : p x = false) (ls : List (List α)) :
    ([x].intercalate ls).filter p = ls.flatMap (·.filter p) := by
  induction ls with
  | nil => rfl
  | cons l ls ih =>
    cases ls with
    | nil => simp
    | cons l' ls =>
      rw [List.intercalate_cons_cons, List.filter_append, List.filter_append, ih]
      simp [hx]

theorem filter_sourceLine (slots : List Nat) :
    (sourceLine slots).toList.filter (· ≠ ' ') = slots.flatMap fun n => n.repr.toList ++ [','] := by
  have cell (n : Nat) : (n.repr ++ ",").toList.filter (· ≠ ' ') = n.repr.toList ++ [','] := by
    rw [List.filter_eq_self.mpr, String.toList_append]
    · rfl
    · intro c hc
      rw [String.toList_append] at hc
      have hs : ' ' ∉ n.repr.toList ++ ",".toList := by
        simpa only [List.mem_append, not_or] using ⟨not_mem_repr rfl n, by decide⟩
      simpa using ne_of_mem_of_not_mem hc hs
  have spaced : (sourceLine slots).toList = "        ".toList ++
      [' '].intercalate (slots.map fun n => (n.repr ++ ",").toList) := by
    rw [sourceLine, String.toList_append, String.toList_intercalate, List.map_map]
    rfl
  have indent : "        ".toList.filter (· ≠ ' ') = [] := rfl
  rw [spaced, List.filter_append, indent, List.nil_append, filter_intercalate rfl,
    List.flatMap_map]
  exact List.flatMap_congr fun n _ => cell n

theorem readLines_sourceLines (n : Nat) (s : TagSequence) :
    readLines ((piecesOf n s.slots.toList).map sourceLine) = some s := by
  have cells : (((piecesOf n s.slots.toList).map sourceLine).flatMap String.toList).filter
      (· ≠ ' ') = (s.slots.toList.map (·.repr.toList)).flatMap (· ++ [',']) := by
    have flat := congrArg (List.flatMap fun n : Nat => n.repr.toList ++ [','])
      (flatten_piecesOf n s.slots.toList)
    rw [List.flatten_eq_flatMap, List.flatMap_assoc] at flat
    simpa only [List.flatMap_map, List.filter_flatMap, filter_sourceLine, id_eq] using flat
  have digits : ∀ p ∈ s.slots.toList.map (·.repr.toList), ',' ∉ p := by
    simpa using fun n _ => not_mem_repr rfl n
  rw [readLines, cells, parts_flatMap digits, mapM_map_eq_some (h := id)]
  · simp
  · intro n _
    rw [String.ofList_toList]
    exact Nat.toNat?_repr n

theorem sourceLine_ne_end (slots : List Nat) : sourceLine slots ≠ "    ]," := by
  intro h
  have := congrArg String.toList h
  simp [sourceLine] at this

end TagSequence

theorem reference_ne_end (identifier : String) : "        &" ++ identifier ++ "," ≠ "    ]," := by
  intro h
  have := congrArg String.toList h
  simp at this

/-- The identifiers in a list of references. -/
def readReferences (lines : List String) : Option (List String) :=
  lines.mapM (between "        &" ",")

theorem readReferences_map (identifiers : List String) :
    readReferences (identifiers.map fun i => s!"        &{i},") = some identifiers := by
  rw [readReferences, mapM_map_eq_some (h := id), List.map_id]
  exact fun i _ => between_append "        &" i ","

theorem parts_referenceLines (field : String) (identifiers : List String)
    (hf : s!"    {field}: &[" ≠ "    ],") :
    parts "    ]," (referenceLines field identifiers ++ ["\x7d;"]) =
      [s!"    {field}: &[" :: identifiers.map fun i => s!"        &{i},"] := by
  have closed : "    ]," ∉ s!"    {field}: &[" :: identifiers.map fun i => s!"        &{i}," := by
    refine List.not_mem_cons_of_ne_of_not_mem hf.symm fun hm => ?_
    obtain ⟨i, _, h⟩ := List.mem_map.mp hm
    exact reference_ne_end i h
  have shape : referenceLines field identifiers ++ ["\x7d;"] =
      (s!"    {field}: &[" :: identifiers.map fun i => s!"        &{i},") ++
        "    ]," :: ["\x7d;"] := by
    simp [referenceLines]
  rw [shape, parts_append_stop closed, parts_of_not_mem (by decide)]

/-- The last lines of a group's or a message's declaration: its positions and its groups. -/
def bodyLines (s : TagSequence) (identifiers : List String) : List String :=
  s.sourceLines ++ groupReferenceLines identifiers ++ ["\x7d;"]

def readBody (lines : List String) : Option (TagSequence × List String) :=
  match parts "    ]," lines with
  | [_ :: slots] => (TagSequence.readLines slots).map (·, [])
  | [_ :: slots, _ :: references] => do
    return (← TagSequence.readLines slots, ← readReferences references)
  | _ => none

@[simp] theorem readBody_bodyLines (s : TagSequence) (identifiers : List String) :
    readBody (bodyLines s identifiers) = some (s, identifiers) := by
  let slots := (piecesOf TagSequence.morePerLine s.slots.toList).map TagSequence.sourceLine
  have closed : "    ]," ∉ "    tag_seq: &[" :: slots := by
    simp [slots, TagSequence.sourceLine_ne_end]
  have front (rest : List String) : s.sourceLines ++ rest =
      ("    tag_seq: &[" :: slots) ++ "    ]," :: rest := by
    simp [TagSequence.sourceLines, slots]
  rw [readBody, bodyLines, List.append_assoc, front, parts_append_stop closed, groupReferenceLines]
  split_ifs with none
  · rw [parts_of_not_mem (by decide), List.isEmpty_iff.mp none]
    simp [slots, TagSequence.readLines_sourceLines]
  · rw [parts_referenceLines _ _ (by decide)]
    simp [slots, TagSequence.readLines_sourceLines, readReferences_map]

/-- A declaration as its text tells it, with what it refers to known by identifier only. -/
inductive Declaration
  | group (identifier : String) (countTag delimiterTag : Nat) (sequence : TagSequence)
    (groups : List String)
  | message (identifier : String) (typeId : UInt64) (msgType name : String)
    (sequence : TagSequence) (groups : List String)

namespace Declaration

def readGroup (head countTag delimiterTag : String) (body : List String) : Option Declaration := do
  let (sequence, groups) ← readBody body
  return .group (← readIdentifier "GroupSpec" head) (← readNumber "    count_tag: " countTag)
    (← readNumber "    delimiter_tag: " delimiterTag) sequence groups

def readMessage (head typeId msgType name : String) (body : List String) : Option Declaration := do
  let (sequence, groups) ← readBody body
  return .message (← readIdentifier "MsgSpec" head) (.ofNat (← readNumber "    tid: " typeId))
    (← readQuoted "    msg_type: " msgType) (← readQuoted "    name: " name) sequence groups

/-- Reads the lines of a declaration back, after a line of comment. Only a message names its
version. -/
def read : List String → Option Declaration
  | _ :: head :: third :: fourth :: rest =>
    if (between "    version: &" "," third).isSome then
      match rest with
      | msgType :: name :: body => readMessage head fourth msgType name body
      | _ => none
    else readGroup head third fourth rest
  | _ => none

end Declaration

/-- What is declared on its own: a group at any depth, or a message. -/
inductive Item
  | group (g : GroupListing)
  | message (m : MessageListing)

namespace Item

/-- The lines of an item's own declaration but for the empty one at its end. -/
def lines (symbol : String) : Item → List String
  | group g =>
    ["/// " ++ g.name ++ " group (count tag " ++ g.countTag.repr ++ ").",
      declarationLine "pub" g.identifier "GroupSpec",
      numberLine "    count_tag: " g.countTag,
      numberLine "    delimiter_tag: " g.delimiterTag] ++
    bodyLines g.sequence (g.groups.map (·.identifier))
  | message m =>
    ["/// " ++ m.name ++ " (MsgType = " ++ m.msgType ++ ").",
      declarationLine "pub" m.identifier "MsgSpec",
      "    version: &" ++ symbol ++ ",",
      numberLine "    tid: " m.typeId.toNat,
      quotedLine "    msg_type: " m.msgType,
      quotedLine "    name: " m.name] ++
    bodyLines m.sequence (m.groups.map (·.identifier))

def declaration : Item → Declaration
  | group g =>
    .group g.identifier g.countTag g.delimiterTag g.sequence (g.groups.map (·.identifier))
  | message m =>
    .message m.identifier m.typeId m.msgType m.name m.sequence (m.groups.map (·.identifier))

theorem read_lines (symbol : String) (item : Item) :
    Declaration.read (item.lines symbol) = some item.declaration := by
  cases item with
  | group g =>
    have versionless : between "    version: &" "," (numberLine "    count_tag: " g.countTag) =
        none := by
      rw [numberLine, String.append_assoc]
      exact between_eq_none (by decide) (by decide) _
    simp [lines, Declaration.read, versionless, Declaration.readGroup, declaration]
  | message m =>
    simp [lines, Declaration.read, between_append, Declaration.readMessage, declaration]

end Item

/-- What the declaration of a version tells, with its messages known by identifier only. -/
structure VersionHead where
  major : Nat
  minor : Nat
  servicePack : Nat
  beginString : String
  messages : List String

namespace VersionHead

/-- The lines of a version's declaration but for the empty one at its end. -/
def lines (l : Listing) : List String :=
  ["/// " ++ l.version.label ++ " specification.",
    declarationLine "pub" l.symbol "VersionSpec",
    numberLine "    major: " l.version.major,
    numberLine "    minor: " l.version.minor,
    numberLine "    service_pack: " l.version.servicePack,
    quotedLine "    begin_string: " l.version.beginString,
    "    tags: &" ++ l.tagsIdentifier ++ ","] ++
  referenceLines "messages" (l.messages.map (·.identifier)) ++ ["\x7d;"]

def read : List String → Option VersionHead
  | _ :: _ :: major :: minor :: servicePack :: beginString :: _ :: rest => do
    let [_ :: references] := parts "    ]," rest | none
    return {
      major := ← readNumber "    major: " major
      minor := ← readNumber "    minor: " minor
      servicePack := ← readNumber "    service_pack: " servicePack
      beginString := ← readQuoted "    begin_string: " beginString
      messages := ← readReferences references }
  | _ => none

theorem read_lines (l : Listing) :
    read (lines l) = some ⟨l.version.major, l.version.minor, l.version.servicePack,
      l.version.beginString, l.messages.map (·.identifier)⟩ := by
  have rest := parts_referenceLines "messages" (l.messages.map (·.identifier)) (by decide)
  simp only [lines, List.cons_append, List.nil_append, read, rest, readNumber_numberLine,
    readQuoted_quotedLine, readReferences_map]
  rfl

end VersionHead

namespace TagRow

/-- The parts of a row's line that a comma ends. -/
def cells (r : TagRow) : List String :=
  ["    TagSpec \x7b tag: " ++ r.tag.repr, " wire_type: WireType::" ++ r.wireType.name,
    " location: Location::" ++ r.location.name, " related: " ++ r.related.repr,
    " tag_len: " ++ r.tagLength.repr, " prefix: " ++ quoted r.lead ++ " \x7d"]

theorem sourceLine_eq_join (r : TagRow) :
    r.sourceLine = String.join (r.cells.map (· ++ String.singleton ',')) := by
  have wireType : ", wire_type: WireType::" = "," ++ " wire_type: WireType::" := rfl
  have gap : ", " = "," ++ " " := rfl
  have location : " location: Location::" = " " ++ "location: Location::" := rfl
  have related : ", related: " = "," ++ " related: " := rfl
  have tagLength : " tag_len: " = " " ++ "tag_len: " := rfl
  have lead : ", prefix: " = "," ++ " prefix: " := rfl
  have ending : " \x7d," = " \x7d" ++ "," := rfl
  have comma : String.singleton ',' = "," := rfl
  show "    TagSpec \x7b tag: " ++ r.tag.repr ++ ", wire_type: WireType::" ++ r.wireType.name ++
      ", " ++
    ("location: Location::" ++ r.location.name ++ ", related: " ++ r.related.repr ++ ", ") ++
    ("tag_len: " ++ r.tagLength.repr ++ ", prefix: " ++ quoted r.lead ++ " \x7d,") = _
  simp only [cells, wireType, gap, location, related, tagLength, lead, ending, comma,
    List.map_cons, List.map_nil, String.join_cons, String.join_nil, String.append_assoc,
    String.append_empty]

theorem cells_closed {r : TagRow} (h : ',' ∉ r.lead.toList) :
    ∀ cell ∈ r.cells, ',' ∉ cell.toList := by
  have number (front : String) (hf : ',' ∉ front.toList) (n : Nat) :
      ',' ∉ (front ++ n.repr).toList := by
    rw [String.toList_append, List.mem_append]
    exact not_or.mpr ⟨hf, not_mem_repr rfl n⟩
  have lead : ',' ∉ (quoted r.lead).toList := by
    intro hq
    obtain ⟨hl, -⟩ | alphanum | mark := mem_quoted hq
    · exact h hl
    · simp at alphanum
    · simp at mark
  have wireType : ',' ∉ r.wireType.name.toList := by
    cases r.wireType <;> decide
  have location : ',' ∉ r.location.name.toList := by
    cases r.location <;> decide
  simp only [cells, List.forall_mem_cons]
  refine ⟨number _ (by decide) _, ?_, ?_, number _ (by decide) _, number _ (by decide) _, ?_, ?_⟩
  · simpa using wireType
  · simpa using location
  · simpa using lead
  · simp

theorem make_lead_closed (tag : Nat) (wireType : WireType) (location : Location) (related : Nat) :
    ',' ∉ (make tag wireType location related).lead.toList := by
  show ',' ∉ (tag.repr ++ "=").toList
  rw [String.toList_append, List.mem_append]
  exact not_or.mpr ⟨not_mem_repr rfl tag, by decide⟩

def readLine (line : String) : Option TagRow :=
  match pieces ',' line with
  | ["    TagSpec::SENTINEL"] => some sentinel
  | [tag, wireType, location, related, tagLength, lead] => do
    return {
      tag := ← (← between "    TagSpec \x7b tag: " "" tag).toNat?
      wireType := ← WireType.ofName? (← between " wire_type: WireType::" "" wireType)
      location := ← Location.ofName? (← between " location: Location::" "" location)
      related := ← (← between " related: " "" related).toNat?
      tagLength := ← (← between " tag_len: " "" tagLength).toNat?
      lead := ← unquote (← between " prefix: " " \x7d" lead) }
  | _ => none

theorem readLine_sourceLine {r : TagRow} (h : ',' ∉ r.lead.toList) :
    readLine r.sourceLine = some r := by
  have wireType : WireType.ofName? r.wireType.name = some r.wireType := by
    cases r.wireType <;> rfl
  have location : Location.ofName? r.location.name = some r.location := by
    cases r.location <;> rfl
  have front (mark text : String) : between mark "" (mark ++ text) = some text := by
    simpa using between_append mark text ""
  rw [readLine, sourceLine_eq_join, pieces_join (cells_closed h)]
  simp [cells, front, between_append, wireType, location, Nat.toNat?_repr, unquote_quoted]

theorem readLine_sentinel : readLine "    TagSpec::SENTINEL," = some sentinel := by
  rfl

end TagRow

end FixTables
