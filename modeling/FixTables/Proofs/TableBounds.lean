import FixTables.Proofs.GroupTrees

namespace FixTables

namespace Resolved

/-- The tags of members and, at any depth, of the members in their groups. -/
def usedTags (ms : List Resolved) : Set Nat :=
  {tag | ∃ list, (list = ms ∨ EntryOf ms list) ∧ ∃ m ∈ list, m.tag? = some tag}

variable {m : Resolved} {ms entry : List Resolved} {tag : Nat}

theorem mem_usedTags_of_mem (hm : m ∈ ms) (ht : m.tag? = some tag) : tag ∈ usedTags ms :=
  ⟨ms, .inl rfl, m, hm, ht⟩

theorem usedTags_subset_of_entry (he : EntryOf ms entry) : usedTags entry ⊆ usedTags ms := by
  rintro tag ⟨list, rfl | hl, used⟩
  · exact ⟨list, .inr he, used⟩
  · refine ⟨list, .inr ?_, used⟩
    induction he with
    | here hm he => exact .inside hm he hl
    | inside hm he _ ih => exact .inside hm he (ih hl)

/-- The tags of a list are its first member's, those in its entry, and those of the rest. -/
theorem mem_usedTags_cons_iff :
    tag ∈ usedTags (m :: ms) ↔
      m.tag? = some tag ∨ (∃ entry, m.entry? = some entry ∧ tag ∈ usedTags entry) ∨
        tag ∈ usedTags ms := by
  constructor
  · rintro ⟨list, rfl | hl, x, hx, ht⟩
    · rcases List.mem_cons.mp hx with rfl | hx
      · exact .inl ht
      · exact .inr (.inr (mem_usedTags_of_mem hx ht))
    · rcases entryOf_cons_iff.mp hl with ⟨entry, he, inner⟩ | hl
      · exact .inr (.inl ⟨entry, he, list, inner, x, hx, ht⟩)
      · exact .inr (.inr ⟨list, .inr hl, x, hx, ht⟩)
  · rintro (ht | ⟨entry, he, used⟩ | ⟨list, rfl | hl, x, hx, ht⟩)
    · exact mem_usedTags_of_mem List.mem_cons_self ht
    · exact usedTags_subset_of_entry (.here List.mem_cons_self he) used
    · exact mem_usedTags_of_mem (List.mem_cons_of_mem m hx) ht
    · exact ⟨list, .inr (entryOf_cons_iff.mpr (.inr hl)), x, hx, ht⟩

theorem usedTags_nil : usedTags [] = ∅ := by
  refine Set.eq_empty_of_forall_notMem ?_
  rintro tag ⟨list, rfl | hl, x, hx, _⟩
  · simp at hx
  · exact not_entryOf_nil list hl

theorem le_maxTag_of_mem_usedTags (h : tag ∈ usedTags ms) : tag ≤ maxTag ms := by
  induction ms using entry_induction with
  | nil => simp [usedTags_nil] at h
  | cons m ms inner rest =>
    rcases mem_usedTags_cons_iff.mp h with ht | ⟨entry, he, used⟩ | used
    · exact tag_le_maxTag List.mem_cons_self ht
    · exact (inner entry he used).trans (maxTag_entry_le List.mem_cons_self he)
    · rw [maxTag_cons]
      exact (rest used).trans (Nat.le_max_right _ _)

theorem maxTag_mem_usedTags (ms : List Resolved) : maxTag ms = 0 ∨ maxTag ms ∈ usedTags ms := by
  induction ms using entry_induction with
  | nil => exact .inl rfl
  | cons m ms inner rest =>
    -- The tags of the first member, its own before those in its entry.
    have first : maxTagFrom 0 m = 0 ∨ maxTagFrom 0 m ∈ usedTags (m :: ms) := by
      cases m with
      | unresolved name => exact .inl rfl
      | field own name required =>
        have alone : maxTagFrom 0 (.field own name required) = own := Nat.zero_max own
        rw [alone]
        exact .inr (mem_usedTags_of_mem List.mem_cons_self rfl)
      | group own name required entry =>
        have both : maxTagFrom 0 (.group own name required entry) = Nat.max own (maxTag entry) := by
          rw [maxTagFrom, maxTagsFrom_eq_max, show Nat.max 0 own = own from Nat.zero_max own]
        rcases Nat.le_total (maxTag entry) own with le | le
        · rw [both, show Nat.max own (maxTag entry) = own from Nat.max_eq_left le]
          exact .inr (mem_usedTags_of_mem List.mem_cons_self rfl)
        · rw [both, show Nat.max own (maxTag entry) = maxTag entry from Nat.max_eq_right le]
          exact (inner entry rfl).imp_right fun used =>
            usedTags_subset_of_entry (.here List.mem_cons_self rfl) used
    have others : maxTag ms = 0 ∨ maxTag ms ∈ usedTags (m :: ms) :=
      rest.imp_right fun used => mem_usedTags_cons_iff.mpr (.inr (.inr used))
    rw [maxTag_cons]
    rcases Nat.le_total (maxTag ms) (maxTagFrom 0 m) with le | le
    · rwa [show Nat.max (maxTagFrom 0 m) (maxTag ms) = _ from Nat.max_eq_left le]
    · rwa [show Nat.max (maxTagFrom 0 m) (maxTag ms) = _ from Nat.max_eq_right le]

theorem maxTagIn_mem (lists : List (List Resolved)) :
    maxTagIn lists = 0 ∨ ∃ ms ∈ lists, maxTagIn lists = maxTag ms := by
  have from_any (start : Nat) :
      lists.foldl (fun max members => Nat.max max (maxTag members)) start = start ∨
        ∃ ms ∈ lists, lists.foldl (fun max members => Nat.max max (maxTag members)) start =
          maxTag ms := by
    induction lists generalizing start with
    | nil => exact .inl rfl
    | cons ms lists ih =>
      rw [List.foldl_cons]
      rcases ih (Nat.max start (maxTag ms)) with last | ⟨later, hl, last⟩
      · rw [last]
        rcases Nat.le_total (maxTag ms) start with le | le
        · exact .inl (Nat.max_eq_left le)
        · exact .inr ⟨ms, List.mem_cons_self, Nat.max_eq_right le⟩
      · exact .inr ⟨later, List.mem_cons_of_mem ms hl, last⟩
  exact from_any 0

/-- The largest tag in lists of members is the greatest that they use, if they use one. -/
theorem maxTagIn_isGreatest (lists : List (List Resolved)) :
    IsGreatest (insert 0 {tag | ∃ ms ∈ lists, tag ∈ usedTags ms}) (maxTagIn lists) := by
  constructor
  · rcases maxTagIn_mem lists with none | ⟨ms, hm, same⟩
    · exact .inl none
    · rw [same]
      exact (maxTag_mem_usedTags ms).imp_right fun used => ⟨ms, hm, used⟩
  · rintro tag (rfl | ⟨ms, hm, used⟩)
    · exact Nat.zero_le _
    · exact (le_maxTag_of_mem_usedTags used).trans (maxTagIn_le_iff.mp le_rfl ms hm)

theorem mem_usedTags_append_iff {ns : List Resolved} :
    tag ∈ usedTags (ms ++ ns) ↔ tag ∈ usedTags ms ∨ tag ∈ usedTags ns := by
  induction ms with
  | nil => simp [usedTags_nil]
  | cons m ms ih =>
    rw [List.cons_append, mem_usedTags_cons_iff, mem_usedTags_cons_iff, ih]
    simp only [or_assoc]

/-- Tags that members unfold to are tags of fields. -/
theorem declared_of_unfolds {r : Resolver} {refs members : List Member}
    (unfolds : r.Unfolds refs members ms) (h : tag ∈ usedTags ms) :
    ∃ f ∈ r.fields.fields, f.tag = tag := by
  induction unfolds with
  | nil => simp [usedTags_nil] at h
  | field _ hf _ ih =>
    rcases mem_usedTags_cons_iff.mp h with ht | ⟨entry, he, -⟩ | used
    · exact ⟨_, List.mem_of_find?_eq_some hf, Option.some.inj ht⟩
    · simp [Resolved.entry?] at he
    · exact ih used
  | group _ hf _ _ inner ih =>
    rcases mem_usedTags_cons_iff.mp h with ht | ⟨entry, he, used⟩ | used
    · exact ⟨_, List.mem_of_find?_eq_some hf, Option.some.inj ht⟩
    · obtain rfl := Option.some.inj he
      exact inner used
    · exact ih used
  | component _ _ _ _ inner ih => exact (mem_usedTags_append_iff.mp h).elim inner ih
  | unknown _ _ _ ih =>
    rcases mem_usedTags_cons_iff.mp h with ht | ⟨entry, he, -⟩ | used
    · simp [Resolved.tag?] at ht
    · simp [Resolved.entry?] at he
    · exact ih used

end Resolved

theorem Field.ofNode_tag_le {n : Node} {f : Field} (h : ofNode n = .ok f) : f.tag ≤ maxTag := by
  obtain ⟨-, -, tag, type, given, -, rfl⟩ := ofNode_eq_ok_iff.mp h
  obtain ⟨raw, -, -, -, below⟩ := given
  exact below

theorem FieldRegistry.ofSection_tag_le {n : Node} {r : FieldRegistry}
    (h : (ofSection n).outcome = .ok r) : ∀ f ∈ r.fields, f.tag ≤ Field.maxTag := by
  obtain ⟨fs, read, -, -, paired⟩ := ofSection_eq_ok_iff.mp h
  have keys : r.keys = (FieldRegistry.mk fs).keys := pairLengths_keys paired
  intro f hf
  have key : (f.tag, f.name) ∈ (FieldRegistry.mk fs).keys := keys ▸ List.mem_map_of_mem hf
  obtain ⟨f', hf', same⟩ := List.mem_map.mp key
  obtain ⟨n, -, hn⟩ := exists_mem_of_forall₂ (except_mapM_eq_ok_iff.mp read).flip hf'
  rw [← (Prod.mk.inj same).1]
  exact Field.ofNode_tag_le hn

namespace MessageLayout

open GroupLayout (Mirror)

/-- What holds of a message's members and its table, and of the entry and the table of each group,
at any depth. -/
def EachTable (l : MessageLayout) (p : List Resolved → TagSequence → Prop) : Prop :=
  p l.members l.sequence ∧ Mirror (fun entry g => p entry g.sequence) l.members l.groups

/-- Every table of a message is built from the list it belongs to. -/
theorem eachTable_of_build {m : Message} {bound : Nat} {l : MessageLayout}
    (h : (build m l.members bound).outcome = .ok l) :
    l.EachTable fun members table =>
      (TagSequence.build members bound m.name).outcome = .ok table := by
  obtain ⟨-, -, -, -, sequence⟩ := build_eq_ok h
  refine ⟨sequence, ?_⟩
  exact (GroupLayout.ofMembers_eq_ok_iff_mirror.mp (build_groups h)).imp fun _ _ _ built => built.2

theorem EachTable.imp {l : MessageLayout} {p q : List Resolved → TagSequence → Prop}
    (h : l.EachTable p)
    (more : ∀ members table, members = l.members ∨ Resolved.EntryOf l.members members →
      p members table → q members table) : l.EachTable q :=
  ⟨more _ _ (.inl rfl) h.1, h.2.imp fun entry _ he => more entry _ (.inr he)⟩

end MessageLayout

namespace Spec

/-- The tags of the members of all messages, those in groups included. -/
def usedTags (s : Spec) : Set Nat := {tag | ∃ l ∈ s.layouts, tag ∈ Resolved.usedTags l.members}

variable {root : Node} {config : CompilerConfig} {s : Spec}

theorem maxTagIn_layouts_isGreatest (s : Spec) :
    IsGreatest (insert 0 s.usedTags) (Resolved.maxTagIn (s.layouts.map (·.members))) := by
  have used : s.usedTags =
      {tag | ∃ ms ∈ s.layouts.map (·.members), tag ∈ Resolved.usedTags ms} := by
    simp only [usedTags, List.mem_map, exists_exists_and_eq_and]
  rw [used]
  exact Resolved.maxTagIn_isGreatest _

theorem usedTags_le (h : (compile root config).outcome = .ok s) :
    ∀ tag ∈ s.usedTags, tag ≤ Field.maxTag := by
  obtain ⟨d, sections, read, link⟩ := compile_eq_ok_iff_linkTo.mp h
  rintro tag ⟨l, hl, used⟩
  obtain ⟨m, -, unfolds, -⟩ := exists_mem_of_forall₂ link.layouts_built.flip hl
  obtain ⟨f, hf, rfl⟩ := Resolved.declared_of_unfolds unfolds used
  have key : (f.tag, f.name) ∈ d.fields.keys := link.fields_keys ▸ List.mem_map_of_mem hf
  obtain ⟨f', hf', same⟩ := List.mem_map.mp key
  rw [← (Prod.mk.inj same).1]
  exact FieldRegistry.ofSection_tag_le read.fields_declared f' hf'

/-- Unless a size is configured, tables reach just past the largest tag of any member, and in any
case not past a fixed size. All tables of all messages have the same size, and of the members of
its list each records those whose tags are below. -/
theorem tables_reach_largest_tag (h : (compile root config).outcome = .ok s) :
    ∃ largest, IsGreatest (insert 0 s.usedTags) largest ∧ largest ≤ 4294967295 ∧
      (config.tagBound = none → s.tagBound = min (largest + 1) 100000) ∧
      (∀ b, config.tagBound = some b → s.tagBound = min b 100000) ∧
      ∀ l ∈ s.layouts, l.EachTable fun members table =>
        table.bound = s.tagBound ∧ ∀ m ∈ members, ∀ tag, m.tag? = some tag →
          ((table.position tag).isSome ↔ tag < s.tagBound) ∧
            (config.tagBound = none → ((table.position tag).isSome ↔ tag < 100000)) := by
  obtain ⟨d, sections, read, link⟩ := compile_eq_ok_iff_linkTo.mp h
  have greatest := s.maxTagIn_layouts_isGreatest
  have bound := link.bound_eq
  generalize Resolved.maxTagIn (s.layouts.map (·.members)) = largest at greatest bound
  have below : largest ≤ Field.maxTag := by
    rcases greatest.1 with rfl | used
    · exact Nat.zero_le _
    · exact usedTags_le h largest used
  have derived (none : config.tagBound = none) : s.tagBound = min (largest + 1) 100000 := by
    rw [bound, CompilerConfig.wantedTagBound, none, CompilerConfig.maxTagBound]
    simp only [Option.getD_none]
    omega
  have configured (b : Nat) (some_b : config.tagBound = some b) :
      s.tagBound = min b 100000 := by
    rw [bound, CompilerConfig.wantedTagBound, some_b]
    rfl
  refine ⟨largest, greatest, below, derived, configured, fun l hl => ?_⟩
  obtain ⟨m, -, -, built⟩ := exists_mem_of_forall₂ link.layouts_built.flip hl
  refine (MessageLayout.eachTable_of_build built).imp ?_
  intro members table place builds
  refine ⟨(TagSequence.build_holds builds).1, fun x hx tag ht => ?_⟩
  have recorded : (table.position tag).isSome ↔ tag < s.tagBound := by
    rw [TagSequence.position_isSome_iff builds]
    exact and_iff_left ⟨x, hx, ht⟩
  refine ⟨recorded, fun none => ?_⟩
  have le : tag ≤ largest := greatest.2 (.inr ⟨l, hl, members, place, x, hx, ht⟩)
  rw [recorded, derived none]
  omega

/-- A dictionary whose largest tag belongs to a group within a group. -/
def orderLists : Node :=
  let named element name := (Node.leaf element).withAttribute "name" name
  let allocs := (named "group" "NoAllocs").append (named "field" "AllocAccount")
  let orders := { named "group" "NoOrders" with children := [named "field" "ClOrdID", allocs] }
  { ((Node.leaf "fix").withAttribute "major" "4").withAttribute "minor" "4" with
    children := [
      { Node.leaf "fields" with
        children := [FieldRegistry.fieldNode "8" "BeginString" "STRING",
          FieldRegistry.fieldNode "11" "ClOrdID" "STRING",
          FieldRegistry.fieldNode "73" "NoOrders" "NUMINGROUP",
          FieldRegistry.fieldNode "78" "NoAllocs" "NUMINGROUP",
          FieldRegistry.fieldNode "79" "AllocAccount" "STRING",
          FieldRegistry.fieldNode "5000" "Unused" "STRING",
          FieldRegistry.fieldNode "10" "CheckSum" "STRING"] },
      (Node.leaf "header").append (named "field" "BeginString"),
      (Node.leaf "trailer").append (named "field" "CheckSum"),
      (Node.leaf "messages").append
        (((named "message" "NewOrderList").withAttribute "msgtype" "E").append orders)] }

theorem tables_reach_largest_tag_of_orderLists :
    (∃ s, (compile orderLists .default).outcome = .ok s ∧ s.tagBound = 80 ∧
      IsGreatest (insert 0 s.usedTags) 79) ∧
    ∃ s, (compile orderLists (.withTagBound .default 50)).outcome = .ok s ∧ s.tagBound = 50 ∧
      ∀ l ∈ s.layouts, l.EachTable fun members table => ∀ m ∈ members, ∀ tag, m.tag? = some tag →
        ((table.position tag).isSome ↔ tag < 50) := by
  have derived : (compile orderLists .default).outcome.map (·.tagBound) = .ok 80 := by
    cbv
  have configured : (compile orderLists (.withTagBound .default 50)).outcome.map (·.tagBound) =
      .ok 50 := by
    cbv
  constructor
  · obtain ⟨s, hs, bound⟩ := except_map_eq_ok_iff.mp derived
    obtain ⟨largest, greatest, -, none, -⟩ := tables_reach_largest_tag hs
    have same : 80 = min (largest + 1) 100000 := bound.symm.trans (none rfl)
    obtain rfl : largest = 79 := by omega
    exact ⟨s, hs, bound, greatest⟩
  · obtain ⟨s, hs, bound⟩ := except_map_eq_ok_iff.mp configured
    obtain ⟨-, -, -, -, -, tables⟩ := tables_reach_largest_tag hs
    refine ⟨s, hs, bound, fun l hl => (tables l hl).imp ?_⟩
    rintro members table - ⟨-, recorded⟩ m hm tag ht
    rw [(recorded m hm tag ht).1, bound]

end Spec

end FixTables
