import FixTables.Layout
import FixTables.Proofs.Outcome
import FixTables.Proofs.TagPositions

namespace FixTables

namespace Resolved

/-- The members of each entry of a group. -/
def entry? : Resolved → Option (List Resolved)
  | group _ _ _ members => some members
  | _ => none

/-- The entry lists of the groups among members, at any depth. -/
inductive EntryOf : List Resolved → List Resolved → Prop
  | here {ms entry : List Resolved} {m : Resolved} : m ∈ ms → m.entry? = some entry →
      EntryOf ms entry
  | inside {ms outer entry : List Resolved} {m : Resolved} : m ∈ ms → m.entry? = some outer →
      EntryOf outer entry → EntryOf ms entry

def Tagged (ms : List Resolved) : Prop := ∃ m ∈ ms, ∃ tag, m.tag? = some tag

/-- Members have a layout if no list of them is too long, and each entry of a group has a member
that it can start with. -/
structure Fit (ms : List Resolved) : Prop where
  length_le : ms.length ≤ TagSequence.maxMembers
  entries : ∀ entry, EntryOf ms entry → entry.length ≤ TagSequence.maxMembers ∧ Tagged entry

theorem not_entryOf_nil (entry : List Resolved) : ¬ EntryOf [] entry := by
  intro h
  cases h <;> simp_all

theorem not_entryOf_of_flat {ms : List Resolved} (flat : ∀ m ∈ ms, m.entry? = none)
    (entry : List Resolved) : ¬ EntryOf ms entry := by
  intro h
  cases h with
  | here hm he => simp [flat _ hm] at he
  | inside hm he => simp [flat _ hm] at he

theorem entryOf_cons_iff {m : Resolved} {ms entry : List Resolved} :
    EntryOf (m :: ms) entry ↔
      (∃ outer, m.entry? = some outer ∧ (entry = outer ∨ EntryOf outer entry)) ∨
        EntryOf ms entry := by
  constructor
  · intro h
    cases h with
    | here hm he =>
      rcases List.mem_cons.mp hm with rfl | hm
      · exact .inl ⟨_, he, .inl rfl⟩
      · exact .inr (.here hm he)
    | inside hm he h =>
      rcases List.mem_cons.mp hm with rfl | hm
      · exact .inl ⟨_, he, .inr h⟩
      · exact .inr (.inside hm he h)
  · rintro (⟨outer, he, rfl | h⟩ | h)
    · exact .here (by simp) he
    · exact .inside (by simp) he h
    · cases h with
      | here hm he => exact .here (List.mem_cons_of_mem m hm) he
      | inside hm he h => exact .inside (List.mem_cons_of_mem m hm) he h

theorem forall_entryOf_cons_iff {p : List Resolved → Prop} {m : Resolved} {ms : List Resolved} :
    (∀ entry, EntryOf (m :: ms) entry → p entry) ↔
      (∀ outer, m.entry? = some outer → p outer ∧ ∀ entry, EntryOf outer entry → p entry) ∧
        ∀ entry, EntryOf ms entry → p entry := by
  constructor
  · intro h
    refine ⟨fun outer ho => ⟨h outer (.here (by simp) ho), fun entry he => ?_⟩, fun entry he => ?_⟩
    · exact h entry (.inside (by simp) ho he)
    · exact h entry (entryOf_cons_iff.mpr (.inr he))
  · rintro ⟨first, rest⟩ entry he
    rcases entryOf_cons_iff.mp he with ⟨outer, ho, rfl | he⟩ | he
    · exact (first entry ho).1
    · exact (first outer ho).2 entry he
    · exact rest entry he

/-- Induction over the members of a list and those of the groups in it. -/
theorem entry_induction {motive : List Resolved → Prop} (nil : motive [])
    (cons : ∀ m ms, (∀ entry, m.entry? = some entry → motive entry) → motive ms →
      motive (m :: ms)) (ms : List Resolved) : motive ms :=
  match ms with
  | [] => nil
  | .field tag name required :: ms =>
    cons _ ms (fun _ h => nomatch h) (entry_induction nil cons ms)
  | .group tag name required members :: ms =>
    cons _ ms (fun _ h => Option.some.inj h ▸ entry_induction nil cons members)
      (entry_induction nil cons ms)
  | .unresolved name :: ms => cons _ ms (fun _ h => nomatch h) (entry_induction nil cons ms)

end Resolved

namespace GroupLayout

open Resolved (EntryOf Tagged)

variable {bound : Nat} {owner : String}

theorem delimiter_succeeds_iff (owner name : String) {ms : List Resolved} :
    (∃ tag, delimiter owner name ms = .ok tag) ↔ Tagged ms := by
  unfold delimiter Tagged
  cases h : ms.findSome? Resolved.tag? with
  | none =>
    have untagged := List.findSome?_eq_none_iff.mp h
    constructor
    · simp
    · rintro ⟨m, hm, tag, ht⟩
      simp [untagged m hm] at ht
  | some tag =>
    obtain ⟨m, hm, ht⟩ := List.exists_of_findSome?_eq_some h
    simpa using ⟨m, hm, tag, ht⟩

theorem ofMember_eq_none_iff {m : Resolved} : ofMember? bound owner m = none ↔ m.entry? = none := by
  cases m <;> simp [ofMember?, Resolved.entry?]

/-- The layout of a group needs a tagged entry that fits, and layouts of the groups inside. -/
theorem ofMember_succeeds_iff {m : Resolved} {entry : List Resolved}
    {layout : Traced SchemaError GroupLayout} (he : m.entry? = some entry)
    (hl : ofMember? bound owner m = some layout) :
    (∃ g, layout.outcome = .ok g) ↔ (entry.length ≤ TagSequence.maxMembers ∧ Tagged entry) ∧
      ∃ gs, (ofMembers bound owner entry).outcome = .ok gs := by
  cases m with
  | field | unresolved => simp [Resolved.entry?] at he
  | group countTag name required members =>
    obtain rfl := Option.some.inj he
    rw [ofMember?] at hl
    obtain rfl := Option.some.inj hl
    simp only [Traced.bind_eq_ok_iff, Traced.ofExcept_outcome, Traced.pure_outcome]
    rw [← TagSequence.build_succeeds_iff bound owner, ← delimiter_succeeds_iff owner name]
    constructor
    · rintro ⟨g, tag, ht, s, hs, gs, hg, _⟩
      exact ⟨⟨⟨s, hs⟩, tag, ht⟩, gs, hg⟩
    · rintro ⟨⟨⟨s, hs⟩, tag, ht⟩, gs, hg⟩
      exact ⟨_, tag, ht, s, hs, gs, hg, rfl⟩

theorem ofMembers_cons_succeeds_iff {m : Resolved} {ms : List Resolved} :
    (∃ gs, (ofMembers bound owner (m :: ms)).outcome = .ok gs) ↔
      (∀ layout, ofMember? bound owner m = some layout → ∃ g, layout.outcome = .ok g) ∧
        ∃ gs, (ofMembers bound owner ms).outcome = .ok gs := by
  rw [ofMembers]
  cases h : ofMember? bound owner m with
  | none => simp
  | some layout =>
    simp only [Traced.bind_eq_ok_iff, Traced.pure_outcome, Option.some.injEq, forall_eq']
    constructor
    · rintro ⟨_, g, hg, gs, hgs, _⟩
      exact ⟨⟨g, hg⟩, gs, hgs⟩
    · rintro ⟨⟨g, hg⟩, gs, hgs⟩
      exact ⟨_, g, hg, gs, hgs, rfl⟩

/-- Groups have layouts if every entry list at any depth fits a table and can be told apart. -/
theorem ofMembers_succeeds_iff (bound : Nat) (owner : String) (ms : List Resolved) :
    (∃ gs, (ofMembers bound owner ms).outcome = .ok gs) ↔
      ∀ entry, EntryOf ms entry → entry.length ≤ TagSequence.maxMembers ∧ Tagged entry := by
  induction ms using Resolved.entry_induction with
  | nil =>
    rw [ofMembers]
    simp [Resolved.not_entryOf_nil]
  | cons m ms inner rest =>
    rw [ofMembers_cons_succeeds_iff, rest, Resolved.forall_entryOf_cons_iff]
    refine and_congr_left' ?_
    cases he : m.entry? with
    | none => simp [ofMember_eq_none_iff.mpr he]
    | some entry =>
      have some_layout : ofMember? bound owner m ≠ none := by
        simp [ofMember_eq_none_iff, he]
      obtain ⟨layout, hl⟩ := Option.ne_none_iff_exists'.mp some_layout
      simp only [hl, Option.some.injEq, forall_eq']
      rw [ofMember_succeeds_iff he hl, inner entry he]

end GroupLayout

namespace MessageLayout

variable {m : Message} {members : List Resolved} {bound : Nat} {l : MessageLayout}

/-- A layout is of its message and holds the table of its members. -/
theorem build_eq_ok (h : (build m members bound).outcome = .ok l) :
    l.name = m.name ∧ l.msgType = m.msgType ∧ l.typeId = m.typeId ∧ l.members = members ∧
      (TagSequence.build members bound m.name).outcome = .ok l.sequence := by
  simp only [build, Traced.bind_eq_ok_iff, Traced.pure_outcome] at h
  obtain ⟨s, hs, gs, _, h⟩ := h
  obtain rfl := Except.ok.inj h
  exact ⟨rfl, rfl, rfl, rfl, hs⟩

theorem build_succeeds_iff (m : Message) (members : List Resolved) (bound : Nat) :
    (∃ l, (build m members bound).outcome = .ok l) ↔ Resolved.Fit members := by
  simp only [build, Traced.bind_eq_ok_iff, Traced.pure_outcome]
  constructor
  · rintro ⟨_, s, hs, gs, hg, _⟩
    exact ⟨(TagSequence.build_succeeds_iff bound m.name).mp ⟨s, hs⟩,
      (GroupLayout.ofMembers_succeeds_iff bound m.name members).mp ⟨gs, hg⟩⟩
  · rintro ⟨length_le, entries⟩
    obtain ⟨s, hs⟩ := (TagSequence.build_succeeds_iff bound m.name).mpr length_le
    obtain ⟨gs, hg⟩ := (GroupLayout.ofMembers_succeeds_iff bound m.name members).mpr entries
    exact ⟨_, s, hs, gs, hg, rfl⟩

end MessageLayout

end FixTables
