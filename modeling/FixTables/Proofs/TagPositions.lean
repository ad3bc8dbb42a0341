import FixTables.Proofs.Outcome
import FixTables.TagSequence
import Mathlib.Data.List.Induction
import Mathlib.Data.List.Sort

namespace FixTables

namespace TagSequence

/-- The position of the first member with a tag, counted from one. -/
def firstPlace? (members : List Resolved) (tag : Nat) : Option Nat :=
  (members.findIdx? fun m => m.tag? = some tag).map (· + 1)

/-- The tags that a table below `bound` records, in the order of their first occurrence. -/
def recordedTags (members : List Resolved) (bound : Nat) : List Nat :=
  ((members.filterMap Resolved.tag?).filter (· < bound)).eraseDups

section Places

variable {xs : List Resolved} {m : Resolved} {bound t : Nat}

theorem firstPlace_append :
    firstPlace? (xs ++ [m]) t =
      (firstPlace? xs t).or (if m.tag? = some t then some (xs.length + 1) else none) := by
  simp only [firstPlace?, List.findIdx?_append, List.findIdx?_singleton, decide_eq_true_eq]
  cases xs.findIdx? fun m => m.tag? = some t <;> by_cases h : m.tag? = some t <;> simp [h]

theorem firstPlace_bounds {p : Nat} (h : firstPlace? xs t = some p) : 0 < p ∧ p ≤ xs.length := by
  obtain ⟨i, hi, rfl⟩ := Option.map_eq_some_iff.mp h
  have := (List.findIdx?_eq_some_iff_getElem.mp hi).1
  omega

theorem firstPlace_isSome_iff : (firstPlace? xs t).isSome ↔ ∃ m ∈ xs, m.tag? = some t := by
  simp [firstPlace?]

/-- Two tags cannot both belong to the member at one place. -/
theorem firstPlace_injective {u p : Nat} (ht : firstPlace? xs t = some p)
    (hu : firstPlace? xs u = some p) : t = u := by
  obtain ⟨i, hi, rfl⟩ := Option.map_eq_some_iff.mp ht
  obtain ⟨j, hj, hij⟩ := Option.map_eq_some_iff.mp hu
  obtain rfl : j = i := by omega
  obtain ⟨_, hit, _⟩ := List.findIdx?_eq_some_iff_getElem.mp hi
  obtain ⟨_, hiu, _⟩ := List.findIdx?_eq_some_iff_getElem.mp hj
  simp only [decide_eq_true_eq] at hit hiu
  exact Option.some.inj (hit.symm.trans hiu)

theorem mem_recordedTags :
    t ∈ recordedTags xs bound ↔ t < bound ∧ ∃ m ∈ xs, m.tag? = some t := by
  simp [recordedTags, and_comm]

theorem eraseDups_concat (ts : List Nat) (t : Nat) :
    (ts ++ [t]).eraseDups = if t ∈ ts then ts.eraseDups else ts.eraseDups ++ [t] := by
  by_cases h : t ∈ ts <;> simp [List.eraseDups_append, List.eraseDups_cons, List.removeAll, h]

/-- A further member records at most its own tag, behind all others. -/
theorem recordedTags_append :
    recordedTags (xs ++ [m]) bound = recordedTags xs bound ∨
      ∃ t, m.tag? = some t ∧ t < bound ∧ t ∉ recordedTags xs bound ∧
        recordedTags (xs ++ [m]) bound = recordedTags xs bound ++ [t] := by
  cases hm : m.tag? with
  | none => exact .inl (by simp [recordedTags, hm])
  | some t =>
    by_cases hb : t < bound
    · have concat : recordedTags (xs ++ [m]) bound =
          if t ∈ (xs.filterMap Resolved.tag?).filter (· < bound) then recordedTags xs bound
          else recordedTags xs bound ++ [t] := by
        simp only [recordedTags, ← eraseDups_concat]
        simp [hm, hb]
      by_cases hr : t ∈ (xs.filterMap Resolved.tag?).filter (· < bound)
      · exact .inl (by rw [concat, if_pos hr])
      · exact .inr ⟨t, rfl, hb, by simpa [recordedTags] using hr, by rw [concat, if_neg hr]⟩
    · exact .inl (by simp [recordedTags, hm, hb])

/-- Recorded tags stand in the order of their places. -/
theorem recordedTags_ascending :
    (recordedTags xs bound).Pairwise fun a b =>
      ∃ p q, firstPlace? xs a = some p ∧ firstPlace? xs b = some q ∧ p < q := by
  induction xs using List.reverseRecOn with
  | nil => simp [recordedTags]
  | append_singleton xs m ih =>
    have keep : ∀ {a p}, firstPlace? xs a = some p → firstPlace? (xs ++ [m]) a = some p :=
      fun h => by rw [firstPlace_append, h, Option.some_or]
    have old : (recordedTags xs bound).Pairwise fun a b =>
        ∃ p q, firstPlace? (xs ++ [m]) a = some p ∧ firstPlace? (xs ++ [m]) b = some q ∧ p < q :=
      ih.imp fun ⟨p, q, hp, hq, hlt⟩ => ⟨p, q, keep hp, keep hq, hlt⟩
    rcases recordedTags_append with he | ⟨t, hm, hb, hn, he⟩
    · rwa [he]
    · rw [he]
      refine List.pairwise_append.mpr ⟨old, by simp, ?_⟩
      intro a ha b hbt
      obtain rfl := List.mem_singleton.mp hbt
      obtain ⟨p, hp⟩ := Option.isSome_iff_exists.mp
        (firstPlace_isSome_iff.mpr (mem_recordedTags.mp ha).2)
      have fresh : firstPlace? xs b = none := by
        rw [← Option.not_isSome_iff_eq_none, firstPlace_isSome_iff]
        exact fun hx => hn (mem_recordedTags.mpr ⟨hb, hx⟩)
      refine ⟨p, xs.length + 1, keep hp, ?_, ?_⟩
      · rw [firstPlace_append, fresh, hm]
        simp
      · have := (firstPlace_bounds hp).2
        omega

theorem recordedTags_nodup : (recordedTags xs bound).Nodup := by
  refine recordedTags_ascending.imp ?_
  rintro a _ ⟨p, q, hp, hq, hlt⟩ rfl
  have := Option.some.inj (hp.symm.trans hq)
  omega

/-- What a table under construction holds once the members `xs` have been placed. -/
structure Filling.Holds (f : Filling) (bound : Nat) (xs : List Resolved) : Prop where
  size : f.slots.size = bound
  next : f.next = xs.length + 1
  slot : ∀ t < bound, f.slots[t]? = some ((firstPlace? xs t).getD 0)

theorem Filling.holds_start (bound : Nat) (notices : List Notice) :
    Filling.Holds ⟨.replicate bound 0, 1, notices⟩ bound [] where
  size := by simp
  next := rfl
  slot t ht := by simp [firstPlace?, ht]

theorem firstPlace_append_of_ne (h : m.tag? ≠ some t) :
    firstPlace? (xs ++ [m]) t = firstPlace? xs t := by
  simp [firstPlace_append, h]

theorem Filling.Holds.slot_eq_zero_iff {f : Filling} (h : f.Holds bound xs) (ht : t < f.slots.size) :
    f.slots[t] = 0 ↔ firstPlace? xs t = none := by
  have hs := h.slot t (h.size ▸ ht)
  rw [Array.getElem?_eq_getElem ht, Option.some.injEq] at hs
  rw [hs]
  cases hp : firstPlace? xs t with
  | none => simp
  | some p =>
    have := (firstPlace_bounds hp).1
    simp
    omega

theorem Filling.Holds.skip {slots : Array Nat} {next : Nat} {notices notices' : List Notice}
    (h : Filling.Holds ⟨slots, next, notices⟩ bound xs)
    (placed : ∀ t < bound, m.tag? = some t → firstPlace? xs t ≠ none) :
    Filling.Holds ⟨slots, next + 1, notices'⟩ bound (xs ++ [m]) where
  size := h.size
  next := by simpa using h.next
  slot t ht := by
    have kept : firstPlace? (xs ++ [m]) t = firstPlace? xs t := by
      by_cases hm : m.tag? = some t
      · obtain ⟨p, hp⟩ := Option.ne_none_iff_exists'.mp (placed t ht hm)
        rw [firstPlace_append, hp, Option.some_or]
      · exact firstPlace_append_of_ne hm
    rw [kept]
    exact h.slot t ht

/-- Placing a member keeps every place given before and gives its own to a new tag. -/
theorem Filling.Holds.place {f : Filling} {owner : String} (h : f.Holds bound xs) :
    (Filling.place owner f m).Holds bound (xs ++ [m]) := by
  obtain ⟨slots, next, notices⟩ := f
  simp only [Filling.place]
  split
  next hm => exact h.skip (by simp [hm])
  next tag hm =>
    split
    next hb =>
      split
      next hz =>
        have fresh := (h.slot_eq_zero_iff hb).mp hz
        refine ⟨by simp [h.size], by simpa using h.next, fun t ht => ?_⟩
        by_cases he : t = tag
        · subst he
          simpa [firstPlace_append, fresh, hm, hb] using h.next
        · rw [firstPlace_append_of_ne (by simpa [hm] using Ne.symm he), ← h.slot t ht]
          simp [Ne.symm he]
      next hz =>
        apply h.skip
        intro t ht he
        obtain rfl := Option.some.inj (hm.symm.trans he)
        exact mt (h.slot_eq_zero_iff hb).mpr hz
    next hb =>
      apply h.skip
      intro t ht he
      obtain rfl := Option.some.inj (hm.symm.trans he)
      rw [h.size] at hb
      exact absurd ht hb

theorem Filling.Holds.foldl {f : Filling} (h : f.Holds bound xs) (owner : String)
    (ms : List Resolved) : (ms.foldl (Filling.place owner) f).Holds bound (xs ++ ms) := by
  induction ms generalizing f xs with
  | nil => simpa using h
  | cons m ms ih => simpa using ih h.place

end Places

variable {members : List Resolved} {bound : Nat} {owner : String} {s : TagSequence}

/-- A list gets a table unless it has too many members. -/
theorem build_succeeds_iff (bound : Nat) (owner : String) :
    (∃ s, (build members bound owner).outcome = .ok s) ↔ members.length ≤ maxMembers := by
  unfold build
  by_cases h : members.length ≤ maxMembers <;> simp [h]

theorem build_holds (h : (build members bound owner).outcome = .ok s) :
    s.slots.size = bound ∧
      ∀ t < bound, s.slots[t]? = some ((firstPlace? members t).getD 0) := by
  have hlen := (build_succeeds_iff bound owner).mp ⟨s, h⟩
  unfold build at h
  simp only [hlen, if_true, List.take_of_length_le hlen] at h
  obtain rfl := Except.ok.inj h
  have holds := (Filling.holds_start bound []).foldl owner members
  exact ⟨holds.size, holds.slot⟩

theorem position_build (h : (build members bound owner).outcome = .ok s) (t : Nat) :
    s.position t = if t < bound then firstPlace? members t else none := by
  obtain ⟨size, slot⟩ := build_holds h
  unfold position
  by_cases ht : t < bound
  · rw [slot t ht, if_pos ht]
    cases hp : firstPlace? members t with
    | none => simp
    | some p =>
      have := (firstPlace_bounds hp).1
      split <;> simp_all
  · have out : s.slots[t]? = none := by
      rw [Array.getElem?_eq_none_iff]
      omega
    simp [out, ht]

theorem position_eq_some_iff {t p : Nat} : s.position t = some p ↔ s.slots[t]? = some p ∧ p ≠ 0 := by
  unfold position
  split
  next h => simp [h]
  next h => simp +contextual [h]
  next n positive h =>
    simp only [h, Option.some.injEq, iff_self_and]
    rintro rfl rfl
    exact positive rfl

/-- The entries are the slots that are not empty, under their tags. -/
theorem mem_entries_iff {t p : Nat} : (t, p) ∈ s.entries ↔ s.position t = some p := by
  rw [position_eq_some_iff, ← Array.getElem?_toList]
  simp [entries, List.mem_zipIdx_iff_getElem?]

theorem entries_ascending (s : TagSequence) : s.entries.Pairwise fun a b => a.1 < b.1 := by
  have tags : (s.slots.toList.zipIdx.map Prod.snd).Pairwise (· < ·) := by
    rw [List.zipIdx_map_snd]
    exact List.pairwise_lt_range'
  rw [entries, List.pairwise_map]
  exact (List.pairwise_map.mp tags).filter _

theorem inOrder_iff {a b : Nat} :
    s.inOrder a b = true ↔ ∃ p q, s.position a = some p ∧ s.position b = some q ∧ p < q := by
  unfold inOrder
  cases s.position a <;> cases s.position b <;> simp

theorem inOrder_trans {a b c : Nat} (hab : s.inOrder a b = true) (hbc : s.inOrder b c = true) :
    s.inOrder a c = true := by
  obtain ⟨p, q, hp, hq, hpq⟩ := inOrder_iff.mp hab
  obtain ⟨q', r, hq', hr, hqr⟩ := inOrder_iff.mp hbc
  have := Option.some.inj (hq.symm.trans hq')
  exact inOrder_iff.mpr ⟨p, r, hp, hr, by omega⟩

theorem inOrder_irrefl (t : Nat) : s.inOrder t t = false := by
  rw [← Bool.not_eq_true, inOrder_iff]
  rintro ⟨p, q, hp, hq, hlt⟩
  have := Option.some.inj (hp.symm.trans hq)
  omega

section Recorded

variable (h : (build members bound owner).outcome = .ok s)
include h

theorem mem_recordedTags_iff_position {t : Nat} :
    t ∈ recordedTags members bound ↔ (s.position t).isSome := by
  rw [mem_recordedTags, ← firstPlace_isSome_iff, position_build h]
  by_cases ht : t < bound <;> simp [ht]

theorem position_injective {a b p : Nat} (ha : s.position a = some p)
    (hb : s.position b = some p) : a = b := by
  rw [position_build h] at ha hb
  split at ha
  · split at hb
    · exact firstPlace_injective ha hb
    · simp at hb
  · simp at ha

theorem inOrder_recorded {a b : Nat} (hab : s.inOrder a b = true) :
    a ∈ recordedTags members bound ∧ b ∈ recordedTags members bound := by
  obtain ⟨p, q, hp, hq, _⟩ := inOrder_iff.mp hab
  rw [mem_recordedTags_iff_position h, mem_recordedTags_iff_position h, hp, hq]
  simp

theorem recordedTags_inOrder :
    (recordedTags members bound).Pairwise fun a b => s.inOrder a b = true := by
  refine recordedTags_ascending.imp_of_mem ?_
  rintro a b ha hb ⟨p, q, hp, hq, hlt⟩
  have below := (mem_recordedTags.mp ha).1
  have below' := (mem_recordedTags.mp hb).1
  exact inOrder_iff.mpr ⟨p, q, by simpa [position_build h, below] using hp,
    by simpa [position_build h, below'] using hq, hlt⟩

theorem inOrder_total {a b : Nat} (ha : a ∈ recordedTags members bound)
    (hb : b ∈ recordedTags members bound) (hne : a ≠ b) :
    s.inOrder a b = true ∨ s.inOrder b a = true := by
  obtain ⟨p, hp⟩ := Option.isSome_iff_exists.mp ((mem_recordedTags_iff_position h).mp ha)
  obtain ⟨q, hq⟩ := Option.isSome_iff_exists.mp ((mem_recordedTags_iff_position h).mp hb)
  rcases Nat.lt_trichotomy p q with hlt | rfl | hlt
  · exact .inl (inOrder_iff.mpr ⟨p, q, hp, hq, hlt⟩)
  · exact absurd (position_injective h hp hq) hne
  · exact .inr (inOrder_iff.mpr ⟨q, p, hq, hp, hlt⟩)

/-- Checks of neighbours alone make a run of recorded tags ascend as a whole. -/
theorem isChain_inOrder_iff {tags : List Nat} (hlen : 2 ≤ tags.length) :
    tags.IsChain (fun a b => s.inOrder a b = true) ↔
      tags.Pairwise (fun a b => s.inOrder a b = true) ∧ tags ⊆ recordedTags members bound := by
  have : Trans (fun a b => s.inOrder a b = true) (fun a b => s.inOrder a b = true)
      (fun a b => s.inOrder a b = true) := ⟨inOrder_trans⟩
  rw [List.isChain_iff_pairwise]
  refine ⟨fun hp => ⟨hp, ?_⟩, And.left⟩
  match tags, hlen, hp with
  | first :: second :: rest, _, hp =>
    have behind := (List.pairwise_cons.mp hp).1
    intro t ht
    rcases List.mem_cons.mp ht with rfl | ht
    · exact (inOrder_recorded h (behind second (by simp))).1
    · exact (inOrder_recorded h (behind t ht)).2

theorem sublist_recordedTags_iff {tags : List Nat} :
    tags.Sublist (recordedTags members bound) ↔
      tags.Pairwise (fun a b => s.inOrder a b = true) ∧ tags ⊆ recordedTags members bound := by
  constructor
  · exact fun hs => ⟨(recordedTags_inOrder h).sublist hs, hs.subset⟩
  · rintro ⟨hp, hr⟩
    have : Std.Antisymm fun a b => s.inOrder a b = true :=
      ⟨fun a b hab hba => by simpa [inOrder_irrefl] using inOrder_trans hab hba⟩
    have nodup : tags.Nodup := hp.imp fun hab e => by simp [e, inOrder_irrefl] at hab
    exact List.sublist_of_subperm_of_pairwise (List.subperm_of_subset nodup hr) hp
      (recordedTags_inOrder h)

end Recorded

/-- Order checks between neighbours accept exactly the runs of recorded tags in the order of their
first occurrence; they order the recorded tags strictly, and no two tags share a position. -/
theorem inOrder_accepts_exactly_sublists {members : List Resolved} (bound : Nat) (owner : String)
    (hlen : members.length ≤ maxMembers) :
    ∃ s, (build members bound owner).outcome = .ok s ∧
      (recordedTags members bound).Nodup ∧
      (∀ tags : List Nat, 2 ≤ tags.length →
        (tags.IsChain (fun a b => s.inOrder a b = true) ↔
          tags.Sublist (recordedTags members bound))) ∧
      (∀ t, s.inOrder t t = false) ∧
      (∀ a b c, s.inOrder a b = true → s.inOrder b c = true → s.inOrder a c = true) ∧
      (∀ a ∈ recordedTags members bound, ∀ b ∈ recordedTags members bound, a ≠ b →
        s.inOrder a b = true ∨ s.inOrder b a = true) ∧
      ∀ a b p, s.position a = some p → s.position b = some p → a = b := by
  obtain ⟨s, h⟩ := (build_succeeds_iff bound owner).mpr hlen
  refine ⟨s, h, recordedTags_nodup, fun tags htags => ?_, inOrder_irrefl,
    fun _ _ _ => inOrder_trans, fun a ha b hb => inOrder_total h ha hb,
    fun _ _ _ => position_injective h⟩
  rw [isChain_inOrder_iff h htags, sublist_recordedTags_iff h]

/-- A list with a repeated tag, a placeholder and a tag outside the table. -/
theorem inOrder_accepts_exactly_sublists_of_mixed :
    let members : List Resolved := [.field 8 "BeginString" true, .unresolved "Lost",
      .field 35 "MsgType" true, .field 8 "BeginString" false, .field 5000 "Own" false,
      .field 10 "CheckSum" true]
    members.length ≤ maxMembers ∧ ∃ s, (build members 100 "Heartbeat").outcome = .ok s ∧
      (∀ tags : List Nat, 2 ≤ tags.length →
        (tags.IsChain (fun a b => s.inOrder a b = true) ↔ tags.Sublist [8, 35, 10])) := by
  intro members
  have hlen : members.length ≤ maxMembers := by decide
  obtain ⟨s, h, _, accepts, _⟩ := inOrder_accepts_exactly_sublists 100 "Heartbeat" hlen
  exact ⟨hlen, s, h, accepts⟩

end TagSequence

end FixTables
