import FixTables.Proofs.TagPositions
import Mathlib.Order.Bounds.Basic

namespace FixTables

namespace TagSequence

/-- The places, counted from zero, of the members with a tag. -/
def placesOf (members : List Resolved) (t : Nat) : Set Nat :=
  {i | ∃ m, members[i]? = some m ∧ m.tag? = some t}

variable {members : List Resolved} {bound t p : Nat} {owner : String} {s : TagSequence}

theorem isLeast_placesOf_iff {i : Nat} :
    IsLeast (placesOf members t) i ↔ (members.findIdx? fun m => m.tag? = some t) = some i := by
  rw [List.findIdx?_eq_some_iff_getElem]
  constructor
  · rintro ⟨⟨m, hm, ht⟩, least⟩
    obtain ⟨hi, rfl⟩ := List.getElem?_eq_some_iff.mp hm
    refine ⟨hi, by simpa using ht, fun j hj => ?_⟩
    intro hp
    have found : j ∈ placesOf members t :=
      ⟨_, List.getElem?_eq_getElem (by omega), by simpa using hp⟩
    exact absurd (least found) (by omega)
  · rintro ⟨hi, ht, before⟩
    refine ⟨⟨_, List.getElem?_eq_getElem hi, by simpa using ht⟩, ?_⟩
    rintro j ⟨m, hm, hj⟩
    obtain ⟨hlt, rfl⟩ := List.getElem?_eq_some_iff.mp hm
    by_contra later
    exact before j (by omega) (by simpa using hj)

theorem firstPlace_eq_some_iff :
    firstPlace? members t = some p ↔ ∃ i, IsLeast (placesOf members t) i ∧ p = i + 1 := by
  simp only [isLeast_placesOf_iff, firstPlace?, Option.map_eq_some_iff, eq_comm (a := p)]

/-- A list has a table unless it has more than 65535 members. The table has a slot for each tag
below the bound, and for the tags of members the places of the first members with them; its entries
are these tags and places, ascending by tag. -/
theorem build_enters_first_places (members : List Resolved) (bound : Nat) (owner : String) :
    ((∃ e, (build members bound owner).outcome = .error e) ↔ 65535 < members.length) ∧
    ∀ s, (build members bound owner).outcome = .ok s →
      s.slots.size = bound ∧
      (∀ t p, s.position t = some p ↔
        t < bound ∧ ∃ i, IsLeast (placesOf members t) i ∧ p = i + 1) ∧
      (∀ t p, (t, p) ∈ s.entries ↔ s.position t = some p) ∧
      s.entries.Pairwise fun a b => a.1 < b.1 := by
  constructor
  · have succeeds : (∃ s, (build members bound owner).outcome = .ok s) ↔ _ :=
      build_succeeds_iff bound owner
    cases h : (build members bound owner).outcome with
    | error e => simpa [h, maxMembers] using succeeds
    | ok s => simpa [h, maxMembers] using succeeds
  · intro s h
    refine ⟨(build_holds h).1, fun t p => ?_, fun t p => mem_entries_iff, s.entries_ascending⟩
    rw [position_build h, ← firstPlace_eq_some_iff]
    by_cases ht : t < bound <;> simp [ht]

/-- A list with a repeated tag, a placeholder and a tag outside the table, and one that is too
long. -/
theorem build_enters_first_places_of_mixed :
    let members : List Resolved := [.field 8 "BeginString" true, .unresolved "Lost",
      .field 35 "MsgType" true, .field 8 "BeginString" false, .field 5 "AdvTransType" false,
      .field 10 "CheckSum" true]
    let s : TagSequence := ⟨#[0, 0, 0, 0, 0, 5, 0, 0, 1, 0, 6, 0]⟩
    (build members 12 "Heartbeat").outcome = .ok s ∧
      (∀ t p, s.position t = some p ↔
        t < 12 ∧ ∃ i, IsLeast (placesOf members t) i ∧ p = i + 1) ∧
      (∀ t p, (t, p) ∈ [(5, 5), (8, 1), (10, 6)] ↔ s.position t = some p) ∧
      ∃ e, (build (.replicate 65536 (.unresolved "Lost")) 12 "Heartbeat").outcome = .error e := by
  intro members s
  have built : (build members 12 "Heartbeat").outcome = .ok s := by decide
  obtain ⟨-, positions, entries, -⟩ := (build_enters_first_places members 12 "Heartbeat").2 s built
  refine ⟨built, positions, entries, ?_⟩
  apply (build_enters_first_places _ 12 "Heartbeat").1.mpr
  rw [List.length_replicate]
  decide

end TagSequence

end FixTables
