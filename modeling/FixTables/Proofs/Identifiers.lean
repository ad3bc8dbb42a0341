import Mathlib
import FixTables.Listing
import FixTables.Proofs.TextParts

namespace FixTables

theorem numbered_injective (base : String) : Function.Injective (numbered base) := by
  intro m n h
  exact Nat.repr_inj.mp ((String.append_right_inj (base ++ "_")).mp h)

/-- Only as many different identifiers can be taken as there are taken ones. -/
theorem le_card_of_forall_mem {taken : List String} {f : Nat → String} {k : Nat}
    (hf : Function.Injective f) (h : ∀ j < k, f j ∈ taken) : k ≤ taken.toFinset.card := by
  have into : Set.MapsTo f (Finset.range k) taken.toFinset := by
    intro j hj
    exact List.mem_toFinset.mpr (h j (Finset.mem_range.mp hj))
  have card := Finset.card_le_card_of_injOn _ into hf.injOn
  rwa [Finset.card_range] at card

/-- Among more numbers than there are taken identifiers, one makes a new identifier; the number used
is the least of these. -/
theorem isLeast_freeNumber (taken : List String) (base : String) :
    IsLeast {n | 2 ≤ n ∧ numbered base n ∉ taken} (freeNumber taken base) := by
  unfold freeNumber
  cases hf : (List.range' 2 (taken.length + 1)).find? fun n => !taken.contains (numbered base n) with
  | some n =>
    obtain ⟨free, inRange, before⟩ := List.find?_range'_eq_some.mp hf
    refine ⟨⟨(List.mem_range'_1.mp inRange).1, by simpa using free⟩, ?_⟩
    rintro m ⟨low, hm⟩
    by_contra below
    have := before m low (Nat.lt_of_not_le below)
    simp [hm] at this
  | none =>
    have covered : ∀ j < taken.length + 1, numbered base (2 + j) ∈ taken := by
      intro j hj
      simpa using List.find?_range'_eq_none.mp hf (2 + j) (by omega) (by omega)
    have distinct : Function.Injective fun j => numbered base (2 + j) :=
      (numbered_injective base).comp (add_right_injective 2)
    have more := le_card_of_forall_mem distinct covered
    have := taken.toFinset_card_le
    omega

theorem uniqueIdentifier_not_mem (taken : List String) (base : String) :
    uniqueIdentifier taken base ∉ taken := by
  unfold uniqueIdentifier
  split
  next => exact (isLeast_freeNumber taken base).1.2
  next h => simpa using h

example : uniqueIdentifier ["FIX44_A_2", "FIX44_A"] (childIdentifier "FIX44" "a") = "FIX44_A_3" := by
  decide

/-- What identifiers hold after their first character. -/
def InIdentifiers (c : Char) : Prop := c.isUpper ∨ c.isDigit ∨ c = '_'

/-- A capital letter, and capital letters, digits and underscores after it. -/
def IsIdentifier (s : String) : Prop :=
  ∃ c cs, s.toList = c :: cs ∧ c.isUpper ∧ ∀ d ∈ cs, InIdentifiers d

theorem inIdentifiers_repr (n : Nat) : ∀ c ∈ n.repr.toList, InIdentifiers c :=
  fun _ hc => .inr (.inl (isDigit_of_mem_repr hc))

theorem inIdentifiers_toUpper {c : Char} (h : c.isAlphanum) : InIdentifiers c.toUpper := by
  unfold InIdentifiers Char.toUpper
  split
  next small =>
    left
    simp only [UInt32.le_iff_toNat_le] at small
    simp only [Char.isUpper, decide_eq_true_eq, ge_iff_le, UInt32.le_iff_toNat_le,
      UInt32.toNat_add, UInt32.reduceSub, UInt32.reduceToNat, Char.reduceVal] at small ⊢
    omega
  next notSmall =>
    simp only [Char.isAlphanum, Char.isAlpha, Char.isLower, Bool.or_eq_true, Bool.and_eq_true,
      decide_eq_true_eq] at h
    tauto

theorem inIdentifiers_screamingFrom (afterSmall : Bool) (cs : List Char) :
    ∀ c ∈ screamingFrom afterSmall cs, InIdentifiers c := by
  induction cs generalizing afterSmall with
  | nil => simp [screamingFrom]
  | cons c cs ih =>
    rw [screamingFrom, List.forall_mem_append, List.forall_mem_cons]
    refine ⟨?_, ?_, ih _⟩
    · split <;> simp [InIdentifiers]
    · split
      next alphanum => exact inIdentifiers_toUpper alphanum
      next => simp [InIdentifiers]

namespace IsIdentifier

variable {a b parent : String}

theorem append (h : IsIdentifier a) (hb : ∀ c ∈ b.toList, InIdentifiers c) :
    IsIdentifier (a ++ b) := by
  obtain ⟨c, cs, chars, first, rest⟩ := h
  refine ⟨c, cs ++ b.toList, by rw [String.toList_append, chars, List.cons_append], first, ?_⟩
  exact List.forall_mem_append.mpr ⟨rest, hb⟩

theorem oneLine (h : IsIdentifier a) : OneLine a := by
  obtain ⟨c, cs, chars, first, rest⟩ := h
  rw [OneLine, chars, List.mem_cons, not_or]
  constructor
  · rintro rfl
    simp at first
  · intro broken
    simpa [InIdentifiers] using rest _ broken

theorem append_underscore (h : IsIdentifier a) (hb : ∀ c ∈ b.toList, InIdentifiers c) :
    IsIdentifier (a ++ "_" ++ b) :=
  (h.append (by simp [InIdentifiers])).append hb

theorem childIdentifier (h : IsIdentifier parent) (name : String) :
    IsIdentifier (childIdentifier parent name) := by
  have snake : ∀ c ∈ (screamingSnake name).toList, InIdentifiers c := by
    rw [screamingSnake, String.toList_ofList]
    exact inIdentifiers_screamingFrom false name.toList
  exact h.append_underscore snake

theorem uniqueIdentifier (h : IsIdentifier a) (taken : List String) :
    IsIdentifier (uniqueIdentifier taken a) := by
  unfold FixTables.uniqueIdentifier
  split
  · exact h.append_underscore (inIdentifiers_repr _)
  · exact h

end IsIdentifier

namespace Listing

theorem declareMessages_layouts (symbol : String) (taken : List String) (ls : List MessageLayout) :
    (declareMessages symbol taken ls).1.map (·.2) = ls := by
  induction ls generalizing taken with
  | nil => rfl
  | cons l ls ih => simp [declareMessages, ih]

/-- A message keeps its identifier and its own table whatever becomes of its groups. -/
theorem declareGroups_messages (withGroups : Bool) (taken : List String)
    (ps : List (String × MessageLayout)) :
    List.Forall₂ (fun p d => d.identifier = p.1 ∧ d.name = p.2.name ∧ d.msgType = p.2.msgType ∧
        d.typeId = p.2.typeId ∧ d.sequence = p.2.sequence)
      ps (declareGroups withGroups taken ps) := by
  induction ps generalizing taken with
  | nil => exact .nil
  | cons p ps ih => exact .cons ⟨rfl, rfl, rfl, rfl, rfl⟩ (ih _)

end Listing

end FixTables
