import FixTables.Text.Blank
import FixTables.Text.Numeral
import Mathlib.Data.List.DropRight

namespace FixTables

variable {limit v n : Nat} {c : Char} {cs : List Char} {s : String}

theorem digitValue_ten_eq_some_iff {d : Nat} :
    digitValue? 10 c = some d ↔ c.isDigit ∧ d = c.toNat - '0'.toNat := by
  simp only [digitValue?, Char.isDigit_iff_toNat, Char.reduceToNat]
  split_ifs <;> simp <;> omega

theorem le_ofDigitChars (cs : List Char) (v : Nat) : v ≤ Nat.ofDigitChars 10 cs v := by
  induction cs generalizing v with
  | nil => rfl
  | cons c cs ih =>
    rw [Nat.ofDigitChars_cons]
    have := ih (10 * v + (c.toNat - '0'.toNat))
    omega

/-- Reading goes on to the end if all that comes is digits and the number stays within the limit. -/
theorem readDigitsFrom_eq_ok_iff (hv : v ≤ limit) :
    readDigitsFrom 10 limit v cs = .ok n ↔
      (∀ c ∈ cs, c.isDigit) ∧ Nat.ofDigitChars 10 cs v = n ∧ n ≤ limit := by
  induction cs generalizing v with
  | nil =>
    simp only [readDigitsFrom, Except.ok.injEq, Nat.ofDigitChars_nil]
    constructor
    · rintro rfl
      exact ⟨by simp, rfl, hv⟩
    · exact fun h => h.2.1
  | cons c cs ih =>
    rw [readDigitsFrom, List.forall_mem_cons, Nat.ofDigitChars_cons, Nat.mul_comm 10 v]
    cases hc : digitValue? 10 c with
    | none =>
      have noDigit : ¬ c.isDigit := by
        intro digit
        have := digitValue_ten_eq_some_iff.mpr ⟨digit, rfl⟩
        simp [hc] at this
      simp [noDigit]
    | some d =>
      obtain ⟨digit, rfl⟩ := digitValue_ten_eq_some_iff.mp hc
      by_cases hle : v * 10 + (c.toNat - '0'.toNat) ≤ limit
      · simp only [if_pos hle, ih hle, digit, true_and]
      · have beyond := le_ofDigitChars cs (v * 10 + (c.toNat - '0'.toNat))
        simp only [if_neg hle, digit, true_and, reduceCtorEq, false_iff, not_and]
        omega

/-- Digits of a number, with a plus sign before them or without. -/
def SpellsNumber (cs : List Char) (n : Nat) : Prop :=
  ∃ digits, (cs = digits ∨ cs = '+' :: digits) ∧ digits ≠ [] ∧ (∀ c ∈ digits, c.isDigit) ∧
    Nat.ofDigitChars 10 digits 0 = n

theorem readDigits_eq_ok_iff :
    readDigits 10 limit cs = .ok n ↔
      cs ≠ [] ∧ (∀ c ∈ cs, c.isDigit) ∧ Nat.ofDigitChars 10 cs 0 = n ∧ n ≤ limit := by
  cases cs with
  | nil => simp [readDigits]
  | cons c cs =>
    rw [readDigits, readDigitsFrom_eq_ok_iff (Nat.zero_le _)]
    · simp
    · simp

theorem readUnsigned_eq_ok_iff :
    readUnsigned limit s = .ok n ↔ SpellsNumber s.toList n ∧ n ≤ limit := by
  have plus : ¬ '+'.isDigit := by decide
  unfold readUnsigned SpellsNumber
  split
  next hs =>
    simp only [reduceCtorEq, false_iff]
    rintro ⟨⟨digits, same | same, nonempty, all, -⟩, -⟩
    · subst same
      exact plus (all '+' (hs ▸ List.mem_singleton_self _))
    · exact nonempty (List.cons.inj (same.symm.trans hs)).2
  next cs _ hs =>
    rw [readDigits_eq_ok_iff, hs]
    constructor
    · rintro ⟨nonempty, all, value, below⟩
      exact ⟨⟨cs, .inr rfl, nonempty, all, value⟩, below⟩
    · rintro ⟨⟨digits, same | same, nonempty, all, value⟩, below⟩
      · exact absurd (all '+' (same ▸ List.mem_cons_self)) plus
      · obtain rfl := (List.cons.inj same).2
        exact ⟨nonempty, all, value, below⟩
  next cs _ unsigned =>
    rw [readDigits_eq_ok_iff]
    constructor
    · rintro ⟨nonempty, all, value, below⟩
      exact ⟨⟨_, .inl rfl, nonempty, all, value⟩, below⟩
    · rintro ⟨⟨digits, same | same, nonempty, all, value⟩, below⟩
      · exact same ▸ ⟨nonempty, all, value, below⟩
      · exact absurd same (unsigned digits)

theorem trimBlanks_split (s : String) : ∃ before after,
    s.toList = before ++ (trimBlanks s).toList ++ after ∧
      (∀ c ∈ before, isBlank c) ∧ ∀ c ∈ after, isBlank c := by
  let rest := s.toList.dropWhile isBlank
  refine ⟨s.toList.takeWhile isBlank, (rest.reverse.takeWhile isBlank).reverse, ?_, ?_, ?_⟩
  · rw [trimBlanks, String.toList_ofList, dropTrailing, List.append_assoc, ← List.reverse_append,
      List.takeWhile_append_dropWhile, List.reverse_reverse, List.takeWhile_append_dropWhile]
  · exact fun c hc => List.mem_takeWhile_imp hc
  · exact fun c hc => List.mem_takeWhile_imp (List.mem_reverse.mp hc)

theorem dropWhile_append_of_solid {solid blanks : List Char}
    (hs : ∀ c ∈ solid, isBlank c = false) (hb : ∀ c ∈ blanks, isBlank c) :
    (blanks ++ solid).dropWhile isBlank = solid := by
  rw [List.dropWhile_append_of_pos hb, List.dropWhile_eq_self_iff]
  intro first
  simp [hs _ (List.getElem_mem first)]

/-- What stands between blanks and holds none is left over from trimming. -/
theorem toList_trimBlanks {before core after : List Char}
    (split : s.toList = before ++ core ++ after) (hb : ∀ c ∈ before, isBlank c)
    (ha : ∀ c ∈ after, isBlank c) (hc : ∀ c ∈ core, isBlank c = false) :
    (trimBlanks s).toList = core := by
  have trailing : dropTrailing isBlank (core ++ after) = core := by
    rw [dropTrailing, List.reverse_append, dropWhile_append_of_solid, List.reverse_reverse]
    · simpa using hc
    · simpa using ha
  rw [trimBlanks, String.toList_ofList, split, List.append_assoc,
    List.dropWhile_append_of_pos hb]
  cases core with
  | nil =>
    rw [List.nil_append, List.dropWhile_eq_nil_iff.mpr ha]
    rfl
  | cons c cs =>
    rw [List.cons_append, List.dropWhile_cons_of_neg (by simp [hc c]), ← List.cons_append,
      trailing]

theorem SpellsNumber.solid (h : SpellsNumber cs n) : ∀ c ∈ cs, isBlank c = false := by
  have digit (c : Char) (hc : c.isDigit) : isBlank c = false := by
    simp only [Char.isDigit_iff_toNat, Char.reduceToNat] at hc
    simp only [isBlank]
    grind
  obtain ⟨digits, rfl | rfl, -, all, -⟩ := h
  · exact fun c hc => digit c (all c hc)
  · exact List.forall_mem_cons.mpr ⟨by decide, fun c hc => digit c (all c hc)⟩

/-- A text with the spelling of a number, and blanks on both sides or none. -/
def SpellsAmongBlanks (s : String) (n : Nat) : Prop :=
  ∃ before core after, s.toList = before ++ core ++ after ∧ SpellsNumber core n ∧
    (∀ c ∈ before, isBlank c) ∧ ∀ c ∈ after, isBlank c

/-- Without the blanks around it, a text reads as the number that it spells, up to the limit. -/
theorem readUnsigned_trimBlanks_eq_ok_iff :
    readUnsigned limit (trimBlanks s) = .ok n ↔ SpellsAmongBlanks s n ∧ n ≤ limit := by
  rw [readUnsigned_eq_ok_iff]
  refine and_congr_left fun _ => ⟨fun h => ?_, ?_⟩
  · obtain ⟨before, after, split, hb, ha⟩ := trimBlanks_split s
    exact ⟨before, _, after, split, h, hb, ha⟩
  · rintro ⟨before, core, after, split, spells, hb, ha⟩
    rwa [toList_trimBlanks split hb ha spells.solid]

end FixTables
