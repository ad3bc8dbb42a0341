import FixTables.Proofs.TextOrder
import FixTables.Proofs.TextParts
import FixTables.Table
import Mathlib.Data.List.Induction

namespace FixTables

/-- The decimal numeral of a number: digits with its value, the first of them zero only if no other
follows. -/
structure IsNumeral (cs : List Char) (n : Nat) : Prop where
  digits : ∀ c ∈ cs, c.isDigit
  value : Nat.ofDigitChars 10 cs 0 = n
  nonempty : cs ≠ []
  unpadded : cs.head? = some '0' → cs = ['0']

section Numerals

variable {cs : List Char} {c : Char} {m n : Nat}

theorem exists_digitChar (h : c.isDigit) : ∃ d < 10, c = Nat.digitChar d := by
  simp only [Char.isDigit_iff_toNat, Char.reduceToNat] at h
  have small : c.toNat - 48 < 10 := by omega
  refine ⟨c.toNat - 48, small, Char.toNat_inj.mp ?_⟩
  rw [Nat.toNat_digitChar_of_lt_ten small]
  omega

theorem head?_toDigits (h : 0 < n) : (Nat.toDigits 10 n).head? ≠ some '0' := by
  induction n using Nat.strong_induction_on with
  | h n ih =>
    by_cases single : n < 10
    · rw [Nat.toDigits_of_lt_base single, List.head?_singleton, ne_eq, Option.some.injEq,
        Nat.digitChar_eq_zero]
      omega
    · rw [Nat.toDigits_of_base_le (by decide) (by omega),
        List.head?_append_of_ne_nil _ Nat.toDigits_ne_nil]
      exact ih (n / 10) (by omega) (by omega)

theorem isNumeral_repr (n : Nat) : IsNumeral n.repr.toList n where
  digits _ hc := isDigit_of_mem_repr hc
  value := by rw [Nat.toList_repr, Nat.ofDigitChars_ten_toDigits]
  nonempty := by
    rw [Nat.toList_repr]
    exact Nat.toDigits_ne_nil
  unpadded h := by
    rw [Nat.toList_repr] at h ⊢
    cases n with
    | zero => rfl
    | succ n => exact absurd h (head?_toDigits n.succ_pos)

section Initial

variable {ds : List Char}

theorem IsNumeral.head?_initial (h : IsNumeral (ds ++ [c]) n) (more : ds ≠ []) :
    ds.head? ≠ some '0' := by
  intro padded
  have single : ds ++ [c] = ['0'] := h.unpadded ((List.head?_append_of_ne_nil _ more).trans padded)
  simp [List.append_eq_singleton_iff, more] at single

theorem IsNumeral.initial (h : IsNumeral (ds ++ [c]) n) (more : ds ≠ []) :
    IsNumeral ds (Nat.ofDigitChars 10 ds 0) where
  digits _ hd := h.digits _ (List.mem_append_left _ hd)
  value := rfl
  nonempty := more
  unpadded padded := absurd padded (h.head?_initial more)

end Initial

/-- A number has one numeral. -/
theorem IsNumeral.eq_repr (h : IsNumeral cs n) : cs = n.repr.toList := by
  rw [Nat.toList_repr]
  induction cs using List.reverseRecOn generalizing n with
  | nil => exact absurd rfl h.nonempty
  | append_singleton ds c ih =>
    obtain ⟨d, small, rfl⟩ := exists_digitChar (h.digits c (by simp))
    have value := h.value
    rw [Nat.ofDigitChars_append, Nat.ofDigitChars_cons_digitChar_of_lt_ten small,
      Nat.ofDigitChars_nil] at value
    subst value
    by_cases alone : ds = []
    · subst alone
      rw [Nat.ofDigitChars_nil, Nat.mul_zero, Nat.zero_add, Nat.toDigits_of_lt_base small]
      rfl
    · have initial : ds = Nat.toDigits 10 (Nat.ofDigitChars 10 ds 0) := ih (h.initial alone)
      -- Were the number before the last digit zero, its numeral would begin with a zero.
      have positive : 0 < Nat.ofDigitChars 10 ds 0 := by
        refine Nat.pos_of_ne_zero fun zero => h.head?_initial alone ?_
        rw [initial, zero]
        rfl
      rw [← Nat.toDigits_append_toDigits (by decide) positive small, ← initial,
        Nat.toDigits_of_lt_base small]

theorem isNumeral_iff : IsNumeral cs n ↔ cs = n.repr.toList :=
  ⟨IsNumeral.eq_repr, fun h => h ▸ isNumeral_repr n⟩

theorem utf8Size_of_isDigit (h : c.isDigit) : c.utf8Size = 1 := by
  simp only [Char.isDigit_iff_toNat, Char.reduceToNat] at h
  have ascii : c.val.toNat ≤ 127 := h.2.trans (by decide)
  exact Char.utf8Size_eq_one_iff.mpr (UInt32.le_iff_toNat_le.mpr ascii)

theorem utf8Len_of_digits (h : ∀ c ∈ cs, c.isDigit) : String.utf8Len cs = cs.length := by
  induction cs with
  | nil => rfl
  | cons c cs ih =>
    rw [List.forall_mem_cons] at h
    rw [String.utf8Len_cons, ih h.2, utf8Size_of_isDigit h.1, List.length_cons]

theorem utf8ByteSize_repr (n : Nat) : n.repr.utf8ByteSize = n.repr.length := by
  rw [← String.ofList_toList (s := n.repr), String.utf8ByteSize_ofList,
    utf8Len_of_digits fun _ hc => isDigit_of_mem_repr hc, String.length_ofList]

theorem utf8ByteSize_lead (n : Nat) : (n.repr ++ "=").utf8ByteSize = n.repr.length + 1 := by
  rw [String.utf8ByteSize_append, utf8ByteSize_repr]
  rfl

/-- Up to the equals sign a field shows its tag, whatever comes after. -/
theorem takeWhile_isDigit_lead (n : Nat) (rest : List Char) :
    ((n.repr ++ "=").toList ++ rest).takeWhile Char.isDigit = n.repr.toList := by
  rw [String.toList_append, List.append_assoc,
    List.takeWhile_append_of_pos fun _ hc => isDigit_of_mem_repr hc]
  exact List.append_nil _

theorem lead_prefix_iff : (m.repr ++ "=").toList <+: (n.repr ++ "=").toList ↔ m = n := by
  constructor
  · rintro ⟨rest, h⟩
    have shown := takeWhile_isDigit_lead m rest
    have own := takeWhile_isDigit_lead n []
    rw [h] at shown
    rw [List.append_nil] at own
    have numeral := isNumeral_repr m
    rw [← shown, own] at numeral
    exact numeral.value.symm.trans (isNumeral_repr n).value
  · rintro rfl
    exact List.prefix_refl _

end Numerals

/-- A text with more at its end, if that takes no more than `capacity` bytes. -/
def pushWithin? (capacity : Nat) (text more : String) : Option String :=
  if (text ++ more).utf8ByteSize ≤ capacity then some (text ++ more) else none

/-- What is put in piece by piece needs the room of the whole. -/
theorem pushWithin?_bind (capacity : Nat) (text a b : String) :
    ((pushWithin? capacity text a).bind fun t => pushWithin? capacity t b) =
      pushWithin? capacity text (a ++ b) := by
  simp only [pushWithin?, String.utf8ByteSize_append, ← String.append_assoc]
  by_cases first : text.utf8ByteSize + a.utf8ByteSize ≤ capacity
  · simp [first]
  · have whole : ¬ text.utf8ByteSize + a.utf8ByteSize + b.utf8ByteSize ≤ capacity := by omega
    simp [first, whole]

namespace TagRow

variable {wireType : WireType} {location : Location} {tag related k : Nat}

/-- A row whose lead is put together in a room of `capacity` bytes, with one byte for the length of
the tag. There is none if the room is too small. -/
def makeWithin? (capacity tag : Nat) (wireType : WireType) (location : Location) (related : Nat) :
    Option TagRow := do
  let digits := Nat.repr tag
  let start ← pushWithin? capacity "" digits
  let lead ← pushWithin? capacity start "="
  some { tag, wireType, location, related, tagLength := digits.utf8ByteSize % 256, lead }

/-- A room of `k + 1` bytes holds the leads of the tags of up to `k` digits, and no others. -/
theorem makeWithin?_eq (positive : 0 < k) (small : k < 256) :
    makeWithin? (k + 1) tag wireType location related =
      if tag < 10 ^ k then some (make tag wireType location related) else none := by
  have room : (tag.repr ++ "=").utf8ByteSize ≤ k + 1 ↔ tag < 10 ^ k := by
    rw [utf8ByteSize_lead, Nat.add_le_add_iff_right, Nat.length_repr_le_iff positive]
  have pushed : (pushWithin? (k + 1) "" tag.repr).bind (pushWithin? (k + 1) · "=") =
      if tag < 10 ^ k then some (tag.repr ++ "=") else none := by
    rw [pushWithin?_bind, pushWithin?]
    simp only [String.empty_append, room]
  change ((pushWithin? (k + 1) "" tag.repr).bind fun start =>
    (pushWithin? (k + 1) start "=").bind _) = _
  rw [← Option.bind_assoc, pushed]
  split_ifs with fits
  · have length := (Nat.length_repr_le_iff positive).mpr fits
    rw [Option.bind_some, utf8ByteSize_repr, Nat.mod_eq_of_lt (by omega)]
    rfl
  · rfl

example : makeWithin? 10 4294967295 .int .body 0 = none := by decide

/-- The room that there is for a lead: ten digits and the equals sign. -/
def leadCapacity : Nat := 11

/-- Every tag of 32 bits has a row, as there always is room for its lead. This is the one numeral of
the tag and an equals sign; the row gives the number of its digits, from one to ten. Of the leads of
two different tags neither begins with the other. -/
theorem make_lead_settles_tag (tag : UInt32) (wireType : WireType) (location : Location)
    (related : Nat) :
    let r := make tag.toNat wireType location related
    makeWithin? leadCapacity tag.toNat wireType location related = some r ∧
      (∃ digits, (∀ cs, IsNumeral cs tag.toNat ↔ cs = digits) ∧
        r.lead.toList = digits ++ ['='] ∧ r.tagLength = digits.length) ∧
      1 ≤ r.tagLength ∧ r.tagLength ≤ 10 ∧ r.lead.utf8ByteSize = r.tagLength + 1 ∧
      ∀ (other : UInt32) (wireType' : WireType) (location' : Location) (related' : Nat),
        utf8Bytes r.lead <+: utf8Bytes (make other.toNat wireType' location' related').lead ↔
          tag = other := by
  intro r
  have below : tag.toNat < 10 ^ 10 := lt_trans tag.toNat_lt (by decide)
  refine ⟨?_, ⟨tag.toNat.repr.toList, fun cs => isNumeral_iff, ?_, ?_⟩, ?_, ?_, ?_, ?_⟩
  · rw [leadCapacity, makeWithin?_eq (by decide) (by decide), if_pos below]
  · exact String.toList_append
  · exact String.length_toList.symm
  · exact Nat.length_repr_pos
  · exact (Nat.length_repr_le_iff (by decide)).mpr below
  · exact utf8ByteSize_lead tag.toNat
  · intro other _ _ _
    rw [utf8Bytes_prefix_iff, ← UInt32.toNat_inj]
    exact lead_prefix_iff

end TagRow

end FixTables
