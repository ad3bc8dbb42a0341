import FixTables.TypeId
import Mathlib.Data.String.Basic

namespace FixTables

theorem ofNat_lt_ofNat_iff {m n : Nat} (hm : m < 256) (hn : n < 256) :
    UInt8.ofNat m < UInt8.ofNat n ↔ m < n := by
  rw [UInt8.lt_iff_toNat_lt, UInt8.toNat_ofNat_of_lt' hm, UInt8.toNat_ofNat_of_lt' hn]

theorem ofNat_eq_ofNat_iff {m n : Nat} (hm : m < 256) (hn : n < 256) :
    UInt8.ofNat m = UInt8.ofNat n ↔ m = n := by
  rw [← UInt8.toNat_inj, UInt8.toNat_ofNat_of_lt' hm, UInt8.toNat_ofNat_of_lt' hn]

/-- The bytes of a lower character come before those of a higher one, whatever follows them. -/
theorem utf8EncodeChar_append_lt {c d : Char} (h : c < d) (xs ys : List UInt8) :
    String.utf8EncodeChar c ++ xs < String.utf8EncodeChar d ++ ys := by
  have hv : c.val.toNat < d.val.toNat := h
  have hd : d.val.toNat < 0x110000 := by
    have := d.valid
    simp only [UInt32.isValidChar, Nat.isValidChar] at this
    omega
  have h₁ : ∀ n, n / 4096 = n / 64 / 64 := fun n => by rw [Nat.div_div_eq_div_mul]
  have h₂ : ∀ n, n / 262144 = n / 64 / 64 / 64 := fun n => by simp only [Nat.div_div_eq_div_mul]
  simp only [String.utf8EncodeChar, h₁, h₂]
  generalize c.val.toNat = v at *
  generalize d.val.toNat = w at *
  -- Lengths differ in the first byte; equal lengths compare digit by digit.
  split_ifs <;> simp (disch := omega) only [List.cons_append, List.nil_append,
    List.cons_lt_cons_iff, ofNat_lt_ofNat_iff, ofNat_eq_ofNat_iff] <;> omega

theorem flatMap_utf8EncodeChar_lt {cs ds : List Char} (h : cs < ds) :
    cs.flatMap String.utf8EncodeChar < ds.flatMap String.utf8EncodeChar := by
  induction h with
  | @nil d ds =>
    cases hd : String.utf8EncodeChar d with
    | nil => exact absurd hd String.utf8EncodeChar_ne_nil
    | cons b bs => simp [hd]
  | @cons c cs ds _ ih =>
    simp only [List.flatMap_cons]
    exact List.Lex.append_left _ ih _
  | @rel c cs d ds hcd =>
    simp only [List.flatMap_cons]
    exact utf8EncodeChar_append_lt hcd _ _

/-- A text is a prefix of another exactly if its bytes are one of the other's. -/
theorem flatMap_utf8EncodeChar_prefix_iff {cs ds : List Char} :
    cs.flatMap String.utf8EncodeChar <+: ds.flatMap String.utf8EncodeChar ↔ cs <+: ds := by
  constructor
  · intro h
    induction cs generalizing ds with
    | nil => exact List.nil_prefix
    | cons c cs ih =>
      obtain ⟨rest, h⟩ := h
      rw [List.flatMap_cons, List.append_assoc] at h
      cases ds with
      | nil => exact absurd (List.append_eq_nil_iff.mp h).1 String.utf8EncodeChar_ne_nil
      | cons d ds =>
        rw [List.flatMap_cons] at h
        -- Different characters would set the bytes apart, whatever follows them.
        obtain rfl : c = d := by
          rcases lt_trichotomy c d with lt | eq | gt
          · exact absurd (h ▸ utf8EncodeChar_append_lt lt _ _) (List.lt_irrefl _)
          · exact eq
          · exact absurd (h ▸ utf8EncodeChar_append_lt gt _ _) (List.lt_irrefl _)
        exact (List.prefix_cons_inj c).mpr (ih ⟨rest, List.append_cancel_left h⟩)
  · rintro ⟨rest, rfl⟩
    rw [List.flatMap_append]
    exact List.prefix_append _ _

theorem utf8Bytes_prefix_iff {a b : String} : utf8Bytes a <+: utf8Bytes b ↔ a.toList <+: b.toList :=
  flatMap_utf8EncodeChar_prefix_iff

/-- Texts are in the order of their bytes in UTF-8. -/
theorem utf8Bytes_lt_iff {a b : String} : utf8Bytes a < utf8Bytes b ↔ a < b := by
  constructor
  · intro h
    rcases lt_trichotomy a b with hab | rfl | hba
    · exact hab
    · exact absurd h (List.lt_irrefl _)
    · exact absurd h (List.lt_asymm (flatMap_utf8EncodeChar_lt hba))
  · exact fun h => flatMap_utf8EncodeChar_lt h

end FixTables
