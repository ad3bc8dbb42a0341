import Mathlib
import FixTables.Proofs.MessageLookup
import FixTables.Proofs.Partners
import FixTables.Proofs.ValidDictionary

namespace FixTables

/-- The number whose digits to the base 256 are given, the most significant first. -/
def bigEndian (bytes : List UInt8) : Nat := Nat.ofDigits 256 (bytes.map UInt8.toNat).reverse

section BigEndian

variable {xs ys : List UInt8}

theorem digit_lt (xs : List UInt8) : ∀ d ∈ (xs.map UInt8.toNat).reverse, d < 256 := by
  intro d hd
  obtain ⟨b, -, rfl⟩ := List.mem_map.mp (List.mem_reverse.mp hd)
  exact b.toNat_lt

theorem bigEndian_append (xs ys : List UInt8) :
    bigEndian (xs ++ ys) = bigEndian xs * 256 ^ ys.length + bigEndian ys := by
  simp [bigEndian, Nat.ofDigits_append]
  ring

theorem bigEndian_concat (xs : List UInt8) (b : UInt8) :
    bigEndian (xs ++ [b]) = bigEndian xs * 256 + b.toNat := by
  simpa [bigEndian] using bigEndian_append xs [b]

theorem bigEndian_zero_cons (xs : List UInt8) : bigEndian (0 :: xs) = bigEndian xs := by
  simp [bigEndian, Nat.ofDigits_append]

theorem bigEndian_lt (xs : List UInt8) : bigEndian xs < 256 ^ xs.length := by
  simpa [bigEndian] using Nat.ofDigits_lt_base_pow_length (by decide) (digit_lt xs)

theorem bigEndian_dropWhile_zero (xs : List UInt8) :
    bigEndian (xs.dropWhile (· == 0)) = bigEndian xs := by
  induction xs with
  | nil => rfl
  | cons b bs ih =>
    by_cases zero : b = 0
    · subst zero
      rw [List.dropWhile_cons_of_pos (by simp), ih, bigEndian_zero_cons]
    · rw [List.dropWhile_cons_of_neg (by simpa using zero)]

/-- Bytes without a leading zero are the digits of their number. -/
theorem digits_bigEndian (h : ∀ b ∈ xs.head?, b ≠ 0) :
    Nat.digits 256 (bigEndian xs) = (xs.map UInt8.toNat).reverse := by
  refine Nat.digits_ofDigits 256 (by decide) _ (digit_lt xs) fun nonempty => ?_
  cases xs with
  | nil => simp at nonempty
  | cons b bs =>
    have lead : b ≠ 0 := h b rfl
    simpa [← UInt8.toNat_inj] using lead

/-- Bytes have the same number exactly if they are the same up to leading zeros. -/
theorem bigEndian_eq_iff :
    bigEndian xs = bigEndian ys ↔ xs.dropWhile (· == 0) = ys.dropWhile (· == 0) := by
  have leads (zs : List UInt8) : ∀ b ∈ (zs.dropWhile (· == 0)).head?, b ≠ 0 := by
    intro b hb zero
    have := List.head?_dropWhile_not (· == 0) zs
    rw [Option.mem_def.mp hb] at this
    simp [zero] at this
  constructor
  · intro h
    rw [← bigEndian_dropWhile_zero xs, ← bigEndian_dropWhile_zero ys] at h
    have digits := congrArg (Nat.digits 256) h
    rw [digits_bigEndian (leads xs), digits_bigEndian (leads ys), List.reverse_inj] at digits
    exact (List.map_inj_right fun _ _ h => UInt8.toNat_inj.mp h).mp digits
  · intro h
    rw [← bigEndian_dropWhile_zero xs, ← bigEndian_dropWhile_zero ys, h]

end BigEndian

section Bytes

theorem length_utf8Bytes (s : String) : (utf8Bytes s).length = s.utf8ByteSize := by
  rw [← String.ofList_toList (s := s), String.utf8ByteSize_ofList, utf8Bytes, String.toList_ofList]
  induction s.toList with
  | nil => rfl
  | cons c cs ih =>
    rw [List.flatMap_cons, List.length_append, ih, String.length_utf8EncodeChar,
      String.utf8Len_cons, Nat.add_comm]

theorem utf8Bytes_injective : Function.Injective utf8Bytes := by
  intro a b h
  rcases lt_trichotomy a b with lt | eq | gt
  · exact absurd (h ▸ utf8Bytes_lt_iff.mpr lt) (List.lt_irrefl _)
  · exact eq
  · exact absurd (h ▸ utf8Bytes_lt_iff.mpr gt) (List.lt_irrefl _)

/-- A text without the NUL characters it begins with. -/
def withoutLeadingNuls (s : String) : String := String.ofList (s.toList.dropWhile (· == '\x00'))

/-- Only NUL has a zero as the first of its bytes. -/
theorem dropWhile_utf8EncodeChar_append {c : Char} (h : c ≠ '\x00') (bs : List UInt8) :
    (String.utf8EncodeChar c ++ bs).dropWhile (· == 0) = String.utf8EncodeChar c ++ bs := by
  have pos : 0 < c.val.toNat := Nat.pos_of_ne_zero fun zero =>
    h (Char.ext (UInt32.toNat_inj.mp zero))
  have valid : c.val.toNat < 0x110000 := by
    have := c.valid
    simp only [UInt32.isValidChar, Nat.isValidChar] at this
    omega
  have lead : ∀ b ∈ (String.utf8EncodeChar c).head?, b ≠ 0 := by
    simp only [String.utf8EncodeChar]
    generalize c.val.toNat = v at *
    split_ifs <;> simp [← UInt8.toNat_inj] <;> omega
  cases bytes : String.utf8EncodeChar c with
  | nil => exact absurd bytes String.utf8EncodeChar_ne_nil
  | cons b rest =>
    rw [bytes] at lead
    rw [List.cons_append, List.dropWhile_cons_of_neg (by simpa using lead b rfl)]

theorem utf8Bytes_withoutLeadingNuls (s : String) :
    utf8Bytes (withoutLeadingNuls s) = (utf8Bytes s).dropWhile (· == 0) := by
  rw [withoutLeadingNuls, utf8Bytes, utf8Bytes, String.toList_ofList]
  induction s.toList with
  | nil => rfl
  | cons c cs ih =>
    by_cases nul : c = '\x00'
    · subst nul
      rw [List.dropWhile_cons_of_pos (by rfl), ih]
      rfl
    · rw [List.dropWhile_cons_of_neg (by simpa using nul), List.flatMap_cons,
        dropWhile_utf8EncodeChar_append nul]

end Bytes

/-- Each byte pushes those before it one place to the left, over the edge of the number in the
end. -/
theorem packTypeId_toNat (s : String) :
    (packTypeId s).toNat = bigEndian (utf8Bytes s) % 2 ^ 64 := by
  unfold packTypeId
  induction utf8Bytes s using List.reverseRecOn with
  | nil => rfl
  | append_singleton bs b ih =>
    have hb := b.toNat_lt
    rw [List.foldl_append, bigEndian_concat, List.foldl_cons, List.foldl_nil, UInt64.toNat_or,
      UInt64.toNat_shiftLeft, ih, UInt8.toNat_toUInt64]
    -- The eight bits that the shift frees are those of the next byte.
    have shifted : (bigEndian bs % 2 ^ 64) <<< 8 % 2 ^ 64 = (bigEndian bs % 2 ^ 56) <<< 8 := by
      simp only [Nat.shiftLeft_eq]
      omega
    change (bigEndian bs % 2 ^ 64) <<< 8 % 2 ^ 64 ||| b.toNat = _
    rw [shifted, ← Nat.shiftLeft_add_eq_or_of_lt hb, Nat.shiftLeft_eq]
    omega

theorem packTypeId_toNat_of_short {s : String} (h : s.utf8ByteSize ≤ 8) :
    (packTypeId s).toNat = bigEndian (utf8Bytes s) := by
  have short : 256 ^ (utf8Bytes s).length ≤ 2 ^ 64 := by
    calc 256 ^ (utf8Bytes s).length
      _ ≤ 256 ^ 8 := Nat.pow_le_pow_right (by decide) (by rwa [length_utf8Bytes])
      _ = 2 ^ 64 := by decide
  rw [packTypeId_toNat, Nat.mod_eq_of_lt ((bigEndian_lt _).trans_le short)]

/-- Short texts pack alike exactly if they are the same up to NUL characters in front. -/
theorem packTypeId_eq_iff {a b : String} (ha : a.utf8ByteSize ≤ 8) (hb : b.utf8ByteSize ≤ 8) :
    packTypeId a = packTypeId b ↔ withoutLeadingNuls a = withoutLeadingNuls b := by
  rw [← UInt64.toNat_inj, packTypeId_toNat_of_short ha, packTypeId_toNat_of_short hb,
    bigEndian_eq_iff, ← utf8Bytes_withoutLeadingNuls, ← utf8Bytes_withoutLeadingNuls,
    utf8Bytes_injective.eq_iff]

theorem withoutLeadingNuls_eq_self {s : String} (h : s.toList.head? ≠ some '\x00') :
    withoutLeadingNuls s = s := by
  rw [withoutLeadingNuls]
  cases chars : s.toList with
  | nil => rw [List.dropWhile_nil, ← chars, String.ofList_toList]
  | cons c cs =>
    have lead : c ≠ '\x00' := by simpa [chars] using h
    rw [List.dropWhile_cons_of_neg (by simpa using lead), ← chars, String.ofList_toList]

namespace Spec

variable {root : Node} {config : CompilerConfig} {s : Spec}

/-- The types that messages are read with fit into a number. -/
theorem Stages.layout_type_short (t : Stages root config s) {l : MessageLayout}
    (hl : l ∈ s.layouts) : l.msgType.utf8ByteSize ≤ Message.maxTypeLength ∧
      l.typeId = packTypeId l.msgType := by
  obtain ⟨m, hm, -, type, typeId⟩ := exists_mem_of_forall₂ t.layouts_isOf.flip hl
  obtain ⟨n, hn⟩ := t.message_read (s.messages.sortedByType_perm.mem_iff.mp hm)
  have declared := (Message.ofNode_succeeds_iff _ _ n).mp ⟨m, hn⟩
  rw [type, typeId, Message.typeId, (Message.ofNode_eq_ok hn).2.1]
  exact ⟨declared.type_length, rfl⟩

/-- No two layouts have the same message type, and the numbers of their types tell them apart
unless the types differ in NUL characters in front alone. -/
theorem typeIds_agree_iff (h : (compile root config).outcome = .ok s) :
    s.layouts.Pairwise (fun a b => a.msgType ≠ b.msgType ∧
      (a.typeId = b.typeId ↔ withoutLeadingNuls a.msgType = withoutLeadingNuls b.msgType)) ∧
      ((∀ l ∈ s.layouts, l.msgType.toList.head? ≠ some '\x00') →
        (s.layouts.map (·.typeId)).Nodup) := by
  obtain ⟨t⟩ := compile_eq_ok_iff.mp h
  have agree : s.layouts.Pairwise fun a b => a.msgType ≠ b.msgType ∧
      (a.typeId = b.typeId ↔ withoutLeadingNuls a.msgType = withoutLeadingNuls b.msgType) := by
    refine t.layouts_ascending.imp_of_mem fun {a b} ha hb lt => ⟨ne_of_lt lt, ?_⟩
    obtain ⟨shortA, idA⟩ := t.layout_type_short ha
    obtain ⟨shortB, idB⟩ := t.layout_type_short hb
    rw [idA, idB, packTypeId_eq_iff shortA shortB]
  refine ⟨agree, fun leads => List.pairwise_map.mpr ?_⟩
  refine agree.imp_of_mem fun {a b} ha hb ⟨different, same⟩ collide => different ?_
  rw [← withoutLeadingNuls_eq_self (leads a ha), ← withoutLeadingNuls_eq_self (leads b hb)]
  exact same.mp collide

/-- A dictionary with a message of each of the given types. -/
def ofTypes (types : List String) : Node :=
  let named element name := (Node.leaf element).withAttribute "name" name
  let message msgType := (named "message" ("Type " ++ msgType)).withAttribute "msgtype" msgType
  { ((Node.leaf "fix").withAttribute "major" "4").withAttribute "minor" "4" with
    children := [
      { Node.leaf "fields" with
        children := [FieldRegistry.fieldNode "8" "BeginString" "STRING",
          FieldRegistry.fieldNode "10" "CheckSum" "STRING"] },
      (Node.leaf "header").append (named "field" "BeginString"),
      (Node.leaf "trailer").append (named "field" "CheckSum"),
      { Node.leaf "messages" with children := types.map message }] }

theorem typeIds_agree_iff_of_mixed_lengths :
    ∃ s, (compile (ofTypes ["é", "AB", "A"]) .default).outcome = .ok s ∧
      s.layouts.map (·.msgType) = ["A", "AB", "é"] ∧
      (s.layouts.map (·.typeId)).Nodup := by
  have compiled : ((compile (ofTypes ["é", "AB", "A"]) .default).outcome.map
      fun s => s.layouts.map (·.msgType)) = .ok ["A", "AB", "é"] := by
    cbv
  obtain ⟨s, hs, types⟩ := except_map_eq_ok_iff.mp compiled
  have leads : ∀ type ∈ ["A", "AB", "é"], type.toList.head? ≠ some '\x00' := by
    decide
  obtain ⟨-, distinct⟩ := typeIds_agree_iff hs
  exact ⟨s, hs, types, distinct fun l hl => leads _ (types ▸ List.mem_map_of_mem hl)⟩

/-- A NUL character in front of a type is lost in its number. -/
theorem typeIds_collide_of_leading_nul :
    ∃ s, (compile (ofTypes ["A", "\x00A"]) .default).outcome = .ok s ∧
      ∃ a ∈ s.layouts, ∃ b ∈ s.layouts, a ≠ b ∧ a.typeId = b.typeId := by
  have compiled : ((compile (ofTypes ["A", "\x00A"]) .default).outcome.map fun s =>
      s.layouts.map fun l => (l.msgType, l.typeId)) = .ok [("\x00A", 65), ("A", 65)] := by
    cbv
  obtain ⟨s, hs, ids⟩ := except_map_eq_ok_iff.mp compiled
  have of_type (type : String) (ht : (type, 65) ∈ [("\x00A", 65), ("A", (65 : UInt64))]) :
      ∃ l ∈ s.layouts, l.msgType = type ∧ l.typeId = 65 := by
    rw [← ids] at ht
    obtain ⟨l, hl, same⟩ := List.mem_map.mp ht
    exact ⟨l, hl, Prod.mk.inj same⟩
  obtain ⟨a, ha, typeA, idA⟩ := of_type "A" (by simp)
  obtain ⟨b, hb, typeB, idB⟩ := of_type "\x00A" (by simp)
  refine ⟨s, hs, a, ha, b, hb, fun same => ?_, idA.trans idB.symm⟩
  rw [same, typeB] at typeA
  exact absurd typeA (by decide)

end Spec

end FixTables
