import FixTables.Proofs.TypeIds

namespace FixTables

theorem bigEndian_injective_of_length {xs ys : List UInt8} (length : xs.length = ys.length)
    (h : bigEndian xs = bigEndian ys) : xs = ys := by
  have same := Nat.ofDigits_inj_of_len_eq (by decide) (by simpa using length) (digit_lt xs)
    (digit_lt ys) h
  exact (List.map_inj_right fun _ _ h => UInt8.toNat_inj.mp h).mp (List.reverse_inj.mp same)

theorem bigEndian_bytesOfId (id : UInt64) : bigEndian (bytesOfId id) = id.toNat := by
  have := id.toNat_lt
  simp [bigEndian, bytesOfId, Nat.ofDigits_cons, Nat.shiftRight_eq_div_pow]
  omega

section Latin

variable {bs : List UInt8} {cs : List Char} {c : Char} {s : String}

def IsAscii (c : Char) : Prop := c.toNat < 0x80

instance : DecidablePred IsAscii := fun c => inferInstanceAs (Decidable (c.toNat < 0x80))

/-- The text with one character for each byte, of the same number. -/
def latinText (bs : List UInt8) : String := String.ofList (bs.map Char.ofUInt8)

theorem utf8EncodeChar_ofUInt8 {b : UInt8} (h : b < 0x80) :
    String.utf8EncodeChar (Char.ofUInt8 b) = [b] := by
  have value : (Char.ofUInt8 b).val.toNat = b.toNat := UInt8.toNat_toUInt32 b
  have small : b.toNat ≤ 127 := Nat.le_of_lt_succ (UInt8.lt_iff_toNat_lt.mp h)
  rw [String.utf8EncodeChar, value, if_pos small, UInt8.ofNat_toNat]

/-- Bytes below 0x80 are the encoding of the text they stand for. -/
theorem utf8Bytes_latinText (h : ∀ b ∈ bs, b < 0x80) : utf8Bytes (latinText bs) = bs := by
  rw [utf8Bytes, latinText, String.toList_ofList]
  induction bs with
  | nil => rfl
  | cons b bs ih =>
    obtain ⟨first, rest⟩ := List.forall_mem_cons.mp h
    rw [List.map_cons, List.flatMap_cons, utf8EncodeChar_ofUInt8 first, ih rest]
    rfl

theorem ofUInt8_of_ascii (h : IsAscii c) : Char.ofUInt8 (UInt8.ofNat c.toNat) = c := by
  apply Char.ext
  apply UInt32.toNat_inj.mp
  unfold IsAscii at h
  change (UInt8.ofNat c.toNat).toUInt32.toNat = c.toNat
  rw [UInt8.toNat_toUInt32, UInt8.toNat_ofNat', Nat.mod_eq_of_lt (by omega)]

theorem exists_latinText_of_ascii (h : ∀ c ∈ s.toList, IsAscii c) :
    ∃ bs, (∀ b ∈ bs, b < 0x80) ∧ s = latinText bs := by
  refine ⟨s.toList.map fun c => UInt8.ofNat c.toNat, ?_, ?_⟩
  · intro b hb
    obtain ⟨c, hc, rfl⟩ := List.mem_map.mp hb
    have ascii : c.toNat < 0x80 := h c hc
    rw [UInt8.lt_iff_toNat_lt, UInt8.toNat_ofNat', Nat.mod_eq_of_lt (by omega)]
    exact ascii
  · rw [latinText, List.map_map]
    have same : s.toList.map (Char.ofUInt8 ∘ fun c => UInt8.ofNat c.toNat) = s.toList :=
      (List.map_congr_left fun c hc => ofUInt8_of_ascii (h c hc)).trans (List.map_id _)
    rw [same, String.ofList_toList]

/-- Only ASCII characters are encoded by a single byte. -/
theorem isAscii_of_length_le (h : (cs.flatMap String.utf8EncodeChar).length ≤ cs.length) :
    ∀ c ∈ cs, IsAscii c := by
  have atLeast (ds : List Char) : ds.length ≤ (ds.flatMap String.utf8EncodeChar).length := by
    induction ds with
    | nil => rfl
    | cons d ds ih =>
      have := d.utf8Size_pos
      rw [List.flatMap_cons, List.length_append, String.length_utf8EncodeChar, List.length_cons]
      omega
  induction cs with
  | nil => simp
  | cons c cs ih =>
    have one := c.utf8Size_pos
    have others := atLeast cs
    rw [List.flatMap_cons, List.length_append, String.length_utf8EncodeChar,
      List.length_cons] at h
    refine List.forall_mem_cons.mpr ⟨?_, ih (by omega)⟩
    have single : c.val ≤ 127 := Char.utf8Size_eq_one_iff.mp (by omega)
    exact Nat.lt_succ_of_le (UInt32.le_iff_toNat_le.mp single)

/-- A text whose bytes are read as characters comes out the same exactly if it is all ASCII. -/
theorem latinText_utf8Bytes_iff :
    latinText (utf8Bytes s) = s ↔ ∀ c ∈ s.toList, IsAscii c := by
  constructor
  · intro h
    have lengths := congrArg (fun t => t.toList.length) h
    simp only [latinText, String.toList_ofList, List.length_map, utf8Bytes] at lengths
    exact isAscii_of_length_le lengths.le
  · intro h
    obtain ⟨bs, small, rfl⟩ := exists_latinText_of_ascii h
    rw [utf8Bytes_latinText small]

theorem head?_latinText_ne_nul (bs : List UInt8) :
    (latinText (bs.dropWhile (· == 0))).toList.head? ≠ some '\x00' := by
  rw [latinText, String.toList_ofList, List.head?_map]
  intro nul
  obtain ⟨b, hb, hc⟩ := Option.map_eq_some_iff.mp nul
  have lead := List.head?_dropWhile_not (· == 0) bs
  rw [hb] at lead
  have zero : b.toUInt32 = 0 := congrArg Char.val hc
  have : b = 0 := UInt8.toNat_inj.mp (by simpa using congrArg UInt32.toNat zero)
  simp [this] at lead

end Latin

section RoundTrips

variable {s a b : String} {id : UInt64}

theorem unpackTypeId_eq (id : UInt64) :
    unpackTypeId id = latinText ((bytesOfId id).dropWhile (· == 0)) := rfl

theorem unpackTypeId_packTypeId (h : s.utf8ByteSize ≤ 8) :
    unpackTypeId (packTypeId s) = latinText (utf8Bytes (withoutLeadingNuls s)) := by
  have bytes : bigEndian (bytesOfId (packTypeId s)) = bigEndian (utf8Bytes s) := by
    rw [bigEndian_bytesOfId, packTypeId_toNat_of_short h]
  rw [unpackTypeId_eq, bigEndian_eq_iff.mp bytes, utf8Bytes_withoutLeadingNuls]

theorem unpackTypeId_packTypeId_eq_iff (h : s.utf8ByteSize ≤ 8) :
    unpackTypeId (packTypeId s) = s ↔
      (∀ c ∈ s.toList, IsAscii c) ∧ s.toList.head? ≠ some '\x00' := by
  constructor
  · intro same
    have lead : s.toList.head? ≠ some '\x00' := by
      rw [← same, unpackTypeId_eq]
      exact head?_latinText_ne_nul _
    rw [unpackTypeId_packTypeId h, withoutLeadingNuls_eq_self lead] at same
    exact ⟨latinText_utf8Bytes_iff.mp same, lead⟩
  · rintro ⟨ascii, lead⟩
    rw [unpackTypeId_packTypeId h, withoutLeadingNuls_eq_self lead]
    exact latinText_utf8Bytes_iff.mpr ascii

theorem packTypeId_unpackTypeId (h : ∀ b ∈ bytesOfId id, b < 0x80) :
    packTypeId (unpackTypeId id) = id := by
  have small : ∀ b ∈ (bytesOfId id).dropWhile (· == 0), b < 0x80 :=
    fun b hb => h b ((List.dropWhile_sublist _).subset hb)
  apply UInt64.toNat_inj.mp
  rw [packTypeId_toNat, unpackTypeId_eq, utf8Bytes_latinText small, bigEndian_dropWhile_zero,
    bigEndian_bytesOfId, Nat.mod_eq_of_lt id.toNat_lt]

/-- The last eight bytes of a text, or all of a shorter one. -/
def lastBytes (s : String) : List UInt8 := (utf8Bytes s).drop ((utf8Bytes s).length - 8)

theorem packTypeId_toNat_eq_lastBytes (s : String) :
    (packTypeId s).toNat = bigEndian (lastBytes s) := by
  have length : (lastBytes s).length ≤ 8 := by
    rw [lastBytes, List.length_drop]
    omega
  by_cases long : 8 ≤ (utf8Bytes s).length
  · have eight : (lastBytes s).length = 8 := by
      rw [lastBytes, List.length_drop]
      omega
    have below := bigEndian_lt (lastBytes s)
    rw [packTypeId_toNat, ← List.take_append_drop ((utf8Bytes s).length - 8) (utf8Bytes s)]
    change bigEndian (_ ++ lastBytes s) % 2 ^ 64 = _
    rw [bigEndian_append]
    rw [eight] at below ⊢
    omega
  · have whole : lastBytes s = utf8Bytes s := by
      rw [lastBytes, Nat.sub_eq_zero_of_le (by omega), List.drop_zero]
    rw [whole, packTypeId_toNat_of_short (by rw [← length_utf8Bytes]; omega)]

theorem packTypeId_eq_iff_lastBytes (ha : 8 ≤ a.utf8ByteSize) (hb : 8 ≤ b.utf8ByteSize) :
    packTypeId a = packTypeId b ↔ lastBytes a = lastBytes b := by
  rw [← UInt64.toNat_inj, packTypeId_toNat_eq_lastBytes, packTypeId_toNat_eq_lastBytes]
  refine ⟨bigEndian_injective_of_length ?_, congrArg bigEndian⟩
  rw [lastBytes, lastBytes, List.length_drop, List.length_drop, length_utf8Bytes,
    length_utf8Bytes]
  omega

/-- A text of at most eight bytes comes back from its number exactly if it is all ASCII and does not
begin with NUL. A number of eight bytes below 0x80 comes back from its text. The number of a longer
text tells its last eight bytes and nothing else. -/
theorem typeIds_round_trip :
    (∀ s : String, s.utf8ByteSize ≤ 8 →
      (unpackTypeId (packTypeId s) = s ↔
        (∀ c ∈ s.toList, IsAscii c) ∧ s.toList.head? ≠ some '\x00')) ∧
    (∀ id : UInt64, (∀ b ∈ bytesOfId id, b < 0x80) → packTypeId (unpackTypeId id) = id) ∧
    (∀ s : String, (packTypeId s).toNat = bigEndian (lastBytes s)) ∧
    ∀ a b : String, 8 ≤ a.utf8ByteSize → 8 ≤ b.utf8ByteSize →
      (packTypeId a = packTypeId b ↔ lastBytes a = lastBytes b) :=
  ⟨fun _ => unpackTypeId_packTypeId_eq_iff, fun _ => packTypeId_unpackTypeId,
    packTypeId_toNat_eq_lastBytes, fun _ _ => packTypeId_eq_iff_lastBytes⟩

theorem typeIds_round_trip_of_orderTypes :
    unpackTypeId (packTypeId "AB\x00C") = "AB\x00C" ∧
      unpackTypeId (packTypeId "\x00AB") ≠ "\x00AB" ∧
      unpackTypeId (packTypeId "éA") ≠ "éA" ∧
      packTypeId (unpackTypeId 0x4100427f) = 0x4100427f ∧
      packTypeId "NewOrderSingle" = packTypeId "OldOrderSingle" ∧
      packTypeId "NewOrderSingle" ≠ packTypeId "NewOrderDouble" := by
  obtain ⟨texts, ids, -, long⟩ := typeIds_round_trip
  refine ⟨(texts _ ?_).mpr ⟨?_, ?_⟩, fun h => ?_, fun h => ?_, ids _ ?_, ?_, fun h => ?_⟩
  · decide
  · simp [IsAscii]
  · decide
  · exact ((texts "\x00AB" (by decide)).mp h).2 rfl
  · have ascii := ((texts "éA" (by decide)).mp h).1 'é' (by decide)
    exact absurd ascii (by decide)
  · decide +kernel
  · exact (long _ _ (by decide) (by decide)).mpr (by decide)
  · exact absurd ((long _ _ (by decide) (by decide)).mp h) (by decide)

end RoundTrips

end FixTables
