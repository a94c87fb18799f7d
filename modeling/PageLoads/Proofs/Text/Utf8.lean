import PageLoads.Text.Lines

namespace PageLoads.Text

theorem toByteArray_encode (text : String) : toByteArray (encode text) = text.toUTF8 := by
  simp [toByteArray, encode]

@[simp] theorem decode?_encode (text : String) : decode? (encode text) = some text := by
  rw [decode?, toByteArray_encode, String.toUTF8_eq_toByteArray, String.fromUTF8?, dif_pos text.isValidUTF8]
  rfl

@[simp] theorem decode_encode (text : String) : decode (encode text) = .ok text := by
  simp [decode]

@[simp] theorem length_encode (text : String) : (encode text).length = text.utf8ByteSize := by
  simp [encode, ← String.size_toByteArray]

private theorem ofNat_mem_utf8EncodeChar_iff {n : Nat} (hn : n < 128) {c : Char} :
    UInt8.ofNat n ∈ String.utf8EncodeChar c ↔ c.val.toNat = n := by
  have hbyte {m : Nat} (h : m < 256) : UInt8.ofNat n = UInt8.ofNat m ↔ m = n := by
    have hsmall : n < 256 := by omega
    rw [← UInt8.toNat_inj, UInt8.toNat_ofNat_of_lt' h, UInt8.toNat_ofNat_of_lt' hsmall]
    exact eq_comm
  unfold String.utf8EncodeChar
  dsimp only
  split
  · rw [List.mem_singleton, hbyte (by omega)]
  · split
    · simp only [List.mem_cons, List.not_mem_nil, or_false]
      rw [hbyte (by omega), hbyte (by omega)]
      omega
    · split
      · simp only [List.mem_cons, List.not_mem_nil, or_false]
        rw [hbyte (by omega), hbyte (by omega), hbyte (by omega)]
        omega
      · simp only [List.mem_cons, List.not_mem_nil, or_false]
        rw [hbyte (by omega), hbyte (by omega), hbyte (by omega), hbyte (by omega)]
        omega

theorem encode_eq_flatMap (text : String) : encode text = text.toList.flatMap String.utf8EncodeChar := by
  rw [encode, String.toUTF8_eq_toByteArray, ← String.utf8Encode_toList]
  simp [List.utf8Encode]

theorem encode_append (a b : String) : encode (a ++ b) = encode a ++ encode b := by
  simp [encode_eq_flatMap]

theorem encode_injective {a b : String} (h : encode a = encode b) : a = b := by
  have hdecode := decode?_encode a
  rw [h, decode?_encode] at hdecode
  exact (Option.some.inj hdecode).symm

@[simp] theorem encode_eq_nil_iff {text : String} : encode text = [] ↔ text = "" := by
  have hempty : encode "" = [] := rfl
  rw [← hempty]
  exact ⟨encode_injective, congrArg encode⟩

/-- The byte of an ASCII character is found in a text where the character is. -/
theorem ofNat_mem_encode_iff {c : Char} (hc : c.val.toNat < 128) {text : String} :
    UInt8.ofNat c.val.toNat ∈ encode text ↔ c ∈ text.toList := by
  have hchar (d : Char) : d.val.toNat = c.val.toNat ↔ d = c := by
    rw [Char.ext_iff, ← UInt32.toNat_inj]
  rw [encode_eq_flatMap, List.mem_flatMap]
  simp only [ofNat_mem_utf8EncodeChar_iff hc, hchar, exists_eq_right]

theorem lineFeed_mem_encode_iff {text : String} : lineFeed ∈ encode text ↔ '\n' ∈ text.toList :=
  ofNat_mem_encode_iff (show ('\n').val.toNat < 128 by decide)

end PageLoads.Text
