import Mathlib.Tactic.SplitIfs
import PageLoads.Proofs.Text.Utf8
import PageLoads.Text.Lossy

namespace PageLoads.Text

variable {seen index : Nat} {ranges : List (UInt8 × UInt8)} {bytes more : Bytes} {b : UInt8}

theorem length_le_of_sequenceFault_eq_none (h : sequenceFault index seen ranges bytes = none) :
    ranges.length ≤ bytes.length := by
  induction ranges generalizing seen bytes with
  | nil => exact Nat.zero_le _
  | cons range ranges ih =>
    cases bytes with
    | nil => cases h
    | cons b bytes =>
      rw [sequenceFault] at h
      split at h
      · simpa using ih h
      · cases h

theorem sequenceFault_append_of_eq_none (h : sequenceFault index seen ranges bytes = none) (more : Bytes) :
    sequenceFault index seen ranges (bytes ++ more) = none := by
  induction ranges generalizing seen bytes with
  | nil => rfl
  | cons range ranges ih =>
    cases bytes with
    | nil => cases h
    | cons b bytes =>
      rw [sequenceFault] at h
      rw [List.cons_append, sequenceFault]
      split at h
      · rename_i hrange
        rw [if_pos hrange]
        exact ih h
      · cases h

/-- A sequence that breaks off breaks off there whatever follows. -/
theorem sequenceFault_append_of_eq_invalid {length place : Nat}
    (h : sequenceFault index seen ranges bytes = some (.invalid length place)) (more : Bytes) :
    sequenceFault index seen ranges (bytes ++ more) = some (.invalid length place) ∧
      seen ≤ length ∧ length < seen + bytes.length := by
  induction ranges generalizing seen bytes with
  | nil => cases h
  | cons range ranges ih =>
    cases bytes with
    | nil => cases h
    | cons b bytes =>
      rw [sequenceFault] at h
      rw [List.cons_append, sequenceFault, List.length_cons]
      split at h
      · rename_i hrange
        rw [if_pos hrange]
        obtain ⟨hmore, hseen, hlength⟩ := ih h
        exact ⟨hmore, by omega, by omega⟩
      · rename_i hrange
        rw [if_neg hrange]
        cases h
        exact ⟨rfl, Nat.le_refl _, by omega⟩

/-- A sequence that is not finished is broken off by a byte that is in none of the ranges. -/
theorem sequenceFault_append_of_eq_incomplete {place : Nat}
    (h : sequenceFault index seen ranges bytes = some (.incomplete place))
    (hb : ∀ range ∈ ranges, ¬ (range.1 ≤ b ∧ b ≤ range.2)) (more : Bytes) :
    sequenceFault index seen ranges (bytes ++ b :: more) = some (.invalid (seen + bytes.length) index) := by
  induction ranges generalizing seen bytes with
  | nil => cases h
  | cons range ranges ih =>
    obtain ⟨hrange, hranges⟩ := List.forall_mem_cons.mp hb
    cases bytes with
    | nil => simp [sequenceFault, hrange]
    | cons first bytes =>
      rw [sequenceFault] at h
      rw [List.cons_append, sequenceFault]
      split at h
      · rename_i hfirst
        rw [if_pos hfirst, ih h hranges, List.length_cons]
        congr 2
        omega
      · cases h

theorem le_of_mem_continuationRanges {first : UInt8} (h : continuationRanges first = some ranges) :
    ∀ range ∈ ranges, 0x80 ≤ range.1 := by
  unfold continuationRanges at h
  dsimp only at h
  split_ifs at h
  all_goals
    cases h
    simp

theorem lossyFrom_length (bytes more : Bytes) : lossyFrom bytes.length (bytes ++ more) = lossyFrom 0 more := by
  induction bytes with
  | nil => rfl
  | cons b bytes ih => simpa [lossyFrom] using ih

/-- An ASCII character behind bytes leaves them as they are shown. -/
theorem lossyFrom_append_ascii (hb : b ≤ 0x7F) {skip : Nat} (hskip : skip ≤ bytes.length) :
    lossyFrom skip (bytes ++ b :: more) = lossyFrom skip bytes ++ lossyFrom 0 (b :: more) := by
  induction bytes generalizing skip with
  | nil =>
    obtain rfl : skip = 0 := Nat.le_zero.mp hskip
    rfl
  | cons first bytes ih =>
    rw [List.cons_append, lossyFrom, lossyFrom]
    by_cases hpos : 0 < skip
    · rw [if_pos hpos, if_pos hpos]
      exact ih (by simp only [List.length_cons] at hskip; omega)
    · rw [if_neg hpos, if_neg hpos]
      cases hranges : continuationRanges first with
      | none => simpa using ih (Nat.zero_le _)
      | some ranges =>
        have hascii : ∀ range ∈ ranges, ¬ (range.1 ≤ b ∧ b ≤ range.2) := by
          rintro range hrange ⟨hlow, _⟩
          have hbound := le_of_mem_continuationRanges hranges range hrange
          exact absurd (UInt8.le_trans hbound (UInt8.le_trans hlow hb)) (by decide)
        dsimp only
        cases hfault : sequenceFault 0 1 ranges bytes with
        | none =>
          have hlength := length_le_of_sequenceFault_eq_none hfault
          simp only [sequenceFault_append_of_eq_none hfault, ih hlength, List.take_append_of_le_length hlength,
            List.append_assoc]
        | some fault =>
          cases fault with
          | invalid length place =>
            obtain ⟨hmore, _, hlength⟩ := sequenceFault_append_of_eq_invalid hfault (b :: more)
            simp only [hmore, ih (show length - 1 ≤ bytes.length by omega), List.cons_append]
          | incomplete place =>
            simp only [sequenceFault_append_of_eq_incomplete hfault hascii, Nat.add_sub_cancel_left,
              lossyFrom_length, List.cons_append, List.nil_append]

private theorem continuationRanges_ofNat : ∀ n < 256, continuationRanges (UInt8.ofNat n) =
    if n ≤ 0x7F then some []
    else if 0xC2 ≤ n ∧ n ≤ 0xDF then some [(0x80, 0xBF)]
    else if n = 0xE0 then some [(0xA0, 0xBF), (0x80, 0xBF)]
    else if n = 0xED then some [(0x80, 0x9F), (0x80, 0xBF)]
    else if 0xE1 ≤ n ∧ n ≤ 0xEF then some [(0x80, 0xBF), (0x80, 0xBF)]
    else if n = 0xF0 then some [(0x90, 0xBF), (0x80, 0xBF), (0x80, 0xBF)]
    else if 0xF1 ≤ n ∧ n ≤ 0xF3 then some [(0x80, 0xBF), (0x80, 0xBF), (0x80, 0xBF)]
    else if n = 0xF4 then some [(0x80, 0x8F), (0x80, 0xBF), (0x80, 0xBF)]
    else none := by
  decide +kernel

private theorem sequenceFault_cons {n : Nat} {lo hi : UInt8} (h : lo.toNat ≤ n ∧ n ≤ hi.toNat) :
    sequenceFault index seen ((lo, hi) :: ranges) (UInt8.ofNat n :: bytes) =
      sequenceFault index (seen + 1) ranges bytes := by
  have hn : (UInt8.ofNat n).toNat = n := UInt8.toNat_ofNat_of_lt' (Nat.lt_of_le_of_lt h.2 hi.toNat_lt)
  simp only [sequenceFault, UInt8.le_iff_toNat_le, hn, if_pos h]

theorem exists_ranges_utf8EncodeChar (c : Char) :
    ∃ first bytes ranges, String.utf8EncodeChar c = first :: bytes ∧ continuationRanges first = some ranges ∧
      ranges.length = bytes.length ∧ sequenceFault 0 1 ranges bytes = none := by
  have hvalid : c.val.toNat < 0xD800 ∨ 0xDFFF < c.val.toNat ∧ c.val.toNat < 0x110000 := c.valid
  unfold String.utf8EncodeChar
  generalize c.val.toNat = v at hvalid
  dsimp only
  split_ifs
  · refine ⟨_, _, [], rfl, ?_, rfl, rfl⟩
    rw [continuationRanges_ofNat _ (by omega), if_pos (by omega)]
  · refine ⟨_, _, [(0x80, 0xBF)], rfl, ?_, rfl, ?_⟩
    · rw [continuationRanges_ofNat _ (by omega), if_neg (by omega), if_pos (by omega)]
    · rw [sequenceFault_cons (by simp; omega), sequenceFault]
  · -- The first of three bytes leaves out the shorter forms and the surrogates by the second.
    refine ⟨_, _, if v < 0x1000 then [(0xA0, 0xBF), (0x80, 0xBF)]
      else if 0xD000 ≤ v ∧ v < 0xD800 then [(0x80, 0x9F), (0x80, 0xBF)] else [(0x80, 0xBF), (0x80, 0xBF)],
      rfl, ?_, ?_, ?_⟩
    · rw [continuationRanges_ofNat _ (by omega)]
      split_ifs <;> first | rfl | omega
    · split_ifs <;> rfl
    · split_ifs <;> rw [sequenceFault_cons, sequenceFault_cons, sequenceFault] <;> simp <;> omega
  · refine ⟨_, _, if v < 0x40000 then [(0x90, 0xBF), (0x80, 0xBF), (0x80, 0xBF)]
      else if v < 0x100000 then [(0x80, 0xBF), (0x80, 0xBF), (0x80, 0xBF)]
      else [(0x80, 0x8F), (0x80, 0xBF), (0x80, 0xBF)], rfl, ?_, ?_, ?_⟩
    · rw [continuationRanges_ofNat _ (by omega)]
      split_ifs <;> first | rfl | omega
    · split_ifs <;> rfl
    · split_ifs <;> rw [sequenceFault_cons, sequenceFault_cons, sequenceFault_cons, sequenceFault] <;> simp <;> omega

theorem lossyFrom_utf8EncodeChar_append (c : Char) (more : Bytes) :
    lossyFrom 0 (String.utf8EncodeChar c ++ more) = c :: lossyFrom 0 more := by
  have hdecode : decode? (String.utf8EncodeChar c) = some (String.ofList [c]) := by
    rw [← decode?_encode, encode_eq_flatMap]
    simp
  obtain ⟨first, bytes, ranges, hbytes, hranges, hlength, hfault⟩ := exists_ranges_utf8EncodeChar c
  rw [hbytes] at hdecode ⊢
  simp [lossyFrom, hranges, sequenceFault_append_of_eq_none hfault, hlength, hdecode, lossyFrom_length]

theorem lossyFrom_encode (text : String) : lossyFrom 0 (encode text) = text.toList := by
  rw [encode_eq_flatMap]
  induction text.toList with
  | nil => rfl
  | cons c cs ih => rw [List.flatMap_cons, lossyFrom_utf8EncodeChar_append, ih]

@[simp] theorem lossy_encode (text : String) : lossy (encode text) = text := by
  rw [lossy, lossyFrom_encode, String.ofList_toList]

/-- Text that begins with an ASCII character is shown behind any bytes as it is. -/
theorem lossy_append_encode {b : UInt8} {rest : Bytes} {text : String} (htext : encode text = b :: rest)
    (hb : b ≤ 0x7F) (bytes : Bytes) : lossy (bytes ++ encode text) = lossy bytes ++ text := by
  have hchars := lossyFrom_encode text
  rw [htext] at hchars
  rw [lossy, htext, lossyFrom_append_ascii hb (Nat.zero_le _), hchars, String.ofList_append, String.ofList_toList]
  rfl

end PageLoads.Text
