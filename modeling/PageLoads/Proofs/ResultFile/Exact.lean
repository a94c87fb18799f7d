import PageLoads.Proofs.Except
import PageLoads.Proofs.ResultFile.RoundTrip

namespace PageLoads

theorem LittleEndian.number_lt (bytes : Bytes) : number bytes < Nat.pow 256 bytes.length := by
  induction bytes with
  | nil => exact Nat.one_pos
  | cons b rest ih =>
    have hb : b.toNat < 256 := b.toNat_lt
    have hpow : Nat.pow 256 (b :: rest).length = Nat.pow 256 rest.length * 256 := rfl
    have hnumber : number (b :: rest) = b.toNat + 256 * number rest := rfl
    omega

theorem LittleEndian.bytes_number (digits : Bytes) : bytes digits.length (number digits) = digits := by
  induction digits with
  | nil => rfl
  | cons b rest ih =>
    have hb : b.toNat < 256 := b.toNat_lt
    have hnumber : number (b :: rest) = b.toNat + 256 * number rest := rfl
    have hlow : (b.toNat + 256 * number rest) % 256 = b.toNat := by omega
    have hhigh : (b.toNat + 256 * number rest) / 256 = number rest := by omega
    rw [hnumber, List.length_cons, bytes, hlow, hhigh, ih]
    simp

theorem Text.encode_of_decode {bytes : Bytes} {text : String} (h : decode bytes = .ok text) :
    encode text = bytes := by
  unfold decode decode? String.fromUTF8? at h
  split at h
  · rename_i found hfound
    cases h
    split at hfound
    · cases hfound
      rfl
    · cases hfound
  · cases h

namespace Codec

variable {α β : Type}

/-- The codec reads no bytes but those that it writes of the value it finds in them, and finds only values of
some size. -/
def Exact (codec : Codec α) (Fits : α → Prop) : Prop :=
  ∀ (bytes : Bytes) (a : α) (rest : Content), codec.read (.plain bytes) = .ok (a, rest) →
    Fits a ∧ ∃ left, rest = .plain left ∧ bytes = codec.write a ++ left

theorem Exact.imp {codec : Codec α} {Fits Fits' : α → Prop} (h : codec.Exact Fits) (himp : ∀ a, Fits a → Fits' a) :
    codec.Exact Fits' :=
  fun bytes a rest hread => (h bytes a rest hread).imp_left (himp a)

theorem eq_append_of_takeExactly {count : Nat} {bytes taken : Bytes} {rest : Content}
    (h : takeExactly count (.plain bytes) = .ok (taken, rest)) :
    taken.length = count ∧ ∃ left, rest = .plain left ∧ bytes = taken ++ left := by
  rw [takeExactly, Content.take_plain] at h
  split at h
  · cases h
  · cases h
  · rename_i hfound
    split at hfound
    · cases hfound
    · rename_i hlong
      cases hfound
      cases h
      refine ⟨?_, bytes.drop count, rfl, (List.take_append_drop count bytes).symm⟩
      rw [List.length_take]
      omega

theorem eq_append_of_readNat {width n : Nat} {bytes : Bytes} {rest : Content}
    (h : readNat width (.plain bytes) = .ok (n, rest)) :
    n < Nat.pow 256 width ∧ ∃ left, rest = .plain left ∧ bytes = writeNat width n ++ left := by
  obtain ⟨⟨digits, after⟩, htake, hnumber⟩ := Except.map_eq_ok_iff.mp h
  cases hnumber
  obtain ⟨rfl, left, rfl, rfl⟩ := eq_append_of_takeExactly htake
  refine ⟨LittleEndian.number_lt digits, left, rfl, ?_⟩
  rw [writeNat, LittleEndian.bytes_number]

theorem exact_word32 : word32.Exact fun _ => True := by
  intro bytes n rest h
  obtain ⟨⟨value, after⟩, hread, hvalue⟩ := Except.map_eq_ok_iff.mp h
  cases hvalue
  obtain ⟨hfits, left, rfl, rfl⟩ := eq_append_of_readNat hread
  have hword : value.toUInt32.toNat = value := UInt32.toNat_ofNat_of_lt' hfits
  refine ⟨trivial, left, rfl, ?_⟩
  simp only [word32, hword]

theorem exact_word64 : word64.Exact fun _ => True := by
  intro bytes n rest h
  obtain ⟨⟨value, after⟩, hread, hvalue⟩ := Except.map_eq_ok_iff.mp h
  cases hvalue
  obtain ⟨hfits, left, rfl, rfl⟩ := eq_append_of_readNat hread
  have hword : value.toUInt64.toNat = value := UInt64.toNat_ofNat_of_lt' hfits
  refine ⟨trivial, left, rfl, ?_⟩
  simp only [word64, hword]

theorem exact_binary64 : binary64.Exact fun _ => True := by
  intro bytes x rest h
  obtain ⟨⟨bits, after⟩, hread, hbits⟩ := Except.map_eq_ok_iff.mp h
  cases hbits
  exact exact_word64 _ _ _ hread

/-- A text is spelled by its length and its UTF-8 alone. -/
theorem exact_text : text.Exact FitsText := by
  intro bytes s rest hread
  obtain ⟨⟨length, behind⟩, hlength, h⟩ := Except.bind_eq_ok_iff.mp hread
  obtain ⟨_, left, rfl, rfl⟩ := eq_append_of_readNat hlength
  dsimp only at h
  split at h
  · cases h
  · rename_i hlimit
    obtain ⟨⟨found, after⟩, htake, hdone⟩ := Except.bind_eq_ok_iff.mp h
    obtain ⟨rfl, left, rfl, rfl⟩ := eq_append_of_takeExactly htake
    dsimp only at hdone
    split at hdone
    · rename_i hdecode
      cases hdone
      have hencode := Text.encode_of_decode hdecode
      have hsize : s.utf8ByteSize = found.length := by rw [← hencode, Text.length_encode]
      refine ⟨?_, left, rfl, ?_⟩
      · unfold FitsText
        omega
      · simp only [text, hencode, List.append_assoc]
    · cases hdone

theorem Exact.seq {first : Codec α} {second : Codec β} {Fits : α → Prop} {Fits' : β → Prop}
    (hfirst : first.Exact Fits) (hsecond : second.Exact Fits') :
    (first.seq second).Exact fun (a, b) => Fits a ∧ Fits' b := by
  intro bytes pair rest hread
  obtain ⟨⟨a, between⟩, ha, h⟩ := Except.bind_eq_ok_iff.mp hread
  obtain ⟨hfits, left, rfl, rfl⟩ := hfirst _ _ _ ha
  obtain ⟨⟨b, after⟩, hb, hpair⟩ := Except.bind_eq_ok_iff.mp h
  obtain ⟨hfits', left, rfl, rfl⟩ := hsecond _ _ _ hb
  cases hpair
  exact ⟨⟨hfits, hfits'⟩, left, rfl, (List.append_assoc _ _ _).symm⟩

theorem Exact.imap {codec : Codec α} {forth : α → β} {back : β → α} {Fits : α → Prop} (h : codec.Exact Fits)
    (hinverse : ∀ a, back (forth a) = a) : (imap forth back codec).Exact fun b => Fits (back b) := by
  intro bytes b rest hread
  obtain ⟨⟨a, after⟩, ha, hb⟩ := Except.map_eq_ok_iff.mp hread
  cases hb
  obtain ⟨hfits, left, rfl, rfl⟩ := h _ _ _ ha
  have hback : back (forth a) = a := hinverse a
  refine ⟨?_, left, rfl, ?_⟩
  · simpa only [hback] using hfits
  · simp only [Codec.imap, hback]

theorem eq_flatMap_of_readItems {item : Codec α} {Fits : α → Prop} (hitem : item.Exact Fits) {count : Nat}
    {done items : List α} {bytes : Bytes} {rest : Content}
    (h : readItems item.read done count (.plain bytes) = .ok (items, rest)) :
    ∃ new left, items = done.reverse ++ new ∧ new.length = count ∧ (∀ a ∈ new, Fits a) ∧
      rest = .plain left ∧ bytes = new.flatMap item.write ++ left := by
  induction count generalizing done bytes with
  | zero =>
    cases h
    exact ⟨[], bytes, by simp, rfl, by simp, rfl, rfl⟩
  | succ count ih =>
    rw [readItems] at h
    split at h
    · rename_i a behind ha
      obtain ⟨hfits, left, rfl, rfl⟩ := hitem _ _ _ ha
      obtain ⟨new, left, rfl, rfl, hnew, rfl, rfl⟩ := ih h
      refine ⟨a :: new, left, by simp, rfl, ?_, rfl, by simp⟩
      exact List.forall_mem_cons.mpr ⟨hfits, hnew⟩
    · cases h

theorem Exact.list {item : Codec α} {Fits : α → Prop} (hitem : item.Exact Fits) :
    (list item).Exact fun items => FitsList items ∧ ∀ a ∈ items, Fits a := by
  intro bytes items rest hread
  obtain ⟨⟨count, behind⟩, hcount, h⟩ := Except.bind_eq_ok_iff.mp hread
  obtain ⟨hfits, left, rfl, rfl⟩ := eq_append_of_readNat hcount
  obtain ⟨new, left, rfl, rfl, hnew, rfl, rfl⟩ := eq_flatMap_of_readItems hitem h
  refine ⟨⟨hfits, hnew⟩, left, rfl, ?_⟩
  simp [Codec.list]

theorem exact_choice [DecidableEq α] {options : List α} (hnodup : options.Nodup) :
    (choice options).Exact fun _ => True := by
  intro bytes a rest hread
  obtain ⟨⟨index, behind⟩, hindex, h⟩ := Except.bind_eq_ok_iff.mp hread
  obtain ⟨_, left, rfl, rfl⟩ := eq_append_of_readNat hindex
  dsimp only at h
  split at h
  · rename_i hget
    cases h
    obtain ⟨hlt, rfl⟩ := List.getElem?_eq_some_iff.mp hget
    refine ⟨trivial, left, rfl, ?_⟩
    simp only [choice, hnodup.idxOf_getElem index hlt]
  · cases h

end Codec

end PageLoads
