import Mathlib.Data.List.Basic
import PageLoads.Proofs.Text.Utf8
import PageLoads.ResultFile.Codec

namespace PageLoads.Codec

variable {α β : Type}

/-- Reading what the codec writes gives back the value and leaves the bytes behind it unread. -/
def Restores (codec : Codec α) (a : α) : Prop :=
  ∀ rest : Bytes, codec.read (.plain (codec.write a ++ rest)) = .ok (a, .plain rest)

theorem takeExactly_append {count : Nat} {bytes : Bytes} (h : bytes.length = count) (rest : Bytes) :
    takeExactly count (.plain (bytes ++ rest)) = .ok (bytes, .plain rest) := by
  have hlong : ¬ (bytes ++ rest).length < count := by
    rw [List.length_append]
    omega
  rw [takeExactly, Content.take_plain, if_neg hlong, ← h, List.take_left, List.drop_left]

theorem readNat_writeNat {width n : Nat} (h : n < Nat.pow 256 width) (rest : Bytes) :
    readNat width (.plain (writeNat width n ++ rest)) = .ok (n, .plain rest) := by
  have htake := takeExactly_append (LittleEndian.length_bytes width n) rest
  simp only [readNat, writeNat, htake, Except.map, LittleEndian.number_bytes h]

theorem restores_word32 (n : UInt32) : word32.Restores n := by
  intro rest
  have hfits : n.toNat < Nat.pow 256 4 := n.toNat_lt
  simp [word32, readNat_writeNat hfits, Except.map]

theorem restores_word64 (n : UInt64) : word64.Restores n := by
  intro rest
  have hfits : n.toNat < Nat.pow 256 8 := n.toNat_lt
  simp [word64, readNat_writeNat hfits, Except.map]

theorem restores_binary64 (x : Binary64) : binary64.Restores x := by
  intro rest
  have hbits := restores_word64 x.bits rest
  simp only [binary64, hbits, Except.map]

theorem restores_text {s : String} (h : s.utf8ByteSize < textLimit) : text.Restores s := by
  intro rest
  have hfits : (Text.encode s).length < Nat.pow 256 8 := by
    rw [Text.length_encode]
    exact Nat.lt_trans h (by decide)
  have hnot : ¬ textLimit ≤ (Text.encode s).length := by
    rw [Text.length_encode]
    omega
  simp only [text, readText, List.append_assoc, readNat_writeNat hfits, bind, Except.bind, hnot, if_false,
    takeExactly_append rfl, Text.decode_encode, pure, Except.pure]

theorem Restores.seq {first : Codec α} {second : Codec β} {a : α} {b : β} (ha : first.Restores a)
    (hb : second.Restores b) : (first.seq second).Restores (a, b) := by
  intro rest
  have hfirst := ha (second.write b ++ rest)
  simp only [Codec.seq, List.append_assoc, hfirst, hb rest, bind, Except.bind, pure, Except.pure]

theorem Restores.imap {codec : Codec α} {forth : α → β} {back : β → α} {b : β}
    (h : codec.Restores (back b)) (hinverse : forth (back b) = b) : (imap forth back codec).Restores b := by
  intro rest
  simp only [Codec.imap, h rest, Except.map, hinverse]

theorem readItems_flatMap {item : Codec α} {items : List α} (h : ∀ a ∈ items, item.Restores a)
    (done : List α) (rest : Bytes) :
    readItems item.read done items.length (.plain (items.flatMap item.write ++ rest)) =
      .ok (done.reverse ++ items, .plain rest) := by
  induction items generalizing done with
  | nil => simp [readItems]
  | cons a items ih =>
    have ha := h a List.mem_cons_self (items.flatMap item.write ++ rest)
    have ih := ih (fun b hb => h b (List.mem_cons_of_mem _ hb)) (a :: done)
    simp only [List.length_cons, List.flatMap_cons, List.append_assoc, readItems, ha, ih,
      List.reverse_cons, List.singleton_append]

theorem Restores.list {item : Codec α} {items : List α} (hlength : items.length < UInt64.size)
    (h : ∀ a ∈ items, item.Restores a) : (list item).Restores items := by
  intro rest
  have hfits : items.length < Nat.pow 256 8 := hlength
  simp only [Codec.list, List.append_assoc, readNat_writeNat hfits, readItems_flatMap h, bind, Except.bind,
    List.reverse_nil, List.nil_append]

theorem restores_choice [DecidableEq α] {options : List α} {a : α} (ha : a ∈ options)
    (hlength : options.length < UInt32.size) : (choice options).Restores a := by
  intro rest
  have hindex : options.idxOf a < Nat.pow 256 4 :=
    Nat.lt_trans (List.idxOf_lt_length_of_mem ha) hlength
  simp only [choice, readNat_writeNat hindex, bind, Except.bind, List.getElem?_idxOf ha, pure, Except.pure]

end PageLoads.Codec
