import Mathlib.Tactic.SplitIfs
import PageLoads.Proofs.Text.Utf8

namespace PageLoads.Text

/-- Texts in strictly ascending order of their bytes. -/
def InByteOrder (texts : List String) : Prop :=
  texts.Pairwise fun a b => encode a < encode b

theorem utf8EncodeChar_append_lt {c d : Char} (h : c < d) (front back : Bytes) :
    String.utf8EncodeChar c ++ front < String.utf8EncodeChar d ++ back := by
  have hval : c.val.toNat < d.val.toNat := h
  have hbound : d.val.toNat < 1114112 := by
    rcases d.valid with hlow | ⟨_, hhigh⟩
    · exact Nat.lt_trans hlow (by decide)
    · exact hhigh
  have hlt {m n : Nat} (hm : m < 256) (hn : n < 256) : UInt8.ofNat m < UInt8.ofNat n ↔ m < n := by
    rw [UInt8.lt_iff_toNat_lt, UInt8.toNat_ofNat_of_lt' hm, UInt8.toNat_ofNat_of_lt' hn]
  have heq {m n : Nat} (hm : m < 256) (hn : n < 256) : UInt8.ofNat m = UInt8.ofNat n ↔ m = n := by
    rw [← UInt8.toNat_inj, UInt8.toNat_ofNat_of_lt' hm, UInt8.toNat_ofNat_of_lt' hn]
  have hsquare (n : Nat) : n / 4096 = n / 64 / 64 := by omega
  have hcube (n : Nat) : n / 262144 = n / 64 / 64 / 64 := by omega
  unfold String.utf8EncodeChar
  dsimp only
  -- The first byte tells how many there are, and it grows with their number; the others are digits.
  split_ifs
  all_goals
    simp (disch := omega) only [List.cons_append, List.cons_lt_cons_iff, hsquare, hcube, hlt, heq]
    omega

theorem encode_lt_encode {a b : String} (h : a < b) : encode a < encode b := by
  rw [encode_eq_flatMap, encode_eq_flatMap]
  have hlists : a.toList < b.toList := h
  generalize a.toList = cs at hlists
  generalize b.toList = ds at hlists
  induction hlists with
  | nil =>
    rename_i d ds
    obtain ⟨byte, bytes, hbytes⟩ := List.exists_cons_of_ne_nil (String.utf8EncodeChar_ne_nil (c := d))
    rw [List.flatMap_cons, hbytes]
    exact List.nil_lt_cons _ _
  | rel h => exact utf8EncodeChar_append_lt h _ _
  | cons _ ih =>
    rw [List.flatMap_cons, List.flatMap_cons]
    exact List.append_left_lt ih

theorem encode_lt_encode_iff {a b : String} : encode a < encode b ↔ a < b := by
  refine ⟨fun h => ?_, encode_lt_encode⟩
  refine Decidable.byContradiction fun hnot => ?_
  by_cases heq : a = b
  · rw [heq] at h
    exact List.lt_irrefl _ h
  · have hba : b < a := Decidable.byContradiction fun hle =>
      heq (String.le_antisymm (String.not_lt.mp hle) (String.not_lt.mp hnot))
    exact List.lt_asymm h (encode_lt_encode hba)

/-- Texts in ascending order, each once, are in the order of their bytes. -/
theorem inByteOrder_of_pairwise {texts : List String} (h : texts.Pairwise fun a b => a < b) :
    InByteOrder texts :=
  h.imp encode_lt_encode

theorem inByteOrder_iff_pairwise {texts : List String} :
    InByteOrder texts ↔ texts.Pairwise fun a b => a < b :=
  ⟨fun h => h.imp encode_lt_encode_iff.mp, inByteOrder_of_pairwise⟩

end PageLoads.Text
