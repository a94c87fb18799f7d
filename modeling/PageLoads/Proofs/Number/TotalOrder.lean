import Mathlib.Data.List.Sort
import PageLoads.Number.Binary64

namespace PageLoads.Binary64

theorem totalKey_injective {x y : Binary64} (h : x.totalKey = y.totalKey) : x = y := by
  obtain ⟨x⟩ := x
  obtain ⟨y⟩ := y
  have hx := x.toNat_lt
  have hy := y.toNat_lt
  congr 1
  apply UInt64.toNat_inj.mp
  unfold totalKey isNegative magnitude signWeight at h
  simp only [decide_eq_true_eq] at h
  -- The key is negative exactly for the patterns with the sign bit, and keeps the other bits.
  split at h <;> split at h <;> omega

theorem totalLe_trans {x y z : Binary64} (hxy : x.totalLe y = true) (hyz : y.totalLe z = true) :
    x.totalLe z = true := by
  unfold totalLe at *
  simp only [decide_eq_true_eq] at *
  omega

theorem totalLe_total (x y : Binary64) : (x.totalLe y || y.totalLe x) = true := by
  unfold totalLe
  simp only [Bool.or_eq_true, decide_eq_true_eq]
  omega

theorem totalLe_antisymm {x y : Binary64} (hxy : x.totalLe y = true) (hyx : y.totalLe x = true) : x = y := by
  unfold totalLe at *
  simp only [decide_eq_true_eq] at *
  exact totalKey_injective (by omega)

theorem le_eq_totalLe {x y : Binary64} (hx : x.isNaN = false) (hy : y.isNaN = false)
    (hxzero : x.magnitude = 0 → x = zero) (hyzero : y.magnitude = 0 → y = zero) : x.le y = x.totalLe y := by
  have hpositive (z : Binary64) (hzero : z.magnitude = 0 → z = zero) (hnegative : z.isNegative = true) :
      0 < z.magnitude := by
    refine Nat.pos_of_ne_zero fun hmagnitude => ?_
    rw [hzero hmagnitude] at hnegative
    exact absurd hnegative (by decide)
  have hkeys : x.key ≤ y.key ↔ x.totalKey ≤ y.totalKey := by
    have hx := hpositive x hxzero
    have hy := hpositive y hyzero
    unfold key totalKey
    split <;> split
    · omega
    · omega
    · have hy := hy ‹_›
      omega
    · rfl
  simp [le, totalLe, hx, hy, hkeys]

theorem pairwise_mergeSort (xs : List Binary64) :
    (xs.mergeSort totalLe).Pairwise fun x y => x.totalLe y = true := by
  refine List.pairwise_mergeSort ?_ totalLe_total xs
  exact fun _ _ _ => totalLe_trans

theorem eq_of_perm_of_pairwise {xs ys : List Binary64} (h : xs.Perm ys)
    (hxs : xs.Pairwise fun x y => x.totalLe y = true) (hys : ys.Pairwise fun x y => x.totalLe y = true) :
    xs = ys := by
  refine List.Perm.eq_of_pairwise ?_ hxs hys h
  exact fun _ _ _ _ => totalLe_antisymm

theorem mergeSort_eq_of_perm {xs ys : List Binary64} (h : xs.Perm ys) :
    xs.mergeSort totalLe = ys.mergeSort totalLe := by
  refine eq_of_perm_of_pairwise ?_ (pairwise_mergeSort xs) (pairwise_mergeSort ys)
  exact (List.mergeSort_perm xs totalLe).trans (h.trans (List.mergeSort_perm ys totalLe).symm)

theorem mergeSort_sublist {xs ys : List Binary64} (h : xs.Sublist ys) :
    (xs.mergeSort totalLe).Sublist (ys.mergeSort totalLe) := by
  have hantisymm : Std.Antisymm fun x y : Binary64 => x.totalLe y = true := ⟨fun _ _ => totalLe_antisymm⟩
  have hsubperm : (xs.mergeSort totalLe).Subperm (ys.mergeSort totalLe) :=
    (List.mergeSort_perm xs totalLe).subperm.trans (h.subperm.trans (List.mergeSort_perm ys totalLe).symm.subperm)
  exact List.sublist_of_subperm_of_pairwise hsubperm (pairwise_mergeSort xs) (pairwise_mergeSort ys)

end PageLoads.Binary64
