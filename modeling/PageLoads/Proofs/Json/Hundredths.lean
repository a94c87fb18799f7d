import PageLoads.Json.Value
import PageLoads.Proofs.Number.Arithmetic

namespace PageLoads.Json

open Binary64 (unit)

/-- What becomes of a double that is rounded to two decimals. -/
inductive IsHundredths (x : Binary64) : Binary64 → Prop where
  | notFinite (hx : x.isFinite = false) : IsHundredths x x
  | outOfRange {product : Binary64} (hx : x.isFinite = true)
    (hproduct : product.IsRounded x.isNegative (x.value * 100)) (hinfinite : product.isFinite = false) :
    IsHundredths x x
  | rounded {product y : Binary64} (hx : x.isFinite = true)
    (hproduct : product.IsRounded x.isNegative (x.value * 100)) (hfinite : product.isFinite = true)
    (hy : y.IsRounded x.isNegative (unit x.isNegative * ⌊|product.value| + 1 / 2⌋₊ / 100)) : IsHundredths x y

private theorem hundred_isFinite : (Binary64.ofNat 100).isFinite = true := by decide +kernel

private theorem hundred_magnitude_ne_zero : (Binary64.ofNat 100).magnitude ≠ 0 := by decide +kernel

private theorem hundred_isNegative : (Binary64.ofNat 100).isNegative = false := by decide +kernel

private theorem hundred_value : (Binary64.ofNat 100).value = 100 := by
  exact_mod_cast Binary64.value_ofNat (n := 100) (by decide)

theorem hundredths_of_not_isFinite {x : Binary64} (h : (x * Binary64.ofNat 100).isFinite = false) :
    hundredths x = x := by
  have hquotient := Binary64.isFinite_div_of_not_isFinite h hundred_isFinite
  rw [hundredths, Binary64.round_of_not_isFinite h, hquotient]
  rfl

theorem isHundredths_hundredths (x : Binary64) : IsHundredths x (hundredths x) := by
  cases hx : x.isFinite with
  | false =>
    rw [hundredths_of_not_isFinite (Binary64.isFinite_mul_of_not_isFinite hx _)]
    exact .notFinite hx
  | true =>
    have hproduct := Binary64.isRounded_mul hx hundred_isFinite
    rw [hundred_value, hundred_isNegative, Bool.bne_false] at hproduct
    cases hfinite : (x * Binary64.ofNat 100).isFinite with
    | false =>
      rw [hundredths_of_not_isFinite hfinite]
      exact .outOfRange hx hproduct hfinite
    | true =>
      obtain ⟨hwhole, hsign, hvalue⟩ := Binary64.value_round hfinite
      have hquotient := Binary64.isRounded_div hwhole hundred_isFinite hundred_magnitude_ne_zero
      rw [hundred_value, hundred_isNegative, Bool.bne_false, hsign, hproduct.isNegative_eq] at hquotient
      have hrange : ((x * Binary64.ofNat 100).round / Binary64.ofNat 100).isFinite = true := by
        refine hquotient.isNearest.isFinite hwhole ?_
        rw [abs_div, abs_of_pos (by norm_num : (0 : ℚ) < 100)]
        exact div_le_self (abs_nonneg _) (by norm_num)
      rw [hvalue, hproduct.isNegative_eq] at hquotient
      rw [hundredths, if_pos hrange]
      exact .rounded hx hproduct hfinite hquotient

theorem IsHundredths.eq {x y z : Binary64} (hy : IsHundredths x y) (hz : IsHundredths x z) : y = z := by
  cases hy with
  | notFinite hx =>
    cases hz with
    | notFinite => rfl
    | outOfRange hx' => exact absurd (hx.symm.trans hx') Bool.false_ne_true
    | rounded hx' => exact absurd (hx.symm.trans hx') Bool.false_ne_true
  | outOfRange hx hproduct hinfinite =>
    cases hz with
    | notFinite | outOfRange => rfl
    | rounded _ hproduct' hfinite =>
      rw [hproduct.eq hproduct', hfinite] at hinfinite
      cases hinfinite
  | rounded hx hproduct hfinite hy =>
    cases hz with
    | notFinite hx' => exact absurd (hx'.symm.trans hx) Bool.false_ne_true
    | outOfRange _ hproduct' hinfinite =>
      rw [← hproduct.eq hproduct', hfinite] at hinfinite
      cases hinfinite
    | rounded _ hproduct' _ hz =>
      rw [← hproduct.eq hproduct'] at hz
      exact hy.eq hz

end PageLoads.Json
