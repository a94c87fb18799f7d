import PageLoads.Proofs.Number.Arithmetic
import PageLoads.Proofs.Number.Fixed

namespace PageLoads

open Binary64 (unit)

namespace Decimal

variable {places : Nat}

/-- A decimal with so many digits before its point lies beyond all finite numbers. -/
def digitsBeyond : Nat :=
  400

theorem steps_infiniteMagnitude_le :
    Binary64.steps Binary64.infiniteMagnitude ≤ 10 ^ digitsBeyond * 2 ^ Binary64.leastPlace := by
  decide +kernel

theorem isRounded_infinite (negative : Bool) {q : ℚ} (h : 10 ^ digitsBeyond ≤ q) :
    (Binary64.infinite negative).IsRounded negative (unit negative * q) := by
  have hmagnitude : Binary64.infinite negative = .ofMagnitude negative Binary64.infiniteMagnitude := by
    cases negative <;> decide
  refine ⟨by cases negative <;> decide, ?_⟩
  rw [hmagnitude]
  refine Binary64.isNearest_ofMagnitude (le_trans (by positivity) h) (Binary64.isNearestMagnitude_infinite ?_)
  calc (Binary64.steps Binary64.infiniteMagnitude : ℚ)
      ≤ (10 ^ digitsBeyond * 2 ^ Binary64.leastPlace : Nat) := Nat.cast_le.mpr steps_infiniteMagnitude_le
    _ = 10 ^ digitsBeyond * Binary64.stepsInOne := by
      rw [Nat.cast_mul, Nat.cast_pow, Nat.cast_pow, Nat.cast_ofNat, Nat.cast_ofNat, Binary64.stepsInOne]
    _ ≤ q * Binary64.stepsInOne := mul_le_mul_of_nonneg_right h Binary64.stepsInOne_pos.le

theorem isRounded_scaled (negative : Bool) (value : Nat) (hplaces : places ≤ 400) :
    (scaled negative value (-places)).IsRounded negative (unit negative * (value / 10 ^ places)) := by
  have hdigits : 0 < (Nat.toDigits 10 value).length := List.length_pos_iff.mpr Nat.toDigits_ne_nil
  unfold scaled
  dsimp only
  split
  case isTrue hsmall =>
    obtain rfl : value = 0 := hsmall.resolve_right (by omega)
    simpa using Binary64.isRounded_ofRatio negative 0 Nat.one_pos
  case isFalse =>
    split
    case isTrue hlarge =>
      have hmany : ¬ (Nat.toDigits 10 value).length ≤ digitsBeyond + places := by
        rw [digitsBeyond]
        omega
      rw [Nat.length_toDigits_le_iff (by decide) (Nat.add_pos_left (by decide) _), not_lt, Nat.pow_add] at hmany
      refine isRounded_infinite negative ((le_div_iff₀ (by positivity)).mpr ?_)
      exact_mod_cast hmany
    case isFalse =>
      have hnone : (-(places : Int)).toNat = 0 := by omega
      have h := Binary64.isRounded_ofRatio negative value (Nat.pow_pos (n := places) (show 0 < 10 by decide))
      rw [neg_neg, Int.toNat_natCast, hnone]
      simpa using h

end Decimal

namespace Binary64

variable {x : Binary64} {places : Nat}

theorem isRounded_toPlaces (hplaces : places ≤ 400) (hx : x.isFinite = true) :
    ∃ n : Nat, IsNearestWhole n (|x.value| * 10 ^ places) ∧
      (x.toPlaces places).IsRounded x.isNegative (unit x.isNegative * (n / 10 ^ places)) := by
  have hunits := isNearestWhole_roundHalfEven (x.num * Nat.pow 10 places) x.den_pos
  refine ⟨x.units places, ?_, ?_⟩
  · rw [abs_value_eq_num_div_den, div_mul_eq_mul_div]
    simpa [units, num, den] using hunits
  · rw [toPlaces, if_pos hx]
    exact Decimal.isRounded_scaled x.isNegative (x.units places) hplaces

end Binary64

end PageLoads
