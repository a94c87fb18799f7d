import Mathlib
import PageLoads.Number.Binary64

namespace PageLoads.Binary64

variable {x y : Binary64} {negative : Bool} {m n : Nat}

def unit (negative : Bool) : ℚ :=
  if negative then -1 else 1

/-- The value of a number other than NaN. -/
def value (x : Binary64) : ℚ :=
  unit x.isNegative * (x.significand * 2 ^ x.exponent)

theorem magnitude_le_of_not_isNaN (h : x.isNaN = false) : x.magnitude ≤ infiniteMagnitude := by
  simpa [isNaN] using h

theorem magnitude_ofMagnitude (h : m < signWeight) : (ofMagnitude negative m).magnitude = m := by
  unfold signWeight at h
  cases negative <;> simp [ofMagnitude, magnitude, signWeight] <;> omega

theorem isNegative_ofMagnitude (h : m < signWeight) : (ofMagnitude negative m).isNegative = negative := by
  unfold signWeight at h
  cases negative <;> simp [ofMagnitude, isNegative, signWeight] <;> omega

theorem eq_of_magnitude_eq (hnegative : x.isNegative = y.isNegative) (hmagnitude : x.magnitude = y.magnitude) :
    x = y := by
  obtain ⟨x⟩ := x
  obtain ⟨y⟩ := y
  have hx := x.toNat_lt
  have hy := y.toNat_lt
  congr 1
  apply UInt64.toNat_inj.mp
  have hiff := decide_eq_decide.mp hnegative
  simp only [magnitude, signWeight] at hiff hmagnitude
  omega

theorem infiniteMagnitude_lt : infiniteMagnitude < signWeight := by decide

theorem isNaN_ofMagnitude (h : m ≤ infiniteMagnitude) : (ofMagnitude negative m).isNaN = false := by
  rw [isNaN, magnitude_ofMagnitude (h.trans_lt infiniteMagnitude_lt)]
  simpa using h

theorem isNaN_of_isFinite (h : x.isFinite = true) : x.isNaN = false := by
  simp only [isFinite, isNaN, decide_eq_true_eq, decide_eq_false_iff_not] at h ⊢
  omega

/-- Halving one so often gives the least positive number. -/
def leastPlace : Nat :=
  1074

/-- How many of the least positive number make one. -/
def stepsInOne : ℚ :=
  2 ^ leastPlace

theorem stepsInOne_pos : 0 < stepsInOne := by
  unfold stepsInOne
  positivity

/-- How many of the least positive number make a number of the given magnitude. -/
def steps (magnitude : Nat) : Nat :=
  (if magnitude / significandCount = 0 then magnitude else significandCount + magnitude % significandCount) *
    2 ^ (magnitude / significandCount - 1)

theorem value_eq (x : Binary64) : x.value = unit x.isNegative * (steps x.magnitude / stepsInOne) := by
  have hpower : (2 : ℚ) ^ x.exponent = 2 ^ (x.magnitude / significandCount - 1) / stepsInOne := by
    have hexponent : x.exponent = ((x.magnitude / significandCount - 1 : Nat) : Int) - (leastPlace : Nat) := by
      simp only [exponent, biasedExponent, leastPlace]
      omega
    rw [hexponent, zpow_sub₀ (by norm_num), zpow_natCast, zpow_natCast, stepsInOne]
  rw [value, hpower, steps, Nat.cast_mul, Nat.cast_pow, Nat.cast_ofNat, mul_div_assoc]
  rfl

/-- From each magnitude to the next the steps grow by a power of two, which depends on the exponent. -/
theorem steps_succ (m : Nat) : steps (m + 1) = steps m + 2 ^ (m / significandCount - 1) := by
  have hdiv := Nat.div_add_mod m significandCount
  have hlt : m % significandCount < significandCount := Nat.mod_lt _ (by decide)
  have hquotient (q r : Nat) (hr : r < significandCount) :
      (significandCount * q + r) / significandCount = q ∧ (significandCount * q + r) % significandCount = r := by
    rw [Nat.mul_add_div (by decide), Nat.mul_add_mod, Nat.div_eq_of_lt hr, Nat.mod_eq_of_lt hr]
    exact ⟨Nat.add_zero q, rfl⟩
  generalize m / significandCount = q at hdiv
  generalize m % significandCount = r at hdiv hlt
  subst hdiv
  obtain ⟨hq, hr⟩ := hquotient q r hlt
  unfold steps
  by_cases hnext : r + 1 < significandCount
  · obtain ⟨hq', hr'⟩ := hquotient q (r + 1) hnext
    rw [Nat.add_assoc, hq, hr, hq', hr']
    rcases Nat.eq_zero_or_pos q with rfl | hpos
    · simp
    · rw [if_neg hpos.ne', if_neg hpos.ne']
      ring
  · -- The significand is the greatest one, so the exponent goes up.
    have hr1 : r + 1 = significandCount := by omega
    obtain ⟨hq', hr'⟩ := hquotient (q + 1) 0 (by decide)
    rw [Nat.add_assoc, hr1, ← Nat.mul_succ, ← Nat.add_zero (significandCount * q.succ), hq, hr, hq', hr',
      if_neg (Nat.succ_ne_zero q)]
    rcases Nat.eq_zero_or_pos q with rfl | hpos
    · simpa using hr1.symm
    · obtain ⟨p, rfl⟩ := Nat.exists_eq_succ_of_ne_zero hpos.ne'
      rw [if_neg hpos.ne', ← hr1]
      simp only [Nat.succ_eq_add_one, Nat.add_sub_cancel, Nat.pow_succ]
      ring

theorem strictMono_steps : StrictMono steps := by
  refine strictMono_nat_of_lt_succ fun m => ?_
  rw [steps_succ]
  exact Nat.lt_add_of_pos_right (by positivity)

/-- A significand of at most 53 bits stands for as many units of its last place. -/
theorem steps_add {k : Nat} (hm : m ≤ 2 * significandCount) (hk : k = 0 ∨ significandCount ≤ m) :
    steps (k * significandCount + m) = m * 2 ^ k := by
  have hlow (m : Nat) (hm : m ≤ significandCount) : steps m = m := by
    rcases hm.lt_or_eq with hlt | rfl
    · simp [steps, Nat.div_eq_of_lt hlt]
    · decide +kernel
  have hhigh (k m : Nat) (hm : m < significandCount) :
      steps ((k + 1) * significandCount + m) = (significandCount + m) * 2 ^ k := by
    have hdiv : ((k + 1) * significandCount + m) / significandCount = k + 1 := by
      rw [Nat.mul_comm, Nat.mul_add_div (by decide), Nat.div_eq_of_lt hm, Nat.add_zero]
    have hmod : ((k + 1) * significandCount + m) % significandCount = m := by
      rw [Nat.mul_comm, Nat.mul_add_mod, Nat.mod_eq_of_lt hm]
    rw [steps, hdiv, hmod, if_neg (Nat.succ_ne_zero k), Nat.add_sub_cancel]
  by_cases hsmall : m ≤ significandCount
  · rcases hk with rfl | hge
    · rw [Nat.zero_mul, Nat.zero_add, hlow m hsmall, Nat.pow_zero, Nat.mul_one]
    · obtain rfl := Nat.le_antisymm hsmall hge
      simpa only [Nat.add_zero, Nat.succ_mul] using hhigh k 0 (by decide)
  · obtain ⟨rest, rfl⟩ := Nat.exists_eq_add_of_le (Nat.le_of_not_le hsmall)
    have hrest : rest ≤ significandCount := by omega
    rw [← Nat.add_assoc, ← Nat.succ_mul]
    rcases hrest.lt_or_eq with hlt | rfl
    · exact hhigh k rest hlt
    · have h := hhigh (k + 1) 0 (by decide)
      rw [Nat.add_zero, Nat.add_zero, Nat.succ_mul] at h
      rw [h]
      ring

/-- From some magnitude on all numbers are multiples of the same power of two. -/
theorem exists_steps_eq_or_lt (k n : Nat) :
    (∃ j, steps n = j * 2 ^ k) ∨ k ≠ 0 ∧ steps n < significandCount * 2 ^ k := by
  rcases Nat.eq_zero_or_pos k with rfl | hpos
  · exact Or.inl ⟨steps n, (Nat.mul_one _).symm⟩
  · by_cases hn : (k + 1) * significandCount ≤ n
    · have hdiv : k + 1 ≤ n / significandCount := (Nat.le_div_iff_mul_le (by decide)).mpr hn
      obtain ⟨j, hj⟩ := (pow_dvd_pow 2 (Nat.le_sub_one_of_lt hdiv)).mul_left
        (if n / significandCount = 0 then n else significandCount + n % significandCount)
      exact Or.inl ⟨j, hj.trans (Nat.mul_comm _ _)⟩
    · have hstart : steps ((k + 1) * significandCount) = significandCount * 2 ^ k := by
        rw [Nat.succ_mul]
        exact steps_add (Nat.le_mul_of_pos_left _ two_pos) (Or.inr (le_refl _))
      exact Or.inr ⟨hpos.ne', hstart ▸ strictMono_steps (Nat.lt_of_not_le hn)⟩

end PageLoads.Binary64
