import PageLoads.Proofs.Number.Nearest

namespace PageLoads.Binary64

variable {x y : Binary64} {negative : Bool}

theorem isNaN_ofRatio (negative : Bool) (num den : Nat) : (ofRatio negative num den).isNaN = false :=
  isNaN_ofMagnitude (nearestMagnitude_le num den)

theorem isNaN_infinite (negative : Bool) : (infinite negative).isNaN = false := by
  cases negative <;> decide

theorem isNaN_mul (hx : x.isNaN = false) (hy : y.isFinite = true) (hne : y.magnitude ≠ 0) :
    (x * y).isNaN = false := by
  show (mul x y).isNaN = false
  have hzero : x.isFinite = false → x.magnitude ≠ 0 := by
    rintro hinfinite hzero
    rw [isFinite, hzero] at hinfinite
    cases hinfinite
  cases hfinite : x.isFinite with
  | true => simp [mul, hx, isNaN_of_isFinite hy, hfinite, hy, isNaN_ofRatio]
  | false => simp [mul, hx, isNaN_of_isFinite hy, hfinite, hzero hfinite, hne, isNaN_infinite]

theorem isNaN_div (hx : x.isNaN = false) (hy : y.isFinite = true) (hne : y.magnitude ≠ 0) :
    (x / y).isNaN = false := by
  show (div x y).isNaN = false
  cases hfinite : x.isFinite with
  | true => simp [div, hx, isNaN_of_isFinite hy, hfinite, hy, hne, isNaN_ofRatio]
  | false => simp [div, hx, isNaN_of_isFinite hy, hfinite, hy, hne, isNaN_infinite]

theorem isNaN_ceil (hx : x.isNaN = false) : x.ceil.isNaN = false := by
  unfold ceil
  split
  · exact isNaN_ofRatio _ _ _
  · exact hx

theorem isFinite_infinite (negative : Bool) : (infinite negative).isFinite = false := by
  cases negative <;> decide

theorem isFinite_mul_of_not_isFinite (hx : x.isFinite = false) (y : Binary64) : (x * y).isFinite = false := by
  have hnan : nan.isFinite = false := by decide
  show (mul x y).isFinite = false
  simp only [mul, hx, Bool.false_and, Bool.false_eq_true, if_false]
  split
  · exact hnan
  · split
    · exact hnan
    · exact isFinite_infinite _

theorem isFinite_div_of_not_isFinite (hx : x.isFinite = false) (hy : y.isFinite = true) :
    (x / y).isFinite = false := by
  have hnan : nan.isFinite = false := by decide
  show (div x y).isFinite = false
  simp only [div, hx, hy, Bool.not_true, Bool.false_eq_true, if_false]
  split
  · exact hnan
  · split
    · split
      · exact hnan
      · exact isFinite_infinite _
    · exact isFinite_infinite _

theorem round_of_not_isFinite (hx : x.isFinite = false) : x.round = x := by
  simp [round, hx]

theorem den_pos (x : Binary64) : 0 < x.den :=
  Nat.pow_pos two_pos

theorem value_eq_num_div_den (x : Binary64) : x.value = unit x.isNegative * (x.num / x.den) := by
  have hpower : (2 : ℚ) ^ x.exponent = 2 ^ x.exponent.toNat / 2 ^ (-x.exponent).toNat := by
    rw [← zpow_natCast, ← zpow_natCast, ← zpow_sub₀ two_ne_zero]
    congr 1
    omega
  rw [value, hpower, num, den, Nat.pow_eq, Nat.pow_eq, Nat.cast_mul, Nat.cast_pow, Nat.cast_pow, Nat.cast_ofNat,
    mul_div_assoc]

theorem unit_bne (negative other : Bool) : unit (negative != other) = unit negative * unit other := by
  cases negative <;> cases other <;> simp [unit]

theorem num_pos (h : x.magnitude ≠ 0) : 0 < x.num := by
  refine Nat.mul_pos ?_ (Nat.pow_pos two_pos)
  unfold significand
  split
  · exact Nat.pos_of_ne_zero h
  · exact Nat.add_pos_left (by decide) _

theorem mul_eq_ofRatio (hx : x.isFinite = true) (hy : y.isFinite = true) :
    x * y = ofRatio (x.isNegative != y.isNegative) (x.num * y.num) (x.den * y.den) := by
  show mul x y = _
  simp [mul, isNaN_of_isFinite hx, isNaN_of_isFinite hy, hx, hy]

theorem div_eq_ofRatio (hx : x.isFinite = true) (hy : y.isFinite = true) (hne : y.magnitude ≠ 0) :
    x / y = ofRatio (x.isNegative != y.isNegative) (x.num * y.den) (x.den * y.num) := by
  show div x y = _
  simp [div, isNaN_of_isFinite hx, isNaN_of_isFinite hy, hx, hy, hne]

theorem isRounded_mul (hx : x.isFinite = true) (hy : y.isFinite = true) :
    (x * y).IsRounded (x.isNegative != y.isNegative) (x.value * y.value) := by
  have h := isRounded_ofRatio (x.isNegative != y.isNegative) (x.num * y.num) (Nat.mul_pos x.den_pos y.den_pos)
  rw [← mul_eq_ofRatio hx hy, unit_bne, Nat.cast_mul, Nat.cast_mul, mul_div_mul_comm, mul_mul_mul_comm] at h
  rwa [value_eq_num_div_den x, value_eq_num_div_den y]

theorem isRounded_div (hx : x.isFinite = true) (hy : y.isFinite = true) (hne : y.magnitude ≠ 0) :
    (x / y).IsRounded (x.isNegative != y.isNegative) (x.value / y.value) := by
  have h := isRounded_ofRatio (x.isNegative != y.isNegative) (x.num * y.den) (Nat.mul_pos x.den_pos (num_pos hne))
  have hunit : unit y.isNegative = (unit y.isNegative)⁻¹ := by
    cases y.isNegative <;> norm_num [unit]
  rw [← div_eq_ofRatio hx hy hne, unit_bne, hunit, Nat.cast_mul, Nat.cast_mul, mul_div_mul_comm,
    ← inv_div (y.num : ℚ), mul_mul_mul_comm, ← mul_inv, ← div_eq_mul_inv] at h
  rwa [value_eq_num_div_den x, value_eq_num_div_den y]

theorem isRounded_fraction (part : Nat) {whole : Nat} (hwhole : 0 < whole) :
    (fraction part whole).IsRounded false (part / whole) := by
  have h := isRounded_ofRatio false part hwhole
  rwa [unit, if_neg Bool.false_ne_true, one_mul] at h

/-- Counts of 53 bits are doubles, and may be divided as such. -/
theorem fraction_eq_div {part whole : Nat} (hwhole : 0 < whole) (hpart : part ≤ 2 * significandCount)
    (hle : whole ≤ 2 * significandCount) : fraction part whole = ofNat part / ofNat whole := by
  have hfinite {n : Nat} (hn : n ≤ 2 * significandCount) : (ofNat n).isFinite = true := by
    obtain ⟨y, hy, hvalue⟩ := exists_value_eq hn
    exact (isRounded_ofNat n).isNearest.isFinite hy (hvalue ▸ le_refl _)
  have hne : (ofNat whole).magnitude ≠ 0 := by
    intro hzero
    have hvalue := abs_value (ofNat whole)
    rw [hzero, value_ofNat hle, Nat.abs_cast] at hvalue
    have hsteps : steps 0 = 0 := rfl
    rw [hsteps, Nat.cast_zero, zero_div, Nat.cast_eq_zero] at hvalue
    omega
  have hquotient := isRounded_div (hfinite hpart) (hfinite hle) hne
  rw [value_ofNat hpart, value_ofNat hle, (isRounded_ofNat part).isNegative_eq,
    (isRounded_ofNat whole).isNegative_eq] at hquotient
  exact (isRounded_fraction part hwhole).eq hquotient

theorem significand_lt (x : Binary64) : x.significand < 2 * significandCount := by
  have hlt : x.magnitude % significandCount < significandCount := Nat.mod_lt _ (by decide)
  unfold significand biasedExponent
  split
  case isTrue hzero =>
    have hsmall := Nat.lt_of_div_eq_zero (by decide) hzero
    omega
  case isFalse => omega

theorem abs_value_eq_num_div_den (x : Binary64) : |x.value| = x.num / x.den := by
  have h := abs_unit_mul_sub x.isNegative (x.num / x.den) 0
  rwa [mul_zero, sub_zero, sub_zero, ← value_eq_num_div_den, abs_of_nonneg (a := (x.num : ℚ) / x.den)
    (by positivity)] at h

/-- Rounding to a whole number is that of the exact value, a half going away from zero. -/
theorem round_eq_ofRatio (hx : x.isFinite = true) : x.round = ofRatio x.isNegative ⌊|x.value| + 1 / 2⌋₊ 1 := by
  have hpos : (0 : ℚ) < x.den := Nat.cast_pos.mpr x.den_pos
  have hlt : x.num % x.den < x.den := Nat.mod_lt _ x.den_pos
  have hhalf : 1 / 2 ≤ ((x.num % x.den : Nat) : ℚ) / x.den ↔ x.den ≤ 2 * (x.num % x.den) := by
    rw [div_le_div_iff₀ two_pos hpos, one_mul, mul_comm]
    exact_mod_cast Iff.rfl
  have hrest : ((x.num % x.den : Nat) : ℚ) / x.den < 1 := (div_lt_one hpos).mpr (Nat.cast_lt.mpr hlt)
  have hfloor : ⌊|x.value| + 1 / 2⌋₊ =
      if x.den ≤ 2 * (x.num % x.den) then x.num / x.den + 1 else x.num / x.den := by
    rw [abs_value_eq_num_div_den, Nat.floor_eq_iff (by positivity), cast_div_eq x.num x.den_pos]
    have hnonneg : (0 : ℚ) ≤ ((x.num % x.den : Nat) : ℚ) / x.den := by positivity
    split
    case isTrue hup =>
      have hge := hhalf.mpr hup
      push_cast
      constructor <;> linarith
    case isFalse hdown =>
      have hless := not_le.mp (hhalf.not.mpr hdown)
      constructor <;> linarith
  rw [hfloor, round, if_pos hx]

theorem exists_value_eq_floor (hx : x.isFinite = true) :
    ∃ y : Binary64, y.isFinite = true ∧ y.value = ⌊|x.value| + 1 / 2⌋₊ := by
  have hvalue := x.abs_value_eq_num_div_den
  rcases Int.lt_or_le x.exponent 0 with hsmall | hwhole
  · -- The value is at most half the significand.
    refine exists_value_eq (Nat.floor_le_of_le ?_)
    have hnum : x.num = x.significand := by
      rw [num, Int.toNat_of_nonpos hsmall.le]
      exact Nat.mul_one _
    have hden : 2 ≤ x.den := Nat.le_self_pow (by omega) 2
    have hlt := x.significand_lt
    rw [hvalue, hnum]
    calc (x.significand : ℚ) / x.den + 1 / 2 ≤ x.significand / 2 + 1 / 2 := by
          gcongr
          exact_mod_cast hden
      _ ≤ (2 * significandCount : Nat) := by
          have hle : (x.significand : ℚ) ≤ (2 * significandCount : Nat) := by exact_mod_cast hlt.le
          have hone : (1 : ℚ) ≤ (2 * significandCount : Nat) := by norm_num [significandCount]
          linarith
  · have hden : x.den = 1 := by
      rw [den, Int.toNat_of_nonpos (by omega)]
    obtain ⟨y, hy, hyvalue⟩ := exists_value_eq_unit_mul false hx
    refine ⟨y, hy, ?_⟩
    rw [hyvalue, unit, if_neg Bool.false_ne_true, one_mul, hvalue, hden, Nat.cast_one, div_one]
    congr 1
    refine ((Nat.floor_eq_iff (by positivity)).mpr ⟨?_, ?_⟩).symm <;> linarith

theorem value_round (hx : x.isFinite = true) :
    x.round.isFinite = true ∧ x.round.isNegative = x.isNegative ∧
      x.round.value = unit x.isNegative * ⌊|x.value| + 1 / 2⌋₊ := by
  obtain ⟨y, hy, hyvalue⟩ := exists_value_eq_floor hx
  obtain ⟨z, hz, hzvalue⟩ := exists_value_eq_unit_mul x.isNegative hy
  rw [hyvalue, Nat.abs_cast] at hzvalue
  have hround := isRounded_ofRatio x.isNegative ⌊|x.value| + 1 / 2⌋₊ Nat.one_pos
  rw [← round_eq_ofRatio hx, Nat.cast_one, div_one] at hround
  exact ⟨hround.isNearest.isFinite hz (hzvalue ▸ le_refl _), hround.isNegative_eq,
    hround.isNearest.value_eq (isNaN_of_isFinite hz) hzvalue⟩

end PageLoads.Binary64
