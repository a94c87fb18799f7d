import PageLoads.Proofs.Number.Value

/-!
# Rounding to the nearest number

A number is the nearest to a rational if no other is nearer, and if its significand is even should another be
as near. Of each sign there is one. `ofRatio` finds it: the digits of the significand are those of the whole
number nearest to the rational in units of the last place, and no number between these units is left out.
-/

namespace PageLoads

/-- A whole number nearest to a rational, the even one of two equally near. -/
structure IsNearestWhole (n : ℤ) (q : ℚ) : Prop where
  near : |(n : ℚ) - q| ≤ 1 / 2
  even : |(n : ℚ) - q| = 1 / 2 → Even n

namespace IsNearestWhole

variable {n other : ℤ} {q : ℚ}

theorem one_le_abs_add (hne : other ≠ n) (q : ℚ) : 1 ≤ |(other : ℚ) - q| + |(n : ℚ) - q| := by
  have hgap : (1 : ℚ) ≤ |(other : ℚ) - n| := by
    exact_mod_cast Int.one_le_abs (sub_ne_zero.mpr hne)
  have htriangle := abs_sub_le (other : ℚ) q n
  rw [abs_sub_comm q] at htriangle
  exact hgap.trans htriangle

theorem le (h : IsNearestWhole n q) (other : ℤ) : |(n : ℚ) - q| ≤ |(other : ℚ) - q| := by
  rcases eq_or_ne other n with rfl | hne
  · exact le_refl _
  · have hgap := one_le_abs_add hne q
    have hnear := h.near
    linarith

theorem even_of_eq (h : IsNearestWhole n q) (hne : other ≠ n) (heq : |(other : ℚ) - q| = |(n : ℚ) - q|) :
    Even n := by
  refine h.even (le_antisymm h.near ?_)
  have hgap := one_le_abs_add hne q
  rw [heq] at hgap
  linarith

theorem eq (h : IsNearestWhole n q) (hother : IsNearestWhole other q) : n = other := by
  by_contra hne
  have heq := le_antisymm (h.le other) (hother.le n)
  obtain ⟨a, ha⟩ := h.even_of_eq (Ne.symm hne) heq.symm
  obtain ⟨b, hb⟩ := hother.even_of_eq hne heq
  have hgap : |((n - other : ℤ) : ℚ)| ≤ 1 := by
    have htriangle := abs_sub_le (n : ℚ) q other
    rw [abs_sub_comm q] at htriangle
    have hnear := h.near
    have hnear' := hother.near
    push_cast
    linarith
  have hgap : |n - other| ≤ 1 := by exact_mod_cast hgap
  obtain ⟨hlow, hhigh⟩ := abs_le.mp hgap
  omega

end IsNearestWhole

namespace Binary64

variable {x y : Binary64} {q : ℚ} {negative : Bool} {num den k m : Nat}

theorem cast_div_eq (num : Nat) (hden : 0 < den) :
    (num : ℚ) / den = (num / den : Nat) + ((num % den : Nat) : ℚ) / den := by
  have hpos : (0 : ℚ) < den := Nat.cast_pos.mpr hden
  rw [div_eq_iff hpos.ne', add_mul, div_mul_cancel₀ _ hpos.ne']
  exact_mod_cast (Nat.div_add_mod' num den).symm

theorem isNearestWhole_roundHalfEven (num : Nat) (hden : 0 < den) :
    IsNearestWhole (roundHalfEven num den) ((num : ℚ) / den) := by
  have hpos : (0 : ℚ) < den := Nat.cast_pos.mpr hden
  have hsplit := cast_div_eq num hden
  have hlt : num % den < den := Nat.mod_lt _ hden
  unfold roundHalfEven
  generalize num / den = quotient at *
  generalize num % den = rest at *
  have hrest : (rest : ℚ) / den < 1 := (div_lt_one hpos).mpr (Nat.cast_lt.mpr hlt)
  have hhalf : (rest : ℚ) / den = 1 / 2 ↔ 2 * rest = den := by
    rw [div_eq_div_iff hpos.ne' two_ne_zero, one_mul, mul_comm]
    exact_mod_cast Iff.rfl
  have hle : (rest : ℚ) / den ≤ 1 / 2 ↔ 2 * rest ≤ den := by
    rw [div_le_div_iff₀ hpos two_pos, one_mul, mul_comm]
    exact_mod_cast Iff.rfl
  rw [hsplit]
  dsimp only
  split
  case isTrue hup =>
    have habs : |(((quotient + 1 : Nat) : ℤ) : ℚ) - (quotient + (rest : ℚ) / den)| = 1 - rest / den := by
      rw [abs_of_nonneg] <;> push_cast <;> linarith
    refine ⟨?_, fun heq => ?_⟩
    · rw [habs]
      have hge : 1 / 2 ≤ (rest : ℚ) / den := by
        rcases hup with hgreater | ⟨hequal, _⟩
        · exact (not_le.mp (hle.not.mpr (Nat.not_le_of_lt hgreater))).le
        · exact (hhalf.mpr hequal).ge
      linarith
    · rw [habs] at heq
      have hequal := hhalf.mp (by linarith)
      obtain ⟨_, hodd⟩ := hup.resolve_left (Nat.not_lt_of_le hequal.le)
      exact_mod_cast (Nat.odd_iff.mpr hodd).add_one
  case isFalse hdown =>
    have habs : |((quotient : ℤ) : ℚ) - (quotient + (rest : ℚ) / den)| = rest / den := by
      rw [abs_sub_comm, Int.cast_natCast, add_sub_cancel_left, abs_of_nonneg (by positivity)]
    obtain ⟨hnot, hodd⟩ := not_or.mp hdown
    refine ⟨?_, fun heq => ?_⟩
    · rw [habs]
      exact hle.mpr (Nat.le_of_not_lt hnot)
    · rw [habs] at heq
      have heven : ¬ quotient % 2 = 1 := fun h => hodd ⟨hhalf.mp heq, h⟩
      exact_mod_cast Nat.not_odd_iff_even.mp (Nat.odd_iff.not.mpr heven)

/-- A ratio is multiplied or divided by a power of two in its numerator and its denominator. -/
theorem scaled_ratio (num den : Nat) (shift : Int) :
    ((num * Nat.pow 2 (-shift).toNat : Nat) : ℚ) / (den * Nat.pow 2 shift.toNat : Nat) =
      (num : ℚ) / den / 2 ^ shift := by
  have hshift : (2 : ℚ) ^ shift = 2 ^ shift.toNat / 2 ^ (-shift).toNat := by
    rw [← zpow_natCast, ← zpow_natCast, ← zpow_sub₀ two_ne_zero]
    congr 1
    omega
  rw [hshift, Nat.pow_eq, Nat.pow_eq]
  push_cast
  rw [div_div_eq_mul_div, div_mul_eq_mul_div, div_div]

theorem isNearestWhole_scaled (num : Nat) (hden : 0 < den) (shift : Int) :
    IsNearestWhole (roundHalfEven (num * Nat.pow 2 (-shift).toNat) (den * Nat.pow 2 shift.toNat))
      ((num : ℚ) / den / 2 ^ shift) := by
  rw [← scaled_ratio]
  exact isNearestWhole_roundHalfEven _ (Nat.mul_pos hden (Nat.pow_pos two_pos))

theorem scaled_lt_iff (num : Nat) (hden : 0 < den) (shift : Int) :
    num * Nat.pow 2 (-shift).toNat < den * Nat.pow 2 shift.toNat ↔ (num : ℚ) / den < 2 ^ shift := by
  have hscale : (0 : ℚ) < (den * Nat.pow 2 shift.toNat : Nat) :=
    Nat.cast_pos.mpr (Nat.mul_pos hden (Nat.pow_pos two_pos))
  rw [← Nat.cast_lt (α := ℚ), ← div_lt_one hscale, scaled_ratio, div_lt_one (by positivity)]

theorem zpow_log2_le_div (hnum : 0 < num) (hden : 0 < den) :
    (2 : ℚ) ^ ((num.log2 : Int) - den.log2 - 1) ≤ (num : ℚ) / den := by
  have hnumLow : (2 : ℚ) ^ num.log2 ≤ num := by exact_mod_cast Nat.log2_self_le hnum.ne'
  have hdenHigh : (den : ℚ) < 2 ^ (den.log2 + 1) := by exact_mod_cast Nat.lt_log2_self
  rw [le_div_iff₀ (Nat.cast_pos.mpr hden)]
  calc (2 : ℚ) ^ ((num.log2 : Int) - den.log2 - 1) * den
      ≤ 2 ^ ((num.log2 : Int) - den.log2 - 1) * 2 ^ (den.log2 + 1) := by gcongr
    _ = 2 ^ num.log2 := by
      rw [← zpow_natCast, ← zpow_natCast, ← zpow_add₀ two_ne_zero]
      congr 1
      push_cast
      ring
    _ ≤ num := hnumLow

theorem div_lt_zpow_log2 (num : Nat) (hden : 0 < den) :
    (num : ℚ) / den < 2 ^ ((num.log2 : Int) - den.log2 + 1) := by
  have hnumHigh : (num : ℚ) < 2 ^ (num.log2 + 1) := by exact_mod_cast Nat.lt_log2_self
  have hdenLow : (2 : ℚ) ^ den.log2 ≤ den := by exact_mod_cast Nat.log2_self_le hden.ne'
  rw [div_lt_iff₀ (Nat.cast_pos.mpr hden)]
  calc (num : ℚ) < 2 ^ (num.log2 + 1) := hnumHigh
    _ = 2 ^ ((num.log2 : Int) - den.log2 + 1) * 2 ^ den.log2 := by
      rw [← zpow_natCast, ← zpow_natCast, ← zpow_add₀ two_ne_zero]
      congr 1
      push_cast
      ring
    _ ≤ 2 ^ ((num.log2 : Int) - den.log2 + 1) * den := by gcongr

theorem binaryExponent_spec (hnum : 0 < num) (hden : 0 < den) :
    (2 : ℚ) ^ binaryExponent num den ≤ (num : ℚ) / den ∧ (num : ℚ) / den < 2 ^ (binaryExponent num den + 1) := by
  unfold binaryExponent
  dsimp only
  split
  case isTrue hless =>
    rw [sub_add_cancel]
    exact ⟨zpow_log2_le_div hnum hden, (scaled_lt_iff num hden _).mp hless⟩
  case isFalse hnot =>
    exact ⟨not_lt.mp ((scaled_lt_iff num hden _).not.mp hnot), div_lt_zpow_log2 num hden⟩

/-- The magnitude of the numbers nearest to a rational and its negative, which is counted in steps. -/
structure IsNearestMagnitude (m : Nat) (q : ℚ) : Prop where
  le_infinite : m ≤ infiniteMagnitude
  le : ∀ n ≤ infiniteMagnitude, |(steps m : ℚ) - q| ≤ |(steps n : ℚ) - q|
  even : ∀ n ≤ infiniteMagnitude, n ≠ m → |(steps n : ℚ) - q| = |(steps m : ℚ) - q| → Even m

/-- A significand that is nearest in units of its last place makes a nearest number: what is no multiple of
this unit lies below all significands of this exponent. -/
theorem isNearestMagnitude_of_significand (hm : IsNearestWhole m (q / 2 ^ k)) (hle : m ≤ 2 * significandCount)
    (hk : k = 0 ∨ (significandCount : ℚ) ≤ q / 2 ^ k) (hrange : k * significandCount + m ≤ infiniteMagnitude) :
    IsNearestMagnitude (k * significandCount + m) q := by
  have hpos : (0 : ℚ) < 2 ^ k := by positivity
  have hscale (j : Nat) : |((j * 2 ^ k : Nat) : ℚ) - q| = 2 ^ k * |((j : ℤ) : ℚ) - q / 2 ^ k| := by
    rw [← abs_of_pos hpos, ← abs_mul, abs_of_pos hpos, mul_sub, mul_div_cancel₀ _ hpos.ne']
    push_cast
    rw [mul_comm]
  have hlow : k = 0 ∨ significandCount ≤ m := by
    refine hk.imp_right fun hge => Nat.lt_succ_iff.mp ?_
    have hnear := (abs_le.mp hm.near).1
    rw [← Nat.cast_lt (α := ℚ)]
    push_cast at hnear ⊢
    linarith
  have hsteps : steps (k * significandCount + m) = m * 2 ^ k := steps_add hle hlow
  have hfarther (n : Nat) (hk0 : k ≠ 0) (hless : steps n < significandCount * 2 ^ k) :
      |((m * 2 ^ k : Nat) : ℚ) - q| < |(steps n : ℚ) - q| := by
    have hless : (steps n : ℚ) < (significandCount * 2 ^ k : Nat) := Nat.cast_lt.mpr hless
    have hbelow : ((significandCount * 2 ^ k : Nat) : ℚ) ≤ q := by
      push_cast
      exact (le_div_iff₀ hpos).mp (hk.resolve_left hk0)
    calc |((m * 2 ^ k : Nat) : ℚ) - q| ≤ |((significandCount * 2 ^ k : Nat) : ℚ) - q| := by
          rw [hscale, hscale]
          exact mul_le_mul_of_nonneg_left (hm.le significandCount) hpos.le
      _ = q - (significandCount * 2 ^ k : Nat) := by rw [abs_sub_comm, abs_of_nonneg (sub_nonneg.mpr hbelow)]
      _ < q - steps n := by linarith
      _ ≤ |(steps n : ℚ) - q| := by
          rw [abs_sub_comm]
          exact le_abs_self _
  refine ⟨hrange, fun n _ => ?_, fun n _ hne heq => ?_⟩
  · rw [hsteps]
    rcases exists_steps_eq_or_lt k n with ⟨j, hj⟩ | ⟨hk0, hless⟩
    · rw [hj, hscale, hscale]
      exact mul_le_mul_of_nonneg_left (hm.le j) hpos.le
    · exact (hfarther n hk0 hless).le
  · rw [hsteps] at heq
    rcases exists_steps_eq_or_lt k n with ⟨j, hj⟩ | ⟨hk0, hless⟩
    · rw [hj, hscale, hscale] at heq
      have hjm : (j : ℤ) ≠ m := by
        rintro hjm
        rw [Nat.cast_inj.mp hjm, ← hsteps] at hj
        exact hne (strictMono_steps.injective hj)
      have heven : Even m := by exact_mod_cast hm.even_of_eq hjm (mul_left_cancel₀ hpos.ne' heq)
      exact (Nat.even_mul.mpr (Or.inr (by decide))).add heven
    · exact absurd heq (hfarther n hk0 hless).ne'

theorem isNearestMagnitude_infinite (h : (steps infiniteMagnitude : ℚ) ≤ q) :
    IsNearestMagnitude infiniteMagnitude q := by
  refine ⟨le_refl _, fun n hn => ?_, fun _ _ _ _ => by decide⟩
  have hsteps : (steps n : ℚ) ≤ steps infiniteMagnitude := by exact_mod_cast strictMono_steps.monotone hn
  rw [abs_sub_comm, abs_sub_comm (steps n : ℚ), abs_of_nonneg (by linarith), abs_of_nonneg (by linarith)]
  linarith

/-- A significand that is nearest, where the exponent has gone as far as it can. -/
theorem isNearestMagnitude_min (hm : IsNearestWhole m (q / 2 ^ k)) (hle : m ≤ 2 * significandCount)
    (hk : k = 0 ∨ (significandCount : ℚ) ≤ q / 2 ^ k) :
    IsNearestMagnitude (min (k * significandCount + m) infiniteMagnitude) q := by
  by_cases hrange : k * significandCount + m ≤ infiniteMagnitude
  · rw [min_eq_left hrange]
    exact isNearestMagnitude_of_significand hm hle hk hrange
  · rw [min_eq_right (Nat.le_of_not_le hrange)]
    have hbeyond : infiniteMagnitude ≤ k * significandCount + significandCount := by
      simp only [significandCount, infiniteMagnitude] at hle hrange ⊢
      omega
    have hk0 : k ≠ 0 := by
      rintro rfl
      exact absurd hbeyond (by decide)
    have hstart : steps (k * significandCount + significandCount) = significandCount * 2 ^ k :=
      steps_add (Nat.le_mul_of_pos_left _ two_pos) (Or.inr (le_refl _))
    refine isNearestMagnitude_infinite ?_
    calc (steps infiniteMagnitude : ℚ) ≤ (significandCount * 2 ^ k : Nat) :=
          Nat.cast_le.mpr (hstart ▸ strictMono_steps.monotone hbeyond)
      _ = significandCount * 2 ^ k := by push_cast; rfl
      _ ≤ q := (le_div_iff₀ (by positivity)).mp (hk.resolve_left hk0)

theorem isNearestMagnitude_zero : IsNearestMagnitude 0 0 := by
  refine ⟨Nat.zero_le _, fun n _ => ?_, fun _ _ _ _ => Even.zero⟩
  have hzero : steps 0 = 0 := rfl
  rw [hzero, Nat.cast_zero, sub_zero, abs_zero]
  exact abs_nonneg _

theorem isNearestMagnitude_nearestMagnitude (num : Nat) (hden : 0 < den) :
    IsNearestMagnitude (nearestMagnitude num den) ((num : ℚ) / den * stepsInOne) := by
  unfold nearestMagnitude
  split
  case isTrue hzero =>
    subst hzero
    rw [Nat.cast_zero, zero_div, zero_mul]
    exact isNearestMagnitude_zero
  case isFalse hne =>
    obtain ⟨hlow, hhigh⟩ := binaryExponent_spec (Nat.pos_of_ne_zero hne) hden
    generalize binaryExponent num den = exponent at *
    obtain ⟨k, hk⟩ : ∃ k : Nat, max exponent (-1022) + 1022 = k :=
      Int.eq_ofNat_of_zero_le (by omega)
    have hshift : max exponent (-1022) - 52 = (k : Int) - (leastPlace : Nat) := by
      rw [← hk, leastPlace]
      omega
    dsimp only
    rw [hk, Int.toNat_natCast]
    -- In units of the last place the rational has 53 bits, or fewer where the exponent is the least one.
    have hunits : (num : ℚ) / den / 2 ^ (max exponent (-1022) - 52) = (num : ℚ) / den * stepsInOne / 2 ^ k := by
      rw [hshift, zpow_sub₀ two_ne_zero, zpow_natCast, zpow_natCast, stepsInOne, div_div_eq_mul_div]
    have hm := isNearestWhole_scaled num hden (max exponent (-1022) - 52)
    rw [hunits] at hm
    generalize roundHalfEven _ _ = m at hm ⊢
    have hcount : (significandCount : ℚ) = 2 ^ (52 : Int) := by norm_num [significandCount]
    have hless : (num : ℚ) / den * stepsInOne / 2 ^ k < 2 * significandCount := by
      rw [← hunits, div_lt_iff₀ (by positivity), hcount]
      calc (num : ℚ) / den < 2 ^ (exponent + 1) := hhigh
        _ ≤ 2 ^ (1 + 52 + (max exponent (-1022) - 52)) := zpow_le_zpow_right₀ one_le_two (by omega)
        _ = 2 * 2 ^ (52 : Int) * 2 ^ (max exponent (-1022) - 52) := by
          rw [zpow_add₀ two_ne_zero, zpow_add₀ two_ne_zero, zpow_one]
    have hgreat : k = 0 ∨ (significandCount : ℚ) ≤ (num : ℚ) / den * stepsInOne / 2 ^ k := by
      rcases Nat.eq_zero_or_pos k with hk0 | hpos
      · exact Or.inl hk0
      · refine Or.inr ?_
        rw [← hunits, le_div_iff₀ (by positivity), hcount, ← zpow_add₀ two_ne_zero]
        exact (zpow_le_zpow_right₀ one_le_two (by omega)).trans hlow
    have hle : m ≤ 2 * significandCount := by
      have hnear := (abs_le.mp hm.near).2
      refine Nat.lt_succ_iff.mp ?_
      rw [← Nat.cast_lt (α := ℚ)]
      push_cast at hnear ⊢
      linarith
    exact isNearestMagnitude_min hm hle hgreat

/-- No number is nearer to a rational than this one, and its bits are even if those of another number that is as
near are not the same, apart from the sign. -/
structure IsNearest (x : Binary64) (q : ℚ) : Prop where
  isNaN_eq : x.isNaN = false
  le : ∀ y : Binary64, y.isNaN = false → |x.value - q| ≤ |y.value - q|
  even : ∀ y : Binary64, y.isNaN = false → y.magnitude ≠ x.magnitude → |y.value - q| = |x.value - q| →
    Even x.magnitude

theorem abs_unit_mul_sub (negative : Bool) (a q : ℚ) : |unit negative * a - unit negative * q| = |a - q| := by
  cases negative
  · simp [unit]
  · simp [unit, abs_sub_comm, neg_add_eq_sub]

/-- A number on the other side of zero is farther away. -/
theorem abs_sub_le_abs_unit_mul_sub (negative other : Bool) {a q : ℚ} (ha : 0 ≤ a) (hq : 0 ≤ q) :
    |a - q| ≤ |unit other * a - unit negative * q| := by
  by_cases h : other = negative
  · rw [h, abs_unit_mul_sub]
  · have hsum : |unit other * a - unit negative * q| = a + q := by
      cases other <;> cases negative <;> simp_all [unit, abs_of_nonneg, add_nonneg]
      rw [← neg_add', abs_neg, abs_of_nonneg (add_nonneg ha hq)]
    rw [hsum]
    exact abs_sub_le_of_nonneg_of_le ha (by linarith) hq (by linarith)

theorem abs_steps_sub (m : Nat) (q : ℚ) :
    |(steps m : ℚ) / stepsInOne - q| = |(steps m : ℚ) - q * stepsInOne| / stepsInOne := by
  rw [← abs_of_pos stepsInOne_pos, ← abs_div, abs_of_pos stepsInOne_pos, sub_div,
    mul_div_cancel_right₀ _ stepsInOne_pos.ne']

theorem abs_value (x : Binary64) : |x.value| = steps x.magnitude / stepsInOne := by
  have h := abs_unit_mul_sub x.isNegative (steps x.magnitude / stepsInOne) 0
  rwa [mul_zero, sub_zero, sub_zero, ← value_eq, abs_of_nonneg (a := (steps x.magnitude : ℚ) / stepsInOne)
    (div_nonneg (Nat.cast_nonneg _) stepsInOne_pos.le)] at h

theorem isNearest_ofMagnitude (hq : 0 ≤ q) (hm : IsNearestMagnitude m (q * stepsInOne)) :
    (ofMagnitude negative m).IsNearest (unit negative * q) := by
  have hlt := hm.le_infinite.trans_lt infiniteMagnitude_lt
  have hself : |(ofMagnitude negative m).value - unit negative * q| = |(steps m : ℚ) / stepsInOne - q| := by
    rw [value_eq, isNegative_ofMagnitude hlt, magnitude_ofMagnitude hlt, abs_unit_mul_sub]
  have hother (y : Binary64) : |(steps y.magnitude : ℚ) / stepsInOne - q| ≤ |y.value - unit negative * q| := by
    rw [value_eq]
    exact abs_sub_le_abs_unit_mul_sub _ _ (div_nonneg (Nat.cast_nonneg _) stepsInOne_pos.le) hq
  refine ⟨isNaN_ofMagnitude hm.le_infinite, fun y hy => ?_, fun y hy hne heq => ?_⟩
  · rw [hself]
    refine LE.le.trans ?_ (hother y)
    rw [abs_steps_sub, abs_steps_sub]
    exact div_le_div_of_nonneg_right (hm.le _ (magnitude_le_of_not_isNaN hy)) stepsInOne_pos.le
  · rw [magnitude_ofMagnitude hlt] at hne ⊢
    have hle := hm.le _ (magnitude_le_of_not_isNaN hy)
    refine hm.even _ (magnitude_le_of_not_isNaN hy) hne (le_antisymm ?_ hle)
    rw [← div_le_div_iff_of_pos_right stepsInOne_pos, ← abs_steps_sub, ← abs_steps_sub, ← hself, ← heq]
    exact hother y

/-- The number of the given sign that is nearest to a rational. -/
structure IsRounded (x : Binary64) (negative : Bool) (q : ℚ) : Prop where
  isNegative_eq : x.isNegative = negative
  isNearest : x.IsNearest q

theorem nearestMagnitude_le (num den : Nat) : nearestMagnitude num den ≤ infiniteMagnitude := by
  unfold nearestMagnitude
  split
  · exact Nat.zero_le _
  · exact Nat.min_le_right _ _

theorem isRounded_ofRatio (negative : Bool) (num : Nat) (hden : 0 < den) :
    (ofRatio negative num den).IsRounded negative (unit negative * (num / den)) where
  isNegative_eq := isNegative_ofMagnitude ((nearestMagnitude_le num den).trans_lt infiniteMagnitude_lt)
  isNearest := isNearest_ofMagnitude (by positivity) (isNearestMagnitude_nearestMagnitude num hden)

theorem isRounded_ofNat (n : Nat) : (ofNat n).IsRounded false n := by
  have h := isRounded_ofRatio false n Nat.one_pos
  rwa [unit, if_neg Bool.false_ne_true, one_mul, Nat.cast_one, div_one] at h

theorem abs_sub_lt_of_between {a b c : ℚ} (hab : a < b) (hbc : b < c) (heq : |c - q| = |a - q|) :
    |b - q| < |a - q| := by
  rcases abs_eq_abs.mp heq with hsame | hmiddle
  · linarith
  · have hgap : |a - q| = q - a := by rw [abs_sub_comm, abs_of_pos (by linarith)]
    rw [hgap, abs_lt]
    constructor <;> linarith

theorem unit_mul_unit_mul (negative : Bool) (q : ℚ) : unit negative * (unit negative * q) = q := by
  cases negative <;> simp [unit]

theorem isFinite_ofMagnitude (h : m < infiniteMagnitude) : (ofMagnitude negative m).isFinite = true := by
  rw [isFinite, magnitude_ofMagnitude (h.trans infiniteMagnitude_lt)]
  exact decide_eq_true h

namespace IsNearest

theorem magnitude_not_lt (hx : x.IsNearest q) (hy : y.IsNearest q) (hnegative : x.isNegative = y.isNegative) :
    ¬ x.magnitude < y.magnitude := by
  intro hlt
  have heq : |y.value - q| = |x.value - q| := le_antisymm (hy.le x hx.isNaN_eq) (hx.le y hy.isNaN_eq)
  obtain ⟨a, ha⟩ := hx.even y hy.isNaN_eq hlt.ne' heq
  obtain ⟨b, hb⟩ := hy.even x hx.isNaN_eq hlt.ne heq.symm
  -- Two equally near numbers of even bits have a number between them, which is nearer than both.
  have hbetween : x.magnitude + 1 < y.magnitude := by omega
  have hrange : x.magnitude + 1 ≤ infiniteMagnitude := hbetween.le.trans (magnitude_le_of_not_isNaN hy.isNaN_eq)
  have hle := hx.le (ofMagnitude x.isNegative (x.magnitude + 1)) (isNaN_ofMagnitude hrange)
  have hsigned := hrange.trans_lt infiniteMagnitude_lt
  rw [value_eq, value_eq (ofMagnitude _ _), isNegative_ofMagnitude hsigned, magnitude_ofMagnitude hsigned,
    ← unit_mul_unit_mul x.isNegative q, abs_unit_mul_sub, abs_unit_mul_sub] at hle
  rw [value_eq, value_eq, ← hnegative, ← unit_mul_unit_mul x.isNegative q, abs_unit_mul_sub,
    abs_unit_mul_sub] at heq
  have hlow : (steps x.magnitude : ℚ) / stepsInOne < steps (x.magnitude + 1) / stepsInOne :=
    div_lt_div_of_pos_right (Nat.cast_lt.mpr (strictMono_steps (Nat.lt_succ_self _))) stepsInOne_pos
  have hhigh : (steps (x.magnitude + 1) : ℚ) / stepsInOne < steps y.magnitude / stepsInOne :=
    div_lt_div_of_pos_right (Nat.cast_lt.mpr (strictMono_steps hbetween)) stepsInOne_pos
  exact absurd hle (not_le.mpr (abs_sub_lt_of_between hlow hhigh heq))

theorem value_eq (hx : x.IsNearest q) (hy : y.isNaN = false) (hq : y.value = q) : x.value = q := by
  have hle := hx.le y hy
  rw [hq, sub_self, abs_zero] at hle
  exact sub_eq_zero.mp (abs_nonpos_iff.mp hle)

/-- Rounding does not pass a finite number that the rational does not pass. -/
theorem isFinite (hx : x.IsNearest q) (hy : y.isFinite = true) (hq : |q| ≤ |y.value|) : x.isFinite = true := by
  have hlt : y.magnitude < infiniteMagnitude := of_decide_eq_true hy
  by_contra hinfinite
  have hxle := magnitude_le_of_not_isNaN hx.isNaN_eq
  have hmagnitude : x.magnitude = infiniteMagnitude :=
    Nat.le_antisymm hxle (Nat.le_of_not_lt fun h => hinfinite (decide_eq_true h))
  have hgreater : |y.value| < |x.value| := by
    rw [abs_value, abs_value, hmagnitude]
    exact div_lt_div_of_pos_right (Nat.cast_lt.mpr (strictMono_steps hlt)) stepsInOne_pos
  -- The finite number with the sign of the rational is nearer.
  obtain ⟨negative, hsign⟩ : ∃ negative, unit negative * |q| = q := by
    rcases abs_choice q with habs | habs
    · exact ⟨false, by simp [unit, habs]⟩
    · exact ⟨true, by simp [unit, habs]⟩
  have hle := hx.le (ofMagnitude negative y.magnitude) (isNaN_ofMagnitude hlt.le)
  have hsigned := hlt.trans infiniteMagnitude_lt
  have hdistance : |(ofMagnitude negative y.magnitude).value - q| = |y.value| - |q| := by
    rw [Binary64.value_eq, isNegative_ofMagnitude hsigned, magnitude_ofMagnitude hsigned, ← abs_value]
    nth_rewrite 1 [← hsign]
    rw [abs_unit_mul_sub, abs_of_nonneg (sub_nonneg.mpr hq)]
  rw [hdistance] at hle
  have htriangle := abs_sub_abs_le_abs_sub x.value q
  linarith

end IsNearest

theorem IsRounded.eq (hx : x.IsRounded negative q) (hy : y.IsRounded negative q) : x = y := by
  have hnegative := hx.isNegative_eq.trans hy.isNegative_eq.symm
  refine eq_of_magnitude_eq hnegative (Nat.le_antisymm ?_ ?_)
  · exact Nat.le_of_not_lt (hy.isNearest.magnitude_not_lt hx.isNearest hnegative.symm)
  · exact Nat.le_of_not_lt (hx.isNearest.magnitude_not_lt hy.isNearest hnegative)

theorem exists_value_eq_unit_mul (negative : Bool) (hy : y.isFinite = true) :
    ∃ z : Binary64, z.isFinite = true ∧ z.value = unit negative * |y.value| := by
  have hlt : y.magnitude < infiniteMagnitude := of_decide_eq_true hy
  have hsigned := hlt.trans infiniteMagnitude_lt
  refine ⟨ofMagnitude negative y.magnitude, isFinite_ofMagnitude hlt, ?_⟩
  rw [value_eq, isNegative_ofMagnitude hsigned, magnitude_ofMagnitude hsigned, abs_value]

theorem exists_value_eq {n : Nat} (hn : n ≤ 2 * significandCount) :
    ∃ y : Binary64, y.isFinite = true ∧ y.value = n := by
  rcases Nat.eq_zero_or_pos n with rfl | hpos
  · exact ⟨zero, rfl, by simp [value_eq, zero, magnitude, steps]⟩
  -- The significand is shifted up until it has all 53 bits.
  have hlow := Nat.log2_self_le hpos.ne'
  have hhigh : n < 2 ^ (n.log2 + 1) := Nat.lt_log2_self
  obtain ⟨shift, hshift, hfull, hle⟩ : ∃ shift ≤ 52, significandCount ≤ n * 2 ^ shift ∧
      n * 2 ^ shift ≤ 2 * significandCount := by
    by_cases hbits : n.log2 ≤ 52
    · have hcount : significandCount = 2 ^ n.log2 * 2 ^ (52 - n.log2) := by
        rw [← Nat.pow_add, Nat.add_sub_cancel' hbits]
        rfl
      refine ⟨52 - n.log2, Nat.sub_le _ _, ?_, ?_⟩
      · rw [hcount]
        exact Nat.mul_le_mul_right _ hlow
      · rw [hcount, ← Nat.mul_assoc, ← Nat.pow_succ']
        exact Nat.mul_le_mul_right _ hhigh.le
    · have hgreat : 2 ^ 53 ≤ n := (Nat.pow_le_pow_right two_pos (by omega)).trans hlow
      refine ⟨0, Nat.zero_le _, ?_, ?_⟩ <;> simp only [significandCount] at * <;> omega
  have hrange : (leastPlace - shift) * significandCount + n * 2 ^ shift < infiniteMagnitude := by
    have hfew := Nat.mul_le_mul_right significandCount (Nat.sub_le leastPlace shift)
    simp only [significandCount, infiniteMagnitude, leastPlace] at *
    omega
  refine ⟨ofMagnitude false ((leastPlace - shift) * significandCount + n * 2 ^ shift), isFinite_ofMagnitude hrange, ?_⟩
  have hsigned := hrange.trans infiniteMagnitude_lt
  have hplaces : shift + (leastPlace - shift) = leastPlace := Nat.add_sub_cancel' (hshift.trans (by decide))
  rw [value_eq, isNegative_ofMagnitude hsigned, magnitude_ofMagnitude hsigned, steps_add hle (Or.inr hfull),
    Nat.mul_assoc, ← Nat.pow_add, hplaces, unit, if_neg Bool.false_ne_true, one_mul, stepsInOne, Nat.cast_mul,
    Nat.cast_pow, Nat.cast_ofNat, mul_div_cancel_right₀ _ (pow_ne_zero _ two_ne_zero)]

theorem value_ofNat {n : Nat} (hn : n ≤ 2 * significandCount) : (ofNat n).value = n := by
  obtain ⟨y, hy, hvalue⟩ := exists_value_eq hn
  exact (isRounded_ofNat n).isNearest.value_eq (isNaN_of_isFinite hy) hvalue

end Binary64

end PageLoads
