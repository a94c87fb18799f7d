import PageLoads.Proofs.Number.Places
import PageLoads.Proofs.Summary.LoadSummary

namespace PageLoads

namespace LoadSummary

open Binary64 (unit)

variable {scale x y : Binary64} {milliseconds : UInt64}

/-- What a time comes to as a sample. Scales that are not finite are not excluded. -/
inductive IsSample (scale : Binary64) (milliseconds : UInt64) : Binary64 → Prop where
  | rounded {time product sample : Binary64} {tenths : Nat} (hscale : scale.isFinite = true)
    (htime : time.IsRounded false milliseconds.toNat)
    (hproduct : product.IsRounded scale.isNegative (time.value * scale.value)) (hfinite : product.isFinite = true)
    (htenths : IsNearestWhole tenths (|product.value| * 10))
    (hsample : sample.IsRounded scale.isNegative (unit scale.isNegative * (tenths / 10))) :
    IsSample scale milliseconds sample
  | outOfRange {time product : Binary64} (hscale : scale.isFinite = true)
    (htime : time.IsRounded false milliseconds.toNat)
    (hproduct : product.IsRounded scale.isNegative (time.value * scale.value))
    (hinfinite : product.isFinite = false) : IsSample scale milliseconds (.infinite scale.isNegative)
  | infinite (hscale : scale.isFinite = false) (hnumber : scale.isNaN = false) (hpositive : milliseconds ≠ 0) :
    IsSample scale milliseconds (.infinite scale.isNegative)
  | nan (h : scale.isNaN = true ∨ scale.isFinite = false ∧ milliseconds = 0) : IsSample scale milliseconds .nan

theorem sample_eq_toPlaces (scale : Binary64) (milliseconds : UInt64) :
    sample scale milliseconds = (Binary64.ofNat milliseconds.toNat * scale).toPlaces 1 := by
  rw [sample, toTenths, Binary64.binary64?_fixed Nat.one_pos, Option.getD_some]

theorem isFinite_ofNat_toNat (milliseconds : UInt64) : (Binary64.ofNat milliseconds.toNat).isFinite = true := by
  -- The sixty-fourth power of two is finite.
  have hnum : Binary64.num ⟨0x43F0000000000000⟩ = UInt64.size := by decide +kernel
  have hden : Binary64.den ⟨0x43F0000000000000⟩ = 1 := by decide +kernel
  refine (Binary64.isRounded_ofNat milliseconds.toNat).isNearest.isFinite (y := ⟨0x43F0000000000000⟩) (by decide) ?_
  rw [Nat.abs_cast, Binary64.abs_value_eq_num_div_den, hnum, hden, Nat.cast_one, div_one]
  exact Nat.cast_le.mpr milliseconds.toNat_lt.le

theorem magnitude_ofNat_ne_zero {n : Nat} (h : n ≠ 0) : (Binary64.ofNat n).magnitude ≠ 0 := by
  intro hzero
  -- One is nearer than zero.
  obtain ⟨one, hone, hvalue⟩ := Binary64.exists_value_eq (n := 1) (by decide)
  have hle := (Binary64.isRounded_ofNat n).isNearest.le one (Binary64.isNaN_of_isFinite hone)
  have hn : (1 : ℚ) ≤ n := by exact_mod_cast Nat.one_le_iff_ne_zero.mpr h
  have hsteps : Binary64.steps 0 = 0 := rfl
  rw [Binary64.value_eq, hzero, hsteps, Nat.cast_zero, zero_div, mul_zero, hvalue, Nat.cast_one, zero_sub, abs_neg,
    Nat.abs_cast, abs_sub_comm, abs_of_nonneg (sub_nonneg.mpr hn)] at hle
  linarith

theorem mul_of_infinite (hx : x.isFinite = true) (hy : y.isFinite = false) (hnumber : y.isNaN = false) :
    x * y = if x.magnitude = 0 then .nan else .infinite (x.isNegative != y.isNegative) := by
  have hne : y.magnitude ≠ 0 := by
    rintro hzero
    rw [Binary64.isFinite, hzero] at hy
    cases hy
  show Binary64.mul x y = _
  simp [Binary64.mul, Binary64.isNaN_of_isFinite hx, hnumber, hy, hne]

theorem isSample_of_not_isFinite (hscale : scale.isFinite = false) (milliseconds : UInt64) :
    IsSample scale milliseconds (sample scale milliseconds) := by
  have hplacesNaN : Binary64.nan.toPlaces 1 = .nan := by decide +kernel
  rw [sample_eq_toPlaces]
  cases hnumber : scale.isNaN with
  | true =>
    have hproduct : Binary64.ofNat milliseconds.toNat * scale = .nan := by
      show Binary64.mul _ scale = _
      simp [Binary64.mul, hnumber]
    rw [hproduct, hplacesNaN]
    exact .nan (Or.inl hnumber)
  | false =>
    rw [mul_of_infinite (isFinite_ofNat_toNat milliseconds) hscale hnumber,
      (Binary64.isRounded_ofNat milliseconds.toNat).isNegative_eq, Bool.false_bne]
    by_cases hzero : milliseconds = 0
    · subst hzero
      have hmagnitude : (Binary64.ofNat (0 : UInt64).toNat).magnitude = 0 := by decide
      rw [if_pos hmagnitude, hplacesNaN]
      exact .nan (Or.inr ⟨hscale, rfl⟩)
    · have hne : milliseconds.toNat ≠ 0 := fun h => hzero (UInt64.toNat_inj.mp h)
      have hplaces (negative : Bool) : (Binary64.infinite negative).toPlaces 1 = .infinite negative := by
        cases negative <;> decide +kernel
      rw [if_neg (magnitude_ofNat_ne_zero hne), hplaces]
      exact .infinite hscale hnumber hzero

theorem isSample_of_isFinite (hscale : scale.isFinite = true) (milliseconds : UInt64) :
    IsSample scale milliseconds (sample scale milliseconds) := by
  have htime := Binary64.isRounded_ofNat milliseconds.toNat
  have hproduct := Binary64.isRounded_mul (isFinite_ofNat_toNat milliseconds) hscale
  rw [htime.isNegative_eq, Bool.false_bne] at hproduct
  rw [sample_eq_toPlaces]
  cases hrange : (Binary64.ofNat milliseconds.toNat * scale).isFinite with
  | false =>
    have hplaces : (Binary64.ofNat milliseconds.toNat * scale).toPlaces 1 = .infinite scale.isNegative := by
      rw [Binary64.toPlaces, hrange, hproduct.isNearest.isNaN_eq, hproduct.isNegative_eq]
      rfl
    rw [hplaces]
    exact .outOfRange hscale htime hproduct hrange
  | true =>
    have hone : 1 ≤ 400 := by decide
    obtain ⟨tenths, htenths, hsample⟩ := Binary64.isRounded_toPlaces hone hrange
    rw [hproduct.isNegative_eq, pow_one] at hsample
    rw [pow_one] at htenths
    exact .rounded hscale htime hproduct hrange htenths hsample

theorem isSample_sample (scale : Binary64) (milliseconds : UInt64) :
    IsSample scale milliseconds (sample scale milliseconds) := by
  cases hscale : scale.isFinite with
  | false => exact isSample_of_not_isFinite hscale milliseconds
  | true => exact isSample_of_isFinite hscale milliseconds

theorem not_undetermined_of_isFinite (hscale : scale.isFinite = true) :
    ¬ (scale.isNaN = true ∨ scale.isFinite = false ∧ milliseconds = 0) := by
  rintro (hnan | ⟨hinfinite, _⟩)
  · exact absurd ((Binary64.isNaN_of_isFinite hscale).symm.trans hnan) Bool.false_ne_true
  · exact absurd (hinfinite.symm.trans hscale) Bool.false_ne_true

theorem not_undetermined_of_infinite (hnumber : scale.isNaN = false) (hpositive : milliseconds ≠ 0) :
    ¬ (scale.isNaN = true ∨ scale.isFinite = false ∧ milliseconds = 0) := by
  rintro (hnan | ⟨_, hzero⟩)
  · exact absurd (hnumber.symm.trans hnan) Bool.false_ne_true
  · exact absurd hzero hpositive

theorem IsSample.eq (hx : IsSample scale milliseconds x) (hy : IsSample scale milliseconds y) : x = y := by
  cases hx with
  | rounded hscale htime hproduct hfinite htenths hsample =>
    cases hy with
    | rounded _ htime' hproduct' _ htenths' hsample' =>
      rw [← htime.eq htime'] at hproduct'
      rw [← hproduct.eq hproduct'] at htenths'
      rw [← Nat.cast_inj.mp (htenths.eq htenths')] at hsample'
      exact hsample.eq hsample'
    | outOfRange _ htime' hproduct' hinfinite =>
      rw [← htime.eq htime'] at hproduct'
      rw [← hproduct.eq hproduct', hfinite] at hinfinite
      cases hinfinite
    | infinite hscale' => exact absurd (hscale'.symm.trans hscale) Bool.false_ne_true
    | nan h => exact absurd h (not_undetermined_of_isFinite hscale)
  | outOfRange hscale htime hproduct hinfinite =>
    cases hy with
    | rounded _ htime' hproduct' hfinite =>
      rw [← htime.eq htime'] at hproduct'
      rw [hproduct.eq hproduct', hfinite] at hinfinite
      cases hinfinite
    | outOfRange => rfl
    | infinite => rfl
    | nan h => exact absurd h (not_undetermined_of_isFinite hscale)
  | infinite hscale hnumber hpositive =>
    cases hy with
    | rounded hscale' => exact absurd (hscale.symm.trans hscale') Bool.false_ne_true
    | outOfRange => rfl
    | infinite => rfl
    | nan h => exact absurd h (not_undetermined_of_infinite hnumber hpositive)
  | nan h =>
    cases hy with
    | rounded hscale => exact absurd h (not_undetermined_of_isFinite hscale)
    | outOfRange hscale => exact absurd h (not_undetermined_of_isFinite hscale)
    | infinite _ hnumber hpositive => exact absurd h (not_undetermined_of_infinite hnumber hpositive)
    | nan => rfl

end LoadSummary

namespace Metric

variable {drawing : Drawing} {metric : Metric} {loads : List PageLoad} {samples others : List Binary64}

/-- One sample of each load that succeeded, in their order. -/
def AreSamples (drawing : Drawing) (metric : Metric) (loads : List PageLoad) (samples : List Binary64) : Prop :=
  List.Forall₂ (fun load => LoadSummary.IsSample (metric.scale drawing) (metric.milliseconds load))
    (loads.filter PageLoad.succeeded) samples

theorem areSamples_samplesOf (drawing : Drawing) (metric : Metric) (loads : List PageLoad) :
    metric.AreSamples drawing loads (metric.samplesOf drawing loads) :=
  List.forall₂_map_right_iff.mpr (List.forall₂_same.mpr fun _ _ => LoadSummary.isSample_sample _ _)

theorem AreSamples.eq (h : metric.AreSamples drawing loads samples) (hothers : metric.AreSamples drawing loads others) :
    samples = others := by
  have hunique : Relator.RightUnique fun load =>
      LoadSummary.IsSample (metric.scale drawing) (metric.milliseconds load) := fun _ _ _ => LoadSummary.IsSample.eq
  exact List.right_unique_forall₂' hunique h hothers

end Metric

end PageLoads
