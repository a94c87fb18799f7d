import PageLoads.Proofs.Distribution.Cumulate
import PageLoads.Proofs.Number.Arithmetic
import PageLoads.Proofs.Number.TotalOrder

namespace PageLoads

instance : OrderedSample Binary64 where
  le_trans := Binary64.totalLe_trans
  le_total := Binary64.totalLe_total
  le_antisymm := Binary64.totalLe_antisymm

namespace Distribution

section

variable {α : Type} [Sample α]

/-- Of two samples that are numbers the lesser is one, with a key that is not above theirs. -/
def ChoosesLesser {β : Type} [Preorder β] (key : α → β) (IsNumber : α → Prop) : Prop :=
  ∀ v w, IsNumber v → IsNumber w → (Sample.lesser v w = v ∨ Sample.lesser v w = w) ∧
    key (Sample.lesser v w) ≤ key v ∧ key (Sample.lesser v w) ≤ key w

theorem ChoosesLesser.foldl {β : Type} [Preorder β] {key : α → β} {IsNumber : α → Prop}
    (h : ChoosesLesser key IsNumber) {v : α} {vs : List α} (hv : IsNumber v) (hvs : ∀ w ∈ vs, IsNumber w) :
    vs.foldl Sample.lesser v ∈ v :: vs ∧ ∀ w ∈ v :: vs, key (vs.foldl Sample.lesser v) ≤ key w := by
  induction vs generalizing v with
  | nil => simp
  | cons w vs ih =>
    obtain ⟨hw, hvs⟩ := List.forall_mem_cons.mp hvs
    obtain ⟨hchosen, hlev, hlew⟩ := h v w hv hw
    have hnumber : IsNumber (Sample.lesser v w) := by
      rcases hchosen with h | h <;> rw [h] <;> assumption
    obtain ⟨hmem, hle⟩ := ih hnumber hvs
    obtain ⟨hself, hle⟩ := List.forall_mem_cons.mp hle
    constructor
    · rcases List.mem_cons.mp hmem with h | h
      · rw [List.foldl_cons, h]
        rcases hchosen with h | h <;> simp [h]
      · exact List.mem_cons_of_mem _ (List.mem_cons_of_mem _ h)
    · exact List.forall_mem_cons.mpr ⟨hself.trans hlev, List.forall_mem_cons.mpr ⟨hself.trans hlew, hle⟩⟩

theorem ChoosesLesser.exists_smallest?_eq {β : Type} [Preorder β] {key : α → β} {IsNumber : α → Prop}
    (h : ChoosesLesser key IsNumber) {samples : List α} (hnumbers : ∀ v ∈ samples, IsNumber v)
    (hne : samples ≠ []) :
    ∃ smallest ∈ samples, smallest? samples = some smallest ∧ ∀ v ∈ samples, key smallest ≤ key v := by
  cases samples with
  | nil => exact absurd rfl hne
  | cons v vs =>
    obtain ⟨hv, hvs⟩ := List.forall_mem_cons.mp hnumbers
    obtain ⟨hmem, hle⟩ := h.foldl hv hvs
    exact ⟨vs.foldl Sample.lesser v, hmem, rfl, hle⟩

theorem rows_of_perm [DecidableEq α] [OrderedSample α] {bucket smallest : α} {samples : List α}
    {counts : List (α × Nat)} (hbucketed : Sample.unbucketed bucket = false)
    (hsmallest : smallest? samples = some smallest) (hperm : counts.Perm (buckets bucket samples)) :
    rows bucket samples = cumulate counts ∧
      Cumulates Sample.le (samples.map (bucketOf bucket smallest)) (cumulate counts) := by
  have hbuckets : buckets bucket samples = tally (samples.map (bucketOf bucket smallest)) := by
    simp only [buckets, hsmallest]
  have htallies := tallies_tally (samples.map (bucketOf bucket smallest))
  rw [hbuckets] at hperm
  constructor
  · rw [rows, hbucketed, hbuckets, cumulate_of_perm htallies hperm]
    rfl
  · exact (htallies.of_perm hperm).cumulates

end

variable {bucket smallest v : Binary64} {samples : List Binary64}

theorem exists_smallest (hnumbers : ∀ v ∈ samples, v.isNaN = false) (hne : samples ≠ []) :
    ∃ smallest ∈ samples, smallest? samples = some smallest ∧ ∀ v ∈ samples, smallest.le v = true := by
  have hlesser : ChoosesLesser Binary64.key fun v => v.isNaN = false := by
    intro v w hv hw
    simp only [Sample.lesser, Binary64.minimum, hv, hw, Bool.false_eq_true, if_false]
    split
    · exact ⟨Or.inr rfl, by omega, le_refl _⟩
    · exact ⟨Or.inl rfl, le_refl _, by omega⟩
  obtain ⟨smallest, hmem, hsmallest, hle⟩ := hlesser.exists_smallest?_eq hnumbers hne
  refine ⟨smallest, hmem, hsmallest, fun v hv => ?_⟩
  simp [Binary64.le, hnumbers smallest hmem, hnumbers v hv, hle v hv]

theorem settle_eq_zero (h : (Sample.settle v).magnitude = 0) : Sample.settle v = Binary64.zero := by
  by_cases hzero : v.magnitude = 0
  · exact if_pos hzero
  · rw [show Sample.settle v = v from if_neg hzero] at h
    exact absurd h hzero

theorem isNaN_settle (h : v.isNaN = false) : (Sample.settle v).isNaN = false := by
  by_cases hzero : v.magnitude = 0
  · rw [show Sample.settle v = Binary64.zero from if_pos hzero]
    decide
  · rwa [show Sample.settle v = v from if_neg hzero]

theorem isNaN_bucketOf (hfinite : bucket.isFinite = true) (hne : bucket.magnitude ≠ 0)
    (hsmallest : smallest.isNaN = false) (hv : v.isNaN = false) :
    (bucketOf bucket smallest v).isNaN = false := by
  refine isNaN_settle ?_
  split
  · exact hsmallest
  · exact Binary64.isNaN_mul (Binary64.isNaN_ceil (Binary64.isNaN_div hv hfinite hne)) hfinite hne

/-- Points with the values of rows, and with the doubles nearest to the fractions that their counts are of all
samples. -/
def AreFractions (total : Nat) (rows : List (Binary64 × Nat)) (points : List Point) : Prop :=
  List.Forall₂ (fun row point => point.1 = row.1 ∧ point.2.IsRounded false (row.2 / total)) rows points

theorem areFractions_points {total : Nat} (htotal : 0 < total) (rows : List (Binary64 × Nat)) :
    AreFractions total rows (points total rows) :=
  List.forall₂_map_right_iff.mpr (List.forall₂_same.mpr fun row _ => ⟨rfl, Binary64.isRounded_fraction row.2 htotal⟩)

/-- With buckets of a finite size above zero the table of numbers has one point for each bucket that occurs,
in strictly ascending order, whatever order the counted buckets are handed over in. Its fraction is the double
nearest to that of the samples whose bucket is not above the point, among all samples; their numbers increase
strictly up to the number of all. -/
theorem table_cumulates_in_any_order (hnumbers : ∀ v ∈ samples, v.isNaN = false) (hne : samples ≠ [])
    (hfinite : bucket.isFinite = true) (hpositive : Binary64.zero.lt bucket = true) :
    ∃ smallest ∈ samples, smallest? samples = some smallest ∧ (∀ v ∈ samples, smallest.le v = true) ∧
      ∀ counts, counts.Perm (buckets bucket samples) →
        AreFractions samples.length (cumulate counts) (table bucket samples) ∧
        Cumulates Binary64.totalLe (samples.map (bucketOf bucket smallest)) (cumulate counts) ∧
        (∀ row ∈ cumulate counts, row.2 = samples.countP fun v => (bucketOf bucket smallest v).le row.1) ∧
        ((cumulate counts).map Prod.snd).getLast? = some samples.length := by
  have hlt : Binary64.zero.key < bucket.key := by
    simp only [Binary64.lt, Bool.and_eq_true, decide_eq_true_eq] at hpositive
    exact hpositive.2
  have hmagnitude : bucket.magnitude ≠ 0 := by
    intro hzero
    have hkey : bucket.key = Binary64.zero.key := by
      rw [Binary64.key, hzero]
      split <;> rfl
    exact hlt.ne' hkey
  have hbucketed : Sample.unbucketed bucket = false := by
    simp [Sample.unbucketed, Binary64.le, Int.not_le_of_gt hlt]
  obtain ⟨smallest, hmem, hsmallest, hle⟩ := exists_smallest hnumbers hne
  have hnan (v : Binary64) (hv : v ∈ samples) : (bucketOf bucket smallest v).isNaN = false :=
    isNaN_bucketOf hfinite hmagnitude (hnumbers smallest hmem) (hnumbers v hv)
  refine ⟨smallest, hmem, hsmallest, hle, fun counts hperm => ?_⟩
  obtain ⟨hrows, hcumulates⟩ := rows_of_perm hbucketed hsmallest hperm
  refine ⟨?_, hcumulates, fun row hrow => ?_, ?_⟩
  · rw [table, hrows]
    exact areFractions_points (List.length_pos_iff.mpr hne) _
  · have hvalue := (hcumulates.mem_iff row.1).mp (List.mem_map_of_mem hrow)
    obtain ⟨w, hw, hw'⟩ := List.mem_map.mp hvalue
    rw [hcumulates.count row hrow, List.countP_map]
    refine List.countP_congr fun v hv => ?_
    rw [← hw', Binary64.le_eq_totalLe (hnan v hv) (hnan w hw) settle_eq_zero settle_eq_zero]
    rfl
  · rw [hcumulates.last (by simpa using hne), List.length_map]

/-- Samples 2, 2, 3 and 9.5 in buckets of 5, counted in the order 10, 2, 5: half of the samples are not above 2,
three quarters not above 5, and all not above 10. -/
theorem table_cumulates_in_any_order_ofFourSamples :
    let two : Binary64 := ⟨0x4000000000000000⟩
    let five : Binary64 := ⟨0x4014000000000000⟩
    let ten : Binary64 := ⟨0x4024000000000000⟩
    let samples : List Binary64 := [two, two, ⟨0x4008000000000000⟩, ⟨0x4023000000000000⟩]
    (∀ v ∈ samples, v.isNaN = false) ∧ samples ≠ [] ∧ five.isFinite = true ∧ Binary64.zero.lt five = true ∧
      [(ten, 1), (two, 2), (five, 1)].Perm (buckets five samples) ∧
      cumulate [(ten, 1), (two, 2), (five, 1)] = [(two, 2), (five, 3), (ten, 4)] ∧
      table five samples =
        [(two, ⟨0x3FE0000000000000⟩), (five, ⟨0x3FE8000000000000⟩), (ten, ⟨0x3FF0000000000000⟩)] := by
  intro two five ten samples
  have hnumbers : ∀ v ∈ samples, v.isNaN = false := by decide
  have hne : samples ≠ [] := by decide
  have hfinite : five.isFinite = true := by decide
  have hpositive : Binary64.zero.lt five = true := by decide
  have hbuckets : buckets five samples = tally [two, two, five, ten] := by decide +kernel
  have htally : tally [two, two, five, ten] = [(two, 2), (five, 1), (ten, 1)] := by decide
  have hperm : [(ten, 1), (two, 2), (five, 1)].Perm (tally [two, two, five, ten]) := by
    rw [htally]
    decide
  have hcumulate : cumulate [(ten, 1), (two, 2), (five, 1)] = [(two, 2), (five, 3), (ten, 4)] := by
    rw [cumulate_of_perm (tallies_tally _) hperm, htally, cumulate, List.mergeSort_of_pairwise (by decide)]
    rfl
  obtain ⟨_, _, _, _, hany⟩ := table_cumulates_in_any_order hnumbers hne hfinite hpositive
  obtain ⟨hfractions, _⟩ := hany _ (hbuckets ▸ hperm)
  refine ⟨hnumbers, hne, hfinite, hpositive, hbuckets ▸ hperm, hcumulate, ?_⟩
  rw [hcumulate] at hfractions
  have hpoint {row : Binary64 × Nat} {point : Point}
      (h : point.1 = row.1 ∧ point.2.IsRounded false (row.2 / samples.length)) :
      point = (row.1, Binary64.fraction row.2 4) :=
    Prod.ext h.1 (h.2.eq (Binary64.isRounded_fraction row.2 (List.length_pos_iff.mpr hne)))
  have hhalf : Binary64.fraction 2 4 = ⟨0x3FE0000000000000⟩ := by decide +kernel
  have hquarters : Binary64.fraction 3 4 = ⟨0x3FE8000000000000⟩ := by decide +kernel
  have hall : Binary64.fraction 4 4 = ⟨0x3FF0000000000000⟩ := by decide +kernel
  generalize table five samples = points at hfractions ⊢
  unfold AreFractions at hfractions
  cases hfractions with
  | cons htwo hrest =>
    cases hrest with
    | cons hfive hrest =>
      cases hrest with
      | cons hten hrest =>
        cases hrest
        rw [hpoint htwo, hpoint hfive, hpoint hten]
        simp only [hhalf, hquarters, hall]

end Distribution

end PageLoads
