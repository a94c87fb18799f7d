import Mathlib
import PageLoads.Proofs.Distribution.Buckets

/-!
# Tables of exact numbers

Drawn of rational numbers, where nothing is rounded, a table tells the truth: the fraction at a point is that
of the samples which are not above it. Rounding up to a bucket moves no sample across a point, and the bucket
of the smallest sample lies below all multiples of the bucket size that occur. Without buckets a value that
occurs more than once has more than one point, and the last of them tells the truth.
-/

namespace PageLoads

instance : Sample ℚ where
  lesser := min
  same v w := decide (v = w)
  roundUp bucket v := ⌈v / bucket⌉ * bucket
  settle v := v
  le v w := decide (v ≤ w)
  unbucketed bucket := decide (bucket ≤ 0)
  fraction part whole := part / whole

instance : OrderedSample ℚ where
  le_trans hxy hyz := decide_eq_true ((of_decide_eq_true hxy).trans (of_decide_eq_true hyz))
  le_total x y := by simpa [Sample.le] using le_total x y
  le_antisymm hxy hyx := le_antisymm (of_decide_eq_true hxy) (of_decide_eq_true hyx)

namespace Distribution

/-- Points that give the distribution of samples: the first is the smallest sample with the fraction of those
equal to it, the values ascend strictly, and each fraction is that of the samples up to its value. -/
structure IsDistribution (samples : List ℚ) (points : List (ℚ × ℚ)) : Prop where
  first : ∃ smallest ∈ samples, (∀ v ∈ samples, smallest ≤ v) ∧
    points.head? = some (smallest, (samples.count smallest : ℚ) / samples.length)
  ascending : points.Pairwise fun p q => p.1 < q.1
  fraction : ∀ p ∈ points, p.2 = (samples.countP (fun v => v ≤ p.1) : ℚ) / samples.length

/-- The last of each group of neighbours with equal values. -/
def groupEnds {β : Type} : List (ℚ × β) → List (ℚ × β)
  | [] => []
  | [p] => [p]
  | p :: q :: rest => if p.1 = q.1 then groupEnds (q :: rest) else p :: groupEnds (q :: rest)

variable {bucket smallest : ℚ} {samples : List ℚ}

theorem exists_least (hne : samples ≠ []) :
    ∃ smallest ∈ samples, smallest? samples = some smallest ∧ ∀ v ∈ samples, smallest ≤ v := by
  have hlesser : ChoosesLesser (id : ℚ → ℚ) fun _ => True := fun v w _ _ =>
    ⟨min_choice v w, min_le_left v w, min_le_right v w⟩
  exact hlesser.exists_smallest?_eq (fun _ _ => trivial) hne

theorem IsDistribution.of_least {points : List (ℚ × ℚ)} (hmem : smallest ∈ samples)
    (hle : ∀ v ∈ samples, smallest ≤ v) (hpoint : smallest ∈ points.map Prod.fst)
    (hpoints : ∀ p ∈ points, smallest ≤ p.1) (hascending : points.Pairwise fun p q => p.1 < q.1)
    (hfraction : ∀ p ∈ points, p.2 = (samples.countP (fun v => v ≤ p.1) : ℚ) / samples.length) :
    IsDistribution samples points := by
  refine ⟨⟨smallest, hmem, hle, ?_⟩, hascending, hfraction⟩
  cases points with
  | nil => cases hpoint
  | cons p rest =>
    have hfirst : p.1 = smallest := by
      rcases List.mem_cons.mp hpoint with h | h
      · exact h.symm
      · obtain ⟨q, hq, rfl⟩ := List.mem_map.mp h
        exact absurd ((List.pairwise_cons.mp hascending).1 q hq) (not_lt.mpr (hpoints p List.mem_cons_self))
    have hcount : samples.countP (fun v => v ≤ smallest) = samples.count smallest := by
      refine List.countP_congr fun v hv => ?_
      simpa using ⟨fun h => le_antisymm h (hle v hv), fun h => h.le⟩
    have hvalue := hfraction p List.mem_cons_self
    rw [hfirst, hcount] at hvalue
    rw [List.head?_cons, ← hvalue, ← hfirst]

theorem bucketOf_eq (bucket smallest v : ℚ) :
    bucketOf bucket smallest v = if v = smallest then smallest else ⌈v / bucket⌉ * bucket := by
  simp only [bucketOf, Sample.settle, Sample.same, Sample.roundUp, decide_eq_true_eq]

theorem le_bucketOf (hbucket : 0 < bucket) (v : ℚ) : v ≤ bucketOf bucket smallest v := by
  rw [bucketOf_eq]
  split_ifs with h
  · exact h.le
  · exact (div_le_iff₀ hbucket).mp (Int.le_ceil _)

theorem bucketOf_le_bucketOf_iff (hbucket : 0 < bucket) {v w : ℚ} (hv : smallest ≤ v) :
    bucketOf bucket smallest v ≤ bucketOf bucket smallest w ↔ v ≤ bucketOf bucket smallest w := by
  constructor
  · exact (le_bucketOf hbucket v).trans
  · intro hle
    rw [bucketOf_eq] at hle
    rw [bucketOf_eq, bucketOf_eq]
    split_ifs at hle ⊢ with hsmallest hw hw
    · exact le_refl _
    · exact hsmallest ▸ hle
    · exact absurd (le_antisymm hle hv) hsmallest
    · have hceil : ⌈v / bucket⌉ ≤ ⌈w / bucket⌉ := Int.ceil_le.mpr ((div_le_iff₀ hbucket).mpr hle)
      exact mul_le_mul_of_nonneg_right (by exact_mod_cast hceil) hbucket.le

theorem exists_bucketOf_of_mem_points {rows : List (ℚ × Nat)} {total : Nat}
    (h : Cumulates Sample.le (samples.map (bucketOf bucket smallest)) rows) {p : ℚ × ℚ}
    (hp : p ∈ points total rows) : ∃ w ∈ samples, bucketOf bucket smallest w = p.1 := by
  obtain ⟨row, hrow, rfl⟩ := List.mem_map.mp hp
  exact List.mem_map.mp ((h.mem_iff row.1).mp (List.mem_map_of_mem hrow))

/-- Rows that are true of the buckets give points that are true of the samples. -/
theorem Cumulates.isDistribution (hbucket : 0 < bucket) (hmem : smallest ∈ samples)
    (hle : ∀ v ∈ samples, smallest ≤ v) {rows : List (ℚ × Nat)}
    (h : Cumulates Sample.le (samples.map (bucketOf bucket smallest)) rows) :
    IsDistribution samples (points samples.length rows) := by
  have hvalues : (points samples.length rows).map Prod.fst = rows.map Prod.fst := by simp [points]
  refine .of_least hmem hle ?_ ?_ ?_ ?_
  · rw [hvalues, h.mem_iff]
    exact List.mem_map.mpr ⟨smallest, hmem, by rw [bucketOf_eq, if_pos rfl]⟩
  · intro p hp
    obtain ⟨w, hw, hp⟩ := exists_bucketOf_of_mem_points h hp
    exact hp ▸ (hle w hw).trans (le_bucketOf hbucket w)
  · exact List.pairwise_map.mpr (h.ascending.imp fun h => lt_of_le_of_ne (of_decide_eq_true h.1) h.2)
  · intro p hp
    obtain ⟨w, _, hw⟩ := exists_bucketOf_of_mem_points h hp
    obtain ⟨row, hrow, rfl⟩ := List.mem_map.mp hp
    have hcount : row.2 = samples.countP fun v => v ≤ row.1 := by
      rw [h.count row hrow, List.countP_map]
      refine List.countP_congr fun v hv => ?_
      have hiff := bucketOf_le_bucketOf_iff hbucket (w := w) (hle v hv)
      rw [hw] at hiff
      simpa [Sample.le] using hiff
    show (row.2 : ℚ) / samples.length = _
    rw [hcount]

/-- The first point is the smallest sample, so no later one is. -/
theorem IsDistribution.exists_multiple {points : List (ℚ × ℚ)} (h : IsDistribution samples points)
    (hle : ∀ v ∈ samples, smallest ≤ v)
    (hbuckets : ∀ p ∈ points, ∃ w ∈ samples, bucketOf bucket smallest w = p.1) {p : ℚ × ℚ}
    (hp : p ∈ points.tail) : ∃ multiple : ℤ, p.1 = multiple * bucket := by
  obtain ⟨least, hleast, _, hfirst⟩ := h.first
  obtain ⟨rest, rfl⟩ := List.head?_eq_some_iff.mp hfirst
  have hlt : least < p.1 := (List.pairwise_cons.mp h.ascending).1 p hp
  obtain ⟨w, _, hbucketOf⟩ := hbuckets p (List.mem_cons_of_mem _ hp)
  rw [bucketOf_eq] at hbucketOf
  split_ifs at hbucketOf with heq
  · exact absurd (hbucketOf ▸ hlt) (not_lt.mpr (hle least hleast))
  · exact ⟨_, hbucketOf.symm⟩

theorem table_of_pos (hbucket : 0 < bucket) (hne : samples ≠ []) :
    IsDistribution samples (table bucket samples) ∧
      ∀ p ∈ (table bucket samples).tail, ∃ multiple : ℤ, p.1 = multiple * bucket := by
  obtain ⟨smallest, hmem, hsmallest, hle⟩ := exists_least hne
  have hbucketed : Sample.unbucketed bucket = false := decide_eq_false (not_le.mpr hbucket)
  obtain ⟨hrows, hcumulates⟩ := rows_of_perm hbucketed hsmallest (List.Perm.refl _)
  have hdistribution := hcumulates.isDistribution hbucket hmem hle
  rw [table, hrows]
  refine ⟨hdistribution, fun p hp => hdistribution.exists_multiple hle ?_ hp⟩
  exact fun q hq => exists_bucketOf_of_mem_points hcumulates hq

theorem groupEnds_map {β γ : Type} (change : β → γ) (rows : List (ℚ × β)) :
    groupEnds (rows.map fun row => (row.1, change row.2)) =
      (groupEnds rows).map fun row => (row.1, change row.2) := by
  induction rows using groupEnds.induct with
  | case1 => rfl
  | case2 row => rfl
  | case3 p q rest h ih => simpa [groupEnds, h] using ih
  | case4 p q rest h ih => simpa [groupEnds, h] using ih

theorem groupEnds_sublist {β : Type} (rows : List (ℚ × β)) : (groupEnds rows).Sublist rows := by
  induction rows using groupEnds.induct with
  | case1 => exact List.Sublist.refl _
  | case2 row => exact List.Sublist.refl _
  | case3 p q rest h ih =>
    rw [groupEnds, if_pos h]
    exact ih.cons p
  | case4 p q rest h ih =>
    rw [groupEnds, if_neg h]
    exact ih.cons_cons p

theorem mem_groupEnds_values {β : Type} {rows : List (ℚ × β)} {x : ℚ} (h : x ∈ rows.map Prod.fst) :
    x ∈ (groupEnds rows).map Prod.fst := by
  induction rows using groupEnds.induct with
  | case1 => exact h
  | case2 row => exact h
  | case3 p q rest heq ih =>
    rw [groupEnds, if_pos heq]
    rcases List.mem_cons.mp h with rfl | h
    · exact ih (by simp [heq])
    · exact ih h
  | case4 p q rest hne ih =>
    rw [groupEnds, if_neg hne]
    rcases List.mem_cons.mp h with rfl | h
    · exact List.mem_cons_self
    · exact List.mem_cons_of_mem _ (ih h)

theorem ascending_groupEnds {β : Type} {rows : List (ℚ × β)} (h : rows.Pairwise fun p q => p.1 ≤ q.1) :
    (groupEnds rows).Pairwise fun p q => p.1 < q.1 := by
  induction rows using groupEnds.induct with
  | case1 => exact List.Pairwise.nil
  | case2 row => exact List.pairwise_singleton _ _
  | case3 p q rest heq ih =>
    rw [groupEnds, if_pos heq]
    exact ih (List.pairwise_cons.mp h).2
  | case4 p q rest hne ih =>
    rw [groupEnds, if_neg hne]
    obtain ⟨hp, hrest⟩ := List.pairwise_cons.mp h
    have hq : ∀ r ∈ q :: rest, q.1 ≤ r.1 := List.forall_mem_cons.mpr ⟨le_refl _, (List.pairwise_cons.mp hrest).1⟩
    refine List.pairwise_cons.mpr ⟨fun r hr => ?_, ih hrest⟩
    exact (lt_of_le_of_ne (hp q List.mem_cons_self) hne).trans_le (hq r ((groupEnds_sublist _).subset hr))

/-- The last sample of a group has as its rank the number of samples up to it. -/
theorem rank_of_mem_groupEnds {before : List ℚ} (hascending : (before ++ samples).Pairwise (· ≤ ·))
    {row : ℚ × ℕ} (h : row ∈ groupEnds (samples.zipIdx (before.length + 1))) :
    row.2 = (before ++ samples).countP fun v => v ≤ row.1 := by
  induction samples generalizing before with
  | nil => cases h
  | cons v rest ih =>
    have hlater : before ++ v :: rest = (before ++ [v]) ++ rest := by simp
    have hlength : before.length + 1 + 1 = (before ++ [v]).length + 1 := by simp
    obtain ⟨_, hrest, hbefore⟩ := List.pairwise_append.mp hascending
    have hall : before.countP (fun w => w ≤ v) = before.length :=
      List.countP_eq_length.mpr fun w hw => decide_eq_true (hbefore w hw v List.mem_cons_self)
    cases rest with
    | nil =>
      obtain rfl := List.mem_singleton.mp h
      simp [hall]
    | cons w rest =>
      rw [List.zipIdx_cons, List.zipIdx_cons, groupEnds, ← List.zipIdx_cons, hlength] at h
      rw [hlater]
      split_ifs at h with heq
      · exact ih (hlater ▸ hascending) h
      · rcases List.mem_cons.mp h with rfl | h
        · -- No sample behind the end of a group belongs to it.
          have hnone : (w :: rest).countP (fun u => u ≤ v) = 0 := by
            refine List.countP_eq_zero.mpr fun u hu => ?_
            obtain ⟨hv, hw⟩ := List.pairwise_cons.mp hrest
            have hwu : w ≤ u := List.forall_mem_cons.mpr ⟨le_refl w, (List.pairwise_cons.mp hw).1⟩ u hu
            simpa using (lt_of_le_of_ne (hv w List.mem_cons_self) heq).trans_le hwu
          rw [List.countP_append, List.countP_append, hall, hnone]
          simp
        · exact ih (hlater ▸ hascending) h

theorem table_of_zero (hne : samples ≠ []) (hascending : samples.Pairwise (· ≤ ·)) :
    (table 0 samples).map Prod.fst = samples ∧ IsDistribution samples (groupEnds (table 0 samples)) := by
  have htable : table 0 samples =
      (samples.zipIdx 1).map fun row => (row.1, (row.2 : ℚ) / samples.length) := rfl
  have hvalues : (samples.zipIdx 1).map Prod.fst = samples := List.zipIdx_map_fst 1 samples
  have hsorted : (samples.zipIdx 1).Pairwise fun p q => p.1 ≤ q.1 := by
    rw [← List.pairwise_map (f := Prod.fst) (R := fun x y : ℚ => x ≤ y), hvalues]
    exact hascending
  have hmemValues {row : ℚ × ℕ} (hrow : row ∈ groupEnds (samples.zipIdx 1)) : row.1 ∈ samples := by
    rw [← hvalues]
    exact List.mem_map_of_mem ((groupEnds_sublist _).subset hrow)
  obtain ⟨smallest, hmem, _, hle⟩ := exists_least hne
  rw [htable, groupEnds_map (fun n : ℕ => (n : ℚ) / samples.length)]
  refine ⟨by rw [List.map_map]; exact hvalues, .of_least hmem hle ?_ ?_ ?_ ?_⟩
  · have hend := mem_groupEnds_values (hvalues.symm ▸ hmem : smallest ∈ (samples.zipIdx 1).map Prod.fst)
    simpa using hend
  · intro p hp
    obtain ⟨row, hrow, rfl⟩ := List.mem_map.mp hp
    exact hle row.1 (hmemValues hrow)
  · exact List.pairwise_map.mpr (ascending_groupEnds hsorted)
  · intro p hp
    obtain ⟨row, hrow, rfl⟩ := List.mem_map.mp hp
    have hrank : row.2 = samples.countP fun v => v ≤ row.1 := @rank_of_mem_groupEnds samples [] hascending row hrow
    show (row.2 : ℚ) / samples.length = _
    rw [hrank]

/-- Tables of ascending exact samples are true at their own points. With buckets every point tells which
fraction of the samples is not above it, the first is the smallest sample, and the later ones are ascending
multiples of the bucket size. Without buckets each sample is a point, and the last points of equal values tell
the truth. -/
theorem table_isDistribution (bucket : ℚ) (hne : samples ≠ []) (hascending : samples.Pairwise (· ≤ ·)) :
    (0 < bucket → IsDistribution samples (table bucket samples) ∧
      ∀ p ∈ (table bucket samples).tail, ∃ multiple : ℤ, p.1 = multiple * bucket) ∧
    (bucket = 0 → (table bucket samples).map Prod.fst = samples ∧
      IsDistribution samples (groupEnds (table bucket samples))) := by
  constructor
  · intro hbucket
    exact table_of_pos hbucket hne
  · rintro rfl
    exact table_of_zero hne hascending

theorem table_isDistribution_ofFourSamples :
    let samples : List ℚ := [-5, 1, 1, 11]
    samples ≠ [] ∧ samples.Pairwise (· ≤ ·) ∧ (0 : ℚ) < 10 ∧
      IsDistribution samples (table 10 samples) ∧ IsDistribution samples (groupEnds (table 0 samples)) := by
  intro samples
  have hne : samples ≠ [] := List.cons_ne_nil _ _
  have hascending : samples.Pairwise (· ≤ ·) := by norm_num [samples]
  have hpositive : (0 : ℚ) < 10 := by norm_num
  exact ⟨hne, hascending, hpositive, ((table_isDistribution 10 hne hascending).1 hpositive).1,
    ((table_isDistribution 0 hne hascending).2 rfl).2⟩

end Distribution

end PageLoads
