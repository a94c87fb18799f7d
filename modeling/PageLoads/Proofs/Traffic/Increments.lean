import Mathlib
import PageLoads.Proofs.Log.ProxyLog
import PageLoads.Proofs.Number.Order
import PageLoads.Proofs.Traffic.Arithmetic
import PageLoads.Proofs.Traffic.Totals

namespace PageLoads.Traffic

open ProxyLog (Grows)

def lateReports (cutoff : Binary64) (reports : List Report) : List Report :=
  reports.filter fun report => cutoff.le report.time

def reading (counter : Counter) (report : Report) : Int :=
  (report.counters.value counter).toNat

/-- What a counter grows by from each report to the next, all taken together. -/
def increments (counter : Counter) (reports : List Report) : Int :=
  ((reports.zip reports.tail).map fun (earlier, later) => reading counter later - reading counter earlier).sum

variable {cutoff cutoff' : Binary64} {reports rest : List Report} {first second : Report} {counter : Counter}
  {growth : Counters}

@[simp] theorem increments_singleton (report : Report) : increments counter [report] = 0 := rfl

@[simp] theorem increments_cons_cons :
    increments counter (first :: second :: rest) =
      reading counter second - reading counter first + increments counter (second :: rest) := by
  simp [increments]

/-- Only the first and the last report count: all others are added once and subtracted once. -/
theorem increments_cons : increments counter (first :: rest) =
    reading counter (rest.getLastD first) - reading counter first := by
  induction rest generalizing first with
  | nil => simp
  | cons second rest ih =>
    rw [increments_cons_cons, ih, List.getLastD_cons]
    omega

theorem pairwise_le_of_grows (hgrows : Grows reports) (hnumbers : ∀ report ∈ reports, report.time.isNaN = false) :
    reports.Pairwise fun earlier later => earlier.time.le later.time = true := by
  have htrans : Trans (fun a b : Report => a.time.le b.time = true) (fun a b : Report => a.time.le b.time = true)
      (fun a b : Report => a.time.le b.time = true) := ⟨Binary64.le_trans⟩
  refine List.IsChain.pairwise (List.IsChain.imp_of_mem_imp ?_ hgrows.isChain_not_lt)
  intro earlier later hearlier hlater hnot
  exact Binary64.le_of_lt_eq_false (hnumbers later hlater) (hnumbers earlier hearlier) hnot

theorem dropWhile_eq_lateReports
    (hpairwise : reports.Pairwise fun earlier later => earlier.time.le later.time = true) :
    reports.dropWhile (fun report => !cutoff.le report.time) = lateReports cutoff reports := by
  induction reports with
  | nil => rfl
  | cons report rest ih =>
    obtain ⟨hreport, hrest⟩ := List.pairwise_cons.mp hpairwise
    cases hlate : cutoff.le report.time with
    | false => simpa [lateReports, hlate] using ih hrest
    | true =>
      have hall : ∀ later ∈ rest, cutoff.le later.time = true := fun later hlater =>
        Binary64.le_trans hlate (hreport later hlater)
      simp [lateReports, hlate, List.filter_eq_self.mpr hall]

theorem lateReports_suffix
    (hpairwise : reports.Pairwise fun earlier later => earlier.time.le later.time = true)
    (hcutoff : cutoff.le cutoff' = true) : lateReports cutoff' reports <:+ lateReports cutoff reports := by
  have hlate : lateReports cutoff' (lateReports cutoff reports) = lateReports cutoff' reports := by
    refine (List.filter_filter ..).trans (List.filter_congr fun report _ => ?_)
    cases h : cutoff'.le report.time with
    | false => rfl
    | true => simp [Binary64.le_trans hcutoff h]
  have hlatePairwise : (lateReports cutoff reports).Pairwise fun earlier later => earlier.time.le later.time = true :=
    hpairwise.filter _
  rw [← hlate, ← dropWhile_eq_lateReports hlatePairwise]
  exact List.dropWhile_suffix _

theorem lateReports_atMost (hgrows : Grows reports) (cutoff : Binary64) :
    (lateReports cutoff reports).Pairwise fun earlier later => earlier.counters.AtMost later.counters :=
  hgrows.pairwise_atMost.filter _

theorem hostDelta_eq_ok_iff {host : String} :
    hostDelta host cutoff reports = .ok growth ↔ delta cutoff reports = .ok growth :=
  Except.mapError_eq_ok_iff

/-- The traffic is known exactly where there are two late reports, and comes to what lies between the first and
the last of them. -/
theorem delta_eq_ok_iff (hpairwise : reports.Pairwise fun earlier later => earlier.time.le later.time = true) :
    delta cutoff reports = .ok growth ↔
      ∃ first second rest, lateReports cutoff reports = first :: second :: rest ∧
        ((second :: rest).getLastD second).counters.sub? first.counters = some growth := by
  unfold delta
  rw [dropWhile_eq_lateReports hpairwise]
  split
  · rename_i hlate
    simp [hlate]
  · rename_i hlate
    simp [hlate]
  · rename_i first second rest hlate
    simp only [hlate, List.cons.injEq, and_assoc, exists_and_left, exists_eq_left']
    cases ((second :: rest).getLastD second).counters.sub? first.counters with
    | none => simp
    | some counters => simp

theorem value_of_sub?_eq_increments
    (h : ((second :: rest).getLastD second).counters.sub? first.counters = some growth) (counter : Counter) :
    ((growth.value counter).toNat : Int) = increments counter (first :: second :: rest) := by
  have hvalue := Counters.sub?_eq_some_iff.mp h counter
  rw [List.getLastD_cons] at hvalue
  rw [increments_cons, List.getLastD_cons]
  unfold reading
  omega

theorem exists_delta_of_lateReports (hgrows : Grows reports)
    (hpairwise : reports.Pairwise fun earlier later => earlier.time.le later.time = true)
    (hlate : lateReports cutoff reports = first :: second :: rest) :
    ∃ growth, delta cutoff reports = .ok growth := by
  have hmost := lateReports_atMost hgrows cutoff
  rw [hlate] at hmost
  have hlast : (second :: rest).getLastD second ∈ second :: rest := by
    rw [List.getLastD_cons]
    exact List.getLastD_mem_cons
  obtain ⟨growth, hgrowth⟩ := Counters.exists_sub?_eq_some_iff.mpr (List.rel_of_pairwise_cons hmost hlast)
  exact ⟨growth, (delta_eq_ok_iff hpairwise).mpr ⟨first, second, rest, hlate, hgrowth⟩⟩

/-- Reports before others add something to the increments, or nothing, but take nothing away. -/
theorem increments_le_append {before : List Report}
    (hmost : (before ++ first :: rest).Pairwise fun earlier later => earlier.counters.AtMost later.counters) :
    increments counter (first :: rest) ≤ increments counter (before ++ first :: rest) := by
  cases before with
  | nil => exact le_refl _
  | cons report before =>
    have hreport : report.counters.AtMost first.counters :=
      List.rel_of_pairwise_cons hmost (List.mem_append_right _ List.mem_cons_self)
    have hvalue := Counters.atMost_iff_forall_value.mp hreport counter
    have hlast : (before ++ first :: rest).getLastD report = rest.getLastD first := by
      simp [List.getLastD_eq_getLast?, List.getLast?_append, List.getLast?_cons]
    rw [List.cons_append, increments_cons, increments_cons, hlast]
    unfold reading
    omega

/-- Where reports never go back, a client's traffic since a cutoff is known exactly if two reports are at or after
it, and then comes to what each counter grew by from one of these reports to the next, summed up over all of them.
So what is known since a cutoff is known since every earlier one, and is no less. -/
theorem hostDelta_ok_iff_and_increments (hgrows : Grows reports)
    (hnumbers : ∀ report ∈ reports, report.time.isNaN = false) (host : String) :
    (∀ cutoff, (∃ growth, hostDelta host cutoff reports = .ok growth) ↔
      2 ≤ (lateReports cutoff reports).length) ∧
    (∀ cutoff growth, hostDelta host cutoff reports = .ok growth →
      ∀ counter, ((growth.value counter).toNat : Int) = increments counter (lateReports cutoff reports)) ∧
    ∀ cutoff cutoff' growth', cutoff.le cutoff' = true → hostDelta host cutoff' reports = .ok growth' →
      ∃ growth, hostDelta host cutoff reports = .ok growth ∧ growth.dominates growth' = true := by
  have hpairwise := pairwise_le_of_grows hgrows hnumbers
  have hknown : ∀ cutoff, (∃ growth, hostDelta host cutoff reports = .ok growth) ↔
      2 ≤ (lateReports cutoff reports).length := by
    intro cutoff
    simp only [hostDelta_eq_ok_iff]
    constructor
    · rintro ⟨growth, hgrowth⟩
      obtain ⟨first, second, rest, hlate, _⟩ := (delta_eq_ok_iff hpairwise).mp hgrowth
      simp [hlate]
    · intro hlength
      rcases hlate : lateReports cutoff reports with _ | ⟨first, _ | ⟨second, rest⟩⟩
      · simp [hlate] at hlength
      · simp [hlate] at hlength
      · exact exists_delta_of_lateReports hgrows hpairwise hlate
  have hincrements : ∀ cutoff growth, hostDelta host cutoff reports = .ok growth →
      ∀ counter, ((growth.value counter).toNat : Int) = increments counter (lateReports cutoff reports) := by
    intro cutoff growth hgrowth counter
    obtain ⟨first, second, rest, hlate, hsub⟩ := (delta_eq_ok_iff hpairwise).mp (hostDelta_eq_ok_iff.mp hgrowth)
    rw [hlate]
    exact value_of_sub?_eq_increments hsub counter
  refine ⟨hknown, hincrements, ?_⟩
  intro cutoff cutoff' growth' hcutoff hgrowth'
  obtain ⟨before, hbefore⟩ := lateReports_suffix hpairwise hcutoff
  have hlength : 2 ≤ (lateReports cutoff reports).length := by
    have hlength' := (hknown cutoff').mp ⟨growth', hgrowth'⟩
    rw [← hbefore, List.length_append]
    omega
  obtain ⟨growth, hgrowth⟩ := (hknown cutoff).mpr hlength
  refine ⟨growth, hgrowth, ?_⟩
  rw [Counters.dominates_iff_atMost, Counters.atMost_iff_forall_value]
  intro counter
  obtain ⟨first, second, rest, hlate, _⟩ := (delta_eq_ok_iff hpairwise).mp (hostDelta_eq_ok_iff.mp hgrowth')
  have hmost := lateReports_atMost hgrows cutoff
  rw [← hbefore, hlate] at hmost
  have hle : increments counter (lateReports cutoff' reports) ≤ increments counter (lateReports cutoff reports) := by
    rw [← hbefore, hlate]
    exact increments_le_append hmost
  have hvalue := hincrements cutoff growth hgrowth counter
  have hvalue' := hincrements cutoff' growth' hgrowth' counter
  omega

private def reportOf (time word : UInt64) : Report :=
  ⟨⟨time⟩, ⟨word, 1, 2, word, 4, 5, word⟩⟩

/-- The cutoff is the time of two reports, the first of which is subtracted. -/
theorem hostDelta_ok_iff_and_increments_ofSameTime :
    let reports := [reportOf 1 3, reportOf 2 7, reportOf 2 10, reportOf 3 20]
    Grows reports ∧ (∀ report ∈ reports, report.time.isNaN = false) ∧
    ∃ growth earlier, hostDelta "webclient1" ⟨2⟩ reports = .ok growth ∧
      (growth.value .receivedBytes).toNat = 13 ∧
      hostDelta "webclient1" ⟨1⟩ reports = .ok earlier ∧ earlier.dominates growth = true := by
  intro reports
  have hgrows : Grows reports := by
    simp only [Grows, reports, List.isChain_cons_cons, List.isChain_singleton]
    decide
  have hnumbers : ∀ report ∈ reports, report.time.isNaN = false := by decide
  obtain ⟨hknown, hincrements, hearlier⟩ := hostDelta_ok_iff_and_increments hgrows hnumbers "webclient1"
  obtain ⟨growth, hgrowth⟩ := (hknown ⟨2⟩).mpr (by decide)
  obtain ⟨earlier, hbefore, hdominates⟩ := hearlier ⟨1⟩ ⟨2⟩ growth (by decide) hgrowth
  have hvalue := hincrements ⟨2⟩ growth hgrowth .receivedBytes
  have hsum : increments .receivedBytes (lateReports ⟨2⟩ reports) = 13 := by decide
  exact ⟨hgrows, hnumbers, growth, earlier, hgrowth, by omega, hbefore, hdominates⟩

end PageLoads.Traffic
