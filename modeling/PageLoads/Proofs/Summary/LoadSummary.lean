import Mathlib
import PageLoads.Proofs.Number.TotalOrder
import PageLoads.Summary.LoadSummary

namespace PageLoads

namespace PerMode

variable {α : Type}

theorem ext_get? {modes others : PerMode α} (h : ∀ mode, modes.get? mode = others.get? mode) :
    modes = others := by
  obtain ⟨tor, proxiedTor⟩ := modes
  obtain ⟨tor', proxiedTor'⟩ := others
  have htor : tor = tor' := h .tor
  have hproxied : proxiedTor = proxiedTor' := h .proxiedTor
  rw [htor, hproxied]

theorem get?_update (modes : PerMode α) (initial : α) (change : α → α) (mode other : ProxyMode) :
    (modes.update initial change mode).get? other =
      if other = mode then some (change ((modes.get? mode).getD initial)) else modes.get? other := by
  cases mode <;> cases other <;> simp [update, get?]

theorem get?_map (modes : PerMode α) (change : α → α) (mode : ProxyMode) :
    (modes.map change).get? mode = (modes.get? mode).map change := by
  cases mode <;> rfl

theorem get?_empty (mode : ProxyMode) : (empty : PerMode α).get? mode = none := by
  cases mode <;> rfl

theorem mem_toList_iff {modes : PerMode α} {mode : ProxyMode} {value : α} :
    (mode, value) ∈ modes.toList ↔ modes.get? mode = some value := by
  have hmem : mode ∈ ProxyMode.all := by cases mode <;> simp [ProxyMode.all]
  simp only [toList, List.mem_filterMap, Option.map_eq_some_iff, Prod.mk.injEq]
  constructor
  · rintro ⟨_, _, _, hget, rfl, rfl⟩
    exact hget
  · intro hget
    exact ⟨mode, hmem, value, hget, rfl, rfl⟩

end PerMode

namespace Metric

def scale (drawing : Drawing) : Metric → Binary64
  | .loadTime => drawing.loadTimeScale
  | .firstByte => drawing.firstByteScale

def milliseconds (load : PageLoad) : Metric → UInt64
  | .loadTime => load.loadMilliseconds
  | .firstByte => load.firstByteMilliseconds

/-- The samples of a metric, one of each load that succeeded. -/
def samplesOf (drawing : Drawing) (metric : Metric) (loads : List PageLoad) : List Binary64 :=
  (loads.filter PageLoad.succeeded).map fun load =>
    LoadSummary.sample (metric.scale drawing) (metric.milliseconds load)

end Metric

open LoadSummary (countInMode sortSamples count)

/-- What loads of one mode come to, told of all of them at once. -/
def ModeSummary.ofLoads (drawing : Drawing) (loads : List PageLoad) : ModeSummary where
  pageLoads := loads.length
  timedOut := loads.countP fun load => load.outcome = .failed .timedOut
  failed := loads.countP fun load => load.outcome = .failed .failed
  failedRequests := (loads.map fun load => load.failedRequests.toNat).sum
  loadTimes := (Metric.samplesOf drawing .loadTime loads).mergeSort Binary64.totalLe
  firstByteTimes := (Metric.samplesOf drawing .firstByte loads).mergeSort Binary64.totalLe

variable {drawing : Drawing}

private theorem foldl_countInMode (m : ModeSummary) (loads : List PageLoad) :
    loads.foldl (fun m load => countInMode drawing load m) m = {
      pageLoads := m.pageLoads + loads.length
      timedOut := m.timedOut + loads.countP fun load => load.outcome = .failed .timedOut
      failed := m.failed + loads.countP fun load => load.outcome = .failed .failed
      failedRequests := m.failedRequests + (loads.map fun load => load.failedRequests.toNat).sum
      loadTimes := (Metric.samplesOf drawing .loadTime loads).reverse ++ m.loadTimes
      firstByteTimes := (Metric.samplesOf drawing .firstByte loads).reverse ++ m.firstByteTimes } := by
  induction loads generalizing m with
  | nil => simp [Metric.samplesOf]
  | cons load rest ih =>
    rw [List.foldl_cons, ih]
    rcases houtcome : load.outcome with _ | (_ | _)
    · simp [countInMode, houtcome, Metric.samplesOf, PageLoad.succeeded, Metric.scale, Metric.milliseconds]
      omega
    · simp [countInMode, houtcome, Metric.samplesOf, PageLoad.succeeded]
      omega
    · simp [countInMode, houtcome, Metric.samplesOf, PageLoad.succeeded]
      omega

theorem ModeSummary.sortSamples_foldl (drawing : Drawing) (loads : List PageLoad) :
    sortSamples (loads.foldl (fun m load => countInMode drawing load m) {}) = ofLoads drawing loads := by
  have hsort (samples : List Binary64) :
      (samples.reverse ++ []).mergeSort Binary64.totalLe = samples.mergeSort Binary64.totalLe := by
    rw [List.append_nil]
    exact Binary64.mergeSort_eq_of_perm (List.reverse_perm samples)
  rw [foldl_countInMode]
  simp only [sortSamples, ofLoads, hsort, Nat.zero_add]

theorem ModeSummary.ofLoads_of_perm {loads others : List PageLoad} (h : loads.Perm others) :
    ofLoads drawing loads = ofLoads drawing others := by
  have hsamples (metric : Metric) : (metric.samplesOf drawing loads).mergeSort Binary64.totalLe =
      (metric.samplesOf drawing others).mergeSort Binary64.totalLe :=
    Binary64.mergeSort_eq_of_perm ((h.filter _).map _)
  simp only [ofLoads, hsamples, h.length_eq, h.countP_eq, (h.map _).sum_nat]

/-- What the loads of a mode among others come to, if there are any. -/
def ModeSummary.ofMode? (drawing : Drawing) (loads : List PageLoad) (mode : ProxyMode) : Option ModeSummary :=
  if loads.filter (fun load => load.mode = mode) = [] then none
  else some (ofLoads drawing (loads.filter fun load => load.mode = mode))

namespace LoadSummary

/-- What selected loads come to, told of all of them at once. -/
def ofSelected (drawing : Drawing) (loads : List PageLoad) : LoadSummary where
  total := loads.length
  failed := loads.countP fun load => !load.succeeded
  timedOut := loads.countP fun load => load.outcome = .failed .timedOut
  failedOnly := loads.countP fun load => load.outcome = .failed .failed
  modes := ⟨ModeSummary.ofMode? drawing loads .tor, ModeSummary.ofMode? drawing loads .proxiedTor⟩

@[simp] theorem get?_modes_ofSelected (loads : List PageLoad) (mode : ProxyMode) :
    (ofSelected drawing loads).modes.get? mode = ModeSummary.ofMode? drawing loads mode := by
  cases mode <;> rfl

private def countMode (drawing : Drawing) (modes : PerMode ModeSummary) (load : PageLoad) :
    PerMode ModeSummary :=
  modes.update {} (countInMode drawing load) load.mode

private theorem foldl_count (s : LoadSummary) (loads : List PageLoad) :
    loads.foldl (count drawing) s = {
      total := s.total + loads.length
      failed := s.failed + loads.countP fun load => !load.succeeded
      timedOut := s.timedOut + loads.countP fun load => load.outcome = .failed .timedOut
      failedOnly := s.failedOnly + loads.countP fun load => load.outcome = .failed .failed
      modes := loads.foldl (countMode drawing) s.modes } := by
  induction loads generalizing s with
  | nil => simp
  | cons load rest ih =>
    rw [List.foldl_cons, ih]
    rcases houtcome : load.outcome with _ | (_ | _)
    · simp [count, countMode, houtcome, PageLoad.succeeded]
      omega
    · simp [count, countMode, houtcome, PageLoad.succeeded]
      omega
    · simp [count, countMode, houtcome, PageLoad.succeeded]
      omega

private theorem get?_foldl_countMode (modes : PerMode ModeSummary) (loads : List PageLoad) (mode : ProxyMode) :
    (loads.foldl (countMode drawing) modes).get? mode =
      if loads.filter (fun load => load.mode = mode) = [] then modes.get? mode
      else some ((loads.filter fun load => load.mode = mode).foldl
        (fun m load => countInMode drawing load m) ((modes.get? mode).getD {})) := by
  induction loads generalizing modes with
  | nil => rfl
  | cons load rest ih =>
    rw [List.foldl_cons, ih, countMode, PerMode.get?_update]
    by_cases hmode : load.mode = mode
    · -- The load is the first of its mode that is counted, whether or not more of them follow.
      subst hmode
      by_cases hrest : rest.filter (fun other => other.mode = load.mode) = []
      · simp [hrest]
      · simp [hrest]
    · have hne : ¬ mode = load.mode := fun h => hmode h.symm
      simp [hmode, hne]

/-- Selected loads counted one after another come to their summary. -/
theorem ofLoads_eq (selection : Selection) (drawing : Drawing) (loads : List PageLoad) :
    ofLoads selection drawing loads = ofSelected drawing (selection.apply loads) := by
  have hmodes : ((selection.apply loads).foldl (countMode drawing) PerMode.empty).map sortSamples =
      (ofSelected drawing (selection.apply loads)).modes := by
    refine PerMode.ext_get? fun mode => ?_
    rw [get?_modes_ofSelected, PerMode.get?_map, get?_foldl_countMode, ModeSummary.ofMode?, PerMode.get?_empty,
      Option.getD_none]
    split
    · rfl
    · rw [Option.map_some, ModeSummary.sortSamples_foldl]
  simp only [ofLoads, foldl_count, Nat.zero_add, hmodes]
  rfl

theorem ofSelected_of_perm {loads others : List PageLoad} (h : loads.Perm others) :
    ofSelected drawing loads = ofSelected drawing others := by
  have hmode (mode : ProxyMode) :
      ModeSummary.ofMode? drawing loads mode = ModeSummary.ofMode? drawing others mode := by
    have hloads := h.filter fun load => load.mode = mode
    have hnil : loads.filter (fun load => load.mode = mode) = [] ↔
        others.filter (fun load => load.mode = mode) = [] := by
      rw [← List.length_eq_zero_iff, ← List.length_eq_zero_iff, hloads.length_eq]
    simp only [ModeSummary.ofMode?, hnil, ModeSummary.ofLoads_of_perm hloads]
  simp only [ofSelected, hmode, h.length_eq, h.countP_eq]

theorem ofLoads_of_perm {selection : Selection} {loads others : List PageLoad} (h : loads.Perm others) :
    ofLoads selection drawing loads = ofLoads selection drawing others := by
  rw [ofLoads_eq, ofLoads_eq]
  exact ofSelected_of_perm (h.filter _)

theorem samples_ofLoads (loads : List PageLoad) (metric : Metric) :
    (ModeSummary.ofLoads drawing loads).samples metric =
      (metric.samplesOf drawing loads).mergeSort Binary64.totalLe := by
  cases metric <;> rfl

theorem samplesOf_ne_nil_iff {metric : Metric} {loads : List PageLoad} :
    metric.samplesOf drawing loads ≠ [] ↔ ∃ load ∈ loads, load.outcome = .succeeded := by
  simp only [Metric.samplesOf, ne_eq, List.map_eq_nil_iff, List.filter_eq_nil_iff, PageLoad.succeeded,
    decide_eq_true_eq, not_forall, Decidable.not_not, exists_prop]

theorem samples_ofLoads_ne_nil_iff {metric : Metric} {loads : List PageLoad} :
    (ModeSummary.ofLoads drawing loads).samples metric ≠ [] ↔ ∃ load ∈ loads, load.outcome = .succeeded := by
  rw [samples_ofLoads, ne_eq, ← List.length_eq_zero_iff, List.length_mergeSort, List.length_eq_zero_iff]
  exact samplesOf_ne_nil_iff

theorem exists_samples_iff {selection : Selection} {loads : List PageLoad} {mode : ProxyMode}
    {metric : Metric} :
    (∃ m, (ofLoads selection drawing loads).modes.get? mode = some m ∧ m.samples metric ≠ []) ↔
      ∃ load ∈ selection.apply loads, load.mode = mode ∧ load.outcome = .succeeded := by
  rw [ofLoads_eq, get?_modes_ofSelected]
  constructor
  · rintro ⟨m, hm, hne⟩
    unfold ModeSummary.ofMode? at hm
    split at hm
    · cases hm
    · obtain rfl := Option.some.inj hm
      obtain ⟨load, hload, hsucceeded⟩ := samples_ofLoads_ne_nil_iff.mp hne
      obtain ⟨hload, hmode⟩ := List.mem_filter.mp hload
      exact ⟨load, hload, of_decide_eq_true hmode, hsucceeded⟩
  · rintro ⟨load, hload, hmode, hsucceeded⟩
    have hmem : load ∈ (selection.apply loads).filter fun load => load.mode = mode :=
      List.mem_filter.mpr ⟨hload, decide_eq_true hmode⟩
    refine ⟨_, if_neg (List.ne_nil_of_mem hmem), samples_ofLoads_ne_nil_iff.mpr ⟨load, hmem, hsucceeded⟩⟩

/-- A summary has the table of a mode and a metric exactly if they have samples, and draws it of these. -/
theorem mem_tables_iff {s : LoadSummary} {table : Table} :
    table ∈ s.tables drawing ↔
      ∃ m, s.modes.get? table.mode = some m ∧ m.samples table.metric ≠ [] ∧
        table.points = Distribution.table (table.metric.bucket drawing) (m.samples table.metric) := by
  have hall (metric : Metric) : metric ∈ Metric.all := by
    cases metric <;> simp [Metric.all]
  simp only [tables, List.mem_flatMap, List.mem_map, List.mem_filter, decide_eq_true_eq, Prod.exists,
    PerMode.mem_toList_iff]
  constructor
  · rintro ⟨mode, m, hm, metric, ⟨_, hne⟩, rfl⟩
    exact ⟨m, hm, hne, rfl⟩
  · obtain ⟨mode, metric, points⟩ := table
    rintro ⟨m, hm, hne, hpoints⟩
    exact ⟨mode, m, hm, metric, ⟨hall metric, hne⟩, congrArg (Table.mk mode metric) hpoints.symm⟩

end LoadSummary

end PageLoads
