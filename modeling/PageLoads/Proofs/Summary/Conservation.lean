import Mathlib
import PageLoads.Proofs.Summary.Sample

namespace PageLoads

def ProxyMode.loadsOf (mode : ProxyMode) (loads : List PageLoad) : List PageLoad :=
  loads.filter fun load => load.mode = mode

namespace PageLoad

theorem perm_flatMap_loadsOf (loads : List PageLoad) :
    (ProxyMode.all.flatMap fun mode => mode.loadsOf loads).Perm loads := by
  have hrest : loads.filter (fun load => !decide (load.mode = .tor)) =
      loads.filter fun load => load.mode = .proxiedTor := by
    refine List.filter_congr fun load _ => ?_
    cases load.mode <;> rfl
  have hperm := List.filter_append_perm (fun load : PageLoad => load.mode = .tor) loads
  rw [hrest] at hperm
  simpa only [ProxyMode.all, ProxyMode.loadsOf, List.flatMap_cons, List.flatMap_nil, List.append_nil] using hperm

theorem sum_countP_loadsOf (p : PageLoad → Bool) (loads : List PageLoad) :
    (ProxyMode.all.map fun mode => (mode.loadsOf loads).countP p).sum = loads.countP p := by
  rw [← (perm_flatMap_loadsOf loads).countP_eq, List.countP_flatMap]
  rfl

theorem countP_outcomes (loads : List PageLoad) :
    loads.countP succeeded + (loads.countP fun load => load.outcome = .failed .timedOut) +
      (loads.countP fun load => load.outcome = .failed .failed) = loads.length := by
  induction loads with
  | nil => rfl
  | cons load rest ih =>
    rw [List.length_cons, ← ih]
    rcases houtcome : load.outcome with _ | (_ | _)
    · simp [succeeded, houtcome]
      omega
    · simp [succeeded, houtcome]
      omega
    · simp [succeeded, houtcome]
      omega

end PageLoad

/-- A mode's counts and samples are those of its loads. -/
structure ModeSummary.Describes (drawing : Drawing) (loads : List PageLoad) (m : ModeSummary) : Prop where
  pageLoads_eq : m.pageLoads = loads.length
  timedOut_eq : m.timedOut = loads.countP fun load => load.outcome = .failed .timedOut
  failed_eq : m.failed = loads.countP fun load => load.outcome = .failed .failed
  failedRequests_eq : m.failedRequests = (loads.map fun load => load.failedRequests.toNat).sum
  samples_perm (metric : Metric) :
    ∃ samples, metric.AreSamples drawing loads samples ∧ (m.samples metric).Perm samples
  samples_sorted (metric : Metric) : (m.samples metric).Pairwise fun x y => x.totalLe y = true
  samples_length (metric : Metric) : (m.samples metric).length + m.timedOut + m.failed = m.pageLoads

namespace ModeSummary

variable {drawing : Drawing} {loads : List PageLoad}

theorem describes_ofLoads (drawing : Drawing) (loads : List PageLoad) :
    (ofLoads drawing loads).Describes drawing loads where
  pageLoads_eq := rfl
  timedOut_eq := rfl
  failed_eq := rfl
  failedRequests_eq := rfl
  samples_perm metric := by
    refine ⟨metric.samplesOf drawing loads, metric.areSamples_samplesOf drawing loads, ?_⟩
    rw [LoadSummary.samples_ofLoads]
    exact List.mergeSort_perm _ _
  samples_sorted metric := by
    rw [LoadSummary.samples_ofLoads]
    exact Binary64.pairwise_mergeSort _
  samples_length metric := by
    rw [LoadSummary.samples_ofLoads, List.length_mergeSort, Metric.samplesOf, List.length_map,
      ← List.countP_eq_length_filter]
    exact PageLoad.countP_outcomes loads

/-- The failed requests of 2³² loads fit in a word of 64 bits. -/
theorem Describes.failedRequests_lt {m : ModeSummary} (h : m.Describes drawing loads)
    (hloads : loads.length ≤ UInt32.size) : m.failedRequests < UInt64.size := by
  have hsum : (loads.map fun load => load.failedRequests.toNat).sum ≤ loads.length * (UInt32.size - 1) := by
    have hbound := List.sum_le_card_nsmul (loads.map fun load => load.failedRequests.toNat) (UInt32.size - 1)
    rw [List.length_map, smul_eq_mul] at hbound
    refine hbound fun requests hrequests => ?_
    obtain ⟨load, _, rfl⟩ := List.mem_map.mp hrequests
    exact Nat.le_pred_of_lt load.failedRequests.toNat_lt
  rw [h.failedRequests_eq]
  simp only [UInt32.size, UInt64.size] at hloads hsum ⊢
  omega

theorem ofMode?_eq (loads : List PageLoad) (mode : ProxyMode) :
    ofMode? drawing loads mode =
      if mode.loadsOf loads = [] then none else some (ofLoads drawing (mode.loadsOf loads)) :=
  rfl

theorem exists_ofMode?_iff {loads : List PageLoad} {mode : ProxyMode} :
    (∃ m, ofMode? drawing loads mode = some m) ↔ ∃ load ∈ loads, load.mode = mode := by
  simp [ofMode?_eq, ProxyMode.loadsOf]

theorem filter_samples (loads : List PageLoad) :
    (Metric.all.filter fun metric => (ofLoads drawing loads).samples metric ≠ []) =
      if loads.any PageLoad.succeeded then Metric.all else [] := by
  have hany : loads.any PageLoad.succeeded = true ↔ ∃ load ∈ loads, load.outcome = .succeeded := by
    simp only [List.any_eq_true, PageLoad.succeeded, decide_eq_true_eq]
  have hsamples (metric : Metric) : (ofLoads drawing loads).samples metric ≠ [] ↔
      loads.any PageLoad.succeeded = true :=
    LoadSummary.samples_ofLoads_ne_nil_iff.trans hany.symm
  simp only [hsamples]
  split <;> simp [*]

/-- Loads have one summary. -/
theorem Describes.eq {m other : ModeSummary} (h : m.Describes drawing loads)
    (hother : other.Describes drawing loads) : m = other := by
  have hsamples (metric : Metric) : m.samples metric = other.samples metric := by
    obtain ⟨samples, hsamples, hperm⟩ := h.samples_perm metric
    obtain ⟨samples', hsamples', hperm'⟩ := hother.samples_perm metric
    obtain rfl := hsamples.eq hsamples'
    exact Binary64.eq_of_perm_of_pairwise (hperm.trans hperm'.symm) (h.samples_sorted metric)
      (hother.samples_sorted metric)
  have hloadTimes : m.loadTimes = other.loadTimes := hsamples .loadTime
  have hfirstByteTimes : m.firstByteTimes = other.firstByteTimes := hsamples .firstByte
  have hpageLoads := h.pageLoads_eq.trans hother.pageLoads_eq.symm
  have htimedOut := h.timedOut_eq.trans hother.timedOut_eq.symm
  have hfailed := h.failed_eq.trans hother.failed_eq.symm
  have hfailedRequests := h.failedRequests_eq.trans hother.failedRequests_eq.symm
  obtain ⟨pageLoads, timedOut, failed, failedRequests, loadTimes, firstByteTimes⟩ := m
  subst hpageLoads htimedOut hfailed hfailedRequests hloadTimes hfirstByteTimes
  rfl

end ModeSummary

namespace LoadSummary

def sumOf (s : LoadSummary) (count : ModeSummary → Nat) : Nat :=
  (s.modes.toList.map fun modeSummary => count modeSummary.2).sum

/-- What is checked when all loads are counted: that every failed load has a known reason. -/
def FailuresKnown (s : LoadSummary) : Prop :=
  s.failed = s.timedOut + s.failedOnly

/-- A summary tells of the selected loads: of each mode that occurs among them, and of all of them. -/
structure Describes (selection : Selection) (drawing : Drawing) (loads : List PageLoad) (s : LoadSummary) :
    Prop where
  total_eq : s.total = loads.countP selection.selects
  mode_iff (mode : ProxyMode) : (∃ m, s.modes.get? mode = some m) ↔
    ∃ load ∈ loads, selection.selects load = true ∧ load.mode = mode
  mode (mode : ProxyMode) (m : ModeSummary) : s.modes.get? mode = some m →
    m.Describes drawing (mode.loadsOf (selection.apply loads))
  total_sum : s.total = s.sumOf ModeSummary.pageLoads
  timedOut_sum : s.timedOut = s.sumOf ModeSummary.timedOut
  failedOnly_sum : s.failedOnly = s.sumOf ModeSummary.failed
  failed_sum : s.failed = s.sumOf fun m => m.timedOut + m.failed
  failuresKnown : s.FailuresKnown

/-- The samples of a mode, none if it does not occur. -/
def samplesIn (s : LoadSummary) (mode : ProxyMode) (metric : Metric) : List Binary64 :=
  ((s.modes.get? mode).map fun m => m.samples metric).getD []

/-- The tables of the modes of which one of the loads succeeded, drawn of the samples of a summary. -/
def tablesOf (drawing : Drawing) (s : LoadSummary) (loads : List PageLoad) : List Table :=
  (ProxyMode.all.filter fun mode => (mode.loadsOf loads).any PageLoad.succeeded).flatMap fun mode =>
    Metric.all.map fun metric =>
      { mode, metric, points := Distribution.table (metric.bucket drawing) (s.samplesIn mode metric) }

variable {selection : Selection} {drawing : Drawing} {loads : List PageLoad}

theorem FailuresKnown.count {s : LoadSummary} (h : s.FailuresKnown) (load : PageLoad) :
    (count drawing s load).FailuresKnown := by
  unfold FailuresKnown at *
  rcases houtcome : load.outcome with _ | (_ | _)
  · simpa [LoadSummary.count, houtcome] using h
  · simp [LoadSummary.count, houtcome]
    omega
  · simp [LoadSummary.count, houtcome]
    omega

theorem failuresKnown_foldl_count (drawing : Drawing) (loads : List PageLoad) :
    (loads.foldl (count drawing) {}).FailuresKnown := by
  have hinitial : FailuresKnown {} := rfl
  exact List.foldlRecOn loads (count drawing) hinitial fun _ h load _ => h.count load

theorem sumOf_add (s : LoadSummary) (count other : ModeSummary → Nat) :
    s.sumOf (fun m => count m + other m) = s.sumOf count + s.sumOf other :=
  List.sum_map_add

/-- What is counted in each mode is counted in all; a mode that does not occur counts for nothing. -/
theorem sumOf_ofSelected {count : ModeSummary → Nat} {p : PageLoad → Bool}
    (hcount : ∀ loads, count (ModeSummary.ofLoads drawing loads) = loads.countP p) (loads : List PageLoad) :
    (ofSelected drawing loads).sumOf count = loads.countP p := by
  rw [← PageLoad.sum_countP_loadsOf]
  simp only [sumOf, PerMode.toList, List.map_filterMap, get?_modes_ofSelected]
  induction ProxyMode.all with
  | nil => rfl
  | cons mode rest ih =>
    rw [List.filterMap_cons, List.map_cons, List.sum_cons, ← ih, ModeSummary.ofMode?_eq]
    by_cases hloads : mode.loadsOf loads = []
    · simp [hloads]
    · simp [hloads, hcount]

theorem describes_ofLoads (selection : Selection) (drawing : Drawing) (loads : List PageLoad) :
    (ofLoads selection drawing loads).Describes selection drawing loads := by
  have hknown : (ofLoads selection drawing loads).FailuresKnown := failuresKnown_foldl_count drawing _
  rw [ofLoads_eq] at hknown ⊢
  have htimedOut : (ofSelected drawing (selection.apply loads)).timedOut =
      sumOf (ofSelected drawing (selection.apply loads)) ModeSummary.timedOut :=
    (sumOf_ofSelected (fun _ => rfl) _).symm
  have hfailedOnly : (ofSelected drawing (selection.apply loads)).failedOnly =
      sumOf (ofSelected drawing (selection.apply loads)) ModeSummary.failed :=
    (sumOf_ofSelected (fun _ => rfl) _).symm
  refine ⟨List.countP_eq_length_filter.symm, ?_, ?_, ?_, htimedOut, hfailedOnly, ?_, hknown⟩
  · intro mode
    rw [get?_modes_ofSelected, ModeSummary.exists_ofMode?_iff]
    simp only [Selection.apply, List.mem_filter, and_assoc]
  · intro mode m hm
    rw [get?_modes_ofSelected, ModeSummary.ofMode?_eq] at hm
    split at hm
    · cases hm
    · obtain rfl := Option.some.inj hm
      exact ModeSummary.describes_ofLoads drawing _
  · have hall (loads : List PageLoad) :
        (ModeSummary.ofLoads drawing loads).pageLoads = loads.countP fun _ => true :=
      (congrFun List.countP_true loads).symm
    rw [sumOf_ofSelected hall, List.countP_true]
    rfl
  · rw [sumOf_add, ← htimedOut, ← hfailedOnly]
    exact hknown

/-- What a summary tells leaves no choice of it. -/
theorem Describes.eq {s other : LoadSummary} (h : s.Describes selection drawing loads)
    (hother : other.Describes selection drawing loads) : s = other := by
  have hmodes : s.modes = other.modes := by
    refine PerMode.ext_get? fun mode => ?_
    have hoccurs := (h.mode_iff mode).trans (hother.mode_iff mode).symm
    cases hm : s.modes.get? mode with
    | some m =>
      obtain ⟨m', hm'⟩ := hoccurs.mp ⟨m, hm⟩
      rw [hm', (h.mode mode m hm).eq (hother.mode mode m' hm')]
    | none =>
      refine (Option.eq_none_iff_forall_ne_some.mpr fun m' hm' => ?_).symm
      obtain ⟨m, hsome⟩ := hoccurs.mpr ⟨m', hm'⟩
      rw [hm] at hsome
      cases hsome
  have hsum (count : ModeSummary → Nat) : s.sumOf count = other.sumOf count := by
    rw [sumOf, sumOf, hmodes]
  have htotal := h.total_eq.trans hother.total_eq.symm
  have hfailed : s.failed = other.failed := by rw [h.failed_sum, hsum, hother.failed_sum]
  have htimedOut : s.timedOut = other.timedOut := by rw [h.timedOut_sum, hsum, hother.timedOut_sum]
  have hfailedOnly : s.failedOnly = other.failedOnly := by
    rw [h.failedOnly_sum, hsum, hother.failedOnly_sum]
  obtain ⟨total, failed, timedOut, failedOnly, modes⟩ := s
  subst htotal hfailed htimedOut hfailedOnly hmodes
  rfl

theorem tables_ofLoads (selection : Selection) (drawing drawn : Drawing) (loads : List PageLoad) :
    (ofLoads selection drawing loads).tables drawn =
      tablesOf drawn (ofLoads selection drawing loads) (selection.apply loads) := by
  rw [ofLoads_eq]
  simp only [tables, tablesOf, PerMode.toList, samplesIn, get?_modes_ofSelected]
  induction ProxyMode.all with
  | nil => rfl
  | cons mode rest ih =>
    rw [List.filterMap_cons, List.filter_cons, ModeSummary.ofMode?_eq]
    by_cases hloads : mode.loadsOf (selection.apply loads) = []
    · simp only [hloads, ↓reduceIte, Option.map_none, List.any_nil, Bool.false_eq_true]
      exact ih
    · rw [if_neg hloads, Option.map_some, List.flatMap_cons, ih, ModeSummary.filter_samples]
      split
      · simp only [List.flatMap_cons, ModeSummary.ofMode?_eq, if_neg hloads, Option.map_some, Option.getD_some]
      · rfl

/-- The summary of selected loads is the one that tells of them, load for load; so its counts add up, also
when the loop that counts has ended. The failed requests fit in 64 bits if 32 bits hold the number of loads. Its
tables are those of the modes of which a load succeeded, and loads in another order have the same summary. -/
theorem ofLoads_describes_in_any_order (selection : Selection) (drawing : Drawing) (loads : List PageLoad) :
    (∀ s : LoadSummary, s.Describes selection drawing loads ↔ s = ofLoads selection drawing loads) ∧
    ((selection.apply loads).foldl (count drawing) {}).FailuresKnown ∧
    (loads.length ≤ UInt32.size → ∀ mode m, (ofLoads selection drawing loads).modes.get? mode = some m →
      m.failedRequests < UInt64.size) ∧
    (∀ drawn : Drawing, (ofLoads selection drawing loads).tables drawn =
      tablesOf drawn (ofLoads selection drawing loads) (selection.apply loads)) ∧
    ∀ others : List PageLoad, loads.Perm others →
      ofLoads selection drawing others = ofLoads selection drawing loads := by
  have hdescribes := describes_ofLoads selection drawing loads
  refine ⟨fun s => ⟨fun hs => hs.eq hdescribes, ?_⟩, failuresKnown_foldl_count drawing _, ?_, ?_, ?_⟩
  · rintro rfl
    exact hdescribes
  · intro hloads mode m hm
    refine (hdescribes.mode mode m hm).failedRequests_lt (le_trans ?_ hloads)
    exact ((List.filter_sublist).trans List.filter_sublist).length_le
  · exact fun drawn => tables_ofLoads selection drawing drawn loads
  · exact fun others hperm => (ofLoads_of_perm hperm).symm

/-- Three loads, of which one succeeded in two seconds and had its first byte after half a second, told in
reverse. -/
theorem ofLoads_describes_in_any_order_ofThreeLoads :
    let selection : Selection := ⟨"webclient", [], .zero, none⟩
    let thousandth : Binary64 := ⟨0x3F50624DD2F1A9FC⟩
    let tenth : Binary64 := ⟨0x3FB999999999999A⟩
    let drawing : Drawing := ⟨thousandth, thousandth, tenth, tenth⟩
    let loads : List PageLoad := [
      ⟨"webclient1", 1, "http://a/", .tor, .succeeded, 100, .ofNat 110, 2000, 500, 5, 5, 0, 0, 0⟩,
      ⟨"webclient1", 2, "http://a/", .tor, .failed .timedOut, 120, .ofNat 180, 0, 0, 5, 3, 2, 0, 0⟩,
      ⟨"webclient2", 1, "http://a/", .proxiedTor, .failed .failed, 100, .ofNat 110, 0, 0, 5, 0, 5, 0, 0⟩]
    let s := ofLoads selection drawing loads
    loads.Perm loads.reverse ∧ ofLoads selection drawing loads.reverse = s ∧
      s.Describes selection drawing loads ∧ s.total = 3 ∧ s.failed = 2 ∧
      s.samplesIn .tor .loadTime = [⟨0x4000000000000000⟩] ∧ s.samplesIn .tor .firstByte = [⟨0x3FE0000000000000⟩] ∧
      loads.length ≤ UInt32.size ∧
      (s.tables drawing).map (fun table => (table.mode, table.metric)) =
        [(.tor, .loadTime), (.tor, .firstByte)] := by
  intro selection thousandth tenth drawing loads s
  have hperm : loads.Perm loads.reverse := (List.reverse_perm loads).symm
  obtain ⟨hdescribes, _, _, htables, horder⟩ := ofLoads_describes_in_any_order selection drawing loads
  have hs : s.Describes selection drawing loads := (hdescribes s).mpr rfl
  have hselected : s = ofSelected drawing (selection.apply loads) := ofLoads_eq selection drawing loads
  have hmodes : (ProxyMode.all.filter fun mode =>
      (mode.loadsOf (selection.apply loads)).any PageLoad.succeeded) = [.tor] := by decide
  have hsamples (metric : Metric) :
      s.samplesIn .tor metric = metric.samplesOf drawing (ProxyMode.tor.loadsOf (selection.apply loads)) := by
    rw [hselected, samplesIn, get?_modes_ofSelected, ModeSummary.ofMode?_eq, if_neg (by decide), Option.map_some,
      Option.getD_some, samples_ofLoads]
    have hlength : (metric.samplesOf drawing (ProxyMode.tor.loadsOf (selection.apply loads))).length = 1 := by
      rw [Metric.samplesOf, List.length_map]
      decide
    obtain ⟨x, hx⟩ := List.length_eq_one_iff.mp hlength
    rw [hx, List.mergeSort_singleton]
  refine ⟨hperm, horder _ hperm, hs, ?_, ?_, ?_, ?_, by decide, ?_⟩
  · rw [hs.total_eq]
    decide
  · rw [hselected]
    decide
  · rw [hsamples]
    decide +kernel
  · rw [hsamples]
    decide +kernel
  · rw [htables, tablesOf, hmodes]
    rfl

end LoadSummary

end PageLoads
