import Mathlib
import PageLoads.Proofs.Number.Order
import PageLoads.Proofs.Summary.LoadSummary

namespace PageLoads

/-- Each condition of one selection implies that of another. Bounds that are compared are numbers. -/
structure Selection.Narrows (narrow wide : Selection) : Prop where
  hostStem : wide.hostStem.toList <+: narrow.hostStem.toList
  urls : wide.urls = [] ∨ narrow.urls ≠ [] ∧ narrow.urls ⊆ wide.urls
  startAfter : wide.startAfter.le narrow.startAfter = true
  doneBefore : ∀ limit, wide.doneBefore = some limit →
    ∃ earlier, narrow.doneBefore = some earlier ∧ earlier.le limit = true

namespace Selection.Narrows

variable {narrow wide : Selection} {load : PageLoad}

theorem selects (h : narrow.Narrows wide) (hload : narrow.selects load = true) : wide.selects load = true := by
  simp only [Selection.selects, Bool.and_eq_true, Bool.or_eq_true, List.isEmpty_iff, List.contains_iff_mem,
    Option.all_eq_true, Text.hasStem_iff] at hload ⊢
  obtain ⟨⟨⟨hhost, hurl⟩, hstart⟩, hdone⟩ := hload
  refine ⟨⟨⟨h.hostStem.trans hhost, ?_⟩, Binary64.le_trans h.startAfter hstart⟩, fun limit hlimit => ?_⟩
  · rcases h.urls with hall | ⟨hne, hsubset⟩
    · exact Or.inl hall
    · exact Or.inr (hsubset (hurl.resolve_left hne))
  · obtain ⟨earlier, hearlier, hle⟩ := h.doneBefore limit hlimit
    exact Binary64.le_trans (hdone earlier hearlier) hle

theorem apply_sublist (h : narrow.Narrows wide) (loads : List PageLoad) :
    (narrow.apply loads).Sublist (wide.apply loads) :=
  List.monotone_filter_right loads fun _ => h.selects

end Selection.Narrows

/-- No count is greater than the same count of another summary, and all samples are among its samples. -/
structure ModeSummary.AtMost (m other : ModeSummary) : Prop where
  pageLoads : m.pageLoads ≤ other.pageLoads
  timedOut : m.timedOut ≤ other.timedOut
  failed : m.failed ≤ other.failed
  failedRequests : m.failedRequests ≤ other.failedRequests
  samples_length (metric : Metric) : (m.samples metric).length ≤ (other.samples metric).length
  samples_sublist (metric : Metric) : (m.samples metric).Sublist (other.samples metric)

/-- No count is greater than the same count of another summary, overall and in each mode that occurs. -/
structure LoadSummary.AtMost (s other : LoadSummary) : Prop where
  total : s.total ≤ other.total
  failed : s.failed ≤ other.failed
  timedOut : s.timedOut ≤ other.timedOut
  failedOnly : s.failedOnly ≤ other.failedOnly
  modes (mode : ProxyMode) (m : ModeSummary) : s.modes.get? mode = some m →
    ∃ m', other.modes.get? mode = some m' ∧ m.AtMost m'

variable {drawing : Drawing} {loads others : List PageLoad}

theorem Metric.samplesOf_sublist (metric : Metric) (h : loads.Sublist others) :
    (metric.samplesOf drawing loads).Sublist (metric.samplesOf drawing others) :=
  (h.filter _).map _

theorem ModeSummary.ofLoads_atMost (h : loads.Sublist others) :
    (ofLoads drawing loads).AtMost (ofLoads drawing others) := by
  have hsamples (metric : Metric) : ((ofLoads drawing loads).samples metric).Sublist
      ((ofLoads drawing others).samples metric) := by
    rw [LoadSummary.samples_ofLoads, LoadSummary.samples_ofLoads]
    exact Binary64.mergeSort_sublist (metric.samplesOf_sublist h)
  exact {
    pageLoads := h.length_le
    timedOut := h.countP_le
    failed := h.countP_le
    failedRequests := (h.map _).sum_le_sum fun _ _ => Nat.zero_le _
    samples_length := fun metric => (hsamples metric).length_le
    samples_sublist := hsamples }

theorem ModeSummary.ofMode?_atMost {mode : ProxyMode} {m : ModeSummary} (h : loads.Sublist others)
    (hm : ofMode? drawing loads mode = some m) : ∃ m', ofMode? drawing others mode = some m' ∧ m.AtMost m' := by
  have hmode := h.filter fun load => load.mode = mode
  unfold ofMode? at hm ⊢
  split at hm
  · cases hm
  · rename_i hne
    obtain rfl := Option.some.inj hm
    refine ⟨_, if_neg fun hnil => hne ?_, ofLoads_atMost hmode⟩
    rw [hnil] at hmode
    exact List.sublist_nil.mp hmode

namespace LoadSummary

theorem ofSelected_atMost (h : loads.Sublist others) :
    (ofSelected drawing loads).AtMost (ofSelected drawing others) where
  total := h.length_le
  failed := h.countP_le
  timedOut := h.countP_le
  failedOnly := h.countP_le
  modes mode m hm := by
    rw [get?_modes_ofSelected] at hm ⊢
    exact ModeSummary.ofMode?_atMost h hm

/-- Of what a selection selects, a narrower one selects some, in the same order, and its summary has no greater
counts and no other samples. -/
theorem apply_sublist_and_ofLoads_atMost {narrow wide : Selection} (h : narrow.Narrows wide) (drawing : Drawing)
    (loads : List PageLoad) :
    (narrow.apply loads).Sublist (wide.apply loads) ∧
    (ofLoads narrow drawing loads).AtMost (ofLoads wide drawing loads) := by
  have hsublist := h.apply_sublist loads
  refine ⟨hsublist, ?_⟩
  rw [ofLoads_eq, ofLoads_eq]
  exact ofSelected_atMost hsublist

/-- A longer stem, one of two pages, the same start and an earlier last time, at which a load is reported. -/
theorem apply_sublist_and_ofLoads_atMost_ofOnePage :
    let wide : Selection := ⟨"webclient", ["http://a/", "http://b/"], .ofNat 100, some (.ofNat 170)⟩
    let narrow : Selection := ⟨"webclient1", ["http://b/"], .ofNat 100, some (.ofNat 110)⟩
    let second : Binary64 := ⟨0x3FF0000000000000⟩
    let drawing : Drawing := ⟨second, second, second, second⟩
    let loads : List PageLoad := [
      ⟨"webclient1", 1, "http://b/", .tor, .succeeded, 100, .ofNat 110, 2000, 500, 5, 5, 0, 0, 0⟩,
      ⟨"webclient1", 2, "http://a/", .tor, .failed .timedOut, 120, .ofNat 160, 0, 0, 5, 3, 2, 0, 0⟩,
      ⟨"webclient2", 1, "http://b/", .proxiedTor, .failed .failed, 100, .ofNat 110, 0, 0, 5, 0, 5, 0, 0⟩]
    narrow.Narrows wide ∧ (narrow.apply loads).Sublist (wide.apply loads) ∧
      (ofLoads narrow drawing loads).AtMost (ofLoads wide drawing loads) ∧
      (ofLoads narrow drawing loads).total = 1 ∧ (ofLoads wide drawing loads).total = 3 := by
  intro wide narrow second drawing loads
  have h : narrow.Narrows wide := {
    hostStem := by decide
    urls := by decide
    startAfter := by decide
    doneBefore := by
      rintro _ ⟨⟩
      exact ⟨_, rfl, by decide⟩ }
  obtain ⟨hsublist, hmost⟩ := apply_sublist_and_ofLoads_atMost h drawing loads
  refine ⟨h, hsublist, hmost, ?_, ?_⟩
  · rw [ofLoads_eq]
    decide
  · rw [ofLoads_eq]
    decide

end LoadSummary

end PageLoads
