import Mathlib.Data.List.Chain
import PageLoads.Log.ProxyLog
import PageLoads.Proofs.Log.Scan
import PageLoads.Proofs.Traffic.Counters

namespace PageLoads.ProxyLog

/-- Each report follows the one before it. -/
def Grows (reports : List Report) : Prop :=
  reports.IsChain fun previous report => follows previous report = true

theorem follows_iff {previous report : Report} :
    follows previous report = true ↔
      report.time.lt previous.time = false ∧ previous.counters.AtMost report.counters := by
  simp [follows, Counters.dominates_iff_atMost]

theorem grows_concat_iff {reports : List Report} {report : Report} :
    Grows (reports ++ [report]) ↔
      Grows reports ∧ ∀ previous, reports.getLast? = some previous → follows previous report = true := by
  simp [Grows, List.isChain_append]

theorem Grows.clientStep {number : Nat} {line : List Char} {reports next : List Report}
    (hstep : clientStep number line reports = .ok next) (hgrows : Grows reports) : Grows next := by
  unfold ProxyLog.clientStep at hstep
  split at hstep
  · cases hstep
  · rename_i report _
    split at hstep
    · rename_i hall
      cases hstep
      refine grows_concat_iff.mpr ⟨hgrows, ?_⟩
      intro previous hlast
      simpa [hlast] using hall
    · cases hstep
  · cases hstep
    exact hgrows

theorem Grows.appendClient {reports : List Report} (hgrows : Grows reports) (lines : LogLines) :
    Grows (appendClient reports lines).1 :=
  LogLines.scan_preserves (fun hstep h => Grows.clientStep hstep h) hgrows lines

theorem Grows.pairwise_atMost {reports : List Report} (hgrows : Grows reports) :
    reports.Pairwise fun earlier later => earlier.counters.AtMost later.counters := by
  have htrans : Trans (fun a b : Report => a.counters.AtMost b.counters)
      (fun a b : Report => a.counters.AtMost b.counters)
      (fun a b : Report => a.counters.AtMost b.counters) := ⟨Counters.AtMost.trans⟩
  have hadjacent : reports.IsChain fun previous report => previous.counters.AtMost report.counters :=
    hgrows.imp fun _ _ h => (follows_iff.mp h).2
  exact hadjacent.pairwise

theorem Grows.isChain_not_lt {reports : List Report} (hgrows : Grows reports) :
    reports.IsChain fun previous report => report.time.lt previous.time = false :=
  hgrows.imp fun _ _ h => (follows_iff.mp h).1

/-- A line that is taken behind some reports is also taken without them: fewer comparisons are made. -/
theorem clientStep_append {number : Nat} {line : List Char} {before reports next : List Report}
    (h : clientStep number line (before ++ reports) = .ok next) :
    ∃ later, clientStep number line reports = .ok later ∧ next = before ++ later := by
  unfold clientStep at h ⊢
  split at h
  · cases h
  · rename_i report _
    split at h
    · rename_i hall
      cases h
      have hshort : (reports.getLast?.all fun previous => follows previous report) = true := by
        rw [List.getLast?_append] at hall
        cases hlast : reports.getLast? with
        | none => rfl
        | some previous => simpa [hlast] using hall
      exact ⟨reports ++ [report], if_pos hshort, List.append_assoc _ _ _⟩
    · cases h
  · cases h
    exact ⟨reports, rfl, rfl⟩

theorem scan_clientStep_append {number : Nat} {before reports next : List Report} {lines : LogLines}
    (h : LogLines.scan clientStep number (before ++ reports) lines = (next, none)) :
    ∃ later, LogLines.scan clientStep number reports lines = (later, none) ∧ next = before ++ later := by
  induction lines generalizing number reports with
  | nil =>
    cases h
    exact ⟨reports, rfl, rfl⟩
  | cons line rest ih =>
    cases line with
    | error fault => cases h
    | ok line =>
      rw [LogLines.scan] at h
      split at h
      · cases h
      · rename_i middle hstep
        obtain ⟨later, hlater, rfl⟩ := clientStep_append hstep
        obtain ⟨final, hfinal, rfl⟩ := ih h
        exact ⟨final, by simp only [LogLines.scan, hlater, hfinal], rfl⟩

theorem exists_readClient_of_appendClient {reports next : List Report} {lines : LogLines}
    (h : appendClient reports lines = (next, none)) :
    ∃ found, readClient lines = .ok found ∧ next = reports ++ found := by
  rw [appendClient, ← List.append_nil reports] at h
  obtain ⟨found, hfound, rfl⟩ := scan_clientStep_append h
  exact ⟨found, LogLines.fold_eq_ok_iff.mpr hfound, rfl⟩

open PageLoads.Line (ProxyLine)

def handlerReport? : Option ProxyLine → Option Report
  | some (.handler report) => some report
  | _ => none

/-- A log holds the reports of handlers, in the order of its lines, each of which can be read and understood. -/
def HoldsHandlers (lines : LogLines) (reports : List Report) : Prop :=
  ∃ found, List.Forall₂ (fun line made => ∃ text, line = .ok text ∧ ProxyLine.ofLine text = .ok made) lines found ∧
    reports = found.filterMap handlerReport?

theorem holdsHandlers_cons_iff {line : Except IoFault (List Char)} {rest : LogLines} {reports : List Report} :
    HoldsHandlers (line :: rest) reports ↔ ∃ text made later, line = .ok text ∧ ProxyLine.ofLine text = .ok made ∧
      HoldsHandlers rest later ∧ reports = (handlerReport? made).toList ++ later := by
  constructor
  · rintro ⟨found, hfound, rfl⟩
    cases hfound with
    | cons hline hrest =>
      obtain ⟨text, rfl, hmade⟩ := hline
      refine ⟨text, _, _, rfl, hmade, ⟨_, hrest, rfl⟩, ?_⟩
      rw [List.filterMap_cons]
      cases handlerReport? _ <;> rfl
  · rintro ⟨text, made, _, rfl, hmade, ⟨found, hrest, rfl⟩, rfl⟩
    refine ⟨made :: found, .cons ⟨text, rfl, hmade⟩ hrest, ?_⟩
    rw [List.filterMap_cons]
    cases handlerReport? made <;> rfl

/-- A line of an exit relay's log adds the report of a handler, if it makes one. -/
theorem exitStep_eq_ok_iff {number : Nat} {text : List Char} {reports next : List Report} :
    exitStep number text reports = .ok next ↔
      ∃ made, ProxyLine.ofLine text = .ok made ∧ next = reports ++ (handlerReport? made).toList := by
  unfold exitStep
  rcases ProxyLine.ofLine text with fault | _ | report | report
  · simp
  · simp [handlerReport?, eq_comm]
  · simp [handlerReport?, eq_comm]
  · simp [handlerReport?, eq_comm]

theorem scan_exitStep_eq_none_iff {number : Nat} {reports final : List Report} {lines : LogLines} :
    LogLines.scan exitStep number reports lines = (final, none) ↔
      ∃ found, HoldsHandlers lines found ∧ final = reports ++ found := by
  induction lines generalizing number reports with
  | nil => simp [LogLines.scan, HoldsHandlers, eq_comm]
  | cons line rest ih =>
    simp only [holdsHandlers_cons_iff]
    rcases line with fault | text
    · simp [LogLines.scan]
    · rw [LogLines.scan]
      cases hstep : exitStep number text reports with
      | error fault =>
        have hrefused : ∀ made, ProxyLine.ofLine text ≠ .ok made := by
          intro made hmade
          cases hstep.symm.trans (exitStep_eq_ok_iff.mpr ⟨made, hmade, rfl⟩)
        simp [hrefused]
      | ok next =>
        obtain ⟨made, hmade, rfl⟩ := exitStep_eq_ok_iff.mp hstep
        simp [ih, hmade]

/-- An exit relay's log is read exactly if each of its lines can be read and understood, and then holds the reports
of handlers that its lines make. -/
theorem readExit_eq_ok_iff {lines : LogLines} {reports : List Report} :
    readExit lines = .ok reports ↔ HoldsHandlers lines reports := by
  rw [readExit, LogLines.fold_eq_ok_iff, scan_exitStep_eq_none_iff]
  simp

end PageLoads.ProxyLog
