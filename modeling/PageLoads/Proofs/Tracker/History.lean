import Mathlib.Data.List.Forall2
import PageLoads.Log.Tracker
import PageLoads.Proofs.Line.History

namespace PageLoads

open PageLoads.Line
open PageLoads.Line.DriverLine (isStart isResult result? Opened Closes Admissible)

theorem ProxyMode.ofName?_eq_some_iff {text : String} {mode : ProxyMode} :
    ofName? text = some mode ↔ mode.name = text := by
  constructor
  · intro h
    simpa using List.find?_some h
  · rintro rfl
    exact ofName?_name mode

theorem Outcome.ofName?_eq_some_iff {text : String} {outcome : Outcome} :
    ofName? text = some outcome ↔ outcome.name = text := by
  constructor
  · intro h
    simpa using List.find?_some h
  · rintro rfl
    exact ofName?_name outcome

theorem Outcome.eq_succeeded_iff {outcome : Outcome} : outcome = .succeeded ↔ outcome.name = "OK" := by
  constructor
  · rintro rfl
    rfl
  · intro h
    exact Option.some.inj ((ofName?_eq_some_iff.mpr h).symm.trans (ofName?_name .succeeded))

/-- A record holds what its result line says, and the host whose log the line is in. -/
structure PageLoad.Records (host : String) (result : ResultLine) (load : PageLoad) : Prop where
  host_eq : load.host = host
  number_eq : load.number = result.number
  url_eq : load.url = result.url
  mode_eq : load.mode.name = result.proxyMode
  outcome_eq : load.outcome.name = result.outcome
  startSecond_eq : load.startSecond = result.startSecond
  reportTime_eq : load.reportTime = result.time
  loadMilliseconds_eq : load.loadMilliseconds = result.loadMilliseconds
  firstByteMilliseconds_eq : load.firstByteMilliseconds = result.firstByteMilliseconds
  requests_eq : load.requests = result.requests
  succeededRequests_eq : load.succeededRequests = result.succeededRequests
  failedRequests_eq : load.failedRequests = result.failedRequests
  requestsAfterDom_eq : load.requestsAfterDom = result.requestsAfterDom
  forcedRequests_eq : load.forcedRequests = result.forcedRequests

/-- The state says which load a history leaves open, and whether a DOM load event came since its start. -/
def LoadState.Follows (history : List DriverLine) : LoadState → Prop
  | .idle => ∀ time url since, ¬ Opened history time url since
  | .loading url started domEvent => ∃ since, Opened history started url since ∧
      (domEvent ≠ none ↔ ∃ event, .domEvent event ∈ since)

namespace Tracker

/-- What a tracker keeps is determined by the lines it took. -/
structure Follows (host : String) (history : List DriverLine) (t : Tracker) : Prop where
  host_eq : t.host = host
  loadCount_eq : t.loadCount = history.countP isStart
  state_follows : t.state.Follows history
  loads_record : List.Forall₂ (PageLoad.Records host) (history.filterMap result?) t.loads

variable {host : String} {history : List DriverLine} {t next : Tracker}

theorem follows_new (host : String) (table : Interner) : (new host table).Follows host [] where
  host_eq := rfl
  loadCount_eq := rfl
  state_follows := fun _ _ _ => DriverLine.not_opened_nil
  loads_record := List.Forall₂.nil

theorem check_eq_ok_iff {result : ResultLine} {load : PageLoad} :
    t.check result = .ok load ↔
      t.loadCount ≠ 0 ∧ ∃ time event mode outcome, t.state = .loading result.url time event ∧
        result.number.toNat = t.loadCount ∧ mode.name = result.proxyMode ∧
        outcome.name = result.outcome ∧ ¬ (outcome = .succeeded ∧ event = none) ∧
        closed t.host mode outcome result = load := by
  simp only [check, bind, Except.bind, throw, throwThe, MonadExceptOf.throw, pure, Except.pure]
  constructor
  · intro h
    by_cases hcount : t.loadCount = 0
    · simp [hcount] at h
    refine ⟨hcount, ?_⟩
    cases hstate : t.state with
    | idle => simp [hcount, hstate] at h
    | loading url time event =>
      by_cases hurl : result.url = url
      · subst hurl
        by_cases hnumber : result.number.toNat = t.loadCount
        · cases hmode : ProxyMode.ofName? result.proxyMode with
          | none => simp [hcount, hstate, hnumber, hmode] at h
          | some mode =>
            cases houtcome : Outcome.ofName? result.outcome with
            | none => simp [hcount, hstate, hnumber, hmode, houtcome] at h
            | some outcome =>
              by_cases hevent : outcome = .succeeded ∧ event = none
              · simp [hcount, hstate, hnumber, hmode, houtcome, hevent] at h
              · simp only [hcount, hstate, hnumber, hmode, houtcome, hevent, if_false, ne_eq,
                  not_true_eq_false, Except.ok.injEq] at h
                exact ⟨time, event, mode, outcome, rfl, hnumber, ProxyMode.ofName?_eq_some_iff.mp hmode,
                  Outcome.ofName?_eq_some_iff.mp houtcome, hevent, h⟩
        · simp [hcount, hstate, hnumber] at h
      · simp [hcount, hstate, hurl] at h
  · rintro ⟨hcount, time, event, mode, outcome, hstate, hnumber, hmode, houtcome, hevent, rfl⟩
    simp [hcount, hstate, hnumber, ProxyMode.ofName?_eq_some_iff.mpr hmode,
      Outcome.ofName?_eq_some_iff.mpr houtcome, hevent]

theorem finish_eq_ok_iff {line : Nat} {result : ResultLine} :
    t.finish line result = .ok next ↔ ∃ load, t.check result = .ok load ∧
      next = { t with table := t.table.insert load.url, state := .idle, loads := t.loads ++ [load] } := by
  unfold finish
  cases t.check result <;> simp [eq_comm]

theorem domEvent_eq_ok_iff {line : Nat} {time : Binary64} :
    t.domEvent line time = .ok next ↔ t.loadCount ≠ 0 ∧
      next = { t with state := match t.state with
        | .idle => .idle
        | .loading url started _ => .loading url started (some time) } := by
  obtain ⟨host, table, loadCount, state, loads⟩ := t
  unfold domEvent
  by_cases hcount : loadCount = 0
  · simp [hcount]
  · cases state <;> simp [hcount, eq_comm]

theorem exists_inconsistency_of_advance {number : Nat} {line : DriverLine} {fault : Fault}
    (h : t.advance number line = .error fault) : ∃ cause, fault = .inconsistentLog number cause := by
  cases line with
  | start time url => cases h
  | domEvent time =>
    simp only [advance, domEvent] at h
    split at h
    · cases h
      exact ⟨_, rfl⟩
    · split at h <;> cases h
  | result reported =>
    simp only [advance, finish] at h
    split at h
    · cases h
      exact ⟨_, rfl⟩
    · cases h

namespace Follows

theorem loadCount_ne_zero_iff (h : t.Follows host history) :
    t.loadCount ≠ 0 ↔ ∃ line ∈ history, line.isStart := by
  rw [h.loadCount_eq, ← Nat.pos_iff_ne_zero, List.countP_pos_iff]

/-- A result passes the checks exactly if it closes the load that the history leaves open. -/
theorem exists_check_iff (h : t.Follows host history) {result : ResultLine} :
    (∃ load, t.check result = .ok load) ↔ Closes history result := by
  have hstate := h.state_follows
  constructor
  · rintro ⟨load, hload⟩
    obtain ⟨_, time, event, mode, outcome, hloading, hnumber, hmode, houtcome, hevent, _⟩ :=
      check_eq_ok_iff.mp hload
    rw [hloading] at hstate
    obtain ⟨since, hopened, hsince⟩ := hstate
    refine ⟨time, since, hopened, hnumber.trans h.loadCount_eq, ⟨mode, hmode⟩, ⟨outcome, houtcome⟩, ?_⟩
    intro hok
    have hsucceeded : outcome = .succeeded := Outcome.eq_succeeded_iff.mpr (houtcome.trans hok)
    exact hsince.mp fun hnone => hevent ⟨hsucceeded, hnone⟩
  · rintro ⟨time, since, hopened, hnumber, ⟨mode, hmode⟩, ⟨outcome, houtcome⟩, hevent⟩
    have hcount : t.loadCount ≠ 0 := by
      obtain ⟨earlier, hsplit⟩ := hopened.1
      exact h.loadCount_ne_zero_iff.mpr ⟨.start time result.url, by simp [hsplit], rfl⟩
    cases hkept : t.state with
    | idle =>
      rw [hkept] at hstate
      exact absurd hopened (hstate time result.url since)
    | loading url started event =>
      rw [hkept] at hstate
      obtain ⟨since', hopened', hsince⟩ := hstate
      obtain ⟨_, rfl, rfl⟩ := hopened.unique hopened'
      refine ⟨_, check_eq_ok_iff.mpr ⟨hcount, started, event, mode, outcome, hkept,
        hnumber.trans h.loadCount_eq.symm, hmode, houtcome, ?_, rfl⟩⟩
      rintro ⟨hsucceeded, hnone⟩
      exact hsince.mpr (hevent (houtcome.symm.trans (Outcome.eq_succeeded_iff.mp hsucceeded))) hnone

/-- A tracker takes exactly the lines that may follow the history. -/
theorem exists_advance_iff (h : t.Follows host history) (number : Nat) (line : DriverLine) :
    (∃ next, t.advance number line = .ok next) ↔ Admissible history line := by
  cases line with
  | start time url => exact ⟨fun _ => trivial, fun _ => ⟨_, rfl⟩⟩
  | domEvent time =>
    simp only [advance, domEvent_eq_ok_iff, exists_and_left, exists_eq, and_true]
    exact h.loadCount_ne_zero_iff
  | result reported =>
    simp only [advance, finish_eq_ok_iff]
    refine Iff.trans ⟨?_, ?_⟩ h.exists_check_iff
    · rintro ⟨next, load, hload, _⟩
      exact ⟨load, hload⟩
    · rintro ⟨load, hload⟩
      exact ⟨_, load, hload, rfl⟩

theorem state_domEvent (h : t.Follows host history) (time : Binary64) :
    LoadState.Follows (history ++ [.domEvent time]) (match t.state with
      | .idle => .idle
      | .loading url started _ => .loading url started (some time)) := by
  have hstate := h.state_follows
  cases hkept : t.state with
  | idle =>
    rw [hkept] at hstate
    intro started url since hopened
    rcases DriverLine.opened_concat_iff.mp hopened with ⟨hline, _⟩ | ⟨_, before, _, hbefore⟩
    · cases hline
    · exact hstate started url before hbefore
  | loading url started event =>
    rw [hkept] at hstate
    obtain ⟨since, hopened, _⟩ := hstate
    refine ⟨since ++ [.domEvent time],
      DriverLine.opened_concat_iff.mpr (Or.inr ⟨⟨rfl, rfl⟩, since, rfl, hopened⟩), ?_⟩
    exact ⟨fun _ => ⟨time, by simp⟩, fun _ => by simp⟩

/-- The step of the invariant: a tracker that has followed a history follows it with the line it takes. -/
theorem advance (h : t.Follows host history) {number : Nat} {line : DriverLine}
    (hadvance : t.advance number line = .ok next) : next.Follows host (history ++ [line]) := by
  cases line with
  | start time url =>
    cases hadvance
    refine ⟨h.host_eq, ?_, ?_, ?_⟩
    · simp [start, h.loadCount_eq, isStart]
    · exact ⟨[], DriverLine.opened_concat_iff.mpr (Or.inl ⟨rfl, rfl⟩), by simp⟩
    · simpa [start, List.filterMap_cons, result?] using h.loads_record
  | domEvent time =>
    obtain ⟨_, rfl⟩ := domEvent_eq_ok_iff.mp hadvance
    refine ⟨h.host_eq, ?_, h.state_domEvent time, ?_⟩
    · simp [h.loadCount_eq, isStart]
    · simpa [List.filterMap_cons, result?] using h.loads_record
  | result reported =>
    obtain ⟨load, hload, rfl⟩ := finish_eq_ok_iff.mp hadvance
    obtain ⟨_, _, _, mode, outcome, _, _, hmode, houtcome, _, rfl⟩ := check_eq_ok_iff.mp hload
    refine ⟨h.host_eq, ?_, ?_, ?_⟩
    · simp [h.loadCount_eq, isStart]
    · intro time url since hopened
      rcases DriverLine.opened_concat_iff.mp hopened with ⟨hline, _⟩ | ⟨⟨_, hresult⟩, _⟩
      · cases hline
      · cases hresult
    · have hrecord : PageLoad.Records host reported (closed t.host mode outcome reported) :=
        ⟨h.host_eq, rfl, rfl, hmode, houtcome, rfl, rfl, rfl, rfl, rfl, rfl, rfl, rfl, rfl⟩
      rw [List.filterMap_append]
      exact List.rel_append h.loads_record (.cons hrecord .nil)

end Follows

end Tracker

end PageLoads
