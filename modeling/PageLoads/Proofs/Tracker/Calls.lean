import PageLoads.Proofs.Interner
import PageLoads.Proofs.Tracker.History

/-!
# Calls on a tracker

A tracker is driven by calls, and some of them fail. Each call is spelled out here with its effects on the
tracker in their order, so that what a failing call has changed by then would stay. Nothing does: the
effects stand behind all checks. The count, the open load, the records and the table of texts therefore
agree after any calls, those that failed among them.
-/

namespace PageLoads

open PageLoads.Line

def Line.DriverLine.start? : DriverLine → Option (Binary64 × String)
  | .start time url => some (time, url)
  | _ => none

namespace Tracker

/-- A call may change the tracker and may fail; a failure leaves the changes made before it. -/
abbrev Call := EStateM Fault Tracker Unit

namespace Call

def start (url : String) (time : Binary64) : Call := do
  modify fun t => { t with loadCount := t.loadCount + 1 }
  modify fun t => { t with state := .loading url time none }

def domEvent (line : Nat) (time : Binary64) : Call := do
  if (← get).loadCount = 0 then throw (.inconsistentLog line .domEventBeforeLoad)
  match (← get).state with
  | .loading url started _ => modify fun t => { t with state := .loading url started (some time) }
  | .idle => return

def finish (line : Nat) (result : ResultLine) : Call := do
  if (← get).loadCount = 0 then throw (.inconsistentLog line .resultBeforeLoad)
  match (← get).state with
  | .idle => throw (.inconsistentLog line (.noOpenLoad result.url))
  | .loading url _ domEvent =>
    if result.url ≠ url then throw (.inconsistentLog line (.otherUrl result.url url))
    if result.number.toNat ≠ (← get).loadCount then
      throw (.inconsistentLog line (.otherNumber result.number.toNat (← get).loadCount))
    let some mode := ProxyMode.ofName? result.proxyMode
      | throw (.inconsistentLog line (.unknownProxyMode result.proxyMode))
    let some outcome := Outcome.ofName? result.outcome
      | throw (.inconsistentLog line (.unknownOutcome result.outcome))
    if outcome = .succeeded ∧ domEvent = none then
      throw (.inconsistentLog line (.noDomEvent result.number.toNat))
    modify fun t => { t with table := t.table.insert result.url }
    modify fun t => { t with loads := t.loads ++ [closed t.host mode outcome result] }
    modify fun t => { t with state := .idle }

/-- The call that a driver line of some number makes. -/
def ofLine (number : Nat) : DriverLine → Call
  | .start time url => start url time
  | .domEvent time => domEvent number time
  | .result reported => finish number reported

def after (call : Call) (t : Tracker) : Tracker :=
  match call.run t with
  | .ok _ next | .error _ next => next

end Call

/-- The tracker behind calls made one after another, each of a line and its number. Those that fail are
passed over. -/
def afterCalls (t : Tracker) (calls : List (Nat × DriverLine)) : Tracker :=
  calls.foldl (fun t (number, line) => (Call.ofLine number line).after t) t

variable {host : String} {starts : List (Binary64 × String)} {t next : Tracker} {number : Nat}
  {line : DriverLine}

/-- How a call ends that makes a step of some outcome: a failure finds the tracker as it was. -/
def Call.ending (t : Tracker) : Except Fault Tracker → EStateM.Result Fault Tracker Unit
  | .ok next => .ok () next
  | .error fault => .error fault t

theorem Call.run_start {url : String} {time : Binary64} :
    (Call.start url time).run t = .ok () (t.start url time) := by
  simp [Call.start, Tracker.start]

theorem Call.run_domEvent {time : Binary64} :
    (Call.domEvent number time).run t = Call.ending t (t.domEvent number time) := by
  obtain ⟨host, table, loadCount, state, loads⟩ := t
  by_cases hcount : loadCount = 0
  · simp [Call.domEvent, Tracker.domEvent, Call.ending, hcount]
  · cases state <;> simp [Call.domEvent, Tracker.domEvent, Call.ending, hcount]

theorem Call.run_finish {result : ResultLine} :
    (Call.finish number result).run t = Call.ending t (t.finish number result) := by
  obtain ⟨host, table, loadCount, state, loads⟩ := t
  simp only [Tracker.finish, Tracker.check, bind, Except.bind, throw, throwThe, MonadExceptOf.throw, pure,
    Except.pure]
  -- One case for each check, in the order in which both make them.
  by_cases hcount : loadCount = 0
  · simp [Call.finish, Call.ending, hcount]
  cases state with
  | idle => simp [Call.finish, Call.ending, hcount]
  | loading url started event =>
    by_cases hurl : result.url = url
    · subst hurl
      by_cases hnumber : result.number.toNat = loadCount
      · cases hmode : ProxyMode.ofName? result.proxyMode with
        | none => simp [Call.finish, Call.ending, hcount, hnumber, hmode]
        | some mode =>
          cases houtcome : Outcome.ofName? result.outcome with
          | none => simp [Call.finish, Call.ending, hcount, hnumber, hmode, houtcome]
          | some outcome =>
            by_cases hevent : outcome = .succeeded ∧ event = none
            · simp [Call.finish, Call.ending, hcount, hnumber, hmode, houtcome, hevent]
            · simp [Call.finish, Call.ending, hcount, hnumber, hmode, houtcome, hevent, closed]
      · simp [Call.finish, Call.ending, hcount, hnumber]
    · simp [Call.finish, Call.ending, hcount, hurl]

/-- A call makes the step that reading the line makes, and ends as this step does. -/
theorem Call.run_ofLine : (Call.ofLine number line).run t = Call.ending t (t.advance number line) := by
  cases line with
  | start time url => exact run_start
  | domEvent time => exact run_domEvent
  | result reported => exact run_finish

theorem Call.run_ofLine_cases (t : Tracker) (number : Nat) (line : DriverLine) :
    (∃ next, t.advance number line = .ok next ∧ (Call.ofLine number line).run t = .ok () next) ∨
      ∃ fault, t.advance number line = .error fault ∧ (Call.ofLine number line).run t = .error fault t := by
  rw [run_ofLine]
  cases hstep : t.advance number line with
  | ok next => exact Or.inl ⟨next, rfl, rfl⟩
  | error fault => exact Or.inr ⟨fault, rfl, rfl⟩

/-- The count, the open load, the records and the table of a tracker agree with each other and with the
starts so far. -/
structure Consistent (host : String) (starts : List (Binary64 × String)) (t : Tracker) : Prop where
  loadCount_eq : t.loadCount = starts.length
  one_le_number : ∀ load ∈ t.loads, 1 ≤ load.number.toNat
  number_le_loadCount : ∀ load ∈ t.loads, load.number.toNat ≤ t.loadCount
  numbers_increase : t.loads.Pairwise fun earlier later => earlier.number < later.number
  /-- An open load is the latest one started, and no record is of it. -/
  loading : ∀ url started event, t.state = .loading url started event →
    starts.getLast? = some (started, url) ∧ ∀ load ∈ t.loads, load.number.toNat < t.loadCount
  /-- If no load is open then the last record is of the latest one started, unless none was. -/
  idle : t.state = .idle → (starts = [] ∧ t.loads = []) ∨
    ∃ load, t.loads.getLast? = some load ∧ load.number.toNat = t.loadCount
  table_holds : ∀ text, text ∈ t.table.texts ↔ text = host ∨ ∃ load ∈ t.loads, load.url = text

theorem consistent_new (host : String) : (new host (Interner.empty.insert host)).Consistent host [] where
  loadCount_eq := rfl
  one_le_number := nofun
  number_le_loadCount := nofun
  numbers_increase := List.Pairwise.nil
  loading := nofun
  idle := fun _ => Or.inl ⟨rfl, rfl⟩
  table_holds := by simp [new, Interner.mem_texts_insert_iff, Interner.empty]

namespace Consistent

theorem start (h : t.Consistent host starts) (url : String) (time : Binary64) :
    (t.start url time).Consistent host (starts ++ [(time, url)]) where
  loadCount_eq := by simp [Tracker.start, h.loadCount_eq]
  one_le_number := h.one_le_number
  number_le_loadCount := fun load hload => Nat.le_succ_of_le (h.number_le_loadCount load hload)
  numbers_increase := h.numbers_increase
  loading := by
    intro url' started event hstate
    cases hstate
    exact ⟨List.getLast?_concat, fun load hload => Nat.lt_succ_of_le (h.number_le_loadCount load hload)⟩
  idle := nofun
  table_holds := h.table_holds

theorem domEvent (h : t.Consistent host starts) {time : Binary64}
    (hnext : t.domEvent number time = .ok next) : next.Consistent host starts := by
  obtain ⟨_, rfl⟩ := domEvent_eq_ok_iff.mp hnext
  refine ⟨h.loadCount_eq, h.one_le_number, h.number_le_loadCount, h.numbers_increase, ?_, ?_, h.table_holds⟩
  · intro url started event hstate
    cases hkept : t.state with
    | idle => simp [hkept] at hstate
    | loading url' started' event' =>
      simp only [hkept, LoadState.loading.injEq] at hstate
      obtain ⟨rfl, rfl, _⟩ := hstate
      exact h.loading _ _ _ hkept
  · intro hstate
    cases hkept : t.state with
    | idle => exact h.idle hkept
    | loading url started event => simp [hkept] at hstate

/-- A result is of the latest start, which no record is of yet, so its number is above all others. -/
theorem finish (h : t.Consistent host starts) {result : ResultLine}
    (hnext : t.finish number result = .ok next) : next.Consistent host starts := by
  obtain ⟨load, hcheck, rfl⟩ := finish_eq_ok_iff.mp hnext
  obtain ⟨hcount, started, event, mode, outcome, hstate, hnumber, _, _, _, rfl⟩ := check_eq_ok_iff.mp hcheck
  obtain ⟨_, hbelow⟩ := h.loading _ _ _ hstate
  have hclosed : (closed t.host mode outcome result).number.toNat = t.loadCount := hnumber
  refine ⟨h.loadCount_eq, ?_, ?_, ?_, nofun, ?_, ?_⟩
  · intro load hload
    rcases List.mem_append.mp hload with hload | hload
    · exact h.one_le_number load hload
    · rw [List.mem_singleton.mp hload, hclosed]
      exact Nat.pos_of_ne_zero hcount
  · intro load hload
    rcases List.mem_append.mp hload with hload | hload
    · exact h.number_le_loadCount load hload
    · rw [List.mem_singleton.mp hload]
      exact Nat.le_of_eq hclosed
  · refine List.pairwise_append.mpr ⟨h.numbers_increase, List.pairwise_singleton _ _, ?_⟩
    intro earlier hearlier later hlater
    rw [List.mem_singleton.mp hlater, UInt32.lt_iff_toNat_lt, hclosed]
    exact hbelow earlier hearlier
  · intro _
    exact Or.inr ⟨_, List.getLast?_concat, hclosed⟩
  · intro text
    rw [Interner.mem_texts_insert_iff, h.table_holds text]
    simp only [List.mem_append, List.mem_singleton, or_and_right, exists_or, exists_eq_left, or_assoc,
      eq_comm (a := text)]

theorem advance (h : t.Consistent host starts) (hnext : t.advance number line = .ok next) :
    next.Consistent host (starts ++ line.start?.toList) := by
  cases line with
  | start time url =>
    rw [← Except.ok.inj hnext]
    exact h.start url time
  | domEvent time =>
    change next.Consistent host (starts ++ [])
    rw [List.append_nil]
    exact h.domEvent hnext
  | result reported =>
    change next.Consistent host (starts ++ [])
    rw [List.append_nil]
    exact h.finish hnext

/-- The step of the invariant: a call keeps what agrees, and a start, which never fails, is one more start. -/
theorem call (h : t.Consistent host starts) (number : Nat) (line : DriverLine) :
    ((Call.ofLine number line).after t).Consistent host (starts ++ line.start?.toList) := by
  unfold Call.after
  rcases Call.run_ofLine_cases t number line with ⟨next, hnext, hrun⟩ | ⟨fault, hfault, hrun⟩
  · rw [hrun]
    exact h.advance hnext
  · have hnone : line.start? = none := by
      cases line with
      | start time url => cases hfault
      | domEvent time => rfl
      | result reported => rfl
    rw [hrun, hnone, Option.toList_none, List.append_nil]
    exact h

theorem afterCalls (h : t.Consistent host starts) (calls : List (Nat × DriverLine)) :
    (t.afterCalls calls).Consistent host (starts ++ calls.filterMap fun (_, line) => line.start?) := by
  induction calls generalizing t starts with
  | nil => simpa [Tracker.afterCalls] using h
  | cons first rest ih =>
    obtain ⟨number, line⟩ := first
    have hrest := ih (h.call number line)
    have hstarts : starts ++ ((number, line) :: rest).filterMap (fun (_, line) => line.start?) =
        starts ++ line.start?.toList ++ rest.filterMap fun (_, line) => line.start? := by
      cases hline : line.start? <;> simp [hline]
    rw [hstarts]
    exact hrest

end Consistent

/-- After any calls on a new tracker whose table holds the host's name, whichever of them failed, the count,
the open load, the records and the table agree. A call makes the step that reading a line makes, and where
this step fails the tracker stays as it was, whatever tracker it is. -/
theorem consistent_afterCalls_and_unchanged (host : String) (calls : List (Nat × DriverLine)) :
    ((new host (Interner.empty.insert host)).afterCalls calls).Consistent host
      (calls.filterMap fun (_, line) => line.start?) ∧
    ∀ (t : Tracker) (number : Nat) (line : DriverLine),
      (∃ next, t.advance number line = .ok next ∧ (Call.ofLine number line).run t = .ok () next) ∨
        ∃ fault, t.advance number line = .error fault ∧ (Call.ofLine number line).run t = .error fault t :=
  ⟨(consistent_new host).afterCalls calls, Call.run_ofLine_cases⟩

end Tracker

end PageLoads
