import PageLoads.Proofs.Experiment.Listing
import PageLoads.Proofs.Task.Basic

namespace PageLoads

open PageLoads.Line (DriverLine)

variable {store : Store}

namespace DriverLog

/-- The step of a tracker that asks a shared table for the page of a load; the table of its own is not used. -/
def stepTask (number : Nat) (line : List Char) (tracker : Tracker) : Task Fault Tracker :=
  match DriverLine.ofLine line with
  | .error fault => .done (.error (fault.atLine number))
  | .ok none => .done (.ok tracker)
  | .ok (some (.result result)) =>
    match tracker.check result with
    | .error cause => .done (.error (.inconsistentLog number cause))
    | .ok load => .intern load.url fun url =>
      .done (.ok { tracker with state := .idle, loads := tracker.loads ++ [{ load with url }] })
  | .ok (some line) => .done (tracker.advance number line)

def scanTask (number : Nat) (tracker : Tracker) : LogLines → Task Fault Tracker
  | [] => pure tracker
  | .error fault :: _ => .done (.error (.io fault))
  | .ok line :: rest => do scanTask (number + 1) (← stepTask number line tracker) rest

def readTask (host : String) (lines : LogLines) : Task Fault (List PageLoad) := do
  let tracker ← scanTask 1 (Tracker.new host Interner.empty) lines
  return tracker.loads

theorem alone_stepTask (number : Nat) (line : List Char) (tracker : Tracker) (table : Interner) :
    (stepTask number line tracker).alone store table =
      (step number line { tracker with table }).map fun next =>
        ({ next with table := tracker.table }, next.table) := by
  unfold stepTask step
  cases DriverLine.ofLine line with
  | error fault => rfl
  | ok found =>
    rcases found with _ | ⟨time, url⟩ | time | result
    · rfl
    · rfl
    · obtain ⟨host, own, loadCount, state, loads⟩ := tracker
      simp only [Tracker.advance, Tracker.domEvent]
      split
      · rfl
      · cases state <;> rfl
    · have hcheck : ({ tracker with table } : Tracker).check result = tracker.check result := rfl
      simp only [Tracker.advance, Tracker.finish, hcheck]
      cases tracker.check result with
      | error cause => rfl
      | ok load => exact Task.alone_intern _ _ _

theorem alone_scanTask (number : Nat) (tracker : Tracker) (table : Interner) (lines : LogLines) :
    (scanTask number tracker lines).alone store table =
      match LogLines.scan step number { tracker with table } lines with
      | (last, none) => .ok ({ last with table := tracker.table }, last.table)
      | (_, some fault) => .error fault := by
  induction lines generalizing number tracker table with
  | nil => rfl
  | cons line rest ih =>
    cases line with
    | error fault => rfl
    | ok line =>
      rw [scanTask, Task.alone_bind, alone_stepTask, LogLines.scan]
      cases step number line { tracker with table } with
      | error fault => rfl
      | ok next => exact ih _ _ _

theorem alone_readTask (host : String) (table : Interner) (lines : LogLines) :
    (readTask host lines).alone store table = read host table lines := by
  rw [readTask, Task.alone_bind, alone_scanTask, read, LogLines.fold]
  have hnew : ({ Tracker.new host Interner.empty with table } : Tracker) = Tracker.new host table := rfl
  rw [hnew]
  rcases LogLines.scan step 1 (Tracker.new host table) lines with ⟨last, _ | fault⟩
  · rfl
  · rfl

theorem steady_stepTask (number : Nat) (line : List Char) (tracker : Tracker) :
    (stepTask number line tracker).Steady := by
  unfold stepTask
  split
  · trivial
  · trivial
  · split
    · trivial
    · exact fun _ => trivial
  · trivial

theorem steady_scanTask (number : Nat) (tracker : Tracker) (lines : LogLines) :
    (scanTask number tracker lines).Steady := by
  induction lines generalizing number tracker with
  | nil => trivial
  | cons line rest ih =>
    cases line with
    | error fault => trivial
    | ok line => exact (steady_stepTask number line tracker).bind fun next => ih (number + 1) next

theorem steady_readTask (host : String) (lines : LogLines) : (readTask host lines).Steady :=
  (steady_scanTask _ _ _).bind fun _ => trivial

end DriverLog

namespace Experiment

variable {settings : ParseSettings}

def logPathsTask (stem : String) (directory : Trail) : Task Failure (List Trail) :=
  .list directory fun listed => .done (logPathsOf stem directory listed)

def driverLogsTask (store : Store) (host : String) (loads : List PageLoad) :
    List Trail → Task Failure (List PageLoad)
  | [] => pure loads
  | path :: rest => do
    let log ← .done (lines store path)
    let found ← (DriverLog.readTask host log).mapError fun fault =>
      (Failure.ofFault fault).during (.parsingDriverLog path.shown)
    driverLogsTask store host (loads ++ found) rest

/-- The logs of a host whose records bear a name. -/
def hostLogsTask (store : Store) (settings : ParseSettings) (name : String) (host : Host) :
    Task Failure HostLogs :=
  match host.role with
  | .webClient => do
    let driverPaths ← logPathsTask settings.driverLogStem host.path
    let loads ← driverLogsTask store name [] driverPaths
    let proxyPaths ← logPathsTask settings.proxyLogStem host.path
    let running ← .done (clientLogs store [] proxyPaths)
    return { loads, running, handlers := [] }
  | .exitRelay => do
    let proxyPaths ← logPathsTask settings.proxyLogStem host.path
    let handlers ← .done (exitLogs store [] proxyPaths)
    return { loads := [], running := [], handlers }

/-- The logs of a host and the instance of its name, which is asked for first. -/
def hostTask (store : Store) (settings : ParseSettings) (host : Host) : Task Failure (String × HostLogs) :=
  .intern host.name fun name => do return (name, ← hostLogsTask store settings name host)

theorem alone_logPathsTask (stem : String) (directory : Trail) (table : Interner) :
    (logPathsTask stem directory).alone store table =
      (logPaths store stem directory).map fun paths => (paths, table) := rfl

theorem alone_driverLogsTask (host : String) (loads : List PageLoad) (table : Interner) (paths : List Trail) :
    (driverLogsTask store host loads paths).alone store table = driverLogs store host loads table paths := by
  induction paths generalizing loads table with
  | nil => rfl
  | cons path rest ih =>
    simp only [driverLogsTask, driverLogs, Task.alone_bind, Task.alone_mapError, DriverLog.alone_readTask, ih,
      Task.alone]
    cases lines store path <;> rfl

/-- Alone, the task of a host reads what is read of the host with the same table. -/
theorem alone_hostLogsTask (table : Interner) (host : Host) :
    (hostLogsTask store settings host.name host).alone store table = hostLogs store settings table host := by
  obtain ⟨name, path, role⟩ := host
  cases role with
  | webClient =>
    simp only [hostLogsTask, hostLogs, Task.alone_bind, alone_logPathsTask, alone_driverLogsTask, Task.alone,
      Except.map_bind]
    rfl
  | exitRelay =>
    simp only [hostLogsTask, hostLogs, Task.alone_bind, alone_logPathsTask, Task.alone, Except.map_bind]
    rfl

theorem outcome_hostTask (table : Interner) (host : Host) :
    (hostTask store settings host).outcome store =
      (hostLogs store settings table host).map fun (logs, _) => (host.name, logs) := by
  have hlogs : (hostLogs store settings table host).map Prod.fst =
      (hostLogsTask store settings host.name host).outcome store := by
    rw [← alone_hostLogsTask, Task.map_fst_alone]
  have hasked : (hostTask store settings host).outcome store =
      (hostLogsTask store settings host.name host >>= fun logs => pure (host.name, logs)).outcome store := rfl
  rw [hasked, Task.outcome_bind, ← hlogs, Except.map_bind]
  cases hostLogs store settings table host <;> rfl

theorem steady_logPathsTask (stem : String) (directory : Trail) : (logPathsTask stem directory).Steady := by
  refine ⟨fun _ => trivial, ?_⟩
  intro listed others hnames
  exact congrArg Task.done (logPathsOf_eq hnames)

theorem steady_driverLogsTask (host : String) (loads : List PageLoad) (paths : List Trail) :
    (driverLogsTask store host loads paths).Steady := by
  induction paths generalizing loads with
  | nil => trivial
  | cons path rest ih =>
    refine (Task.steady_done _).bind fun log => ?_
    exact ((DriverLog.steady_readTask host log).mapError _).bind fun found => ih (loads ++ found)

theorem steady_hostTask (host : Host) : (hostTask store settings host).Steady := by
  intro name
  refine Task.Steady.bind ?_ fun logs => trivial
  unfold hostLogsTask
  split
  · refine (steady_logPathsTask _ _).bind fun driverPaths => ?_
    refine (steady_driverLogsTask _ _ _).bind fun loads => ?_
    refine (steady_logPathsTask _ _).bind fun proxyPaths => ?_
    exact (Task.steady_done _).bind fun running => trivial
  · refine (steady_logPathsTask _ _).bind fun proxyPaths => ?_
    exact (Task.steady_done _).bind fun handlers => trivial

end Experiment

end PageLoads
