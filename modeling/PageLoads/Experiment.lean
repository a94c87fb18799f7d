import PageLoads.HostRole
import PageLoads.Log.DriverLog
import PageLoads.Log.Opening
import PageLoads.Log.ProxyLog
import PageLoads.Log.SimulatorLog

/-!
# Reading experiments

An experiment is a directory with the log of the simulator and a directory for each host. The hosts
whose names give them a role are read in the order of their names as they are shown, and the logs of each in
the order of the bytes of their names. Hosts whose names are shown alike are one host, and their directories
are read in the order in which they are listed. The first fault ends the reading.
-/

namespace PageLoads.Experiment

structure Host where
  name : String
  path : Trail
  role : HostRole
  deriving DecidableEq, Repr

/-- The host of a name in a directory, if the name gives it a role. -/
def host? (settings : ParseSettings) (directory : Trail) (name : Name) : Option Host :=
  (HostRole.ofName? settings name.shown).map fun role =>
    { name := name.shown, path := directory.child name, role }

def orderedHosts (hosts : List Host) : List Host :=
  hosts.mergeSort fun a b => a.name ≤ b.name

def orderedNames (names : List Name) : List Name :=
  names.mergeSort fun a b => a.bytes ≤ b.bytes

/-- The hosts in a directory that are read, in the order of their names. -/
def hosts (store : Store) (settings : ParseSettings) (directory : String) :
    Except Failure (List Host) := do
  let names ← (store.list directory).mapError fun fault =>
    (Failure.ofFault (.io fault)).during (.listingHosts directory)
  return orderedHosts (names.filterMap (host? settings directory))

/-- The paths in a host directory whose names have a stem, in the order of the names. -/
def logPaths (store : Store) (stem : String) (directory : Trail) : Except Failure (List Trail) := do
  let names ← (store.list directory).mapError fun fault =>
    (Failure.ofFault (.io fault)).during (.listingHost directory.shown)
  return (orderedNames (names.filter fun name => Text.hasStem stem name.shown)).map directory.child

def lines (store : Store) (path : Trail) : Except Failure LogLines :=
  match store.openByName path with
  | .ok content => .ok (LogLines.ofContent content)
  | .error fault => .error ((Failure.ofFault (.io fault)).during (.openingLog path.shown))

def driverLogs (store : Store) (host : String) (loads : List PageLoad) (table : Interner) :
    List Trail → Except Failure (List PageLoad × Interner)
  | [] => .ok (loads, table)
  | path :: rest => do
    let (found, table) ← (DriverLog.read host table (← lines store path)).mapError fun fault =>
      (Failure.ofFault fault).during (.parsingDriverLog path.shown)
    driverLogs store host (loads ++ found) table rest

/-- The reports in the proxy logs of a client, each log continuing the one before it. -/
def clientLogs (store : Store) (reports : List Report) : List Trail → Except Failure (List Report)
  | [] => .ok reports
  | path :: rest => do
    match ProxyLog.appendClient reports (← lines store path) with
    | (reports, none) => clientLogs store reports rest
    | (_, some fault) => throw ((Failure.ofFault fault).during (.parsingProxyLog path.shown))

def exitLogs (store : Store) (reports : List Report) : List Trail → Except Failure (List Report)
  | [] => .ok reports
  | path :: rest => do
    let found ← (ProxyLog.readExit (← lines store path)).mapError fun fault =>
      (Failure.ofFault fault).during (.parsingProxyLog path.shown)
    exitLogs store (reports ++ found) rest

def hostLogs (store : Store) (settings : ParseSettings) (table : Interner) (host : Host) :
    Except Failure (HostLogs × Interner) :=
  match host.role with
  | .webClient => do
    let driverPaths ← logPaths store settings.driverLogStem host.path
    let (loads, table) ← driverLogs store host.name [] table driverPaths
    let proxyPaths ← logPaths store settings.proxyLogStem host.path
    let running ← clientLogs store [] proxyPaths
    return ({ loads, running, handlers := [] }, table)
  | .exitRelay => do
    let proxyPaths ← logPaths store settings.proxyLogStem host.path
    let handlers ← exitLogs store [] proxyPaths
    return ({ loads := [], running := [], handlers }, table)

/-- Adds what the logs of some hosts hold to a trial. All hosts share one table of interned texts. -/
def addHosts (store : Store) (settings : ParseSettings) (trial : Trial) (table : Interner) :
    List Host → Except Failure Trial
  | [] => .ok trial
  | host :: rest => do
    let (logs, table) ← hostLogs store settings (table.insert host.name) host
    addHosts store settings (trial.addHost host.name logs) table rest

def run (store : Store) (settings : ParseSettings) (directory : String) : Except Failure Run := do
  let (path, content) ←
    (Log.openFirst store (Log.candidates directory settings.simulatorLog)).mapError .ofFault
  (SimulatorLog.read (LogLines.ofContent content)).mapError fun fault =>
    (Failure.ofFault fault).during (.parsingSimulatorLog path)

def read (store : Store) (settings : ParseSettings) (directory description : String) :
    Except Failure Trial := do
  let run ← run store settings directory
  let hosts ← hosts store settings (Path.join directory settings.hostsDir)
  addHosts store settings (Trial.empty run description) Interner.empty hosts

end PageLoads.Experiment
