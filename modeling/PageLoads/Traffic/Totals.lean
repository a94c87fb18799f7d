import PageLoads.Json.Value
import PageLoads.Trial
import PageLoads.Fault

namespace PageLoads.Traffic

/-- What a client's reports say of its traffic since a cutoff. -/
def delta (cutoff : Binary64) (reports : List Report) : Except DeltaFault Counters :=
  match reports.dropWhile fun report => !cutoff.le report.time with
  | [] => .error .noReport
  | [_] => .error .singleReport
  | first :: second :: rest =>
    match ((second :: rest).getLastD second).counters.sub? first.counters with
    | some counters => .ok counters
    | none => .error .countersWentBackwards

def hostDelta (host : String) (cutoff : Binary64) (reports : List Report) : Except Fault Counters :=
  (delta cutoff reports).mapError (.insufficientReports host)

/-- The sum of counters, which ends the run if it is too large. -/
def sum (a b : Counters) : Except Failure Counters :=
  match a.add? b with
  | some total => .ok total
  | none => .error (.ofCrash .sumTooLarge)

def clientTotals (cutoff : Binary64) (running : List (String × List Report)) : Except Failure Counters :=
  running.foldlM (fun total (host, reports) => do
    sum total (← (hostDelta host cutoff reports).mapError .ofFault)) Counters.zero

def handlerTotals (cutoff : Binary64) (reports : List Report) : Except Failure Counters :=
  (reports.filter fun report => cutoff.le report.time).foldlM (fun total report =>
    sum total report.counters) Counters.zero

/-- How much more was carried than was useful, in percent of what was useful, if anything was. -/
def overheadPercent (all useful : UInt64) : Option Binary64 :=
  if useful = 0 then none
  else
    let useful := Binary64.ofNat useful.toNat
    some ((Binary64.ofNat all.toNat - useful) / useful * Binary64.ofNat 100)

/-- The overheads of what was received, of what was sent, and of both together. -/
structure Overheads where
  received : Option Binary64
  sent : Option Binary64
  overall : Option Binary64
  deriving DecidableEq, Repr

def sumWords (a b : UInt64) : Except Failure UInt64 :=
  match Counters.wordAdd? a b with
  | some total => .ok total
  | none => .error (.ofCrash .sumTooLarge)

def Overheads.ofTotals (totals : Counters) : Except Failure Overheads := do
  let all ← sumWords totals.receivedBytes totals.sentBytes
  let useful ← sumWords totals.receivedUsefulBytes totals.sentUsefulBytes
  return {
    received := overheadPercent totals.receivedBytes totals.receivedUsefulBytes
    sent := overheadPercent totals.sentBytes totals.sentUsefulBytes
    overall := overheadPercent all useful }

def totalsEntry (totals : Counters) : Except Failure Json := do
  let overheads ← Overheads.ofTotals totals
  return Json.ofEntries (totals.named.map (fun (name, value) => (name, Json.ofWord value)) ++
    [("recv_byte_overhead_percent", Json.ofDouble? overheads.received),
      ("send_byte_overhead_percent", Json.ofDouble? overheads.sent),
      ("overall_byte_overhead_percent", Json.ofDouble? overheads.overall)])

/-- The client totals and the handler totals of several trials: added up trial by trial. Trials are
named by the paths they were read from. -/
def trialTotals (cutoff : Binary64) (trials : List (String × Trial)) : Except Failure (Counters × Counters) :=
  trials.foldlM (fun (clients, handlers) (path, trial) => do
    let ofClients ← (clientTotals cutoff trial.running).mapError (.during (.totallingTraffic path))
    let clients ← sum clients ofClients
    let ofHandlers ← handlerTotals cutoff trial.handlers
    let handlers ← sum handlers ofHandlers
    return (clients, handlers)) (Counters.zero, Counters.zero)

end PageLoads.Traffic
