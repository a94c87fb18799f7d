import PageLoads.Interner
import PageLoads.Line.DriverLine
import PageLoads.PageLoad

/-!
# Tracking page loads

A client loads pages one at a time. A tracker follows one driver log: a start opens a load, replacing
one that is still open, and a result closes the open load after every check that ties the two
together. A step that fails leaves the tracker as it was.
-/

namespace PageLoads

open PageLoads.Line (ResultLine DriverLine)

inductive LoadState where
  | idle
  | loading (url : String) (started : Binary64) (domEvent : Option Binary64)
  deriving DecidableEq, Repr

structure Tracker where
  host : String
  table : Interner
  /-- How many loads were started; it is meant for logs of fewer than 2³² starts. -/
  loadCount : Nat
  state : LoadState
  loads : List PageLoad

namespace Tracker

def new (host : String) (table : Interner) : Tracker where
  host
  table
  loadCount := 0
  state := .idle
  loads := []

def start (url : String) (time : Binary64) (t : Tracker) : Tracker :=
  { t with loadCount := t.loadCount + 1, state := .loading url time none }

/-- Notes a DOM load event of the open load, the last one if there are several; between loads it means
nothing. -/
def domEvent (line : Nat) (time : Binary64) (t : Tracker) : Except Fault Tracker :=
  if t.loadCount = 0 then .error (.inconsistentLog line .domEventBeforeLoad)
  else
    match t.state with
    | .idle => .ok t
    | .loading url started _ => .ok { t with state := .loading url started (some time) }

def closed (host : String) (mode : ProxyMode) (outcome : Outcome) (result : ResultLine) : PageLoad where
  host
  number := result.number
  url := result.url
  mode
  outcome
  startSecond := result.startSecond
  reportTime := result.time
  loadMilliseconds := result.loadMilliseconds
  firstByteMilliseconds := result.firstByteMilliseconds
  requests := result.requests
  succeededRequests := result.succeededRequests
  failedRequests := result.failedRequests
  requestsAfterDom := result.requestsAfterDom
  forcedRequests := result.forcedRequests

/-- The checks of a result against the open load, in order, and the record they lead to. -/
def check (t : Tracker) (result : ResultLine) : Except Inconsistency PageLoad := do
  if t.loadCount = 0 then throw .resultBeforeLoad
  match t.state with
  | .idle => throw (.noOpenLoad result.url)
  | .loading url _ domEvent =>
    if result.url ≠ url then throw (.otherUrl result.url url)
    if result.number.toNat ≠ t.loadCount then throw (.otherNumber result.number.toNat t.loadCount)
    let some mode := ProxyMode.ofName? result.proxyMode | throw (.unknownProxyMode result.proxyMode)
    let some outcome := Outcome.ofName? result.outcome | throw (.unknownOutcome result.outcome)
    if outcome = .succeeded ∧ domEvent = none then throw (.noDomEvent result.number.toNat)
    return closed t.host mode outcome result

def finish (line : Nat) (result : ResultLine) (t : Tracker) : Except Fault Tracker :=
  match t.check result with
  | .error cause => .error (.inconsistentLog line cause)
  | .ok load => .ok { t with table := t.table.insert load.url, state := .idle, loads := t.loads ++ [load] }

def advance (line : Nat) (t : Tracker) : DriverLine → Except Fault Tracker
  | .start time url => .ok (t.start url time)
  | .domEvent time => t.domEvent line time
  | .result result => t.finish line result

end Tracker

end PageLoads
