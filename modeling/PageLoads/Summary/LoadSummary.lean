import PageLoads.Distribution
import PageLoads.Json.Value
import PageLoads.Number.Decimal
import PageLoads.Summary.Selection

/-!
# Page-load summaries

What the selected page loads of an analysis come to: counts overall and per proxy mode, and for each
mode the load times and the times to the first byte of its successful loads, scaled, rounded to one
decimal and in ascending order. From the samples come distribution tables.
-/

namespace PageLoads

/-- How samples are scaled, and drawn in tables. -/
structure Drawing where
  loadTimeScale : Binary64
  firstByteScale : Binary64
  loadTimeBucket : Binary64
  firstByteBucket : Binary64
  deriving DecidableEq, Repr

inductive Metric where
  | loadTime
  | firstByte
  deriving DecidableEq, Repr

namespace Metric

def all : List Metric :=
  [.loadTime, .firstByte]

def name : Metric → String
  | .loadTime => "plt"
  | .firstByte => "ttfb"

def bucket (drawing : Drawing) : Metric → Binary64
  | .loadTime => drawing.loadTimeBucket
  | .firstByte => drawing.firstByteBucket

end Metric

structure ModeSummary where
  pageLoads : Nat := 0
  timedOut : Nat := 0
  failed : Nat := 0
  /-- The failed requests of all loads, however the loads ended. -/
  failedRequests : Nat := 0
  loadTimes : List Binary64 := []
  firstByteTimes : List Binary64 := []
  deriving DecidableEq, Repr

/-- A value for each proxy mode that occurs. -/
structure PerMode (α : Type) where
  tor : Option α
  proxiedTor : Option α
  deriving DecidableEq, Repr

namespace PerMode

variable {α : Type}

def empty : PerMode α :=
  ⟨none, none⟩

def get? (modes : PerMode α) : ProxyMode → Option α
  | .tor => modes.tor
  | .proxiedTor => modes.proxiedTor

def update (modes : PerMode α) (initial : α) (change : α → α) : ProxyMode → PerMode α
  | .tor => { modes with tor := some (change (modes.tor.getD initial)) }
  | .proxiedTor => { modes with proxiedTor := some (change (modes.proxiedTor.getD initial)) }

def map (change : α → α) (modes : PerMode α) : PerMode α :=
  ⟨modes.tor.map change, modes.proxiedTor.map change⟩

def toList (modes : PerMode α) : List (ProxyMode × α) :=
  ProxyMode.all.filterMap fun mode => (modes.get? mode).map fun value => (mode, value)

end PerMode

structure LoadSummary where
  total : Nat := 0
  failed : Nat := 0
  timedOut : Nat := 0
  failedOnly : Nat := 0
  modes : PerMode ModeSummary := PerMode.empty
  deriving DecidableEq, Repr

namespace LoadSummary

/-- Rounds to one decimal as the decimal text does: the exact value, a half to the even digit. -/
def toTenths (x : Binary64) : Binary64 :=
  (Decimal.binary64? (x.fixed 1).toList).getD x

def sample (scale : Binary64) (milliseconds : UInt64) : Binary64 :=
  toTenths (Binary64.ofNat milliseconds.toNat * scale)

def countInMode (drawing : Drawing) (load : PageLoad) (m : ModeSummary) : ModeSummary :=
  let m := { m with
    pageLoads := m.pageLoads + 1
    failedRequests := m.failedRequests + load.failedRequests.toNat }
  match load.outcome with
  | .succeeded => { m with
      loadTimes := sample drawing.loadTimeScale load.loadMilliseconds :: m.loadTimes
      firstByteTimes := sample drawing.firstByteScale load.firstByteMilliseconds :: m.firstByteTimes }
  | .failed .timedOut => { m with timedOut := m.timedOut + 1 }
  | .failed .failed => { m with failed := m.failed + 1 }

def count (drawing : Drawing) (s : LoadSummary) (load : PageLoad) : LoadSummary :=
  let s := { s with
    total := s.total + 1
    modes := s.modes.update {} (countInMode drawing load) load.mode }
  match load.outcome with
  | .succeeded => s
  | .failed .timedOut => { s with failed := s.failed + 1, timedOut := s.timedOut + 1 }
  | .failed .failed => { s with failed := s.failed + 1, failedOnly := s.failedOnly + 1 }

def sortSamples (m : ModeSummary) : ModeSummary :=
  { m with
    loadTimes := m.loadTimes.mergeSort Binary64.totalLe
    firstByteTimes := m.firstByteTimes.mergeSort Binary64.totalLe }

def ofLoads (selection : Selection) (drawing : Drawing) (loads : List PageLoad) : LoadSummary :=
  let counted := (selection.apply loads).foldl (count drawing) {}
  { counted with modes := counted.modes.map sortSamples }

end LoadSummary

def ModeSummary.samples (m : ModeSummary) : Metric → List Binary64
  | .loadTime => m.loadTimes
  | .firstByte => m.firstByteTimes

structure Table where
  mode : ProxyMode
  metric : Metric
  points : List Distribution.Point
  deriving DecidableEq, Repr

def Table.fileName (stem : String) (table : Table) : String :=
  s!"{stem}-{table.mode.shortName}-{table.metric.name}.cdf"

namespace LoadSummary

/-- The tables of each mode that has samples, the load times first. -/
def tables (drawing : Drawing) (s : LoadSummary) : List Table :=
  s.modes.toList.flatMap fun (mode, m) =>
    (Metric.all.filter fun metric => m.samples metric ≠ []).map fun metric =>
      { mode, metric, points := Distribution.table (metric.bucket drawing) (m.samples metric) }

def countEntries (s : LoadSummary) (count : ModeSummary → Nat) : Json :=
  Json.ofEntries (s.modes.toList.map fun (mode, m) => (mode.name, .integer (count m)))

def entries (s : LoadSummary) : List (String × Json) :=
  [("count_failed_pageloads", s.countEntries ModeSummary.failed),
    ("count_failed_reqs", s.countEntries ModeSummary.failedRequests),
    ("count_pageloads", s.countEntries ModeSummary.pageLoads),
    ("count_timedout_pageloads", s.countEntries ModeSummary.timedOut)]

end LoadSummary

end PageLoads
