import PageLoads.Analysis.Findings

namespace PageLoads.Console

/-- The counts of page loads, overall and for each proxy mode that occurs. -/
def loadLines (s : LoadSummary) : List String :=
  ["========== summary ==========", "web results", s!"total num result {s.total}",
    s!"numbadresult (succeeded != true): {s.failed}. due to...", s!"    timeout: {s.timedOut}",
    s!"    failed: {s.failedOnly}"] ++
  s.modes.toList.map fun (mode, m) =>
    s!"  {mode.name}: {m.pageLoads} page loads, {m.timedOut} timed out, {m.failed} failed, {m.failedRequests} failed requests"

def percentText : Option Binary64 → String
  | some percent => percent.fixed 2 ++ "%"
  | none => "n/a"

def totalsLines (label : String) (totals : Counters) : Except Failure (List String) := do
  let overheads ← Traffic.Overheads.ofTotals totals
  return ["", s!"{label}:"] ++ totals.named.map (fun (name, value) => s!"  {name}: {value}") ++
    [s!"  recv byte overhead: {percentText overheads.received}",
      s!"  send byte overhead: {percentText overheads.sent}",
      s!"  overall byte overhead: {percentText overheads.overall}"]

def lines (findings : Findings) : Except Failure (List String) := do
  let loads := match findings.loads with
    | some summary => loadLines summary
    | none => []
  let totals ← match findings.totals with
    | some (clients, handlers) =>
      pure ((← totalsLines "client-side proxy totals" clients) ++
        (← totalsLines "exit-side handler totals" handlers))
    | none => pure []
  return findings.infoLines ++ loads ++ totals

def text (lines : List String) : String :=
  String.join (lines.map fun line => line ++ "\n")

end PageLoads.Console
