import PageLoads.Line.ProxyLine
import PageLoads.Log.Lines

namespace PageLoads.ProxyLog

open PageLoads.Line

/-- A report may follow another if neither its time nor a counter is below the other's. -/
def follows (previous report : Report) : Bool :=
  !report.time.lt previous.time && report.counters.dominates previous.counters

def clientStep (number : Nat) (line : List Char) (reports : List Report) : Except Fault (List Report) :=
  match ProxyLine.ofLine line with
  | .error fault => .error (fault.atLine number)
  | .ok (some (.running report)) =>
    if reports.getLast?.all fun previous => follows previous report then .ok (reports ++ [report])
    else .error (.inconsistentLog number .countersWentBackwards)
  | .ok _ => .ok reports

def exitStep (number : Nat) (line : List Char) (reports : List Report) : Except Fault (List Report) :=
  match ProxyLine.ofLine line with
  | .error fault => .error (fault.atLine number)
  | .ok (some (.handler report)) => .ok (reports ++ [report])
  | .ok _ => .ok reports

/-- Reads a client's log as a continuation of the reports already read: the reports afterwards, and the
fault that stopped the reading, if one did. -/
def appendClient (reports : List Report) (lines : LogLines) : List Report × Option Fault :=
  LogLines.scan clientStep 1 reports lines

def readClient (lines : LogLines) : Except Fault (List Report) :=
  LogLines.fold clientStep [] lines

def readExit (lines : LogLines) : Except Fault (List Report) :=
  LogLines.fold exitStep [] lines

end PageLoads.ProxyLog
