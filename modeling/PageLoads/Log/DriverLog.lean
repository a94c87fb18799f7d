import PageLoads.Log.Lines
import PageLoads.Log.Tracker

namespace PageLoads.DriverLog

open PageLoads.Line

def step (number : Nat) (line : List Char) (tracker : Tracker) : Except Fault Tracker :=
  match DriverLine.ofLine line with
  | .error fault => .error (fault.atLine number)
  | .ok none => .ok tracker
  | .ok (some line) => tracker.advance number line

/-- The closed page loads of a log in the order of their results, and the table of interned texts. -/
def read (host : String) (table : Interner) (lines : LogLines) : Except Fault (List PageLoad × Interner) :=
  (LogLines.fold step (Tracker.new host table) lines).map fun tracker => (tracker.loads, tracker.table)

end PageLoads.DriverLog
