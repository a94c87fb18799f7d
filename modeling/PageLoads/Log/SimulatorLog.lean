import PageLoads.Line.Banner
import PageLoads.Log.Lines
import PageLoads.Trial

/-!
# The simulator's log

The first line must be a startup banner and the last line that is not blank a shutdown banner of the
same release; the first init banner after the first line gives the start time.
-/

namespace PageLoads.SimulatorLog

open PageLoads.Line

/-- The release that the first line names; a log without lines has an empty first line. -/
def startupRelease (line : List Char) : Except Fault String :=
  match Banner.ofLine? line with
  | some (.startup release) => .ok release
  | _ => .error (.format (some 1) (.notStartupBanner (String.ofList line)))

def initTime? (line : List Char) : Option String :=
  match Banner.ofLine? line with
  | some (.init startTime) => some startTime
  | _ => none

/-- The completion time that the last line gives if it is a shutdown banner of the release. -/
def completionTime (release : String) (last : List Char) : Except Fault String :=
  match Banner.ofLine? last with
  | some (.shutdown found completionTime) =>
    if found = release then .ok completionTime
    else .error (.uncleanShutdown (.otherRelease found release))
  | _ => .error (.uncleanShutdown (.notShutdownBanner (String.ofList last)))

/-- A line as text, a fault of reading as a fault of the log. -/
def text (line : Except IoFault (List Char)) : Except Fault (List Char) :=
  line.mapError .io

def read (lines : LogLines) : Except Fault Run := do
  let first ← text (lines.headD (.ok []))
  let release ← startupRelease first
  let later := (← lines.tail.mapM text).filter (· ≠ [])
  let startTime ← match later.findSome? initTime? with
    | some startTime => pure startTime
    | none => throw (.format none .noInitBanner)
  let completionTime ← completionTime release (later.getLastD [])
  return { release, startTime, completionTime }

end PageLoads.SimulatorLog
