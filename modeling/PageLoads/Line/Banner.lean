import PageLoads.Line.Stamp

/-!
# Simulator banners

The three lines of the simulator's log that matter: the startup banner names the release, the init
banner the time at which the simulation began, the shutdown banner the release again and the time at
which it completed. Every init banner also has the form of a startup banner, and a shutdown banner may
have the form of both, so the forms are tried from the most to the least specific.
-/

namespace PageLoads.Line

/-- The first part of every message that the simulator's main program logs. -/
def simulatorOrigin : String :=
  "n/a [shadow-message] [n/a] ["

def startupBanner : Pattern where
  name := "startup banner"
  tokens := [.literal simulatorOrigin, .text "location", .literal "] [master_run] Shadow ", .text "release"]

def initBanner : Pattern where
  name := "init banner"
  tokens := [.literal simulatorOrigin, .text "location",
    .literal "] [master_run] Shadow initialized at ", .text "start_time", .literal " using", .skip]

def shutdownBanner : Pattern where
  name := "shutdown banner"
  tokens := [.skip, .oneOf ["[engine_free] Shadow ", "[master_free] Shadow "], .text "release",
    .literal " shut down cleanly at ", .text "completion_time"]

inductive Banner where
  | startup (release : String)
  | init (startTime : String)
  | shutdown (release completionTime : String)
  deriving DecidableEq, Repr

namespace Banner

def ofShutdown? (message : List Char) : Option Banner := do
  let fields ← shutdownBanner.fields? message
  return .shutdown (String.ofList (← fields.get? "release"))
    (String.ofList (← fields.get? "completion_time"))

def ofInit? (message : List Char) : Option Banner := do
  let fields ← initBanner.fields? message
  return .init (String.ofList (← fields.get? "start_time"))

def ofStartup? (message : List Char) : Option Banner := do
  let fields ← startupBanner.fields? message
  return .startup (String.ofList (← fields.get? "release"))

def ofLine? (line : List Char) : Option Banner := do
  let message ← simulatorMessage? line
  ofShutdown? message <|> ofInit? message <|> ofStartup? message

end Banner

end PageLoads.Line
