import PageLoads.Duration
import PageLoads.ResultFile.Version

namespace PageLoads

/-- Where hosts and logs are found, and where the result goes. -/
structure ParseSettings where
  /-- The directory of host directories, relative to the experiment's. -/
  hostsDir : String := "shadow.data/hosts"
  simulatorLog : String := "shadow.log"
  clientStem : String := "webclient"
  relayStem : String := "relay"
  /-- What the name of a relay must contain for its logs to be read. -/
  exitMarker : String := "exit"
  driverLogStem : String := "stdout-driver-"
  proxyLogStem : String := "stdout-tproxy-"
  outputFile : String := s!"parsedResults-v{ResultFile.version}.bin.zst"
  deriving DecidableEq, Repr

/-- How page loads are selected and their statistics drawn. -/
structure AnalyzeSettings where
  startAfter : String := "00:30:00"
  /-- Only loads that are reported at this time or earlier. -/
  doneBefore : Option String := none
  /-- The bucket size of the tables of load times; zero for no buckets. -/
  loadTimeBucket : Binary64 := Binary64.ofNat 5
  /-- The bucket size of the tables of times to the first byte; zero for no buckets. -/
  firstByteBucket : Binary64 := Binary64.ofRatio false 1 2
  /-- The factor from logged milliseconds to the unit of the tables. -/
  timeScale : Binary64 := Binary64.ofRatio false 1 1000
  tableStem : String := ""
  summaryFile : String := "summary_stats.json"
  hostStem : String := "webclient"
  /-- What stands between the stem and the mode in the names of table files. -/
  tableTag : String := "web"
  deriving DecidableEq, Repr

structure Settings where
  parse : ParseSettings := {}
  analyze : AnalyzeSettings := {}
  deriving DecidableEq, Repr

namespace ParseSettings

/-- The settings that may not be empty, under their names in a settings file. -/
def required (s : ParseSettings) : List (String × String) :=
  [("hosts_dir", s.hostsDir), ("shadow_log", s.simulatorLog), ("webclient_prefix", s.clientStem),
    ("relay_prefix", s.relayStem), ("driver_log_prefix", s.driverLogStem),
    ("tproxy_log_prefix", s.proxyLogStem), ("output_file", s.outputFile)]

def violation? (s : ParseSettings) : Option SettingsFault :=
  (s.required.find? fun (_, value) => value = "").map fun (name, _) => .emptyParseSetting name

end ParseSettings

namespace AnalyzeSettings

def timeWindow (s : AnalyzeSettings) : Except SettingsFault (Binary64 × Option Binary64) := do
  let startAfter ← (Duration.parse s.startAfter).mapError (.badTime "start_after")
  match s.doneBefore with
  | none => return (startAfter, none)
  | some text =>
    let doneBefore ← (Duration.parse text).mapError (.badTime "done_before")
    return (startAfter, some doneBefore)

def isBucketSize (size : Binary64) : Bool :=
  size.isFinite && !size.lt Binary64.zero

def isScale (scale : Binary64) : Bool :=
  scale.isFinite && !scale.le Binary64.zero

/-- The violations that need no time to be read, in the order in which they are reported. -/
def plainViolations (s : AnalyzeSettings) : List SettingsFault :=
  (if isBucketSize s.loadTimeBucket then [] else [.badSize "web_plt_bucket_size" s.loadTimeBucket]) ++
  (if isBucketSize s.firstByteBucket then [] else [.badSize "web_ttfb_bucket_size" s.firstByteBucket]) ++
  (if isScale s.timeScale then [] else [.badScale s.timeScale]) ++
  (if s.summaryFile = "" then [.emptyAnalyzeSetting "summary_file"] else []) ++
  (if s.hostStem = "" then [.emptyAnalyzeSetting "web_host_prefix"] else [])

def timeViolation? (s : AnalyzeSettings) : Option SettingsFault :=
  match s.timeWindow with
  | .error fault => some fault
  | .ok (_, none) => none
  | .ok (startAfter, some doneBefore) =>
    if doneBefore.lt startAfter then some (.reversedTimes startAfter doneBefore) else none

def violation? (s : AnalyzeSettings) : Option SettingsFault :=
  s.plainViolations.head? <|> s.timeViolation?

end AnalyzeSettings

def Settings.violation? (s : Settings) : Option SettingsFault :=
  s.parse.violation? <|> s.analyze.violation?

/-- Success without a violation, else the violation. -/
def SettingsFault.refuse : Option SettingsFault → Except SettingsFault Unit
  | none => .ok ()
  | some fault => .error fault

end PageLoads
