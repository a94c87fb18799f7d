import PageLoads.Duration
import PageLoads.Line.Stamp

namespace PageLoads.Line

def startLoading : Pattern where
  name := "start loading"
  tokens := [.literal "driver= ", .number "driver", .literal ": start loading page [", .text "url",
    .literal "]"]

def domLoadEvent : Pattern where
  name := "dom load event"
  tokens := [.literal "driver= ", .number "driver",
    .literal ": DOM \"load\" event has fired; start waiting for more requests"]

def loadResult : Pattern where
  name := "load result"
  tokens := [.literal "loadnum= ", .number "loadnum", .literal ", webmode= ", .text "webmode",
    .literal ", proxyMode= ", .text "proxymode", .literal ": loadResult= ", .text "loadresult",
    .literal ": startSec= ", .number "startsec", .literal " plt= ", .number "plt",
    .literal " page= [", .text "url", .literal "] ttfb= ", .number "ttfb",
    .literal " numReqs= ", .number "numreqs", .literal " numSuccess= ", .number "numsuccess",
    .literal " numFailed= ", .number "numfailed",
    .literal " numAfterDOMLoadEvent= ", .number "numafterdomload",
    .literal " numForced= ", .number "numforced", .skip]

/-- A reported result as the line has it, its modes and outcome still texts. -/
structure ResultLine where
  time : Binary64
  number : UInt32
  webMode : String
  proxyMode : String
  outcome : String
  startSecond : UInt64
  loadMilliseconds : UInt64
  url : String
  firstByteMilliseconds : UInt64
  requests : UInt32
  succeededRequests : UInt32
  failedRequests : UInt32
  requestsAfterDom : UInt32
  forcedRequests : UInt32
  deriving DecidableEq, Repr

inductive DriverLine where
  | start (time : Binary64) (url : String)
  | domEvent (time : Binary64)
  | result (line : ResultLine)
  deriving DecidableEq, Repr

namespace DriverLine

def ofStart (time : List Char) (fields : Fields) : Except Fault DriverLine := do
  return .start (← Duration.parse (String.ofList time)) (← fields.text "url")

def ofDomEvent (time : List Char) : Except Fault DriverLine := do
  return .domEvent (← Duration.parse (String.ofList time))

def ofResult (time : List Char) (fields : Fields) : Except Fault DriverLine := do
  return .result {
    time := ← Duration.parse (String.ofList time)
    number := ← fields.word32 "loadnum"
    webMode := ← fields.text "webmode"
    proxyMode := ← fields.text "proxymode"
    outcome := ← fields.text "loadresult"
    startSecond := ← fields.word64 "startsec"
    loadMilliseconds := ← fields.word64 "plt"
    url := ← fields.text "url"
    firstByteMilliseconds := ← fields.word64 "ttfb"
    requests := ← fields.word32 "numreqs"
    succeededRequests := ← fields.word32 "numsuccess"
    failedRequests := ← fields.word32 "numfailed"
    requestsAfterDom := ← fields.word32 "numafterdomload"
    forcedRequests := ← fields.word32 "numforced" }

def ofMessage (time message : List Char) : Except Fault (Option DriverLine) :=
  match startLoading.fields? message with
  | some fields => some <$> ofStart time fields
  | none =>
    match domLoadEvent.fields? message with
    | some _ => some <$> ofDomEvent time
    | none =>
      match loadResult.fields? message with
      | some fields => some <$> ofResult time fields
      | none => .ok none

def ofLine (line : List Char) : Except Fault (Option DriverLine) :=
  match split? line with
  | some (time, message) => ofMessage time message
  | none => .ok none

end DriverLine

end PageLoads.Line
