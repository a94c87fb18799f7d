import PageLoads.Number.Binary64

namespace PageLoads

inductive ProxyMode where
  | tor
  | proxiedTor
  deriving DecidableEq, Repr

namespace ProxyMode

def all : List ProxyMode :=
  [.tor, .proxiedTor]

def name : ProxyMode → String
  | .tor => "tor"
  | .proxiedTor => "tproxy-via-tor"

def shortName : ProxyMode → String
  | .tor => "tor"
  | .proxiedTor => "bufloot"

def ofName? (text : String) : Option ProxyMode :=
  all.find? fun mode => mode.name = text

theorem ofName?_name (mode : ProxyMode) : ofName? mode.name = some mode := by
  cases mode <;> decide

end ProxyMode

inductive FailureReason where
  | failed
  | timedOut
  deriving DecidableEq, Repr

def FailureReason.name : FailureReason → String
  | .failed => "FAILED"
  | .timedOut => "TIMEDOUT"

inductive Outcome where
  | succeeded
  | failed (reason : FailureReason)
  deriving DecidableEq, Repr

namespace Outcome

def all : List Outcome :=
  [.succeeded, .failed .failed, .failed .timedOut]

def name : Outcome → String
  | .succeeded => "OK"
  | .failed reason => reason.name

def ofName? (text : String) : Option Outcome :=
  all.find? fun outcome => outcome.name = text

theorem ofName?_name (outcome : Outcome) : ofName? outcome.name = some outcome := by
  rcases outcome with _ | (_ | _) <;> decide

end Outcome

structure PageLoad where
  host : String
  number : UInt32
  url : String
  mode : ProxyMode
  outcome : Outcome
  /-- The second at which the load started, as the driver reported it. -/
  startSecond : UInt64
  /-- The time of the line that reported the result, in seconds. -/
  reportTime : Binary64
  loadMilliseconds : UInt64
  firstByteMilliseconds : UInt64
  requests : UInt32
  succeededRequests : UInt32
  failedRequests : UInt32
  requestsAfterDom : UInt32
  forcedRequests : UInt32
  deriving DecidableEq, Repr

namespace PageLoad

def succeeded (load : PageLoad) : Bool :=
  load.outcome = .succeeded

def reason? (load : PageLoad) : Option FailureReason :=
  match load.outcome with
  | .succeeded => none
  | .failed reason => some reason

end PageLoad

end PageLoads
