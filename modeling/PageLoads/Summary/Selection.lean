import PageLoads.PageLoad
import PageLoads.Text.Stem

namespace PageLoads

structure Selection where
  hostStem : String
  /-- The pages admitted; none means all of them. -/
  urls : List String
  /-- The least start, in seconds. -/
  startAfter : Binary64
  /-- The greatest time of report, in seconds; none means any. -/
  doneBefore : Option Binary64
  deriving DecidableEq, Repr

namespace Selection

def selects (s : Selection) (load : PageLoad) : Bool :=
  Text.hasStem s.hostStem load.host &&
    (s.urls.isEmpty || s.urls.contains load.url) &&
    s.startAfter.le (Binary64.ofNat load.startSecond.toNat) &&
    s.doneBefore.all fun limit => load.reportTime.le limit

def apply (s : Selection) (loads : List PageLoad) : List PageLoad :=
  loads.filter s.selects

end Selection

end PageLoads
