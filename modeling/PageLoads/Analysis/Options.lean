import PageLoads.Settings
import PageLoads.Summary.LoadSummary

namespace PageLoads

structure AnalysisOptions where
  selection : Selection
  drawing : Drawing
  tableStem : String
  /-- What stands between the stem and the mode in the names of table files. -/
  tableTag : String
  tableDirectory : String := "."
  summaryPath : String
  infoOnly : Bool := false
  loadsOnly : Bool := false
  deriving DecidableEq, Repr

def AnalysisOptions.ofSettings (s : AnalyzeSettings) : Except SettingsFault AnalysisOptions := do
  SettingsFault.refuse s.violation?
  let (startAfter, doneBefore) ← s.timeWindow
  return {
    selection := { hostStem := s.hostStem, urls := [], startAfter, doneBefore }
    drawing := {
      loadTimeScale := s.timeScale
      firstByteScale := s.timeScale
      loadTimeBucket := s.loadTimeBucket
      firstByteBucket := s.firstByteBucket }
    tableStem := s.tableStem
    tableTag := s.tableTag
    summaryPath := s.summaryFile }

end PageLoads
