import PageLoads.KeyedList
import PageLoads.PageLoad
import PageLoads.Traffic.Counters

namespace PageLoads

structure Run where
  release : String
  startTime : String
  completionTime : String
  deriving DecidableEq, Repr

structure Trial where
  run : Run
  description : String
  loads : List PageLoad
  /-- The reports of each client that made any, by host name. -/
  running : List (String × List Report)
  handlers : List Report
  ascending : KeyedList.Ascending running
  deriving DecidableEq

namespace Trial

def empty (run : Run) (description : String) : Trial where
  run
  description
  loads := []
  running := []
  handlers := []
  ascending := KeyedList.ascending_nil

end Trial

structure HostLogs where
  loads : List PageLoad
  running : List Report
  handlers : List Report

/-- Adds what one host's logs hold. Running totals go behind those that the host has already; a host
without any gets no entry for them. -/
def Trial.addHost (trial : Trial) (host : String) (logs : HostLogs) : Trial where
  run := trial.run
  description := trial.description
  loads := trial.loads ++ logs.loads
  running :=
    if logs.running = [] then trial.running
    else KeyedList.alter host (fun before => before.getD [] ++ logs.running) trial.running
  handlers := trial.handlers ++ logs.handlers
  ascending := by
    split
    · exact trial.ascending
    · exact KeyedList.ascending_alter trial.ascending

end PageLoads
