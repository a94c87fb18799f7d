import PageLoads.Analysis.Options
import PageLoads.ResultFile.Storage
import PageLoads.SummaryFile
import PageLoads.Traffic.Totals

/-!
# Analyses

An analysis reads trials from result files, summarises the page loads selected of all of them together,
writes the distribution tables, totals the traffic, and adds its findings to the summary document. The
steps come in this order, and the first failure ends the analysis; tables written before it remain, and
the summary file is written last of all.
-/

namespace PageLoads

structure Findings where
  /-- A header and one line for each result file. -/
  infoLines : List String
  loads : Option LoadSummary := none
  totals : Option (Counters × Counters) := none
  tablePaths : List String := []
  deriving DecidableEq, Repr

namespace Analysis

def infoHeader : String :=
  "[result file]: [shadow release] [embedded description] [experiment completion time]"

def infoLine (path : String) (trial : Trial) : String :=
  s!"[{path}]: [{trial.run.release}] [{trial.description}] [{trial.run.completionTime}]"

def infoLines (trials : List (String × Trial)) : List String :=
  infoHeader :: trials.map fun (path, trial) => infoLine path trial

def separator : String :=
  String.ofList (List.replicate 50 '=')

/-- What table files and the summary document say of their origin. -/
def commentLines (commandLine : String) (trials : List (String × Trial)) : List String :=
  commandLine :: separator :: infoLines trials

def tableFiles (options : AnalysisOptions) (comments : List String) (summary : LoadSummary) :
    List (String × String) :=
  (summary.tables options.drawing).map fun table =>
    (Path.join options.tableDirectory (table.fileName (options.tableStem ++ options.tableTag)),
      Distribution.text comments table.points)

/-- Writes texts to paths one after another: the store afterwards, and the failure that stopped the
writing, if one did. -/
def writeTables (store : Store) : List (String × String) → Store × Except Failure Unit
  | [] => (store, .ok ())
  | (path, text) :: rest =>
    match store.write path (File.plain (Text.encode text)) with
    | .ok store => writeTables store rest
    | .error fault => (store, .error ((Failure.ofFault (.io fault)).during (.creatingTable path)))

def totalsEntries (clients handlers : Counters) : Except Failure (List (String × Json)) := do
  return [("all_csp_totals", ← Traffic.totalsEntry clients),
    ("all_ssp_csp_handler_totals", ← Traffic.totalsEntry handlers)]

def totals (options : AnalysisOptions) (trials : List (String × Trial)) :
    Except Failure (Option (Counters × Counters)) :=
  if options.loadsOnly then .ok none
  else (Traffic.trialTotals options.selection.startAfter trials).map some

def entries (comments : List String) (summary : LoadSummary) (totals : Option (Counters × Counters)) :
    Except Failure (List (String × Json)) := do
  let ofLoads := ("comment", Json.text ("\n".intercalate comments)) :: summary.entries
  match totals with
  | none => return ofLoads
  | some (clients, handlers) => return ofLoads ++ (← totalsEntries clients handlers)

def conclude (store : Store) (options : AnalysisOptions) (comments : List String)
    (summary : LoadSummary) (trials : List (String × Trial)) :
    Except Failure (Store × Option (Counters × Counters)) := do
  let totals ← totals options trials
  let store ← SummaryFile.merge store options.summaryPath (← entries comments summary totals)
  return (store, totals)

def ofTrials (store : Store) (options : AnalysisOptions) (commandLine : String)
    (trials : List (String × Trial)) : Store × Except Failure Findings :=
  let infoLines := infoLines trials
  if options.infoOnly then (store, .ok { infoLines })
  else
    let comments := commentLines commandLine trials
    let summary := LoadSummary.ofLoads options.selection options.drawing
      (trials.flatMap fun (_, trial) => trial.loads)
    let files := tableFiles options comments summary
    match writeTables store files with
    | (store, .error failure) => (store, .error failure)
    | (store, .ok ()) =>
      match conclude store options comments summary trials with
      | .error failure => (store, .error failure)
      | .ok (store, totals) =>
        (store, .ok { infoLines, loads := some summary, totals, tablePaths := files.map Prod.fst })

def loadAll (store : Store) (paths : List String) : Except Failure (List (String × Trial)) :=
  paths.mapM fun path => (ResultFile.load store path).map fun trial => (path, trial)

def run (store : Store) (options : AnalysisOptions) (commandLine : String) (paths : List String) :
    Store × Except Failure Findings :=
  match loadAll store paths with
  | .ok trials => ofTrials store options commandLine trials
  | .error failure => (store, .error failure)

end Analysis

end PageLoads
