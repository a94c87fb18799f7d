import PageLoads.Analysis.Findings
import PageLoads.Proofs.Store.Writes
import PageLoads.Proofs.Summary.LoadSummary
import PageLoads.Proofs.SummaryFile

namespace PageLoads

def AnalysisOptions.tablePath (options : AnalysisOptions) (mode : ProxyMode) (metric : Metric) : String :=
  Path.join options.tableDirectory (Table.fileName (options.tableStem ++ options.tableTag) ⟨mode, metric, []⟩)

/-- Options of an analysis that writes into the root of a store. -/
def AnalysisOptions.inRoot : AnalysisOptions where
  selection := ⟨"webclient", [], Binary64.zero, none⟩
  drawing := ⟨Binary64.zero, Binary64.zero, Binary64.zero, Binary64.zero⟩
  tableStem := "web"
  tableTag := ""
  summaryPath := "summary.json"

namespace Analysis

variable {store after : Store} {options : AnalysisOptions} {commandLine path text : String}
  {comments paths : List String} {trials : List (String × Trial)} {files rest : List (String × String)}
  {written : Except Failure Unit} {failure : Failure}

def loadsOf (trials : List (String × Trial)) : List PageLoad :=
  trials.flatMap fun (_, trial) => trial.loads

def summaryOf (options : AnalysisOptions) (trials : List (String × Trial)) : LoadSummary :=
  LoadSummary.ofLoads options.selection options.drawing (loadsOf trials)

theorem exists_load_of_loadAll (h : loadAll store paths = .ok trials) (hpath : path ∈ paths) :
    ∃ trial, ResultFile.load store path = .ok trial := by
  induction paths generalizing trials with
  | nil => exact absurd hpath List.not_mem_nil
  | cons first rest ih =>
    rw [loadAll, List.mapM_cons] at h
    obtain ⟨entry, hfirst, h⟩ := Except.bind_eq_ok_iff.mp h
    obtain ⟨entries, hrest, _⟩ := Except.bind_eq_ok_iff.mp h
    rcases List.mem_cons.mp hpath with rfl | hpath
    · cases hload : ResultFile.load store path with
      | ok trial => exact ⟨trial, rfl⟩
      | error failure =>
        rw [hload] at hfirst
        cases hfirst
    · exact ih hrest hpath

/-- The step: a table cannot be written, and nothing more is, or it is written and the others follow. -/
theorem writeTables_cons_cases (h : writeTables store ((path, text) :: rest) = (after, written)) :
    (after = store ∧ ∃ failure, written = .error failure) ∨
      ∃ place, store.writable path = .ok place ∧
        writeTables (store.set place (.ofText text)) rest = (after, written) := by
  unfold writeTables at h
  split at h
  · rename_i middle hwrite
    obtain ⟨place, hplace, rfl⟩ := Store.write_eq_ok_iff.mp hwrite
    exact Or.inr ⟨place, hplace, h⟩
  · obtain ⟨rfl, rfl⟩ := Prod.mk.inj h
    exact Or.inl ⟨rfl, _, rfl⟩

theorem writeTables_cons_of_writable {place : Place} (h : store.writable path = .ok place) :
    writeTables store ((path, text) :: rest) =
      writeTables (store.set place (.ofText text)) rest := by
  have hwrite : store.write path (.plain (Text.encode text)) =
      .ok (store.set place (.ofText text)) :=
    Store.write_eq_ok_iff.mpr ⟨place, h, rfl⟩
  rw [writeTables, hwrite]

theorem sameDirectories_of_writeTables (h : writeTables store files = (after, written)) :
    Store.SameDirectories store after := by
  induction files generalizing store with
  | nil =>
    obtain ⟨rfl, _⟩ := Prod.mk.inj h
    exact .refl store
  | cons file rest ih =>
    rcases writeTables_cons_cases h with ⟨rfl, _⟩ | ⟨place, hplace, hrest⟩
    · exact .refl after
    · exact (Store.sameDirectories_set hplace).trans (ih hrest)

theorem exists_path_of_writeTables (h : writeTables store files = (after, written)) {place : Place}
    (hne : after.get? place ≠ store.get? place) : ∃ file ∈ files, store.writable file.1 = .ok place := by
  induction files generalizing store with
  | nil =>
    obtain ⟨rfl, _⟩ := Prod.mk.inj h
    exact absurd rfl hne
  | cons file rest ih =>
    rcases writeTables_cons_cases h with ⟨rfl, _⟩ | ⟨first, hfirst, hrest⟩
    · exact absurd rfl hne
    · by_cases hplace : place = first
      · subst hplace
        exact ⟨file, List.mem_cons_self, hfirst⟩
      · -- The first table did not change the place, and the paths of the others lead where they led before.
        have hfirst' := Store.get?_set_of_writable hfirst (.ofText file.2) place
        rw [if_neg hplace] at hfirst'
        rw [← hfirst'] at hne
        obtain ⟨other, hother, hwritable⟩ := ih hrest hne
        exact ⟨other, List.mem_cons_of_mem _ hother,
          Store.writable_of_sameDirectories (Store.sameDirectories_set hfirst).symm hwritable⟩

theorem mem_tableFiles_iff {summary : LoadSummary} {file : String × String} :
    file ∈ tableFiles options comments summary ↔
      ∃ table ∈ summary.tables options.drawing,
        file = (options.tablePath table.mode table.metric, Distribution.text comments table.points) := by
  rw [tableFiles, List.mem_map]
  exact exists_congr fun table => and_congr_right fun _ => eq_comm

theorem conclude_eq_ok_iff {summary : LoadSummary} {found : Option (Counters × Counters)} :
    conclude store options comments summary trials = .ok (after, found) ↔
      totals options trials = .ok found ∧
        ∃ added, entries comments summary found = .ok added ∧
          SummaryFile.merge store options.summaryPath added = .ok after := by
  simp only [conclude, Except.bind_eq_ok_iff, pure, Except.pure, Except.ok.injEq, Prod.mk.injEq]
  constructor
  · rintro ⟨_, htotals, added, hadded, _, hmerge, rfl, rfl⟩
    exact ⟨htotals, added, hadded, hmerge⟩
  · rintro ⟨htotals, added, hadded, hmerge⟩
    exact ⟨found, htotals, added, hadded, after, hmerge, rfl, rfl⟩

theorem exists_set_of_conclude {summary : LoadSummary} {found : Option (Counters × Counters)}
    (h : conclude store options comments summary trials = .ok (after, found)) :
    ∃ place text, store.writable options.summaryPath = .ok place ∧ store.set place (.ofText text) = after := by
  obtain ⟨_, _, _, hmerge⟩ := conclude_eq_ok_iff.mp h
  obtain ⟨_, place, _, hplace, hset⟩ := SummaryFile.merge_eq_ok_iff.mp hmerge
  exact ⟨place, _, hplace, hset⟩

theorem ofTrials_of_infoOnly (h : options.infoOnly = true) :
    ofTrials store options commandLine trials = (store, .ok { infoLines := infoLines trials }) := by
  rw [ofTrials, if_pos h]

def findingsOf (options : AnalysisOptions) (trials : List (String × Trial))
    (totals : Option (Counters × Counters)) : Findings where
  infoLines := infoLines trials
  loads := some (summaryOf options trials)
  totals
  tablePaths := ((summaryOf options trials).tables options.drawing).map fun table =>
    options.tablePath table.mode table.metric

private theorem ofTrials_eq (hinfo : options.infoOnly = false) :
    ofTrials store options commandLine trials =
      match writeTables store (tableFiles options (commentLines commandLine trials) (summaryOf options trials)) with
      | (middle, .error failure) => (middle, .error failure)
      | (middle, .ok ()) =>
        match conclude middle options (commentLines commandLine trials) (summaryOf options trials) trials with
        | .error failure => (middle, .error failure)
        | .ok (after, found) => (after, .ok (findingsOf options trials found)) := by
  have hpaths : (tableFiles options (commentLines commandLine trials) (summaryOf options trials)).map Prod.fst =
      ((summaryOf options trials).tables options.drawing).map fun table =>
        options.tablePath table.mode table.metric := by
    rw [tableFiles, List.map_map]
    rfl
  have hnot : ¬ options.infoOnly = true := Bool.eq_false_iff.mp hinfo
  rw [ofTrials, if_neg hnot]
  simp only [findingsOf, ← hpaths]
  rfl

/-- What an analysis can do that is not of the result files alone: it stops while it writes tables or after
them, or it adds its findings to the summary after all of them. -/
theorem ofTrials_cases (hinfo : options.infoOnly = false) {result : Except Failure Findings}
    (h : ofTrials store options commandLine trials = (after, result)) :
    ∃ middle written,
      writeTables store (tableFiles options (commentLines commandLine trials) (summaryOf options trials)) =
        (middle, written) ∧
      ((after = middle ∧ ∃ failure, result = .error failure) ∨
        written = .ok () ∧ ∃ found,
          conclude middle options (commentLines commandLine trials) (summaryOf options trials) trials =
            .ok (after, found) ∧
          result = .ok (findingsOf options trials found)) := by
  rw [ofTrials_eq hinfo] at h
  split at h
  · rename_i middle failure hwrite
    obtain ⟨rfl, rfl⟩ := Prod.mk.inj h
    exact ⟨middle, _, hwrite, Or.inl ⟨rfl, failure, rfl⟩⟩
  · rename_i middle hwrite
    split at h
    · rename_i failure _
      obtain ⟨rfl, rfl⟩ := Prod.mk.inj h
      exact ⟨middle, _, hwrite, Or.inl ⟨rfl, failure, rfl⟩⟩
    · rename_i final found hconclude
      obtain ⟨rfl, rfl⟩ := Prod.mk.inj h
      exact ⟨middle, _, hwrite, Or.inr ⟨rfl, found, hconclude, rfl⟩⟩

theorem ofTrials_of_conclude (hinfo : options.infoOnly = false) {middle : Store}
    {found : Option (Counters × Counters)}
    (hwrite : writeTables store (tableFiles options (commentLines commandLine trials)
      (summaryOf options trials)) = (middle, .ok ()))
    (hconclude : conclude middle options (commentLines commandLine trials) (summaryOf options trials) trials =
      .ok (after, found)) :
    ofTrials store options commandLine trials = (after, .ok (findingsOf options trials found)) := by
  simp only [ofTrials_eq hinfo, hwrite, hconclude]

end Analysis

end PageLoads
