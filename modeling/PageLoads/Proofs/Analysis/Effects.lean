import PageLoads.Proofs.Analysis.Steps

namespace PageLoads.Analysis

variable {store after : Store} {options : AnalysisOptions} {commandLine : String} {paths : List String}
  {trials : List (String × Trial)} {result : Except Failure Findings}

/-- No table would be written where the summary file stands. -/
def TablesApart (store : Store) (options : AnalysisOptions) : Prop :=
  ∀ mode metric place, store.writable (options.tablePath mode metric) = .ok place →
    store.resolve options.summaryPath ≠ .ok place

/-- A place at which the table of a mode and a metric with samples is written. -/
def IsTablePlace (store : Store) (options : AnalysisOptions) (trials : List (String × Trial)) (place : Place) :
    Prop :=
  ∃ mode metric, store.writable (options.tablePath mode metric) = .ok place ∧
    ∃ load ∈ options.selection.apply (loadsOf trials), load.mode = mode ∧ load.outcome = .succeeded

private theorem isTablePlace_of_writeTables {comments : List String} {written : Except Failure Unit}
    (h : writeTables store (tableFiles options comments (summaryOf options trials)) = (after, written))
    {place : Place} (hne : after.get? place ≠ store.get? place) : IsTablePlace store options trials place := by
  obtain ⟨file, hfile, hplace⟩ := exists_path_of_writeTables h hne
  obtain ⟨table, htable, rfl⟩ := mem_tableFiles_iff.mp hfile
  obtain ⟨m, hm, hsamples, _⟩ := LoadSummary.mem_tables_iff.mp htable
  exact ⟨table.mode, table.metric, hplace, LoadSummary.exists_samples_iff.mp ⟨m, hm, hsamples⟩⟩

private theorem sameDirectories_of_ofTrials (h : ofTrials store options commandLine trials = (after, result)) :
    Store.SameDirectories store after := by
  cases hinfo : options.infoOnly with
  | true =>
    rw [ofTrials_of_infoOnly hinfo] at h
    rw [← (Prod.mk.inj h).1]
    exact .refl store
  | false =>
    obtain ⟨middle, written, hwrite, hend⟩ := ofTrials_cases hinfo h
    have hmiddle := sameDirectories_of_writeTables hwrite
    rcases hend with ⟨rfl, _⟩ | ⟨_, found, hconclude, _⟩
    · exact hmiddle
    · obtain ⟨place, text, hplace, rfl⟩ := exists_set_of_conclude hconclude
      exact hmiddle.trans (Store.sameDirectories_set hplace)

private theorem changes_of_ofTrials (h : ofTrials store options commandLine trials = (after, result))
    {place : Place} (hne : after.get? place ≠ store.get? place) :
    IsTablePlace store options trials place ∨
      (store.writable options.summaryPath = .ok place ∧ ∃ findings, result = .ok findings) := by
  cases hinfo : options.infoOnly with
  | true =>
    rw [ofTrials_of_infoOnly hinfo] at h
    exact absurd (by rw [(Prod.mk.inj h).1]) hne
  | false =>
    obtain ⟨middle, written, hwrite, ⟨rfl, _⟩ | ⟨_, found, hconclude, hresult⟩⟩ := ofTrials_cases hinfo h
    · exact Or.inl (isTablePlace_of_writeTables hwrite hne)
    · obtain ⟨summaryPlace, text, hsummary, rfl⟩ := exists_set_of_conclude hconclude
      rw [Store.get?_set_of_writable hsummary] at hne
      by_cases hplace : place = summaryPlace
      · -- The summary's path led here before the tables were written as well.
        subst hplace
        have hkept := (sameDirectories_of_writeTables hwrite).symm
        exact Or.inr ⟨Store.writable_of_sameDirectories hkept hsummary, _, hresult⟩
      · rw [if_neg hplace] at hne
        exact Or.inl (isTablePlace_of_writeTables hwrite hne)

/-- An analysis that fails, however far it came, leaves what stands at the path of the summary as it was, if no
table is written there. An analysis of which a file cannot be loaded, or that describes the files only, changes
nothing at all. Every other one changes files of tables with samples and the summary file, and no others. -/
theorem run_keeps_summary_and_changes_only (h : run store options commandLine paths = (after, result)) :
    (TablesApart store options → (∃ failure, result = .error failure) →
      after.entryAt? options.summaryPath = store.entryAt? options.summaryPath) ∧
    ((options.infoOnly = true ∨ ∃ path ∈ paths, ∃ failure, ResultFile.load store path = .error failure) →
      after = store) ∧
    ∀ place, after.get? place ≠ store.get? place →
      ∃ trials, loadAll store paths = .ok trials ∧
        (IsTablePlace store options trials place ∨
          (store.writable options.summaryPath = .ok place ∧ ∃ findings, result = .ok findings)) := by
  unfold run at h
  split at h
  · rename_i trials hload
    refine ⟨?_, ?_, fun place hne => ⟨trials, hload, changes_of_ofTrials h hne⟩⟩
    · rintro hapart ⟨failure, rfl⟩
      refine Store.entryAt?_eq (sameDirectories_of_ofTrials h) fun place hsummary => ?_
      by_contra hne
      rcases changes_of_ofTrials h hne with ⟨mode, metric, htable, _⟩ | ⟨_, findings, hfindings⟩
      · exact hapart mode metric place htable hsummary
      · cases hfindings
    · rintro (hinfo | ⟨path, hpath, failure, hfails⟩)
      · rw [ofTrials_of_infoOnly hinfo] at h
        exact (Prod.mk.inj h).1.symm
      · obtain ⟨trial, htrial⟩ := exists_load_of_loadAll hload hpath
        rw [hfails] at htrial
        cases htrial
  · obtain ⟨rfl, rfl⟩ := Prod.mk.inj h
    exact ⟨fun _ _ => rfl, fun _ => rfl, fun place hne => absurd rfl hne⟩

private def storeOfSummary : Store :=
  Store.empty.set ["summary.json"] (.ofText "\x7b\x7d")

theorem run_keeps_summary_and_changes_only_ofMissing :
    ∃ after failure, run storeOfSummary .inRoot "analyze" ["missing.zst"] = (after, .error failure) ∧
      TablesApart storeOfSummary .inRoot ∧
      after.entryAt? "summary.json" = some (.ofText "\x7b\x7d") ∧ after = storeOfSummary := by
  have hrun : ∃ failure, run storeOfSummary .inRoot "analyze" ["missing.zst"] =
      (storeOfSummary, .error failure) := ⟨_, rfl⟩
  have hload : ∃ failure, ResultFile.load storeOfSummary "missing.zst" = .error failure := ⟨_, rfl⟩
  have hsummary : storeOfSummary.resolve AnalysisOptions.inRoot.summaryPath = .ok ["summary.json"] := rfl
  have htable (mode : ProxyMode) (metric : Metric) :
      storeOfSummary.writable (AnalysisOptions.inRoot.tablePath mode metric) =
        .ok [s!"web-{mode.shortName}-{metric.name}.cdf"] := by
    cases mode <;> cases metric <;> rfl
  have hapart : TablesApart storeOfSummary .inRoot := by
    intro mode metric place hplace hsame
    rw [htable] at hplace
    rw [hsummary] at hsame
    have hname : Name.ofText s!"web-{mode.shortName}-{metric.name}.cdf" ≠ "summary.json" := by
      cases mode <;> cases metric <;> decide +kernel
    exact hname (List.singleton_inj.mp ((Except.ok.inj hplace).trans (Except.ok.inj hsame).symm))
  obtain ⟨failure, hrun⟩ := hrun
  obtain ⟨hkept, hsame, _⟩ := run_keeps_summary_and_changes_only hrun
  exact ⟨storeOfSummary, failure, hrun, hapart, hkept hapart ⟨failure, rfl⟩,
    hsame (Or.inr ⟨"missing.zst", List.mem_singleton_self _, hload⟩)⟩

end PageLoads.Analysis
