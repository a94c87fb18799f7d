import PageLoads.Proofs.Experiment.Hosts
import PageLoads.Proofs.KeyedList

namespace PageLoads

namespace Trial

variable {trial : Trial} {parsed : List (String × HostLogs)}

/-- Adds what the logs of several hosts hold, one host after another. -/
def addEach (trial : Trial) (parsed : List (String × HostLogs)) : Trial :=
  parsed.foldl (fun trial (name, logs) => trial.addHost name logs) trial

theorem addEach_loads : (trial.addEach parsed).loads = trial.loads ++ parsed.flatMap fun (_, logs) => logs.loads := by
  induction parsed generalizing trial with
  | nil => simp [addEach]
  | cons head rest ih =>
    rw [addEach, List.foldl_cons, ← addEach, ih, List.flatMap_cons, ← List.append_assoc]
    rfl

theorem addEach_handlers :
    (trial.addEach parsed).handlers = trial.handlers ++ parsed.flatMap fun (_, logs) => logs.handlers := by
  induction parsed generalizing trial with
  | nil => simp [addEach]
  | cons head rest ih =>
    rw [addEach, List.foldl_cons, ← addEach, ih, List.flatMap_cons, ← List.append_assoc]
    rfl

theorem addEach_run_description (trial : Trial) (parsed : List (String × HostLogs)) :
    (trial.addEach parsed).run = trial.run ∧ (trial.addEach parsed).description = trial.description := by
  induction parsed generalizing trial with
  | nil => exact ⟨rfl, rfl⟩
  | cons head rest ih => exact ih _

/-- The running totals under the name of a host, none if it is not there. -/
def runningOf (trial : Trial) (host : String) : List Report :=
  (trial.running.lookup host).getD []

theorem runningOf_addHost (trial : Trial) (name host : String) (logs : HostLogs) :
    (trial.addHost name logs).runningOf host =
      trial.runningOf host ++ if name = host then logs.running else [] := by
  unfold runningOf addHost
  dsimp only
  by_cases hempty : logs.running = []
  · simp [hempty]
  · rw [if_neg hempty, KeyedList.lookup_alter trial.ascending]
    by_cases hname : host = name
    · subst hname
      simp
    · simp [hname, Ne.symm hname]

theorem runningOf_addEach (host : String) :
    (trial.addEach parsed).runningOf host =
      trial.runningOf host ++ (parsed.filter fun (name, _) => name = host).flatMap fun (_, logs) => logs.running := by
  induction parsed generalizing trial with
  | nil => simp [addEach]
  | cons head rest ih =>
    obtain ⟨name, logs⟩ := head
    have hstep : trial.addEach ((name, logs) :: rest) = (trial.addHost name logs).addEach rest := rfl
    rw [hstep, ih, runningOf_addHost, List.append_assoc]
    by_cases hname : name = host <;> simp [hname]

theorem ne_nil_of_mem_addEach (h : ∀ entry ∈ trial.running, entry.2 ≠ []) :
    ∀ entry ∈ (trial.addEach parsed).running, entry.2 ≠ [] := by
  induction parsed generalizing trial with
  | nil => exact h
  | cons head rest ih =>
    have hadd : ∀ entry ∈ (trial.addHost head.1 head.2).running, entry.2 ≠ [] := by
      intro entry hentry
      unfold addHost at hentry
      dsimp only at hentry
      split at hentry
      · exact h entry hentry
      · rename_i hnonempty
        rcases KeyedList.mem_alter hentry with ⟨before, _, rfl⟩ | hold
        · exact fun hnil => hnonempty (List.append_eq_nil_iff.mp hnil).2
        · exact h entry hold
    exact ih hadd

end Trial

namespace Experiment

variable {store : Store} {settings : ParseSettings} {directory description : String}

/-- A trial is made of the logs of the hosts of an experiment, each read with some table of texts. -/
structure Parsed (store : Store) (settings : ParseSettings) (directory description : String)
    (parsed : List (Host × HostLogs)) (trial : Trial) : Prop where
  run : Experiment.run store settings directory = .ok trial.run
  hosts : Experiment.hosts store settings (Path.join directory settings.hostsDir) = .ok (parsed.map Prod.fst)
  hostLogs : ∀ entry ∈ parsed, ∃ table after, hostLogs store settings table entry.1 = .ok (entry.2, after)
  eq_addEach : trial =
    (Trial.empty trial.run description).addEach (parsed.map fun (host, logs) => (host.name, logs))

theorem exists_parsed_of_addHosts {trial result : Trial} {table : Interner} {hosts : List Host}
    (h : addHosts store settings trial table hosts = .ok result) :
    ∃ parsed : List (Host × HostLogs), parsed.map Prod.fst = hosts ∧
      (∀ entry ∈ parsed, ∃ table after, hostLogs store settings table entry.1 = .ok (entry.2, after)) ∧
      result = trial.addEach (parsed.map fun (host, logs) => (host.name, logs)) := by
  induction hosts generalizing trial table with
  | nil =>
    cases h
    exact ⟨[], rfl, nofun, rfl⟩
  | cons host rest ih =>
    obtain ⟨⟨logs, after⟩, hlogs, hrest⟩ := Except.bind_eq_ok_iff.mp h
    obtain ⟨parsed, rfl, hparsed, rfl⟩ := ih hrest
    exact ⟨(host, logs) :: parsed, rfl, List.forall_mem_cons.mpr ⟨⟨_, _, hlogs⟩, hparsed⟩, rfl⟩

theorem exists_parsed_of_read {trial : Trial} (h : read store settings directory description = .ok trial) :
    ∃ parsed, Parsed store settings directory description parsed trial := by
  obtain ⟨run, hrun, h⟩ := Except.bind_eq_ok_iff.mp h
  obtain ⟨hosts, hhosts, hadd⟩ := Except.bind_eq_ok_iff.mp h
  obtain ⟨parsed, rfl, hparsed, htrial⟩ := exists_parsed_of_addHosts hadd
  have hsame : trial.run = run := htrial ▸ (Trial.addEach_run_description _ _).1
  exact ⟨parsed, hsame ▸ hrun, hhosts, hparsed, hsame ▸ htrial⟩

section Parsed

variable {parsed : List (Host × HostLogs)} {trial : Trial}

theorem Parsed.description_eq (h : Parsed store settings directory description parsed trial) :
    trial.description = description := by
  rw [h.eq_addEach]
  exact (Trial.addEach_run_description _ _).2

theorem Parsed.loads_eq (h : Parsed store settings directory description parsed trial) :
    trial.loads = parsed.flatMap fun (_, logs) => logs.loads := by
  rw [h.eq_addEach, Trial.addEach_loads, List.flatMap_map]
  rfl

theorem Parsed.handlers_eq (h : Parsed store settings directory description parsed trial) :
    trial.handlers = parsed.flatMap fun (_, logs) => logs.handlers := by
  rw [h.eq_addEach, Trial.addEach_handlers, List.flatMap_map]
  rfl

theorem Parsed.runningOf_eq (h : Parsed store settings directory description parsed trial) (name : String) :
    trial.runningOf name =
      (parsed.filter fun (host, _) => host.name = name).flatMap fun (_, logs) => logs.running := by
  rw [h.eq_addEach, Trial.runningOf_addEach, List.filter_map, List.flatMap_map]
  rfl

theorem Parsed.ne_nil (h : Parsed store settings directory description parsed trial) :
    ∀ entry ∈ trial.running, entry.2 ≠ [] := by
  rw [h.eq_addEach]
  exact Trial.ne_nil_of_mem_addEach nofun

theorem Parsed.nodup (h : Parsed store settings directory description parsed trial) : parsed.Nodup :=
  List.Nodup.of_map Prod.fst (nodup_hosts h.hosts)

/-- A name that is shown once is the name of one host, whose logs are all that stands under it. -/
theorem Parsed.filter_eq_singleton (h : Parsed store settings directory description parsed trial) {host : Host}
    {logs : HostLogs} (hentry : (host, logs) ∈ parsed)
    (honce : ShownOnce store (Path.join directory settings.hostsDir) host.name) :
    parsed.filter (fun (other, _) => other.name = host.name) = [(host, logs)] := by
  have hmem : (host, logs) ∈ parsed.filter (fun (other, _) => other.name = host.name) :=
    List.mem_filter.mpr ⟨hentry, by simp⟩
  refine List.perm_singleton.mp ((List.perm_ext_iff_of_nodup (h.nodup.filter _) (List.nodup_singleton _)).mpr ?_)
  intro entry
  rw [List.mem_singleton]
  refine ⟨fun hother => ?_, fun hsame => hsame ▸ hmem⟩
  obtain ⟨hother, hname⟩ := List.mem_filter.mp hother
  have hhost : entry.1 = host := honce.eq_of_name_eq h.hosts (List.mem_map_of_mem hother)
    (List.mem_map_of_mem hentry) (of_decide_eq_true hname) rfl
  exact List.inj_on_of_nodup_map (nodup_hosts h.hosts) hother hentry hhost

end Parsed

end Experiment

end PageLoads
