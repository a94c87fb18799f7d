import PageLoads.Proofs.Experiment.HostTask
import PageLoads.Proofs.Experiment.Running
import PageLoads.Proofs.Task.Pool

namespace PageLoads

variable {store : Store} {settings : ParseSettings}

def DriverLog.records (host : String) (lines : LogLines) : Except Fault (List PageLoad) :=
  (DriverLog.read host Interner.empty lines).map Prod.fst

theorem DriverLog.map_fst_read (host : String) (table : Interner) (lines : LogLines) :
    (DriverLog.read host table lines).map Prod.fst = DriverLog.records host lines := by
  have houtcome (table : Interner) : (DriverLog.read host table lines).map Prod.fst =
      (readTask host lines).outcome Store.empty := by
    rw [← alone_readTask, Task.map_fst_alone]
  rw [DriverLog.records, houtcome, houtcome]

namespace Experiment

/-- The paths are those of the logs of a stem in a directory, in the byte order of the names of the logs. -/
def AreLogs (store : Store) (stem : String) (directory : Trail) (paths : List Trail) : Prop :=
  ∃ listed names, store.list directory = .ok listed ∧
    names.Perm (listed.filter fun name => Text.hasStem stem name.shown) ∧ InByteOrder names ∧
    paths = names.map directory.child

theorem areLogs_of_logPaths {stem : String} {directory : Trail} {paths : List Trail}
    (h : logPaths store stem directory = .ok paths) : AreLogs store stem directory paths := by
  obtain ⟨listed, hlisted, hpaths⟩ := Except.bind_eq_ok_iff.mp h
  have hlist := Except.mapError_eq_ok_iff.mp hlisted
  cases hpaths
  refine ⟨listed, _, hlist, perm_orderedNames _, inByteOrder_orderedNames ?_, rfl⟩
  exact (Store.nodup_of_list hlist).filter _

/-- Each of some logs is read by itself, and what they hold stands together in the order of their paths. -/
def Hold {β : Type} (store : Store) (holds : LogLines → List β → Prop) (paths : List Trail) (all : List β) : Prop :=
  ∃ parts, List.Forall₂ (fun path part => ∃ log, lines store path = .ok log ∧ holds log part) paths parts ∧
    all = parts.flatten

theorem hold_nil {β : Type} (holds : LogLines → List β → Prop) : Hold store holds [] [] :=
  ⟨[], .nil, rfl⟩

theorem Hold.cons {β : Type} {holds : LogLines → List β → Prop} {path : Trail} {paths : List Trail}
    {log : LogLines} {part rest : List β} (hrest : Hold store holds paths rest)
    (hlog : lines store path = .ok log) (hpart : holds log part) :
    Hold store holds (path :: paths) (part ++ rest) := by
  obtain ⟨parts, hparts, rfl⟩ := hrest
  exact ⟨part :: parts, .cons ⟨log, hlog, hpart⟩ hparts, rfl⟩

theorem hold_of_driverLogs {host : String} {loads all : List PageLoad} {table after : Interner}
    {paths : List Trail} (h : driverLogs store host loads table paths = .ok (all, after)) :
    ∃ found, Hold store (fun log part => DriverLog.records host log = .ok part) paths found ∧
      all = loads ++ found := by
  induction paths generalizing loads table with
  | nil =>
    cases h
    exact ⟨[], hold_nil _, (List.append_nil _).symm⟩
  | cons path rest ih =>
    obtain ⟨log, hlog, h⟩ := Except.bind_eq_ok_iff.mp h
    obtain ⟨⟨part, next⟩, hread, h⟩ := Except.bind_eq_ok_iff.mp h
    have hpart : DriverLog.records host log = .ok part := by
      rw [← DriverLog.map_fst_read host table, Except.mapError_eq_ok_iff.mp hread]
      rfl
    obtain ⟨found, hfound, rfl⟩ := ih h
    exact ⟨part ++ found, hfound.cons hlog hpart, List.append_assoc _ _ _⟩

theorem hold_of_clientLogs {reports all : List Report} {paths : List Trail}
    (h : clientLogs store reports paths = .ok all) :
    ∃ found, Hold store (fun log part => ProxyLog.readClient log = .ok part) paths found ∧
      all = reports ++ found := by
  induction paths generalizing reports with
  | nil =>
    cases h
    exact ⟨[], hold_nil _, (List.append_nil _).symm⟩
  | cons path rest ih =>
    obtain ⟨log, next, hlog, hread, h⟩ := clientLogs_cons_eq_ok_iff.mp h
    obtain ⟨part, hpart, rfl⟩ := ProxyLog.exists_readClient_of_appendClient hread
    obtain ⟨found, hfound, rfl⟩ := ih h
    exact ⟨part ++ found, hfound.cons hlog hpart, List.append_assoc _ _ _⟩

theorem hold_of_exitLogs {reports all : List Report} {paths : List Trail}
    (h : exitLogs store reports paths = .ok all) :
    ∃ found, Hold store ProxyLog.HoldsHandlers paths found ∧ all = reports ++ found := by
  induction paths generalizing reports with
  | nil =>
    cases h
    exact ⟨[], hold_nil _, (List.append_nil _).symm⟩
  | cons path rest ih =>
    obtain ⟨log, part, hlog, hread, h⟩ := exitLogs_cons_eq_ok_iff.mp h
    obtain ⟨found, hfound, rfl⟩ := ih h
    exact ⟨part ++ found, hfound.cons hlog (ProxyLog.readExit_eq_ok_iff.mp hread), List.append_assoc _ _ _⟩

/-- What the logs of a host hold: records and running totals for a client, totals of handlers for a relay. -/
inductive HostHolds (store : Store) (settings : ParseSettings) (host : Host) : HostLogs → Prop
  | webClient {driverPaths proxyPaths : List Trail} {loads : List PageLoad} {running : List Report}
      (role : host.role = .webClient)
      (areDriverLogs : AreLogs store settings.driverLogStem host.path driverPaths)
      (areProxyLogs : AreLogs store settings.proxyLogStem host.path proxyPaths)
      (holdLoads : Hold store (fun log part => DriverLog.records host.name log = .ok part) driverPaths loads)
      (holdRunning : Hold store (fun log part => ProxyLog.readClient log = .ok part) proxyPaths running) :
      HostHolds store settings host ⟨loads, running, []⟩
  | exitRelay {proxyPaths : List Trail} {handlers : List Report}
      (role : host.role = .exitRelay)
      (areProxyLogs : AreLogs store settings.proxyLogStem host.path proxyPaths)
      (holdHandlers : Hold store ProxyLog.HoldsHandlers proxyPaths handlers) :
      HostHolds store settings host ⟨[], [], handlers⟩

theorem hostHolds_of_hostLogs {table after : Interner} {host : Host} {logs : HostLogs}
    (h : hostLogs store settings table host = .ok (logs, after)) : HostHolds store settings host logs := by
  obtain ⟨name, path, role⟩ := host
  cases role with
  | webClient =>
    obtain ⟨driverPaths, hdriver, h⟩ := Except.bind_eq_ok_iff.mp h
    obtain ⟨⟨loads, between⟩, hloads, h⟩ := Except.bind_eq_ok_iff.mp h
    obtain ⟨proxyPaths, hproxy, h⟩ := Except.bind_eq_ok_iff.mp h
    obtain ⟨running, hrunning, h⟩ := Except.bind_eq_ok_iff.mp h
    cases h
    obtain ⟨foundLoads, hfoundLoads, rfl⟩ := hold_of_driverLogs hloads
    obtain ⟨foundRunning, hfoundRunning, rfl⟩ := hold_of_clientLogs hrunning
    exact .webClient rfl (areLogs_of_logPaths hdriver) (areLogs_of_logPaths hproxy) hfoundLoads hfoundRunning
  | exitRelay =>
    obtain ⟨proxyPaths, hproxy, h⟩ := Except.bind_eq_ok_iff.mp h
    obtain ⟨handlers, hhandlers, h⟩ := Except.bind_eq_ok_iff.mp h
    cases h
    obtain ⟨found, hfound, rfl⟩ := hold_of_exitLogs hhandlers
    exact .exitRelay rfl (areLogs_of_logPaths hproxy) hfound

/-- The hosts are those of a directory that have a role, in the byte order of their names; hosts of one name stand
as they are listed. -/
def AreHosts (store : Store) (settings : ParseSettings) (directory : String) (hosts : List Host) : Prop :=
  ∃ listed, store.list directory = .ok listed ∧ hosts.Perm (listed.filterMap (host? settings directory)) ∧
    hosts.Pairwise fun a b => Text.encode a.name < Text.encode b.name ∨
      a.name = b.name ∧ [a, b].Sublist (listed.filterMap (host? settings directory))

theorem areHosts_of_hosts {directory : String} {hosts : List Host}
    (h : Experiment.hosts store settings directory = .ok hosts) : AreHosts store settings directory hosts := by
  obtain ⟨listed, hlisted, rfl⟩ := hosts_eq_ok_iff.mp h
  refine ⟨listed, hlisted, perm_orderedHosts _, List.pairwise_iff_forall_sublist.mpr fun hpair => ?_⟩
  have hnodup := nodup_filterMap_host? settings directory (Store.nodup_of_list hlisted)
  exact (pair_of_pair_orderedHosts hnodup hpair).imp_left Text.encode_lt_encode

/-- The hosts are read one after another, the outcome of each being that of its task. -/
theorem addHosts_eq (trial : Trial) (table : Interner) (hosts : List Host) :
    addHosts store settings trial table hosts =
      (Pool.collect (hosts.map fun host => (hostTask store settings host).outcome store)).map trial.addEach := by
  induction hosts generalizing trial table with
  | nil => rfl
  | cons host rest ih =>
    rw [addHosts, List.map_cons, outcome_hostTask (table.insert host.name)]
    cases hostLogs store settings (table.insert host.name) host with
    | error failure => rfl
    | ok found =>
      obtain ⟨logs, after⟩ := found
      have hrest := ih (trial.addHost host.name logs) after
      have hstep : (Pool.collect (.ok (host.name, logs) ::
          rest.map fun host => (hostTask store settings host).outcome store)).map trial.addEach =
          addHosts store settings (trial.addHost host.name logs) after rest := by
        rw [Pool.collect_cons, hrest]
        cases Pool.collect (rest.map fun host => (hostTask store settings host).outcome store) <;> rfl
      exact hstep.symm

end Experiment

namespace Experiment

/-- A trial is what an experiment holds: of each host with a role, in the byte order of the names of the hosts, its
records, its running totals under its name, and the totals of its handlers. There is no entry for a name without
running totals. -/
structure Gathered (store : Store) (settings : ParseSettings) (directory description : String)
    (parsed : List (Host × HostLogs)) (trial : Trial) : Prop where
  run : Experiment.run store settings directory = .ok trial.run
  description : trial.description = description
  areHosts : AreHosts store settings (Path.join directory settings.hostsDir) (parsed.map Prod.fst)
  hostHolds : ∀ entry ∈ parsed, HostHolds store settings entry.1 entry.2
  loads : trial.loads = parsed.flatMap fun (_, logs) => logs.loads
  running : ∀ name, trial.runningOf name =
    (parsed.filter fun (host, _) => host.name = name).flatMap fun (_, logs) => logs.running
  noneEmpty : ∀ entry ∈ trial.running, entry.2 ≠ []
  handlers : trial.handlers = parsed.flatMap fun (_, logs) => logs.handlers

theorem Parsed.gathered {directory description : String} {parsed : List (Host × HostLogs)} {trial : Trial}
    (h : Parsed store settings directory description parsed trial) :
    Gathered store settings directory description parsed trial where
  run := h.run
  description := h.description_eq
  areHosts := areHosts_of_hosts h.hosts
  hostHolds := fun entry hentry => by
    obtain ⟨_, _, hlogs⟩ := h.hostLogs entry hentry
    exact hostHolds_of_hostLogs hlogs
  loads := h.loads_eq
  running := h.runningOf_eq
  noneEmpty := h.ne_nil
  handlers := h.handlers_eq

/-- What is read of an experiment is what it holds. -/
theorem exists_gathered_of_read {directory description : String} {trial : Trial}
    (h : read store settings directory description = .ok trial) :
    ∃ parsed, Gathered store settings directory description parsed trial :=
  (exists_parsed_of_read h).imp fun _ => Parsed.gathered

end Experiment

end PageLoads
