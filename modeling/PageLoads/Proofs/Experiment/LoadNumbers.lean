import PageLoads.Proofs.Experiment.Gathered
import PageLoads.Proofs.Log.DriverLog
import PageLoads.Proofs.Tracker.Calls

/-!
# Load numbers of an experiment

A tracker numbers the loads of one log, and each driver log of a host gets a tracker of its own. So the numbers
of a host's records increase within a log and begin anew with the next one: the number identifies a record of a
host that has one driver log, and beside other logs it identifies a record only together with the log.
-/

namespace PageLoads

/-- The numbers of some records are at least one, and each is above those before it. -/
structure PageLoad.Numbered (loads : List PageLoad) : Prop where
  one_le_number : ∀ load ∈ loads, 1 ≤ load.number.toNat
  numbers_increase : loads.Pairwise fun earlier later => earlier.number < later.number

theorem PageLoad.numbered_nil : PageLoad.Numbered [] :=
  ⟨nofun, .nil⟩

def Trial.loadsOf (trial : Trial) (host : String) : List PageLoad :=
  trial.loads.filter fun load => load.host = host

private theorem forall_mem_of_forall₂ {α β : Type} {R : α → β → Prop} {P : β → Prop} {firsts : List α}
    {seconds : List β} (h : List.Forall₂ R firsts seconds) (hP : ∀ a b, R a b → P b) : ∀ b ∈ seconds, P b := by
  induction h with
  | nil => nofun
  | cons hab _ ih => exact List.forall_mem_cons.mpr ⟨hP _ _ hab, ih⟩

namespace DriverLog

variable {host : String}

/-- What holds of a new tracker and of every tracker that has taken one more line holds of the tracker that has
read a log. -/
theorem exists_tracker_of_read {P : Tracker → Prop} {table after : Interner} {lines : LogLines}
    {loads : List PageLoad} (hnew : P (Tracker.new host table))
    (hadvance : ∀ {t next : Tracker} {number : Nat} {line : Line.DriverLine},
      t.advance number line = .ok next → P t → P next)
    (h : read host table lines = .ok (loads, after)) : ∃ t, P t ∧ t.loads = loads := by
  obtain ⟨t, hscan, hloads, _⟩ := read_eq_ok_iff.mp h
  have hkept : P (LogLines.scan step 1 (Tracker.new host table) lines).1 := by
    refine LogLines.scan_preserves ?_ hnew lines
    intro number line before next hstep hbefore
    unfold step at hstep
    split at hstep
    · cases hstep
    · exact Except.ok.inj hstep ▸ hbefore
    · exact hadvance hstep hbefore
  rw [hscan] at hkept
  exact ⟨t, hkept, hloads⟩

theorem numbered_of_records {lines : LogLines} {loads : List PageLoad} (h : records host lines = .ok loads) :
    PageLoad.Numbered loads ∧ ∀ load ∈ loads, load.host = host := by
  rw [← map_fst_read host (Interner.empty.insert host)] at h
  obtain ⟨⟨found, after⟩, hread, rfl⟩ := Except.map_eq_ok_iff.mp h
  constructor
  · obtain ⟨t, ⟨starts, ht⟩, rfl⟩ := exists_tracker_of_read (P := fun t => ∃ starts, t.Consistent host starts)
      ⟨[], Tracker.consistent_new host⟩ (fun hnext ⟨_, ht⟩ => ⟨_, ht.advance hnext⟩) hread
    exact ⟨ht.one_le_number, ht.numbers_increase⟩
  · obtain ⟨t, ⟨history, ht⟩, rfl⟩ := exists_tracker_of_read (P := fun t => ∃ history, t.Follows host history)
      ⟨[], Tracker.follows_new host _⟩ (fun hnext ⟨_, ht⟩ => ⟨_, ht.advance hnext⟩) hread
    exact forall_mem_of_forall₂ ht.loads_record fun _ _ hrecord => hrecord.host_eq

end DriverLog

namespace Trial

variable {trial : Trial}

theorem nodup_of_numbered (h : ∀ host, PageLoad.Numbered (trial.loadsOf host)) :
    (trial.loads.map fun load => (load.host, load.number)).Nodup := by
  have hnumbers : trial.loads.Pairwise fun earlier later =>
      earlier.host = later.host → earlier.number < later.number := by
    have hloads (host : String) := (h host).numbers_increase
    unfold loadsOf at hloads
    generalize trial.loads = loads at hloads
    induction loads with
    | nil => exact .nil
    | cons first rest ih =>
      refine List.pairwise_cons.mpr ⟨fun later hlater hhost => ?_, ih fun host => ?_⟩
      · have hfirst := hloads first.host
        rw [List.filter_cons_of_pos (by simp)] at hfirst
        exact List.rel_of_pairwise_cons hfirst (List.mem_filter.mpr ⟨hlater, by simp [hhost]⟩)
      · exact (hloads host).sublist ((List.sublist_cons_self first rest).filter _)
  refine List.pairwise_map.mpr (hnumbers.imp ?_)
  intro earlier later hless heq
  obtain ⟨hhost, hnumber⟩ := Prod.mk.inj heq
  exact UInt32.ne_of_lt (hless hhost) hnumber

end Trial

namespace Experiment

variable {store : Store} {settings : ParseSettings} {directory description : String} {trial : Trial}

/-- The records of a log, beside which no other log is looked at. -/
def LogHolds (store : Store) (host : String) (path : Trail) (part : List PageLoad) : Prop :=
  ∃ log, lines store path = .ok log ∧ DriverLog.records host log = .ok part

theorem HostHolds.exists_parts {host : Host} {logs : HostLogs} (h : HostHolds store settings host logs)
    (hrole : host.role = .webClient) :
    ∃ paths parts, AreLogs store settings.driverLogStem host.path paths ∧
      List.Forall₂ (LogHolds store host.name) paths parts ∧ logs.loads = parts.flatten := by
  cases h with
  | exitRelay role => cases hrole.symm.trans role
  | webClient _ areDriverLogs _ holdLoads _ =>
    obtain ⟨parts, hparts, hloads⟩ := holdLoads
    exact ⟨_, parts, areDriverLogs, hparts, hloads⟩

theorem HostHolds.host_of_mem_loads {host : Host} {logs : HostLogs} (h : HostHolds store settings host logs)
    {load : PageLoad} (hload : load ∈ logs.loads) : host.role = .webClient ∧ load.host = host.name := by
  cases h with
  | exitRelay => cases hload
  | webClient role _ _ holdLoads _ =>
    refine ⟨role, ?_⟩
    obtain ⟨parts, hparts, hloads⟩ := holdLoads
    rw [hloads] at hload
    obtain ⟨part, hpart, hmem⟩ := List.mem_flatten.mp hload
    refine forall_mem_of_forall₂ hparts (P := fun part => ∀ load ∈ part, load.host = host.name) ?_ part hpart load hmem
    rintro _ _ ⟨log, _, hrecords⟩
    exact (DriverLog.numbered_of_records hrecords).2

variable {parsed : List (Host × HostLogs)}

theorem Parsed.hostHolds (h : Parsed store settings directory description parsed trial) :
    ∀ entry ∈ parsed, HostHolds store settings entry.1 entry.2 :=
  h.gathered.hostHolds

theorem Parsed.exists_host_of_mem_loads (h : Parsed store settings directory description parsed trial)
    {load : PageLoad} (hload : load ∈ trial.loads) :
    ∃ host ∈ parsed.map Prod.fst, host.role = .webClient ∧ load.host = host.name := by
  rw [h.loads_eq] at hload
  obtain ⟨entry, hentry, hload⟩ := List.mem_flatMap.mp hload
  exact ⟨entry.1, List.mem_map_of_mem hentry, (h.hostHolds entry hentry).host_of_mem_loads hload⟩

/-- The records under a name are those of the directories of this name, one directory after another. -/
theorem Parsed.loadsOf_eq (h : Parsed store settings directory description parsed trial) (name : String) :
    trial.loadsOf name = (parsed.filter fun (host, _) => host.name = name).flatMap fun (_, logs) => logs.loads := by
  have hholds := h.hostHolds
  rw [Trial.loadsOf, h.loads_eq]
  clear h
  induction parsed with
  | nil => rfl
  | cons first rest ih =>
    obtain ⟨host, logs⟩ := first
    obtain ⟨hfirst, hrest⟩ := List.forall_mem_cons.mp hholds
    rw [List.flatMap_cons, List.filter_append, ih hrest]
    by_cases hname : host.name = name
    · rw [List.filter_cons_of_pos (by simp [hname]), List.flatMap_cons, List.filter_eq_self.mpr]
      exact fun load hload => decide_eq_true ((hfirst.host_of_mem_loads hload).2.trans hname)
    · rw [List.filter_cons_of_neg (by simp [hname]), List.filter_eq_nil_iff.mpr, List.nil_append]
      intro load hload hhost
      exact hname ((hfirst.host_of_mem_loads hload).2.symm.trans (of_decide_eq_true hhost))

/-- The records of a client stand together in the trial, log by log, and those of each log are numbered. Under a
name that is shown once there are no others. -/
theorem Parsed.exists_parts (h : Parsed store settings directory description parsed trial) {host : Host}
    (hhost : host ∈ parsed.map Prod.fst) (hrole : host.role = .webClient) :
    ∃ paths parts, AreLogs store settings.driverLogStem host.path paths ∧
      List.Forall₂ (LogHolds store host.name) paths parts ∧ parts.flatten <:+: trial.loads ∧
      (∀ part ∈ parts, PageLoad.Numbered part) ∧
      (ShownOnce store (Path.join directory settings.hostsDir) host.name →
        trial.loadsOf host.name = parts.flatten ∧
        (paths.length ≤ 1 → PageLoad.Numbered (trial.loadsOf host.name))) := by
  obtain ⟨⟨host, logs⟩, hentry, rfl⟩ := List.mem_map.mp hhost
  obtain ⟨paths, parts, hpaths, hforall, hflatten⟩ := (h.hostHolds _ hentry).exists_parts hrole
  have hinfix : parts.flatten <:+: trial.loads := by
    obtain ⟨before, after, rfl⟩ := List.append_of_mem hentry
    rw [← hflatten, h.loads_eq, List.flatMap_append, List.flatMap_cons]
    exact ⟨_, _, List.append_assoc _ _ _⟩
  have hnumbered : ∀ part ∈ parts, PageLoad.Numbered part := by
    refine forall_mem_of_forall₂ hforall ?_
    rintro _ _ ⟨log, _, hrecords⟩
    exact (DriverLog.numbered_of_records hrecords).1
  refine ⟨paths, parts, hpaths, hforall, hinfix, hnumbered, fun honce => ?_⟩
  have hloads : trial.loadsOf host.name = parts.flatten := by
    rw [← hflatten, h.loadsOf_eq, h.filter_eq_singleton hentry honce, List.flatMap_singleton]
  refine ⟨hloads, fun hone => ?_⟩
  rw [hforall.length_eq] at hone
  rw [hloads]
  match parts, hone with
  | [], _ => exact PageLoad.numbered_nil
  | [part], _ => simpa using hnumbered part (List.mem_singleton_self part)

/-- Within each driver log the numbers of the records begin at one or above and increase. The records of a host are
those of its logs, log by log in the byte order of their names, and the numbers begin anew with each log. So the
numbers of a host with one driver log increase over all its records, unless other hosts have its name, and where no
two hosts have one name and no host has more than one driver log, the name of the host and the number identify a
record. -/
theorem load_numbers_increase_within_logs (h : read store settings directory description = .ok trial) :
    ∃ hosts, AreHosts store settings (Path.join directory settings.hostsDir) hosts ∧
      (∀ load ∈ trial.loads, ∃ host ∈ hosts, host.role = .webClient ∧ load.host = host.name) ∧
      (∀ host ∈ hosts, host.role = .webClient → ∃ paths parts,
        AreLogs store settings.driverLogStem host.path paths ∧
        List.Forall₂ (LogHolds store host.name) paths parts ∧ parts.flatten <:+: trial.loads ∧
        (∀ part ∈ parts, PageLoad.Numbered part) ∧
        (ShownOnce store (Path.join directory settings.hostsDir) host.name →
          trial.loadsOf host.name = parts.flatten ∧
          (paths.length ≤ 1 → PageLoad.Numbered (trial.loadsOf host.name)))) ∧
      ((∀ host ∈ hosts, host.role = .webClient →
          ShownOnce store (Path.join directory settings.hostsDir) host.name ∧
          ∀ paths, AreLogs store settings.driverLogStem host.path paths → paths.length ≤ 1) →
        (trial.loads.map fun load => (load.host, load.number)).Nodup) := by
  obtain ⟨parsed, hparsed⟩ := exists_parsed_of_read h
  refine ⟨parsed.map Prod.fst, hparsed.gathered.areHosts, fun load hload => hparsed.exists_host_of_mem_loads hload,
    fun host hhost hrole => hparsed.exists_parts hhost hrole, fun hone => Trial.nodup_of_numbered ?_⟩
  intro name
  by_cases hname : ∃ host ∈ parsed.map Prod.fst, host.role = .webClient ∧ host.name = name
  · obtain ⟨host, hhost, hrole, rfl⟩ := hname
    obtain ⟨honce, hlogs⟩ := hone host hhost hrole
    obtain ⟨paths, _, hpaths, _, _, _, hnumbered⟩ := hparsed.exists_parts hhost hrole
    exact (hnumbered honce).2 (hlogs paths hpaths)
  · have hnil : trial.loadsOf name = [] := by
      refine List.filter_eq_nil_iff.mpr fun load hload hhost => hname ?_
      obtain ⟨host, hmem, hrole, hload⟩ := hparsed.exists_host_of_mem_loads hload
      exact ⟨host, hmem, hrole, hload ▸ of_decide_eq_true hhost⟩
    rw [hnil]
    exact PageLoad.numbered_nil

theorem exists_driverLogs_of_holds {host : String} {paths : List Trail} {parts : List (List PageLoad)}
    (h : List.Forall₂ (LogHolds store host) paths parts) (loads : List PageLoad) (table : Interner) :
    ∃ after, driverLogs store host loads table paths = .ok (loads ++ parts.flatten, after) := by
  induction h generalizing loads table with
  | nil => exact ⟨table, by simp [driverLogs]⟩
  | cons hlog _ ih =>
    obtain ⟨log, hlines, hrecords⟩ := hlog
    rw [← DriverLog.map_fst_read host table] at hrecords
    obtain ⟨⟨found, between⟩, hread, rfl⟩ := Except.map_eq_ok_iff.mp hrecords
    obtain ⟨after, hrest⟩ := ih (loads ++ found) between
    rw [List.flatten_cons, ← List.append_assoc]
    exact ⟨after, driverLogs_cons_eq_ok_iff.mpr ⟨log, found, between, hlines, hread, hrest⟩⟩

def driverLines : List String :=
  ["0:0:1 I - a :1, f() :: driver= 1: start loading page [u]",
    "0:0:2 I - a :1, f() :: loadnum= 1, webmode= v, proxyMode= tor: loadResult= FAILED: startSec= 1 plt= 0" ++
      " page= [u] ttfb= 0 numReqs= 0 numSuccess= 0 numFailed= 0 numAfterDOMLoadEvent= 0 numForced= 0"]

/-- The record of a load that failed, the first one of its log. -/
def firstLoad (host : String) : PageLoad :=
  ⟨host, 1, "u", .tor, .failed .failed, 1, Binary64.ofNat 2, 0, 0, 0, 0, 0, 0, 0⟩

theorem logHolds_driverLines {host : String} {path : Trail} (hname : Path.namesCompressed path = false)
    (hopen : store.openFile path = .ok (.ok (.plain (LogLines.bytesOfTexts driverLines))))
    (hhost : host = "webclient1" ∨ host = "webclient\uFFFD") : LogHolds store host path [firstLoad host] := by
  have htexts : ∀ line ∈ driverLines, '\n' ∉ line.toList := by
    simp only [driverLines, List.forall_mem_cons, String.toList_append]
    decide +kernel
  refine ⟨_, lines_ofTexts hname hopen htexts, ?_⟩
  simp only [LogLines.ofTexts, driverLines, List.map_cons, List.map_nil, String.toList_append]
  rcases hhost with rfl | rfl
  · decide +kernel
  · decide +kernel

def storeOfTwoDriverLogs : Store where
  entries := entriesOf [("webclient1", [("stdout-driver-1", driverLines), ("stdout-driver-2", driverLines)])]
  nodup := by decide +kernel

def trialOfTwoDriverLogs : Trial :=
  (Trial.empty ⟨"v3", "noon", "one"⟩ "").addHost "webclient1"
    ⟨[firstLoad "webclient1", firstLoad "webclient1"], [], []⟩

theorem read_ofTwoDriverLogs :
    read storeOfTwoDriverLogs { hostsDir := "hosts" } "" "" = .ok trialOfTwoDriverLogs := by
  have hhosts : Experiment.hosts storeOfTwoDriverLogs { hostsDir := "hosts" } (Path.join "" "hosts") =
      .ok [⟨"webclient1", hostPath "webclient1", .webClient⟩] :=
    hosts_ofWebClient rfl (by decide) (by decide +kernel)
  have hlisted : storeOfTwoDriverLogs.list (hostPath "webclient1") =
      .ok ["stdout-driver-1", "stdout-driver-2"] := by
    decide +kernel
  have hdriver : logPaths storeOfTwoDriverLogs "stdout-driver-" (hostPath "webclient1") =
      .ok ([Name.ofText "stdout-driver-1", Name.ofText "stdout-driver-2"].map (hostPath "webclient1").child) :=
    logPaths_eq_ok hlisted (.of_eq (by decide +kernel)) (by decide)
  have hproxy : logPaths storeOfTwoDriverLogs "stdout-tproxy-" (hostPath "webclient1") = .ok [] := by decide +kernel
  have hrun : run storeOfTwoDriverLogs { hostsDir := "hosts" } "" = .ok ⟨"v3", "noon", "one"⟩ :=
    run_ofSimulatorLines _ (by decide +kernel) (by decide +kernel)
  have hlog : ∀ name ∈ [Name.ofText "stdout-driver-1", Name.ofText "stdout-driver-2"],
      LogHolds storeOfTwoDriverLogs "webclient1" ((hostPath "webclient1").child name) [firstLoad "webclient1"] := by
    intro name hname
    rcases List.mem_pair.mp hname with rfl | rfl
    · exact logHolds_driverLines (by decide +kernel) (by decide +kernel) (.inl rfl)
    · exact logHolds_driverLines (by decide +kernel) (by decide +kernel) (.inl rfl)
  obtain ⟨after, hloads⟩ := exists_driverLogs_of_holds
    (.cons (hlog _ List.mem_cons_self) (.cons (hlog _ (List.mem_cons_of_mem _ List.mem_cons_self)) .nil)) []
    (Interner.empty.insert "webclient1")
  exact read_ofOneHost hrun hhosts (hostLogs_webClient hdriver hloads hproxy rfl)

/-- Two driver logs of one host: both records have the number one. -/
theorem load_numbers_increase_within_logs_ofTwoDriverLogs :
    read storeOfTwoDriverLogs { hostsDir := "hosts" } "" "" = .ok trialOfTwoDriverLogs ∧
      ∃ parts : List (List PageLoad), trialOfTwoDriverLogs.loadsOf "webclient1" = parts.flatten ∧
        ∀ part ∈ parts, PageLoad.Numbered part := by
  obtain ⟨hosts, _, hloads, hparts, _⟩ := load_numbers_increase_within_logs read_ofTwoDriverLogs
  obtain ⟨host, hhost, hrole, hname⟩ := hloads (firstLoad "webclient1") List.mem_cons_self
  obtain ⟨_, parts, _, _, _, hnumbered, honce⟩ := hparts host hhost hrole
  have hname : "webclient1" = host.name := hname
  have hlisted : storeOfTwoDriverLogs.list (Path.join "" "hosts") = .ok ["webclient1"] := by decide +kernel
  exact ⟨read_ofTwoDriverLogs, parts, hname ▸ (honce (shownOnce_of_singleton hlisted _)).1, hnumbered⟩

def storeOfForeignDrivers : Store where
  entries := entriesOf
    [(foreignName 0xFF, [("stdout-driver-1", driverLines)]), (foreignName 0xFE, [("stdout-driver-1", driverLines)])]
  nodup := by decide +kernel

def trialOfForeignDrivers : Trial :=
  (Trial.empty ⟨"v3", "noon", "one"⟩ "").addEach
    [("webclient\uFFFD", ⟨[firstLoad "webclient\uFFFD"], [], []⟩),
      ("webclient\uFFFD", ⟨[firstLoad "webclient\uFFFD"], [], []⟩)]

private theorem exists_hostLogs_ofForeignDriver (byte : UInt8)
    (hdriver : logPaths storeOfForeignDrivers "stdout-driver-" (hostPath (foreignName byte)) =
      .ok [(hostPath (foreignName byte)).child "stdout-driver-1"])
    (hproxy : logPaths storeOfForeignDrivers "stdout-tproxy-" (hostPath (foreignName byte)) = .ok [])
    (hname : Path.namesCompressed ((hostPath (foreignName byte)).child "stdout-driver-1") = false)
    (hopen : storeOfForeignDrivers.openFile ((hostPath (foreignName byte)).child "stdout-driver-1") =
      .ok (.ok (.plain (LogLines.bytesOfTexts driverLines)))) (table : Interner) :
    ∃ after, hostLogs storeOfForeignDrivers { hostsDir := "hosts" } table (foreignHost byte) =
      .ok (⟨[firstLoad "webclient\uFFFD"], [], []⟩, after) := by
  obtain ⟨after, hloads⟩ := exists_driverLogs_of_holds
    (.cons (logHolds_driverLines hname hopen (.inr rfl)) .nil) [] table
  exact ⟨after, hostLogs_webClient hdriver hloads hproxy rfl⟩

theorem read_ofForeignDrivers :
    read storeOfForeignDrivers { hostsDir := "hosts" } "" "" = .ok trialOfForeignDrivers := by
  have hhosts : Experiment.hosts storeOfForeignDrivers { hostsDir := "hosts" } (Path.join "" "hosts") =
      .ok [foreignHost 0xFF, foreignHost 0xFE] := hosts_ofForeignNames (by decide +kernel) (by decide +kernel)
  have hrun : run storeOfForeignDrivers { hostsDir := "hosts" } "" = .ok ⟨"v3", "noon", "one"⟩ :=
    run_ofSimulatorLines _ (by decide +kernel) (by decide +kernel)
  obtain ⟨between, hfirst⟩ := exists_hostLogs_ofForeignDriver 0xFF (by decide +kernel) (by decide +kernel)
    (by decide +kernel) (by decide +kernel) (Interner.empty.insert (foreignHost 0xFF).name)
  obtain ⟨_, hsecond⟩ := exists_hostLogs_ofForeignDriver 0xFE (by decide +kernel) (by decide +kernel)
    (by decide +kernel) (by decide +kernel) (between.insert (foreignHost 0xFE).name)
  exact read_ofTwoHosts hrun hhosts hfirst hsecond

/-- Neither two driver logs of one host nor those of two hosts of one name go on with the numbers. -/
theorem load_numbers_increase_not_ofTwoDriverLogs :
    read storeOfTwoDriverLogs { hostsDir := "hosts" } "" "" = .ok trialOfTwoDriverLogs ∧
      ¬ PageLoad.Numbered (trialOfTwoDriverLogs.loadsOf "webclient1") ∧
      ¬ (trialOfTwoDriverLogs.loads.map fun load => (load.host, load.number)).Nodup ∧
      read storeOfForeignDrivers { hostsDir := "hosts" } "" "" = .ok trialOfForeignDrivers ∧
      ¬ (trialOfForeignDrivers.loads.map fun load => (load.host, load.number)).Nodup := by
  refine ⟨read_ofTwoDriverLogs, fun hnumbered => ?_, by decide, read_ofForeignDrivers, by decide⟩
  have hless := hnumbered.numbers_increase
  revert hless
  decide

end Experiment

end PageLoads
