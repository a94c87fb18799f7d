import PageLoads.Proofs.Experiment.LoadNumbers

/-!
# Schedules of an experiment

The hosts of an experiment are read by tasks that run at the same time. Which host is read when, which text
enters the shared table first and in which order a directory lists its names is left to the schedule. If at most
one host fails, only one thing makes a difference, the order in which hosts are listed whose names are shown alike:
every schedule ends, and with the answer of reading the hosts one after another.
-/

namespace PageLoads.Experiment

open Store (SameNames)

variable {store other : Store} {settings : ParseSettings} {directory description : String}
  {answer : Except Failure Trial}

/-- The tasks of some hosts, in the order of the hosts, and the table that they share. -/
def poolOf (store : Store) (settings : ParseSettings) (hosts : List Host) : Pool Failure (String × HostLogs) :=
  ⟨hosts.map (hostTask store settings), Interner.empty⟩

/-- What reading an experiment may answer if its hosts are listed in one order, and otherwise directories list their
names in any order and the tasks of the hosts take turns in any order. -/
inductive Answers (store : Store) (settings : ParseSettings) (directory description : String)
    (listed : Except IoFault (List Name)) : Except Failure Trial → Prop
  | run {failure : Failure} (hrun : Experiment.run store settings directory = .error failure) :
      Answers store settings directory description listed (.error failure)
  | hosts {run : Run} {failure : Failure}
      (hrun : Experiment.run store settings directory = .ok run)
      (hhosts : hostsOf settings (Path.join directory settings.hostsDir) listed = .error failure) :
      Answers store settings directory description listed (.error failure)
  | pool {run : Run} {hosts : List Host}
      {last : Pool Failure (String × HostLogs)} {parsed : Except Failure (List (String × HostLogs))}
      (hrun : Experiment.run store settings directory = .ok run)
      (hhosts : hostsOf settings (Path.join directory settings.hostsDir) listed = .ok hosts)
      (hreaches : Relation.ReflTransGen (Pool.Step store) (poolOf store settings hosts) last)
      (hparsed : last.Answers parsed) :
      Answers store settings directory description listed (parsed.map (Trial.empty run description).addEach)

/-- The logs of a host are not all found, read and accepted. -/
def HostFails (store : Store) (settings : ParseSettings) (host : Host) : Prop :=
  ∃ failure, hostLogs store settings Interner.empty host = .error failure

def AtMostOneFails (store : Store) (settings : ParseSettings) (directory : String) : Prop :=
  ∀ hosts, Experiment.hosts store settings (Path.join directory settings.hostsDir) = .ok hosts →
    ∀ first ∈ hosts, ∀ second ∈ hosts, HostFails store settings first → HostFails store settings second →
      first = second

theorem steady_poolOf (hosts : List Host) : (poolOf store settings hosts).Steady := by
  intro task htask
  obtain ⟨host, _, rfl⟩ := List.mem_map.mp htask
  exact steady_hostTask host

theorem outcomes_poolOf (hosts : List Host) :
    (poolOf store settings hosts).outcomes store =
      hosts.map fun host => (hostTask store settings host).outcome store :=
  List.map_map

theorem outcome_eq_error_iff {host : Host} {failure : Failure} :
    (hostTask store settings host).outcome store = .error failure ↔
      hostLogs store settings Interner.empty host = .error failure := by
  rw [outcome_hostTask Interner.empty]
  cases hostLogs store settings Interner.empty host <;> simp [Except.map]

/-- What all tasks of a pool amount to, however they take turns. -/
theorem eq_collect_of_poolOf {hosts : List Host} {last : Pool Failure (String × HostLogs)}
    {parsed : Except Failure (List (String × HostLogs))}
    (hone : ∀ first ∈ hosts, ∀ second ∈ hosts, HostFails store settings first →
      HostFails store settings second → first = second)
    (hreaches : Relation.ReflTransGen (Pool.Step store) (poolOf store settings hosts) last)
    (hparsed : last.Answers parsed) :
    parsed = Pool.collect (hosts.map fun host => (hostTask store settings host).outcome store) := by
  rw [← outcomes_poolOf]
  refine Pool.eq_collect_of_answers hreaches (steady_poolOf hosts) hparsed ?_
  intro failure another hfailure hanother
  rw [outcomes_poolOf] at hfailure hanother
  obtain ⟨first, hfirst, hfirstFails⟩ := List.mem_map.mp hfailure
  obtain ⟨second, hsecond, hsecondFails⟩ := List.mem_map.mp hanother
  rw [outcome_eq_error_iff] at hfirstFails hsecondFails
  obtain rfl := hone first hfirst second hsecond ⟨_, hfirstFails⟩ ⟨_, hsecondFails⟩
  rw [hfirstFails] at hsecondFails
  exact (Except.error.inj hsecondFails).symm

/-- What is read of an experiment, one host after another, if its hosts are listed in some order. -/
def readListed (store : Store) (settings : ParseSettings) (directory description : String)
    (listed : Except IoFault (List Name)) : Except Failure Trial := do
  let run ← run store settings directory
  let hosts ← hostsOf settings (Path.join directory settings.hostsDir) listed
  addHosts store settings (Trial.empty run description) Interner.empty hosts

theorem read_eq_readListed :
    read store settings directory description =
      readListed store settings directory description (store.list (Path.join directory settings.hostsDir)) := rfl

/-- To read the hosts one after another is one of the schedules, however many hosts fail. -/
theorem answers_readListed (store : Store) (settings : ParseSettings) (directory description : String)
    (listed : Except IoFault (List Name)) :
    Answers store settings directory description listed
      (readListed store settings directory description listed) := by
  rw [readListed]
  cases hrun : run store settings directory with
  | error failure => exact .run hrun
  | ok run =>
    cases hhosts : hostsOf settings (Path.join directory settings.hostsDir) listed with
    | error failure => simpa only [bind, Except.bind] using Answers.hosts hrun hhosts
    | ok hosts =>
      obtain ⟨last, hreaches, hanswer⟩ := Pool.exists_reaches_collect store (poolOf store settings hosts)
      rw [outcomes_poolOf] at hanswer
      simpa only [bind, Except.bind, addHosts_eq] using Answers.pool hrun hhosts hreaches hanswer

theorem answers_iff_eq_readListed {listed : Except IoFault (List Name)}
    (hone : ∀ hosts, hostsOf settings (Path.join directory settings.hostsDir) listed = .ok hosts →
      ∀ first ∈ hosts, ∀ second ∈ hosts, HostFails store settings first → HostFails store settings second →
        first = second) :
    Answers store settings directory description listed answer ↔
      answer = readListed store settings directory description listed := by
  constructor
  · intro h
    cases h with
    | run hrun =>
      rw [readListed, hrun]
      rfl
    | hosts hrun hhosts =>
      rw [readListed, hrun]
      simp only [bind, Except.bind, hhosts]
    | pool hrun hhosts hreaches hparsed =>
      rw [eq_collect_of_poolOf (hone _ hhosts) hreaches hparsed, ← addHosts_eq _ Interner.empty, readListed, hrun]
      simp only [bind, Except.bind, hhosts]
  · rintro rfl
    exact answers_readListed store settings directory description listed

/-- Reading an experiment depends on the order in which the store holds its entries, and in which the directory of
the hosts lists them, only where names of hosts are shown alike. -/
theorem readListed_of_perm (h : other.entries.Perm store.entries) {listed : Except IoFault (List Name)}
    (hturns : SameTurns settings listed (store.list (Path.join directory settings.hostsDir))) :
    readListed other settings directory description listed = read store settings directory description := by
  rw [read_eq_readListed]
  simp only [readListed, run_of_perm h, addHosts_of_perm h, hostsOf_eq (fun _ => Store.nodup_of_list) hturns]

/-- If at most one host fails, reading an experiment has one answer, in whatever order the store holds its entries,
directories list their names and the tasks of the hosts take turns, as long as hosts whose names are shown alike are
listed in one order. No turns go on for ever, and an answer can be reached from wherever they have led. If the answer
is a trial, it is what the logs of the hosts hold, host by host and log by log. -/
theorem answers_iff_and_gathered (description : String) (hone : AtMostOneFails store settings directory) :
    (∀ other : Store, other.entries.Perm store.entries → ∀ listed,
      SameTurns settings listed (store.list (Path.join directory settings.hostsDir)) →
      (∀ answer, Answers other settings directory description listed answer ↔
        answer = read store settings directory description) ∧
      ∀ hosts : List Host,
        (¬ ∃ turns : Nat → Pool Failure (String × HostLogs), turns 0 = poolOf other settings hosts ∧
          ∀ n, Pool.Step other (turns n) (turns (n + 1))) ∧
        ∀ between, Relation.ReflTransGen (Pool.Step other) (poolOf other settings hosts) between →
          ∃ last parsed, Relation.ReflTransGen (Pool.Step other) between last ∧ last.Answers parsed) ∧
    ∀ trial, read store settings directory description = .ok trial →
      ∃ parsed, Gathered store settings directory description parsed trial := by
  refine ⟨fun other hperm listed hturns => ⟨?_, ?_⟩, fun trial => exists_gathered_of_read⟩
  · intro answer
    rw [answers_iff_eq_readListed, readListed_of_perm hperm hturns]
    intro hosts hhosts
    rw [hostsOf_eq (fun _ => Store.nodup_of_list) hturns] at hhosts
    simpa only [HostFails, hostLogs_of_perm hperm] using hone hosts hhosts
  · intro hosts
    refine ⟨Pool.not_exists_endless (steady_poolOf hosts), ?_⟩
    intro between _
    obtain ⟨last, hreaches, hanswer⟩ := Pool.exists_reaches_collect other between
    exact ⟨last, _, hreaches, hanswer⟩

theorem hostLogs_exitRelay {table : Interner} {name : String} {path : Trail} {proxyPaths : List Trail}
    {handlers : List Report} (hproxy : logPaths store settings.proxyLogStem path = .ok proxyPaths)
    (hhandlers : exitLogs store [] proxyPaths = .ok handlers) :
    hostLogs store settings table ⟨name, path, .exitRelay⟩ = .ok (⟨[], [], handlers⟩, table) := by
  simp only [hostLogs, hproxy, hhandlers, bind, Except.bind, pure, Except.pure]

def handlerLines : List String :=
  ["0:0:3 I - a :1, f() :: csphandler= 7: with peer p recv: all_bytes= 8 useful_bytes= 4 dummy_cells= 1" ++
    " ; send: all_bytes= 6 useful_bytes= 3 dummy_cells= 2 dummy_cells_avoided= 5"]

def storeOfTwoHosts : Store where
  entries := entriesOf
    [("webclient1", [("stdout-tproxy-1", proxyLines), ("stdout-driver-1", driverLines)]),
      ("guard1", [("stdout-tproxy-1", ["nothing of note"])]), ("relay1exit", [("stdout-tproxy-1", handlerLines)])]
  nodup := by decide +kernel

def handlerReports : List Report :=
  [⟨Binary64.ofNat 3, ⟨8, 4, 1, 6, 3, 2, 5⟩⟩]

def trialOfTwoHosts : Trial where
  run := ⟨"v3", "noon", "one"⟩
  description := "two hosts"
  loads := [firstLoad "webclient1"]
  running := [("webclient1", reportsOfOneClient)]
  handlers := handlerReports
  ascending := ascending_ofOneClient

def relayHost : Host :=
  ⟨"relay1exit", hostPath "relay1exit", .exitRelay⟩

def clientHost : Host :=
  ⟨"webclient1", hostPath "webclient1", .webClient⟩

theorem list_ofTwoHosts :
    storeOfTwoHosts.list (Path.join "" "hosts") = .ok ["webclient1", "guard1", "relay1exit"] := by
  decide +kernel

theorem hosts_ofTwoHosts :
    hosts storeOfTwoHosts { hostsDir := "hosts" } (Path.join "" "hosts") = .ok [relayHost, clientHost] := by
  have hfound : [Name.ofText "webclient1", Name.ofText "guard1", Name.ofText "relay1exit"].filterMap
      (host? { hostsDir := "hosts" } (Path.join "" "hosts")) = [clientHost, relayHost] := by
    decide +kernel
  have hdiffer : [relayHost, clientHost].Pairwise fun a b => a.name ≠ b.name := by decide
  refine hosts_eq_ok_iff.mpr ⟨_, list_ofTwoHosts, ?_⟩
  rw [hfound]
  refine (orderedHosts_eq_of_perm (by decide) (.swap relayHost clientHost []) ?_).trans
    (orderedHosts_eq_self (by decide))
  exact fun a b hpair hname => absurd hname (List.pairwise_iff_forall_sublist.mp hdiffer hpair)

private theorem hostLogs_ofRelay (table : Interner) :
    hostLogs storeOfTwoHosts { hostsDir := "hosts" } table relayHost = .ok (⟨[], [], handlerReports⟩, table) := by
  have hproxy : logPaths storeOfTwoHosts "stdout-tproxy-" (hostPath "relay1exit") =
      .ok [(hostPath "relay1exit").child "stdout-tproxy-1"] := by decide +kernel
  have htexts : ∀ line ∈ handlerLines, '\n' ∉ line.toList := by
    simp only [handlerLines, List.forall_mem_cons, String.toList_append]
    decide +kernel
  have hlines : lines storeOfTwoHosts ((hostPath "relay1exit").child "stdout-tproxy-1") =
      .ok (LogLines.ofTexts handlerLines) := lines_ofTexts (by decide +kernel) (by decide +kernel) htexts
  have hread : ProxyLog.readExit (LogLines.ofTexts handlerLines) = .ok handlerReports := by
    simp only [LogLines.ofTexts, handlerLines, List.map_cons, List.map_nil, String.toList_append]
    decide +kernel
  exact hostLogs_exitRelay hproxy (exitLogs_cons_eq_ok_iff.mpr ⟨_, _, hlines, hread, rfl⟩)

private theorem exists_hostLogs_ofClient (table : Interner) :
    ∃ after, hostLogs storeOfTwoHosts { hostsDir := "hosts" } table clientHost =
      .ok (⟨[firstLoad "webclient1"], reportsOfOneClient, []⟩, after) := by
  have hdriver : logPaths storeOfTwoHosts "stdout-driver-" (hostPath "webclient1") =
      .ok [(hostPath "webclient1").child "stdout-driver-1"] := by decide +kernel
  have hproxy : logPaths storeOfTwoHosts "stdout-tproxy-" (hostPath "webclient1") =
      .ok [(hostPath "webclient1").child "stdout-tproxy-1"] := by decide +kernel
  have hlog : LogHolds storeOfTwoHosts "webclient1" ((hostPath "webclient1").child "stdout-driver-1")
      [firstLoad "webclient1"] := logHolds_driverLines (by decide +kernel) (by decide +kernel) (.inl rfl)
  have hlines : lines storeOfTwoHosts ((hostPath "webclient1").child "stdout-tproxy-1") =
      .ok (LogLines.ofTexts proxyLines) :=
    lines_ofTexts (by decide +kernel) (by decide +kernel) no_lineFeed_proxyLines
  obtain ⟨after, hloads⟩ := exists_driverLogs_of_holds (.cons hlog .nil) [] table
  exact ⟨after, hostLogs_webClient hdriver hloads hproxy
    (clientLogs_cons_eq_ok_iff.mpr ⟨_, _, hlines, appendClient_proxyLines, rfl⟩)⟩

theorem read_storeOfTwoHosts :
    read storeOfTwoHosts { hostsDir := "hosts" } "" "two hosts" = .ok trialOfTwoHosts := by
  have hrun : run storeOfTwoHosts { hostsDir := "hosts" } "" = .ok ⟨"v3", "noon", "one"⟩ :=
    run_ofSimulatorLines _ (by decide +kernel) (by decide +kernel)
  obtain ⟨_, hclient⟩ := exists_hostLogs_ofClient ((Interner.empty.insert relayHost.name).insert clientHost.name)
  exact read_ofTwoHosts hrun hosts_ofTwoHosts (hostLogs_ofRelay _) hclient

theorem atMostOneFails_ofTwoHosts : AtMostOneFails storeOfTwoHosts { hostsDir := "hosts" } "" := by
  intro hosts h first hfirst second hsecond ⟨_, hfails⟩ _
  cases hosts_ofTwoHosts.symm.trans h
  rcases List.mem_pair.mp hfirst with rfl | rfl
  · cases (hostLogs_ofRelay _).symm.trans hfails
  · obtain ⟨_, hclient⟩ := exists_hostLogs_ofClient Interner.empty
    cases hclient.symm.trans hfails

/-- Any order of the hosts and any turns of their tasks give the trial of a client and a relay. -/
theorem answers_iff_and_gathered_ofTwoHosts :
    AtMostOneFails storeOfTwoHosts { hostsDir := "hosts" } "" ∧
      (∀ listed, SameNames listed (storeOfTwoHosts.list (Path.join "" "hosts")) →
        ∀ answer, Answers storeOfTwoHosts { hostsDir := "hosts" } "" "two hosts" listed answer ↔
          answer = .ok trialOfTwoHosts) ∧
      ∃ parsed, Gathered storeOfTwoHosts { hostsDir := "hosts" } "" "two hosts" parsed trialOfTwoHosts := by
  have honce : HostsShownOnce storeOfTwoHosts { hostsDir := "hosts" } (Path.join "" "hosts") := by
    have hdiffer : ∀ a ∈ ["webclient1", "guard1", "relay1exit"].map Name.ofText,
        ∀ b ∈ ["webclient1", "guard1", "relay1exit"].map Name.ofText, a.shown = b.shown → a = b := by
      decide +kernel
    intro text _ names hlisted a ha b hb hashown hbshown
    cases list_ofTwoHosts.symm.trans hlisted
    exact hdiffer a ha b hb (hashown.trans hbshown.symm)
  obtain ⟨hanswers, hgathered⟩ := answers_iff_and_gathered "two hosts" atMostOneFails_ofTwoHosts
  refine ⟨atMostOneFails_ofTwoHosts, fun listed hlisted answer => ?_, hgathered _ read_storeOfTwoHosts⟩
  rw [← read_storeOfTwoHosts]
  exact (hanswers storeOfTwoHosts (.refl _) listed (honce.sameTurns hlisted)).1 answer

def storeOfForeignNamesReversed : Store where
  entries := entriesOf [lowerClient, higherClient]
  nodup := by decide +kernel

theorem perm_storeOfForeignNamesReversed :
    storeOfForeignNamesReversed.entries.Perm storeOfForeignNames.entries :=
  (((List.Perm.swap higherClient lowerClient []).flatMap_right _).cons _).cons _

theorem hosts_ofForeignNamesReversed :
    hosts storeOfForeignNamesReversed { hostsDir := "hosts" } (Path.join "" "hosts") =
      .ok [foreignHost 0xFE, foreignHost 0xFF] :=
  hosts_ofForeignNames (by decide +kernel) (by decide +kernel)

theorem read_ofForeignNamesReversed :
    read storeOfForeignNamesReversed { hostsDir := "hosts" } "" "" =
      .ok (foreignTrial (foreignReports 5 6) (foreignReports 20 30)) := by
  have hperm := perm_storeOfForeignNamesReversed
  have hrun : run storeOfForeignNamesReversed { hostsDir := "hosts" } "" = .ok ⟨"v3", "noon", "one"⟩ :=
    (run_of_perm hperm "").trans run_ofForeignNames
  exact read_ofTwoHosts hrun hosts_ofForeignNamesReversed
    ((hostLogs_of_perm hperm _ _).trans (hostLogs_ofForeignNames _).2)
    ((hostLogs_of_perm hperm _ _).trans (hostLogs_ofForeignNames _).1)

/-- Where names are shown alike, the answer is another if the hosts are listed in another order, although no host
fails. -/
theorem answers_iff_and_gathered_not_ofForeignNames :
    storeOfForeignNamesReversed.entries.Perm storeOfForeignNames.entries ∧
      AtMostOneFails storeOfForeignNames { hostsDir := "hosts" } "" ∧
      Answers storeOfForeignNames { hostsDir := "hosts" } "" "" (storeOfForeignNames.list (Path.join "" "hosts"))
        (.ok (foreignTrial (foreignReports 20 30) (foreignReports 5 6))) ∧
      Answers storeOfForeignNamesReversed { hostsDir := "hosts" } "" ""
        (storeOfForeignNamesReversed.list (Path.join "" "hosts"))
        (.ok (foreignTrial (foreignReports 5 6) (foreignReports 20 30))) ∧
      foreignTrial (foreignReports 20 30) (foreignReports 5 6) ≠
        foreignTrial (foreignReports 5 6) (foreignReports 20 30) := by
  refine ⟨perm_storeOfForeignNamesReversed, ?_, ?_, ?_, ?_⟩
  · intro hosts h first hfirst second _ ⟨_, hfails⟩ _
    have hfound : first = foreignHost 0xFF ∨ first = foreignHost 0xFE := by
      cases hosts_ofStoreOfForeignNames.symm.trans h
      exact List.mem_pair.mp hfirst
    rcases hfound with rfl | rfl
    · cases (hostLogs_ofForeignNames _).1.symm.trans hfails
    · cases (hostLogs_ofForeignNames _).2.symm.trans hfails
  · rw [← read_ofForeignNames, read_eq_readListed]
    exact answers_readListed _ _ _ _ _
  · rw [← read_ofForeignNamesReversed, read_eq_readListed]
    exact answers_readListed _ _ _ _ _
  · decide +kernel

end PageLoads.Experiment
