import PageLoads.Proofs.Experiment.CompressedLogs

/-!
# Compressing an experiment

An experiment of which files stand compressed is read as it was before. The simulator's log is looked for under its
name first and then with the extension behind it, the logs of hosts are found by their stems, and each is expanded
because its name says so. What could be noticed is not the compression but the extension: it may complete a stem,
and it makes paths longer.
-/

namespace PageLoads

theorem LogLines.ofContent_refused (fault : IoFault) : ofContent (.refused fault) = [.error fault] := by
  have hread : (Content.refused fault).drain .ofLines = ([], some fault) := by
    rw [Content.drain]
    rfl
  rw [ofContent, hread]
  rfl

namespace Experiment

open Store (Lists Compresses renamed)

variable {store other : Store} {settings : ParseSettings} {directory description : String}
  {replaced : List Place}

theorem openFirst_candidates_eq_ok_iff {stem path : String} {content : Content} :
    Log.openFirst store (Log.candidates directory stem) = .ok (path, content) ↔
      (store.openByName (Path.join directory stem) = .ok content ∧ path = Path.join directory stem) ∨
        store.openByName (Path.join directory stem) = .error .notFound ∧
          store.openByName (Path.compressedName (Path.join directory stem)) = .ok content ∧
          path = Path.compressedName (Path.join directory stem) := by
  have hcandidates : Log.candidates directory stem =
      [Path.join directory stem, Path.compressedName (Path.join directory stem)] := by
    rw [← Path.join_compressedName]
    rfl
  rw [hcandidates, Log.openFirst, Log.openFirstOf]
  cases hfirst : store.openByName (Path.join directory stem) with
  | ok found => simp [and_comm, eq_comm]
  | error fault =>
    cases hsecond : store.openByName (Path.compressedName (Path.join directory stem)) with
    | ok found => cases fault <;> simp [Log.openFirstOf, hsecond, and_comm, eq_comm]
    | error other => cases fault <;> cases other <;> simp [Log.openFirstOf, hsecond]

theorem simulatorLog_ne_directory {path : String} {place : Place} {content : Content} {run : Run}
    (hresolve : store.resolve path = .ok place) (hopen : store.openByName path = .ok content)
    (hread : SimulatorLog.read (LogLines.ofContent content) = .ok run) : store.get? place ≠ some .directory := by
  intro hget
  have hrefused : content = .refused .isDirectory := by
    have hfile : store.openFile path = .ok (.error .isDirectory) := by rw [Store.openFile_of_resolve hresolve, hget]
    unfold Store.openByName Store.openCompressed Store.openPlain Store.openWith at hopen
    rw [hfile] at hopen
    split at hopen
    · exact (Except.ok.inj hopen).symm
    · exact (Except.ok.inj hopen).symm
  rw [hrefused] at hread
  rw [LogLines.ofContent_refused] at hread
  cases hread

section Compressed

variable (htree : store.IsTree) (hother : other.IsTree) (hcompresses : Compresses replaced store other)
  (hplain : store.NoneCompressed)

include htree hplain in
/-- Where no file is compressed, the log of the simulator is found as it is. -/
theorem openByName_of_openFirst {path : String} {content : Content} {run : Run}
    (hopen : Log.openFirst store (Log.candidates directory settings.simulatorLog) = .ok (path, content))
    (hread : SimulatorLog.read (LogLines.ofContent content) = .ok run) :
    store.openByName (Path.join directory settings.simulatorLog) = .ok content := by
  rcases openFirst_candidates_eq_ok_iff.mp hopen with ⟨hplainLog, _⟩ | ⟨_, hcompressed, _⟩
  · exact hplainLog
  · obtain ⟨place, entry, hresolve, hget, hentry⟩ := Store.exists_entry_of_openByName hcompressed
    have hplace := simulatorLog_ne_directory hresolve hcompressed hread
    have hfile : entry.isFile = true := hentry.resolve_left fun hdirectory => hplace (hdirectory ▸ hget)
    obtain ⟨names, name, front, hnames, _, _, _, _, rfl⟩ := htree.exists_last hresolve hplace
    obtain ⟨_, stem, _, hlonger⟩ := Trail.exists_names_compressed (Path.join directory settings.simulatorLog)
    rw [Trail.compressed_ofText] at hlonger
    obtain ⟨_, rfl⟩ := List.append_singleton_inj.mp (hnames.symm.trans hlonger)
    have hcompressedPlace := Place.isCompressed_concat front stem
    rcases Store.get?_cases hget with hmem | ⟨_, rfl⟩ | ⟨hnull, _⟩
    · exact absurd hcompressedPlace (hplain _ hmem hfile)
    · cases hfile
    · rw [hnull] at hcompressedPlace
      exact absurd hcompressedPlace (by decide)

include htree hother hcompresses hplain in
theorem run_of_compresses (hreach : StaysInReach store settings directory replaced) {run : Run}
    (hrun : Experiment.run store settings directory = .ok run) : Experiment.run other settings directory = .ok run := by
  obtain ⟨⟨path, content⟩, hopen, hread⟩ := Except.bind_eq_ok_iff.mp hrun
  have hopen := Except.mapError_eq_ok_iff.mp hopen
  have hread := Except.mapError_eq_ok_iff.mp hread
  have hfound := openByName_of_openFirst htree hplain hopen hread
  obtain ⟨place, _, hresolve, _⟩ := Store.exists_entry_of_openByName hfound
  have hother : ∃ otherPath, Log.openFirst other (Log.candidates directory settings.simulatorLog) =
      .ok (otherPath, content) := by
    by_cases hreplaced : place ∈ replaced
    · have hlength := hreach.simulatorLog place hreplaced hresolve
      rw [Path.join_compressedName, ← Text.length_encode] at hlength
      obtain ⟨hgone, hcompressed⟩ :=
        hcompresses.openByName_of_mem htree hother hplain hreplaced hresolve hfound hlength
      exact ⟨_, openFirst_candidates_eq_ok_iff.mpr (.inr ⟨hgone, hcompressed, rfl⟩)⟩
    · have hkept := hcompresses.openByName_of_not_mem htree hother hreplaced hresolve hfound
      exact ⟨_, openFirst_candidates_eq_ok_iff.mpr (.inl ⟨hkept, rfl⟩)⟩
  obtain ⟨otherPath, hother⟩ := hother
  refine Except.bind_eq_ok_iff.mpr ⟨(otherPath, content), Except.mapError_eq_ok_iff.mpr hother, ?_⟩
  exact Except.mapError_eq_ok_iff.mpr hread

/-- Compressing files of an experiment is not noticed. -/
theorem read_of_compresses (htree : store.IsTree) (hother : other.IsTree)
    (hcompresses : Compresses replaced store other) (hplain : store.NoneCompressed)
    (hapart : LogsApart store settings directory) (hkeeps : KeepsMatching store settings directory replaced)
    (hturns : KeepsTurns store other settings directory) (hreach : StaysInReach store settings directory replaced)
    {trial : Trial} (hread : read store settings directory description = .ok trial) :
    read other settings directory description = .ok trial := by
  obtain ⟨run, hrun, hread⟩ := Except.bind_eq_ok_iff.mp hread
  obtain ⟨hosts, hhosts, hadd⟩ := Except.bind_eq_ok_iff.mp hread
  have hotherRun := run_of_compresses htree hother hcompresses hplain hreach hrun
  have hotherHosts :=
    hosts_of_compresses htree hother hcompresses hkeeps hturns hhosts (exists_hostLogs_of_addHosts hadd)
  have hotherAdd := addHosts_of_compresses htree hother hcompresses hplain hapart hkeeps hreach
    (fun host hhost => ⟨hosts, hhosts, hhost⟩) hadd
  exact Except.bind_eq_ok_iff.mpr ⟨run, hotherRun, Except.bind_eq_ok_iff.mpr ⟨hosts, hotherHosts, hotherAdd⟩⟩

end Compressed

theorem eq_of_lists {path : Trail} {place q : Place} {names listed : List Name} (h : Lists store path place listed)
    (hq : Lists store path q names) : q = place ∧ names = listed := by
  cases hq.resolves.symm.trans h.resolves
  cases hq.lists.symm.trans h.lists
  exact ⟨rfl, rfl⟩

/-- Where there is one host, its directory is the only one that is listed. -/
theorem eq_of_isHost_of_lists {host found : Host} {place q : Place} {names listed : List Name}
    (hhosts : Experiment.hosts store settings (Path.join directory settings.hostsDir) = .ok [host])
    (hhost : Lists store host.path place listed) (hfound : IsHost store settings directory found)
    (hlists : Lists store found.path q names) : found = host ∧ q = place ∧ names = listed := by
  obtain ⟨hosts, hothers, hmem⟩ := hfound
  cases hhosts.symm.trans hothers
  obtain rfl := List.mem_singleton.mp hmem
  exact ⟨rfl, eq_of_lists hhost hlists⟩

/-- The store of one client, with the simulator's log and the client's compressed. -/
def storeOfCompressedClient : Store where
  entries :=
    [(["shadow.log.zst"], .file (File.compress (LogLines.bytesOfTexts simulatorLines))), (["hosts"], .directory),
      (["hosts", "webclient1"], .directory),
      (["hosts", "webclient1", "stdout-tproxy-1.zst"], .file (File.compress (LogLines.bytesOfTexts proxyLines)))]
  nodup := by decide +kernel

theorem isTree_storeOfOneClient : storeOfOneClient.IsTree :=
  ⟨by decide +kernel, by decide +kernel, by decide +kernel⟩

theorem compresses_storeOfOneClient :
    Compresses [["shadow.log"], ["hosts", "webclient1", "stdout-tproxy-1"]] storeOfOneClient
      storeOfCompressedClient where
  files := by simp [storeOfOneClient]
  entries := .of_eq (by rfl)

theorem read_of_compresses_ofOneClient :
    Compresses [["shadow.log"], ["hosts", "webclient1", "stdout-tproxy-1"]] storeOfOneClient
        storeOfCompressedClient ∧
      read storeOfOneClient { hostsDir := "hosts" } "" "one client" = .ok trialOfOneClient ∧
      read storeOfCompressedClient { hostsDir := "hosts" } "" "one client" = .ok trialOfOneClient := by
  have hclient : Lists storeOfOneClient (hostPath "webclient1") ["hosts", "webclient1"] ["stdout-tproxy-1"] :=
    ⟨by decide +kernel, by decide +kernel⟩
  have hhosts : Lists storeOfOneClient (Path.join "" "hosts") ["hosts"] ["webclient1"] :=
    ⟨by decide +kernel, by decide +kernel⟩
  have hother : storeOfCompressedClient.IsTree := ⟨by decide +kernel, by decide +kernel, by decide +kernel⟩
  have hplain : storeOfOneClient.NoneCompressed := by
    unfold Store.NoneCompressed
    decide +kernel
  have hapart : LogsApart storeOfOneClient { hostsDir := "hosts" } "" := by
    intro host hhost place names hlists stem hstem a ha b hb _ _ _
    obtain ⟨_, _, rfl⟩ := eq_of_isHost_of_lists hosts_ofOneClient hclient hhost hlists
    rw [List.mem_singleton.mp ha, List.mem_singleton.mp hb]
  have hkeeps : KeepsMatching storeOfOneClient { hostsDir := "hosts" } ""
      [["shadow.log"], ["hosts", "webclient1", "stdout-tproxy-1"]] := by
    refine .of_stems_without_dot (fun role => by cases role <;> decide) fun place names hlists => ?_
    obtain ⟨rfl, rfl⟩ := eq_of_lists hhosts hlists
    decide +kernel
  have hreach : StaysInReach storeOfOneClient { hostsDir := "hosts" } ""
      [["shadow.log"], ["hosts", "webclient1", "stdout-tproxy-1"]] := by
    constructor
    · intro _ _ _
      decide +kernel
    · intro host hhost place names hlists
      obtain ⟨rfl, rfl, rfl⟩ := eq_of_isHost_of_lists hosts_ofOneClient hclient hhost hlists
      decide +kernel
  have hturns : KeepsTurns storeOfOneClient storeOfCompressedClient { hostsDir := "hosts" } "" := by
    intro names others hnames _
    have honce : HostsShownOnce storeOfOneClient { hostsDir := "hosts" } (Path.join "" "hosts") :=
      fun text _ => shownOnce_of_singleton list_ofOneClient text
    exact honce.turnsKept hnames others
  exact ⟨compresses_storeOfOneClient, read_ofOneClient, read_of_compresses isTree_storeOfOneClient hother
    compresses_storeOfOneClient hplain hapart hkeeps hturns hreach read_ofOneClient⟩

/-- The log of a client that has the stem of driver logs, and with the extension that of proxy logs as well. -/
def storeOfOneLog : Store where
  entries :=
    [(["shadow.log"], .file (.plain (LogLines.bytesOfTexts simulatorLines))), (["hosts"], .directory),
      (["hosts", "webclient1"], .directory),
      (["hosts", "webclient1", "stdout"], .file (.plain (LogLines.bytesOfTexts proxyLines)))]
  nodup := by decide +kernel

def storeOfCompressedLog : Store where
  entries :=
    [(["shadow.log"], .file (.plain (LogLines.bytesOfTexts simulatorLines))), (["hosts"], .directory),
      (["hosts", "webclient1"], .directory),
      (["hosts", "webclient1", "stdout.zst"], .file (File.compress (LogLines.bytesOfTexts proxyLines)))]
  nodup := by decide +kernel

def settingsOfOneLog : ParseSettings :=
  { hostsDir := "hosts", driverLogStem := "stdout", proxyLogStem := "stdout." }

/-- No name in the directory of a host begins another. -/
def NamesApart (store : Store) (settings : ParseSettings) (directory : String) : Prop :=
  ∀ host, IsHost store settings directory host → ∀ place names, Lists store host.path place names →
    ∀ a ∈ names, ∀ b ∈ names, a.bytes <+: b.bytes → a = b

/-- Compressing some files of an experiment without compressed ones changes what is read of it. -/
def Noticed (store other : Store) (settings : ParseSettings) (directory : String) (replaced : List Place) : Prop :=
  store.IsTree ∧ other.IsTree ∧ Compresses replaced store other ∧ store.NoneCompressed ∧
    NamesApart store settings directory ∧
    ∃ trial, read store settings directory "" = .ok trial ∧ read other settings directory "" ≠ .ok trial

private theorem lines_ofOneLog :
    lines storeOfOneLog ((hostPath "webclient1").child "stdout") = .ok (LogLines.ofTexts proxyLines) :=
  lines_ofTexts (by decide +kernel) (by decide +kernel) no_lineFeed_proxyLines

private theorem lines_ofCompressedLog :
    lines storeOfCompressedLog ((hostPath "webclient1").child "stdout.zst") = .ok (LogLines.ofTexts proxyLines) := by
  have hopen : storeOfCompressedLog.openFile ((hostPath "webclient1").child "stdout.zst") =
      .ok (.ok (File.compress (LogLines.bytesOfTexts proxyLines))) := by decide +kernel
  rw [lines, Store.openByName, if_pos (by decide +kernel), Store.openCompressed, Store.openWith, hopen]
  simp only [Except.map, File.expanded_compress, LogLines.ofContent_bytesOfTexts no_lineFeed_proxyLines]

/-- No line of the proxy is one of the driver. -/
private theorem exists_read_proxyLines :
    ∃ after, DriverLog.read "webclient1" (Interner.empty.insert "webclient1") (LogLines.ofTexts proxyLines) =
      .ok ([], after) := by
  have hloads : (DriverLog.read "webclient1" (Interner.empty.insert "webclient1")
      (LogLines.ofTexts proxyLines)).map Prod.fst = .ok [] := by
    simp only [LogLines.ofTexts, proxyLines, proxyLine, List.map_cons, List.map_nil, String.toList_append]
    decide +kernel
  obtain ⟨⟨_, after⟩, hread, rfl⟩ := Except.map_eq_ok_iff.mp hloads
  exact ⟨after, hread⟩

private theorem hosts_ofOneLog :
    hosts storeOfOneLog settingsOfOneLog (Path.join "" settingsOfOneLog.hostsDir) =
      .ok [⟨"webclient1", hostPath "webclient1", .webClient⟩] :=
  hosts_ofWebClient rfl (by decide) (by decide +kernel)

private theorem read_ofOneLog :
    read storeOfOneLog settingsOfOneLog "" "" = .ok (Trial.empty ⟨"v3", "noon", "one"⟩ "") := by
  have hdriver : logPaths storeOfOneLog settingsOfOneLog.driverLogStem (hostPath "webclient1") =
      .ok [(hostPath "webclient1").child "stdout"] := by decide +kernel
  have hproxy : logPaths storeOfOneLog settingsOfOneLog.proxyLogStem (hostPath "webclient1") = .ok [] := by
    decide +kernel
  have hrun : run storeOfOneLog settingsOfOneLog "" = .ok ⟨"v3", "noon", "one"⟩ :=
    run_ofSimulatorLines _ (by decide +kernel) (by decide +kernel)
  obtain ⟨after, hread⟩ := exists_read_proxyLines
  have hloads : driverLogs storeOfOneLog "webclient1" [] (Interner.empty.insert "webclient1")
      [(hostPath "webclient1").child "stdout"] = .ok ([], after) :=
    driverLogs_cons_eq_ok_iff.mpr ⟨_, _, _, lines_ofOneLog, hread, rfl⟩
  exact read_ofOneHost hrun hosts_ofOneLog (hostLogs_webClient hdriver hloads hproxy rfl)

/-- The compressed log is read as a log of the proxy, too. -/
private theorem read_ofCompressedLog :
    read storeOfCompressedLog settingsOfOneLog "" "" ≠ .ok (Trial.empty ⟨"v3", "noon", "one"⟩ "") := by
  have hhosts : hosts storeOfCompressedLog settingsOfOneLog (Path.join "" settingsOfOneLog.hostsDir) =
      .ok [⟨"webclient1", hostPath "webclient1", .webClient⟩] := hosts_ofWebClient rfl (by decide) (by decide +kernel)
  have hdriver : logPaths storeOfCompressedLog settingsOfOneLog.driverLogStem (hostPath "webclient1") =
      .ok [(hostPath "webclient1").child "stdout.zst"] := by decide +kernel
  have hproxy : logPaths storeOfCompressedLog settingsOfOneLog.proxyLogStem (hostPath "webclient1") =
      .ok [(hostPath "webclient1").child "stdout.zst"] := by decide +kernel
  have hrun : run storeOfCompressedLog settingsOfOneLog "" = .ok ⟨"v3", "noon", "one"⟩ :=
    run_ofSimulatorLines _ (by decide +kernel) (by decide +kernel)
  obtain ⟨after, hread⟩ := exists_read_proxyLines
  have hloads : driverLogs storeOfCompressedLog "webclient1" [] (Interner.empty.insert "webclient1")
      [(hostPath "webclient1").child "stdout.zst"] = .ok ([], after) :=
    driverLogs_cons_eq_ok_iff.mpr ⟨_, _, _, lines_ofCompressedLog, hread, rfl⟩
  have hrunning : clientLogs storeOfCompressedLog [] [(hostPath "webclient1").child "stdout.zst"] =
      .ok reportsOfOneClient :=
    clientLogs_cons_eq_ok_iff.mpr ⟨_, _, lines_ofCompressedLog, appendClient_proxyLines, rfl⟩
  rw [read_ofOneHost hrun hhosts (hostLogs_webClient hdriver hloads hproxy hrunning)]
  intro heq
  exact List.cons_ne_nil _ _ (congrArg Trial.running (Except.ok.inj heq))

theorem noticed_ofOtherStem :
    Noticed storeOfOneLog storeOfCompressedLog settingsOfOneLog "" [["hosts", "webclient1", "stdout"]] := by
  have hclient : Lists storeOfOneLog (hostPath "webclient1") ["hosts", "webclient1"] ["stdout"] :=
    ⟨by decide +kernel, by decide +kernel⟩
  refine ⟨⟨by decide +kernel, by decide +kernel, by decide +kernel⟩,
    ⟨by decide +kernel, by decide +kernel, by decide +kernel⟩, ⟨by simp [storeOfOneLog], .of_eq (by rfl)⟩, ?_, ?_,
    _, read_ofOneLog, read_ofCompressedLog⟩
  · unfold Store.NoneCompressed
    decide +kernel
  · intro host hhost place names hlists a ha b hb _
    obtain ⟨_, _, rfl⟩ := eq_of_isHost_of_lists hosts_ofOneLog hclient hhost hlists
    rw [List.mem_singleton.mp ha, List.mem_singleton.mp hb]

/-- A path of dots and slashes, which leads nowhere else. -/
def stayingPath (count : Nat) : String :=
  String.ofList (List.replicate count ['.', '/']).flatten

theorem names_stayingPath (count : Nat) :
    Path.names (stayingPath count) = List.replicate count (Name.ofText ".") ++ [Name.ofText ""] := by
  rw [Path.names, stayingPath, String.toList_ofList]
  induction count with
  | zero => rfl
  | succ count ih =>
    have hdot : '/' ∉ ['.'] := by decide
    have hsplit := Text.splitAt_append_cons hdot (List.replicate count ['.', '/']).flatten
    exact (congrArg (List.map fun name => Name.ofText (String.ofList name)) hsplit).trans
      (congrArg (List.cons (Name.ofText ".")) ih)

theorem utf8ByteSize_stayingPath (count : Nat) : (stayingPath count).utf8ByteSize = 2 * count := by
  unfold stayingPath
  induction count with
  | zero => rfl
  | succ count ih =>
    have hpair : (String.ofList ['.', '/']).utf8ByteSize = 2 := by decide
    rw [List.replicate_succ, List.flatten_cons, String.ofList_append, String.utf8ByteSize_append, ih, hpair]
    omega

theorem resolve_stayingPath (store : Store) {count : Nat} (hpos : 0 < count)
    (hlength : 2 * count ≤ Path.lengthLimit) : store.resolve (stayingPath count) = .ok [] := by
  have hroot : store.get? [] = some .directory := rfl
  obtain ⟨fewer, rfl⟩ := Nat.exists_eq_succ_of_ne_zero (Nat.ne_of_gt hpos)
  refine Store.resolve_eq_ok_iff.mpr ⟨Store.checkPath_ofText_eq_ok_iff.mpr ⟨?_, ?_, ?_⟩, ?_⟩
  · rw [stayingPath, String.toList_ofList]
    intro hmem
    obtain ⟨pair, hpair, hnull⟩ := List.mem_flatten.mp hmem
    rw [List.eq_of_mem_replicate hpair] at hnull
    revert hnull
    decide
  · intro hempty
    have hsize := utf8ByteSize_stayingPath fewer.succ
    rw [hempty] at hsize
    simp at hsize
  · rwa [utf8ByteSize_stayingPath]
  · have horigin : Store.origin (stayingPath fewer.succ) = [] := by
      have hrelative : Path.isAbsolute (stayingPath fewer.succ) = false := by
        rw [Path.isAbsolute, stayingPath, String.toList_ofList]
        rfl
      rw [Store.origin, hrelative, if_neg Bool.false_ne_true]
    rw [Store.followPath, horigin, Trail.names, List.append_nil, names_stayingPath]
    generalize fewer.succ = count
    induction count with
    | zero => simp [Store.follow, hroot, Name.staysHere]
    | succ count ih => simpa [List.replicate_succ, Store.follow, hroot, Name.staysHere] using ih

def storeOfNoHosts : Store where
  entries := [(["shadow.log"], .file (.plain (LogLines.bytesOfTexts simulatorLines))), (["hosts"], .directory)]
  nodup := by decide +kernel

def storeOfCompressedSimulatorLog : Store where
  entries :=
    [(["shadow.log.zst"], .file (File.compress (LogLines.bytesOfTexts simulatorLines))), (["hosts"], .directory)]
  nodup := by decide +kernel

/-- The longest path of dots and slashes with which the path of the simulator's log can still be followed. -/
def longDirectory : String :=
  stayingPath 2042

private theorem length_join_longDirectory {name : String} (hname : '/' ∉ name.toList) :
    4084 + name.utf8ByteSize ≤ (Path.join longDirectory name).utf8ByteSize ∧
      (Path.join longDirectory name).utf8ByteSize ≤ 4085 + name.utf8ByteSize := by
  have hsize : longDirectory.utf8ByteSize = 4084 := utf8ByteSize_stayingPath 2042
  have hempty : longDirectory ≠ "" := by
    intro hempty
    rw [hempty] at hsize
    simp at hsize
  obtain ⟨hlower, hupper⟩ := Path.utf8ByteSize_join hempty hname
  omega

private theorem resolve_join_longDirectory (store : Store) {name : String} (hname : (Name.ofText name).IsEntryName)
    (hslash : '/' ∉ name.toList) (hshort : name.utf8ByteSize ≤ 10) :
    store.resolve (Path.join longDirectory name) = .ok [Name.ofText name] := by
  have hdirectory : store.resolve longDirectory = .ok [] := resolve_stayingPath store (by decide) (by decide)
  obtain ⟨_, hupper⟩ := length_join_longDirectory hslash
  exact Store.resolve_join hdirectory rfl hname hslash (hupper.trans (by simp [Path.lengthLimit]; omega))

private theorem isTree_storeOfNoHosts : storeOfNoHosts.IsTree :=
  ⟨by decide +kernel, by decide +kernel, by decide +kernel⟩

private theorem hosts_ofNoHosts {path : String} (hresolve : storeOfNoHosts.resolve path = .ok ["hosts"]) :
    hosts storeOfNoHosts { hostsDir := "hosts" } path = .ok [] := by
  have hlist : storeOfNoHosts.list path = .ok [] :=
    Store.list_eq_ok_iff.mpr ⟨["hosts"], hresolve, by decide, by decide⟩
  exact hosts_eq_ok hlist .nil

private theorem read_ofNoHosts :
    read storeOfNoHosts { hostsDir := "hosts" } longDirectory "" = .ok (Trial.empty ⟨"v3", "noon", "one"⟩ "") := by
  have hresolve : storeOfNoHosts.resolve (Path.join longDirectory "shadow.log") = .ok ["shadow.log"] :=
    resolve_join_longDirectory _ (by decide) (by decide) (by decide)
  have hget : storeOfNoHosts.get? ["shadow.log"] =
      some (.file (.plain (LogLines.bytesOfTexts simulatorLines))) := by decide +kernel
  have hname : Path.namesCompressed (Path.join longDirectory "shadow.log") = false := by
    obtain ⟨names, name, front, hnames, _, hleads, _, _, hplace⟩ :=
      isTree_storeOfNoHosts.exists_last hresolve (by simp [hget])
    have hplace : [] ++ [Name.ofText "shadow.log"] = front ++ [name] := hplace
    obtain ⟨_, rfl⟩ := List.append_singleton_inj.mp hplace
    rw [Trail.namesCompressed_eq hnames hleads]
    decide
  have hopen : storeOfNoHosts.openFile (Path.join longDirectory "shadow.log") =
      .ok (.ok (.plain (LogLines.bytesOfTexts simulatorLines))) := by
    rw [Store.openFile_of_resolve hresolve, hget]
  have hrun : run storeOfNoHosts { hostsDir := "hosts" } longDirectory = .ok ⟨"v3", "noon", "one"⟩ :=
    run_ofSimulatorLines _ hname hopen
  have hhosts := hosts_ofNoHosts (resolve_join_longDirectory _ (by decide) (by decide) (by decide))
  exact Except.bind_eq_ok_iff.mpr ⟨_, hrun, Except.bind_eq_ok_iff.mpr ⟨_, hhosts, rfl⟩⟩

/-- The path of the compressed log is too long. -/
private theorem read_ofCompressedSimulatorLog (trial : Trial) :
    read storeOfCompressedSimulatorLog { hostsDir := "hosts" } longDirectory "" ≠ .ok trial := by
  intro hread
  obtain ⟨_, hrun, _⟩ := Except.bind_eq_ok_iff.mp hread
  obtain ⟨⟨path, content⟩, hopen, _⟩ := Except.bind_eq_ok_iff.mp hrun
  rcases openFirst_candidates_eq_ok_iff.mp (Except.mapError_eq_ok_iff.mp hopen) with ⟨hplain, _⟩ | ⟨_, hcompressed, _⟩
  · obtain ⟨place, entry, hresolve, hget, _⟩ := Store.exists_entry_of_openByName hplain
    have hplace : storeOfCompressedSimulatorLog.resolve (Path.join longDirectory "shadow.log") = .ok ["shadow.log"] :=
      resolve_join_longDirectory _ (by decide) (by decide) (by decide)
    cases hplace.symm.trans hresolve
    cases hget
  · obtain ⟨_, _, hresolve, _⟩ := Store.exists_entry_of_openByName hcompressed
    obtain ⟨_, _, hlength⟩ := Store.checkPath_ofText_eq_ok_iff.mp (Store.resolve_eq_ok_iff.mp hresolve).1
    have hnoSlash : '/' ∉ "shadow.log".toList := by decide
    have hname : "shadow.log".utf8ByteSize = 10 := by decide
    obtain ⟨hlower, _⟩ := length_join_longDirectory hnoSlash
    rw [Path.utf8ByteSize_compressedName] at hlength
    simp only [Path.lengthLimit] at hlength
    omega

theorem noticed_ofLongPath :
    Noticed storeOfNoHosts storeOfCompressedSimulatorLog { hostsDir := "hosts" } longDirectory [["shadow.log"]] := by
  refine ⟨isTree_storeOfNoHosts, ⟨by decide +kernel, by decide +kernel, by decide +kernel⟩,
    ⟨by simp [storeOfNoHosts], .of_eq (by rfl)⟩, ?_, ?_, _, read_ofNoHosts, read_ofCompressedSimulatorLog _⟩
  · unfold Store.NoneCompressed
    decide +kernel
  · rintro host ⟨hosts, hhosts, hhost⟩
    have hnone := hosts_ofNoHosts (resolve_join_longDirectory _ (by decide) (by decide) (by decide))
    cases hnone.symm.trans hhosts
    cases hhost

/-- Compression is noticed where the extension completes a stem of logs, and where it makes a path too long. -/
theorem read_of_compresses_not_ofExtension :
    Noticed storeOfOneLog storeOfCompressedLog settingsOfOneLog "" [["hosts", "webclient1", "stdout"]] ∧
      Noticed storeOfNoHosts storeOfCompressedSimulatorLog { hostsDir := "hosts" } longDirectory
        [["shadow.log"]] :=
  ⟨noticed_ofOtherStem, noticed_ofLongPath⟩

end Experiment

end PageLoads
