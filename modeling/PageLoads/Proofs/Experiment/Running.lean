import PageLoads.Proofs.Experiment.Listing
import PageLoads.Proofs.Experiment.Parsed
import PageLoads.Proofs.Log.ProxyLog
import PageLoads.Proofs.Store.Names
import PageLoads.Proofs.Traffic.Totals

/-!
# Running totals of an experiment

Reports are compared where they are read, and subtracted where traffic is totalled. In between they pass
through the logs of a host and into the trial. What was read of one host stays together on the way and
meets no other reports, so what is subtracted has been compared.
-/

namespace PageLoads

namespace Experiment

variable {store : Store} {settings : ParseSettings}

theorem clientLogs_cons_eq_ok_iff {reports running : List Report} {path : Trail} {rest : List Trail} :
    clientLogs store reports (path :: rest) = .ok running ↔
      ∃ log next, lines store path = .ok log ∧ ProxyLog.appendClient reports log = (next, none) ∧
        clientLogs store next rest = .ok running := by
  simp only [clientLogs, Except.bind_eq_ok_iff, exists_and_left]
  refine exists_congr fun log => and_congr_right fun _ => ?_
  rcases ProxyLog.appendClient reports log with ⟨next, _ | fault⟩
  · simp
  · simp

theorem driverLogs_cons_eq_ok_iff {host : String} {path : Trail} {loads : List PageLoad} {table : Interner}
    {found : List PageLoad × Interner} {rest : List Trail} :
    driverLogs store host loads table (path :: rest) = .ok found ↔
      ∃ log part next, lines store path = .ok log ∧ DriverLog.read host table log = .ok (part, next) ∧
        driverLogs store host (loads ++ part) next rest = .ok found := by
  simp only [driverLogs, Except.bind_eq_ok_iff, Except.mapError_eq_ok_iff, Prod.exists, exists_and_left]

theorem exitLogs_cons_eq_ok_iff {reports handlers : List Report} {path : Trail} {rest : List Trail} :
    exitLogs store reports (path :: rest) = .ok handlers ↔
      ∃ log part, lines store path = .ok log ∧ ProxyLog.readExit log = .ok part ∧
        exitLogs store (reports ++ part) rest = .ok handlers := by
  simp only [exitLogs, Except.bind_eq_ok_iff, Except.mapError_eq_ok_iff, exists_and_left]

theorem hostLogs_webClient {table after : Interner} {name : String} {path : Trail}
    {driverPaths proxyPaths : List Trail}
    {loads : List PageLoad} {running : List Report}
    (hdriver : logPaths store settings.driverLogStem path = .ok driverPaths)
    (hloads : driverLogs store name [] table driverPaths = .ok (loads, after))
    (hproxy : logPaths store settings.proxyLogStem path = .ok proxyPaths)
    (hrunning : clientLogs store [] proxyPaths = .ok running) :
    hostLogs store settings table ⟨name, path, .webClient⟩ = .ok (⟨loads, running, []⟩, after) := by
  simp only [hostLogs, hdriver, hloads, hproxy, hrunning, bind, Except.bind, pure, Except.pure]

theorem read_ofOneHost {directory description : String} {experiment : Run} {host : Host} {logs : HostLogs}
    {after : Interner} (hrun : run store settings directory = .ok experiment)
    (hhosts : hosts store settings (Path.join directory settings.hostsDir) = .ok [host])
    (hlogs : hostLogs store settings (Interner.empty.insert host.name) host = .ok (logs, after)) :
    read store settings directory description =
      .ok ((Trial.empty experiment description).addHost host.name logs) := by
  simp only [read, hrun, hhosts, addHosts, hlogs, bind, Except.bind]

def simulatorLines : List String :=
  ["0 [thread-0] n/a [shadow-message] [n/a] [m] [master_run] Shadow v3",
    "0 [thread-0] n/a [shadow-message] [n/a] [m] [master_run] Shadow initialized at noon using",
    "1 [thread-0] [engine_free] Shadow v3 shut down cleanly at one"]

def proxyLine (start : String) : String :=
  start ++ " dummy_cells= 1 ; send_so_far: all_bytes= 3 useful_bytes= 2" ++
    " dummy_cells= 2 dummy_cells_avoided_so_far= 0"

def proxyLines : List String :=
  [proxyLine "0:0:1 I - a :1, f() :: cstp= 2: recv_so_far: all_bytes= 10 useful_bytes= 1",
    proxyLine "0:0:2 I - a :1, f() :: cstp= 2: recv_so_far: all_bytes= 20 useful_bytes= 1"]

def storeOfOneClient : Store where
  entries :=
    [(["shadow.log"], .file (.plain (LogLines.bytesOfTexts simulatorLines))), (["hosts"], .directory),
      (["hosts", "webclient1"], .directory),
      (["hosts", "webclient1", "stdout-tproxy-1"], .file (.plain (LogLines.bytesOfTexts proxyLines)))]
  nodup := by decide

def reportsOfOneClient : List Report :=
  [⟨Binary64.ofNat 1, ⟨10, 1, 1, 3, 2, 2, 0⟩⟩, ⟨Binary64.ofNat 2, ⟨20, 1, 1, 3, 2, 2, 0⟩⟩]

theorem ascending_ofOneClient : KeyedList.Ascending [("webclient1", reportsOfOneClient)] :=
  List.pairwise_singleton _ _

def trialOfOneClient : Trial where
  run := ⟨"v3", "noon", "one"⟩
  description := "one client"
  loads := []
  running := [("webclient1", reportsOfOneClient)]
  handlers := []
  ascending := ascending_ofOneClient

theorem exists_content_ofTexts {store : Store} {path : Trail} {texts : List String}
    (hname : Path.namesCompressed path = false)
    (hopen : store.openFile path = .ok (.ok (.plain (LogLines.bytesOfTexts texts))))
    (htexts : ∀ line ∈ texts, '\n' ∉ line.toList) :
    ∃ content, store.openByName path = .ok content ∧ LogLines.ofContent content = LogLines.ofTexts texts := by
  refine ⟨.plain (LogLines.bytesOfTexts texts), ?_, LogLines.ofContent_bytesOfTexts htexts⟩
  rw [Store.openByName, if_neg (by simp [hname]), Store.openPlain, Store.openWith, hopen]
  rfl

theorem lines_ofTexts {store : Store} {path : Trail} {texts : List String}
    (hname : Path.namesCompressed path = false)
    (hopen : store.openFile path = .ok (.ok (.plain (LogLines.bytesOfTexts texts))))
    (htexts : ∀ line ∈ texts, '\n' ∉ line.toList) : lines store path = .ok (LogLines.ofTexts texts) := by
  obtain ⟨content, hopen, hlines⟩ := exists_content_ofTexts hname hopen htexts
  rw [lines, hopen, ← hlines]

theorem run_ofSimulatorLines {store : Store} {directory : String} (settings : ParseSettings)
    (hname : Path.namesCompressed (Path.join directory settings.simulatorLog) = false)
    (hopen : store.openFile (Path.join directory settings.simulatorLog) =
      .ok (.ok (.plain (LogLines.bytesOfTexts simulatorLines)))) :
    run store settings directory = .ok ⟨"v3", "noon", "one"⟩ := by
  obtain ⟨content, hopen, hlines⟩ := exists_content_ofTexts hname hopen (by decide +kernel)
  have hread : SimulatorLog.read (LogLines.ofTexts simulatorLines) = .ok ⟨"v3", "noon", "one"⟩ := by
    decide +kernel
  simp only [run, Log.candidates, Log.openFirst, Log.openFirstOf, hopen, Except.mapError_ok, bind, Except.bind,
    hlines, hread]

theorem no_lineFeed_proxyLines : ∀ line ∈ proxyLines, '\n' ∉ line.toList := by
  simp only [proxyLines, proxyLine, List.forall_mem_cons, String.toList_append]
  decide +kernel

theorem appendClient_proxyLines :
    ProxyLog.appendClient [] (LogLines.ofTexts proxyLines) = (reportsOfOneClient, none) := by
  simp only [LogLines.ofTexts, proxyLines, proxyLine, List.map_cons, List.map_nil, String.toList_append]
  decide +kernel

def hostPath (name : Name) : Trail :=
  Trail.child "hosts" name

private theorem clientLogs_ofOneClient :
    clientLogs storeOfOneClient [] [(hostPath "webclient1").child "stdout-tproxy-1"] = .ok reportsOfOneClient := by
  have hlines : lines storeOfOneClient ((hostPath "webclient1").child "stdout-tproxy-1") =
      .ok (LogLines.ofTexts proxyLines) :=
    lines_ofTexts (by decide +kernel) (by decide +kernel) no_lineFeed_proxyLines
  exact clientLogs_cons_eq_ok_iff.mpr ⟨_, _, hlines, appendClient_proxyLines, rfl⟩

theorem hosts_ofWebClient {store : Store} {settings : ParseSettings} (hdirectory : settings.hostsDir = "hosts")
    (hrole : HostRole.ofName? settings "webclient1" = some .webClient)
    (hlisted : store.list "hosts" = .ok ["webclient1"]) :
    hosts store settings (Path.join "" settings.hostsDir) =
      .ok [⟨"webclient1", hostPath "webclient1", .webClient⟩] := by
  have hpath : Path.join "" settings.hostsDir = "hosts" := by
    rw [hdirectory]
    decide +kernel
  have hshown : (Name.ofText "webclient1").shown = "webclient1" := Name.shown_ofText _
  have hhost : host? settings "hosts" "webclient1" = some ⟨"webclient1", hostPath "webclient1", .webClient⟩ :=
    host?_eq_some_iff.mpr ⟨hshown.symm, rfl, hshown.symm ▸ hrole⟩
  rw [hpath, hosts_eq_ok hlisted (by simp [hhost])]
  simp [hhost]

theorem hosts_ofOneClient :
    hosts storeOfOneClient { hostsDir := "hosts" } (Path.join "" "hosts") =
      .ok [⟨"webclient1", hostPath "webclient1", .webClient⟩] :=
  hosts_ofWebClient rfl (by decide) (by decide +kernel)

theorem read_ofOneClient :
    read storeOfOneClient { hostsDir := "hosts" } "" "one client" = .ok trialOfOneClient := by
  have hdriver : logPaths storeOfOneClient "stdout-driver-" (hostPath "webclient1") = .ok [] := by decide +kernel
  have hproxy : logPaths storeOfOneClient "stdout-tproxy-" (hostPath "webclient1") =
      .ok [(hostPath "webclient1").child "stdout-tproxy-1"] := by decide +kernel
  have hrun : run storeOfOneClient { hostsDir := "hosts" } "" = .ok trialOfOneClient.run :=
    run_ofSimulatorLines _ (by decide +kernel) (by decide +kernel)
  exact read_ofOneHost hrun hosts_ofOneClient (hostLogs_webClient hdriver rfl hproxy clientLogs_ofOneClient)

theorem shownOnce_of_singleton {store : Store} {directory : Trail} {name : Name}
    (hlisted : store.list directory = .ok [name]) (text : String) : ShownOnce store directory text := by
  intro names hnames a ha b hb _ _
  cases hlisted.symm.trans hnames
  rw [List.mem_singleton.mp ha, List.mem_singleton.mp hb]

theorem list_ofOneClient : storeOfOneClient.list (Path.join "" "hosts") = .ok ["webclient1"] := by
  decide +kernel

theorem read_ofTwoHosts {directory description : String} {experiment : Run} {first second : Host}
    {logs others : HostLogs} {between after : Interner} (hrun : run store settings directory = .ok experiment)
    (hhosts : hosts store settings (Path.join directory settings.hostsDir) = .ok [first, second])
    (hfirst : hostLogs store settings (Interner.empty.insert first.name) first = .ok (logs, between))
    (hsecond : hostLogs store settings (between.insert second.name) second = .ok (others, after)) :
    read store settings directory description =
      .ok ((Trial.empty experiment description).addEach [(first.name, logs), (second.name, others)]) := by
  simp only [read, hrun, hhosts, addHosts, hfirst, hsecond, bind, Except.bind]
  rfl

def foreignName (byte : UInt8) : Name :=
  ⟨Text.encode "webclient" ++ [byte]⟩

def foreignLines (earlier later : String) : List String :=
  [proxyLine ("0:0:1 I - a :1, f() :: cstp= 2: recv_so_far: all_bytes= " ++ earlier ++ " useful_bytes= 1"),
    proxyLine ("0:0:2 I - a :1, f() :: cstp= 2: recv_so_far: all_bytes= " ++ later ++ " useful_bytes= 1")]

/-- The entries of an experiment of some hosts, each with some logs. -/
def entriesOf (hosts : List (Name × List (Name × List String))) : List (Place × Entry) :=
  (["shadow.log"], .file (.plain (LogLines.bytesOfTexts simulatorLines))) :: (["hosts"], .directory) ::
    hosts.flatMap fun (host, logs) =>
      (["hosts", host], .directory) :: logs.map fun (log, lines) =>
        (["hosts", host, log], .file (.plain (LogLines.bytesOfTexts lines)))

def higherClient : Name × List (Name × List String) :=
  (foreignName 0xFF, [("stdout-tproxy-1", foreignLines "20" "30")])

def lowerClient : Name × List (Name × List String) :=
  (foreignName 0xFE, [("stdout-tproxy-1", foreignLines "5" "6")])

def storeOfForeignNames : Store where
  entries := entriesOf [higherClient, lowerClient]
  nodup := by decide +kernel

def foreignReports (earlier later : UInt64) : List Report :=
  [⟨Binary64.ofNat 1, ⟨earlier, 1, 1, 3, 2, 2, 0⟩⟩, ⟨Binary64.ofNat 2, ⟨later, 1, 1, 3, 2, 2, 0⟩⟩]

def foreignTrial (first second : List Report) : Trial :=
  (Trial.empty ⟨"v3", "noon", "one"⟩ "").addEach
    [("webclient\uFFFD", ⟨[], first, []⟩), ("webclient\uFFFD", ⟨[], second, []⟩)]

def foreignHost (byte : UInt8) : Host :=
  ⟨"webclient\uFFFD", hostPath (foreignName byte), .webClient⟩

/-- Hosts of one name stay in the order in which they are listed. -/
theorem hosts_ofForeignNames {store : Store} {a b : UInt8}
    (hlisted : store.list (Path.join "" "hosts") = .ok [foreignName a, foreignName b])
    (hshown : ∀ byte ∈ [a, b], (foreignName byte).shown = "webclient\uFFFD") :
    hosts store { hostsDir := "hosts" } (Path.join "" "hosts") = .ok [foreignHost a, foreignHost b] := by
  have hpath : Path.join "" "hosts" = "hosts" := by decide +kernel
  have hhost (byte : UInt8) (hbyte : byte ∈ [a, b]) :
      host? { hostsDir := "hosts" } (Path.join "" "hosts") (foreignName byte) = some (foreignHost byte) :=
    host?_eq_some_iff.mpr ⟨(hshown byte hbyte).symm, hpath.symm ▸ rfl, hshown byte hbyte ▸ rfl⟩
  have hfound : [foreignName a, foreignName b].filterMap (host? { hostsDir := "hosts" } (Path.join "" "hosts")) =
      [foreignHost a, foreignHost b] := by
    rw [List.filterMap_cons_some (hhost a (by simp)), List.filterMap_cons_some (hhost b (by simp)),
      List.filterMap_nil]
  rw [hosts_eq_ok hlisted (by rw [hfound]; simp [foreignHost]), hfound]

private theorem hostLogs_ofForeignName {byte : UInt8} {earlier later : String} {reports : List Report}
    (hdriver : logPaths storeOfForeignNames "stdout-driver-" (hostPath (foreignName byte)) = .ok [])
    (hproxy : logPaths storeOfForeignNames "stdout-tproxy-" (hostPath (foreignName byte)) =
      .ok [(hostPath (foreignName byte)).child "stdout-tproxy-1"])
    (hname : Path.namesCompressed ((hostPath (foreignName byte)).child "stdout-tproxy-1") = false)
    (hopen : storeOfForeignNames.openFile ((hostPath (foreignName byte)).child "stdout-tproxy-1") =
      .ok (.ok (.plain (LogLines.bytesOfTexts (foreignLines earlier later)))))
    (htexts : ∀ line ∈ foreignLines earlier later, '\n' ∉ line.toList)
    (hreports : ProxyLog.appendClient [] (LogLines.ofTexts (foreignLines earlier later)) = (reports, none))
    (table : Interner) :
    hostLogs storeOfForeignNames { hostsDir := "hosts" } table (foreignHost byte) = .ok (⟨[], reports, []⟩, table) :=
  hostLogs_webClient hdriver rfl hproxy
    (clientLogs_cons_eq_ok_iff.mpr ⟨_, _, lines_ofTexts hname hopen htexts, hreports, rfl⟩)

theorem hostLogs_ofForeignNames (table : Interner) :
    hostLogs storeOfForeignNames { hostsDir := "hosts" } table (foreignHost 0xFF) =
        .ok (⟨[], foreignReports 20 30, []⟩, table) ∧
      hostLogs storeOfForeignNames { hostsDir := "hosts" } table (foreignHost 0xFE) =
        .ok (⟨[], foreignReports 5 6, []⟩, table) := by
  have hlines : ∀ line ∈ foreignLines "20" "30" ++ foreignLines "5" "6", '\n' ∉ line.toList := by
    simp only [foreignLines, proxyLine, List.cons_append, List.nil_append, List.forall_mem_cons, String.toList_append]
    decide +kernel
  obtain ⟨hhigh, hlow⟩ := List.forall_mem_append.mp hlines
  refine ⟨hostLogs_ofForeignName (by decide +kernel) (by decide +kernel) (by decide +kernel) (by decide +kernel)
    hhigh ?_ table, hostLogs_ofForeignName (by decide +kernel) (by decide +kernel) (by decide +kernel)
    (by decide +kernel) hlow ?_ table⟩
  all_goals
    simp only [LogLines.ofTexts, foreignLines, proxyLine, List.map_cons, List.map_nil, String.toList_append]
    decide +kernel

theorem run_ofForeignNames : run storeOfForeignNames { hostsDir := "hosts" } "" = .ok ⟨"v3", "noon", "one"⟩ :=
  run_ofSimulatorLines _ (by decide +kernel) (by decide +kernel)

theorem hosts_ofStoreOfForeignNames :
    hosts storeOfForeignNames { hostsDir := "hosts" } (Path.join "" "hosts") =
      .ok [foreignHost 0xFF, foreignHost 0xFE] :=
  hosts_ofForeignNames (by decide +kernel) (by decide +kernel)

theorem read_ofForeignNames :
    read storeOfForeignNames { hostsDir := "hosts" } "" "" =
      .ok (foreignTrial (foreignReports 20 30) (foreignReports 5 6)) :=
  read_ofTwoHosts run_ofForeignNames hosts_ofStoreOfForeignNames (hostLogs_ofForeignNames _).1
    (hostLogs_ofForeignNames _).2

end Experiment

end PageLoads
