import PageLoads.Proofs.Experiment.Running
import PageLoads.Proofs.Experiment.Listing
import PageLoads.Proofs.Store.Compression

namespace PageLoads

/-- Bytes that do not begin the ones above them stay below them, whatever is put behind either. -/
theorem Text.append_lt_append {a b : Bytes} (h : a < b) (hapart : ¬ a <+: b) (more other : Bytes) :
    a ++ more < b ++ other := by
  induction h with
  | nil => exact absurd (List.nil_prefix) hapart
  | rel h => exact List.Lex.rel h
  | cons _ ih => exact List.Lex.cons (ih fun hprefix => hapart ((List.prefix_cons_inj _).mpr hprefix))

namespace Store

variable {store other : Store} {replaced : List Place} {place : Place}

theorem exists_bytes_renamed (replaced : List Place) (place : Place) (name : Name) :
    ∃ more, (renamed replaced place name).bytes = name.bytes ++ more := by
  unfold renamed
  split
  · exact ⟨_, rfl⟩
  · exact ⟨[], (List.append_nil _).symm⟩

theorem renamed_lt {a b : Name} (h : a.bytes < b.bytes) (hapart : ¬ a.bytes <+: b.bytes) :
    (renamed replaced place a).bytes < (renamed replaced place b).bytes := by
  obtain ⟨more, ha⟩ := exists_bytes_renamed replaced place a
  obtain ⟨other, hb⟩ := exists_bytes_renamed replaced place b
  rw [ha, hb]
  exact Text.append_lt_append h hapart more other

theorem hasStem_renamed {stem : String} {name : Name} (h : Text.hasStem stem name.shown = true) :
    Text.hasStem stem (renamed replaced place name).shown = true := by
  unfold renamed
  split
  · rw [Name.shown_compressed, Text.hasStem_iff, String.toList_append]
    exact (Text.hasStem_iff.mp h).trans (List.prefix_append _ _)
  · exact h

/-- A path leads to a directory with some names. -/
structure Lists (store : Store) (path : Trail) (place : Place) (names : List Name) : Prop where
  resolves : store.resolve path = .ok place
  lists : store.list path = .ok names

end Store

def HostRole.stems (settings : ParseSettings) : HostRole → List String
  | .webClient => [settings.driverLogStem, settings.proxyLogStem]
  | .exitRelay => [settings.proxyLogStem]

namespace Experiment

open Store (Lists Compresses renamed)

variable {store other : Store} {settings : ParseSettings} {directory description : String}
  {replaced : List Place}

/-- A host whose logs are read of the experiment in a directory. -/
def IsHost (store : Store) (settings : ParseSettings) (directory : String) (host : Host) : Prop :=
  ∃ hosts, Experiment.hosts store settings (Path.join directory settings.hostsDir) = .ok hosts ∧ host ∈ hosts

/-- No name of a log begins that of another log of the same host and stem. -/
def LogsApart (store : Store) (settings : ParseSettings) (directory : String) : Prop :=
  ∀ host, IsHost store settings directory host → ∀ place names, Lists store host.path place names →
    ∀ stem ∈ host.role.stems settings, ∀ a ∈ names, ∀ b ∈ names,
      Text.hasStem stem a.shown = true → Text.hasStem stem b.shown = true → a.bytes <+: b.bytes → a = b

/-- The extension gives no file that is replaced a stem of logs, or among the hosts a role, that its name lacks. -/
structure KeepsMatching (store : Store) (settings : ParseSettings) (directory : String) (replaced : List Place) :
    Prop where
  stems : ∀ host, IsHost store settings directory host → ∀ place names, Lists store host.path place names →
    ∀ stem ∈ host.role.stems settings, ∀ name ∈ names, place ++ [name] ∈ replaced →
      Text.hasStem stem name.compressed.shown = true → Text.hasStem stem name.shown = true
  roles : ∀ place names, Lists store (Path.join directory settings.hostsDir) place names →
    ∀ name ∈ names, place ++ [name] ∈ replaced → HostRole.ofName? settings name.compressed.shown = none

/-- Names of hosts that are shown alike are listed in the order in which they were listed before. -/
def KeepsTurns (store other : Store) (settings : ParseSettings) (directory : String) : Prop :=
  ∀ names others, store.list (Path.join directory settings.hostsDir) = .ok names →
    other.list (Path.join directory settings.hostsDir) = .ok others → TurnsKept settings names others

/-- The extension completes no stem that has no dot. -/
theorem hasStem_of_compressed {stem : String} {name : Name} (hdot : '.' ∉ stem.toList)
    (h : Text.hasStem stem name.compressed.shown = true) : Text.hasStem stem name.shown = true := by
  have hprefix := Text.hasStem_iff.mp h
  rw [Name.shown_compressed, String.toList_append] at hprefix
  refine Text.hasStem_iff.mpr ?_
  rcases List.prefix_or_prefix_of_prefix hprefix (List.prefix_append name.shown.toList ".zst".toList) with
    hname | ⟨more, hmore⟩
  · exact hname
  · rw [← hmore, List.prefix_append_right_inj] at hprefix
    cases more with
    | nil => exact ⟨[], by simp [← hmore]⟩
    | cons c rest =>
      have hhead : ".zst".toList = '.' :: "zst".toList := by decide
      rw [hhead] at hprefix
      obtain ⟨rfl, _⟩ := List.cons_prefix_cons.mp hprefix
      exact absurd (hmore ▸ List.mem_append_right _ List.mem_cons_self) hdot

theorem KeepsMatching.of_stems_without_dot
    (hstems : ∀ role : HostRole, ∀ stem ∈ role.stems settings, '.' ∉ stem.toList)
    (hroles : ∀ place names, Lists store (Path.join directory settings.hostsDir) place names →
      ∀ name ∈ names, place ++ [name] ∈ replaced → HostRole.ofName? settings name.compressed.shown = none) :
    KeepsMatching store settings directory replaced where
  stems := fun host _ _ _ _ stem hstem _ _ _ => hasStem_of_compressed (hstems host.role stem hstem)
  roles := hroles

/-- The paths of the logs that are replaced are short enough with the extension behind them. -/
structure StaysInReach (store : Store) (settings : ParseSettings) (directory : String) (replaced : List Place) :
    Prop where
  simulatorLog : ∀ place ∈ replaced, store.resolve (Path.join directory settings.simulatorLog) = .ok place →
    (Path.join directory (Path.compressedName settings.simulatorLog)).utf8ByteSize ≤ Path.lengthLimit
  logs : ∀ host, IsHost store settings directory host → ∀ place names, Lists store host.path place names →
    ∀ stem ∈ host.role.stems settings, ∀ name ∈ names, Text.hasStem stem name.shown = true →
      place ++ [name] ∈ replaced → (host.path.child name.compressed).bytes.length ≤ Path.lengthLimit

/-- What is read from each of some paths is read in another store from another path. -/
def ReadAlike (store other : Store) : List Trail → List Trail → Prop :=
  List.Forall₂ fun path otherPath => ∀ log, lines store path = .ok log → lines other otherPath = .ok log

section ReadAlike

variable {paths others : List Trail}

theorem driverLogs_of_readAlike (h : ReadAlike store other paths others) {host : String} {loads : List PageLoad}
    {table : Interner} {found : List PageLoad × Interner}
    (hread : driverLogs store host loads table paths = .ok found) :
    driverLogs other host loads table others = .ok found := by
  induction h generalizing loads table with
  | nil => exact hread
  | cons hlog _ ih =>
    obtain ⟨log, part, next, hlines, hpart, hread⟩ := driverLogs_cons_eq_ok_iff.mp hread
    exact driverLogs_cons_eq_ok_iff.mpr ⟨log, part, next, hlog log hlines, hpart, ih hread⟩

theorem clientLogs_of_readAlike (h : ReadAlike store other paths others) {reports running : List Report}
    (hread : clientLogs store reports paths = .ok running) : clientLogs other reports others = .ok running := by
  induction h generalizing reports with
  | nil => exact hread
  | cons hlog _ ih =>
    obtain ⟨log, next, hlines, hnext, hread⟩ := clientLogs_cons_eq_ok_iff.mp hread
    exact clientLogs_cons_eq_ok_iff.mpr ⟨log, next, hlog log hlines, hnext, ih hread⟩

theorem exitLogs_of_readAlike (h : ReadAlike store other paths others) {reports handlers : List Report}
    (hread : exitLogs store reports paths = .ok handlers) : exitLogs other reports others = .ok handlers := by
  induction h generalizing reports with
  | nil => exact hread
  | cons hlog _ ih =>
    obtain ⟨log, part, hlines, hpart, hread⟩ := exitLogs_cons_eq_ok_iff.mp hread
    exact exitLogs_cons_eq_ok_iff.mpr ⟨log, part, hlog log hlines, hpart, ih hread⟩

end ReadAlike

section Names

variable {names others : List Name} {place : Place} {stem : String}

theorem perm_filter_renamed (hperm : others.Perm (names.map (renamed replaced place)))
    (hstems : ∀ name ∈ names, Text.hasStem stem (renamed replaced place name).shown = true →
      Text.hasStem stem name.shown = true) :
    (others.filter fun name => Text.hasStem stem name.shown).Perm
      ((orderedNames (names.filter fun name => Text.hasStem stem name.shown)).map (renamed replaced place)) := by
  have hsame : (names.map (renamed replaced place)).filter (fun name => Text.hasStem stem name.shown) =
      (names.filter fun name => Text.hasStem stem name.shown).map (renamed replaced place) := by
    rw [List.filter_map]
    refine congrArg _ (List.filter_congr fun name hname => ?_)
    exact Bool.eq_iff_iff.mpr ⟨hstems name hname, Store.hasStem_renamed⟩
  refine (hperm.filter _).trans ?_
  rw [hsame]
  exact (perm_orderedNames _).symm.map _

/-- Names that do not begin one another keep their order. -/
theorem pairwise_map_renamed (hnodup : names.Nodup)
    (hapart : ∀ a ∈ names, ∀ b ∈ names, a.bytes <+: b.bytes → a = b) :
    ((orderedNames names).map (renamed replaced place)).Pairwise fun a b => a.bytes ≤ b.bytes := by
  refine List.pairwise_map.mpr ?_
  have hdiffer : (orderedNames names).Nodup := hnodup.perm (perm_orderedNames names).symm
  refine List.Pairwise.imp_of_mem ?_ ((inByteOrder_orderedNames hnodup).and hdiffer)
  rintro a b ha hb ⟨hlt, hne⟩
  have hprefix : ¬ a.bytes <+: b.bytes := fun hprefix =>
    hne (hapart a ((perm_orderedNames names).mem_iff.mp ha) b ((perm_orderedNames names).mem_iff.mp hb) hprefix)
  exact Std.le_of_lt (Store.renamed_lt hlt hprefix)

end Names

section Compressed

variable (htree : store.IsTree) (hother : other.IsTree) (hcompresses : Compresses replaced store other)
  (hplain : store.NoneCompressed)

include htree hother hcompresses hplain

theorem lines_renamed {path : Trail} {name : Name} {place : Place} {entry : Entry} {log : LogLines}
    (hresolve : store.resolve path = .ok place) (hplace : store.get? place = some .directory)
    (hentry : (place ++ [name], entry) ∈ store.entries) (hlog : lines store (path.child name) = .ok log)
    (hlength : place ++ [name] ∈ replaced → (path.child name.compressed).bytes.length ≤ Path.lengthLimit) :
    lines other (path.child (renamed replaced place name)) = .ok log := by
  unfold lines at hlog ⊢
  split at hlog
  · rename_i content hopen
    rw [hcompresses.openByName_renamed htree hother hplain hresolve hplace hentry hopen hlength]
    exact hlog
  · cases hlog

variable (hapart : LogsApart store settings directory) (hkeeps : KeepsMatching store settings directory replaced)
  (hreach : StaysInReach store settings directory replaced)

include hapart hkeeps hreach

theorem exists_logPaths {host : Host} (hhost : IsHost store settings directory host) {stem : String}
    (hstem : stem ∈ host.role.stems settings) {paths : List Trail}
    (hpaths : logPaths store stem host.path = .ok paths) :
    ∃ others, logPaths other stem host.path = .ok others ∧ ReadAlike store other paths others := by
  obtain ⟨names, hlisted, hpaths⟩ := Except.bind_eq_ok_iff.mp hpaths
  have hlist := Except.mapError_eq_ok_iff.mp hlisted
  cases hpaths
  obtain ⟨place, others, hresolve, hplace, hentries, hothers, hperm⟩ := hcompresses.exists_list htree hother hlist
  have hlists : Lists store host.path place names := ⟨hresolve, hlist⟩
  have hfound : (others.filter fun name => Text.hasStem stem name.shown).Perm
      ((orderedNames (names.filter fun name => Text.hasStem stem name.shown)).map (renamed replaced place)) := by
    refine perm_filter_renamed hperm fun name hname hrenamed => ?_
    unfold renamed at hrenamed
    split at hrenamed
    · rename_i hreplaced
      exact hkeeps.stems host hhost place names hlists stem hstem name hname hreplaced hrenamed
    · exact hrenamed
  have hsorted : ((orderedNames (names.filter fun name => Text.hasStem stem name.shown)).map
      (renamed replaced place)).Pairwise fun a b => a.bytes ≤ b.bytes := by
    refine pairwise_map_renamed ((Store.nodup_of_list hlist).filter _) fun a ha b hb => ?_
    obtain ⟨ha, hastem⟩ := List.mem_filter.mp ha
    obtain ⟨hb, hbstem⟩ := List.mem_filter.mp hb
    exact hapart host hhost place names hlists stem hstem a ha b hb hastem hbstem
  refine ⟨_, logPaths_eq_ok hothers hfound hsorted, ?_⟩
  rw [List.map_map]
  refine List.forall₂_map_left_iff.mpr (List.forall₂_map_right_iff.mpr (List.forall₂_same.mpr ?_))
  intro name hname log hlog
  obtain ⟨hname, hmatches⟩ := List.mem_filter.mp ((perm_orderedNames _).mem_iff.mp hname)
  obtain ⟨entry, hentry⟩ := hentries name hname
  exact lines_renamed htree hother hcompresses hplain hresolve hplace hentry hlog
    (hreach.logs host hhost place names hlists stem hstem name hname hmatches)

theorem hostLogs_of_compresses {host : Host} (hhost : IsHost store settings directory host) {table : Interner}
    {found : HostLogs × Interner} (hread : hostLogs store settings table host = .ok found) :
    hostLogs other settings table host = .ok found := by
  have hpaths {stem : String} (hstem : stem ∈ host.role.stems settings) {paths : List Trail}
      (h : logPaths store stem host.path = .ok paths) :=
    exists_logPaths htree hother hcompresses hplain hapart hkeeps hreach hhost hstem h
  unfold hostLogs at hread ⊢
  cases hrole : host.role with
  | webClient =>
    simp only [hrole, HostRole.stems] at hread hpaths ⊢
    obtain ⟨driverPaths, hdriver, hread⟩ := Except.bind_eq_ok_iff.mp hread
    obtain ⟨⟨loads, between⟩, hloads, hread⟩ := Except.bind_eq_ok_iff.mp hread
    obtain ⟨proxyPaths, hproxy, hread⟩ := Except.bind_eq_ok_iff.mp hread
    obtain ⟨running, hrunning, hread⟩ := Except.bind_eq_ok_iff.mp hread
    obtain ⟨otherDriver, hotherDriver, hdriverAlike⟩ := hpaths (by simp) hdriver
    obtain ⟨otherProxy, hotherProxy, hproxyAlike⟩ := hpaths (by simp) hproxy
    simp only [hotherDriver, driverLogs_of_readAlike hdriverAlike hloads, hotherProxy,
      clientLogs_of_readAlike hproxyAlike hrunning, bind, Except.bind]
    exact hread
  | exitRelay =>
    simp only [hrole, HostRole.stems] at hread hpaths ⊢
    obtain ⟨proxyPaths, hproxy, hread⟩ := Except.bind_eq_ok_iff.mp hread
    obtain ⟨handlers, hhandlers, hread⟩ := Except.bind_eq_ok_iff.mp hread
    obtain ⟨otherProxy, hotherProxy, hproxyAlike⟩ := hpaths (by simp) hproxy
    simp only [hotherProxy, exitLogs_of_readAlike hproxyAlike hhandlers, bind, Except.bind]
    exact hread

theorem addHosts_of_compresses {hosts : List Host} (hhosts : ∀ host ∈ hosts, IsHost store settings directory host)
    {trial result : Trial} {table : Interner} (hadd : addHosts store settings trial table hosts = .ok result) :
    addHosts other settings trial table hosts = .ok result := by
  induction hosts generalizing trial table with
  | nil => exact hadd
  | cons host rest ih =>
    obtain ⟨hhost, hrest⟩ := List.forall_mem_cons.mp hhosts
    obtain ⟨⟨logs, after⟩, hlogs, hadd⟩ := Except.bind_eq_ok_iff.mp hadd
    refine Except.bind_eq_ok_iff.mpr ⟨(logs, after), ?_, ih hrest hadd⟩
    exact hostLogs_of_compresses htree hother hcompresses hplain hapart hkeeps hreach hhost hlogs

end Compressed

/-- Names that are changed only where they have no role, and get none, are those of the same hosts. -/
theorem perm_filterMap_renamed {names others : List Name} {place : Place} {path : Trail}
    (hperm : others.Perm (names.map (renamed replaced place)))
    (hroles : ∀ name ∈ names, place ++ [name] ∈ replaced →
      HostRole.ofName? settings name.shown = none ∧ HostRole.ofName? settings name.compressed.shown = none) :
    (others.filterMap (host? settings path)).Perm (names.filterMap (host? settings path)) := by
  refine (hperm.filterMap _).trans (.of_eq ?_)
  rw [List.filterMap_map]
  refine List.filterMap_congr fun name hname => ?_
  rw [Function.comp_apply, renamed]
  split
  · rename_i hreplaced
    obtain ⟨hnone, hcompressed⟩ := hroles name hname hreplaced
    simp only [host?, hnone, hcompressed, Option.map_none]
  · rfl

theorem exists_hostLogs_of_addHosts {hosts : List Host} {trial result : Trial} {table : Interner}
    (h : addHosts store settings trial table hosts = .ok result) :
    ∀ host ∈ hosts, ∃ table found, hostLogs store settings table host = .ok found := by
  induction hosts generalizing trial table with
  | nil => nofun
  | cons host rest ih =>
    obtain ⟨found, hfound, hrest⟩ := Except.bind_eq_ok_iff.mp h
    exact List.forall_mem_cons.mpr ⟨⟨_, found, hfound⟩, ih hrest⟩

theorem exists_list_of_hostLogs {host : Host} {table : Interner} {found : HostLogs × Interner}
    (h : hostLogs store settings table host = .ok found) : ∃ names, store.list host.path = .ok names := by
  obtain ⟨stem, paths, hpaths⟩ : ∃ stem paths, logPaths store stem host.path = .ok paths := by
    unfold hostLogs at h
    cases hrole : host.role with
    | webClient =>
      simp only [hrole] at h
      obtain ⟨paths, hpaths, _⟩ := Except.bind_eq_ok_iff.mp h
      exact ⟨_, paths, hpaths⟩
    | exitRelay =>
      simp only [hrole] at h
      obtain ⟨paths, hpaths, _⟩ := Except.bind_eq_ok_iff.mp h
      exact ⟨_, paths, hpaths⟩
  obtain ⟨names, hlisted, _⟩ := Except.bind_eq_ok_iff.mp hpaths
  exact ⟨names, Except.mapError_eq_ok_iff.mp hlisted⟩

section Compressed

variable (htree : store.IsTree) (hother : other.IsTree) (hcompresses : Compresses replaced store other)

include htree hother hcompresses

theorem hosts_of_compresses (hkeeps : KeepsMatching store settings directory replaced)
    (hturns : KeepsTurns store other settings directory) {hosts : List Host}
    (hhosts : Experiment.hosts store settings (Path.join directory settings.hostsDir) = .ok hosts)
    (hread : ∀ host ∈ hosts, ∃ table found, hostLogs store settings table host = .ok found) :
    Experiment.hosts other settings (Path.join directory settings.hostsDir) = .ok hosts := by
  obtain ⟨names, hlist, rfl⟩ := hosts_eq_ok_iff.mp hhosts
  obtain ⟨place, others, hresolve, hplace, hentries, hothers, hperm⟩ := hcompresses.exists_list htree hother hlist
  have hroles : ∀ name ∈ names, place ++ [name] ∈ replaced →
      HostRole.ofName? settings name.shown = none ∧ HostRole.ofName? settings name.compressed.shown = none := by
    intro name hname hreplaced
    refine ⟨?_, hkeeps.roles place names ⟨hresolve, hlist⟩ name hname hreplaced⟩
    -- A host of this name would be read from a directory, where a file stands.
    refine Option.eq_none_iff_forall_ne_some.mpr fun role hrole => ?_
    have hhost : host? settings (Path.join directory settings.hostsDir) name =
        some ⟨name.shown, Trail.child (Path.join directory settings.hostsDir) name, role⟩ :=
      host?_eq_some_iff.mpr ⟨rfl, rfl, hrole⟩
    obtain ⟨_, _, hlogs⟩ :=
      hread _ ((perm_orderedHosts _).mem_iff.mpr (List.mem_filterMap.mpr ⟨name, hname, hhost⟩))
    obtain ⟨_, hlisted⟩ := exists_list_of_hostLogs hlogs
    obtain ⟨q, hq, hdirectory, _⟩ := Store.list_eq_ok_iff.mp hlisted
    obtain ⟨_, hentry⟩ := hentries name hname
    obtain ⟨file, hfile⟩ := hcompresses.exists_get?_file htree hreplaced
    rw [htree.resolve_entry hresolve hplace hentry hq, hfile] at hdirectory
    cases hdirectory
  refine hosts_eq_ok_iff.mpr ⟨others, hothers, ?_⟩
  exact orderedHosts_eq_of_turnsKept (Store.nodup_of_list hlist) (perm_filterMap_renamed hperm hroles)
    (hturns names others hlist hothers)

end Compressed

end Experiment

end PageLoads
