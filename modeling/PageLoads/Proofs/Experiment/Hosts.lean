import PageLoads.Experiment
import PageLoads.Proofs.Store.Listing

namespace PageLoads

theorem Trail.child_inj {path : Trail} {a b : Name} : path.child a = path.child b ↔ a = b := by
  simp [child]

namespace Experiment

variable {store : Store} {settings : ParseSettings} {names : List Name} {name : Name} {host : Host}

theorem host?_eq_some_iff {directory : Trail} :
    host? settings directory name = some host ↔
      host.name = name.shown ∧ host.path = directory.child name ∧
        HostRole.ofName? settings name.shown = some host.role := by
  obtain ⟨hostName, path, role⟩ := host
  simp only [host?, Option.map_eq_some_iff, Host.mk.injEq]
  constructor
  · rintro ⟨role, hrole, rfl, rfl, rfl⟩
    exact ⟨rfl, rfl, hrole⟩
  · rintro ⟨rfl, rfl, hrole⟩
    exact ⟨role, hrole, rfl, rfl, rfl⟩

theorem perm_orderedHosts (hosts : List Host) : (orderedHosts hosts).Perm hosts :=
  List.mergeSort_perm hosts _

theorem perm_orderedNames (names : List Name) : (orderedNames names).Perm names :=
  List.mergeSort_perm names _

theorem nodup_filterMap_host? (settings : ParseSettings) (directory : Trail) (h : names.Nodup) :
    (names.filterMap (host? settings directory)).Nodup := by
  refine h.filterMap ?_
  intro a b host ha hb
  obtain ⟨_, hpath, _⟩ := host?_eq_some_iff.mp ha
  obtain ⟨_, hother, _⟩ := host?_eq_some_iff.mp hb
  exact Trail.child_inj.mp (hpath.symm.trans hother)

section Hosts

variable {directory : String} {hosts : List Host}

theorem hosts_eq_ok_iff :
    Experiment.hosts store settings directory = .ok hosts ↔
      ∃ names, store.list directory = .ok names ∧
        orderedHosts (names.filterMap (host? settings directory)) = hosts := by
  simp only [Experiment.hosts, Except.bind_eq_ok_iff, Except.mapError_eq_ok_iff]
  exact exists_congr fun names => and_congr_right fun _ => ⟨Except.ok.inj, congrArg Except.ok⟩

variable (h : Experiment.hosts store settings directory = .ok hosts)

include h

theorem nodup_hosts : hosts.Nodup := by
  obtain ⟨names, hlisted, rfl⟩ := hosts_eq_ok_iff.mp h
  exact (nodup_filterMap_host? _ _ (Store.nodup_of_list hlisted)).perm (perm_orderedHosts _).symm

theorem exists_name_of_mem_hosts (hmem : host ∈ hosts) :
    ∃ names, store.list directory = .ok names ∧ ∃ name ∈ names, host? settings directory name = some host := by
  obtain ⟨names, hlisted, rfl⟩ := hosts_eq_ok_iff.mp h
  exact ⟨names, hlisted, List.mem_filterMap.mp ((perm_orderedHosts _).mem_iff.mp hmem)⟩

end Hosts

/-- No two names in a directory are shown as a text. -/
def ShownOnce (store : Store) (directory : Trail) (text : String) : Prop :=
  ∀ names, store.list directory = .ok names → ∀ a ∈ names, ∀ b ∈ names, a.shown = text → b.shown = text → a = b

/-- No two names of hosts are shown alike. -/
def HostsShownOnce (store : Store) (settings : ParseSettings) (directory : Trail) : Prop :=
  ∀ text, (HostRole.ofName? settings text).isSome → ShownOnce store directory text

variable {directory : String} {hosts : List Host}

/-- A name that is shown once is the name of one host. -/
theorem ShownOnce.eq_of_name_eq {text : String} (honce : ShownOnce store directory text)
    (h : Experiment.hosts store settings directory = .ok hosts) {a b : Host} (ha : a ∈ hosts) (hb : b ∈ hosts)
    (haname : a.name = text) (hbname : b.name = text) : a = b := by
  obtain ⟨names, hlisted, x, hx, hxa⟩ := exists_name_of_mem_hosts h ha
  obtain ⟨others, hothers, y, hy, hyb⟩ := exists_name_of_mem_hosts h hb
  cases hlisted.symm.trans hothers
  have hxshown := (host?_eq_some_iff.mp hxa).1.symm.trans haname
  have hyshown := (host?_eq_some_iff.mp hyb).1.symm.trans hbname
  obtain rfl := honce names hlisted x hx y hy hxshown hyshown
  exact Option.some.inj (hxa.symm.trans hyb)

end Experiment

end PageLoads
