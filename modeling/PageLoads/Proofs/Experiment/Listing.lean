import Mathlib.Data.List.Sort
import PageLoads.Proofs.Experiment.Hosts
import PageLoads.Proofs.Store.Order
import PageLoads.Proofs.Text.ByteOrder

namespace PageLoads.Experiment

open Store (SameNames)

section Pairs

variable {α : Type} {l : List α} {a b : α}

theorem idxOf_lt_idxOf_of_pair [DecidableEq α] (hnodup : l.Nodup) (h : [a, b].Sublist l) : l.idxOf a < l.idxOf b := by
  have hindices : l.Pairwise fun x y => l.idxOf x < l.idxOf y := by
    refine List.pairwise_iff_getElem.mpr fun i j hi hj hij => ?_
    rwa [hnodup.idxOf_getElem i hi, hnodup.idxOf_getElem j hj]
  exact List.pairwise_iff_forall_sublist.mp hindices h

theorem not_pair_of_pair [DecidableEq α] (hnodup : l.Nodup) (h : [a, b].Sublist l) : ¬ [b, a].Sublist l := fun hback =>
  Nat.lt_asymm (idxOf_lt_idxOf_of_pair hnodup h) (idxOf_lt_idxOf_of_pair hnodup hback)

theorem pair_or_pair (ha : a ∈ l) (hb : b ∈ l) (hne : a ≠ b) : [a, b].Sublist l ∨ [b, a].Sublist l := by
  induction l with
  | nil => cases ha
  | cons x rest ih =>
    rcases List.mem_cons.mp ha with rfl | hrest
    · have hrest : b ∈ rest := (List.mem_cons.mp hb).resolve_left hne.symm
      exact Or.inl (List.cons_sublist_cons.mpr (List.singleton_sublist.mpr hrest))
    · rcases List.mem_cons.mp hb with rfl | hback
      · exact Or.inr (List.cons_sublist_cons.mpr (List.singleton_sublist.mpr hrest))
      · exact (ih hrest hback).imp (.cons x) (.cons x)

end Pairs

section Names

variable {names others : List Name}

theorem pairwise_orderedNames (names : List Name) :
    (orderedNames names).Pairwise fun a b => a.bytes ≤ b.bytes := by
  have hsorted : (orderedNames names).Pairwise fun a b => decide (a.bytes ≤ b.bytes) = true := by
    refine List.pairwise_mergeSort ?_ ?_ names
    · intro a b c hab hbc
      exact decide_eq_true (List.le_trans (of_decide_eq_true hab) (of_decide_eq_true hbc))
    · intro a b
      simpa using List.le_total a.bytes b.bytes
  simpa using hsorted

theorem orderedNames_eq (h : others.Perm names) (hsorted : names.Pairwise fun a b => a.bytes ≤ b.bytes) :
    orderedNames others = names := by
  refine List.Perm.eq_of_pairwise ?_ (pairwise_orderedNames _) hsorted ((perm_orderedNames others).trans h)
  rintro ⟨a⟩ ⟨b⟩ _ _ hab hba
  exact congrArg Name.mk (List.le_antisymm hab hba)

theorem orderedNames_eq_of_perm (h : others.Perm names) : orderedNames others = orderedNames names :=
  orderedNames_eq (h.trans (perm_orderedNames names).symm) (pairwise_orderedNames names)

/-- Names in strictly ascending order of their bytes. -/
def InByteOrder (names : List Name) : Prop :=
  names.Pairwise fun a b => a.bytes < b.bytes

theorem inByteOrder_orderedNames (h : names.Nodup) : InByteOrder (orderedNames names) := by
  have hnodup : (orderedNames names).Nodup := h.perm (perm_orderedNames names).symm
  refine ((pairwise_orderedNames names).and hnodup).imp ?_
  rintro ⟨a⟩ ⟨b⟩ ⟨hle, hne⟩
  exact Std.lt_of_le_of_ne hle fun heq => hne (congrArg Name.mk heq)

end Names

section Hosts

variable {hosts others : List Host} {a b : Host}

theorem pairwise_orderedHosts (hosts : List Host) : (orderedHosts hosts).Pairwise fun a b => a.name ≤ b.name := by
  have hsorted : (orderedHosts hosts).Pairwise fun a b => decide (a.name ≤ b.name) = true := by
    refine List.pairwise_mergeSort ?_ ?_ hosts
    · intro a b c hab hbc
      exact decide_eq_true (String.le_trans (of_decide_eq_true hab) (of_decide_eq_true hbc))
    · intro a b
      simpa using String.le_total a.name b.name
  simpa using hsorted

theorem orderedHosts_eq_self (h : hosts.Pairwise fun a b => a.name ≤ b.name) : orderedHosts hosts = hosts :=
  List.mergeSort_of_pairwise (h.imp decide_eq_true)

theorem pair_orderedHosts (h : [a, b].Sublist hosts) (hle : a.name ≤ b.name) :
    [a, b].Sublist (orderedHosts hosts) := by
  refine List.pair_sublist_mergeSort ?_ ?_ (decide_eq_true hle) h
  · intro a b c hab hbc
    exact decide_eq_true (String.le_trans (of_decide_eq_true hab) (of_decide_eq_true hbc))
  · intro a b
    simpa using String.le_total a.name b.name

/-- Hosts of one name stay in the order in which they are listed. -/
theorem pair_of_pair_orderedHosts (hnodup : hosts.Nodup) (h : [a, b].Sublist (orderedHosts hosts)) :
    a.name < b.name ∨ a.name = b.name ∧ [a, b].Sublist hosts := by
  have hordered : (orderedHosts hosts).Nodup := hnodup.perm (perm_orderedHosts hosts).symm
  have hle : a.name ≤ b.name := List.pairwise_iff_forall_sublist.mp (pairwise_orderedHosts hosts) h
  have hmem {x : Host} (hx : x ∈ [a, b]) : x ∈ hosts := (perm_orderedHosts hosts).mem_iff.mp (h.subset hx)
  have hne : a ≠ b := List.pairwise_iff_forall_sublist.mp hordered h
  by_cases hname : a.name = b.name
  · refine Or.inr ⟨hname, ?_⟩
    refine (pair_or_pair (hmem (by simp)) (hmem (by simp)) hne).resolve_right fun hback => ?_
    exact not_pair_of_pair hordered h (pair_orderedHosts hback (hname ▸ String.le_refl _))
  · exact Or.inl (Std.lt_of_le_of_ne hle hname)

/-- The order of hosts depends on how they stand only where hosts have one name. -/
theorem orderedHosts_eq_of_perm (hnodup : hosts.Nodup) (hperm : others.Perm hosts)
    (hturns : ∀ a b, [a, b].Sublist hosts → a.name = b.name → [a, b].Sublist others) :
    orderedHosts others = orderedHosts hosts := by
  have hothers : others.Nodup := hnodup.perm hperm.symm
  have hstands : (orderedHosts hosts).Pairwise fun a b =>
      a.name < b.name ∨ a.name = b.name ∧ [a, b].Sublist hosts :=
    List.pairwise_iff_forall_sublist.mpr fun hsorted => pair_of_pair_orderedHosts hnodup hsorted
  have hothersStand : (orderedHosts others).Pairwise fun a b =>
      a.name < b.name ∨ a.name = b.name ∧ [a, b].Sublist hosts := by
    refine List.pairwise_iff_forall_sublist.mpr fun {a b} hsorted => ?_
    refine (pair_of_pair_orderedHosts hothers hsorted).imp_right fun ⟨hname, hpair⟩ => ⟨hname, ?_⟩
    have hmem {x : Host} (hx : x ∈ [a, b]) : x ∈ hosts := hperm.mem_iff.mp (hpair.subset hx)
    have hne : a ≠ b := List.pairwise_iff_forall_sublist.mp hothers hpair
    refine (pair_or_pair (hmem (by simp)) (hmem (by simp)) hne).resolve_right fun hback => ?_
    exact not_pair_of_pair hothers hpair (hturns b a hback hname.symm)
  refine List.Perm.eq_of_pairwise ?_ hothersStand hstands
    ((perm_orderedHosts others).trans (hperm.trans (perm_orderedHosts hosts).symm))
  rintro a b _ _ (hab | ⟨hname, hab⟩) (hba | ⟨hback, hba⟩)
  · exact absurd hba (String.lt_asymm hab)
  · exact absurd (hback ▸ hab) (String.lt_irrefl _)
  · exact absurd (hname ▸ hba) (String.lt_irrefl _)
  · exact absurd hba (not_pair_of_pair hnodup hab)

end Hosts

section Listed

variable {store : Store} {settings : ParseSettings} {names others : List Name}
  {listed otherListed : Except IoFault (List Name)}

/-- Names of hosts that are shown alike are listed in an order that another listing keeps. -/
def TurnsKept (settings : ParseSettings) (names others : List Name) : Prop :=
  ∀ a b, [a, b].Sublist names → a.shown = b.shown → (HostRole.ofName? settings a.shown).isSome →
    [a, b].Sublist others

/-- A listing is the same fault, or the same names in an order in which names of hosts that are shown alike take
the same turns. -/
inductive SameTurns (settings : ParseSettings) : Except IoFault (List Name) → Except IoFault (List Name) → Prop
  | names {names others : List Name} (perm : others.Perm names) (turns : TurnsKept settings names others) :
      SameTurns settings (.ok others) (.ok names)
  | fault (fault : IoFault) : SameTurns settings (.error fault) (.error fault)

theorem SameTurns.refl (settings : ParseSettings) (listed : Except IoFault (List Name)) :
    SameTurns settings listed listed := by
  cases listed with
  | ok names => exact .names (.refl names) fun _ _ h _ _ => h
  | error fault => exact .fault fault

theorem HostsShownOnce.turnsKept {directory : Trail} (honce : HostsShownOnce store settings directory)
    (hlisted : store.list directory = .ok names) (others : List Name) : TurnsKept settings names others := by
  intro a b hpair hshown hrole
  have hmem {x : Name} (hx : x ∈ [a, b]) : x ∈ names := hpair.subset hx
  have hsame : a = b := honce a.shown hrole names hlisted a (hmem (by simp)) b (hmem (by simp)) rfl hshown.symm
  exact absurd hsame (List.pairwise_iff_forall_sublist.mp (Store.nodup_of_list hlisted) hpair)

theorem HostsShownOnce.sameTurns {directory : Trail} (honce : HostsShownOnce store settings directory)
    (h : SameNames listed (store.list directory)) : SameTurns settings listed (store.list directory) := by
  revert h
  generalize hlisted : store.list directory = others
  rintro (hperm | fault)
  · exact .names hperm (honce.turnsKept hlisted _)
  · exact .fault fault

theorem orderedHosts_eq_of_turnsKept {directory : Trail} (hnodup : names.Nodup)
    (hperm : (others.filterMap (host? settings directory)).Perm (names.filterMap (host? settings directory)))
    (hturns : TurnsKept settings names others) :
    orderedHosts (others.filterMap (host? settings directory)) =
      orderedHosts (names.filterMap (host? settings directory)) := by
  have hhosts := nodup_filterMap_host? settings directory hnodup
  refine orderedHosts_eq_of_perm hhosts hperm fun a b hpair hname => ?_
  obtain ⟨x, hx, hxa⟩ := List.mem_filterMap.mp (hpair.subset List.mem_cons_self)
  obtain ⟨y, hy, hyb⟩ := List.mem_filterMap.mp (hpair.subset (List.mem_cons_of_mem _ List.mem_cons_self))
  have hne : x ≠ y := by
    rintro rfl
    obtain rfl := Option.some.inj (hxa.symm.trans hyb)
    exact List.nodup_iff_sublist.mp hhosts a hpair
  obtain ⟨hashown, _, hrole⟩ := host?_eq_some_iff.mp hxa
  obtain ⟨hbshown, _, _⟩ := host?_eq_some_iff.mp hyb
  rcases pair_or_pair hx hy hne with hxy | hyx
  · have hkept := hturns x y hxy (hashown.symm.trans (hname.trans hbshown)) (by simp [hrole])
    simpa [hxa, hyb] using hkept.filterMap (host? settings directory)
  · have hback : [b, a].Sublist (names.filterMap (host? settings directory)) := by
      simpa [hxa, hyb] using hyx.filterMap (host? settings directory)
    exact absurd hpair (not_pair_of_pair hhosts hback)

def hostsOf (settings : ParseSettings) (directory : String) (listed : Except IoFault (List Name)) :
    Except Failure (List Host) := do
  let names ← listed.mapError fun fault =>
    (Failure.ofFault (.io fault)).during (.listingHosts directory)
  return orderedHosts (names.filterMap (host? settings directory))

def logPathsOf (stem : String) (directory : Trail) (listed : Except IoFault (List Name)) :
    Except Failure (List Trail) := do
  let names ← listed.mapError fun fault =>
    (Failure.ofFault (.io fault)).during (.listingHost directory.shown)
  return (orderedNames (names.filter fun name => Text.hasStem stem name.shown)).map directory.child

theorem logPaths_eq {stem : String} {directory : Trail} :
    logPaths store stem directory = logPathsOf stem directory (store.list directory) := rfl

theorem hosts_eq_ok {directory : String} (hlisted : store.list directory = .ok names)
    (hsorted : (names.filterMap (host? settings directory)).Pairwise fun a b => a.name ≤ b.name) :
    hosts store settings directory = .ok (names.filterMap (host? settings directory)) :=
  hosts_eq_ok_iff.mpr ⟨names, hlisted, orderedHosts_eq_self hsorted⟩

theorem logPaths_eq_ok {stem : String} {directory : Trail} (hlisted : store.list directory = .ok names)
    (hperm : (names.filter fun name => Text.hasStem stem name.shown).Perm others)
    (hsorted : others.Pairwise fun a b => a.bytes ≤ b.bytes) :
    logPaths store stem directory = .ok (others.map directory.child) := by
  rw [logPaths, hlisted, ← orderedNames_eq hperm hsorted]
  rfl

theorem hostsOf_eq {directory : String} (hnodup : ∀ names, otherListed = .ok names → names.Nodup)
    (h : SameTurns settings listed otherListed) :
    hostsOf settings directory listed = hostsOf settings directory otherListed := by
  cases h with
  | names perm turns =>
    simp only [hostsOf, Except.mapError_ok, bind, Except.bind,
      orderedHosts_eq_of_turnsKept (hnodup _ rfl) (perm.filterMap _) turns]
  | fault => rfl

theorem logPathsOf_eq {stem : String} {directory : Trail} (h : SameNames listed otherListed) :
    logPathsOf stem directory listed = logPathsOf stem directory otherListed := by
  cases h with
  | names h =>
    simp only [logPathsOf, Except.mapError_ok, bind, Except.bind, orderedNames_eq_of_perm (h.filter _)]
  | fault => rfl

end Listed

section Perm

variable {store other : Store} {settings : ParseSettings} (h : other.entries.Perm store.entries)

include h

theorem lines_of_perm : lines other = lines store := by
  funext path
  simp only [lines, Store.openByName_of_perm h]

theorem logPaths_of_perm (stem : String) (directory : Trail) :
    logPaths other stem directory = logPaths store stem directory := by
  rw [logPaths_eq, logPaths_eq, logPathsOf_eq (Store.list_of_perm h directory)]

theorem driverLogs_of_perm (host : String) (loads : List PageLoad) (table : Interner) (paths : List Trail) :
    driverLogs other host loads table paths = driverLogs store host loads table paths := by
  induction paths generalizing loads table with
  | nil => rfl
  | cons path rest ih => simp only [driverLogs, lines_of_perm h, ih]

theorem clientLogs_of_perm (reports : List Report) (paths : List Trail) :
    clientLogs other reports paths = clientLogs store reports paths := by
  induction paths generalizing reports with
  | nil => rfl
  | cons path rest ih => simp only [clientLogs, lines_of_perm h, ih]

theorem exitLogs_of_perm (reports : List Report) (paths : List Trail) :
    exitLogs other reports paths = exitLogs store reports paths := by
  induction paths generalizing reports with
  | nil => rfl
  | cons path rest ih => simp only [exitLogs, lines_of_perm h, ih]

theorem hostLogs_of_perm (table : Interner) (host : Host) :
    hostLogs other settings table host = hostLogs store settings table host := by
  simp only [hostLogs, logPaths_of_perm h, driverLogs_of_perm h, clientLogs_of_perm h, exitLogs_of_perm h]

theorem addHosts_of_perm (trial : Trial) (table : Interner) (hosts : List Host) :
    addHosts other settings trial table hosts = addHosts store settings trial table hosts := by
  induction hosts generalizing trial table with
  | nil => rfl
  | cons host rest ih => simp only [addHosts, hostLogs_of_perm h, ih]

theorem openFirstOf_of_perm (tried paths : List String) :
    Log.openFirstOf other tried paths = Log.openFirstOf store tried paths := by
  induction paths with
  | nil => rfl
  | cons path rest ih => simp only [Log.openFirstOf, Store.openByName_of_perm h, ih]

theorem run_of_perm (directory : String) : run other settings directory = run store settings directory := by
  simp only [run, Log.openFirst, openFirstOf_of_perm h]

end Perm

end PageLoads.Experiment
