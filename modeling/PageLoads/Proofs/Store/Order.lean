import PageLoads.Proofs.Store.Listing

namespace PageLoads.Store

variable {store other : Store}

theorem lookup_eq_some_iff {entries : List (Place × Entry)} (hnodup : (entries.map Prod.fst).Nodup)
    {place : Place} {entry : Entry} : entries.lookup place = some entry ↔ (place, entry) ∈ entries := by
  induction entries with
  | nil => simp
  | cons head rest ih =>
    obtain ⟨p, e⟩ := head
    rw [List.map_cons, List.nodup_cons] at hnodup
    rw [lookup_cons_eq, List.mem_cons]
    by_cases hp : place = p
    · subst hp
      have habsent : (place, entry) ∉ rest := fun hmem => hnodup.1 (List.mem_map.mpr ⟨_, hmem, rfl⟩)
      simp [habsent, eq_comm]
    · simp [hp, ih hnodup.2]

theorem get?_of_perm (h : other.entries.Perm store.entries) : other.get? = store.get? := by
  have hlookup (place : Place) : other.entries.lookup place = store.entries.lookup place := by
    refine Option.ext fun entry => ?_
    rw [lookup_eq_some_iff other.nodup, lookup_eq_some_iff store.nodup, h.mem_iff]
  funext place
  simp only [get?, hlookup]

theorem follow_of_perm (h : other.entries.Perm store.entries) (place : Place) (names : List Name) :
    other.follow place names = store.follow place names := by
  induction names generalizing place with
  | nil => rfl
  | cons name rest ih => simp only [follow, get?_of_perm h, ih]

theorem resolve_of_perm (h : other.entries.Perm store.entries) (path : Trail) :
    other.resolve path = store.resolve path := by
  simp only [resolve, followPath, follow_of_perm h]

theorem openFile_of_perm (h : other.entries.Perm store.entries) (path : Trail) :
    other.openFile path = store.openFile path := by
  simp only [openFile, resolve_of_perm h, get?_of_perm h]

theorem openByName_of_perm (h : other.entries.Perm store.entries) (path : Trail) :
    other.openByName path = store.openByName path := by
  simp only [openByName, openCompressed, openPlain, openWith, openFile_of_perm h]

/-- A listing is the same fault, or the same names in any order. -/
inductive SameNames : Except IoFault (List Name) → Except IoFault (List Name) → Prop
  | names {names others : List Name} (h : others.Perm names) : SameNames (.ok others) (.ok names)
  | fault (fault : IoFault) : SameNames (.error fault) (.error fault)

theorem SameNames.refl (listed : Except IoFault (List Name)) : SameNames listed listed := by
  cases listed with
  | ok names => exact .names (.refl names)
  | error fault => exact .fault fault

theorem list_of_perm (h : other.entries.Perm store.entries) (path : Trail) :
    SameNames (other.list path) (store.list path) := by
  simp only [list, resolve_of_perm h, get?_of_perm h]
  cases store.resolve path with
  | error fault => exact .fault fault
  | ok place =>
    simp only [bind, Except.bind]
    split
    · exact .names (h.filterMap _)
    · exact .fault _
    · exact .fault _
    · exact .fault _

end PageLoads.Store
