/-!
# Keyed lists

Association lists in ascending order of their keys, each key once. Keys are texts, which are ordered
as their UTF-8 bytes are. `alter` changes the value of one key and keeps the order; `insert` is the case
in which the value that was there does not matter.
-/

namespace PageLoads.KeyedList

variable {α : Type}

def Ascending (entries : List (String × α)) : Prop :=
  entries.Pairwise fun a b => a.1 < b.1

/-- Gives a key the value made of the one it has, if it has one; a new key gets its place. -/
def alter (key : String) (change : Option α → α) : List (String × α) → List (String × α)
  | [] => [(key, change none)]
  | (k, v) :: rest =>
    if key < k then (key, change none) :: (k, v) :: rest
    else if key = k then (key, change (some v)) :: rest
    else (k, v) :: alter key change rest

/-- Adds an entry in its place; an entry of the same key is replaced. -/
def insert (key : String) (value : α) (entries : List (String × α)) : List (String × α) :=
  alter key (fun _ => value) entries

def insertAll (entries added : List (String × α)) : List (String × α) :=
  added.foldl (fun entries (key, value) => insert key value entries) entries

/-- The entries in ascending order, the last of each key. -/
def ofList (entries : List (String × α)) : List (String × α) :=
  insertAll [] entries

theorem ascending_nil : Ascending ([] : List (String × α)) :=
  List.Pairwise.nil

/-- An altered list holds the entry of the key, made of one that was there or of none, and else only
what it held. -/
theorem mem_alter {key : String} {change : Option α → α} {entries : List (String × α)}
    {entry : String × α} (h : entry ∈ alter key change entries) :
    (∃ before : Option α, (∀ v, before = some v → (key, v) ∈ entries) ∧ entry = (key, change before)) ∨
      entry ∈ entries := by
  induction entries with
  | nil => exact Or.inl ⟨none, nofun, by simpa [alter] using h⟩
  | cons head rest ih =>
    obtain ⟨k, v⟩ := head
    unfold alter at h
    split at h
    · rcases List.mem_cons.mp h with h | h
      · exact Or.inl ⟨none, nofun, h⟩
      · exact Or.inr h
    · split at h
      · rename_i hkey
        subst hkey
        rcases List.mem_cons.mp h with h | h
        · refine Or.inl ⟨some v, fun w hw => ?_, h⟩
          cases hw
          exact List.mem_cons_self
        · exact Or.inr (List.mem_cons_of_mem _ h)
      · rcases List.mem_cons.mp h with h | h
        · exact Or.inr (h ▸ List.mem_cons_self)
        · rcases ih h with ⟨before, hbefore, h⟩ | h
          · exact Or.inl ⟨before, fun w hw => List.mem_cons_of_mem _ (hbefore w hw), h⟩
          · exact Or.inr (List.mem_cons_of_mem _ h)

theorem ascending_alter {key : String} {change : Option α → α} {entries : List (String × α)}
    (hasc : Ascending entries) : Ascending (alter key change entries) := by
  induction entries with
  | nil => simp [alter, Ascending]
  | cons head rest ih =>
    obtain ⟨k, v⟩ := head
    obtain ⟨hhead, hrest⟩ := List.pairwise_cons.mp hasc
    unfold alter
    split
    · rename_i hlt
      refine List.pairwise_cons.mpr ⟨?_, hasc⟩
      intro entry hentry
      rcases List.mem_cons.mp hentry with rfl | hentry
      · exact hlt
      · exact String.lt_trans hlt (hhead entry hentry)
    · split
      · rename_i heq
        subst heq
        exact List.pairwise_cons.mpr ⟨hhead, hrest⟩
      · rename_i hlt hne
        have hgt : k < key := Decidable.byContradiction fun hnot =>
          hne (String.le_antisymm (String.not_lt.mp hnot) (String.not_lt.mp hlt))
        refine List.pairwise_cons.mpr ⟨?_, ih hrest⟩
        intro entry hentry
        rcases mem_alter hentry with ⟨_, _, rfl⟩ | hentry
        · exact hgt
        · exact hhead entry hentry

theorem ascending_insertAll {entries added : List (String × α)} (hasc : Ascending entries) :
    Ascending (insertAll entries added) := by
  induction added generalizing entries with
  | nil => exact hasc
  | cons head rest ih => exact ih (ascending_alter hasc)

theorem ascending_ofList (entries : List (String × α)) : Ascending (ofList entries) :=
  ascending_insertAll ascending_nil

end PageLoads.KeyedList
