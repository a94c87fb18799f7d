import Mathlib.Tactic.SplitIfs
import PageLoads.KeyedList

namespace PageLoads.KeyedList

variable {α : Type}

theorem length_alter_le (key : String) (change : Option α → α) (entries : List (String × α)) :
    (alter key change entries).length ≤ entries.length + 1 := by
  induction entries with
  | nil => exact Nat.le_refl _
  | cons head rest ih =>
    unfold alter
    split
    · simp
    · split
      · simp
      · simpa using ih

theorem alter_eq_append {key : String} {change : Option α → α} {entries : List (String × α)}
    (h : ∀ entry ∈ entries, entry.1 < key) : alter key change entries = entries ++ [(key, change none)] := by
  induction entries with
  | nil => rfl
  | cons head rest ih =>
    obtain ⟨k, v⟩ := head
    have hk : k < key := h (k, v) List.mem_cons_self
    have hnot : ¬ key < k := fun hlt => String.lt_irrefl _ (String.lt_trans hk hlt)
    have hne : key ≠ k := by
      rintro rfl
      exact String.lt_irrefl _ hk
    rw [alter, if_neg hnot, if_neg hne, ih fun entry hentry => h entry (List.mem_cons_of_mem _ hentry)]
    rfl

theorem insertAll_eq_append {entries added : List (String × α)} (h : Ascending (entries ++ added)) :
    insertAll entries added = entries ++ added := by
  induction added generalizing entries with
  | nil => simp [insertAll]
  | cons head rest ih =>
    obtain ⟨key, value⟩ := head
    obtain ⟨_, _, hbelow⟩ := List.pairwise_append.mp h
    have hinsert : insert key value entries = entries ++ [(key, value)] :=
      alter_eq_append fun entry hentry => hbelow entry hentry (key, value) List.mem_cons_self
    have hrest : insertAll (entries ++ [(key, value)]) rest = entries ++ [(key, value)] ++ rest :=
      ih (by simpa using h)
    calc insertAll entries ((key, value) :: rest)
        = insertAll (insert key value entries) rest := rfl
      _ = entries ++ [(key, value)] ++ rest := by rw [hinsert, hrest]
      _ = entries ++ (key, value) :: rest := by simp

/-- Changes of different keys, the lesser of which is changed last or first. -/
private theorem alter_comm_of_lt {key other : String} {change change' : Option α → α} (hlt : key < other)
    (entries : List (String × α)) :
    alter key change (alter other change' entries) = alter other change' (alter key change entries) := by
  have hnot : ¬ other < key := fun h => String.lt_irrefl _ (String.lt_trans hlt h)
  have hne : other ≠ key := by
    rintro rfl
    exact String.lt_irrefl _ hlt
  induction entries with
  | nil => simp only [alter, if_pos hlt, if_neg hnot, if_neg hne]
  | cons head rest ih =>
    obtain ⟨k, v⟩ := head
    -- The first entry stands behind the lesser key, has it, or stands before it and so before both.
    by_cases hkey : key < k
    · simp only [alter, if_pos hkey, if_neg hnot, if_neg hne]
      by_cases hother : other < k
      · simp only [if_pos hother, alter, if_pos hlt]
      · by_cases heq : other = k
        · simp only [if_neg hother, if_pos heq, alter, if_pos hlt]
        · simp only [if_neg hother, if_neg heq, alter, if_pos hkey]
    · by_cases heq : key = k
      · subst heq
        simp only [alter, if_neg hkey, if_neg hnot, if_neg hne, if_true]
      · have hk : k < key := Decidable.byContradiction fun h =>
          heq (String.le_antisymm (String.not_lt.mp h) (String.not_lt.mp hkey))
        have hother : ¬ other < k := fun h => hnot (String.lt_trans h hk)
        have heq' : other ≠ k := by
          rintro rfl
          exact hnot hk
        simp only [alter, if_neg hkey, if_neg heq, if_neg hother, if_neg heq', ih]

theorem alter_comm {key other : String} {change change' : Option α → α} (hne : key ≠ other)
    (entries : List (String × α)) :
    alter key change (alter other change' entries) = alter other change' (alter key change entries) := by
  by_cases hlt : key < other
  · exact alter_comm_of_lt hlt entries
  · have hgt : other < key := Decidable.byContradiction fun h =>
      hne (String.le_antisymm (String.not_lt.mp h) (String.not_lt.mp hlt))
    exact (alter_comm_of_lt hgt entries).symm

/-- An entry that is added first can as well be added last, if its key is not added again. -/
theorem insertAll_cons_of_not_mem {key : String} {value : α} {entries added : List (String × α)}
    (h : key ∉ added.map Prod.fst) :
    insertAll entries ((key, value) :: added) = insert key value (insertAll entries added) := by
  induction added generalizing entries with
  | nil => rfl
  | cons head rest ih =>
    obtain ⟨k, v⟩ := head
    rw [List.map_cons, List.mem_cons, not_or] at h
    obtain ⟨hne, hrest⟩ := h
    have hcomm : insert k v (insert key value entries) = insert key value (insert k v entries) :=
      alter_comm (fun heq => hne heq.symm) entries
    calc insertAll entries ((key, value) :: (k, v) :: rest)
        = insertAll (insert k v (insert key value entries)) rest := rfl
      _ = insertAll (insert k v entries) ((key, value) :: rest) := by rw [hcomm]; rfl
      _ = insert key value (insertAll (insert k v entries) rest) := ih hrest
      _ = insert key value (insertAll entries ((k, v) :: rest)) := rfl

theorem length_insertAll_le (entries added : List (String × α)) :
    (insertAll entries added).length ≤ entries.length + added.length := by
  induction added generalizing entries with
  | nil => exact Nat.le_refl _
  | cons head rest ih =>
    have hinsert := length_alter_le head.1 (fun _ => head.2) entries
    have hrest := ih (insert head.1 head.2 entries)
    simp only [insert, List.length_cons] at hrest ⊢
    exact Nat.le_trans hrest (by omega)

theorem mem_insertAll {entries added : List (String × α)} {entry : String × α}
    (h : entry ∈ insertAll entries added) : entry ∈ entries ∨ entry ∈ added := by
  induction added generalizing entries with
  | nil => exact Or.inl h
  | cons head rest ih =>
    rcases ih h with hinsert | hrest
    · rcases mem_alter hinsert with ⟨_, _, rfl⟩ | hentries
      · exact Or.inr List.mem_cons_self
      · exact Or.inl hentries
    · exact Or.inr (List.mem_cons_of_mem _ hrest)

theorem lookup_cons_eq (k key : String) (value : α) (entries : List (String × α)) :
    ((key, value) :: entries).lookup k = if k = key then some value else entries.lookup k := by
  by_cases h : k = key
  · simp [h]
  · simp [List.lookup_cons, beq_false_of_ne h, h]

theorem lookup_insert (k key : String) (value : α) (entries : List (String × α)) :
    (insert key value entries).lookup k = if k = key then some value else entries.lookup k := by
  unfold insert
  induction entries with
  | nil => exact lookup_cons_eq k key value []
  | cons head rest ih =>
    obtain ⟨key', value'⟩ := head
    unfold alter
    split
    case isTrue => exact lookup_cons_eq k key value _
    case isFalse =>
      split
      case isTrue heq =>
        subst heq
        simp only [lookup_cons_eq]
        split <;> rfl
      case isFalse hne =>
        -- The key is not the one at the head, so the two cases exclude each other.
        rw [lookup_cons_eq, lookup_cons_eq, ih]
        by_cases hkey : k = key
        · rw [if_neg fun hhead => hne (hkey.symm.trans hhead), if_pos hkey, if_pos hkey]
        · rw [if_neg hkey, if_neg hkey]

theorem lookup_eq_none {k : String} {entries : List (String × α)} (h : ∀ entry ∈ entries, k < entry.1) :
    entries.lookup k = none := by
  refine List.lookup_eq_none_iff.mpr fun entry hentry => ?_
  have hne : k ≠ entry.1 := fun heq => String.lt_irrefl k (heq.symm ▸ h entry hentry)
  exact bne_iff_ne.mpr hne

theorem lookup_alter {key : String} {change : Option α → α} {entries : List (String × α)} (hasc : Ascending entries)
    (k : String) :
    (alter key change entries).lookup k = if k = key then some (change (entries.lookup key)) else entries.lookup k := by
  induction entries with
  | nil => exact lookup_cons_eq k key _ []
  | cons head rest ih =>
    obtain ⟨key', value⟩ := head
    obtain ⟨hhead, hrest⟩ := List.pairwise_cons.mp hasc
    unfold alter
    split
    case isTrue hlt =>
      have habsent : ((key', value) :: rest).lookup key = none := by
        refine lookup_eq_none fun entry hentry => ?_
        rcases List.mem_cons.mp hentry with rfl | hentry
        · exact hlt
        · exact String.lt_trans hlt (hhead entry hentry)
      rw [lookup_cons_eq k key, habsent]
    case isFalse =>
      split
      case isTrue heq =>
        subst heq
        simp only [lookup_cons_eq]
        split <;> rfl
      case isFalse hne =>
        rw [lookup_cons_eq k key', lookup_cons_eq key key', if_neg hne, lookup_cons_eq k key', ih hrest]
        by_cases hkey : k = key
        · rw [if_neg fun hback => hne (hkey.symm.trans hback), if_pos hkey, if_pos hkey]
        · rw [if_neg hkey, if_neg hkey]

/-- After all entries are added, a key has the value of the last of them that has the key, or else the one it
had. -/
theorem lookup_insertAll (k : String) (entries added : List (String × α)) :
    (insertAll entries added).lookup k = (added.reverse.lookup k).or (entries.lookup k) := by
  induction added generalizing entries with
  | nil => rfl
  | cons head rest ih =>
    obtain ⟨key, value⟩ := head
    calc (insertAll entries ((key, value) :: rest)).lookup k
        = (insertAll (insert key value entries) rest).lookup k := rfl
      _ = (rest.reverse.lookup k).or ((insert key value entries).lookup k) := ih _
      _ = (rest.reverse.lookup k).or (([(key, value)].lookup k).or (entries.lookup k)) := by
          rw [lookup_insert, lookup_cons_eq]
          split_ifs <;> rfl
      _ = (((key, value) :: rest).reverse.lookup k).or (entries.lookup k) := by
          rw [List.reverse_cons, List.lookup_append, Option.or_assoc]

theorem lookup_eq_some_iff {k : String} {value : α} {entries : List (String × α)} (hasc : Ascending entries) :
    entries.lookup k = some value ↔ (k, value) ∈ entries := by
  induction entries with
  | nil => simp
  | cons head rest ih =>
    obtain ⟨key, value'⟩ := head
    obtain ⟨hhead, hrest⟩ := List.pairwise_cons.mp hasc
    rw [lookup_cons_eq, List.mem_cons]
    by_cases hkey : k = key
    · subst hkey
      have hnot : (k, value) ∉ rest := fun hmem => String.lt_irrefl _ (hhead (k, value) hmem)
      simp [hnot, eq_comm]
    · simp [hkey, ih hrest]

theorem length_ofList_le (entries : List (String × α)) : (ofList entries).length ≤ entries.length := by
  simpa [ofList] using length_insertAll_le [] entries

theorem mem_ofList {entries : List (String × α)} {entry : String × α} (h : entry ∈ ofList entries) :
    entry ∈ entries := by
  simpa using mem_insertAll h

theorem ofList_eq_self {entries : List (String × α)} (h : Ascending entries) : ofList entries = entries := by
  have happend : insertAll [] entries = [] ++ entries := insertAll_eq_append h
  exact happend

theorem ofList_eq_self_iff {entries : List (String × α)} : ofList entries = entries ↔ Ascending entries :=
  ⟨fun h => h ▸ ascending_ofList entries, ofList_eq_self⟩

end PageLoads.KeyedList
