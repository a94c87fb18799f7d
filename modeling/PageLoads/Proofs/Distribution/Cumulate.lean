import Mathlib
import PageLoads.Distribution

namespace PageLoads

/-- The order of samples has a place for each value and tells any two apart. -/
class OrderedSample (α : Type) [Sample α] : Prop where
  le_trans : ∀ {x y z : α}, Sample.le x y = true → Sample.le y z = true → Sample.le x z = true
  le_total : ∀ x y : α, (Sample.le x y || Sample.le y x) = true
  le_antisymm : ∀ {x y : α}, Sample.le x y = true → Sample.le y x = true → x = y

namespace Distribution

variable {α : Type}

def countIn (isMember : α → Bool) (counts : List (α × Nat)) : Nat :=
  ((counts.filter fun count => isMember count.1).map Prod.snd).sum

/-- Each value that occurs is counted once, as often as it occurs. -/
structure Tallies (vs : List α) (counts : List (α × Nat)) : Prop where
  nodup : (counts.map Prod.fst).Nodup
  mem_iff : ∀ v, v ∈ counts.map Prod.fst ↔ v ∈ vs
  positive : ∀ count ∈ counts, 0 < count.2
  countIn_eq : ∀ isMember, countIn isMember counts = vs.countP isMember

/-- Rows that tell of each value that occurs how many there are up to it. -/
structure Cumulates (le : α → α → Bool) (vs : List α) (rows : List (α × Nat)) : Prop where
  ascending : rows.Pairwise fun a b => le a.1 b.1 = true ∧ a.1 ≠ b.1
  mem_iff : ∀ v, v ∈ rows.map Prod.fst ↔ v ∈ vs
  count : ∀ row ∈ rows, row.2 = vs.countP fun v => le v row.1
  increasing : rows.Pairwise fun a b => a.2 < b.2
  last : vs ≠ [] → (rows.map Prod.snd).getLast? = some vs.length

theorem countIn_cons (isMember : α → Bool) (count : α × Nat) (counts : List (α × Nat)) :
    countIn isMember (count :: counts) = (if isMember count.1 then count.2 else 0) + countIn isMember counts := by
  cases h : isMember count.1 <;> simp [countIn, h]

theorem countIn_append (isMember : α → Bool) (counts others : List (α × Nat)) :
    countIn isMember (counts ++ others) = countIn isMember counts + countIn isMember others := by
  simp [countIn]

theorem countIn_of_forall {isMember : α → Bool} {counts : List (α × Nat)}
    (h : ∀ count ∈ counts, isMember count.1 = true) : countIn isMember counts = (counts.map Prod.snd).sum := by
  rw [countIn, List.filter_eq_self.mpr h]

theorem countIn_of_forall_not {isMember : α → Bool} {counts : List (α × Nat)}
    (h : ∀ count ∈ counts, isMember count.1 = false) : countIn isMember counts = 0 := by
  have hnil : counts.filter (fun count => isMember count.1) = [] :=
    List.filter_eq_nil_iff.mpr fun count hcount => by simp [h count hcount]
  rw [countIn, hnil]
  rfl

theorem Tallies.of_perm {vs : List α} {counts others : List (α × Nat)} (h : Tallies vs counts)
    (hperm : others.Perm counts) : Tallies vs others where
  nodup := (hperm.map _).nodup_iff.mpr h.nodup
  mem_iff v := (hperm.map _).mem_iff.trans (h.mem_iff v)
  positive count hcount := h.positive count (hperm.mem_iff.mp hcount)
  countIn_eq isMember := by
    rw [← h.countIn_eq isMember]
    exact ((hperm.filter _).map _).sum_nat

section

variable [DecidableEq α]

theorem map_fst_countOne (v : α) (counts : List (α × Nat)) :
    (countOne v counts).map Prod.fst =
      if v ∈ counts.map Prod.fst then counts.map Prod.fst else counts.map Prod.fst ++ [v] := by
  induction counts with
  | nil => simp [countOne]
  | cons count counts ih =>
    obtain ⟨w, n⟩ := count
    by_cases h : v = w
    · simp [countOne, h]
    · simp only [countOne, h, if_false, List.map_cons, ih, List.mem_cons, false_or, List.cons_append]
      split <;> rfl

theorem countIn_countOne (isMember : α → Bool) (v : α) (counts : List (α × Nat)) :
    countIn isMember (countOne v counts) = countIn isMember counts + if isMember v then 1 else 0 := by
  induction counts with
  | nil => rw [countOne, countIn_cons, Nat.add_comm]
  | cons count counts ih =>
    obtain ⟨w, n⟩ := count
    by_cases h : v = w
    · subst h
      simp only [countOne, if_true, countIn_cons]
      split <;> omega
    · simp only [countOne, h, if_false, countIn_cons, ih]
      omega

theorem positive_countOne {v : α} {counts : List (α × Nat)} (h : ∀ count ∈ counts, 0 < count.2) :
    ∀ count ∈ countOne v counts, 0 < count.2 := by
  induction counts with
  | nil => simp [countOne]
  | cons count counts ih =>
    obtain ⟨hcount, hcounts⟩ := List.forall_mem_cons.mp h
    unfold countOne
    split
    · exact List.forall_mem_cons.mpr ⟨Nat.succ_pos _, hcounts⟩
    · exact List.forall_mem_cons.mpr ⟨hcount, ih hcounts⟩

theorem Tallies.concat {vs : List α} {counts : List (α × Nat)} (h : Tallies vs counts) (v : α) :
    Tallies (vs ++ [v]) (countOne v counts) where
  nodup := by
    rw [map_fst_countOne]
    split
    · exact h.nodup
    · rename_i hnew
      exact List.concat_eq_append ▸ h.nodup.concat hnew
  mem_iff w := by
    rw [map_fst_countOne, List.mem_append, ← h.mem_iff w]
    split
    · rename_i hmem
      constructor
      · exact Or.inl
      · rintro (hw | hw)
        · exact hw
        · rwa [List.mem_singleton.mp hw]
    · exact List.mem_append
  positive := positive_countOne h.positive
  countIn_eq isMember := by
    rw [countIn_countOne, h.countIn_eq isMember, List.countP_append, List.countP_singleton]

theorem tallies_tally (vs : List α) : Tallies vs (tally vs) := by
  induction vs using List.reverseRecOn with
  | nil => exact ⟨List.nodup_nil, fun _ => Iff.rfl, nofun, fun _ => rfl⟩
  | append_singleton vs v ih =>
    rw [tally, List.foldl_concat]
    exact ih.concat v

end

theorem map_fst_accumulate (sum : Nat) (counts : List (α × Nat)) :
    (accumulate sum counts).map Prod.fst = counts.map Prod.fst := by
  induction counts generalizing sum with
  | nil => rfl
  | cons count counts ih => rw [accumulate, List.map_cons, ih, List.map_cons]

theorem accumulate_concat (sum : Nat) (counts : List (α × Nat)) (v : α) (n : Nat) :
    accumulate sum (counts ++ [(v, n)]) =
      accumulate sum counts ++ [(v, sum + (counts.map Prod.snd).sum + n)] := by
  induction counts generalizing sum with
  | nil => rfl
  | cons count counts ih => simp [accumulate, ih, Nat.add_assoc]

/-- A row holds the count of its value and all counts before it. -/
theorem exists_of_mem_accumulate {sum : Nat} {counts : List (α × Nat)} {row : α × Nat}
    (h : row ∈ accumulate sum counts) : ∃ before n after,
      counts = before ++ (row.1, n) :: after ∧ row.2 = sum + (before.map Prod.snd).sum + n := by
  induction counts generalizing sum with
  | nil => cases h
  | cons count counts ih =>
    rcases List.mem_cons.mp h with rfl | h
    · exact ⟨[], count.2, counts, rfl, rfl⟩
    · obtain ⟨before, n, after, hcounts, hrow⟩ := ih h
      refine ⟨count :: before, n, after, by rw [hcounts]; rfl, ?_⟩
      rw [hrow, List.map_cons, List.sum_cons, ← Nat.add_assoc]

theorem increasing_accumulate {sum : Nat} {counts : List (α × Nat)} (h : ∀ count ∈ counts, 0 < count.2) :
    (accumulate sum counts).Pairwise fun a b => a.2 < b.2 := by
  induction counts generalizing sum with
  | nil => exact List.Pairwise.nil
  | cons count counts ih =>
    obtain ⟨_, hcounts⟩ := List.forall_mem_cons.mp h
    refine List.pairwise_cons.mpr ⟨fun row hrow => ?_, ih hcounts⟩
    -- The sum goes on from the row before, and a positive count is added.
    obtain ⟨before, n, after, hsplit, hvalue⟩ := exists_of_mem_accumulate hrow
    have hn : 0 < n := hcounts (row.1, n) (by simp [hsplit])
    show sum + count.2 < row.2
    omega

theorem last_accumulate {sum : Nat} {counts : List (α × Nat)} (h : counts ≠ []) :
    ((accumulate sum counts).map Prod.snd).getLast? = some (sum + (counts.map Prod.snd).sum) := by
  rcases List.eq_nil_or_concat counts with rfl | ⟨front, ⟨v, n⟩, rfl⟩
  · exact absurd rfl h
  · rw [List.concat_eq_append, accumulate_concat, List.map_append, List.map_singleton, List.getLast?_concat]
    simp [Nat.add_assoc]

theorem Tallies.last {vs : List α} {counts : List (α × Nat)} (h : Tallies vs counts) (hne : vs ≠ []) :
    ((accumulate 0 counts).map Prod.snd).getLast? = some vs.length := by
  have hcounts : counts ≠ [] := by
    obtain ⟨v, hv⟩ := List.exists_mem_of_ne_nil vs hne
    rintro rfl
    exact List.not_mem_nil ((h.mem_iff v).mpr hv)
  have hall : countIn (fun _ => true) counts = (counts.map Prod.snd).sum := countIn_of_forall fun _ _ => rfl
  rw [last_accumulate hcounts, ← hall, h.countIn_eq]
  simp

variable [Sample α] [OrderedSample α]

theorem sorted_counts (counts : List (α × Nat)) :
    (counts.mergeSort fun a b => Sample.le a.1 b.1).Pairwise fun a b => Sample.le a.1 b.1 = true := by
  refine List.pairwise_mergeSort ?_ (fun a b => OrderedSample.le_total a.1 b.1) counts
  exact fun _ _ _ => OrderedSample.le_trans

theorem cumulate_of_perm {vs : List α} {counts others : List (α × Nat)} (h : Tallies vs others)
    (hperm : counts.Perm others) : cumulate counts = cumulate others := by
  have hnodup := (h.of_perm hperm).nodup
  have hsorted : counts.mergeSort (fun a b => Sample.le a.1 b.1) = others.mergeSort fun a b => Sample.le a.1 b.1 := by
    refine List.Perm.eq_of_pairwise ?_ (sorted_counts counts) (sorted_counts others) ?_
    · intro a b ha hb hab hba
      have hb := hperm.mem_iff.mpr (List.mem_mergeSort.mp hb)
      exact List.inj_on_of_nodup_map hnodup (List.mem_mergeSort.mp ha) hb (OrderedSample.le_antisymm hab hba)
    · exact (List.mergeSort_perm _ _).trans (hperm.trans (List.mergeSort_perm _ _).symm)
  rw [cumulate, cumulate, hsorted]

/-- In strictly ascending counts the row of a value tells how many values are up to it. -/
theorem Tallies.count_of_mem_accumulate {vs : List α} {counts : List (α × Nat)} (h : Tallies vs counts)
    (hstrict : counts.Pairwise fun a b => Sample.le a.1 b.1 = true ∧ a.1 ≠ b.1) {row : α × Nat}
    (hrow : row ∈ accumulate 0 counts) : row.2 = vs.countP fun v => Sample.le v row.1 := by
  obtain ⟨before, n, after, rfl, hvalue⟩ := exists_of_mem_accumulate hrow
  obtain ⟨_, hafter, hbefore⟩ := List.pairwise_append.mp hstrict
  have hle : ∀ count ∈ before, Sample.le count.1 row.1 = true := fun count hcount =>
    (hbefore count hcount _ List.mem_cons_self).1
  have hnot : ∀ count ∈ after, Sample.le count.1 row.1 = false := by
    intro count hcount
    obtain ⟨hup, hne⟩ := (List.pairwise_cons.mp hafter).1 count hcount
    exact Bool.eq_false_iff.mpr fun hdown => hne (OrderedSample.le_antisymm hup hdown)
  have hself : Sample.le row.1 row.1 = true := by simpa using OrderedSample.le_total row.1 row.1
  rw [← h.countIn_eq, countIn_append, countIn_cons, countIn_of_forall hle, countIn_of_forall_not hnot, hvalue]
  simp [hself]

theorem Tallies.cumulates {vs : List α} {counts : List (α × Nat)} (h : Tallies vs counts) :
    Cumulates Sample.le vs (cumulate counts) := by
  have h := h.of_perm (List.mergeSort_perm counts fun a b => Sample.le a.1 b.1)
  have hstrict := (sorted_counts counts).and (List.pairwise_map.mp h.nodup)
  refine ⟨?_, ?_, fun row hrow => h.count_of_mem_accumulate hstrict hrow, increasing_accumulate h.positive,
    h.last⟩
  · rw [← List.pairwise_map (f := Prod.fst) (R := fun x y => Sample.le x y = true ∧ x ≠ y), cumulate,
      map_fst_accumulate]
    exact List.pairwise_map.mpr hstrict
  · intro v
    rw [cumulate, map_fst_accumulate]
    exact h.mem_iff v

end Distribution

end PageLoads
