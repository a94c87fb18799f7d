import Mathlib
import PageLoads.Proofs.Except
import PageLoads.Proofs.Task.Basic

/-!
# Pools of tasks

Tasks that share one table and take turns in any order. A pool answers with the results of all its tasks, in the
order of the tasks, or with the fault of any that has failed, whether or not the others are done. If its tasks
are steady and no two fail with different faults, there is one answer, and the pool comes to it whatever the
turns are.
-/

namespace PageLoads

structure Pool (ε α : Type) where
  tasks : List (Task ε α)
  table : Interner

namespace Pool

variable {ε α : Type} {store : Store} {pool next last : Pool ε α} {answer : Except ε (List α)}

inductive Step (store : Store) : Pool ε α → Pool ε α → Prop
  | turn {before behind : List (Task ε α)} {task next : Task ε α} {table after : Interner}
      (h : Task.Step store task table next after) :
      Step store ⟨before ++ task :: behind, table⟩ ⟨before ++ next :: behind, after⟩

inductive Answers : Pool ε α → Except ε (List α) → Prop
  | ok (results : List α) (table : Interner) :
      Answers ⟨results.map fun a => .done (.ok a), table⟩ (.ok results)
  | error {pool : Pool ε α} {fault : ε} (h : .done (.error fault) ∈ pool.tasks) : Answers pool (.error fault)

def Steady (pool : Pool ε α) : Prop :=
  ∀ task ∈ pool.tasks, task.Steady

def outcomes (store : Store) (pool : Pool ε α) : List (Except ε α) :=
  pool.tasks.map (Task.outcome store)

/-- How many steps all tasks together have before them. -/
def steps (store : Store) (pool : Pool ε α) : Nat :=
  (pool.tasks.map (Task.steps store)).sum

theorem Step.preserves (h : Step store pool next) (hsteady : pool.Steady) :
    next.Steady ∧ next.outcomes store = pool.outcomes store ∧ next.steps store + 1 = pool.steps store := by
  obtain ⟨hstep⟩ := h
  rename_i before behind task following table after
  obtain ⟨hfollowing, houtcome, hsteps⟩ := hstep.preserves (hsteady task (by simp))
  refine ⟨?_, ?_, ?_⟩
  · intro other hother
    rcases List.mem_append.mp hother with hother | hother
    · exact hsteady other (List.mem_append_left _ hother)
    · rcases List.mem_cons.mp hother with rfl | hother
      · exact hfollowing
      · exact hsteady other (List.mem_append_right _ (List.mem_cons_of_mem _ hother))
  · simp [outcomes, houtcome]
  · simp only [steps, List.map_append, List.map_cons, List.sum_append, List.sum_cons]
    omega

theorem preserves_of_reaches (h : Relation.ReflTransGen (Step store) pool last) (hsteady : pool.Steady) :
    last.Steady ∧ last.outcomes store = pool.outcomes store := by
  induction h with
  | refl => exact ⟨hsteady, rfl⟩
  | tail _ hstep ih =>
    obtain ⟨hmiddle, houtcomes⟩ := ih
    obtain ⟨hlast, hsame, _⟩ := hstep.preserves hmiddle
    exact ⟨hlast, hsame.trans houtcomes⟩

/-- No turns go on for ever. -/
theorem not_exists_endless (hsteady : pool.Steady) :
    ¬ ∃ turns : Nat → Pool ε α, turns 0 = pool ∧ ∀ n, Step store (turns n) (turns (n + 1)) := by
  rintro ⟨turns, hfirst, hturns⟩
  have hsteps (n : Nat) : (turns n).Steady ∧ (turns n).steps store + n = pool.steps store := by
    induction n with
    | zero => exact ⟨hfirst ▸ hsteady, by rw [hfirst, Nat.add_zero]⟩
    | succ n ih =>
      obtain ⟨hn, hsum⟩ := ih
      obtain ⟨hnext, _, hless⟩ := (hturns n).preserves hn
      exact ⟨hnext, by omega⟩
  have := (hsteps (pool.steps store + 1)).2
  omega

/-- The results in their order, or the first fault. -/
def collect (results : List (Except ε α)) : Except ε (List α) :=
  results.mapM id

theorem collect_cons (result : Except ε α) (rest : List (Except ε α)) :
    collect (result :: rest) = result >>= fun a => (collect rest).map fun results => a :: results := by
  rw [collect, List.mapM_cons, ← collect]
  cases result with
  | error fault => rfl
  | ok a => cases collect rest <;> rfl

theorem collect_eq_ok_iff {results : List (Except ε α)} {all : List α} :
    collect results = .ok all ↔ results = all.map .ok := by
  induction results generalizing all with
  | nil => cases all <;> simp [collect, pure, Except.pure]
  | cons result rest ih =>
    rw [collect_cons, Except.bind_eq_ok_iff]
    constructor
    · rintro ⟨a, rfl, h⟩
      cases hrest : collect rest with
      | error fault => simp [hrest, Except.map] at h
      | ok others =>
        rw [hrest] at h
        cases h
        rw [ih.mp hrest, List.map_cons]
    · intro h
      cases all with
      | nil => cases h
      | cons a others =>
        obtain ⟨rfl, hrest⟩ := List.cons.inj h
        exact ⟨a, rfl, by rw [ih.mpr hrest]; rfl⟩

theorem collect_eq_error {results : List (Except ε α)} {fault : ε} (hfault : .error fault ∈ results)
    (hone : ∀ other, .error other ∈ results → other = fault) : collect results = .error fault := by
  induction results with
  | nil => cases hfault
  | cons result rest ih =>
    rw [collect_cons]
    cases result with
    | error other => exact congrArg Except.error (hone other List.mem_cons_self)
    | ok a =>
      have hrest : .error fault ∈ rest := by simpa using hfault
      rw [ih hrest fun other hother => hone other (List.mem_cons_of_mem _ hother)]
      rfl

theorem exists_reaches_done (store : Store) (before behind : List (Task ε α)) (task : Task ε α)
    (table : Interner) :
    ∃ after, Relation.ReflTransGen (Step store) ⟨before ++ task :: behind, table⟩
        ⟨before ++ .done (task.outcome store) :: behind, after⟩ := by
  induction task generalizing table with
  | done result => exact ⟨table, .refl⟩
  | list path next ih =>
    obtain ⟨after, hafter⟩ := ih (store.list path) table
    exact ⟨after, .head (.turn (.list (.refl _))) hafter⟩
  | intern text next ih =>
    obtain ⟨after, hafter⟩ := ih text (table.intern text).1
    refine ⟨after, .head (.turn .intern) ?_⟩
    rw [Interner.text_intern]
    exact hafter

private theorem exists_reaches_collect_behind (store : Store) (results : List α) (tasks : List (Task ε α))
    (table : Interner) :
    ∃ last, Relation.ReflTransGen (Step store)
        ⟨(results.map fun a => .done (.ok a)) ++ tasks, table⟩ last ∧
      last.Answers ((collect (tasks.map (Task.outcome store))).map (results ++ ·)) := by
  induction tasks generalizing results table with
  | nil =>
    refine ⟨_, .refl, ?_⟩
    have hdone : (⟨results.map fun a => .done (.ok a), table⟩ : Pool ε α).Answers (.ok results) :=
      .ok results table
    simpa [collect, pure, Except.pure, Except.map] using hdone
  | cons task rest ih =>
    obtain ⟨after, hafter⟩ := exists_reaches_done store
      (results.map fun a => .done (.ok a)) rest task table
    rw [List.map_cons, collect_cons]
    cases houtcome : task.outcome store with
    | error fault =>
      refine ⟨_, hafter, .error ?_⟩
      simp [houtcome]
    | ok a =>
      rw [houtcome] at hafter
      obtain ⟨last, hlast, hanswer⟩ := ih (results ++ [a]) after
      refine ⟨last, hafter.trans (by simpa using hlast), ?_⟩
      cases hrest : collect (rest.map (Task.outcome store)) with
      | error fault => simpa [hrest, Except.map, bind, Except.bind] using hanswer
      | ok others => simpa [hrest, Except.map, bind, Except.bind] using hanswer

/-- From any pool an answer can be reached: the tasks may take their turns one after another, up to the first
that fails. -/
theorem exists_reaches_collect (store : Store) (pool : Pool ε α) :
    ∃ last, Relation.ReflTransGen (Step store) pool last ∧ last.Answers (collect (pool.outcomes store)) := by
  obtain ⟨last, hreaches, hanswer⟩ := exists_reaches_collect_behind store [] pool.tasks pool.table
  refine ⟨last, hreaches, ?_⟩
  rw [outcomes]
  cases hcollect : collect (pool.tasks.map (Task.outcome store)) with
  | error fault => simpa [hcollect, Except.map] using hanswer
  | ok results => simpa [hcollect, Except.map] using hanswer

/-- If no two tasks fail with different faults, every answer is what the outcomes of the tasks amount to. -/
theorem eq_collect_of_answers (hreaches : Relation.ReflTransGen (Step store) pool last)
    (hsteady : pool.Steady) (hanswer : last.Answers answer)
    (hone : ∀ fault other, .error fault ∈ pool.outcomes store → .error other ∈ pool.outcomes store →
      other = fault) : answer = collect (pool.outcomes store) := by
  obtain ⟨_, houtcomes⟩ := preserves_of_reaches hreaches hsteady
  rw [← houtcomes] at hone ⊢
  cases hanswer with
  | ok results table =>
    have hresults : outcomes store ⟨results.map fun a => .done (.ok a), table⟩ =
        results.map fun a => (.ok a : Except ε α) := by
      simp [outcomes, Task.outcome]
    rw [hresults, collect_eq_ok_iff.mpr rfl]
  | error h =>
    have hfault := List.mem_map_of_mem (f := Task.outcome store) h
    exact (collect_eq_error hfault fun other hother => hone _ other hfault hother).symm

end Pool

end PageLoads
