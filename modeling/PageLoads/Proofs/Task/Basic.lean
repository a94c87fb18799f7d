import PageLoads.Fault
import PageLoads.Proofs.Interner
import PageLoads.Proofs.Store.Order

/-!
# Tasks

A task is a computation over a store that now and then asks for something whose answer is not settled by the
store alone: the names in a directory, which come in any order, and the instance of a text in a table that other
tasks use too. What it does with an answer is a function of the answer.

A task runs alone if nothing else asks the table meanwhile. Its outcome does not depend on the table, because
the instance of a text has this text. A task is steady if it does the same whatever order the names come in.
-/

namespace PageLoads

inductive Task (ε α : Type) where
  | done (result : Except ε α)
  | list (path : Trail) (next : Except IoFault (List Name) → Task ε α)
  | intern (text : String) (next : String → Task ε α)

namespace Task

variable {ε ε' α β : Type}

def bind (f : α → Task ε β) : Task ε α → Task ε β
  | done (.ok a) => f a
  | done (.error fault) => done (.error fault)
  | list path next => list path fun listed => (next listed).bind f
  | intern text next => intern text fun found => (next found).bind f

instance : Monad (Task ε) where
  pure a := done (.ok a)
  bind task f := task.bind f

def mapError (f : ε → ε') : Task ε α → Task ε' α
  | done result => done (result.mapError f)
  | list path next => list path fun listed => (next listed).mapError f
  | intern text next => intern text fun found => (next found).mapError f

/-- The result of a task that has the table to itself, and the table afterwards. -/
def alone (store : Store) (table : Interner) : Task ε α → Except ε (α × Interner)
  | done result => result.map fun a => (a, table)
  | list path next => (next (store.list path)).alone store table
  | intern text next =>
    let (table, handle) := table.intern text
    (next (table.text handle)).alone store table

/-- The result of a task that is given each text as it asks for it. -/
def outcome (store : Store) : Task ε α → Except ε α
  | done result => result
  | list path next => (next (store.list path)).outcome store
  | intern text next => (next text).outcome store

/-- How often a task asks before it is done. -/
def steps (store : Store) : Task ε α → Nat
  | done _ => 0
  | list path next => (next (store.list path)).steps store + 1
  | intern text next => (next text).steps store + 1

variable {store : Store}

theorem alone_intern (text : String) (next : String → Task ε α) (table : Interner) :
    (intern text next).alone store table = (next text).alone store (table.insert text) := by
  have hasked : (intern text next).alone store table =
      (next ((table.intern text).1.text (table.intern text).2)).alone store (table.intern text).1 := rfl
  rw [hasked, Interner.text_intern]
  rfl

theorem map_fst_alone (task : Task ε α) (table : Interner) :
    (task.alone store table).map Prod.fst = task.outcome store := by
  induction task generalizing table with
  | done result => cases result <;> rfl
  | list path next ih => exact ih _ _
  | intern text next ih =>
    rw [alone_intern, ih]
    rfl

theorem alone_bind (task : Task ε α) (f : α → Task ε β) (table : Interner) :
    (task >>= f).alone store table =
      task.alone store table >>= fun (a, after) => (f a).alone store after := by
  induction task generalizing table with
  | done result => cases result <;> rfl
  | list path next ih => exact ih _ _
  | intern text next ih => exact ih _ _

theorem outcome_bind (task : Task ε α) (f : α → Task ε β) :
    (task >>= f).outcome store = task.outcome store >>= fun a => (f a).outcome store := by
  induction task with
  | done result => cases result <;> rfl
  | list path next ih => exact ih _
  | intern text next ih => exact ih _

theorem alone_mapError (task : Task ε α) (f : ε → ε') (table : Interner) :
    (task.mapError f).alone store table = (task.alone store table).mapError f := by
  induction task generalizing table with
  | done result => cases result <;> rfl
  | list path next ih => exact ih _ _
  | intern text next ih => exact ih _ _

/-- The order of the names in a directory makes no difference to what the task does next. -/
def Steady : Task ε α → Prop
  | done _ => True
  | list _ next => (∀ listed, (next listed).Steady) ∧
      ∀ listed others, Store.SameNames listed others → next listed = next others
  | intern _ next => ∀ found, (next found).Steady

theorem steady_done (result : Except ε α) : (done result).Steady :=
  trivial

theorem Steady.bind {task : Task ε α} (h : task.Steady) {f : α → Task ε β} (hf : ∀ a, (f a).Steady) :
    (task >>= f).Steady := by
  induction task with
  | done result =>
    cases result with
    | ok a => exact hf a
    | error fault => trivial
  | list path next ih =>
    obtain ⟨hnext, hsame⟩ := h
    refine ⟨fun listed => ih listed (hnext listed), ?_⟩
    intro listed others hnames
    simp only [hsame listed others hnames]
  | intern text next ih => exact fun found => ih found (h found)

theorem Steady.mapError {task : Task ε α} (h : task.Steady) (f : ε → ε') : (task.mapError f).Steady := by
  induction task with
  | done result => trivial
  | list path next ih =>
    obtain ⟨hnext, hsame⟩ := h
    refine ⟨fun listed => ih listed (hnext listed), ?_⟩
    intro listed others hnames
    simp only [hsame listed others hnames]
  | intern text next ih => exact fun found => ih found (h found)

/-- One question of a task and its answer, with the table before and after. -/
inductive Step (store : Store) : Task ε α → Interner → Task ε α → Interner → Prop
  | list {path : Trail} {next : Except IoFault (List Name) → Task ε α} {table : Interner}
      {listed : Except IoFault (List Name)} (h : Store.SameNames listed (store.list path)) :
      Step store (.list path next) table (next listed) table
  | intern {text : String} {next : String → Task ε α} {table : Interner} :
      Step store (.intern text next) table (next ((table.intern text).1.text (table.intern text).2))
        (table.intern text).1

/-- A step of a steady task leads to a steady task of the same outcome that is one step nearer to it. -/
theorem Step.preserves {task next : Task ε α} {table after : Interner} (h : Step store task table next after)
    (hsteady : task.Steady) :
    next.Steady ∧ next.outcome store = task.outcome store ∧ next.steps store + 1 = task.steps store := by
  cases h with
  | list hlisted =>
    obtain ⟨hnext, hsame⟩ := hsteady
    rw [hsame _ _ hlisted]
    exact ⟨hnext _, rfl, rfl⟩
  | intern =>
    rw [Interner.text_intern]
    exact ⟨hsteady _, rfl, rfl⟩

end Task

end PageLoads
