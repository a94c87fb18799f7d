import Mathlib.Data.Finset.Card
import Mathlib.Logic.Function.Basic
import Mathlib.Logic.Relation
import PageLoads.Proofs.Interner

/-!
# Sharing a table

Tasks that ask one table for texts at the same time. A call takes the lock of the table, looks its text up and,
where the table has no instance of it, makes one and adds it before the lock is given up. The steps of different
tasks alternate in any way that the lock allows.

Nothing in a step keeps a text from getting two instances: they would be two places in the table. It is the lock
that does, because no instance is added between the look that finds a text missing and the step that adds it. So
the calls do what they do if they are made one after another, in the order in which they are answered.
-/

namespace PageLoads

namespace Interner

/-- Asks for texts one after another: the table afterwards, and the handles in the order of the texts. -/
def internAll (table : Interner) (texts : List String) : Interner × List Nat :=
  texts.foldl (fun (table, handles) text => ((table.intern text).1, handles ++ [(table.intern text).2])) (table, [])

variable {table : Interner} {texts : List String}

theorem internAll_concat (text : String) :
    table.internAll (texts ++ [text]) = (((table.internAll texts).1.intern text).1,
      (table.internAll texts).2 ++ [((table.internAll texts).1.intern text).2]) := by
  rw [internAll, List.foldl_concat, ← internAll]

theorem intern_of_getElem? {text : String} {place : Nat} (h : table.texts[place]? = some text) :
    table.intern text = (table, place) := by
  obtain ⟨hlt, hplace⟩ := List.getElem?_eq_some_iff.mp h
  have hinsert : table.insert text = table := by
    rw [insert, dif_pos (hplace ▸ List.getElem_mem hlt)]
  have hhandle : table.texts.idxOf text = place := by
    rw [← hplace]
    exact table.nodup.idxOf_getElem place hlt
  rw [intern, hinsert, handle, hhandle]

theorem texts_intern_of_not_mem {text : String} (h : text ∉ table.texts) :
    (table.intern text).1.texts = table.texts ++ [text] ∧ (table.intern text).2 = table.texts.length := by
  have hinsert : (table.insert text).texts = table.texts ++ [text] := by
    rw [insert, dif_neg h]
  refine ⟨hinsert, ?_⟩
  rw [intern, handle, hinsert, List.idxOf_append_of_notMem h]
  simp

theorem mem_texts_internAll {text : String} :
    text ∈ (empty.internAll texts).1.texts ↔ text ∈ texts := by
  induction texts using List.reverseRecOn with
  | nil => rfl
  | append_singleton before last ih =>
    rw [internAll_concat, intern, mem_texts_insert_iff, ih, List.mem_append, List.mem_singleton]

theorem size_internAll (texts : List String) : (empty.internAll texts).1.size = texts.toFinset.card := by
  rw [size, ← List.toFinset_card_of_nodup (empty.internAll texts).1.nodup]
  congr 1
  ext text
  rw [List.mem_toFinset, List.mem_toFinset, mem_texts_internAll]

end Interner

/-- Where a task is in its calls. Between two of them it is outside; in a call it has the lock, and it looks the
text up or has found it missing. -/
inductive CallPhase where
  | outside
  | looking (text : String)
  | missing (text : String)
  deriving DecidableEq

def CallPhase.text? : CallPhase → Option String
  | .outside => none
  | .looking text | .missing text => some text

/-- The instance that a task was given for a text. -/
structure Answer (ι : Type) where
  task : ι
  text : String
  handle : Nat

structure Sharing (ι : Type) where
  phase : ι → CallPhase
  left : ι → List String
  holder : Option ι
  /-- The texts of the instances in the table, oldest first. An instance is known by its place. -/
  instances : List String
  /-- The answers given, oldest first. -/
  answers : List (Answer ι)

namespace Sharing

variable {ι : Type} [DecidableEq ι]

/-- Nothing has been asked for of what each task is to ask for. -/
def start (calls : ι → List String) : Sharing ι where
  phase := fun _ => .outside
  left := calls
  holder := none
  instances := []
  answers := []

inductive Step (s : Sharing ι) : Sharing ι → Prop
  | enter {task : ι} {text : String} {rest : List String} (hfree : s.holder = none)
      (hphase : s.phase task = .outside) (hleft : s.left task = text :: rest) :
      Step s { s with
        phase := Function.update s.phase task (.looking text)
        left := Function.update s.left task rest
        holder := some task }
  | found {task : ι} {text : String} {place : Nat} (hphase : s.phase task = .looking text)
      (hplace : s.instances[place]? = some text) :
      Step s { s with
        phase := Function.update s.phase task .outside
        holder := none
        answers := s.answers ++ [⟨task, text, place⟩] }
  | missed {task : ι} {text : String} (hphase : s.phase task = .looking text) (hmissing : text ∉ s.instances) :
      Step s { s with phase := Function.update s.phase task (.missing text) }
  | added {task : ι} {text : String} (hphase : s.phase task = .missing text) :
      Step s { s with
        phase := Function.update s.phase task .outside
        holder := none
        instances := s.instances ++ [text]
        answers := s.answers ++ [⟨task, text, s.instances.length⟩] }

abbrev Reaches : Sharing ι → Sharing ι → Prop :=
  Relation.ReflTransGen Step

def answeredTo (s : Sharing ι) (task : ι) : List String :=
  (s.answers.filter fun answer => answer.task = task).map Answer.text

/-- The lock, the table and the answers agree with each other, and the answers are those of the calls that each
task has made. -/
structure Consistent (calls : ι → List String) (s : Sharing ι) : Prop where
  holder_iff : ∀ task, s.holder = some task ↔ s.phase task ≠ .outside
  not_mem_of_missing : ∀ task text, s.phase task = .missing text → text ∉ s.instances
  instances_eq : (Interner.empty.internAll (s.answers.map Answer.text)).1.texts = s.instances
  handles_eq : (Interner.empty.internAll (s.answers.map Answer.text)).2 = s.answers.map Answer.handle
  text_of_answer : ∀ answer ∈ s.answers, s.instances[answer.handle]? = some answer.text
  calls_eq : ∀ task, s.answeredTo task ++ ((s.phase task).text?.toList ++ s.left task) = calls task

variable {calls : ι → List String} {s next : Sharing ι}

theorem consistent_start (calls : ι → List String) : (start calls).Consistent calls where
  holder_iff := by simp [start]
  not_mem_of_missing := nofun
  instances_eq := rfl
  handles_eq := rfl
  text_of_answer := nofun
  calls_eq := fun _ => rfl

theorem answeredTo_concat {task other : ι} {text : String} {place : Nat} {answered : Sharing ι}
    (h : answered.answers = s.answers ++ [⟨task, text, place⟩]) :
    answered.answeredTo other = s.answeredTo other ++ if task = other then [text] else [] := by
  rw [answeredTo, h, List.filter_append, List.map_append, ← answeredTo]
  by_cases hother : task = other <;> simp [hother]

namespace Consistent

/-- While one task is in a call, all others are outside. -/
theorem outside (h : s.Consistent calls) {task other : ι} (htask : s.phase task ≠ .outside) (hne : other ≠ task) :
    s.phase other = .outside := by
  by_contra hother
  have hholder := (h.holder_iff task).mpr htask
  rw [(h.holder_iff other).mpr hother] at hholder
  exact hne (Option.some.inj hholder)

theorem enter (h : s.Consistent calls) {task : ι} {text : String} {rest : List String} (hfree : s.holder = none)
    (hphase : s.phase task = .outside) (hleft : s.left task = text :: rest) :
    Consistent calls { s with
      phase := Function.update s.phase task (.looking text)
      left := Function.update s.left task rest
      holder := some task } := by
  have houtside (other : ι) : s.phase other = .outside := by
    by_contra hother
    rw [(h.holder_iff other).mpr hother] at hfree
    cases hfree
  refine ⟨?_, ?_, h.instances_eq, h.handles_eq, h.text_of_answer, ?_⟩
  · intro other
    by_cases hother : other = task
    · simp [hother]
    · simp [hother, houtside other, Ne.symm hother]
  · intro other missing hmissing
    by_cases hother : other = task
    · simp [hother] at hmissing
    · simp [hother, houtside other] at hmissing
  · intro other
    have hcalls := h.calls_eq other
    by_cases hother : other = task
    · subst hother
      simpa [hphase, hleft, CallPhase.text?, answeredTo] using hcalls
    · simpa [hother, answeredTo] using hcalls

/-- The task that has the lock gives it up with an answer, after which all tasks are outside. -/
private theorem calls_eq_of_answer (h : s.Consistent calls) {task : ι} {text : String} {place : Nat}
    (htext : (s.phase task).text? = some text) {answered : Sharing ι}
    (hanswers : answered.answers = s.answers ++ [⟨task, text, place⟩])
    (hphase : answered.phase = Function.update s.phase task .outside) (hleft : answered.left = s.left) (other : ι) :
    answered.answeredTo other ++ ((answered.phase other).text?.toList ++ answered.left other) = calls other := by
  rw [answeredTo_concat hanswers, hphase, hleft, ← h.calls_eq other]
  by_cases hother : other = task
  · subst hother
    rw [htext]
    simp [CallPhase.text?]
  · simp [hother, Ne.symm hother]

private theorem phase_of_answer (h : s.Consistent calls) {task : ι} (htask : s.phase task ≠ .outside) (other : ι) :
    Function.update s.phase task .outside other = .outside := by
  by_cases hother : other = task
  · simp [hother]
  · simp [hother, h.outside htask hother]

theorem found (h : s.Consistent calls) {task : ι} {text : String} {place : Nat}
    (hphase : s.phase task = .looking text) (hplace : s.instances[place]? = some text) :
    Consistent calls { s with
      phase := Function.update s.phase task .outside
      holder := none
      answers := s.answers ++ [⟨task, text, place⟩] } := by
  have htask : s.phase task ≠ .outside := by simp [hphase]
  have houtside := h.phase_of_answer htask
  have hintern := Interner.intern_of_getElem? (h.instances_eq.symm ▸ hplace)
  refine ⟨?_, ?_, ?_, ?_, ?_, h.calls_eq_of_answer (by rw [hphase]; rfl) rfl rfl rfl⟩
  · simp [houtside]
  · simp [houtside]
  · rw [List.map_append, List.map_singleton, Interner.internAll_concat, hintern]
    exact h.instances_eq
  · rw [List.map_append, List.map_singleton, Interner.internAll_concat, hintern, h.handles_eq, List.map_append]
    rfl
  · intro answer hanswer
    rcases List.mem_append.mp hanswer with hanswer | hanswer
    · exact h.text_of_answer answer hanswer
    · rw [List.mem_singleton.mp hanswer]
      exact hplace

theorem missed (h : s.Consistent calls) {task : ι} {text : String} (hphase : s.phase task = .looking text)
    (hmissing : text ∉ s.instances) :
    Consistent calls { s with phase := Function.update s.phase task (.missing text) } := by
  have htask : s.phase task ≠ .outside := by simp [hphase]
  refine ⟨?_, ?_, h.instances_eq, h.handles_eq, h.text_of_answer, ?_⟩
  · intro other
    by_cases hother : other = task
    · simpa [hother] using (h.holder_iff task).mpr htask
    · simpa [hother] using h.holder_iff other
  · intro other found hfound
    by_cases hother : other = task
    · subst hother
      simp only [Function.update_self, CallPhase.missing.injEq] at hfound
      exact hfound ▸ hmissing
    · simp [hother, h.outside htask hother] at hfound
  · intro other
    have hcalls := h.calls_eq other
    by_cases hother : other = task
    · subst hother
      simpa [hphase, CallPhase.text?, answeredTo] using hcalls
    · simpa [hother, answeredTo] using hcalls

/-- The text is still missing when its instance is added: the lock was not given up since the look. -/
theorem added (h : s.Consistent calls) {task : ι} {text : String} (hphase : s.phase task = .missing text) :
    Consistent calls { s with
      phase := Function.update s.phase task .outside
      holder := none
      instances := s.instances ++ [text]
      answers := s.answers ++ [⟨task, text, s.instances.length⟩] } := by
  have htask : s.phase task ≠ .outside := by simp [hphase]
  have houtside := h.phase_of_answer htask
  have hmissing := h.not_mem_of_missing task text hphase
  rw [← h.instances_eq] at hmissing
  obtain ⟨htexts, hhandle⟩ := Interner.texts_intern_of_not_mem hmissing
  refine ⟨?_, ?_, ?_, ?_, ?_, h.calls_eq_of_answer (by rw [hphase]; rfl) rfl rfl rfl⟩
  · simp [houtside]
  · simp [houtside]
  · rw [List.map_append, List.map_singleton, Interner.internAll_concat, htexts, h.instances_eq]
  · rw [List.map_append, List.map_singleton, Interner.internAll_concat, hhandle, h.handles_eq, h.instances_eq,
      List.map_append]
    rfl
  · intro answer hanswer
    rcases List.mem_append.mp hanswer with hanswer | hanswer
    · have hplace := h.text_of_answer answer hanswer
      have hlt := (List.getElem?_eq_some_iff.mp hplace).1
      rw [List.getElem?_append_left hlt]
      exact hplace
    · rw [List.mem_singleton.mp hanswer]
      exact List.getElem?_concat_length

theorem step (h : s.Consistent calls) (hstep : Step s next) : next.Consistent calls := by
  cases hstep with
  | enter hfree hphase hleft => exact h.enter hfree hphase hleft
  | found hphase hplace => exact h.found hphase hplace
  | missed hphase hmissing => exact h.missed hphase hmissing
  | added hphase => exact h.added hphase

theorem reaches (h : s.Consistent calls) (hreaches : Reaches s next) : next.Consistent calls := by
  induction hreaches with
  | refl => exact h
  | tail _ hstep ih => exact ih.step hstep

/-- While a task is in a call or has calls left, the tasks can go on. -/
theorem exists_step (h : s.Consistent calls) {task : ι} (hleft : s.phase task ≠ .outside ∨ s.left task ≠ []) :
    ∃ next, Step s next := by
  by_cases houtside : ∀ other, s.phase other = .outside
  · have hfree : s.holder = none := by
      cases hholder : s.holder with
      | none => rfl
      | some other => exact absurd (houtside other) ((h.holder_iff other).mp hholder)
    obtain ⟨text, rest, htexts⟩ := List.exists_cons_of_ne_nil (hleft.resolve_left (by simp [houtside]))
    exact ⟨_, .enter hfree (houtside task) htexts⟩
  · obtain ⟨other, hother⟩ := not_forall.mp houtside
    cases hphase : s.phase other with
    | outside => exact absurd hphase hother
    | missing text => exact ⟨_, .added hphase⟩
    | looking text =>
      by_cases hmem : text ∈ s.instances
      · obtain ⟨place, hplace⟩ := List.mem_iff_getElem?.mp hmem
        exact ⟨_, .found hphase hplace⟩
      · exact ⟨_, .missed hphase hmem⟩

theorem nodup_instances (h : s.Consistent calls) : s.instances.Nodup := by
  rw [← h.instances_eq]
  exact (Interner.empty.internAll (s.answers.map Answer.text)).1.nodup

theorem mem_instances_iff (h : s.Consistent calls) {text : String} :
    text ∈ s.instances ↔ ∃ answer ∈ s.answers, answer.text = text := by
  rw [← h.instances_eq, Interner.mem_texts_internAll, List.mem_map]

theorem handle_eq_iff (h : s.Consistent calls) {first second : Answer ι} (hfirst : first ∈ s.answers)
    (hsecond : second ∈ s.answers) : first.handle = second.handle ↔ first.text = second.text := by
  obtain ⟨hlt, hfirstText⟩ := List.getElem?_eq_some_iff.mp (h.text_of_answer first hfirst)
  obtain ⟨hlt', hsecondText⟩ := List.getElem?_eq_some_iff.mp (h.text_of_answer second hsecond)
  rw [← hfirstText, ← hsecondText, h.nodup_instances.getElem_inj_iff]

end Consistent

theorem answers_prefix_of_step (h : Step s next) : s.answers <+: next.answers := by
  cases h with
  | enter | missed => exact List.prefix_rfl
  | found | added => exact List.prefix_append _ _

theorem answers_prefix_of_reaches (h : Reaches s next) : s.answers <+: next.answers := by
  induction h with
  | refl => exact List.prefix_rfl
  | tail _ hstep ih => exact ih.trans (answers_prefix_of_step hstep)

/-- However tasks that share a table alternate, two calls get the same instance exactly if they ask for the same
text, an instance has the text asked for, and it stays the one of its text in whatever comes after. The table
holds the texts that were asked for, each once. Each task gets its answers in the order of its calls, the tasks
can go on until all calls are answered, and all answers are those of the same calls made one after another. -/
theorem same_instance_iff_and_canonical {calls : ι → List String} {now : Sharing ι}
    (h : Reaches (start calls) now) :
    (∀ first ∈ now.answers, ∀ second ∈ now.answers, first.handle = second.handle ↔ first.text = second.text) ∧
    (∀ answer ∈ now.answers, now.instances[answer.handle]? = some answer.text) ∧
    (∀ later, Reaches now later → ∀ answer ∈ now.answers,
      later.instances[answer.handle]? = some answer.text ∧
      ∀ other ∈ later.answers, other.text = answer.text → other.handle = answer.handle) ∧
    (∀ text, text ∈ now.instances ↔ ∃ answer ∈ now.answers, answer.text = text) ∧
    (∃ table handles, Interner.empty.internAll (now.answers.map Answer.text) = (table, handles) ∧
      table.texts = now.instances ∧ handles = now.answers.map Answer.handle ∧
      table.size = (now.answers.map Answer.text).toFinset.card) ∧
    ∀ task, now.answeredTo task ++ ((now.phase task).text?.toList ++ now.left task) = calls task ∧
      (now.phase task ≠ .outside ∨ now.left task ≠ [] → ∃ next, Step now next) := by
  have hnow := (consistent_start calls).reaches h
  refine ⟨fun first hfirst second hsecond => hnow.handle_eq_iff hfirst hsecond, hnow.text_of_answer, ?_,
    fun text => hnow.mem_instances_iff, ?_, fun task => ⟨hnow.calls_eq task, hnow.exists_step⟩⟩
  · intro later hlater answer hanswer
    have hafter := hnow.reaches hlater
    have hkept := (answers_prefix_of_reaches hlater).mem hanswer
    exact ⟨hafter.text_of_answer answer hkept, fun other hother => (hafter.handle_eq_iff hother hkept).mpr⟩
  · exact ⟨_, _, rfl, hnow.instances_eq, hnow.handles_eq, Interner.size_internAll _⟩

def callsOfTwoTasks : Bool → List String
  | true => ["a", "b"]
  | false => ["b"]

/-- The other task adds the text between the two calls of the first, which therefore gets its instance. -/
theorem exists_reaches_ofTwoTasks :
    ∃ now, Reaches (start callsOfTwoTasks) now ∧ now.instances = ["a", "b"] ∧
      now.answers = [⟨true, "a", 0⟩, ⟨false, "b", 1⟩, ⟨true, "b", 1⟩] := by
  have hfirst := (Relation.ReflTransGen.refl.tail (@Step.enter Bool _ (start callsOfTwoTasks) true "a" _ rfl rfl rfl)
    |>.tail (@Step.missed Bool _ _ true "a" rfl List.not_mem_nil)).tail (@Step.added Bool _ _ true "a" rfl)
  have hother := ((hfirst.tail (@Step.enter Bool _ _ false "b" _ rfl rfl rfl)).tail
    (@Step.missed Bool _ _ false "b" rfl (by decide))).tail (@Step.added Bool _ _ false "b" rfl)
  have hlast := (hother.tail (@Step.enter Bool _ _ true "b" _ rfl rfl rfl)).tail
    (@Step.found Bool _ _ true "b" 1 rfl rfl)
  exact ⟨_, hlast, rfl, rfl⟩

theorem same_instance_iff_and_canonical_ofTwoTasks :
    ∃ now, Reaches (start callsOfTwoTasks) now ∧ now.instances = ["a", "b"] ∧
      ∀ later, Reaches now later → ∀ other ∈ later.answers, other.text = "b" → other.handle = 1 := by
  obtain ⟨now, hnow, hinstances, hanswers⟩ := exists_reaches_ofTwoTasks
  obtain ⟨_, _, hcanonical, _⟩ := same_instance_iff_and_canonical hnow
  refine ⟨now, hnow, hinstances, fun later hlater => ?_⟩
  have hanswer : ⟨true, "b", 1⟩ ∈ now.answers := by simp [hanswers]
  exact (hcanonical later hlater _ hanswer).2

end Sharing

end PageLoads
