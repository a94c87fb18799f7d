import PageLoads.Proofs.Except
import PageLoads.Proofs.Line.Classified
import PageLoads.Proofs.Log.ClientLog
import PageLoads.Proofs.Log.DriverLog
import PageLoads.Proofs.Log.Incremental

namespace PageLoads

open PageLoads.Line

namespace LogLines

/-- A log with lines of some kind put in, at any places and as many as there may be. -/
inductive Interspersed (Skipped : List Char → Prop) : LogLines → LogLines → Prop where
  | nil : Interspersed Skipped [] []
  | keep {lines wider} (line : Except IoFault (List Char)) :
      Interspersed Skipped lines wider → Interspersed Skipped (line :: lines) (line :: wider)
  | put {lines wider} {line : List Char} :
      Skipped line → Interspersed Skipped lines wider → Interspersed Skipped lines (.ok line :: wider)

/-- Faults of two readings, of a log and of one with lines put in, that were met at the same line. They differ at most
in the number of the line, and each names the number in its own log, unless the line could not be read at all. -/
def MetAlike (Skipped : List Char → Prop) (lines wider : LogLines) (fault moved : Fault) : Prop :=
  ∃ before line after before' after', lines = before ++ line :: after ∧ wider = before' ++ line :: after' ∧
    Interspersed Skipped before before' ∧ Interspersed Skipped after after' ∧
    moved = fault.behind (before'.length - before.length) ∧
    ((∃ cause, line = .error cause ∧ fault = .io cause ∧ moved = .io cause) ∨
      fault.line? = some (before.length + 1) ∧ moved.line? = some (before'.length + 1))

/-- A reading for which lines of some kind might as well not be there. -/
structure Unaffected {α : Type} (Skipped : List Char → Prop) (read : LogLines → Except Fault α) : Prop where
  ok_iff {lines wider : LogLines} (h : Interspersed Skipped lines wider) (result : α) :
    read wider = .ok result ↔ read lines = .ok result
  error_of {lines wider : LogLines} (h : Interspersed Skipped lines wider) {fault : Fault}
    (hfault : read lines = .error fault) :
    ∃ moved, read wider = .error moved ∧ MetAlike Skipped lines wider fault moved

/-- The number of a line is named in every fault of a step, and shows nowhere else. -/
structure NamesLines {σ : Type} (step : Nat → List Char → σ → Except Fault σ) : Prop where
  numbers : Numbers step
  line?_eq {number : Nat} {line : List Char} {state : σ} {fault : Fault}
    (h : step number line state = .error fault) : fault.line? = some number

/-- A step leaves the state as it is at lines of some kind. -/
def Skips {σ : Type} (Skipped : List Char → Prop) (step : Nat → List Char → σ → Except Fault σ) : Prop :=
  ∀ number line state, Skipped line → step number line state = .ok state

variable {σ : Type} {step : Nat → List Char → σ → Except Fault σ} {Skipped : List Char → Prop}
  {lines wider before after : LogLines} {state final : σ} {number : Nat} {fault : Fault}

theorem Interspersed.length_le (h : Interspersed Skipped lines wider) : lines.length ≤ wider.length := by
  induction h with
  | nil => exact Nat.le_refl 0
  | keep line _ ih => exact Nat.succ_le_succ ih
  | put _ _ ih => exact Nat.le_succ_of_le ih

theorem Interspersed.split {line : Except IoFault (List Char)}
    (h : Interspersed Skipped (before ++ line :: after) wider) :
    ∃ before' after', wider = before' ++ line :: after' ∧
      Interspersed Skipped before before' ∧ Interspersed Skipped after after' := by
  generalize hlines : before ++ line :: after = lines at h
  induction h generalizing before with
  | nil => simp at hlines
  | @keep rest wider first h ih =>
    cases before with
    | nil =>
      obtain ⟨rfl, rfl⟩ := List.cons.inj hlines
      exact ⟨[], wider, rfl, .nil, h⟩
    | cons other before =>
      obtain ⟨rfl, hrest⟩ := List.cons.inj hlines
      obtain ⟨before', after', rfl, hbefore, hafter⟩ := ih hrest
      exact ⟨other :: before', after', rfl, .keep other hbefore, hafter⟩
  | @put rest wider skipped hskipped _ ih =>
    obtain ⟨before', after', rfl, hbefore, hafter⟩ := ih hlines
    exact ⟨.ok skipped :: before', after', rfl, .put hskipped hbefore, hafter⟩

theorem step_eq_ok_iff_of_numbers (hstep : Numbers step) (number other : Nat) (line : List Char) (state next : σ) :
    step number line state = .ok next ↔ step other line state = .ok next := by
  have hzero (n : Nat) : step n line state = .ok next ↔ step 0 line state = .ok next := by
    have hbehind := hstep n 0 line state
    rw [Nat.add_zero] at hbehind
    rw [hbehind, Except.mapError_eq_ok_iff]
  exact (hzero number).trans (hzero other).symm

theorem scan_interspersed_eq_none (hstep : Numbers step) (hskips : Skips Skipped step)
    (h : Interspersed Skipped lines wider) (hscan : scan step number state lines = (final, none)) (other : Nat) :
    scan step other state wider = (final, none) := by
  induction h generalizing number other state with
  | nil => exact hscan
  | keep line _ ih =>
    cases line with
    | error cause => cases hscan
    | ok line =>
      cases hnext : step number line state with
      | error cause => simp [scan, hnext] at hscan
      | ok next =>
        have hsame := (step_eq_ok_iff_of_numbers hstep number other line state next).mp hnext
        simp only [scan, hnext] at hscan
        simp only [scan, hsame]
        exact ih hscan (other + 1)
  | put hskipped _ ih =>
    simp only [scan, hskips other _ state hskipped]
    exact ih hscan (other + 1)

theorem exists_stop_of_scan (h : scan step number state lines = (final, some fault)) :
    ∃ before line after, lines = before ++ line :: after ∧ scan step number state before = (final, none) ∧
      ((∃ cause, line = .error cause ∧ fault = .io cause) ∨
        ∃ text, line = .ok text ∧ step (number + before.length) text final = .error fault) := by
  induction lines generalizing number state with
  | nil => cases h
  | cons line rest ih =>
    cases line with
    | error cause =>
      cases h
      exact ⟨[], .error cause, rest, rfl, rfl, Or.inl ⟨cause, rfl, rfl⟩⟩
    | ok line =>
      cases hnext : step number line state with
      | error cause =>
        simp only [scan, hnext] at h
        cases h
        exact ⟨[], .ok line, rest, rfl, rfl, Or.inr ⟨line, rfl, hnext⟩⟩
      | ok next =>
        simp only [scan, hnext] at h
        obtain ⟨before, stop, after, rfl, hbefore, hstop⟩ := ih h
        refine ⟨.ok line :: before, stop, after, rfl, ?_, ?_⟩
        · simpa only [scan, hnext] using hbefore
        · rwa [List.length_cons, Nat.add_comm before.length, ← Nat.add_assoc]

theorem scan_interspersed_eq_some (hstep : NamesLines step) (hskips : Skips Skipped step)
    (h : Interspersed Skipped lines wider) (hscan : scan step 1 state lines = (final, some fault)) :
    ∃ moved, scan step 1 state wider = (final, some moved) ∧ MetAlike Skipped lines wider fault moved := by
  obtain ⟨before, line, after, rfl, hbefore, hstop⟩ := exists_stop_of_scan hscan
  obtain ⟨before', after', rfl, hinBefore, hinAfter⟩ := h.split
  have hbefore' := scan_interspersed_eq_none hstep.numbers hskips hinBefore hbefore 1
  have hlength := hinBefore.length_le
  refine ⟨fault.behind (before'.length - before.length), ?_, before, line, after, before', after', rfl, rfl,
    hinBefore, hinAfter, rfl, ?_⟩
  · simp only [scan_append, hbefore']
    rcases hstop with ⟨cause, rfl, rfl⟩ | ⟨text, rfl, hrefused⟩
    · rfl
    · have hnumber : 1 + before'.length = before'.length - before.length + (1 + before.length) := by omega
      have hmoved : step (1 + before'.length) text final =
          .error (fault.behind (before'.length - before.length)) := by
        rw [hnumber, hstep.numbers, hrefused, Except.mapError_error]
      simp only [scan, hmoved]
  · rcases hstop with ⟨cause, rfl, rfl⟩ | ⟨text, rfl, hrefused⟩
    · exact Or.inl ⟨cause, rfl, rfl, rfl⟩
    · have hline := hstep.line?_eq hrefused
      rw [Nat.add_comm] at hline
      refine Or.inr ⟨hline, ?_⟩
      rw [Fault.line?_behind, hline, Option.map_some, ← Nat.add_assoc, Nat.sub_add_cancel hlength]

/-- The reading of a log by a step that skips some lines is unaffected by them. -/
theorem unaffected_fold {α : Type} (hstep : NamesLines step) (hskips : Skips Skipped step) (start : σ)
    (result : σ → α) : Unaffected Skipped fun lines => (fold step start lines).map result where
  ok_iff h found := by
    simp only [Except.map_eq_ok_iff, fold_eq_ok_iff]
    refine exists_congr fun final => and_congr_left fun _ => ?_
    constructor
    · intro hwider
      rcases hscan : scan step 1 start _ with ⟨reached, _ | fault⟩
      · rw [← hwider]
        exact (scan_interspersed_eq_none hstep.numbers hskips h hscan 1).symm
      · obtain ⟨moved, hmoved, _⟩ := scan_interspersed_eq_some hstep hskips h hscan
        rw [hwider] at hmoved
        cases hmoved
    · intro hlines
      exact scan_interspersed_eq_none hstep.numbers hskips h hlines 1
  error_of h fault hfault := by
    obtain ⟨reached, hscan⟩ := fold_eq_error_iff.mp (Except.map_eq_error_iff.mp hfault)
    obtain ⟨moved, hmoved, hmet⟩ := scan_interspersed_eq_some hstep hskips h hscan
    exact ⟨moved, Except.map_eq_error_iff.mpr (fold_eq_error_iff.mpr ⟨reached, hmoved⟩), hmet⟩

theorem Interspersed.refl (lines : LogLines) : Interspersed Skipped lines lines := by
  induction lines with
  | nil => exact .nil
  | cons line rest ih => exact .keep line ih

theorem Interspersed.append_left (before : LogLines) (h : Interspersed Skipped lines wider) :
    Interspersed Skipped (before ++ lines) (before ++ wider) := by
  induction before with
  | nil => exact h
  | cons line rest ih => exact .keep line ih

theorem interspersed_ofContent {text : String} (hfeed : '\n' ∉ text.toList) (hskipped : Skipped (Text.trim text.toList))
    {front : Bytes} (hfront : ∀ byte ∈ front.getLast?, byte = Text.lineFeed) (back : Bytes) :
    Interspersed Skipped (ofContent (.plain (front ++ back)))
      (ofContent (.plain (front ++ (Text.encode text ++ Text.lineFeed :: back)))) := by
  have hline : Text.lineFeed ∉ Text.encode text := fun hmem => hfeed (Text.lineFeed_mem_encode_iff.mp hmem)
  have hback : Interspersed Skipped (ofContent (.plain back))
      (ofContent (.plain (Text.encode text ++ Text.lineFeed :: back))) := by
    have hput : ofContent (.plain (Text.encode text ++ Text.lineFeed :: back)) =
        .ok (Text.trim text.toList) :: ofContent (.plain back) := by
      rw [ofContent_plain, ofContent_plain, Text.splitLines_append_lineFeed hline, List.map_cons]
      simp [ofLine]
    rw [hput]
    exact .put hskipped (.refl _)
  rcases List.eq_nil_or_concat front with rfl | ⟨init, last, rfl⟩
  · exact hback
  · obtain rfl : last = Text.lineFeed := hfront last (by simp)
    rw [List.concat_eq_append, ofContent_append, ofContent_append]
    exact hback.append_left _

end LogLines

theorem Tracker.advance_behind (before number : Nat) (t : Tracker) (line : DriverLine) :
    t.advance (before + number) line = (t.advance number line).mapError (Fault.behind before) := by
  cases line with
  | start time url => rfl
  | domEvent time =>
    simp only [advance, domEvent]
    split
    · rfl
    · split <;> rfl
  | result result =>
    simp only [advance, finish]
    split <;> rfl

theorem DriverLog.namesLines_step : LogLines.NamesLines step where
  numbers before number line t := by
    unfold step
    cases hline : DriverLine.ofLine line with
    | error cause =>
      have htext := DriverLine.failsByText_ofLine line cause hline
      simp only [Fault.atLine_behind htext, Except.mapError_error]
    | ok found =>
      cases found with
      | none => rfl
      | some found => exact Tracker.advance_behind before number t found
  line?_eq {number line t fault} h := by
    unfold step at h
    split at h
    · rename_i cause hline
      cases h
      exact Fault.line?_atLine (DriverLine.failsByText_ofLine _ cause hline) number
    · cases h
    · obtain ⟨cause, rfl⟩ := Tracker.exists_inconsistency_of_advance h
      rfl

namespace ProxyLog

theorem namesLines_clientStep : LogLines.NamesLines clientStep where
  numbers := numbers_clientStep
  line?_eq {number line reports fault} h := by
    unfold clientStep at h
    split at h
    · rename_i cause hline
      cases h
      exact Fault.line?_atLine (ProxyLine.failsByText_ofLine _ cause hline) number
    · split at h <;> cases h
      rfl
    · cases h

theorem namesLines_exitStep : LogLines.NamesLines exitStep where
  numbers before number line reports := by
    unfold exitStep
    cases hline : ProxyLine.ofLine line with
    | error cause =>
      have htext := ProxyLine.failsByText_ofLine line cause hline
      simp only [Fault.atLine_behind htext, Except.mapError_error]
    | ok found => rcases found with _ | ⟨report⟩ | ⟨report⟩ <;> rfl
  line?_eq {number line reports fault} h := by
    unfold exitStep at h
    split at h
    · rename_i cause hline
      cases h
      exact Fault.line?_atLine (ProxyLine.failsByText_ofLine _ cause hline) number
    · cases h
    · cases h

end ProxyLog

def Line.DriverLine.Unrecognised (line : List Char) : Prop :=
  DriverLine.ofLine line = .ok none

def Line.ProxyLine.Unrecognised (line : List Char) : Prop :=
  ProxyLine.ofLine line = .ok none

theorem Line.DriverLine.unrecognised_iff (line : List Char) :
    DriverLine.Unrecognised line ↔ ∀ time message, split? line = some (time, message) →
      ∀ pattern ∈ [startLoading, domLoadEvent, loadResult], pattern.fields? message = none := by
  rw [Unrecognised, isReaderOf_ofLine.skips_iff]
  simp [forms, startForm, domEventForm, resultForm]

theorem Line.ProxyLine.unrecognised_iff (line : List Char) :
    ProxyLine.Unrecognised line ↔ ∀ time message, split? line = some (time, message) →
      ∀ pattern ∈ [periodicStats, handlerStats], pattern.fields? message = none := by
  rw [Unrecognised, isReaderOf_ofLine.skips_iff]
  simp [forms, formOf]

theorem DriverLog.skips_step : LogLines.Skips DriverLine.Unrecognised step := by
  intro number line t h
  rw [DriverLine.Unrecognised] at h
  simp only [step, h]

theorem ProxyLog.skips_clientStep : LogLines.Skips ProxyLine.Unrecognised clientStep := by
  intro number line reports h
  rw [ProxyLine.Unrecognised] at h
  simp only [clientStep, h]

theorem ProxyLog.skips_exitStep : LogLines.Skips ProxyLine.Unrecognised exitStep := by
  intro number line reports h
  rw [ProxyLine.Unrecognised] at h
  simp only [exitStep, h]

theorem ProxyLog.appendClient_interspersed {start : List Report} {lines wider : LogLines}
    (h : LogLines.Interspersed ProxyLine.Unrecognised lines wider) :
    (appendClient start wider).1 = (appendClient start lines).1 ∧
    ((appendClient start lines).2 = none → (appendClient start wider).2 = none) ∧
    ∀ fault, (appendClient start lines).2 = some fault → ∃ moved, (appendClient start wider).2 = some moved ∧
      LogLines.MetAlike ProxyLine.Unrecognised lines wider fault moved := by
  unfold appendClient
  rcases hscan : LogLines.scan clientStep 1 start lines with ⟨final, _ | fault⟩
  · rw [LogLines.scan_interspersed_eq_none numbers_clientStep skips_clientStep h hscan 1]
    exact ⟨rfl, fun _ => rfl, nofun⟩
  · obtain ⟨moved, hmoved, hmet⟩ :=
      LogLines.scan_interspersed_eq_some namesLines_clientStep skips_clientStep h hscan
    rw [hmoved]
    refine ⟨rfl, nofun, ?_⟩
    rintro _ ⟨⟩
    exact ⟨moved, rfl, hmet⟩

/-- Lines that are no driver lines may be put anywhere into a driver log, and lines that are no proxy lines into the
log of a client or of an exit relay: the same is read, or the same fault is met at the same line and names the new
number of this line. A line is of this kind if its message has none of the forms of the reader, whatever its time, and
it is put into the log by putting it into the file. -/
theorem unaffected_by_unrecognised (host : String) (table : Interner) :
    LogLines.Unaffected DriverLine.Unrecognised (DriverLog.read host table) ∧
    LogLines.Unaffected ProxyLine.Unrecognised ProxyLog.readClient ∧
    LogLines.Unaffected ProxyLine.Unrecognised ProxyLog.readExit ∧
    (∀ start lines wider, LogLines.Interspersed ProxyLine.Unrecognised lines wider →
      (ProxyLog.appendClient start wider).1 = (ProxyLog.appendClient start lines).1 ∧
      ((ProxyLog.appendClient start lines).2 = none → (ProxyLog.appendClient start wider).2 = none) ∧
      ∀ fault, (ProxyLog.appendClient start lines).2 = some fault →
        ∃ moved, (ProxyLog.appendClient start wider).2 = some moved ∧
          LogLines.MetAlike ProxyLine.Unrecognised lines wider fault moved) ∧
    (∀ line, DriverLine.Unrecognised line ↔ ∀ time message, split? line = some (time, message) →
      ∀ pattern ∈ [startLoading, domLoadEvent, loadResult], pattern.fields? message = none) ∧
    (∀ line, ProxyLine.Unrecognised line ↔ ∀ time message, split? line = some (time, message) →
      ∀ pattern ∈ [periodicStats, handlerStats], pattern.fields? message = none) ∧
    ∀ (Skipped : List Char → Prop) (text : String) (front back : Bytes), '\n' ∉ text.toList →
      Skipped (Text.trim text.toList) → (∀ byte ∈ front.getLast?, byte = Text.lineFeed) →
      LogLines.Interspersed Skipped (LogLines.ofContent (.plain (front ++ back)))
        (LogLines.ofContent (.plain (front ++ (Text.encode text ++ Text.lineFeed :: back)))) := by
  have hdriver := LogLines.unaffected_fold DriverLog.namesLines_step DriverLog.skips_step (Tracker.new host table)
    fun tracker => (tracker.loads, tracker.table)
  have hclient := LogLines.unaffected_fold ProxyLog.namesLines_clientStep ProxyLog.skips_clientStep [] id
  have hexit := LogLines.unaffected_fold ProxyLog.namesLines_exitStep ProxyLog.skips_exitStep [] id
  simp only [Except.map_id, id] at hclient hexit
  refine ⟨hdriver, hclient, hexit, ?_, DriverLine.unrecognised_iff, ProxyLine.unrecognised_iff, ?_⟩
  · intro start lines wider h
    exact ProxyLog.appendClient_interspersed h
  · intro Skipped text front back hfeed hskipped hfront
    exact LogLines.interspersed_ofContent hfeed hskipped hfront back

end PageLoads
