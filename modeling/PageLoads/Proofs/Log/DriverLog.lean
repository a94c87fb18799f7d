import PageLoads.Log.DriverLog
import PageLoads.Proofs.Line.Faults
import PageLoads.Proofs.Log.Scan
import PageLoads.Proofs.Tracker.History

namespace PageLoads.DriverLog

open PageLoads.Line
open PageLoads.Line.DriverLine (result? Admissible InOrder)

def recognise (line : String) : Except Fault (Option DriverLine) :=
  DriverLine.ofLine (Text.trim line.toList)

def recognised (lines : List String) : List DriverLine :=
  lines.filterMap fun line => (recognise line).toOption.join

/-- Every line of a log can be read, and the driver lines among them are in order. -/
structure Sound (lines : List String) : Prop where
  readable : ∀ line ∈ lines, ∃ found, recognise line = .ok found
  inOrder : InOrder (recognised lines)

/-- A line is in place behind others if it can be read and, where it is a driver line, may follow the
driver lines among them. -/
def InPlace (before : List String) (line : String) : Prop :=
  ∃ found, recognise line = .ok found ∧ ∀ driverLine, found = some driverLine →
    Admissible (recognised before) driverLine

/-- A line out of place, and the fault raised for it: that of reading the line, which gets the number of
the line, or an inconsistency at this number. -/
def Refused (before : List String) (line : String) (fault : Fault) : Prop :=
  (∃ cause, recognise line = .error cause ∧ fault = cause.atLine (before.length + 1)) ∨
    ∃ found cause, recognise line = .ok (some found) ∧ ¬ Admissible (recognised before) found ∧
      fault = .inconsistentLog (before.length + 1) cause

variable {host : String} {table : Interner} {before : List String} {t next : Tracker}

theorem recognised_concat {line : String} {found : Option DriverLine} (h : recognise line = .ok found) :
    recognised (before ++ [line]) = recognised before ++ found.toList := by
  cases found <;> simp [recognised, h, Except.toOption]

theorem sound_concat_iff {line : String} : Sound (before ++ [line]) ↔ Sound before ∧ InPlace before line := by
  constructor
  · rintro ⟨hreadable, hinOrder⟩
    obtain ⟨found, hfound⟩ := hreadable line (by simp)
    rw [recognised_concat hfound] at hinOrder
    have hbefore : ∀ line ∈ before, ∃ found, recognise line = .ok found := fun line hline =>
      hreadable line (List.mem_append_left _ hline)
    cases found with
    | none =>
      rw [Option.toList_none, List.append_nil] at hinOrder
      exact ⟨⟨hbefore, hinOrder⟩, none, hfound, nofun⟩
    | some driverLine =>
      obtain ⟨hinOrder, hadmissible⟩ := DriverLine.inOrder_concat_iff.mp hinOrder
      refine ⟨⟨hbefore, hinOrder⟩, some driverLine, hfound, ?_⟩
      intro other hother
      cases hother
      exact hadmissible
  · rintro ⟨⟨hreadable, hinOrder⟩, found, hfound, hadmissible⟩
    constructor
    · intro other hother
      rcases List.mem_append.mp hother with hother | hother
      · exact hreadable other hother
      · rw [List.mem_singleton.mp hother]
        exact ⟨found, hfound⟩
    · rw [recognised_concat hfound]
      cases found with
      | none => simpa using hinOrder
      | some driverLine => exact DriverLine.inOrder_concat_iff.mpr ⟨hinOrder, hadmissible driverLine rfl⟩

theorem step_eq_ok_iff {number : Nat} {line : String} :
    step number (Text.trim line.toList) t = .ok next ↔
      (recognise line = .ok none ∧ next = t) ∨
        ∃ found, recognise line = .ok (some found) ∧ t.advance number found = .ok next := by
  unfold step recognise
  rcases DriverLine.ofLine (Text.trim line.toList) with fault | _ | found <;> simp [eq_comm]

/-- The step of the reading takes exactly the lines in place. -/
theorem exists_step_iff (h : t.Follows host (recognised before)) {number : Nat} {line : String} :
    (∃ next, step number (Text.trim line.toList) t = .ok next) ↔ InPlace before line := by
  simp only [step_eq_ok_iff]
  constructor
  · rintro ⟨next, ⟨hnone, _⟩ | ⟨found, hfound, hnext⟩⟩
    · exact ⟨none, hnone, nofun⟩
    · refine ⟨some found, hfound, ?_⟩
      intro other hother
      cases hother
      exact (h.exists_advance_iff _ _).mp ⟨next, hnext⟩
  · rintro ⟨found, hfound, hadmissible⟩
    cases found with
    | none => exact ⟨t, Or.inl ⟨hfound, rfl⟩⟩
    | some driverLine =>
      obtain ⟨next, hnext⟩ := (h.exists_advance_iff number driverLine).mpr (hadmissible driverLine rfl)
      exact ⟨next, Or.inr ⟨driverLine, hfound, hnext⟩⟩

theorem follows_of_step (h : t.Follows host (recognised before)) {number : Nat} {line : String}
    (hstep : step number (Text.trim line.toList) t = .ok next) :
    next.Follows host (recognised (before ++ [line])) := by
  rcases step_eq_ok_iff.mp hstep with ⟨hnone, rfl⟩ | ⟨found, hfound, hnext⟩
  · rw [recognised_concat hnone, Option.toList_none, List.append_nil]
    exact h
  · rw [recognised_concat hfound]
    exact h.advance hnext

theorem refused_of_step (h : t.Follows host (recognised before)) {line : String} {fault : Fault}
    (hstep : step (1 + before.length) (Text.trim line.toList) t = .error fault) :
    Refused before line fault ∧ fault.line? = some (before.length + 1) := by
  rw [Nat.add_comm] at hstep
  cases hline : recognise line with
  | error cause =>
    have hfault : fault = cause.atLine (before.length + 1) := by
      unfold recognise at hline
      simpa [step, hline, eq_comm] using hstep
    refine ⟨Or.inl ⟨cause, hline, hfault⟩, ?_⟩
    rw [hfault]
    exact Fault.line?_atLine (DriverLine.failsByText_ofLine _ cause hline) _
  | ok found =>
    cases found with
    | none =>
      have hok : step (before.length + 1) (Text.trim line.toList) t = .ok t :=
        step_eq_ok_iff.mpr (Or.inl ⟨hline, rfl⟩)
      rw [hok] at hstep
      cases hstep
    | some driverLine =>
      have hadvance : t.advance (before.length + 1) driverLine = .error fault := by
        unfold recognise at hline
        simpa [step, hline] using hstep
      obtain ⟨cause, rfl⟩ := Tracker.exists_inconsistency_of_advance hadvance
      refine ⟨Or.inr ⟨driverLine, cause, hline, ?_, rfl⟩, rfl⟩
      intro hadmissible
      obtain ⟨next, hnext⟩ := (h.exists_advance_iff (before.length + 1) driverLine).mpr hadmissible
      rw [hnext] at hadvance
      cases hadvance

/-- The run of the reading: where all lines were taken, the tracker follows the driver lines among them,
and this is the case exactly if the log is sound. -/
theorem scan_follows_and_sound (host : String) (table : Interner) (lines : List String) :
    (∀ t, LogLines.scan step 1 (Tracker.new host table) (.ofTexts lines) = (t, none) →
      t.Follows host (recognised lines)) ∧
    ((∃ t, LogLines.scan step 1 (Tracker.new host table) (.ofTexts lines) = (t, none)) ↔ Sound lines) := by
  induction lines using List.reverseRecOn with
  | nil =>
    refine ⟨?_, fun _ => ⟨nofun, DriverLine.inOrder_nil⟩, fun _ => ⟨_, rfl⟩⟩
    intro t ht
    cases ht
    exact Tracker.follows_new host table
  | append_singleton before line ih =>
    obtain ⟨ihFollows, ihSound⟩ := ih
    simp only [LogLines.scan_ofTexts_concat_eq_none_iff, sound_concat_iff, ← ihSound]
    constructor
    · rintro next ⟨t, ht, hstep⟩
      exact follows_of_step (ihFollows t ht) hstep
    · constructor
      · rintro ⟨next, t, ht, hstep⟩
        exact ⟨⟨t, ht⟩, (exists_step_iff (ihFollows t ht)).mp ⟨next, hstep⟩⟩
      · rintro ⟨⟨t, ht⟩, hline⟩
        obtain ⟨next, hstep⟩ := (exists_step_iff (ihFollows t ht)).mpr hline
        exact ⟨next, t, ht, hstep⟩

theorem read_eq_ok_iff {lines : LogLines} {loads : List PageLoad} {after : Interner} :
    read host table lines = .ok (loads, after) ↔
      ∃ t, LogLines.scan step 1 (Tracker.new host table) lines = (t, none) ∧
        t.loads = loads ∧ t.table = after := by
  simp only [read, ← LogLines.fold_eq_ok_iff]
  cases LogLines.fold step (Tracker.new host table) lines <;> simp [Except.map]

theorem read_eq_error_iff {lines : LogLines} {fault : Fault} :
    read host table lines = .error fault ↔
      ∃ t, LogLines.scan step 1 (Tracker.new host table) lines = (t, some fault) := by
  simp only [read, ← LogLines.fold_eq_error_iff]
  cases LogLines.fold step (Tracker.new host table) lines <;> simp [Except.map]

/-- A driver log is accepted exactly if it is sound, and then there is one record for each of its result
lines, in their order, with what the line says. Any other log is refused at its first line that is out of
place behind the lines before it, and the fault carries the number of this line. -/
theorem read_ok_iff_sound (host : String) (table : Interner) (lines : List String) :
    ((∃ loads after, read host table (.ofTexts lines) = .ok (loads, after)) ↔ Sound lines) ∧
    (∀ loads after, read host table (.ofTexts lines) = .ok (loads, after) →
      List.Forall₂ (PageLoad.Records host) ((recognised lines).filterMap result?) loads) ∧
    (∀ fault, read host table (.ofTexts lines) = .error fault →
      ∃ before line after, lines = before ++ line :: after ∧ Sound before ∧ Refused before line fault ∧
        fault.line? = some (before.length + 1)) := by
  obtain ⟨hfollows, hsound⟩ := scan_follows_and_sound host table lines
  refine ⟨?_, ?_, ?_⟩
  · rw [← hsound]
    constructor
    · rintro ⟨loads, after, h⟩
      obtain ⟨t, ht, _⟩ := read_eq_ok_iff.mp h
      exact ⟨t, ht⟩
    · rintro ⟨t, ht⟩
      exact ⟨t.loads, t.table, read_eq_ok_iff.mpr ⟨t, ht, rfl, rfl⟩⟩
  · intro loads after h
    obtain ⟨t, ht, rfl, _⟩ := read_eq_ok_iff.mp h
    exact (hfollows t ht).loads_record
  · intro fault h
    obtain ⟨t, hscan⟩ := read_eq_error_iff.mp h
    obtain ⟨before, line, after, hsplit, hbefore, hrefused⟩ :=
      LogLines.exists_refused_of_scan_ofTexts hscan
    obtain ⟨hfollowsBefore, hsoundBefore⟩ := scan_follows_and_sound host table before
    obtain ⟨hline, hnumber⟩ := refused_of_step (hfollowsBefore t hbefore) hrefused
    exact ⟨before, line, after, hsplit, hsoundBefore.mp ⟨t, hbefore⟩, hline, hnumber⟩

end PageLoads.DriverLog
