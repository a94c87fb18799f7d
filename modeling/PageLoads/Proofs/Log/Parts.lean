import PageLoads.Proofs.Line.Faults
import PageLoads.Proofs.Log.Scan

namespace PageLoads

/-- The fault of the same line, counted on from some lines before the first. -/
def Fault.behind (before : Nat) : Fault → Fault
  | .format line cause => .format (line.map (before + ·)) cause
  | .range line cause => .range (line.map (before + ·)) cause
  | .inconsistentLog line cause => .inconsistentLog (before + line) cause
  | fault => fault

theorem Fault.behind_zero (fault : Fault) : fault.behind 0 = fault := by
  rcases fault with ⟨_ | _, _⟩ | ⟨_ | _, _⟩ | _ | _ | _ | _ | _ | _ | _ <;> simp [behind]

theorem Fault.behind_behind (first second : Nat) (fault : Fault) :
    (fault.behind second).behind first = fault.behind (first + second) := by
  rcases fault with ⟨_ | _, _⟩ | ⟨_ | _, _⟩ | _ | _ | _ | _ | _ | _ | _ <;> simp [behind, Nat.add_assoc]

theorem Fault.atLine_behind {fault : Fault} (h : fault.IsOfText) (before number : Nat) :
    fault.atLine (before + number) = (fault.atLine number).behind before := by
  cases fault <;> first | rfl | exact h.elim

theorem Fault.line?_behind (before : Nat) (fault : Fault) :
    (fault.behind before).line? = fault.line?.map (before + ·) := by
  cases fault <;> rfl

namespace LogLines

variable {σ : Type} {step : Nat → List Char → σ → Except Fault σ}

/-- The number of a line shows in the faults of a step and nowhere else. -/
def Numbers (step : Nat → List Char → σ → Except Fault σ) : Prop :=
  ∀ before number line state,
    step (before + number) line state = (step number line state).mapError (Fault.behind before)

/-- The state after the parts of a log, each with its lines numbered from one, and the fault that stopped the
reading of the first part that could not be read to its end. -/
def scanParts (step : Nat → List Char → σ → Except Fault σ) (state : σ) : List LogLines → σ × Option Fault
  | [] => (state, none)
  | part :: rest =>
    match scan step 1 state part with
    | (state, none) => scanParts step state rest
    | (state, some fault) => (state, some fault)

theorem scan_behind (hstep : Numbers step) (before number : Nat) (state : σ) (lines : LogLines) :
    scan step (before + number) state lines =
      ((scan step number state lines).1, (scan step number state lines).2.map (Fault.behind before)) := by
  induction lines generalizing number state with
  | nil => rfl
  | cons line rest ih =>
    cases line with
    | error fault => rfl
    | ok line =>
      have hline := hstep before number line state
      cases hnext : step number line state with
      | error fault =>
        rw [hnext] at hline
        simp only [scan, hline, hnext, Except.mapError, Option.map_some]
      | ok next =>
        rw [hnext] at hline
        simp only [scan, hline, hnext, Except.mapError, Nat.add_assoc, ih]

theorem scan_flatten_of_scanParts (hstep : Numbers step) {state final : σ} {parts : List LogLines}
    (h : scanParts step state parts = (final, none)) : scan step 1 state parts.flatten = (final, none) := by
  induction parts generalizing state with
  | nil => exact h
  | cons part rest ih =>
    unfold scanParts at h
    rw [List.flatten_cons, scan_append]
    rcases hpart : scan step 1 state part with ⟨between, _ | fault⟩
    · rw [hpart] at h
      have hrest := ih h
      simp only [Nat.add_comm 1, scan_behind hstep, hrest, Option.map_none]
    · rw [hpart] at h
      cases h

/-- Where a part is the first that cannot be read to its end, the parts as one log lead to the same state and
stop at the same line. -/
theorem exists_part_of_scanParts (hstep : Numbers step) {state final : σ} {parts : List LogLines} {fault : Fault}
    (h : scanParts step state parts = (final, some fault)) :
    ∃ before part after between, parts = before ++ part :: after ∧
      scanParts step state before = (between, none) ∧ scan step 1 between part = (final, some fault) ∧
      scan step 1 state parts.flatten = (final, some (fault.behind before.flatten.length)) := by
  induction parts generalizing state with
  | nil => cases h
  | cons first rest ih =>
    unfold scanParts at h
    rw [List.flatten_cons, scan_append]
    rcases hfirst : scan step 1 state first with ⟨next, _ | cause⟩
    · rw [hfirst] at h
      obtain ⟨before, part, after, between, rfl, hbefore, hpart, hwhole⟩ := ih h
      refine ⟨first :: before, part, after, between, rfl, ?_, hpart, ?_⟩
      · simpa only [scanParts, hfirst] using hbefore
      · simp only [Nat.add_comm 1, scan_behind hstep, hwhole, Option.map_some, Fault.behind_behind,
          List.flatten_cons, List.length_append]
    · rw [hfirst] at h
      cases h
      exact ⟨[], first, rest, state, rfl, rfl, hfirst, by simp [Fault.behind_zero]⟩

end LogLines

end PageLoads
