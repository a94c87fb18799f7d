import Mathlib.Data.List.Induction
import PageLoads.Log.Lines
import PageLoads.Proofs.Text.Utf8

/-!
# Scanning logs

How a reading of lines depends on its parts. A reading of a log that is cut in two goes on from the state
and the line number that the first part leaves, so what holds of the state after all lines follows by
adding lines at the end, and a reading that stops does so at one line.
-/

namespace PageLoads.LogLines

/-- The log of some lines of text, trimmed as every reader trims them. -/
def ofTexts (lines : List String) : LogLines :=
  (lines.map fun line => Text.trim line.toList).map .ok

def bytesOfTexts (lines : List String) : Bytes :=
  lines.flatMap fun line => Text.encode line ++ [Text.lineFeed]

theorem ofContent_bytesOfTexts {lines : List String} (hlines : ∀ line ∈ lines, '\n' ∉ line.toList) :
    ofContent (.plain (bytesOfTexts lines)) = ofTexts lines := by
  rw [ofContent_plain]
  induction lines with
  | nil => rfl
  | cons line rest ih =>
    have hline : Text.lineFeed ∉ Text.encode line := fun hmem =>
      hlines line List.mem_cons_self (Text.lineFeed_mem_encode_iff.mp hmem)
    have hrest := ih fun other hother => hlines other (List.mem_cons_of_mem _ hother)
    have hbytes : bytesOfTexts (line :: rest) =
        Text.encode line ++ Text.lineFeed :: bytesOfTexts rest := by
      simp [bytesOfTexts]
    rw [hbytes, Text.splitLines_append_lineFeed hline, List.map_cons, hrest]
    simp [ofLine, ofTexts]

variable {σ : Type} {step : Nat → List Char → σ → Except Fault σ}

/-- The second part of a log is read from the state that the first part leaves, its lines numbered
on. A fault of the first part stops the reading there. -/
theorem scan_append (number : Nat) (state : σ) (first second : LogLines) :
    scan step number state (first ++ second) =
      match scan step number state first with
      | (state, none) => scan step (number + first.length) state second
      | (state, some fault) => (state, some fault) := by
  induction first generalizing number state with
  | nil => simp [scan]
  | cons line rest ih =>
    cases line with
    | error fault => rfl
    | ok line =>
      simp only [List.cons_append, scan]
      cases step number line state with
      | error fault => rfl
      | ok next =>
        have hnumber : number + 1 + rest.length = number + (rest.length + 1) := by omega
        simp only [ih, List.length_cons, hnumber]

/-- What every step keeps holds of the state after any lines, also after those before a fault. -/
theorem scan_preserves {P : σ → Prop}
    (hstep : ∀ {number : Nat} {line : List Char} {state next : σ}, step number line state = .ok next →
      P state → P next)
    {number : Nat} {state : σ} (h : P state) (lines : LogLines) : P (scan step number state lines).1 := by
  induction lines generalizing number state with
  | nil => exact h
  | cons line rest ih =>
    cases line with
    | error fault => exact h
    | ok line =>
      cases hline : step number line state with
      | error fault => simpa only [scan, hline] using h
      | ok next =>
        have hrest : P (scan step (number + 1) next rest).1 := ih (hstep hline h)
        simpa only [scan, hline] using hrest

theorem scan_concat_eq_none_iff {number : Nat} {state final : σ} {lines : LogLines} {line : List Char} :
    scan step number state (lines ++ [.ok line]) = (final, none) ↔
      ∃ between, scan step number state lines = (between, none) ∧
        step (number + lines.length) line between = .ok final := by
  rw [scan_append]
  rcases scan step number state lines with ⟨between, _ | fault⟩
  · simp only [scan, Prod.mk.injEq, and_true, exists_eq_left']
    cases step (number + lines.length) line between <;> simp
  · simp

/-- A reading of readable lines that stops does so at one line: the lines before it are read, and the
step refuses it in the state they lead to. -/
theorem exists_refused_of_scan {number : Nat} {state final : σ} {lines : List (List Char)} {fault : Fault}
    (h : scan step number state (lines.map .ok) = (final, some fault)) :
    ∃ before line after, lines = before ++ line :: after ∧
      scan step number state (before.map .ok) = (final, none) ∧
      step (number + before.length) line final = .error fault := by
  induction lines generalizing number state with
  | nil => simp [scan] at h
  | cons line rest ih =>
    simp only [List.map_cons, scan] at h
    cases hstep : step number line state with
    | error cause =>
      simp only [hstep, Prod.mk.injEq, Option.some.injEq] at h
      obtain ⟨rfl, rfl⟩ := h
      exact ⟨[], line, rest, rfl, rfl, hstep⟩
    | ok next =>
      simp only [hstep] at h
      obtain ⟨before, refused, after, rfl, hbefore, hrefused⟩ := ih h
      refine ⟨line :: before, refused, after, rfl, ?_, ?_⟩
      · simpa only [List.map_cons, scan, hstep] using hbefore
      · have hnumber : number + (line :: before).length = number + 1 + before.length := by
          simp only [List.length_cons]
          omega
        rw [hnumber]
        exact hrefused

theorem scan_ofTexts_concat_eq_none_iff {number : Nat} {state final : σ} {lines : List String} {line : String} :
    scan step number state (ofTexts (lines ++ [line])) = (final, none) ↔
      ∃ between, scan step number state (ofTexts lines) = (between, none) ∧
        step (number + lines.length) (Text.trim line.toList) between = .ok final := by
  have hconcat : ofTexts (lines ++ [line]) = ofTexts lines ++ [.ok (Text.trim line.toList)] := by
    simp [ofTexts]
  rw [hconcat, scan_concat_eq_none_iff]
  simp [ofTexts]

theorem exists_refused_of_scan_ofTexts {number : Nat} {state final : σ} {lines : List String} {fault : Fault}
    (h : scan step number state (ofTexts lines) = (final, some fault)) :
    ∃ before line after, lines = before ++ line :: after ∧
      scan step number state (ofTexts before) = (final, none) ∧
      step (number + before.length) (Text.trim line.toList) final = .error fault := by
  obtain ⟨before, line, after, hsplit, hbefore, hrefused⟩ := exists_refused_of_scan h
  obtain ⟨texts, rest, rfl, rfl, hrest⟩ := List.map_eq_append_iff.mp hsplit
  obtain ⟨text, texts', rfl, rfl, rfl⟩ := List.map_eq_cons_iff.mp hrest
  exact ⟨texts, text, texts', rfl, hbefore, by simpa using hrefused⟩

theorem fold_eq_ok_iff {state final : σ} {lines : LogLines} :
    fold step state lines = .ok final ↔ scan step 1 state lines = (final, none) := by
  unfold fold
  rcases scan step 1 state lines with ⟨reached, _ | fault⟩ <;> simp

theorem fold_eq_error_iff {state : σ} {lines : LogLines} {fault : Fault} :
    fold step state lines = .error fault ↔ ∃ reached, scan step 1 state lines = (reached, some fault) := by
  unfold fold
  rcases scan step 1 state lines with ⟨reached, _ | cause⟩ <;> simp

end PageLoads.LogLines
