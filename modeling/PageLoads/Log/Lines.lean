import PageLoads.Store.File
import PageLoads.Text.Blank
import PageLoads.Text.Lines

/-!
# Log lines

A log is read line by line, each line trimmed of blanks. What can be read of a log is the list of its
lines, where a line that is not UTF-8, or one that cannot be read to its end, stands as the fault met at
that place. `scan` runs a step over the lines until one fails and keeps the state reached either way.
-/

namespace PageLoads

/-- The trimmed lines of a log, as far as they can be read. -/
abbrev LogLines := List (Except IoFault (List Char))

namespace LogLines

def ofLine (line : Bytes) : Except IoFault (List Char) :=
  match Text.decode? line with
  | some text => .ok (Text.trim text.toList)
  | none => .error .notText

/-- The lines of some content. A fault takes the place of the line in which it comes up. -/
def ofContent (content : Content) : LogLines :=
  match content.drain .ofLines with
  | (bytes, none) => (Text.splitLines bytes).map ofLine
  | (bytes, some fault) => (Text.splitLines (Text.endedLines bytes)).map ofLine ++ [.error fault]

theorem ofContent_plain (bytes : Bytes) :
    ofContent (.plain bytes) = (Text.splitLines bytes).map ofLine := by
  simp [ofContent, Content.drain_plain]

variable {σ : Type}

/-- The state after the lines, the first of which has the given number, and the fault that stopped the
reading, if one did. -/
def scan (step : Nat → List Char → σ → Except Fault σ) (number : Nat) (state : σ) :
    LogLines → σ × Option Fault
  | [] => (state, none)
  | .error fault :: _ => (state, some (.io fault))
  | .ok line :: rest =>
    match step number line state with
    | .error fault => (state, some fault)
    | .ok next => scan step (number + 1) next rest

/-- The state after all lines, or the fault that stopped the reading. -/
def fold (step : Nat → List Char → σ → Except Fault σ) (state : σ) (lines : LogLines) : Except Fault σ :=
  match scan step 1 state lines with
  | (state, none) => .ok state
  | (_, some fault) => .error fault

end LogLines

end PageLoads
