import PageLoads.Text.Utf8

/-!
# Lines

Cutting bytes into lines. A line feed ends a line; bytes after the last line feed are one more line,
and nothing follows a final line feed. A carriage return before a line feed stays in the line: every
reader of lines trims them, and a carriage return is blank.
-/

namespace PageLoads.Text

def lineFeed : UInt8 := 0x0A

/-- Puts one byte before lines already cut: a line feed opens an empty line, any other byte joins the
first line. -/
def consByte (b : UInt8) (lines : List Bytes) : List Bytes :=
  if b = lineFeed then [] :: lines
  else
    match lines with
    | [] => [[b]]
    | line :: rest => (b :: line) :: rest

def splitLines (bytes : Bytes) : List Bytes :=
  bytes.foldr consByte []

/-- The lines that a line feed ends, as one. -/
def endedLines (bytes : Bytes) : Bytes :=
  (bytes.reverse.dropWhile (· ≠ lineFeed)).reverse

theorem splitLines_cons (b : UInt8) (bytes : Bytes) :
    splitLines (b :: bytes) = consByte b (splitLines bytes) := rfl

/-- A line followed by a line feed is the first line of what follows. -/
theorem splitLines_append_lineFeed {line : Bytes} (hline : lineFeed ∉ line) (bytes : Bytes) :
    splitLines (line ++ lineFeed :: bytes) = line :: splitLines bytes := by
  induction line with
  | nil => simp [splitLines_cons, consByte]
  | cons b line ih =>
    have hb : b ≠ lineFeed := fun h => hline (by simp [h])
    have hrest : lineFeed ∉ line := fun h => hline (by simp [h])
    simp [splitLines_cons, ih hrest, consByte, hb]

theorem splitLines_ne_nil {bytes : Bytes} (hne : bytes ≠ []) : splitLines bytes ≠ [] := by
  obtain ⟨b, rest, rfl⟩ := List.exists_cons_of_ne_nil hne
  rw [splitLines_cons]
  unfold consByte
  split
  · simp
  · split <;> simp

/-- What follows a line feed is cut on its own. -/
theorem splitLines_append_cons (front back : Bytes) :
    splitLines (front ++ lineFeed :: back) = splitLines (front ++ [lineFeed]) ++ splitLines back := by
  induction front with
  | nil => simp [consByte, splitLines]
  | cons b front ih =>
    have hne : front ++ [lineFeed] ≠ [] := by simp
    obtain ⟨line, rest, hlines⟩ := List.exists_cons_of_ne_nil (splitLines_ne_nil hne)
    rw [List.cons_append, List.cons_append, splitLines_cons, splitLines_cons, ih, hlines]
    unfold consByte
    split <;> rfl

theorem splitLines_of_not_mem {line : Bytes} (hne : line ≠ []) (hline : lineFeed ∉ line) :
    splitLines line = [line] := by
  induction line with
  | nil => exact absurd rfl hne
  | cons b line ih =>
    have hb : b ≠ lineFeed := fun h => hline (by simp [h])
    have hrest : lineFeed ∉ line := fun h => hline (by simp [h])
    by_cases hnil : line = []
    · subst hnil
      simp [splitLines, consByte, hb]
    · simp [splitLines_cons, ih hnil hrest, consByte, hb]

end PageLoads.Text
