import PageLoads.Text.DecimalDigit
import PageLoads.Yaml.Source

/-!
# YAML scalars

A scalar is quoted once, quoted twice with escapes, or plain. Each may go on over several lines: one
line end becomes a blank, and of several line ends the first is dropped; the blanks about them are
dropped too. An escaped line end stands for nothing, and the line ends behind it are kept.
-/

namespace PageLoads.Yaml

open PageLoads.Text

/-- The blanks and line ends between two characters of a scalar, each list in reverse. -/
inductive Gap where
  | blanks (cs : List Char)
  /-- The first line end, unless it was escaped, and the further ones. -/
  | lineEnds (first : Option Char) (further : List Char)

namespace Gap

def empty : Gap :=
  .blanks []

def escaped : Gap :=
  .lineEnds none []

def isEmpty : Gap → Bool
  | .blanks cs => cs.isEmpty
  | .lineEnds .. => false

def endsLine : Gap → Bool
  | .blanks _ => false
  | .lineEnds .. => true

/-- Adds a blank or a line end. Blanks behind a line end are dropped, and so are those before it. -/
def add (gap : Gap) (c : Char) : Gap :=
  match gap, isBlank c with
  | .blanks cs, true => .blanks (c :: cs)
  | .blanks _, false => .lineEnds (some c) []
  | .lineEnds first further, true => .lineEnds first further
  | .lineEnds first further, false => .lineEnds first (c :: further)

def text : Gap → List Char
  | .blanks cs => cs.reverse
  | .lineEnds (some '\n') [] => [' ']
  | .lineEnds (some '\n') further => further.reverse
  | .lineEnds first further => first.toList ++ further.reverse

end Gap

def prepend (cs : List Char) : Option (List Char × Source) → Option (List Char × Source)
  | some (text, rest) => some (cs ++ text, rest)
  | none => none

/-- The rest of a scalar after its opening single quote, and what follows its closing one. Two single
quotes stand for one; `paired` says that the first of them was read. -/
def singleQuoted? (paired : Bool) (gap : Gap) : Source → Option (List Char × Source)
  | [] => none
  | spot :: rest =>
    if isGap spot.char then singleQuoted? false (gap.add spot.char) rest
    else if startsMarker (spot :: rest) then none
    else if spot.char = '\'' && !paired then
      if startsWith (· = '\'') rest then singleQuoted? true gap rest else some (gap.text, rest)
    else prepend (gap.text ++ [spot.char]) (singleQuoted? false .empty rest)

def escape? (c : Char) : Option Char :=
  match c with
  | '0' => some '\x00'
  | 'a' => some '\x07'
  | 'b' => some '\x08'
  | 't' | '\t' => some '\t'
  | 'n' => some '\n'
  | 'v' => some '\x0b'
  | 'f' => some '\x0c'
  | 'r' => some '\r'
  | 'e' => some '\x1b'
  | ' ' => some ' '
  | '"' => some '"'
  | '/' => some '/'
  | '\\' => some '\\'
  | 'N' => some '\x85'
  | '_' => some '\xa0'
  | 'L' => some '\u2028'
  | 'P' => some '\u2029'
  | _ => none

def codeLength? (c : Char) : Option Nat :=
  match c with
  | 'x' => some 2
  | 'u' => some 4
  | 'U' => some 8
  | _ => none

def hexDigit? (c : Char) : Option Nat :=
  if isAsciiDigit c then some (digitValue c)
  else if 'a' ≤ c ∧ c ≤ 'f' then some (c.toNat - 'a'.toNat + 10)
  else if 'A' ≤ c ∧ c ≤ 'F' then some (c.toNat - 'A'.toNat + 10)
  else none

def hexNumber? (cs : List Char) : Option Nat :=
  cs.foldlM (fun n c => (hexDigit? c).map fun digit => 16 * n + digit) 0

def charOfCode? (code : Nat) : Option Char :=
  if h : code.isValidChar then some (Char.ofNatAux code h) else none

/-- The character of the escape after a backslash, and how many characters spell it. -/
def escaped? (source : Source) : Option (Char × Nat) :=
  match source with
  | [] => none
  | spot :: rest =>
    match codeLength? spot.char with
    | none => (escape? spot.char).map fun c => (c, 1)
    | some length =>
      let digits := (rest.take length).map Spot.char
      if digits.length < length then none
      else ((hexNumber? digits).bind charOfCode?).map fun c => (c, length + 1)

/-- The rest of a scalar after its opening double quote, and what follows its closing one. `pending`
counts the characters that belong to an escape already read. -/
def doubleQuoted? (pending : Nat) (gap : Gap) : Source → Option (List Char × Source)
  | [] => none
  | spot :: rest =>
    if 0 < pending then doubleQuoted? (pending - 1) gap rest
    else if isGap spot.char then doubleQuoted? 0 (gap.add spot.char) rest
    else if startsMarker (spot :: rest) then none
    else if spot.char = '"' then some (gap.text, rest)
    else if spot.char = '\\' then
      if startsWith isLineEnd rest then prepend gap.text (doubleQuoted? 1 .escaped rest)
      else
        match escaped? rest with
        | some (c, length) => prepend (gap.text ++ [c]) (doubleQuoted? length .empty rest)
        | none => none
    else prepend (gap.text ++ [spot.char]) (doubleQuoted? 0 .empty rest)

/-- The characters that separate nodes within brackets. -/
def isFlowMark (c : Char) : Bool :=
  [',', '[', ']', '\x7b', '\x7d'].contains c

/-- The characters that begin no plain scalar. -/
def isIndicator (c : Char) : Bool :=
  isFlowMark c || ['#', '&', '*', '!', '|', '>', '\'', '"', '%', '@', '\x60'].contains c

/-- Whether a plain scalar begins here. A hyphen, question mark or colon begins one only if no gap
follows it, the last two only outside brackets. -/
def startsPlain (inBrackets : Bool) : Source → Bool
  | [] => false
  | spot :: rest =>
    if spot.char = '-' then !atGap rest
    else if spot.char = '?' ∨ spot.char = ':' then !inBrackets && !atGap rest
    else !isIndicator spot.char && !isGap spot.char

/-- A plain scalar that was read: its text, whether a line ends in the gap behind it, and what follows
this gap. -/
structure PlainScalar where
  text : List Char
  lineEnded : Bool
  rest : Source

/-- Whether what stands behind a gap cannot go on a plain scalar: a comment, a mark of a document, or,
outside brackets, anything before column `margin`. -/
def stopsPlain (inBrackets : Bool) (margin : Nat) (spot : Spot) (rest : Source) : Bool :=
  spot.char = '#' || startsMarker (spot :: rest) || (!inBrackets && spot.column < margin)

/-- The rest of a plain scalar. Outside brackets, further lines belong to it if they begin in column
`margin` or later, and nowhere may a tab stand before this column. In brackets, no mark of them may
follow a colon. -/
def plainScalar? (inBrackets : Bool) (margin : Nat) (gap : Gap) : Source → Option PlainScalar
  | [] => some ⟨[], gap.endsLine, []⟩
  | spot :: rest =>
    let c := spot.char
    if isGap c then
      if c = '\t' && gap.endsLine && spot.column < margin then none
      else plainScalar? inBrackets margin (gap.add c) rest
    else if !gap.isEmpty && stopsPlain inBrackets margin spot rest then
      some ⟨[], gap.endsLine, spot :: rest⟩
    else if inBrackets && c = ':' && startsWith (fun c => c = '?' || isFlowMark c) rest then none
    else if (c = ':' && atGap rest) || (inBrackets && isFlowMark c) then
      some ⟨[], gap.endsLine, spot :: rest⟩
    else
      (plainScalar? inBrackets margin .empty rest).map fun scalar =>
        { scalar with text := gap.text ++ c :: scalar.text }

end PageLoads.Yaml
