/-!
# YAML sources

The characters of a text with the places at which they stand. Places decide how YAML is read: columns
tell blocks apart, lines and distances tell how long a key may be. Line ends of every form become line
feeds, but the separators of lines and of paragraphs end lines as they are.
-/

namespace PageLoads.Yaml

/-- A character, its line and column, and the bytes before it. -/
structure Spot where
  char : Char
  line : Nat
  column : Nat
  offset : Nat
  deriving DecidableEq, Repr

abbrev Source := List Spot

def isAllowed (c : Char) : Bool :=
  c = '\t' || c = '\n' || c = '\r' || (' ' ≤ c && c ≤ '~') || c = '\x85' ||
    (0xA0 ≤ c.toNat && c.toNat ≠ 0xFFFE && c.toNat ≠ 0xFFFF)

def isLineEnd (c : Char) : Bool :=
  ['\n', '\r', '\x85', '\u2028', '\u2029'].contains c

def lineEndOf (c : Char) : Char :=
  if c = '\u2028' ∨ c = '\u2029' then c else '\n'

/-- The characters of a text, the first of which stands at the given place. -/
def placed (line column offset : Nat) : List Char → Source
  | [] => []
  | '\r' :: '\n' :: cs => ⟨'\n', line, column, offset⟩ :: placed (line + 1) 0 (offset + 2) cs
  | c :: cs =>
    let next := offset + c.utf8Size
    if isLineEnd c then ⟨lineEndOf c, line, column, offset⟩ :: placed (line + 1) 0 next cs
    else ⟨c, line, column, offset⟩ :: placed line (column + 1) next cs

def source? (text : String) : Option Source :=
  if text.toList.all isAllowed then some (placed 0 0 0 text.toList) else none

def isBlank (c : Char) : Bool :=
  c = ' ' || c = '\t'

def isGap (c : Char) : Bool :=
  isBlank c || isLineEnd c

def startsWith (kind : Char → Bool) (source : Source) : Bool :=
  source.head?.any fun spot => kind spot.char

/-- Whether a source begins with a blank or a line end, or is at its end. -/
def atGap (source : Source) : Bool :=
  source.isEmpty || startsWith isGap source

/-- Whether a source begins with three of a character at the beginning of a line, and a gap. -/
def startsMarkerOf (c : Char) (source : Source) : Bool :=
  source.head?.any (fun spot => spot.column = 0) &&
    (source.take 3).map Spot.char = [c, c, c] && atGap (source.drop 3)

def startsMarker (source : Source) : Bool :=
  startsMarkerOf '-' source || startsMarkerOf '.' source

/-- What follows a gap, and whether a key may begin there: at the beginning of a line outside brackets,
and else as before the gap. A gap is blanks, line ends and comments, and a byte order mark at the
beginning of a line. Where a key may begin outside brackets, a tab is no blank. -/
def skipGap (inBrackets inComment keyAllowed : Bool) : Source → Bool × Source
  | [] => (keyAllowed, [])
  | spot :: rest =>
    let c := spot.char
    if isLineEnd c then skipGap inBrackets false (keyAllowed || !inBrackets) rest
    else if inComment then skipGap inBrackets true keyAllowed rest
    else if c = ' ' || (c = '\t' && (inBrackets || !keyAllowed)) || (c = '\uFEFF' && spot.column = 0) then
      skipGap inBrackets false keyAllowed rest
    else if c = '#' then skipGap inBrackets true keyAllowed rest
    else (keyAllowed, spot :: rest)

end PageLoads.Yaml
