import PageLoads.Pattern

/-!
# Line stamps

The first parts of log lines. A simulator line begins with a time and a thread, a program's line with a
time, a level, a source location and a function; what follows is the message. Neither form admits a
line feed anywhere in the line.
-/

namespace PageLoads.Line

open PageLoads.Text
open PageLoads.Pattern (after?)

def isTimeChar (c : Char) : Bool :=
  isAsciiDigit c || c = ':' || c = '.'

def isLevelChar (c : Char) : Bool :=
  ('A' ≤ c && c ≤ 'Z') || isAsciiDigit c

/-- The longest first part, not empty, of characters of a class, and what follows it. -/
def span? (isMember : Char → Bool) (cs : List Char) : Option (List Char × List Char) :=
  match cs.span isMember with
  | ([], _) => none
  | (run, rest) => some (run, rest)

def skip? (isMember : Char → Bool) (cs : List Char) : Option (List Char) :=
  (span? isMember cs).map Prod.snd

/-- The first suffix that is matched. -/
def seek {β : Type} (match? : List Char → Option β) : List Char → Option β
  | [] => match? []
  | c :: rest =>
    match match? (c :: rest) with
    | some found => some found
    | none => seek match? rest

/-- The message of a simulator line, which begins like `00:00:00.021258 [thread-0] `. -/
def simulatorMessage? (line : List Char) : Option (List Char) := do
  guard ('\n' ∉ line)
  let rest ← skip? isTimeChar line
  let rest ← after? " [thread-".toList rest
  let rest ← skip? isAsciiDigit rest
  after? "] ".toList rest

/-- What follows the end of a function name: `() ::` and all blanks after it, at least one. -/
def afterFunction? (cs : List Char) : Option (List Char) := do
  skip? (· = ' ') (← after? "() ::".toList cs)

/-- What follows a line number and a function name: ` :`, digits of any script, `, `, a function name
that is as short as can be, and its end. -/
def afterLocation? (cs : List Char) : Option (List Char) := do
  let rest ← after? " :".toList cs
  let rest ← skip? isDecimalDigit rest
  let rest ← after? ", ".toList rest
  match rest with
  | [] => none
  | _ :: rest => seek afterFunction? rest

/-- The time and the message of a program's line, which begins like
`00:21:21.466 INFO  - file.cpp :398, func() ::   `. The source location is as short as can be. -/
def split? (line : List Char) : Option (List Char × List Char) := do
  guard ('\n' ∉ line)
  let (time, rest) ← span? isTimeChar line
  let rest ← after? [' '] rest
  let rest ← skip? isLevelChar rest
  let rest ← skip? (· = ' ') rest
  let rest ← after? "- ".toList rest
  match rest with
  | [] => none
  | _ :: rest => return (time, ← seek afterLocation? rest)

end PageLoads.Line
