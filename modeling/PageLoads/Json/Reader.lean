import PageLoads.Json.Number

/-!
# Reading JSON

A text is read as one value with blanks about it. Arrays and objects may be nested to a depth of 127.
Of equal keys in an object the last counts. Texts hold no raw control characters, and an escaped half of
a surrogate pair must stand beside its other half.
-/

namespace PageLoads.Json

open PageLoads.Text

def isSpace (c : Char) : Bool :=
  c = ' ' || c = '\n' || c = '\t' || c = '\r'

def skipSpace (cs : List Char) : List Char :=
  cs.dropWhile isSpace

def hexValue? (c : Char) : Option Nat :=
  if isAsciiDigit c then some (digitValue c)
  else if 'a' ≤ c ∧ c ≤ 'f' then some (c.toNat - 'a'.toNat + 10)
  else if 'A' ≤ c ∧ c ≤ 'F' then some (c.toNat - 'A'.toNat + 10)
  else none

def hexUnit? (a b c d : Char) : Option Nat := do
  return ((← hexValue? a) * 16 + (← hexValue? b)) * 256 + ((← hexValue? c) * 16 + (← hexValue? d))

def isLeadSurrogate (unit : Nat) : Bool :=
  0xD800 ≤ unit && unit < 0xDC00

def isTrailSurrogate (unit : Nat) : Bool :=
  0xDC00 ≤ unit && unit < 0xE000

/-- The character that one escaped unit stands for, unless it is half of a pair. -/
def charOfUnit? (unit : Nat) : Option Char :=
  if isLeadSurrogate unit || isTrailSurrogate unit then none else some (Char.ofNat unit)

def charOfPair? (lead trail : Nat) : Option Char :=
  if isLeadSurrogate lead && isTrailSurrogate trail then
    some (Char.ofNat (0x10000 + (lead - 0xD800) * 0x400 + (trail - 0xDC00)))
  else none

def simpleEscape? (c : Char) : Option Char :=
  match c with
  | '"' => some '"'
  | '\\' => some '\\'
  | '/' => some '/'
  | 'b' => some '\x08'
  | 'f' => some '\x0c'
  | 'n' => some '\n'
  | 'r' => some '\r'
  | 't' => some '\t'
  | _ => none

def consChar (c? : Option Char) (found? : Option (List Char × List Char)) : Option (List Char × List Char) :=
  match c?, found? with
  | some c, some (chars, rest) => some (c :: chars, rest)
  | _, _ => none

/-- The rest of a text after its opening quote, and what follows its closing quote. -/
def textBody? : List Char → Option (List Char × List Char)
  | [] => none
  | '"' :: rest => some ([], rest)
  | '\\' :: 'u' :: a :: b :: c :: d :: '\\' :: 'u' :: e :: f :: g :: h :: rest =>
    match hexUnit? a b c d with
    | none => none
    | some unit =>
      if isLeadSurrogate unit then
        consChar (do charOfPair? unit (← hexUnit? e f g h)) (textBody? rest)
      else consChar (charOfUnit? unit) (textBody? ('\\' :: 'u' :: e :: f :: g :: h :: rest))
  | '\\' :: 'u' :: a :: b :: c :: d :: rest =>
    consChar (do charOfUnit? (← hexUnit? a b c d)) (textBody? rest)
  | '\\' :: c :: rest => consChar (simpleEscape? c) (textBody? rest)
  | c :: rest => if c.toNat < 0x20 then none else consChar (some c) (textBody? rest)

/-- The key of an entry, after its opening quote, the colon behind it and the blanks about that. -/
def key? (cs : List Char) : Option (String × List Char) :=
  match cs with
  | '"' :: rest =>
    match textBody? rest with
    | some (key, rest) =>
      match skipSpace rest with
      | ':' :: rest => some (String.ofList key, skipSpace rest)
      | _ => none
    | none => none
  | _ => none

mutual

/-- The value at the front of a text without leading blanks, and what follows it. `depth` levels may
still be opened, and `fuel` bounds the characters read. -/
def value? (fuel depth : Nat) (cs : List Char) : Option (Json × List Char) :=
  match fuel with
  | 0 => none
  | fuel + 1 =>
    match cs with
    | 'n' :: 'u' :: 'l' :: 'l' :: rest => some (.null, rest)
    | 't' :: 'r' :: 'u' :: 'e' :: rest => some (.bool true, rest)
    | 'f' :: 'a' :: 'l' :: 's' :: 'e' :: rest => some (.bool false, rest)
    | '"' :: rest => (textBody? rest).map fun (chars, rest) => (.text (String.ofList chars), rest)
    | '[' :: rest =>
      if depth = 0 then none
      else
        match skipSpace rest with
        | ']' :: rest => some (.array [], rest)
        | rest => (items? fuel (depth - 1) rest).map fun (items, rest) => (.array items, rest)
    | '\x7b' :: rest =>
      if depth = 0 then none
      else
        match skipSpace rest with
        | '\x7d' :: rest => some (.object [], rest)
        | rest => (entries? fuel (depth - 1) rest).map fun (entries, rest) => (ofEntries entries, rest)
    | _ => number? cs

/-- The items of an array from the first one on, and what follows its end. -/
def items? (fuel depth : Nat) (cs : List Char) : Option (List Json × List Char) :=
  match fuel with
  | 0 => none
  | fuel + 1 =>
    match value? fuel depth cs with
    | none => none
    | some (item, rest) =>
      match skipSpace rest with
      | ']' :: rest => some ([item], rest)
      | ',' :: rest => (items? fuel depth (skipSpace rest)).map fun (items, rest) => (item :: items, rest)
      | _ => none

/-- The entries of an object from the first one on, in the order of the text, and what follows its
end. -/
def entries? (fuel depth : Nat) (cs : List Char) : Option (List (String × Json) × List Char) :=
  match fuel with
  | 0 => none
  | fuel + 1 =>
    match key? cs with
    | none => none
    | some (key, rest) =>
      match value? fuel depth rest with
      | none => none
      | some (value, rest) =>
        match skipSpace rest with
        | '\x7d' :: rest => some ([(key, value)], rest)
        | ',' :: rest =>
          (entries? fuel depth (skipSpace rest)).map fun (entries, rest) => ((key, value) :: entries, rest)
        | _ => none

end

def depthLimit : Nat :=
  127

def parse? (text : String) : Option Json :=
  let cs := text.toList
  match value? (2 * cs.length + 1) depthLimit (skipSpace cs) with
  | some (value, rest) => if skipSpace rest = [] then some value else none
  | none => none

end PageLoads.Json
