import PageLoads.Fault
import PageLoads.Number.Decimal

/-!
# Line patterns

A pattern is a sequence of tokens that must cover a whole text. `search` tries the choices of the first
token in the order of preference (the longer run of digits, the shorter free text, the option listed
earlier) until the other tokens can complete one. All attempts share one list of captures: a piece that is
a field is put at its end before the rest is searched, and taken back if the rest is not matched.
-/

namespace PageLoads

open PageLoads.Text

inductive Token where
  | literal (text : String)
  | oneOf (options : List String)
  /-- One or more ASCII digits, a field. -/
  | number (field : String)
  /-- One or more characters, a field. -/
  | text (field : String)
  /-- Any characters, possibly none. -/
  | skip
  deriving DecidableEq, Repr

structure Pattern where
  name : String
  tokens : List Token
  deriving DecidableEq, Repr

namespace Pattern

/-- What follows a text at the start of another. -/
def after? : List Char → List Char → Option (List Char)
  | [], rest => some rest
  | c :: text, d :: rest => if c = d then after? text rest else none
  | _ :: _, [] => none

/-- The fields captured so far, in the order of the tokens. -/
abbrev Captures := List (String × List Char)

/-- Makes one attempt after another until one succeeds, each with the captures that the one before it
left. -/
def tryEach {γ : Type} (attempt : γ → Captures → Bool × Captures) : List γ → Captures → Bool × Captures
  | [], captures => (false, captures)
  | choice :: rest, captures =>
    match attempt choice captures with
    | (true, captures) => (true, captures)
    | (false, captures) => tryEach attempt rest captures

/-- Matches a given text, and the rest behind it. -/
def tryText (matchRest : List Char → Captures → Bool × Captures) (input : List Char) (text : String)
    (captures : Captures) : Bool × Captures :=
  match after? text.toList input with
  | some rest => matchRest rest captures
  | none => (false, captures)

/-- Captures a piece of some length, and matches the rest behind it; the piece is taken back if that
fails. -/
def tryCapture (matchRest : List Char → Captures → Bool × Captures) (field : String) (input : List Char)
    (length : Nat) (captures : Captures) : Bool × Captures :=
  match matchRest (input.drop length) (captures ++ [(field, input.take length)]) with
  | (true, captures) => (true, captures)
  | (false, captures) => (false, captures.dropLast)

/-- Whether tokens cover the whole of a text, and the captures afterwards. -/
def search : List Token → List Char → Captures → Bool × Captures
  | [], input, captures => (input.isEmpty, captures)
  | .literal text :: tokens, input, captures => tryText (search tokens) input text captures
  | .oneOf options :: tokens, input, captures => tryEach (tryText (search tokens) input) options captures
  | .number field :: tokens, input, captures =>
    let digits := (input.takeWhile isAsciiDigit).length
    tryEach (tryCapture (search tokens) field input) (List.range' 1 digits).reverse captures
  | .text field :: tokens, input, captures =>
    tryEach (tryCapture (search tokens) field input) (List.range' 1 input.length) captures
  | .skip :: tokens, input, captures =>
    tryEach (fun length => search tokens (input.drop length)) (List.range (input.length + 1)) captures

end Pattern

def Token.field? : Token → Option String
  | .number field => some field
  | .text field => some field
  | _ => none

structure Fields where
  pattern : String
  captures : Pattern.Captures
  deriving DecidableEq, Repr

namespace Pattern

/-- The fields of a text, if the pattern covers the whole of it. -/
def fields? (pattern : Pattern) (input : List Char) : Option Fields :=
  match search pattern.tokens input [] with
  | (true, captures) => some ⟨pattern.name, captures⟩
  | (false, _) => none

end Pattern

namespace Fields

def get? (fields : Fields) (field : String) : Option (List Char) :=
  fields.captures.lookup field

def piece (fields : Fields) (field : String) : Except Fault (List Char) :=
  match fields.get? field with
  | some piece => .ok piece
  | none => .error (.format none (.missingField fields.pattern field))

def text (fields : Fields) (field : String) : Except Fault String := do
  return String.ofList (← fields.piece field)

def numberBy {β : Type} (read? : List Char → Option β) (fields : Fields) (field : String) :
    Except Fault β := do
  let piece ← fields.piece field
  match read? piece with
  | some n => return n
  | none => throw (.range none (.doesNotFit fields.pattern field (String.ofList piece)))

def unsigned (greatest : Nat) (fields : Fields) (field : String) : Except Fault Nat :=
  fields.numberBy (Decimal.unsigned? greatest) field

/-- A whole number from one below the negative of a greatest one to it. -/
def signed (greatest : Nat) (fields : Fields) (field : String) : Except Fault Int :=
  fields.numberBy (Decimal.signed? greatest) field

def word32 (fields : Fields) (field : String) : Except Fault UInt32 := do
  return (← fields.unsigned (UInt32.size - 1) field).toUInt32

def word64 (fields : Fields) (field : String) : Except Fault UInt64 := do
  return (← fields.unsigned (UInt64.size - 1) field).toUInt64

end Fields

end PageLoads
