import PageLoads.Json.Value
import PageLoads.Number.Decimal

/-!
# Reading JSON numbers

A number without fraction and exponent is an integer if 64 bits hold it. Any other number is a double,
read quickly and not always to the nearest: as many digits as fit are gathered in a word, further
digits of the whole part only raise the exponent, further digits of the fraction are dropped, and the
word is multiplied or divided by a power of ten. A magnitude beyond the range of doubles is no number.
-/

namespace PageLoads.Json

open PageLoads.Text

/-- Takes digits from the front while a word holds their number: the number, how many were taken, and
what follows. -/
def gather (value count : Nat) : List Char → Nat × Nat × List Char
  | [] => (value, count, [])
  | c :: rest =>
    if isAsciiDigit c && decide (10 * value + digitValue c < UInt64.size) then
      gather (10 * value + digitValue c) (count + 1) rest
    else (value, count, c :: rest)

def powerOfTen (exponent : Nat) : Binary64 :=
  Decimal.scaled false 1 exponent

/-- Divides by ten as often as said, at most 308 times at once. -/
def scaledDown (x : Binary64) (places : Nat) : Binary64 :=
  if places ≤ 308 then x / powerOfTen places
  else if x.magnitude = 0 then x
  else scaledDown (x / powerOfTen 308) (places - 308)
termination_by places

/-- The double that a word and a decimal exponent stand for, if it is in range. -/
def ofParts? (value : Nat) (exponent : Int) : Option Binary64 :=
  let x := Binary64.ofNat value
  if exponent < 0 then some (scaledDown x (-exponent).toNat)
  else if 308 < exponent then (if value = 0 then some x else none)
  else
    let product := x * powerOfTen exponent.toNat
    if product.isFinite then some product else none

def exponentLimit : Nat :=
  UInt32.size / 2 - 1

/-- The exponent part of a number and what follows it: none, or `e` with an optional sign and at least
one digit. -/
def exponentPart? : List Char → Option (Int × List Char)
  | [] => some (0, [])
  | e :: rest =>
    if e = 'e' ∨ e = 'E' then
      let (negative, rest) := match rest with
        | '+' :: rest => (false, rest)
        | '-' :: rest => (true, rest)
        | _ => (false, rest)
      match Decimal.spanDigits rest with
      | ([], _) => none
      | (digits, rest) =>
        let n : Int := Decimal.digitsValue digits
        some (if negative then -n else n, rest)
    else some (0, e :: rest)

/-- The double of a word, the exponent that its digits imply and the one that is written. An exponent
beyond the limit makes zero, or no number. -/
def doubleOf? (value : Nat) (implied written : Int) : Option Binary64 :=
  if exponentLimit < written.natAbs then
    if value = 0 ∨ written < 0 then some Binary64.zero else none
  else ofParts? value (implied + written)

/-- A number without its sign: the word and what follows it if it is whole and fits a word, else the
double. -/
def unsigned? (cs : List Char) : Option ((Nat ⊕ Binary64) × List Char) := do
  let (whole, rest) := Decimal.spanDigits cs
  -- A whole part has a digit, and begins with zero only if it is zero.
  guard (whole ≠ [] ∧ (whole.headD '1' ≠ '0' ∨ whole.length = 1))
  let (value, count, _) := gather 0 0 whole
  let raised : Int := whole.length - count
  match rest with
  | '.' :: rest =>
    let (places, rest) := Decimal.spanDigits rest
    guard (places ≠ [])
    let (value, count, _) := gather value 0 places
    let (written, rest) ← exponentPart? rest
    return (.inr (← doubleOf? value (raised - count) written), rest)
  | e :: _ =>
    if e = 'e' ∨ e = 'E' then
      let (written, rest) ← exponentPart? rest
      return (.inr (← doubleOf? value raised written), rest)
    else if raised = 0 then return (.inl value, rest)
    else return (.inr (← doubleOf? value raised 0), rest)
  | [] =>
    if raised = 0 then return (.inl value, rest)
    else return (.inr (← doubleOf? value raised 0), rest)

/-- The number at the front of a text, and what follows it. The negative of zero, and of a word beyond
the range of signed words, is a double. -/
def number? : List Char → Option (Json × List Char)
  | '-' :: cs => (unsigned? cs).map fun
    | (.inl n, rest) =>
      if 0 < n ∧ n ≤ UInt64.size / 2 then (.integer (-n), rest) else (.double (-Binary64.ofNat n), rest)
    | (.inr x, rest) => (.double (-x), rest)
  | cs => (unsigned? cs).map fun
    | (.inl n, rest) => (.integer n, rest)
    | (.inr x, rest) => (.double x, rest)

end PageLoads.Json
