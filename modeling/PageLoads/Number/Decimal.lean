import PageLoads.Number.Binary64
import PageLoads.Text.DecimalDigit

/-!
# Reading decimal numbers

Whole numbers within bounds, and double-precision numbers. A double is written with an optional sign,
digits with or without a point (at least one digit on one side of it) and an optional exponent, or as
`inf`, `infinity` or `nan` in letters of any case; the value read is the correctly rounded one.
-/

namespace PageLoads.Decimal

open PageLoads.Text

def digitsValue (cs : List Char) : Nat :=
  cs.foldl (fun value c => 10 * value + digitValue c) 0

def digits? (cs : List Char) : Option Nat :=
  if cs ≠ [] ∧ cs.all isAsciiDigit then some (digitsValue cs) else none

/-- A whole number from zero to `greatest`; a plus sign may stand before it. -/
def unsigned? (greatest : Nat) (cs : List Char) : Option Nat :=
  let digits := match cs with
    | '+' :: rest => rest
    | _ => cs
  (digits? digits).filter (· ≤ greatest)

/-- A whole number from `-(greatest + 1)` to `greatest`; a sign may stand before it. -/
def signed? (greatest : Nat) (cs : List Char) : Option Int :=
  match cs with
  | '-' :: rest => ((digits? rest).filter (· ≤ greatest + 1)).map fun n => -(n : Int)
  | _ => (unsigned? greatest cs).map fun n => (n : Int)

def spanDigits (cs : List Char) : List Char × List Char :=
  cs.span isAsciiDigit

/-- The exponent part at the end of a number: nothing, or `e` and an optionally signed number. -/
def exponent? (cs : List Char) : Option Int :=
  match cs with
  | [] => some 0
  | e :: rest =>
    if e = 'e' ∨ e = 'E' then
      match rest with
      | '-' :: digits => (digits? digits).map fun n => -(n : Int)
      | '+' :: digits => (digits? digits).map fun n => (n : Int)
      | digits => (digits? digits).map fun n => (n : Int)
    else none

/-- The double nearest to `value * 10 ^ exponent`. Magnitudes far outside the range of doubles are
settled from the number of digits alone. -/
def scaled (negative : Bool) (value : Nat) (exponent : Int) : Binary64 :=
  let places := (Nat.toDigits 10 value).length + exponent
  if value = 0 ∨ places < -400 then Binary64.ofRatio negative 0 1
  else if 400 < places then Binary64.infinite negative
  else Binary64.ofRatio negative (value * Nat.pow 10 exponent.toNat) (Nat.pow 10 (-exponent).toNat)

def magnitude? (negative : Bool) (cs : List Char) : Option Binary64 :=
  let word := String.ofList (cs.map Char.toLower)
  if word = "inf" ∨ word = "infinity" then some (Binary64.infinite negative)
  else if word = "nan" then some Binary64.nan
  else
    let (whole, rest) := spanDigits cs
    let (places, rest) := match rest with
      | '.' :: rest => spanDigits rest
      | _ => ([], rest)
    if whole = [] ∧ places = [] then none
    else (exponent? rest).map fun e => scaled negative (digitsValue (whole ++ places)) (e - places.length)

def binary64? (cs : List Char) : Option Binary64 :=
  match cs with
  | '-' :: rest => magnitude? true rest
  | '+' :: rest => magnitude? false rest
  | _ => magnitude? false cs

end PageLoads.Decimal
