import PageLoads.Number.Binary64

/-!
# Printing double-precision numbers

`shortest` finds the fewest decimal digits that read back as a number. Three texts are made of a
number: `plain` writes its shortest digits without an exponent, `json` writes them with a point or an
exponent always, and `fixed` rounds the exact value to a number of places, a half to the even digit.
Of two shortest spellings equally near to the number, `plain` takes the one further from zero and `json`
the one with the even last digit.
-/

namespace PageLoads.Binary64

def digitsOf (n : Nat) : List Char :=
  Nat.toDigits 10 n

/-- The exponent of the greatest power of ten not above `num / den`, both positive. -/
def decimalExponent (num den : Nat) : Int :=
  if den ≤ num then (digitsOf (num / den)).length - 1
  else -((digitsOf ((den - 1) / num)).length : Int)

/-- A decimal number `value * 10 ^ exponent`. -/
structure Scientific where
  value : Nat
  exponent : Int
  deriving DecidableEq, Repr

/-- Moves trailing zeros of the value into the exponent. -/
def Scientific.stripped (fuel : Nat) (s : Scientific) : Scientific :=
  match fuel with
  | 0 => s
  | fuel + 1 => if s.value ≠ 0 ∧ s.value % 10 = 0 then stripped fuel ⟨s.value / 10, s.exponent + 1⟩ else s

/-- Which of two neighbouring decimals stands for a number halfway between them. -/
inductive Tie where
  | even
  | up
  deriving DecidableEq, Repr

/-- Whether a number halfway between two decimals becomes the lower one, of this value. -/
def Tie.takesLower (tie : Tie) (lower : Nat) : Bool :=
  match tie with
  | .even => lower % 2 = 0
  | .up => false

/-- The point nearest to a positive finite number on the grid of the multiples of `10 ^ exponent`, if
one of the two about it lies within the numbers that read back as the same double. -/
def nearestOnGrid (tie : Tie) (x : Binary64) (exponent : Int) : Option Scientific :=
  -- The number and the ends of its interval, in units of `2 ^ (x.exponent - 2)`.
  let middle := 4 * x.significand
  let below := if x.significand = significandCount ∧ 1 < x.biasedExponent then middle - 1 else middle - 2
  let above := middle + 2
  -- A grid point `n` is compared with `m` of these units as `n * unit` with `m * scale`.
  let binary := x.exponent - 2
  let unit := Nat.pow 10 exponent.toNat * Nat.pow 2 (-binary).toNat
  let scale := Nat.pow 2 binary.toNat * Nat.pow 10 (-exponent).toNat
  let closed := x.significand % 2 = 0
  let within (n : Nat) : Bool :=
    if closed then below * scale ≤ n * unit && n * unit ≤ above * scale
    else below * scale < n * unit && n * unit < above * scale
  let lower := middle * scale / unit
  let upper := lower + 1
  let lowerGap := middle * scale - lower * unit
  let upperGap := upper * unit - middle * scale
  let first := if lowerGap < upperGap ∨ (lowerGap = upperGap ∧ tie.takesLower lower) then lower else upper
  let second := if first = lower then upper else lower
  if within first then some ⟨first, exponent⟩
  else if within second then some ⟨second, exponent⟩
  else none

/-- The fewest digits that read back as a positive finite number, and the nearest to it of those. -/
def shortest (tie : Tie) (x : Binary64) : Scientific :=
  let top := decimalExponent (x.significand * Nat.pow 2 x.exponent.toNat) (Nat.pow 2 (-x.exponent).toNat)
  let found := (List.range 17).findSome? fun (n : Nat) => nearestOnGrid tie x (top - n)
  (found.getD ⟨0, 0⟩).stripped 400

/-- The digits of a scientific number without exponent, a point only where digits follow it. -/
def Scientific.plain (s : Scientific) : List Char :=
  let digits := digitsOf s.value
  if 0 ≤ s.exponent then digits ++ List.replicate s.exponent.toNat '0'
  else
    let places := (-s.exponent).toNat
    if places < digits.length then
      digits.take (digits.length - places) ++ '.' :: digits.drop (digits.length - places)
    else '0' :: '.' :: List.replicate (places - digits.length) '0' ++ digits

/-- The digits of a scientific number with one digit before the point and an exponent. -/
def Scientific.exponential (s : Scientific) : List Char :=
  let digits := digitsOf s.value
  let exponent : Int := s.exponent + (digits.length - 1 : Nat)
  let fraction := match digits.drop 1 with
    | [] => []
    | rest => '.' :: rest
  digits.take 1 ++ fraction ++ ['e', if exponent < 0 then '-' else '+'] ++ digitsOf exponent.natAbs

def withSign (x : Binary64) (text : List Char) : String :=
  String.ofList (if x.isNegative then '-' :: text else text)

def specialText (x : Binary64) : String :=
  if x.isNaN then "NaN" else withSign x ['i', 'n', 'f']

/-- The shortest digits, never with an exponent and with no point after a whole number. -/
def plain (x : Binary64) : String :=
  if ¬ x.isFinite then x.specialText
  else if x.magnitude = 0 then withSign x ['0']
  else withSign x (shortest .up x).plain

/-- The shortest digits as a JSON number: positional for decimal exponents from -5 to 15, with an
exponent beyond, and with `.0` where neither a point nor an exponent is needed. -/
def json (x : Binary64) : String :=
  if x.magnitude = 0 then withSign x ['0', '.', '0']
  else
    let s := shortest .even x
    let exponent : Int := s.exponent + ((digitsOf s.value).length - 1 : Nat)
    if exponent < -5 ∨ 15 < exponent then withSign x s.exponential
    else withSign x (if 0 ≤ s.exponent then s.plain ++ ['.', '0'] else s.plain)

/-- The exact value rounded to a number of places, at least one; a half goes to the even digit. -/
def fixed (places : Nat) (x : Binary64) : String :=
  if ¬ x.isFinite then x.specialText
  else
    let num := x.significand * Nat.pow 2 x.exponent.toNat * Nat.pow 10 places
    let units := roundHalfEven num (Nat.pow 2 (-x.exponent).toNat)
    let fraction := digitsOf (units % Nat.pow 10 places)
    withSign x (digitsOf (units / Nat.pow 10 places) ++
      '.' :: List.replicate (places - fraction.length) '0' ++ fraction)

end PageLoads.Binary64
