/-!
# Double-precision numbers

An IEEE 754 binary64 number kept as its 64 bits, so that no bit of it is lost when it is stored.
Comparisons are decided on the bits. Sums, products and quotients are worked out exactly, as ratios of whole
numbers, and then rounded by `ofRatio`; `ceil` and `round` give whole numbers.
-/

namespace PageLoads

structure Binary64 where
  bits : UInt64
  deriving DecidableEq, Repr, Inhabited

namespace Binary64

/-- The weight of the bit that is set in negative numbers, the 63rd power of two. -/
def signWeight : Nat :=
  0x8000000000000000

/-- How many significands share a binary exponent, the 52nd power of two. -/
def significandCount : Nat :=
  0x10000000000000

def magnitude (x : Binary64) : Nat :=
  x.bits.toNat % signWeight

def isNegative (x : Binary64) : Bool :=
  signWeight ≤ x.bits.toNat

/-- The magnitude of the infinities; those above it are not numbers. -/
def infiniteMagnitude : Nat :=
  0x7FF0000000000000

def isNaN (x : Binary64) : Bool :=
  infiniteMagnitude < x.magnitude

def isFinite (x : Binary64) : Bool :=
  x.magnitude < infiniteMagnitude

def biasedExponent (x : Binary64) : Nat :=
  x.magnitude / significandCount

/-- The whole significand: a finite number is `significand * 2 ^ exponent` up to its sign. -/
def significand (x : Binary64) : Nat :=
  if x.biasedExponent = 0 then x.magnitude else significandCount + x.magnitude % significandCount

def exponent (x : Binary64) : Int :=
  (max x.biasedExponent 1 : Nat) - 1075

def zero : Binary64 :=
  ⟨0⟩

def infinity : Binary64 :=
  ⟨0x7FF0000000000000⟩

def infinite (negative : Bool) : Binary64 :=
  if negative then ⟨0xFFF0000000000000⟩ else infinity

def nan : Binary64 :=
  ⟨0x7FF8000000000000⟩

def neg (x : Binary64) : Binary64 :=
  ⟨x.bits ^^^ 0x8000000000000000⟩

/-- Orders the numbers other than NaN by value; both zeros have the key zero. -/
def key (x : Binary64) : Int :=
  if x.isNegative then -(x.magnitude : Int) else x.magnitude

def le (x y : Binary64) : Bool :=
  !x.isNaN && !y.isNaN && x.key ≤ y.key

def lt (x y : Binary64) : Bool :=
  !x.isNaN && !y.isNaN && x.key < y.key

/-- Equality of values: the zeros are equal, and NaN equals nothing. -/
def same (x y : Binary64) : Bool :=
  !x.isNaN && !y.isNaN && x.key = y.key

/-- Orders all bit patterns: by value, the negative zero below the positive one, NaN at the ends. -/
def totalKey (x : Binary64) : Int :=
  if x.isNegative then -(x.magnitude : Int) - 1 else x.magnitude

def totalLe (x y : Binary64) : Bool :=
  x.totalKey ≤ y.totalKey

/-- The lesser of two numbers; NaN gives way to a number. -/
def minimum (x y : Binary64) : Binary64 :=
  if x.isNaN then y else if y.isNaN then x else if y.key < x.key then y else x

/-- The whole number nearest to `num / den`, the even one of two equally near. -/
def roundHalfEven (num den : Nat) : Nat :=
  let quotient := num / den
  let twice := 2 * (num % den)
  if den < twice ∨ (twice = den ∧ quotient % 2 = 1) then quotient + 1 else quotient

/-- The exponent of the greatest power of two not above `num / den`, both positive. -/
def binaryExponent (num den : Nat) : Int :=
  let guess : Int := (num.log2 : Int) - den.log2
  if num * Nat.pow 2 (-guess).toNat < den * Nat.pow 2 guess.toNat then guess - 1 else guess

/-- The bits of the magnitude nearest to `num / den`, those of an even significand of two equally near,
and those of infinity beyond the range. -/
def nearestMagnitude (num den : Nat) : Nat :=
  if num = 0 then 0
  else
    let e := max (binaryExponent num den) (-1022)
    let shift := e - 52
    let m := roundHalfEven (num * Nat.pow 2 (-shift).toNat) (den * Nat.pow 2 shift.toNat)
    min ((e + 1022).toNat * significandCount + m) infiniteMagnitude

def ofMagnitude (negative : Bool) (magnitude : Nat) : Binary64 :=
  ⟨(if negative then magnitude + signWeight else magnitude).toUInt64⟩

/-- The double of the given sign that is nearest to `num / den`. -/
def ofRatio (negative : Bool) (num den : Nat) : Binary64 :=
  ofMagnitude negative (nearestMagnitude num den)

def ofNat (n : Nat) : Binary64 :=
  ofRatio false n 1

def ofInt (i : Int) : Binary64 :=
  ofRatio (i < 0) i.natAbs 1

def fraction (part whole : Nat) : Binary64 :=
  ofRatio false part whole

/-- A finite number is `num / den` up to its sign. -/
def num (x : Binary64) : Nat :=
  x.significand * Nat.pow 2 x.exponent.toNat

def den (x : Binary64) : Nat :=
  Nat.pow 2 (-x.exponent).toNat

def signedNum (x : Binary64) : Int :=
  if x.isNegative then -(x.num : Int) else x.num

/-- The sum, rounded. A sum of zero is negative only if both numbers are, and infinities of both signs
have none. -/
def add (x y : Binary64) : Binary64 :=
  if x.isNaN || y.isNaN then nan
  else if x.isFinite && y.isFinite then
    let sum := x.signedNum * y.den + y.signedNum * x.den
    ofRatio (if sum = 0 then x.isNegative && y.isNegative else sum < 0) sum.natAbs (x.den * y.den)
  else if x.isFinite then y
  else if y.isFinite || x == y then x
  else nan

def sub (x y : Binary64) : Binary64 :=
  add x y.neg

/-- The product, rounded; an infinity has none with zero. -/
def mul (x y : Binary64) : Binary64 :=
  let negative := x.isNegative != y.isNegative
  if x.isNaN || y.isNaN then nan
  else if x.isFinite && y.isFinite then ofRatio negative (x.num * y.num) (x.den * y.den)
  else if x.magnitude = 0 || y.magnitude = 0 then nan
  else infinite negative

/-- The quotient, rounded; two infinities have none, nor have two zeros. -/
def div (x y : Binary64) : Binary64 :=
  let negative := x.isNegative != y.isNegative
  if x.isNaN || y.isNaN then nan
  else if !y.isFinite then if x.isFinite then ofRatio negative 0 1 else nan
  else if y.magnitude = 0 then if x.magnitude = 0 then nan else infinite negative
  else if x.isFinite then ofRatio negative (x.num * y.den) (x.den * y.num)
  else infinite negative

instance : Add Binary64 := ⟨add⟩
instance : Sub Binary64 := ⟨sub⟩
instance : Mul Binary64 := ⟨mul⟩
instance : Div Binary64 := ⟨div⟩
instance : Neg Binary64 := ⟨neg⟩

/-- The least whole number not below `x`; it keeps the sign of `x`. -/
def ceil (x : Binary64) : Binary64 :=
  if x.isFinite then
    let whole := x.num / x.den
    ofRatio x.isNegative (if x.num % x.den = 0 ∨ x.isNegative then whole else whole + 1) 1
  else x

/-- The nearest whole number, the one farther from zero of two equally near; it keeps the sign. -/
def round (x : Binary64) : Binary64 :=
  if x.isFinite then
    let whole := x.num / x.den
    ofRatio x.isNegative (if x.den ≤ 2 * (x.num % x.den) then whole + 1 else whole) 1
  else x

end Binary64

end PageLoads
