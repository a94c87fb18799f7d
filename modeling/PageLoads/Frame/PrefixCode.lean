import PageLoads.Frame.Weights

/-!
# Prefix codes

Codes of whole bits for bytes. A reader looks at a window of bits, in which one code stands, or two if it
takes bytes in pairs. Bytes that are coded in one stream must use up its bits.
-/

namespace PageLoads.Frame

structure PrefixCode where
  depth : Nat
  /-- For each row of `depth` bits, the byte whose code it begins with and the length of that. -/
  entries : Array (UInt8 × Nat)
  /-- Whether bytes are taken in pairs. -/
  inPairs : Bool

namespace PrefixCode

def depthLimit : Nat :=
  12

/-- The part of the rows of bits that a byte of some weight has. -/
def portion (weight : Nat) : Nat :=
  Nat.pow 2 weight / 2

/-- The code of some weights, to which that of the last byte is added. There must be two codes of the
full depth, or four, and so on. -/
def ofWeights? (inPairs : Bool) (weights : List Nat) : Option PrefixCode :=
  let total := weights.foldl (fun total weight => total + portion weight) 0
  let depth := total.log2 + 1
  let missing := Nat.pow 2 depth - total
  let weights := weights ++ [missing.log2 + 1]
  let deepest := weights.count 1
  if total = 0 ∨ depthLimit < depth ∨ weights.any (depthLimit < ·) then none
  else if Nat.pow 2 missing.log2 ≠ missing ∨ deepest < 2 ∨ deepest % 2 = 1 then none
  else
    let entries := (List.range depth).flatMap fun i =>
      weights.zipIdx.flatMap fun (weight, byte) =>
        if weight = i + 1 then List.replicate (portion weight) (byte.toUInt8, depth - i) else []
    some ⟨depth, entries.toArray, inPairs⟩

def read? (inPairs : Bool) (bytes : Bytes) : Option (PrefixCode × Bytes) := do
  let (weights, rest) ← Weights.read? bytes
  return (← ofWeights? inPairs weights, rest)

def usualWindow : Nat :=
  11

def window (code : PrefixCode) : Nat :=
  max code.depth usualWindow

/-- The byte whose code a window begins with, and the length of that. -/
def entry (code : PrefixCode) (bits : Nat) : UInt8 × Nat :=
  code.entries.getD (bits / Nat.pow 2 (code.window - code.depth)) (0, 0)

/-- What stands in a window: a byte, perhaps another one, and the length of their codes. -/
structure Sight where
  first : UInt8
  second : Option UInt8
  length : Nat

def look (code : PrefixCode) (bits : Nat) : Sight :=
  let (first, length) := code.entry bits
  let (second, more) := code.entry (bits * Nat.pow 2 length % Nat.pow 2 code.window)
  if code.inPairs ∧ length + more ≤ code.window then ⟨first, some second, length + more⟩
  else ⟨first, none, length⟩

end PrefixCode

/-- A stream of codes that is read up to some number of bytes. -/
structure Lane where
  bits : BitStack
  done : Array UInt8
  target : Nat

namespace Lane

def step (code : PrefixCode) (lane : Lane) : Lane :=
  let sight := code.look (lane.bits.peek code.window)
  let done := lane.done.push sight.first
  { lane with
    bits := lane.bits.drop sight.length
    done := match sight.second with
      | some second => done.push second
      | none => done }

/-- Takes the last byte. If another one stands in the window, its bits are taken as well, as far as there
are any. -/
def last (code : PrefixCode) (lane : Lane) : Lane :=
  let sight := code.look (lane.bits.peek code.window)
  let left := lane.bits.left - sight.length
  let bits := match sight.second with
    | none => { lane.bits with left }
    | some _ => if 0 < lane.bits.left then { lane.bits with left := max left 0 } else lane.bits
  { lane with bits, done := lane.done.push sight.first }

/-- Takes bytes until all are there. `limit` bounds the steps. -/
def fill (code : PrefixCode) (lane : Lane) : (limit : Nat) → Lane
  | 0 => lane
  | limit + 1 =>
    if lane.target ≤ lane.done.size then lane
    else if lane.target = lane.done.size + 1 then lane.last code
    else fill code (lane.step code) limit

end Lane

/-- The `count` bytes that a stream of bits spells. -/
def PrefixCode.decode? (code : PrefixCode) (count : Nat) (stream : Bytes) : Option (Array UInt8) := do
  let lane : Lane := { bits := ← BitStack.ofBytes? stream, done := #[], target := count }
  let lane := lane.fill code count
  if lane.bits.left = 0 then some lane.done else none

end PageLoads.Frame
