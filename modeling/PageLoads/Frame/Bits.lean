import PageLoads.Number.LittleEndian

/-!
# Bits

Bytes as a row of bits, the lowest bit of each byte first, and the numbers that stand in it. Some rows
are read from the front, at a place that the reader keeps. Others are stacks: they are read from the
end backward, and the highest one in the last byte only marks where the end is. A stack can be
overdrawn; that is no fault yet, for the reader looks at the end whether the bits were used up.
-/

namespace PageLoads.Frame

open LittleEndian (number)

/-- The number in `count` bits from the bit `first` on. Bits beyond the bytes are zero. -/
def bitsAt (bytes : Array UInt8) (first count : Nat) : Nat :=
  let covering := (List.range ((first % 8 + count + 7) / 8)).map fun i => bytes.getD (first / 8 + i) 0
  number covering / Nat.pow 2 (first % 8) % Nat.pow 2 count

def wordSize : Nat :=
  64

structure BitStack where
  bytes : Array UInt8
  /-- How many bits are still to be read; less than zero, if it was overdrawn. -/
  left : Int

namespace BitStack

/-- The bits below the mark in the last byte. -/
def ofBytes? (bytes : Bytes) : Option BitStack :=
  match bytes.getLast? with
  | none => none
  | some last =>
    if last = 0 then none else some ⟨bytes.toArray, 8 * (bytes.length - 1) + last.toNat.log2⟩

/-- The number in the next `count` bits. Bits that are missing are zero, and a stack that is used up
begins again with the word at its bottom. -/
def peek (bits : BitStack) (count : Nat) : Nat :=
  let left := if 0 < bits.left then bits.left.toNat else wordSize - (-bits.left).toNat % wordSize
  if count ≤ left then bitsAt bits.bytes (left - count) count
  else bitsAt bits.bytes 0 left * Nat.pow 2 (count - left)

def drop (bits : BitStack) (count : Nat) : BitStack :=
  { bits with left := bits.left - count }

def pop (bits : BitStack) (count : Nat) : Nat × BitStack :=
  (bits.peek count, bits.drop count)

/-- The number in the next `count` bits, and what is left behind them. Where bits are missing, it is
cut out of the word at the bottom, at the place that they would have in an endless row of it. -/
def turn (bits : BitStack) (count : Nat) : Nat × BitStack :=
  let value :=
    if count ≤ bits.left then bitsAt bits.bytes (bits.left - count).toNat count
    else bitsAt bits.bytes 0 wordSize / Nat.pow 2 ((bits.left - count) % wordSize).toNat % Nat.pow 2 count
  (value, bits.drop count)

end BitStack

end PageLoads.Frame
