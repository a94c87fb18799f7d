import PageLoads.Frame.StateTable

/-!
# Weights

A prefix code is told by the weights of the bytes: the greater the weight, the shorter the code, and
zero for a byte that does not occur. The weight of the last byte is left out; it is what is missing to a
power of two. Weights stand there in four bits each, or are spelled by two states of one table in turn.
-/

namespace PageLoads.Frame.Weights

/-- Weights of four bits each, the higher half of a byte first. -/
def plain (bytes : Bytes) : List Nat :=
  bytes.flatMap fun b => [b.toNat / 16, b.toNat % 16]

def symbolLimit (accuracy : Nat) : Nat :=
  if accuracy = 5 then 92 else 12

/-- The weights that two states spell in turn until the bits are overdrawn. The state whose turn is next
then has the last word. `limit` bounds the weights. -/
def turns (table : StateTable) (state other : TableState) (bits : BitStack) (done : List Nat) :
    (limit : Nat) → Option (List Nat)
  | 0 => none
  | limit + 1 =>
    let (next, bits) := table.next state bits
    if bits.left < 0 then some (other.symbol :: state.symbol :: done).reverse
    else turns table other next bits (state.symbol :: done) limit

def spelled? (bytes : Bytes) : Option (List Nat) := do
  let (accuracy, shares, size) ← Shares.read? 256 bytes.toArray
  if 6 < accuracy ∨ symbolLimit accuracy < shares.length then none
  let table := StateTable.ofShares accuracy shares
  let bits ← BitStack.ofBytes? (bytes.drop size)
  let (state, bits) := table.first bits
  let (other, bits) := table.first bits
  if bits.left < 0 then none else turns table state other bits [] 254

def read? : Bytes → Option (List Nat × Bytes)
  | [] => none
  | b :: rest =>
    let count := b.toNat - 127
    let size := if 128 ≤ b.toNat then (count + 1) / 2 else b.toNat
    if (rest.take size).length < size then none
    else if 128 ≤ b.toNat then some ((plain (rest.take size)).take count, rest.drop size)
    else (spelled? (rest.take size)).map fun weights => (weights, rest.drop size)

end PageLoads.Frame.Weights
