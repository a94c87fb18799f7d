import PageLoads.Frame.Bits

/-!
# State tables

A way to spell symbols in fractions of bits. There are as many states as a power of two says; each
stands for a symbol, and the next state is found by adding the next few bits to a base. How many states
a symbol has is its share; a symbol that is rarer than any share has one state at the end of the table.
-/

namespace PageLoads.Frame

/-- A state: its symbol, and how many bits lead on from which base. -/
structure TableState where
  symbol : Nat
  bits : Nat
  base : Nat
  deriving Inhabited

structure StateTable where
  /-- The power of two that counts the states. -/
  accuracy : Nat
  states : Array TableState

/-- The shares of the symbols from zero on. The share of a rare symbol is `-1`. -/
abbrev Shares := List Int

namespace Shares

/-- The place at which reading goes on after a number. Beyond the bytes, of which there are at least
eight, the last four are read again. -/
def resume (size place : Nat) : Nat :=
  if 8 * max 8 size ≤ place then place - 32 else place

/-- How many symbols are left out, as codes of two bits tell from the bit `place` on, and the place
behind them. The code three stands for three symbols and another code. `limit` bounds the codes. -/
def gap (bytes : Array UInt8) (place : Nat) : (limit : Nat) → Nat × Nat
  | 0 => (0, place)
  | limit + 1 =>
    match bitsAt bytes place 2 with
    | 3 =>
      let (count, place) := gap bytes (place + 2) limit
      (count + 3, place)
    | count => (count, place + 2)

/-- Reads shares for at most `symbols` symbols from the bit `place` on, until they use up all but one of
`points`; they follow those in `done`, the last first. A share is written in as few bits as the points
that are left allow. -/
def readFrom (bytes : Array UInt8) (symbols place points : Nat) (done : Shares) : Option (Shares × Nat) :=
  match symbols with
  | 0 => none
  | symbols + 1 =>
    let width := points.log2
    let half := Nat.pow 2 width
    let spare := 2 * half - 1 - points
    let low := bitsAt bytes place width
    let full := bitsAt bytes place (width + 1)
    let value := if low < spare then low else if full < half then full else full - spare
    let place := if low < spare then place + width else place + width + 1
    let points := points - (if value = 0 then 1 else value - 1)
    let done := ((value : Int) - 1) :: done
    if points ≤ 1 then some (done.reverse, place)
    else
      let place := resume bytes.size place
      if value = 1 then
        let (count, place) := gap bytes place symbols
        if symbols ≤ count then none
        else
          readFrom bytes (symbols - count) (resume bytes.size place) points (List.replicate count 0 ++ done)
      else readFrom bytes symbols place points done
termination_by symbols
decreasing_by all_goals omega

/-- Reads the accuracy of a table and the shares in it, for at most `symbols` symbols: these, and how
many bytes they take. -/
def read? (symbols : Nat) (bytes : Array UInt8) : Option (Nat × Shares × Nat) := do
  let accuracy := bitsAt bytes 0 4 + 5
  if 15 < accuracy then none
  let (shares, place) ← readFrom bytes symbols 4 (Nat.pow 2 accuracy + 1) []
  if 8 * bytes.size < place then none
  return (accuracy, shares, (place + 7) / 8)

/-- The symbols that have a place at the end of the table, in ascending order. -/
def rare (shares : Shares) : List Nat :=
  shares.zipIdx.filterMap fun (share, symbol) => if share = -1 then some symbol else none

/-- The symbols in the order in which they are given places, each as often as its share says. -/
def common (shares : Shares) : List Nat :=
  shares.zipIdx.flatMap fun (share, symbol) => List.replicate share.toNat symbol

end Shares

namespace StateTable

/-- The places of a table of `size` states in the order in which they are given to symbols, but for the
last `reserved` ones. -/
def places (size reserved : Nat) : List Nat :=
  ((List.range size).map fun i => i * (size / 2 + size / 8 + 3) % size).filter (· < size - reserved)

def symbols (size : Nat) (shares : Shares) : Array Nat :=
  let rare := shares.rare
  let table := ((places size rare.length).zip shares.common).foldl
    (fun table (place, symbol) => table.setIfInBounds place symbol) (Array.replicate size 0)
  rare.zipIdx.foldl (fun table (symbol, i) => table.setIfInBounds (size - 1 - i) symbol) table

/-- The table in which symbols have some shares. The states of a symbol are numbered from its share on,
and the number of a state tells how many bits lead on from it. -/
def ofShares (accuracy : Nat) (shares : Shares) : StateTable :=
  let size := Nat.pow 2 accuracy
  let numbers : Array Nat := (shares.map fun share => if share = -1 then 1 else share.toNat).toArray
  let (_, states) := (symbols size shares).foldl
    (fun ((numbers : Array Nat), (states : Array TableState)) symbol =>
      let n := numbers.getD symbol 0
      let bits := accuracy - n.log2
      (numbers.setIfInBounds symbol (n + 1), states.push ⟨symbol, bits, n * Nat.pow 2 bits - size⟩))
    (numbers, #[])
  ⟨accuracy, states⟩

/-- The table with one state, which leads to itself. -/
def constant (symbol : Nat) : StateTable :=
  ⟨0, #[⟨symbol, 0, 0⟩]⟩

def first (table : StateTable) (bits : BitStack) : TableState × BitStack :=
  let (index, rest) := bits.turn table.accuracy
  (table.states.getD index default, rest)

def next (table : StateTable) (state : TableState) (bits : BitStack) : TableState × BitStack :=
  let (index, rest) := bits.turn state.bits
  (table.states.getD (state.base + index) default, rest)

end StateTable

end PageLoads.Frame
