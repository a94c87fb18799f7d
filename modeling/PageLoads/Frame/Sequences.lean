import PageLoads.Frame.Literals

/-!
# Sequences

Behind its literals a compressed block holds sequences, from which its content is put together. A
sequence takes the next few literals and then copies bytes that stand some distance before. Its three
numbers are spelled as symbols with more bits behind them, each kind of symbol by a state table; a table
stands in the block, or is a fixed one, or is that of an earlier block. Literals that no sequence takes
end the content.
-/

namespace PageLoads.Frame

open LittleEndian (number)

/-- The number of bits behind each symbol for a number of literals. -/
def literalBits : List Nat :=
  List.replicate 16 0 ++ [1, 1, 1, 1, 2, 2, 3, 3, 4] ++ (List.range 11).map (· + 6)

/-- The number of bits behind each symbol for a number of copied bytes. -/
def matchBits : List Nat :=
  List.replicate 32 0 ++ [1, 1, 1, 1, 2, 2, 3, 3, 4, 4, 5] ++ (List.range 10).map (· + 7)

/-- The number from which a symbol counts, where the first one counts from `first` and each goes as far
as its bits allow. -/
def baseOf (bits : List Nat) (first symbol : Nat) : Nat :=
  (bits.take symbol).foldl (fun base bits => base + Nat.pow 2 bits) first

inductive Part where
  | literals
  | distance
  | copied
  deriving DecidableEq, Repr

namespace Part

def symbolLimit : Part → Nat
  | .literals => 35
  | .distance => 31
  | .copied => 52

def accuracyLimit : Part → Nat
  | .literals => 9
  | .distance => 8
  | .copied => 9

def fixedTable : Part → StateTable
  | .literals => StateTable.ofShares 6
    ([4, 3] ++ List.replicate 11 2 ++ [1, 1, 1] ++ List.replicate 9 2 ++ [3, 2, 1, 1, 1, 1, 1] ++
      List.replicate 4 (-1))
  | .distance => StateTable.ofShares 5
    (List.replicate 6 1 ++ [2, 2, 2] ++ List.replicate 15 1 ++ List.replicate 5 (-1))
  | .copied => StateTable.ofShares 6
    ([1, 4, 3] ++ List.replicate 6 2 ++ List.replicate 37 1 ++ List.replicate 7 (-1))

/-- Reads a table in the form that a number says: this, and the bytes behind it. -/
def readTable? (part : Part) (form : Nat) (earlier : Option StateTable) (bytes : Bytes) :
    Option (StateTable × Bytes) :=
  match form % 4, bytes with
  | 0, bytes => some (part.fixedTable, bytes)
  | 1, symbol :: rest =>
    if part.symbolLimit < symbol.toNat then none else some (StateTable.constant symbol.toNat, rest)
  | 1, [] => none
  | 2, bytes => do
    let (accuracy, shares, size) ← Shares.read? (part.symbolLimit + 1) bytes.toArray
    if part.accuracyLimit < accuracy then none
    else some (StateTable.ofShares accuracy shares, bytes.drop size)
  | _, bytes => earlier.map fun table => (table, bytes)

end Part

structure SequenceTables where
  literals : StateTable
  distance : StateTable
  copied : StateTable

/-- How many sequences there are, if there are any their tables, and the bytes behind these. -/
structure SequenceHead where
  count : Nat
  tables : Option SequenceTables
  rest : Bytes

def readCount : Bytes → Except IoFault (Nat × Bytes)
  | [] => .error .truncatedPart
  | b :: rest =>
    if b.toNat < 128 then .ok (b.toNat, rest)
    else if b.toNat < 255 then
      match rest with
      | c :: rest => .ok ((b.toNat - 128) * 256 + c.toNat, rest)
      | [] => .error .truncatedPart
    else
      match rest with
      | c :: d :: rest => .ok (number [c, d] + 32512, rest)
      | _ => .error .truncatedPart

/-- Reads three tables, whose forms a byte tells: these, and the bytes behind them. -/
def SequenceTables.read? (earlier : Option SequenceTables) (forms : Nat) (bytes : Bytes) :
    Option (SequenceTables × Bytes) := do
  if forms % 4 ≠ 0 then none
  let (literals, bytes) ← Part.literals.readTable? (forms / 64) (earlier.map SequenceTables.literals) bytes
  let (distance, bytes) ← Part.distance.readTable? (forms / 16) (earlier.map SequenceTables.distance) bytes
  let (copied, bytes) ← Part.copied.readTable? (forms / 4) (earlier.map SequenceTables.copied) bytes
  return (⟨literals, distance, copied⟩, bytes)

def SequenceHead.read (earlier : Option SequenceTables) (bytes : Bytes) : Except IoFault SequenceHead := do
  let (count, rest) ← readCount bytes
  match count, rest with
  | 0, [] => return ⟨0, none, []⟩
  | 0, _ => throw .corruptFrame
  | _, [] => throw .truncatedPart
  | count, forms :: rest =>
    match SequenceTables.read? earlier forms.toNat rest with
    | some (tables, rest) => return ⟨count, some tables, rest⟩
    | none => throw .corruptFrame

/-- The last three distances, the latest first. -/
structure Distances where
  first : Nat
  second : Nat
  third : Nat
  deriving DecidableEq, Repr

namespace Distances

def initial : Distances :=
  ⟨1, 4, 8⟩

def push (distances : Distances) (distance : Nat) : Distances :=
  ⟨distance, distances.first, distances.second⟩

/-- The distances after an earlier one is told by its index, where the last index stands for one less
than the latest. -/
def bringForward (distances : Distances) (index : Nat) : Distances :=
  match index with
  | 0 => distances
  | 1 => ⟨distances.second, distances.first, distances.third⟩
  | 2 => ⟨distances.third, distances.first, distances.second⟩
  | _ => distances.push (distances.first - 1)

end Distances

structure SequenceStates where
  literals : TableState
  distance : TableState
  copied : TableState

namespace SequenceStates

def first (tables : SequenceTables) (bits : BitStack) : SequenceStates × BitStack :=
  let (literals, bits) := tables.literals.first bits
  let (distance, bits) := tables.distance.first bits
  let (copied, bits) := tables.copied.first bits
  (⟨literals, distance, copied⟩, bits)

def next (tables : SequenceTables) (states : SequenceStates) (bits : BitStack) :
    SequenceStates × BitStack :=
  let (literals, bits) := tables.literals.next states.literals bits
  let (copied, bits) := tables.copied.next states.copied bits
  let (distance, bits) := tables.distance.next states.distance bits
  (⟨literals, distance, copied⟩, bits)

end SequenceStates

/-- How many literals a sequence takes, and how many bytes it copies. The distance is the latest one. -/
structure Sequence where
  literals : Nat
  copied : Nat
  distances : Distances

/-- Reads the sequence of some states: this, and what is left behind it. A sequence that takes no
literals does not repeat the latest distance, so its indices of distances count from the second one. -/
def Sequence.read (states : SequenceStates) (distances : Distances) (bits : BitStack) :
    Sequence × BitStack :=
  let code := states.distance.symbol
  let (distanceBits, bits) := bits.pop code
  let shift := if states.literals.symbol = 0 then 1 else 0
  let distances :=
    if 1 < code then distances.push (Nat.pow 2 code + distanceBits - 3)
    else distances.bringForward (code + shift + distanceBits)
  let (copiedBits, bits) := bits.pop (matchBits.getD states.copied.symbol 0)
  let (literalsBits, bits) := bits.pop (literalBits.getD states.literals.symbol 0)
  (⟨baseOf literalBits 0 states.literals.symbol + literalsBits,
    baseOf matchBits 3 states.copied.symbol + copiedBits, distances⟩, bits)

/-- Copies bytes that stand some distance before the end. Those copied may be copied again. -/
def copyBack (content : Array UInt8) (distance : Nat) : (count : Nat) → Array UInt8
  | 0 => content
  | count + 1 => copyBack (content.push (content.getD (content.size - distance) 0)) distance count

/-- What a block is put together in: the bytes before it, of which the last `reach` can be copied, and
its own so far, which must end by `limit`; and the literals from the one at `taken` on. -/
structure Assembly where
  content : Array UInt8
  start : Nat
  reach : Nat
  limit : Nat
  literals : Array UInt8
  taken : Nat

namespace Assembly

def take (assembly : Assembly) (count : Nat) : Assembly :=
  { assembly with
    content := assembly.content ++ assembly.literals.extract assembly.taken (assembly.taken + count)
    taken := assembly.taken + count }

def apply (assembly : Assembly) (sequence : Sequence) : Except IoFault Assembly :=
  let distance := sequence.distances.first
  let reached := assembly.content.size + sequence.literals - assembly.start + assembly.reach
  if assembly.limit < assembly.content.size + sequence.literals + sequence.copied then .error .overfullFrame
  else if assembly.literals.size < assembly.taken + sequence.literals then .error .corruptFrame
  else if distance = 0 ∨ reached < distance then .error .corruptFrame
  else
    let assembly := assembly.take sequence.literals
    .ok { assembly with content := copyBack assembly.content distance sequence.copied }

/-- Reads sequences and does what they say. They must use up all bits. -/
def run (tables : SequenceTables) (assembly : Assembly) (distances : Distances) (states : SequenceStates)
    (bits : BitStack) : (count : Nat) → Except IoFault (Assembly × Distances)
  | 0 => if bits.left = 0 then .ok (assembly, distances) else .error .corruptFrame
  | count + 1 =>
    let (sequence, bits) := Sequence.read states distances bits
    match assembly.apply sequence with
    | .error fault => .error fault
    | .ok assembly =>
      let (states, bits) := if count = 0 then (states, bits) else states.next tables bits
      run tables assembly sequence.distances states bits count

def finish (assembly : Assembly) : Except IoFault (Array UInt8) :=
  let left := assembly.literals.size - assembly.taken
  if assembly.limit < assembly.content.size + left then .error .overfullFrame
  else .ok (assembly.take left).content

end Assembly

end PageLoads.Frame
