import PageLoads.Frame.Sequences

/-!
# Blocks

A frame holds its content in blocks. Each has a head that tells its form and whether it is the last one.
A block holds its bytes as they are, or one byte that is repeated, or literals and sequences, which may
refer to what earlier blocks left behind.
-/

namespace PageLoads.Frame

open LittleEndian (number)

inductive BlockForm where
  | stored
  | repeated
  | packed
  deriving DecidableEq, Repr

structure BlockHead where
  last : Bool
  form : BlockForm
  size : Nat
  deriving DecidableEq, Repr

namespace BlockHead

def length : Nat :=
  3

def ofNumber? (n : Nat) : Option BlockHead :=
  [BlockForm.stored, .repeated, .packed][n / 2 % 4]?.map fun form => ⟨n % 2 = 1, form, n / 8⟩

def extent (head : BlockHead) : Nat :=
  if head.form = .repeated then 1 else head.size

end BlockHead

/-- What the blocks of a frame leave behind for later ones. -/
structure Memory where
  content : Array UInt8
  code : Option PrefixCode
  tables : Option SequenceTables
  distances : Distances

namespace Memory

def empty : Memory :=
  ⟨#[], none, none, Distances.initial⟩

def append (memory : Memory) (bytes : Array UInt8) : Memory :=
  { memory with content := memory.content ++ bytes }

def since (memory : Memory) (start : Nat) : Bytes :=
  (memory.content.extract start memory.content.size).toList

end Memory

structure Space where
  limit : Nat
  /-- How many bytes there is room for. -/
  room : Nat
  /-- How many bytes before it can be copied. -/
  reach : Nat
  /-- Whether the room is that for a whole frame. -/
  whole : Bool

namespace Space

/-- How many bytes a packed block can fill. If there is enough room for a whole frame, the literals that
are not used in place are put at its end. -/
def filled (space : Space) (literals : Literals) : Nat :=
  if space.whole ∧ !literals.inPlace ∧ space.limit + 2 * stride + literals.bytes.size < space.room then
    space.limit + stride
  else space.room

def unpack (space : Space) (memory : Memory) (block : Bytes) : Except IoFault Memory := do
  if space.limit < block.length then throw .truncatedPart
  let ⟨content, code, tables, distances⟩ := memory
  let literals ← Literals.read space.limit space.room code block
  let head ← SequenceHead.read tables literals.rest
  if space.room = 0 ∧ head.count ≠ 0 then throw .overfullFrame
  let start := content.size
  let assembly : Assembly :=
    { content
      start
      reach := space.reach
      limit := start + space.filled literals
      literals := literals.bytes
      taken := 0 }
  match head.tables with
  | none => return ⟨← assembly.finish, literals.code, tables, distances⟩
  | some tables =>
    match BitStack.ofBytes? head.rest with
    | none => throw .corruptFrame
    | some bits =>
      let (states, bits) := SequenceStates.first tables bits
      let (assembly, distances) ← assembly.run tables distances states bits head.count
      return ⟨← assembly.finish, literals.code, some tables, distances⟩

def add (space : Space) (memory : Memory) (bytes : Array UInt8) : Except IoFault Memory :=
  if space.room < bytes.size then .error .overfullFrame else .ok (memory.append bytes)

def read (space : Space) (memory : Memory) (head : BlockHead) (block : Bytes) : Except IoFault Memory :=
  match head.form with
  | .stored => space.add memory block.toArray
  | .repeated =>
    if space.room < head.size then .error .overfullFrame
    else .ok (memory.append (Array.replicate head.size (block.headD 0)))
  | .packed => space.unpack memory block

end Space

end PageLoads.Frame
