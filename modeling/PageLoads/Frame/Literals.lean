import PageLoads.Fault
import PageLoads.Frame.Quarters

/-!
# Literals

A compressed block begins with its literals: the bytes that it does not take from what stands before
it. They stand there as they are, or as one byte that is repeated, or in a prefix code. The code stands
in front of them, or is that of an earlier block.
-/

namespace PageLoads.Frame

open LittleEndian (number)

structure Literals where
  bytes : Array UInt8
  /-- The code for later blocks. -/
  code : Option PrefixCode
  /-- Whether the literals are used where they stand. -/
  inPlace : Bool
  rest : Bytes

/-- How many bytes are copied at once, however few are needed. -/
def stride : Nat :=
  32

namespace Literals

inductive Form where
  | plain
  | repeated
  | coded
  /-- In the code of an earlier block. -/
  | codedAsBefore
  deriving DecidableEq, Repr

def Form.ofNumber (n : Nat) : Form :=
  [Form.plain, .repeated, .coded, .codedAsBefore].getD (n % 4) .plain

/-- Refuses more literals than a block or the room for it may hold. -/
def check (limit room size : Nat) : Except IoFault Unit :=
  if limit < size then .error .corruptFrame
  else if room < size then .error .overfullFrame
  else .ok ()

/-- Reads literals that stand in a block as they are, or as one byte. -/
def readPlain (limit room : Nat) (code : Option PrefixCode) (isRepeated : Bool) (block : Bytes) :
    Except IoFault Literals := do
  let n := number (block.take 3)
  let width := [1, 2, 1, 3].getD (n / 4 % 4) 1
  let size := if width = 1 then n % 256 / 8 else number (block.take width) / 16
  if block.length < width + isRepeated.toNat then throw .corruptFrame
  check limit room size
  let rest := block.drop width
  if isRepeated then
    return ⟨Array.replicate size (rest.headD 0), code, false, rest.drop 1⟩
  else if rest.length < size then throw .corruptFrame
  else return ⟨(rest.take size).toArray, code, size + stride ≤ rest.length, rest.drop size⟩

/-- Reads literals in a code: that in front of them, or the given one. -/
def readCoded (limit room : Nat) (code : Option PrefixCode) (block : Bytes) : Except IoFault Literals := do
  if block.length < 5 then throw .corruptFrame
  let n := number (block.take 5)
  let format := n / 4 % 4
  let width := max 3 (format + 2)
  let bits := [10, 10, 14, 18].getD format 10
  let size := n / 16 % Nat.pow 2 bits
  let codedSize := n / 16 / Nat.pow 2 bits % Nat.pow 2 bits
  if limit < size then throw .corruptFrame
  if format ≠ 0 ∧ size < 6 then throw .badLiterals
  if block.length < width + codedSize then throw .corruptFrame
  if room < size then throw .overfullFrame
  let coded := (block.drop width).take codedSize
  let decoded? := do
    let (code, coded) ← match code with
      | some code => some (code, coded)
      | none => PrefixCode.read? (format ≠ 0 && pairsPay size codedSize) coded
    return (code, ← if format = 0 then code.decode? size coded else code.decodeFour? size coded)
  match decoded? with
  | none => throw .corruptFrame
  | some (code, bytes) => return ⟨bytes, some code, false, block.drop (width + codedSize)⟩

/-- Reads the literals of a block in which there are at most `limit` bytes, and room for `room`. -/
def read (limit room : Nat) (code : Option PrefixCode) (block : Bytes) : Except IoFault Literals :=
  if block.length < 2 then .error .corruptFrame
  else
    match Form.ofNumber (number (block.take 1)), code with
    | .plain, code => readPlain limit room code false block
    | .repeated, code => readPlain limit room code true block
    | .coded, _ => readCoded limit room none block
    | .codedAsBefore, some code => readCoded limit room (some code) block
    | .codedAsBefore, none => .error .missingCode

end Literals

end PageLoads.Frame
