import PageLoads.Fault
import PageLoads.Frame.Bits

/-!
# Heads

What stands at the beginning of a frame: four bytes by which it is known, and then the fields that say
what a reader has to be prepared for. A frame of another kind is skipped by its length.
-/

namespace PageLoads.Frame

open LittleEndian (number)

def magic : Bytes :=
  [0x28, 0xB5, 0x2F, 0xFD]

/-- How a skipped frame begins, after a first byte of which the low half is free. -/
def skippedMagic : Bytes :=
  [0x2A, 0x4D, 0x18]

def outdatedMagics : List Bytes :=
  [[0xFD, 0x2F, 0xB5, 0x1E], [0x22, 0xB5, 0x2F, 0xFD], [0x23, 0xB5, 0x2F, 0xFD]]

/-- Whether bytes are the beginning of others, or begin with these. -/
def agree (a b : Bytes) : Bool :=
  a.isPrefixOf b || b.isPrefixOf a

/-- Whether bytes begin a frame, as far as they go. -/
def begins : Bytes → Bool
  | [] => true
  | b :: rest => agree magic (b :: rest) || (b.toNat / 16 = 5 && agree skippedMagic rest)

structure Head where
  /-- How far back the content may refer. -/
  window : Nat
  size : Option Nat
  checked : Bool
  /-- The number of the dictionary that the content refers to; zero stands for none. -/
  dictionary : Nat
  deriving DecidableEq, Repr

namespace Head

def windowLimit : Nat :=
  4026531840

def memoryLimit : Nat :=
  134217729

def blockLimit : Nat :=
  131072

def windowMinimum : Nat :=
  1024

def windowOf (b : Nat) : Nat :=
  let base := Nat.pow 2 (b / 8 + 10)
  base + base / 8 * (b % 8)

def unknownSize : Nat :=
  18446744073709551615

def block (head : Head) : Nat :=
  min head.window blockLimit

/-- Reads the head behind the magic: this, and the bytes behind it, or nothing if it is not there as a
whole. The bits of the first byte tell which fields follow: the window, a dictionary, and the size of
the content, which stands for the window where there is none. -/
def read : Bytes → Except IoFault (Option (Head × Bytes))
  | [] => .ok none
  | descriptor :: rest =>
    let bits := descriptor.toNat
    let single := bits / 32 % 2
    let windowLength := 1 - single
    let dictionaryLength := [0, 1, 2, 4].getD (bits % 4) 0
    let sizeLength := [single, 2, 4, 8].getD (bits / 64) 0
    let length := windowLength + dictionaryLength + sizeLength
    let windowByte := number (rest.take windowLength)
    let dictionary := number ((rest.drop windowLength).take dictionaryLength)
    let field := number ((rest.drop (windowLength + dictionaryLength)).take sizeLength)
    let size := field + (if sizeLength = 2 then 256 else 0)
    if (rest.take length).length < length then .ok none
    else if bits / 8 % 2 = 1 then .error .unsupportedFrame
    else if single = 0 ∧ windowLimit < windowOf windowByte then .error .oversizedFrame
    else .ok (some (
      { window := if single = 1 then size else windowOf windowByte
        size := if sizeLength = 0 ∨ size = unknownSize then none else some size
        checked := bits / 4 % 2 = 1
        dictionary }, rest.drop length))

theorem length_of_read {bytes rest : Bytes} {head : Head} (h : read bytes = .ok (some (head, rest))) :
    rest.length < bytes.length := by
  unfold read at h
  split at h
  · cases h
  · dsimp only at h
    repeat' split at h
    all_goals
      cases h
    all_goals
      simp only [List.length_cons, List.length_drop]
      omega

end Head

end PageLoads.Frame
