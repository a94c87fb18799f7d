/-!
# UTF-8 text

Reading bytes as UTF-8. Malformed bytes are reported with the place of the first fault and its kind:
a sequence that no continuation could mend, with the number of bytes to skip, or the end of the
bytes in the middle of a sequence.
-/

namespace PageLoads

abbrev Bytes := List UInt8

namespace Text

inductive Utf8Fault where
  /-- The `length` bytes from `index` on begin no character. -/
  | invalid (length index : Nat)
  /-- The bytes end inside the character that begins at `index`. -/
  | incomplete (index : Nat)
  deriving DecidableEq, Repr

def Utf8Fault.message : Utf8Fault → String
  | .invalid length index => s!"invalid utf-8 sequence of {length} bytes from index {index}"
  | .incomplete index => s!"incomplete utf-8 byte sequence from index {index}"

/-- The ranges of bytes that may follow a first byte, one range a byte: empty for an ASCII
character, `none` for a byte that begins no character. -/
def continuationRanges (first : UInt8) : Option (List (UInt8 × UInt8)) :=
  let any : UInt8 × UInt8 := (0x80, 0xBF)
  if first ≤ 0x7F then some []
  else if 0xC2 ≤ first ∧ first ≤ 0xDF then some [any]
  else if first = 0xE0 then some [(0xA0, 0xBF), any]
  else if first = 0xED then some [(0x80, 0x9F), any]
  else if 0xE1 ≤ first ∧ first ≤ 0xEF then some [any, any]
  else if first = 0xF0 then some [(0x90, 0xBF), any, any]
  else if 0xF1 ≤ first ∧ first ≤ 0xF3 then some [any, any, any]
  else if first = 0xF4 then some [(0x80, 0x8F), any, any]
  else none

/-- The fault, if any, of one character whose first byte stands at `index` and whose next byte is
the one of number `seen`. -/
def sequenceFault (index seen : Nat) : List (UInt8 × UInt8) → Bytes → Option Utf8Fault
  | [], _ => none
  | _ :: _, [] => some (.incomplete index)
  | (lo, hi) :: ranges, b :: bytes =>
    if lo ≤ b ∧ b ≤ hi then sequenceFault index (seen + 1) ranges bytes else some (.invalid seen index)

/-- The first fault of the bytes, the first of which has the given index; `skip` counts the bytes
that belong to a character already checked. -/
def faultFrom (index skip : Nat) : Bytes → Option Utf8Fault
  | [] => none
  | b :: bytes =>
    if 0 < skip then faultFrom (index + 1) (skip - 1) bytes
    else
      match continuationRanges b with
      | none => some (.invalid 1 index)
      | some ranges =>
        match sequenceFault index 1 ranges bytes with
        | some fault => some fault
        | none => faultFrom (index + 1) ranges.length bytes

def toByteArray (bytes : Bytes) : ByteArray :=
  ⟨bytes.toArray⟩

def decode? (bytes : Bytes) : Option String :=
  String.fromUTF8? (toByteArray bytes)

def decode (bytes : Bytes) : Except Utf8Fault String :=
  match decode? bytes with
  | some text => .ok text
  | none => .error ((faultFrom 0 0 bytes).getD (.incomplete bytes.length))

def encode (text : String) : Bytes :=
  text.toUTF8.data.toList

end Text

end PageLoads
