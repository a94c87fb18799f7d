import PageLoads.Fault
import PageLoads.Number.LittleEndian
import PageLoads.Store.Content

/-!
# Byte codecs

A codec writes values of a type as bytes and reads them back from the front of some content, leaving
what follows. Whole numbers are written in little-endian order in a fixed number of bytes, texts as their
length in bytes and their UTF-8, lists as their length and their items, and a choice as its index. A
number is read at once, and so is a text behind its length.
-/

namespace PageLoads

/-- Reading a value from the front of content: the value and the content left, or why there is none. -/
abbrev Read (α : Type) := Content → Except Cause (α × Content)

structure Codec (α : Type) where
  write : α → Bytes
  read : Read α

namespace Codec

variable {α β : Type}

def refuse (fault : DecodeFault) : Cause :=
  .fault (.undecodable fault)

def takeExactly (count : Nat) : Read Bytes := fun content =>
  match content.take count with
  | .error fault => .error (refuse (.io fault))
  | .ok none => .error (refuse .endOfBytes)
  | .ok (some found) => .ok found

def writeNat (width n : Nat) : Bytes :=
  LittleEndian.bytes width n

def readNat (width : Nat) : Read Nat := fun content =>
  (takeExactly width content).map fun (bytes, rest) => (LittleEndian.number bytes, rest)

def word32 : Codec UInt32 where
  write n := writeNat 4 n.toNat
  read content := (readNat 4 content).map fun (n, rest) => (n.toUInt32, rest)

def word64 : Codec UInt64 where
  write n := writeNat 8 n.toNat
  read content := (readNat 8 content).map fun (n, rest) => (n.toUInt64, rest)

def binary64 : Codec Binary64 where
  write x := word64.write x.bits
  read content := (word64.read content).map fun (bits, rest) => (⟨bits⟩, rest)

/-- The length in bytes from which on no memory can hold a text. -/
def textLimit : Nat :=
  UInt64.size / 2

def readText : Read String := fun content => do
  let (length, rest) ← readNat 8 content
  if textLimit ≤ length then throw (.crash .textTooLong)
  let (text, rest) ← takeExactly length rest
  match Text.decode text with
  | .ok text => return (text, rest)
  | .error fault => throw (refuse (.notText fault))

def text : Codec String where
  write s := writeNat 8 (Text.encode s).length ++ Text.encode s
  read := readText

def seq (first : Codec α) (second : Codec β) : Codec (α × β) where
  write := fun (a, b) => first.write a ++ second.write b
  read content := do
    let (a, rest) ← first.read content
    let (b, rest) ← second.read rest
    return ((a, b), rest)

/-- The same bytes for values of another form. -/
def imap (forth : α → β) (back : β → α) (codec : Codec α) : Codec β where
  write b := codec.write (back b)
  read content := (codec.read content).map fun (a, rest) => (forth a, rest)

/-- Reads `count` items behind those already read, which stand in reverse. -/
def readItems (item : Read α) (done : List α) : (count : Nat) → Read (List α)
  | 0, content => .ok (done.reverse, content)
  | count + 1, content =>
    match item content with
    | .ok (a, rest) => readItems item (a :: done) count rest
    | .error cause => .error cause

def list (item : Codec α) : Codec (List α) where
  write items := writeNat 8 items.length ++ items.flatMap item.write
  read content := do
    let (count, rest) ← readNat 8 content
    readItems item.read [] count rest

/-- One of some values, written as its index. -/
def choice [DecidableEq α] (options : List α) : Codec α where
  write a := writeNat 4 (options.idxOf a)
  read content := do
    let (index, rest) ← readNat 4 content
    match options[index]? with
    | some a => return (a, rest)
    | none => throw (refuse (.unknownVariant index options.length))

end Codec

end PageLoads
