import PageLoads.Frame.Block
import PageLoads.Frame.Checksum
import PageLoads.Frame.Head

/-!
# Former frames

Frames of earlier editions, which begin in other ways. Their blocks tell form and size with the most
significant byte first. One form of block ends the frame, and so does a block of no bytes. Blocks are read
that hold their bytes as they are, and packed ones that consist of plain literals; other packed blocks are
refused.
-/

namespace PageLoads.Frame

open LittleEndian (number)

/-- The earlier editions whose heads differ. -/
inductive Edition where
  | early
  | middle
  | late
  deriving DecidableEq, Repr

def Edition.ofMagic? : Bytes → Option Edition
  | [b, 0xB5, 0x2F, 0xFD] =>
    match b.toNat with
    | 0x24 | 0x25 => some .early
    | 0x26 => some .middle
    | 0x27 => some .late
    | _ => none
  | _ => none

structure Former where
  edition : Edition
  /-- The most bytes that a block should have. -/
  block : Nat
  /-- The most bytes that a block may have of which not all are at hand. -/
  loaded : Nat
  /-- How many bytes of the content are kept. -/
  buffer : Nat
  checked : Bool
  /-- Where in the buffer the next block goes. -/
  place : Nat
  content : Array UInt8

namespace Former

def start (edition : Edition) (block buffer : Nat) (checked : Bool) : Former :=
  ⟨edition, block, block, buffer, checked, 0, #[]⟩

/-- A frame before its first block, where blocks are no larger than the window. -/
def ofWindow (edition : Edition) (window : Nat) (checked : Bool) : Former :=
  let block := min window Head.blockLimit
  start edition block (window + block + 16) checked

def windowLimit : Nat :=
  134217728

def readEarly : Bytes → Except IoFault (Option (Former × Bytes))
  | [] => .ok none
  | b :: rest =>
    if 16 ≤ b.toNat then .error .unsupportedFrame
    else .ok (some (start .early Head.blockLimit (Nat.pow 2 (b.toNat + 11)) false, rest))

/-- Reads the head of a middle frame behind the magic. It tells the window and the size of the content,
of which only the length matters. -/
def readMiddle : Bytes → Except IoFault (Option (Former × Bytes))
  | [] => .ok none
  | b :: rest =>
    let length := [0, 1, 2, 8].getD (b.toNat / 64) 0
    if (rest.take length).length < length then .ok none
    else if b.toNat / 32 % 2 = 1 then .error .unsupportedFrame
    else .ok (some (ofWindow .middle (Nat.pow 2 (b.toNat % 16 + 12)) false, rest.drop length))

/-- Reads the head of a late frame behind the magic. It has the form that is still in use. -/
def readLate (bytes : Bytes) : Except IoFault (Option (Former × Bytes)) :=
  match Head.read bytes with
  | .error _ => .error .unsupportedFrame
  | .ok none => .ok none
  | .ok (some (head, rest)) =>
    let window := head.window % 4294967296
    if windowLimit < window then .error .unsupportedFrame
    else if head.dictionary ≠ 0 then .error .foreignDictionary
    else .ok (some (ofWindow .late (max window Head.windowMinimum) head.checked, rest))

/-- Reads the head of a frame behind the magic: the frame before its first block, and the bytes behind the
head, or nothing if it is not there as a whole. -/
def read : Edition → Bytes → Except IoFault (Option (Former × Bytes))
  | .early => readEarly
  | .middle => readMiddle
  | .late => readLate

theorem length_of_read {edition : Edition} {bytes rest : Bytes} {former : Former}
    (h : read edition bytes = .ok (some (former, rest))) : rest.length < bytes.length := by
  cases edition with
  | early =>
    simp only [read] at h
    unfold readEarly at h
    repeat' split at h
    all_goals
      cases h
    simp
  | middle =>
    simp only [read] at h
    unfold readMiddle at h
    split at h
    · simp at h
    · dsimp only at h
      split at h
      · simp at h
      · split at h
        · simp at h
        · simp only [Except.ok.injEq, Option.some.injEq, Prod.mk.injEq] at h
          rw [← h.2, List.length_drop, List.length_cons]
          omega
  | late =>
    simp only [read] at h
    unfold readLate at h
    split at h
    · cases h
    · cases h
    · rename_i hread
      dsimp only at h
      split at h
      · simp at h
      · split at h
        · simp at h
        · simp only [Except.ok.injEq, Option.some.injEq, Prod.mk.injEq] at h
          exact h.2 ▸ Head.length_of_read hread

/-- The frame where there is as much at hand as an earlier one needed. -/
def keep (former earlier : Former) : Former :=
  { former with loaded := max former.loaded earlier.loaded, buffer := max former.buffer earlier.buffer }

/-- The form and the extent of the block whose head is a number, or nothing if it ends the frame. The
checksum is a part of the number that tells the end. -/
def nextBlock (former : Former) (n : Nat) : Except IoFault (Option (BlockForm × Nat)) :=
  match [BlockForm.packed, .stored, .repeated][n / 4194304]? with
  | some form =>
    let extent := if form = .repeated then 1 else n % 524288
    .ok (if extent = 0 then none else some (form, extent))
  | none =>
    if former.checked ∧ (Checksum.hash former.content).toNat / 2048 % 4194304 ≠ n % 4194304 then
      .error .wrongChecksum
    else .ok none

/-- Reads plain literals: these, and the bytes behind them. They stand there as they are, or as one byte
that is repeated. -/
def readLiterals (bytes : Bytes) : Except IoFault (Bytes × Bytes) :=
  match bytes with
  | b₀ :: b₁ :: b₂ :: _ =>
    let form := b₀.toNat / 64
    let length := b₀.toNat / 16 % 4
    let (size, width) :=
      match length with
      | 2 => (number [b₁, b₀] % 4096, 2)
      | 3 => (number [b₂, b₁, b₀] % 1048576, 3)
      | _ => (b₀.toNat % 32, 1)
    let rest := bytes.drop width
    if form = 0 then .error .corruptFrame
    else if form = 1 then .error (if length = 1 then .missingCode else .corruptFrame)
    else if form = 2 then
      if rest.length < size then .error .corruptFrame else .ok (rest.take size, rest.drop size)
    else
      match rest with
      | [] => .error .corruptFrame
      | b :: rest =>
        if Head.blockLimit < size then .error .corruptFrame else .ok (List.replicate size b, rest)
  | _ => .error .corruptFrame

/-- Whether sequences, which begin with their number, end before the bits that spell them. -/
def sequencesAreCut (edition : Edition) : Bytes → Bool
  | [] => true
  | count :: rest =>
    let rest := rest.drop (if edition ≠ .early ∧ count = 255 then 2 else if 128 ≤ count then 1 else 0)
    match edition, rest with
    | .early, b₀ :: b₁ :: rest =>
      if b₀.toNat / 2 % 2 = 1 then rest.length < number (rest.take 1 ++ [b₁]) + 4
      else rest.length < number [b₁, b₀] % 512 + 3
    | .early, _ => true
    | _, rest => rest.length < 4

def unpack (edition : Edition) (bytes : Bytes) : Except IoFault Bytes := do
  if Head.blockLimit ≤ bytes.length then throw .truncatedPart
  let (literals, rest) ← readLiterals bytes
  if rest.head? = some 0 then return literals
  throw (if sequencesAreCut edition rest then .truncatedPart else .corruptFrame)

/-- The content of a block, and the frame behind it. Where the buffer might not hold another block, it is
begun anew. -/
def add (former : Former) (form : BlockForm) (bytes : Bytes) : Except IoFault (Bytes × Former) := do
  let found ←
    match form with
    | .stored => pure bytes
    | .repeated => throw .unreadableBlock
    | .packed => unpack former.edition bytes
  let place := former.place + found.length
  if former.buffer < place then throw .overfullFrame
  return (found, { former with
    place := if former.buffer < place + former.block then 0 else place
    content := former.content ++ found.toArray })

end Former

end PageLoads.Frame
