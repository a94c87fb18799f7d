import PageLoads.Frame.Former
import PageLoads.Frame.Whole

/-!
# Stages

Frames are read step by step, as far as their bytes are at hand. A stage says what comes next; a step
takes some bytes, hands out content, and leads to another stage. What a step needs it needs at once, but
for bytes that are stored as they are and for those that are skipped.

A frame whose edition was given up is refused, and one of an edition that is still read is read as such.
-/

namespace PageLoads.Frame

open LittleEndian (number)

/-- How many bytes a reader can keep of the blocks and of the content. It never gives up what it has. For
former frames it keeps bytes apart, as long as they begin in the same way. -/
structure Buffers where
  blocks : Nat
  content : Nat
  /-- The last former frame and how it began. -/
  former : Option (Bytes × Former)

namespace Buffers

def none : Buffers :=
  ⟨0, 0, .none⟩

def needed (window : Nat) (size : Option Nat) (block : Nat) : Buffers :=
  let window := max window Head.windowMinimum
  let content := window + 2 * block + 2 * stride
  ⟨max block 4, (size.map (min content)).getD content, .none⟩

def fit (buffers needed : Buffers) : Buffers :=
  if buffers.blocks < needed.blocks ∨ buffers.content < needed.content then
    { needed with former := buffers.former }
  else buffers

/-- A former frame that begins in some way, where there is as much at hand as the last one needed. -/
def keep (buffers : Buffers) (magic : Bytes) (former : Former) : Former :=
  match buffers.former with
  | some (earlier, last) => if earlier = magic then former.keep last else former
  | .none => former

end Buffers

structure Progress where
  head : Head
  buffers : Buffers
  /-- Where in the buffer the next block goes. -/
  place : Nat
  /-- How many bytes were in the buffer when it was begun anew. -/
  behind : Nat

namespace Progress

def start (head : Head) (buffers : Buffers) : Progress where
  head
  buffers := buffers.fit (Buffers.needed head.window head.size head.block)
  place := 0
  behind := 0

def space (progress : Progress) : Space where
  limit := progress.head.block
  room := progress.buffers.content - progress.place
  reach := progress.behind + progress.place
  whole := false

/-- The progress behind some more bytes of content. Where the buffer cannot hold the whole content, it is
begun anew as soon as a block might not fit in it. -/
def advance (progress : Progress) (count : Nat) : Progress :=
  let place := progress.place + count
  let size := progress.buffers.content
  if progress.head.size.all (size < ·) ∧ size < place + progress.head.block then
    { progress with place := 0, behind := place }
  else { progress with place }

end Progress

inductive Stage where
  /-- Before a frame; whether one has ended here. -/
  | between (ended : Bool) (buffers : Buffers)
  | block (progress : Progress) (memory : Memory)
  /-- In a stored block, of which one byte and some more are left. -/
  | stored (progress : Progress) (memory : Memory) (more : Nat) (last : Bool)
  /-- Before the byte that a block repeats. -/
  | repeated (progress : Progress) (memory : Memory) (size : Nat) (last : Bool)
  /-- Before a packed block of one byte and some more. -/
  | packed (progress : Progress) (memory : Memory) (more : Nat) (last : Bool)
  | checksum (progress : Progress) (memory : Memory)
  /-- In a skipped frame, of which one byte and some more are left. -/
  | skipped (more : Nat) (buffers : Buffers)
  | former (former : Former) (buffers : Buffers)
  /-- Before the content of a block of a former frame, which has one byte and some more. -/
  | formerBlock (former : Former) (form : BlockForm) (more : Nat) (buffers : Buffers)

namespace Stage

def isBetween : Stage → Bool
  | between .. => true
  | _ => false

/-- Whether bytes may end here. -/
def isEnd : Stage → Bool
  | between ended _ => ended
  | _ => false

def afterBlocks (progress : Progress) (memory : Memory) : Stage :=
  if progress.head.checked then checksum progress memory else between true progress.buffers

/-- The stage behind a block with content. The last one completes the size that was announced. -/
def afterBlock (last : Bool) (progress : Progress) (memory : Memory) : Except IoFault Stage :=
  if !last then .ok (block progress memory)
  else if progress.head.size.any (· ≠ memory.content.size) then .error .corruptFrame
  else .ok (afterBlocks progress memory)

/-- The stage behind the head of a block. Blocks of no bytes have no content. -/
def afterHead (progress : Progress) (memory : Memory) (n : Nat) : Except IoFault Stage :=
  match BlockHead.ofNumber? n with
  | none => .error .corruptFrame
  | some head =>
    if progress.head.block < head.extent then .error .corruptFrame
    else
      match head.form, head.size with
      | .repeated, size => .ok (repeated progress memory size head.last)
      | _, 0 => .ok (if head.last then afterBlocks progress memory else block progress memory)
      | .stored, size + 1 => .ok (stored progress memory size head.last)
      | .packed, size + 1 => .ok (packed progress memory size head.last)

end Stage

inductive Step (bytes : Bytes) where
  | wait (stage : Stage)
  | fail (fault : IoFault)
  /-- The step leads to a stage, hands out content, and leaves bytes. -/
  | go (stage : Stage) (content rest : Bytes) (shorter : rest.length < bytes.length)

namespace Step

def ofStage {bytes : Bytes} (stage : Except IoFault Stage) (content rest : Bytes)
    (shorter : rest.length < bytes.length) : Step bytes :=
  match stage with
  | .ok stage => .go stage content rest shorter
  | .error fault => .fail fault

/-- The step behind a block, or a part of one, that led from so much content to a memory. -/
def ofMemory {bytes : Bytes} (progress : Progress) (start : Nat) (memory : Except IoFault Memory)
    (next : Progress → Memory → Except IoFault Stage) (rest : Bytes)
    (shorter : rest.length < bytes.length) : Step bytes :=
  match memory with
  | .ok memory =>
    ofStage (next (progress.advance (memory.content.size - start)) memory) (memory.since start) rest shorter
  | .error fault => .fail fault

/-- The step that reads the head of a frame, or all of the frame if that is possible. -/
def openFrame (room : Nat) (stage : Stage) (buffers : Buffers) (bytes : Bytes) : Step bytes :=
  match hread : Head.read bytes with
  | .error fault => .fail fault
  | .ok none => .wait stage
  | .ok (some (head, rest)) =>
    have hrest := Head.length_of_read hread
    match hsplit : if head.size.any (· ≤ room) then Whole.split? head rest else none with
    | some whole =>
      have hwhole : whole.rest.length < rest.length := by
        split at hsplit
        · exact Whole.length_of_split? hsplit
        · cases hsplit
      match whole.read head room with
      | .ok content => .go (.between true buffers) content whole.rest (Nat.lt_trans hwhole hrest)
      | .error fault => .fail fault
    | none =>
      if head.dictionary ≠ 0 then .fail .foreignDictionary
      else if Head.memoryLimit < head.window then .fail .oversizedFrame
      else .go (.block (Progress.start head buffers) .empty) [] rest hrest

def openFormer (edition : Edition) (magic : Bytes) (stage : Stage) (buffers : Buffers) (bytes : Bytes) :
    Step bytes :=
  match hread : Former.read edition bytes with
  | .error fault => .fail fault
  | .ok none => .wait stage
  | .ok (some (former, rest)) =>
    let former := buffers.keep magic former
    .go (.former former { buffers with former := some (magic, former) }) [] rest
      (Former.length_of_read hread)

/-- The step behind bytes at the beginning of a frame. -/
def behind {bytes : Bytes} (first : Bytes) : Step bytes → Step (first ++ bytes)
  | .wait stage => .wait stage
  | .fail fault => .fail fault
  | .go stage content rest shorter =>
    .go stage content rest (by rw [List.length_append]; omega)

def beginFrame (room : Nat) (stage : Stage) (buffers : Buffers) (bytes : Bytes) : Step bytes :=
  match bytes with
  | b₀ :: b₁ :: b₂ :: b₃ :: b₄ :: tail =>
    if outdatedMagics.contains [b₀, b₁, b₂, b₃] then .fail .outdatedFrame
    else if b₀.toNat / 16 = 5 ∧ [b₁, b₂, b₃] = skippedMagic then
      match tail with
      | b₅ :: b₆ :: b₇ :: rest =>
        let size := number [b₄, b₅, b₆, b₇]
        let buffers := buffers.fit (Buffers.needed 0 (some size) 0)
        .go (if size = 0 then .between true buffers else .skipped (size - 1) buffers) [] rest
          (by simp only [List.length_cons]; omega)
      | _ => .wait stage
    else
      match Edition.ofMagic? [b₀, b₁, b₂, b₃] with
      | some edition => (openFormer edition [b₀, b₁, b₂, b₃] stage buffers (b₄ :: tail)).behind [b₀, b₁, b₂, b₃]
      | none =>
        if [b₀, b₁, b₂, b₃] ≠ magic then .fail .unknownFrame
        else (openFrame room stage buffers (b₄ :: tail)).behind [b₀, b₁, b₂, b₃]
  | bytes => if begins bytes then .wait stage else .fail .unknownFrame

def next (room : Nat) (stage : Stage) (bytes : Bytes) : Step bytes :=
  match stage, bytes with
  | .between ended buffers, bytes => beginFrame room (.between ended buffers) buffers bytes
  | .block progress memory, b₀ :: b₁ :: b₂ :: rest =>
    ofStage (Stage.afterHead progress memory (number [b₀, b₁, b₂])) [] rest
      (by simp only [List.length_cons]; omega)
  | .stored progress memory more last, b :: rest =>
    let taken := b :: rest.take more
    let left := more + 1 - taken.length
    let start := memory.content.size
    ofMemory progress start (progress.space.add memory taken.toArray)
      (fun progress memory =>
        if left = 0 then Stage.afterBlock last progress memory
        else .ok (.stored progress memory (left - 1) last))
      (rest.drop more) (by simp only [List.length_cons, List.length_drop]; omega)
  | .repeated progress memory size last, b :: rest =>
    let start := memory.content.size
    if progress.space.room < size then .fail .overfullFrame
    else if progress.space.limit < size then .fail .corruptFrame
    else
      ofMemory progress start (progress.space.read memory ⟨last, .repeated, size⟩ [b])
        (Stage.afterBlock last) rest (by simp only [List.length_cons]; omega)
  | .packed progress memory more last, b :: rest =>
    if (rest.take more).length < more then .wait (.packed progress memory more last)
    else
      let start := memory.content.size
      match progress.space.unpack memory (b :: rest.take more) with
      | .error fault => .fail fault
      | .ok memory =>
        if progress.space.limit < memory.content.size - start then .fail .corruptFrame
        else
          ofMemory progress start (.ok memory) (Stage.afterBlock last) (rest.drop more)
            (by simp only [List.length_cons, List.length_drop]; omega)
  | .checksum progress memory, b₀ :: b₁ :: b₂ :: b₃ :: rest =>
    if isChecksum memory.content [b₀, b₁, b₂, b₃] then
      .go (.between true progress.buffers) [] rest (by simp only [List.length_cons]; omega)
    else .fail .wrongChecksum
  | .skipped more buffers, b :: rest =>
    let left := more - (rest.take more).length
    .go (if left = 0 then .between true buffers else .skipped (left - 1) buffers) [] (rest.drop more)
      (by simp only [List.length_cons, List.length_drop]; omega)
  | .former former buffers, b₀ :: b₁ :: b₂ :: rest =>
    match former.nextBlock (number [b₂, b₁, b₀]) with
    | .error fault => .fail fault
    | .ok none => .go (.between true buffers) [] rest (by simp only [List.length_cons]; omega)
    | .ok (some (form, extent)) =>
      .go (.formerBlock former form (extent - 1) buffers) [] rest (by simp only [List.length_cons]; omega)
  | .formerBlock former form more buffers, b :: rest =>
    if (rest.take more).length < more then
      if former.loaded < more + 1 then .fail .corruptFrame else .wait (.formerBlock former form more buffers)
    else
      match former.add form (b :: rest.take more) with
      | .error fault => .fail fault
      | .ok (content, former) =>
        .go (.former former buffers) content (rest.drop more)
          (by simp only [List.length_cons, List.length_drop]; omega)
  | stage, _ => .wait stage

end Step

end PageLoads.Frame
