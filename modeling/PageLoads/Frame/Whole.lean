import PageLoads.Frame.Block
import PageLoads.Frame.Checksum
import PageLoads.Frame.Head

namespace PageLoads.Frame

open LittleEndian (number)

def isChecksum (content : Array UInt8) (bytes : Bytes) : Bool :=
  number bytes = checksum content

/-- The blocks at the front of bytes up to the last one, and the bytes behind them. -/
def blocks? (bytes : Bytes) : Option (List (BlockHead × Bytes) × Bytes) :=
  match bytes with
  | b₀ :: b₁ :: b₂ :: rest =>
    match BlockHead.ofNumber? (number [b₀, b₁, b₂]) with
    | none => none
    | some head =>
      if (rest.take head.extent).length < head.extent then none
      else if head.last then some ([(head, rest.take head.extent)], rest.drop head.extent)
      else (blocks? (rest.drop head.extent)).map fun (blocks, after) =>
        ((head, rest.take head.extent) :: blocks, after)
  | _ => none
termination_by bytes.length
decreasing_by
  simp only [List.length_cons, List.length_drop]
  omega

structure Whole where
  blocks : List (BlockHead × Bytes)
  checksum : Bytes
  rest : Bytes

namespace Whole

/-- The frame at the front of bytes, if it is there as a whole. -/
def split? (head : Head) (bytes : Bytes) : Option Whole := do
  let (blocks, rest) ← blocks? bytes
  let length := if head.checked then 4 else 0
  if (rest.take length).length < length then none
  else some ⟨blocks, rest.take length, rest.drop length⟩

def readBlocks (head : Head) (room : Nat) (blocks : List (BlockHead × Bytes)) : Except IoFault Memory :=
  blocks.foldlM (fun memory (block, bytes) =>
    let size := memory.content.size
    let space : Space := { limit := head.block, room := room - size, reach := size, whole := true }
    space.read memory block bytes) .empty

def read (whole : Whole) (head : Head) (room : Nat) : Except IoFault Bytes := do
  if head.dictionary ≠ 0 then throw .foreignDictionary
  let memory ← readBlocks head room whole.blocks
  if head.size.any (· ≠ memory.content.size) then throw .corruptFrame
  if head.checked && !isChecksum memory.content whole.checksum then throw .wrongChecksum
  return memory.content.toList

theorem length_of_blocks? {bytes rest : Bytes} {blocks : List (BlockHead × Bytes)}
    (h : blocks? bytes = some (blocks, rest)) : rest.length < bytes.length := by
  induction bytes using blocks?.induct generalizing blocks with
  | case1 b₀ b₁ b₂ tail hhead => simp [blocks?, hhead] at h
  | case2 b₀ b₁ b₂ tail head hhead hblock =>
    simp only [blocks?, hhead] at h
    rw [if_pos hblock] at h
    cases h
  | case3 b₀ b₁ b₂ tail head hhead hblock hlast =>
    simp only [blocks?, hhead] at h
    rw [if_neg hblock, if_pos hlast] at h
    cases h
    simp only [List.length_cons, List.length_drop]
    omega
  | case4 b₀ b₁ b₂ tail head hhead hblock hlast ih =>
    simp only [blocks?, hhead] at h
    rw [if_neg hblock, if_neg hlast] at h
    obtain ⟨⟨inner, rest'⟩, hinner, heq⟩ := Option.map_eq_some_iff.mp h
    cases heq
    have := ih hinner
    simp only [List.length_drop] at this
    simp only [List.length_cons]
    omega
  | case5 bytes hbytes =>
    rw [blocks?] at h
    · cases h
    · exact hbytes

theorem length_of_split? {head : Head} {bytes : Bytes} {whole : Whole}
    (h : split? head bytes = some whole) : whole.rest.length < bytes.length := by
  unfold split? at h
  cases hblocks : blocks? bytes with
  | none => simp [hblocks] at h
  | some found =>
    obtain ⟨blocks, rest⟩ := found
    have hlength := length_of_blocks? hblocks
    simp only [hblocks, Option.bind_eq_bind, Option.bind_some] at h
    have hrest : whole.rest = rest.drop (if head.checked then 4 else 0) := by
      generalize (if head.checked then 4 else 0) = length at h
      split at h
      · cases h
      · cases h
        rfl
    rw [hrest, List.length_drop]
    omega

end Whole

end PageLoads.Frame
