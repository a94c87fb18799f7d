import PageLoads.Frame.Stage

/-!
# Expansions

The reading of bytes that are frames one after another. The bytes come to hand in portions, and content
is handed out as it is asked for: steps are made until more content is there than was asked for, or a
frame ends, or the bytes at hand run out. A fault that comes up meanwhile takes with it the content that
was to be handed out. Bytes that end within a frame, or before any, are incomplete.
-/

namespace PageLoads.Frame

/-- Makes steps until there is more content than there is room, or a frame ends, or more bytes are
needed: the content behind that in `done`, of which the last piece is the first, the stage reached, and
the bytes left. -/
def run (room : Nat) (stage : Stage) (bytes : Bytes) (done : List Bytes) :
    Except IoFault (Bytes × Stage × Bytes) :=
  match Step.next room stage bytes with
  | .wait stage => .ok (done.reverse.flatten, stage, bytes)
  | .fail fault => .error fault
  | .go next content rest _ =>
    if next.isBetween ∨ room < content.length then .ok ((content :: done).reverse.flatten, next, rest)
    else run (room - content.length) next rest (content :: done)
termination_by bytes.length

/-- Steps leave no more bytes than there were, and fewer if they handed out content. -/
theorem length_of_run {room : Nat} {stage stage' : Stage} {bytes rest content : Bytes} {done : List Bytes}
    (h : run room stage bytes done = .ok (content, stage', rest)) :
    rest.length ≤ bytes.length ∧ (content ≠ done.reverse.flatten → rest.length < bytes.length) := by
  induction bytes using WellFounded.induction (invImage List.length Nat.lt_wfRel).wf
    generalizing room stage content done with
  | _ bytes ih =>
    rw [run] at h
    split at h
    · cases h
      exact ⟨Nat.le_refl _, fun hne => absurd rfl hne⟩
    · cases h
    · rename_i next piece rest' hshorter _
      split at h
      · cases h
        exact ⟨Nat.le_of_lt hshorter, fun _ => hshorter⟩
      · have hlt := Nat.lt_of_le_of_lt (ih rest' hshorter h).1 hshorter
        exact ⟨Nat.le_of_lt hlt, fun _ => hlt⟩

/-- Bytes that are being expanded: the stage reached, the bytes at hand, and those that come later. -/
structure Expansion where
  stage : Stage
  atHand : Bytes
  later : Bytes

namespace Expansion

/-- How many bytes come to hand at once. -/
def portion : Nat :=
  131075

def ofBytes (bytes : Bytes) : Expansion :=
  ⟨.between false .none, [], bytes⟩

/-- How much there is still to be read. Bytes that come later count twice. -/
def extent (expansion : Expansion) : Nat :=
  expansion.atHand.length + 2 * expansion.later.length

/-- Hands out content for which there is some room, and perhaps more: this, and the reading after it.
There is no such reading, and no content, at the end. -/
def pull (room : Nat) (expansion : Expansion) : Except IoFault (Bytes × Option Expansion) :=
  let ⟨stage, atHand, later⟩ := expansion
  match _hrun : run room stage atHand [] with
  | .error fault => .error fault
  | .ok (content, stage, rest) =>
    if content ≠ [] then .ok (content, some ⟨stage, rest, later⟩)
    else if _hrest : rest ≠ [] ∧ rest.length < atHand.length then pull room ⟨stage, rest, later⟩
    else if _hlater : later = [] then
      if stage.isEnd ∧ rest = [] then .ok ([], none) else .error .incompleteFrame
    else pull room ⟨stage, rest ++ later.take portion, later.drop portion⟩
termination_by expansion.extent
decreasing_by
  · simp only [extent]
    omega
  · have hle := (length_of_run _hrun).1
    have hpos := List.length_pos_iff.mpr _hlater
    simp only [extent, List.length_append, List.length_take, List.length_drop, portion]
    omega

/-- What a pull leaves has less to be read, if it handed out content. -/
theorem extent_of_pull {room : Nat} {expansion after : Expansion} {content : Bytes}
    (h : expansion.pull room = .ok (content, some after)) :
    content ≠ [] ∧ after.extent < expansion.extent := by
  induction expansion using pull.induct room with
  | case1 stage atHand later fault hrun =>
    rw [pull] at h
    split at h <;> simp_all
  | case2 stage atHand later found next rest hrun hne =>
    rw [pull] at h
    split at h <;> rename_i hrun' <;> rw [hrun] at hrun' <;> cases hrun'
    rw [if_pos hne] at h
    cases h
    refine ⟨hne, ?_⟩
    have := (length_of_run hrun).2 hne
    simp only [extent]
    omega
  | case3 stage atHand later found next rest hrun hnil hrest ih =>
    rw [pull] at h
    split at h <;> rename_i hrun' <;> rw [hrun] at hrun' <;> cases hrun'
    rw [if_neg hnil, dif_pos hrest] at h
    refine ⟨(ih h).1, Nat.lt_trans (ih h).2 ?_⟩
    simp only [extent]
    omega
  | case4 stage atHand found next rest hrun hnil hrest hend =>
    rw [pull] at h
    split at h <;> rename_i hrun' <;> rw [hrun] at hrun' <;> cases hrun'
    rw [if_neg hnil, dif_neg hrest, dif_pos rfl, if_pos hend] at h
    cases h
  | case5 stage atHand found next rest hrun hnil hrest hend =>
    rw [pull] at h
    split at h <;> rename_i hrun' <;> rw [hrun] at hrun' <;> cases hrun'
    rw [if_neg hnil, dif_neg hrest, dif_pos rfl, if_neg hend] at h
    cases h
  | case6 stage atHand later found next rest hrun hnil hrest hlater ih =>
    rw [pull] at h
    split at h <;> rename_i hrun' <;> rw [hrun] at hrun' <;> cases hrun'
    rw [if_neg hnil, dif_neg hrest, dif_neg hlater] at h
    refine ⟨(ih h).1, Nat.lt_trans (ih h).2 ?_⟩
    have hle := (length_of_run hrun).1
    have hpos := List.length_pos_iff.mpr hlater
    simp only [extent, List.length_append, List.length_take, List.length_drop, portion]
    omega

end Expansion

end PageLoads.Frame
