
namespace PageLoads.Text

/-- The parts of a text between the separators; a text without any is one part. -/
def splitAt {α : Type} [DecidableEq α] (separator : α) : List α → List (List α)
  | [] => [[]]
  | c :: cs =>
    if c = separator then [] :: splitAt separator cs
    else
      match splitAt separator cs with
      | [] => [[c]]
      | part :: parts => (c :: part) :: parts

variable {α : Type} [DecidableEq α]

theorem splitAt_ne_nil (separator : α) (cs : List α) : splitAt separator cs ≠ [] := by
  cases cs with
  | nil => simp [splitAt]
  | cons c cs =>
    unfold splitAt
    split
    · simp
    · split <;> simp

theorem splitAt_of_not_mem {separator : α} {cs : List α} (h : separator ∉ cs) :
    splitAt separator cs = [cs] := by
  induction cs with
  | nil => rfl
  | cons c cs ih =>
    have hc : c ≠ separator := fun heq => h (by simp [heq])
    have hcs : separator ∉ cs := fun hmem => h (by simp [hmem])
    simp [splitAt, hc, ih hcs]

theorem splitAt_append_cons {separator : α} {part : List α} (h : separator ∉ part)
    (cs : List α) : splitAt separator (part ++ separator :: cs) = part :: splitAt separator cs := by
  induction part with
  | nil => simp [splitAt]
  | cons c part ih =>
    have hc : c ≠ separator := fun heq => h (by simp [heq])
    have hpart : separator ∉ part := fun hmem => h (by simp [hmem])
    simp [splitAt, hc, ih hpart]

end PageLoads.Text
