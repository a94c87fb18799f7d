import Mathlib.Data.List.TakeDrop

namespace PageLoads.Text

theorem span_append {isMember : Char → Bool} {run rest : List Char} (hrun : ∀ c ∈ run, isMember c)
    (hrest : ∀ c ∈ rest.head?, isMember c = false) : (run ++ rest).span isMember = (run, rest) := by
  rw [List.span_eq_takeWhile_dropWhile, List.takeWhile_append_of_pos hrun, List.dropWhile_append_of_pos hrun]
  cases rest with
  | nil => simp
  | cons c rest => simp [hrest c rfl]

end PageLoads.Text
