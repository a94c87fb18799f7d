import Mathlib.Data.List.TakeWhile
import PageLoads.Text.Blank

namespace PageLoads.Text

variable {cs : List Char}

theorem trim_append_append {before after : List Char} (hbefore : ∀ c ∈ before, isBlank c = true)
    (hafter : ∀ c ∈ after, isBlank c = true) (cs : List Char) : trim (before ++ cs ++ after) = trim cs := by
  have hfront : (before ++ cs ++ after).dropWhile isBlank = (cs ++ after).dropWhile isBlank := by
    rw [List.append_assoc, List.dropWhile_append_of_pos hbefore]
  have hblank : after.dropWhile isBlank = [] := List.dropWhile_eq_nil_iff.mpr hafter
  unfold trim
  rw [hfront, List.dropWhile_append, hblank]
  cases hrest : cs.dropWhile isBlank with
  | nil => rfl
  | cons c rest =>
    have hback : ∀ c ∈ after.reverse, isBlank c = true := fun c hc => hafter c (List.mem_reverse.mp hc)
    simp only [List.isEmpty_cons, Bool.false_eq_true, if_false, List.reverse_append,
      List.dropWhile_append_of_pos hback]

theorem dropWhile_eq_self (h : ∀ c ∈ cs.head?, isBlank c = false) : cs.dropWhile isBlank = cs := by
  cases cs with
  | nil => rfl
  | cons c rest => rw [List.dropWhile_cons_of_neg (by simp [h c rfl])]

theorem trim_eq_self (hhead : ∀ c ∈ cs.head?, isBlank c = false) (hlast : ∀ c ∈ cs.getLast?, isBlank c = false) :
    trim cs = cs := by
  have hreverse : ∀ c ∈ cs.reverse.head?, isBlank c = false := by rwa [List.head?_reverse]
  rw [trim, dropWhile_eq_self hhead, dropWhile_eq_self hreverse, List.reverse_reverse]

theorem trim_eq_self_of_forall_mem (h : ∀ c ∈ cs, isBlank c = false) : trim cs = cs :=
  trim_eq_self (fun c hc => h c (List.mem_of_mem_head? hc)) fun c hc => h c (List.mem_of_mem_getLast? hc)

theorem exists_eq_append_blanks (cs : List Char) :
    ∃ kept blanks, cs = kept ++ blanks ∧ (∀ c ∈ blanks, isBlank c = true) ∧
      ∀ c ∈ kept.getLast?, isBlank c = false := by
  refine ⟨(cs.reverse.dropWhile isBlank).reverse, (cs.reverse.takeWhile isBlank).reverse, ?_, ?_, ?_⟩
  · rw [← List.reverse_append, List.takeWhile_append_dropWhile, List.reverse_reverse]
  · intro c hc
    exact List.mem_takeWhile_imp (List.mem_reverse.mp hc)
  · intro c hc
    have hhead := List.head?_dropWhile_not isBlank cs.reverse
    rw [List.getLast?_reverse] at hc
    rw [hc] at hhead
    exact hhead

end PageLoads.Text
