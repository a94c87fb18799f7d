import PageLoads.Proofs.Pattern.Cut

/-!
# Texts within texts put together

Where a given text, a mark, can occur in a text that was put together from parts. If no part holds the mark, it can
only begin in one part and end in another, so that the parts agree with what the mark has on either side of the
seam. Whether two texts can overlap like this is computed, for the parts that are known, and the parts that are not
known need only hold no mark.
-/

namespace PageLoads.Pattern

def agrees : List Char → List Char → Bool
  | c :: text, d :: other => c = d && agrees text other
  | _, _ => true

/-- Another text can begin within a text: it agrees with some last part of it. -/
def overlaps : List Char → List Char → Bool
  | [], _ => false
  | c :: text, other => agrees (c :: text) other || overlaps text other

variable {mark piece text other rest behind : List Char}

theorem agrees_of_append_eq (h : text ++ behind = other ++ rest) : agrees text other = true := by
  induction text generalizing other with
  | nil => rfl
  | cons c text ih =>
    cases other with
    | nil => rfl
    | cons d other =>
      obtain ⟨rfl, htail⟩ := List.cons.inj h
      simp [agrees, ih htail]

theorem overlaps_of_append_eq (before : List Char) (hne : text ≠ []) (h : text ++ behind = other ++ rest) :
    overlaps (before ++ text) other = true := by
  induction before with
  | nil =>
    obtain ⟨c, text, rfl⟩ := List.exists_cons_of_ne_nil hne
    simp [overlaps, agrees_of_append_eq h]
  | cons d before ih => simp [overlaps, ih]

theorem not_overlaps_of_not_mem {c : Char} (h : c ∉ text) : overlaps text (c :: other) = false := by
  induction text with
  | nil => rfl
  | cons d text ih =>
    simp only [List.mem_cons, not_or] at h
    simp [overlaps, agrees, Ne.symm h.1, ih h.2]

/-- A mark that begins within a piece that does not hold it ends behind the piece. -/
theorem exists_overlap (hpiece : ¬ mark <:+: piece) {length : Nat} (hlength : length < piece.length)
    (h : after? mark ((piece ++ rest).drop length) = some behind) :
    ∃ front back, front ≠ [] ∧ back ≠ [] ∧ mark = front ++ back ∧ rest = back ++ behind := by
  have hsplit := after?_eq_some_iff.mp h
  rw [List.drop_append_of_le_length (Nat.le_of_lt hlength)] at hsplit
  have hlater : piece.drop length <:+: piece := (List.drop_suffix length piece).isInfix
  have hne : piece.drop length ≠ [] := by
    intro hnil
    have := List.drop_eq_nil_iff.mp hnil
    omega
  rcases List.append_eq_append_iff.mp hsplit with ⟨back, hmark, hrest⟩ | ⟨rim, hdrop, _⟩
  · refine ⟨piece.drop length, back, hne, ?_, hmark, hrest⟩
    rintro rfl
    rw [List.append_nil] at hmark
    exact hpiece (hmark ▸ hlater)
  · have hmark : mark <:+: piece.drop length := ⟨[], rim, by simp [hdrop]⟩
    exact absurd (hmark.trans hlater) hpiece

/-- A mark that a piece does not hold, and within which the text behind the piece cannot begin, does not begin before
this text. -/
theorem after?_drop_eq_none_of_not_overlaps (hpiece : ¬ mark <:+: piece) (h : overlaps mark.tail text = false)
    {length : Nat} (hlength : length < piece.length) (rest : List Char) :
    after? mark ((piece ++ (text ++ rest)).drop length) = none := by
  rw [Option.eq_none_iff_forall_ne_some]
  intro behind hbehind
  obtain ⟨front, back, hfront, hback, rfl, hrest⟩ := exists_overlap hpiece hlength hbehind
  obtain ⟨c, front, rfl⟩ := List.exists_cons_of_ne_nil hfront
  have htail : overlaps (front ++ back) text = true := overlaps_of_append_eq front hback hrest.symm
  rw [List.cons_append, List.tail_cons, htail] at h
  cases h

theorem after?_eq_none_of_beginning {input : List Char} (hmark : mark <+: text) (h : after? mark input = none) :
    after? text input = none := by
  obtain ⟨more, rfl⟩ := hmark
  rw [Option.eq_none_iff_forall_ne_some] at h ⊢
  intro behind hbehind
  rw [after?_eq_some_iff, List.append_assoc] at hbehind
  exact h _ (after?_eq_some_iff.mpr hbehind)

theorem after?_drop_eq_none_of_not_infix (h : ¬ mark <:+: text) (length : Nat) :
    after? mark (text.drop length) = none := by
  rw [Option.eq_none_iff_forall_ne_some]
  intro behind hbehind
  have hmark : mark <:+: text.drop length := ⟨[], behind, (after?_eq_some_iff.mp hbehind).symm⟩
  exact h (hmark.trans (List.drop_suffix length text).isInfix)

/-- A mark does not occur in a text behind a piece if neither holds it and it does not begin in one and end in the
other. -/
theorem not_infix_append (hpiece : ¬ mark <:+: piece) (h : overlaps mark.tail text = false)
    (hrest : ¬ mark <:+: text ++ rest) : ¬ mark <:+: piece ++ (text ++ rest) := by
  rintro ⟨before, behind, hsplit⟩
  rw [List.append_assoc] at hsplit
  by_cases hlength : before.length < piece.length
  · have hnone := after?_drop_eq_none_of_not_overlaps hpiece h hlength rest
    rw [← hsplit, List.drop_left, after?_eq_some_iff.mpr rfl] at hnone
    cases hnone
  · obtain ⟨gap, rfl⟩ := List.prefix_of_prefix_length_le ⟨_, rfl⟩ ⟨_, hsplit⟩ (Nat.not_lt.mp hlength)
    rw [List.append_assoc] at hsplit
    exact hrest ⟨gap, behind, by simpa using List.append_cancel_left hsplit⟩

theorem not_infix_append_of_not_overlaps (h : overlaps text mark = false) (hrest : ¬ mark <:+: rest) :
    ¬ mark <:+: text ++ rest := by
  rintro ⟨before, behind, hsplit⟩
  rw [List.append_assoc] at hsplit
  rcases List.append_eq_append_iff.mp hsplit with ⟨last, rfl, hlast⟩ | ⟨gap, _, rfl⟩
  · by_cases hne : last = []
    · subst hne
      exact hrest ⟨[], behind, by simpa using hlast⟩
    · rw [overlaps_of_append_eq before hne hlast.symm] at h
      cases h
  · exact hrest ⟨gap, behind, by simp⟩

end PageLoads.Pattern
