import Mathlib
import PageLoads.Proofs.Line.Stamp
import PageLoads.Proofs.Pattern.Written

namespace PageLoads.Line

open PageLoads.Text
open PageLoads.Pattern (after?_append after?_drop_eq_none_of_not_overlaps)
open Stamp (functionEnd)

/-- The location and the function hold no line feed and no end of a function name. -/
structure Stamp.Plain (stamp : Stamp) : Prop where
  lineFeed_not_mem_location : '\n' ∉ stamp.location
  not_infix_location : ¬ functionEnd <:+: stamp.location
  lineFeed_not_mem_function : '\n' ∉ stamp.function
  not_infix_function : ¬ functionEnd <:+: stamp.function

instance (stamp : Stamp) : Decidable stamp.Plain :=
  decidable_of_iff
    (('\n' ∉ stamp.location ∧ ¬ functionEnd <:+: stamp.location) ∧
      ('\n' ∉ stamp.function ∧ ¬ functionEnd <:+: stamp.function))
    ⟨fun ⟨⟨hfeed, hend⟩, ⟨hfeed', hend'⟩⟩ => ⟨hfeed, hend, hfeed', hend'⟩,
      fun ⟨hfeed, hend, hfeed', hend'⟩ => ⟨⟨hfeed, hend⟩, ⟨hfeed', hend'⟩⟩⟩

variable {message : List Char}

theorem Stamp.functionEnd_eq : functionEnd = '(' :: ") ::".toList := by
  decide

/-- The parts of a plain place hold no end of a function name, and none begins in one part and ends in
another: it would begin in the location and go on with the colon and the line number. -/
theorem Stamp.WellFormed.not_infix_place {stamp : Stamp} (h : stamp.WellFormed) (hplain : stamp.Plain) :
    ¬ functionEnd <:+: stamp.place := by
  rintro ⟨before, behind, hsplit⟩
  obtain ⟨d, number, hnumber⟩ := List.exists_cons_of_ne_nil h.number_ne_nil
  have hdigits := h.number_digits
  have hplace : stamp.location ++ ((" :".toList ++ stamp.number ++ ", ".toList) ++ stamp.function) =
      before ++ (functionEnd ++ behind) := by
    simpa [place] using hsplit.symm
  rcases List.append_eq_append_iff.mp hplace with ⟨between, _, hrest⟩ | ⟨rim, hlocation, hrest⟩
  · have hparen : '(' ∉ " :".toList ++ stamp.number ++ ", ".toList := by
      intro hmem
      rcases List.mem_append.mp hmem with hmem | hmem
      · rcases List.mem_append.mp hmem with hmem | hmem
        · revert hmem
          decide
        · exact absurd (hdigits _ hmem) (by decide)
      · revert hmem
        decide
    rw [Stamp.functionEnd_eq, List.cons_append] at hrest
    obtain ⟨gap, hfunction⟩ := exists_eq_append_of_not_mem hrest hparen
    exact hplain.not_infix_function ⟨gap, behind, by simp [hfunction, Stamp.functionEnd_eq]⟩
  · have hcolon : d ≠ ':' := by
      rintro rfl
      exact absurd (hdigits ':' (by simp [hnumber])) (by decide)
    rw [hnumber] at hrest
    have hrim : functionEnd <+: rim := by
      rw [Stamp.functionEnd_eq] at hrest ⊢
      rcases rim with _ | ⟨p, _ | ⟨q, _ | ⟨r, _ | ⟨s, _ | ⟨t, rim⟩⟩⟩⟩⟩
      all_goals simp at hrest ⊢
      · exact hcolon hrest.2.2.1.symm
      · exact ⟨hrest.1, hrest.2.1, hrest.2.2.1, hrest.2.2.2.1, hrest.2.2.2.2.1⟩
    exact hplain.not_infix_location ((hrim.isInfix).trans ⟨before, [], by simp [hlocation]⟩)

theorem EndsStamp.eq_message {place first : List Char} {blanks : Nat}
    (h : EndsStamp (place ++ functionEnd ++ List.replicate blanks ' ' ++ message) first)
    (hplace : ¬ functionEnd <:+: place) (hlength : message.length ≤ first.length)
    (hfirst : first.head? ≠ some ' ') : first = message := by
  obtain ⟨front, between, hfront⟩ : ∃ front between,
      place ++ (functionEnd ++ (List.replicate blanks ' ' ++ message)) =
        front ++ (functionEnd ++ (List.replicate between ' ' ++ first)) := by
    obtain ⟨location, number, _, _, _, _, hsplit, function, between, _, _, rfl⟩ := h
    exact ⟨location ++ " :".toList ++ number ++ ", ".toList ++ function, between, by simpa using hsplit⟩
  have hshort : ¬ front.length < place.length := by
    intro hlt
    have hapart : Pattern.overlaps functionEnd.tail functionEnd = false := by decide
    have hnone := after?_drop_eq_none_of_not_overlaps hplace hapart hlt
      (List.replicate blanks ' ' ++ message)
    rw [hfront, List.drop_left, after?_append] at hnone
    cases hnone
  obtain ⟨gap, rfl⟩ : place <+: front :=
    List.prefix_of_prefix_length_le ⟨_, hfront⟩ ⟨_, rfl⟩ (Nat.not_lt.mp hshort)
  rw [List.append_assoc] at hfront
  have hrest := List.append_cancel_left hfront
  cases gap with
  | nil =>
    have hblanks := List.append_cancel_left hrest
    have hlengths := congrArg List.length hblanks
    simp only [List.length_append, List.length_replicate] at hlengths
    obtain ⟨extra, rfl⟩ := Nat.exists_eq_add_of_le (show between ≤ blanks by omega)
    rw [List.replicate_add, List.append_assoc] at hblanks
    have hmessage := List.append_cancel_left hblanks
    cases extra with
    | zero => exact hmessage.symm
    | succ extra => exact absurd (by simp [← hmessage, List.replicate_succ]) hfirst
  | cons e gap =>
    rw [Stamp.functionEnd_eq, List.cons_append, List.cons_append] at hrest
    obtain ⟨_, hrest⟩ := List.cons.inj hrest
    rw [← List.append_assoc, List.cons_append] at hrest
    obtain ⟨more, rfl⟩ := exists_eq_append_of_not_mem hrest (by simp)
    simp only [List.length_append, List.length_cons] at hlength
    omega

theorem Stamp.WellFormed.split?_eq {stamp : Stamp} (h : stamp.WellFormed) (hplain : stamp.Plain)
    (hfeed : '\n' ∉ message) (hmessage : message.head? ≠ some ' ') :
    split? (stamp.text ++ message) = some (stamp.time, message) := by
  have hline : '\n' ∉ stamp.text ++ message := by
    have htime : '\n' ∉ stamp.time := fun hmem => absurd (h.time_chars _ hmem) (by decide)
    have hlevel : '\n' ∉ stamp.level := fun hmem => absurd (h.level_chars _ hmem) (by decide)
    have hnumber : '\n' ∉ stamp.number := fun hmem => absurd (h.number_digits _ hmem) (by decide)
    simp [text, place, htime, hlevel, hnumber, hplain.lineFeed_not_mem_location,
      hplain.lineFeed_not_mem_function, hfeed, Stamp.functionEnd]
  obtain ⟨first, hsplit, hlength, hhead, hends⟩ := h.exists_split? hline hmessage
  rw [hsplit, hends.eq_message (h.not_infix_place hplain) hlength hhead]

end PageLoads.Line
