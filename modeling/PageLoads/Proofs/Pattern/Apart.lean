import PageLoads.Proofs.Pattern.Written
import PageLoads.Proofs.Text.Run

namespace PageLoads

open PageLoads.Text

def Text.IsNumeral (cs : List Char) : Prop :=
  cs ≠ [] ∧ ∀ c ∈ cs, isAsciiDigit c

namespace Pattern

def endsNumber (content : String) : Bool :=
  content.toList.head?.any fun c => !isAsciiDigit c

/-- The first texts of two patterns cannot both stand at the beginning of one text, or they are the same and the
second ones cannot both stand behind one number. -/
def apart (pattern other : Pattern) : Bool :=
  match pattern.tokens, other.tokens with
  | .literal lead :: .number _ :: .literal next :: _, .literal lead' :: .number _ :: .literal next' :: _ =>
    !agrees lead.toList lead'.toList ||
      lead == lead' && endsNumber next && endsNumber next' && !agrees next.toList next'.toList
  | _, _ => false

variable {tokens : List Token} {input digits rest : List Char} {pieces : List (List Char)} {field : String}

theorem head?_isAsciiDigit_of_endsNumber {content : String} (h : endsNumber content = true) (rest : List Char) :
    ∀ c ∈ (content.toList ++ rest).head?, isAsciiDigit c = false := by
  unfold endsNumber at h
  cases hcontent : content.toList with
  | nil => simp [hcontent] at h
  | cons d tail =>
    rintro c ⟨⟩
    simpa [hcontent] using h

theorem preferred?_number_literal_append {content : String} (hcontent : endsNumber content = true)
    (hdigits : IsNumeral digits) (hend : ∀ c ∈ rest.head?, isAsciiDigit c = false) :
    preferred? (.number field :: .literal content :: tokens) (digits ++ rest) =
      (preferred? (.literal content :: tokens) rest).map (digits :: ·) := by
  obtain ⟨hne, hall⟩ := hdigits
  cases hrest : preferred? (.literal content :: tokens) rest with
  | some pieces => exact preferred?_number hne hall hend hrest
  | none =>
    refine List.findSome?_eq_none_iff.mpr fun length hlength => ?_
    rw [Option.map_eq_none_iff]
    obtain ⟨_, _, hnumber⟩ := mem_lengths_iff.mp hlength
    by_cases hshort : length < digits.length
    · -- The next character is a digit, so the text behind the number does not stand here.
      refine preferred?_literal_eq_none (Option.eq_none_iff_forall_ne_some.mpr fun behind hbehind => ?_)
      have hlater := after?_eq_some_iff.mp hbehind
      rw [List.drop_append_of_le_length (Nat.le_of_lt hshort), List.drop_eq_getElem_cons hshort] at hlater
      have hnot : isAsciiDigit digits[length] = false :=
        head?_isAsciiDigit_of_endsNumber hcontent behind _ (by rw [← hlater]; rfl)
      rw [hall _ (List.getElem_mem hshort)] at hnot
      cases hnot
    · have hrun : (digits ++ rest).takeWhile isAsciiDigit = digits := by
        have hspan := congrArg Prod.fst (span_append hall hend)
        rwa [List.span_eq_takeWhile_dropWhile] at hspan
      have hbound : length ≤ ((digits ++ rest).takeWhile isAsciiDigit).length :=
        (forall_mem_take_iff (mem_lengths_iff.mp hlength).1).mp hnumber
      rw [hrun] at hbound
      rw [Nat.le_antisymm hbound (Nat.not_lt.mp hshort), List.drop_left, hrest]

theorem fields?_number (pattern : Pattern) {lead next field : String} {tokens : List Token}
    (htokens : pattern.tokens = .literal lead :: .number field :: .literal next :: tokens)
    (hnext : endsNumber next = true) (hdigits : IsNumeral digits)
    (hrest : ∀ c ∈ rest.head?, isAsciiDigit c = false) :
    pattern.fields? (lead.toList ++ (digits ++ rest)) =
      (preferred? (.literal next :: tokens) rest).map fun pieces =>
        ⟨pattern.name, (field, digits) :: fieldsOf (.literal next :: tokens) pieces⟩ := by
  have hnumber : preferred? (.number field :: .literal next :: tokens) (digits ++ rest) =
      (preferred? (.literal next :: tokens) rest).map (digits :: ·) :=
    preferred?_number_literal_append hnext hdigits hrest
  cases hbehind : preferred? (.literal next :: tokens) rest with
  | none =>
    rw [hbehind] at hnumber
    refine fields?_eq_none_of_preferred? ?_
    rw [htokens]
    exact preferred?_literal_append_eq_none lead hnumber
  | some pieces =>
    rw [hbehind] at hnumber
    have hall : preferred? pattern.tokens (lead.toList ++ (digits ++ rest)) =
        some (lead.toList :: digits :: pieces) := by
      rw [htokens]
      exact preferred?_literal lead hnumber
    rw [fields?_eq_some_of_preferred? hall, htokens, fieldsOf_cons, fieldsOf_cons]
    rfl

theorem fields?_eq_none_of_lead (pattern : Pattern) {lead : String} {tokens : List Token}
    (htokens : pattern.tokens = .literal lead :: tokens) {before : String}
    (h : agrees lead.toList before.toList = false) (behind : List Char) :
    pattern.fields? (before.toList ++ behind) = none := by
  refine fields?_eq_none_of_preferred? ?_
  rw [htokens]
  refine preferred?_literal_eq_none (Option.eq_none_iff_forall_ne_some.mpr fun rest hrest => ?_)
  rw [agrees_of_append_eq (after?_eq_some_iff.mp hrest).symm] at h
  cases h

/-- The parts of a text that a pattern of this form covers. -/
theorem exists_eq_append_of_isCut {lead next : String}
    (h : IsCut (.literal lead :: .number field :: .literal next :: tokens) input pieces) :
    ∃ digits behind, IsNumeral digits ∧ input = lead.toList ++ (digits ++ (next.toList ++ behind)) := by
  obtain ⟨hadmits, rfl⟩ := h
  obtain ⟨_, _, rfl, hnumber, rfl⟩ := List.forall₂_cons_left_iff.mp hadmits
  obtain ⟨digits, _, hdigits, hnext, rfl⟩ := List.forall₂_cons_left_iff.mp hnumber
  obtain ⟨_, more, rfl, _, rfl⟩ := List.forall₂_cons_left_iff.mp hnext
  exact ⟨digits, more.flatten, hdigits, by simp⟩

theorem exists_isCut_of_fields? {pattern : Pattern} {fields : Fields}
    (h : pattern.fields? input = some fields) : ∃ pieces, IsCut pattern.tokens input pieces := by
  obtain ⟨pieces, hpieces, _⟩ := fields?_eq_some_iff.mp h
  exact ⟨pieces, isCut_of_preferred? hpieces⟩

theorem fields?_eq_none_or_of_apart {pattern other : Pattern} (h : apart pattern other = true)
    (input : List Char) : pattern.fields? input = none ∨ other.fields? input = none := by
  rw [or_iff_not_imp_left, ← ne_eq, Option.ne_none_iff_exists']
  rintro ⟨fields, hfields⟩
  rw [Option.eq_none_iff_forall_ne_some]
  intro fields' hfields'
  obtain ⟨pieces, hcut⟩ := exists_isCut_of_fields? hfields
  obtain ⟨pieces', hcut'⟩ := exists_isCut_of_fields? hfields'
  unfold apart at h
  split at h
  · rename_i lead field next tokens lead' field' next' tokens' htokens htokens'
    rw [htokens] at hcut
    rw [htokens'] at hcut'
    obtain ⟨digits, behind, hdigits, hinput⟩ := exists_eq_append_of_isCut hcut
    obtain ⟨digits', behind', hdigits', hinput'⟩ := exists_eq_append_of_isCut hcut'
    have hsame := hinput.symm.trans hinput'
    simp only [Bool.or_eq_true, Bool.and_eq_true, Bool.not_eq_true', beq_iff_eq] at h
    rcases h with hlead | ⟨⟨⟨hlead, hend⟩, hend'⟩, hnext⟩
    · rw [agrees_of_append_eq hsame] at hlead
      cases hlead
    · -- Both numbers are the run of digits behind the same first text.
      subst hlead
      have hspan := span_append hdigits.2 (head?_isAsciiDigit_of_endsNumber hend behind)
      rw [List.append_cancel_left hsame,
        span_append hdigits'.2 (head?_isAsciiDigit_of_endsNumber hend' behind')] at hspan
      obtain ⟨_, hbehind⟩ := Prod.mk.inj hspan
      rw [agrees_of_append_eq hbehind.symm] at hnext
      cases hnext
  · cases h

end Pattern

end PageLoads
