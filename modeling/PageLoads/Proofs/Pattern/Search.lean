import PageLoads.Proofs.Pattern.Cut

/-!
# The search for a cut

All attempts of a search share one list of captures. An attempt that fails takes back what it captured,
so the next one finds the captures as they were, and the one that succeeds adds the fields of the cut that
it found.
-/

namespace PageLoads.Pattern

/-- What a search answers that found some fields, or none: these are added to the captures, or the captures
are as they were. -/
def answer (captures : Captures) : Option Captures → Bool × Captures
  | some found => (true, captures ++ found)
  | none => (false, captures)

variable {matchRest : List Char → Captures → Bool × Captures} {found : List Char → Option Captures}
  {input : List Char}

theorem tryEach_eq {γ : Type} {attempt : γ → Captures → Bool × Captures} {found : γ → Option Captures}
    (hattempt : ∀ choice captures, attempt choice captures = answer captures (found choice))
    (choices : List γ) (captures : Captures) :
    tryEach attempt choices captures = answer captures (choices.findSome? found) := by
  induction choices with
  | nil => rfl
  | cons choice rest ih =>
    cases hfound : found choice with
    | some fields => simp [tryEach, hattempt, hfound, answer]
    | none =>
      simp only [tryEach, hattempt, hfound, answer, List.findSome?_cons]
      exact ih

theorem tryText_eq (hrest : ∀ rest captures, matchRest rest captures = answer captures (found rest))
    (text : String) (captures : Captures) :
    tryText matchRest input text captures =
      answer captures ((Token.textLength? input text).bind fun length => found (input.drop length)) := by
  unfold tryText
  cases hafter : after? text.toList input with
  | none => simp [Token.textLength?, hafter, answer]
  | some rest =>
    have hdrop : input.drop text.toList.length = rest := by
      rw [after?_eq_some_iff.mp hafter, List.drop_left]
    simp [Token.textLength?, hafter, hdrop, hrest]

/-- A capture stays behind those that the rest adds, or is taken back. -/
theorem tryCapture_eq (hrest : ∀ rest captures, matchRest rest captures = answer captures (found rest))
    (field : String) (length : Nat) (captures : Captures) :
    tryCapture matchRest field input length captures =
      answer captures ((found (input.drop length)).map ((field, input.take length) :: ·)) := by
  unfold tryCapture
  rw [hrest]
  cases found (input.drop length) with
  | none => simp [answer]
  | some fields => simp [answer]

private theorem findSome?_filterMap {α β γ : Type} {f : α → Option β} {g : β → Option γ} (items : List α) :
    (items.filterMap f).findSome? g = items.findSome? fun item => (f item).bind g := by
  rw [← List.head?_filterMap, List.filterMap_filterMap, List.head?_filterMap]

theorem search_eq (tokens : List Token) (input : List Char) (captures : Captures) :
    search tokens input captures = answer captures ((preferred? tokens input).map (fieldsOf tokens)) := by
  induction tokens generalizing input captures with
  | nil => cases input <;> simp [search, preferred?, answer, fieldsOf]
  | cons token tokens ih =>
    rw [preferred?, List.map_findSome?]
    simp only [Function.comp_def, Option.map_map, fieldsOf_cons]
    cases token with
    | literal content =>
      rw [search, tryText_eq ih, Token.lengths]
      cases Token.textLength? input content <;> simp [Token.field?]
    | oneOf options =>
      rw [search, tryEach_eq (tryText_eq ih), Token.lengths, findSome?_filterMap]
      simp [Token.field?]
    | number field =>
      rw [search, tryEach_eq (tryCapture_eq ih field)]
      simp [Token.lengths, Token.field?, Function.comp_def]
    | text field =>
      rw [search, tryEach_eq (tryCapture_eq ih field)]
      simp [Token.lengths, Token.field?, Function.comp_def]
    | skip =>
      rw [search, tryEach_eq fun length captures => ih (input.drop length) captures]
      simp [Token.lengths, Token.field?]

theorem fields?_eq_some_iff {pattern : Pattern} {input : List Char} {fields : Fields} :
    pattern.fields? input = some fields ↔ ∃ pieces, preferred? pattern.tokens input = some pieces ∧
      fields = ⟨pattern.name, fieldsOf pattern.tokens pieces⟩ := by
  unfold fields?
  rw [search_eq]
  cases preferred? pattern.tokens input with
  | none => simp [answer]
  | some pieces => simp [answer, eq_comm]

/-- A pattern matches exactly the texts that can be cut into pieces that its tokens admit, whatever
choices the search has to take back. The fields of a matched text are the numbers and the texts among the
pieces of one such cut and nothing else. -/
theorem fields?_eq_some_iff_exists_cut (pattern : Pattern) (input : List Char) :
    ((∃ fields, pattern.fields? input = some fields) ↔ ∃ pieces, IsCut pattern.tokens input pieces) ∧
    ∀ fields, pattern.fields? input = some fields → fields.pattern = pattern.name ∧
      ∃ pieces, IsCut pattern.tokens input pieces ∧ Captured pattern.tokens pieces fields.captures := by
  constructor
  · constructor
    · rintro ⟨fields, h⟩
      obtain ⟨pieces, hpieces, _⟩ := fields?_eq_some_iff.mp h
      exact ⟨pieces, isCut_of_preferred? hpieces⟩
    · rintro ⟨pieces, hpieces⟩
      obtain ⟨found, hfound⟩ := exists_preferred?_of_isCut hpieces
      exact ⟨_, fields?_eq_some_iff.mpr ⟨found, hfound, rfl⟩⟩
  · intro fields h
    obtain ⟨pieces, hpieces, rfl⟩ := fields?_eq_some_iff.mp h
    have hcut := isCut_of_preferred? hpieces
    exact ⟨rfl, pieces, hcut, captured_fieldsOf hcut.1⟩

end PageLoads.Pattern
