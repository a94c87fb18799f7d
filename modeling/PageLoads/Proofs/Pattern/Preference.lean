import PageLoads.Proofs.Pattern.Search

namespace PageLoads

/-- A token prefers one piece to another: the longer number, the shorter free text, the option that is listed
earlier. -/
def Token.Prefers : Token → List Char → List Char → Prop
  | .literal _, _, _ => False
  | .oneOf options, piece, other =>
    (options.map String.toList).idxOf piece < (options.map String.toList).idxOf other
  | .number _, piece, other => other.length < piece.length
  | .text _, piece, other => piece.length < other.length
  | .skip, piece, other => piece.length < other.length

namespace Pattern

/-- One cut is preferred to another: at the first token for which they have different pieces, its piece is. -/
inductive MorePreferred : List Token → List (List Char) → List (List Char) → Prop where
  | here {token tokens piece other pieces others} :
      token.Prefers piece other → MorePreferred (token :: tokens) (piece :: pieces) (other :: others)
  | later {token tokens piece pieces others} :
      MorePreferred tokens pieces others → MorePreferred (token :: tokens) (piece :: pieces) (piece :: others)

def IsMostPreferred (tokens : List Token) (input : List Char) (pieces : List (List Char)) : Prop :=
  IsCut tokens input pieces ∧
    ∀ others, IsCut tokens input others → others = pieces ∨ MorePreferred tokens pieces others

theorem not_prefers_of_prefers {token : Token} {piece other : List Char} (h : token.Prefers piece other) :
    ¬ token.Prefers other piece := by
  cases token <;> simp only [Token.Prefers] at h ⊢ <;> omega

theorem not_prefers_self (token : Token) (piece : List Char) : ¬ token.Prefers piece piece :=
  fun h => not_prefers_of_prefers h h

theorem MorePreferred.asymm {tokens : List Token} {pieces others : List (List Char)}
    (h : MorePreferred tokens pieces others) : ¬ MorePreferred tokens others pieces := by
  induction h with
  | here hprefers =>
    intro hother
    cases hother with
    | here hback => exact not_prefers_of_prefers hprefers hback
    | later _ => exact not_prefers_self _ _ hprefers
  | later _ ih =>
    intro hother
    cases hother with
    | here hback => exact not_prefers_self _ _ hback
    | later hback => exact ih hback

/-- Where a less preferred cut has the same pieces up to a token, this token does not prefer its piece. -/
theorem MorePreferred.prefers_at {tokens : List Token} {pieces others : List (List Char)}
    (h : MorePreferred tokens pieces others) {i : Nat} (hbefore : others.take i = pieces.take i)
    {token : Token} {piece other : List Char} (htoken : tokens[i]? = some token)
    (hpiece : pieces[i]? = some piece) (hother : others[i]? = some other) :
    other = piece ∨ token.Prefers piece other := by
  induction h generalizing i with
  | here hprefers =>
    cases i with
    | zero =>
      cases htoken
      cases hpiece
      cases hother
      exact Or.inr hprefers
    | succ i =>
      obtain ⟨rfl, _⟩ := List.cons.inj hbefore
      exact absurd hprefers (not_prefers_self _ _)
  | later _ ih =>
    cases i with
    | zero =>
      cases hpiece
      cases hother
      exact Or.inl rfl
    | succ i => exact ih (List.cons.inj hbefore).2 htoken hpiece hother

theorem of_idxOf_lt {γ : Type} [DecidableEq γ] {R : γ → γ → Prop} {items : List γ} (h : items.Pairwise R)
    {a b : γ} (hb : b ∈ items) (hlt : items.idxOf a < items.idxOf b) : R a b := by
  have hbound : items.idxOf b < items.length := List.idxOf_lt_length_iff.mpr hb
  have hrelated := List.pairwise_iff_getElem.mp h _ _ (hlt.trans hbound) hbound hlt
  rwa [List.getElem_idxOf, List.getElem_idxOf] at hrelated

theorem toList_eq_take_iff {input : List Char} {option : String} {length : Nat} (h : length ≤ input.length) :
    option.toList = input.take length ↔ Token.textLength? input option = some length := by
  rw [textLength?_eq_some_iff, eq_comm]
  exact (and_iff_right h).symm

theorem idxOf_take_lt {input : List Char} {options : List String} {length other : Nat}
    (hlength : length ≤ input.length) (hother : other ≤ input.length)
    (hlt : (options.filterMap (Token.textLength? input)).idxOf length <
      (options.filterMap (Token.textLength? input)).idxOf other) :
    (options.map String.toList).idxOf (input.take length) <
      (options.map String.toList).idxOf (input.take other) := by
  induction options with
  | nil => cases hlt
  | cons option options ih =>
    have hlength' := @toList_eq_take_iff input option length hlength
    have hother' := @toList_eq_take_iff input option other hother
    rw [List.map_cons]
    by_cases hfirst : Token.textLength? input option = some length
    · have hne : Token.textLength? input option ≠ some other := by
        intro hsame
        obtain rfl := Option.some.inj (hfirst.symm.trans hsame)
        exact absurd hlt (Nat.lt_irrefl _)
      rw [← hlength'.mpr hfirst, List.idxOf_cons_self, List.idxOf_cons_ne _ (hother'.not.mpr hne)]
      exact Nat.succ_pos _
    · have hne : Token.textLength? input option ≠ some other := by
        intro hsame
        rw [List.filterMap_cons_some hsame, List.idxOf_cons_self] at hlt
        cases hlt
      rw [List.idxOf_cons_ne _ (hlength'.not.mpr hfirst), List.idxOf_cons_ne _ (hother'.not.mpr hne)]
      refine Nat.succ_lt_succ (ih ?_)
      cases hn : Token.textLength? input option with
      | none => rwa [List.filterMap_cons_none hn] at hlt
      | some n =>
        rw [List.filterMap_cons_some hn, List.idxOf_cons_ne _ (by rintro rfl; exact hfirst hn),
          List.idxOf_cons_ne _ (by rintro rfl; exact hne hn)] at hlt
        exact Nat.lt_of_succ_lt_succ hlt

theorem prefers_of_idxOf_lt {token : Token} {input : List Char} {length other : Nat}
    (hlength : length ∈ token.lengths input) (hother : other ∈ token.lengths input)
    (hlt : (token.lengths input).idxOf length < (token.lengths input).idxOf other) :
    token.Prefers (input.take length) (input.take other) := by
  have htake (n : Nat) (hn : n ∈ token.lengths input) : (input.take n).length = n := by
    rw [List.length_take, Nat.min_eq_left (mem_lengths_iff.mp hn).1]
  have hlength' := htake length hlength
  have hother' := htake other hother
  cases token with
  | literal content =>
    -- There is one length at the most.
    have hnone : (Token.lengths input (.literal content)).Pairwise fun _ _ => False := by
      rw [Token.lengths]
      cases Token.textLength? input content <;> simp
    exact of_idxOf_lt hnone hother hlt
  | oneOf options =>
    exact idxOf_take_lt (mem_lengths_iff.mp hlength).1 (mem_lengths_iff.mp hother).1 hlt
  | number field =>
    have hdescending : (Token.lengths input (.number field)).Pairwise fun a b => b < a :=
      List.pairwise_reverse.mpr List.pairwise_lt_range'
    simpa only [Token.Prefers, hlength', hother'] using of_idxOf_lt hdescending hother hlt
  | text field =>
    have hascending : (Token.lengths input (.text field)).Pairwise (· < ·) := List.pairwise_lt_range'
    simpa only [Token.Prefers, hlength', hother'] using of_idxOf_lt hascending hother hlt
  | skip =>
    have hascending : (Token.lengths input .skip).Pairwise (· < ·) := List.pairwise_lt_range
    simpa only [Token.Prefers, hlength', hother'] using of_idxOf_lt hascending hother hlt

theorem exists_first_of_findSome? {γ δ : Type} [DecidableEq γ] {result? : γ → Option δ} {items : List γ}
    {found : δ} (h : items.findSome? result? = some found) : ∃ item ∈ items, result? item = some found ∧
      ∀ other ∈ items, other ≠ item → (result? other).isSome → items.idxOf item < items.idxOf other := by
  obtain ⟨before, item, after, rfl, hitem, hbefore⟩ := List.findSome?_eq_some_iff.mp h
  have hnone {other : γ} (hsome : (result? other).isSome) : other ∉ before := by
    intro hmem
    rw [hbefore other hmem] at hsome
    cases hsome
  refine ⟨item, by simp, hitem, fun other hother hne hsome => ?_⟩
  rw [List.idxOf_append_of_notMem (hnone (by simp [hitem])), List.idxOf_append_of_notMem (hnone hsome),
    List.idxOf_cons_self, List.idxOf_cons_ne _ hne.symm]
  omega

theorem eq_or_morePreferred {tokens : List Token} {input : List Char} {pieces others : List (List Char)}
    (h : preferred? tokens input = some pieces) (hothers : IsCut tokens input others) :
    others = pieces ∨ MorePreferred tokens pieces others := by
  induction tokens generalizing input pieces others with
  | nil =>
    obtain ⟨hnil, _⟩ := isCut_of_preferred? h
    obtain ⟨hnil', _⟩ := hothers
    cases hnil
    cases hnil'
    exact Or.inl rfl
  | cons token tokens ih =>
    obtain ⟨length, hlength, hfound, hfirst⟩ := exists_first_of_findSome? h
    obtain ⟨more, hmore, rfl⟩ := Option.map_eq_some_iff.mp hfound
    obtain ⟨other, more', hother, rfl, hcut⟩ := isCut_cons_iff.mp hothers
    by_cases hsame : other = length
    · subst hsame
      rcases ih hmore hcut with rfl | hless
      · exact Or.inl rfl
      · exact Or.inr (.later hless)
    · obtain ⟨found, hrest⟩ := exists_preferred?_of_isCut hcut
      exact Or.inr (.here (prefers_of_idxOf_lt hlength hother (hfirst other hother hsame (by simp [hrest]))))

theorem isMostPreferred_iff {tokens : List Token} {input : List Char} {pieces : List (List Char)} :
    IsMostPreferred tokens input pieces ↔ preferred? tokens input = some pieces := by
  constructor
  · rintro ⟨hcut, hmost⟩
    obtain ⟨found, hfound⟩ := exists_preferred?_of_isCut hcut
    rcases hmost found (isCut_of_preferred? hfound) with rfl | hless
    · exact hfound
    · rcases eq_or_morePreferred hfound hcut with rfl | hmore
      · exact hfound
      · exact absurd hmore hless.asymm
  · intro h
    exact ⟨isCut_of_preferred? h, fun _ hothers => eq_or_morePreferred h hothers⟩

theorem Captured.eq_fieldsOf {tokens : List Token} {pieces : List (List Char)} {fields : Captures}
    (h : Captured tokens pieces fields) : fields = fieldsOf tokens pieces := by
  induction h with
  | nil => rfl
  | literal _ ih => rw [fieldsOf_cons, ih]; rfl
  | oneOf _ ih => rw [fieldsOf_cons, ih]; rfl
  | number _ ih => rw [fieldsOf_cons, ih]; rfl
  | text _ ih => rw [fieldsOf_cons, ih]; rfl
  | skip _ ih => rw [fieldsOf_cons, ih]; rfl

/-- A pattern reports the fields of the cut that is preferred to all others. In it no text could be shorter
without a change of the pieces before it. -/
theorem fields?_eq_some_iff_isMostPreferred (pattern : Pattern) (input : List Char) :
    (∀ fields, pattern.fields? input = some fields ↔
      ∃ pieces, IsMostPreferred pattern.tokens input pieces ∧ fields.pattern = pattern.name ∧
        Captured pattern.tokens pieces fields.captures) ∧
    ∀ pieces, IsMostPreferred pattern.tokens input pieces →
      ∀ i field piece, pattern.tokens[i]? = some (.text field) → pieces[i]? = some piece →
        ∀ others other, IsCut pattern.tokens input others → others.take i = pieces.take i →
          others[i]? = some other → piece.length ≤ other.length := by
  constructor
  · intro fields
    rw [fields?_eq_some_iff]
    constructor
    · rintro ⟨pieces, hpieces, rfl⟩
      exact ⟨pieces, isMostPreferred_iff.mpr hpieces, rfl, captured_fieldsOf (isCut_of_preferred? hpieces).1⟩
    · rintro ⟨pieces, hpieces, hname, hcaptured⟩
      refine ⟨pieces, isMostPreferred_iff.mp hpieces, ?_⟩
      rw [← hname, ← hcaptured.eq_fieldsOf]
  · intro pieces hpieces i field piece htoken hpiece others other hothers hbefore hother
    rcases hpieces.2 others hothers with rfl | hless
    · rw [hpiece] at hother
      exact (Option.some.inj hother) ▸ le_refl _
    · rcases hless.prefers_at hbefore htoken hpiece hother with rfl | hprefers
      · exact le_refl _
      · exact Nat.le_of_lt hprefers

/-- A text with two brackets is cut at the first of them; the other cut has the longer text before its
bracket. -/
theorem fields?_eq_some_iff_isMostPreferred_ofTwoBrackets :
    let pattern : Pattern := ⟨"link", [.text "url", .literal "]", .skip]⟩
    let input := "a]b]".toList
    let others := [['a', ']', 'b'], [']'], []]
    pattern.fields? input = some ⟨"link", [("url", ['a'])]⟩ ∧ IsCut pattern.tokens input others ∧
      ∃ pieces, IsMostPreferred pattern.tokens input pieces ∧ Captured pattern.tokens pieces [("url", ['a'])] ∧
        ∀ piece, pieces[0]? = some piece → piece.length ≤ ['a', ']', 'b'].length := by
  intro pattern input others
  have hfields : pattern.fields? input = some ⟨"link", [("url", ['a'])]⟩ := by decide
  have hothers : IsCut pattern.tokens input others :=
    ⟨.cons (List.cons_ne_nil _ _) (.cons rfl (.cons trivial .nil)), rfl⟩
  obtain ⟨hcut, hshortest⟩ := fields?_eq_some_iff_isMostPreferred pattern input
  obtain ⟨pieces, hpieces, _, hcaptured⟩ := (hcut _).mp hfields
  refine ⟨hfields, hothers, pieces, hpieces, hcaptured, fun piece hpiece => ?_⟩
  exact hshortest pieces hpieces 0 "url" piece rfl hpiece others _ hothers rfl rfl

end Pattern

end PageLoads
