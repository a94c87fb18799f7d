import PageLoads.Proofs.Number.Decimal
import PageLoads.Proofs.Pattern.Overlap
import PageLoads.Proofs.Pattern.Search

/-!
# Written texts

What a pattern finds in a text that was written piece by piece. A piece of digits ends where no digit follows.
A free piece ends before the literal behind it if this does not begin any earlier: then no shorter piece is
followed by the literal, and no longer one is tried.
-/

namespace PageLoads.Pattern

open PageLoads.Text

variable {tokens : List Token} {piece rest : List Char} {pieces : List (List Char)} {field : String}

/-- A token takes a piece behind which the rest can be cut if no length that it prefers leads to a cut. -/
theorem preferred?_cons_eq_some {token : Token} (before after : List Nat)
    (hlengths : token.lengths (piece ++ rest) = before ++ piece.length :: after)
    (hbefore : ∀ length ∈ before, preferred? tokens ((piece ++ rest).drop length) = none)
    (hrest : preferred? tokens rest = some pieces) :
    preferred? (token :: tokens) (piece ++ rest) = some (piece :: pieces) := by
  refine List.findSome?_eq_some_iff.mpr ⟨before, piece.length, after, hlengths, ?_, ?_⟩
  · rw [List.drop_left, List.take_left, hrest]
    rfl
  · intro length hlength
    rw [hbefore length hlength]
    rfl

theorem preferred?_cons_eq_none {input : List Char} (token : Token)
    (h : ∀ length, preferred? tokens (input.drop length) = none) : preferred? (token :: tokens) input = none := by
  simp [preferred?, h]

theorem after?_append (text rest : List Char) : after? text (text ++ rest) = some rest :=
  after?_eq_some_iff.mpr rfl

theorem preferred?_literal (content : String) (hrest : preferred? tokens rest = some pieces) :
    preferred? (.literal content :: tokens) (content.toList ++ rest) = some (content.toList :: pieces) := by
  refine preferred?_cons_eq_some [] [] ?_ (by simp) hrest
  simp [Token.lengths, Token.textLength?, after?_append]

theorem preferred?_number (hne : piece ≠ []) (hdigits : ∀ c ∈ piece, isAsciiDigit c)
    (hend : ∀ c ∈ rest.head?, isAsciiDigit c = false) (hrest : preferred? tokens rest = some pieces) :
    preferred? (.number field :: tokens) (piece ++ rest) = some (piece :: pieces) := by
  have hrun : (piece ++ rest).takeWhile isAsciiDigit = piece := by
    rw [List.takeWhile_append_of_pos hdigits]
    cases rest with
    | nil => simp
    | cons c rest => simp [hend c rfl]
  obtain ⟨shorter, hlength⟩ : ∃ shorter, piece.length = shorter + 1 :=
    Nat.exists_eq_add_one.mpr (List.length_pos_iff.mpr hne)
  refine preferred?_cons_eq_some [] (List.range' 1 shorter).reverse ?_ (by simp) hrest
  rw [Token.lengths, hrun, hlength, List.range'_concat, List.reverse_concat, List.nil_append, Nat.one_mul,
    Nat.add_comm]

theorem preferred?_text (hne : piece ≠ [])
    (hearlier : ∀ length, length < piece.length → preferred? tokens ((piece ++ rest).drop length) = none)
    (hrest : preferred? tokens rest = some pieces) :
    preferred? (.text field :: tokens) (piece ++ rest) = some (piece :: pieces) := by
  obtain ⟨shorter, hlength⟩ : ∃ shorter, piece.length = shorter + 1 :=
    Nat.exists_eq_add_one.mpr (List.length_pos_iff.mpr hne)
  refine preferred?_cons_eq_some (List.range' 1 shorter) (List.range' (piece.length + 1) rest.length) ?_ ?_ hrest
  · have hsplit : (piece ++ rest).length = shorter + (rest.length + 1) := by
      rw [List.length_append]
      omega
    rw [Token.lengths, hsplit, ← List.range'_append, List.range'_succ, hlength, Nat.one_mul, Nat.add_comm 1]
  · intro length hmem
    have hbounds := List.mem_range'_1.mp hmem
    exact hearlier length (by omega)

theorem preferred?_skip_append
    (hearlier : ∀ length, length < piece.length → preferred? tokens ((piece ++ rest).drop length) = none)
    (hrest : preferred? tokens rest = some pieces) :
    preferred? (.skip :: tokens) (piece ++ rest) = some (piece :: pieces) := by
  refine preferred?_cons_eq_some (List.range piece.length) (List.range' (piece.length + 1) rest.length) ?_ ?_ hrest
  · have hsplit : (piece ++ rest).length + 1 = piece.length + (rest.length + 1) := by
      rw [List.length_append]
      omega
    rw [Token.lengths, hsplit, List.range_eq_range', ← List.range'_append, List.range'_succ, ← List.range_eq_range',
      Nat.one_mul, Nat.zero_add]
  · intro length hmem
    exact hearlier length (List.mem_range.mp hmem)

theorem preferred?_nil_drop {length : Nat} (h : length < piece.length) : preferred? [] (piece.drop length) = none := by
  rw [preferred?, if_neg]
  intro hnil
  have := List.drop_eq_nil_iff.mp hnil
  omega

theorem preferred?_skip (rest : List Char) : preferred? [.skip] rest = some [rest] := by
  have hearlier (length : Nat) (h : length < rest.length) : preferred? [] ((rest ++ []).drop length) = none := by
    rw [List.append_nil, preferred?_nil_drop h]
  simpa using preferred?_skip_append hearlier rfl

theorem preferred?_text_end (hne : piece ≠ []) : preferred? [.text field] piece = some [piece] := by
  have hearlier (length : Nat) (h : length < piece.length) : preferred? [] ((piece ++ []).drop length) = none := by
    rw [List.append_nil, preferred?_nil_drop h]
  simpa using preferred?_text hne hearlier rfl

/-- The first character of a text occurs in it once, so no two occurrences of the text overlap. -/
def beginsOnce (text : String) : Bool :=
  match text.toList with
  | [] => false
  | c :: tail => !tail.contains c

theorem not_overlaps_of_beginsOnce {text : String} (h : beginsOnce text = true) :
    overlaps text.toList.tail text.toList = false := by
  unfold beginsOnce at h
  split at h
  · cases h
  · rename_i c tail htext
    rw [htext]
    exact not_overlaps_of_not_mem (by simpa using h)

theorem preferred?_literal_eq_none {content : String} {input : List Char}
    (h : after? content.toList input = none) : preferred? (.literal content :: tokens) input = none := by
  simp [preferred?, Token.lengths, Token.textLength?, h]

theorem preferred?_literal_append_eq_none (content : String) (hrest : preferred? tokens rest = none) :
    preferred? (.literal content :: tokens) (content.toList ++ rest) = none := by
  simp [preferred?, Token.lengths, Token.textLength?, after?_append, hrest]

theorem preferred?_number_eq_none {input : List Char} (h : ∀ c ∈ input.head?, isAsciiDigit c = false) :
    preferred? (.number field :: tokens) input = none := by
  have hnone : input.takeWhile isAsciiDigit = [] := by
    cases input with
    | nil => rfl
    | cons c input => simp [h c rfl]
  simp [preferred?, Token.lengths, hnone]

theorem preferred?_oneOf (before : List String) (option : String) (after : List String)
    (hbefore : ∀ other ∈ before, after? other.toList (option.toList ++ rest) = none)
    (hrest : preferred? tokens rest = some pieces) :
    preferred? (.oneOf (before ++ option :: after) :: tokens) (option.toList ++ rest) =
      some (option.toList :: pieces) := by
  have hnone : before.filterMap (Token.textLength? (option.toList ++ rest)) = [] := by
    rw [List.filterMap_eq_nil_iff]
    intro other hother
    simp [Token.textLength?, hbefore other hother]
  have hsome : Token.textLength? (option.toList ++ rest) option = some option.toList.length := by
    simp [Token.textLength?, after?_append]
  refine preferred?_cons_eq_some [] (after.filterMap (Token.textLength? (option.toList ++ rest))) ?_ (by simp) hrest
  rw [Token.lengths, List.filterMap_append, hnone, List.filterMap_cons_some hsome]

theorem preferred?_oneOf_eq_none {options : List String} {input : List Char}
    (h : ∀ option ∈ options, after? option.toList input = none) :
    preferred? (.oneOf options :: tokens) input = none := by
  have hnone : options.filterMap (Token.textLength? input) = [] := by
    rw [List.filterMap_eq_nil_iff]
    intro option hoption
    simp [Token.textLength?, h option hoption]
  simp [preferred?, Token.lengths, hnone]

theorem preferred?_number_literal {content : String} (hne : piece ≠ []) (hdigits : ∀ c ∈ piece, isAsciiDigit c)
    (hcontent : content.toList.head?.any (fun c => !isAsciiDigit c) = true)
    (hrest : preferred? tokens rest = some pieces) :
    preferred? (.number field :: .literal content :: tokens) (piece ++ (content.toList ++ rest)) =
      some (piece :: content.toList :: pieces) := by
  refine preferred?_number hne hdigits ?_ (preferred?_literal content hrest)
  intro c hc
  cases htext : content.toList with
  | nil => simp [htext] at hcontent
  | cons d tail =>
    have hd : isAsciiDigit d = false := by simpa [htext] using hcontent
    have hcd : d = c := by simpa [htext] using hc
    exact hcd ▸ hd

theorem preferred?_decimal (n : Nat) (hend : ∀ c ∈ rest.head?, isAsciiDigit c = false)
    (hrest : preferred? tokens rest = some pieces) :
    preferred? (.number field :: tokens) (Nat.toDigits 10 n ++ rest) = some (Nat.toDigits 10 n :: pieces) :=
  preferred?_number Nat.toDigits_ne_nil (fun _ => Decimal.isAsciiDigit_of_mem_toDigits) hend hrest

theorem preferred?_decimal_literal {content : String} (n : Nat)
    (hcontent : content.toList.head?.any (fun c => !isAsciiDigit c) = true)
    (hrest : preferred? tokens rest = some pieces) :
    preferred? (.number field :: .literal content :: tokens) (Nat.toDigits 10 n ++ (content.toList ++ rest)) =
      some (Nat.toDigits 10 n :: content.toList :: pieces) :=
  preferred?_number_literal Nat.toDigits_ne_nil (fun _ => Decimal.isAsciiDigit_of_mem_toDigits) hcontent hrest

/-- Free text ends before the literal behind it if it does not hold what the literal begins with. -/
theorem preferred?_text_of_mark {content : String} {mark : List Char} (hne : piece ≠ [])
    (hmark : mark <+: content.toList) (hpiece : ¬ mark <:+: piece)
    (hoverlap : overlaps mark.tail content.toList = false) (hrest : preferred? tokens rest = some pieces) :
    preferred? (.text field :: .literal content :: tokens) (piece ++ (content.toList ++ rest)) =
      some (piece :: content.toList :: pieces) := by
  refine preferred?_text hne ?_ (preferred?_literal content hrest)
  intro length hlength
  have hnone := after?_drop_eq_none_of_not_overlaps hpiece hoverlap hlength rest
  exact preferred?_literal_eq_none (after?_eq_none_of_beginning hmark hnone)

theorem preferred?_text_literal {content : String} (hne : piece ≠ []) (hpiece : ¬ content.toList <:+: piece)
    (hcontent : beginsOnce content = true) (hrest : preferred? tokens rest = some pieces) :
    preferred? (.text field :: .literal content :: tokens) (piece ++ (content.toList ++ rest)) =
      some (piece :: content.toList :: pieces) :=
  preferred?_text_of_mark hne List.prefix_rfl hpiece (not_overlaps_of_beginsOnce hcontent) hrest

theorem preferred?_text_literal_nil {content : String} (hne : piece ≠ []) :
    preferred? [.text field, .literal content] (piece ++ content.toList) = some [piece, content.toList] := by
  have hcut : IsCut [.text field, .literal content] (piece ++ content.toList) [piece, content.toList] :=
    ⟨.cons hne (.cons rfl .nil), by simp⟩
  obtain ⟨found, hfound⟩ := exists_preferred?_of_isCut hcut
  obtain ⟨hadmits, hflatten⟩ := isCut_of_preferred? hfound
  obtain ⟨first, _, _, hlast, rfl⟩ := List.forall₂_cons_left_iff.mp hadmits
  obtain ⟨_, _, rfl, hnil, rfl⟩ := List.forall₂_cons_left_iff.mp hlast
  cases hnil
  have hfirst : first = piece := by simpa using hflatten
  rw [hfound, hfirst]

theorem fields?_eq_some_of_preferred? {pattern : Pattern} {input : List Char}
    (h : preferred? pattern.tokens input = some pieces) :
    pattern.fields? input = some ⟨pattern.name, fieldsOf pattern.tokens pieces⟩ :=
  fields?_eq_some_iff.mpr ⟨pieces, h, rfl⟩

theorem fields?_eq_none_of_preferred? {pattern : Pattern} {input : List Char}
    (h : preferred? pattern.tokens input = none) : pattern.fields? input = none := by
  rw [Option.eq_none_iff_forall_ne_some]
  intro fields hfields
  obtain ⟨found, hfound, _⟩ := fields?_eq_some_iff.mp hfields
  rw [h] at hfound
  cases hfound

end PageLoads.Pattern

namespace PageLoads.Fields

variable {fields : Fields} {field : String}

theorem text_of_get? {found : List Char} (h : fields.get? field = some found) :
    fields.text field = .ok (String.ofList found) := by
  simp [text, piece, h, bind, Except.bind, pure, Except.pure]

theorem unsigned_of_get? {greatest n : Nat} (h : fields.get? field = some (Nat.toDigits 10 n))
    (hn : n ≤ greatest) : fields.unsigned greatest field = .ok n := by
  simp [unsigned, numberBy, piece, h, Decimal.unsigned?_toDigits hn, bind, Except.bind, pure, Except.pure]

theorem word32_of_get? {n : UInt32} (h : fields.get? field = some (Nat.toDigits 10 n.toNat)) :
    fields.word32 field = .ok n := by
  rw [word32, unsigned_of_get? h (Nat.le_sub_one_of_lt n.toNat_lt_size)]
  exact congrArg Except.ok UInt32.ofNat_toNat

theorem word64_of_get? {n : UInt64} (h : fields.get? field = some (Nat.toDigits 10 n.toNat)) :
    fields.word64 field = .ok n := by
  rw [word64, unsigned_of_get? h (Nat.le_sub_one_of_lt n.toNat_lt_size)]
  exact congrArg Except.ok UInt64.ofNat_toNat

end PageLoads.Fields
