import Mathlib.Data.List.Forall2
import Mathlib.Data.List.TakeWhile
import PageLoads.Pattern

/-!
# Cuts of a text

What a pattern says about a text without any search: there is a cut of the text into one piece per token,
each of the kind that its token admits. A token admits the pieces of certain lengths, and these can be
listed in the order in which they are preferred, so the cuts can be gone through token by token.
-/

namespace PageLoads

open PageLoads.Text
open PageLoads.Pattern (after?)

def Token.Admits : Token → List Char → Prop
  | .literal content, piece => piece = content.toList
  | .oneOf options, piece => ∃ option ∈ options, piece = option.toList
  | .number _, piece => piece ≠ [] ∧ ∀ c ∈ piece, isAsciiDigit c
  | .text _, piece => piece ≠ []
  | .skip, _ => True

def Token.textLength? (input : List Char) (text : String) : Option Nat :=
  (after? text.toList input).map fun _ => text.toList.length

/-- The lengths of the pieces that a token admits at the beginning of a text, the most preferred first. -/
def Token.lengths (input : List Char) : Token → List Nat
  | .literal content => (textLength? input content).toList
  | .oneOf options => options.filterMap (textLength? input)
  | .number _ => (List.range' 1 (input.takeWhile isAsciiDigit).length).reverse
  | .text _ => List.range' 1 input.length
  | .skip => List.range (input.length + 1)

namespace Pattern

/-- The whole of a text is cut into consecutive pieces, one for each token, which admits it. -/
def IsCut (tokens : List Token) (input : List Char) (pieces : List (List Char)) : Prop :=
  List.Forall₂ Token.Admits tokens pieces ∧ pieces.flatten = input

/-- What pieces give as fields: the pieces of the numbers and the texts, each under the name of its token,
in the order of the tokens. -/
inductive Captured : List Token → List (List Char) → Captures → Prop where
  | nil : Captured [] [] []
  | literal {text tokens piece pieces fields} :
      Captured tokens pieces fields → Captured (.literal text :: tokens) (piece :: pieces) fields
  | oneOf {options tokens piece pieces fields} :
      Captured tokens pieces fields → Captured (.oneOf options :: tokens) (piece :: pieces) fields
  | number {field tokens piece pieces fields} :
      Captured tokens pieces fields →
        Captured (.number field :: tokens) (piece :: pieces) ((field, piece) :: fields)
  | text {field tokens piece pieces fields} :
      Captured tokens pieces fields →
        Captured (.text field :: tokens) (piece :: pieces) ((field, piece) :: fields)
  | skip {tokens piece pieces fields} :
      Captured tokens pieces fields → Captured (.skip :: tokens) (piece :: pieces) fields

/-- The cut in which each piece, from the left, is the most preferred one behind which the rest can be
cut. -/
def preferred? : List Token → List Char → Option (List (List Char))
  | [], input => if input = [] then some [] else none
  | token :: tokens, input =>
    (token.lengths input).findSome? fun length =>
      (preferred? tokens (input.drop length)).map (input.take length :: ·)

theorem after?_eq_some_iff {text input rest : List Char} :
    after? text input = some rest ↔ input = text ++ rest := by
  induction text generalizing input with
  | nil => simp [after?]
  | cons c text ih =>
    cases input with
    | nil => simp [after?]
    | cons d input =>
      by_cases h : c = d
      · simp [after?, h, ih]
      · simp [after?, h, Ne.symm h]

theorem textLength?_eq_some_iff {input : List Char} {text : String} {length : Nat} :
    Token.textLength? input text = some length ↔
      length ≤ input.length ∧ input.take length = text.toList := by
  simp only [Token.textLength?, Option.map_eq_some_iff, after?_eq_some_iff]
  constructor
  · rintro ⟨rest, rfl, rfl⟩
    simp
  · rintro ⟨hlength, htake⟩
    refine ⟨input.drop length, ?_, ?_⟩
    · rw [← htake, List.take_append_drop]
    · rw [← htake, List.length_take, Nat.min_eq_left hlength]

theorem forall_mem_take_iff {isMember : Char → Bool} {input : List Char} {length : Nat}
    (hlength : length ≤ input.length) :
    (∀ c ∈ input.take length, isMember c) ↔ length ≤ (input.takeWhile isMember).length := by
  induction input generalizing length with
  | nil => simpa using hlength
  | cons c input ih =>
    cases length with
    | zero => simp
    | succ length =>
      have ih := ih (Nat.le_of_succ_le_succ hlength)
      cases hc : isMember c with
      | false => simp [hc]
      | true => simp [hc, ih]

theorem mem_lengths_iff {token : Token} {input : List Char} {length : Nat} :
    length ∈ token.lengths input ↔ length ≤ input.length ∧ token.Admits (input.take length) := by
  have hnonempty (hlength : length ≤ input.length) : input.take length ≠ [] ↔ 1 ≤ length := by
    rw [← List.length_pos_iff, List.length_take, Nat.min_eq_left hlength, Nat.succ_le_iff]
  cases token with
  | literal content =>
    rw [Token.lengths, Option.mem_toList, textLength?_eq_some_iff]
    rfl
  | oneOf options =>
    simp only [Token.lengths, List.mem_filterMap, textLength?_eq_some_iff, Token.Admits]
    constructor
    · rintro ⟨option, hoption, hlength, htake⟩
      exact ⟨hlength, option, hoption, htake⟩
    · rintro ⟨hlength, option, hoption, htake⟩
      exact ⟨option, hoption, hlength, htake⟩
  | number field =>
    have hdigits := (List.takeWhile_sublist (p := isAsciiDigit) (l := input)).length_le
    simp only [Token.lengths, List.mem_reverse, List.mem_range'_1, Token.Admits]
    constructor
    · rintro ⟨hpos, hlt⟩
      have hlength : length ≤ input.length := by omega
      exact ⟨hlength, (hnonempty hlength).mpr hpos, (forall_mem_take_iff hlength).mpr (by omega)⟩
    · rintro ⟨hlength, hne, hall⟩
      have := (hnonempty hlength).mp hne
      have := (forall_mem_take_iff hlength).mp hall
      omega
  | text field =>
    simp only [Token.lengths, List.mem_range'_1, Token.Admits]
    constructor
    · rintro ⟨hpos, hlt⟩
      have hlength : length ≤ input.length := by omega
      exact ⟨hlength, (hnonempty hlength).mpr hpos⟩
    · rintro ⟨hlength, hne⟩
      have := (hnonempty hlength).mp hne
      omega
  | skip =>
    simp only [Token.lengths, List.mem_range, Token.Admits, and_true]
    omega

theorem isCut_cons_iff {token : Token} {tokens : List Token} {input : List Char} {pieces : List (List Char)} :
    IsCut (token :: tokens) input pieces ↔ ∃ length more, length ∈ token.lengths input ∧
      pieces = input.take length :: more ∧ IsCut tokens (input.drop length) more := by
  constructor
  · rintro ⟨hadmits, rfl⟩
    obtain ⟨piece, more, hpiece, hmore, rfl⟩ := List.forall₂_cons_left_iff.mp hadmits
    refine ⟨piece.length, more, mem_lengths_iff.mpr ⟨?_, ?_⟩, ?_, ?_, ?_⟩
    · simp
    · simpa using hpiece
    · simp
    · exact hmore
    · simp
  · rintro ⟨length, more, hlength, rfl, hmore, hflatten⟩
    refine ⟨.cons (mem_lengths_iff.mp hlength).2 hmore, ?_⟩
    rw [List.flatten_cons, hflatten, List.take_append_drop]

theorem isCut_of_preferred? {tokens : List Token} {input : List Char} {pieces : List (List Char)}
    (h : preferred? tokens input = some pieces) : IsCut tokens input pieces := by
  induction tokens generalizing input pieces with
  | nil =>
    unfold preferred? at h
    split at h
    · rename_i hinput
      cases h
      exact ⟨.nil, hinput.symm⟩
    · cases h
  | cons token tokens ih =>
    obtain ⟨length, hlength, hlater⟩ := List.exists_of_findSome?_eq_some h
    obtain ⟨more, hmore, rfl⟩ := Option.map_eq_some_iff.mp hlater
    exact isCut_cons_iff.mpr ⟨length, more, hlength, rfl, ih hmore⟩

/-- A text that can be cut has a preferred cut: no length behind which the rest can be cut is left out. -/
theorem exists_preferred?_of_isCut {tokens : List Token} {input : List Char} {pieces : List (List Char)}
    (h : IsCut tokens input pieces) : ∃ found, preferred? tokens input = some found := by
  induction tokens generalizing input pieces with
  | nil =>
    obtain ⟨hnil, rfl⟩ := h
    cases hnil
    exact ⟨[], rfl⟩
  | cons token tokens ih =>
    obtain ⟨length, more, hlength, _, hmore⟩ := isCut_cons_iff.mp h
    obtain ⟨found, hfound⟩ := ih hmore
    refine Option.isSome_iff_exists.mp (List.findSome?_isSome_iff.mpr ⟨length, hlength, ?_⟩)
    rw [hfound]
    rfl

/-- The pieces that are fields, under their names. -/
def fieldsOf (tokens : List Token) (pieces : List (List Char)) : Captures :=
  (tokens.zip pieces).filterMap fun (token, piece) => token.field?.map fun field => (field, piece)

theorem fieldsOf_cons (token : Token) (tokens : List Token) (piece : List Char) (pieces : List (List Char)) :
    fieldsOf (token :: tokens) (piece :: pieces) =
      (token.field?.map fun field => (field, piece)).toList ++ fieldsOf tokens pieces := by
  cases hfield : token.field? <;> simp [fieldsOf, hfield]

theorem captured_fieldsOf {tokens : List Token} {pieces : List (List Char)}
    (h : List.Forall₂ Token.Admits tokens pieces) : Captured tokens pieces (fieldsOf tokens pieces) := by
  induction h with
  | nil => exact .nil
  | @cons token piece tokens pieces _ _ ih =>
    cases token with
    | literal content => exact .literal ih
    | oneOf options => exact .oneOf ih
    | number field => exact .number ih
    | text field => exact .text ih
    | skip => exact .skip ih

end Pattern

end PageLoads
