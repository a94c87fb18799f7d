import Mathlib.Tactic.SplitIfs
import PageLoads.Json.Printer
import PageLoads.Json.Reader

namespace PageLoads.Json

open PageLoads.Text

theorem consChar_some (c : Char) (found? : Option (List Char × List Char)) :
    consChar (some c) found? = found?.map fun (chars, rest) => (c :: chars, rest) := by
  cases found? <;> rfl

theorem hexValue?_hexDigit : ∀ n < 16, hexValue? (hexDigit n) = some n := by
  decide

theorem hexUnit?_hexDigit {n : Nat} (h : n < 0x20) :
    hexUnit? '0' '0' (hexDigit (n / 16)) (hexDigit (n % 16)) = some n := by
  have hzero : hexValue? '0' = some 0 := rfl
  have hhigh := hexValue?_hexDigit (n / 16) (by omega)
  have hlow := hexValue?_hexDigit (n % 16) (by omega)
  simp only [hexUnit?, hzero, hhigh, hlow, bind, Option.bind, pure, Option.some.injEq]
  omega

theorem isLeadSurrogate_of_lt {n : Nat} (h : n < 0x20) : isLeadSurrogate n = false := by
  simp only [isLeadSurrogate, Bool.and_eq_false_iff, decide_eq_false_iff_not]
  omega

theorem charOfUnit?_toNat {c : Char} (h : c.toNat < 0x20) : charOfUnit? c.toNat = some c := by
  have htrail : isTrailSurrogate c.toNat = false := by
    simp only [isTrailSurrogate, Bool.and_eq_false_iff, decide_eq_false_iff_not]
    omega
  simp [charOfUnit?, isLeadSurrogate_of_lt h, htrail]

/-- An escaped unit that is no half of a pair is one character, whatever follows it. -/
theorem textBody?_unit {a b c d : Char} {unit : Nat} (hunit : hexUnit? a b c d = some unit)
    (hlead : isLeadSurrogate unit = false) (rest : List Char) :
    textBody? ('\\' :: 'u' :: a :: b :: c :: d :: rest) = consChar (charOfUnit? unit) (textBody? rest) := by
  rw [textBody?.eq_def]
  split
  case h_1 h => cases h
  case h_2 h => cases h
  case h_3 h =>
    -- A second unit follows; it is a text of its own, as the first is no leading half.
    cases h
    simp [hunit, hlead]
  case h_4 h =>
    cases h
    simp [hunit]
  case h_5 hfour h =>
    cases h
    exact absurd rfl (hfour _ _ _ _ _ rfl)
  case h_6 hescape h =>
    cases h
    exact absurd rfl (hescape _ _ rfl)

theorem textBody?_simple {c : Char} (hc : c ≠ 'u') (rest : List Char) :
    textBody? ('\\' :: c :: rest) = consChar (simpleEscape? c) (textBody? rest) := by
  rw [textBody?.eq_def]
  split
  case h_1 h => cases h
  case h_2 h => cases h
  case h_3 h =>
    cases h
    exact absurd rfl hc
  case h_4 h =>
    cases h
    exact absurd rfl hc
  case h_5 h =>
    cases h
    rfl
  case h_6 hescape h =>
    cases h
    exact absurd rfl (hescape _ _ rfl)

theorem textBody?_raw {c : Char} (hquote : c ≠ '"') (hescape : c ≠ '\\') (hcontrol : ¬ c.toNat < 0x20)
    (rest : List Char) : textBody? (c :: rest) = consChar (some c) (textBody? rest) := by
  rw [textBody?.eq_def]
  split
  case h_1 h => cases h
  case h_2 h =>
    cases h
    exact absurd rfl hquote
  case h_6 h =>
    cases h
    rw [if_neg hcontrol]
  all_goals
    rename_i h
    cases h
    exact absurd rfl hescape

theorem textBody?_escaped (c : Char) (rest : List Char) :
    textBody? (escaped c ++ rest) = consChar (some c) (textBody? rest) := by
  unfold escaped
  split_ifs with hquote hslash hfeed htab hreturn hback hform hcontrol
  -- Seven characters have an escape of their own.
  iterate 7
    · subst c
      exact textBody?_simple (by decide) rest
  · rw [← charOfUnit?_toNat hcontrol]
    exact textBody?_unit (hexUnit?_hexDigit hcontrol) (isLeadSurrogate_of_lt hcontrol) rest
  · exact textBody?_raw hquote hslash hcontrol rest

theorem textBody?_printed (chars rest : List Char) :
    textBody? (chars.flatMap escaped ++ '"' :: rest) = some (chars, rest) := by
  induction chars with
  | nil => simp [textBody?]
  | cons c chars ih =>
    rw [List.flatMap_cons, List.append_assoc, textBody?_escaped, ih, consChar_some, Option.map_some]

theorem key?_quoted (key : String) (rest : List Char) :
    key? (quoted key ++ ':' :: ' ' :: rest) = some (key, skipSpace rest) := by
  have hquoted : quoted key ++ ':' :: ' ' :: rest =
      '"' :: (key.toList.flatMap escaped ++ '"' :: ':' :: ' ' :: rest) := by
    simp [quoted]
  have hcolon : skipSpace (':' :: ' ' :: rest) = ':' :: ' ' :: rest := rfl
  have hspace : skipSpace (' ' :: rest) = skipSpace rest := rfl
  simp only [hquoted, key?, textBody?_printed, hcolon, hspace, String.ofList_toList]

end PageLoads.Json
