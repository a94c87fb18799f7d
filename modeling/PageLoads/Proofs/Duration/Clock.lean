import Mathlib.Logic.Function.Basic
import PageLoads.Duration
import PageLoads.Proofs.Number.Decimal
import PageLoads.Proofs.Text.Trim

namespace PageLoads.Duration

open PageLoads.Text
open PageLoads.Decimal

/-- Digits of a number, filled up with zeros to a width and no further. -/
structure IsPadded (width : Nat) (digits : List Char) : Prop where
  isAsciiDigit : ∀ c ∈ digits, isAsciiDigit c = true
  width_le : width ≤ digits.length
  head_ne_zero : width < digits.length → digits.head? ≠ some '0'

instance (width : Nat) (digits : List Char) : Decidable (IsPadded width digits) :=
  decidable_of_iff
    (digits.all isAsciiDigit ∧ width ≤ digits.length ∧ (width < digits.length → digits.head? ≠ some '0')) <| by
    rw [List.all_eq_true]
    exact ⟨fun ⟨hdigits, hwidth, hhead⟩ => ⟨hdigits, hwidth, hhead⟩,
      fun ⟨hdigits, hwidth, hhead⟩ => ⟨hdigits, hwidth, hhead⟩⟩

variable {width n : Nat} {digits others : List Char}

theorem digitsValue_padded (width n : Nat) : digitsValue (padded width n) = n :=
  (digitsValue_zeros_append _ _).trans (digitsValue_toDigits n)

theorem length_padded (hwidth : 0 < width) (h : n < 10 ^ width) : (padded width n).length = width :=
  length_zeros_append hwidth h

theorem isPadded_padded (hwidth : 0 < width) (n : Nat) : IsPadded width (padded width n) where
  isAsciiDigit _ := isAsciiDigit_of_mem_zeros_append
  width_le := by
    rw [padded, List.length_append, List.length_replicate]
    omega
  head_ne_zero hlong hhead := by
    -- Without its first zero the number would have fewer digits than its value needs.
    obtain ⟨rest, hrest⟩ := List.head?_eq_some_iff.mp hhead
    have hlength : (padded width n).length = rest.length + 1 := by rw [hrest, List.length_cons]
    have hdigits : ∀ c ∈ rest, isAsciiDigit c = true := fun c hc =>
      isAsciiDigit_of_mem_zeros_append (show c ∈ padded width n from hrest ▸ List.mem_cons_of_mem _ hc)
    have hvalue : digitsValue rest = n :=
      calc digitsValue rest
          = digitsValue ('0' :: rest) := (digitsValue_zeros_append 1 rest).symm
        _ = digitsValue (padded width n) := by rw [hrest]
        _ = n := digitsValue_padded width n
    have hfits := (Nat.length_toDigits_le_iff (b := 10) (by decide) (by omega)).mpr (hvalue ▸ digitsValue_lt hdigits)
    rw [padded, List.length_append, List.length_replicate] at hlong hlength
    omega

theorem IsPadded.length_le (h : IsPadded width digits) (hothers : IsPadded width others)
    (hvalue : digitsValue digits = digitsValue others) : digits.length ≤ others.length := by
  refine Nat.not_lt.mp fun hlonger => ?_
  obtain ⟨c, rest, rfl⟩ := List.exists_cons_of_ne_nil (List.ne_nil_of_length_pos (Nat.zero_lt_of_lt hlonger))
  have hhead : c ≠ '0' := by simpa using h.head_ne_zero (Nat.lt_of_le_of_lt hothers.width_le hlonger)
  have hlow : 10 ^ rest.length ≤ digitsValue (c :: rest) :=
    le_digitsValue_cons (h.isAsciiDigit c List.mem_cons_self) hhead rest
  have hhigh : digitsValue others < 10 ^ rest.length :=
    Nat.lt_of_lt_of_le (digitsValue_lt hothers.isAsciiDigit)
      (Nat.pow_le_pow_right (by decide) (Nat.le_of_lt_succ hlonger))
  omega

/-- There is one way to fill up a number to a width. -/
theorem IsPadded.eq_padded (h : IsPadded width digits) (hwidth : 0 < width) (hvalue : digitsValue digits = n) :
    digits = padded width n := by
  have hpadded := isPadded_padded hwidth n
  have hvalues : digitsValue digits = digitsValue (padded width n) := hvalue.trans (digitsValue_padded width n).symm
  have hlength := Nat.le_antisymm (h.length_le hpadded hvalues) (hpadded.length_le h hvalues.symm)
  exact eq_of_digitsValue_eq h.isAsciiDigit hpadded.isAsciiDigit hlength hvalues

theorem IsPadded.colon_not_mem (h : IsPadded width digits) : ':' ∉ digits :=
  fun hmem => absurd (h.isAsciiDigit _ hmem) (by decide)

/-- What stands between the colons of a clock text. -/
structure ClockFields where
  hours : List Char
  minutes : List Char
  seconds : List Char
  milliseconds : List Char
  deriving DecidableEq, Repr

namespace ClockFields

def parts (fields : ClockFields) : List (List Char) :=
  [fields.hours, fields.minutes, fields.seconds, fields.milliseconds]

def text (fields : ClockFields) : String :=
  String.ofList (fields.hours ++ ':' :: fields.minutes ++ ':' :: fields.seconds ++ ':' :: fields.milliseconds)

def total (fields : ClockFields) : Nat :=
  3600000 * digitsValue fields.hours + 60000 * digitsValue fields.minutes + 1000 * digitsValue fields.seconds +
    digitsValue fields.milliseconds

/-- The hours have two digits or more, the others as many as they need and no more than their unit admits. -/
structure WellFormed (fields : ClockFields) : Prop where
  hours : IsPadded 2 fields.hours
  minutes : IsPadded 2 fields.minutes
  minutes_length : fields.minutes.length = 2
  minutes_lt : digitsValue fields.minutes < 60
  seconds : IsPadded 2 fields.seconds
  seconds_length : fields.seconds.length = 2
  seconds_lt : digitsValue fields.seconds < 60
  milliseconds : IsPadded 3 fields.milliseconds
  milliseconds_length : fields.milliseconds.length = 3
  milliseconds_lt : digitsValue fields.milliseconds < 1000

instance (fields : ClockFields) : Decidable fields.WellFormed :=
  decidable_of_iff
    (IsPadded 2 fields.hours ∧
      (IsPadded 2 fields.minutes ∧ fields.minutes.length = 2 ∧ digitsValue fields.minutes < 60) ∧
      (IsPadded 2 fields.seconds ∧ fields.seconds.length = 2 ∧ digitsValue fields.seconds < 60) ∧
      IsPadded 3 fields.milliseconds ∧ fields.milliseconds.length = 3 ∧ digitsValue fields.milliseconds < 1000) <| by
    constructor
    · rintro ⟨hhours, ⟨hminutes, hlength, hlt⟩, ⟨hseconds, hlength', hlt'⟩, hmilliseconds, hlength'', hlt''⟩
      exact ⟨hhours, hminutes, hlength, hlt, hseconds, hlength', hlt', hmilliseconds, hlength'', hlt''⟩
    · rintro ⟨hhours, hminutes, hlength, hlt, hseconds, hlength', hlt', hmilliseconds, hlength'', hlt''⟩
      exact ⟨hhours, ⟨hminutes, hlength, hlt⟩, ⟨hseconds, hlength', hlt'⟩, hmilliseconds, hlength'', hlt''⟩

def ofMilliseconds (ms : Nat) : ClockFields where
  hours := padded 2 (ms / 3600000)
  minutes := padded 2 (ms % 3600000 / 60000)
  seconds := padded 2 (ms % 60000 / 1000)
  milliseconds := padded 3 (ms % 1000)

theorem wellFormed_ofMilliseconds (ms : Nat) : (ofMilliseconds ms).WellFormed where
  hours := isPadded_padded (by decide) _
  minutes := isPadded_padded (by decide) _
  minutes_length := length_padded (by decide) (by omega)
  minutes_lt := by
    rw [ofMilliseconds, digitsValue_padded]
    omega
  seconds := isPadded_padded (by decide) _
  seconds_length := length_padded (by decide) (by omega)
  seconds_lt := by
    rw [ofMilliseconds, digitsValue_padded]
    omega
  milliseconds := isPadded_padded (by decide) _
  milliseconds_length := length_padded (by decide) (by omega)
  milliseconds_lt := by
    rw [ofMilliseconds, digitsValue_padded]
    omega

theorem total_ofMilliseconds (ms : Nat) : (ofMilliseconds ms).total = ms := by
  simp only [total, ofMilliseconds, digitsValue_padded]
  omega

variable {fields others : ClockFields}

theorem WellFormed.eq_ofMilliseconds (h : fields.WellFormed) : fields = ofMilliseconds fields.total := by
  obtain ⟨hours, minutes, seconds, milliseconds⟩ := fields
  have hminutes := h.minutes_lt
  have hseconds := h.seconds_lt
  have hmilliseconds := h.milliseconds_lt
  simp only [total, ofMilliseconds, ClockFields.mk.injEq] at hminutes hseconds hmilliseconds ⊢
  refine ⟨h.hours.eq_padded (by decide) ?_, h.minutes.eq_padded (by decide) ?_,
    h.seconds.eq_padded (by decide) ?_, h.milliseconds.eq_padded (by decide) ?_⟩
  · dsimp only
    omega
  · dsimp only
    omega
  · dsimp only
    omega
  · dsimp only
    omega

theorem toList_text (fields : ClockFields) : fields.text.toList =
    fields.hours ++ ':' :: (fields.minutes ++ ':' :: (fields.seconds ++ ':' :: fields.milliseconds)) := by
  simp [text]

theorem WellFormed.splitAt_text (h : fields.WellFormed) : splitAt ':' fields.text.toList = fields.parts := by
  rw [toList_text, splitAt_append_cons h.hours.colon_not_mem, splitAt_append_cons h.minutes.colon_not_mem,
    splitAt_append_cons h.seconds.colon_not_mem, splitAt_of_not_mem h.milliseconds.colon_not_mem, parts]

theorem WellFormed.text_inj (h : fields.WellFormed) (hothers : others.WellFormed)
    (htext : fields.text = others.text) : fields = others := by
  have hparts : fields.parts = others.parts := by rw [← h.splitAt_text, htext, hothers.splitAt_text]
  obtain ⟨hours, minutes, seconds, milliseconds⟩ := fields
  obtain ⟨hours', minutes', seconds', milliseconds'⟩ := others
  simpa [parts] using hparts

theorem WellFormed.trim_text (h : fields.WellFormed) : trim fields.text.toList = fields.text.toList := by
  have hdigits {width : Nat} {digits : List Char} (hdigits : IsPadded width digits) :
      ∀ c ∈ digits, isBlank c = false := fun c hc => isBlank_of_isAsciiDigit (hdigits.isAsciiDigit c hc)
  have hcolon : isBlank ':' = false := by decide
  refine trim_eq_self_of_forall_mem fun c hc => ?_
  simp only [toList_text, List.mem_append, List.mem_cons] at hc
  rcases hc with hc | rfl | hc | rfl | hc | rfl | hc
  · exact hdigits h.hours c hc
  · exact hcolon
  · exact hdigits h.minutes c hc
  · exact hcolon
  · exact hdigits h.seconds c hc
  · exact hcolon
  · exact hdigits h.milliseconds c hc

/-- Four fields are not the three of a duration. -/
theorem WellFormed.parse_text (h : fields.WellFormed) :
    parse fields.text = .error (.format none (.notDuration fields.text)) := by
  rw [parse, h.trim_text, h.splitAt_text]
  rfl

end ClockFields

open ClockFields (ofMilliseconds wellFormed_ofMilliseconds total_ofMilliseconds)

theorem clock_eq_text (ms : UInt64) : clock ms = (ofMilliseconds ms.toNat).text := rfl

/-- A clock text is the one text of four fields, each with its digits and within its bounds, that comes to the
milliseconds. So different times have different texts. No text of this form is a duration. -/
theorem clock_eq_iff_and_not_duration :
    (∀ (ms : UInt64) (text : String), clock ms = text ↔
      ∃ fields : ClockFields, fields.WellFormed ∧ fields.text = text ∧ fields.total = ms.toNat) ∧
    Function.Injective clock ∧
    (∀ fields : ClockFields, fields.WellFormed →
      splitAt ':' fields.text.toList = fields.parts ∧
      parse fields.text = .error (.format none (.notDuration fields.text))) ∧
    ∀ ms : UInt64, parse (clock ms) = .error (.format none (.notDuration (clock ms))) := by
  refine ⟨?_, ?_, fun fields h => ⟨h.splitAt_text, h.parse_text⟩, ?_⟩
  · intro ms text
    constructor
    · rintro rfl
      exact ⟨ofMilliseconds ms.toNat, wellFormed_ofMilliseconds _, rfl, total_ofMilliseconds _⟩
    · rintro ⟨fields, h, rfl, htotal⟩
      rw [clock_eq_text, ← htotal, ← h.eq_ofMilliseconds]
  · intro ms ms' htext
    have hfields : ofMilliseconds ms.toNat = ofMilliseconds ms'.toNat :=
      (wellFormed_ofMilliseconds _).text_inj (wellFormed_ofMilliseconds _) htext
    have htotal := congrArg ClockFields.total hfields
    rw [total_ofMilliseconds, total_ofMilliseconds] at htotal
    exact UInt64.toNat_inj.mp htotal
  · exact fun ms => (wellFormed_ofMilliseconds ms.toNat).parse_text

/-- A hundred hours and seven milliseconds. -/
theorem clock_eq_iff_and_not_duration_ofHundredHours :
    let fields : ClockFields := ⟨"100".toList, "00".toList, "00".toList, "007".toList⟩
    fields.WellFormed ∧ clock 360000007 = "100:00:00:007" ∧
      splitAt ':' fields.text.toList = fields.parts ∧
      parse "100:00:00:007" = .error (.format none (.notDuration "100:00:00:007")) := by
  intro fields
  have h : fields.WellFormed := by decide
  obtain ⟨hclock, _, hform, _⟩ := clock_eq_iff_and_not_duration
  have htext : fields.text = "100:00:00:007" := by decide
  obtain ⟨hsplit, hparse⟩ := hform fields h
  exact ⟨h, (hclock 360000007 _).mpr ⟨fields, h, htext, by decide⟩, hsplit, htext ▸ hparse⟩

end PageLoads.Duration
