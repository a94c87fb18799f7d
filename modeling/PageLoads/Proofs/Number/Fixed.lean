import PageLoads.Number.Printed
import PageLoads.Proofs.Number.Decimal
import PageLoads.Proofs.Text.Run

namespace PageLoads

open PageLoads.Text

namespace Decimal

theorem spanDigits_append {digits rest : List Char} (hdigits : ∀ c ∈ digits, isAsciiDigit c)
    (hrest : ∀ c ∈ rest.head?, isAsciiDigit c = false) : spanDigits (digits ++ rest) = (digits, rest) :=
  span_append hdigits hrest

theorem magnitude?_point {whole places : List Char} (hne : whole ≠ []) (hwhole : ∀ c ∈ whole, isAsciiDigit c)
    (hplaces : ∀ c ∈ places, isAsciiDigit c) (negative : Bool) :
    magnitude? negative (whole ++ '.' :: places) =
      some (scaled negative (digitsValue (whole ++ places)) (-places.length)) := by
  have hword {word : String} (hword : '.' ∉ word.toList) :
      String.ofList ((whole ++ '.' :: places).map Char.toLower) ≠ word := by
    rintro rfl
    refine hword ?_
    rw [String.toList_ofList, List.map_append, List.map_cons]
    exact List.mem_append_right _ List.mem_cons_self
  have hfirst : spanDigits (whole ++ '.' :: places) = (whole, '.' :: places) :=
    spanDigits_append hwhole (by rintro c ⟨⟩; decide)
  have hsecond : spanDigits places = (places, []) := by
    have hall : spanDigits (places ++ []) = (places, []) := spanDigits_append hplaces (by simp)
    rwa [List.append_nil] at hall
  unfold magnitude?
  rw [if_neg (not_or.mpr ⟨hword (by decide), hword (by decide)⟩), if_neg (hword (by decide))]
  simp [hfirst, hsecond, hne, exponent?]

end Decimal

namespace Binary64

variable {places : Nat} {x : Binary64}

/-- The magnitude of a finite number in units of some decimal place, to the nearest. -/
def units (places : Nat) (x : Binary64) : Nat :=
  roundHalfEven (x.significand * Nat.pow 2 x.exponent.toNat * Nat.pow 10 places) (Nat.pow 2 (-x.exponent).toNat)

/-- What is left of a number that is printed to some places. -/
def toPlaces (places : Nat) (x : Binary64) : Binary64 :=
  if x.isFinite then Decimal.scaled x.isNegative (x.units places) (-places)
  else if x.isNaN then nan
  else infinite x.isNegative

def fractionDigits (places : Nat) (x : Binary64) : List Char :=
  let digits := Nat.toDigits 10 (x.units places % 10 ^ places)
  List.replicate (places - digits.length) '0' ++ digits

def wholeDigits (places : Nat) (x : Binary64) : List Char :=
  Nat.toDigits 10 (x.units places / 10 ^ places)

theorem fixed_of_isFinite (h : x.isFinite = true) :
    x.fixed places = withSign x (x.wholeDigits places ++ '.' :: x.fractionDigits places) := by
  have hnot : ¬ ¬ x.isFinite = true := not_not.mpr h
  rw [fixed, if_neg hnot]
  simp only [wholeDigits, fractionDigits, units, digitsOf, Nat.pow_eq, List.append_assoc, List.cons_append]

theorem fixed_of_not_isFinite (h : x.isFinite = false) : x.fixed places = x.specialText := by
  rw [fixed, if_pos (by simp [h])]

theorem wholeDigits_ne_nil (places : Nat) (x : Binary64) : x.wholeDigits places ≠ [] :=
  Nat.toDigits_ne_nil

theorem isAsciiDigit_of_mem_wholeDigits {c : Char} (h : c ∈ x.wholeDigits places) : isAsciiDigit c = true :=
  Decimal.isAsciiDigit_of_mem_toDigits h

theorem isAsciiDigit_of_mem_fractionDigits {c : Char} (h : c ∈ x.fractionDigits places) : isAsciiDigit c = true :=
  Decimal.isAsciiDigit_of_mem_zeros_append h

theorem length_fractionDigits (hplaces : 0 < places) : (x.fractionDigits places).length = places :=
  Decimal.length_zeros_append hplaces (Nat.mod_lt _ (Nat.pow_pos (by decide)))

theorem digitsValue_fixed (hplaces : 0 < places) :
    Decimal.digitsValue (x.wholeDigits places ++ x.fractionDigits places) = x.units places := by
  rw [Decimal.digitsValue_append, length_fractionDigits hplaces, wholeDigits, Decimal.digitsValue_toDigits,
    fractionDigits, Decimal.digitsValue_zeros_append, Decimal.digitsValue_toDigits]
  exact Nat.div_add_mod' _ _

theorem binary64?_withSign {text : List Char} (read : Bool → Binary64)
    (htext : ∀ c ∈ text.head?, c ≠ '-' ∧ c ≠ '+')
    (hread : ∀ negative, Decimal.magnitude? negative text = some (read negative)) :
    Decimal.binary64? (withSign x text).toList = some (read x.isNegative) := by
  unfold withSign
  rw [String.toList_ofList]
  cases hnegative : x.isNegative with
  | true => exact hread true
  | false =>
    have hplain : Decimal.binary64? text = Decimal.magnitude? false text := by
      unfold Decimal.binary64?
      split
      · exact absurd rfl (htext '-' rfl).1
      · exact absurd rfl (htext '+' rfl).2
      · rfl
    simpa [hplain] using hread false

theorem head_wholeDigits_append (rest : List Char) :
    ∀ c ∈ (x.wholeDigits places ++ rest).head?, c ≠ '-' ∧ c ≠ '+' := by
  obtain ⟨d, digits, hdigits⟩ := List.exists_cons_of_ne_nil (wholeDigits_ne_nil places x)
  have hd : isAsciiDigit d = true := isAsciiDigit_of_mem_wholeDigits (hdigits ▸ List.mem_cons_self)
  rw [hdigits]
  rintro c ⟨⟩
  constructor <;> rintro rfl <;> exact absurd hd (by decide)

/-- A printed number is read back, as far as it was printed. -/
theorem binary64?_fixed (hplaces : 0 < places) (x : Binary64) :
    Decimal.binary64? (x.fixed places).toList = some (x.toPlaces places) := by
  unfold toPlaces
  by_cases hfinite : x.isFinite = true
  · rw [fixed_of_isFinite hfinite, if_pos hfinite]
    refine binary64?_withSign (fun negative => Decimal.scaled negative (x.units places) (-places))
      (head_wholeDigits_append _) fun negative => ?_
    rw [Decimal.magnitude?_point (wholeDigits_ne_nil places x) (fun _ => isAsciiDigit_of_mem_wholeDigits)
      (fun _ => isAsciiDigit_of_mem_fractionDigits), digitsValue_fixed hplaces, length_fractionDigits hplaces]
  · rw [fixed_of_not_isFinite (Bool.eq_false_iff.mpr hfinite), if_neg hfinite, specialText]
    cases hnan : x.isNaN with
    | true =>
      rw [if_pos rfl, if_pos rfl]
      decide +kernel
    | false =>
      rw [if_neg Bool.false_ne_true, if_neg Bool.false_ne_true]
      refine binary64?_withSign infinite ?_ fun negative => ?_
      · rintro c ⟨⟩
        decide
      · cases negative <;> decide +kernel

def isPrinted (c : Char) : Bool :=
  isAsciiDigit c || "-.infNa".toList.contains c

theorem isPrinted_of_mem_withSign {text : List Char} (htext : ∀ c ∈ text, isPrinted c = true) {c : Char}
    (h : c ∈ (withSign x text).toList) : isPrinted c = true := by
  unfold withSign at h
  rw [String.toList_ofList] at h
  split at h
  · rcases List.mem_cons.mp h with rfl | h
    · decide
    · exact htext c h
  · exact htext c h

theorem isPrinted_of_mem_fixed {c : Char} (h : c ∈ (x.fixed places).toList) : isPrinted c = true := by
  by_cases hfinite : x.isFinite = true
  · rw [fixed_of_isFinite hfinite] at h
    refine isPrinted_of_mem_withSign (fun d hd => ?_) h
    simp only [List.mem_append, List.mem_cons] at hd
    rcases hd with hwhole | rfl | hfraction
    · simp [isPrinted, isAsciiDigit_of_mem_wholeDigits hwhole]
    · decide
    · simp [isPrinted, isAsciiDigit_of_mem_fractionDigits hfraction]
  · rw [fixed_of_not_isFinite (Bool.eq_false_iff.mpr hfinite), specialText] at h
    split at h
    · exact List.all_eq_true.mp (by decide : "NaN".toList.all isPrinted = true) c h
    · exact isPrinted_of_mem_withSign (List.all_eq_true.mp (by decide)) h

end Binary64

end PageLoads
