import Mathlib.Algebra.Group.Nat.Defs
import PageLoads.Number.Decimal
import PageLoads.Proofs.Text.Digit

namespace PageLoads.Decimal

open PageLoads.Text

variable {digits others : List Char}

theorem isAsciiDigit_of_mem_toDigits {n : Nat} {c : Char} (h : c ∈ Nat.toDigits 10 n) : isAsciiDigit c = true :=
  isAsciiDigit_of_isDigit (Nat.isDigit_of_mem_toDigits (by decide) (by decide) h)

theorem isAsciiDigit_of_mem_zeros_append {count n : Nat} {c : Char}
    (h : c ∈ List.replicate count '0' ++ Nat.toDigits 10 n) : isAsciiDigit c = true := by
  rcases List.mem_append.mp h with hzero | hdigit
  · rw [List.eq_of_mem_replicate hzero]
    decide
  · exact isAsciiDigit_of_mem_toDigits hdigit

theorem lineFeed_not_mem_toDigits (n : Nat) : '\n' ∉ Nat.toDigits 10 n :=
  fun hmem => absurd (isAsciiDigit_of_mem_toDigits hmem) (by decide)

theorem length_zeros_append {width n : Nat} (hwidth : 0 < width) (h : n < 10 ^ width) :
    (List.replicate (width - (Nat.toDigits 10 n).length) '0' ++ Nat.toDigits 10 n).length = width := by
  have hlength := (Nat.length_toDigits_le_iff (by decide) hwidth).mpr h
  rw [List.length_append, List.length_replicate]
  omega

theorem digitsValue_toDigits (n : Nat) : digitsValue (Nat.toDigits 10 n) = n :=
  Nat.ofDigitChars_toDigits (by decide) (by decide)

theorem unsigned?_toDigits {greatest n : Nat} (h : n ≤ greatest) :
    unsigned? greatest (Nat.toDigits 10 n) = some n := by
  have hdigits : digits? (Nat.toDigits 10 n) = some n := by
    rw [digits?, if_pos ⟨Nat.toDigits_ne_nil, List.all_eq_true.mpr fun c hc => isAsciiDigit_of_mem_toDigits hc⟩,
      digitsValue_toDigits]
  unfold unsigned?
  split
  · rename_i rest hsign
    have hplus : isAsciiDigit '+' = true := isAsciiDigit_of_mem_toDigits (n := n) (by simp [hsign])
    exact absurd hplus (by decide)
  · simp [hdigits, h]

theorem digitsValue_append (front back : List Char) :
    digitsValue (front ++ back) = digitsValue front * 10 ^ back.length + digitsValue back := by
  have happend : digitsValue (front ++ back) = Nat.ofDigitChars 10 back (digitsValue front) :=
    Nat.ofDigitChars_append 0
  rw [happend, Nat.ofDigitChars_eq_ofDigitChars_zero, Nat.mul_comm]
  rfl

theorem digitsValue_cons (c : Char) (digits : List Char) :
    digitsValue (c :: digits) = digitValue c * 10 ^ digits.length + digitsValue digits := by
  have hone : digitsValue [c] = digitValue c := by simp [digitsValue]
  rw [← hone, ← digitsValue_append, List.singleton_append]

theorem digitsValue_zeros_append (count : Nat) (digits : List Char) :
    digitsValue (List.replicate count '0' ++ digits) = digitsValue digits := by
  induction count with
  | zero => rfl
  | succ count ih => exact ih

theorem digitsValue_lt (h : ∀ c ∈ digits, isAsciiDigit c = true) : digitsValue digits < 10 ^ digits.length := by
  induction digits with
  | nil => decide
  | cons c rest ih =>
    have hrest := ih fun d hd => h d (List.mem_cons_of_mem _ hd)
    have hc := digitValue_lt (h c List.mem_cons_self)
    calc digitsValue (c :: rest)
        = digitValue c * 10 ^ rest.length + digitsValue rest := digitsValue_cons c rest
      _ < digitValue c * 10 ^ rest.length + 10 ^ rest.length := Nat.add_lt_add_left hrest _
      _ = (digitValue c + 1) * 10 ^ rest.length := (Nat.succ_mul ..).symm
      _ ≤ 10 * 10 ^ rest.length := Nat.mul_le_mul_right _ hc
      _ = 10 ^ (c :: rest).length := by rw [List.length_cons, Nat.pow_succ, Nat.mul_comm]

theorem le_digitsValue_cons {c : Char} (hc : isAsciiDigit c = true) (hne : c ≠ '0') (digits : List Char) :
    10 ^ digits.length ≤ digitsValue (c :: digits) := by
  have hpos : 0 < digitValue c := by
    refine Nat.pos_of_ne_zero fun hzero => hne ?_
    exact digitValue_injOn hc (by decide) hzero
  rw [digitsValue_cons]
  exact Nat.le_add_right_of_le (Nat.le_mul_of_pos_left _ hpos)

theorem eq_of_digitsValue_eq (hdigits : ∀ c ∈ digits, isAsciiDigit c = true)
    (hothers : ∀ c ∈ others, isAsciiDigit c = true) (hlength : digits.length = others.length)
    (hvalue : digitsValue digits = digitsValue others) : digits = others := by
  induction digits generalizing others with
  | nil => exact (List.length_eq_zero_iff.mp hlength.symm).symm
  | cons c rest ih =>
    cases others with
    | nil => cases hlength
    | cons d others =>
      obtain ⟨hc, hrest⟩ := List.forall_mem_cons.mp hdigits
      obtain ⟨hd, hothers⟩ := List.forall_mem_cons.mp hothers
      have hlength : rest.length = others.length := Nat.succ.inj hlength
      have hlt := digitsValue_lt hrest
      have hlt' := digitsValue_lt hothers
      rw [digitsValue_cons, digitsValue_cons, ← hlength] at hvalue
      rw [← hlength] at hlt'
      -- The first digit is the quotient by the weight of its place, and the others are the remainder.
      have hquotient (first : Nat) {rest weight : Nat} (h : rest < weight) :
          (first * weight + rest) / weight = first := by
        rw [Nat.add_comm, Nat.add_mul_div_right _ _ (Nat.zero_lt_of_lt h), Nat.div_eq_of_lt h, Nat.zero_add]
      have hfirst : digitValue c = digitValue d := by
        rw [← hquotient (digitValue c) hlt, hvalue, hquotient (digitValue d) hlt']
      rw [hfirst] at hvalue
      rw [digitValue_injOn hc hd hfirst, ih hrest hothers hlength (Nat.add_left_cancel hvalue)]

end PageLoads.Decimal
