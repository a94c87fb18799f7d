import PageLoads.Text.Blank
import PageLoads.Text.DecimalDigit

namespace PageLoads.Text

variable {c d : Char}

theorem isAsciiDigit_iff : isAsciiDigit c = true ↔ 48 ≤ c.toNat ∧ c.toNat ≤ 57 := by
  rw [isAsciiDigit, Bool.and_eq_true, decide_eq_true_eq, decide_eq_true_eq]
  exact Iff.rfl

theorem isAsciiDigit_of_isDigit (h : c.isDigit = true) : isAsciiDigit c = true := by
  simpa [isAsciiDigit, Char.isDigit, Char.le_def] using h

theorem digitValue_eq (c : Char) : digitValue c = c.toNat - 48 := rfl

theorem digitValue_lt (h : isAsciiDigit c = true) : digitValue c < 10 := by
  have hc := isAsciiDigit_iff.mp h
  rw [digitValue_eq]
  omega

theorem digitValue_injOn (hc : isAsciiDigit c = true) (hd : isAsciiDigit d = true)
    (h : digitValue c = digitValue d) : c = d := by
  have hc := isAsciiDigit_iff.mp hc
  have hd := isAsciiDigit_iff.mp hd
  rw [digitValue_eq, digitValue_eq] at h
  exact Char.toNat_inj.mp (by omega)

theorem isBlank_of_isAsciiDigit (h : isAsciiDigit c = true) : isBlank c = false := by
  have hc := isAsciiDigit_iff.mp h
  simp only [isBlank, blankRanges, List.any_cons, List.any_nil, Bool.or_false, Bool.or_eq_false_iff,
    Bool.and_eq_false_iff, decide_eq_false_iff_not]
  omega

end PageLoads.Text
