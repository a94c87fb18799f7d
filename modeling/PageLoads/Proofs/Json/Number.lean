import Mathlib.Tactic.SplitIfs
import PageLoads.Json.Printer
import PageLoads.Json.Reader
import PageLoads.Proofs.Number.Decimal
import PageLoads.Proofs.Text.Run

namespace PageLoads

theorem toList_toString_ofNat (n : Nat) : (toString (n : Int)).toList = Nat.toDigits 10 n := by
  rw [Int.toString_eq_repr]
  change n.repr.toList = _
  rw [Nat.repr_eq_ofList_toDigits, String.toList_ofList]

theorem toList_toString_neg {n : Nat} (h : 0 < n) :
    (toString (-(n : Int))).toList = '-' :: Nat.toDigits 10 n := by
  obtain ⟨m, rfl⟩ := Nat.exists_eq_succ_of_ne_zero (Nat.pos_iff_ne_zero.mp h)
  rw [Int.toString_eq_repr]
  change ("-" ++ (m + 1).repr).toList = _
  rw [String.toList_append, Nat.repr_eq_ofList_toDigits, String.toList_ofList]
  simp

theorem Decimal.headD_toDigits (n : Nat) :
    (Nat.toDigits 10 n).headD '1' ≠ '0' ∨ (Nat.toDigits 10 n).length = 1 := by
  by_cases hsmall : n < 10
  · rw [Nat.toDigits_of_lt_base hsmall]
    exact Or.inr rfl
  · refine Or.inl ?_
    induction n using Nat.strongRecOn with
    | ind n ih =>
      -- The digits begin as those of a tenth, which is not zero.
      rw [Nat.toDigits_of_base_le (by decide) (by omega)]
      by_cases htenth : n / 10 < 10
      · rw [Nat.toDigits_of_lt_base htenth]
        have hpos : n / 10 ≠ 0 := by omega
        simpa using hpos
      · have hhead := ih (n / 10) (by omega) htenth
        cases hdigits : Nat.toDigits 10 (n / 10) with
        | nil => exact absurd hdigits Nat.toDigits_ne_nil
        | cons c cs => simpa [hdigits] using hhead

namespace Json

open PageLoads.Text

private theorem le_foldl_digits (digits : List Char) (value : Nat) :
    value ≤ digits.foldl (fun value c => 10 * value + digitValue c) value := by
  induction digits generalizing value with
  | nil => exact Nat.le_refl _
  | cons c digits ih => exact Nat.le_trans (by omega) (ih (10 * value + digitValue c))

/-- Digits of a number that fits a word are all taken. -/
theorem gather_digits {digits : List Char} (hdigits : ∀ c ∈ digits, isAsciiDigit c) {value : Nat} (count : Nat)
    (hfits : digits.foldl (fun value c => 10 * value + digitValue c) value < UInt64.size) :
    gather value count digits =
      (digits.foldl (fun value c => 10 * value + digitValue c) value, count + digits.length, []) := by
  induction digits generalizing value count with
  | nil => rfl
  | cons c digits ih =>
    have hc : isAsciiDigit c = true := hdigits c List.mem_cons_self
    have hvalue : 10 * value + digitValue c < UInt64.size := Nat.lt_of_le_of_lt (le_foldl_digits digits _) hfits
    rw [gather, if_pos (by simp [hc, hvalue]),
      ih (fun c' hc' => hdigits c' (List.mem_cons_of_mem _ hc')) (count + 1) hfits]
    simp only [List.foldl_cons, List.length_cons, Nat.add_assoc, Nat.add_comm 1]

theorem gather_lt {value : Nat} (h : value < UInt64.size) (count : Nat) (cs : List Char) :
    (gather value count cs).1 < UInt64.size := by
  induction cs generalizing value count with
  | nil => exact h
  | cons c cs ih =>
    unfold gather
    split
    case isTrue hfits =>
      rw [Bool.and_eq_true, decide_eq_true_eq] at hfits
      exact ih hfits.2 _
    case isFalse => exact h

/-- A text that does not go on as a number might, so that a number can end before it. -/
def EndsNumber (rest : List Char) : Prop :=
  ∀ c ∈ rest.head?, isAsciiDigit c = false ∧ c ≠ '.' ∧ c ≠ 'e' ∧ c ≠ 'E'

theorem endsNumber_cons {c : Char} (h : isAsciiDigit c = false ∧ c ≠ '.' ∧ c ≠ 'e' ∧ c ≠ 'E')
    (rest : List Char) : EndsNumber (c :: rest) := by
  intro c' hc
  cases hc
  exact h

theorem unsigned?_toDigits {n : Nat} (hn : n < UInt64.size) {rest : List Char} (hrest : EndsNumber rest) :
    unsigned? (Nat.toDigits 10 n ++ rest) = some (.inl n, rest) := by
  have hdigits : ∀ c ∈ Nat.toDigits 10 n, isAsciiDigit c := fun c => Decimal.isAsciiDigit_of_mem_toDigits
  have hspan : Decimal.spanDigits (Nat.toDigits 10 n ++ rest) = (Nat.toDigits 10 n, rest) :=
    span_append hdigits fun c hc => (hrest c hc).1
  have hvalue : (Nat.toDigits 10 n).foldl (fun value c => 10 * value + digitValue c) 0 = n :=
    Nat.ofDigitChars_toDigits (b := 10) (by decide) (by decide)
  have hgather := gather_digits hdigits 0 (by rwa [hvalue])
  rw [hvalue] at hgather
  have hwhole := And.intro (Nat.toDigits_ne_nil (n := n) (b := 10)) (Decimal.headD_toDigits n)
  unfold unsigned?
  rw [hspan]
  refine Option.bind_eq_some_iff.mpr ⟨(), if_pos hwhole, ?_⟩
  dsimp only
  rw [hgather]
  cases rest with
  | nil => simp
  | cons c rest =>
    obtain ⟨_, hpoint, he, hE⟩ := hrest c rfl
    split
    case h_1 heq =>
      cases heq
      exact absurd rfl hpoint
    case h_2 heq =>
      cases heq
      simp [he, hE]
    case h_3 heq => cases heq

theorem number?_eq_unsigned? {cs : List Char} (h : '-' ∉ cs.head?) :
    number? cs = (unsigned? cs).map fun
      | (.inl n, rest) => (.integer n, rest)
      | (.inr x, rest) => (.double x, rest) := by
  unfold number?
  split
  case h_1 => exact absurd rfl h
  case h_2 => rfl

theorem number?_integer {n : Int} (hleast : -(UInt64.size / 2 : Nat) ≤ n) (hgreatest : n < UInt64.size)
    {rest : List Char} (hrest : EndsNumber rest) :
    number? ((toString n).toList ++ rest) = some (.integer n, rest) := by
  by_cases hneg : n < 0
  · obtain ⟨m, rfl⟩ : ∃ m : Nat, n = -(m : Int) := ⟨n.natAbs, by omega⟩
    have hm : 0 < m ∧ m ≤ UInt64.size / 2 := by omega
    rw [toList_toString_neg hm.1, List.cons_append, number?, unsigned?_toDigits (by omega) hrest]
    simp [hm]
  · obtain ⟨m, rfl⟩ : ∃ m : Nat, n = (m : Int) := ⟨n.natAbs, by omega⟩
    have hminus : '-' ∉ (Nat.toDigits 10 m ++ rest).head? := by
      intro hhead
      have hmem : '-' ∈ (Nat.toDigits 10 m).head? := by simpa using hhead
      exact absurd (Decimal.isAsciiDigit_of_mem_toDigits (List.mem_of_mem_head? hmem)) (by decide)
    rw [toList_toString_ofNat, number?_eq_unsigned? hminus, unsigned?_toDigits (by omega) hrest]
    rfl

theorem unsigned?_eq_none {cs : List Char} (h : ∀ c ∈ cs.head?, isAsciiDigit c = false) :
    unsigned? cs = none := by
  have hspan : Decimal.spanDigits ([] ++ cs) = ([], cs) := span_append (by simp) h
  rw [List.nil_append] at hspan
  unfold unsigned?
  rw [hspan]
  exact congrArg (fun whole? : Option Unit => whole?.bind _) (if_neg fun hwhole => hwhole.1 rfl)

theorem number?_eq_none {cs : List Char} (h : ∀ c ∈ cs.head?, isAsciiDigit c = false ∧ c ≠ '-') :
    number? cs = none := by
  rw [number?_eq_unsigned? fun hminus => (h _ hminus).2 rfl, unsigned?_eq_none fun c hc => (h c hc).1]
  rfl

theorem lt_of_unsigned? {n : Nat} {cs rest : List Char} (h : unsigned? cs = some (.inl n, rest)) :
    n < UInt64.size := by
  have hzero : 0 < UInt64.size := by decide
  have hgathered := gather_lt hzero 0 (Decimal.spanDigits cs).1
  -- An integer is what has been gathered; where a double is read, the last step says so.
  unfold unsigned? at h
  obtain ⟨_, _, h⟩ := Option.bind_eq_some_iff.mp h
  dsimp only at h
  split at h
  case h_1 =>
    obtain ⟨_, _, h⟩ := Option.bind_eq_some_iff.mp h
    obtain ⟨_, _, h⟩ := Option.bind_eq_some_iff.mp h
    obtain ⟨_, _, h⟩ := Option.bind_eq_some_iff.mp h
    cases h
  case h_2 =>
    split_ifs at h
    · obtain ⟨_, _, h⟩ := Option.bind_eq_some_iff.mp h
      obtain ⟨_, _, h⟩ := Option.bind_eq_some_iff.mp h
      cases h
    · cases h
      exact hgathered
    · obtain ⟨_, _, h⟩ := Option.bind_eq_some_iff.mp h
      cases h
  case h_3 =>
    split_ifs at h
    · cases h
      exact hgathered
    · obtain ⟨_, _, h⟩ := Option.bind_eq_some_iff.mp h
      cases h

/-- A number that is read is an integer of 64 bits or a double. -/
theorem number?_cases {cs rest : List Char} {value : Json} (h : number? cs = some (value, rest)) :
    (∃ n : Int, value = .integer n ∧ -(UInt64.size / 2 : Nat) ≤ n ∧ n < UInt64.size) ∨
      ∃ x, value = .double x := by
  unfold number? at h
  split at h
  case h_1 =>
    obtain ⟨⟨n | x, _⟩, _, hvalue⟩ := Option.map_eq_some_iff.mp h
    · dsimp only at hvalue
      split_ifs at hvalue with hn
      · cases hvalue
        exact Or.inl ⟨-n, rfl, by omega, by omega⟩
      · cases hvalue
        exact Or.inr ⟨_, rfl⟩
    · cases hvalue
      exact Or.inr ⟨_, rfl⟩
  case h_2 =>
    obtain ⟨⟨n | x, _⟩, hread, hvalue⟩ := Option.map_eq_some_iff.mp h
    · cases hvalue
      have hn := lt_of_unsigned? hread
      exact Or.inl ⟨n, rfl, by omega, by omega⟩
    · cases hvalue
      exact Or.inr ⟨x, rfl⟩

end Json

end PageLoads
