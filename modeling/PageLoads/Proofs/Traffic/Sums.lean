import Mathlib
import PageLoads.Proofs.Except
import PageLoads.Proofs.Traffic.Counters
import PageLoads.Traffic.Totals

namespace PageLoads

inductive Counter where
  | receivedBytes
  | receivedUsefulBytes
  | receivedDummyCells
  | sentBytes
  | sentUsefulBytes
  | sentDummyCells
  | avoidedDummyCells
  deriving DecidableEq, Repr

theorem Counter.forall_iff {p : Counter → Prop} :
    (∀ counter, p counter) ↔
      p .receivedBytes ∧ p .receivedUsefulBytes ∧ p .receivedDummyCells ∧ p .sentBytes ∧ p .sentUsefulBytes ∧
        p .sentDummyCells ∧ p .avoidedDummyCells := by
  constructor
  · intro h
    exact ⟨h _, h _, h _, h _, h _, h _, h _⟩
  · rintro ⟨h₁, h₂, h₃, h₄, h₅, h₆, h₇⟩ counter
    cases counter with
    | receivedBytes => exact h₁
    | receivedUsefulBytes => exact h₂
    | receivedDummyCells => exact h₃
    | sentBytes => exact h₄
    | sentUsefulBytes => exact h₅
    | sentDummyCells => exact h₆
    | avoidedDummyCells => exact h₇

namespace Counters

def value (c : Counters) : Counter → UInt64
  | .receivedBytes => c.receivedBytes
  | .receivedUsefulBytes => c.receivedUsefulBytes
  | .receivedDummyCells => c.receivedDummyCells
  | .sentBytes => c.sentBytes
  | .sentUsefulBytes => c.sentUsefulBytes
  | .sentDummyCells => c.sentDummyCells
  | .avoidedDummyCells => c.avoidedDummyCells

def ofValues (value : Counter → UInt64) : Counters where
  receivedBytes := value .receivedBytes
  receivedUsefulBytes := value .receivedUsefulBytes
  receivedDummyCells := value .receivedDummyCells
  sentBytes := value .sentBytes
  sentUsefulBytes := value .sentUsefulBytes
  sentDummyCells := value .sentDummyCells
  avoidedDummyCells := value .avoidedDummyCells

@[simp] theorem value_ofValues (f : Counter → UInt64) (counter : Counter) :
    (ofValues f).value counter = f counter := by
  cases counter <;> rfl

@[simp] theorem value_zero (counter : Counter) : zero.value counter = 0 := by
  cases counter <;> rfl

variable {a b c : Counters}

theorem eq_iff_forall_value : a = b ↔ ∀ counter, (a.value counter).toNat = (b.value counter).toNat := by
  obtain ⟨a₁, a₂, a₃, a₄, a₅, a₆, a₇⟩ := a
  obtain ⟨b₁, b₂, b₃, b₄, b₅, b₆, b₇⟩ := b
  simp only [UInt64.toNat_inj, Counter.forall_iff, Counters.mk.injEq, value]

theorem combine?_eq_some_iff_forall {op : UInt64 → UInt64 → Option UInt64} :
    combine? op a b = some c ↔ ∀ counter, op (a.value counter) (b.value counter) = some (c.value counter) := by
  rw [combine?_eq_some_iff, Counter.forall_iff]
  exact Iff.rfl

theorem add?_eq_some_iff :
    a.add? b = some c ↔
      ∀ counter, (a.value counter).toNat + (b.value counter).toNat = (c.value counter).toNat := by
  simp only [add?, combine?_eq_some_iff_forall, wordAdd?_eq_some_iff]

def total (cs : List Counters) (counter : Counter) : Nat :=
  (cs.map fun c => (c.value counter).toNat).sum

@[simp] theorem total_nil (counter : Counter) : total [] counter = 0 := rfl

@[simp] theorem total_cons (c : Counters) (cs : List Counters) (counter : Counter) :
    total (c :: cs) counter = (c.value counter).toNat + total cs counter := by
  simp [total]

@[simp] theorem total_append (cs ds : List Counters) (counter : Counter) :
    total (cs ++ ds) counter = total cs counter + total ds counter := by
  simp [total]

theorem total_of_perm {cs ds : List Counters} (h : cs.Perm ds) (counter : Counter) :
    total cs counter = total ds counter :=
  (h.map _).sum_nat

theorem exists_of_lt {sums : Counter → Nat} (h : ∀ counter, sums counter < 2 ^ 64) :
    ∃ c : Counters, ∀ counter, sums counter = (c.value counter).toNat := by
  refine ⟨ofValues fun counter => UInt64.ofNat (sums counter), fun counter => ?_⟩
  rw [value_ofValues, UInt64.toNat_ofNat_of_lt' (h counter)]

/-- A sum may be taken in two steps: the one on the way fits if the one at the end does. -/
theorem exists_partialSum_iff {first rest : Counter → Nat} :
    (∃ middle : Counters, (∀ counter, first counter = (middle.value counter).toNat) ∧
      ∀ counter, (middle.value counter).toNat + rest counter = (c.value counter).toNat) ↔
      ∀ counter, first counter + rest counter = (c.value counter).toNat := by
  constructor
  · rintro ⟨middle, hfirst, hrest⟩ counter
    rw [hfirst counter, hrest counter]
  · intro h
    have hfits : ∀ counter, first counter < 2 ^ 64 := by
      intro counter
      have hlt := (c.value counter).toNat_lt
      have := h counter
      omega
    obtain ⟨middle, hmiddle⟩ := exists_of_lt hfits
    exact ⟨middle, hmiddle, fun counter => by rw [← hmiddle counter, h counter]⟩

end Counters

namespace Traffic

open Counters (total)

variable {a b start result : Counters}

theorem sum_eq_ok_iff :
    sum a b = .ok result ↔
      ∀ counter, (a.value counter).toNat + (b.value counter).toNat = (result.value counter).toNat := by
  rw [← Counters.add?_eq_some_iff]
  unfold sum
  cases a.add? b <;> simp

theorem eq_crash_of_sum {failure : Failure} (h : sum a b = .error failure) :
    failure = .ofCrash .sumTooLarge := by
  unfold sum at h
  split at h
  · cases h
  · cases h
    rfl

/-- Counters added up one after another come to the exact sums, if these fit. -/
theorem foldlM_sum_eq_ok_iff {cs : List Counters} :
    cs.foldlM sum start = .ok result ↔
      ∀ counter, (start.value counter).toNat + total cs counter = (result.value counter).toNat := by
  induction cs generalizing start with
  | nil =>
    simp only [List.foldlM_nil, pure, Except.pure, Except.ok.injEq, Counters.total_nil, Nat.add_zero]
    exact Counters.eq_iff_forall_value
  | cons c rest ih =>
    simp only [List.foldlM_cons, Except.bind_eq_ok_iff, sum_eq_ok_iff, ih, Counters.total_cons, ← Nat.add_assoc]
    exact Counters.exists_partialSum_iff

theorem eq_crash_of_foldlM_sum {cs : List Counters} {failure : Failure}
    (h : cs.foldlM sum start = .error failure) : failure = .ofCrash .sumTooLarge := by
  obtain ⟨_, _, _, hstep⟩ := Except.exists_of_foldlM_eq_error h
  exact eq_crash_of_sum hstep

end Traffic

end PageLoads
