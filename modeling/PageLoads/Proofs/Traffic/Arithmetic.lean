import Mathlib
import PageLoads.Proofs.Traffic.Sums

namespace PageLoads.Counters

variable {a b growth : Counters}

theorem atMost_iff_forall_value : a.AtMost b ↔ ∀ counter, (a.value counter).toNat ≤ (b.value counter).toNat := by
  simp only [← UInt64.le_iff_toNat_le, Counter.forall_iff]
  constructor
  · rintro ⟨h₁, h₂, h₃, h₄, h₅, h₆, h₇⟩
    exact ⟨h₁, h₂, h₃, h₄, h₅, h₆, h₇⟩
  · rintro ⟨h₁, h₂, h₃, h₄, h₅, h₆, h₇⟩
    exact ⟨h₁, h₂, h₃, h₄, h₅, h₆, h₇⟩

theorem dominates_iff_forall_value :
    b.dominates a = true ↔ ∀ counter, (a.value counter).toNat ≤ (b.value counter).toNat :=
  dominates_iff_atMost.trans atMost_iff_forall_value

theorem sub?_eq_some_iff :
    b.sub? a = some growth ↔
      ∀ counter, (a.value counter).toNat + (growth.value counter).toNat = (b.value counter).toNat := by
  simp only [sub?, combine?_eq_some_iff_forall, wordSub?_eq_some_iff]

/-- A sum has no result only where a counter passes the range of a word. -/
theorem add?_eq_none_iff :
    a.add? b = none ↔ ∃ counter, 2 ^ 64 ≤ (a.value counter).toNat + (b.value counter).toNat := by
  constructor
  · intro hnone
    by_contra hfits
    simp only [not_exists, Nat.not_le] at hfits
    obtain ⟨sum, hsum⟩ := exists_of_lt hfits
    rw [add?_eq_some_iff.mpr hsum] at hnone
    cases hnone
  · rintro ⟨counter, hlarge⟩
    cases hadd : a.add? b with
    | none => rfl
    | some sum =>
      have hsum := add?_eq_some_iff.mp hadd counter
      have hlt := (sum.value counter).toNat_lt
      omega

theorem sub?_eq_some_iff_add?_eq_some : b.sub? a = some growth ↔ a.add? growth = some b :=
  sub?_eq_some_iff.trans add?_eq_some_iff.symm

theorem isPartialOrder_dominates : IsPartialOrder Counters fun a b => a.dominates b = true where
  refl _ := dominates_iff_forall_value.mpr fun _ => Nat.le_refl _
  trans _ _ _ hab hbc := dominates_iff_atMost.mpr ((dominates_iff_atMost.mp hbc).trans (dominates_iff_atMost.mp hab))
  antisymm _ _ hab hba := eq_iff_forall_value.mpr fun counter =>
    Nat.le_antisymm (dominates_iff_forall_value.mp hba counter) (dominates_iff_forall_value.mp hab counter)

/-- Dominating is a partial order on counters, each of the seven compared as a whole number. Counters can be
subtracted from those that dominate them and from no others, and adding the difference gives these back. A sum is
exact or has no result, because some counter passes the range of a word; it dominates what was added, and the one
subtracted from it leaves the other. -/
theorem dominates_isPartialOrder_and_sub?_add?_inverse :
    IsPartialOrder Counters (fun a b => a.dominates b = true) ∧
    (∀ a b : Counters, a.dominates b = true ↔ ∀ counter, (b.value counter).toNat ≤ (a.value counter).toNat) ∧
    (∀ a b : Counters, (∃ growth, a.sub? b = some growth) ↔ a.dominates b = true) ∧
    (∀ a b growth : Counters, a.sub? b = some growth → b.add? growth = some a) ∧
    (∀ a growth sum : Counters, a.add? growth = some sum →
      sum.dominates a = true ∧ sum.dominates growth = true ∧ sum.sub? a = some growth) ∧
    (∀ a growth sum : Counters, a.add? growth = some sum ↔
      ∀ counter, (a.value counter).toNat + (growth.value counter).toNat = (sum.value counter).toNat) ∧
    ∀ a growth : Counters, a.add? growth = none ↔
      ∃ counter, 2 ^ 64 ≤ (a.value counter).toNat + (growth.value counter).toNat := by
  refine ⟨isPartialOrder_dominates, fun a b => dominates_iff_forall_value, ?_, ?_, ?_,
    fun a growth sum => add?_eq_some_iff, fun a growth => add?_eq_none_iff⟩
  · exact fun a b => exists_sub?_eq_some_iff.trans dominates_iff_atMost.symm
  · exact fun a b growth hsub => sub?_eq_some_iff_add?_eq_some.mp hsub
  · intro a growth sum hadd
    have hsum := add?_eq_some_iff.mp hadd
    refine ⟨dominates_iff_forall_value.mpr fun counter => ?_, dominates_iff_forall_value.mpr fun counter => ?_,
      sub?_eq_some_iff_add?_eq_some.mpr hadd⟩
    · exact hsum counter ▸ Nat.le_add_right _ _
    · exact hsum counter ▸ Nat.le_add_left _ _

/-- One counter grows to the greatest word, so that no more can be added to it. -/
theorem dominates_isPartialOrder_and_sub?_add?_inverse_ofGreatestWord :
    let before : Counters := ⟨5, 1, 0, 3, 0, 5, 6⟩
    let growth : Counters := ⟨0xFFFFFFFFFFFFFFFA, 0, 2, 0, 4, 0, 0⟩
    let after : Counters := ⟨0xFFFFFFFFFFFFFFFF, 1, 2, 3, 4, 5, 6⟩
    after.sub? before = some growth ∧ before.add? growth = some after ∧ after.dominates before = true ∧
      after.dominates growth = true ∧ after.add? before = none := by
  intro before growth after
  obtain ⟨_, _, _, hinverse, hsum, _, hnone⟩ := dominates_isPartialOrder_and_sub?_add?_inverse
  have hsub : after.sub? before = some growth := by decide
  have hadd : before.add? growth = some after := hinverse after before growth hsub
  obtain ⟨hbefore, hgrowth, _⟩ := hsum before growth after hadd
  exact ⟨hsub, hadd, hbefore, hgrowth, (hnone after before).mpr ⟨.receivedBytes, by decide⟩⟩

end PageLoads.Counters
