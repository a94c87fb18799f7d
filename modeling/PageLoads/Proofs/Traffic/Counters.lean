import PageLoads.Traffic.Counters

namespace PageLoads.Counters

/-- No counter of `a` is above the same counter of `b`. -/
structure AtMost (a b : Counters) : Prop where
  receivedBytes : a.receivedBytes ≤ b.receivedBytes
  receivedUsefulBytes : a.receivedUsefulBytes ≤ b.receivedUsefulBytes
  receivedDummyCells : a.receivedDummyCells ≤ b.receivedDummyCells
  sentBytes : a.sentBytes ≤ b.sentBytes
  sentUsefulBytes : a.sentUsefulBytes ≤ b.sentUsefulBytes
  sentDummyCells : a.sentDummyCells ≤ b.sentDummyCells
  avoidedDummyCells : a.avoidedDummyCells ≤ b.avoidedDummyCells

variable {a b c : Counters}

theorem AtMost.trans (hab : a.AtMost b) (hbc : b.AtMost c) : a.AtMost c where
  receivedBytes := UInt64.le_trans hab.receivedBytes hbc.receivedBytes
  receivedUsefulBytes := UInt64.le_trans hab.receivedUsefulBytes hbc.receivedUsefulBytes
  receivedDummyCells := UInt64.le_trans hab.receivedDummyCells hbc.receivedDummyCells
  sentBytes := UInt64.le_trans hab.sentBytes hbc.sentBytes
  sentUsefulBytes := UInt64.le_trans hab.sentUsefulBytes hbc.sentUsefulBytes
  sentDummyCells := UInt64.le_trans hab.sentDummyCells hbc.sentDummyCells
  avoidedDummyCells := UInt64.le_trans hab.avoidedDummyCells hbc.avoidedDummyCells

theorem dominates_iff_atMost : b.dominates a = true ↔ a.AtMost b := by
  simp only [dominates, toList, List.zip_cons_cons, List.zip_nil_right, List.all_cons, List.all_nil,
    Bool.and_true, Bool.and_eq_true, decide_eq_true_eq]
  constructor
  · rintro ⟨h₁, h₂, h₃, h₄, h₅, h₆, h₇⟩
    exact ⟨h₁, h₂, h₃, h₄, h₅, h₆, h₇⟩
  · rintro ⟨h₁, h₂, h₃, h₄, h₅, h₆, h₇⟩
    exact ⟨h₁, h₂, h₃, h₄, h₅, h₆, h₇⟩

theorem combine?_eq_some_iff {op : UInt64 → UInt64 → Option UInt64} :
    combine? op a b = some c ↔
      op a.receivedBytes b.receivedBytes = some c.receivedBytes ∧
      op a.receivedUsefulBytes b.receivedUsefulBytes = some c.receivedUsefulBytes ∧
      op a.receivedDummyCells b.receivedDummyCells = some c.receivedDummyCells ∧
      op a.sentBytes b.sentBytes = some c.sentBytes ∧
      op a.sentUsefulBytes b.sentUsefulBytes = some c.sentUsefulBytes ∧
      op a.sentDummyCells b.sentDummyCells = some c.sentDummyCells ∧
      op a.avoidedDummyCells b.avoidedDummyCells = some c.avoidedDummyCells := by
  simp only [combine?, Option.bind_eq_bind, Option.bind_eq_some_iff, Option.pure_def, Option.some.injEq]
  constructor
  · rintro ⟨_, h₁, _, h₂, _, h₃, _, h₄, _, h₅, _, h₆, _, h₇, rfl⟩
    exact ⟨h₁, h₂, h₃, h₄, h₅, h₆, h₇⟩
  · rintro ⟨h₁, h₂, h₃, h₄, h₅, h₆, h₇⟩
    exact ⟨_, h₁, _, h₂, _, h₃, _, h₄, _, h₅, _, h₆, _, h₇, rfl⟩

/-- Counters can be subtracted from those, and only from those, that they are at most. So a subtraction
has a result exactly where the comparison holds. -/
theorem exists_sub?_eq_some_iff : (∃ growth, b.sub? a = some growth) ↔ a.AtMost b := by
  have hword {x y : UInt64} (hle : x ≤ y) : wordSub? y x = some (y - x) := if_pos hle
  have hle {x y growth : UInt64} (hsub : wordSub? y x = some growth) : x ≤ y := by
    have := wordSub?_eq_some_iff.mp hsub
    exact UInt64.le_iff_toNat_le.mpr (by omega)
  constructor
  · rintro ⟨growth, hgrowth⟩
    obtain ⟨h₁, h₂, h₃, h₄, h₅, h₆, h₇⟩ := combine?_eq_some_iff.mp hgrowth
    exact ⟨hle h₁, hle h₂, hle h₃, hle h₄, hle h₅, hle h₆, hle h₇⟩
  · intro h
    exact ⟨⟨_, _, _, _, _, _, _⟩, combine?_eq_some_iff.mpr
      ⟨hword h.receivedBytes, hword h.receivedUsefulBytes, hword h.receivedDummyCells, hword h.sentBytes,
        hword h.sentUsefulBytes, hword h.sentDummyCells, hword h.avoidedDummyCells⟩⟩

end PageLoads.Counters
