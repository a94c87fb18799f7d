import PageLoads.Number.Binary64

namespace PageLoads.Binary64

variable {x y z : Binary64}

theorem le_eq_true_iff : x.le y = true ↔ x.isNaN = false ∧ y.isNaN = false ∧ x.key ≤ y.key := by
  simp [le, and_assoc]

theorem lt_eq_false_iff (hx : x.isNaN = false) (hy : y.isNaN = false) : x.lt y = false ↔ y.key ≤ x.key := by
  simp [lt, hx, hy]

theorem le_trans (hxy : x.le y = true) (hyz : y.le z = true) : x.le z = true := by
  obtain ⟨hx, _, hxy⟩ := le_eq_true_iff.mp hxy
  obtain ⟨_, hz, hyz⟩ := le_eq_true_iff.mp hyz
  exact le_eq_true_iff.mpr ⟨hx, hz, Int.le_trans hxy hyz⟩

theorem le_of_lt_eq_false (hx : x.isNaN = false) (hy : y.isNaN = false) (h : x.lt y = false) : y.le x = true :=
  le_eq_true_iff.mpr ⟨hy, hx, (lt_eq_false_iff hx hy).mp h⟩

end PageLoads.Binary64
