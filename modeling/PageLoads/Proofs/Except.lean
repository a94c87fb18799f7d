
namespace Except

variable {ε ε' α β : Type}

theorem bind_eq_ok_iff {x : Except ε α} {f : α → Except ε β} {b : β} :
    x >>= f = .ok b ↔ ∃ a, x = .ok a ∧ f a = .ok b := by
  cases x <;> simp [bind, Except.bind]

theorem bind_eq_error_iff {x : Except ε α} {f : α → Except ε β} {e : ε} :
    x >>= f = .error e ↔ x = .error e ∨ ∃ a, x = .ok a ∧ f a = .error e := by
  cases x <;> simp [bind, Except.bind]

theorem map_eq_ok_iff {x : Except ε α} {f : α → β} {b : β} : x.map f = .ok b ↔ ∃ a, x = .ok a ∧ f a = b := by
  cases x <;> simp [Except.map]

theorem map_eq_error_iff {x : Except ε α} {f : α → β} {e : ε} : x.map f = .error e ↔ x = .error e := by
  cases x <;> simp [Except.map]

theorem exists_of_foldlM_eq_error {f : β → α → Except ε β} {start : β} {items : List α} {e : ε}
    (h : items.foldlM f start = .error e) : ∃ item ∈ items, ∃ before, f before item = .error e := by
  induction items generalizing start with
  | nil => cases h
  | cons first rest ih =>
    rw [List.foldlM_cons] at h
    rcases bind_eq_error_iff.mp h with hfirst | ⟨middle, _, hrest⟩
    · exact ⟨first, List.mem_cons_self, start, hfirst⟩
    · obtain ⟨item, hitem, before, hstep⟩ := ih hrest
      exact ⟨item, List.mem_cons_of_mem _ hitem, before, hstep⟩

theorem map_bind {γ : Type} (x : Except ε α) (g : α → β) (f : β → Except ε γ) :
    x.map g >>= f = x >>= fun a => f (g a) := by
  cases x <;> rfl

theorem mapError_ok (f : ε → ε') (a : α) : (ok a).mapError f = .ok a := rfl

theorem mapError_error (f : ε → ε') (e : ε) : (error e : Except ε α).mapError f = .error (f e) := rfl

theorem mapError_eq_ok_iff {x : Except ε α} {f : ε → ε'} {a : α} : x.mapError f = .ok a ↔ x = .ok a := by
  cases x <;> simp [mapError_ok, mapError_error]

theorem mapError_eq_error_iff {x : Except ε α} {f : ε → ε'} {e : ε'} :
    x.mapError f = .error e ↔ ∃ cause, x = .error cause ∧ f cause = e := by
  cases x <;> simp [mapError_ok, mapError_error]

end Except
