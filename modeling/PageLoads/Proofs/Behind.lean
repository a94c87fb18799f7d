
namespace PageLoads

variable {α : Type}

theorem concat_eq_append_cons {items before after : List α} {last item : α}
    (h : items ++ [last] = before ++ item :: after) :
    (items = before ∧ last = item ∧ after = []) ∨
      ∃ rest, after = rest ++ [last] ∧ items = before ++ item :: rest := by
  rcases List.eq_nil_or_concat after with rfl | ⟨rest, final, rfl⟩
  · obtain ⟨hbefore, hitem⟩ := List.append_inj' h rfl
    exact Or.inl ⟨hbefore, List.singleton_inj.mp hitem, rfl⟩
  · rw [List.concat_eq_append, ← List.cons_append, ← List.append_assoc] at h
    obtain ⟨hbefore, hfinal⟩ := List.append_inj' h rfl
    exact Or.inr ⟨rest, by simp [List.singleton_inj.mp hfinal], hbefore⟩

theorem forall_behind_concat_iff {P : List α → α → Prop} {items : List α} {last : α} :
    (∀ before item after, items ++ [last] = before ++ item :: after → P before item) ↔
      (∀ before item after, items = before ++ item :: after → P before item) ∧ P items last := by
  constructor
  · intro h
    refine ⟨fun before item after hsplit => h before item (after ++ [last]) ?_, h items last [] rfl⟩
    simp [hsplit]
  · rintro ⟨hitems, hlast⟩ before item after hsplit
    rcases concat_eq_append_cons hsplit with ⟨rfl, rfl, _⟩ | ⟨rest, _, hrest⟩
    · exact hlast
    · exact hitems before item rest hrest

end PageLoads
