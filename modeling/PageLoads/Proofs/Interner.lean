import PageLoads.Interner

namespace PageLoads.Interner

/-- The text of the instance with a handle; a handle that was never given stands for the empty text. -/
def text (table : Interner) (handle : Nat) : String :=
  table.texts[handle]?.getD ""

theorem mem_texts_insert_iff {table : Interner} {text other : String} :
    other ∈ (table.insert text).texts ↔ other ∈ table.texts ∨ other = text := by
  unfold insert
  split
  · rename_i hmem
    refine ⟨Or.inl, ?_⟩
    rintro (hother | rfl)
    · exact hother
    · exact hmem
  · simp

theorem mem_texts_insert (table : Interner) (text : String) : text ∈ (table.insert text).texts :=
  mem_texts_insert_iff.mpr (Or.inr rfl)

theorem text_intern (table : Interner) (text : String) :
    (table.intern text).1.text (table.intern text).2 = text := by
  have hlt : (table.insert text).texts.idxOf text < (table.insert text).texts.length :=
    List.idxOf_lt_length_of_mem (mem_texts_insert table text)
  simp [intern, handle, Interner.text, List.getElem?_eq_getElem hlt]

end PageLoads.Interner
