/-!
# Interning

A table of distinct texts. Asking for a text gives the handle of the one instance the table keeps of
it, adding the text if it is new; handles are positions, and no instance is ever moved or dropped.
-/

namespace PageLoads

structure Interner where
  texts : List String
  nodup : texts.Nodup

namespace Interner

def empty : Interner :=
  ⟨[], List.nodup_nil⟩

def size (table : Interner) : Nat :=
  table.texts.length

def insert (table : Interner) (text : String) : Interner :=
  if h : text ∈ table.texts then table
  else ⟨table.texts ++ [text], by
    rw [List.nodup_append]
    refine ⟨table.nodup, by simp, ?_⟩
    intro a ha b hb hab
    simp only [List.mem_singleton] at hb
    exact h (hb ▸ hab ▸ ha)⟩

/-- The position of the instance that the table keeps of a text it holds. -/
def handle (table : Interner) (text : String) : Nat :=
  table.texts.idxOf text

/-- Asks for a text: the table afterwards and the handle of the instance. -/
def intern (table : Interner) (text : String) : Interner × Nat :=
  let table := table.insert text
  (table, table.handle text)

end Interner

end PageLoads
