import Mathlib.Data.List.Basic
import PageLoads.Proofs.Text.Lossy
import PageLoads.Store.Path

namespace PageLoads

namespace Text

variable {α : Type} [DecidableEq α] {separator : α}

theorem splitAt_append_separator (before after : List α) :
    splitAt separator (before ++ separator :: after) = splitAt separator before ++ splitAt separator after := by
  induction before with
  | nil => simp [splitAt]
  | cons c rest ih =>
    rw [List.cons_append, splitAt, splitAt, ih]
    by_cases hc : c = separator
    · simp [hc]
    · rw [if_neg hc, if_neg hc]
      cases hrest : splitAt separator rest with
      | nil => exact absurd hrest (splitAt_ne_nil separator rest)
      | cons part parts => rfl

theorem exists_splitAt_append {more : List α} (h : separator ∉ more) (cs : List α) :
    ∃ front last, splitAt separator cs = front ++ [last] ∧
      splitAt separator (cs ++ more) = front ++ [last ++ more] := by
  induction cs with
  | nil => exact ⟨[], [], rfl, splitAt_of_not_mem h⟩
  | cons c rest ih =>
    obtain ⟨front, last, hrest, hmore⟩ := ih
    rw [List.cons_append, splitAt, splitAt, hrest, hmore]
    by_cases hc : c = separator
    · exact ⟨[] :: front, last, by simp [hc], by simp [hc]⟩
    · rw [if_neg hc, if_neg hc]
      cases front with
      | nil => exact ⟨[], c :: last, rfl, rfl⟩
      | cons part front => exact ⟨(c :: part) :: front, last, rfl, rfl⟩

theorem eq_of_splitAt_eq_singleton {cs part : List α} (h : splitAt separator cs = [part]) : cs = part := by
  by_cases hmem : separator ∈ cs
  · obtain ⟨before, after, rfl, hbefore⟩ := List.eq_append_cons_of_mem hmem
    rw [splitAt_append_cons hbefore] at h
    exact absurd (List.cons.inj h).2 (splitAt_ne_nil separator after)
  · rw [splitAt_of_not_mem hmem] at h
    exact List.singleton_inj.mp h

theorem exists_eq_append_of_splitAt {cs last : List α} {front : List (List α)}
    (h : splitAt separator cs = front ++ [last]) (hfront : front ≠ []) :
    ∃ before, cs = before ++ separator :: last := by
  have hmem : separator ∈ cs := by
    by_contra hnot
    rw [splitAt_of_not_mem hnot] at h
    exact hfront (List.append_eq_singleton_iff.mp h.symm |>.resolve_right (by simp)).1
  -- The last separator of all is the first one from behind.
  obtain ⟨behind, before, hreverse, hlast⟩ := List.eq_append_cons_of_mem (List.mem_reverse.mpr hmem)
  have hcs : cs = before.reverse ++ separator :: behind.reverse := by
    rw [← List.reverse_reverse cs, hreverse]
    simp
  have hbehind : splitAt separator behind.reverse = [behind.reverse] := splitAt_of_not_mem (by simpa using hlast)
  rw [hcs, splitAt_append_separator, hbehind] at h
  obtain ⟨_, hbehind⟩ := List.append_inj' h rfl
  exact ⟨before.reverse, by rw [hcs, List.singleton_inj.mp hbehind]⟩

end Text

namespace Name

open PageLoads.Text

@[simp] theorem shown_ofText (text : String) : (ofText text).shown = text :=
  lossy_encode text

/-- What is put behind the name of a file that is compressed. -/
def compressedEnding : Bytes :=
  dot :: encode Path.compressedExtension

def compressed (name : Name) : Name :=
  ⟨name.bytes ++ compressedEnding⟩

theorem compressedEnding_eq : compressedEnding = encode ".zst" := by decide

@[simp] theorem shown_compressed (name : Name) : name.compressed.shown = name.shown ++ ".zst" := by
  have hending : encode ".zst" = dot :: encode Path.compressedExtension := compressedEnding_eq.symm
  rw [shown, compressed, compressedEnding_eq, lossy_append_encode hending (by decide), ← shown]

theorem extension?_compressed {name : Name} (h : name.bytes ≠ []) :
    name.compressed.extension? = some (encode Path.compressedExtension) := by
  have hnoDot : dot ∉ encode Path.compressedExtension := by decide
  unfold extension? compressed compressedEnding
  rw [splitAt_append_separator, splitAt_of_not_mem hnoDot, List.reverse_append, List.reverse_singleton,
    List.singleton_append]
  split
  · rename_i hnil
    cases hnil
  · rename_i hone
    exact absurd (List.reverse_eq_nil_iff.mp (List.cons.inj hone).2) (splitAt_ne_nil dot _)
  · rename_i hhidden
    have hname : splitAt dot name.bytes = [[]] := List.reverse_eq_iff.mp (List.cons.inj hhidden).2
    exact absurd (eq_of_splitAt_eq_singleton hname) h
  · rename_i hlast
    rw [← (List.cons.inj hlast).1]

/-- Only a name with the extension behind it has this extension. -/
theorem exists_eq_compressed {name : Name} (h : name.extension? = some (encode Path.compressedExtension)) :
    ∃ stem, name = compressed stem := by
  unfold extension? at h
  split at h
  · cases h
  · cases h
  · cases h
  · rename_i last rest hmany _ hreverse
    have hsplit := congrArg List.reverse hreverse
    rw [List.reverse_reverse, List.reverse_cons] at hsplit
    obtain ⟨before, hname⟩ := exists_eq_append_of_splitAt hsplit fun hrest => hmany (List.reverse_eq_nil_iff.mp hrest)
    obtain ⟨bytes⟩ := name
    exact ⟨⟨before⟩, congrArg Name.mk (hname.trans (Option.some.inj h ▸ rfl))⟩

/-- A name that leads on from a directory to what stands in it. -/
def LeadsOn (name : Name) : Prop :=
  name.staysHere = false ∧ name ≠ ".."

instance (name : Name) : Decidable name.LeadsOn := inferInstanceAs (Decidable (_ ∧ _))

theorem LeadsOn.bytes_ne_nil {name : Name} (h : name.LeadsOn) : name.bytes ≠ [] := by
  obtain ⟨bytes⟩ := name
  rintro rfl
  exact absurd h.1 (by decide)

end Name

end PageLoads
