import Mathlib.Data.List.Nodup
import PageLoads.Proofs.Except
import PageLoads.Store.Basic

namespace PageLoads.Store

variable {store : Store} {path : Trail} {names : List Name} {place : Place}

/-- The name of an entry in a directory, if it stands directly in it. -/
def nameIn? (place : Place) (stood : Place × Entry) : Option Name :=
  if stood.1.dropLast = place then stood.1.getLast? else none

theorem eq_concat_of_nameIn {stood : Place × Entry} {name : Name} (h : nameIn? place stood = some name) :
    stood.1 = place ++ [name] := by
  unfold nameIn? at h
  split at h
  · rename_i hplace
    obtain ⟨front, hfront⟩ := List.getLast?_eq_some_iff.mp h
    rw [← hplace, hfront, List.dropLast_concat]
  · cases h

theorem list_eq_ok_iff :
    store.list path = .ok names ↔ ∃ place, store.resolve path = .ok place ∧
      store.get? place = some .directory ∧ store.entries.filterMap (nameIn? place) = names := by
  unfold list
  rw [Except.bind_eq_ok_iff]
  refine exists_congr fun place => and_congr_right fun _ => ?_
  cases store.get? place with
  | none => simp [throw, throwThe, MonadExceptOf.throw]
  | some entry =>
    cases entry with
    | file => simp [throw, throwThe, MonadExceptOf.throw]
    | dangling => simp [throw, throwThe, MonadExceptOf.throw]
    | directory =>
      simp only [pure, Except.pure, Except.ok.injEq, true_and]
      exact Iff.rfl

theorem nodup_of_list (h : store.list path = .ok names) : names.Nodup := by
  obtain ⟨place, _, _, rfl⟩ := list_eq_ok_iff.mp h
  have hplaces : store.entries.filterMap (nameIn? place) =
      (store.entries.map Prod.fst).filterMap fun p => nameIn? place (p, .directory) := by
    rw [List.filterMap_map]
    rfl
  rw [hplaces]
  refine List.Nodup.filterMap ?_ store.nodup
  intro p q name hp hq
  exact (eq_concat_of_nameIn hp).trans (eq_concat_of_nameIn hq).symm

end PageLoads.Store
