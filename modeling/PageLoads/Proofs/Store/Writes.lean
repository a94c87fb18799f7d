import PageLoads.Proofs.Except
import PageLoads.Store.Basic

namespace PageLoads

def Entry.ofText (text : String) : Entry :=
  .file (.plain (Text.encode text))

namespace Store

variable {store other after : Store} {path : Trail} {place : Place} {file : File}

def SameDirectories (store other : Store) : Prop :=
  ∀ place, store.get? place = some .directory ↔ other.get? place = some .directory

namespace SameDirectories

theorem refl (store : Store) : SameDirectories store store :=
  fun _ => Iff.rfl

theorem symm (h : SameDirectories store other) : SameDirectories other store :=
  fun place => (h place).symm

theorem trans {third : Store} (h : SameDirectories store other) (h' : SameDirectories other third) :
    SameDirectories store third :=
  fun place => (h place).trans (h' place)

end SameDirectories

private theorem get?_of_follow_cons {name : Name} {names : List Name} {q : Place}
    (h : store.follow place (name :: names) = .ok q) : store.get? place = some .directory := by
  unfold follow at h
  split at h
  · assumption
  · cases h
  · cases h
  · cases h

private theorem follow_cons_of_directory {name : Name} {names : List Name}
    (h : store.get? place = some .directory) :
    store.follow place (name :: names) =
      if name.staysHere then store.follow place names
      else if name = ".." then store.follow place.up names
      else if Path.nameLimit < name.bytes.length then .error .nameTooLong
      else store.follow (place ++ [name]) names := by
  rw [follow, h]

private theorem follow_of_sameDirectories (h : SameDirectories store other) {names : List Name} {q : Place}
    (hfollow : store.follow place names = .ok q) : other.follow place names = .ok q := by
  induction names generalizing place with
  | nil => exact hfollow
  | cons name names ih =>
    -- The name is followed on from a directory, which is one in the other store as well.
    have hplace := get?_of_follow_cons hfollow
    rw [follow_cons_of_directory hplace] at hfollow
    rw [follow_cons_of_directory ((h place).mp hplace)]
    by_cases hstays : name.staysHere
    · rw [if_pos hstays] at hfollow ⊢
      exact ih hfollow
    · rw [if_neg hstays] at hfollow ⊢
      by_cases hup : name = ".."
      · rw [if_pos hup] at hfollow ⊢
        exact ih hfollow
      · rw [if_neg hup] at hfollow ⊢
        by_cases hlimit : Path.nameLimit < name.bytes.length
        · rw [if_pos hlimit] at hfollow
          cases hfollow
        · rw [if_neg hlimit] at hfollow ⊢
          exact ih hfollow

theorem resolve_eq_ok_iff :
    store.resolve path = .ok place ↔ checkPath path = .ok () ∧ store.followPath path = .ok place := by
  rw [resolve, Except.bind_eq_ok_iff]
  exact ⟨fun ⟨_, h⟩ => h, fun h => ⟨(), h⟩⟩

/-- Only the directories of a store decide to which place a path leads. -/
theorem resolve_of_sameDirectories (h : SameDirectories store other) (hresolve : store.resolve path = .ok place) :
    other.resolve path = .ok place := by
  obtain ⟨hcheck, hfollow⟩ := resolve_eq_ok_iff.mp hresolve
  exact resolve_eq_ok_iff.mpr ⟨hcheck, follow_of_sameDirectories h hfollow⟩

section Writable

variable {path : String}

theorem writable_eq_ok_iff :
    store.writable path = .ok place ↔
      store.resolve path = .ok place ∧ Path.namesDirectory path = false ∧ store.get? place ≠ some .directory := by
  rw [resolve_eq_ok_iff, writable, Except.bind_eq_ok_iff]
  constructor
  · rintro ⟨⟨⟩, hcheck, h⟩
    split at h
    · obtain ⟨_, _, h⟩ := Except.bind_eq_ok_iff.mp h
      cases h
    · rename_i hnames
      obtain ⟨q, hfollow, h⟩ := Except.bind_eq_ok_iff.mp h
      have hq : q = place ∧ store.get? q ≠ some .directory := by
        split at h
        · cases h
        all_goals
          rename_i hget
          cases h
          exact ⟨rfl, by rw [hget]; nofun⟩
      obtain ⟨rfl, hget⟩ := hq
      exact ⟨⟨hcheck, hfollow⟩, Bool.eq_false_iff.mpr hnames, hget⟩
  · rintro ⟨⟨hcheck, hfollow⟩, hnames, hget⟩
    refine ⟨(), hcheck, ?_⟩
    rw [if_neg (Bool.eq_false_iff.mp hnames), hfollow]
    simp only [bind, Except.bind]
    split
    · rename_i hdirectory
      exact absurd hdirectory hget
    all_goals rfl

theorem writable_of_sameDirectories (h : SameDirectories store other)
    (hwritable : store.writable path = .ok place) : other.writable path = .ok place := by
  obtain ⟨hresolve, hnames, hget⟩ := writable_eq_ok_iff.mp hwritable
  exact writable_eq_ok_iff.mpr ⟨resolve_of_sameDirectories h hresolve, hnames,
    fun hdirectory => hget ((h place).mpr hdirectory)⟩

theorem isGiven_of_writable (h : store.writable path = .ok place) : place.isGiven = false := by
  obtain ⟨_, _, hget⟩ := writable_eq_ok_iff.mp h
  cases hgiven : place.isGiven with
  | false => rfl
  | true => exact absurd (by simp [get?, hgiven]) hget

theorem write_eq_ok_iff :
    store.write path file = .ok after ↔
      ∃ place, store.writable path = .ok place ∧ store.set place (.file file) = after := by
  simp only [write, Except.bind_eq_ok_iff, pure, Except.pure, Except.ok.injEq]

/-- Writing changes the place to which the path leads and no other. -/
theorem get?_set_of_writable (h : store.writable path = .ok place) (entry : Entry) (q : Place) :
    (store.set place entry).get? q = if q = place then some entry else store.get? q :=
  get?_set (isGiven_of_writable h) store entry q

theorem sameDirectories_set (h : store.writable path = .ok place) :
    SameDirectories store (store.set place (.file file)) := by
  intro q
  rw [get?_set_of_writable h]
  by_cases hq : q = place
  · subst hq
    obtain ⟨_, _, hget⟩ := writable_eq_ok_iff.mp h
    simp [hget]
  · rw [if_neg hq]

end Writable

/-- What stands at a path, if it leads anywhere and anything stands there. -/
def entryAt? (store : Store) (path : Trail) : Option Entry :=
  match store.resolve path with
  | .ok place => store.get? place
  | .error _ => none

theorem entryAt?_eq (h : SameDirectories store other)
    (hget : ∀ place, store.resolve path = .ok place → other.get? place = store.get? place) :
    other.entryAt? path = store.entryAt? path := by
  unfold entryAt?
  cases hresolve : store.resolve path with
  | ok place =>
    rw [resolve_of_sameDirectories h hresolve]
    exact hget place hresolve
  | error fault =>
    cases hother : other.resolve path with
    | ok place =>
      have hplace := resolve_of_sameDirectories h.symm hother
      rw [hresolve] at hplace
      cases hplace
    | error fault' => rfl

theorem openFile_of_resolve (h : store.resolve path = .ok place) :
    store.openFile path =
      match store.get? place with
      | some (.file file) => .ok (.ok file)
      | some .directory => .ok (.error .isDirectory)
      | some .dangling | none => .error .notFound := by
  rw [openFile, h]
  rfl

end Store

end PageLoads
