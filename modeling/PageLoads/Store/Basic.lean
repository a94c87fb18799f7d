import PageLoads.Store.File
import PageLoads.Store.Path

/-!
# Stores

A tree of files, as the entries at its places. A place is the list of names that lead to it from the
root; where paths lead out of the store, the names follow on two dots for each directory above the root,
or on the slash of an absolute path. The root and the directories above it are always there, and so is
what every system has. All else that is known to stand in them is what the store holds. The order of the
entries is the order in which directories list them, and no operation gives it a meaning. `get?` is the
view of a store, and `get?_set` says what setting one place does to it.
-/

namespace PageLoads

/-- The names that lead from the root to a place. -/
abbrev Place := List Name

namespace Place

/-- The place of all absolute paths. -/
def top : Place :=
  ["/"]

/-- The directories that stand at the top of every system. -/
def systemDirectories : List Name :=
  ["bin", "boot", "dev", "etc", "home", "lib", "media", "mnt", "opt", "proc", "root", "run", "sbin", "srv",
    "sys", "tmp", "usr", "var"]

/-- The file of every system in which nothing stands. -/
def nullFile : Place :=
  ["/", "dev", "null"]

def isRootward (place : Place) : Bool :=
  place.all (· = "..") || place = top

/-- Whether a directory stands at a place in any store. -/
def isGiven (place : Place) : Bool :=
  isRootward place || systemDirectories.any fun name => place = top ++ [name]

def isInside (place : Place) : Bool :=
  place.head?.all fun name : Name => name ≠ ".." && name ≠ "/"

/-- The directory that two dots stand for. -/
def up (place : Place) : Place :=
  if place = top then top else if isRootward place then ".." :: place else place.dropLast

end Place

/-- What is found at a place, links being followed. -/
inductive Entry where
  | file (file : File)
  | directory
  /-- A link out of the store, to where no file is yet and one can be made. -/
  | dangling
  deriving DecidableEq, Repr

structure Store where
  entries : List (Place × Entry)
  nodup : (entries.map Prod.fst).Nodup

namespace Store

def empty : Store :=
  ⟨[], List.nodup_nil⟩

def get? (store : Store) (place : Place) : Option Entry :=
  if place.isGiven then some .directory
  else
    match store.entries.lookup place with
    | some entry => some entry
    | none => if place = Place.nullFile then some (.file (.plain [])) else none

def put (place : Place) (entry : Entry) : List (Place × Entry) → List (Place × Entry)
  | [] => [(place, entry)]
  | (p, e) :: rest => if p = place then (place, entry) :: rest else (p, e) :: put place entry rest

theorem mem_keys_put {place q : Place} {entry : Entry} {entries : List (Place × Entry)}
    (h : q ∈ (put place entry entries).map Prod.fst) : q = place ∨ q ∈ entries.map Prod.fst := by
  induction entries with
  | nil => simpa [put] using h
  | cons head rest ih =>
    obtain ⟨p, e⟩ := head
    unfold put at h
    split at h
    · rename_i hp
      subst hp
      simp only [List.map_cons, List.mem_cons] at h ⊢
      exact Or.inr h
    · simp only [List.map_cons, List.mem_cons] at h ⊢
      rcases h with h | h
      · exact Or.inr (Or.inl h)
      · exact (ih h).imp id Or.inr

theorem nodup_put (place : Place) (entry : Entry) {entries : List (Place × Entry)}
    (h : (entries.map Prod.fst).Nodup) : ((put place entry entries).map Prod.fst).Nodup := by
  induction entries with
  | nil => simp [put]
  | cons head rest ih =>
    obtain ⟨p, e⟩ := head
    rw [List.map_cons, List.nodup_cons] at h
    unfold put
    split
    · rename_i hp
      subst hp
      simpa using h
    · rename_i hp
      rw [List.map_cons, List.nodup_cons]
      refine ⟨fun hmem => ?_, ih h.2⟩
      rcases mem_keys_put hmem with heq | hmem
      · exact hp heq
      · exact h.1 hmem

theorem lookup_cons_eq (q p : Place) (e : Entry) (rest : List (Place × Entry)) :
    ((p, e) :: rest).lookup q = if q = p then some e else rest.lookup q := by
  by_cases h : q = p
  · simp [h]
  · simp [List.lookup_cons, beq_false_of_ne h, h]

theorem lookup_put (place q : Place) (entry : Entry) (entries : List (Place × Entry)) :
    (put place entry entries).lookup q = if q = place then some entry else entries.lookup q := by
  induction entries with
  | nil => simp [put, lookup_cons_eq]
  | cons head rest ih =>
    obtain ⟨p, e⟩ := head
    unfold put
    split
    · rename_i hp
      subst hp
      by_cases h : q = p <;> simp [lookup_cons_eq, h]
    · rename_i hp
      by_cases h : q = p
      · subst h
        simp [hp]
      · simp [lookup_cons_eq, h, ih]

def set (store : Store) (place : Place) (entry : Entry) : Store where
  entries := put place entry store.entries
  nodup := nodup_put place entry store.nodup

/-- Removes a place and all places below it. -/
def erase (store : Store) (place : Place) : Store where
  entries := store.entries.filter fun (p, _) => !place.isPrefixOf p
  nodup := (store.nodup.sublist (List.Sublist.map Prod.fst List.filter_sublist))

/-- Setting a place that is not given changes this place and no other. -/
theorem get?_set {place : Place} (hplace : place.isGiven = false) (store : Store) (entry : Entry)
    (q : Place) : (store.set place entry).get? q = if q = place then some entry else store.get? q := by
  cases hq : q.isGiven with
  | true =>
    have hne : q ≠ place := by
      intro h
      rw [h, hplace] at hq
      cases hq
    simp [get?, hq, hne]
  | false =>
    by_cases h : q = place <;> simp [get?, hq, set, lookup_put, h, hplace]

/-- Follows names from a place. Each name but the last must lead to a directory, and so must the last
if it is empty, a dot or two dots; the last place itself need not exist. -/
def follow (store : Store) (place : Place) : List Name → Except IoFault Place
  | [] => .ok place
  | name :: rest =>
    match store.get? place with
    | some .directory =>
      if name.staysHere then follow store place rest
      else if name = ".." then follow store place.up rest
      else if Path.nameLimit < name.bytes.length then .error .nameTooLong
      else follow store (place ++ [name]) rest
    | some (.file _) => .error .notDirectory
    | some .dangling | none => .error .notFound

def origin (path : String) : Place :=
  if Path.isAbsolute path then .top else []

def followPath (store : Store) (path : Trail) : Except IoFault Place :=
  store.follow (origin path.text) path.names

/-- Refuses the paths that are followed in no store. -/
def checkPath (path : Trail) : Except IoFault Unit :=
  if path.bytes.contains 0 then .error .nullInPath
  else if path.bytes = [] then .error .notFound
  else if Path.lengthLimit < path.bytes.length then .error .nameTooLong
  else .ok ()

def resolve (store : Store) (path : Trail) : Except IoFault Place := do
  checkPath path
  store.followPath path

/-- Opens the file at a path. A directory can be opened too, and refuses to be read. -/
def openFile (store : Store) (path : Trail) : Except IoFault (Except IoFault File) := do
  match store.get? (← store.resolve path) with
  | some (.file file) => return .ok file
  | some .directory => return .error .isDirectory
  | some .dangling | none => throw .notFound

/-- The content of what stands at a path, where a file has that which `read` finds in it. -/
def openWith (read : File → Content) (store : Store) (path : Trail) : Except IoFault Content :=
  (store.openFile path).map fun
    | .ok file => read file
    | .error fault => .refused fault

def openPlain (store : Store) (path : Trail) : Except IoFault Content :=
  store.openWith (fun file => .plain file.stored) path

def openCompressed (store : Store) (path : Trail) : Except IoFault Content :=
  store.openWith File.expanded path

/-- The content of the file at a path, which must be compressed if its name says so. -/
def openByName (store : Store) (path : Trail) : Except IoFault Content :=
  if Path.namesCompressed path then store.openCompressed path else store.openPlain path

/-- The place at which a path lets a file be written: its directory exists, no directory stands there,
and the path does not ask for one. -/
def writable (store : Store) (path : String) : Except IoFault Place := do
  checkPath path
  if Path.namesDirectory path then
    let _ ← store.followPath (Path.directory path)
    throw .isDirectory
  let place ← store.followPath path
  match store.get? place with
  | some .directory => throw .isDirectory
  | some (.file _) | some .dangling | none => return place

/-- Writes a file at a path, in place of one that is found there. A link that led to nothing leads to the new file. -/
def write (store : Store) (path : String) (file : File) : Except IoFault Store := do
  return store.set (← store.writable path) (.file file)

/-- The names in the directory at a path, in the order of the store. -/
def list (store : Store) (path : Trail) : Except IoFault (List Name) := do
  let place ← store.resolve path
  match store.get? place with
  | some .directory =>
    return store.entries.filterMap fun (p, _) => if p.dropLast = place then p.getLast? else none
  | some (.file _) => throw .notDirectory
  | some .dangling | none => throw .notFound

def holds (store : Store) (path : String) : Bool :=
  match store.openFile path with
  | .ok _ => true
  | .error _ => false

/-- Goes along names from a place and makes a directory where nothing stands. -/
def makeAlong (store : Store) (place : Place) : List Name → Store × Place
  | [] => (store, place)
  | name :: rest =>
    if name.staysHere then makeAlong store place rest
    else if name = ".." then makeAlong store place.up rest
    else
      let place := place ++ [name]
      makeAlong (if store.get? place = none then store.set place .directory else store) place rest

def makeDirectories (store : Store) (path : String) : Store :=
  (store.makeAlong (origin path) (Path.names path)).1

/-- Puts an entry at a path and makes the directories along it. -/
def install (store : Store) (path : String) (entry : Entry) : Store :=
  let (store, place) := store.makeAlong (origin path) (Path.names (Path.directory path))
  match Trail.fileName? path with
  | some name => store.set (place ++ [name]) entry
  | none => store

def remove (store : Store) (path : String) : Store :=
  match store.resolve path with
  | .ok place => store.erase place
  | .error _ => store

/-- The paths of all files and dangling links in the store, in ascending order. -/
def leaves (store : Store) : List String :=
  (store.entries.filterMap fun (place, entry) =>
    if place.isInside ∧ entry ≠ .directory then some ("/".intercalate (place.map Name.shown)) else none).mergeSort
      fun a b => a ≤ b

end Store

end PageLoads
