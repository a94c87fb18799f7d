import PageLoads.Proofs.Store.Tree

/-!
# Compressing files of a store

Some files of a store stand compressed in another, under their names with the extension of compressed files behind
them. Nothing else differs but the order of entries. So paths lead where they led before, directories list the
names as the extension changes them, and a file is found again, with the same content, under its changed name.
-/

namespace PageLoads

/-- The place beside a place at which the file of the place stands when it is compressed. -/
def Place.compressed (place : Place) : Place :=
  match place.getLast? with
  | some name => place.dropLast ++ [name.compressed]
  | none => []

/-- The name of a place is that of a compressed file. -/
def Place.IsCompressed (place : Place) : Prop :=
  ∃ name ∈ place.getLast?, Name.compressedEnding <:+ name.bytes

instance (place : Place) : Decidable place.IsCompressed := inferInstanceAs (Decidable (∃ _ ∈ _, _))

@[simp] theorem Place.compressed_concat (front : Place) (name : Name) :
    Place.compressed (front ++ [name]) = front ++ [name.compressed] := by
  simp [compressed]

theorem Place.isCompressed_concat (front : Place) (name : Name) :
    Place.IsCompressed (front ++ [name.compressed]) :=
  ⟨_, List.getLast?_concat, List.suffix_append _ _⟩

def Entry.isFile : Entry → Bool
  | .file _ => true
  | .directory | .dangling => false

def Entry.compressed : Entry → Entry
  | .file plain => .file (File.compress plain.stored)
  | entry => entry

namespace Store

def NoneCompressed (store : Store) : Prop :=
  ∀ entry ∈ store.entries, entry.2.isFile = true → ¬ entry.1.IsCompressed

def compressEntry (replaced : List Place) (stood : Place × Entry) : Place × Entry :=
  if stood.1 ∈ replaced then (stood.1.compressed, stood.2.compressed) else stood

/-- The other store has the files at some places compressed, and is the same but for these. -/
structure Compresses (replaced : List Place) (store other : Store) : Prop where
  files : ∀ place ∈ replaced, ∃ file, (place, .file file) ∈ store.entries
  entries : other.entries.Perm (store.entries.map (compressEntry replaced))

/-- The name under which what had a name in a directory is found when files are compressed. -/
def renamed (replaced : List Place) (place : Place) (name : Name) : Name :=
  if place ++ [name] ∈ replaced then name.compressed else name

variable {store other : Store} {replaced : List Place} {place : Place} {entry : Entry} {path : Trail}
  {names : List Name}

theorem exists_entry_of_openByName {content : Content} (h : store.openByName path = .ok content) :
    ∃ place entry, store.resolve path = .ok place ∧ store.get? place = some entry ∧
      (entry = .directory ∨ entry.isFile = true) := by
  obtain ⟨opened, hopened⟩ : ∃ opened, store.openFile path = .ok opened := by
    unfold openByName openCompressed openPlain openWith at h
    split at h
    · obtain ⟨opened, hopened, _⟩ := Except.map_eq_ok_iff.mp h
      exact ⟨opened, hopened⟩
    · obtain ⟨opened, hopened, _⟩ := Except.map_eq_ok_iff.mp h
      exact ⟨opened, hopened⟩
  obtain ⟨place, hresolve, hopened⟩ := Except.bind_eq_ok_iff.mp hopened
  refine ⟨place, ?_⟩
  split at hopened
  · rename_i file hget
    exact ⟨.file file, hresolve, hget, .inr rfl⟩
  · rename_i hget
    exact ⟨.directory, hresolve, hget, .inl rfl⟩
  · cases hopened
  · cases hopened

theorem IsTree.get?_nullFile (h : store.IsTree) : store.get? Place.nullFile = some (.file (.plain [])) := by
  have hgiven : Place.nullFile.isGiven = false := by decide
  rw [get?, hgiven, if_neg Bool.false_ne_true]
  cases hlookup : store.entries.lookup Place.nullFile with
  | none => rfl
  | some entry => exact absurd rfl (h.free _ ((lookup_eq_some_iff store.nodup).mp hlookup)).2

namespace Compresses

variable (htree : store.IsTree) (hother : other.IsTree) (h : Compresses replaced store other)

include htree h in
theorem exists_get?_file (hreplaced : place ∈ replaced) : ∃ file, store.get? place = some (.file file) := by
  obtain ⟨file, hfile⟩ := h.files place hreplaced
  exact ⟨file, htree.get?_of_mem hfile⟩

include h in
theorem mem_entries_iff {stood : Place × Entry} :
    stood ∈ other.entries ↔ ∃ before ∈ store.entries, compressEntry replaced before = stood := by
  rw [h.entries.mem_iff, List.mem_map]

include hother h in
theorem get?_of_not_mem (hplace : place ∉ replaced) (hget : store.get? place = some entry) :
    other.get? place = some entry := by
  rcases get?_cases hget with hmem | ⟨hgiven, rfl⟩ | ⟨rfl, rfl⟩
  · exact hother.get?_of_mem (h.mem_entries_iff.mpr ⟨_, hmem, if_neg hplace⟩)
  · simp [get?, hgiven]
  · exact hother.get?_nullFile

include htree h in
theorem get?_of_mem (hplain : store.NoneCompressed) (hplace : place ∈ replaced) : other.get? place = none := by
  obtain ⟨file, hfile⟩ := h.files place hplace
  refine Option.eq_none_iff_forall_not_mem.mpr fun entry hget => ?_
  rcases get?_cases hget with hmem | ⟨hgiven, _⟩ | ⟨hnull, _⟩
  · obtain ⟨⟨before, stood⟩, hbefore, heq⟩ := h.mem_entries_iff.mp hmem
    unfold compressEntry at heq
    split at heq
    · -- Only the place of another file with the extension behind it could have become this one.
      obtain ⟨front, name, rfl, _⟩ := htree.exists_front hbefore
      rw [Place.compressed_concat] at heq
      refine hplain _ hfile rfl ?_
      rw [← (Prod.mk.inj heq).1]
      exact Place.isCompressed_concat front name
    · rename_i hkept
      rw [(Prod.mk.inj heq).1] at hkept
      exact hkept hplace
  · rw [(htree.free _ hfile).1] at hgiven
    cases hgiven
  · exact (htree.free _ hfile).2 hnull

include hother h in
theorem get?_compressed {file : File} (hplace : place ∈ replaced) (hfile : (place, .file file) ∈ store.entries) :
    other.get? place.compressed = some (.file (File.compress file.stored)) :=
  hother.get?_of_mem (h.mem_entries_iff.mpr ⟨_, hfile, if_pos hplace⟩)

include htree hother h in
theorem sameDirectories : SameDirectories store other := by
  intro place
  constructor
  · intro hget
    refine h.get?_of_not_mem hother (fun hplace => ?_) hget
    obtain ⟨file, hfile⟩ := h.exists_get?_file htree hplace
    rw [hfile] at hget
    cases hget
  · intro hget
    rcases get?_cases hget with hmem | ⟨hgiven, _⟩ | ⟨_, hentry⟩
    · obtain ⟨⟨before, stood⟩, hbefore, heq⟩ := h.mem_entries_iff.mp hmem
      unfold compressEntry at heq
      split at heq
      · rename_i hreplaced
        obtain ⟨file, hfile⟩ := h.exists_get?_file htree hreplaced
        rw [htree.get?_of_mem hbefore] at hfile
        cases hfile
        cases heq
      · cases heq
        exact htree.get?_of_mem hbefore
    · simp [get?, hgiven]
    · cases hentry

include htree hother h in
theorem resolve_eq (hresolve : store.resolve path = .ok place) : other.resolve path = .ok place :=
  resolve_of_sameDirectories (h.sameDirectories htree hother) hresolve

include htree hother h in
theorem openByName_of_not_mem {content : Content} (hplace : place ∉ replaced)
    (hresolve : store.resolve path = .ok place) (hopen : store.openByName path = .ok content) :
    other.openByName path = .ok content := by
  obtain ⟨q, entry, hq, hget, _⟩ := exists_entry_of_openByName hopen
  cases hresolve.symm.trans hq
  have hfile : other.openFile path = store.openFile path := by
    rw [openFile_of_resolve hresolve, openFile_of_resolve (h.resolve_eq htree hother hresolve), hget,
      h.get?_of_not_mem hother hplace hget]
  rw [← hopen]
  simp only [openByName, openCompressed, openPlain, openWith, hfile]

include hother h in
theorem isEntryName_compressed {front : Place} {name : Name} (hplace : front ++ [name] ∈ replaced) :
    name.compressed.IsEntryName := by
  obtain ⟨file, hfile⟩ := h.files _ hplace
  have hmem : ((front ++ [name]).compressed, Entry.file (File.compress file.stored)) ∈ other.entries :=
    h.mem_entries_iff.mpr ⟨_, hfile, by rw [compressEntry, if_pos hplace]; rfl⟩
  obtain ⟨_, last, heq, hname, _⟩ := hother.exists_front hmem
  rw [Place.compressed_concat] at heq
  rwa [List.singleton_inj.mp (List.append_inj' heq rfl).2]

include htree hother h in
theorem resolve_compressed (hplace : place ∈ replaced) (hresolve : store.resolve path = .ok place)
    (hlength : path.compressed.bytes.length ≤ Path.lengthLimit) :
    store.resolve path.compressed = .ok place.compressed := by
  obtain ⟨file, hfile⟩ := h.exists_get?_file htree hplace
  obtain ⟨names, name, front, _, hcompressed, _, hfollow, hfront, rfl⟩ :=
    htree.exists_last hresolve (by simp [hfile])
  have hname := h.isEntryName_compressed hother hplace
  obtain ⟨hcheck, _⟩ := resolve_eq_ok_iff.mp hresolve
  obtain ⟨hnull, hempty, _⟩ := checkPath_eq_ok_iff.mp hcheck
  refine resolve_eq_ok_iff.mpr ⟨checkPath_eq_ok_iff.mpr ⟨?_, ?_, hlength⟩, ?_⟩
  · rw [path.bytes_compressed]
    exact fun hmem => (List.mem_append.mp hmem).elim hnull (by decide)
  · rw [path.bytes_compressed]
    exact fun hnil => hempty (List.append_eq_nil_iff.mp hnil).1
  · have horigin : origin path.compressed.text = origin path.text := by
      rw [origin, origin, path.isAbsolute_compressed]
    rw [followPath, horigin, hcompressed, follow_append, hfollow, Place.compressed_concat]
    exact follow_singleton_of_isEntryName hfront hname

include htree hother h in
/-- A path to a file that is replaced is not that of a compressed file, and with the extension behind it, it is. -/
theorem namesCompressed_of_mem (hplain : store.NoneCompressed) (hplace : place ∈ replaced)
    (hresolve : store.resolve path = .ok place) :
    Path.namesCompressed path = false ∧ Path.namesCompressed path.compressed = true := by
  obtain ⟨file, hfile⟩ := h.files place hplace
  obtain ⟨names, name, front, hnames, hcompressed, hleads, _, _, rfl⟩ :=
    htree.exists_last hresolve (by simp [htree.get?_of_mem hfile])
  have hname := h.isEntryName_compressed hother hplace
  rw [Trail.namesCompressed_eq hnames hleads, Trail.namesCompressed_eq hcompressed hname.leadsOn]
  refine ⟨decide_eq_false fun hextension => ?_, decide_eq_true (Name.extension?_compressed hleads.bytes_ne_nil)⟩
  obtain ⟨stem, rfl⟩ := Name.exists_eq_compressed hextension
  exact hplain _ hfile rfl (Place.isCompressed_concat front stem)

include htree hother h in
/-- A file that is replaced is not found any more, but with the extension behind the path it is, with its content. -/
theorem openByName_of_mem {content : Content} (hplain : store.NoneCompressed) (hplace : place ∈ replaced)
    (hresolve : store.resolve path = .ok place) (hopen : store.openByName path = .ok content)
    (hlength : path.compressed.bytes.length ≤ Path.lengthLimit) :
    other.openByName path = .error .notFound ∧ other.openByName path.compressed = .ok content := by
  obtain ⟨file, hfile⟩ := h.files place hplace
  obtain ⟨hname, hcompressed⟩ := h.namesCompressed_of_mem htree hother hplain hplace hresolve
  have hgone : other.openFile path = .error .notFound := by
    rw [openFile_of_resolve (h.resolve_eq htree hother hresolve), h.get?_of_mem htree hplain hplace]
  have hcontent : content = .plain file.stored := by
    have hfound : store.openFile path = .ok (.ok file) := by
      rw [openFile_of_resolve hresolve, htree.get?_of_mem hfile]
    rw [openByName, if_neg (by simp [hname]), openPlain, openWith, hfound] at hopen
    exact (Except.ok.inj hopen).symm
  have hfound : other.openFile path.compressed = .ok (.ok (File.compress file.stored)) := by
    have hlonger := h.resolve_compressed htree hother hplace hresolve hlength
    rw [openFile_of_resolve (h.resolve_eq htree hother hlonger), h.get?_compressed hother hplace hfile]
  constructor
  · rw [openByName, if_neg (by simp [hname]), openPlain, openWith, hgone]
    rfl
  · rw [openByName, if_pos hcompressed, openCompressed, openWith, hfound, hcontent]
    rfl

private theorem nameIn_compressEntry (htree : store.IsTree) (place : Place) {stood : Place × Entry}
    (hstood : stood ∈ store.entries) :
    nameIn? place (compressEntry replaced stood) = (nameIn? place stood).map (renamed replaced place) := by
  obtain ⟨front, name, hfront, _⟩ := htree.exists_front hstood
  unfold compressEntry nameIn?
  split
  · rename_i hreplaced
    rw [hfront] at hreplaced ⊢
    by_cases hplace : front = place
    · subst hplace
      simp [renamed, hreplaced]
    · simp [hplace]
  · rename_i hkept
    rw [hfront] at hkept ⊢
    by_cases hplace : front = place
    · subst hplace
      simp [renamed, hkept]
    · simp [hplace]

include htree hother h in
theorem exists_list (hlist : store.list path = .ok names) :
    ∃ place others, store.resolve path = .ok place ∧ store.get? place = some .directory ∧
      (∀ name ∈ names, ∃ entry, (place ++ [name], entry) ∈ store.entries) ∧
      other.list path = .ok others ∧ others.Perm (names.map (renamed replaced place)) := by
  obtain ⟨place, hresolve, hget, rfl⟩ := list_eq_ok_iff.mp hlist
  refine ⟨place, other.entries.filterMap (nameIn? place), hresolve, hget, ?_, ?_, ?_⟩
  · intro name hname
    obtain ⟨stood, hmem, hlast⟩ := List.mem_filterMap.mp hname
    exact ⟨stood.2, eq_concat_of_nameIn hlast ▸ hmem⟩
  · exact list_eq_ok_iff.mpr ⟨place, h.resolve_eq htree hother hresolve,
      (h.sameDirectories htree hother place).mp hget, rfl⟩
  · refine (h.entries.filterMap _).trans ?_
    rw [List.filterMap_map, List.map_filterMap]
    exact .of_eq (List.filterMap_congr fun stood hstood => nameIn_compressEntry htree place hstood)

include htree hother h in
/-- What is listed in a directory is opened under the name that it has with its file compressed. -/
theorem openByName_renamed {name : Name} {content : Content} (hplain : store.NoneCompressed)
    (hresolve : store.resolve path = .ok place) (hplace : store.get? place = some .directory)
    (hentry : (place ++ [name], entry) ∈ store.entries)
    (hopen : store.openByName (path.child name) = .ok content)
    (hlength : place ++ [name] ∈ replaced →
      (path.child name.compressed).bytes.length ≤ Path.lengthLimit) :
    other.openByName (path.child (renamed replaced place name)) = .ok content := by
  obtain ⟨_, _, hjoin, _⟩ := exists_entry_of_openByName hopen
  obtain rfl := htree.resolve_entry hresolve hplace hentry hjoin
  unfold renamed
  split
  · rename_i hreplaced
    rw [← Trail.compressed_child]
    refine (h.openByName_of_mem htree hother hplain hreplaced hjoin hopen ?_).2
    rw [Trail.compressed_child]
    exact hlength hreplaced
  · rename_i hkept
    exact h.openByName_of_not_mem htree hother hkept hjoin hopen

end Compresses

end Store

end PageLoads
