import PageLoads.Proofs.Store.Order
import PageLoads.Proofs.Store.Paths
import PageLoads.Proofs.Store.Writes

namespace PageLoads

/-- A name that an entry of a directory can have. -/
structure Name.IsEntryName (name : Name) : Prop where
  leadsOn : name.LeadsOn
  noSlash : Trail.slash ∉ name.bytes
  noNull : 0 ∉ name.bytes
  short : name.bytes.length ≤ Path.nameLimit

instance (name : Name) : Decidable name.IsEntryName :=
  decidable_of_iff (name.LeadsOn ∧ Trail.slash ∉ name.bytes ∧ 0 ∉ name.bytes ∧ name.bytes.length ≤ Path.nameLimit)
    ⟨fun ⟨h, h', h'', h'''⟩ => ⟨h, h', h'', h'''⟩, fun ⟨h, h', h'', h'''⟩ => ⟨h, h', h'', h'''⟩⟩

namespace Store

/-- Each entry has a name and stands in a directory, and none stands where something is given. -/
structure IsTree (store : Store) : Prop where
  named : ∀ entry ∈ store.entries, ∃ name ∈ entry.1.getLast?, Name.IsEntryName name
  below : ∀ entry ∈ store.entries, store.get? entry.1.dropLast = some .directory
  free : ∀ entry ∈ store.entries, entry.1.isGiven = false ∧ entry.1 ≠ Place.nullFile

variable {store : Store} {path : Trail} {place : Place} {entry : Entry}

theorem get?_cases (h : store.get? place = some entry) :
    (place, entry) ∈ store.entries ∨ (place.isGiven = true ∧ entry = .directory) ∨
      (place = Place.nullFile ∧ entry = .file (.plain [])) := by
  unfold get? at h
  split at h
  · rename_i hgiven
    exact .inr (.inl ⟨hgiven, (Option.some.inj h).symm⟩)
  · split at h
    · rename_i found hlookup
      cases h
      exact .inl ((lookup_eq_some_iff store.nodup).mp hlookup)
    · split at h
      · rename_i hnull
        exact .inr (.inr ⟨hnull, (Option.some.inj h).symm⟩)
      · cases h

namespace IsTree

theorem get?_of_mem (h : store.IsTree) (hmem : (place, entry) ∈ store.entries) : store.get? place = some entry := by
  obtain ⟨hgiven, _⟩ := h.free _ hmem
  rw [get?, if_neg (by simp [hgiven]), (lookup_eq_some_iff store.nodup).mpr hmem]

theorem exists_front (h : store.IsTree) (hmem : (place, entry) ∈ store.entries) :
    ∃ front name, place = front ++ [name] ∧ name.IsEntryName ∧ store.get? front = some .directory := by
  obtain ⟨name, hlast, hname⟩ := h.named _ hmem
  obtain ⟨front, rfl⟩ := List.getLast?_eq_some_iff.mp hlast
  have hbelow := h.below _ hmem
  rw [List.dropLast_concat] at hbelow
  exact ⟨front, name, rfl, hname, hbelow⟩

end IsTree

theorem isGiven_up (h : place.isGiven = true) : place.up.isGiven = true := by
  unfold Place.up
  by_cases htop : place = Place.top
  · rw [if_pos htop]
    decide
  · rw [if_neg htop]
    cases hroot : place.isRootward with
    | true =>
      have hdots : place.all (· = "..") = true := by simpa [Place.isRootward, htop] using hroot
      simp [Place.isGiven, Place.isRootward, hdots]
    | false =>
      rw [Place.isGiven, hroot, Bool.false_or, List.any_eq_true] at h
      obtain ⟨name, _, hname⟩ := h
      rw [of_decide_eq_true hname, if_neg Bool.false_ne_true, List.dropLast_concat]
      decide

theorem IsTree.get?_up (h : store.IsTree) (hplace : store.get? place = some .directory) :
    store.get? place.up = some .directory := by
  rcases get?_cases hplace with hmem | ⟨hgiven, _⟩ | ⟨_, hentry⟩
  · obtain ⟨hgiven, _⟩ := h.free _ hmem
    have hroot : place.isRootward = false := by
      rw [Place.isGiven, Bool.or_eq_false_iff] at hgiven
      exact hgiven.1
    have htop : place ≠ Place.top := by
      rintro rfl
      cases hroot
    rw [Place.up, if_neg htop, if_neg (by simp [hroot])]
    exact h.below _ hmem
  · simp [get?, isGiven_up hgiven]
  · cases hentry

theorem follow_append (place : Place) (names more : List Name) :
    store.follow place (names ++ more) = store.follow place names >>= fun q => store.follow q more := by
  induction names generalizing place with
  | nil => rfl
  | cons name rest ih =>
    simp only [List.cons_append, follow]
    split
    · split
      · exact ih _
      · split
        · exact ih _
        · split
          · rfl
          · exact ih _
    · rfl
    · rfl
    · rfl

theorem follow_singleton_of_isEntryName {name : Name} (hplace : store.get? place = some .directory)
    (hname : name.IsEntryName) : store.follow place [name] = .ok (place ++ [name]) := by
  obtain ⟨hstays, hup⟩ := hname.leadsOn
  simp only [follow, hplace, hstays, hup, Nat.not_lt.mpr hname.short, if_false, Bool.false_eq_true]

theorem eq_of_follow_empty {q : Place} (h : store.follow q [Name.ofText ""] = .ok place) : q = place := by
  simp only [follow] at h
  split at h
  · exact Except.ok.inj h
  · cases h
  · cases h
  · cases h

theorem IsTree.eq_of_follow_singleton (h : store.IsTree) {front : Place} {name : Name}
    (hfollow : store.follow front [name] = .ok place) (hplace : store.get? place ≠ some .directory) :
    store.get? front = some .directory ∧ name.LeadsOn ∧ place = front ++ [name] := by
  simp only [follow] at hfollow
  split at hfollow
  · rename_i hfront
    split at hfollow
    · exact absurd (Except.ok.inj hfollow ▸ hfront) hplace
    · rename_i hstays
      split at hfollow
      · exact absurd (Except.ok.inj hfollow ▸ h.get?_up hfront) hplace
      · rename_i hup
        split at hfollow
        · cases hfollow
        · exact ⟨hfront, ⟨Bool.eq_false_iff.mpr hstays, hup⟩, (Except.ok.inj hfollow).symm⟩
  · cases hfollow
  · cases hfollow
  · cases hfollow

theorem checkPath_eq_ok_iff :
    checkPath path = .ok () ↔ 0 ∉ path.bytes ∧ path.bytes ≠ [] ∧ path.bytes.length ≤ Path.lengthLimit := by
  unfold checkPath
  split
  · rename_i hnull
    simp [List.contains_iff_mem.mp hnull]
  · rename_i hnull
    have hnull : 0 ∉ path.bytes := fun hmem => hnull (List.contains_iff_mem.mpr hmem)
    split
    · rename_i hempty
      simp [hempty]
    · rename_i hempty
      split
      · rename_i hlong
        simp [Nat.not_le.mpr hlong]
      · rename_i hlong
        simp [hnull, hempty, Nat.not_lt.mp hlong]

theorem checkPath_ofText_eq_ok_iff {path : String} :
    checkPath path = .ok () ↔ '\x00' ∉ path.toList ∧ path ≠ "" ∧ path.utf8ByteSize ≤ Path.lengthLimit := by
  have hbytes : Trail.bytes path = Text.encode path := rfl
  have hnull : (0 : UInt8) ∈ Text.encode path ↔ '\x00' ∈ path.toList :=
    Text.ofNat_mem_encode_iff (show ('\x00').val.toNat < 128 by decide)
  rw [checkPath_eq_ok_iff, hbytes, hnull, Text.length_encode, ne_eq, Text.encode_eq_nil_iff]

/-- A path to what is no directory leads to a directory by all names but the last, and on from it by the last. The
extension of compressed files behind it would lengthen this name. -/
theorem IsTree.exists_last (h : store.IsTree) (hresolve : store.resolve path = .ok place)
    (hplace : store.get? place ≠ some .directory) :
    ∃ names name front, path.names = names ++ [name] ∧ path.compressed.names = names ++ [name.compressed] ∧
      name.LeadsOn ∧ store.follow (origin path.text) names = .ok front ∧ store.get? front = some .directory ∧
      place = front ++ [name] := by
  obtain ⟨_, hfollow⟩ := resolve_eq_ok_iff.mp hresolve
  obtain ⟨names, name, hnames, hlonger⟩ := path.exists_names_compressed
  rw [followPath, hnames, follow_append] at hfollow
  obtain ⟨front, hfront, hname⟩ := Except.bind_eq_ok_iff.mp hfollow
  obtain ⟨hdirectory, hleads, hplace⟩ := h.eq_of_follow_singleton hname hplace
  exact ⟨names, name, front, hnames, hlonger, hleads, hfront, hdirectory, hplace⟩

theorem checkPath_child {name : Name} (hcheck : checkPath path = .ok ()) (hname : name.IsEntryName)
    (hlength : (path.child name).bytes.length ≤ Path.lengthLimit) : checkPath (path.child name) = .ok () := by
  obtain ⟨hnull, hempty, _⟩ := checkPath_eq_ok_iff.mp hcheck
  refine checkPath_eq_ok_iff.mpr ⟨?_, ?_, hlength⟩
  · have hslash : (0 : UInt8) ≠ Trail.slash := by decide
    rw [Trail.bytes_child, Trail.joinBytes]
    split <;> simp [hnull, hname.noNull, hslash]
  · rw [Trail.bytes_child, Trail.joinBytes]
    split <;> simp [hempty]

theorem resolve_child {name : Name} (hresolve : store.resolve path = .ok place)
    (hplace : store.get? place = some .directory) (hname : name.IsEntryName)
    (hlength : (path.child name).bytes.length ≤ Path.lengthLimit) :
    store.resolve (path.child name) = .ok (place ++ [name]) := by
  obtain ⟨hcheck, hfollow⟩ := resolve_eq_ok_iff.mp hresolve
  refine resolve_eq_ok_iff.mpr ⟨checkPath_child hcheck hname hlength, ?_⟩
  have hfront : store.follow (origin path.text) path.names = .ok place := hfollow
  rw [followPath, Trail.names_child, Trail.child, follow_append, hfront]
  exact follow_singleton_of_isEntryName hplace hname

/-- A path to a directory and the name of an entry in it lead to this entry wherever they lead. -/
theorem IsTree.resolve_entry (h : store.IsTree) {name : Name} {q : Place} (hpath : store.resolve path = .ok place)
    (hplace : store.get? place = some .directory) (hentry : (place ++ [name], entry) ∈ store.entries)
    (hresolve : store.resolve (path.child name) = .ok q) : q = place ++ [name] := by
  obtain ⟨_, _, heq, hname, _⟩ := h.exists_front hentry
  obtain ⟨rfl, rfl⟩ := List.append_singleton_inj.mp heq
  obtain ⟨_, _, hlength⟩ := checkPath_eq_ok_iff.mp (resolve_eq_ok_iff.mp hresolve).1
  rw [resolve_child hpath hplace hname hlength] at hresolve
  exact (Except.ok.inj hresolve).symm

theorem resolve_join {base name : String} (hbase : store.resolve base = .ok place)
    (hplace : store.get? place = some .directory) (hname : (Name.ofText name).IsEntryName)
    (hslash : '/' ∉ name.toList) (hlength : (Path.join base name).utf8ByteSize ≤ Path.lengthLimit) :
    store.resolve (Path.join base name) = .ok (place ++ [Name.ofText name]) := by
  obtain ⟨hcheck, hfollow⟩ := resolve_eq_ok_iff.mp hbase
  obtain ⟨hnull, hempty, _⟩ := checkPath_ofText_eq_ok_iff.mp hcheck
  have hnext := follow_singleton_of_isEntryName hplace hname
  have hnameNull : '\x00' ∉ name.toList := fun hmem =>
    hname.noNull ((Text.ofNat_mem_encode_iff (show ('\x00').val.toNat < 128 by decide)).mpr hmem)
  obtain ⟨chars, hchars, hjoin⟩ := Path.toList_join hempty hslash
  refine resolve_eq_ok_iff.mpr ⟨checkPath_ofText_eq_ok_iff.mpr ⟨?_, ?_, hlength⟩, ?_⟩
  · have hfrontNull : '\x00' ∉ chars := by
      rcases hchars with hchars | hchars
      · exact fun hmem => hnull (hchars ▸ List.mem_append_left _ hmem)
      · exact hchars ▸ hnull
    rw [hjoin]
    simp [hfrontNull, hnameNull]
  · intro hnil
    rw [hnil] at hjoin
    simp at hjoin
  · have horigin : origin (Path.join base name) = origin base := by
      rw [origin, origin, Path.isAbsolute_join hempty hslash]
    obtain ⟨front, hfront, hnames⟩ := Path.names_join hempty hslash
    have hfollowed : store.follow (origin base) front = .ok place := by
      rw [followPath, Trail.names, List.append_nil] at hfollow
      rcases hfront with hfront | hfront
      · -- The empty name behind the slash stays in the directory.
        rw [hfront, follow_append] at hfollow
        obtain ⟨q, hq, hstay⟩ := Except.bind_eq_ok_iff.mp hfollow
        rw [hq, eq_of_follow_empty hstay]
      · rw [← hfront]
        exact hfollow
    rw [followPath, Trail.names, List.append_nil, horigin, hnames, follow_append, hfollowed]
    exact hnext

end Store

end PageLoads
