import PageLoads.Proofs.Store.Names

namespace PageLoads

namespace Path

open PageLoads.Text

def compressedName (path : String) : String :=
  s!"{path}.{compressedExtension}"

theorem compressedName_eq (path : String) : compressedName path = path ++ ".zst" := by
  refine String.toList_inj.mp ?_
  simp [compressedName, compressedExtension, toString]

@[simp] theorem utf8ByteSize_compressedName (path : String) :
    (compressedName path).utf8ByteSize = path.utf8ByteSize + 4 := by
  rw [compressedName_eq, String.utf8ByteSize_append]
  rfl

theorem isAbsolute_compressedName (path : String) : isAbsolute (compressedName path) = isAbsolute path := by
  unfold isAbsolute
  rw [compressedName_eq, String.toList_append]
  cases path.toList with
  | nil => decide
  | cons c rest => rfl

theorem join_compressedName (base path : String) :
    join base (compressedName path) = compressedName (join base path) := by
  refine String.toList_inj.mp ?_
  unfold join
  rw [isAbsolute_compressedName, compressedName_eq]
  split
  · simp [compressedName_eq]
  · split
    · simp [compressedName_eq]
    · simp [compressedName_eq]

theorem ofText_append (name : String) :
    Name.ofText (name ++ ".zst") = (Name.ofText name).compressed := by
  rw [Name.ofText, encode_append, ← Name.compressedEnding_eq]
  rfl

theorem exists_names_compressedName (path : String) :
    ∃ front last, names path = front ++ [last] ∧ names (compressedName path) = front ++ [Name.compressed last] := by
  have hending : '/' ∉ ".zst".toList := by decide
  obtain ⟨front, last, hpath, hmore⟩ := exists_splitAt_append hending path.toList
  refine ⟨front.map fun name => Name.ofText (String.ofList name), Name.ofText (String.ofList last),
    by simp [names, hpath], ?_⟩
  rw [names, compressedName_eq, String.toList_append, hmore, List.map_append, List.map_singleton,
    String.ofList_append, String.ofList_toList, ofText_append]

variable {base name : String}

theorem isAbsolute_of_not_mem (hname : '/' ∉ name.toList) : isAbsolute name = false :=
  decide_eq_false fun hhead => hname (List.mem_of_mem_head? hhead)

theorem toList_join (hbase : base ≠ "") (hname : '/' ∉ name.toList) :
    ∃ front, (base.toList = front ++ ['/'] ∨ base.toList = front) ∧
      (join base name).toList = front ++ '/' :: name.toList := by
  unfold join
  rw [if_neg (by simp [isAbsolute_of_not_mem hname, hbase])]
  split
  · rename_i hlast
    obtain ⟨front, hfront⟩ := List.getLast?_eq_some_iff.mp hlast
    exact ⟨front, .inl hfront, by simp [hfront]⟩
  · exact ⟨base.toList, .inr rfl, by simp⟩

/-- Joining puts at most a slash between a path and a name. -/
theorem utf8ByteSize_join (hbase : base ≠ "") (hname : '/' ∉ name.toList) :
    base.utf8ByteSize + name.utf8ByteSize ≤ (join base name).utf8ByteSize ∧
      (join base name).utf8ByteSize ≤ base.utf8ByteSize + name.utf8ByteSize + 1 := by
  have hslash : "/".utf8ByteSize = 1 := by decide
  unfold join
  rw [if_neg (by simp [isAbsolute_of_not_mem hname, hbase])]
  split
  · rw [String.utf8ByteSize_append]
    omega
  · rw [String.utf8ByteSize_append, String.utf8ByteSize_append, hslash]
    omega

theorem isAbsolute_join (hbase : base ≠ "") (hname : '/' ∉ name.toList) :
    isAbsolute (join base name) = isAbsolute base := by
  obtain ⟨front, hfront, hjoin⟩ := toList_join hbase hname
  unfold isAbsolute
  rw [hjoin]
  rcases hfront with hfront | hfront
  · rw [hfront]
    cases front <;> rfl
  · rw [hfront]
    cases front with
    | nil => exact absurd (String.toList_eq_nil_iff.mp hfront) hbase
    | cons c rest => rfl

/-- Joining puts a name behind those of a path, in place of the empty one behind a slash at the end. -/
theorem names_join (hbase : base ≠ "") (hname : '/' ∉ name.toList) :
    ∃ front : List Name, (names base = front ++ [Name.ofText ""] ∨ names base = front) ∧
      names (join base name) = front ++ [Name.ofText name] := by
  obtain ⟨front, hfront, hjoin⟩ := toList_join hbase hname
  refine ⟨(splitAt '/' front).map fun name => Name.ofText (String.ofList name), ?_, ?_⟩
  · rcases hfront with hfront | hfront
    · left
      rw [names, hfront, splitAt_append_separator]
      simp [splitAt]
    · right
      rw [names, hfront]
  · rw [names, hjoin, splitAt_append_separator, splitAt_of_not_mem hname]
    simp

end Path

namespace Trail

variable {path : Trail} {last : Name} {front : List Name}

@[simp] theorem names_child (path : Trail) (name : Name) : (path.child name).names = path.names ++ [name] := by
  simp [names, child]

@[simp] theorem bytes_child (path : Trail) (name : Name) :
    (path.child name).bytes = joinBytes path.bytes name := by
  simp [bytes, child]

theorem namesCompressed_eq (h : path.names = front ++ [last]) (hlast : last.LeadsOn) :
    Path.namesCompressed path = decide (last.extension? = some (Text.encode Path.compressedExtension)) := by
  have hsteps : (path.names.filter fun name => !name.staysHere).getLast? = some last := by
    rw [h, List.filter_append, List.filter_cons_of_pos (by simp [hlast.1])]
    simp
  rw [Path.namesCompressed, extension?, fileName?, hsteps, Option.filter_some, if_pos (by simp [hlast.2])]
  rfl

def compressed (path : Trail) : Trail :=
  match path.found.getLast? with
  | some name => { path with found := path.found.dropLast ++ [name.compressed] }
  | none => Path.compressedName path.text

@[simp] theorem compressed_child (path : Trail) (name : Name) :
    (path.child name).compressed = path.child name.compressed := by
  simp [compressed, child]

@[simp] theorem compressed_ofText (path : String) : compressed path = Path.compressedName path := rfl

theorem eq_ofText_or_child (path : Trail) : (∃ text : String, path = text) ∨ ∃ base name, path = child base name := by
  obtain ⟨text, found⟩ := path
  rcases List.eq_nil_or_concat' found with rfl | ⟨front, last, rfl⟩
  · exact .inl ⟨text, rfl⟩
  · exact .inr ⟨⟨text, front⟩, last, rfl⟩

theorem exists_names_compressed (path : Trail) :
    ∃ front last, path.names = front ++ [last] ∧ path.compressed.names = front ++ [last.compressed] := by
  obtain ⟨text, rfl⟩ | ⟨base, name, rfl⟩ := path.eq_ofText_or_child
  · simpa [names] using Path.exists_names_compressedName text
  · exact ⟨base.names, name, by simp, by simp⟩

theorem bytes_compressed (path : Trail) : path.compressed.bytes = path.bytes ++ Name.compressedEnding := by
  obtain ⟨text, rfl⟩ | ⟨base, name, rfl⟩ := path.eq_ofText_or_child
  · rw [compressed_ofText, Path.compressedName_eq, Name.compressedEnding_eq]
    exact Text.encode_append text ".zst"
  · rw [compressed_child, bytes_child, bytes_child]
    unfold joinBytes
    split <;> simp [Name.compressed]

theorem isAbsolute_compressed (path : Trail) :
    Path.isAbsolute path.compressed.text = Path.isAbsolute path.text := by
  obtain ⟨text, rfl⟩ | ⟨base, name, rfl⟩ := path.eq_ofText_or_child
  · exact Path.isAbsolute_compressedName text
  · rw [compressed_child]
    rfl

end Trail

end PageLoads
