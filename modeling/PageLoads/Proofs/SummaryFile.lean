import PageLoads.Distribution
import PageLoads.Proofs.Json.RoundTrip
import PageLoads.Proofs.KeyedList
import PageLoads.Proofs.Store.Writes
import PageLoads.Proofs.Text.Utf8
import PageLoads.SummaryFile

namespace PageLoads

namespace Json

/-- No JSON text begins with a number sign. -/
theorem parse?_of_numberSign {text : String} {cs : List Char} (h : text.toList = '#' :: cs) :
    parse? text = none := by
  have hskip : skipSpace ('#' :: cs) = '#' :: cs := rfl
  rw [parse?, h, hskip, value?_eq_none (by decide)]

end Json

theorem Distribution.exists_toList_text {comments : List String} (h : comments ≠ []) (points : List Point) :
    ∃ cs, (text comments points).toList = '#' :: cs := by
  obtain ⟨comment, rest, rfl⟩ := List.exists_cons_of_ne_nil h
  have hmark : (toString "# ").toList = ['#', ' '] := rfl
  simp only [text, List.map_cons, String.join_cons, String.toList_append, hmark, List.cons_append]
  exact ⟨_, rfl⟩

namespace SummaryDocument

variable {document : SummaryDocument}

/-- A table in the place of a summary counts as an empty document. -/
theorem ofText_table {comments : List String} (h : comments ≠ []) (points : List Distribution.Point) :
    ofText (Distribution.text comments points) = [] := by
  obtain ⟨cs, hcs⟩ := Distribution.exists_toList_text h points
  rw [ofText, Json.parse?_of_numberSign hcs]

theorem merge_cons {key : String} {value : Json} {entries : List (String × Json)}
    (h : key ∉ entries.map Prod.fst) :
    document.merge ((key, value) :: entries) = KeyedList.insert key value (document.merge entries) :=
  KeyedList.insertAll_cons_of_not_mem h

end SummaryDocument

namespace SummaryFile

variable {store other after : Store} {path : String} {place : Place} {entries : List (String × Json)}

theorem merge_eq_ok_iff :
    merge store path entries = .ok after ↔
      ∃ document place, read store path = .ok document ∧ store.writable path = .ok place ∧
        store.set place (.ofText (document.merge entries).text) = after := by
  simp only [merge, write, Except.bind_eq_ok_iff, Except.mapError_eq_ok_iff, Store.write_eq_ok_iff]
  constructor
  · rintro ⟨document, hread, place, hplace, hset⟩
    exact ⟨document, place, hread, hplace, hset⟩
  · rintro ⟨document, place, hread, hplace, hset⟩
    exact ⟨document, hread, place, hplace, hset⟩

theorem read_eq_of_get?_eq (h : store.resolve path = .ok place) (h' : other.resolve path = .ok place)
    (hget : store.get? place = other.get? place) : read store path = read other path := by
  have hopen : store.openFile path = other.openFile path := by
    rw [Store.openFile_of_resolve h, Store.openFile_of_resolve h', hget]
  simp only [read, Store.openPlain, Store.openWith, hopen]

theorem read_of_missing (h : store.resolve path = .ok place)
    (hget : store.get? place = none ∨ store.get? place = some .dangling) : read store path = .ok [] := by
  have hopen : store.openPlain path = .error .notFound := by
    rw [Store.openPlain, Store.openWith, Store.openFile_of_resolve h]
    rcases hget with hget | hget <;> rw [hget] <;> rfl
  simp only [read, hopen, Except.bind]

theorem read_of_file {file : File} (h : store.resolve path = .ok place)
    (hget : store.get? place = some (.file file)) :
    read store path =
      match Text.decode? file.stored with
      | some text => .ok (SummaryDocument.ofText text)
      | none => .error ((Failure.ofFault (.io .notText)).during (.readingSummary path)) := by
  have hopen : store.openPlain path = .ok (.plain file.stored) := by
    rw [Store.openPlain, Store.openWith, Store.openFile_of_resolve h, hget]
    rfl
  have htext : textOf (.plain file.stored) =
      match Text.decode? file.stored with
      | some text => .ok text
      | none => .error .notText := by
    rw [textOf, Content.all_plain]
    rfl
  rw [read, hopen, Except.bind, htext]
  cases Text.decode? file.stored <;> rfl

theorem read_of_text {text : String} (h : store.resolve path = .ok place)
    (hget : store.get? place = some (.ofText text)) :
    read store path = .ok (SummaryDocument.ofText text) := by
  rw [read_of_file h hget, File.stored_plain, Text.decode?_encode]

end SummaryFile

end PageLoads
