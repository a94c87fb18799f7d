import Mathlib
import PageLoads.Proofs.Json.Parsed
import PageLoads.Proofs.SummaryFile

namespace PageLoads

namespace SummaryDocument

variable {document initial : SummaryDocument} {entries given : List (String × Json)}

/-- A document with the given entries over those that were there initially: a key has the value of the last
entry given for it, else the initial one, and else none. -/
structure Overlays (document initial : SummaryDocument) (given : List (String × Json)) : Prop where
  ascending : KeyedList.Ascending document
  lookup_eq (key : String) : document.lookup key = (given.reverse.lookup key).or (initial.lookup key)

theorem overlays_merge (hasc : KeyedList.Ascending initial) (given : List (String × Json)) :
    (initial.merge given).Overlays initial given :=
  ⟨KeyedList.ascending_insertAll hasc, fun key => KeyedList.lookup_insertAll key initial given⟩

theorem merge_append (document : SummaryDocument) (first second : List (String × Json)) :
    document.merge (first ++ second) = (document.merge first).merge second :=
  List.foldl_append

/-- The levels to which the value of an entry can be nested, so that its document can still be read. -/
def entryDepth : Nat :=
  Json.depthLimit - 1

/-- A document of well-formed values, within the depth at which it can be read. -/
structure WellFormed (document : SummaryDocument) : Prop where
  ascending : KeyedList.Ascending document
  values : ∀ entry ∈ document, entry.2.WellFormed entryDepth

theorem wellFormed_nil : WellFormed [] :=
  ⟨KeyedList.ascending_nil, nofun⟩

theorem WellFormed.object (h : document.WellFormed) : (Json.object document).WellFormed Json.depthLimit :=
  .object h.ascending h.values

theorem wellFormed_of_object (h : (Json.object document).WellFormed Json.depthLimit) : document.WellFormed :=
  ⟨h.of_object.1, h.of_object.2⟩

theorem WellFormed.merge (h : document.WellFormed)
    (hentries : ∀ entry ∈ entries, entry.2.WellFormed entryDepth) : (document.merge entries).WellFormed := by
  refine ⟨KeyedList.ascending_insertAll h.ascending, fun entry hentry => ?_⟩
  rcases KeyedList.mem_insertAll hentry with hold | hnew
  · exact h.values entry hold
  · exact hentries entry hnew

/-- The document that is written for one: its doubles are rounded. -/
def stored (document : SummaryDocument) : SummaryDocument :=
  Json.roundedEntries document

theorem text_eq (document : SummaryDocument) :
    document.text = String.ofList (Json.pretty 0 (.object document.stored) ++ ['\n']) :=
  rfl

theorem ofText_of_object {text : String} (h : Json.parse? text = some (.object entries)) :
    ofText text = entries := by
  rw [ofText, h]

theorem ofText_of_forall_ne {text : String} (h : ∀ entries, Json.parse? text ≠ some (.object entries)) :
    ofText text = [] := by
  unfold ofText
  split
  case h_1 entries hparse => exact absurd hparse (h entries)
  case h_2 => rfl

theorem ofText_text (h : document.WellFormed)
    (hlegible : (Json.object document.stored).EachDouble Json.Legible) : ofText document.text = document.stored := by
  have hparse : Json.parse? document.text = some (.object document.stored) :=
    h.object.rounded.parse?_pretty hlegible
  exact ofText_of_object hparse

theorem stored_eq_self (h : document.WellFormed) (hfree : (Json.object document).DoubleFree) :
    document.stored = document :=
  Json.object.inj (h.object.rounded_eq_self hfree)

end SummaryDocument

namespace SummaryFile

open SummaryDocument (entryDepth)

variable {store after : Store} {path : String} {place : Place} {document initial : SummaryDocument}
  {entries : List (String × Json)}

/-- What stands where a summary belongs, if it is nothing or text, and the document it counts as: an object as
its entries, and anything else as no entries. -/
inductive CountsAs : Option Entry → SummaryDocument → Prop where
  | nothing : CountsAs none []
  | dangling : CountsAs (some .dangling) []
  | noObject {file : File} {text : String} (htext : Text.decode? file.stored = some text)
    (hparse : ∀ entries, Json.parse? text ≠ some (.object entries)) : CountsAs (some (.file file)) []
  | object {file : File} {text : String} {entries : SummaryDocument}
    (htext : Text.decode? file.stored = some text) (hparse : Json.parse? text = some (.object entries)) :
    CountsAs (some (.file file)) entries

theorem CountsAs.wellFormed {entry : Option Entry} (h : CountsAs entry document) : document.WellFormed := by
  cases h with
  | nothing | dangling | noObject => exact SummaryDocument.wellFormed_nil
  | object _ hparse => exact SummaryDocument.wellFormed_of_object (Json.wellFormed_of_parse? hparse)

theorem read_of_countsAs (hresolve : store.resolve path = .ok place)
    (h : CountsAs (store.get? place) document) : read store path = .ok document := by
  generalize hget : store.get? place = entry at h
  cases h with
  | nothing => exact read_of_missing hresolve (Or.inl hget)
  | dangling => exact read_of_missing hresolve (Or.inr hget)
  | noObject htext hparse =>
    rw [read_of_file hresolve hget, htext]
    exact congrArg Except.ok (SummaryDocument.ofText_of_forall_ne hparse)
  | object htext hparse =>
    rw [read_of_file hresolve hget, htext]
    exact congrArg Except.ok (SummaryDocument.ofText_of_object hparse)

def noText (path : String) : Failure :=
  (Failure.ofFault (.io .notText)).during (.readingSummary path)

theorem read_of_noText {file : File} (hresolve : store.resolve path = .ok place)
    (hget : store.get? place = some (.file file)) (hbytes : Text.decode? file.stored = none) :
    read store path = .error (noText path) := by
  rw [read_of_file hresolve hget, hbytes]
  rfl

theorem merge_of_read (hplace : store.writable path = .ok place) (hread : read store path = .ok document) :
    merge store path entries = .ok (store.set place (.ofText (document.merge entries).text)) :=
  merge_eq_ok_iff.mpr ⟨document, place, hread, hplace, rfl⟩

theorem merge_of_read_error {failure : Failure} (hread : read store path = .error failure) :
    merge store path entries = .error failure := by
  rw [merge, hread]
  rfl

/-- What has been written once can be written again. -/
theorem writable_set (hplace : store.writable path = .ok place) (text : String) :
    (store.set place (.ofText text)).writable path = .ok place :=
  Store.writable_of_sameDirectories (Store.sameDirectories_set hplace) hplace

theorem read_set_text (hplace : store.writable path = .ok place) (text : String) :
    read (store.set place (.ofText text)) path = .ok (SummaryDocument.ofText text) := by
  have hresolve := (Store.writable_eq_ok_iff.mp (writable_set hplace text)).1
  refine read_of_text hresolve ?_
  rw [Store.get?_set_of_writable hplace, if_pos rfl]

theorem read_set (hplace : store.writable path = .ok place) (h : document.WellFormed)
    (hlegible : (Json.object document.stored).EachDouble Json.Legible) :
    read (store.set place (.ofText document.text)) path = .ok document.stored := by
  rw [read_set_text hplace, SummaryDocument.ofText_text h hlegible]

def mergeAll (store : Store) (path : String) (calls : List (List (String × Json))) : Except Failure Store :=
  calls.foldlM (fun store entries => merge store path entries) store

/-- A path leads to a file that can be written and holds a document without doubles. -/
structure Holds (store : Store) (path : String) (place : Place) (document : SummaryDocument) : Prop where
  writable : store.writable path = .ok place
  read_eq : read store path = .ok document
  wellFormed : document.WellFormed
  doubleFree : (Json.object document).DoubleFree

theorem Holds.merge (h : Holds store path place document)
    (hentries : ∀ entry ∈ entries, entry.2.WellFormed entryDepth ∧ entry.2.DoubleFree) :
    ∃ after, SummaryFile.merge store path entries = .ok after ∧
      Holds after path place (document.merge entries) := by
  have hwellFormed := h.wellFormed.merge fun entry hentry => (hentries entry hentry).1
  have hfree : (Json.object (document.merge entries)).DoubleFree := by
    refine .object hwellFormed.ascending fun entry hentry => ?_
    rcases KeyedList.mem_insertAll hentry with hold | hnew
    · exact h.doubleFree.entry h.wellFormed.ascending entry hold
    · exact (hentries entry hnew).2
  have hstored := SummaryDocument.stored_eq_self hwellFormed hfree
  have hread := read_set h.writable hwellFormed (by
    rw [hstored]
    exact hfree.imp fun _ => False.elim)
  rw [hstored] at hread
  exact ⟨_, merge_of_read h.writable h.read_eq, writable_set h.writable _, hread, hwellFormed, hfree⟩

theorem Holds.mergeAll {calls : List (List (String × Json))} (h : Holds store path place document)
    (hcalls : ∀ entries ∈ calls, ∀ entry ∈ entries, entry.2.WellFormed entryDepth ∧ entry.2.DoubleFree) :
    ∃ after, SummaryFile.mergeAll store path calls = .ok after ∧
      Holds after path place (document.merge calls.flatten) := by
  induction calls generalizing store document with
  | nil => exact ⟨store, rfl, h⟩
  | cons entries calls ih =>
    obtain ⟨hentries, hrest⟩ := List.forall_mem_cons.mp hcalls
    obtain ⟨middle, hmerge, hmiddle⟩ := h.merge hentries
    obtain ⟨after, hmergeAll, hafter⟩ := ih hmiddle hrest
    refine ⟨after, ?_, ?_⟩
    · rw [SummaryFile.mergeAll, List.foldlM_cons, hmerge]
      exact hmergeAll
    · rwa [List.flatten_cons, SummaryDocument.merge_append]

theorem exists_mergeAll (hplace : store.writable path = .ok place)
    (hinitial : CountsAs (store.get? place) initial) (hfree : (Json.object initial).DoubleFree)
    {calls : List (List (String × Json))}
    (hcalls : ∀ entries ∈ calls, ∀ entry ∈ entries, entry.2.WellFormed entryDepth ∧ entry.2.DoubleFree) :
    ∃ (after : Store) (document : SummaryDocument), mergeAll store path calls = .ok after ∧
      read after path = .ok document ∧ document.Overlays initial calls.flatten := by
  have hread := read_of_countsAs (Store.writable_eq_ok_iff.mp hplace).1 hinitial
  have hholds : Holds store path place initial := ⟨hplace, hread, hinitial.wellFormed, hfree⟩
  obtain ⟨after, hmergeAll, hafter⟩ := hholds.mergeAll hcalls
  exact ⟨after, _, hmergeAll, hafter.read_eq, SummaryDocument.overlays_merge hinitial.wellFormed.ascending _⟩

theorem exists_merge (hplace : store.writable path = .ok place) (hinitial : CountsAs (store.get? place) initial)
    (hentries : ∀ entry ∈ entries, entry.2.WellFormed entryDepth) :
    ∃ (after : Store) (document stored : SummaryDocument), merge store path entries = .ok after ∧
      document.Overlays initial entries ∧ (Json.object stored).RoundedFrom (.object document) ∧
      after.get? place = some (.ofText (String.ofList (Json.pretty 0 (.object stored) ++ ['\n']))) ∧
      ((Json.object stored).EachDouble Json.Legible → read after path = .ok stored) := by
  have hread := read_of_countsAs (Store.writable_eq_ok_iff.mp hplace).1 hinitial
  have hwellFormed := hinitial.wellFormed
  refine ⟨_, initial.merge entries, (initial.merge entries).stored, merge_of_read hplace hread,
    SummaryDocument.overlays_merge hwellFormed.ascending entries, Json.roundedFrom_rounded (.object _), ?_,
    read_set hplace (hwellFormed.merge hentries)⟩
  rw [Store.get?_set_of_writable hplace, if_pos rfl, SummaryDocument.text_eq]

/-- Where a path lets a file be written, and nothing or text stands, calls add their entries: if there is no
double in the entries or in what was there, any number of calls leaves a file that is read as the document with
all entries over those that were there. One call, whatever the numbers, writes that document with its doubles
rounded to two decimals, at any depth, and nothing else changed; it is read back if these doubles are. Bytes that
are no text are neither read nor written over. -/
theorem merges_overlay (hplace : store.writable path = .ok place) :
    (∀ initial, CountsAs (store.get? place) initial →
      ((Json.object initial).DoubleFree → ∀ calls : List (List (String × Json)),
        (∀ entries ∈ calls, ∀ entry ∈ entries, entry.2.WellFormed entryDepth ∧ entry.2.DoubleFree) →
        ∃ (after : Store) (document : SummaryDocument), mergeAll store path calls = .ok after ∧
          read after path = .ok document ∧ document.Overlays initial calls.flatten) ∧
      ∀ entries : List (String × Json), (∀ entry ∈ entries, entry.2.WellFormed entryDepth) →
        ∃ (after : Store) (document stored : SummaryDocument), merge store path entries = .ok after ∧
          document.Overlays initial entries ∧ (Json.object stored).RoundedFrom (.object document) ∧
          after.get? place = some (.ofText (String.ofList (Json.pretty 0 (.object stored) ++ ['\n']))) ∧
          ((Json.object stored).EachDouble Json.Legible → read after path = .ok stored)) ∧
    ∀ file, store.get? place = some (.file file) → Text.decode? file.stored = none →
      read store path = .error (noText path) ∧ ∀ entries, merge store path entries = .error (noText path) := by
  refine ⟨fun initial hinitial => ⟨fun hfree calls hcalls => exists_mergeAll hplace hinitial hfree hcalls,
    fun entries hentries => exists_merge hplace hinitial hentries⟩, fun file hget hbytes => ?_⟩
  have hread := read_of_noText (Store.writable_eq_ok_iff.mp hplace).1 hget hbytes
  exact ⟨hread, fun entries => merge_of_read_error hread⟩

private def storeOfObject : Store :=
  Store.empty.set ["summary.json"] (.ofText "\x7b\"a\": 1, \"b\": 2\x7d")

/-- The double nearest to 1.23456. -/
private def unrounded : Binary64 :=
  ⟨0x3FF3BF0C7C6A2A78⟩

/-- The numbers in an array that was laid over two integers, each rounded where it stands. -/
private theorem nodes_ofRoundedFrom {document stored : SummaryDocument}
    (hoverlay : document.Overlays [("a", .integer 1), ("b", .integer 2)]
      [("c", .array [.double unrounded, .integer 7])])
    (hrounded : (Json.object stored).RoundedFrom (.object document)) :
    ((Json.object stored).at? [.entry "b"]).map Json.node = some (.integer 2) ∧
      ((Json.object stored).at? [.entry "c", .item 0]).map Json.node = some (.double ⟨0x3FF3AE147AE147AE⟩) ∧
      ((Json.object stored).at? [.entry "c", .item 1]).map Json.node = some (.integer 7) := by
  have hat (position : List Json.Step) (key : String) : (Json.object document).at? (.entry key :: position) =
      (document.lookup key).bind fun part => part.at? position := rfl
  have hb : (Json.object document).at? [.entry "b"] = some (.integer 2) := by
    rw [hat, hoverlay.lookup_eq]
    rfl
  have hc (index : Nat) : (Json.object document).at? [.entry "c", .item index] =
      (Json.array [.double unrounded, .integer 7]).at? [.item index] := by
    rw [hat, hoverlay.lookup_eq]
    rfl
  refine ⟨?_, ?_, ?_⟩
  · obtain ⟨node, hnode, hrounds⟩ := hrounded.exists_node hb
    cases hrounds with
    | same => exact hnode
  · obtain ⟨node, hnode, hrounds⟩ := hrounded.exists_node (hc 0)
    cases hrounds with
    | double hy =>
      rw [hnode, hy.eq (Json.isHundredths_hundredths unrounded)]
      decide +kernel
    | same hne => exact absurd rfl (hne unrounded)
  · obtain ⟨node, hnode, hrounds⟩ := hrounded.exists_node (hc 1)
    cases hrounds with
    | same => exact hnode

/-- Two calls without doubles, and one that has 1.23456 in an array and so stores 1.23 there. -/
theorem merges_overlay_ofTwoCalls :
    storeOfObject.writable "summary.json" = .ok ["summary.json"] ∧
    (∃ after document,
      mergeAll storeOfObject "summary.json" [[("a", .text "first"), ("c", .null)], [("a", .text "second")]] =
          .ok after ∧
        read after "summary.json" = .ok document ∧ document.lookup "a" = some (.text "second") ∧
        document.lookup "b" = some (.integer 2) ∧ document.lookup "c" = some .null ∧
        document.lookup "d" = none) ∧
    ∃ after stored,
      merge storeOfObject "summary.json" [("c", .array [.double unrounded, .integer 7])] = .ok after ∧
        after.get? ["summary.json"] =
          some (.ofText (String.ofList (Json.pretty 0 (.object stored) ++ ['\n']))) ∧
        ((Json.object stored).at? [.entry "b"]).map Json.node = some (.integer 2) ∧
        ((Json.object stored).at? [.entry "c", .item 0]).map Json.node = some (.double ⟨0x3FF3AE147AE147AE⟩) ∧
        ((Json.object stored).at? [.entry "c", .item 1]).map Json.node = some (.integer 7) := by
  have hplace : storeOfObject.writable "summary.json" = .ok ["summary.json"] := rfl
  have hinitial : CountsAs (storeOfObject.get? ["summary.json"]) [("a", .integer 1), ("b", .integer 2)] :=
    .object (Text.decode?_encode _) (by cbv)
  obtain ⟨hdoubleFree, hany⟩ := (merges_overlay hplace).1 _ hinitial
  refine ⟨hplace, ?_, ?_⟩
  · have hvalues : ∀ entry ∈ [("a", Json.integer 1), ("b", .integer 2)], entry.2.DoubleFree := by simp
    have hfree : (Json.object [("a", .integer 1), ("b", .integer 2)]).DoubleFree :=
      .object hinitial.wellFormed.ascending hvalues
    have hcalls : ∀ entries ∈ [[("a", Json.text "first"), ("c", .null)], [("a", .text "second")]],
        ∀ entry ∈ entries, entry.2.WellFormed entryDepth ∧ entry.2.DoubleFree := by
      simp only [List.forall_mem_cons, List.not_mem_nil, false_implies, implies_true, and_true,
        Json.doubleFree_text, Json.doubleFree_null]
      exact ⟨⟨.text _, .null⟩, .text _⟩
    obtain ⟨after, document, hmerge, hread, hoverlay⟩ := hdoubleFree hfree _ hcalls
    exact ⟨after, document, hmerge, hread, hoverlay.lookup_eq "a", hoverlay.lookup_eq "b",
      hoverlay.lookup_eq "c", hoverlay.lookup_eq "d"⟩
  · have hentry : (Json.array [.double unrounded, .integer 7]).WellFormed entryDepth := by
      refine .array fun item hitem => ?_
      simp only [List.mem_cons, List.not_mem_nil, or_false] at hitem
      rcases hitem with rfl | rfl
      · exact .double _
      · exact .integer (by decide) (by decide)
    obtain ⟨after, document, stored, hmerge, hoverlay, hrounded, hget, _⟩ :=
      hany [("c", .array [.double unrounded, .integer 7])] (by simpa using hentry)
    exact ⟨after, stored, hmerge, hget, nodes_ofRoundedFrom hoverlay hrounded⟩

private def storeOfByte : Store :=
  Store.empty.set ["summary.json"] (.file (.plain [0xFF]))

private def textOfGreatInteger : String :=
  "\x7b\"great\": 190000000000000000000\x7d"

private def storeOfGreatInteger : Store :=
  Store.empty.set ["summary.json"] (.ofText textOfGreatInteger)

/-- A byte that is no text is no JSON object either, but does not count as an empty document. An integer that no
64 bits hold is a double, and is rounded like one when another entry is added. -/
theorem merges_overlay_not_ofByte :
    (storeOfByte.writable "summary.json" = .ok ["summary.json"] ∧
      ¬ ∃ after document, mergeAll storeOfByte "summary.json" [[("x", .integer 1)]] = .ok after ∧
        read after "summary.json" = .ok document ∧ document.Overlays [] [("x", .integer 1)]) ∧
    storeOfGreatInteger.writable "summary.json" = .ok ["summary.json"] ∧
      ∃ initial, CountsAs (storeOfGreatInteger.get? ["summary.json"]) initial ∧
        ¬ ∃ after document, mergeAll storeOfGreatInteger "summary.json" [[("x", .integer 1)]] = .ok after ∧
          read after "summary.json" = .ok document ∧ document.Overlays initial [("x", .integer 1)] := by
  refine ⟨⟨rfl, ?_⟩, rfl, ?_⟩
  · rintro ⟨after, _, hmerge, _⟩
    have hget : storeOfByte.get? ["summary.json"] = some (.file (.plain [0xFF])) := rfl
    have hread : read storeOfByte "summary.json" = .error (noText "summary.json") := read_of_noText rfl hget rfl
    rw [mergeAll, List.foldlM_cons, merge_of_read_error hread] at hmerge
    cases hmerge
  · have hplace : storeOfGreatInteger.writable "summary.json" = .ok ["summary.json"] := rfl
    have hnode : (Json.parse? textOfGreatInteger).map Json.node = some (.object ["great"]) := by decide +kernel
    obtain ⟨initial, hparse⟩ : ∃ initial, Json.parse? textOfGreatInteger = some (.object initial) := by
      obtain ⟨value, hparse, hvalue⟩ := Option.map_eq_some_iff.mp hnode
      cases value with
      | object entries => exact ⟨entries, hparse⟩
      | _ => cases hvalue
    have hinitial : CountsAs (storeOfGreatInteger.get? ["summary.json"]) initial :=
      .object (Text.decode?_encode _) hparse
    refine ⟨initial, hinitial, ?_⟩
    rintro ⟨after, document, hmerge, hread, hoverlay⟩
    rw [mergeAll, List.foldlM_cons, merge_of_read hplace (read_of_countsAs rfl hinitial)] at hmerge
    obtain rfl := Except.ok.inj hmerge
    rw [read_set_text hplace, ← SummaryDocument.ofText_of_object hparse] at hread
    obtain rfl := Except.ok.inj hread
    have hlookup := congrArg (Option.map Json.node) (hoverlay.lookup_eq "great")
    rw [← SummaryDocument.ofText_of_object hparse] at hlookup
    exact absurd hlookup (by decide +kernel)

end SummaryFile

end PageLoads
