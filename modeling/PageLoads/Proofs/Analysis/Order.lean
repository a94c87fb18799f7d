import Mathlib
import PageLoads.Proofs.Analysis.Steps
import PageLoads.Proofs.Summary.Conservation
import PageLoads.Proofs.Traffic.TrialTotals

/-!
# The order of trials

An analysis finds the same in the same trials, in whatever order it is given them, and writes the same tables
and the same summary document. Only what describes the result files one by one follows their order: the lines
about them, and the comments made of these.
-/

namespace PageLoads.Analysis

variable {store other after : Store} {options : AnalysisOptions} {commandLine : String}
  {comments others : List String} {trials reordered : List (String × Trial)} {tables : List Table}
  {found : Option (Counters × Counters)}

theorem summaryOf_of_perm (h : trials.Perm reordered) : summaryOf options trials = summaryOf options reordered :=
  LoadSummary.ofLoads_of_perm (h.flatMap_right _)

theorem totals_of_perm (hperm : trials.Perm reordered) (h : totals options trials = .ok found) :
    totals options reordered = .ok found := by
  unfold totals at h ⊢
  split at h
  · rename_i hloadsOnly
    rw [if_pos hloadsOnly, h]
  · rename_i hloadsOnly
    rw [if_neg hloadsOnly]
    cases htotals : Traffic.trialTotals options.selection.startAfter trials with
    | error failure =>
      rw [htotals] at h
      cases h
    | ok sums =>
      rw [Traffic.trialTotals_of_perm hperm htotals, ← htotals]
      exact h

theorem infoLines_of_perm (h : trials.Perm reordered) : (infoLines trials).Perm (infoLines reordered) :=
  (h.map _).cons _

def commentEntry (comments : List String) : String × Json :=
  ("comment", .text ("\n".intercalate comments))

theorem exists_entries_of_entries {summary : LoadSummary} {added : List (String × Json)}
    (h : entries comments summary found = .ok added) (others : List String) :
    ∃ rest, added = commentEntry comments :: rest ∧ "comment" ∉ rest.map Prod.fst ∧
      entries others summary found = .ok (commentEntry others :: rest) := by
  have hcounts : "comment" ∉ summary.entries.map Prod.fst := by
    simp [LoadSummary.entries]
  rcases found with _ | ⟨clients, handlers⟩
  · obtain rfl := Except.ok.inj h
    exact ⟨summary.entries, rfl, hcounts, rfl⟩
  · obtain ⟨ofTotals, htotals, h⟩ := Except.bind_eq_ok_iff.mp h
    obtain rfl := Except.ok.inj h
    have hkeys : "comment" ∉ ofTotals.map Prod.fst := by
      obtain ⟨_, _, htotals⟩ := Except.bind_eq_ok_iff.mp htotals
      obtain ⟨_, _, htotals⟩ := Except.bind_eq_ok_iff.mp htotals
      obtain rfl := Except.ok.inj htotals
      simp
    refine ⟨summary.entries ++ ofTotals, rfl, ?_, ?_⟩
    · rw [List.map_append, List.mem_append, not_or]
      exact ⟨hcounts, hkeys⟩
    · rw [entries, htotals]
      rfl

/-- What stands at a place after two analyses while they write tables: the same, or the same table, each with
comments of its own. -/
inductive SameTable (comments others : List String) (tables : List Table) : Option Entry → Option Entry → Prop
  | same (entry : Option Entry) : SameTable comments others tables entry entry
  | table {table : Table} (h : table ∈ tables) :
    SameTable comments others tables (some (.ofText (Distribution.text comments table.points)))
      (some (.ofText (Distribution.text others table.points)))

/-- What stands at a place after two analyses: the same, the same table, or documents with the same entries,
but for the comments. -/
inductive SameButForComments (comments others : List String) (tables : List Table) :
    Option Entry → Option Entry → Prop
  | table {entry entry' : Option Entry} (h : SameTable comments others tables entry entry') :
    SameButForComments comments others tables entry entry'
  | summary (document : SummaryDocument) :
    SameButForComments comments others tables
      (some (.ofText (document.merge [commentEntry comments]).text))
      (some (.ofText (document.merge [commentEntry others]).text))

/-- The stores of two analyses while they write tables. -/
def Alike (comments others : List String) (tables : List Table) (store other : Store) : Prop :=
  ∀ place, SameTable comments others tables (store.get? place) (other.get? place)

namespace Alike

theorem refl (store : Store) : Alike comments others tables store store :=
  fun place => .same (store.get? place)

theorem sameDirectories (h : Alike comments others tables store other) : Store.SameDirectories store other := by
  have hentry {entry entry' : Option Entry} (h : SameTable comments others tables entry entry') :
      entry = some .directory ↔ entry' = some .directory := by
    cases h with
    | same entry => exact Iff.rfl
    | table h => simp [Entry.ofText]
  exact fun place => hentry (h place)

/-- The step: a table that is written in both stores leaves them alike. -/
theorem set {path : String} {place : Place} {table : Table} (halike : Alike comments others tables store other)
    (hplace : store.writable path = .ok place) (htable : table ∈ tables) :
    Alike comments others tables (store.set place (.ofText (Distribution.text comments table.points)))
      (other.set place (.ofText (Distribution.text others table.points))) := by
  intro q
  rw [Store.get?_set_of_writable hplace,
    Store.get?_set_of_writable (Store.writable_of_sameDirectories halike.sameDirectories hplace)]
  by_cases hq : q = place
  · rw [if_pos hq, if_pos hq]
    exact .table htable
  · rw [if_neg hq, if_neg hq]
    exact halike q

theorem exists_writeTables {written : List Table} (hwritten : ∀ table ∈ written, table ∈ tables)
    (halike : Alike comments others tables store other)
    (h : writeTables store (written.map fun table =>
      (options.tablePath table.mode table.metric, Distribution.text comments table.points)) = (after, .ok ())) :
    ∃ after', writeTables other (written.map fun table =>
        (options.tablePath table.mode table.metric, Distribution.text others table.points)) = (after', .ok ()) ∧
      Alike comments others tables after after' := by
  induction written generalizing store other with
  | nil =>
    obtain ⟨rfl, _⟩ := Prod.mk.inj h
    exact ⟨other, rfl, halike⟩
  | cons table rest ih =>
    rw [List.map_cons] at h ⊢
    rcases writeTables_cons_cases h with ⟨_, failure, hfailure⟩ | ⟨place, hplace, hrest⟩
    · cases hfailure
    · have hplace' := Store.writable_of_sameDirectories halike.sameDirectories hplace
      rw [writeTables_cons_of_writable hplace']
      exact ih (fun table htable => hwritten table (List.mem_cons_of_mem _ htable))
        (halike.set hplace (hwritten table List.mem_cons_self)) hrest

/-- The same document is read at a path in both stores, because a table in its place is none. -/
theorem read_eq {path : String} {place : Place} (hcomments : comments ≠ []) (hothers : others ≠ [])
    (halike : Alike comments others tables store other) (h : store.resolve path = .ok place) :
    SummaryFile.read other path = SummaryFile.read store path := by
  have h' := Store.resolve_of_sameDirectories halike.sameDirectories h
  have hplace := halike place
  generalize hentry : store.get? place = entry at hplace
  generalize hentry' : other.get? place = entry' at hplace
  cases hplace with
  | same entry => exact SummaryFile.read_eq_of_get?_eq h' h (hentry'.trans hentry.symm)
  | table htable =>
    rw [SummaryFile.read_of_text h hentry, SummaryFile.read_of_text h' hentry',
      SummaryDocument.ofText_table hcomments, SummaryDocument.ofText_table hothers]

/-- Findings that can be added to the summary in one store can be added in the other, and the documents are
the same but for the comments. -/
theorem exists_conclude {summary : LoadSummary} (hcomments : comments ≠ []) (hothers : others ≠ [])
    (hperm : trials.Perm reordered) (halike : Alike comments others tables store other)
    (h : conclude store options comments summary trials = .ok (after, found)) :
    ∃ after', conclude other options others summary reordered = .ok (after', found) ∧
      ∀ place, SameButForComments comments others tables (after.get? place) (after'.get? place) := by
  obtain ⟨htotals, added, hadded, hmerge⟩ := conclude_eq_ok_iff.mp h
  obtain ⟨rest, rfl, hkeys, hadded'⟩ := exists_entries_of_entries hadded others
  obtain ⟨document, place, hread, hplace, rfl⟩ := SummaryFile.merge_eq_ok_iff.mp hmerge
  obtain ⟨hresolve, _⟩ := Store.writable_eq_ok_iff.mp hplace
  have hplace' := Store.writable_of_sameDirectories halike.sameDirectories hplace
  rw [← halike.read_eq hcomments hothers hresolve] at hread
  -- Both documents start from the one that is read, and their comments can as well be put in last.
  refine ⟨_, conclude_eq_ok_iff.mpr ⟨totals_of_perm hperm htotals, _, hadded',
    SummaryFile.merge_eq_ok_iff.mpr ⟨document, place, hread, hplace', rfl⟩⟩, fun q => ?_⟩
  rw [Store.get?_set_of_writable hplace, Store.get?_set_of_writable hplace']
  by_cases hq : q = place
  · rw [if_pos hq, if_pos hq, commentEntry, commentEntry, SummaryDocument.merge_cons hkeys,
      SummaryDocument.merge_cons hkeys]
    exact .summary (document.merge rest)
  · rw [if_neg hq, if_neg hq]
    exact .table (halike q)

end Alike

/-- An analysis that succeeds on trials succeeds on the same trials in any other order. It finds the same, but
that its lines about the files follow their order, and it leaves the same at every place, but for the comments
of tables and of the summary document, which hold these lines. Nothing is asked of the options, and the path of
the summary may be that of a table. -/
theorem ofTrials_of_perm (hperm : trials.Perm reordered) {findings : Findings}
    (h : ofTrials store options commandLine trials = (after, .ok findings)) :
    findings.infoLines = infoLines trials ∧ (infoLines trials).Perm (infoLines reordered) ∧
    ∃ after', ofTrials store options commandLine reordered =
        (after', .ok { findings with infoLines := infoLines reordered }) ∧
      ∀ place, SameButForComments (commentLines commandLine trials) (commentLines commandLine reordered)
        ((summaryOf options trials).tables options.drawing) (after.get? place) (after'.get? place) := by
  cases hinfo : options.infoOnly with
  | true =>
    rw [ofTrials_of_infoOnly hinfo] at h ⊢
    obtain ⟨rfl, hfindings⟩ := Prod.mk.inj h
    obtain rfl := Except.ok.inj hfindings
    exact ⟨rfl, infoLines_of_perm hperm, store, rfl, fun place => .table (.same (store.get? place))⟩
  | false =>
    obtain ⟨middle, written, hwrite, ⟨_, failure, hfailure⟩ | ⟨rfl, found, hconclude, hfindings⟩⟩ :=
      ofTrials_cases hinfo h
    · cases hfailure
    · obtain rfl := Except.ok.inj hfindings
      have hcomments (trials : List (String × Trial)) : commentLines commandLine trials ≠ [] :=
        List.cons_ne_nil _ _
      have hsummary : summaryOf options reordered = summaryOf options trials := (summaryOf_of_perm hperm).symm
      have hstore : Alike (commentLines commandLine trials) (commentLines commandLine reordered)
          ((summaryOf options trials).tables options.drawing) store store := .refl store
      obtain ⟨middle', hwrite', hmiddle⟩ := hstore.exists_writeTables (fun table htable => htable) hwrite
      obtain ⟨after', hconclude', hafter⟩ :=
        hmiddle.exists_conclude (hcomments trials) (hcomments reordered) hperm hconclude
      refine ⟨rfl, infoLines_of_perm hperm, after', ?_, hafter⟩
      rw [← hsummary] at hwrite' hconclude'
      rw [ofTrials_of_conclude hinfo hwrite' hconclude']
      simp only [findingsOf, hsummary]

/-- A trial of one client, which loads a page in the given time and twice reports its traffic late enough, and of
one handler. -/
private def trialOfLoad (host description : String) (milliseconds sent : UInt64) : Trial where
  run := ⟨"v1", "t0", "t1"⟩
  description
  loads := [⟨host, 1, "http://a/", .tor, .succeeded, 100, Binary64.ofNat 110, milliseconds, 500, 5, 5, 0, 0, 0⟩]
  running := [(host, [⟨Binary64.ofNat 90, ⟨10, 9, 8, 7, 6, 5, 4⟩⟩,
    ⟨Binary64.ofNat 120, ⟨10 + sent, 9 + sent, 8, 7 + sent, 6 + sent, 5, 4⟩⟩])]
  handlers := [⟨Binary64.ofNat 130, ⟨sent, sent, 0, sent, sent, 0, 0⟩⟩]
  ascending := List.pairwise_singleton _ _

private def drawnInSeconds : AnalysisOptions :=
  { AnalysisOptions.inRoot with drawing := ⟨⟨0x3F50624DD2F1A9FC⟩, ⟨0x3F50624DD2F1A9FC⟩, .zero, .zero⟩ }

private theorem tables_ofTwoTrials :
    (summaryOf drawnInSeconds [("a.zst", trialOfLoad "webclient1" "first" 1000 100),
        ("b.zst", trialOfLoad "webclient2" "second" 3000 200)]).tables drawnInSeconds.drawing =
      [⟨.tor, .loadTime, [(⟨0x3FF0000000000000⟩, ⟨0x3FE0000000000000⟩), (⟨0x4008000000000000⟩, ⟨0x3FF0000000000000⟩)]⟩,
        ⟨.tor, .firstByte, [(⟨0x3FE0000000000000⟩, ⟨0x3FE0000000000000⟩),
          (⟨0x3FE0000000000000⟩, ⟨0x3FF0000000000000⟩)]⟩] := by
  generalize htrials : [("a.zst", trialOfLoad "webclient1" "first" 1000 100),
    ("b.zst", trialOfLoad "webclient2" "second" 3000 200)] = trials
  have hselected : summaryOf drawnInSeconds trials =
      LoadSummary.ofSelected drawnInSeconds.drawing (drawnInSeconds.selection.apply (loadsOf trials)) :=
    LoadSummary.ofLoads_eq _ _ _
  have hmodes : (ProxyMode.all.filter fun mode =>
      (mode.loadsOf (drawnInSeconds.selection.apply (loadsOf trials))).any PageLoad.succeeded) = [.tor] := by
    subst htrials
    decide
  have hsamples (metric : Metric) : (summaryOf drawnInSeconds trials).samplesIn .tor metric =
      metric.samplesOf drawnInSeconds.drawing
        (ProxyMode.tor.loadsOf (drawnInSeconds.selection.apply (loadsOf trials))) := by
    subst htrials
    rw [hselected, LoadSummary.samplesIn, LoadSummary.get?_modes_ofSelected, ModeSummary.ofMode?_eq,
      if_neg (by decide), Option.map_some, Option.getD_some, LoadSummary.samples_ofLoads]
    cases metric
    · exact List.mergeSort_of_pairwise (by decide +kernel)
    · exact List.mergeSort_of_pairwise (by decide +kernel)
  have htables : (summaryOf drawnInSeconds trials).tables drawnInSeconds.drawing =
      LoadSummary.tablesOf drawnInSeconds.drawing (summaryOf drawnInSeconds trials)
        (drawnInSeconds.selection.apply (loadsOf trials)) := LoadSummary.tables_ofLoads _ _ _ _
  rw [htables, LoadSummary.tablesOf, hmodes, List.flatMap_singleton, Metric.all, List.map_cons,
    List.map_singleton, hsamples, hsamples]
  subst htrials
  decide +kernel

/-- Two trials of a client that loads a page, in one second and in three, in two orders. -/
theorem ofTrials_of_perm_ofTwoTrials :
    let one : Binary64 := ⟨0x3FF0000000000000⟩
    let three : Binary64 := ⟨0x4008000000000000⟩
    let half : Binary64 := ⟨0x3FE0000000000000⟩
    let trials := [("a.zst", trialOfLoad "webclient1" "first" 1000 100),
      ("b.zst", trialOfLoad "webclient2" "second" 3000 200)]
    let tables := (summaryOf drawnInSeconds trials).tables drawnInSeconds.drawing
    let comments := commentLines "analyze" trials
    let others := commentLines "analyze" trials.reverse
    trials.Perm trials.reverse ∧ comments ≠ others ∧
      tables = [⟨.tor, .loadTime, [(one, half), (three, one)]⟩, ⟨.tor, .firstByte, [(half, half), (half, one)]⟩] ∧
      ∃ after after' findings, ofTrials .empty drawnInSeconds "analyze" trials = (after, .ok findings) ∧
        ofTrials .empty drawnInSeconds "analyze" trials.reverse =
          (after', .ok { findings with infoLines := infoLines trials.reverse }) ∧
        findings.totals = some (⟨300, 300, 0, 300, 300, 0, 0⟩, ⟨300, 300, 0, 300, 300, 0, 0⟩) ∧
        findings.tablePaths = ["./web-tor-plt.cdf", "./web-tor-ttfb.cdf"] ∧
        SameButForComments comments others tables
          (after.get? ["web-tor-plt.cdf"]) (after'.get? ["web-tor-plt.cdf"]) := by
  intro one three half trials tables comments others
  have hperm : trials.Perm trials.reverse := (List.reverse_perm trials).symm
  have htables := tables_ofTwoTrials
  have hfiles : tableFiles drawnInSeconds comments (summaryOf drawnInSeconds trials) =
      [("./web-tor-plt.cdf", Distribution.text comments [(one, half), (three, one)]),
        ("./web-tor-ttfb.cdf", Distribution.text comments [(half, half), (half, one)])] := by
    rw [tableFiles, show (summaryOf drawnInSeconds trials).tables drawnInSeconds.drawing = _ from htables]
    decide +kernel
  have hwrites (loadTimes firstBytes : String) :
      writeTables .empty [("./web-tor-plt.cdf", loadTimes), ("./web-tor-ttfb.cdf", firstBytes)] =
        ((Store.empty.set ["web-tor-plt.cdf"] (.ofText loadTimes)).set ["web-tor-ttfb.cdf"] (.ofText firstBytes),
          .ok ()) := rfl
  have htotals : totals drawnInSeconds trials =
      .ok (some (⟨300, 300, 0, 300, 300, 0, 0⟩, ⟨300, 300, 0, 300, 300, 0, 0⟩)) := by decide +kernel
  have hentries : ∃ added, entries comments (summaryOf drawnInSeconds trials)
      (some (⟨300, 300, 0, 300, 300, 0, 0⟩, ⟨300, 300, 0, 300, 300, 0, 0⟩)) = .ok added := ⟨_, rfl⟩
  obtain ⟨added, hentries⟩ := hentries
  have hmerge (loadTimes firstBytes : String) : ∃ after, SummaryFile.merge
      ((Store.empty.set ["web-tor-plt.cdf"] (.ofText loadTimes)).set ["web-tor-ttfb.cdf"] (.ofText firstBytes))
      "summary.json" added = .ok after := ⟨_, rfl⟩
  obtain ⟨after, hmerge⟩ := hmerge _ _
  have hwrite := (congrArg (writeTables .empty) hfiles).trans (hwrites _ _)
  have hrun := ofTrials_of_conclude rfl hwrite (conclude_eq_ok_iff.mpr ⟨htotals, added, hentries, hmerge⟩)
  obtain ⟨_, _, after', hrun', hsame⟩ := ofTrials_of_perm hperm hrun
  refine ⟨hperm, by decide, htables, after, after', _, hrun, hrun', rfl, ?_, hsame _⟩
  rw [findingsOf, show (summaryOf drawnInSeconds trials).tables drawnInSeconds.drawing = _ from htables]
  decide +kernel

end PageLoads.Analysis
