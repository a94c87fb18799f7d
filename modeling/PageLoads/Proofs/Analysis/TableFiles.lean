import PageLoads.Proofs.Analysis.Steps
import PageLoads.Proofs.Distribution.TableText

namespace PageLoads

namespace Analysis

open PageLoads.Text (splitAt)
open PageLoads.Distribution (KeepsOff commentLinesOf linesOf printed read? rowOf)

variable {commandLine : String} {trials : List (String × Trial)}

/-- The texts that go into comments are of one line each. -/
structure OfOneLine (commandLine : String) (trials : List (String × Trial)) : Prop where
  commandLine : '\n' ∉ commandLine.toList
  path : ∀ entry ∈ trials, '\n' ∉ entry.1.toList
  release : ∀ entry ∈ trials, '\n' ∉ entry.2.run.release.toList
  description : ∀ entry ∈ trials, '\n' ∉ entry.2.description.toList
  completionTime : ∀ entry ∈ trials, '\n' ∉ entry.2.run.completionTime.toList

theorem toList_infoLine (path : String) (trial : Trial) :
    (infoLine path trial).toList = "[".toList ++ (path.toList ++ ("]: [".toList ++ (trial.run.release.toList ++
      ("] [".toList ++ (trial.description.toList ++ ("] [".toList ++ (trial.run.completionTime.toList ++
        "]".toList))))))) := by
  simp only [infoLine, String.toList_append, List.append_assoc, toString]

theorem OfOneLine.lineFeed_not_mem (h : OfOneLine commandLine trials) {line : String}
    (hline : line ∈ commentLines commandLine trials) : '\n' ∉ line.toList := by
  simp only [commentLines, infoLines, List.mem_cons, List.mem_map] at hline
  rcases hline with rfl | rfl | rfl | ⟨⟨path, trial⟩, hentry, rfl⟩
  · exact h.commandLine
  · decide
  · decide
  · rw [toList_infoLine]
    simp only [List.mem_append, not_or]
    exact ⟨by decide, h.path _ hentry, by decide, h.release _ hentry, by decide, h.description _ hentry, by decide,
      h.completionTime _ hentry, by decide⟩

theorem exists_table_of_mem_tableFiles {options : AnalysisOptions} {file : String × String}
    (h : file ∈ tableFiles options (commentLines commandLine trials) (summaryOf options trials)) :
    ∃ table ∈ (summaryOf options trials).tables options.drawing,
      file.1 = options.tablePath table.mode table.metric ∧
      (read? file.2 = some (table.points.map printed) ↔
        ∀ comment ∈ commentLines commandLine trials, KeepsOff comment) ∧
      linesOf file.2 = (commentLines commandLine trials).flatMap commentLinesOf ++ table.points.map rowOf := by
  obtain ⟨table, htable, rfl⟩ := mem_tableFiles_iff.mp h
  exact ⟨table, htable, rfl, Distribution.read?_text_iff _ _, Distribution.linesOf_text _ _⟩

/-- Who drops the comments of a table file gets its points, each number to six places, exactly if no comment has a
further line that does not begin like one. This is so for texts of one line each, and then the file is its comments and
one line for each point, in their order. -/
theorem tableFiles_read_iff (options : AnalysisOptions) (commandLine : String) (trials : List (String × Trial))
    (file : String × String)
    (hfile : file ∈ tableFiles options (commentLines commandLine trials) (summaryOf options trials)) :
    ∃ table ∈ (summaryOf options trials).tables options.drawing,
      file.1 = options.tablePath table.mode table.metric ∧
      (read? file.2 = some (table.points.map printed) ↔
        ∀ comment ∈ commentLines commandLine trials, KeepsOff comment) ∧
      (OfOneLine commandLine trials → read? file.2 = some (table.points.map printed) ∧
        linesOf file.2 = (commentLines commandLine trials).map (fun comment => "# ".toList ++ comment.toList) ++
          table.points.map rowOf) := by
  obtain ⟨table, htable, hpath, hread, hlines⟩ := exists_table_of_mem_tableFiles hfile
  refine ⟨table, htable, hpath, hread, fun hplain => ⟨?_, ?_⟩⟩
  · rw [hread]
    exact fun comment hcomment => Distribution.keepsOff_of_not_mem (hplain.lineFeed_not_mem hcomment)
  · rw [hlines, Distribution.flatMap_commentLinesOf]
    exact fun comment hcomment => hplain.lineFeed_not_mem hcomment

private def loadOfTwoSeconds : PageLoad where
  host := "webclient1"
  number := 1
  url := "a"
  mode := .tor
  outcome := .succeeded
  startSecond := 1800
  reportTime := Binary64.ofNat 1802
  loadMilliseconds := 2000
  firstByteMilliseconds := 500
  requests := 1
  succeededRequests := 1
  failedRequests := 0
  requestsAfterDom := 0
  forcedRequests := 0

private def trialDescribed (description : String) : Trial :=
  { Trial.empty ⟨"v1", "t0", "t1"⟩ description with loads := [loadOfTwoSeconds] }

theorem tableFiles_read_iff_ofTwoSeconds :
    let trials := [("r.bin.zst", trialDescribed "first run")]
    OfOneLine "cmd" trials ∧
    ∃ file ∈ tableFiles .inRoot (commentLines "cmd" trials) (summaryOf .inRoot trials),
      ∃ table ∈ (summaryOf .inRoot trials).tables AnalysisOptions.inRoot.drawing,
        read? file.2 = some (table.points.map printed) := by
  intro trials
  have hplain : OfOneLine "cmd" trials := by
    constructor <;> decide
  have hne : tableFiles .inRoot (commentLines "cmd" trials) (summaryOf .inRoot trials) ≠ [] := by
    decide +kernel
  obtain ⟨file, hfile⟩ := List.exists_mem_of_ne_nil _ hne
  obtain ⟨table, htable, _, _, hread⟩ := tableFiles_read_iff .inRoot "cmd" trials file hfile
  exact ⟨hplain, file, hfile, table, htable, (hread hplain).1⟩

/-- A description may put points into the tables that no page load has made. -/
theorem exists_tableFile_not_read :
    let trials := [("r.bin.zst", trialDescribed "first run\n9.000000    0.500000\nsecond run")]
    ∃ file ∈ tableFiles .inRoot (commentLines "cmd" trials) (summaryOf .inRoot trials),
      ∃ table ∈ (summaryOf .inRoot trials).tables AnalysisOptions.inRoot.drawing,
        file.1 = AnalysisOptions.inRoot.tablePath table.mode table.metric ∧
        read? file.2 ≠ some (table.points.map printed) := by
  intro trials
  have hne : tableFiles .inRoot (commentLines "cmd" trials) (summaryOf .inRoot trials) ≠ [] := by
    decide +kernel
  obtain ⟨file, hfile⟩ := List.exists_mem_of_ne_nil _ hne
  obtain ⟨table, htable, hpath, hread, _⟩ := exists_table_of_mem_tableFiles hfile
  refine ⟨file, hfile, table, htable, hpath, fun hpoints => ?_⟩
  have hkeeps := hread.mp hpoints _ (List.mem_cons_of_mem _ <| List.mem_cons_of_mem _ <|
    List.mem_cons_of_mem _ List.mem_cons_self)
  have hpoint := hkeeps "9.000000    0.500000".toList (by decide +kernel)
  exact absurd hpoint (by decide)

end Analysis

end PageLoads
