import PageLoads.Proofs.Line.WrittenBanner
import PageLoads.Proofs.Log.SimulatorLog

namespace PageLoads.SimulatorLog

open PageLoads.Text
open PageLoads.Line

/-- The texts of a run can be written in banners. What is trimmed at the end of a line does not belong to the release
or the completion time. -/
structure Writable (run : Run) : Prop where
  release : FreeText ["shut down cleanly", "initialized at ", "_free] Shadow"] run.release.toList
  release_last : ∀ c ∈ run.release.toList.getLast?, isBlank c = false
  startTime : FreeText [" using", "_free] Shadow"] run.startTime.toList
  completionTime : FreeText [] run.completionTime.toList
  completionTime_last : ∀ c ∈ run.completionTime.toList.getLast?, isBlank c = false

def startupLine (stamp : SimulatorStamp) (run : Run) : String :=
  String.ofList (stamp.line (startupWords run.release.toList))

def initLine (stamp : SimulatorStamp) (run : Run) (more : List Char) : String :=
  String.ofList (stamp.line (initWords run.startTime.toList more))

/-- The line of a shutdown banner that is written by some part of the simulator. -/
def shutdownLine (stamp : SimulatorStamp) (run : Run) (part : String) : String :=
  String.ofList (stamp.line (shutdownWords part run.release.toList run.completionTime.toList))

variable {stamp : SimulatorStamp} {run : Run} {words back more : List Char}

theorem isBlank_of_isTimeChar {c : Char} (h : isTimeChar c) : isBlank c = false := by
  simp only [isTimeChar, Bool.or_eq_true, decide_eq_true_eq] at h
  rcases h with (hdigit | rfl) | rfl
  · exact isBlank_of_isAsciiDigit hdigit
  · decide
  · decide

theorem trim_line (h : stamp.WellFormed) (hback : back <:+ words) (hne : back ≠ [])
    (hlast : ∀ c ∈ back.getLast?, isBlank c = false) : trim (stamp.line words) = stamp.line words := by
  refine trim_eq_self ?_ ?_
  · obtain ⟨c, time, htime⟩ := List.exists_cons_of_ne_nil h.time_ne_nil
    have hhead : (stamp.line words).head? = some c := by
      rw [SimulatorStamp.line, SimulatorStamp.head, htime]
      rfl
    rw [hhead]
    rintro _ ⟨⟩
    exact isBlank_of_isTimeChar (h.time_chars c (by simp [htime]))
  · obtain ⟨front, rfl⟩ := hback
    have hend : (stamp.line (front ++ back)).getLast? = back.getLast? := by
      have hline : stamp.line (front ++ back) =
          stamp.head ++ simulatorOrigin.toList ++ stamp.location ++ front ++ back := by
        simp only [SimulatorStamp.line, SimulatorStamp.message, List.append_assoc]
      rw [hline, List.getLast?_append_of_ne_nil _ hne]
    rwa [hend]

theorem banner?_startupLine (h : stamp.WellFormed) (hrun : Writable run) :
    banner? (startupLine stamp run) = some (.startup run.release) := by
  have htrim : trim (stamp.line (startupWords run.release.toList)) = stamp.line (startupWords run.release.toList) :=
    trim_line h (List.suffix_append _ _) hrun.release.ne_nil hrun.release_last
  rw [banner?, startupLine, String.toList_ofList, htrim, h.ofLine?_startupWords hrun.release, String.ofList_toList]

theorem banner?_shutdownLine (h : stamp.WellFormed) (hrun : Writable run) {part : String}
    (hpart : part ∈ freeingParts) :
    banner? (shutdownLine stamp run part) = some (.shutdown run.release run.completionTime) := by
  have hback : run.completionTime.toList <:+
      shutdownWords part run.release.toList run.completionTime.toList :=
    List.suffix_append_of_suffix <| List.suffix_append_of_suffix <| List.suffix_append_of_suffix <|
      List.suffix_append _ _
  have htrim : trim (stamp.line (shutdownWords part run.release.toList run.completionTime.toList)) =
      stamp.line (shutdownWords part run.release.toList run.completionTime.toList) :=
    trim_line h hback hrun.completionTime.ne_nil hrun.completionTime_last
  rw [banner?, shutdownLine, String.toList_ofList, htrim,
    h.ofLine?_shutdownWords hpart hrun.release hrun.completionTime, String.ofList_toList, String.ofList_toList]

theorem exists_trim_initWords (h : stamp.WellFormed) (startTime more : List Char) :
    ∃ kept, kept <+: more ∧ trim (stamp.line (initWords startTime more)) = stamp.line (initWords startTime kept) := by
  obtain ⟨kept, blanks, rfl, hblanks, hlast⟩ := exists_eq_append_blanks more
  have hback : " using".toList ++ kept <:+ initWords startTime kept :=
    List.suffix_append_of_suffix (List.suffix_append _ _)
  have hend : ∀ c ∈ (" using".toList ++ kept).getLast?, isBlank c = false := by
    by_cases hkept : kept = []
    · subst hkept
      rintro c ⟨⟩
      decide
    · rwa [List.getLast?_append_of_ne_nil _ hkept]
  have hline : stamp.line (initWords startTime (kept ++ blanks)) =
      [] ++ stamp.line (initWords startTime kept) ++ blanks := by
    unfold SimulatorStamp.line SimulatorStamp.message initWords
    simp only [List.append_assoc, List.nil_append]
  refine ⟨kept, List.prefix_append _ _, ?_⟩
  rw [hline, trim_append_append (by simp) hblanks]
  exact trim_line h hback (by simp) hend

theorem banner?_initLine (h : stamp.WellFormed) (hrun : Writable run) (hfeed : '\n' ∉ more)
    (hmore : ¬ "_free] Shadow".toList <:+: more) :
    banner? (initLine stamp run more) = some (.init run.startTime) := by
  obtain ⟨kept, hbegins, htrim⟩ := exists_trim_initWords h run.startTime.toList more
  have hkeptFeed : '\n' ∉ kept := fun hmem => hfeed (hbegins.subset hmem)
  have hkept : ¬ "_free] Shadow".toList <:+: kept := fun hoccurs => hmore (hoccurs.trans hbegins.isInfix)
  rw [banner?, initLine, String.toList_ofList, htrim, h.ofLine?_initWords hrun.startTime hkeptFeed hkept,
    String.ofList_toList]

/-- A clean run is always recognised. Its texts may hold anything that is not a part of another banner, each banner
may come from a place and a time of its own, and any lines may stand between them, as long as no other init banner
stands before that of the run. -/
theorem read_eq_ok_of_writable (hrun : Writable run) {starting initialized ended : SimulatorStamp}
    (hstarting : starting.WellFormed) (hinitialized : initialized.WellFormed) (hended : ended.WellFormed)
    {part : String} (hpart : part ∈ freeingParts) {more : List Char} (hfeed : '\n' ∉ more)
    (hmore : ¬ "_free] Shadow".toList <:+: more) {between : List String}
    (hbetween : ∀ line ∈ between, ∀ time, banner? line ≠ some (.init time)) (further : List String) :
    read (.ofTexts (startupLine starting run :: (between ++ initLine initialized run more :: (further ++
      [shutdownLine ended run part])))) = .ok run := by
  refine read_eq_ok_iff.mpr ⟨?_, ?_, ?_⟩
  · exact ⟨_, rfl, banner?_startupLine hstarting hrun⟩
  · exact ⟨between, _, _, rfl, banner?_initLine hinitialized hrun hfeed hmore, hbetween⟩
  · have hshutdown := banner?_shutdownLine hended hrun hpart
    refine ⟨_, ?_, hshutdown⟩
    rw [List.tail_cons, ← List.cons_append, ← List.append_assoc, lastLine_concat_iff, if_neg]
    intro hblank
    rw [banner?, hblank] at hshutdown
    cases hshutdown

/-- A run whose completion time looks like the end of another shutdown banner. -/
def runOfMaster : Run where
  release := "v1.11.2 (built 2016-11-11)"
  startTime := "2016-11-19 00:14:35"
  completionTime := "03:31:09 shut down cleanly at 03:31:10"

def stampOfMaster : SimulatorStamp where
  time := "00:00:00.021258".toList
  thread := "0".toList
  location := "shd-master.c:143".toList

theorem read_eq_ok_of_writable_ofMaster :
    read (.ofTexts [startupLine stampOfMaster runOfMaster, "noise",
      initLine stampOfMaster runOfMaster " GLib v2.48.1  ".toList, "", "noise",
      shutdownLine stampOfMaster runOfMaster "[master_free] Shadow "]) = .ok runOfMaster := by
  have hrelease : ∀ c ∈ runOfMaster.release.toList.getLast?, isBlank c = false := by
    rintro c ⟨⟩
    decide
  have hcompletion : ∀ c ∈ runOfMaster.completionTime.toList.getLast?, isBlank c = false := by
    rintro c ⟨⟩
    decide
  have hrun : Writable runOfMaster :=
    ⟨by decide +kernel, hrelease, by decide +kernel, by decide +kernel, hcompletion⟩
  have hstamp : stampOfMaster.WellFormed := by decide +kernel
  have hnoise : banner? "noise" = none := by decide +kernel
  have hbetween : ∀ line ∈ ["noise"], ∀ time, banner? line ≠ some (.init time) := by
    intro line hline time
    rw [List.mem_singleton.mp hline, hnoise]
    exact (Option.some_ne_none _).symm
  exact read_eq_ok_of_writable hrun hstamp hstamp hstamp (by decide) (by decide) (by decide +kernel) hbetween
    ["", "noise"]

end PageLoads.SimulatorLog
