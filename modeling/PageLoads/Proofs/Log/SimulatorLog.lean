import Mathlib.Data.List.Induction
import PageLoads.Log.SimulatorLog
import PageLoads.Proofs.Behind
import PageLoads.Proofs.Except
import PageLoads.Proofs.Log.Scan

namespace PageLoads.SimulatorLog

open PageLoads.Line

def banner? (line : String) : Option Banner :=
  Banner.ofLine? (Text.trim line.toList)

def StartsUp (lines : List String) (release : String) : Prop :=
  ∃ first, lines.head? = some first ∧ banner? first = some (.startup release)

def HasInit (lines : List String) : Prop :=
  ∃ line ∈ lines, ∃ time, banner? line = some (.init time)

/-- The first init banner among some lines names a time. -/
def FirstInit (lines : List String) (startTime : String) : Prop :=
  ∃ before line after, lines = before ++ line :: after ∧ banner? line = some (.init startTime) ∧
    ∀ other ∈ before, ∀ time, banner? other ≠ some (.init time)

/-- A line is the last one that is not blank. -/
def LastLine (lines : List String) (line : String) : Prop :=
  ∃ before after, lines = before ++ line :: after ∧ Text.trim line.toList ≠ [] ∧
    ∀ other ∈ after, Text.trim other.toList = []

/-- A log begins with a startup banner, has an init banner behind it, and ends with a shutdown banner of the same
release; a run is what these banners say. -/
structure Clean (lines : List String) (run : Run) : Prop where
  startup : StartsUp lines run.release
  init : FirstInit lines.tail run.startTime
  shutdown : ∃ last, LastLine lines.tail last ∧
    banner? last = some (.shutdown run.release run.completionTime)

/-- Why a log is refused, and the fault raised for it. -/
inductive Refused (lines : List String) : Fault → Prop
  /-- The first line is no startup banner, or there is no line. -/
  | notStartup (h : ∀ release, ¬ StartsUp lines release) :
    Refused lines (.format (some 1) (.notStartupBanner (String.ofList (Text.trim (lines.headD "").toList))))
  | noInit {release : String} (hstartup : StartsUp lines release) (h : ¬ HasInit lines.tail) :
    Refused lines (.format none .noInitBanner)
  | otherRelease {release last found completionTime : String} (hstartup : StartsUp lines release)
    (hinit : HasInit lines.tail) (hlast : LastLine lines.tail last)
    (hshutdown : banner? last = some (.shutdown found completionTime)) (h : found ≠ release) :
    Refused lines (.uncleanShutdown (.otherRelease found release))
  | notShutdown {release last : String} (hstartup : StartsUp lines release)
    (hinit : HasInit lines.tail) (hlast : LastLine lines.tail last)
    (h : ∀ found completionTime, banner? last ≠ some (.shutdown found completionTime)) :
    Refused lines (.uncleanShutdown (.notShutdownBanner (String.ofList (Text.trim last.toList))))

variable {lines : List String} {line : List Char} {release time : String} {fault : Fault}

theorem startupRelease_eq_ok_iff :
    startupRelease line = .ok release ↔ Banner.ofLine? line = some (.startup release) := by
  unfold startupRelease
  rcases Banner.ofLine? line with _ | found | startTime | ⟨found, completed⟩ <;> simp

theorem startupRelease_eq_error_iff :
    startupRelease line = .error fault ↔ (∀ release, Banner.ofLine? line ≠ some (.startup release)) ∧
      fault = .format (some 1) (.notStartupBanner (String.ofList line)) := by
  unfold startupRelease
  rcases Banner.ofLine? line with _ | found | startTime | ⟨found, completed⟩ <;> simp [eq_comm]

theorem completionTime_eq_ok_iff :
    completionTime release line = .ok time ↔ Banner.ofLine? line = some (.shutdown release time) := by
  unfold completionTime
  rcases Banner.ofLine? line with _ | found | startTime | ⟨found, completed⟩
  · simp
  · simp
  · simp
  · by_cases hsame : found = release <;> simp [hsame]

theorem completionTime_eq_error_iff :
    completionTime release line = .error fault ↔
      (∃ found completed, Banner.ofLine? line = some (.shutdown found completed) ∧ found ≠ release ∧
        fault = .uncleanShutdown (.otherRelease found release)) ∨
      (∀ found completed, Banner.ofLine? line ≠ some (.shutdown found completed)) ∧
        fault = .uncleanShutdown (.notShutdownBanner (String.ofList line)) := by
  unfold completionTime
  rcases Banner.ofLine? line with _ | found | startTime | ⟨found, completed⟩
  · simp [eq_comm]
  · simp [eq_comm]
  · simp [eq_comm]
  · by_cases hsame : found = release
    · simp [hsame]
    · simp [hsame, @eq_comm _ fault]

theorem initTime?_eq_some_iff : initTime? line = some time ↔ Banner.ofLine? line = some (.init time) := by
  unfold initTime?
  rcases Banner.ofLine? line with _ | found | startTime | ⟨found, completed⟩ <;> simp

def spoken (lines : List String) : List (List Char) :=
  (lines.map fun line => Text.trim line.toList).filter (· ≠ [])

theorem findSome?_spoken : (spoken lines).findSome? initTime? =
    lines.findSome? fun line => initTime? (Text.trim line.toList) := by
  induction lines with
  | nil => rfl
  | cons line rest ih =>
    unfold spoken at ih ⊢
    rw [List.map_cons, List.findSome?_cons]
    by_cases hblank : Text.trim line.toList = []
    · have hnone : initTime? [] = none := rfl
      rw [List.filter_cons_of_neg (by simpa using hblank), hblank, hnone, ih]
    · rw [List.filter_cons_of_pos (by simpa using hblank), List.findSome?_cons, ih]

theorem firstInit_iff : FirstInit lines time ↔ (spoken lines).findSome? initTime? = some time := by
  rw [findSome?_spoken, List.findSome?_eq_some_iff]
  simp only [initTime?_eq_some_iff, Option.eq_none_iff_forall_ne_some, ne_eq]
  rfl

theorem hasInit_iff : HasInit lines ↔ ∃ time, FirstInit lines time := by
  simp only [firstInit_iff, findSome?_spoken, ← Option.isSome_iff_exists, List.findSome?_isSome_iff]
  simp only [Option.isSome_iff_exists, initTime?_eq_some_iff]
  rfl

/-- One more line is the last one that is not blank, unless it is blank: then this line stays the same. -/
theorem lastLine_concat_iff {line last : String} :
    LastLine (lines ++ [line]) last ↔
      if Text.trim line.toList = [] then LastLine lines last else last = line := by
  split
  · rename_i hblank
    constructor
    · rintro ⟨before, after, hsplit, hlast, hafter⟩
      rcases concat_eq_append_cons hsplit with ⟨_, rfl, _⟩ | ⟨rest, rfl, hlines⟩
      · exact absurd hblank hlast
      · exact ⟨before, rest, hlines, hlast, fun other hother => hafter other (List.mem_append_left _ hother)⟩
    · rintro ⟨before, after, rfl, hlast, hafter⟩
      refine ⟨before, after ++ [line], by simp, hlast, fun other hother => ?_⟩
      rcases List.mem_append.mp hother with hother | hother
      · exact hafter other hother
      · rwa [List.mem_singleton.mp hother]
  · rename_i hblank
    constructor
    · rintro ⟨before, after, hsplit, _, hafter⟩
      rcases concat_eq_append_cons hsplit with ⟨_, hlast, _⟩ | ⟨rest, rfl, _⟩
      · exact hlast.symm
      · exact absurd (hafter line (by simp)) hblank
    · rintro rfl
      exact ⟨lines, [], rfl, hblank, by simp⟩

theorem spoken_concat (lines : List String) (line : String) :
    spoken (lines ++ [line]) =
      if Text.trim line.toList = [] then spoken lines else spoken lines ++ [Text.trim line.toList] := by
  unfold spoken
  split <;> rename_i hblank <;> simp [hblank]

theorem getLast?_spoken_iff {last : List Char} :
    (spoken lines).getLast? = some last ↔ ∃ line, LastLine lines line ∧ Text.trim line.toList = last := by
  induction lines using List.reverseRecOn with
  | nil => simp [spoken, LastLine]
  | append_singleton lines line ih =>
    simp only [spoken_concat, lastLine_concat_iff]
    split
    · exact ih
    · simp

theorem mapM_text (texts : List (List Char)) : (texts.map .ok : LogLines).mapM text = .ok texts := by
  induction texts with
  | nil => rfl
  | cons first rest ih =>
    rw [List.map_cons, List.mapM_cons, ih]
    rfl

/-- The reading of the lines behind a startup banner of some release. -/
def readBehind (release : String) (lines : List String) : Except Fault Run :=
  match (spoken lines).findSome? initTime? with
  | some startTime =>
    (completionTime release ((spoken lines).getLastD [])).map fun completionTime =>
      { release, startTime, completionTime }
  | none => .error (.format none .noInitBanner)

theorem read_ofTexts (lines : List String) :
    read (.ofTexts lines) =
      startupRelease (Text.trim (lines.headD "").toList) >>= fun release => readBehind release lines.tail := by
  have hfirst : (LogLines.ofTexts lines).headD (.ok []) = .ok (Text.trim (lines.headD "").toList) := by
    cases lines <;> rfl
  have hlater : (LogLines.ofTexts lines).tail = (lines.tail.map fun line => Text.trim line.toList).map .ok := by
    cases lines <;> rfl
  unfold read
  rw [hfirst, hlater, mapM_text]
  rfl

theorem startsUp_iff :
    StartsUp lines release ↔ startupRelease (Text.trim (lines.headD "").toList) = .ok release := by
  rw [startupRelease_eq_ok_iff]
  cases lines with
  | nil =>
    constructor
    · rintro ⟨first, hfirst, _⟩
      cases hfirst
    · intro h
      cases h
  | cons first rest =>
    constructor
    · rintro ⟨_, ⟨⟩, h⟩
      exact h
    · intro h
      exact ⟨first, rfl, h⟩

/-- Behind an init banner there is a last line that is not blank: this banner, or a line behind it. -/
theorem exists_lastLine_of_firstInit (h : FirstInit lines time) : ∃ last, LastLine lines last := by
  rw [firstInit_iff] at h
  cases hlast : (spoken lines).getLast? with
  | none =>
    rw [List.getLast?_eq_none_iff.mp hlast] at h
    cases h
  | some found =>
    obtain ⟨last, hlines, _⟩ := getLast?_spoken_iff.mp hlast
    exact ⟨last, hlines⟩

theorem readBehind_of_firstInit {last : String} (hinit : FirstInit lines time) (hlast : LastLine lines last) :
    readBehind release lines = (completionTime release (Text.trim last.toList)).map fun completionTime =>
      { release, startTime := time, completionTime } := by
  have hspoken : (spoken lines).getLastD [] = Text.trim last.toList := by
    rw [List.getLastD_eq_getLast?, getLast?_spoken_iff.mpr ⟨last, hlast, rfl⟩, Option.getD_some]
  rw [readBehind, firstInit_iff.mp hinit, hspoken]

theorem readBehind_of_not_hasInit (h : ¬ HasInit lines) :
    readBehind release lines = .error (.format none .noInitBanner) := by
  simp only [hasInit_iff, not_exists, firstInit_iff] at h
  rw [readBehind, Option.eq_none_iff_forall_ne_some.mpr h]

theorem read_eq_ok_iff {run : Run} : read (.ofTexts lines) = .ok run ↔ Clean lines run := by
  rw [read_ofTexts, Except.bind_eq_ok_iff]
  constructor
  · rintro ⟨release, hrelease, h⟩
    by_cases hfirst : HasInit lines.tail
    · obtain ⟨time, hinit⟩ := hasInit_iff.mp hfirst
      obtain ⟨last, hlast⟩ := exists_lastLine_of_firstInit hinit
      rw [readBehind_of_firstInit hinit hlast] at h
      obtain ⟨completed, hcompleted, rfl⟩ := Except.map_eq_ok_iff.mp h
      exact ⟨startsUp_iff.mpr hrelease, hinit, last, hlast, completionTime_eq_ok_iff.mp hcompleted⟩
    · rw [readBehind_of_not_hasInit hfirst] at h
      cases h
  · rintro ⟨hstartup, hinit, last, hlast, hshutdown⟩
    refine ⟨run.release, startsUp_iff.mp hstartup, ?_⟩
    rw [readBehind_of_firstInit hinit hlast, completionTime_eq_ok_iff.mpr hshutdown]
    rfl

theorem read_eq_error_iff : read (.ofTexts lines) = .error fault ↔ Refused lines fault := by
  rw [read_ofTexts, Except.bind_eq_error_iff]
  constructor
  · rintro (hstartup | ⟨release, hrelease, h⟩)
    · obtain ⟨hnone, rfl⟩ := startupRelease_eq_error_iff.mp hstartup
      exact .notStartup fun release h => hnone release (startupRelease_eq_ok_iff.mp (startsUp_iff.mp h))
    · have hstartup := startsUp_iff.mpr hrelease
      by_cases hfirst : HasInit lines.tail
      · obtain ⟨time, hinit⟩ := hasInit_iff.mp hfirst
        obtain ⟨last, hlast⟩ := exists_lastLine_of_firstInit hinit
        rw [readBehind_of_firstInit hinit hlast, Except.map_eq_error_iff, completionTime_eq_error_iff] at h
        rcases h with ⟨found, completed, hshutdown, hne, rfl⟩ | ⟨hnone, rfl⟩
        · exact .otherRelease hstartup hfirst hlast hshutdown hne
        · exact .notShutdown hstartup hfirst hlast hnone
      · rw [readBehind_of_not_hasInit hfirst] at h
        cases h
        exact .noInit hstartup hfirst
  · rintro (h | ⟨hstartup, h⟩ | ⟨hstartup, hinit, hlast, hshutdown, hne⟩ | ⟨hstartup, hinit, hlast, h⟩)
    · refine Or.inl (startupRelease_eq_error_iff.mpr ⟨fun release hrelease => h release ?_, rfl⟩)
      exact startsUp_iff.mpr (startupRelease_eq_ok_iff.mpr hrelease)
    · exact Or.inr ⟨_, startsUp_iff.mp hstartup, readBehind_of_not_hasInit h⟩
    · obtain ⟨time, hfirst⟩ := hasInit_iff.mp hinit
      refine Or.inr ⟨_, startsUp_iff.mp hstartup, ?_⟩
      rw [readBehind_of_firstInit hfirst hlast, Except.map_eq_error_iff, completionTime_eq_error_iff]
      exact Or.inl ⟨_, _, hshutdown, hne, rfl⟩
    · obtain ⟨time, hfirst⟩ := hasInit_iff.mp hinit
      refine Or.inr ⟨_, startsUp_iff.mp hstartup, ?_⟩
      rw [readBehind_of_firstInit hfirst hlast, Except.map_eq_error_iff, completionTime_eq_error_iff]
      exact Or.inr ⟨h, rfl⟩

/-- A log is read exactly as the clean run that it tells of, and refused exactly for what is missing in it: first of
all the startup banner, then an init banner, and only then a shutdown banner of the same release at the end. -/
theorem read_ok_iff_clean_and_error_iff_refused (lines : List String) :
    (∀ run, read (.ofTexts lines) = .ok run ↔ Clean lines run) ∧
      ∀ fault, read (.ofTexts lines) = .error fault ↔ Refused lines fault :=
  ⟨fun _ => read_eq_ok_iff, fun _ => read_eq_error_iff⟩

end PageLoads.SimulatorLog
