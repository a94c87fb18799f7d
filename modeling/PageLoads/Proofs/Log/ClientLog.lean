import PageLoads.Proofs.Behind
import PageLoads.Proofs.Line.Faults
import PageLoads.Proofs.Log.Parts
import PageLoads.Proofs.Log.ProxyLog

namespace PageLoads.ProxyLog

open PageLoads.Line

def recognise (line : String) : Except Fault (Option ProxyLine) :=
  ProxyLine.ofLine (Text.trim line.toList)

def running? : ProxyLine → Option Report
  | .running report => some report
  | .handler _ => none

def totals (lines : List String) : List Report :=
  lines.filterMap fun line => (recognise line).toOption.join.bind running?

/-- A report continues those collected before it: neither its time nor one of its counters is below that of
the last one, if there is one. -/
def Continues (collected : List Report) (report : Report) : Prop :=
  ∀ previous, collected.getLast? = some previous →
    report.time.lt previous.time = false ∧ previous.counters.AtMost report.counters

/-- Every line of a log can be read, and each report in it continues those before it, of which the first
ones were collected already. -/
structure Sound (start : List Report) (lines : List String) : Prop where
  readable : ∀ line ∈ lines, ∃ found, recognise line = .ok found
  continues : ∀ before report after, totals lines = before ++ report :: after →
    Continues (start ++ before) report

/-- A line of some number that is out of place behind the reports collected, and the fault raised for it: that
of reading the line, which gets the number, or that of a report which does not continue them. -/
def Refused (collected : List Report) (number : Nat) (line : String) (fault : Fault) : Prop :=
  (∃ cause, recognise line = .error cause ∧ fault = cause.atLine number) ∨
    ∃ report, recognise line = .ok (some (.running report)) ∧ ¬ Continues collected report ∧
      fault = .inconsistentLog number .countersWentBackwards

/-- Reads the logs of a client one after another, each as a continuation of those before it, up to the first
that fails. -/
def appendClients (reports : List Report) (logs : List LogLines) : List Report × Option Fault :=
  LogLines.scanParts clientStep reports logs

variable {start reports next : List Report} {before : List String}

theorem continues_iff_all_follows {report : Report} :
    Continues reports report ↔ (reports.getLast?.all fun previous => follows previous report) = true := by
  cases hlast : reports.getLast? <;> simp [Continues, hlast, follows_iff]

theorem totals_concat {line : String} {found : Option ProxyLine} (h : recognise line = .ok found) :
    totals (before ++ [line]) = totals before ++ (found.bind running?).toList := by
  cases hrunning : found.bind running? <;> simp [totals, h, Except.toOption, hrunning]

theorem sound_nil : Sound start [] where
  readable := by simp
  continues := by simp [totals]

/-- A log is sound with one more line if it is sound without it, the line can be read, and the report in the
line, if there is one, continues those before. -/
theorem sound_concat_iff {line : String} :
    Sound start (before ++ [line]) ↔ Sound start before ∧ ∃ found, recognise line = .ok found ∧
      ∀ report, found.bind running? = some report → Continues (start ++ totals before) report := by
  constructor
  · rintro ⟨hreadable, hcontinues⟩
    obtain ⟨found, hfound⟩ := hreadable line (by simp)
    have hbefore : ∀ line ∈ before, ∃ found, recognise line = .ok found := fun line hline =>
      hreadable line (List.mem_append_left _ hline)
    rw [totals_concat hfound] at hcontinues
    cases hrunning : found.bind running? with
    | none =>
      rw [hrunning, Option.toList_none, List.append_nil] at hcontinues
      exact ⟨⟨hbefore, hcontinues⟩, found, hfound, by simp [hrunning]⟩
    | some report =>
      rw [hrunning, Option.toList_some] at hcontinues
      obtain ⟨hcontinues, hlast⟩ := forall_behind_concat_iff.mp hcontinues
      refine ⟨⟨hbefore, hcontinues⟩, found, hfound, ?_⟩
      intro other hother
      rw [hrunning] at hother
      cases hother
      exact hlast
  · rintro ⟨⟨hreadable, hcontinues⟩, found, hfound, hline⟩
    constructor
    · intro other hother
      rcases List.mem_append.mp hother with hother | hother
      · exact hreadable other hother
      · rw [List.mem_singleton.mp hother]
        exact ⟨found, hfound⟩
    · rw [totals_concat hfound]
      cases hrunning : found.bind running? with
      | none => simpa using hcontinues
      | some report => exact forall_behind_concat_iff.mpr ⟨hcontinues, hline report hrunning⟩

/-- The step of the reading takes a line that can be read and whose report, if there is one, continues those
collected. -/
theorem clientStep_eq_ok_iff {number : Nat} {line : String} :
    clientStep number (Text.trim line.toList) reports = .ok next ↔ ∃ found, recognise line = .ok found ∧
      (∀ report, found.bind running? = some report → Continues reports report) ∧
      next = reports ++ (found.bind running?).toList := by
  unfold clientStep recognise
  rcases ProxyLine.ofLine (Text.trim line.toList) with fault | _ | ⟨report⟩ | ⟨report⟩
  · simp
  · simp [eq_comm]
  · dsimp only
    split
    · rename_i hfollows
      have hcontinues := continues_iff_all_follows.mpr hfollows
      simp [running?, hcontinues, eq_comm]
    · rename_i hfollows
      have hcontinues := mt continues_iff_all_follows.mp hfollows
      simp [running?, hcontinues]
  · simp [running?, eq_comm]

theorem refused_of_clientStep {number : Nat} {line : String} {fault : Fault}
    (h : clientStep number (Text.trim line.toList) reports = .error fault) :
    Refused reports number line fault ∧ fault.line? = some number := by
  unfold clientStep at h
  split at h
  · rename_i cause hline
    cases h
    exact ⟨Or.inl ⟨cause, hline, rfl⟩, Fault.line?_atLine (ProxyLine.failsByText_ofLine _ cause hline) number⟩
  · rename_i report hline
    split at h
    · cases h
    · rename_i hfollows
      cases h
      exact ⟨Or.inr ⟨report, hline, fun hcontinues => hfollows (continues_iff_all_follows.mp hcontinues), rfl⟩,
        rfl⟩
  · cases h

theorem numbers_clientStep : LogLines.Numbers clientStep := by
  intro before number line reports
  unfold clientStep
  cases hline : ProxyLine.ofLine line with
  | error cause =>
    have htext := ProxyLine.failsByText_ofLine line cause hline
    simp only [Except.mapError, Fault.atLine_behind htext]
  | ok found =>
    rcases found with _ | ⟨report⟩ | ⟨report⟩
    · rfl
    · dsimp only
      split <;> rfl
    · rfl

/-- The run of the reading: all lines are taken exactly if the log is sound, and then the reports in it are
behind those collected already. -/
theorem appendClient_eq_none_iff {lines : List String} {final : List Report} :
    appendClient start (.ofTexts lines) = (final, none) ↔ Sound start lines ∧ final = start ++ totals lines := by
  induction lines using List.reverseRecOn generalizing final with
  | nil => simp [appendClient, LogLines.ofTexts, LogLines.scan, sound_nil, totals, eq_comm]
  | append_singleton before line ih =>
    unfold appendClient at ih ⊢
    simp only [LogLines.scan_ofTexts_concat_eq_none_iff, ih, clientStep_eq_ok_iff, sound_concat_iff]
    constructor
    · rintro ⟨_, ⟨hsound, rfl⟩, found, hfound, hcontinues, rfl⟩
      refine ⟨⟨hsound, found, hfound, hcontinues⟩, ?_⟩
      rw [totals_concat hfound, List.append_assoc]
    · rintro ⟨⟨hsound, found, hfound, hcontinues⟩, rfl⟩
      refine ⟨_, ⟨hsound, rfl⟩, found, hfound, hcontinues, ?_⟩
      rw [totals_concat hfound, List.append_assoc]

theorem appendClient_eq_some {lines : List String} {final : List Report} {fault : Fault}
    (h : appendClient start (.ofTexts lines) = (final, some fault)) :
    ∃ before line after, lines = before ++ line :: after ∧ Sound start before ∧
      final = start ++ totals before ∧ Refused final (before.length + 1) line fault ∧
      fault.line? = some (before.length + 1) := by
  obtain ⟨before, line, after, hsplit, hbefore, hline⟩ := LogLines.exists_refused_of_scan_ofTexts h
  obtain ⟨hsound, hfinal⟩ := appendClient_eq_none_iff.mp hbefore
  rw [Nat.add_comm] at hline
  obtain ⟨hrefused, hnumber⟩ := refused_of_clientStep hline
  exact ⟨before, line, after, hsplit, hsound, hfinal, hrefused, hnumber⟩

theorem flatten_ofTexts (parts : List (List String)) :
    (parts.map LogLines.ofTexts).flatten = LogLines.ofTexts parts.flatten := by
  induction parts with
  | nil => rfl
  | cons part rest ih => simp [ih, LogLines.ofTexts]

/-- A client's log is taken as a continuation of the reports collected before exactly if it is sound behind
them, and then its own reports are collected as well. Any other log is refused at its first line that is out
of place, with the reports of the lines before it collected. However a log is cut into parts, these are read
one after another with the same reports, and where the log fails, they fail at the same line: that of the
number in the part which leads to it when it is counted on from the lines of the parts before. -/
theorem appendClient_sound_and_parts (start : List Report) (lines : List String) :
    ((appendClient start (.ofTexts lines)).2 = none ↔ Sound start lines) ∧
    ((appendClient start (.ofTexts lines)).2 = none →
      (appendClient start (.ofTexts lines)).1 = start ++ totals lines) ∧
    (∀ fault, (appendClient start (.ofTexts lines)).2 = some fault →
      ∃ before line after, lines = before ++ line :: after ∧ Sound start before ∧
        (appendClient start (.ofTexts lines)).1 = start ++ totals before ∧
        Refused (start ++ totals before) (before.length + 1) line fault ∧
        fault.line? = some (before.length + 1)) ∧
    ∀ parts : List (List String), parts.flatten = lines →
      (appendClients start (parts.map .ofTexts)).1 = (appendClient start (.ofTexts lines)).1 ∧
      ((appendClients start (parts.map .ofTexts)).2 = none ↔ (appendClient start (.ofTexts lines)).2 = none) ∧
      ∀ fault, (appendClient start (.ofTexts lines)).2 = some fault →
        ∃ before part after cause number, parts = before ++ part :: after ∧
          (appendClients start (before.map .ofTexts)).2 = none ∧
          (appendClients start (parts.map .ofTexts)).2 = some cause ∧
          cause.line? = some number ∧ number ≤ part.length ∧
          fault = cause.behind before.flatten.length ∧
          fault.line? = some (before.flatten.length + number) := by
  refine ⟨?_, ?_, ?_, ?_⟩
  · constructor
    · intro h
      exact (appendClient_eq_none_iff.mp (Prod.ext rfl h)).1
    · intro hsound
      rw [appendClient_eq_none_iff.mpr ⟨hsound, rfl⟩]
  · intro h
    exact (appendClient_eq_none_iff.mp (Prod.ext rfl h)).2
  · intro fault h
    obtain ⟨before, line, after, hsplit, hsound, hfinal, hrefused, hnumber⟩ :=
      appendClient_eq_some (Prod.ext rfl h)
    exact ⟨before, line, after, hsplit, hsound, hfinal, hfinal ▸ hrefused, hnumber⟩
  · rintro parts rfl
    have hwhole : appendClient start (.ofTexts parts.flatten) =
        LogLines.scan clientStep 1 start (parts.map LogLines.ofTexts).flatten := by
      rw [flatten_ofTexts, appendClient]
    rw [hwhole]
    unfold appendClients
    rcases hparts : LogLines.scanParts clientStep start (parts.map LogLines.ofTexts) with ⟨final, _ | cause⟩
    · rw [LogLines.scan_flatten_of_scanParts numbers_clientStep hparts]
      refine ⟨rfl, Iff.rfl, ?_⟩
      intro fault hfault
      cases hfault
    · obtain ⟨before, part, after, between, hsplit, hbefore, hpart, hflatten⟩ :=
        LogLines.exists_part_of_scanParts numbers_clientStep hparts
      rw [hflatten]
      refine ⟨rfl, by simp, ?_⟩
      intro fault hfault
      cases hfault
      obtain ⟨firsts, rest, rfl, rfl, hrest⟩ := List.map_eq_append_iff.mp hsplit
      obtain ⟨failing, lasts, rfl, rfl, rfl⟩ := List.map_eq_cons_iff.mp hrest
      obtain ⟨taken, line, left, hfailing, _, _, _, hnumber⟩ := appendClient_eq_some hpart
      have hlength : (List.map LogLines.ofTexts firsts).flatten.length = firsts.flatten.length := by
        rw [flatten_ofTexts, LogLines.ofTexts, List.length_map, List.length_map]
      refine ⟨firsts, failing, lasts, cause, taken.length + 1, rfl, by rw [hbefore], rfl, hnumber, ?_, ?_, ?_⟩
      · simp [hfailing]
      · rw [hlength]
      · rw [Fault.line?_behind, hnumber, hlength]
        rfl

end PageLoads.ProxyLog
