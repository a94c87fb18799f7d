import PageLoads.Log.ProxyLog
import PageLoads.Log.SimulatorLog
import PageLoads.Proofs.Except
import PageLoads.Proofs.Log.DriverLog
import PageLoads.Proofs.Text.Trim

namespace PageLoads

/-- Blanks that do not end a line. -/
def IsPadding (cs : List Char) : Prop :=
  ∀ c ∈ cs, Text.isBlank c = true ∧ c ≠ '\n'

instance (cs : List Char) : Decidable (IsPadding cs) :=
  List.decidableBAll (fun c => Text.isBlank c = true ∧ c ≠ '\n') cs

def Padded (line : String) (cs : List Char) : Prop :=
  ∃ before after, IsPadding before ∧ IsPadding after ∧ cs = before ++ line.toList ++ after

/-- The characters that may end a line: a line feed, or a carriage return before one. -/
def lineEnds : List (List Char) :=
  [['\n'], ['\r', '\n']]

/-- A text whose lines are the given ones with blanks about them, each with an end of its own; the last line may
stand without an end. -/
inductive Framed : List String → List Char → Prop
  | nil : Framed [] []
  | unended {line : String} {cs : List Char} (h : Padded line cs) : Framed [line] cs
  | ended {line : String} {lines : List String} {cs ending rest : List Char} (h : Padded line cs)
    (hending : ending ∈ lineEnds) (hrest : Framed lines rest) : Framed (line :: lines) (cs ++ ending ++ rest)

theorem Padded.trim_eq {line : String} {cs : List Char} (h : Padded line cs) :
    Text.trim cs = Text.trim line.toList := by
  obtain ⟨before, after, hbefore, hafter, rfl⟩ := h
  exact Text.trim_append_append (fun c hc => (hbefore c hc).1) (fun c hc => (hafter c hc).1) _

theorem Padded.lineFeed_not_mem {line : String} {cs : List Char} (h : Padded line cs) (hline : '\n' ∉ line.toList) :
    '\n' ∉ cs := by
  obtain ⟨before, after, hbefore, hafter, rfl⟩ := h
  simp only [List.mem_append, not_or]
  exact ⟨⟨fun hmem => (hbefore _ hmem).2 rfl, hline⟩, fun hmem => (hafter _ hmem).2 rfl⟩

/-- The carriage return before a line feed is one more blank behind the line. -/
theorem Padded.exists_ended {line : String} {cs ending : List Char} (h : Padded line cs)
    (hending : ending ∈ lineEnds) : ∃ body, Padded line body ∧ cs ++ ending = body ++ ['\n'] := by
  obtain ⟨before, after, hbefore, hafter, rfl⟩ := h
  simp only [lineEnds, List.mem_cons, List.not_mem_nil, or_false] at hending
  rcases hending with rfl | rfl
  · exact ⟨_, ⟨before, after, hbefore, hafter, rfl⟩, rfl⟩
  · refine ⟨before ++ line.toList ++ (after ++ ['\r']), ⟨before, after ++ ['\r'], hbefore, ?_, rfl⟩, by simp⟩
    intro c hc
    rcases List.mem_append.mp hc with hc | hc
    · exact hafter c hc
    · rw [List.mem_singleton.mp hc]
      decide

namespace LogLines

def ofText (text : List Char) : LogLines :=
  ofContent (.plain (Text.encode (String.ofList text)))

theorem encode_ofList (text : List Char) :
    Text.encode (String.ofList text) = text.flatMap String.utf8EncodeChar := by
  rw [Text.encode_eq_flatMap, String.toList_ofList]

theorem ofLine_encode (cs : List Char) : ofLine (Text.encode (String.ofList cs)) = .ok (Text.trim cs) := by
  simp [ofLine]

theorem lineFeed_not_mem_encode {cs : List Char} (h : '\n' ∉ cs) :
    Text.lineFeed ∉ Text.encode (String.ofList cs) := by
  rw [Text.lineFeed_mem_encode_iff, String.toList_ofList]
  exact h

theorem ofText_unended {cs : List Char} (hne : cs ≠ []) (h : '\n' ∉ cs) : ofText cs = [.ok (Text.trim cs)] := by
  have hbytes : Text.encode (String.ofList cs) ≠ [] := by
    obtain ⟨c, rest, rfl⟩ := List.exists_cons_of_ne_nil hne
    rw [encode_ofList, List.flatMap_cons]
    exact List.append_ne_nil_of_left_ne_nil String.utf8EncodeChar_ne_nil _
  rw [ofText, ofContent_plain, Text.splitLines_of_not_mem hbytes (lineFeed_not_mem_encode h), List.map_singleton,
    ofLine_encode]

theorem ofText_ended {cs : List Char} (h : '\n' ∉ cs) (rest : List Char) :
    ofText (cs ++ ['\n'] ++ rest) = .ok (Text.trim cs) :: ofText rest := by
  have hbytes : Text.encode (String.ofList (cs ++ ['\n'] ++ rest)) =
      Text.encode (String.ofList cs) ++ Text.lineFeed :: Text.encode (String.ofList rest) := by
    simp only [encode_ofList, List.flatMap_append, List.append_assoc]
    rfl
  rw [ofText, ofText, ofContent_plain, ofContent_plain, hbytes,
    Text.splitLines_append_lineFeed (lineFeed_not_mem_encode h), List.map_cons, ofLine_encode]

theorem ofText_nil : ofText [] = [] := by
  have hbytes : Text.encode (String.ofList []) = [] := by rw [encode_ofList, List.flatMap_nil]
  rw [ofText, hbytes, ofContent_plain]
  rfl

theorem ofText_of_framed {lines : List String} {text : List Char} (hlines : ∀ line ∈ lines, '\n' ∉ line.toList)
    (h : Framed lines text) : ofText text = ofTexts lines ∨ ofText text ++ [.ok []] = ofTexts lines := by
  induction h with
  | nil => exact Or.inl ofText_nil
  | unended h =>
    rename_i line cs
    have hline := hlines line List.mem_cons_self
    by_cases hne : cs = []
    · subst hne
      refine Or.inr ?_
      rw [ofText_nil, ofTexts, List.map_singleton, List.map_singleton, ← h.trim_eq]
      rfl
    · refine Or.inl ?_
      rw [ofText_unended hne (h.lineFeed_not_mem hline), h.trim_eq]
      rfl
  | ended h hending hrest ih =>
    rename_i line lines cs ending rest
    obtain ⟨body, hbody, hcut⟩ := h.exists_ended hending
    have hline := hlines line List.mem_cons_self
    have ih := ih fun other hother => hlines other (List.mem_cons_of_mem _ hother)
    have htexts : ofTexts (line :: lines) = .ok (Text.trim line.toList) :: ofTexts lines := rfl
    rw [hcut, ofText_ended (hbody.lineFeed_not_mem hline), hbody.trim_eq, htexts, List.cons_append]
    exact ih.imp (congrArg _) (congrArg _)

end LogLines

/-- Two logs get the same answer of every reader, be it a value or a fault. -/
structure SameAnswers (lines others : LogLines) : Prop where
  simulator : SimulatorLog.read lines = SimulatorLog.read others
  driver : ∀ host table, DriverLog.read host table lines = DriverLog.read host table others
  client : ProxyLog.readClient lines = ProxyLog.readClient others
  exitRelay : ProxyLog.readExit lines = ProxyLog.readExit others

namespace SameAnswers

variable {lines others : LogLines}

theorem refl (lines : LogLines) : SameAnswers lines lines :=
  ⟨rfl, fun _ _ => rfl, rfl, rfl⟩

theorem symm (h : SameAnswers lines others) : SameAnswers others lines :=
  ⟨h.simulator.symm, fun host table => (h.driver host table).symm, h.client.symm, h.exitRelay.symm⟩

theorem trans {third : LogLines} (h : SameAnswers lines others) (h' : SameAnswers others third) :
    SameAnswers lines third :=
  ⟨h.simulator.trans h'.simulator, fun host table => (h.driver host table).trans (h'.driver host table),
    h.client.trans h'.client, h.exitRelay.trans h'.exitRelay⟩

end SameAnswers

/-- A last line that leaves every state as it is can as well be missing. -/
theorem LogLines.fold_concat {σ : Type} {step : Nat → List Char → σ → Except Fault σ} {line : List Char}
    (hline : ∀ number state, step number line state = .ok state) (state : σ) (lines : LogLines) :
    fold step state (lines ++ [.ok line]) = fold step state lines := by
  unfold fold
  rw [scan_append]
  rcases scan step 1 state lines with ⟨between, _ | fault⟩
  · simp only [scan, hline]
  · rfl

theorem DriverLog.step_nil (number : Nat) (t : Tracker) : step number [] t = .ok t := rfl

theorem ProxyLog.clientStep_nil (number : Nat) (reports : List Report) :
    clientStep number [] reports = .ok reports := rfl

theorem ProxyLog.exitStep_nil (number : Nat) (reports : List Report) : exitStep number [] reports = .ok reports := rfl

theorem SimulatorLog.read_concat_nil (lines : LogLines) : read (lines ++ [.ok []]) = read lines := by
  cases lines with
  | nil => rfl
  | cons first rest =>
    have hlater : (rest ++ [.ok []] : LogLines).mapM text = (rest.mapM text).map (· ++ [[]]) := by
      rw [List.mapM_append]
      cases rest.mapM text <;> rfl
    have hfilter (later : List (List Char)) : (later ++ [[]]).filter (· ≠ []) = later.filter (· ≠ []) := by
      simp
    have htail : (first :: rest ++ [.ok []] : LogLines).tail = rest ++ [.ok []] := rfl
    simp only [read, htail, hlater, Except.map_bind, hfilter]
    rfl

theorem sameAnswers_concat_nil (lines : LogLines) : SameAnswers (lines ++ [.ok []]) lines where
  simulator := SimulatorLog.read_concat_nil lines
  driver host table := by
    simp only [DriverLog.read, LogLines.fold_concat DriverLog.step_nil]
  client := LogLines.fold_concat ProxyLog.clientStep_nil [] lines
  exitRelay := LogLines.fold_concat ProxyLog.exitStep_nil [] lines

theorem sameAnswers_ofTexts {lines : List String} {text : List Char} (hlines : ∀ line ∈ lines, '\n' ∉ line.toList)
    (h : Framed lines text) : SameAnswers (.ofText text) (.ofTexts lines) := by
  rcases LogLines.ofText_of_framed hlines h with heq | heq
  · rw [heq]
    exact .refl _
  · rw [← heq]
    exact (sameAnswers_concat_nil _).symm

/-- However lines are framed as text, with any blanks about them, any ends and the last end there or not, every
reader gives the same answer: that of the lines themselves. A fault has the same cause and names the same line. -/
theorem sameAnswers_of_framed {lines : List String} {text other : List Char}
    (hlines : ∀ line ∈ lines, '\n' ∉ line.toList) (h : Framed lines text) (h' : Framed lines other) :
    SameAnswers (.ofText text) (.ofText other) ∧ SameAnswers (.ofText text) (.ofTexts lines) :=
  ⟨(sameAnswers_ofTexts hlines h).trans (sameAnswers_ofTexts hlines h').symm, sameAnswers_ofTexts hlines h⟩

/-- A startup banner, behind which an empty line may stand. -/
def startupLine : String :=
  "00:00:00.021258 [thread-0] n/a [shadow-message] [n/a] [m] [master_run] Shadow v1.11.2"

/-- The empty last line has no end in the one text and is missing there; in the other it is padded and ended. -/
theorem sameAnswers_of_framed_ofStartupLine :
    (∀ line ∈ [startupLine, ""], '\n' ∉ line.toList) ∧
      SameAnswers (.ofText (['\t'] ++ startupLine.toList ++ ['\u2003'] ++ ['\r', '\n'] ++ []))
        (.ofText (startupLine.toList ++ ['\n'] ++ (['\r', ' '] ++ ['\n'] ++ []))) := by
  have hlines : ∀ line ∈ [startupLine, ""], '\n' ∉ line.toList := by decide
  have htext : Framed [startupLine, ""] (['\t'] ++ startupLine.toList ++ ['\u2003'] ++ ['\r', '\n'] ++ []) :=
    .ended ⟨['\t'], ['\u2003'], by decide, by decide, rfl⟩ (by decide) (.unended ⟨[], [], by decide, by decide, rfl⟩)
  have hother : Framed [startupLine, ""]
      (startupLine.toList ++ ['\n'] ++ (['\r', ' '] ++ ['\n'] ++ [])) :=
    .ended ⟨[], [], by decide, by decide, by simp⟩ (by decide)
      (.ended ⟨['\r', ' '], [], by decide, by decide, rfl⟩ (by decide) .nil)
  exact ⟨hlines, (sameAnswers_of_framed hlines htext hother).1⟩

end PageLoads
