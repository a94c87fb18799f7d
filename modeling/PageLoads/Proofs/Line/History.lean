import Mathlib.Data.List.Induction
import PageLoads.Line.DriverLine
import PageLoads.PageLoad
import PageLoads.Proofs.Behind

namespace PageLoads.Line.DriverLine

def isStart : DriverLine → Bool
  | .start .. => true
  | _ => false

def isResult : DriverLine → Bool
  | .result _ => true
  | _ => false

def result? : DriverLine → Option ResultLine
  | .result reported => some reported
  | _ => none

/-- At the end of a history a load is open: its start is the latest one, and neither a start nor a
result is among the lines since. -/
def Opened (history : List DriverLine) (time : Binary64) (url : String) (since : List DriverLine) : Prop :=
  (∃ earlier, history = earlier ++ .start time url :: since) ∧
    ∀ line ∈ since, line.isStart = false ∧ line.isResult = false

theorem not_opened_nil {time : Binary64} {url : String} {since : List DriverLine} :
    ¬ Opened [] time url since := by
  rintro ⟨⟨earlier, h⟩, _⟩
  simp at h

/-- A load is open behind one more line if this line starts it, or if it was open before and the line
neither starts nor reports one. -/
theorem opened_concat_iff {history : List DriverLine} {line : DriverLine} {time : Binary64} {url : String}
    {since : List DriverLine} :
    Opened (history ++ [line]) time url since ↔
      (line = .start time url ∧ since = []) ∨
        (line.isStart = false ∧ line.isResult = false) ∧
          ∃ before, since = before ++ [line] ∧ Opened history time url before := by
  constructor
  · rintro ⟨⟨earlier, hsplit⟩, hsince⟩
    rcases concat_eq_append_cons hsplit with ⟨_, hline, hnil⟩ | ⟨before, rfl, hhistory⟩
    · exact Or.inl ⟨hline, hnil⟩
    · refine Or.inr ⟨hsince line (by simp), before, rfl, ⟨earlier, hhistory⟩, ?_⟩
      intro between hbetween
      exact hsince between (by simp [hbetween])
  · rintro (⟨rfl, rfl⟩ | ⟨hline, before, rfl, ⟨earlier, rfl⟩, hbefore⟩)
    · exact ⟨⟨history, rfl⟩, by simp⟩
    · refine ⟨⟨earlier, by simp⟩, ?_⟩
      intro between hbetween
      rcases List.mem_append.mp hbetween with hbetween | hbetween
      · exact hbefore between hbetween
      · rw [List.mem_singleton.mp hbetween]
        exact hline

/-- At most one load is open, and the lines since its start are determined. -/
theorem Opened.unique {history : List DriverLine} {time time' : Binary64} {url url' : String}
    {since since' : List DriverLine} (h : Opened history time url since) (h' : Opened history time' url' since') :
    time = time' ∧ url = url' ∧ since = since' := by
  induction history using List.reverseRecOn generalizing since since' with
  | nil => exact absurd h not_opened_nil
  | append_singleton history line ih =>
    rcases opened_concat_iff.mp h with ⟨rfl, rfl⟩ | ⟨⟨hstart, _⟩, before, rfl, hbefore⟩
    · rcases opened_concat_iff.mp h' with ⟨hline, rfl⟩ | ⟨⟨hstart, _⟩, _⟩
      · cases hline
        exact ⟨rfl, rfl, rfl⟩
      · cases hstart
    · rcases opened_concat_iff.mp h' with ⟨rfl, _⟩ | ⟨_, before', rfl, hbefore'⟩
      · cases hstart
      · obtain ⟨htime, hurl, rfl⟩ := ih hbefore hbefore'
        exact ⟨htime, hurl, rfl⟩

/-- A result closes the load that a history leaves open: it is of the same page, carries the number of
loads started so far, has modes and outcomes that there are, and succeeds only after a DOM load event of
this load. -/
def Closes (history : List DriverLine) (result : ResultLine) : Prop :=
  ∃ time since, Opened history time result.url since ∧
    result.number.toNat = history.countP isStart ∧
    (∃ mode : ProxyMode, mode.name = result.proxyMode) ∧
    (∃ outcome : Outcome, outcome.name = result.outcome) ∧
    (result.outcome = "OK" → ∃ event, .domEvent event ∈ since)

/-- What may follow a history: any start, a DOM load event once a load was started, and a result that
closes the open load. -/
def Admissible (history : List DriverLine) : DriverLine → Prop
  | .start _ _ => True
  | .domEvent _ => ∃ line ∈ history, line.isStart
  | .result reported => Closes history reported

/-- Each line may follow those before it. -/
def InOrder (history : List DriverLine) : Prop :=
  ∀ before line after, history = before ++ line :: after → Admissible before line

theorem inOrder_nil : InOrder [] := by
  intro before line after h
  simp at h

theorem inOrder_concat_iff {history : List DriverLine} {line : DriverLine} :
    InOrder (history ++ [line]) ↔ InOrder history ∧ Admissible history line :=
  forall_behind_concat_iff

end PageLoads.Line.DriverLine
