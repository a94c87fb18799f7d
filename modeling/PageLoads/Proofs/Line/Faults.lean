import PageLoads.Line.DriverLine
import PageLoads.Line.ProxyLine

namespace PageLoads

namespace Fault

/-- A fault of the form of a text or of a number in it. -/
def IsOfText : Fault → Prop
  | .format .. | .range .. => True
  | _ => False

def line? : Fault → Option Nat
  | .format line _ | .range line _ => line
  | .inconsistentLog line _ => some line
  | _ => none

theorem line?_atLine {fault : Fault} (h : fault.IsOfText) (line : Nat) :
    (fault.atLine line).line? = some line := by
  cases fault <;> first | rfl | exact h.elim

end Fault

/-- A reading that fails only because of the text it reads. -/
def FailsByText {α : Type} (x : Except Fault α) : Prop :=
  ∀ fault, x = .error fault → fault.IsOfText

namespace FailsByText

variable {α β : Type}

theorem ok (a : α) : FailsByText (.ok a) := by
  intro fault h
  cases h

theorem error {fault : Fault} (h : fault.IsOfText) : FailsByText (.error fault : Except Fault α) := by
  intro cause hcause
  cases hcause
  exact h

theorem bind {x : Except Fault α} {f : α → Except Fault β} (hx : FailsByText x)
    (hf : ∀ a, FailsByText (f a)) : FailsByText (x >>= f) := by
  cases x with
  | error fault => exact error (hx fault rfl)
  | ok a => exact hf a

theorem map {x : Except Fault α} (f : α → β) (hx : FailsByText x) : FailsByText (f <$> x) := by
  cases x with
  | error fault => exact error (hx fault rfl)
  | ok a => exact ok (f a)

end FailsByText

theorem Duration.failsByText_parse (text : String) : FailsByText (Duration.parse text) := by
  unfold Duration.parse
  split
  · refine .bind ?_ fun hours => .bind ?_ fun minutes => .bind ?_ fun rest => ?_
    · unfold wholeField
      split
      · exact .ok _
      · exact .error trivial
    · unfold wholeField
      split
      · exact .ok _
      · exact .error trivial
    · unfold secondsField
      split
      · exact .ok _
      · exact .error trivial
    · dsimp only
      split
      · exact .ok _
      · exact .error trivial
  · exact .error trivial

namespace Fields

theorem failsByText_piece (fields : Fields) (field : String) : FailsByText (fields.piece field) := by
  unfold piece
  split
  · exact .ok _
  · exact .error trivial

theorem failsByText_text (fields : Fields) (field : String) : FailsByText (fields.text field) :=
  .bind (failsByText_piece fields field) fun _ => .ok _

theorem failsByText_unsigned (greatest : Nat) (fields : Fields) (field : String) :
    FailsByText (fields.unsigned greatest field) := by
  refine .bind (failsByText_piece fields field) fun piece => ?_
  split
  · exact .ok _
  · exact .error trivial

theorem failsByText_word32 (fields : Fields) (field : String) : FailsByText (fields.word32 field) :=
  .bind (failsByText_unsigned _ fields field) fun _ => .ok _

theorem failsByText_word64 (fields : Fields) (field : String) : FailsByText (fields.word64 field) :=
  .bind (failsByText_unsigned _ fields field) fun _ => .ok _

end Fields

namespace Line.DriverLine

theorem failsByText_ofResult (time : List Char) (fields : Fields) : FailsByText (ofResult time fields) := by
  unfold ofResult
  refine .bind (Duration.failsByText_parse _) fun _ => ?_
  repeat' first
    | exact .ok _
    | refine .bind (Fields.failsByText_text fields _) fun _ => ?_
    | refine .bind (Fields.failsByText_word32 fields _) fun _ => ?_
    | refine .bind (Fields.failsByText_word64 fields _) fun _ => ?_

theorem failsByText_ofLine (line : List Char) : FailsByText (ofLine line) := by
  unfold ofLine
  split
  · unfold ofMessage
    split
    · refine .map _ (.bind (Duration.failsByText_parse _) fun _ => ?_)
      exact .bind (Fields.failsByText_text _ _) fun _ => .ok _
    · split
      · exact .map _ (.bind (Duration.failsByText_parse _) fun _ => .ok _)
      · split
        · exact .map _ (failsByText_ofResult _ _)
        · exact .ok _
  · exact .ok _

end Line.DriverLine

namespace Line.ProxyLine

theorem failsByText_counters (fields : Fields) : FailsByText (counters fields) := by
  unfold counters
  repeat' first
    | exact .ok _
    | refine .bind (Fields.failsByText_word64 fields _) fun _ => ?_

theorem failsByText_report (time : List Char) (fields : Fields) : FailsByText (report time fields) :=
  .bind (Duration.failsByText_parse _) fun _ => .bind (failsByText_counters fields) fun _ => .ok _

theorem failsByText_ofLine (line : List Char) : FailsByText (ofLine line) := by
  unfold ofLine
  split
  · unfold ofMessage
    split
    · exact .map _ (failsByText_report _ _)
    · split
      · exact .map _ (failsByText_report _ _)
      · exact .ok _
  · exact .ok _

end Line.ProxyLine

end PageLoads
