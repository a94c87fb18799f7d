import PageLoads.Line.DriverLine
import PageLoads.Line.ProxyLine
import PageLoads.Proofs.Pattern.Fields

namespace PageLoads.Line

open PageLoads.Text
open PageLoads.Pattern

/-- A form of messages and how its fields are read. -/
structure Form (β : Type) where
  pattern : Pattern
  /-- The fields that are converted to numbers, each with the greatest one that its type admits. -/
  converted : List (String × Nat)
  read : List Char → Fields → Except Fault β
  /-- The numbers in what was read, under the names of their fields. -/
  numbers : β → List (String × Nat)

def Form.Excludes {β : Type} (form other : Form β) : Prop :=
  ∀ message, form.pattern.fields? message = none ∨ other.pattern.fields? message = none

def TimeRefused (time : List Char) : Prop :=
  ∃ fault, Duration.parse (String.ofList time) = .error fault

/-- Some number that is converted is greater than its type admits. -/
def Form.NumberRefused {β : Type} (form : Form β) (fields : Fields) : Prop :=
  ∃ entry ∈ form.converted, fields.Exceeds entry.1 entry.2

/-- The fields of a message are read as the form says: it is refused because of its time or of a number that is
converted, and each number read is the value of the digits of its field. -/
structure Form.Exact {β : Type} (form : Form β) : Prop where
  failsExactly {message : List Char} {fields : Fields} (h : form.pattern.fields? message = some fields)
    (time : List Char) : FailsExactly (form.read time fields) (TimeRefused time ∨ form.NumberRefused fields)
  numbers_eq {time message : List Char} {fields : Fields} {found : β}
    (h : form.pattern.fields? message = some fields) (hread : form.read time fields = .ok found) :
    List.Forall₂ (fun entry number => number.1 = entry.1 ∧ fields.HasValue entry.1 number.2)
      form.converted (form.numbers found)

/-- Reads a message in the first of some forms that it has. -/
def classify {β : Type} (time message : List Char) : List (Form β) → Except Fault (Option β)
  | [] => .ok none
  | form :: others =>
    match form.pattern.fields? message with
    | some fields => some <$> form.read time fields
    | none => classify time message others

def classifyLine {β : Type} (forms : List (Form β)) (line : List Char) : Except Fault (Option β) :=
  match split? line with
  | some (time, message) => classify time message forms
  | none => .ok none

/-- What a reader of lines does that knows some forms. -/
structure IsReaderOf {β : Type} (forms : List (Form β)) (ofLine : List Char → Except Fault (Option β)) : Prop where
  /-- The forms may be tried in any order. -/
  of_perm {others : List (Form β)} (h : others.Perm forms) (line : List Char) :
    ofLine line = classifyLine others line
  /-- A line is skipped exactly if its message has no form, whatever its time. -/
  skips_iff (line : List Char) : ofLine line = .ok none ↔
    ∀ time message, split? line = some (time, message) → ∀ form ∈ forms, form.pattern.fields? message = none
  /-- A line is refused exactly if its message has a form and its time or a number is refused, and never for want
  of a field. -/
  failsExactly (line : List Char) : FailsExactly (ofLine line) <|
    ∃ time message, split? line = some (time, message) ∧ ∃ form ∈ forms, ∃ fields,
      form.pattern.fields? message = some fields ∧ (TimeRefused time ∨ form.NumberRefused fields)
  numbers_eq {line : List Char} {found : β} (h : ofLine line = .ok (some found)) :
    ∃ time message, split? line = some (time, message) ∧ ∃ form ∈ forms, ∃ fields,
      form.pattern.fields? message = some fields ∧
        List.Forall₂ (fun entry number => number.1 = entry.1 ∧ fields.HasValue entry.1 number.2)
          form.converted (form.numbers found)

section classify

variable {β : Type} {forms : List (Form β)} {form : Form β} {time message : List Char} {fields : Fields}

theorem classify_eq_none (h : ∀ form ∈ forms, form.pattern.fields? message = none) :
    classify time message forms = .ok none := by
  induction forms with
  | nil => rfl
  | cons form others ih =>
    obtain ⟨hform, hothers⟩ := List.forall_mem_cons.mp h
    simp only [classify, hform]
    exact ih hothers

theorem classify_eq_of_mem (hforms : forms.Pairwise Form.Excludes) (hmem : form ∈ forms)
    (h : form.pattern.fields? message = some fields) :
    classify time message forms = some <$> form.read time fields := by
  induction forms with
  | nil => cases hmem
  | cons first others ih =>
    obtain ⟨hfirst, hothers⟩ := List.pairwise_cons.mp hforms
    rcases List.mem_cons.mp hmem with rfl | hlater
    · simp only [classify, h]
    · have hnone : first.pattern.fields? message = none := by
        refine (hfirst form hlater message).resolve_right ?_
        rw [h]
        exact Option.some_ne_none fields
      simp only [classify, hnone]
      exact ih hothers hlater

theorem classify_cases (hforms : forms.Pairwise Form.Excludes) (time message : List Char) :
    (∀ form ∈ forms, form.pattern.fields? message = none) ∧ classify time message forms = .ok none ∨
    ∃ form ∈ forms, ∃ fields, form.pattern.fields? message = some fields ∧
      classify time message forms = some <$> form.read time fields := by
  by_cases hnone : ∀ form ∈ forms, form.pattern.fields? message = none
  · exact Or.inl ⟨hnone, classify_eq_none hnone⟩
  · push Not at hnone
    obtain ⟨form, hmem, hsome⟩ := hnone
    obtain ⟨fields, hfields⟩ := Option.ne_none_iff_exists'.mp hsome
    exact Or.inr ⟨form, hmem, fields, hfields, classify_eq_of_mem hforms hmem hfields⟩

theorem classify_eq_none_iff (hforms : forms.Pairwise Form.Excludes) (time message : List Char) :
    classify time message forms = .ok none ↔ ∀ form ∈ forms, form.pattern.fields? message = none := by
  refine ⟨fun h => ?_, classify_eq_none⟩
  rcases classify_cases hforms time message with ⟨hnone, _⟩ | ⟨form, _, fields, _, hread⟩
  · exact hnone
  · obtain ⟨_, _, hfound⟩ := Except.map_eq_ok_iff.mp (hread.symm.trans h)
    cases hfound

theorem excludes_symm {form other : Form β} (h : form.Excludes other) : other.Excludes form :=
  fun message => (h message).symm

theorem classify_eq_of_perm {others : List (Form β)} (hforms : forms.Pairwise Form.Excludes)
    (h : others.Perm forms) (time message : List Char) :
    classify time message others = classify time message forms := by
  have hothers : others.Pairwise Form.Excludes := h.symm.pairwise hforms excludes_symm
  rcases classify_cases hforms time message with ⟨hnone, hread⟩ | ⟨form, hmem, fields, hfields, hread⟩
  · rw [hread, classify_eq_none fun form hmem => hnone form (h.mem_iff.mp hmem)]
  · rw [hread, classify_eq_of_mem hothers (h.mem_iff.mpr hmem) hfields]

theorem failsExactly_classify (hforms : forms.Pairwise Form.Excludes) (hexact : ∀ form ∈ forms, form.Exact)
    (time message : List Char) : FailsExactly (classify time message forms) <|
      ∃ form ∈ forms, ∃ fields, form.pattern.fields? message = some fields ∧
        (TimeRefused time ∨ form.NumberRefused fields) := by
  have hread {form : Form β} (hmem : form ∈ forms) {fields : Fields}
      (hfields : form.pattern.fields? message = some fields) :
      FailsExactly (classify time message forms) (TimeRefused time ∨ form.NumberRefused fields) := by
    rw [classify_eq_of_mem hforms hmem hfields]
    exact ((hexact form hmem).failsExactly hfields time).map some
  rcases classify_cases hforms time message with ⟨hnone, hskipped⟩ | ⟨form, hmem, fields, hfields, _⟩
  · rw [hskipped]
    refine ⟨iff_of_false (by simp) ?_, by simp⟩
    rintro ⟨form, hmem, fields, hfields, _⟩
    rw [hnone form hmem] at hfields
    cases hfields
  · refine ⟨⟨fun hfails => ?_, ?_⟩, (hread hmem hfields).field_present⟩
    · exact ⟨form, hmem, fields, hfields, (hread hmem hfields).iff.mp hfails⟩
    · rintro ⟨other, hother, fields', hfields', hrefused⟩
      exact (hread hother hfields').iff.mpr hrefused

/-- Forms that exclude each other and are read exactly make a reader of lines. -/
theorem isReaderOf_classifyLine (hforms : forms.Pairwise Form.Excludes) (hexact : ∀ form ∈ forms, form.Exact) :
    IsReaderOf forms (classifyLine forms) := by
  constructor
  case of_perm =>
    intro others hperm line
    unfold classifyLine
    cases split? line with
    | none => rfl
    | some parts => exact (classify_eq_of_perm hforms hperm parts.1 parts.2).symm
  case skips_iff =>
    intro line
    unfold classifyLine
    cases split? line with
    | none => simp
    | some parts =>
      refine (classify_eq_none_iff hforms parts.1 parts.2).trans ⟨?_, fun h => h _ _ rfl⟩
      rintro h _ _ ⟨⟩
      exact h
  case failsExactly =>
    intro line
    unfold classifyLine
    cases split? line with
    | none => exact ⟨iff_of_false (by simp) (by rintro ⟨_, _, ⟨⟩, _⟩), by simp⟩
    | some parts =>
      obtain ⟨hiff, hpresent⟩ := failsExactly_classify hforms hexact parts.1 parts.2
      refine ⟨hiff.trans ⟨fun h => ⟨parts.1, parts.2, rfl, h⟩, ?_⟩, hpresent⟩
      rintro ⟨_, _, ⟨⟩, h⟩
      exact h
  case numbers_eq =>
    intro line found h
    unfold classifyLine at h
    cases hsplit : split? line with
    | none => simp [hsplit] at h
    | some parts =>
      obtain ⟨time, message⟩ := parts
      simp only [hsplit] at h
      rcases classify_cases hforms time message with ⟨_, hread⟩ | ⟨form, hmem, fields, hfields, hread⟩
      · rw [hread] at h
        cases h
      · rw [hread] at h
        obtain ⟨line, hline, hfound⟩ := Except.map_eq_ok_iff.mp h
        cases hfound
        exact ⟨time, message, rfl, form, hmem, fields, hfields, (hexact form hmem).numbers_eq hfields hline⟩

end classify

end PageLoads.Line
