import PageLoads.Proofs.Except
import PageLoads.Proofs.Pattern.Apart

namespace PageLoads

open PageLoads.Text

namespace Decimal

theorem unsigned?_of_isNumeral {digits : List Char} (h : IsNumeral digits) (greatest : Nat) :
    unsigned? greatest digits = if digitsValue digits ≤ greatest then some (digitsValue digits) else none := by
  have hvalue : digits? digits = some (digitsValue digits) := if_pos ⟨h.1, List.all_eq_true.mpr h.2⟩
  unfold unsigned?
  split
  · exact absurd (h.2 '+' List.mem_cons_self) (by decide)
  · simp [hvalue, Option.filter]

end Decimal

/-- A reading that fails exactly under a condition, and never for want of a field. -/
structure FailsExactly {α : Type} (x : Except Fault α) (refused : Prop) : Prop where
  iff : (∃ fault, x = .error fault) ↔ refused
  field_present : ∀ line pattern field, x ≠ .error (.format line (.missingField pattern field))

namespace FailsExactly

variable {α β : Type} {x : Except Fault α} {f : α → Except Fault β} {refused later : Prop}

theorem ok (a : α) : FailsExactly (.ok a) False :=
  ⟨by simp, by simp⟩

theorem bind (hx : FailsExactly x refused) (hf : ∀ a, FailsExactly (f a) later) :
    FailsExactly (x >>= f) (refused ∨ later) := by
  cases x with
  | error fault =>
    have hrefused : refused := hx.iff.mp ⟨fault, rfl⟩
    refine ⟨iff_of_true ⟨fault, rfl⟩ (Or.inl hrefused), ?_⟩
    rintro line pattern field ⟨⟩
    exact hx.field_present line pattern field rfl
  | ok a =>
    have hadmitted : ¬ refused := fun hrefused => by simpa using hx.iff.mpr hrefused
    exact ⟨(hf a).iff.trans (or_iff_right hadmitted).symm, (hf a).field_present⟩

theorem congr {other : Prop} (hx : FailsExactly x refused) (h : refused ↔ other) : FailsExactly x other :=
  ⟨hx.iff.trans h, hx.field_present⟩

theorem bind_ok (hx : ∃ a, x = .ok a) (hf : ∀ a, FailsExactly (f a) later) : FailsExactly (x >>= f) later := by
  obtain ⟨a, rfl⟩ := hx
  exact hf a

theorem map (g : α → β) (hx : FailsExactly x refused) : FailsExactly (g <$> x) refused := by
  have hbind : g <$> x = x >>= fun a => .ok (g a) := by
    cases x <;> rfl
  rw [hbind]
  exact (hx.bind fun a => ok (g a)).congr (or_iff_left not_false)

end FailsExactly

namespace Pattern

/-- A number stands under this name, and no text does. -/
def hasNumber (pattern : Pattern) (field : String) : Bool :=
  pattern.tokens.contains (.number field) && !pattern.tokens.contains (.text field)

def hasText (pattern : Pattern) (field : String) : Bool :=
  pattern.tokens.contains (.text field)

variable {pattern : Pattern} {message : List Char} {fields : Fields} {field : String}

/-- A name that a token gives to its piece is found, and what is found is a piece of a token of this name. -/
theorem exists_lookup_fieldsOf {tokens : List Token} {pieces : List (List Char)}
    (h : List.Forall₂ Token.Admits tokens pieces) {token : Token} (hmem : token ∈ tokens)
    (hfield : token.field? = some field) :
    ∃ found ∈ tokens, found.field? = some field ∧
      ∃ piece, (fieldsOf tokens pieces).lookup field = some piece ∧ found.Admits piece := by
  induction h with
  | nil => cases hmem
  | @cons first piece tokens pieces hpiece _ ih =>
    rw [fieldsOf_cons]
    by_cases hfirst : first.field? = some field
    · exact ⟨first, List.mem_cons_self, hfirst, piece, by simp [hfirst], hpiece⟩
    · have hlater : token ∈ tokens := by
        rcases List.mem_cons.mp hmem with rfl | hlater
        · exact absurd hfield hfirst
        · exact hlater
      obtain ⟨found, hfound, hname, other, hlookup, hadmits⟩ := ih hlater
      refine ⟨found, List.mem_cons_of_mem _ hfound, hname, other, ?_, hadmits⟩
      cases hother : first.field? with
      | none => simpa using hlookup
      | some name =>
        have hne : field ≠ name := by
          rintro rfl
          exact hfirst hother
        simpa [List.lookup_cons, beq_eq_false_iff_ne.mpr hne] using hlookup

theorem exists_get?_of_mem (h : pattern.fields? message = some fields) {token : Token}
    (hmem : token ∈ pattern.tokens) (hfield : token.field? = some field) :
    ∃ found ∈ pattern.tokens, found.field? = some field ∧
      ∃ piece, fields.get? field = some piece ∧ found.Admits piece := by
  obtain ⟨pieces, hpieces, rfl⟩ := fields?_eq_some_iff.mp h
  exact exists_lookup_fieldsOf (isCut_of_preferred? hpieces).1 hmem hfield

theorem exists_numeral (h : pattern.fields? message = some fields) (hnumber : pattern.hasNumber field = true) :
    ∃ digits, fields.get? field = some digits ∧ IsNumeral digits := by
  simp only [hasNumber, Bool.and_eq_true, Bool.not_eq_true', List.contains_iff_mem,
    ← Bool.not_eq_true] at hnumber
  obtain ⟨found, hfound, hname, digits, hget, hadmits⟩ := exists_get?_of_mem h hnumber.1 rfl
  refine ⟨digits, hget, ?_⟩
  cases found with
  | number _ => exact hadmits
  | text _ =>
    cases hname
    exact absurd hfound hnumber.2
  | literal _ => cases hname
  | oneOf _ => cases hname
  | skip => cases hname

theorem exists_text (h : pattern.fields? message = some fields) (htext : pattern.hasText field = true) :
    ∃ text, fields.text field = .ok text := by
  obtain ⟨_, _, _, piece, hget, _⟩ := exists_get?_of_mem h (List.contains_iff_mem.mp htext) rfl
  exact ⟨_, Fields.text_of_get? hget⟩

end Pattern

namespace Fields

variable {fields : Fields} {field : String} {digits : List Char}

/-- The digits of a field have a value greater than some number. -/
def Exceeds (fields : Fields) (field : String) (greatest : Nat) : Prop :=
  ∃ digits, fields.get? field = some digits ∧ greatest < Decimal.digitsValue digits

/-- The field is a number of this value. -/
def HasValue (fields : Fields) (field : String) (n : Nat) : Prop :=
  ∃ digits, fields.get? field = some digits ∧ IsNumeral digits ∧ Decimal.digitsValue digits = n

theorem piece_cons {pattern name : String} {captures : Pattern.Captures} (h : field ≠ name) :
    piece ⟨pattern, (name, digits) :: captures⟩ field = piece ⟨pattern, captures⟩ field := by
  simp [piece, get?, List.lookup_cons, beq_eq_false_iff_ne.mpr h]

theorem unsigned_of_isNumeral (hget : fields.get? field = some digits) (hdigits : IsNumeral digits)
    (greatest : Nat) :
    fields.unsigned greatest field =
      if Decimal.digitsValue digits ≤ greatest then .ok (Decimal.digitsValue digits)
      else .error (.range none (.doesNotFit fields.pattern field (String.ofList digits))) := by
  have hread := Decimal.unsigned?_of_isNumeral hdigits greatest
  split
  · rename_i hle
    rw [if_pos hle] at hread
    simp [unsigned, numberBy, piece, hget, hread, bind, Except.bind, pure, Except.pure]
  · rename_i hnot
    rw [if_neg hnot] at hread
    simp [unsigned, numberBy, piece, hget, hread, bind, Except.bind, throw, throwThe, MonadExceptOf.throw]

theorem failsExactly_unsigned (hget : fields.get? field = some digits) (hdigits : IsNumeral digits)
    (greatest : Nat) : FailsExactly (fields.unsigned greatest field) (fields.Exceeds field greatest) := by
  have hexceeds : fields.Exceeds field greatest ↔ greatest < Decimal.digitsValue digits := by
    simp [Exceeds, hget]
  rw [unsigned_of_isNumeral hget hdigits]
  split
  · rename_i hle
    refine ⟨iff_of_false (by simp) ?_, by simp⟩
    rw [hexceeds]
    exact Nat.not_lt.mpr hle
  · rename_i hnot
    refine ⟨iff_of_true ⟨_, rfl⟩ ?_, by simp⟩
    rw [hexceeds]
    exact Nat.not_le.mp hnot

theorem hasValue_of_unsigned (hget : fields.get? field = some digits) (hdigits : IsNumeral digits)
    {greatest n : Nat} (h : fields.unsigned greatest field = .ok n) : n ≤ greatest ∧ fields.HasValue field n := by
  rw [unsigned_of_isNumeral hget hdigits] at h
  split at h
  · rename_i hle
    cases h
    exact ⟨hle, digits, hget, hdigits, rfl⟩
  · cases h

end Fields

namespace Pattern

variable {pattern : Pattern} {message : List Char} {fields : Fields} {field : String}

theorem failsExactly_word32 (h : pattern.fields? message = some fields) (hnumber : pattern.hasNumber field = true) :
    FailsExactly (fields.word32 field) (fields.Exceeds field (UInt32.size - 1)) := by
  obtain ⟨digits, hget, hdigits⟩ := exists_numeral h hnumber
  exact .map _ (Fields.failsExactly_unsigned hget hdigits _)

theorem failsExactly_word64 (h : pattern.fields? message = some fields) (hnumber : pattern.hasNumber field = true) :
    FailsExactly (fields.word64 field) (fields.Exceeds field (UInt64.size - 1)) := by
  obtain ⟨digits, hget, hdigits⟩ := exists_numeral h hnumber
  exact .map _ (Fields.failsExactly_unsigned hget hdigits _)

theorem exists_hasValue_of_bind {β : Type} {greatest : Nat} {convert : Nat → β} {found : β}
    (h : pattern.fields? message = some fields) (hnumber : pattern.hasNumber field = true)
    (hread : (fields.unsigned greatest field >>= fun n => .ok (convert n)) = .ok found) :
    ∃ n ≤ greatest, fields.HasValue field n ∧ convert n = found := by
  obtain ⟨digits, hget, hdigits⟩ := exists_numeral h hnumber
  obtain ⟨n, hn, hfound⟩ := Except.bind_eq_ok_iff.mp hread
  obtain ⟨hle, hvalue⟩ := Fields.hasValue_of_unsigned hget hdigits hn
  exact ⟨n, hle, hvalue, Except.ok.inj hfound⟩

theorem hasValue_of_word32 (h : pattern.fields? message = some fields) (hnumber : pattern.hasNumber field = true)
    {n : UInt32} (hread : fields.word32 field = .ok n) : fields.HasValue field n.toNat := by
  obtain ⟨m, hle, hvalue, rfl⟩ := exists_hasValue_of_bind h hnumber hread
  rwa [UInt32.toNat_ofNat_of_lt' (Nat.lt_of_le_sub_one (by decide) hle)]

theorem hasValue_of_word64 (h : pattern.fields? message = some fields) (hnumber : pattern.hasNumber field = true)
    {n : UInt64} (hread : fields.word64 field = .ok n) : fields.HasValue field n.toNat := by
  obtain ⟨m, hle, hvalue, rfl⟩ := exists_hasValue_of_bind h hnumber hread
  rwa [UInt64.toNat_ofNat_of_lt' (Nat.lt_of_le_sub_one (by decide) hle)]

end Pattern

end PageLoads
