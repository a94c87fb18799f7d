import Mathlib
import PageLoads.Line.Stamp
import PageLoads.Proofs.Pattern.Cut
import PageLoads.Proofs.Text.Run

/-!
# Stamps of lines

Which lines of a program are split into a stamp and a message, and where. A location and a function name may
hold what looks like the end of either, so a line can have many stamps. They all begin alike, up to the
location, and the message is what follows the shortest of them.
-/

namespace PageLoads.Line

open PageLoads.Text
open PageLoads.Pattern (after? after?_eq_some_iff)

/-- What a line of a program has before its message. -/
structure Stamp where
  time : List Char
  level : List Char
  gap : Nat
  location : List Char
  number : List Char
  function : List Char
  blanks : Nat

namespace Stamp

def functionEnd : List Char :=
  "() ::".toList

/-- The source location and the function, as far as the end of the function name. -/
def place (stamp : Stamp) : List Char :=
  stamp.location ++ " :".toList ++ stamp.number ++ ", ".toList ++ stamp.function

def text (stamp : Stamp) : List Char :=
  stamp.time ++ ' ' :: stamp.level ++ List.replicate stamp.gap ' ' ++ "- ".toList ++ stamp.place ++
    functionEnd ++ List.replicate stamp.blanks ' '

/-- No part is empty, and the time, the level and the line number consist of their characters. -/
structure WellFormed (stamp : Stamp) : Prop where
  time_ne_nil : stamp.time ≠ []
  time_chars : ∀ c ∈ stamp.time, isTimeChar c
  level_ne_nil : stamp.level ≠ []
  level_chars : ∀ c ∈ stamp.level, isLevelChar c
  gap_pos : 0 < stamp.gap
  location_ne_nil : stamp.location ≠ []
  number_ne_nil : stamp.number ≠ []
  number_digits : ∀ c ∈ stamp.number, isDecimalDigit c
  function_ne_nil : stamp.function ≠ []
  blanks_pos : 0 < stamp.blanks

instance (stamp : Stamp) : Decidable stamp.WellFormed :=
  decidable_of_iff
    ((stamp.time ≠ [] ∧ stamp.time.all isTimeChar) ∧ (stamp.level ≠ [] ∧ stamp.level.all isLevelChar) ∧
      0 < stamp.gap ∧ stamp.location ≠ [] ∧ (stamp.number ≠ [] ∧ stamp.number.all isDecimalDigit) ∧
      stamp.function ≠ [] ∧ 0 < stamp.blanks) <| by
    simp only [List.all_eq_true]
    constructor
    · rintro ⟨⟨htime, htimes⟩, ⟨hlevel, hlevels⟩, hgap, hlocation, ⟨hnumber, hdigits⟩, hfunction, hblanks⟩
      exact ⟨htime, htimes, hlevel, hlevels, hgap, hlocation, hnumber, hdigits, hfunction, hblanks⟩
    · rintro ⟨htime, htimes, hlevel, hlevels, hgap, hlocation, hnumber, hdigits, hfunction, hblanks⟩
      exact ⟨⟨htime, htimes⟩, ⟨hlevel, hlevels⟩, hgap, hlocation, ⟨hnumber, hdigits⟩, hfunction, hblanks⟩

end Stamp

open Stamp (functionEnd)

variable {isMember : Char → Bool} {cs run rest message : List Char}

theorem span?_eq_some_iff :
    span? isMember cs = some (run, rest) ↔ run ≠ [] ∧ (∀ c ∈ run, isMember c) ∧
      (∀ c ∈ rest.head?, isMember c = false) ∧ cs = run ++ rest := by
  constructor
  · intro h
    unfold span? at h
    rw [List.span_eq_takeWhile_dropWhile] at h
    split at h
    · cases h
    · rename_i hne hsplit
      cases h
      obtain ⟨rfl, rfl⟩ := Prod.mk.inj hsplit
      refine ⟨hne, fun c hc => List.mem_takeWhile_imp hc, ?_, by simp⟩
      intro c hc
      have hhead := List.head?_dropWhile_not isMember cs
      rw [hc] at hhead
      exact hhead
  · rintro ⟨hne, hrun, hrest, rfl⟩
    unfold span?
    rw [span_append hrun hrest]
    cases run with
    | nil => exact absurd rfl hne
    | cons c run => rfl

theorem skip?_eq_some_iff :
    skip? isMember cs = some rest ↔ ∃ run, run ≠ [] ∧ (∀ c ∈ run, isMember c) ∧
      (∀ c ∈ rest.head?, isMember c = false) ∧ cs = run ++ rest := by
  simp [skip?, Option.map_eq_some_iff, span?_eq_some_iff]

theorem exists_seek_eq_some {β : Type} {match? : List Char → Option β} (before : List Char) {found : β}
    (h : match? rest = some found) :
    ∃ skipped later first, before = skipped ++ later ∧ match? (later ++ rest) = some first ∧
      seek match? (before ++ rest) = some first := by
  induction before with
  | nil =>
    refine ⟨[], [], found, rfl, h, ?_⟩
    cases rest <;> simp [seek, h]
  | cons c before ih =>
    cases hfirst : match? (c :: before ++ rest) with
    | some first =>
      refine ⟨[], c :: before, first, rfl, hfirst, ?_⟩
      rw [List.cons_append] at hfirst ⊢
      simp only [seek, hfirst]
    | none =>
      obtain ⟨skipped, later, first, rfl, hlater, hseek⟩ := ih
      refine ⟨c :: skipped, later, first, rfl, hlater, ?_⟩
      rw [List.cons_append] at hfirst ⊢
      simp only [seek, hfirst, hseek]

theorem exists_of_seek_eq_some {β : Type} {match? : List Char → Option β} {found : β}
    (h : seek match? cs = some found) : ∃ before rest, cs = before ++ rest ∧ match? rest = some found := by
  induction cs with
  | nil => exact ⟨[], [], rfl, h⟩
  | cons c cs ih =>
    unfold seek at h
    split at h
    · rename_i hfound
      exact ⟨[], c :: cs, rfl, hfound.trans h⟩
    · obtain ⟨before, rest, rfl, hrest⟩ := ih h
      exact ⟨c :: before, rest, rfl, hrest⟩

/-- What begins with a character that an equal text does not have in its first part lies behind this part. -/
theorem exists_eq_append_of_not_mem {c : Char} {first second before behind : List Char}
    (h : first ++ second = before ++ c :: behind) (hc : c ∉ first) : ∃ between, second = between ++ c :: behind := by
  rcases List.append_eq_append_iff.mp h with ⟨between, _, hsecond⟩ | ⟨between, rfl, hbehind⟩
  · exact ⟨between, hsecond⟩
  · cases between with
    | nil => exact ⟨[], by simpa using hbehind.symm⟩
    | cons d between =>
      obtain ⟨rfl, _⟩ := List.cons.inj hbehind
      exact absurd (by simp) hc

/-- A message behind a name, the end of a function name and blanks. -/
def EndsFunction (cs message : List Char) : Prop :=
  ∃ function blanks, function ≠ [] ∧ 0 < blanks ∧
    cs = function ++ functionEnd ++ List.replicate blanks ' ' ++ message

theorem EndsFunction.prepend (h : EndsFunction cs message) (before : List Char) :
    EndsFunction (before ++ cs) message := by
  obtain ⟨function, blanks, hfunction, hblanks, rfl⟩ := h
  exact ⟨before ++ function, blanks, by simp [hfunction], hblanks, by simp⟩

theorem afterFunction?_eq_some_iff :
    afterFunction? cs = some message ↔ message.head? ≠ some ' ' ∧
      ∃ blanks, 0 < blanks ∧ cs = functionEnd ++ List.replicate blanks ' ' ++ message := by
  simp only [afterFunction?, Option.bind_eq_bind, Option.bind_eq_some_iff, after?_eq_some_iff,
    skip?_eq_some_iff, decide_eq_true_eq, decide_eq_false_iff_not]
  constructor
  · rintro ⟨_, rfl, run, hne, hrun, hmessage, rfl⟩
    refine ⟨fun hhead => hmessage ' ' hhead rfl, run.length, List.length_pos_iff.mpr hne, ?_⟩
    rw [← List.eq_replicate_iff.mpr ⟨rfl, hrun⟩, List.append_assoc]
    rfl
  · rintro ⟨hmessage, blanks, hblanks, rfl⟩
    refine ⟨_, List.append_assoc .., List.replicate blanks ' ', by simp; omega, ?_, ?_, rfl⟩
    · intro c hc
      exact List.eq_of_mem_replicate hc
    · rintro c hc rfl
      exact hmessage hc

/-- The message behind the first end of a function name is no shorter than any other. -/
theorem EndsFunction.exists_seek (h : EndsFunction cs message) (hmessage : message.head? ≠ some ' ') :
    ∃ c rest first, cs = c :: rest ∧ seek afterFunction? rest = some first ∧
      message.length ≤ first.length := by
  obtain ⟨function, blanks, hfunction, hblanks, rfl⟩ := h
  obtain ⟨c, function, rfl⟩ := List.exists_cons_of_ne_nil hfunction
  have hmatch : afterFunction? (functionEnd ++ List.replicate blanks ' ' ++ message) = some message :=
    afterFunction?_eq_some_iff.mpr ⟨hmessage, blanks, hblanks, rfl⟩
  obtain ⟨skipped, later, first, rfl, hfirst, hseek⟩ := exists_seek_eq_some function hmatch
  refine ⟨c, _, first, by simp, hseek, ?_⟩
  cases later with
  | nil =>
    rw [List.nil_append, hmatch] at hfirst
    cases hfirst
    exact Nat.le_refl _
  | cons d later =>
    obtain ⟨_, between, _, hsplit⟩ := afterFunction?_eq_some_iff.mp hfirst
    have hrest : (") ::".toList ++ List.replicate between ' ') ++ first =
        later ++ '(' :: (") ::".toList ++ List.replicate blanks ' ' ++ message) := by
      have htail := congrArg List.tail hsplit
      simpa [functionEnd] using htail.symm
    have hparen : '(' ∉ ") ::".toList ++ List.replicate between ' ' := by
      simp
    obtain ⟨gap, rfl⟩ := exists_eq_append_of_not_mem hrest hparen
    simp
    omega

theorem endsFunction_of_seek {c : Char} (h : seek afterFunction? rest = some message) :
    EndsFunction (c :: rest) message ∧ message.head? ≠ some ' ' := by
  obtain ⟨function, last, rfl, hlast⟩ := exists_of_seek_eq_some h
  obtain ⟨hmessage, blanks, hblanks, rfl⟩ := afterFunction?_eq_some_iff.mp hlast
  exact ⟨⟨c :: function, blanks, by simp, hblanks, by simp⟩, hmessage⟩

theorem afterLocation?_eq_some_iff :
    afterLocation? cs = some message ↔ ∃ number c rest, number ≠ [] ∧ (∀ d ∈ number, isDecimalDigit d) ∧
      cs = " :".toList ++ number ++ ", ".toList ++ c :: rest ∧ seek afterFunction? rest = some message := by
  simp only [afterLocation?, Option.bind_eq_bind, Option.bind_eq_some_iff, after?_eq_some_iff,
    skip?_eq_some_iff]
  constructor
  · rintro ⟨_, rfl, _, ⟨number, hnumber, hdigits, _, rfl⟩, behind, rfl, h⟩
    cases behind with
    | nil => cases h
    | cons c rest => exact ⟨number, c, rest, hnumber, hdigits, by simp, h⟩
  · rintro ⟨number, c, rest, hnumber, hdigits, rfl, h⟩
    refine ⟨number ++ ", ".toList ++ c :: rest, by simp, ", ".toList ++ c :: rest, ?_, c :: rest, rfl, h⟩
    refine ⟨number, hnumber, hdigits, ?_, by simp⟩
    intro d hd
    cases hd
    decide

/-- A message behind a location, a line number and a function. -/
def EndsStamp (cs message : List Char) : Prop :=
  ∃ location number rest, location ≠ [] ∧ number ≠ [] ∧ (∀ d ∈ number, isDecimalDigit d) ∧
    cs = location ++ " :".toList ++ number ++ ", ".toList ++ rest ∧ EndsFunction rest message

/-- The message behind the first end of a location that a function follows is no shorter than any other: what
follows a later end also follows this one, and can be part of the name of its function. -/
theorem EndsStamp.exists_seek (h : EndsStamp cs message) (hmessage : message.head? ≠ some ' ') :
    ∃ c rest first, cs = c :: rest ∧ seek afterLocation? rest = some first ∧
      message.length ≤ first.length := by
  obtain ⟨location, number, rest, hlocation, hnumber, hdigits, rfl, hfunction⟩ := h
  obtain ⟨c, location, rfl⟩ := List.exists_cons_of_ne_nil hlocation
  obtain ⟨d, name, found, rfl, hfound, hlength⟩ := hfunction.exists_seek hmessage
  have hmatch : afterLocation? (" :".toList ++ number ++ ", ".toList ++ d :: name) = some found :=
    afterLocation?_eq_some_iff.mpr ⟨number, d, name, hnumber, hdigits, rfl, hfound⟩
  obtain ⟨skipped, later, first, rfl, hfirst, hseek⟩ := exists_seek_eq_some location hmatch
  refine ⟨c, _, first, by simp, hseek, ?_⟩
  cases later with
  | nil =>
    rw [List.nil_append, hmatch] at hfirst
    cases hfirst
    exact hlength
  | cons e later =>
    obtain ⟨between, d', name', _, hbetween, hsplit, hfirst⟩ := afterLocation?_eq_some_iff.mp hfirst
    have hrest : (":".toList ++ between ++ ",".toList) ++ ' ' :: d' :: name' =
        later ++ ' ' :: (":".toList ++ number ++ ", ".toList ++ d :: name) := by
      have htail := congrArg List.tail hsplit
      simpa using htail.symm
    have hblank : ' ' ∉ ":".toList ++ between ++ ",".toList := by
      have hdigit : isDecimalDigit ' ' = false := by decide
      intro hmem
      rcases List.mem_append.mp hmem with hmem | hmem
      · rcases List.mem_append.mp hmem with hmem | hmem
        · revert hmem
          decide
        · rw [hbetween ' ' hmem] at hdigit
          cases hdigit
      · revert hmem
        decide
    obtain ⟨gap, hgap⟩ := exists_eq_append_of_not_mem hrest hblank
    have hsuffix : ∃ front, d' :: name' = front ++ d :: name := by
      cases gap with
      | nil => exact ⟨":".toList ++ number ++ ", ".toList, by simpa using hgap⟩
      | cons g gap =>
        obtain ⟨_, hgap⟩ := List.cons.inj hgap
        exact ⟨gap ++ " :".toList ++ number ++ ", ".toList, by simpa using hgap⟩
    obtain ⟨front, hfront⟩ := hsuffix
    have hends : EndsFunction (d' :: name') message := hfront ▸ hfunction.prepend front
    obtain ⟨_, _, first', hcons, hfirst', hlength'⟩ := hends.exists_seek hmessage
    cases hcons
    rw [hfirst] at hfirst'
    cases hfirst'
    exact hlength'

theorem endsStamp_of_seek {c : Char} (h : seek afterLocation? rest = some message) :
    EndsStamp (c :: rest) message ∧ message.head? ≠ some ' ' := by
  obtain ⟨location, last, rfl, hlast⟩ := exists_of_seek_eq_some h
  obtain ⟨number, d, name, hnumber, hdigits, rfl, hname⟩ := afterLocation?_eq_some_iff.mp hlast
  obtain ⟨hfunction, hmessage⟩ := endsFunction_of_seek (c := d) hname
  exact ⟨⟨c :: location, number, d :: name, by simp, hnumber, hdigits, by simp, hfunction⟩, hmessage⟩

theorem split?_eq_some_iff {line time : List Char} :
    split? line = some (time, message) ↔ '\n' ∉ line ∧ time ≠ [] ∧ (∀ c ∈ time, isTimeChar c) ∧
      ∃ level gap c rest, level ≠ [] ∧ (∀ d ∈ level, isLevelChar d) ∧ 0 < gap ∧
        line = time ++ ' ' :: level ++ List.replicate gap ' ' ++ "- ".toList ++ c :: rest ∧
        seek afterLocation? rest = some message := by
  have hguard (u : Unit) : (guard ('\n' ∉ line) : Option Unit) = some u ↔ '\n' ∉ line := by
    by_cases hfeed : '\n' ∈ line <;> simp [guard, hfeed]
  simp only [split?, Option.bind_eq_bind, Option.bind_eq_some_iff, hguard, after?_eq_some_iff,
    skip?_eq_some_iff, Prod.exists, span?_eq_some_iff, decide_eq_true_eq]
  constructor
  · rintro ⟨_, hfeed, _, _, ⟨htime, htimeChars, _, rfl⟩, _, rfl, _, ⟨level, hlevel, hlevelChars, _, rfl⟩, _,
      ⟨run, hrun, hblanks, _, rfl⟩, behind, rfl, h⟩
    cases behind with
    | nil => cases h
    | cons c rest =>
      obtain ⟨found, hseek, hfound⟩ := Option.bind_eq_some_iff.mp h
      cases hfound
      refine ⟨hfeed, htime, htimeChars, level, run.length, c, rest, hlevel, hlevelChars,
        List.length_pos_iff.mpr hrun, ?_, hseek⟩
      rw [← List.eq_replicate_iff.mpr ⟨rfl, hblanks⟩]
      simp
  · rintro ⟨hfeed, htime, htimeChars, level, gap, c, rest, hlevel, hlevelChars, hgap, rfl, hseek⟩
    have hmark : ∀ d ∈ ("- ".toList ++ c :: rest).head?, decide (d = ' ') = false := by simp
    have hblanks : ∀ d ∈ (List.replicate gap ' ' ++ ("- ".toList ++ c :: rest)).head?, isLevelChar d = false := by
      obtain ⟨gap, rfl⟩ := Nat.exists_eq_succ_of_ne_zero hgap.ne'
      simp [List.replicate_succ]
      decide
    refine ⟨(), hfeed, time, ' ' :: (level ++ (List.replicate gap ' ' ++ ("- ".toList ++ c :: rest))),
      ⟨htime, htimeChars, ?_, by simp⟩, _, rfl, _, ⟨level, hlevel, hlevelChars, hblanks, rfl⟩, _,
      ⟨List.replicate gap ' ', by simp; omega, by simp, hmark, rfl⟩, c :: rest, rfl, ?_⟩
    · intro d hd
      cases hd
      decide
    · simp [hseek]

theorem Stamp.WellFormed.endsStamp {stamp : Stamp} (h : stamp.WellFormed) (message : List Char) :
    EndsStamp (stamp.place ++ functionEnd ++ List.replicate stamp.blanks ' ' ++ message) message :=
  ⟨stamp.location, stamp.number, _, h.location_ne_nil, h.number_ne_nil, h.number_digits, by simp [place],
    stamp.function, stamp.blanks, h.function_ne_nil, h.blanks_pos, rfl⟩

theorem Stamp.WellFormed.exists_split? {stamp : Stamp} (h : stamp.WellFormed)
    (hline : '\n' ∉ stamp.text ++ message) (hmessage : message.head? ≠ some ' ') :
    ∃ first, split? (stamp.text ++ message) = some (stamp.time, first) ∧ message.length ≤ first.length ∧
      first.head? ≠ some ' ' ∧
      EndsStamp (stamp.place ++ functionEnd ++ List.replicate stamp.blanks ' ' ++ message) first := by
  obtain ⟨c, rest, first, hrest, hfirst, hlength⟩ := (h.endsStamp message).exists_seek hmessage
  obtain ⟨hends, hhead⟩ := endsStamp_of_seek (c := c) hfirst
  refine ⟨first, split?_eq_some_iff.mpr ⟨hline, h.time_ne_nil, h.time_chars, stamp.level, stamp.gap, c, rest,
    h.level_ne_nil, h.level_chars, h.gap_pos, ?_, hfirst⟩, hlength, hhead, hrest ▸ hends⟩
  rw [← hrest]
  simp [text]

theorem exists_stamp_of_split? {line time : List Char} (h : split? line = some (time, message)) :
    message.head? ≠ some ' ' ∧ ∃ stamp : Stamp, stamp.WellFormed ∧ stamp.time = time ∧
      line = stamp.text ++ message := by
  obtain ⟨_, htime, htimeChars, level, gap, c, rest, hlevel, hlevelChars, hgap, rfl, hseek⟩ :=
    split?_eq_some_iff.mp h
  obtain ⟨⟨location, number, behind, hlocation, hnumber, hdigits, hrest, function, blanks, hfunction, hblanks,
    rfl⟩, hmessage⟩ := endsStamp_of_seek (c := c) hseek
  refine ⟨hmessage, ⟨time, level, gap, location, number, function, blanks⟩, ?_, rfl, ?_⟩
  · exact ⟨htime, htimeChars, hlevel, hlevelChars, hgap, hlocation, hnumber, hdigits, hfunction, hblanks⟩
  · rw [hrest]
    simp [Stamp.text, Stamp.place]

/-- The blanks at the beginning of a message can as well be the last ones of the stamp. -/
theorem Stamp.WellFormed.exists_trimmed {stamp : Stamp} (h : stamp.WellFormed) (message : List Char) :
    ∃ (wider : Stamp) (trimmed : List Char), wider.WellFormed ∧ wider.time = stamp.time ∧
      trimmed.head? ≠ some ' ' ∧ wider.text ++ trimmed = stamp.text ++ message := by
  induction message generalizing stamp with
  | nil => exact ⟨stamp, [], h, rfl, by simp, rfl⟩
  | cons c message ih =>
    by_cases hc : c = ' '
    · subst hc
      have hwider : ({ stamp with blanks := stamp.blanks + 1 } : Stamp).WellFormed :=
        { h with blanks_pos := Nat.succ_pos _ }
      obtain ⟨wider, trimmed, hwider, htime, htrimmed, htext⟩ := ih hwider
      refine ⟨wider, trimmed, hwider, htime, htrimmed, htext.trans ?_⟩
      simp [text, place, List.replicate_succ']
    · exact ⟨stamp, c :: message, h, rfl, by simpa using hc, rfl⟩

/-- A line is split exactly if it has no line feed and has a stamp. Its time is then that of every stamp it
has, and its message is the longest one behind a stamp that takes all blanks before the message. -/
theorem exists_split?_iff_and_longest (line : List Char) :
    ((∃ time message, split? line = some (time, message)) ↔
      '\n' ∉ line ∧ ∃ (stamp : Stamp) (message : List Char), stamp.WellFormed ∧ line = stamp.text ++ message) ∧
    ∀ time message, split? line = some (time, message) →
      (∀ (stamp : Stamp) (other : List Char), stamp.WellFormed → line = stamp.text ++ other →
        stamp.time = time) ∧
      message.head? ≠ some ' ' ∧
      (∃ stamp : Stamp, stamp.WellFormed ∧ line = stamp.text ++ message) ∧
      ∀ (stamp : Stamp) (other : List Char), stamp.WellFormed → line = stamp.text ++ other →
        other.head? ≠ some ' ' → other.length ≤ message.length := by
  constructor
  · constructor
    · rintro ⟨time, message, h⟩
      obtain ⟨_, stamp, hstamp, _, hline⟩ := exists_stamp_of_split? h
      exact ⟨(split?_eq_some_iff.mp h).1, stamp, message, hstamp, hline⟩
    · rintro ⟨hline, stamp, message, hstamp, rfl⟩
      obtain ⟨wider, trimmed, hwider, _, htrimmed, htext⟩ := hstamp.exists_trimmed message
      rw [← htext] at hline ⊢
      obtain ⟨first, hfirst, _⟩ := hwider.exists_split? hline htrimmed
      exact ⟨_, _, hfirst⟩
  · intro time message h
    have hfeed := (split?_eq_some_iff.mp h).1
    obtain ⟨hmessage, stamp, hstamp, _, hline⟩ := exists_stamp_of_split? h
    refine ⟨?_, hmessage, ⟨stamp, hstamp, hline⟩, ?_⟩
    · rintro other rest hother rfl
      obtain ⟨wider, trimmed, hwider, htime, htrimmed, htext⟩ := hother.exists_trimmed rest
      rw [← htext] at h hfeed
      obtain ⟨first, hfirst, _⟩ := hwider.exists_split? hfeed htrimmed
      rw [h] at hfirst
      cases hfirst
      exact htime.symm
    · rintro other rest hother rfl hrest
      obtain ⟨first, hfirst, hlength, _⟩ := hother.exists_split? hfeed hrest
      rw [h] at hfirst
      cases hfirst
      exact hlength

end PageLoads.Line
