import PageLoads.Line.Banner
import PageLoads.Proofs.Line.Stamp
import PageLoads.Proofs.Pattern.Written
import PageLoads.Proofs.Text.Trim

/-!
# Written banners

A banner of the simulator is recognised as what it is, and its free texts are cut out of it as they were written. The
three forms overlap, so each banner must also not have the forms that are tried before its own. What keeps them apart
is that the free texts do not hold the words that make a banner an init or a shutdown banner.
-/

namespace PageLoads.Line

open PageLoads.Text
open PageLoads.Pattern

/-- Free text of a banner: it is not empty, and has no line feed and none of some texts. -/
structure FreeText (avoided : List String) (text : List Char) : Prop where
  ne_nil : text ≠ []
  lineFeed_not_mem : '\n' ∉ text
  not_infix : ∀ mark ∈ avoided, ¬ mark.toList <:+: text

instance (avoided : List String) (text : List Char) : Decidable (FreeText avoided text) :=
  decidable_of_iff (text ≠ [] ∧ '\n' ∉ text ∧ ∀ mark ∈ avoided, ¬ mark.toList <:+: text)
    ⟨fun ⟨hne, hfeed, hmarks⟩ => ⟨hne, hfeed, hmarks⟩, fun ⟨hne, hfeed, hmarks⟩ => ⟨hne, hfeed, hmarks⟩⟩

/-- What a line of the simulator's main program has before the words of a banner. -/
structure SimulatorStamp where
  time : List Char
  thread : List Char
  location : List Char

namespace SimulatorStamp

def head (stamp : SimulatorStamp) : List Char :=
  stamp.time ++ (" [thread-".toList ++ (stamp.thread ++ "] ".toList))

def message (stamp : SimulatorStamp) (words : List Char) : List Char :=
  simulatorOrigin.toList ++ (stamp.location ++ words)

def line (stamp : SimulatorStamp) (words : List Char) : List Char :=
  stamp.head ++ stamp.message words

/-- The time and the thread consist of their characters, and the location cannot be taken for more than it is. -/
structure WellFormed (stamp : SimulatorStamp) : Prop where
  time_ne_nil : stamp.time ≠ []
  time_chars : ∀ c ∈ stamp.time, isTimeChar c
  thread_ne_nil : stamp.thread ≠ []
  thread_digits : ∀ c ∈ stamp.thread, isAsciiDigit c
  location : FreeText ["] [master_run] Shadow ", "_free] Shadow"] stamp.location

instance (stamp : SimulatorStamp) : Decidable stamp.WellFormed :=
  decidable_of_iff
    ((stamp.time ≠ [] ∧ stamp.time.all isTimeChar) ∧ (stamp.thread ≠ [] ∧ stamp.thread.all isAsciiDigit) ∧
      FreeText ["] [master_run] Shadow ", "_free] Shadow"] stamp.location) <| by
    simp only [List.all_eq_true]
    constructor
    · rintro ⟨⟨htime, htimes⟩, ⟨hthread, hdigits⟩, hlocation⟩
      exact ⟨htime, htimes, hthread, hdigits, hlocation⟩
    · rintro ⟨htime, htimes, hthread, hdigits, hlocation⟩
      exact ⟨⟨htime, htimes⟩, ⟨hthread, hdigits⟩, hlocation⟩

end SimulatorStamp

def startupWords (release : List Char) : List Char :=
  "] [master_run] Shadow ".toList ++ release

def initWords (startTime more : List Char) : List Char :=
  "] [master_run] Shadow initialized at ".toList ++ (startTime ++ (" using".toList ++ more))

/-- The parts of the simulator that write shutdown banners, each as far as the release. -/
def freeingParts : List String :=
  ["[engine_free] Shadow ", "[master_free] Shadow "]

def shutdownWords (part : String) (release completionTime : List Char) : List Char :=
  "] ".toList ++ (part.toList ++ (release ++ (" shut down cleanly at ".toList ++ completionTime)))

variable {stamp : SimulatorStamp} {words message release startTime completionTime more rest : List Char}

theorem SimulatorStamp.WellFormed.simulatorMessage?_line (h : stamp.WellFormed) (hwords : '\n' ∉ words) :
    simulatorMessage? (stamp.line words) = some (stamp.message words) := by
  have hfeed : '\n' ∉ stamp.line words := by
    have htime : '\n' ∉ stamp.time := fun hmem => absurd (h.time_chars _ hmem) (by decide)
    have hthread : '\n' ∉ stamp.thread := fun hmem => absurd (h.thread_digits _ hmem) (by decide)
    unfold line head message
    simp only [List.mem_append, not_or]
    exact ⟨⟨htime, by decide, hthread, by decide⟩, by decide, h.location.lineFeed_not_mem, hwords⟩
  have htime : skip? isTimeChar (stamp.line words) =
      some (" [thread-".toList ++ (stamp.thread ++ ("] ".toList ++ stamp.message words))) := by
    refine skip?_eq_some_iff.mpr ⟨stamp.time, h.time_ne_nil, h.time_chars, ?_, by simp [line, head]⟩
    rintro c ⟨⟩
    decide
  have hthread : skip? isAsciiDigit (stamp.thread ++ ("] ".toList ++ stamp.message words)) =
      some ("] ".toList ++ stamp.message words) := by
    refine skip?_eq_some_iff.mpr ⟨stamp.thread, h.thread_ne_nil, h.thread_digits, ?_, rfl⟩
    rintro c ⟨⟩
    decide
  simp only [simulatorMessage?, hfeed, not_false_eq_true, guard_true, htime, after?_append, hthread,
    Option.pure_def, Option.bind_eq_bind, Option.bind_some]

theorem ofShutdown?_eq_none (h : ¬ "_free] Shadow".toList <:+: message) : Banner.ofShutdown? message = none := by
  have hfields : shutdownBanner.fields? message = none := by
    refine fields?_eq_none_of_preferred? (preferred?_cons_eq_none _ fun length => ?_)
    refine preferred?_oneOf_eq_none fun part hpart => after?_drop_eq_none_of_not_infix ?_ length
    have hmark : ∀ part ∈ freeingParts, "_free] Shadow".toList <:+: part.toList := by decide
    exact fun hoccurs => h ((hmark part hpart).trans hoccurs)
  rw [Banner.ofShutdown?, hfields]
  rfl

/-- A startup banner is no init banner: the words of one would begin in the location, or the simulator would be
initialized in the release. -/
theorem SimulatorStamp.WellFormed.ofInit?_startupWords (h : stamp.WellFormed)
    (hrelease : ¬ "initialized at ".toList <:+: release) :
    Banner.ofInit? (stamp.message (startupWords release)) = none := by
  have hwords : ¬ "] [master_run] Shadow initialized at ".toList <:+: startupWords release := by
    have hmark : "initialized at ".toList <:+: "] [master_run] Shadow initialized at ".toList := by decide
    have hbehind : ¬ "initialized at ".toList <:+: startupWords release :=
      not_infix_append_of_not_overlaps (by decide) hrelease
    exact fun hoccurs => hbehind (hmark.trans hoccurs)
  -- A location may well hold "initialized at ", but not the words before it.
  have hlocation : ¬ "] [master_run] Shadow initialized at ".toList <:+: stamp.location := by
    have hmark : "] [master_run] Shadow ".toList <:+: "] [master_run] Shadow initialized at ".toList := by decide
    exact fun hoccurs => h.location.not_infix _ (by decide) (hmark.trans hoccurs)
  have hnone : ¬ "] [master_run] Shadow initialized at ".toList <:+: stamp.location ++ startupWords release :=
    not_infix_append hlocation (by decide) hwords
  have hfields : initBanner.fields? (stamp.message (startupWords release)) = none := by
    refine fields?_eq_none_of_preferred? (preferred?_literal_append_eq_none _ ?_)
    refine preferred?_cons_eq_none _ fun length => preferred?_literal_eq_none ?_
    exact after?_drop_eq_none_of_not_infix hnone length
  rw [Banner.ofInit?, hfields]
  rfl

/-- No part is freed in a message if none is freed in the words behind the location, nor between the two. -/
theorem SimulatorStamp.WellFormed.not_infix_message (h : stamp.WellFormed) (text : List Char)
    (hapart : overlaps "_free] Shadow".toList.tail text = false) (hwords : ¬ "_free] Shadow".toList <:+: text ++ rest) :
    ¬ "_free] Shadow".toList <:+: stamp.message (text ++ rest) := by
  have hlocation : ¬ "_free] Shadow".toList <:+: stamp.location := h.location.not_infix _ (by decide)
  exact not_infix_append_of_not_overlaps (by decide) (not_infix_append hlocation hapart hwords)

theorem SimulatorStamp.WellFormed.ofLine?_startupWords (h : stamp.WellFormed)
    (hrelease : FreeText ["shut down cleanly", "initialized at ", "_free] Shadow"] release) :
    Banner.ofLine? (stamp.line (startupWords release)) = some (.startup (String.ofList release)) := by
  have hfeed : '\n' ∉ startupWords release := by
    unfold startupWords
    simp only [List.mem_append, not_or]
    exact ⟨by decide, hrelease.lineFeed_not_mem⟩
  have hshutdown : Banner.ofShutdown? (stamp.message (startupWords release)) = none := by
    have hwords : ¬ "_free] Shadow".toList <:+: startupWords release :=
      not_infix_append_of_not_overlaps (by decide) (hrelease.not_infix _ (by decide))
    exact ofShutdown?_eq_none (h.not_infix_message "] [master_run] Shadow ".toList (by decide) hwords)
  have hinit : Banner.ofInit? (stamp.message (startupWords release)) = none :=
    h.ofInit?_startupWords (hrelease.not_infix _ (by decide))
  have hpieces : preferred? startupBanner.tokens (stamp.message (startupWords release)) =
      some [simulatorOrigin.toList, stamp.location, "] [master_run] Shadow ".toList, release] :=
    preferred?_literal _ <| preferred?_text_of_mark h.location.ne_nil List.prefix_rfl
      (h.location.not_infix _ (by decide)) (by decide) <| preferred?_text_end hrelease.ne_nil
  have hfields : startupBanner.fields? (stamp.message (startupWords release)) =
      some ⟨startupBanner.name, [("location", stamp.location), ("release", release)]⟩ :=
    fields?_eq_some_of_preferred? hpieces
  have hstartup : Banner.ofStartup? (stamp.message (startupWords release)) =
      some (.startup (String.ofList release)) := by
    rw [Banner.ofStartup?, hfields]
    rfl
  simp only [Banner.ofLine?, h.simulatorMessage?_line hfeed, hshutdown, hinit, hstartup, Option.bind_eq_bind,
    Option.bind_some]
  rfl

theorem SimulatorStamp.WellFormed.ofLine?_initWords (h : stamp.WellFormed)
    (hstart : FreeText [" using", "_free] Shadow"] startTime) (hfeed : '\n' ∉ more)
    (hmore : ¬ "_free] Shadow".toList <:+: more) :
    Banner.ofLine? (stamp.line (initWords startTime more)) = some (.init (String.ofList startTime)) := by
  have hlineFeed : '\n' ∉ initWords startTime more := by
    unfold initWords
    simp only [List.mem_append, not_or]
    exact ⟨by decide, hstart.lineFeed_not_mem, by decide, hfeed⟩
  have hshutdown : Banner.ofShutdown? (stamp.message (initWords startTime more)) = none := by
    have hbehind : ¬ "_free] Shadow".toList <:+: " using".toList ++ more :=
      not_infix_append_of_not_overlaps (by decide) hmore
    have hwords : ¬ "_free] Shadow".toList <:+: initWords startTime more :=
      not_infix_append_of_not_overlaps (by decide)
        (not_infix_append (hstart.not_infix _ (by decide)) (by decide) hbehind)
    have hmessage : ¬ "_free] Shadow".toList <:+: stamp.message (initWords startTime more) :=
      h.not_infix_message "] [master_run] Shadow initialized at ".toList (by decide) hwords
    exact ofShutdown?_eq_none hmessage
  have hpieces : preferred? initBanner.tokens (stamp.message (initWords startTime more)) =
      some [simulatorOrigin.toList, stamp.location, "] [master_run] Shadow initialized at ".toList, startTime,
        " using".toList, more] :=
    preferred?_literal _ <| preferred?_text_of_mark h.location.ne_nil
      (by decide : "] [master_run] Shadow ".toList <+: "] [master_run] Shadow initialized at ".toList)
      (h.location.not_infix _ (by decide)) (by decide) <|
    preferred?_text_literal hstart.ne_nil (hstart.not_infix _ (by decide)) rfl <| preferred?_skip more
  have hfields : initBanner.fields? (stamp.message (initWords startTime more)) =
      some ⟨initBanner.name, [("location", stamp.location), ("start_time", startTime)]⟩ :=
    fields?_eq_some_of_preferred? hpieces
  have hinit : Banner.ofInit? (stamp.message (initWords startTime more)) =
      some (.init (String.ofList startTime)) := by
    rw [Banner.ofInit?, hfields]
    rfl
  simp only [Banner.ofLine?, h.simulatorMessage?_line hlineFeed, hshutdown, hinit, Option.bind_eq_bind,
    Option.bind_some]
  rfl

theorem preferred?_freeingParts {part : String} {tokens : List Token} {pieces : List (List Char)}
    (hpart : part ∈ freeingParts) (hrest : preferred? tokens rest = some pieces) :
    preferred? (.oneOf freeingParts :: tokens) (part.toList ++ rest) = some (part.toList :: pieces) := by
  simp only [freeingParts, List.mem_cons, List.not_mem_nil, or_false] at hpart
  rcases hpart with rfl | rfl
  · exact preferred?_oneOf [] _ ["[master_free] Shadow "] (by simp) hrest
  · refine preferred?_oneOf ["[engine_free] Shadow "] _ [] (fun other hother => ?_) hrest
    rw [List.mem_singleton.mp hother]
    rfl

theorem SimulatorStamp.WellFormed.preferred?_freeingParts_drop (h : stamp.WellFormed) {part : String}
    {tokens : List Token} (hpart : part ∈ freeingParts) {length : Nat}
    (hlength : length < (stamp.message "] ".toList).length) :
    preferred? (.oneOf freeingParts :: tokens) ((stamp.message "] ".toList ++ (part.toList ++ rest)).drop length) =
      none := by
  have hbefore : ¬ "_free] Shadow".toList <:+: stamp.message "] ".toList := by
    -- A location may end in "_free"; the bracket behind the blank shows that no "Shadow" follows it.
    have hlonger : ¬ "_free] Shadow".toList <:+: stamp.message ("] [".toList ++ []) :=
      h.not_infix_message _ (by decide) (by decide)
    have hbegins : stamp.message "] ".toList <:+: stamp.message ("] [".toList ++ []) :=
      ⟨[], "[".toList, by simp [message]⟩
    exact fun hoccurs => hlonger (hoccurs.trans hbegins)
  refine preferred?_oneOf_eq_none fun other hother => ?_
  have hmark : ∀ other ∈ freeingParts, "_free] Shadow".toList <:+: other.toList := by decide
  have hapart : ∀ other ∈ freeingParts, ∀ part ∈ freeingParts,
      overlaps other.toList.tail part.toList = false := by
    decide
  exact after?_drop_eq_none_of_not_overlaps (fun hoccurs => hbefore ((hmark other hother).trans hoccurs))
    (hapart other hother part hpart) hlength rest

theorem SimulatorStamp.WellFormed.ofLine?_shutdownWords (h : stamp.WellFormed) {part : String}
    (hpart : part ∈ freeingParts)
    (hrelease : FreeText ["shut down cleanly", "initialized at ", "_free] Shadow"] release)
    (hcompletion : FreeText [] completionTime) :
    Banner.ofLine? (stamp.line (shutdownWords part release completionTime)) =
      some (.shutdown (String.ofList release) (String.ofList completionTime)) := by
  have hfeed : '\n' ∉ shutdownWords part release completionTime := by
    have hparts : ∀ part ∈ freeingParts, '\n' ∉ part.toList := by decide
    unfold shutdownWords
    simp only [List.mem_append, not_or]
    exact ⟨by decide, hparts part hpart, hrelease.lineFeed_not_mem, by decide, hcompletion.lineFeed_not_mem⟩
  have hmessage : stamp.message (shutdownWords part release completionTime) = stamp.message "] ".toList ++
      (part.toList ++ (release ++ (" shut down cleanly at ".toList ++ completionTime))) := by
    simp [message, shutdownWords]
  have hmark : ¬ " shut down cleanly".toList <:+: release := by
    have hshorter : "shut down cleanly".toList <:+: " shut down cleanly".toList := by decide
    exact fun hoccurs => hrelease.not_infix _ (by decide) (hshorter.trans hoccurs)
  have hpieces : preferred? shutdownBanner.tokens (stamp.message (shutdownWords part release completionTime)) =
      some [stamp.message "] ".toList, part.toList, release, " shut down cleanly at ".toList, completionTime] := by
    rw [hmessage]
    exact preferred?_skip_append (fun _ => h.preferred?_freeingParts_drop hpart) <|
      preferred?_freeingParts hpart <|
      preferred?_text_of_mark hrelease.ne_nil (by decide) hmark (by decide) <|
      preferred?_text_end hcompletion.ne_nil
  have hfields : shutdownBanner.fields? (stamp.message (shutdownWords part release completionTime)) =
      some ⟨shutdownBanner.name, [("release", release), ("completion_time", completionTime)]⟩ :=
    fields?_eq_some_of_preferred? hpieces
  have hshutdown : Banner.ofShutdown? (stamp.message (shutdownWords part release completionTime)) =
      some (.shutdown (String.ofList release) (String.ofList completionTime)) := by
    rw [Banner.ofShutdown?, hfields]
    rfl
  simp only [Banner.ofLine?, h.simulatorMessage?_line hfeed, hshutdown, Option.bind_eq_bind, Option.bind_some]
  rfl

end PageLoads.Line
