import PageLoads.Proofs.Except
import PageLoads.Proofs.ResultFile.RoundTrip

/-!
# Refused result files

Which bytes are refused as a result file, and how. Every reader of a codec is incremental: on some bytes it finds a
value that stays the same whatever follows, or refuses them whatever follows, or asks for more. So of what a codec
writes of a value it restores, a part that is cut off early can only be one that asks for more. The version is
settled by the first bytes, and nothing behind them is taken for another version.
-/

namespace PageLoads

namespace Codec

variable {α β : Type}

/-- The causes for which the body of a file is refused. -/
inductive IsOfDecoding : Cause → Prop
  | undecodable (fault : DecodeFault) : IsOfDecoding (refuse fault)
  | tooLong : IsOfDecoding (.crash .textTooLong)

/-- What comes of reading bytes that may go on. -/
inductive Reading (read : Read α) (bytes : Bytes) : Prop
  /-- A value is found, and what follows the bytes is left behind it. -/
  | found (a : α) (left : Bytes) (h : ∀ more, read (.plain (bytes ++ more)) = .ok (a, .plain (left ++ more)))
  | unended (h : read (.plain bytes) = .error (refuse .endOfBytes))
  | refused (cause : Cause) (hcause : IsOfDecoding cause) (h : ∀ more, read (.plain (bytes ++ more)) = .error cause)

/-- Whatever the bytes are, a reader finds a value that what follows does not change, refuses what no more bytes can
mend, or only misses what follows. -/
def Incremental (read : Read α) : Prop :=
  ∀ bytes, Reading read bytes

theorem takeExactly_of_short {count : Nat} {bytes : Bytes} (h : bytes.length < count) :
    takeExactly count (.plain bytes) = .error (refuse .endOfBytes) := by
  rw [takeExactly, Content.take_plain, if_pos h]

theorem readNat_of_short {width : Nat} {bytes : Bytes} (h : bytes.length < width) :
    readNat width (.plain bytes) = .error (refuse .endOfBytes) := by
  rw [readNat, takeExactly_of_short h]
  rfl

theorem readNat_of_le {width : Nat} {bytes : Bytes} (h : width ≤ bytes.length) :
    readNat width (.plain bytes) = .ok (LittleEndian.number (bytes.take width), .plain (bytes.drop width)) := by
  have htake := takeExactly_append (List.length_take_of_le h) (bytes.drop width)
  rw [List.take_append_drop] at htake
  rw [readNat, htake]
  rfl

theorem incremental_takeExactly (count : Nat) : Incremental (takeExactly count) := by
  intro bytes
  by_cases hshort : bytes.length < count
  · exact .unended (takeExactly_of_short hshort)
  · have htaken : (bytes.take count).length = count := List.length_take_of_le (Nat.not_lt.mp hshort)
    refine .found (bytes.take count) (bytes.drop count) fun more => ?_
    have hbytes : bytes ++ more = bytes.take count ++ (bytes.drop count ++ more) := by
      rw [← List.append_assoc, List.take_append_drop]
    rw [hbytes]
    exact takeExactly_append htaken _

theorem incremental_pure (a : α) : Incremental fun content => .ok (a, content) :=
  fun bytes => .found a bytes fun _ => rfl

theorem incremental_error {cause : Cause} (h : IsOfDecoding cause) :
    Incremental (α := α) fun _ => .error cause :=
  fun _ => .refused cause h fun _ => rfl

theorem Incremental.bind {read : Read α} {next : α × Content → Except Cause (β × Content)}
    (hread : Incremental read) (hnext : ∀ a, Incremental fun content => next (a, content)) :
    Incremental fun content => read content >>= next := by
  intro bytes
  cases hread bytes with
  | found a left ha =>
    cases hnext a left with
    | found b rest hb => exact .found b rest fun more => Except.bind_eq_ok_iff.mpr ⟨_, ha more, hb more⟩
    | unended hb =>
      have hwhole : read (.plain bytes) = .ok (a, .plain left) := by simpa using ha []
      exact .unended (Except.bind_eq_error_iff.mpr (Or.inr ⟨_, hwhole, hb⟩))
    | refused cause hcause hb =>
      exact .refused cause hcause fun more => Except.bind_eq_error_iff.mpr (Or.inr ⟨_, ha more, hb more⟩)
  | unended ha => exact .unended (Except.bind_eq_error_iff.mpr (Or.inl ha))
  | refused cause hcause ha => exact .refused cause hcause fun more => Except.bind_eq_error_iff.mpr (Or.inl (ha more))

theorem Incremental.map {read : Read α} (f : α → β) (hread : Incremental read) :
    Incremental fun content => (read content).map fun (a, rest) => (f a, rest) := by
  intro bytes
  cases hread bytes with
  | found a left ha => exact .found (f a) left fun more => Except.map_eq_ok_iff.mpr ⟨_, ha more, rfl⟩
  | unended ha => exact .unended (Except.map_eq_error_iff.mpr ha)
  | refused cause hcause ha => exact .refused cause hcause fun more => Except.map_eq_error_iff.mpr (ha more)

theorem incremental_readNat (width : Nat) : Incremental (readNat width) :=
  (incremental_takeExactly width).map LittleEndian.number

theorem incremental_word32 : Incremental word32.read :=
  (incremental_readNat 4).map Nat.toUInt32

theorem incremental_word64 : Incremental word64.read :=
  (incremental_readNat 8).map Nat.toUInt64

theorem incremental_binary64 : Incremental binary64.read :=
  incremental_word64.map Binary64.mk

theorem incremental_text : Incremental text.read := by
  refine (incremental_readNat 8).bind fun length => ?_
  by_cases hlimit : textLimit ≤ length
  · simp only [hlimit, if_true]
    exact incremental_error .tooLong
  · simp only [hlimit, if_false]
    refine (incremental_takeExactly length).bind fun bytes => ?_
    dsimp only
    cases Text.decode bytes with
    | ok text => exact incremental_pure text
    | error fault => exact incremental_error (.undecodable (.notText fault))

theorem Incremental.seq {first : Codec α} {second : Codec β} (hfirst : Incremental first.read)
    (hsecond : Incremental second.read) : Incremental (first.seq second).read :=
  hfirst.bind fun a => hsecond.map fun b => (a, b)

theorem Incremental.imap {codec : Codec α} (forth : α → β) (back : β → α) (h : Incremental codec.read) :
    Incremental (imap forth back codec).read :=
  h.map forth

theorem Incremental.readItems {item : Read α} (hitem : Incremental item) (count : Nat) (done : List α) :
    Incremental (readItems item done count) := by
  induction count generalizing done with
  | zero => exact incremental_pure done.reverse
  | succ count ih =>
    have hstep : Codec.readItems item done (count + 1) = fun content =>
        item content >>= fun found => Codec.readItems item (found.1 :: done) count found.2 := by
      funext content
      rw [Codec.readItems]
      cases item content <;> rfl
    rw [hstep]
    exact hitem.bind fun a => ih (a :: done)

theorem Incremental.list {item : Codec α} (hitem : Incremental item.read) : Incremental (list item).read :=
  (incremental_readNat 8).bind fun count => hitem.readItems count []

theorem incremental_choice [DecidableEq α] (options : List α) : Incremental (choice options).read := by
  refine (incremental_readNat 4).bind fun index => ?_
  dsimp only
  cases options[index]? with
  | some a => exact incremental_pure a
  | none => exact incremental_error (.undecodable _)

theorem incremental_outcome : Incremental outcome.read := by
  have hreason : Incremental reason.read := incremental_choice _
  refine (incremental_readNat 4).bind fun index => ?_
  rcases index with _ | _ | index
  · exact incremental_pure Outcome.succeeded
  · exact hreason.bind fun why => incremental_pure (Outcome.failed why)
  · exact incremental_error (.undecodable _)

theorem incremental_pageLoad : Incremental pageLoad.read := by
  have hmode : Incremental mode.read := incremental_choice _
  have hcounts := incremental_word32.seq (incremental_word32.seq (incremental_word32.seq
    (incremental_word32.seq incremental_word32)))
  have htimes := incremental_word64.seq (incremental_binary64.seq (incremental_word64.seq
    (incremental_word64.seq hcounts)))
  have hfields := incremental_text.seq (incremental_word32.seq (incremental_text.seq
    (hmode.seq (incremental_outcome.seq htimes))))
  exact hfields.imap _ _

theorem incremental_counters : Incremental counters.read := by
  have hsent := incremental_word64.seq (incremental_word64.seq (incremental_word64.seq incremental_word64))
  have hfields := incremental_word64.seq (incremental_word64.seq (incremental_word64.seq hsent))
  exact hfields.imap _ _

theorem incremental_report : Incremental report.read :=
  (incremental_binary64.seq incremental_counters).imap _ _

theorem incremental_run : Incremental run.read :=
  (incremental_text.seq (incremental_text.seq incremental_text)).imap _ _

theorem incremental_trial : Incremental trial.read := by
  have hrunning : Incremental running.read := (incremental_text.seq incremental_report.list).list
  have hfields := incremental_run.seq (incremental_text.seq (incremental_pageLoad.list.seq
    (hrunning.seq incremental_report.list)))
  exact hfields.imap _ _

theorem Incremental.isOfDecoding {read : Read α} (hread : Incremental read) {bytes : Bytes} {cause : Cause}
    (h : read (.plain bytes) = .error cause) : IsOfDecoding cause := by
  cases hread bytes with
  | found a left ha =>
    have hwhole : read (.plain bytes) = .ok (a, .plain left) := by simpa using ha []
    rw [h] at hwhole
    cases hwhole
  | unended hend =>
    rw [h] at hend
    cases hend
    exact .undecodable .endOfBytes
  | refused other hother hrefused =>
    have hwhole : read (.plain bytes) = .error other := by simpa using hrefused []
    rw [h] at hwhole
    cases hwhole
    exact hother

/-- What is written of a value and cut off early is refused because it ends: a value found in it would leave the
missing bytes behind the whole, and what is refused for another cause would be refused as a whole. -/
theorem Restores.read_of_cut {codec : Codec α} {a : α} (h : codec.Restores a) (hread : Incremental codec.read)
    {bytes missing : Bytes} (hcut : codec.write a = bytes ++ missing) (hmissing : missing ≠ []) :
    codec.read (.plain bytes) = .error (refuse .endOfBytes) := by
  have hwhole : codec.read (.plain (bytes ++ missing)) = .ok (a, .plain []) := by simpa [hcut] using h []
  cases hread bytes with
  | found other left hfound =>
    rw [hfound missing] at hwhole
    have hnil : left ++ missing = [] := congrArg Content.ready (Prod.mk.inj (Except.ok.inj hwhole)).2
    exact absurd (List.append_eq_nil_iff.mp hnil).2 hmissing
  | unended hend => exact hend
  | refused cause _ hrefused =>
    rw [hrefused missing] at hwhole
    cases hwhole

end Codec

namespace ResultFile

variable {path : String} {bytes : Bytes}

theorem decode_of_short (h : bytes.length < 4) :
    decode path (.plain bytes) = .error (Codec.refuse .endOfBytes) := by
  simp only [decode, read, Codec.readNat_of_short h, bind, Except.bind, Except.map]

theorem decode_eq_otherVersion_iff (h : 4 ≤ bytes.length) {named : String} {found expected : Nat} :
    decode path (.plain bytes) = .error (.fault (.otherVersion named found expected)) ↔
      named = path ∧ found = LittleEndian.number (bytes.take 4) ∧ expected = version ∧ found ≠ version := by
  by_cases hversion : LittleEndian.number (bytes.take 4) = version
  · have hbody : decode path (.plain bytes) = (Codec.trial.read (.plain (bytes.drop 4))).map Prod.fst := by
      simp only [decode, read, Codec.readNat_of_le h, hversion, bind, Except.bind, ne_eq, not_true_eq_false, if_false]
    rw [hbody, Except.map_eq_error_iff]
    constructor
    · intro hread
      cases Codec.incremental_trial.isOfDecoding hread
    · rintro ⟨_, rfl, _, hother⟩
      exact absurd hversion hother
  · have hrefused : decode path (.plain bytes) =
        .error (.fault (.otherVersion path (LittleEndian.number (bytes.take 4)) version)) := by
      simp only [decode, read, Codec.readNat_of_le h, hversion, bind, Except.bind, ne_eq, not_false_eq_true, if_true]
      rfl
    rw [hrefused]
    constructor
    · rintro ⟨⟩
      exact ⟨rfl, rfl, rfl, hversion⟩
    · rintro ⟨rfl, rfl, rfl, _⟩
      rfl

/-- A file that is cut off early ends within its version or within its trial. -/
theorem decode_of_cut {trial : Trial} (hfits : trial.Fits) {missing : Bytes} (hcut : encode trial = bytes ++ missing)
    (hmissing : missing ≠ []) : decode path (.plain bytes) = .error (Codec.refuse .endOfBytes) := by
  by_cases hshort : bytes.length < 4
  · exact decode_of_short hshort
  · have hlength : (Codec.writeNat 4 version).length ≤ bytes.length := by
      rw [Codec.writeNat, LittleEndian.length_bytes]
      omega
    obtain ⟨more, rfl⟩ := List.prefix_of_prefix_length_le ⟨_, hcut⟩ ⟨missing, rfl⟩ hlength
    rw [encode, List.append_assoc] at hcut
    have hbody : Codec.trial.write trial = more ++ missing := List.append_cancel_left hcut
    have hversion : Codec.readNat 4 (.plain (Codec.writeNat 4 version ++ more)) = .ok (version, .plain more) :=
      Codec.readNat_writeNat (by decide) more
    have hread := (Codec.restores_trial hfits).read_of_cut Codec.incremental_trial hbody hmissing
    simp only [decode, read, hversion, hread, bind, Except.bind, ne_eq, not_true_eq_false, if_false, Except.map]

/-- A file of fewer bytes than a version has is refused because it ends. Any other file is refused for its version
exactly if this is another one, whatever stands behind it, and the version found is the number of the first four
bytes. A file of which any part at the end is missing is refused because it ends, and never read as another trial. -/
theorem decode_refuses_short_and_cut (path : String) :
    (∀ bytes : Bytes, bytes.length < 4 →
      decode path (File.compress bytes).expanded = .error (Codec.refuse .endOfBytes)) ∧
    (∀ bytes : Bytes, 4 ≤ bytes.length → ∀ named found expected,
      decode path (File.compress bytes).expanded = .error (.fault (.otherVersion named found expected)) ↔
        named = path ∧ found = LittleEndian.number (bytes.take 4) ∧ expected = version ∧ found ≠ version) ∧
    ∀ trial : Trial, trial.Fits → ∀ bytes : Bytes, bytes <+: encode trial → bytes ≠ encode trial →
      decode path (File.compress bytes).expanded = .error (Codec.refuse .endOfBytes) := by
  simp only [File.expanded_compress]
  refine ⟨fun bytes => decode_of_short, fun bytes h _ _ _ => decode_eq_otherVersion_iff h, ?_⟩
  rintro trial hfits bytes ⟨missing, hcut⟩ hne
  refine decode_of_cut hfits hcut.symm ?_
  rintro rfl
  exact hne (by simpa using hcut)

/-- Three bytes of a version, a file of version 265 with one byte more, and a trial without its last byte. -/
theorem decode_refuses_short_and_cut_ofTwoClients :
    decode "run.zst" (File.compress [9, 0, 0]).expanded = .error (Codec.refuse .endOfBytes) ∧
      decode "run.zst" (File.compress [9, 1, 0, 0, 7]).expanded =
        .error (.fault (.otherVersion "run.zst" 265 version)) ∧
      ofTwoClients.Fits ∧
      decode "run.zst" (File.compress (encode ofTwoClients).dropLast).expanded =
        .error (Codec.refuse .endOfBytes) := by
  obtain ⟨hshort, hversion, hcut⟩ := decode_refuses_short_and_cut "run.zst"
  have hne : (encode ofTwoClients).dropLast ≠ encode ofTwoClients := by
    intro heq
    have hlength := congrArg List.length heq
    have hpos : 0 < (encode ofTwoClients).length := by
      rw [encode, List.length_append, Codec.writeNat, LittleEndian.length_bytes]
      omega
    rw [List.length_dropLast] at hlength
    omega
  refine ⟨hshort _ (by decide), ?_, fits_ofTwoClients, ?_⟩
  · exact (hversion _ (by decide) _ _ _).mpr ⟨rfl, by decide, rfl, by decide⟩
  · exact hcut _ fits_ofTwoClients _ (List.dropLast_prefix _) hne

end ResultFile

end PageLoads
