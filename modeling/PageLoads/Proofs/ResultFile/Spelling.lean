import PageLoads.Proofs.ResultFile.Exact
import PageLoads.Proofs.Text.ByteOrder

/-!
# The spelling of a result file

The codec of each record is exact, so the bytes that a reader of a result file accepts are those that would be
written of what it finds in them. The running totals are the one exception: they are put in order as they are
read, and of a host that stands there twice the last entry counts. So a file is written again byte for byte
exactly if its hosts stand in order.
-/

namespace PageLoads

namespace Codec

theorem exact_outcome : outcome.Exact fun _ => True := by
  have hreason : reason.Exact fun _ => True := exact_choice (by decide)
  intro bytes found rest hread
  obtain ⟨⟨index, behind⟩, hindex, h⟩ := Except.bind_eq_ok_iff.mp hread
  obtain ⟨_, left, rfl, rfl⟩ := eq_append_of_readNat hindex
  dsimp only at h
  split at h
  · cases h
    exact ⟨trivial, left, rfl, rfl⟩
  · obtain ⟨⟨why, after⟩, hwhy, hfound⟩ := Except.bind_eq_ok_iff.mp h
    obtain ⟨_, left, rfl, rfl⟩ := hreason _ _ _ hwhy
    cases hfound
    exact ⟨trivial, left, rfl, by simp [outcome]⟩
  · cases h

theorem exact_pageLoad : pageLoad.Exact PageLoad.Fits := by
  have hmode : mode.Exact fun _ => True := exact_choice (by decide)
  have hcounts := exact_word32.seq (exact_word32.seq (exact_word32.seq (exact_word32.seq exact_word32)))
  have htimes := exact_word64.seq (exact_binary64.seq (exact_word64.seq (exact_word64.seq hcounts)))
  have hfields := exact_text.seq (exact_word32.seq (exact_text.seq (hmode.seq (exact_outcome.seq htimes))))
  refine (hfields.imap fun _ => rfl).imp ?_
  rintro load ⟨hhost, _, hurl, _⟩
  exact ⟨hhost, hurl⟩

theorem exact_counters : counters.Exact fun _ => True := by
  have hsent := exact_word64.seq (exact_word64.seq (exact_word64.seq exact_word64))
  have hfields := exact_word64.seq (exact_word64.seq (exact_word64.seq hsent))
  exact (hfields.imap fun _ => rfl).imp fun _ _ => trivial

theorem exact_report : report.Exact fun _ => True :=
  ((exact_binary64.seq exact_counters).imap fun _ => rfl).imp fun _ _ => trivial

theorem exact_reports : (list report).Exact FitsList :=
  exact_report.list.imp fun _ h => h.1

theorem exact_run : run.Exact Run.Fits := by
  refine ((exact_text.seq (exact_text.seq exact_text)).imap fun _ => rfl).imp ?_
  rintro run ⟨hrelease, hstart, hcompletion⟩
  exact ⟨hrelease, hstart, hcompletion⟩

/-- Running totals as they can stand in a file: all their lengths are ones that memory allows. -/
def FitsRunning (entries : List (String × List Report)) : Prop :=
  FitsList entries ∧ ∀ entry ∈ entries, FitsText entry.1 ∧ FitsList entry.2

theorem exact_running : running.Exact FitsRunning :=
  (exact_text.seq exact_reports).list

theorem restores_running {entries : List (String × List Report)} (hfits : FitsRunning entries) :
    running.Restores entries :=
  Restores.list hfits.1 fun entry hentry =>
    (restores_text (hfits.2 entry hentry).1).seq (restores_reports (hfits.2 entry hentry).2)

theorem FitsRunning.ofList {entries : List (String × List Report)} (hfits : FitsRunning entries) :
    FitsRunning (KeyedList.ofList entries) :=
  ⟨Nat.lt_of_le_of_lt (KeyedList.length_ofList_le entries) hfits.1,
    fun entry hentry => hfits.2 entry (KeyedList.mem_ofList hentry)⟩

/-- The parts of a trial as they stand in a file, the running totals in any order. -/
def parts : Codec (Run × String × List PageLoad × List (String × List Report) × List Report) :=
  run.seq (text.seq ((list pageLoad).seq (running.seq (list report))))

/-- The trial that has some parts, with its running totals in order. -/
def trialOf (found : Run × String × List PageLoad × List (String × List Report) × List Report) : Trial where
  run := found.1
  description := found.2.1
  loads := found.2.2.1
  running := KeyedList.ofList found.2.2.2.1
  handlers := found.2.2.2.2
  ascending := KeyedList.ascending_ofList _

theorem read_trial (content : Content) :
    trial.read content = (parts.read content).map fun (found, rest) => (trialOf found, rest) := rfl

theorem exact_parts :
    parts.Exact fun (run, description, loads, entries, handlers) =>
      run.Fits ∧ FitsText description ∧ (FitsList loads ∧ ∀ load ∈ loads, load.Fits) ∧
        FitsRunning entries ∧ FitsList handlers :=
  exact_run.seq (exact_text.seq (exact_pageLoad.list.seq (exact_running.seq exact_reports)))

end Codec

namespace ResultFile

variable {trial : Trial} {entries : List (String × List Report)} {path : String} {bytes : Bytes} {rest : Content}

/-- The bytes of a result file in which some running totals stand in the place of the trial's. -/
def spelled (trial : Trial) (entries : List (String × List Report)) : Bytes :=
  Codec.writeNat 4 version ++
    Codec.parts.write (trial.run, trial.description, trial.loads, entries, trial.handlers)

/-- The running totals in the order in which they stand in the bytes of a result file. -/
def runningIn (bytes : Bytes) : Except Cause (List (String × List Report)) := do
  let (_, content) ← Codec.readNat 4 (.plain bytes)
  let ((_, _, _, entries, _), _) ← Codec.parts.read content
  return entries

theorem encode_eq_spelled (trial : Trial) : encode trial = spelled trial trial.running := rfl

theorem readNat_spelled (trial : Trial) (entries : List (String × List Report)) (left : Bytes) :
    Codec.readNat 4 (.plain (spelled trial entries ++ left)) =
      .ok (version, .plain (Codec.parts.write
        (trial.run, trial.description, trial.loads, entries, trial.handlers) ++ left)) := by
  rw [spelled, List.append_assoc]
  exact Codec.readNat_writeNat (by decide) _

theorem restores_parts (hfits : trial.Fits) (hentries : Codec.FitsRunning entries) :
    Codec.parts.Restores (trial.run, trial.description, trial.loads, entries, trial.handlers) := by
  have hloads := Codec.Restores.list hfits.loads fun load hload => Codec.restores_pageLoad (hfits.load load hload)
  exact (Codec.restores_run hfits.run).seq ((Codec.restores_text hfits.description).seq
    (hloads.seq ((Codec.restores_running hentries).seq (Codec.restores_reports hfits.handlers))))

theorem runningIn_spelled (hfits : trial.Fits) (hentries : Codec.FitsRunning entries) :
    runningIn (spelled trial entries) = .ok entries := by
  have hversion := readNat_spelled trial entries []
  have hparts := restores_parts hfits hentries []
  rw [List.append_nil] at hversion
  simp only [runningIn, hversion, hparts, bind, Except.bind, pure, Except.pure]

/-- Running totals in any order are read as those of the trial that has them in order. -/
theorem read_spelled_append (hfits : trial.Fits) (hentries : Codec.FitsRunning entries)
    (hrunning : trial.running = KeyedList.ofList entries) (path : String) (left : Bytes) :
    read path (.plain (spelled trial entries ++ left)) = .ok (trial, .plain left) := by
  have hparts := restores_parts hfits hentries left
  have htrial : Codec.trialOf (trial.run, trial.description, trial.loads, entries, trial.handlers) = trial := by
    obtain ⟨run, description, loads, running, handlers, ascending⟩ := trial
    subst hrunning
    rfl
  simp only [read, readNat_spelled, Codec.read_trial, hparts, htrial, Except.map, bind, Except.bind, ne_eq,
    not_true_eq_false, if_false]

theorem exists_spelled_of_read (h : read path (.plain bytes) = .ok (trial, rest)) :
    ∃ entries left, bytes = spelled trial entries ++ left ∧ rest = .plain left ∧ trial.Fits ∧
      Codec.FitsRunning entries ∧ trial.running = KeyedList.ofList entries := by
  obtain ⟨⟨found, behind⟩, hversion, htrial⟩ := Except.bind_eq_ok_iff.mp h
  obtain ⟨_, left, rfl, rfl⟩ := Codec.eq_append_of_readNat hversion
  dsimp only at htrial
  split at htrial
  · cases htrial
  · rename_i hfound
    obtain rfl : found = version := Decidable.not_not.mp hfound
    rw [Codec.read_trial] at htrial
    obtain ⟨⟨⟨run, description, loads, entries, handlers⟩, after⟩, hparts, hresult⟩ :=
      Except.map_eq_ok_iff.mp htrial
    cases hresult
    obtain ⟨⟨hrun, hdescription, hloads, hentries, hhandlers⟩, left, rfl, rfl⟩ := Codec.exact_parts _ _ _ hparts
    have hrunning := hentries.ofList
    refine ⟨entries, left, ?_, rfl, ?_, hentries, rfl⟩
    · simp only [spelled, Codec.trialOf, List.append_assoc]
    · exact ⟨hrun, hdescription, hloads.1, hloads.2, hrunning.1, fun entry hentry => (hrunning.2 entry hentry).1,
        fun entry hentry => (hrunning.2 entry hentry).2, hhandlers⟩

/-- Bytes that are read to their end are spelled as the trial they hold, with the running totals in them. -/
theorem eq_spelled_of_read {consumed left : Bytes}
    (h : read path (.plain (consumed ++ left)) = .ok (trial, .plain left))
    (hrunning : runningIn consumed = .ok entries) : consumed = spelled trial entries := by
  obtain ⟨found, behind, hbytes, hrest, hfits, hfound, _⟩ := exists_spelled_of_read h
  obtain rfl : left = behind := congrArg Content.ready hrest
  obtain rfl := List.append_cancel_right hbytes
  rw [runningIn_spelled hfits hfound] at hrunning
  cases hrunning
  rfl

/-- Any bytes that are accepted are in their read part what would be written of the trial, exactly if the hosts of
its running totals stand in it in ascending order of their bytes. In any order, the part is spelled by the trial
and the running totals as they stand, and no other bytes are read as these: no text, length, number or choice in
it has a second spelling. -/
theorem encode_eq_iff_inByteOrder (h : read path (.plain bytes) = .ok (trial, rest)) :
    ∃ consumed left entries, bytes = consumed ++ left ∧ rest = .plain left ∧
      runningIn consumed = .ok entries ∧ trial.running = KeyedList.ofList entries ∧
      consumed = spelled trial entries ∧
      (encode trial = consumed ↔ Text.InByteOrder (entries.map Prod.fst)) ∧
      ∀ other behind path', read path' (.plain (other ++ behind)) = .ok (trial, .plain behind) →
        runningIn other = .ok entries → other = consumed := by
  obtain ⟨entries, left, rfl, rfl, hfits, hentries, hrunning⟩ := exists_spelled_of_read h
  have hin : runningIn (spelled trial entries) = .ok entries := runningIn_spelled hfits hentries
  refine ⟨spelled trial entries, left, entries, rfl, rfl, hin, hrunning, rfl, ?_, ?_⟩
  · have hordered : Text.InByteOrder (entries.map Prod.fst) ↔ KeyedList.Ascending entries := by
      rw [Text.inByteOrder_iff_pairwise, List.pairwise_map]
      rfl
    rw [hordered, encode_eq_spelled, ← KeyedList.ofList_eq_self_iff, ← hrunning]
    constructor
    · intro heq
      have hencode : runningIn (spelled trial trial.running) = .ok trial.running :=
        runningIn_spelled hfits (hrunning ▸ hentries.ofList)
      rw [heq, hin] at hencode
      exact (Except.ok.inj hencode).symm
    · intro heq
      rw [heq]
  · intro other behind path' hother hin'
    exact eq_spelled_of_read hother hin'

/-- Two clients in descending order, and the first of them once more. -/
def ofTwoClientsReversed : List (String × List Report) :=
  ofTwoClients.running.reverse ++ ofTwoClients.running.take 1

theorem encode_eq_iff_inByteOrder_ofTwoClients :
    read "run.zst" (.plain (spelled ofTwoClients ofTwoClientsReversed ++ [9, 0])) = .ok (ofTwoClients, .plain [9, 0]) ∧
      ¬ Text.InByteOrder (ofTwoClientsReversed.map Prod.fst) ∧
      encode ofTwoClients ≠ spelled ofTwoClients ofTwoClientsReversed := by
  have hentries : Codec.FitsRunning ofTwoClientsReversed := ⟨by decide, by decide⟩
  have hread := read_spelled_append fits_ofTwoClients hentries (by decide) "run.zst" [9, 0]
  have hdescending : ¬ Text.InByteOrder (ofTwoClientsReversed.map Prod.fst) := by
    rw [Text.inByteOrder_iff_pairwise]
    decide
  refine ⟨hread, hdescending, ?_⟩
  obtain ⟨consumed, left, entries, hbytes, hrest, hin, _, _, hiff, _⟩ := encode_eq_iff_inByteOrder hread
  obtain rfl : [9, 0] = left := congrArg Content.ready hrest
  obtain rfl := List.append_cancel_right hbytes
  rw [runningIn_spelled fits_ofTwoClients hentries] at hin
  cases hin
  exact fun heq => hdescending (hiff.mp heq)

end ResultFile

end PageLoads
