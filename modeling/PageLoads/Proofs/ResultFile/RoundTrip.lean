import PageLoads.Proofs.KeyedList
import PageLoads.Proofs.ResultFile.Codec
import PageLoads.ResultFile.Storage

namespace PageLoads

/-- A text is shorter than the least that no memory can hold. -/
def FitsText (s : String) : Prop :=
  s.utf8ByteSize < Codec.textLimit

/-- The length of a list is a word. -/
def FitsList {α : Type} (items : List α) : Prop :=
  items.length < UInt64.size

instance (s : String) : Decidable (FitsText s) := inferInstanceAs (Decidable (_ < _))

instance {α : Type} (items : List α) : Decidable (FitsList items) := inferInstanceAs (Decidable (_ < _))

structure Run.Fits (run : Run) : Prop where
  release : FitsText run.release
  startTime : FitsText run.startTime
  completionTime : FitsText run.completionTime

structure PageLoad.Fits (load : PageLoad) : Prop where
  host : FitsText load.host
  url : FitsText load.url

/-- Every text and every list of a trial has a length that memory allows. Nothing is asked of the
numbers: any counters, any times and any bit patterns fit. -/
structure Trial.Fits (trial : Trial) : Prop where
  run : trial.run.Fits
  description : FitsText trial.description
  loads : FitsList trial.loads
  load : ∀ load ∈ trial.loads, load.Fits
  running : FitsList trial.running
  host : ∀ entry ∈ trial.running, FitsText entry.1
  reports : ∀ entry ∈ trial.running, FitsList entry.2
  handlers : FitsList trial.handlers

namespace Codec

theorem restores_outcome (outcome : Outcome) : Codec.outcome.Restores outcome := by
  intro rest
  cases outcome with
  | succeeded =>
    have htag : readNat 4 (.plain (writeNat 4 0 ++ rest)) = .ok (0, .plain rest) :=
      readNat_writeNat (by decide) rest
    simp only [Codec.outcome, htag, bind, Except.bind, pure, Except.pure]
  | failed why =>
    have htag : readNat 4 (.plain (writeNat 4 1 ++ (reason.write why ++ rest))) =
        .ok (1, .plain (reason.write why ++ rest)) := readNat_writeNat (by decide) _
    have hreason : reason.Restores why :=
      restores_choice (by cases why <;> decide) (by decide)
    simp only [Codec.outcome, List.append_assoc, htag, hreason rest, bind, Except.bind, pure, Except.pure]

theorem restores_pageLoad {load : PageLoad} (hfits : load.Fits) : pageLoad.Restores load := by
  have hmode : mode.Restores load.mode := restores_choice (by cases load.mode <;> decide) (by decide)
  have hcounts := (restores_word32 load.requests).seq ((restores_word32 load.succeededRequests).seq
    ((restores_word32 load.failedRequests).seq ((restores_word32 load.requestsAfterDom).seq
      (restores_word32 load.forcedRequests))))
  have htimes := (restores_word64 load.startSecond).seq ((restores_binary64 load.reportTime).seq
    ((restores_word64 load.loadMilliseconds).seq ((restores_word64 load.firstByteMilliseconds).seq hcounts)))
  have hfields := (restores_text hfits.host).seq ((restores_word32 load.number).seq
    ((restores_text hfits.url).seq (hmode.seq ((restores_outcome load.outcome).seq htimes))))
  exact Restores.imap hfields rfl

theorem restores_counters (c : Counters) : counters.Restores c := by
  have hsent := (restores_word64 c.sentBytes).seq ((restores_word64 c.sentUsefulBytes).seq
    ((restores_word64 c.sentDummyCells).seq (restores_word64 c.avoidedDummyCells)))
  have hfields := (restores_word64 c.receivedBytes).seq ((restores_word64 c.receivedUsefulBytes).seq
    ((restores_word64 c.receivedDummyCells).seq hsent))
  exact Restores.imap hfields rfl

theorem restores_report (r : Report) : report.Restores r :=
  Restores.imap ((restores_binary64 r.time).seq (restores_counters r.counters)) rfl

theorem restores_reports {reports : List Report} (hfits : FitsList reports) :
    (list report).Restores reports :=
  Restores.list hfits fun r _ => restores_report r

theorem restores_run {run : Run} (hfits : run.Fits) : Codec.run.Restores run := by
  have hfields := (restores_text hfits.release).seq
    ((restores_text hfits.startTime).seq (restores_text hfits.completionTime))
  exact Restores.imap hfields rfl

/-- A trial is restored as a whole. Its running totals are put in order as they are read, which changes
nothing because they stand in that order already. -/
theorem restores_trial {trial : Trial} (hfits : trial.Fits) : Codec.trial.Restores trial := by
  have hloads := Restores.list hfits.loads fun load hload => restores_pageLoad (hfits.load load hload)
  have hrunning : running.Restores trial.running :=
    Restores.list hfits.running fun entry hentry =>
      (restores_text (hfits.host entry hentry)).seq (restores_reports (hfits.reports entry hentry))
  have hfields := (restores_run hfits.run).seq ((restores_text hfits.description).seq
    (hloads.seq (hrunning.seq (restores_reports hfits.handlers))))
  refine Restores.imap hfields ?_
  simp only [KeyedList.ofList_eq_self trial.ascending]

end Codec

namespace ResultFile

/-- What is written of a trial is read back as that trial, whatever bytes stand behind it: all fields
of all records are the same, bit for bit, and exactly the bytes behind the trial are left. Read from
a file, the bytes behind it make no difference. -/
theorem read_encode_append {trial : Trial} (hfits : trial.Fits) (path : String) (rest : Bytes) :
    read path (.plain (encode trial ++ rest)) = .ok (trial, .plain rest) ∧
      decode path (File.compress (encode trial ++ rest)).expanded = .ok trial := by
  have hversion : Codec.readNat 4 (.plain (Codec.writeNat 4 version ++ (Codec.trial.write trial ++ rest))) =
      .ok (version, .plain (Codec.trial.write trial ++ rest)) := Codec.readNat_writeNat (by decide) _
  have hread : read path (.plain (encode trial ++ rest)) = .ok (trial, .plain rest) := by
    simp only [read, encode, List.append_assoc, hversion, Codec.restores_trial hfits rest, bind, Except.bind,
      ne_eq, not_true_eq_false, if_false]
  refine ⟨hread, ?_⟩
  rw [File.expanded_compress, decode, hread]
  rfl

/-- A trial of two clients with a failed load, a report at no time and a counter at its highest. -/
def ofTwoClients : Trial where
  run := ⟨"3.1.0", "", "2024-01-02"⟩
  description := "café"
  loads := [⟨"web1", 1, "http://a/", .proxiedTor, .failed .timedOut, 7, Binary64.ofNat 8, 0, 0, 3, 2, 1, 0, 0⟩]
  running :=
    [("web1", [⟨⟨0x7FF8000000000001⟩, ⟨0xFFFFFFFFFFFFFFFF, 1, 0, 2, 1, 0, 0⟩⟩, ⟨Binary64.ofNat 9, .zero⟩]),
      ("web2", [])]
  handlers := [⟨Binary64.ofNat 5, .zero⟩]
  ascending := List.pairwise_pair.mpr (by decide)

theorem fits_ofTwoClients : ofTwoClients.Fits := by
  have hload : ∀ load ∈ ofTwoClients.loads, load.Fits := by
    intro load hload
    rw [List.mem_singleton.mp hload]
    exact ⟨by decide, by decide⟩
  exact ⟨⟨by decide, by decide, by decide⟩, by decide, by decide, hload, by decide, by decide, by decide, by decide⟩

theorem read_encode_append_ofTwoClients :
    ofTwoClients.Fits ∧
      read "run.zst" (.plain (encode ofTwoClients ++ [9, 0])) = .ok (ofTwoClients, .plain [9, 0]) :=
  ⟨fits_ofTwoClients, (read_encode_append fits_ofTwoClients "run.zst" [9, 0]).1⟩

end ResultFile

end PageLoads
