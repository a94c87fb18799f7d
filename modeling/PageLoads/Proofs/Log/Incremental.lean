import PageLoads.Log.ProxyLog
import PageLoads.Proofs.Except
import PageLoads.Proofs.Log.DriverLog

namespace PageLoads

namespace LogLines

variable {α σ : Type} {step : Nat → List Char → σ → Except Fault σ}

/-- What is read of a log begins with what is read of its first lines, and a fault in these lines stops the
reading of the whole log as well. -/
structure Incremental (read : LogLines → Except Fault (List α)) : Prop where
  records_prefix : ∀ first second records, read (first ++ second) = .ok records →
    ∃ earlier, read first = .ok earlier ∧ earlier <+: records
  fault_eq : ∀ first second fault, read first = .error fault → read (first ++ second) = .error fault

/-- A step keeps the records there are and puts others behind them. -/
def OnlyAdds (records : σ → List α) (step : Nat → List Char → σ → Except Fault σ) : Prop :=
  ∀ number line state next, step number line state = .ok next → records state <+: records next

theorem records_prefix_of_scan {records : σ → List α} (hstep : OnlyAdds records step) (number : Nat) (state : σ)
    (lines : LogLines) :
    records state <+: records (scan step number state lines).1 :=
  scan_preserves (P := fun reached => records state <+: records reached)
    (fun hnext hbefore => hbefore.trans (hstep _ _ _ _ hnext)) List.prefix_rfl lines

/-- The reading of records by steps that only add to them is incremental. -/
theorem incremental_fold {records : σ → List α} {start : σ} (hstep : OnlyAdds records step) :
    Incremental fun lines => (fold step start lines).map records where
  records_prefix := by
    intro first second found h
    obtain ⟨final, hfinal, rfl⟩ := Except.map_eq_ok_iff.mp h
    rw [fold_eq_ok_iff, scan_append] at hfinal
    rcases hfirst : scan step 1 start first with ⟨between, _ | fault⟩
    · simp only [hfirst] at hfinal
      refine ⟨records between, Except.map_eq_ok_iff.mpr ⟨between, fold_eq_ok_iff.mpr hfirst, rfl⟩, ?_⟩
      have hrest := records_prefix_of_scan hstep (1 + first.length) between second
      rwa [hfinal] at hrest
    · rw [hfirst] at hfinal
      cases hfinal
  fault_eq := by
    intro first second fault h
    obtain ⟨reached, hreached⟩ := fold_eq_error_iff.mp (Except.map_eq_error_iff.mp h)
    refine Except.map_eq_error_iff.mpr (fold_eq_error_iff.mpr ⟨reached, ?_⟩)
    rw [scan_append, hreached]

/-- Behind a line feed a log can be cut: its lines are those of the two parts. -/
theorem ofContent_append (front back : Bytes) :
    ofContent (.plain ((front ++ [Text.lineFeed]) ++ back)) =
      ofContent (.plain (front ++ [Text.lineFeed])) ++ ofContent (.plain back) := by
  have hsplit := Text.splitLines_append_cons front back
  rw [List.append_assoc, List.singleton_append, ofContent_plain, ofContent_plain, ofContent_plain, hsplit,
    List.map_append]

end LogLines

namespace Tracker

theorem loads_prefix_of_advance {t next : Tracker} {number : Nat} {line : Line.DriverLine}
    (h : t.advance number line = .ok next) : t.loads <+: next.loads := by
  cases line with
  | start time url =>
    cases h
    exact List.prefix_rfl
  | domEvent time =>
    obtain ⟨_, rfl⟩ := domEvent_eq_ok_iff.mp h
    exact List.prefix_rfl
  | result result =>
    obtain ⟨load, _, rfl⟩ := finish_eq_ok_iff.mp h
    exact List.prefix_append t.loads [load]

end Tracker

theorem DriverLog.onlyAdds_step : LogLines.OnlyAdds Tracker.loads step := by
  intro number line t next h
  unfold step at h
  split at h
  · cases h
  · cases h
    exact List.prefix_rfl
  · exact Tracker.loads_prefix_of_advance h

theorem DriverLog.map_fst_read_eq (host : String) (table : Interner) (lines : LogLines) :
    (read host table lines).map Prod.fst = (LogLines.fold step (Tracker.new host table) lines).map Tracker.loads := by
  rw [read]
  cases LogLines.fold step (Tracker.new host table) lines <;> rfl

namespace ProxyLog

theorem onlyAdds_clientStep : LogLines.OnlyAdds id clientStep := by
  intro number line reports next h
  unfold clientStep at h
  split at h
  · cases h
  · split at h
    · cases h
      exact List.prefix_append reports _
    · cases h
  · cases h
    exact List.prefix_rfl

theorem onlyAdds_exitStep : LogLines.OnlyAdds id exitStep := by
  intro number line reports next h
  unfold exitStep at h
  split at h
  · cases h
  · cases h
    exact List.prefix_append reports _
  · cases h
    exact List.prefix_rfl

end ProxyLog

/-- Driver logs, client logs and exit relays' logs are read incrementally, whatever stands in their lines: a log
that is cut behind a line yields no record that the whole log would not yield, and a fault in it is the fault of
the whole log. The lines of a file that is cut behind a line feed are the first lines of the file. -/
theorem incremental_read (host : String) (table : Interner) :
    LogLines.Incremental (fun lines => (DriverLog.read host table lines).map Prod.fst) ∧
      LogLines.Incremental ProxyLog.readClient ∧ LogLines.Incremental ProxyLog.readExit ∧
      ∀ front back : Bytes, LogLines.ofContent (.plain ((front ++ [Text.lineFeed]) ++ back)) =
        LogLines.ofContent (.plain (front ++ [Text.lineFeed])) ++ LogLines.ofContent (.plain back) := by
  have hdriver : LogLines.Incremental fun lines =>
      (LogLines.fold DriverLog.step (Tracker.new host table) lines).map Tracker.loads :=
    LogLines.incremental_fold DriverLog.onlyAdds_step
  have hclient : LogLines.Incremental fun lines => (ProxyLog.readClient lines).map id :=
    LogLines.incremental_fold ProxyLog.onlyAdds_clientStep
  have hexit : LogLines.Incremental fun lines => (ProxyLog.readExit lines).map id :=
    LogLines.incremental_fold ProxyLog.onlyAdds_exitStep
  simp only [← DriverLog.map_fst_read_eq] at hdriver
  simp only [Except.map_id, id] at hclient hexit
  exact ⟨hdriver, hclient, hexit, LogLines.ofContent_append⟩

end PageLoads
