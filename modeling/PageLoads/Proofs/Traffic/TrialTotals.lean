import Mathlib
import PageLoads.Proofs.Traffic.Sums
import PageLoads.Proofs.Traffic.Totals

/-!
# Totals of trials

The traffic of several trials is added up in two levels, first over the clients and the handlers of one
trial, then over the trials. The totals are the exact sums over all clients and all handlers of all trials,
or the run ends because one of these sums is too large; what one of them is, the grouping does not decide.
-/

namespace PageLoads.Traffic

open Counters (total)

variable {cutoff : Binary64} {reports : List Report} {running : List (String × List Report)}
  {trials : List (String × Trial)} {start result clients handlers : Counters} {failure : Failure}

/-- Every client's reports say what its traffic since a cutoff is. -/
def Measured (cutoff : Binary64) (running : List (String × List Report)) : Prop :=
  ∀ entry ∈ running, ∃ growth, hostDelta entry.1 cutoff entry.2 = .ok growth

/-- The traffic since a cutoff of each client whose reports say what it is. -/
def growths (cutoff : Binary64) (running : List (String × List Report)) : List Counters :=
  running.filterMap fun (host, reports) => (hostDelta host cutoff reports).toOption

def lateCounters (cutoff : Binary64) (reports : List Report) : List Counters :=
  (reports.filter fun report => cutoff.le report.time).map Report.counters

def clientTraffic (cutoff : Binary64) (trials : List (String × Trial)) : List Counters :=
  trials.flatMap fun (_, trial) => growths cutoff trial.running

def handlerTraffic (cutoff : Binary64) (trials : List (String × Trial)) : List Counters :=
  trials.flatMap fun (_, trial) => lateCounters cutoff trial.handlers

theorem growths_cons {host : String} {growth : Counters} (h : hostDelta host cutoff reports = .ok growth) :
    growths cutoff ((host, reports) :: running) = growth :: growths cutoff running := by
  simp [growths, h, Except.toOption]

private def addClient (cutoff : Binary64) (total : Counters) : String × List Report → Except Failure Counters
  | (host, reports) => do
    sum total (← (hostDelta host cutoff reports).mapError .ofFault)

private theorem clientTotals_eq (cutoff : Binary64) (running : List (String × List Report)) :
    clientTotals cutoff running = running.foldlM (addClient cutoff) Counters.zero := rfl

private theorem addClient_eq {host : String} {growth : Counters}
    (h : hostDelta host cutoff reports = .ok growth) :
    addClient cutoff start (host, reports) = sum start growth := by
  rw [addClient, h]
  rfl

private theorem foldlM_addClient_eq (h : Measured cutoff running) :
    running.foldlM (addClient cutoff) start = (growths cutoff running).foldlM sum start := by
  induction running generalizing start with
  | nil => rfl
  | cons entry rest ih =>
    obtain ⟨host, reports⟩ := entry
    obtain ⟨growth, hgrowth⟩ := h (host, reports) List.mem_cons_self
    have hrest : Measured cutoff rest := fun entry hentry => h entry (List.mem_cons_of_mem _ hentry)
    rw [growths_cons hgrowth, List.foldlM_cons, List.foldlM_cons, addClient_eq hgrowth]
    exact congrArg _ (funext fun middle => ih hrest)

private theorem measured_of_foldlM_addClient (h : running.foldlM (addClient cutoff) start = .ok result) :
    Measured cutoff running := by
  induction running generalizing start with
  | nil => exact fun _ hentry => absurd hentry List.not_mem_nil
  | cons first rest ih =>
    obtain ⟨middle, hfirst, hrest⟩ := Except.bind_eq_ok_iff.mp h
    obtain ⟨growth, hgrowth, _⟩ := Except.bind_eq_ok_iff.mp hfirst
    intro entry hentry
    rcases List.mem_cons.mp hentry with rfl | hentry
    · exact ⟨growth, Except.mapError_eq_ok_iff.mp hgrowth⟩
    · exact ih hrest entry hentry

/-- The totals of all clients are the exact sums of their traffic, if it is known and the sums fit. -/
theorem clientTotals_eq_ok_iff :
    clientTotals cutoff running = .ok result ↔
      Measured cutoff running ∧
        ∀ counter, total (growths cutoff running) counter = (result.value counter).toNat := by
  rw [clientTotals_eq]
  constructor
  · intro h
    have hmeasured := measured_of_foldlM_addClient h
    rw [foldlM_addClient_eq hmeasured, foldlM_sum_eq_ok_iff] at h
    exact ⟨hmeasured, by simpa using h⟩
  · rintro ⟨hmeasured, htotal⟩
    rw [foldlM_addClient_eq hmeasured, foldlM_sum_eq_ok_iff]
    simpa using htotal

theorem eq_crash_of_clientTotals (hmeasured : Measured cutoff running)
    (h : clientTotals cutoff running = .error failure) : failure = .ofCrash .sumTooLarge := by
  rw [clientTotals_eq, foldlM_addClient_eq hmeasured] at h
  exact eq_crash_of_foldlM_sum h

private theorem handlerTotals_eq (cutoff : Binary64) (reports : List Report) :
    handlerTotals cutoff reports = (lateCounters cutoff reports).foldlM sum Counters.zero := by
  rw [lateCounters, List.foldlM_map]
  rfl

theorem handlerTotals_eq_ok_iff :
    handlerTotals cutoff reports = .ok result ↔
      ∀ counter, total (lateCounters cutoff reports) counter = (result.value counter).toNat := by
  rw [handlerTotals_eq, foldlM_sum_eq_ok_iff]
  simp

theorem eq_crash_of_handlerTotals (h : handlerTotals cutoff reports = .error failure) :
    failure = .ofCrash .sumTooLarge := by
  rw [handlerTotals_eq] at h
  exact eq_crash_of_foldlM_sum h

private def addTrial (cutoff : Binary64) : Counters × Counters → String × Trial →
    Except Failure (Counters × Counters)
  | (clients, handlers), (path, trial) => do
    let ofClients ← (clientTotals cutoff trial.running).mapError (.during (.totallingTraffic path))
    let clients ← sum clients ofClients
    let ofHandlers ← handlerTotals cutoff trial.handlers
    let handlers ← sum handlers ofHandlers
    return (clients, handlers)

private theorem trialTotals_eq (cutoff : Binary64) (trials : List (String × Trial)) :
    trialTotals cutoff trials = trials.foldlM (addTrial cutoff) (Counters.zero, Counters.zero) := rfl

/-- The step: adding one trial gives the exact sums, if all clients are known and the sums fit. -/
private theorem addTrial_eq_ok_iff {clients' handlers' : Counters} {path : String} {trial : Trial} :
    addTrial cutoff (clients, handlers) (path, trial) = .ok (clients', handlers') ↔
      Measured cutoff trial.running ∧
      (∀ counter, (clients.value counter).toNat + total (growths cutoff trial.running) counter =
        (clients'.value counter).toNat) ∧
      ∀ counter, (handlers.value counter).toNat + total (lateCounters cutoff trial.handlers) counter =
        (handlers'.value counter).toNat := by
  simp only [addTrial, Except.bind_eq_ok_iff, Except.mapError_eq_ok_iff, clientTotals_eq_ok_iff,
    handlerTotals_eq_ok_iff, sum_eq_ok_iff, pure, Except.pure, Except.ok.injEq, Prod.mk.injEq]
  constructor
  · rintro ⟨ofClients, ⟨hmeasured, hgrowths⟩, _, hclients, ofHandlers, hlate, _, hhandlers, rfl, rfl⟩
    refine ⟨hmeasured, fun counter => ?_, fun counter => ?_⟩
    · rw [hgrowths counter, hclients counter]
    · rw [hlate counter, hhandlers counter]
  · rintro ⟨hmeasured, hclients, hhandlers⟩
    simp only [Nat.add_comm (Counters.value clients _).toNat] at hclients
    simp only [Nat.add_comm (Counters.value handlers _).toNat] at hhandlers
    obtain ⟨ofClients, hgrowths, hclients⟩ := Counters.exists_partialSum_iff.mpr hclients
    obtain ⟨ofHandlers, hlate, hhandlers⟩ := Counters.exists_partialSum_iff.mpr hhandlers
    refine ⟨ofClients, ⟨hmeasured, hgrowths⟩, clients', fun counter => ?_, ofHandlers, hlate, handlers',
      fun counter => ?_, rfl, rfl⟩
    · rw [Nat.add_comm, hclients counter]
    · rw [Nat.add_comm, hhandlers counter]

private theorem crash_of_addTrial {before : Counters × Counters} {path : String} {trial : Trial}
    (hmeasured : Measured cutoff trial.running)
    (h : addTrial cutoff before (path, trial) = .error failure) : failure.cause = .crash .sumTooLarge := by
  simp only [addTrial, Except.bind_eq_error_iff, Except.mapError_eq_error_iff, pure, Except.pure] at h
  rcases h with ⟨cause, hcause, rfl⟩ | ⟨ofClients, _, hclients | ⟨_, _, hlate | ⟨ofHandlers, _, h⟩⟩⟩
  · rw [eq_crash_of_clientTotals hmeasured hcause]
    rfl
  · rw [eq_crash_of_sum hclients]
    rfl
  · rw [eq_crash_of_handlerTotals hlate]
    rfl
  · rcases h with hhandlers | ⟨_, _, h⟩
    · rw [eq_crash_of_sum hhandlers]
      rfl
    · cases h

private theorem foldlM_addTrial_eq_ok_iff {clients' handlers' : Counters} :
    trials.foldlM (addTrial cutoff) (clients, handlers) = .ok (clients', handlers') ↔
      (∀ trial ∈ trials, Measured cutoff trial.2.running) ∧
      (∀ counter, (clients.value counter).toNat + total (clientTraffic cutoff trials) counter =
        (clients'.value counter).toNat) ∧
      ∀ counter, (handlers.value counter).toNat + total (handlerTraffic cutoff trials) counter =
        (handlers'.value counter).toNat := by
  induction trials generalizing clients handlers with
  | nil =>
    simp only [List.foldlM_nil, pure, Except.pure, Except.ok.injEq, Prod.mk.injEq, clientTraffic, handlerTraffic,
      List.flatMap_nil, Counters.total_nil, Nat.add_zero, List.not_mem_nil, false_implies, implies_true, true_and]
    exact and_congr Counters.eq_iff_forall_value Counters.eq_iff_forall_value
  | cons first rest ih =>
    obtain ⟨path, trial⟩ := first
    simp only [List.foldlM_cons, Except.bind_eq_ok_iff, Prod.exists, ih, addTrial_eq_ok_iff, clientTraffic,
      handlerTraffic, List.flatMap_cons, Counters.total_append, List.forall_mem_cons, ← Nat.add_assoc]
    -- What the first trials come to fits if the whole does, so there is a sum on the way.
    constructor
    · rintro ⟨middle, middle', ⟨hmeasured, hclients, hhandlers⟩, hrest, hclientsRest, hhandlersRest⟩
      exact ⟨⟨hmeasured, hrest⟩, Counters.exists_partialSum_iff.mp ⟨middle, hclients, hclientsRest⟩,
        Counters.exists_partialSum_iff.mp ⟨middle', hhandlers, hhandlersRest⟩⟩
    · rintro ⟨⟨hmeasured, hrest⟩, hclients, hhandlers⟩
      obtain ⟨middle, hclients, hclientsRest⟩ := Counters.exists_partialSum_iff.mpr hclients
      obtain ⟨middle', hhandlers, hhandlersRest⟩ := Counters.exists_partialSum_iff.mpr hhandlers
      exact ⟨middle, middle', ⟨hmeasured, hclients, hhandlers⟩, hrest, hclientsRest, hhandlersRest⟩

private theorem crash_of_foldlM_addTrial {before : Counters × Counters}
    (hmeasured : ∀ trial ∈ trials, Measured cutoff trial.2.running)
    (h : trials.foldlM (addTrial cutoff) before = .error failure) : failure.cause = .crash .sumTooLarge := by
  obtain ⟨⟨path, trial⟩, htrial, _, hstep⟩ := Except.exists_of_foldlM_eq_error h
  exact crash_of_addTrial (hmeasured (path, trial) htrial) hstep

/-- The totals of several trials are the exact sums over all clients and over all handlers of all of them,
if the traffic of every client is known and the sums fit. -/
theorem trialTotals_eq_ok_iff :
    trialTotals cutoff trials = .ok (clients, handlers) ↔
      (∀ trial ∈ trials, Measured cutoff trial.2.running) ∧
      (∀ counter, total (clientTraffic cutoff trials) counter = (clients.value counter).toNat) ∧
      ∀ counter, total (handlerTraffic cutoff trials) counter = (handlers.value counter).toNat := by
  rw [trialTotals_eq, foldlM_addTrial_eq_ok_iff]
  simp

theorem trialTotals_of_perm {reordered : List (String × Trial)} (hperm : trials.Perm reordered)
    (h : trialTotals cutoff trials = .ok (clients, handlers)) :
    trialTotals cutoff reordered = .ok (clients, handlers) := by
  obtain ⟨hmeasured, hclients, hhandlers⟩ := trialTotals_eq_ok_iff.mp h
  have hclientTraffic : (clientTraffic cutoff trials).Perm (clientTraffic cutoff reordered) :=
    hperm.flatMap_right _
  have hhandlerTraffic : (handlerTraffic cutoff trials).Perm (handlerTraffic cutoff reordered) :=
    hperm.flatMap_right _
  refine trialTotals_eq_ok_iff.mpr ⟨fun trial htrial => hmeasured trial (hperm.mem_iff.mpr htrial),
    fun counter => ?_, fun counter => ?_⟩
  · rw [← Counters.total_of_perm hclientTraffic, hclients counter]
  · rw [← Counters.total_of_perm hhandlerTraffic, hhandlers counter]

theorem crash_of_trialTotals (hmeasured : ∀ trial ∈ trials, Measured cutoff trial.2.running)
    (h : trialTotals cutoff trials = .error failure) : failure.cause = .crash .sumTooLarge :=
  crash_of_foldlM_addTrial hmeasured h

theorem sumWords_of_lt {a b : UInt64} (h : a.toNat + b.toNat < 2 ^ 64) : ∃ s, sumWords a b = .ok s := by
  have hword : Counters.wordAdd? a b = some (a + b) := if_pos h
  exact ⟨a + b, by rw [sumWords, hword]⟩

theorem sumWords_of_le {a b : UInt64} (h : 2 ^ 64 ≤ a.toNat + b.toNat) :
    sumWords a b = .error (.ofCrash .sumTooLarge) := by
  have hword : Counters.wordAdd? a b = none := if_neg (Nat.not_lt.mpr h)
  rw [sumWords, hword]

/-- What was received and sent, or the useful part of it, passes the range of a word if taken together. -/
def TooLargeTogether (totals : Counters) : Prop :=
  2 ^ 64 ≤ totals.receivedBytes.toNat + totals.sentBytes.toNat ∨
    2 ^ 64 ≤ totals.receivedUsefulBytes.toNat + totals.sentUsefulBytes.toNat

theorem totalsEntry_of_tooLarge {totals : Counters} (h : TooLargeTogether totals) :
    totalsEntry totals = .error (.ofCrash .sumTooLarge) := by
  simp only [totalsEntry, Overheads.ofTotals]
  by_cases hall : 2 ^ 64 ≤ totals.receivedBytes.toNat + totals.sentBytes.toNat
  · rw [sumWords_of_le hall]
    rfl
  · obtain ⟨all, hsum⟩ := sumWords_of_lt (Nat.not_le.mp hall)
    rw [hsum, sumWords_of_le (h.resolve_left hall)]
    rfl

theorem exists_totalsEntry_of_not_tooLarge {totals : Counters} (h : ¬ TooLargeTogether totals) :
    ∃ entry, totalsEntry totals = .ok entry := by
  obtain ⟨hall, huseful⟩ := not_or.mp h
  obtain ⟨all, hall⟩ := sumWords_of_lt (Nat.not_le.mp hall)
  obtain ⟨useful, huseful⟩ := sumWords_of_lt (Nat.not_le.mp huseful)
  simp only [totalsEntry, Overheads.ofTotals]
  rw [hall, huseful]
  exact ⟨_, rfl⟩

/-- Where the traffic of every client is known, the totals of trials are the exact sums of each counter, or
one of these is too large and the run ends. The overheads need sums of two totals each, so their entry in
the summary is made only where these fit as well, and else the run ends there. -/
theorem trialTotals_exact_or_crash (cutoff : Binary64) (trials : List (String × Trial))
    (hmeasured : ∀ trial ∈ trials, ∀ entry ∈ trial.2.running,
      ∃ growth, hostDelta entry.1 cutoff entry.2 = .ok growth) :
    ((∀ counter, total (clientTraffic cutoff trials) counter < 2 ^ 64 ∧
        total (handlerTraffic cutoff trials) counter < 2 ^ 64) →
      ∃ clients handlers, trialTotals cutoff trials = .ok (clients, handlers) ∧
        ∀ counter, (clients.value counter).toNat = total (clientTraffic cutoff trials) counter ∧
          (handlers.value counter).toNat = total (handlerTraffic cutoff trials) counter) ∧
    ((∃ counter, 2 ^ 64 ≤ total (clientTraffic cutoff trials) counter ∨
        2 ^ 64 ≤ total (handlerTraffic cutoff trials) counter) →
      ∃ doing, trialTotals cutoff trials = .error ⟨doing, .crash .sumTooLarge⟩) ∧
    ∀ totals, (totalsEntry totals = .error (.ofCrash .sumTooLarge) ↔ TooLargeTogether totals) ∧
      ((∃ entry, totalsEntry totals = .ok entry) ↔ ¬ TooLargeTogether totals) := by
  refine ⟨?_, ?_, fun totals => ⟨⟨?_, totalsEntry_of_tooLarge⟩, ?_, exists_totalsEntry_of_not_tooLarge⟩⟩
  · intro hfits
    obtain ⟨clients, hclients⟩ := Counters.exists_of_lt fun counter => (hfits counter).1
    obtain ⟨handlers, hhandlers⟩ := Counters.exists_of_lt fun counter => (hfits counter).2
    exact ⟨clients, handlers, trialTotals_eq_ok_iff.mpr ⟨hmeasured, hclients, hhandlers⟩,
      fun counter => ⟨(hclients counter).symm, (hhandlers counter).symm⟩⟩
  · rintro ⟨counter, hlarge⟩
    cases h : trialTotals cutoff trials with
    | ok totals =>
      obtain ⟨_, hclients, hhandlers⟩ := trialTotals_eq_ok_iff.mp h
      have hlt := (totals.1.value counter).toNat_lt
      have hlt' := (totals.2.value counter).toNat_lt
      have := hclients counter
      have := hhandlers counter
      omega
    | error failure =>
      obtain ⟨doing, cause⟩ := failure
      have hcause : cause = .crash .sumTooLarge := crash_of_trialTotals hmeasured h
      exact ⟨doing, by rw [hcause]⟩
  · intro h
    by_contra hfits
    obtain ⟨entry, hentry⟩ := exists_totalsEntry_of_not_tooLarge hfits
    rw [hentry] at h
    cases h
  · rintro ⟨entry, hentry⟩ hlarge
    rw [totalsEntry_of_tooLarge hlarge] at hentry
    cases hentry

private def reportAt (time word : UInt64) : Report :=
  ⟨⟨time⟩, ⟨word, 1, 2, word, 4, 5, word⟩⟩

/-- A trial of two clients, of which the second one's counters stand still. -/
private def trialOfTwoClients : Trial where
  run := ⟨"v1", "t0", "t1"⟩
  description := ""
  loads := []
  running := [("webclient1", [reportAt 1 7, reportAt 2 10, reportAt 3 20]),
    ("webclient2", [reportAt 1 5, reportAt 2 5])]
  handlers := [reportAt 0 9, reportAt 4 30]
  ascending := List.pairwise_pair.mpr (by decide)

theorem trialTotals_exact_or_crash_ofTwoTrials :
    let trials := [("a", trialOfTwoClients), ("b", trialOfTwoClients)]
    (∀ trial ∈ trials, ∀ entry ∈ trial.2.running,
      ∃ growth, hostDelta entry.1 ⟨1⟩ entry.2 = .ok growth) ∧
    ∃ clients handlers, trialTotals ⟨1⟩ trials = .ok (clients, handlers) ∧
      (clients.value .receivedBytes).toNat = 26 ∧ (handlers.value .receivedBytes).toNat = 60 := by
  intro trials
  have hmeasured : ∀ trial ∈ trials, ∀ entry ∈ trial.2.running,
      ∃ growth, hostDelta entry.1 ⟨1⟩ entry.2 = .ok growth := by
    simp only [trials, List.forall_mem_cons, trialOfTwoClients, List.not_mem_nil, false_implies, implies_true,
      and_true]
    exact ⟨⟨⟨_, rfl⟩, ⟨_, rfl⟩⟩, ⟨⟨_, rfl⟩, ⟨_, rfl⟩⟩⟩
  have hfits : ∀ counter, total (clientTraffic ⟨1⟩ trials) counter < 2 ^ 64 ∧
      total (handlerTraffic ⟨1⟩ trials) counter < 2 ^ 64 := by
    intro counter
    cases counter <;> decide
  obtain ⟨clients, handlers, htotals, hvalues⟩ := (trialTotals_exact_or_crash ⟨1⟩ trials hmeasured).1 hfits
  have hreceived := hvalues .receivedBytes
  exact ⟨hmeasured, clients, handlers, htotals, hreceived.1.trans (by decide), hreceived.2.trans (by decide)⟩

end PageLoads.Traffic
