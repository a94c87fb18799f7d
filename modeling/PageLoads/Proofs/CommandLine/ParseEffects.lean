import PageLoads.CommandLine.Program
import PageLoads.Proofs.Experiment.Running
import PageLoads.Proofs.ResultFile.RoundTrip
import PageLoads.Proofs.Store.Writes

/-!
# What reading an experiment into a file changes

The command that reads an experiment is spelled out here with its effects on the store in their order, so that
what a failing run has changed by then would stay. Nothing does: the only change is the writing of the result
file, it is the last effect, and it happens wholly or not at all. So a result file is either kept as it is or
replaced by one that holds the trial of the whole experiment.
-/

namespace PageLoads

theorem ResultFile.load_of_save {store after : Store} {path : String} {trial : Trial} (hfits : trial.Fits)
    (h : save store path trial = .ok after) : load after path = .ok trial := by
  obtain ⟨place, hwritable, rfl⟩ := Store.write_eq_ok_iff.mp (Except.mapError_eq_ok_iff.mp h)
  obtain ⟨hresolve, _, _⟩ := Store.writable_eq_ok_iff.mp hwritable
  have hopen : (store.set place (.file (File.compress (encode trial)))).openFile path =
      .ok (.ok (File.compress (encode trial))) := by
    rw [Store.openFile_of_resolve (Store.resolve_of_sameDirectories (Store.sameDirectories_set hwritable) hresolve),
      Store.get?_set_of_writable hwritable, if_pos rfl]
  have hversion : Codec.readNat 4 (.plain (Codec.writeNat 4 version ++ Codec.trial.write trial)) =
      .ok (version, .plain (Codec.trial.write trial)) := Codec.readNat_writeNat (by decide) _
  have htrial : Codec.trial.read (.plain (Codec.trial.write trial)) = .ok (trial, .plain []) := by
    simpa using Codec.restores_trial hfits []
  have hread : read path (.plain (encode trial)) = .ok (trial, .plain []) := by
    simp only [read, encode, hversion, htrial, bind, Except.bind, ne_eq, not_true_eq_false, if_false]
  rw [load, Store.openCompressed, Store.openWith, hopen]
  simp only [Except.map, File.expanded_compress, Except.mapError_ok, bind, Except.bind, decode, hread]

namespace CommandLine

/-- How the command turns to the store. -/
inductive Access where
  | asked (path : String)
  | read (directory : String)
  | wrote (path : String)
  deriving DecidableEq, Repr

/-- A store, and how the command turned to it so far. -/
structure Disk where
  store : Store
  accesses : List Access

def Disk.noting (disk : Disk) (accesses : List Access) : Disk :=
  { disk with accesses := disk.accesses ++ accesses }

theorem Disk.noting_append (disk : Disk) (accesses more : List Access) :
    disk.noting (accesses ++ more) = (disk.noting accesses).noting more := by
  simp [noting]

/-- A step of the command may change the disk and may fail; a failure leaves the changes made before it. -/
abbrev Effect := EStateM Failure Disk

namespace Effect

def note (access : Access) : Effect Unit :=
  modify fun disk => disk.noting [access]

/-- Whether the result file is to be written. Where it would be replaced, it is not asked for. -/
def shouldWrite (path : String) (force : Bool) : Effect Bool := do
  if force then return true
  note (.asked path)
  return !(← get).store.holds path

def readExperiment (settings : ParseSettings) (directory description : String) : Effect Trial := do
  note (.read directory)
  match Experiment.read (← get).store settings directory description with
  | .ok trial => return trial
  | .error failure => throw (failure.during (.parsingExperiment directory))

def save (path : String) (trial : Trial) : Effect Unit := do
  note (.wrote path)
  match ResultFile.save (← get).store path trial with
  | .ok after => modify fun disk => { disk with store := after }
  | .error failure => throw failure

def parse (settings : ParseSettings) (directory description : String) (force : Bool) : Effect Unit := do
  if ← shouldWrite settings.outputFile force then
    let trial ← readExperiment settings directory description
    save settings.outputFile trial

/-- The store behind a run that succeeds, or the failure of one that does not. -/
def result : EStateM.Result Failure Disk Unit → Except Failure Store
  | .ok _ after => .ok after.store
  | .error failure _ => .error failure

variable {disk : Disk} {settings : ParseSettings} {directory description : String} {force : Bool}

/-- An output that is there and is not to be replaced. -/
def Kept (disk : Disk) (settings : ParseSettings) (force : Bool) : Prop :=
  disk.store.holds settings.outputFile = true ∧ force = false

def asking (settings : ParseSettings) (force : Bool) : List Access :=
  if force then [] else [.asked settings.outputFile]

@[simp] theorem run_note (access : Access) : (note access).run disk = .ok () (disk.noting [access]) := rfl

theorem run_shouldWrite_of_kept (h : Kept disk settings force) :
    (shouldWrite settings.outputFile force).run disk = .ok false (disk.noting [.asked settings.outputFile]) := by
  obtain ⟨hholds, rfl⟩ := h
  simp [shouldWrite, Disk.noting, hholds]

theorem run_shouldWrite (h : ¬ Kept disk settings force) :
    (shouldWrite settings.outputFile force).run disk = .ok true (disk.noting (asking settings force)) := by
  cases force with
  | true => simp [shouldWrite, asking, Disk.noting]
  | false =>
    have hholds : disk.store.holds settings.outputFile = false :=
      Bool.eq_false_iff.mpr fun hholds => h ⟨hholds, rfl⟩
    simp [shouldWrite, asking, Disk.noting, hholds]

theorem run_readExperiment_of_ok {trial : Trial}
    (h : Experiment.read disk.store settings directory description = .ok trial) :
    (readExperiment settings directory description).run disk = .ok trial (disk.noting [.read directory]) := by
  simp [readExperiment, Disk.noting, h]

theorem run_readExperiment_of_error {failure : Failure}
    (h : Experiment.read disk.store settings directory description = .error failure) :
    (readExperiment settings directory description).run disk =
      .error (failure.during (.parsingExperiment directory)) (disk.noting [.read directory]) := by
  simp only [readExperiment, EStateM.run_bind, run_note, EStateM.run_get, Disk.noting, h]
  rfl

theorem run_save_of_ok {path : String} {trial : Trial} {after : Store}
    (h : ResultFile.save disk.store path trial = .ok after) :
    (save path trial).run disk = .ok () ⟨after, disk.accesses ++ [.wrote path]⟩ := by
  simp [save, Disk.noting, h]

theorem run_save_of_error {path : String} {trial : Trial} {failure : Failure}
    (h : ResultFile.save disk.store path trial = .error failure) :
    (save path trial).run disk = .error failure (disk.noting [.wrote path]) := by
  simp only [save, EStateM.run_bind, run_note, EStateM.run_get, Disk.noting, h]
  rfl

theorem run_parse_of_kept (h : Kept disk settings force) :
    (parse settings directory description force).run disk = .ok () (disk.noting [.asked settings.outputFile]) := by
  simp [parse, run_shouldWrite_of_kept h]

/-- The ways in which a run ends where the output is not kept: the experiment cannot be read, or the result file
cannot be written, and then the store is as it was, or the result file is all that is written. -/
theorem run_parse_cases (h : ¬ Kept disk settings force) :
    (∃ failure, Experiment.read disk.store settings directory description = .error failure ∧
      (parse settings directory description force).run disk =
        .error (failure.during (.parsingExperiment directory))
          (disk.noting (asking settings force ++ [.read directory]))) ∨
    ∃ trial, Experiment.read disk.store settings directory description = .ok trial ∧
      ((∃ failure, ResultFile.save disk.store settings.outputFile trial = .error failure ∧
        (parse settings directory description force).run disk =
          .error failure (disk.noting (asking settings force ++ [.read directory] ++ [.wrote settings.outputFile]))) ∨
      ∃ after accesses, ResultFile.save disk.store settings.outputFile trial = .ok after ∧
        (parse settings directory description force).run disk = .ok () ⟨after, accesses⟩) := by
  have hrun : (parse settings directory description force).run disk =
      (readExperiment settings directory description >>= save settings.outputFile).run
        (disk.noting (asking settings force)) := by
    simp [parse, run_shouldWrite h]
  rw [hrun, EStateM.run_bind]
  simp only [Disk.noting_append]
  cases hread : Experiment.read disk.store settings directory description with
  | error failure =>
    have hfails : (readExperiment settings directory description).run (disk.noting (asking settings force)) = _ :=
      run_readExperiment_of_error hread
    rw [hfails]
    exact .inl ⟨failure, rfl, rfl⟩
  | ok trial =>
    have hreads : (readExperiment settings directory description).run (disk.noting (asking settings force)) = _ :=
      run_readExperiment_of_ok hread
    rw [hreads]
    refine .inr ⟨trial, rfl, ?_⟩
    cases hsave : ResultFile.save disk.store settings.outputFile trial with
    | error failure => exact .inl ⟨failure, rfl, run_save_of_error hsave⟩
    | ok after => exact .inr ⟨after, _, rfl, run_save_of_ok hsave⟩

/-- The effects of the command end as the command does that the program runs. -/
theorem result_run_parse :
    result ((parse settings directory description force).run disk) =
      runParse disk.store settings directory description force := by
  by_cases hkept : Kept disk settings force
  · rw [run_parse_of_kept hkept, runParse, if_pos (by simp [hkept.1, hkept.2])]
    rfl
  · rw [runParse, if_neg (by simpa [Kept] using hkept)]
    rcases run_parse_cases hkept with
      ⟨failure, hread, hrun⟩ | ⟨trial, hread, ⟨failure, hsave, hrun⟩ | ⟨after, _, hsave, hrun⟩⟩
    · rw [hrun, hread]
      rfl
    · simp only [hrun, hread, Except.mapError_ok, bind, Except.bind, hsave, result]
    · simp only [hrun, hread, Except.mapError_ok, bind, Except.bind, hsave, result]

end Effect

/-- A run keeps the result file or replaces it by one of the whole experiment, whatever stands in the store.
An output that is there and is not to be replaced is all the run looks at, and the run succeeds and changes nothing.
Otherwise a run whose experiment cannot be read fails without setting out to write, and one that succeeds has
changed a single place, to which the output leads and from which the trial of the experiment is loaded. No run
that fails has changed anything. The effects are those of the command that the program runs. -/
theorem parse_keeps_or_replaces (disk : Disk) (settings : ParseSettings) (directory description : String)
    (force : Bool) :
    Effect.result ((Effect.parse settings directory description force).run disk) =
      runParse disk.store settings directory description force ∧
    (Effect.Kept disk settings force →
      (Effect.parse settings directory description force).run disk =
        .ok () (disk.noting [.asked settings.outputFile])) ∧
    (¬ Effect.Kept disk settings force →
      ∀ failure, Experiment.read disk.store settings directory description = .error failure →
        ∃ accesses, (∀ path, .wrote path ∉ accesses) ∧
          (Effect.parse settings directory description force).run disk =
            .error (failure.during (.parsingExperiment directory)) (disk.noting accesses)) ∧
    (∀ failure after, (Effect.parse settings directory description force).run disk = .error failure after →
      after.store = disk.store) ∧
    ∀ after, (Effect.parse settings directory description force).run disk = .ok () after →
      ¬ Effect.Kept disk settings force →
      ∃ trial place, Experiment.read disk.store settings directory description = .ok trial ∧
        disk.store.resolve settings.outputFile = .ok place ∧
        (∀ q, after.store.get? q =
          if q = place then some (.file (File.compress (ResultFile.encode trial))) else disk.store.get? q) ∧
        (trial.Fits → ResultFile.load after.store settings.outputFile = .ok trial) := by
  refine ⟨Effect.result_run_parse, Effect.run_parse_of_kept, ?_, ?_, ?_⟩
  · intro hkept failure hfails
    rcases Effect.run_parse_cases hkept with ⟨found, hread, hrun⟩ | ⟨trial, hread, _⟩
    · rw [hfails] at hread
      cases hread
      refine ⟨_, fun path hwrote => ?_, hrun⟩
      cases force <;> simp [Effect.asking] at hwrote
    · rw [hfails] at hread
      cases hread
  · intro failure after hfails
    by_cases hkept : Effect.Kept disk settings force
    · rw [Effect.run_parse_of_kept hkept] at hfails
      cases hfails
    · rcases Effect.run_parse_cases hkept with ⟨_, _, hrun⟩ | ⟨_, _, ⟨_, _, hrun⟩ | ⟨_, _, _, hrun⟩⟩
      · rw [hrun] at hfails
        cases hfails
        rfl
      · rw [hrun] at hfails
        cases hfails
        rfl
      · rw [hrun] at hfails
        cases hfails
  · intro after hends hkept
    rcases Effect.run_parse_cases hkept with ⟨_, _, hrun⟩ | ⟨trial, hread, ⟨_, _, hrun⟩ | ⟨saved, _, hsave, hrun⟩⟩
    · rw [hrun] at hends
      cases hends
    · rw [hrun] at hends
      cases hends
    · rw [hrun] at hends
      cases hends
      obtain ⟨place, hwritable, hset⟩ := Store.write_eq_ok_iff.mp (Except.mapError_eq_ok_iff.mp hsave)
      refine ⟨trial, place, hread, (Store.writable_eq_ok_iff.mp hwritable).1, fun q => ?_,
        fun hfits => ResultFile.load_of_save hfits hsave⟩
      rw [← hset, Store.get?_set_of_writable hwritable]

private theorem fits_trialOfOneClient : Experiment.trialOfOneClient.Fits :=
  ⟨⟨by decide, by decide, by decide⟩, by decide, by decide, nofun, by decide, by decide, by decide, by decide⟩

theorem parse_keeps_or_replaces_ofOneClient :
    ¬ Effect.Kept ⟨Experiment.storeOfOneClient, []⟩ { hostsDir := "hosts" } false ∧
      ∃ after, (Effect.parse { hostsDir := "hosts" } "" "one client" false).run
          ⟨Experiment.storeOfOneClient, []⟩ = .ok () after ∧
        ResultFile.load after.store "parsedResults-v9.bin.zst" = .ok Experiment.trialOfOneClient := by
  have hkept : ¬ Effect.Kept ⟨Experiment.storeOfOneClient, []⟩ { hostsDir := "hosts" } false := by
    rintro ⟨hholds, _⟩
    revert hholds
    decide +kernel
  have hread := Experiment.read_ofOneClient
  have hwritable : Experiment.storeOfOneClient.writable "parsedResults-v9.bin.zst" =
      .ok ["parsedResults-v9.bin.zst"] := by decide +kernel
  have hsave : ∃ after, ResultFile.save Experiment.storeOfOneClient "parsedResults-v9.bin.zst"
      Experiment.trialOfOneClient = .ok after :=
    ⟨_, Except.mapError_eq_ok_iff.mpr (Store.write_eq_ok_iff.mpr ⟨_, hwritable, rfl⟩)⟩
  have hrun : ∃ after, (Effect.parse { hostsDir := "hosts" } "" "one client" false).run
      ⟨Experiment.storeOfOneClient, []⟩ = .ok () after := by
    rcases Effect.run_parse_cases hkept with ⟨_, hfails, _⟩ | ⟨_, hreads, ⟨_, hfails, _⟩ | ⟨_, _, _, hrun⟩⟩
    · cases hread.symm.trans hfails
    · cases hread.symm.trans hreads
      obtain ⟨_, hsave⟩ := hsave
      cases hsave.symm.trans hfails
    · exact ⟨_, hrun⟩
  obtain ⟨after, hrun⟩ := hrun
  obtain ⟨_, _, _, _, hreplaced⟩ :=
    parse_keeps_or_replaces ⟨Experiment.storeOfOneClient, []⟩ { hostsDir := "hosts" } "" "one client" false
  obtain ⟨trial, _, hreads, _, _, hload⟩ := hreplaced after hrun hkept
  cases hread.symm.trans hreads
  exact ⟨hkept, after, hrun, hload fits_trialOfOneClient⟩

end CommandLine

end PageLoads
