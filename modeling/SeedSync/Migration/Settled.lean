import SeedSync.Migration.Coordinator

/-!
# A completed migration is not applied again

Runs after the receipt of the last migration: the user edits the configuration, and the coordinator decides,
applies and releases. Every step may fail, and the process may die in it.
-/

namespace SeedSync.Migration

open Lib
open Auth (TransitionBinding isStr)

section

variable {T B : Type} [DecidableEq T]

/-! ## Runs -/

inductive CompletedOp where
  /-- The user writes or removes what lies at a path of the configuration. -/
  | edit (path : Codes) (entry : Option Entry)
  | preflight
  | apply (retry : Bool)
  | release
  deriving DecidableEq, Repr

structure CompletedStep (T : Type) where
  call : Call
  op : CompletedOp
  outcomes : Target T → List Outcome := fun _ => []

variable (c : Coordinator T B)

def editFile (path : Codes) (entry : Option Entry) (files : Dict Codes Entry) : Dict Codes Entry :=
  match entry with
  | some entry => files.set path entry
  | none => files.pop path

def CompletedOp.program (call : Call) : CompletedOp → Action T B Unit
  | .edit path entry => Program.update fun dir => { dir with files := editFile path entry dir.files }
  | .preflight => discard (c.preflight call)
  | .apply retry => discard (c.applyConfirmed call retry)
  | .release => discard (c.releaseNormalStartup call)

/-- The directory after the step. -/
def CompletedStep.last (step : CompletedStep T) (dir : Directory B) : Directory B :=
  ((step.op.program c step.call).run.run ⟨dir, step.outcomes⟩).2.world

/-- Each step meets `P` in the directory before it. -/
def Throughout (P : Directory B → CompletedStep T → Prop) : Directory B → List (CompletedStep T) → Prop
  | _, [] => True
  | dir, step :: steps => P dir step ∧ Throughout P (step.last c dir) steps

/-- The file is a record that every migration of the registry is complete. -/
def Coordinator.Completes (file : JsonFile) : Prop :=
  ∃ fields, file.value = .ok fields ∧ readState (fields.item "state") = some .complete ∧
    appliedMigrations fields = .ok (c.expectedCompletedSpecs.map MigrationSpec.migrationId)

def Coordinator.Completed (dir : Directory B) : Prop := ∃ file, dir.metadata = some file ∧ c.Completes file

/-- What the recovery of the journal of a claim leaves, unless it raises. -/
def Coordinator.recoveredClaim (dir : Directory B) (outcomes : Target T → List Outcome) : Option Auth.Files :=
  match (Auth.recoverCompletedMigrationClaimJournal c.journalOrder).run.run
      ⟨{ files := dir.auth }, fun target => outcomes (.auth target)⟩ with
  | (.ok _, m) => some m.world.files
  | (.error _, _) => none

/-- The checks of the last migration pass, with the journal of the claim recovered, or the lock is not to be had, or
the backup that the receipt names is not whole. -/
def Coordinator.Upheld (call : Call) (dir : Directory B) (outcomes : Target T → List Outcome) : Prop :=
  ∀ metadata last reference, dir.readMetadata = some metadata → c.expectedCompletedSpecs.getLast? = some last →
    textOf (metadata.item "backup") = some reference →
    (∃ binding auth phase, c.completedBinding dir metadata reference last (c.rebound dir) = .ok binding ∧
      c.recoveredClaim dir outcomes = some auth ∧ completedPhase last { dir with auth := auth } binding = .ok phase) ∨
    lockState call (some last.migrationId) dir.lock ∈ [.unknown, .active] ∨
    ∃ error, c.retention.validate dir.backups reference = .error error

/-- What is asked of a step: a retry meets a configuration that its migration still upholds. -/
def CompletedStep.Guarded (dir : Directory B) (step : CompletedStep T) : Prop :=
  step.op = .apply true → c.Upheld step.call dir step.outcomes

/-- Only the user changes the configuration, and the record stays that of completed migrations. -/
def CompletedStep.Untouched (dir : Directory B) (step : CompletedStep T) : Prop :=
  ((step.last c dir).files = dir.files ∨ ∃ path entry, step.op = .edit path entry) ∧ c.Completed (step.last c dir)

/-! ## What a preflight leaves -/

/-- What does not depend on the files of the authentication store. -/
def IgnoresAuth (J : Directory B → Prop) : Prop := ∀ dir auth, J dir → J { dir with auth := auth }

variable {c} {J : Directory B → Prop}

theorem checkRoot_keeps {P : Machine (Target T) (Directory B) → Prop} (hP : ∀ m target, P m → P (m.advance target)) :
    Triple P (checkRoot : Action T B Unit) (fun _ => P) P :=
  Triple.act (fun m hm => hP m _ hm) (fun m hm _ => hP m _ hm) (fun m hm _ => hP m _ hm) fun m _ hm _ => hP m _ hm

theorem recoverClaimJournal_keeps (hJ : IgnoresAuth J) : Triple (On J) c.recoverClaimJournal (fun _ => On J) (On J) :=
  Triple.bind (Triple.within_any (Q := On J) fun _ _ _ h => hJ _ _ h) fun _ => Triple.pure fun _ h => h

theorem completedCheck_keeps (hJ : IgnoresAuth J) (metadata : Fields) (reference : Codes) (last : MigrationSpec T B)
    (snapshot : Option (Fields × TransitionBinding)) :
    Triple (On J) (do
      let dir ← Program.read id
      let binding ← Program.ofExcept (c.completedBinding dir metadata reference last snapshot)
      c.recoverClaimJournal
      let dir ← Program.read id
      Program.ofExcept (completedPhase last dir binding) : Action T B AuthPhase) (fun _ => On J) (On J) := by
  refine Triple.read_bind fun m hm => Triple.of_eq hm ?_
  refine Triple.bind (Triple.ofExcept (fun _ _ _ h => h) fun _ _ _ h => h) fun binding => ?_
  refine Triple.bind (recoverClaimJournal_keeps hJ) fun _ => ?_
  refine Triple.read_bind fun m hm => Triple.of_eq hm ?_
  exact Triple.ofExcept (fun _ _ _ h => h) fun _ _ _ h => h

theorem validateCompletedLineage_keeps (hJ : IgnoresAuth J) (metadata : Fields) (snapshot : Option (Fields × TransitionBinding)) :
    Triple (On J) (c.validateCompletedLineage metadata snapshot) (fun _ => On J) (On J) := by
  unfold Coordinator.validateCompletedLineage
  dsimp only
  cases (c.expectedCompletedSpecs.take ((appliedMigrations metadata).toOption.getD []).length).getLast? with
  | none => exact Triple.pure fun _ h => h
  | some last =>
    cases textOf (metadata.item "backup") with
    | none => exact Triple.pure fun _ h => h
    | some reference =>
      dsimp only
      split_ifs
      · exact Triple.pure fun _ h => h
      refine Triple.bind (Triple.attempt (completedCheck_keeps hJ metadata reference last snapshot)) fun phase => ?_
      cases phase with
      | error error => exact Triple.pure fun _ h => h
      | ok phase =>
        dsimp only
        cases c.expectedCompletedSpecs[((appliedMigrations metadata).toOption.getD []).length]? with
        | none => exact Triple.pure fun _ h => h
        | some next =>
          dsimp only
          split_ifs with hschema
          · exact Triple.pure fun _ h => h
          · refine Triple.read_bind fun m hm => Triple.of_eq hm ?_
            refine Triple.bind (Triple.ofExcept (fun _ _ _ h => h) fun _ _ _ h => h) fun matching => ?_
            split_ifs
            · exact Triple.pure fun _ h => h
            · exact Triple.pure fun _ h => h

theorem preflight_keeps (hJ : IgnoresAuth J) (call : Call) : Triple (On J) (c.preflight call) (fun _ => On J) (On J) := by
  unfold Coordinator.preflight
  refine Triple.bind (checkRoot_keeps fun _ _ h => h) fun _ => ?_
  refine Triple.read_bind fun m hm => Triple.of_eq hm ?_
  cases (id m.world).readMetadata with
  | none => exact Triple.ofExcept (fun _ _ _ h => h) fun _ _ _ h => h
  | some metadata =>
    dsimp only
    cases (c.decisionFromMetadata metadata).state with
    | notRequired => exact Triple.pure fun _ h => h
    | required => exact Triple.pure fun _ h => h
    | failed => exact Triple.pure fun _ h => h
    | complete => exact validateCompletedLineage_keeps hJ metadata _
    | running =>
      dsimp only
      split_ifs
      · exact Triple.pure fun _ h => h
      · exact Triple.pure fun _ h => h

/-! ## What a preflight decides -/

/-- A failure that may be tried again is one of the last migration. -/
def Coordinator.Ends (c : Coordinator T B) (decision : MigrationDecision) : Prop :=
  decision.state = .complete ∨ decision.state = .failed ∧ (decision.retryable = true →
    ∃ last, c.expectedCompletedSpecs.getLast? = some last ∧
      ∀ spec, c.spec decision.migrationId = some spec → spec.migrationId = last.migrationId)

theorem failureDecision_state (migrationId : Option Codes) (error : Codes) (retryable : Bool) :
    (c.failureDecision migrationId error retryable).state = .failed := by
  unfold Coordinator.failureDecision
  cases c.spec migrationId with
  | none => rfl
  | some spec => rfl

@[simp] theorem failureDecision_retryable (migrationId : Option Codes) (error : Codes) (retryable : Bool) :
    (c.failureDecision migrationId error retryable).retryable = retryable := rfl

theorem ends_of_final (migrationId : Option Codes) (error : Codes) : c.Ends (c.failureDecision migrationId error false) :=
  Or.inr ⟨failureDecision_state _ _ _, fun h => absurd h (by simp)⟩

theorem spec_migrationId {migrationId : Option Codes} {spec : MigrationSpec T B} (h : c.spec migrationId = some spec) :
    some spec.migrationId = migrationId := by
  unfold Coordinator.spec at h
  simpa using List.find?_some h

theorem failureDecision_spec {migrationId error : Codes} {retryable : Bool} {spec : MigrationSpec T B}
    (h : c.spec (c.failureDecision (some migrationId) error retryable).migrationId = some spec) :
    spec.migrationId = migrationId := by
  have hid := spec_migrationId h
  unfold Coordinator.failureDecision at hid
  cases hspec : c.spec (some migrationId) with
  | none => simp [hspec] at hid
  | some found =>
    have hfound := spec_migrationId hspec
    simp only [hspec, decisionForSpec, Option.some.injEq] at hid hfound
    rw [hid, hfound]

theorem completedFailure_ends {last : MigrationSpec T B} (hlast : c.expectedCompletedSpecs.getLast? = some last)
    (error : Failure) : c.Ends (c.completedFailure last error) :=
  Or.inr ⟨failureDecision_state _ _ _, fun _ => ⟨last, hlast, fun _ h => failureDecision_spec h⟩⟩

/-- What is read of a record of completed migrations: the record, or that it is too large. -/
theorem readMetadata_completed {dir : Directory B} (h : c.Completed dir) :
    ∃ metadata, dir.readMetadata = some metadata ∧
      (readState (metadata.item "state") = some .failed ∧ isFlag true (metadata.item "retryable") = false ∨
        readState (metadata.item "state") = some .complete ∧
          appliedMigrations metadata = .ok (c.expectedCompletedSpecs.map MigrationSpec.migrationId) ∧
          ∃ file, dir.metadata = some file ∧ file.value = .ok metadata) := by
  obtain ⟨file, hfile, fields, hvalue, hstate, happlied⟩ := h
  unfold Directory.readMetadata
  rw [hfile, Option.map_some]
  unfold JsonFile.read
  by_cases hlimit : maxJsonBytes < file.text.length
  · rw [if_pos hlimit]
    exact ⟨_, rfl, .inl ⟨rfl, rfl⟩⟩
  · rw [if_neg hlimit, hvalue]
    exact ⟨fields, rfl, .inr ⟨hstate, happlied, file, rfl, hvalue⟩⟩

/-- With every migration applied there is no next one. -/
theorem validateCompletedLineage_ends {P : Machine (Target T) (Directory B) → Prop} {metadata : Fields}
    (happlied : appliedMigrations metadata = .ok (c.expectedCompletedSpecs.map MigrationSpec.migrationId))
    (snapshot : Option (Fields × TransitionBinding)) :
    Triple P (c.validateCompletedLineage metadata snapshot) (fun decision _ => c.Ends decision) (fun _ => True) := by
  unfold Coordinator.validateCompletedLineage
  rw [happlied]
  dsimp only [Except.toOption, Option.getD]
  rw [List.length_map, List.take_length, List.getElem?_eq_none (Nat.le_refl _)]
  cases hlast : c.expectedCompletedSpecs.getLast? with
  | none => exact Triple.pure fun _ _ => ends_of_final _ _
  | some last =>
    cases textOf (metadata.item "backup") with
    | none => exact Triple.pure fun _ _ => ends_of_final _ _
    | some reference =>
      dsimp only
      split_ifs
      · exact Triple.pure fun _ _ => ends_of_final _ _
      refine Triple.bind (Q := fun _ _ => True) (fun m _ => ?_) fun phase => ?_
      · split <;> trivial
      cases phase with
      | error error => exact Triple.pure fun _ _ => completedFailure_ends hlast error
      | ok phase => exact Triple.pure fun _ _ => Or.inl rfl

theorem preflight_ends (call : Call) :
    Triple (On c.Completed) (c.preflight call) (fun decision _ => c.Ends decision) (fun _ => True) := by
  unfold Coordinator.preflight
  refine Triple.bind (Triple.conseq (checkRoot_keeps (P := On c.Completed) fun _ _ h => h) (fun _ h => h) (fun _ _ h => h)
    fun _ _ => True.intro) fun _ => ?_
  refine Triple.read_bind fun m hm => ?_
  obtain ⟨metadata, hmetadata, hread⟩ := readMetadata_completed hm
  rw [show (id m.world).readMetadata = some metadata from hmetadata]
  have hdecision : (c.decisionFromMetadata metadata).state = (readState (metadata.item "state")).getD .failed := rfl
  rcases hread with ⟨hstate, hretryable⟩ | ⟨hstate, happlied, -⟩
  · rw [hstate] at hdecision
    dsimp only
    rw [hdecision]
    exact Triple.pure fun _ _ => Or.inr ⟨hdecision, fun h => absurd (hretryable.symm.trans h) (by simp)⟩
  · rw [hstate] at hdecision
    dsimp only
    rw [hdecision]
    exact validateCompletedLineage_ends happlied _

/-! ## What a retry meets -/

/-- No step on the directory or on the files of the authentication store has been done. -/
def Before (dir : Directory B) (outcomes : Target T → List Outcome) (m : Machine (Target T) (Directory B)) : Prop :=
  m.world = dir ∧ ∀ target, m.outcomes (.auth target) = outcomes (.auth target)

theorem Before.advance {dir : Directory B} {outcomes : Target T → List Outcome} {m : Machine (Target T) (Directory B)}
    (h : Before dir outcomes m) {target : Target T} (hother : ∀ t, Target.auth t ≠ target) : Before dir outcomes (m.advance target) :=
  ⟨h.1, fun t => (Machine.advance_outcomes_ne (hother t)).trans (h.2 t)⟩

theorem checkRoot_before (dir : Directory B) (outcomes : Target T → List Outcome) :
    Triple (Before dir outcomes) (checkRoot : Action T B Unit) (fun _ => Before dir outcomes) (Before dir outcomes) :=
  Triple.act (fun _ h => h.advance (by simp)) (fun _ h _ => h.advance (by simp)) (fun _ h _ => h.advance (by simp))
    fun _ _ h _ => h.advance (by simp)

/-- The retry has no lock, or no backup to start from. -/
def Coordinator.Refused (c : Coordinator T B) (call : Call) (dir : Directory B) : Prop :=
  ∀ metadata last, dir.readMetadata = some metadata → c.expectedCompletedSpecs.getLast? = some last →
    lockState call (some last.migrationId) dir.lock ∈ [.unknown, .active] ∨
    ∃ reference error, textOf (metadata.item "backup") = some reference ∧ c.retention.validate dir.backups reference = .error error

theorem recoverClaimJournal_recovered {dir : Directory B} {outcomes : Target T → List Outcome} {auth : Auth.Files}
    (h : c.recoveredClaim dir outcomes = some auth) :
    Triple (Before dir outcomes) c.recoverClaimJournal (fun _ m => m.world = { dir with auth := auth }) (fun _ => False) := by
  refine Triple.bind (Q := fun _ m => m.world = { dir with auth := auth }) ?_ fun _ => Triple.pure fun _ h => h
  rintro m ⟨rfl, houtcomes⟩
  unfold Coordinator.recoveredClaim at h
  rw [Program.run_within]
  simp only [houtcomes]
  generalize (Auth.recoverCompletedMigrationClaimJournal c.journalOrder).run.run
    ⟨{ files := m.world.auth }, fun target => outcomes (.auth target)⟩ = r at h
  obtain ⟨r | a, last⟩ := r
  · cases h
  · rw [Option.some.injEq] at h
    subst h
    rfl

theorem validateCompletedLineage_upheld {call : Call} {dir : Directory B} {outcomes : Target T → List Outcome}
    {metadata : Fields} (hread : dir.readMetadata = some metadata) (hupheld : c.Upheld call dir outcomes)
    (happlied : appliedMigrations metadata = .ok (c.expectedCompletedSpecs.map MigrationSpec.migrationId)) :
    Triple (Before dir outcomes) (c.validateCompletedLineage metadata (c.rebound dir))
      (fun decision _ => decision.state = .failed → decision.retryable = true → c.Refused call dir) (fun _ => True) := by
  unfold Coordinator.validateCompletedLineage
  rw [happlied]
  dsimp only [Except.toOption, Option.getD]
  rw [List.length_map, List.take_length, List.getElem?_eq_none (Nat.le_refl _)]
  cases hlast : c.expectedCompletedSpecs.getLast? with
  | none => exact Triple.pure fun _ _ _ hretryable => absurd hretryable (by simp)
  | some last =>
    cases hreference : textOf (metadata.item "backup") with
    | none => exact Triple.pure fun _ _ _ hretryable => absurd hretryable (by simp)
    | some reference =>
      dsimp only
      split_ifs
      · exact Triple.pure fun _ _ _ hretryable => absurd hretryable (by simp)
      rcases hupheld metadata last reference hread hlast hreference with
        ⟨binding, auth, phase, hbinding, hauth, hphase⟩ | hrefused
      · -- the checks pass, so that no failure is decided
        refine Triple.bind (Triple.conseq (Triple.attempt (Q := fun _ _ => True) (F := fun _ => False) ?_) (fun _ h => h)
          (fun _ _ h => h) fun _ h => h.elim) fun result => ?_
        · refine Triple.read_bind fun m hm => Triple.of_eq hm ?_
          refine Triple.bind (Triple.ofExcept (Q := fun b m => b = binding ∧ Before dir outcomes m) ?_ ?_) fun b => ?_
          · intro b hb m' hm'
            rw [show id m.world = dir from hm.1, hbinding, Except.ok.injEq] at hb
            exact ⟨hb.symm, hm'⟩
          · intro error herror
            rw [show id m.world = dir from hm.1, hbinding] at herror
            cases herror
          refine Triple.of_and fun hb => Triple.bind (recoverClaimJournal_recovered hauth) fun _ => ?_
          refine Triple.read_bind fun m hm => Triple.of_eq (P := fun _ => True) True.intro ?_
          refine Triple.ofExcept (fun _ _ _ _ => True.intro) fun error herror => ?_
          rw [show id m.world = _ from hm, hb, hphase] at herror
          cases herror
        · cases result with
          | error error => exact fun _ h => h.elim
          | ok phase => exact Triple.pure fun _ _ hfailed => nomatch hfailed
      · -- the checks may fail, but then nothing is to be had of a retry
        have hrefused' : c.Refused call dir := by
          intro metadata' last' hread' hlast'
          rw [hread, Option.some.injEq] at hread'
          rw [hlast, Option.some.injEq] at hlast'
          subst hread' hlast'
          rcases hrefused with hlock | ⟨error, herror⟩
          · exact .inl hlock
          · exact .inr ⟨reference, error, hreference, herror⟩
        intro m _
        split
        · exact fun _ _ => hrefused'
        · exact True.intro

theorem preflight_upheld {call : Call} {dir : Directory B} {outcomes : Target T → List Outcome} (h : c.Completed dir)
    (hupheld : c.Upheld call dir outcomes) :
    Triple (Before dir outcomes) (c.preflight call)
      (fun decision _ => decision.state = .failed → decision.retryable = true → c.Refused call dir) (fun _ => True) := by
  unfold Coordinator.preflight
  refine Triple.bind (Triple.conseq (checkRoot_before dir outcomes) (fun _ h => h) (fun _ _ h => h)
    fun _ _ => True.intro) fun _ => ?_
  refine Triple.read_bind fun m hm => Triple.of_eq hm ?_
  obtain ⟨metadata, hmetadata, hread⟩ := readMetadata_completed h
  rw [show (id m.world).readMetadata = some metadata by rw [show id m.world = dir from hm.1, hmetadata]]
  have hdecision : (c.decisionFromMetadata metadata).state = (readState (metadata.item "state")).getD .failed := rfl
  rcases hread with ⟨hstate, hretryable⟩ | ⟨hstate, happlied, -⟩
  · rw [hstate] at hdecision
    dsimp only
    rw [hdecision]
    exact Triple.pure fun _ _ _ h => absurd (hretryable.symm.trans h) (by simp)
  · rw [hstate] at hdecision
    dsimp only
    rw [hdecision, show id m.world = dir from hm.1]
    exact validateCompletedLineage_upheld hmetadata hupheld happlied

/-! ## What an application leaves -/

/-- All but the files of the authentication store and the lock -/
def Same (dir last : Directory B) : Prop :=
  last.files = dir.files ∧ last.metadata = dir.metadata ∧ last.backups = dir.backups

/-- All but the files of the authentication store -/
def Decided (dir last : Directory B) : Prop := last = { dir with auth := last.auth }

theorem same_ignoresAuth (dir : Directory B) : IgnoresAuth (Same dir) := fun _ _ h => h

theorem decided_ignoresAuth (dir : Directory B) : IgnoresAuth (Decided dir) := by
  intro last auth h
  unfold Decided at h ⊢
  rw [h]

theorem Decided.same {dir last : Directory B} (h : Decided dir last) : Same dir last := by
  unfold Decided at h
  rw [h]
  exact ⟨rfl, rfl, rfl⟩

theorem Decided.lock {dir last : Directory B} (h : Decided dir last) : last.lock = dir.lock := by
  unfold Decided at h
  rw [h]

theorem Same.readMetadata {dir last : Directory B} (h : Same dir last) : last.readMetadata = dir.readMetadata := by
  unfold Directory.readMetadata
  rw [h.2.1]

section Attempt

variable {dir : Directory B} (call : Call) (spec : MigrationSpec T B)

/-- A failure before there is a backup is not recorded. -/
theorem fail_same (error : Failure) : Triple (On (Same dir)) (c.fail call spec false error) (fun _ => On (Same dir)) (On (Same dir)) := by
  unfold Coordinator.fail
  have hfailed : ∀ text : Codes, Triple (On (Same dir)) (do
      let failed ← pure (c.failureDecision (some spec.migrationId) text true)
      Program.raise (.blocked failed) : Action T B MigrationDecision) (fun _ => On (Same dir)) (On (Same dir)) :=
    fun text => Triple.bind (Triple.pure (Q := fun _ => On (Same dir)) fun _ h => h) fun _ => Triple.raise fun _ h => h
  cases error with
  | fileExists =>
    exact Triple.bind (preflight_keeps (same_ignoresAuth dir) call) fun _ => Triple.raise fun _ h => h
  | blocked decision => exact Triple.raise fun _ h => h
  | backupRestore message => exact hfailed _
  | runtimeExclusion => exact hfailed _
  | os => exact hfailed _
  | value message => exact hfailed _
  | auth error => exact hfailed _
  | other name => exact hfailed _

theorem removeOwnedLock_same :
    Triple (On (Same dir)) (c.removeOwnedLock call spec) (fun _ => On (Same dir)) (On (Same dir)) := by
  unfold Coordinator.removeOwnedLock
  refine Triple.read_bind fun m hm => Triple.of_eq hm ?_
  cases (id m.world).lock with
  | none => exact Triple.pure fun _ h => h
  | some file =>
    dsimp only
    split_ifs
    · refine Triple.rescue (F := On (Same dir)) ?_ (fun _ => Triple.pure fun _ h => h) fun _ h => h
      exact Triple.act (fun _ h => h) (fun _ h _ => h) (fun _ h _ => h) fun _ _ h _ => h
    · exact Triple.pure fun _ h => h

/-- A lock that is held is not taken. -/
theorem freeLock_held {decision : MigrationDecision} (hheld : lockState call (some spec.migrationId) dir.lock ∈ [.unknown, .active]) :
    Triple (On (Decided dir)) (freeLock call spec decision) (fun _ _ => False) (On (Same dir)) := by
  unfold freeLock
  refine Triple.read_bind fun m hm => Triple.of_eq hm ?_
  rw [show (id m.world).lock = dir.lock from Decided.lock hm]
  cases hstate : lockState call (some spec.migrationId) dir.lock with
  | missing => simp [hstate] at hheld
  | orphaned => simp [hstate] at hheld
  | unknown => exact Triple.raise fun _ h => Decided.same h
  | active => exact Triple.raise fun _ h => Decided.same h

theorem freeLock_same {decision : MigrationDecision} :
    Triple (On (Same dir)) (freeLock call spec decision) (fun _ => On (Same dir)) (On (Same dir)) := by
  unfold freeLock
  refine Triple.read_bind fun m hm => Triple.of_eq hm ?_
  cases lockState call (some spec.migrationId) (id m.world).lock with
  | missing => exact Triple.pure fun _ h => h
  | orphaned => exact Triple.act (fun _ h => h) (fun _ h _ => h) (fun _ h _ => h) fun _ _ h _ => h
  | unknown => exact Triple.raise fun _ h => h
  | active => exact Triple.raise fun _ h => h

theorem openLock_same : Triple (On (Same dir)) (openLock : Action T B Unit) (fun _ => On (Same dir)) (On (Same dir)) := by
  unfold openLock
  refine Triple.read_bind fun m hm => Triple.of_eq hm ?_
  refine Triple.check (fun _ h => h) fun _ => ?_
  exact Triple.act (fun _ h => h) (fun _ h _ => h) (fun _ h _ => h) fun _ _ h _ => h

/-- Nothing is prepared from a backup that is not whole. -/
theorem prepare_broken {metadata : Fields} {reference : Codes} {error : Failure}
    (hreference : textOf (metadata.item "backup") = some reference)
    (hbroken : c.retention.validate dir.backups reference = .error error) :
    Triple (On (Same dir)) (c.prepare call spec metadata) (fun _ _ => False) (On (Same dir)) := by
  unfold Coordinator.prepare
  refine Triple.bind (Q := fun _ => On (Same dir))
    (Triple.act (fun _ h => h) (fun _ h _ => h) (fun _ h _ => h) fun _ _ h _ => h) fun _ => ?_
  refine Triple.bind (Triple.ofExcept (fun _ _ _ h => h) fun _ _ _ h => h) fun _ => ?_
  refine Triple.bind (Q := fun _ _ => False) ?_ fun _ => fun _ h => h.elim
  unfold Coordinator.chooseBackup
  rw [hreference]
  refine Triple.read_bind fun m hm => Triple.of_eq hm ?_
  rw [show c.retention.validate (id m.world).backups reference = .error error by
    rw [show (id m.world).backups = dir.backups from hm.2.2, hbroken]]
  exact Triple.raise_bind fun _ h => h

/-- A retry that is refused. -/
theorem tryMigration_refused {decision : MigrationDecision} {metadata : Fields} {last : MigrationSpec T B}
    (hread : dir.readMetadata = some metadata) (hlast : c.expectedCompletedSpecs.getLast? = some last)
    (hspec : spec.migrationId = last.migrationId) (hrefused : c.Refused call dir) :
    Triple (On (Decided dir)) (c.tryMigration call spec decision metadata) (fun _ => On (Same dir)) (On (Same dir)) := by
  unfold Coordinator.tryMigration
  rcases hrefused metadata last hread hlast with hheld | ⟨reference, error, hreference, hbroken⟩
  · rw [← hspec] at hheld
    refine Triple.bind (Triple.attempt (Q := fun _ _ => False) (Triple.bind (freeLock_held call spec hheld) fun _ =>
      fun _ h => h.elim)) fun opened => ?_
    cases opened with
    | error error => exact fail_same call spec error
    | ok opened => exact fun _ h => h.elim
  · refine Triple.bind (Triple.attempt (Triple.conseq (Triple.bind (freeLock_same call spec) fun _ => openLock_same)
      (fun _ h => Decided.same h) (fun _ _ h => h) fun _ h => h)) fun opened => ?_
    cases opened with
    | error error => exact fail_same call spec error
    | ok opened =>
      refine Triple.ensure (F := On (Same dir)) (Q := fun _ => On (Same dir)) ?_ (fun _ => removeOwnedLock_same call spec)
        (removeOwnedLock_same call spec) fun _ h => h
      unfold Coordinator.migrate
      refine Triple.bind (Triple.attempt (prepare_broken call spec hreference hbroken)) fun prepared => ?_
      cases prepared with
      | error error => exact fail_same call spec error
      | ok prepared => exact fun _ h => h.elim

end Attempt

theorem applyConfirmedExclusive_same {call : Call} {retry : Bool} {dir : Directory B} {outcomes : Target T → List Outcome}
    (h : c.Completed dir) (hupheld : retry = true → c.Upheld call dir outcomes) :
    Triple (Before dir outcomes) (c.applyConfirmedExclusive call retry) (fun _ => On (Same dir)) (On (Same dir)) := by
  unfold Coordinator.applyConfirmedExclusive
  have hkeeps : Triple (Before dir outcomes) (c.preflight call) (fun _ => On (Decided dir)) (On (Decided dir)) :=
    Triple.conseq (preflight_keeps (decided_ignoresAuth dir) call) (fun m hm => by rw [On, hm.1]; rfl) (fun _ _ h => h)
      fun _ h => h
  have hends : Triple (Before dir outcomes) (c.preflight call) (fun decision _ => c.Ends decision) (fun _ => True) :=
    Triple.conseq (preflight_ends call) (fun m hm => by rw [On, hm.1]; exact h) (fun _ _ h => h) fun _ h => h
  have hrefused : Triple (Before dir outcomes) (c.preflight call)
      (fun decision _ => retry = true → decision.state = .failed → decision.retryable = true → c.Refused call dir)
      (fun _ => True) := by
    cases retry with
    | false => exact fun m _ => by split <;> simp
    | true => exact Triple.conseq (preflight_upheld h (hupheld rfl)) (fun _ h => h) (fun _ _ h _ => h) fun _ h => h
  refine Triple.bind (Triple.conseq (Triple.and hkeeps (Triple.and hends hrefused)) (fun _ h => h) (fun _ _ h => h)
    fun _ h => Decided.same h.1) fun decision => ?_
  refine Triple.check (fun _ h => Decided.same h.1) fun hrunning => ?_
  refine Triple.check (fun _ h => Decided.same h.1) fun hblocked => ?_
  by_cases hstate : decision.state = .required ∨ decision.state = .failed
  · rw [if_pos hstate]
    cases hspec : c.spec decision.migrationId with
    | none => exact Triple.raise fun _ h => Decided.same h.1
    | some spec =>
      dsimp only
      refine Triple.read_bind fun m hm => ?_
      obtain ⟨hdecided, hdecision, htry⟩ := hm
      have hfailed : decision.state = .failed := by
        rcases hdecision with hcomplete | ⟨hfailed, -⟩
        · simp [hcomplete] at hstate
        · exact hfailed
      rw [not_and, not_or] at hblocked
      obtain ⟨hretry, hretryable⟩ := hblocked hfailed
      rw [Bool.not_eq_false] at hretry hretryable
      obtain ⟨last, hlast, hid⟩ := (hdecision.resolve_left (by simp [hfailed])).2 hretryable
      obtain ⟨metadata, hmetadata, -⟩ := readMetadata_completed h
      refine Triple.of_eq (P := On (Decided dir)) hdecided ?_
      rw [if_neg (by simp [hfailed])]
      refine Triple.bind (Q := fun matching m => matching = true ∧ On (Decided dir) m)
        (Triple.pure fun _ h => ⟨rfl, h⟩) fun matching => Triple.of_and fun hmatching => ?_
      rw [hmatching, show (id m.world).readMetadata = some metadata by
        rw [show (id m.world).readMetadata = dir.readMetadata from (Decided.same hdecided).readMetadata, hmetadata]]
      exact tryMigration_refused call spec hmetadata hlast (hid spec hspec) (htry hretry hfailed hretryable)
  · rw [if_neg hstate]
    exact Triple.pure fun _ h => Decided.same h.1

theorem applyConfirmed_same {call : Call} {retry : Bool} {dir : Directory B} {outcomes : Target T → List Outcome}
    (h : c.Completed dir) (hupheld : retry = true → c.Upheld call dir outcomes) :
    Triple (Before dir outcomes) (c.applyConfirmed call retry) (fun _ => On (Same dir)) (On (Same dir)) := by
  have hsame : ∀ m, Before dir outcomes m → On (Same dir) m := fun m hm => by
    rw [On, hm.1]
    exact ⟨rfl, rfl, rfl⟩
  have henter : Triple (Before dir outcomes) (enterExclusion : Action T B Unit) (fun _ => Before dir outcomes) (On (Same dir)) :=
    Triple.act (fun _ h => h.advance (by simp)) (fun m h _ => hsame m h) (fun m h _ => hsame m h)
      fun m _ h _ => hsame m h
  unfold Coordinator.applyConfirmed
  refine Triple.bind (Triple.conseq (checkRoot_before dir outcomes) (fun _ h => h) (fun _ _ h => h) hsame) fun _ => ?_
  refine Triple.rescue (F := On (Same dir)) (Triple.bind henter fun _ => applyConfirmedExclusive_same h hupheld)
    (fun error => ?_) fun _ h => h
  cases error with
  | runtimeExclusion => exact Triple.raise fun _ h => h
  | blocked decision => exact Triple.raise fun _ h => h
  | backupRestore message => exact Triple.raise fun _ h => h
  | fileExists => exact Triple.raise fun _ h => h
  | os => exact Triple.raise fun _ h => h
  | value message => exact Triple.raise fun _ h => h
  | auth error => exact Triple.raise fun _ h => h
  | other name => exact Triple.raise fun _ h => h

/-! ## What a release leaves -/

/-- The configuration, and that its migrations are complete. -/
def Stands (c : Coordinator T B) (files : Dict Codes Entry) (dir : Directory B) : Prop := dir.files = files ∧ c.Completed dir

theorem stands_ignoresAuth (files : Dict Codes Entry) : IgnoresAuth (Stands c files) := fun _ _ h => h

theorem Same.stands {dir last : Directory B} (h : Same dir last) (hcompleted : c.Completed dir) : Stands c dir.files last := by
  obtain ⟨file, hfile, hcompletes⟩ := hcompleted
  exact ⟨h.1, file, h.2.1.trans hfile, hcompletes⟩

theorem get_sorted (fields : Fields) (key : Codes) : fields.sorted.get key = fields.get key :=
  Dict.getItem_perm (List.perm_insertionSort _ _) fields.nodup key

/-- A release leaves the fields that say what is complete. -/
theorem completes_released {fields : Fields} (hstate : readState (fields.item "state") = some .complete)
    (happlied : appliedMigrations fields = .ok (c.expectedCompletedSpecs.map MigrationSpec.migrationId)) (updatedAt : Codes) :
    c.Completes (.indented (fields.updated [(codes "normal_startup_released", .bool true), (codes "updated_at", .str updatedAt)])) := by
  have hget : ∀ key : String, key ≠ "normal_startup_released" → key ≠ "updated_at" →
      (fields.updated [(codes "normal_startup_released", .bool true), (codes "updated_at", .str updatedAt)]).sorted.get
        (codes key) = fields.get (codes key) := by
    intro key hreleased hupdated
    rw [get_sorted]
    simp only [Fields.updated, List.foldl_cons, List.foldl_nil]
    rw [Dict.get_set_ne _ fun h => hupdated (codes_injective h).symm, Dict.get_set_ne _ fun h => hreleased (codes_injective h).symm]
  refine ⟨_, rfl, ?_, ?_⟩
  · unfold Fields.item
    rw [hget "state" (by decide) (by decide)]
    exact hstate
  · unfold appliedMigrations
    rw [hget "applied_migrations" (by decide) (by decide)]
    exact happlied

theorem preflight_stands (call : Call) (files : Dict Codes Entry) :
    Triple (On (Stands c files)) (c.preflight call) (fun _ => On (Stands c files)) (On (Stands c files)) :=
  preflight_keeps (stands_ignoresAuth files) call

/-- A directory that is decided to be complete has a record that can be read. -/
theorem preflight_readable {dir : Directory B} (h : c.Completed dir) (call : Call) :
    Triple (On (Decided dir)) (c.preflight call) (fun decision m => Decided dir m.world ∧ (decision.state = .complete →
      ∃ metadata, dir.readMetadata = some metadata ∧ readState (metadata.item "state") = some .complete ∧
        appliedMigrations metadata = .ok (c.expectedCompletedSpecs.map MigrationSpec.migrationId))) (On (Decided dir)) := by
  obtain ⟨metadata, hmetadata, hread⟩ := readMetadata_completed h
  rcases hread with ⟨hstate, hretryable⟩ | ⟨hstate, happlied, -⟩
  · unfold Coordinator.preflight
    refine Triple.bind (checkRoot_keeps (P := On (Decided dir)) fun _ _ h => h) fun _ => ?_
    refine Triple.read_bind fun m hm => Triple.of_eq hm ?_
    have hdecision : (c.decisionFromMetadata metadata).state = (readState (metadata.item "state")).getD .failed := rfl
    rw [hstate, Option.getD_some] at hdecision
    rw [show (id m.world).readMetadata = some metadata by
      rw [show (id m.world).readMetadata = dir.readMetadata from (Decided.same hm).readMetadata, hmetadata]]
    dsimp only
    rw [hdecision]
    exact Triple.pure fun _ h => ⟨h, fun hcomplete => nomatch hcomplete.symm.trans hdecision⟩
  · exact Triple.conseq (preflight_keeps (decided_ignoresAuth dir) call) (fun _ h => h)
      (fun _ _ h => ⟨h, fun _ => ⟨metadata, hmetadata, hstate, happlied⟩⟩) fun _ h => h

/-- The part of a release that holds the lock of the runtime. -/
theorem release_exclusive (call : Call) (files : Dict Codes Entry) :
    Triple (On (Stands c files)) (do
      enterExclusion
      let decision ← c.preflight call
      if decision.state ≠ .complete then Program.raise (.blocked decision)
      if decision.normalStartupReleased then return some decision
      let dir ← Program.read id
      match dir.readMetadata with
      | none => Program.raise (.blocked (c.failureDecision none (codes "Completed migration lineage is invalid") false))
      | some metadata =>
        writeMetadataFile (metadata.updated [(codes "normal_startup_released", .bool true),
          (codes "updated_at", .str (c.dates.utc call.now))])
        return none : Action T B (Option MigrationDecision)) (fun _ => On (Stands c files)) (On (Stands c files)) := by
  refine Triple.bind (Q := fun _ => On (Stands c files))
    (Triple.act (fun _ h => h) (fun _ h _ => h) (fun _ h _ => h) fun _ _ h _ => h) fun _ => ?_
  rintro m₀ ⟨hfiles, hcompleted⟩
  have hstands : ∀ last : Directory B, Decided m₀.world last → Stands c files last := fun last hlast =>
    ⟨hlast.same.1.trans hfiles, (hlast.same.stands hcompleted).2⟩
  refine Triple.bind (P := On (Decided m₀.world)) (Triple.conseq (preflight_readable hcompleted call) (fun _ h => h)
    (fun _ _ h => h) fun m h => hstands m.world h) (fun decision => ?_) m₀ (show Decided m₀.world m₀.world from rfl)
  refine Triple.check (fun m h => hstands m.world h.1) fun hcomplete => ?_
  split_ifs
  · exact Triple.pure fun m h => hstands m.world h.1
  · refine Triple.read_bind fun m hm => ?_
    obtain ⟨hdecided, hreadable⟩ := hm
    obtain ⟨metadata, hmetadata, hstate, happlied⟩ := hreadable (not_not.1 hcomplete)
    refine Triple.of_eq (P := On (Decided m₀.world)) hdecided ?_
    rw [show (id m.world).readMetadata = some metadata by
      rw [show (id m.world).readMetadata = _ from hdecided.same.readMetadata, hmetadata]]
    refine Triple.bind (Q := fun _ => On (Stands c files)) ?_ fun _ => Triple.pure fun _ h => h
    unfold writeMetadataFile atomicWrite
    refine Triple.check (fun m h => hstands m.world h) fun _ => ?_
    refine Triple.act (fun m h => ?_) (fun m h _ => hstands m.world h) (fun m h _ => ?_) fun m _ h _ => hstands m.world h
    · exact ⟨(hstands m.world h).1, _, rfl, completes_released hstate happlied _⟩
    · exact ⟨(hstands m.world h).1, _, rfl, completes_released hstate happlied _⟩

theorem release_stands (call : Call) (files : Dict Codes Entry) :
    Triple (On (Stands c files)) (c.releaseNormalStartup call) (fun _ => On (Stands c files)) (On (Stands c files)) := by
  unfold Coordinator.releaseNormalStartup
  refine Triple.bind (checkRoot_keeps fun _ _ h => h) fun _ => ?_
  refine Triple.bind (preflight_stands call files) fun decision => ?_
  refine Triple.check (fun _ h => h) fun _ => ?_
  split_ifs
  · exact Triple.pure fun _ h => h
  · refine Triple.bind (Triple.rescue (F := On (Stands c files)) (release_exclusive call files) (fun error => ?_)
      fun _ h => h) fun released => ?_
    · cases error with
      | runtimeExclusion => exact Triple.raise fun _ h => h
      | blocked decision => exact Triple.raise fun _ h => h
      | backupRestore message => exact Triple.raise fun _ h => h
      | fileExists => exact Triple.raise fun _ h => h
      | os => exact Triple.raise fun _ h => h
      | value message => exact Triple.raise fun _ h => h
      | auth error => exact Triple.raise fun _ h => h
      | other name => exact Triple.raise fun _ h => h
    · cases released with
      | none => exact preflight_stands call files
      | some decision => exact Triple.pure fun _ h => h

/-! ## Runs keep the configuration -/

theorem CompletedStep.untouched {dir : Directory B} {step : CompletedStep T} (h : c.Completed dir)
    (hguarded : step.Guarded c dir) : step.Untouched c dir := by
  obtain ⟨call, op, outcomes⟩ := step
  have hbefore : Before dir outcomes ⟨dir, outcomes⟩ := ⟨rfl, fun _ => rfl⟩
  cases op with
  | edit path entry => exact ⟨.inr ⟨path, entry, rfl⟩, h⟩
  | preflight =>
    have hlast : Stands c dir.files _ := Triple.run (preflight_stands call dir.files) (s := ⟨dir, outcomes⟩) ⟨rfl, h⟩
    unfold CompletedStep.Untouched CompletedStep.last CompletedOp.program
    dsimp only
    rw [run_discard]
    exact ⟨.inl hlast.1, hlast.2⟩
  | apply retry =>
    have hupheld : retry = true → c.Upheld call dir outcomes := fun hretry => hguarded (congrArg CompletedOp.apply hretry)
    have hlast : Same dir _ := Triple.run (applyConfirmed_same h hupheld) hbefore
    unfold CompletedStep.Untouched CompletedStep.last CompletedOp.program
    dsimp only
    rw [run_discard]
    exact ⟨.inl hlast.1, (hlast.stands h).2⟩
  | release =>
    have hlast : Stands c dir.files _ := Triple.run (release_stands call dir.files) (s := ⟨dir, outcomes⟩) ⟨rfl, h⟩
    unfold CompletedStep.Untouched CompletedStep.last CompletedOp.program
    dsimp only
    rw [run_discard]
    exact ⟨.inl hlast.1, hlast.2⟩

end

/-- Over every run after the record that the last migration of a registry is complete. -/
theorem completed_migration_stands {T B : Type} [DecidableEq T] (c : Coordinator T B) {dir : Directory B} (h : c.Completed dir)
    (steps : List (CompletedStep T)) (hguarded : Throughout c (fun dir step => step.Guarded c dir) dir steps) :
    Throughout c (fun dir step => step.Untouched c dir) dir steps := by
  induction steps generalizing dir with
  | nil => exact True.intro
  | cons step steps ih =>
    have hstep := CompletedStep.untouched h hguarded.1
    exact ⟨hstep, ih hstep.2 hguarded.2⟩

/-! ## A retry after an edit -/

set_option maxRecDepth 10000

/-- One backup: its manifest and the settings in it -/
structure Shelf where
  manifest : Fields
  settings : Codes

def settingsPath : Codes := codes "settings.cfg"

def shelfReference : Codes := codes "migration-backups/first"

/-- Backups that are whole. -/
def shelfRetention : Retention Unit Shelf where
  validate shelf reference := if reference = shelfReference then .ok shelf.manifest else .error (invalid "Migration backup is missing")
  create _ _ _ _ := pure shelfReference
  freeze shelf _ _ _ := .ok (Dict.ofList [(settingsPath, shelf.settings)])
  manifestBytes shelf _ := .ok (asCodes (Json.obj shelf.manifest.items).dumps)
  present _ := true

/-- A migration of one file, whose result is that of a directory without credentials. -/
def settingsMigration : MigrationSpec Unit Shelf where
  migrationId := codes "settings"
  sourceSchema := originalSchema
  targetSchema := currentSchemaId
  fingerprint _ := .ok false
  apply source := do
    let text ← Program.ofExcept (readText source "settings.cfg")
    atomicWrite (.output settingsPath) text.length fun dir => { dir with files := dir.files.set settingsPath (.file text) }
  validate dir := if dir.auth.store.isSome then .error (invalid "Migration must not initialize administrator credentials") else .ok ()
  inputFiles := [settingsPath]
  validateCompletedClaimed := some fun dir _ =>
    if dir.files.get settingsPath = some (.file (codes "[General]")) then .ok ()
    else .error (invalid "Claimed migration configuration is not a valid current schema")

def settingsCoordinator : Coordinator Unit Shelf where
  registry := [settingsMigration]
  ids := by decide
  retention := shelfRetention
  looksCurrent _ := false
  rebound _ := none
  dates := Auth.newYearDates
  sha256 text := text.take 64
  toInt _ := .error (.other (codes "TypeError"))
  journalOrder := []

def sampleCall (now : Int) : Call where
  pid := 7
  hostname := codes "host"
  alive _ := true
  now := Auth.seconds now

/-- The fields of the receipt -/
def settingsFields : Fields :=
  (((decisionForSpec .complete settingsMigration).payload (Auth.newYearDates.utc (Auth.seconds 5))).updated
    (attemptFields (.str currentSchemaId) [codes "settings"] ⟨1, shelfReference, {}⟩ ++
      [(codes "receipt_version", .int 1), (codes "completed_at", .str (Auth.newYearDates.utc (Auth.seconds 5))),
        (codes "normal_startup_released", .bool true)]))

/-- The receipt of the migration, with the normal runtime released. -/
def settingsReceipt : JsonFile := .indented settingsFields

def settingsShelf : Shelf where
  manifest := Dict.ofList [(codes "backup_id", .str (codes "first")), (codes "migration_id", .str (codes "settings")),
    (codes "source_schema", .str originalSchema), (codes "target_schema", .str currentSchemaId)]
  settings := codes "[Legacy]"

/-- The directory after the first claim. -/
def claimedDirectory : Directory Shelf where
  files := Dict.ofList [(settingsPath, .file (codes "[General]"))]
  auth := { store := some (.compact (.obj [])), marker := some (.compact (.obj [])) }
  metadata := some settingsReceipt
  backups := settingsShelf

theorem claimedDirectory_completed : settingsCoordinator.Completed claimedDirectory :=
  ⟨settingsReceipt, rfl, _, rfl, by decide +kernel, rfl⟩

/-- A retry of a claimed migration, of a configuration that is as it was. -/
def idleRetry : List (CompletedStep Unit) := [⟨sampleCall 20, .apply true, fun _ => []⟩]

theorem idleRetry_untouched :
    Throughout settingsCoordinator (fun dir step => step.Untouched settingsCoordinator dir) claimedDirectory idleRetry := by
  refine completed_migration_stands settingsCoordinator claimedDirectory_completed idleRetry ⟨fun _ => ?_, True.intro⟩
  intro metadata last reference hmetadata hlast hreference
  have hread : claimedDirectory.readMetadata = some settingsFields.sorted := by
    unfold Directory.readMetadata claimedDirectory JsonFile.read settingsReceipt
    rw [Option.map_some, if_neg (by decide +kernel)]
    rfl
  have hspecs : settingsCoordinator.expectedCompletedSpecs.getLast? = some settingsMigration := rfl
  have hbackup : textOf (settingsFields.sorted.item "backup") = some shelfReference := by decide +kernel
  obtain rfl := Option.some.inj (hread.symm.trans hmetadata)
  obtain rfl := Option.some.inj (hspecs.symm.trans hlast)
  obtain rfl := Option.some.inj (hbackup.symm.trans hreference)
  refine .inl ⟨⟨codes "settings", shelfReference, settingsReceipt.text.take 64,
    (asCodes (Json.obj settingsShelf.manifest.items).dumps).take 64⟩, claimedDirectory.auth, .claimed, ?_, rfl, ?_⟩
  · decide +kernel
  · decide +kernel

/-- An edit that leaves no valid settings, and a retry. -/
def editedRetry : List (CompletedStep Unit) :=
  [⟨sampleCall 10, .edit settingsPath (some (.file (codes "[Genera"))), fun _ => []⟩,
    ⟨sampleCall 20, .apply true, fun _ => []⟩]

/-- The settings are those of the backup again, and the receipt is a record of a failure. -/
theorem editedRetry_touches :
    ¬ Throughout settingsCoordinator (fun dir step => step.Untouched settingsCoordinator dir) claimedDirectory editedRetry := by
  rintro ⟨-, ⟨hfiles | ⟨path, entry, hop⟩, -⟩, -⟩
  · revert hfiles
    decide +kernel
  · cases hop

end SeedSync.Migration
