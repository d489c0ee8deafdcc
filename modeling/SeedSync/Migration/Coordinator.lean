import SeedSync.Migration.Receipt

/-!
# The migration coordinator

`MigrationCoordinator` of `migration/coordinator.py`: the decision of a start, the application of a migration
and the release of a completed one. Every step on the directory may fail, and the process may die in it.
-/

namespace SeedSync.Migration

open Lib
open Auth (TransitionBinding isStr)

section

variable {T B : Type} [DecidableEq T] (c : Coordinator T B)

/-! ## Metadata and journal -/

/-- `_atomic_write` of a file -/
def atomicWrite (target : Target T) (length : Nat) (put : Directory B → Directory B) : Action T B Unit := do
  if maxRelevantFileBytes < length then Program.raise (invalid "Migration output exceeds the size limit")
  Program.replace target .os put

def writeMetadataFile (fields : Fields) : Action T B Unit :=
  atomicWrite .metadata (JsonFile.indented fields).text.length fun dir => { dir with metadata := some (.indented fields) }

/-- `_write_metadata` -/
def Coordinator.writeMetadata (now : Int) (decision : MigrationDecision) (extra : List (Codes × Json)) : Action T B Unit :=
  writeMetadataFile ((decision.payload (c.dates.utc now)).updated extra)

/-- `_record_failure` -/
def Coordinator.recordFailure (now : Int) (migrationId : Option Codes) (error : Codes) (retryable : Bool) :
    Action T B MigrationDecision := do
  let decision := c.failureDecision migrationId error retryable
  let metadata ← Program.read fun dir => dir.readMetadata.getD {}
  let attempt ← Program.ofExcept (c.attempt metadata)
  c.writeMetadata now decision ([(codes "current_schema", metadata.item "current_schema"),
    (codes "applied_migrations", .list (((appliedMigrations metadata).toOption.getD []).map Json.str)),
    (codes "attempt", .int attempt)] ++ ((textOf (metadata.item "backup")).map fun text => (codes "backup", .str text)).toList)
  return decision

def authTarget : Target T → Option Auth.Target
  | .auth target => some target
  | _ => none

/-- `recover_completed_migration_claim_journal`, on the files of the authentication store -/
def Coordinator.recoverClaimJournal : Action T B Unit :=
  discard (Program.within (fun dir : Directory B => { files := dir.auth }) (fun w dir => { dir with auth := w.files })
    Target.auth authTarget Failure.auth (Auth.recoverCompletedMigrationClaimJournal c.journalOrder))

/-! ## Preflight -/

def rootChanged : Failure := invalid "Migration configuration root identity changed"

/-- The root is the one that the coordinator has seen before. -/
def checkRoot : Action T B Unit := Program.replace .root rootChanged id

/-- The failure of a check of a completed migration -/
def Coordinator.completedFailure (last : MigrationSpec T B) (error : Failure) : MigrationDecision :=
  c.failureDecision (some last.migrationId) (codes "Completed migration validation failed: " ++ error.typeName)
    (error ≠ differentRoot)

/-- `_validate_completed_lineage` -/
def Coordinator.validateCompletedLineage (metadata : Fields) (snapshot : Option (Fields × TransitionBinding)) :
    Action T B MigrationDecision := do
  let specs := c.expectedCompletedSpecs
  let applied := (appliedMigrations metadata).toOption.getD []
  match (specs.take applied.length).getLast?, textOf (metadata.item "backup") with
  | some last, some reference =>
    if !c.validReceipt metadata applied last then
      return c.failureDecision none (codes "Completed migration lineage is invalid") false
    let phase ← Program.attempt do
      let dir ← Program.read id
      let binding ← Program.ofExcept (c.completedBinding dir metadata reference last snapshot)
      c.recoverClaimJournal
      let dir ← Program.read id
      Program.ofExcept (completedPhase last dir binding)
    match phase with
    | .error error => return c.completedFailure last error
    | .ok phase =>
      match specs[applied.length]? with
      | some next =>
        let matching ← if next.sourceSchema ≠ last.targetSchema then pure false else do
          let dir ← Program.read id
          Program.ofExcept (next.fingerprint dir)
        if !matching then
          return c.failureDecision none (codes "Completed migration lineage does not match configuration") false
        return decisionForSpec .required next
      | none =>
        return { decisionForSpec .complete last with
          completedAuthPhase := some phase
          normalStartupReleased := !isFlag false (metadata.item "normal_startup_released") }
  | _, _ => return c.failureDecision none (codes "Completed migration lineage is invalid") false

/-- The decision for a directory without metadata -/
def Coordinator.unmigrated (dir : Directory B) : Except Failure MigrationDecision := do
  let auth := dir.auth
  if dir.files.items.isEmpty && auth.store.isNone && auth.history.isNone && auth.marker.isNone && auth.journal.isNone &&
      auth.deadline.isNone && !c.retention.present dir.backups then
    return { state := .notRequired }
  let matching ← (c.registry.filter fun spec => spec.sourceSchema = originalSchema).filterM fun spec => spec.fingerprint dir
  match matching with
  | [spec] => return decisionForSpec .required spec
  | _ :: _ =>
    return c.failureDecision none (codes "Configuration matches more than one selected migration") false
  | [] =>
    if c.looksCurrent dir then return { state := .notRequired }
    return c.failureDecision none (codes "Nonempty configuration has an unsupported or ambiguous schema") false

/-- `preflight` -/
def Coordinator.preflight (call : Call) : Action T B MigrationDecision := do
  checkRoot
  let dir ← Program.read id
  match dir.readMetadata with
  | none => Program.ofExcept (c.unmigrated dir)
  | some metadata =>
    let decision := c.decisionFromMetadata metadata
    match decision.state with
    | .running =>
      let state := lockState call decision.migrationId dir.lock
      if state = .orphaned ∨ state = .missing then
        return c.failureDecision decision.migrationId (codes "Previous migration attempt was interrupted") true
      else return decision
    | .required => return decision
    | .failed => return decision
    | .complete => c.validateCompletedLineage metadata (c.rebound dir)
    | .notRequired => return c.failureDecision none (codes "Migration lineage metadata is invalid") false

/-! ## Application -/

/-- The step that takes the lock of the runtime -/
def enterExclusion : Action T B Unit := Program.replace .exclusion .runtimeExclusion id

/-- `_reclaim_orphan_lock`, or the refusal of a lock that is held. -/
def freeLock (call : Call) (spec : MigrationSpec T B) (decision : MigrationDecision) : Action T B Unit := do
  let dir ← Program.read id
  match lockState call (some spec.migrationId) dir.lock with
  | .orphaned => Program.replace .unlock .os fun dir => { dir with lock := none }
  | .missing => pure ()
  | _ => Program.raise (.blocked decision)

/-- The lock file is made, empty. -/
def openLock : Action T B Unit := do
  let dir ← Program.read id
  if dir.lock.isSome then Program.raise .fileExists
  Program.replace .lock .os fun dir => { dir with lock := some ⟨.error (codes "JSONDecodeError"), []⟩ }

def Coordinator.writeLock (call : Call) (spec : MigrationSpec T B) : Action T B Unit :=
  let file := c.lockFile call spec
  Program.act .lockContent .os (fun dir => { dir with lock := some file }) fun part dir => { dir with lock := some (file.cut part) }

/-- `_remove_owned_lock` -/
def Coordinator.removeOwnedLock (call : Call) (spec : MigrationSpec T B) : Action T B Unit := do
  let dir ← Program.read id
  match dir.lock with
  | some file =>
    if file.text = (c.lockFile call spec).text then
      Program.rescue (Program.replace .unlock .os fun dir => { dir with lock := none }) fun _ => pure ()
  | none => pure ()

def Coordinator.createRetainedBackup (spec : MigrationSpec T B) : Action T B Codes := do
  let dir ← Program.read id
  Program.within Directory.backups (fun backups dir => { dir with backups := backups }) Target.backup
    (fun | .backup target => some target | _ => none) id
    (c.retention.create dir spec.migrationId spec.sourceSchema spec.targetSchema)

/-- The backup that the metadata names, when it is one of the migration, or a new one. -/
def Coordinator.chooseBackup (spec : MigrationSpec T B) (metadata : Fields) : Action T B Codes := do
  match textOf (metadata.item "backup") with
  | some reference =>
    let dir ← Program.read id
    let manifest ← Program.ofExcept (c.retention.validate dir.backups reference)
    if isStr spec.migrationId (manifest.item "migration_id") then
      let _ ← Program.ofExcept (c.validateManifest dir.backups reference spec)
      return reference
    else c.createRetainedBackup spec
  | none => c.createRetainedBackup spec

/-- What is read before anything of the configuration changes. -/
structure Prepared where
  attempt : Int
  backup : Codes
  source : Reader

def Coordinator.prepare (call : Call) (spec : MigrationSpec T B) (metadata : Fields) : Action T B Prepared := do
  c.writeLock call spec
  let attempt ← Program.ofExcept (c.attempt metadata)
  let reference ← c.chooseBackup spec metadata
  Program.replace .anchor .os id
  let dir ← Program.read id
  let manifest ← Program.ofExcept (c.validateManifest dir.backups reference spec)
  let source ← Program.ofExcept (c.retention.freeze dir.backups reference manifest spec.inputFiles)
  return ⟨attempt + 1, reference, source⟩

/-- The fields of a record of an attempt. -/
def attemptFields (schema : Json) (applied : List Codes) (prepared : Prepared) : List (Codes × Json) :=
  [(codes "current_schema", schema), (codes "applied_migrations", .list (applied.map Json.str)),
    (codes "attempt", .int prepared.attempt), (codes "backup", .str prepared.backup)]

/-- The migration itself, between the record that it runs and the receipt. -/
def Coordinator.convert (call : Call) (spec : MigrationSpec T B) (metadata : Fields) (prepared : Prepared) :
    Action T B MigrationDecision := do
  let applied ← Program.ofExcept (appliedMigrations metadata)
  c.writeMetadata call.now (decisionForSpec .running spec)
    (attemptFields ((metadata.get (codes "current_schema")).getD (.str spec.sourceSchema)) applied prepared)
  spec.apply prepared.source
  let dir ← Program.read id
  Program.ofExcept (spec.validate dir)
  let dir ← Program.read id
  let _ ← Program.ofExcept (c.validateManifest dir.backups prepared.backup spec)
  let applied := if applied.contains spec.migrationId then applied else applied ++ [spec.migrationId]
  let complete := decisionForSpec .complete spec
  c.writeMetadata call.now complete (attemptFields (.str spec.targetSchema) applied prepared ++
    [(codes "receipt_version", .int 1), (codes "completed_at", .str (c.dates.utc call.now)),
      (codes "normal_startup_released", .bool false)])
  return { complete with completedAuthPhase := some .preclaim, normalStartupReleased := false }

/-- The handlers of an attempt: what it raises, with the failure recorded once there is a backup. -/
def Coordinator.fail (call : Call) (spec : MigrationSpec T B) (backupReady : Bool) (error : Failure) : Action T B MigrationDecision := do
  let text := (codes "Migration step failed (" ++ error.typeName ++ codes ")").take 500
  match error with
  | .fileExists =>
    let decision ← c.preflight call
    Program.raise (.blocked decision)
  | .blocked decision => Program.raise (.blocked decision)
  | _ =>
    let failed ← if backupReady then
        c.recordFailure call.now (some spec.migrationId) (text ++ codes "; the full configuration backup was retained") true
      else pure (c.failureDecision (some spec.migrationId) (text ++ codes "; configuration was not mutated") true)
    Program.raise (.blocked failed)

/-- An attempt that holds the lock. -/
def Coordinator.migrate (call : Call) (spec : MigrationSpec T B) (metadata : Fields) : Action T B MigrationDecision := do
  let prepared ← Program.attempt (c.prepare call spec metadata)
  match prepared with
  | .error error => c.fail call spec false error
  | .ok prepared =>
    let converted ← Program.attempt (c.convert call spec metadata prepared)
    match converted with
    | .error error => c.fail call spec true error
    | .ok decision => return decision

/-- An attempt: the lock is taken before it and given back after it. -/
def Coordinator.tryMigration (call : Call) (spec : MigrationSpec T B) (decision : MigrationDecision) (metadata : Fields) :
    Action T B MigrationDecision := do
  let opened ← Program.attempt do
    freeLock call spec decision
    openLock
  match opened with
  | .error error => c.fail call spec false error
  | .ok () => Program.ensure (c.migrate call spec metadata) (c.removeOwnedLock call spec)

/-- `_apply_confirmed_exclusive` -/
def Coordinator.applyConfirmedExclusive (call : Call) (retry : Bool) : Action T B MigrationDecision := do
  let decision ← c.preflight call
  if decision.state = .running then Program.raise (.blocked decision)
  if decision.state = .failed ∧ (retry = false ∨ decision.retryable = false) then Program.raise (.blocked decision)
  if decision.state = .required ∨ decision.state = .failed then
    match c.spec decision.migrationId with
    | none => Program.raise (.blocked decision)
    | some spec =>
      let dir ← Program.read id
      let matching ← if decision.state = .required then Program.ofExcept (spec.fingerprint dir) else pure true
      if !matching then
        let failed ← c.recordFailure call.now (some spec.migrationId)
          (codes "Configuration changed after migration detection; reassessment is required") false
        Program.raise (.blocked failed)
      c.tryMigration call spec decision (dir.readMetadata.getD {})
  else return decision

/-- `apply_confirmed` -/
def Coordinator.applyConfirmed (call : Call) (retry : Bool) : Action T B MigrationDecision := do
  checkRoot
  Program.rescue (do
    enterExclusion
    c.applyConfirmedExclusive call retry) fun error =>
      match error with
      | .runtimeExclusion => Program.raise (.blocked
          (c.failureDecision none (codes "Migration refused because the SeedSync runtime is active") true))
      | error => Program.raise error

/-! ## Release -/

/-- `release_normal_startup` -/
def Coordinator.releaseNormalStartup (call : Call) : Action T B MigrationDecision := do
  checkRoot
  let decision ← c.preflight call
  if decision.state ≠ .complete then Program.raise (.blocked decision)
  if decision.normalStartupReleased then return decision
  let released ← Program.rescue (do
    enterExclusion
    let decision ← c.preflight call
    if decision.state ≠ .complete then Program.raise (.blocked decision)
    if decision.normalStartupReleased then return some decision
    let dir ← Program.read id
    match dir.readMetadata with
    | none => Program.raise (.blocked (c.failureDecision none (codes "Completed migration lineage is invalid") false))
    | some metadata =>
      writeMetadataFile (metadata.updated [(codes "normal_startup_released", .bool true),
        (codes "updated_at", .str (c.dates.utc call.now))])
      return none) fun error =>
        match error with
        | .runtimeExclusion => Program.raise (.blocked
            (c.failureDecision none (codes "Normal startup release refused because SeedSync is active") true))
        | error => Program.raise error
  match released with
  | some decision => return decision
  | none => c.preflight call

end

end SeedSync.Migration
