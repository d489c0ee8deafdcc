import SeedSync.Auth.Handover

/-!
# The claim transaction

The first administrator's claim of a completed migration: a journal with copies of the store, the
history and the marker is written before anything changes, marked when the claim is complete and
removed. The journal of files within their limits is within its own.
-/

namespace SeedSync.Auth

open Lib

/-! ## The journal -/

/-- `begin_completed_migration_claim_journal` -/
def beginCompletedMigrationClaimJournal : M Unit := do
  let w ← Program.read id
  if w.files.journal.isSome then Program.raise (.value "Completed migration claim transaction recovery is required")
  if !claimedWithinLimits w.files then
    Program.raise (.value "Completed migration auth state is not an allowed pre-claim bootstrap state")
  Program.replace .journal .os fun w => { w with
    files.journal := some { store := w.files.store, history := w.files.history, marker := w.files.marker } }

/-- `commit_completed_migration_claim_journal` -/
def commitCompletedMigrationClaimJournal : M Unit := do
  let w ← Program.read id
  match w.files.journal with
  | none => Program.raise (.value "Completed migration claim transaction is unavailable")
  | some journal =>
    if journal.committed then Program.raise (.value "Completed migration claim transaction journal is invalid")
    Program.replace .journal .os fun w => { w with files.journal := some { journal with committed := true } }

/-- `clear_completed_migration_claim_journal` -/
def clearCompletedMigrationClaimJournal : M Unit := do
  let w ← Program.read id
  if w.files.journal.isNone then Program.raise (.value "Completed migration claim transaction is unavailable")
  Program.replace .journal .os fun w => { w with files.journal := none }

/-- One file as the journal has it. -/
def Journal.restore (journal : Journal) (target : Target) (files : Files) : Files :=
  match target with
  | .store => { files with store := journal.store }
  | .history => { files with history := journal.history }
  | .marker => { files with marker := journal.marker }
  | _ => files

/-- Neither the journal nor the directory has the file. -/
def Journal.absent (journal : Journal) (target : Target) (files : Files) : Bool :=
  match target with
  | .store => journal.store.isNone && files.store.isNone
  | .history => journal.history.isNone && files.history.isNone
  | .marker => journal.marker.isNone && files.marker.isNone
  | _ => true

/-- One turn of the loop of a recovery: the file is written, or removed. -/
def restoreArtifact (journal : Journal) (target : Target) : M Unit := do
  let w ← Program.read id
  if journal.absent target w.files then return
  Program.replace target .os fun w => { w with files := journal.restore target w.files }

def journalError : Error := .value "Completed migration claim transaction journal is invalid"

/-- `recover_completed_migration_claim_journal`; `order` is that of the set of names. -/
def recoverCompletedMigrationClaimJournal (order : List Target) : M Bool := do
  let w ← Program.read id
  match w.files.journal with
  | none => return false
  | some journal =>
    Program.rescue (do
      if journal.committed then
        clearCompletedMigrationClaimJournal
        return false
      order.forM (restoreArtifact journal)
      Program.replace .journal .os fun w => { w with files.journal := none }
      return true) fun _ => Program.raise journalError

/-! ## The transaction of a store -/

def transitionUnavailable : Error := .value "Completed migration claim transition is unavailable"

/-- `validate_completed_migration_claim_transition` -/
def validateCompletedMigrationClaimTransition (version : Codes) : M Unit := do
  let w ← Program.read id
  if w.store.transitionBinding.isNone then return
  if (strip version).isEmpty then Program.raise transitionUnavailable
  if w.files.marker.isSome then Program.raise transitionUnavailable

/-- The fields of a store that a transaction keeps a copy of. -/
def ApiKeyStore.runtimeState (store : ApiKeyStore) : ClaimRuntimeState where
  apiKeys := store.apiKeys
  uiSessions := store.uiSessions
  browserHandoverClaimedVersion := store.browserHandoverClaimedVersion
  bootstrapProof := store.bootstrapProof
  bootstrapExchange := store.bootstrapExchange
  transitionBinding := store.transitionBinding

/-- `begin_completed_migration_claim_transaction` -/
def beginCompletedMigrationClaimTransaction : M Bool := do
  let store ← getStore
  if store.transitionBinding.isNone then return false
  if store.claimTransaction.isSome then Program.raise transitionUnavailable
  beginCompletedMigrationClaimJournal
  modifyStore fun store => { store with claimTransaction := some store.runtimeState }
  return true

/-- The fields are those of the copy again. -/
def ApiKeyStore.revert (store : ApiKeyStore) (state : ClaimRuntimeState) : ApiKeyStore :=
  { store with
    apiKeys := state.apiKeys
    uiSessions := state.uiSessions
    browserHandoverClaimedVersion := state.browserHandoverClaimedVersion
    bootstrapProof := state.bootstrapProof
    bootstrapExchange := state.bootstrapExchange
    transitionBinding := state.transitionBinding
    claimTransaction := none }

/-- `abort_completed_migration_claim_transaction` -/
def abortCompletedMigrationClaimTransaction (order : List Target) : M Unit := do
  let store ← getStore
  match store.claimTransaction with
  | none => pure ()
  | some state =>
    let _ ← recoverCompletedMigrationClaimJournal order
    modifyStore fun store => store.revert state

/-- `finish_completed_migration_claim_transaction` -/
def finishCompletedMigrationClaimTransaction : M Unit := do
  let store ← getStore
  if store.claimTransaction.isNone then Program.raise transitionUnavailable
  commitCompletedMigrationClaimJournal
  modifyStore fun store => { store with claimTransaction := none }
  Program.rescue clearCompletedMigrationClaimJournal fun error =>
    match error with
    | .os => pure ()
    | error => Program.raise error

def TransitionBinding.marker (binding : TransitionBinding) (version keyId : Codes) : Json :=
  .obj [(codes "backup", .str binding.backup), (codes "backup_manifest_sha256", .str binding.backupManifestSha256),
    (codes "browser_handover_version", .str version), (codes "initial_admin_key_id", .str keyId),
    (codes "migration_id", .str binding.migrationId), (codes "receipt_sha256", .str binding.receiptSha256),
    (codes "schema", .int 1)]

def claimMarkerMaxBytes : Nat := 4096

def claimError : Error := .value "Completed migration claimed auth state is invalid"

/-- `_write_completed_migration_claim_marker` -/
def writeCompletedMigrationClaimMarker (payload : Json) : M Unit := do
  let doc : Doc := ⟨payload, payload.dumps.length + 1⟩
  if claimMarkerMaxBytes < doc.bytes then Program.raise claimError
  Program.replace .marker claimError fun w => { w with files.marker := some doc }

/-- `complete_completed_migration_claim_transition` -/
def completeCompletedMigrationClaimTransition (keyId version : Codes) : M Unit := do
  let store ← getStore
  match store.transitionBinding with
  | none => pure ()
  | some binding =>
    validateCompletedMigrationClaimTransition (strip version)
    match store.getApiKey keyId with
    | none => Program.raise (.value "Completed migration claim transition is invalid")
    | some record =>
      if record.isRevoked || !record.scopes.contains adminScope ||
          decide (store.browserHandoverClaimedVersion ≠ strip version) then
        Program.raise (.value "Completed migration claim transition is invalid")
      writeCompletedMigrationClaimMarker (binding.marker (strip version) record.id)
      modifyStore fun store => { store with claimedHandoverVersion := strip version, transitionBinding := none }

/-! ## The calls of a claim -/

/-- What a claim is made with: its times, the version, the name, and what the code makes up. -/
structure ClaimRequest where
  now : Int
  sessionNow : Int
  version : Codes
  name : Codes
  keyId : Codes
  hash : Codes
  secret : Codes
  deriving DecidableEq, Repr

section

variable (dates : DateTimes) (digest : Codes → Codes) (request : ClaimRequest)

/-- The calls of `__handle_bootstrap_first_api_key` within the transaction. -/
inductive ClaimCall where
  | create
  | session
  | complete
  | finish
  deriving DecidableEq, Repr

/-- A call; a claim that is not available ends the transaction. -/
def ClaimCall.program : ClaimCall → M Unit
  | .create => do
    let created ← createInitialAdminApiKeyIfAvailable dates digest request.now request.version request.name request.keyId
      request.hash
    if created.isNone then Program.raise (.value "First-admin browser bootstrap is not available")
  | .session => discard (createBrowserSessionForApiKey dates request.sessionNow request.secret request.keyId true)
  | .complete => completeCompletedMigrationClaimTransition request.keyId request.version
  | .finish => finishCompletedMigrationClaimTransaction

/-- The calls in their order. -/
def claimCalls : List ClaimCall := [.create, .session, .complete, .finish]

/-- A transaction up to one of its calls. -/
def claimTransaction (calls : List ClaimCall) : M Unit := do
  validateCompletedMigrationClaimTransition request.version
  let _ ← beginCompletedMigrationClaimTransaction
  calls.forM fun call => call.program dates digest request

end

end SeedSync.Auth
