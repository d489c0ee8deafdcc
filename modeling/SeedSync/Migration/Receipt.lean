import Mathlib.Data.List.Sort
import Mathlib.Data.List.SplitOn
import SeedSync.Auth.Claim

/-!
# Decisions and receipts of migrations

`migration/coordinator.py`: the configuration directory, the metadata file and the lock in it, the migrations
of a registry, and the decisions they lead to. A JSON file is what `json.loads` makes of it and its text.
-/

namespace SeedSync.Migration

open Lib
open Auth (DateTimes TransitionBinding isStr)

/-! ## Fields -/

/-- A JSON object as a dict -/
abbrev Fields := Dict Codes Json

/-- `fields.get(key)` -/
def Fields.item (fields : Fields) (key : String) : Json := (fields.get (codes key)).getD .null

/-- The keys in their order, as `sort_keys=True` writes them. -/
def Fields.sorted (fields : Fields) : Fields where
  items := fields.items.insertionSort fun a b => a.1 ≤ b.1
  nodup := ((List.perm_insertionSort _ _).map Prod.fst).nodup_iff.2 fields.nodup

/-- A file that holds JSON; the error is the class of what `json.loads` raises. -/
structure JsonFile where
  value : Except Codes Fields
  text : Codes

/-- `json.dumps(payload, indent=2, sort_keys=True) + "\n"` -/
def JsonFile.indented (fields : Fields) : JsonFile where
  value := .ok fields.sorted
  text := (Json.obj fields.sorted.items).write (Layout.indented 2) 0 ++ [10]

/-- `json.dumps(payload, sort_keys=True)` -/
def JsonFile.compact (fields : Fields) : JsonFile where
  value := .ok fields.sorted
  text := asCodes (Json.obj fields.sorted.items).dumpsSpaced

/-- The first bytes of a file. -/
def JsonFile.cut (file : JsonFile) (part : Nat) : JsonFile :=
  if file.text.length ≤ part then file else ⟨.error (codes "JSONDecodeError"), file.text.take part⟩

/-- `_read_json_object` -/
def JsonFile.read (file : JsonFile) (maxBytes : Nat) : Except Codes Fields :=
  if maxBytes < file.text.length then .error (codes "ValueError") else file.value

def maxJsonBytes : Nat := 256 * 1024

def maxRelevantFileBytes : Nat := 16 * 1024 * 1024

def maxLockBytes : Nat := 4096

/-! ## Decisions -/

inductive MigrationState where
  | notRequired
  | required
  | running
  | failed
  | complete
  deriving DecidableEq, Repr

def MigrationState.value : MigrationState → Codes
  | .notRequired => codes "not_required"
  | .required => codes "required"
  | .running => codes "running"
  | .failed => codes "failed"
  | .complete => codes "complete"

/-- `MigrationState(value)` -/
def readState : Json → Option MigrationState
  | .str text =>
    [MigrationState.notRequired, .required, .running, .failed, .complete].find? fun state => state.value = text
  | _ => none

structure MigrationFeature where
  title : Codes
  summary : Codes
  deriving DecidableEq, Repr

/-- `completed_auth_phase` -/
inductive AuthPhase where
  | preclaim
  | claimed
  deriving DecidableEq, Repr

def currentSchemaId : Codes := codes "seedsync-current-v1"

structure MigrationDecision where
  state : MigrationState
  migrationId : Option Codes := none
  sourceSchema : Option Codes := none
  targetSchema : Codes := currentSchemaId
  features : List MigrationFeature := []
  error : Option Codes := none
  retryable : Bool := false
  completedAuthPhase : Option AuthPhase := none
  normalStartupReleased : Bool := true
  deriving DecidableEq, Repr

def MigrationDecision.allowsNormalStartup (decision : MigrationDecision) : Bool :=
  decide (decision.state = .notRequired) || decide (decision.state = .complete) && decision.normalStartupReleased

/-- What is raised. -/
inductive Failure where
  /-- `MigrationBlockedError` -/
  | blocked (decision : MigrationDecision)
  | backupRestore (message : Codes)
  | runtimeExclusion
  | fileExists
  | os
  | value (message : Codes)
  | auth (error : Auth.Error)
  | other (name : Codes)
  deriving DecidableEq, Repr

/-- `type(exc).__name__` -/
def Failure.typeName : Failure → Codes
  | .blocked _ => codes "MigrationBlockedError"
  | .backupRestore _ => codes "BackupRestoreError"
  | .runtimeExclusion => codes "RuntimeExclusionError"
  | .fileExists => codes "FileExistsError"
  | .os => codes "OSError"
  | .value _ => codes "ValueError"
  | .auth (.value _) => codes "ValueError"
  | .auth .type => codes "TypeError"
  | .auth .key => codes "KeyError"
  | .auth .os => codes "OSError"
  | .other name => name

def invalid (message : String) : Failure := .value (codes message)

def differentRoot : Failure := .backupRestore (codes "Migration backup belongs to a different configuration root")

/-! ## The directory -/

/-- What lies at a path of the configuration. -/
inductive Entry where
  | file (content : Codes)
  /-- A directory, a link or another file -/
  | other
  deriving DecidableEq, Repr

/-- The configuration directory: its tree, the files of the authentication store, and what migrations keep there. -/
structure Directory (B : Type) where
  files : Dict Codes Entry
  auth : Auth.Files := {}
  metadata : Option JsonFile := none
  lock : Option JsonFile := none
  backups : B

/-- What a step of the coordinator acts on. -/
inductive Target (T : Type) where
  /-- The identity of the root is looked at. -/
  | root
  | exclusion
  /-- The lock file is made. -/
  | lock
  | lockContent
  | unlock
  | anchor
  | metadata
  | output (name : Codes)
  | auth (target : Auth.Target)
  | backup (target : T)
  deriving DecidableEq, Repr

abbrev Action (T B α : Type) := Program (Target T) (Directory B) Failure α

/-- `ValidatedBackupReader`: the inputs that a migration declares -/
abbrev Reader := Dict Codes Codes

/-- `ValidatedBackupReader.read_text`, of ASCII files -/
def readText (source : Reader) (path : String) : Except Failure Codes :=
  match source.get (codes path) with
  | some content => .ok content
  | none => .error (invalid "Migration spec requested an undeclared backup input")

structure MigrationSpec (T B : Type) where
  migrationId : Codes
  sourceSchema : Codes
  targetSchema : Codes
  features : List MigrationFeature := []
  fingerprint : Directory B → Except Failure Bool
  apply : Reader → Action T B Unit
  validate : Directory B → Except Failure Unit
  inputFiles : List Codes := []
  validateCompleted : Option (Directory B → Except Failure Unit) := none
  validateCompletedClaimed : Option (Directory B → TransitionBinding → Except Failure Unit) := none

/-- The functions of `migration/backup_restore.py` on retained backups. -/
structure Retention (T B : Type) where
  /-- `validate_backup`: the manifest of a backup that is whole -/
  validate : B → Codes → Except Failure Fields
  /-- `create_retained_backup`: the backup of the directory, with the ids of a migration -/
  create : Directory B → Codes → Codes → Codes → Program T B Failure Codes
  /-- `ValidatedBackupReader.freeze` -/
  freeze : B → Codes → Fields → List Codes → Except Failure Reader
  /-- The bytes of the manifest file -/
  manifestBytes : B → Codes → Except Failure Codes
  /-- The root of the backups is there. -/
  present : B → Bool

/-- `MigrationCoordinator`, with the functions it calls. -/
structure Coordinator (T B : Type) where
  registry : List (MigrationSpec T B)
  ids : (registry.map MigrationSpec.migrationId).Nodup
  retention : Retention T B
  /-- `_looks_current` -/
  looksCurrent : Directory B → Bool
  /-- `_completed_root_rebind_for_preflight`: a manifest and a binding for the receipt as it is -/
  rebound : Directory B → Option (Fields × TransitionBinding)
  dates : DateTimes
  sha256 : Codes → Codes
  /-- `int(value)` of what is no integer -/
  toInt : Json → Except Failure Int
  /-- The order of a set of names -/
  journalOrder : List Auth.Target

/-- The process of a call. -/
structure Call where
  pid : Int
  hostname : Codes
  alive : Int → Bool
  now : Int

/-! ## Paths of backups -/

def backupRoot : Codes := codes "migration-backups"

/-- `Path(text).parts` -/
def pathParts (text : Codes) : List Codes :=
  let parts := (text.splitOn 47).filter fun part => part ≠ [] && part ≠ [46]
  if text.head? = some 47 then [47] :: parts else parts

/-- `Path(text).name` -/
def pathName (text : Codes) : Codes := ((pathParts text).getLast?).getD []

/-- Two parts, the first that of the root of backups, the second not hidden. -/
def validBackupPath (reference : Codes) : Bool :=
  match pathParts reference with
  | [root, name] => decide (root = backupRoot) && decide (name.head? ≠ some 46)
  | _ => false

/-! ## Metadata -/

section

variable {T B : Type} (c : Coordinator T B)

/-- `_spec` -/
def Coordinator.spec (migrationId : Option Codes) : Option (MigrationSpec T B) :=
  c.registry.find? fun spec => some spec.migrationId = migrationId

/-- `_decision_for_spec` -/
def decisionForSpec (state : MigrationState) (spec : MigrationSpec T B) : MigrationDecision where
  state := state
  migrationId := some spec.migrationId
  sourceSchema := some spec.sourceSchema
  targetSchema := spec.targetSchema
  features := spec.features

/-- `_failure_decision` -/
def Coordinator.failureDecision (migrationId : Option Codes) (error : Codes) (retryable : Bool) : MigrationDecision :=
  let decision := match c.spec migrationId with
    | some spec => decisionForSpec .failed spec
    | none => { state := .failed }
  { decision with error := some error, retryable := retryable }

/-- `_read_metadata` -/
def Directory.readMetadata (dir : Directory B) : Option Fields :=
  dir.metadata.map fun file => match file.read maxJsonBytes with
    | .ok fields => fields
    | .error name => Dict.ofList [(codes "state", .str MigrationState.failed.value),
        (codes "target_schema", .str currentSchemaId),
        (codes "error", .str (codes "Migration metadata is invalid: " ++ name)), (codes "retryable", .bool false)]

def textOf : Json → Option Codes
  | .str text => some text
  | _ => none

/-- `value is flag` -/
def isFlag (flag : Bool) : Json → Bool
  | .bool value => value = flag
  | _ => false

/-- `_decision_from_metadata` -/
def Coordinator.decisionFromMetadata (metadata : Fields) : MigrationDecision :=
  let migrationId := textOf (metadata.item "migration_id")
  { state := (readState (metadata.item "state")).getD .failed
    migrationId := migrationId
    sourceSchema := textOf (metadata.item "source_schema")
    targetSchema := (textOf (metadata.item "target_schema")).getD currentSchemaId
    features := ((c.spec migrationId).map MigrationSpec.features).getD []
    error := textOf (metadata.item "error")
    retryable := isFlag true (metadata.item "retryable") }

/-- `_applied` -/
def appliedMigrations (metadata : Fields) : Except Failure (List Codes) :=
  match (metadata.get (codes "applied_migrations")).getD (.list []) with
  | .list items =>
    match items.mapM textOf with
    | some applied => .ok applied
    | none => .error (invalid "Migration applied lineage is invalid")
  | _ => .error (invalid "Migration applied lineage is invalid")

/-- `int(metadata.get("attempt", 0))` -/
def Coordinator.attempt (metadata : Fields) : Except Failure Int :=
  match metadata.get (codes "attempt") with
  | none => .ok 0
  | some (.int n) => .ok n
  | some value => c.toInt value

/-- The fields that `_write_metadata` writes of every decision. -/
def MigrationDecision.payload (decision : MigrationDecision) (updatedAt : Codes) : Fields :=
  let orNull (text : Option Codes) : Json := (text.map Json.str).getD .null
  Dict.ofList [(codes "metadata_version", .int 2), (codes "state", .str decision.state.value),
    (codes "migration_id", orNull decision.migrationId), (codes "source_schema", orNull decision.sourceSchema),
    (codes "target_schema", .str decision.targetSchema), (codes "error", orNull decision.error),
    (codes "retryable", .bool decision.retryable), (codes "updated_at", .str updatedAt)]

/-- `payload.update(extra)` -/
def Fields.updated (fields : Fields) (extra : List (Codes × Json)) : Fields :=
  extra.foldl (fun fields item => fields.set item.1 item.2) fields

/-! ## Completed migrations -/

/-- `_valid_receipt_timestamp` -/
def Coordinator.validReceiptTimestamp : Json → Bool
  | .str text => (c.dates.fromisoformat text).any fun time => time.utcoffset.isSome
  | _ => false

/-- `_expected_completed_specs`: from a schema on; more steps than there are migrations make a circle. -/
def lineageFrom (registry : List (MigrationSpec T B)) : Nat → Codes → List (MigrationSpec T B) → List (MigrationSpec T B)
  | 0, _, _ => []
  | fuel + 1, schema, lineage =>
    match registry.filter fun spec => spec.sourceSchema = schema with
    | [] => lineage
    | [spec] =>
      if registry.length < (lineage ++ [spec]).length then []
      else lineageFrom registry fuel spec.targetSchema (lineage ++ [spec])
    | _ => []

def originalSchema : Codes := codes "original-v0.8.6"

def Coordinator.expectedCompletedSpecs : List (MigrationSpec T B) :=
  lineageFrom c.registry (c.registry.length + 1) originalSchema []

/-- `type(value) is int and value >= 1` -/
def isPositiveInt : Json → Bool
  | .int n => decide (1 ≤ n)
  | _ => false

def isBool : Json → Bool
  | .bool _ => true
  | _ => false

def isNull : Json → Bool
  | .null => true
  | _ => false

/-- `valid_receipt`, of a receipt of the migrations `applied` that ends with `last` -/
def Coordinator.validReceipt (metadata : Fields) (applied : List Codes) (last : MigrationSpec T B) : Bool :=
  let known := c.expectedCompletedSpecs.map MigrationSpec.migrationId
  decide (applied.length ≤ known.length) && decide (applied = known.take applied.length) &&
    (metadata.item "metadata_version").equalsNat 2 && (metadata.item "receipt_version").equalsNat 1 &&
    isStr MigrationState.complete.value (metadata.item "state") &&
    isStr last.migrationId (metadata.item "migration_id") && isStr last.sourceSchema (metadata.item "source_schema") &&
    isStr last.targetSchema (metadata.item "target_schema") &&
    isStr last.targetSchema (metadata.item "current_schema") && isPositiveInt (metadata.item "attempt") &&
    c.validReceiptTimestamp (metadata.item "completed_at") && c.validReceiptTimestamp (metadata.item "updated_at") &&
    ((textOf (metadata.item "backup")).any validBackupPath) && isNull (metadata.item "error") &&
    isFlag false (metadata.item "retryable") &&
    (!metadata.contains (codes "normal_startup_released") || isBool (metadata.item "normal_startup_released"))

/-- The ids of a manifest are those of the migration. -/
def manifestOf (manifest : Fields) (spec : MigrationSpec T B) : Bool :=
  isStr spec.migrationId (manifest.item "migration_id") && isStr spec.sourceSchema (manifest.item "source_schema") &&
    isStr spec.targetSchema (manifest.item "target_schema")

/-- `_validate_manifest` -/
def Coordinator.validateManifest (backups : B) (reference : Codes) (spec : MigrationSpec T B) : Except Failure Fields := do
  let manifest ← c.retention.validate backups reference
  if manifestOf manifest spec then return manifest
  else throw (invalid "Existing migration backup manifest identity is invalid")

/-- `_completed_auth_binding` -/
def Coordinator.completedAuthBinding (dir : Directory B) (metadata : Fields) (reference : Codes) :
    Except Failure TransitionBinding :=
  match metadata.item "migration_id", metadata.item "backup", dir.metadata with
  | .str migrationId, .str backup, some receipt => do
    if maxJsonBytes < receipt.text.length then throw (invalid "Migration input exceeds the size limit")
    let manifest ← c.retention.manifestBytes dir.backups reference
    return ⟨migrationId, backup, c.sha256 receipt.text, c.sha256 manifest⟩
  | _, _, _ => throw (invalid "Completed migration receipt binding is invalid")

/-- The binding of a completed migration, of a backup that is its own. -/
def Coordinator.completedBinding (dir : Directory B) (metadata : Fields) (reference : Codes) (last : MigrationSpec T B)
    (snapshot : Option (Fields × TransitionBinding)) : Except Failure TransitionBinding :=
  match snapshot with
  | some (manifest, binding) =>
    if isStr (pathName reference) (manifest.item "backup_id") && manifestOf manifest last then return binding
    else throw (invalid "Completed migration backup snapshot is invalid")
  | none => do
    let _ ← c.validateManifest dir.backups reference last
    c.completedAuthBinding dir metadata reference

/-- The check of a completed migration before or after the first claim. -/
def completedPhase (last : MigrationSpec T B) (dir : Directory B) (binding : TransitionBinding) : Except Failure AuthPhase :=
  if dir.auth.marker.isSome then do
    match last.validateCompletedClaimed with
    | none => throw (invalid "Completed migration has an unsupported claimed auth phase")
    | some validate => validate dir binding
    return .claimed
  else do
    (last.validateCompleted.getD last.validate) dir
    return .preclaim

/-! ## The lock -/

inductive LockState where
  | missing
  | unknown
  | active
  | orphaned
  deriving DecidableEq, Repr

/-- `_lock_state` -/
def lockState (call : Call) (migrationId : Option Codes) (lock : Option JsonFile) : LockState :=
  match lock with
  | none => .missing
  | some file =>
    match file.read maxLockBytes with
    | .error _ => .unknown
    | .ok lock =>
      if !(lock.item "lock_version").equalsNat 1 ||
          !(match migrationId with
            | some migrationId => isStr migrationId (lock.item "migration_id")
            | none => isNull (lock.item "migration_id")) then .unknown
      else match lock.item "pid", lock.item "hostname" with
        | .int pid, .str hostname =>
          if hostname ≠ call.hostname then .unknown else if call.alive pid then .active else .orphaned
        | _, _ => .unknown

/-- The content of the lock file of a process. -/
def Coordinator.lockFile (call : Call) (spec : MigrationSpec T B) : JsonFile :=
  .compact (Dict.ofList [(codes "lock_version", .int 1), (codes "pid", .int call.pid), (codes "hostname", .str call.hostname),
    (codes "migration_id", .str spec.migrationId), (codes "created_at", .str (c.dates.utc call.now))])

end

end SeedSync.Migration
