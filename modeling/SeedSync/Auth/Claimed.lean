import SeedSync.Auth.Store

/-!
# The state after the first claim

`validate_completed_migration_claimed_auth_state`: a reader of its own of the marker, the store, the
history and the deadline. The digest of a version is a parameter.
-/

namespace SeedSync.Auth

open Lib

/-! ## The marker -/

def isDigit (c : Nat) : Bool := 48 ≤ c && c ≤ 57

def isLowerHex (c : Nat) : Bool := isDigit c || (97 ≤ c && c ≤ 102)

def isLowerLetter (c : Nat) : Bool := 97 ≤ c && c ≤ 122

/-- `[0-9a-f]{64}` -/
def isSha256 (text : Codes) : Bool := text.length = 64 && text.all isLowerHex

/-- `[a-z0-9][a-z0-9.-]{1,159}` -/
def isMigrationId (text : Codes) : Bool :=
  2 ≤ text.length && text.length ≤ 160 && text.head?.any (fun c => isLowerLetter c || isDigit c) &&
    text.tail.all fun c => isLowerLetter c || isDigit c || c = 46 || c = 45

/-- `migration-backups/[A-Za-z0-9._-]{1,160}` -/
def isBackupName (text : Codes) : Bool :=
  let front := codes "migration-backups/"
  let name := text.drop front.length
  decide (front <+: text) && 1 ≤ name.length && name.length ≤ 160 &&
    name.all fun c => isLowerLetter c || (65 ≤ c && c ≤ 90) || isDigit c || c = 46 || c = 95 || c = 45

/-- `[0-9a-f-]{36}` -/
def isKeyId (text : Codes) : Bool := text.length = 36 && text.all fun c => isLowerHex c || c = 45

/-- `_completed_migration_transition_binding` -/
def TransitionBinding.isValid (binding : TransitionBinding) : Bool :=
  isMigrationId binding.migrationId && isBackupName binding.backup && isSha256 binding.receiptSha256 &&
    isSha256 binding.backupManifestSha256

/-- A version of at most 160 characters that is not blank. -/
def isVersion (version : Codes) : Bool := !(strip version).isEmpty && version.length ≤ 160

/-- The version and the key that a marker of the binding names. -/
def readMarker (binding : TransitionBinding) (doc : Doc) : Option (Codes × Codes) :=
  match doc.value with
  | .obj fields => do
    let version ← strItem (field fields "browser_handover_version")
    let keyId ← strItem (field fields "initial_admin_key_id")
    if strict (.obj fields) && hasKeys fields ["schema", "migration_id", "backup", "receipt_sha256",
        "backup_manifest_sha256", "browser_handover_version", "initial_admin_key_id"] &&
      (field fields "schema").equalsNat 1 && isStr binding.migrationId (field fields "migration_id") &&
      isStr binding.backup (field fields "backup") && isStr binding.receiptSha256 (field fields "receipt_sha256") &&
      isStr binding.backupManifestSha256 (field fields "backup_manifest_sha256") && isVersion version && isKeyId keyId
    then some (version, keyId) else none
  | _ => none

/-! ## The store -/

/-- `{record.id: record.secret_hash for record in store.api_keys if not record.is_revoked}` -/
def activeHashes (store : ApiKeyStore) : Dict Codes Codes :=
  Dict.ofList ((store.apiKeys.filter fun record => !record.isRevoked).map fun record => (record.id, record.secretHash))

/-- `record.get("id")` of a dict -/
def rawKeyId : Json → Option Codes
  | .obj fields => strItem (field fields "id")
  | _ => none

/-- The check of one session of the file. -/
def rawSessionOk (store : ApiKeyStore) : Json → Bool
  | .obj fields =>
    match field fields "bootstrap", field fields "api_key_id", field fields "api_key_secret_hash" with
    | .bool true, _, _ => false
    | _, .str keyId, .str hash => decide ((activeHashes store).get keyId = some hash)
    | _, _, _ => false
  | _ => false

/-- The initial key is there, not revoked, and has the scope of an administrator. -/
def initialActive (store : ApiKeyStore) (keyId : Codes) : Bool :=
  (store.getApiKey keyId).any fun record => !record.isRevoked && record.scopes.contains adminScope

/-- The claimed version of a store file that the checks pass. -/
def readClaimedStore (keyId : Codes) (doc : Doc) : Option Codes :=
  match doc.value with
  | .obj fields => do
    let store ← fromStr (.obj fields)
    let version ← strItem (field fields "browser_handover_claimed_version")
    match field fields "api_keys", field fields "ui_sessions" with
    | .list keys, .list sessions =>
      let ids ← keys.mapM rawKeyId
      if strict (.obj fields) && (field fields "version").equalsNat 3 && isVersion version && decide ids.Nodup &&
        initialActive store keyId && sessions.all (rawSessionOk store)
      then some version else none
    | _, _ => none
  | _ => none

/-! ## The history -/

def allowedEvents : List Codes :=
  ["store_loaded", "store_saved", "bootstrap_proof_created", "bootstrap_proof_cleared", "bootstrap_exchange_created",
    "bootstrap_exchange_cleared", "api_key_created", "ui_session_created", "ui_sessions_discarded", "api_key_updated",
    "api_key_rotated", "api_key_revoked", "api_key_deleted"].map codes

/-- What a line of the history tells of claims. -/
structure ClaimEntry where
  event : Codes
  reason : Codes
  keyId : Json
  version : Json

/-- A line that the checks pass. -/
def readClaimLine (dates : DateTimes) : Option Json → Option ClaimEntry
  | some (.obj fields) =>
    match field fields "event", field fields "reason", if hasField fields "details" then field fields "details" else .obj [] with
    | .str event, .str reason, .obj details =>
      if strict (.obj fields) && (hasKeys fields ["timestamp", "event", "reason", "store_file"] ||
          hasKeys fields ["timestamp", "event", "reason", "store_file", "details"]) &&
        validCompletedMigrationTimestamp dates (field fields "timestamp") && isStr storeName (field fields "store_file") &&
        allowedEvents.contains event
      then some ⟨event, reason, field details "api_key_id", field details "browser_handover_version"⟩ else none
    | _, _, _ => none
  | _ => none

/-- The entry creates the first administrator's key for a version. -/
def ClaimEntry.claims (entry : ClaimEntry) (version : Codes) (keyId : Codes) : Bool :=
  entry.event = codes "api_key_created" && entry.reason = codes "initial_admin_created" &&
    isStr keyId entry.keyId && isStr version entry.version

/-- The entry creates a remembered session for the key. -/
def ClaimEntry.remembers (entry : ClaimEntry) (keyId : Codes) : Bool :=
  entry.event = codes "ui_session_created" && entry.reason = codes "remembered_browser_session_created" &&
    isStr keyId entry.keyId

/-- The keys of the claims of a version that also have a remembered session. -/
def claimedKeyIds (entries : List ClaimEntry) (version : Codes) : List Codes :=
  (entries.filterMap fun entry => strItem entry.keyId).filter fun keyId =>
    entries.any (fun entry => entry.claims version keyId) && entries.any fun entry => entry.remembers keyId

/-! ## The deadline -/

/-- `len(set(seen)) == len(seen)` and every element a digest -/
def readSeenVersions (items : List Json) : Option (List Codes) := do
  let seen ← items.mapM strItem
  if seen.length ≤ 128 && decide seen.Nodup && seen.all isSha256 then some seen else none

/-- No window is open and a recovery for the version was seen. -/
def deadlineClosed (digest : Codes → Codes) (version : Codes) (doc : Doc) : Bool :=
  match doc.value with
  | .obj fields =>
    strict (.obj fields) && hasKeys fields ["schema", "active", "seen_recovery_versions"] &&
      (field fields "schema").equalsNat 2 &&
    match field fields "active", field fields "seen_recovery_versions" with
    | .null, .list items => (readSeenVersions items).any fun seen => seen.contains (digest version)
    | _, _ => false
  | _ => false

def browserHandoverStateMaxBytes : Nat := 16 * 1024

/-- The limits of `_read_completed_migration_auth_file` on the marker, the store and the history. -/
def claimedWithinLimits (files : Files) : Bool :=
  files.marker.all (fun doc => doc.bytes ≤ completedMigrationAuthMaxBytes) &&
    files.store.all (fun doc => doc.bytes ≤ completedMigrationAuthMaxBytes) &&
    files.history.all fun history => history.bytes ≤ completedMigrationHistoryMaxBytes

section

variable (dates : DateTimes) (digest : Codes → Codes)

/-- The entries of a history whose last line ends and whose lines all pass the checks. -/
def readClaimHistory (history : History) : Option (List ClaimEntry) :=
  if history.torn || history.lines.isEmpty then none else history.lines.mapM (readClaimLine dates)

/-- `validate_completed_migration_claimed_auth_state`: whether it returns. -/
def validateClaimedAuthState (files : Files) (binding : TransitionBinding) : Bool :=
  binding.isValid && claimedWithinLimits files &&
  ((do
    let (version, keyId) ← readMarker binding (← files.marker)
    let storedVersion ← readClaimedStore keyId (← files.store)
    let entries ← readClaimHistory dates (← files.history)
    return entries.any (fun entry => entry.claims version keyId) && entries.any (fun entry => entry.remembers keyId) &&
      (decide (storedVersion = version) ||
        (!(claimedKeyIds entries storedVersion).isEmpty &&
          files.deadline.any fun doc => doc.bytes ≤ browserHandoverStateMaxBytes && deadlineClosed digest storedVersion doc)))
    : Option Bool).getD false

end

end SeedSync.Auth
