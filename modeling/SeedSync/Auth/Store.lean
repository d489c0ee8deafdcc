import Mathlib.Data.List.Lex
import SeedSync.Auth.Files
import SeedSync.Lib.Dict

/-!
# The authentication store

`ApiKeyStore` of `web/auth_store.py`: the state in memory, its file, its history and its operations.
An operation reads the clock once. What `secrets`, `uuid` and `hashlib` return is an input.
-/

namespace SeedSync.Auth

open Lib

/-! ## Records -/

inductive Error where
  | value (message : String)
  | type
  | key
  | os
  deriving DecidableEq, Repr

structure ApiKeyRecord where
  id : Codes
  name : Codes
  scopes : List Codes
  secretHash : Codes
  createdAt : Codes
  updatedAt : Codes
  revokedAt : Option Codes := none
  deriving DecidableEq, Repr

def ApiKeyRecord.isRevoked (record : ApiKeyRecord) : Bool := record.revokedAt.isSome

structure UiSessionRecord where
  secret : Codes
  scopes : List Codes
  createdAt : Codes
  expiresAt : Codes
  bootstrap : Bool := false
  remembered : Bool := false
  apiKeyId : Option Codes := none
  apiKeySecretHash : Option Codes := none
  deriving DecidableEq, Repr

/-- `BootstrapProofRecord` and `BootstrapExchangeRecord` -/
structure BootstrapRecord where
  secret : Codes
  createdAt : Codes
  expiresAt : Codes
  deriving DecidableEq, Repr

/-- `__history_snapshot` -/
structure HistorySnapshot where
  apiKeyCount : Nat
  activeApiKeyCount : Nat
  uiSessionCount : Nat
  rememberedUiSessionCount : Nat
  browserHandoverClaimedVersion : Codes
  bootstrapProofPresent : Bool
  bootstrapExchangePresent : Bool
  deriving DecidableEq, Repr

/-- What a claim is bound to: a receipt and a backup of a completed migration. -/
structure TransitionBinding where
  migrationId : Codes
  backup : Codes
  receiptSha256 : Codes
  backupManifestSha256 : Codes
  deriving DecidableEq, Repr

inductive HandoverKind where
  | initial
  | recovery
  deriving DecidableEq, Repr

/-- A claim window -/
structure Deadline where
  kind : HandoverKind
  versionSha256 : Codes
  openedAt : Codes
  expiresAt : Codes
  deriving DecidableEq, Repr

structure DeadlineState where
  active : Option Deadline := none
  seenRecoveryVersions : List Codes := []
  deriving DecidableEq, Repr

/-- `_CompletedMigrationClaimRuntimeState` -/
structure ClaimRuntimeState where
  apiKeys : List ApiKeyRecord
  uiSessions : Dict Codes UiSessionRecord
  browserHandoverClaimedVersion : Codes
  bootstrapProof : Option BootstrapRecord
  bootstrapExchange : Option BootstrapRecord
  transitionBinding : Option TransitionBinding
  deriving DecidableEq

/-- The fields of `ApiKeyStore`, less its paths and its lock. -/
structure ApiKeyStore where
  apiKeys : List ApiKeyRecord := []
  uiSessions : Dict Codes UiSessionRecord := {}
  browserHandoverClaimedVersion : Codes := []
  browserHandoverDeadline : Option DeadlineState := none
  browserHandoverDeadlineLoaded : Bool := false
  browserHandoverDeadlineInvalid : Bool := false
  browserHandoverActivated : Bool := false
  bootstrapProof : Option BootstrapRecord := none
  bootstrapExchange : Option BootstrapRecord := none
  transitionBinding : Option TransitionBinding := none
  claimedHandoverVersion : Codes := []
  claimTransaction : Option ClaimRuntimeState := none
  lastSavedHistorySnapshot : Option HistorySnapshot := none
  deriving DecidableEq

/-- The claim journal: whether it is committed, and the three files as they were when it was begun. -/
structure Journal where
  committed : Bool := false
  store : Option Doc
  history : Option History
  marker : Option Doc

/-- The files in the directory of the store. -/
structure Files where
  store : Option Doc := none
  history : Option History := none
  marker : Option Doc := none
  journal : Option Journal := none
  deadline : Option Doc := none

structure World where
  store : ApiKeyStore := {}
  files : Files := {}

inductive Target where
  | store
  | history
  | marker
  | journal
  | deadline
  deriving DecidableEq, Repr

abbrev M := Program Target World Error

def World.updateStore (w : World) (f : ApiKeyStore → ApiKeyStore) : World := { w with store := f w.store }

def modifyStore (f : ApiKeyStore → ApiKeyStore) : M Unit := Program.update fun w => w.updateStore f

def getStore : M ApiKeyStore := Program.read World.store

/-! ## Scopes -/

def allowedScopes : List Codes := ["read", "write", "stream", "admin", "bootstrap"].map codes

/-- `str.lower` on ASCII; no other letter has a lower case that stands in a scope. -/
def lower (text : Codes) : Codes := text.map fun c => if 65 ≤ c ∧ c ≤ 90 then c + 32 else c

/-- One turn of `_normalize_scopes`; `none` is no string. -/
def normalizeScope (normalized : List Codes) (scope : Option Codes) : Except Error (List Codes) := do
  let some scope := scope | throw (.value "API key scopes must be strings")
  let name := lower (strip scope)
  if name.isEmpty then throw (.value "API key scopes cannot be blank")
  if !allowedScopes.contains name then throw (.value "Unknown API key scope")
  return if normalized.contains name then normalized else normalized ++ [name]

/-- `_normalize_scopes`; `none` is no list, tuple or set. -/
def normalizeScopes (scopes : Option (List (Option Codes))) : Except Error (List Codes) := do
  let some scopes := scopes | throw (.value "API key scopes must be a list of scope names")
  let normalized ← scopes.foldlM normalizeScope []
  if normalized.isEmpty then throw (.value "API key scopes cannot be empty")
  return normalized

/-! ## History -/

def strOption (value : Option Codes) : Json := (value.map Json.str).getD .null

def HistorySnapshot.details (snapshot : HistorySnapshot) : List (Codes × Json) :=
  [(codes "api_key_count", .int snapshot.apiKeyCount),
    (codes "active_api_key_count", .int snapshot.activeApiKeyCount),
    (codes "ui_session_count", .int snapshot.uiSessionCount),
    (codes "remembered_ui_session_count", .int snapshot.rememberedUiSessionCount),
    (codes "browser_handover_claimed_version", .str snapshot.browserHandoverClaimedVersion),
    (codes "bootstrap_proof_present", .bool snapshot.bootstrapProofPresent),
    (codes "bootstrap_exchange_present", .bool snapshot.bootstrapExchangePresent)]

def ApiKeyStore.historySnapshot (store : ApiKeyStore) : HistorySnapshot where
  apiKeyCount := store.apiKeys.length
  activeApiKeyCount := (store.apiKeys.filter fun record => !record.isRevoked).length
  uiSessionCount := store.uiSessions.items.length
  rememberedUiSessionCount := (store.uiSessions.items.filter fun item => item.2.remembered).length
  browserHandoverClaimedVersion := store.browserHandoverClaimedVersion
  bootstrapProofPresent := store.bootstrapProof.isSome
  bootstrapExchangePresent := store.bootstrapExchange.isSome

def adminScope : Codes := codes "admin"

def ApiKeyStore.activeAdminKeyCount (store : ApiKeyStore) : Nat :=
  (store.apiKeys.filter fun record => !record.isRevoked && record.scopes.contains adminScope).length

def ApiKeyStore.getApiKey (store : ApiKeyStore) (keyId : Codes) : Option ApiKeyRecord :=
  store.apiKeys.find? fun record => record.id = keyId

section Operations

variable (dates : DateTimes) (now : Int)

/-- The payload of `append_api_key_store_history` -/
def historyLine (event : String) (reason : Codes) (details : List (Codes × Json)) : Json :=
  .obj <| [(codes "timestamp", .str (dates.utc now)), (codes "event", .str (codes event)),
    (codes "reason", .str reason), (codes "store_file", .str storeName)] ++
    if details.isEmpty then [] else [(codes "details", .obj details)]

def World.appendHistory (line : Json) (w : World) : World :=
  { w with files.history := Auth.appendHistory w.files.history line }

def World.appendHistoryPart (line : Json) (part : Nat) (w : World) : World :=
  { w with files.history := Auth.appendHistoryPart w.files.history line part }

/-- `__record_history_event`: outside a claim a failure is passed over. -/
def recordHistoryEvent (event : String) (reason : Codes) (details : List (Codes × Json)) : M Unit := do
  let store ← getStore
  let line := historyLine dates now event reason details
  let error := Error.value "Required completed migration claim history could not be persisted"
  Program.rescue (Program.act .history error (World.appendHistory line) (World.appendHistoryPart line)) fun error =>
    if store.claimTransaction.isSome then Program.raise error else pure ()

/-! ## Expiry -/

/-- `datetime.fromisoformat(text) <= now`; `none` is the `TypeError` of a text without an offset. -/
def isPast (text : Codes) : Option Bool :=
  match dates.fromisoformat text with
  | none => some true
  | some time => (instant time).map fun at_ => decide (at_ ≤ now)

theorem isPast_utc (now then_ : Int) :
    isPast dates now (dates.utc then_) = some (decide (then_ / 1000000 * 1000000 ≤ now)) := by
  simp [isPast, DateTimes.utc, dates.reads, instant]

/-- Whether a browser session is dropped. -/
def sessionExpired (record : UiSessionRecord) : Option Bool :=
  if record.remembered then some false else isPast dates now record.expiresAt

/-- `__prune_expired_ui_sessions` -/
def pruneExpiredUiSessions : M Unit := do
  let store ← getStore
  if store.uiSessions.items.any fun item => (sessionExpired dates now item.2).isNone then Program.raise .type
  modifyStore fun store => { store with
    uiSessions := store.uiSessions.filter fun _ record => sessionExpired dates now record != some true }

def clearBootstrapProof (reason : Codes) : M Unit := do
  let store ← getStore
  if store.bootstrapProof.isSome then
    modifyStore fun store => { store with bootstrapProof := none }
    recordHistoryEvent dates now "bootstrap_proof_cleared" reason []

def clearBootstrapExchange (reason : Codes) : M Unit := do
  let store ← getStore
  if store.bootstrapExchange.isSome then
    modifyStore fun store => { store with bootstrapExchange := none }
    recordHistoryEvent dates now "bootstrap_exchange_cleared" reason []

/-- `__prune_bootstrap_proof`; a proof has an offset in its times. -/
def pruneBootstrapProof : M Unit := do
  let store ← getStore
  match store.bootstrapProof with
  | none => pure ()
  | some proof => if isPast dates now proof.expiresAt = some false then pure () else clearBootstrapProof dates now (codes "expired")

def pruneBootstrapExchange : M Unit := do
  let store ← getStore
  match store.bootstrapExchange with
  | none => pure ()
  | some exchange =>
    if isPast dates now exchange.expiresAt = some false then pure () else clearBootstrapExchange dates now (codes "expired")

/-! ## The file -/

def ApiKeyRecord.asdict (record : ApiKeyRecord) : Json :=
  .obj [(codes "id", .str record.id), (codes "name", .str record.name),
    (codes "scopes", .list (record.scopes.map Json.str)), (codes "secret_hash", .str record.secretHash),
    (codes "created_at", .str record.createdAt), (codes "updated_at", .str record.updatedAt),
    (codes "revoked_at", strOption record.revokedAt)]

def UiSessionRecord.asdict (record : UiSessionRecord) : Json :=
  .obj [(codes "secret", .str record.secret), (codes "scopes", .list (record.scopes.map Json.str)),
    (codes "created_at", .str record.createdAt), (codes "expires_at", .str record.expiresAt),
    (codes "bootstrap", .bool record.bootstrap), (codes "remembered", .bool record.remembered),
    (codes "api_key_id", strOption record.apiKeyId),
    (codes "api_key_secret_hash", strOption record.apiKeySecretHash)]

/-- The order of `(record.created_at, record.secret)` -/
def sessionLe (a b : UiSessionRecord) : Bool :=
  decide (a.createdAt < b.createdAt ∨ a.createdAt = b.createdAt ∧ a.secret ≤ b.secret)

def ApiKeyStore.payload (store : ApiKeyStore) : Json :=
  .obj [(codes "version", .int 3), (codes "api_keys", .list (store.apiKeys.map ApiKeyRecord.asdict)),
    (codes "ui_sessions", .list (((store.uiSessions.items.map Prod.snd).mergeSort sessionLe).map UiSessionRecord.asdict)),
    (codes "browser_handover_claimed_version", .str store.browserHandoverClaimedVersion)]

/-- `to_str`; the text is that of the value. -/
def toStr : M Json := do
  pruneExpiredUiSessions dates now
  pruneBootstrapProof dates now
  pruneBootstrapExchange dates now
  let store ← getStore
  return store.payload

/-- `save`. In either way of writing, the file is replaced once its new text stands beside it. -/
def save : M Unit := do
  let payload ← toStr dates now
  Program.replace .store .os fun w => { w with files.store := some (Doc.indented payload) }
  let store ← getStore
  let snapshot := store.historySnapshot
  if some snapshot ≠ store.lastSavedHistorySnapshot then
    recordHistoryEvent dates now "store_saved" (codes "persisted") snapshot.details
    modifyStore fun store => { store with lastSavedHistorySnapshot := some snapshot }

/-! ## Bootstrap proof and exchange -/

def bootstrapProofTtl : Int := seconds 600

def bootstrapExchangeTtl : Int := seconds 300

def openedRecord (ttl : Int) (secret : Codes) : BootstrapRecord := ⟨secret, dates.utc now, dates.utc (now + ttl)⟩

/-- `ensure_bootstrap_proof`; `secret` is what `secrets.token_urlsafe` returns. -/
def ensureBootstrapProof (secret : Codes) : M (Option BootstrapRecord) := do
  pruneBootstrapProof dates now
  pruneBootstrapExchange dates now
  let store ← getStore
  if store.activeAdminKeyCount > 0 then
    clearBootstrapProof dates now (codes "active_admin_key_exists")
    clearBootstrapExchange dates now (codes "active_admin_key_exists")
    return none
  if store.bootstrapProof.isNone then
    let proof := openedRecord dates now bootstrapProofTtl secret
    modifyStore fun store => { store with bootstrapProof := some proof }
    recordHistoryEvent dates now "bootstrap_proof_created" (codes "first_run_bootstrap_window_opened")
      [(codes "expires_at", .str proof.expiresAt)]
  return (← getStore).bootstrapProof

def ensureBootstrapExchange (secret : Codes) : M (Option BootstrapRecord) := do
  pruneBootstrapExchange dates now
  let store ← getStore
  if store.activeAdminKeyCount > 0 then
    clearBootstrapExchange dates now (codes "active_admin_key_exists")
    return none
  if store.bootstrapExchange.isNone then
    let exchange := openedRecord dates now bootstrapExchangeTtl secret
    modifyStore fun store => { store with bootstrapExchange := some exchange }
    recordHistoryEvent dates now "bootstrap_exchange_created" (codes "first_run_bootstrap_window_opened")
      [(codes "expires_at", .str exchange.expiresAt)]
  return (← getStore).bootstrapExchange

/-- `peek_bootstrap_proof` -/
def peekBootstrapProof (secret : Codes) : M Bool := do
  if (strip secret).isEmpty then return false
  pruneBootstrapProof dates now
  match (← getStore).bootstrapProof with
  | none => return false
  | some proof => return proof.secret = strip secret

def peekBootstrapExchange (secret : Codes) : M Bool := do
  if (strip secret).isEmpty then return false
  pruneBootstrapExchange dates now
  match (← getStore).bootstrapExchange with
  | none => return false
  | some exchange => return exchange.secret = strip secret

/-- `consume_bootstrap_proof` -/
def consumeBootstrapProof (secret : Codes) : M Bool := do
  if !(← peekBootstrapProof dates now secret) then return false
  modifyStore fun store => { store with bootstrapProof := none }
  recordHistoryEvent dates now "bootstrap_proof_cleared" (codes "consumed") []
  return true

def consumeBootstrapExchange (secret : Codes) : M Bool := do
  if !(← peekBootstrapExchange dates now secret) then return false
  modifyStore fun store => { store with bootstrapExchange := none }
  recordHistoryEvent dates now "bootstrap_exchange_cleared" (codes "consumed") []
  return true

/-! ## Sessions -/

def uiSessionTtl : Int := seconds (12 * 3600)

/-- `create_ui_session`; `secret` is what `secrets.token_urlsafe` returns. -/
def createUiSession (secret : Codes) (scopes : List Codes) (bootstrap remembered : Bool)
    (apiKeyId apiKeySecretHash : Option Codes) : M UiSessionRecord := do
  let normalized ← match normalizeScopes (some (scopes.map some)) with
    | .ok normalized => pure normalized
    | .error error => Program.raise error
  if apiKeyId.any fun id => (strip id).isEmpty then Program.raise (.value "API key id cannot be blank")
  if apiKeySecretHash.any fun hash => (strip hash).isEmpty then Program.raise (.value "API key secret hash cannot be blank")
  if bootstrap && remembered then Program.raise (.value "Bootstrap sessions cannot also be remembered")
  let record : UiSessionRecord :=
    { secret := secret
      scopes := normalized
      createdAt := dates.utc now
      expiresAt := if remembered then [] else dates.utc (now + uiSessionTtl)
      bootstrap := bootstrap
      remembered := remembered
      apiKeyId := apiKeyId.map strip
      apiKeySecretHash := apiKeySecretHash.map strip }
  modifyStore fun store => { store with uiSessions := store.uiSessions.set secret record }
  pruneExpiredUiSessions dates now
  save dates now
  let reason := if remembered then "remembered_browser_session_created"
    else if bootstrap then "bootstrap_session_created" else "browser_session_created"
  recordHistoryEvent dates now "ui_session_created" (codes reason)
    [(codes "bootstrap", .bool bootstrap), (codes "remembered", .bool remembered),
      (codes "api_key_id", strOption record.apiKeyId), (codes "scopes", .list (record.scopes.map Json.str))]
  return record

/-- `create_browser_session_for_api_key`, and `create_remembered_browser_session_for_api_key` -/
def createBrowserSessionForApiKey (secret keyId : Codes) (remembered : Bool) : M UiSessionRecord := do
  if (strip keyId).isEmpty then Program.raise (.value "API key id cannot be blank")
  let store ← getStore
  match store.getApiKey keyId with
  | none => Program.raise .key
  | some record =>
    if record.isRevoked then Program.raise (.value "Cannot create a browser session for a revoked API key")
    createUiSession dates now secret record.scopes false remembered (some record.id) (some record.secretHash)

/-- `__discard_browser_sessions_for_api_key` -/
def discardBrowserSessionsForApiKey (keyId : Codes) (reason : String) : M Nat := do
  let store ← getStore
  let matching := store.uiSessions.items.filter fun item => item.2.apiKeyId = some keyId
  let remembered := matching.filter fun item => item.2.remembered
  modifyStore fun store => { store with uiSessions := store.uiSessions.filter fun _ record => record.apiKeyId ≠ some keyId }
  recordHistoryEvent dates now "ui_sessions_discarded" (codes reason)
    [(codes "api_key_id", .str keyId), (codes "discarded_count", .int matching.length),
      (codes "remembered_count", .int remembered.length)]
  return matching.length

/-- `find_ui_session_by_secret` -/
def findUiSessionBySecret (secret : Codes) : M (Option UiSessionRecord) := do
  pruneExpiredUiSessions dates now
  return (← getStore).uiSessions.get secret

/-- `invalidate_ui_session` -/
def invalidateUiSession (secret : Codes) : M Unit := do
  if (strip secret).isEmpty then return
  let store ← getStore
  if store.uiSessions.contains secret then
    modifyStore fun store => { store with uiSessions := store.uiSessions.pop secret }
    save dates now

/-! ## Keys -/

/-- `__create_api_key_record`; `id` is what `uuid.uuid4` and `hash` what `_hash_secret` returns. -/
def createApiKeyRecord (id hash name : Codes) (scopes : Option (List (Option Codes))) : M ApiKeyRecord := do
  let normalized ← match normalizeScopes scopes with
    | .ok normalized => pure normalized
    | .error error => Program.raise error
  if (strip name).isEmpty then Program.raise (.value "API key name cannot be blank")
  let record : ApiKeyRecord :=
    { id := id
      name := strip name
      scopes := normalized
      secretHash := hash
      createdAt := dates.utc now
      updatedAt := dates.utc now }
  modifyStore fun store => { store with apiKeys := store.apiKeys ++ [record] }
  return record

def keyDetails (record : ApiKeyRecord) : List (Codes × Json) :=
  [(codes "api_key_id", .str record.id), (codes "name", .str record.name),
    (codes "scopes", .list (record.scopes.map Json.str))]

/-- `create_api_key` -/
def createApiKey (id hash name : Codes) (scopes : Option (List (Option Codes))) : M ApiKeyRecord := do
  let record ← createApiKeyRecord dates now id hash name scopes
  if record.scopes.contains adminScope then
    clearBootstrapProof dates now (codes "admin_api_key_created")
    clearBootstrapExchange dates now (codes "admin_api_key_created")
  save dates now
  recordHistoryEvent dates now "api_key_created" (codes "create_api_key") (keyDetails record)
  return record

/-- Write the record that `get_api_key` finds for the id. -/
def ApiKeyStore.setApiKey (store : ApiKeyStore) (keyId : Codes) (record : ApiKeyRecord) : ApiKeyStore :=
  match store.apiKeys.findIdx? fun record => record.id = keyId with
  | none => store
  | some index => { store with apiKeys := store.apiKeys.set index record }

/-- `update_api_key` -/
def updateApiKey (keyId : Codes) (name : Option Codes) (scopes : Option (Option (List (Option Codes)))) :
    M ApiKeyRecord := do
  let store ← getStore
  match store.getApiKey keyId with
  | none => Program.raise .key
  | some record =>
    if record.isRevoked then Program.raise (.value "Cannot update a revoked API key")
    if name.any fun name => (strip name).isEmpty then Program.raise (.value "API key name cannot be blank")
    let named := { record with name := (name.map strip).getD record.name }
    -- The name is set before the scopes are looked at.
    modifyStore fun store => store.setApiKey keyId named
    let normalized ← match scopes with
      | none => pure record.scopes
      | some scopes => match normalizeScopes scopes with
        | .ok normalized => pure normalized
        | .error error => Program.raise error
    let updated := { named with scopes := normalized, updatedAt := dates.utc now }
    modifyStore fun store => store.setApiKey keyId updated
    save dates now
    let reason := match decide (updated.name ≠ record.name), decide (normalized ≠ record.scopes) with
      | true, true => "name_and_scopes_updated"
      | true, false => "name_updated"
      | false, true => "scopes_updated"
      | false, false => "metadata_refreshed"
    recordHistoryEvent dates now "api_key_updated" (codes reason) (keyDetails updated)
    return updated

/-- `delete_api_key` -/
def deleteApiKey (keyId : Codes) : M ApiKeyRecord := do
  let store ← getStore
  match store.getApiKey keyId with
  | none => Program.raise .key
  | some record =>
    if !record.isRevoked then Program.raise (.value "Cannot delete an active API key")
    let discarded ← discardBrowserSessionsForApiKey dates now record.id "api_key_deleted"
    modifyStore fun store => { store with apiKeys := store.apiKeys.erase record }
    save dates now
    recordHistoryEvent dates now "api_key_deleted" (codes "api_key_deleted")
      [(codes "api_key_id", .str record.id), (codes "name", .str record.name),
        (codes "discarded_session_count", .int discarded)]
    return record

/-- `revoke_api_key` -/
def revokeApiKey (keyId : Codes) : M ApiKeyRecord := do
  let store ← getStore
  match store.getApiKey keyId with
  | none => Program.raise .key
  | some record =>
    if record.isRevoked then Program.raise (.value "Cannot revoke a revoked API key")
    let revoked := { record with revokedAt := some (dates.utc now), updatedAt := dates.utc now }
    modifyStore fun store => store.setApiKey keyId revoked
    let discarded ← discardBrowserSessionsForApiKey dates now record.id "api_key_revoked"
    save dates now
    recordHistoryEvent dates now "api_key_revoked" (codes "api_key_revoked")
      [(codes "api_key_id", .str record.id), (codes "name", .str record.name),
        (codes "discarded_session_count", .int discarded)]
    return revoked

/-- `rotate_api_key`; `hash` is what `_hash_secret` returns for the new secret. -/
def rotateApiKey (keyId hash : Codes) : M ApiKeyRecord := do
  let store ← getStore
  match store.getApiKey keyId with
  | none => Program.raise .key
  | some record =>
    if record.isRevoked then Program.raise (.value "Cannot rotate a revoked API key")
    let rotated := { record with secretHash := hash, updatedAt := dates.utc now }
    modifyStore fun store => store.setApiKey keyId rotated
    save dates now
    recordHistoryEvent dates now "api_key_rotated" (codes "api_key_rotated") (keyDetails rotated)
    return rotated

/-! ## Loading -/

/-- `_required_string_field`: a missing key raises, too. -/
def requiredStringField (fields : List (Codes × Json)) (name : String) : Option Codes :=
  match field fields name with
  | .str text => some text
  | _ => none

def optionalString : Json → Option (Option Codes)
  | .str text => some (some text)
  | .null => some none
  | _ => none

/-- A string, or `none` for `None` and a missing key. -/
def optionalStringField (fields : List (Codes × Json)) (name : String) : Option (Option Codes) :=
  optionalString (field fields name)

/-- A boolean, false where the key is missing. -/
def boolField (fields : List (Codes × Json)) (name : String) : Option Bool :=
  match hasField fields name, field fields name with
  | false, _ => some false
  | true, .bool value => some value
  | true, _ => none

/-- A list, empty where the key is missing. -/
def listField (fields : List (Codes × Json)) (name : String) : Option (List Json) :=
  match hasField fields name, field fields name with
  | false, _ => some []
  | true, .list items => some items
  | true, _ => none

def strItem : Json → Option Codes
  | .str text => some text
  | _ => none

def scopesField (fields : List (Codes × Json)) : Option (List Codes) := do
  let items ← listField fields "scopes"
  (normalizeScopes (some (items.map strItem))).toOption

def loadApiKey : Json → Option ApiKeyRecord
  | .obj fields => do
    return { id := ← requiredStringField fields "id"
             name := ← requiredStringField fields "name"
             scopes := ← scopesField fields
             secretHash := ← requiredStringField fields "secret_hash"
             createdAt := ← requiredStringField fields "created_at"
             updatedAt := ← requiredStringField fields "updated_at"
             revokedAt := ← optionalStringField fields "revoked_at" }
  | _ => none

def loadUiSession : Json → Option UiSessionRecord
  | .obj fields => do
    return { apiKeyId := ← optionalStringField fields "api_key_id"
             apiKeySecretHash := ← optionalStringField fields "api_key_secret_hash"
             remembered := ← boolField fields "remembered"
             secret := ← requiredStringField fields "secret"
             bootstrap := ← boolField fields "bootstrap"
             scopes := ← scopesField fields
             createdAt := ← requiredStringField fields "created_at"
             expiresAt := ← requiredStringField fields "expires_at" }
  | _ => none

/-- The version of the file: an integer, 1 where it is missing. -/
def versionField (fields : List (Codes × Json)) : Option Int :=
  match hasField fields "version", field fields "version" with
  | false, _ => some 1
  | true, .int version => some version
  | true, _ => none

/-- `from_str`; `none` is a `PersistError`. -/
def fromStr : Json → Option ApiKeyStore
  | .obj fields => do
    let version ← versionField fields
    if version < 1 then none
    let claimed ← optionalStringField fields "browser_handover_claimed_version"
    let apiKeys ← (← listField fields "api_keys").mapM loadApiKey
    let sessions ← (← listField fields "ui_sessions").mapM loadUiSession
    return { apiKeys := apiKeys
             uiSessions := sessions.foldl (fun d session => d.set session.secret session) {}
             browserHandoverClaimedVersion := claimed.getD [] }
  | _ => none

/-- `Seedsync._load_persist` in a process that starts: the store of the file, when there is one, and a
fresh one otherwise. A file that cannot be loaded is copied to `backupPath`, and the history says so. -/
def load (backupPath : Codes) : M Unit := do
  let w ← Program.read id
  match w.files.store with
  | none => modifyStore fun _ => {}
  | some doc =>
    match fromStr doc.value with
    | some store =>
      modifyStore fun _ => store
      recordHistoryEvent dates now "store_loaded" (codes "loaded_existing_store") store.historySnapshot.details
    | none =>
      modifyStore fun _ => {}
      recordHistoryEvent dates now "store_load_failed" (codes "persist_error_fallback")
        [(codes "error_type", .str (codes "PersistError")), (codes "backup_path", .str backupPath),
          (codes "fallback", .str (codes "fresh_store"))]

end Operations

end SeedSync.Auth
