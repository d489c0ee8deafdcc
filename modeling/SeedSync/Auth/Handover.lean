import SeedSync.Auth.Claimed

/-!
# Claim windows

When the first administrator, or one of a recovery, may be made in the browser: the deadline file, the
window it tells of, and the claim. The digest of a version is a parameter.
-/

namespace SeedSync.Auth

open Lib

/-! ## The deadline file -/

def recoveryBrowserHandoverTtl : Int := seconds (2 * 3600)

def initialBrowserHandoverTtl : Int := seconds (8 * 3600)

def seenRecoveryVersionLimit : Nat := 128

def handoverKind : Json → Option HandoverKind
  | .str text => if text = codes "initial" then some .initial else if text = codes "recovery" then some .recovery else none
  | _ => none

def HandoverKind.text : HandoverKind → Codes
  | .initial => codes "initial"
  | .recovery => codes "recovery"

section

variable (dates : DateTimes) (digest : Codes → Codes)

/-- `datetime.fromisoformat(value)` of a time with an offset -/
def deadlineTime : Json → Option Int
  | .str text => (dates.fromisoformat text).bind instant
  | _ => none

/-- `__validate_browser_handover_deadline` of the four fields -/
def readDeadline (kind version openedAt expiresAt : Json) : Option Deadline := do
  let kind ← handoverKind kind
  let version ← strItem version
  if (match kind with
    | .initial => decide (version = [])
    | .recovery => isSha256 version) &&
    (match deadlineTime dates openedAt, deadlineTime dates expiresAt with
    | some opened, some expires => decide (opened < expires)
    | _, _ => false)
  then return ⟨kind, version, ← strItem openedAt, ← strItem expiresAt⟩ else none

/-- The window of a state file, `none` for what is refused. -/
def readActive : Json → Option (Option Deadline)
  | .null => some none
  | .obj fields =>
    if hasKeys fields ["kind", "version_sha256", "opened_at", "expires_at"] then
      (readDeadline dates (field fields "kind") (field fields "version_sha256") (field fields "opened_at")
        (field fields "expires_at")).map some
    else none
  | _ => none

/-- The first form of the file: one window, with its version in clear. -/
def readLegacyState (fields : List (Codes × Json)) : Option DeadlineState := do
  if !hasKeys fields ["schema", "kind", "version", "opened_at", "expires_at"] then none
  let kind ← handoverKind (field fields "kind")
  let legacyVersion ← strItem (field fields "version")
  let version := match kind with
    | .initial => []
    | .recovery => digest legacyVersion
  let active ← readDeadline dates (field fields "kind") (.str version) (field fields "opened_at") (field fields "expires_at")
  return { active := some active
           seenRecoveryVersions := match kind with
             | .initial => []
             | .recovery => [version] }

/-- What `__load_browser_handover_deadline` reads of a file; `none` marks it as invalid. -/
def readDeadlineState (doc : Doc) : Option DeadlineState :=
  if browserHandoverStateMaxBytes < doc.bytes then none
  else match doc.value with
    | .obj fields =>
      if (field fields "schema").equalsNat 1 then readLegacyState dates digest fields
      else if hasKeys fields ["schema", "active", "seen_recovery_versions"] && (field fields "schema").equalsNat 2 then do
        let active ← readActive dates (field fields "active")
        match field fields "seen_recovery_versions" with
        | .list items => return ⟨active, ← readSeenVersions items⟩
        | _ => none
      else none
    | _ => none

end

def Deadline.payload (deadline : Deadline) : Json :=
  .obj [(codes "expires_at", .str deadline.expiresAt), (codes "kind", .str deadline.kind.text),
    (codes "opened_at", .str deadline.openedAt), (codes "version_sha256", .str deadline.versionSha256)]

def DeadlineState.payload (state : DeadlineState) : Json :=
  .obj [(codes "active", (state.active.map Deadline.payload).getD .null), (codes "schema", .int 2),
    (codes "seen_recovery_versions", .list (state.seenRecoveryVersions.map Json.str))]

/-- The file of a state: its text and a line end. -/
def DeadlineState.doc (state : DeadlineState) : Doc := ⟨state.payload, state.payload.dumps.length + 1⟩

/-- `__write_browser_handover_deadline` -/
def writeBrowserHandoverDeadline (state : DeadlineState) : M Unit := do
  if browserHandoverStateMaxBytes < state.doc.bytes then Program.raise (.value "browser handover state is too large")
  Program.replace .deadline .os fun w => { w with files.deadline := some state.doc }

/-- The state is that of a file, once. -/
def ApiKeyStore.withDeadlineOf (store : ApiKeyStore) (dates : DateTimes) (digest : Codes → Codes) (doc : Option Doc) :
    ApiKeyStore :=
  if store.browserHandoverDeadlineLoaded then store
  else match doc with
    | none => { store with browserHandoverDeadlineLoaded := true }
    | some doc =>
      match readDeadlineState dates digest doc with
      | some state => { store with browserHandoverDeadlineLoaded := true, browserHandoverDeadline := some state }
      | none => { store with browserHandoverDeadlineLoaded := true, browserHandoverDeadlineInvalid := true }

/-- `__load_browser_handover_deadline` -/
def loadBrowserHandoverDeadline (dates : DateTimes) (digest : Codes → Codes) : M (Option DeadlineState) := do
  let w ← Program.read id
  modifyStore fun store => store.withDeadlineOf dates digest w.files.deadline
  return (← getStore).browserHandoverDeadline

/-! ## The window -/

/-- The state that `get_browser_handover_state` returns. -/
structure HandoverPayload where
  configuredVersion : Codes
  claimedVersion : Codes
  isOpen : Bool
  windowType : Option HandoverKind
  openedAt : Option Codes
  expiresAt : Option Codes
  remainingSeconds : Int
  expired : Bool
  stateInvalid : Bool
  recoveryVersionClosed : Bool
  recoveryHistoryFull : Bool
  deriving DecidableEq, Repr

/-- What a claim or a state query is asked with: `none` for no configuration. -/
abbrev HandoverConfig := Option Codes

/-- `__configured_browser_handover_version` -/
def configuredVersion (config : HandoverConfig) : Codes := strip (config.getD [])

section

variable (dates : DateTimes) (digest : Codes → Codes) (now : Int)

/-- `__handover_payload`; the time of a deadline has an offset. -/
def handoverPayload (store : ApiKeyStore) (version : Codes) (deadline : Option Deadline) (openWindow expired invalid : Bool)
    (recoverySeen recoveryHistoryFull : Bool) : HandoverPayload :=
  let expires := deadline.bind fun deadline => (dates.fromisoformat deadline.expiresAt).bind instant
  { configuredVersion := version
    claimedVersion := store.browserHandoverClaimedVersion
    isOpen := openWindow && (deadline.isNone || expires.isSome)
    windowType := deadline.map Deadline.kind
    openedAt := deadline.map Deadline.openedAt
    expiresAt := deadline.map Deadline.expiresAt
    remainingSeconds := if openWindow then (expires.map fun at_ => max 0 ((at_ - now).tdiv 1000000)).getD 0 else 0
    expired := expired
    stateInvalid := invalid
    recoveryVersionClosed := recoverySeen
    recoveryHistoryFull := recoveryHistoryFull }

/-- `__deadline_expired` -/
def deadlineExpired (deadline : Deadline) : Bool := isPast dates now deadline.expiresAt != some false

/-- `__mark_browser_handover_claimed` -/
def markBrowserHandoverClaimed (version : Codes) : M Unit := do
  let store ← getStore
  if !store.browserHandoverDeadlineLoaded || store.browserHandoverDeadlineInvalid then return
  match store.browserHandoverDeadline with
  | none => return
  | some state =>
    match state.active with
    | none => return
    | some active =>
      let expected := match active.kind with
        | .recovery => digest version
        | .initial => []
      if active.versionSha256 ≠ expected then return
      let closed := { state with active := none }
      modifyStore fun store => { store with browserHandoverDeadline := some closed }
      writeBrowserHandoverDeadline closed

/-- `finalize_browser_handover_claim` -/
def finalizeBrowserHandoverClaim (version : Codes) : M Bool :=
  Program.rescue (do
    markBrowserHandoverClaimed digest (strip version)
    return true) fun error =>
    match error with
    | .os => return false
    | .value _ => return false
    | error => Program.raise error

/-- A claim for another version than the claimed one, while there is an administrator. -/
def ApiKeyStore.recovers (store : ApiKeyStore) (version : Codes) (config : HandoverConfig) : Bool :=
  decide (store.activeAdminKeyCount > 0) && decide (version ≠ store.browserHandoverClaimedVersion) &&
    (!(configuredVersion config).isEmpty || config.isNone)

def Deadline.matches (deadline : Deadline) (kind : HandoverKind) (version : Codes) : Bool :=
  decide (deadline.kind = kind) && decide (deadline.versionSha256 = version)

/-- A window that is opened now. -/
def openedDeadline (kind : HandoverKind) (version : Codes) : Deadline where
  kind := kind
  versionSha256 := version
  openedAt := dates.utc now
  expiresAt := dates.utc (now + match kind with
    | .recovery => recoveryBrowserHandoverTtl
    | .initial => initialBrowserHandoverTtl)

/-- The state with a window. A recovery is remembered. -/
def DeadlineState.open (state : DeadlineState) (deadline : Deadline) : DeadlineState :=
  { active := some deadline
    seenRecoveryVersions := match deadline.kind with
      | .recovery => state.seenRecoveryVersions ++ [deadline.versionSha256]
      | .initial => state.seenRecoveryVersions }

/-- `__browser_handover_state` -/
def browserHandoverState (version : Codes) (config : HandoverConfig) (activate reopenInitial : Bool) : M HandoverPayload := do
  let asked ← getStore
  let recovery := asked.recovers version config
  let desiredKind : HandoverKind := if recovery then .recovery else .initial
  let desiredVersion := if recovery then digest version else []
  let state ← loadBrowserHandoverDeadline dates digest
  let loaded ← getStore
  let invalid := loaded.browserHandoverDeadlineInvalid
  if !recovery && decide (asked.activeAdminKeyCount > 0) then
    if activate then
      let _ ← finalizeBrowserHandoverClaim digest version
    return handoverPayload dates now (← getStore) version none false false invalid false false
  let deadline := state.bind DeadlineState.active
  let isMatching := deadline.any fun deadline => deadline.matches desiredKind desiredVersion
  let expired := isMatching && deadline.any fun deadline => deadlineExpired dates now deadline
  let seen := recovery && state.any fun state => state.seenRecoveryVersions.contains desiredVersion
  let full := recovery && !isMatching && !seen &&
    state.any fun state => decide (seenRecoveryVersionLimit ≤ state.seenRecoveryVersions.length)
  let mayOpen := !invalid && ((!isMatching && !seen && !full) || (desiredKind = .initial && expired && reopenInitial))
  if mayOpen && (activate || (desiredKind = .recovery && loaded.browserHandoverActivated)) then
    let deadline := openedDeadline dates now desiredKind desiredVersion
    let state := (state.getD {}).open deadline
    modifyStore fun store => { store with browserHandoverDeadline := some state, browserHandoverDeadlineInvalid := false }
    writeBrowserHandoverDeadline state
    return handoverPayload dates now (← getStore) version (some deadline) (!invalid) false invalid seen full
  return handoverPayload dates now loaded version (if isMatching then deadline else none) (isMatching && !expired && !invalid)
    expired invalid seen full

/-- `effective_browser_handover_version`; the version of a binding is a digest of it. -/
def effectiveBrowserHandoverVersion (bindingVersion : TransitionBinding → Codes) (store : ApiKeyStore)
    (config : HandoverConfig) : Codes :=
  if !(configuredVersion config).isEmpty then configuredVersion config
  else match store.transitionBinding with
    | some binding => bindingVersion binding
    | none => store.claimedHandoverVersion

/-- `get_browser_handover_state` -/
def getBrowserHandoverState (bindingVersion : TransitionBinding → Codes) (config : HandoverConfig) : M HandoverPayload := do
  let version := effectiveBrowserHandoverVersion bindingVersion (← getStore) config
  browserHandoverState dates digest now version config false false

/-- `activate_browser_handover` -/
def activateBrowserHandover (bindingVersion : TransitionBinding → Codes) (config : HandoverConfig) : M HandoverPayload := do
  let store ← getStore
  let version := effectiveBrowserHandoverVersion bindingVersion store config
  modifyStore fun store => { store with browserHandoverActivated := true }
  browserHandoverState dates digest now version config true (!store.browserHandoverActivated)

/-! ## The claim -/

/-- `can_claim_initial_admin` without a configuration -/
def canClaimInitialAdmin (version : Codes) : M Bool := do
  let state ← browserHandoverState dates digest now (strip version) none false false
  let store ← getStore
  if store.browserHandoverActivated || state.stateInvalid || state.expiresAt.isSome then return state.isOpen
  return decide (store.activeAdminKeyCount = 0) || decide (store.browserHandoverClaimedVersion ≠ strip version)

/-- `create_initial_admin_api_key_if_available`; `id` and `hash` are those of the new key. -/
def createInitialAdminApiKeyIfAvailable (version name id hash : Codes) : M (Option ApiKeyRecord) := do
  let version := strip version
  if !(← canClaimInitialAdmin dates digest now version) then return none
  let record ← createApiKeyRecord dates now id hash name (some [some adminScope])
  modifyStore fun store =>
    if store.claimedHandoverVersion.isEmpty then { store with browserHandoverClaimedVersion := version } else store
  clearBootstrapProof dates now (codes "admin_api_key_created")
  clearBootstrapExchange dates now (codes "admin_api_key_created")
  save dates now
  let store ← getStore
  if store.claimTransaction.isNone then
    let _ ← finalizeBrowserHandoverClaim digest version
  recordHistoryEvent dates now "api_key_created" (codes "initial_admin_created")
    (keyDetails record ++ [(codes "browser_handover_version", .str version)])
  return some record

end

end SeedSync.Auth
