import SeedSync.Auth.Startable
import SeedSync.Auth.Frame
import SeedSync.Lib.Counter

/-!
# Calls that fail

What a call on the credentials that raises leaves in memory. Apart from its checks, a call changes the
memory before it saves, and nothing undoes the change when the save fails.
-/

namespace SeedSync.Auth

open Lib Program

/-! ## The calls -/

/-- The part of a store that decides what is authorised and what is saved. -/
structure Credentials where
  apiKeys : List ApiKeyRecord
  uiSessions : Dict Codes UiSessionRecord
  claimedVersion : Codes

def ApiKeyStore.credentials (store : ApiKeyStore) : Credentials :=
  ⟨store.apiKeys, store.uiSessions, store.browserHandoverClaimedVersion⟩

def World.credentials (w : World) : Credentials := w.store.credentials

/-- The same keys, sessions and claimed version. -/
structure Credentials.Same (a b : Credentials) : Prop where
  apiKeys : a.apiKeys = b.apiKeys
  uiSessions : ∀ secret, a.uiSessions.get secret = b.uiSessions.get secret
  claimedVersion : a.claimedVersion = b.claimedVersion

theorem Credentials.Same.of_eq {a b : Credentials} (h : a = b) : a.Same b := h ▸ ⟨rfl, fun _ => rfl, rfl⟩

/-- A call, with what the code makes up for it. A name or an id of another type is refused as a blank one is;
`none` is a flag that is no boolean. -/
inductive CredentialCall where
  | createApiKey (id hash name : Codes) (scopes : Option (List (Option Codes)))
  | updateApiKey (keyId : Codes) (name : Option Codes) (scopes : Option (Option (List (Option Codes))))
  | deleteApiKey (keyId : Codes)
  | revokeApiKey (keyId : Codes)
  | rotateApiKey (keyId hash : Codes)
  | createUiSession (secret : Codes) (scopes : Option (List (Option Codes))) (bootstrap remembered : Option Bool)
      (apiKeyId apiKeySecretHash : Option Codes)
  | createInitialAdminApiKeyIfAvailable (version name id hash : Codes)

section

variable (dates : DateTimes) (digest : Codes → Codes) (now : Int)

/-- `create_ui_session` with arguments of any type -/
def createUiSessionOf (secret : Codes) (scopes : Option (List (Option Codes))) (bootstrap remembered : Option Bool)
    (apiKeyId apiKeySecretHash : Option Codes) : M UiSessionRecord := do
  match normalizeScopes scopes with
  | .error error => Program.raise error
  | .ok _ =>
    let some bootstrap := bootstrap | Program.raise (.value "Bootstrap session flag must be a boolean")
    match remembered with
    | some remembered =>
      createUiSession dates now secret (scopes.getD []).reduceOption bootstrap remembered apiKeyId apiKeySecretHash
    | none =>
      if apiKeyId.any fun id => (strip id).isEmpty then Program.raise (.value "API key id cannot be blank")
      if apiKeySecretHash.any fun hash => (strip hash).isEmpty then
        Program.raise (.value "API key secret hash cannot be blank")
      Program.raise (.value "Remembered session flag must be a boolean")

def CredentialCall.program : CredentialCall → M Unit
  | .createApiKey id hash name scopes => discard (Auth.createApiKey dates now id hash name scopes)
  | .updateApiKey keyId name scopes => discard (Auth.updateApiKey dates now keyId name scopes)
  | .deleteApiKey keyId => discard (Auth.deleteApiKey dates now keyId)
  | .revokeApiKey keyId => discard (Auth.revokeApiKey dates now keyId)
  | .rotateApiKey keyId hash => discard (Auth.rotateApiKey dates now keyId hash)
  | .createUiSession secret scopes bootstrap remembered keyId hash =>
    discard (createUiSessionOf dates now secret scopes bootstrap remembered keyId hash)
  | .createInitialAdminApiKeyIfAvailable version name id hash =>
    discard (Auth.createInitialAdminApiKeyIfAvailable dates digest now version name id hash)

/-- However its steps on the files end, a call that raises leaves the credentials in memory as they were. -/
def CredentialCall.Atomic (call : CredentialCall) (w : World) : Prop :=
  ∀ outcomes error m, (call.program dates digest now).run.run ⟨w, outcomes⟩ = (.error (.raised error), m) →
    m.world.credentials.Same w.credentials

/-! ## When a failure is harmless -/

/-- Pruning drops no session: none has expired, or one has a time without an offset, which stops the pruning. -/
def Unpruned (sessions : Dict Codes UiSessionRecord) : Prop :=
  (∃ item ∈ sessions.items, sessionExpired dates now item.2 = none) ∨
    ∀ item ∈ sessions.items, sessionExpired dates now item.2 = some false

def blank (text : Codes) : Bool := (strip text).isEmpty

/-- `_normalize_scopes` raises. -/
def badScopes (scopes : Option (List (Option Codes))) : Bool :=
  match normalizeScopes scopes with
  | .ok _ => false
  | .error _ => true

/-- The session that is made with accepted arguments -/
def madeSession (secret : Codes) (normalized : List Codes) (bootstrap remembered : Bool)
    (apiKeyId apiKeySecretHash : Option Codes) : UiSessionRecord :=
  { secret := secret
    scopes := normalized
    createdAt := dates.utc now
    expiresAt := if remembered then [] else dates.utc (now + uiSessionTtl)
    bootstrap := bootstrap
    remembered := remembered
    apiKeyId := apiKeyId.map strip
    apiKeySecretHash := apiKeySecretHash.map strip }

/-- The checks of the call refuse it before it has changed anything, or all that it changes stands already and
nothing is pruned. A name is changed before the scopes are checked. -/
def CredentialCall.Harmless (call : CredentialCall) (w : World) : Prop :=
  match call with
  | .createApiKey _ _ name scopes => badScopes scopes = true ∨ blank name = true
  | .updateApiKey keyId name scopes =>
    ∀ record, w.store.getApiKey keyId = some record → record.isRevoked = false →
      name.any blank = false → (name.map strip).getD record.name = record.name ∧
        ∀ normalized, (scopes.map normalizeScopes).getD (.ok record.scopes) = .ok normalized →
          normalized = record.scopes ∧ dates.utc now = record.updatedAt ∧ Unpruned dates now w.store.uiSessions
  | .deleteApiKey keyId => ∀ record, w.store.getApiKey keyId = some record → record.isRevoked = false
  | .revokeApiKey keyId => ∀ record, w.store.getApiKey keyId = some record → record.isRevoked = true
  | .rotateApiKey keyId hash =>
    ∀ record, w.store.getApiKey keyId = some record → record.isRevoked = false →
      hash = record.secretHash ∧ dates.utc now = record.updatedAt ∧ Unpruned dates now w.store.uiSessions
  | .createUiSession secret scopes bootstrap remembered keyId hash =>
    ∀ normalized b r, normalizeScopes scopes = .ok normalized → bootstrap = some b → remembered = some r →
      keyId.any blank = false → hash.any blank = false → (b && r) = false →
      w.store.uiSessions.get secret = some (madeSession dates now secret normalized b r keyId hash) ∧
        Unpruned dates now w.store.uiSessions
  | .createInitialAdminApiKeyIfAvailable version name _ _ =>
    blank name = true ∨
      ∀ outcomes, ((canClaimInitialAdmin dates digest now (strip version)).run.run ⟨w, outcomes⟩).1 ≠ .ok true

end

/-! ## A harmless call leaves the credentials -/

section

variable {dates : DateTimes} {digest : Codes → Codes} {now : Int} {c : Credentials}

/-- The credentials in memory are these. -/
def Holds (c : Credentials) (m : Machine Target World) : Prop := m.world.credentials = c

/-- The program leaves these credentials, also when it raises. -/
def Holding {α : Type} (c : Credentials) (program : M α) : Prop := Triple (Holds c) program (fun _ => Holds c) (Holds c)

theorem Holding.of_leaves {α : Type} {program : M α} (h : Leaves World.credentials program) : Holding c program := by
  intro m hm
  have hrun := h m
  generalize program.run.run m = r at hrun ⊢
  obtain ⟨stop | a, m'⟩ := r <;> exact hrun.trans hm

theorem recordHistoryEvent_credentials (event : String) (reason : Codes) (details : List (Codes × Json)) :
    Leaves World.credentials (recordHistoryEvent dates now event reason details) :=
  Leaves.getStore_bind fun _ => Leaves.rescue (Leaves.act (fun _ => rfl) fun _ _ => rfl) fun _ =>
    Leaves.ite Leaves.raise Leaves.pure

theorem clearBootstrapProof_credentials (reason : Codes) :
    Leaves World.credentials (clearBootstrapProof dates now reason) :=
  Leaves.getStore_bind fun _ => Leaves.ite (Leaves.bind (Leaves.modifyStore fun _ => rfl) fun _ =>
    recordHistoryEvent_credentials _ _ _) Leaves.pure

theorem clearBootstrapExchange_credentials (reason : Codes) :
    Leaves World.credentials (clearBootstrapExchange dates now reason) :=
  Leaves.getStore_bind fun _ => Leaves.ite (Leaves.bind (Leaves.modifyStore fun _ => rfl) fun _ =>
    recordHistoryEvent_credentials _ _ _) Leaves.pure

theorem pruneBootstrapProof_credentials : Leaves World.credentials (pruneBootstrapProof dates now) := by
  refine Leaves.getStore_bind fun store => ?_
  cases store.bootstrapProof with
  | none => exact Leaves.pure
  | some proof => exact Leaves.ite Leaves.pure (clearBootstrapProof_credentials _)

theorem pruneBootstrapExchange_credentials : Leaves World.credentials (pruneBootstrapExchange dates now) := by
  refine Leaves.getStore_bind fun store => ?_
  cases store.bootstrapExchange with
  | none => exact Leaves.pure
  | some exchange => exact Leaves.ite Leaves.pure (clearBootstrapExchange_credentials _)

theorem pruneExpiredUiSessions_holds (hsessions : Unpruned dates now c.uiSessions) :
    Holding c (pruneExpiredUiSessions dates now) := by
  refine Triple.read_bind fun m hm => ?_
  have hstore : m.world.store.uiSessions = c.uiSessions := congrArg Credentials.uiSessions hm
  rcases hsessions with ⟨item, hitem, hnaive⟩ | hall
  · have hany : (m.world.store.uiSessions.items.any fun item => (sessionExpired dates now item.2).isNone) = true := by
      rw [hstore, List.any_eq_true]
      exact ⟨item, hitem, by rw [hnaive]; rfl⟩
    rw [if_pos hany]
    exact Triple.raise_bind (by rintro m' rfl; exact hm)
  · refine Triple.check (by rintro m' rfl; exact hm) fun _ => Triple.update ?_
    rintro m' rfl
    have hfilter : m'.world.store.uiSessions.filter (fun _ record => sessionExpired dates now record != some true) =
        m'.world.store.uiSessions := by
      refine Dict.eq_of_items (List.filter_eq_self.2 fun item hitem => ?_)
      rw [hstore] at hitem
      dsimp only
      rw [hall item hitem]
      rfl
    unfold Holds World.credentials ApiKeyStore.credentials World.updateStore
    dsimp only
    rw [hfilter]
    exact hm

theorem save_holds (hsessions : Unpruned dates now c.uiSessions) : Holding c (save dates now) := by
  have hstr : Holding c (toStr dates now) := by
    refine Triple.bind (pruneExpiredUiSessions_holds hsessions) fun _ => ?_
    refine Triple.bind (Holding.of_leaves pruneBootstrapProof_credentials) fun _ => ?_
    refine Triple.bind (Holding.of_leaves pruneBootstrapExchange_credentials) fun _ => ?_
    exact Triple.read_bind fun m hm => Triple.pure (by rintro m' rfl; exact hm)
  refine Triple.bind hstr fun payload => Holding.of_leaves ?_
  refine Leaves.bind (Leaves.replace fun _ => rfl) fun _ => Leaves.getStore_bind fun store => Leaves.ite ?_ Leaves.pure
  exact Leaves.bind (recordHistoryEvent_credentials _ _ _) fun _ => Leaves.modifyStore fun _ => rfl

/-! ### One record -/

/-- The record that is found stands at the place that is written. -/
theorem findIdx_of_getApiKey {store : ApiKeyStore} {keyId : Codes} {record : ApiKeyRecord}
    (hget : store.getApiKey keyId = some record) :
    ∃ index, store.apiKeys[index]? = some record ∧
      ∀ new, (store.setApiKey keyId new).apiKeys = store.apiKeys.set index new := by
  unfold ApiKeyStore.getApiKey at hget
  rw [List.find?_eq_bind_findIdx?_getElem?] at hget
  obtain ⟨index, hindex, hat⟩ := Option.bind_eq_some_iff.1 hget
  refine ⟨index, hat, fun new => ?_⟩
  unfold ApiKeyStore.setApiKey
  rw [hindex]

theorem setApiKey_credentials (store : ApiKeyStore) (keyId : Codes) (new : ApiKeyRecord) :
    (store.setApiKey keyId new).credentials =
      { store.credentials with apiKeys := (store.setApiKey keyId new).apiKeys } := by
  unfold ApiKeyStore.setApiKey
  split <;> rfl

/-- Writing the record that is there changes nothing, and nothing else does. -/
theorem setApiKey_keys_iff {store : ApiKeyStore} {keyId : Codes} {record new : ApiKeyRecord}
    (hget : store.getApiKey keyId = some record) : (store.setApiKey keyId new).apiKeys = store.apiKeys ↔ new = record := by
  obtain ⟨index, hat, hset⟩ := findIdx_of_getApiKey hget
  obtain ⟨hlt, hrecord⟩ := List.getElem?_eq_some_iff.1 hat
  rw [hset]
  constructor
  · intro hsame
    have hnew : (store.apiKeys.set index new)[index]? = some new := List.getElem?_set_self hlt
    rw [hsame, hat] at hnew
    exact (Option.some.inj hnew).symm
  · rintro rfl
    rw [← hrecord]
    exact List.set_getElem_self hlt

theorem setApiKey_holds {keyId : Codes} {record : ApiKeyRecord} (hget : c.apiKeys.find? (fun r => r.id = keyId) = some record) :
    Holding c (modifyStore fun store => store.setApiKey keyId record) := by
  refine Triple.update fun m hm => ?_
  have hfound : m.world.store.getApiKey keyId = some record := by
    rw [ApiKeyStore.getApiKey, show m.world.store.apiKeys = c.apiKeys from congrArg Credentials.apiKeys hm]
    exact hget
  change (m.world.store.setApiKey keyId record).credentials = c
  rw [setApiKey_credentials, (setApiKey_keys_iff hfound).2 rfl]
  exact hm

theorem getApiKey_of_holds {m : Machine Target World} (h : Holds c m) (keyId : Codes) :
    m.world.store.getApiKey keyId = c.apiKeys.find? fun r => r.id = keyId := by
  rw [ApiKeyStore.getApiKey, show m.world.store.apiKeys = c.apiKeys from congrArg Credentials.apiKeys h]

/-! ### The calls -/

theorem badScopes_iff {scopes : Option (List (Option Codes))} :
    badScopes scopes = true ↔ ∃ error, normalizeScopes scopes = .error error := by
  unfold badScopes
  cases normalizeScopes scopes with
  | ok normalized => simp
  | error error => simp

/-- A key that is refused is not made. -/
theorem createApiKeyRecord_refused {id hash name : Codes} {scopes : Option (List (Option Codes))}
    (h : badScopes scopes = true ∨ blank name = true) :
    Triple (Holds c) (createApiKeyRecord dates now id hash name scopes) (fun _ _ => False) (Holds c) := by
  unfold createApiKeyRecord
  rcases h with hbad | hblank
  · obtain ⟨error, herror⟩ := badScopes_iff.1 hbad
    rw [herror]
    exact Triple.raise_bind fun _ hm => hm
  · refine scopes_bind (fun _ hm => hm) fun normalized _ => ?_
    exact Triple.check (fun _ hm => hm) fun hnot => absurd hblank hnot

theorem updateApiKey_holds {keyId : Codes} {name : Option Codes} {scopes : Option (Option (List (Option Codes)))}
    (h : ∀ record, c.apiKeys.find? (fun r => r.id = keyId) = some record → record.isRevoked = false →
      name.any blank = false → (name.map strip).getD record.name = record.name ∧
        ∀ normalized, (scopes.map normalizeScopes).getD (.ok record.scopes) = .ok normalized →
          normalized = record.scopes ∧ dates.utc now = record.updatedAt ∧ Unpruned dates now c.uiSessions) :
    Holding c (updateApiKey dates now keyId name scopes) := by
  unfold updateApiKey
  refine Triple.read_bind fun m hm => Triple.of_eq hm ?_
  rw [getApiKey_of_holds hm]
  cases hget : c.apiKeys.find? fun r => r.id = keyId with
  | none => exact Triple.raise fun _ h => h
  | some record =>
    refine Triple.check (fun _ h => h) fun hrevoked => Triple.check (fun _ h => h) fun hblank => ?_
    obtain ⟨hname, hrest⟩ := h record hget (by simpa using hrevoked) (Bool.eq_false_iff.2 hblank)
    have hnamed : { record with name := (name.map strip).getD record.name } = record := by rw [hname]
    rw [hnamed]
    refine Triple.bind (setApiKey_holds hget) fun _ => ?_
    have hsave : ∀ (new : ApiKeyRecord) (reason : Codes), new = record → Unpruned dates now c.uiSessions →
        Holding c (do
          modifyStore fun store => store.setApiKey keyId new
          save dates now
          recordHistoryEvent dates now "api_key_updated" reason (keyDetails new)
          return new) := by
      rintro _ reason rfl hsessions
      refine Triple.bind (setApiKey_holds hget) fun _ => Triple.bind (save_holds hsessions) fun _ => ?_
      exact Triple.bind (Holding.of_leaves (recordHistoryEvent_credentials _ _ _)) fun _ => Triple.pure fun _ h => h
    cases scopes with
    | none =>
      obtain ⟨-, htime, hsessions⟩ := hrest record.scopes rfl
      exact hsave _ _ (by rw [htime]) hsessions
    | some given =>
      dsimp only
      cases hgiven : normalizeScopes given with
      | error error => exact Triple.raise_bind fun _ h => h
      | ok normalized =>
        obtain ⟨hscopes, htime, hsessions⟩ := hrest normalized hgiven
        exact hsave _ _ (by rw [htime, hscopes]) hsessions

theorem rotateApiKey_holds {keyId hash : Codes}
    (h : ∀ record, c.apiKeys.find? (fun r => r.id = keyId) = some record → record.isRevoked = false →
      hash = record.secretHash ∧ dates.utc now = record.updatedAt ∧ Unpruned dates now c.uiSessions) :
    Holding c (rotateApiKey dates now keyId hash) := by
  unfold rotateApiKey
  refine Triple.read_bind fun m hm => Triple.of_eq hm ?_
  rw [getApiKey_of_holds hm]
  cases hget : c.apiKeys.find? fun r => r.id = keyId with
  | none => exact Triple.raise fun _ h => h
  | some record =>
    refine Triple.check (fun _ h => h) fun hrevoked => ?_
    obtain ⟨hhash, htime, hsessions⟩ := h record hget (by simpa using hrevoked)
    have hrotated : { record with secretHash := hash, updatedAt := dates.utc now } = record := by rw [hhash, htime]
    rw [hrotated]
    refine Triple.bind (setApiKey_holds hget) fun _ => Triple.bind (save_holds hsessions) fun _ => ?_
    exact Triple.bind (Holding.of_leaves (recordHistoryEvent_credentials _ _ _)) fun _ => Triple.pure fun _ h => h

theorem deleteApiKey_holds {keyId : Codes}
    (h : ∀ record, c.apiKeys.find? (fun r => r.id = keyId) = some record → record.isRevoked = false) :
    Holding c (deleteApiKey dates now keyId) := by
  unfold deleteApiKey
  refine Triple.read_bind fun m hm => Triple.of_eq hm ?_
  rw [getApiKey_of_holds hm]
  cases hget : c.apiKeys.find? fun r => r.id = keyId with
  | none => exact Triple.raise fun _ h => h
  | some record => exact Triple.check (fun _ h => h) fun hrevoked => absurd (by simp [h record hget]) hrevoked

theorem revokeApiKey_holds {keyId : Codes}
    (h : ∀ record, c.apiKeys.find? (fun r => r.id = keyId) = some record → record.isRevoked = true) :
    Holding c (revokeApiKey dates now keyId) := by
  unfold revokeApiKey
  refine Triple.read_bind fun m hm => Triple.of_eq hm ?_
  rw [getApiKey_of_holds hm]
  cases hget : c.apiKeys.find? fun r => r.id = keyId with
  | none => exact Triple.raise fun _ h => h
  | some record => exact Triple.check (fun _ h => h) fun hrevoked => absurd (h record hget) hrevoked

/-- A text is among strings that were all accepted. -/
theorem reduceOption_of_ok {scopes : List (Option Codes)} {normalized result : List Codes}
    (h : scopes.foldlM normalizeScope normalized = .ok result) : scopes.reduceOption.map some = scopes := by
  induction scopes generalizing normalized with
  | nil => rfl
  | cons scope scopes ih =>
    rw [List.foldlM_cons] at h
    obtain ⟨next, hnext, hrest⟩ := ok_of_bind h
    cases scope with
    | none => cases hnext
    | some text =>
      change some text :: scopes.reduceOption.map some = some text :: scopes
      rw [ih hrest]

theorem normalizeScopes_reduceOption {scopes : Option (List (Option Codes))} {normalized : List Codes}
    (h : normalizeScopes scopes = .ok normalized) :
    normalizeScopes (some ((scopes.getD []).reduceOption.map some)) = .ok normalized := by
  cases scopes with
  | none => cases h
  | some scopes =>
    have hall := h
    unfold normalizeScopes at hall
    obtain ⟨result, hfold, -⟩ := ok_of_bind hall
    rw [Option.getD_some, reduceOption_of_ok hfold]
    exact h

theorem createUiSession_holds {secret : Codes} {scopes : List Codes} {bootstrap remembered : Bool}
    {keyId hash : Option Codes} (h : ∀ normalized, normalizeScopes (some (scopes.map some)) = .ok normalized →
      keyId.any blank = false → hash.any blank = false → (bootstrap && remembered) = false →
      c.uiSessions.get secret = some (madeSession dates now secret normalized bootstrap remembered keyId hash) ∧
        Unpruned dates now c.uiSessions) :
    Holding c (createUiSession dates now secret scopes bootstrap remembered keyId hash) := by
  unfold createUiSession
  cases hscopes : normalizeScopes (some (scopes.map some)) with
  | error error => exact Triple.raise_bind fun _ hm => hm
  | ok normalized =>
    let record := madeSession dates now secret normalized bootstrap remembered keyId hash
    have hrest : keyId.any blank = false → hash.any blank = false → (bootstrap && remembered) = false →
        Holding c (do
          modifyStore fun store => { store with uiSessions := store.uiSessions.set secret record }
          pruneExpiredUiSessions dates now
          save dates now
          let reason := if remembered then "remembered_browser_session_created"
            else if bootstrap then "bootstrap_session_created" else "browser_session_created"
          recordHistoryEvent dates now "ui_session_created" (codes reason)
            [(codes "bootstrap", .bool bootstrap), (codes "remembered", .bool remembered),
              (codes "api_key_id", strOption (keyId.map strip)), (codes "scopes", .list (normalized.map Json.str))]
          return record) := by
      intro hkey hhash hflags
      obtain ⟨hget, hsessions⟩ := h normalized hscopes hkey hhash hflags
      refine Triple.bind (Triple.update fun m hm => ?_) fun _ => Triple.bind (pruneExpiredUiSessions_holds hsessions) fun _ =>
        Triple.bind (save_holds hsessions) fun _ =>
          Triple.bind (Holding.of_leaves (recordHistoryEvent_credentials _ _ _)) fun _ => Triple.pure fun _ h => h
      unfold Holds World.credentials ApiKeyStore.credentials World.updateStore
      dsimp only
      have hstore : m.world.store.uiSessions = c.uiSessions := congrArg Credentials.uiSessions hm
      rw [hstore, Dict.set_of_get hget, ← hstore]
      exact hm
    refine Triple.check (fun _ hm => hm) fun hkey => Triple.check (fun _ hm => hm) fun hhash => ?_
    refine Triple.check (fun _ hm => hm) fun hflags => ?_
    exact hrest (Bool.eq_false_iff.2 hkey) (Bool.eq_false_iff.2 hhash) (Bool.eq_false_iff.2 hflags)

theorem canClaimInitialAdmin_credentials (version : Codes) :
    Leaves World.credentials (canClaimInitialAdmin dates digest now version) := by
  have hbeside : Beside World.credentials := ⟨fun _ _ _ _ => rfl, fun _ _ => rfl⟩
  refine Leaves.bind (browserHandoverState_beside now hbeside _ _ _ _) fun state => Leaves.getStore_bind fun store => ?_
  exact Leaves.ite Leaves.pure Leaves.pure

theorem createInitialAdmin_holds {w : World} {outcomes : Target → List Outcome} {version name id hash : Codes}
    (h : blank name = true ∨
      ((canClaimInitialAdmin dates digest now (strip version)).run.run ⟨w, outcomes⟩).1 ≠ .ok true) :
    Triple (fun m => m = ⟨w, outcomes⟩) (createInitialAdminApiKeyIfAvailable dates digest now version name id hash)
      (fun _ => Holds w.credentials) (Holds w.credentials) := by
  unfold createInitialAdminApiKeyIfAvailable
  -- Whether the claim is granted is asked first; it leaves the credentials.
  have hasked : Triple (fun m => m = ⟨w, outcomes⟩) (canClaimInitialAdmin dates digest now (strip version))
      (fun granted m => Holds w.credentials m ∧ (granted = true → blank name = true)) (Holds w.credentials) := by
    rintro m rfl
    have hleaves := @canClaimInitialAdmin_credentials dates digest now (strip version) ⟨w, outcomes⟩
    generalize (canClaimInitialAdmin dates digest now (strip version)).run.run ⟨w, outcomes⟩ = r at hleaves h ⊢
    obtain ⟨stop | granted, m'⟩ := r
    · exact hleaves
    · refine ⟨hleaves, fun hgranted => h.resolve_right fun hne => hne ?_⟩
      rw [hgranted]
  refine Triple.bind hasked fun granted => ?_
  cases granted with
  | false => exact Triple.pure fun m hm => hm.1
  | true =>
    refine Triple.conseq (P := fun m => blank name = true ∧ Holds w.credentials m) (Triple.of_and fun hblank => ?_)
      (fun m hm => ⟨hm.2 rfl, hm.1⟩) (fun _ _ h => h) fun _ h => h
    exact Triple.bind (createApiKeyRecord_refused (.inr hblank)) fun _ => fun _ hs => False.elim hs

/-- A call that is harmless leaves the credentials when it raises. -/
theorem CredentialCall.Harmless.atomic {call : CredentialCall} {w : World} (h : call.Harmless dates digest now w) :
    call.Atomic dates digest now w := by
  intro outcomes error m hrun
  have hkeep : ∀ {α : Type} {program : M α}, call.program dates digest now = discard program →
      Triple (fun m => m = ⟨w, outcomes⟩) program (fun _ => Holds w.credentials) (Holds w.credentials) →
      m.world.credentials.Same w.credentials := by
    intro α program hprogram htriple
    have hlast := htriple.run rfl
    rw [hprogram] at hrun
    have hstate := congrArg Prod.snd hrun
    rw [run_discard] at hstate
    rw [hstate] at hlast
    exact .of_eq hlast
  have hpre : ∀ {α : Type} {program : M α}, Holding w.credentials program → Triple (fun m => m = ⟨w, outcomes⟩) program
      (fun _ => Holds w.credentials) (Holds w.credentials) := fun hholding =>
    hholding.conseq (by rintro m' rfl; rfl) (fun _ _ h => h) fun _ h => h
  cases call with
  | createApiKey id hash name scopes =>
    refine hkeep rfl (hpre (Triple.bind (createApiKeyRecord_refused h) fun _ => ?_))
    exact fun _ hs => False.elim hs
  | updateApiKey keyId name scopes => exact hkeep rfl (hpre (updateApiKey_holds h))
  | deleteApiKey keyId => exact hkeep rfl (hpre (deleteApiKey_holds h))
  | revokeApiKey keyId => exact hkeep rfl (hpre (revokeApiKey_holds h))
  | rotateApiKey keyId hash => exact hkeep rfl (hpre (rotateApiKey_holds h))
  | createUiSession secret scopes bootstrap remembered keyId hash =>
    refine hkeep rfl (hpre ?_)
    unfold createUiSessionOf
    cases hscopes : normalizeScopes scopes with
    | error error => exact Triple.raise fun _ hm => hm
    | ok normalized =>
      cases bootstrap with
      | none => exact Triple.raise fun _ hm => hm
      | some bootstrap =>
        cases remembered with
        | none =>
          dsimp only
          refine Triple.check (fun _ hm => hm) fun _ => Triple.check (fun _ hm => hm) fun _ => ?_
          exact Triple.raise fun _ hm => hm
        | some remembered =>
          refine createUiSession_holds fun normalized' hnormal hkey hhash hflags => ?_
          rw [normalizeScopes_reduceOption hscopes] at hnormal
          cases hnormal
          exact h normalized bootstrap remembered hscopes rfl rfl hkey hhash hflags
  | createInitialAdminApiKeyIfAvailable version name id hash =>
    exact hkeep rfl (createInitialAdmin_holds (h.imp (fun hb => hb) fun hnever => hnever outcomes))

end

end SeedSync.Auth
