import SeedSync.Auth.OneAdministrator
import SeedSync.Auth.Reread

/-!
# Credentials in every state that is reached

Every operation of a store, the start of a process included, keeps the credentials readable, so what
`to_str` writes is read back, and what a call that raises leaves of them.
-/

namespace SeedSync.Auth

open Lib Program

/-! ## What every operation keeps -/

def ClaimRuntimeState.credentials (state : ClaimRuntimeState) : Credentials :=
  ⟨state.apiKeys, state.uiSessions, state.browserHandoverClaimedVersion⟩

/-- The credentials in memory and the copy of a claim transaction are readable. -/
structure World.Sound (w : World) : Prop where
  current : w.credentials.Sound
  copy : ∀ state, w.store.claimTransaction = some state → state.credentials.Sound

/-- The program keeps the credentials readable, also when it raises or the process dies in it. -/
def Kept {α : Type} (program : M α) : Prop := ∀ m, m.world.Sound → (program.run.run m).2.world.Sound

namespace Kept

variable {α β : Type}

/-- What does not touch the credentials and the copy. -/
theorem of_leaves {program : M α} (hcurrent : Leaves World.credentials program)
    (hcopy : Leaves (fun w => w.store.claimTransaction) program) : Kept program := by
  rintro m ⟨hsound, hstate⟩
  refine ⟨by rw [hcurrent m]; exact hsound, fun state h => ?_⟩
  exact hstate state ((hcopy m).symm.trans h)

/-- What does not touch the credentials and has nothing to do with claims. -/
theorem of_frame {program : M α} (hcurrent : Leaves World.credentials program) (hframe : Leaves World.frame program) :
    Kept program := of_leaves hcurrent (hframe.weaken (g := Frame.claimTransaction))

theorem pure {a : α} : Kept (Pure.pure a : M α) := fun _ hm => hm

theorem raise {error : Error} : Kept (Program.raise error : M α) := fun _ hm => hm

theorem bind {program : M α} {f : α → M β} (h : Kept program) (hf : ∀ a, Kept (f a)) : Kept (program >>= f) := by
  intro m hm
  have hprogram := h m hm
  rcases hrun : program.run.run m with ⟨stop | a, m'⟩
  · rw [hrun] at hprogram
    rw [run_bind_of_error hrun]
    exact hprogram
  · rw [hrun] at hprogram
    rw [run_bind_of_ok hrun]
    exact hf a m' hprogram

theorem discard {program : M α} (h : Kept program) : Kept (Functor.discard program) := fun m hm => by
  rw [run_discard]
  exact h m hm

theorem read_bind {g : World → α} {f : α → M β} (hf : ∀ w, w.Sound → Kept (f (g w))) : Kept (Program.read g >>= f) :=
  fun m hm => hf m.world hm m hm

theorem getStore_bind {f : ApiKeyStore → M β} (hf : ∀ w : World, w.Sound → Kept (f w.store)) : Kept (getStore >>= f) :=
  fun m hm => hf m.world hm m hm

theorem modifyStore {g : ApiKeyStore → ApiKeyStore} (h : ∀ w : World, w.Sound → (w.updateStore g).Sound) :
    Kept (Auth.modifyStore g) := fun m hm => h m.world hm

theorem ite {c : Prop} [Decidable c] {a b : M α} (ha : Kept a) (hb : Kept b) : Kept (if c then a else b) := by
  split_ifs
  · exact ha
  · exact hb

theorem guard {c : Prop} [Decidable c] {error : Error} {f : β → M α} {rest : M α} (h : Kept rest) :
    Kept (if c then Program.raise error >>= f else rest) := ite (fun _ hm => hm) h

end Kept

section Operations

variable {dates : DateTimes} {now : Int}

theorem Credentials.Sound.addKey {c : Credentials} (h : c.Sound) {record : ApiKeyRecord} (hscopes : NormalScopes record.scopes) :
    ({ c with apiKeys := c.apiKeys ++ [record] } : Credentials).Sound := by
  refine ⟨fun r hr => ?_, h.sessions, h.keyed⟩
  rcases List.mem_append.1 hr with hr | hr
  · exact h.keys r hr
  · rw [List.mem_singleton.1 hr]
    exact hscopes

theorem Credentials.Sound.setApiKey {c : Credentials} (h : c.Sound) (keyId : Codes) {new : ApiKeyRecord}
    (hscopes : NormalScopes new.scopes) : (c.setApiKey keyId new).Sound := by
  refine ⟨fun r hr => ?_, h.sessions, h.keyed⟩
  unfold Credentials.setApiKey ApiKeyStore.setApiKey at hr
  dsimp only at hr
  split at hr
  · exact h.keys r hr
  · rcases List.mem_or_eq_of_mem_set hr with hr | rfl
    · exact h.keys r hr
    · exact hscopes

theorem Credentials.Sound.withSession {c : Credentials} (h : c.Sound) {record : UiSessionRecord}
    (hscopes : NormalScopes record.scopes) : (c.withSession record.secret record).Sound := by
  have hmem : ∀ item ∈ (c.uiSessions.set record.secret record).items,
      (item.1 = record.secret ∧ item.2 = record) ∨ item ∈ c.uiSessions.items := by
    intro item hitem
    rcases Dict.eq_or_of_get_set ((Dict.get_eq_some _ item.1 item.2).2 hitem) with ⟨hkey, hvalue⟩ | hold
    · exact .inl ⟨hkey, hvalue⟩
    · exact .inr ((Dict.get_eq_some _ item.1 item.2).1 hold)
  refine ⟨h.keys, fun item hitem => ?_, fun item hitem => ?_⟩
  · rcases hmem item hitem with ⟨-, hvalue⟩ | hold
    · rw [hvalue]
      exact hscopes
    · exact h.sessions item hold
  · rcases hmem item hitem with ⟨hkey, hvalue⟩ | hold
    · rw [hkey, hvalue]
    · exact h.keyed item hold

/-! ### Sessions -/

theorem recordHistoryEvent_kept (event : String) (reason : Codes) (details : List (Codes × Json)) :
    Kept (recordHistoryEvent dates now event reason details) :=
  .of_frame (recordHistoryEvent_credentials event reason details) (recordHistoryEvent_frame now event reason details)

theorem clearBootstrapProof_kept (reason : Codes) : Kept (clearBootstrapProof dates now reason) :=
  .of_frame (clearBootstrapProof_credentials reason) (clearBootstrapProof_frame now reason)

theorem clearBootstrapExchange_kept (reason : Codes) : Kept (clearBootstrapExchange dates now reason) :=
  .of_frame (clearBootstrapExchange_credentials reason) (clearBootstrapExchange_frame now reason)

theorem pruneBootstrapProof_kept : Kept (pruneBootstrapProof dates now) :=
  .of_frame pruneBootstrapProof_credentials (pruneBootstrapProof_frame now)

theorem pruneBootstrapExchange_kept : Kept (pruneBootstrapExchange dates now) :=
  .of_frame pruneBootstrapExchange_credentials (pruneBootstrapExchange_frame now)

theorem filterSessions_kept (p : Codes → UiSessionRecord → Bool) :
    Kept (modifyStore fun store => { store with uiSessions := store.uiSessions.filter p }) :=
  .modifyStore fun _ h => ⟨h.current.filter p, h.copy⟩

theorem pruneExpiredUiSessions_kept : Kept (pruneExpiredUiSessions dates now) :=
  .getStore_bind fun _ _ => .guard (filterSessions_kept _)

theorem save_kept : Kept (save dates now) := by
  have htoStr : Kept (toStr dates now) := .bind pruneExpiredUiSessions_kept fun _ => .bind pruneBootstrapProof_kept fun _ =>
    .bind pruneBootstrapExchange_kept fun _ => .getStore_bind fun _ _ => .pure
  refine .bind htoStr fun payload => .bind (.of_leaves (Leaves.replace fun _ => rfl) (Leaves.replace fun _ => rfl)) fun _ => ?_
  refine .getStore_bind fun _ _ => .ite ?_ .pure
  exact .bind (recordHistoryEvent_kept _ _ _) fun _ => .modifyStore fun _ h => ⟨h.current, h.copy⟩

/-- Scopes are normal or the program raises. -/
theorem scopes_kept {α : Type} {scopes : Option (List (Option Codes))} {f : List Codes → M α}
    (h : ∀ normalized, NormalScopes normalized → Kept (f normalized)) :
    Kept (match normalizeScopes scopes with
      | .ok normalized => pure normalized >>= f
      | .error error => Program.raise error >>= f) := by
  cases hnormal : normalizeScopes scopes with
  | ok normalized => exact h normalized (normalScopes_of_ok hnormal)
  | error error => exact fun _ hm => hm

theorem createUiSession_kept (secret : Codes) (scopes : List Codes) (bootstrap remembered : Bool) (keyId hash : Option Codes) :
    Kept (createUiSession dates now secret scopes bootstrap remembered keyId hash) := by
  refine scopes_kept fun normalized hnormal => .guard (.guard (.guard ?_))
  refine .bind (.modifyStore fun w h => ⟨?_, h.copy⟩) fun _ => .bind pruneExpiredUiSessions_kept fun _ =>
    .bind save_kept fun _ => .bind (recordHistoryEvent_kept _ _ _) fun _ => .pure
  have hscopes : NormalScopes (madeSession dates now secret normalized bootstrap remembered keyId hash).scopes := hnormal
  exact h.current.withSession hscopes

theorem createUiSessionOf_kept (secret : Codes) (scopes : Option (List (Option Codes))) (bootstrap remembered : Option Bool)
    (keyId hash : Option Codes) : Kept (createUiSessionOf dates now secret scopes bootstrap remembered keyId hash) := by
  unfold createUiSessionOf
  cases normalizeScopes scopes with
  | error error => exact .raise
  | ok normalized =>
    cases bootstrap with
    | none => exact .raise
    | some bootstrap =>
      cases remembered with
      | none => exact .guard (.guard .raise)
      | some remembered => exact createUiSession_kept secret _ bootstrap remembered keyId hash

theorem createBrowserSessionForApiKey_kept (secret keyId : Codes) (remembered : Bool) :
    Kept (createBrowserSessionForApiKey dates now secret keyId remembered) := by
  refine .guard (.getStore_bind fun w _ => ?_)
  cases w.store.getApiKey keyId with
  | none => exact .raise
  | some record => exact .guard (createUiSession_kept _ _ _ _ _ _)

theorem discardBrowserSessionsForApiKey_kept (keyId : Codes) (reason : String) :
    Kept (discardBrowserSessionsForApiKey dates now keyId reason) :=
  .getStore_bind fun _ _ => .bind (filterSessions_kept _) fun _ => .bind (recordHistoryEvent_kept _ _ _) fun _ => .pure

theorem findUiSessionBySecret_kept (secret : Codes) : Kept (findUiSessionBySecret dates now secret) :=
  .bind pruneExpiredUiSessions_kept fun _ => .getStore_bind fun _ _ => .pure

theorem invalidateUiSession_kept (secret : Codes) : Kept (invalidateUiSession dates now secret) :=
  .ite .pure (.getStore_bind fun _ _ => .ite (.bind (filterSessions_kept _) fun _ => save_kept) .pure)

/-! ### Keys -/

theorem createApiKeyRecord_kept (id hash name : Codes) (scopes : Option (List (Option Codes))) :
    Kept (createApiKeyRecord dates now id hash name scopes) :=
  scopes_kept fun _ hnormal => .guard (.bind (.modifyStore fun _ h => ⟨h.current.addKey hnormal, h.copy⟩) fun _ => .pure)

theorem createApiKey_kept (id hash name : Codes) (scopes : Option (List (Option Codes))) :
    Kept (createApiKey dates now id hash name scopes) := by
  refine .bind (createApiKeyRecord_kept _ _ _ _) fun record => ?_
  have hrest : Kept (do
      save dates now
      recordHistoryEvent dates now "api_key_created" (codes "create_api_key") (keyDetails record)
      return record) := .bind save_kept fun _ => .bind (recordHistoryEvent_kept _ _ _) fun _ => .pure
  exact .ite (.bind (clearBootstrapProof_kept _) fun _ => .bind (clearBootstrapExchange_kept _) fun _ => hrest) hrest

theorem setApiKey_kept (keyId : Codes) {new : ApiKeyRecord} (hscopes : NormalScopes new.scopes) :
    Kept (modifyStore fun store => store.setApiKey keyId new) := by
  refine .modifyStore fun w h => ⟨?_, fun state hstate => h.copy state ?_⟩
  · have hset := h.current.setApiKey keyId hscopes
    rwa [World.credentials, ← credentials_setApiKey] at hset
  · rwa [World.updateStore, (setApiKey_uiSessions w.store keyId new).2.2] at hstate

theorem World.Sound.scopes {w : World} (h : w.Sound) {keyId : Codes} {record : ApiKeyRecord}
    (hget : w.store.getApiKey keyId = some record) : NormalScopes record.scopes :=
  h.current.keys record (of_getApiKey hget).1

theorem updateApiKey_kept (keyId : Codes) (name : Option Codes) (scopes : Option (Option (List (Option Codes)))) :
    Kept (updateApiKey dates now keyId name scopes) := by
  refine .getStore_bind fun w hw => ?_
  cases hget : w.store.getApiKey keyId with
  | none => exact .raise
  | some record =>
    have hscopes := hw.scopes hget
    refine .guard (.guard (.bind (setApiKey_kept keyId (by exact hscopes)) fun _ => ?_))
    have hrest : ∀ (new : ApiKeyRecord) (reason : Codes), NormalScopes new.scopes → Kept (do
        modifyStore fun store => store.setApiKey keyId new
        save dates now
        recordHistoryEvent dates now "api_key_updated" reason (keyDetails new)
        return new) := fun new reason hnew =>
      .bind (setApiKey_kept keyId hnew) fun _ => .bind save_kept fun _ => .bind (recordHistoryEvent_kept _ _ _) fun _ => .pure
    cases scopes with
    | none => exact hrest _ _ hscopes
    | some given =>
      dsimp only
      cases hgiven : normalizeScopes given with
      | error error => exact fun _ hm => hm
      | ok normalized => exact hrest _ _ (normalScopes_of_ok hgiven)

theorem deleteApiKey_kept (keyId : Codes) : Kept (deleteApiKey dates now keyId) := by
  refine .getStore_bind fun w _ => ?_
  cases w.store.getApiKey keyId with
  | none => exact .raise
  | some record =>
    refine .guard (.bind (discardBrowserSessionsForApiKey_kept _ _) fun _ => .bind (.modifyStore fun w h => ⟨?_, h.copy⟩) fun _ =>
      .bind save_kept fun _ => .bind (recordHistoryEvent_kept _ _ _) fun _ => .pure)
    exact ⟨fun r hr => h.current.keys r (List.mem_of_mem_erase hr), h.current.sessions, h.current.keyed⟩

theorem revokeApiKey_kept (keyId : Codes) : Kept (revokeApiKey dates now keyId) := by
  refine .getStore_bind fun w hw => ?_
  cases hget : w.store.getApiKey keyId with
  | none => exact .raise
  | some record =>
    have hscopes := hw.scopes hget
    refine .guard (.bind (setApiKey_kept keyId (by exact hscopes)) fun _ => ?_)
    exact .bind (discardBrowserSessionsForApiKey_kept _ _) fun _ => .bind save_kept fun _ =>
      .bind (recordHistoryEvent_kept _ _ _) fun _ => .pure

theorem rotateApiKey_kept (keyId hash : Codes) : Kept (rotateApiKey dates now keyId hash) := by
  refine .getStore_bind fun w hw => ?_
  cases hget : w.store.getApiKey keyId with
  | none => exact .raise
  | some record =>
    have hscopes := hw.scopes hget
    refine .guard (.bind (setApiKey_kept keyId (by exact hscopes)) fun _ => .bind save_kept fun _ => ?_)
    exact .bind (recordHistoryEvent_kept _ _ _) fun _ => .pure

/-! ### Bootstrap secrets -/

theorem ensureBootstrapProof_kept (secret : Codes) : Kept (ensureBootstrapProof dates now secret) := by
  refine .bind pruneBootstrapProof_kept fun _ => .bind pruneBootstrapExchange_kept fun _ => .getStore_bind fun _ _ => ?_
  refine .ite ?_ (.ite ?_ (.getStore_bind fun _ _ => .pure))
  · exact .bind (clearBootstrapProof_kept _) fun _ => .bind (clearBootstrapExchange_kept _) fun _ => .pure
  · exact .bind (.modifyStore fun _ h => ⟨h.current, h.copy⟩) fun _ => .bind (recordHistoryEvent_kept _ _ _) fun _ =>
      .getStore_bind fun _ _ => .pure

theorem ensureBootstrapExchange_kept (secret : Codes) : Kept (ensureBootstrapExchange dates now secret) := by
  refine .bind pruneBootstrapExchange_kept fun _ => .getStore_bind fun _ _ => ?_
  refine .ite (.bind (clearBootstrapExchange_kept _) fun _ => .pure) (.ite ?_ (.getStore_bind fun _ _ => .pure))
  exact .bind (.modifyStore fun _ h => ⟨h.current, h.copy⟩) fun _ => .bind (recordHistoryEvent_kept _ _ _) fun _ =>
    .getStore_bind fun _ _ => .pure

theorem peekBootstrapProof_kept (secret : Codes) : Kept (peekBootstrapProof dates now secret) := by
  refine .ite .pure (.bind pruneBootstrapProof_kept fun _ => .getStore_bind fun w _ => ?_)
  cases w.store.bootstrapProof with
  | none => exact .pure
  | some proof => exact .pure

theorem peekBootstrapExchange_kept (secret : Codes) : Kept (peekBootstrapExchange dates now secret) := by
  refine .ite .pure (.bind pruneBootstrapExchange_kept fun _ => .getStore_bind fun w _ => ?_)
  cases w.store.bootstrapExchange with
  | none => exact .pure
  | some exchange => exact .pure

theorem consumeBootstrapProof_kept (secret : Codes) : Kept (consumeBootstrapProof dates now secret) :=
  .bind (peekBootstrapProof_kept secret) fun _ => .ite .pure (.bind (.modifyStore fun _ h => ⟨h.current, h.copy⟩) fun _ =>
    .bind (recordHistoryEvent_kept _ _ _) fun _ => .pure)

theorem consumeBootstrapExchange_kept (secret : Codes) : Kept (consumeBootstrapExchange dates now secret) :=
  .bind (peekBootstrapExchange_kept secret) fun _ => .ite .pure (.bind (.modifyStore fun _ h => ⟨h.current, h.copy⟩) fun _ =>
    .bind (recordHistoryEvent_kept _ _ _) fun _ => .pure)

/-! ### Loading -/

theorem scopes_of_loadUiSession {value : Json} {session : UiSessionRecord} (h : loadUiSession value = some session) :
    NormalScopes session.scopes := by
  cases value with
  | obj fields =>
    simp only [loadUiSession, Option.bind_eq_bind, Option.bind_eq_some_iff, pure, Option.some.injEq] at h
    obtain ⟨_, -, _, -, _, -, _, -, _, -, scopes, hscopes, _, -, _, -, rfl⟩ := h
    exact normalScopes_of_scopesField hscopes
  | _ => cases h

theorem sessionDict_keyed {sessions : List UiSessionRecord} {item : Codes × UiSessionRecord}
    (h : item ∈ (sessionDict sessions).items) : item.2.secret = item.1 := by
  have hofList : sessionDict sessions = Dict.ofList (sessions.map fun session => (session.secret, session)) := by
    rw [sessionDict, Dict.ofList, List.foldl_map]
  rw [hofList] at h
  obtain ⟨session, -, heq⟩ := List.mem_map.1 (Dict.get_ofList_mem ((Dict.get_eq_some _ item.1 item.2).2 h))
  rw [← (Prod.mk.inj heq).1, ← (Prod.mk.inj heq).2]

/-- Whatever the file, what is loaded of it is readable. -/
theorem fromStr_sound {value : Json} {store : ApiKeyStore} (h : fromStr value = some store) :
    store.credentials.Sound ∧ store.claimTransaction = none := by
  cases value with
  | obj fields =>
    simp only [fromStr, Option.bind_eq_bind, Option.bind_eq_some_iff] at h
    obtain ⟨version, -, h⟩ := h
    split_ifs at h
    · cases h
    simp only [pure, Option.bind_eq_some_iff, Option.some.injEq] at h
    obtain ⟨claimed, -, items, -, keys, hkeys, sessionItems, -, sessions, hsessions, rfl⟩ := h
    refine ⟨⟨fun record hmem => ?_, fun item hitem => ?_, fun item hitem => sessionDict_keyed hitem⟩, rfl⟩
    · obtain ⟨value, -, hload⟩ := mem_of_mapM hkeys record hmem
      exact (of_loadApiKey hload).2
    · obtain ⟨value, -, hload⟩ := mem_of_mapM hsessions item.2 (mem_sessionDict hitem)
      exact scopes_of_loadUiSession hload
  | _ => cases h

theorem load_kept (backupPath : Codes) : Kept (load dates now backupPath) := by
  have hfresh : Kept (modifyStore fun _ => {}) := .modifyStore fun _ _ =>
    ⟨⟨fun _ h => absurd h List.not_mem_nil, fun _ h => absurd h List.not_mem_nil, fun _ h => absurd h List.not_mem_nil⟩,
      fun _ h => by cases h⟩
  refine .read_bind fun w _ => ?_
  dsimp only [id]
  cases w.files.store with
  | none => exact hfresh
  | some doc =>
    dsimp only
    cases hload : fromStr doc.value with
    | none => exact .bind hfresh fun _ => recordHistoryEvent_kept _ _ _
    | some store =>
      obtain ⟨hsound, hnone⟩ := fromStr_sound hload
      refine .bind (.modifyStore fun _ _ => ⟨hsound, fun state hstate => ?_⟩) fun _ => recordHistoryEvent_kept _ _ _
      rw [show store.claimTransaction = some state from hstate] at hnone
      cases hnone

theorem restart_kept (binding : Option TransitionBinding) (bound backupPath : Codes) :
    Kept (restart dates now binding bound backupPath) :=
  .bind (load_kept backupPath) fun _ => .modifyStore fun _ h => ⟨h.current, h.copy⟩

/-! ### Claims -/

variable {digest : Codes → Codes} {bindingVersion : TransitionBinding → Codes}

theorem browserHandoverState_kept (version : Codes) (config : HandoverConfig) (activate reopenInitial : Bool) :
    Kept (browserHandoverState dates digest now version config activate reopenInitial) :=
  .of_leaves (browserHandoverState_beside now ⟨fun _ _ _ _ => rfl, fun _ _ => rfl⟩ version config activate reopenInitial)
    (browserHandoverState_beside now ⟨fun _ _ _ _ => rfl, fun _ _ => rfl⟩ version config activate reopenInitial)

theorem getBrowserHandoverState_kept (config : HandoverConfig) :
    Kept (getBrowserHandoverState dates digest now bindingVersion config) :=
  .getStore_bind fun _ _ => browserHandoverState_kept _ _ _ _

theorem activateBrowserHandover_kept (config : HandoverConfig) :
    Kept (activateBrowserHandover dates digest now bindingVersion config) :=
  .getStore_bind fun _ _ => .bind (.modifyStore fun _ h => ⟨h.current, h.copy⟩) fun _ => browserHandoverState_kept _ _ _ _

theorem createInitialAdmin_kept (version name id hash : Codes) :
    Kept (createInitialAdminApiKeyIfAvailable dates digest now version name id hash) := by
  have hasked : Kept (canClaimInitialAdmin dates digest now (strip version)) :=
    .bind (browserHandoverState_kept _ _ _ _) fun _ => .getStore_bind fun _ _ => .ite .pure .pure
  refine .bind hasked fun granted => .ite .pure (.bind (createApiKeyRecord_kept _ _ _ _) fun record => ?_)
  refine .bind (.modifyStore fun w h => ?_) fun _ => .bind (clearBootstrapProof_kept _) fun _ =>
    .bind (clearBootstrapExchange_kept _) fun _ => .bind save_kept fun _ => .getStore_bind fun _ _ => ?_
  · unfold World.updateStore
    dsimp only
    split_ifs
    · exact ⟨⟨h.current.keys, h.current.sessions, h.current.keyed⟩, h.copy⟩
    · exact h
  · refine .ite (.bind (.of_leaves ?_ ?_) fun _ => ?_) ?_
    · exact finalizeBrowserHandoverClaim_beside ⟨fun _ _ _ _ => rfl, fun _ _ => rfl⟩ _
    · exact finalizeBrowserHandoverClaim_beside ⟨fun _ _ _ _ => rfl, fun _ _ => rfl⟩ _
    · exact .bind (recordHistoryEvent_kept _ _ _) fun _ => .pure
    · exact .bind (recordHistoryEvent_kept _ _ _) fun _ => .pure

theorem Leaves.forM {γ : Type} {f : World → γ} {g : Target → M PUnit} (h : ∀ target, Leaves f (g target))
    (order : List Target) : Leaves f (order.forM g) := by
  induction order with
  | nil => exact Leaves.pure
  | cons target order ih => exact Leaves.bind (h target) fun _ => ih

/-- A recovery is of files. -/
theorem recoverCompletedMigrationClaimJournal_store (order : List Target) :
    Leaves World.store (recoverCompletedMigrationClaimJournal order) := by
  refine Leaves.read_bind fun w => ?_
  dsimp only [id]
  cases w.files.journal with
  | none => exact Leaves.pure
  | some journal =>
    have hclear : Leaves World.store clearCompletedMigrationClaimJournal :=
      Leaves.read_bind fun w => Leaves.guard (Leaves.replace fun _ => rfl)
    have hrestore : ∀ target, Leaves World.store (restoreArtifact journal target) := fun target =>
      Leaves.read_bind fun w => Leaves.ite Leaves.pure (Leaves.replace fun _ => rfl)
    refine Leaves.rescue (Leaves.ite (Leaves.bind hclear fun _ => Leaves.pure) ?_) fun _ => Leaves.raise
    exact Leaves.bind (Leaves.forM hrestore order) fun _ => Leaves.bind (Leaves.replace fun _ => rfl) fun _ => Leaves.pure

theorem Kept.of_store {α : Type} {program : M α} (h : Leaves World.store program) : Kept program :=
  .of_leaves (h.weaken (g := ApiKeyStore.credentials)) (h.weaken (g := ApiKeyStore.claimTransaction))

theorem beginCompletedMigrationClaimTransaction_kept : Kept beginCompletedMigrationClaimTransaction := by
  have hjournal : Leaves World.store beginCompletedMigrationClaimJournal :=
    Leaves.read_bind fun w => Leaves.guard (Leaves.guard (Leaves.replace fun _ => rfl))
  refine .getStore_bind fun _ _ => .ite .pure (.guard (.bind (.of_store hjournal) fun _ => ?_))
  refine .bind (.modifyStore fun w h => ⟨h.current, fun state hstate => ?_⟩) fun _ => .pure
  cases hstate
  exact h.current

theorem abortCompletedMigrationClaimTransaction_kept (order : List Target) :
    Kept (abortCompletedMigrationClaimTransaction order) := by
  refine .getStore_bind fun w hw => ?_
  cases hstate : w.store.claimTransaction with
  | none => exact .pure
  | some state =>
    refine .bind (.of_store (recoverCompletedMigrationClaimJournal_store order)) fun _ => .modifyStore fun _ _ => ?_
    exact ⟨hw.copy state hstate, fun _ h => by cases h⟩

theorem completeCompletedMigrationClaimTransition_kept (keyId version : Codes) :
    Kept (completeCompletedMigrationClaimTransition keyId version) := by
  have hvalidate : ∀ version, Leaves World.store (validateCompletedMigrationClaimTransition version) := fun version =>
    Leaves.read_bind fun w => Leaves.ite Leaves.pure (Leaves.guard (Leaves.ite Leaves.raise Leaves.pure))
  have hmarker : ∀ payload, Leaves World.store (writeCompletedMigrationClaimMarker payload) := fun payload =>
    Leaves.guard (Leaves.replace fun _ => rfl)
  refine .getStore_bind fun w _ => ?_
  cases w.store.transitionBinding with
  | none => exact .pure
  | some binding =>
    refine .bind (.of_store (hvalidate _)) fun _ => ?_
    cases w.store.getApiKey keyId with
    | none => exact .raise
    | some record =>
      exact .guard (.bind (.of_store (hmarker _)) fun _ => .modifyStore fun _ h => ⟨h.current, h.copy⟩)

theorem finishCompletedMigrationClaimTransaction_kept : Kept finishCompletedMigrationClaimTransaction := by
  have hcommit : Leaves World.store commitCompletedMigrationClaimJournal := by
    refine Leaves.read_bind fun w => ?_
    dsimp only [id]
    cases w.files.journal with
    | none => exact Leaves.raise
    | some journal => exact Leaves.guard (Leaves.replace fun _ => rfl)
  refine .getStore_bind fun _ _ => .guard (.bind (.of_store hcommit) fun _ => ?_)
  refine .bind (.modifyStore fun _ h => ⟨h.current, fun _ hstate => by cases hstate⟩) fun _ => .of_store ?_
  refine Leaves.rescue (Leaves.read_bind fun w => Leaves.guard (Leaves.replace fun _ => rfl)) fun error => ?_
  cases error with
  | os => exact Leaves.pure
  | value message => exact Leaves.raise
  | type => exact Leaves.raise
  | key => exact Leaves.raise

end Operations

/-! ## Every state that is reached -/

/-- An operation of a process that runs, or its start -/
inductive StoreOp where
  | call (made : CredentialCall)
  | handover (op : HandoverOp)
  | beginClaim
  | completeClaim (keyId version : Codes)
  | finishClaim
  | abortClaim (order : List Target)

section

variable (dates : DateTimes) (digest : Codes → Codes) (bindingVersion : TransitionBinding → Codes)

def StoreOp.program (now : Int) : StoreOp → M Unit
  | .call made => made.program dates digest now
  | .handover op => discard (op.program dates digest bindingVersion now)
  | .beginClaim => discard beginCompletedMigrationClaimTransaction
  | .completeClaim keyId version => completeCompletedMigrationClaimTransition keyId version
  | .finishClaim => finishCompletedMigrationClaimTransaction
  | .abortClaim order => abortCompletedMigrationClaimTransaction order

/-- Operations in any order, whose steps on the files end in any way; the files may change between them. -/
inductive Reached : World → Prop where
  | start (files : Files) : Reached { files := files }
  | files {w : World} (h : Reached w) (files : Files) : Reached { w with files := files }
  | step {w : World} (h : Reached w) (op : StoreOp) (now : Int) (outcomes : Target → List Outcome) :
    Reached ((op.program dates digest bindingVersion now).run.run ⟨w, outcomes⟩).2.world

variable {dates digest bindingVersion}

theorem CredentialCall.program_kept (now : Int) (call : CredentialCall) : Kept (call.program dates digest now) := by
  cases call with
  | createApiKey id hash name scopes => exact (createApiKey_kept _ _ _ _).discard
  | updateApiKey keyId name scopes => exact (updateApiKey_kept _ _ _).discard
  | deleteApiKey keyId => exact (deleteApiKey_kept _).discard
  | revokeApiKey keyId => exact (revokeApiKey_kept _).discard
  | rotateApiKey keyId hash => exact (rotateApiKey_kept _ _).discard
  | createUiSession secret scopes bootstrap remembered keyId hash => exact (createUiSessionOf_kept _ _ _ _ _ _).discard
  | createInitialAdminApiKeyIfAvailable version name id hash => exact (createInitialAdmin_kept _ _ _ _).discard

theorem liveOp_kept (now : Int) (op : LiveOp) : Kept (op.1.program dates now) := by
  obtain ⟨op, hlive⟩ := op
  cases op with
  | createApiKey id hash name scopes => exact (createApiKey_kept _ _ _ _).discard
  | updateApiKey keyId name scopes => exact (updateApiKey_kept _ _ _).discard
  | deleteApiKey keyId => exact (deleteApiKey_kept _).discard
  | revokeApiKey keyId => exact (revokeApiKey_kept _).discard
  | rotateApiKey keyId hash => exact (rotateApiKey_kept _ _).discard
  | createUiSession secret scopes remembered keyId hash => exact (createUiSession_kept _ _ _ _ _ _).discard
  | createBrowserSession secret keyId remembered => exact (createBrowserSessionForApiKey_kept _ _ _).discard
  | findUiSession secret => exact (findUiSessionBySecret_kept _).discard
  | invalidateUiSession secret => exact invalidateUiSession_kept _
  | ensureProof secret => exact (ensureBootstrapProof_kept _).discard
  | peekProof secret => exact (peekBootstrapProof_kept _).discard
  | consumeProof secret => exact (consumeBootstrapProof_kept _).discard
  | clearProof reason => exact clearBootstrapProof_kept _
  | ensureExchange secret => exact (ensureBootstrapExchange_kept _).discard
  | peekExchange secret => exact (peekBootstrapExchange_kept _).discard
  | consumeExchange secret => exact (consumeBootstrapExchange_kept _).discard
  | clearExchange reason => exact clearBootstrapExchange_kept _
  | save => exact save_kept
  | reload backupPath => exact absurd rfl (hlive backupPath)

theorem HandoverOp.program_kept (now : Int) (op : HandoverOp) : Kept (op.program dates digest bindingVersion now) := by
  cases op with
  | restart binding bound backupPath => exact .bind (restart_kept _ _ _) fun _ => .pure
  | activate config => exact .bind (activateBrowserHandover_kept _) fun _ => .pure
  | query config => exact .bind (getBrowserHandoverState_kept _) fun _ => .pure
  | claim version name id hash => exact .bind (createInitialAdmin_kept _ _ _ _) fun _ => .pure
  | credential op => exact .bind (liveOp_kept now op) fun _ => .pure

theorem StoreOp.program_kept (now : Int) (op : StoreOp) : Kept (op.program dates digest bindingVersion now) := by
  cases op with
  | call made => exact made.program_kept now
  | handover op => exact (op.program_kept now).discard
  | beginClaim => exact beginCompletedMigrationClaimTransaction_kept.discard
  | completeClaim keyId version => exact completeCompletedMigrationClaimTransition_kept _ _
  | finishClaim => exact finishCompletedMigrationClaimTransaction_kept
  | abortClaim order => exact abortCompletedMigrationClaimTransaction_kept order

theorem Reached.sound {w : World} (h : Reached dates digest bindingVersion w) : w.Sound := by
  induction h with
  | start files =>
    exact ⟨⟨fun _ h => absurd h List.not_mem_nil, fun _ h => absurd h List.not_mem_nil, fun _ h => absurd h List.not_mem_nil⟩,
      fun _ h => by cases h⟩
  | files h files ih => exact ⟨ih.current, ih.copy⟩
  | step h op now outcomes ih => exact op.program_kept now ⟨_, outcomes⟩ ih

end

/-- A call that raises leaves the credentials exactly if it is harmless; the credentials of every state that is
reached are read back exactly if they can be. Texts are those of Python. -/
theorem failed_calls (dates : DateTimes) (digest : Codes → Codes) (bindingVersion : TransitionBinding → Codes) (now : Int)
    (w : World) :
    (∀ call : CredentialCall, call.Atomic dates digest now w ↔ call.Harmless dates digest now w) ∧
    (Reached dates digest bindingVersion w → (∀ text ∈ w.credentials.texts, IsText text) →
      (RoundTrips dates now w ↔ Reloadable dates now w.credentials)) :=
  ⟨fun _ => CredentialCall.atomic_iff, fun hreached htexts => roundTrips_iff hreached.sound.current htexts⟩

set_option maxRecDepth 10000

/-- A process that has loaded a store -/
def startedWorld : World :=
  ((StoreOp.program newYearDates id (fun _ => []) 0 (.handover (.restart none [] []))).run.run
    ⟨{ files := sampleWorld.files }, fun _ => []⟩).2.world

theorem started_reread : RoundTrips newYearDates 0 startedWorld :=
  ((failed_calls newYearDates id (fun _ => []) 0 startedWorld).2 (.step (.start _) _ _ _) (by decide +kernel)).2
    ⟨by decide +kernel, by decide +kernel⟩

/-- A name and no scopes: the call is refused, and the key has the new name. -/
theorem refused_update_renames :
    ¬ (CredentialCall.updateApiKey (sampleKeyId 1) (some (codes "renamed")) (some (some []))).Atomic newYearDates id 0
      sampleWorld := by
  intro h
  have hsame := h (fun _ => []) (.value "API key scopes cannot be empty") _ (Prod.ext rfl rfl)
  have hnames := congrArg (List.map ApiKeyRecord.name) hsame.apiKeys
  revert hnames
  decide +kernel

end SeedSync.Auth
