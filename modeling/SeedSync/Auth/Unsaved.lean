import SeedSync.Auth.FailedCalls

/-!
# Calls whose save fails

What a call leaves in memory when the replacement of the store file raises, from the credentials it
starts with.
-/

namespace SeedSync.Auth

open Lib Program

/-! ## A machine that cannot save -/

/-- The next replacement of the store file raises; the history is written as it should be. -/
structure Failing (m : Machine Target World) : Prop where
  store : m.outcomes .store = [.fails]
  history : m.outcomes .history = []

variable {P Q R : Credentials → Prop}

/-- The program returns where the history is written, and the credentials go from `P` to `Q`. -/
def Passes {α : Type} (P : Credentials → Prop) (program : M α) (Q : Credentials → Prop) : Prop :=
  ∀ m, m.outcomes .history = [] → P m.world.credentials →
    ∃ a m', program.run.run m = (.ok a, m') ∧ m'.outcomes = m.outcomes ∧ Q m'.world.credentials

/-- The program raises on a machine that cannot save. -/
def Fails {α : Type} (P : Credentials → Prop) (program : M α) (Q : Credentials → Prop) : Prop :=
  ∀ m, Failing m → P m.world.credentials → ∃ error m', program.run.run m = (.error (.raised error), m') ∧
    Q m'.world.credentials

namespace Passes

variable {α β : Type}

theorem pure {a : α} : Passes P (Pure.pure a) P := fun m _ hP => ⟨a, m, rfl, rfl, hP⟩

theorem bind {program : M α} {f : α → M β} (h : Passes P program Q) (hf : ∀ a, Passes Q (f a) R) :
    Passes P (program >>= f) R := by
  intro m hm hP
  obtain ⟨a, m', hrun, houtcomes, hQ⟩ := h m hm hP
  obtain ⟨b, m'', hrest, hlast, hR⟩ := hf a m' (houtcomes ▸ hm) hQ
  exact ⟨b, m'', (run_bind_of_ok hrun f).trans hrest, hlast.trans houtcomes, hR⟩

theorem weaken {P' : Credentials → Prop} {program : M α} (hP : ∀ c, P' c → P c) (h : Passes P program Q) :
    Passes P' program Q := fun m hm hP' => h m hm (hP _ hP')

theorem modifyStore {f : ApiKeyStore → ApiKeyStore} (h : ∀ store, P store.credentials → Q (f store).credentials) :
    Passes P (Auth.modifyStore f) Q := fun m _ hP => ⟨(), _, rfl, rfl, h m.world.store hP⟩

theorem getStore_bind {f : ApiKeyStore → M α} (h : ∀ store, P store.credentials → Passes P (f store) Q) :
    Passes P (getStore >>= f) Q := fun m hm hP => h m.world.store hP m hm hP

theorem ite {c : Prop} [Decidable c] {a b : M α} (ha : Passes P a Q) (hb : Passes P b Q) :
    Passes P (if c then a else b) Q := by
  split_ifs
  · exact ha
  · exact hb

end Passes

namespace Fails

variable {α β : Type}

theorem weaken {P' : Credentials → Prop} {program : M α} (hP : ∀ c, P' c → P c) (h : Fails P program Q) :
    Fails P' program Q := fun m hm hP' => h m hm (hP _ hP')

theorem raise {error : Error} : Fails P (Program.raise error : M α) P := fun m _ hP => ⟨error, m, rfl, hP⟩

theorem bind {program : M α} {f : α → M β} (h : Fails P program Q) : Fails P (program >>= f) Q := by
  intro m hm hP
  obtain ⟨error, m', hrun, hQ⟩ := h m hm hP
  exact ⟨error, m', run_bind_of_error hrun f, hQ⟩

/-- A first part returns and the rest raises. -/
theorem after {program : M α} {f : α → M β} (h : Passes P program Q) (hf : ∀ a, Fails Q (f a) R) :
    Fails P (program >>= f) R := by
  intro m hm hP
  obtain ⟨a, m', hrun, houtcomes, hQ⟩ := h m hm.history hP
  rw [run_bind_of_ok hrun]
  exact hf a m' ⟨houtcomes ▸ hm.store, houtcomes ▸ hm.history⟩ hQ

theorem getStore_bind {f : ApiKeyStore → M α} (h : ∀ store, P store.credentials → Fails P (f store) Q) :
    Fails P (getStore >>= f) Q := fun m hm hP => h m.world.store hP m hm hP

theorem ite {c : Prop} [Decidable c] {a b : M α} (ha : Fails P a Q) (hb : Fails P b Q) : Fails P (if c then a else b) Q := by
  split_ifs
  · exact ha
  · exact hb

/-- A check that does not raise. -/
theorem guard {c : Prop} [Decidable c] {error : Error} {f : β → M α} {rest : M α} (hc : ¬ c) (h : Fails P rest Q) :
    Fails P (if c then Program.raise error >>= f else rest) Q := by
  rw [if_neg hc]
  exact h

end Fails

/-! ## What passes -/

section

variable {dates : DateTimes} {now : Int}

theorem recordHistoryEvent_passes (event : String) (reason : Codes) (details : List (Codes × Json)) :
    Passes P (recordHistoryEvent dates now event reason details) P := by
  intro m hm hP
  have hrun : (recordHistoryEvent dates now event reason details).run.run m =
      (.ok (), { m with world := World.appendHistory (historyLine dates now event reason details) m.world }) := by
    unfold recordHistoryEvent getStore
    rw [run_read_bind, run_rescue, run_act_of_nil hm]
  exact ⟨(), _, hrun, rfl, hP⟩

theorem clearBootstrapProof_passes (reason : Codes) : Passes P (clearBootstrapProof dates now reason) P :=
  Passes.getStore_bind fun _ _ => Passes.ite (Passes.bind (Passes.modifyStore fun _ h => h) fun _ =>
    recordHistoryEvent_passes _ _ _) Passes.pure

theorem clearBootstrapExchange_passes (reason : Codes) : Passes P (clearBootstrapExchange dates now reason) P :=
  Passes.getStore_bind fun _ _ => Passes.ite (Passes.bind (Passes.modifyStore fun _ h => h) fun _ =>
    recordHistoryEvent_passes _ _ _) Passes.pure

theorem pruneBootstrapProof_passes : Passes P (pruneBootstrapProof dates now) P := by
  refine Passes.getStore_bind fun store _ => ?_
  cases store.bootstrapProof with
  | none => exact Passes.pure
  | some proof => exact Passes.ite Passes.pure (clearBootstrapProof_passes _)

theorem pruneBootstrapExchange_passes : Passes P (pruneBootstrapExchange dates now) P := by
  refine Passes.getStore_bind fun store _ => ?_
  cases store.bootstrapExchange with
  | none => exact Passes.pure
  | some exchange => exact Passes.ite Passes.pure (clearBootstrapExchange_passes _)

theorem discardBrowserSessionsForApiKey_passes (keyId : Codes) (reason : String) {keys : List ApiKeyRecord} :
    Passes (fun c => c.apiKeys = keys) (discardBrowserSessionsForApiKey dates now keyId reason) (fun c => c.apiKeys = keys) :=
  Passes.getStore_bind fun _ _ => Passes.bind (Passes.modifyStore fun _ h => h) fun _ =>
    Passes.bind (recordHistoryEvent_passes _ _ _) fun _ => Passes.pure

/-! ## The save -/

/-- A session with a time that has no offset, which stops the pruning. -/
def hasNaive (dates : DateTimes) (now : Int) (sessions : Dict Codes UiSessionRecord) : Bool :=
  sessions.items.any fun item => (sessionExpired dates now item.2).isNone

/-- The credentials less the sessions that have expired -/
def Credentials.unexpired (dates : DateTimes) (now : Int) (c : Credentials) : Credentials :=
  { c with uiSessions := c.uiSessions.filter fun _ record => sessionExpired dates now record != some true }

/-- The credentials after the pruning -/
def Credentials.pruned (dates : DateTimes) (now : Int) (c : Credentials) : Credentials :=
  if hasNaive dates now c.uiSessions then c else c.unexpired dates now

theorem pruned_apiKeys (c : Credentials) : (c.pruned dates now).apiKeys = c.apiKeys := by
  unfold Credentials.pruned
  split_ifs <;> rfl

theorem hasNaive_filter {sessions : Dict Codes UiSessionRecord} (h : hasNaive dates now sessions = false)
    (p : Codes → UiSessionRecord → Bool) : hasNaive dates now (sessions.filter p) = false := by
  rw [hasNaive, List.any_eq_false] at h ⊢
  exact fun item hitem => h item (List.mem_filter.1 hitem).1

theorem pruned_pruned (c : Credentials) : (c.pruned dates now).pruned dates now = c.pruned dates now := by
  by_cases hnaive : hasNaive dates now c.uiSessions = true
  · have hsame : c.pruned dates now = c := if_pos hnaive
    rw [hsame, hsame]
  · have hfiltered := hasNaive_filter (by simpa using hnaive) fun _ record => sessionExpired dates now record != some true
    have hsame : c.pruned dates now = c.unexpired dates now := if_neg hnaive
    rw [hsame, Credentials.pruned, Credentials.unexpired, if_neg (by simpa using hfiltered)]
    refine congrArg (Credentials.mk c.apiKeys · c.claimedVersion) (Dict.eq_of_items ?_)
    exact List.filter_filter.trans (by simp [Dict.filter])

theorem run_prune_of_naive {m : Machine Target World} (h : hasNaive dates now m.world.credentials.uiSessions = true) :
    (pruneExpiredUiSessions dates now).run.run m = (.error (.raised .type), m) := by
  unfold pruneExpiredUiSessions getStore
  unfold hasNaive World.credentials ApiKeyStore.credentials at h
  rw [run_read_bind, if_pos h]
  rfl

theorem run_prune_of_not_naive {m : Machine Target World} (h : ¬ hasNaive dates now m.world.credentials.uiSessions = true) :
    ∃ w, (pruneExpiredUiSessions dates now).run.run m = (.ok (), { m with world := w }) ∧
      w.credentials = m.world.credentials.unexpired dates now := by
  refine ⟨m.world.updateStore fun store => { store with
    uiSessions := store.uiSessions.filter fun _ record => sessionExpired dates now record != some true }, ?_, rfl⟩
  unfold pruneExpiredUiSessions getStore
  unfold hasNaive World.credentials ApiKeyStore.credentials at h
  rw [run_read_bind, if_neg h]
  rfl

/-- The pruning and a rest that fails after it. -/
theorem pruneExpiredUiSessions_bind {α : Type} {f : Unit → M α} (h : ∀ c, P c → Q (c.pruned dates now))
    (hf : Fails Q (f ()) Q) : Fails P (pruneExpiredUiSessions dates now >>= f) Q := by
  intro m hm hP
  have hQ := h _ hP
  by_cases hnaive : hasNaive dates now m.world.credentials.uiSessions = true
  · rw [Credentials.pruned, if_pos hnaive] at hQ
    exact ⟨.type, m, run_bind_of_error (run_prune_of_naive hnaive) f, hQ⟩
  · obtain ⟨w, hrun, hw⟩ := run_prune_of_not_naive hnaive
    rw [Credentials.pruned, if_neg hnaive, ← hw] at hQ
    rw [run_bind_of_ok hrun]
    exact hf { m with world := w } ⟨hm.store, hm.history⟩ hQ

theorem replace_fails {f : World → World} : Fails P (Program.replace .store .os f : M Unit) P := by
  intro m hm hP
  refine ⟨.os, m.advance .store, ?_, hP⟩
  have hnext : m.next .store = .fails := by simp [Machine.next, hm.store]
  rw [Program.replace, run_act, hnext]
  rfl

/-- The save does not succeed, and the expired sessions are dropped all the same. -/
theorem save_fails (h : ∀ c, P c → Q (c.pruned dates now)) : Fails P (save dates now) Q := by
  unfold save toStr
  simp only [bind_assoc]
  refine pruneExpiredUiSessions_bind h ?_
  refine Fails.after pruneBootstrapProof_passes fun _ => Fails.after pruneBootstrapExchange_passes fun _ => ?_
  refine Fails.getStore_bind fun store _ => Fails.after Passes.pure fun payload => ?_
  exact Fails.bind replace_fails

/-! ## The calls -/

/-- A pruning that leaves the credentials drops nothing. -/
theorem unpruned_of_same {c : Credentials} (h : (c.pruned dates now).Same c) : Unpruned dates now c.uiSessions := by
  by_cases hnaive : hasNaive dates now c.uiSessions = true
  · obtain ⟨item, hitem, hnone⟩ := List.any_eq_true.1 hnaive
    exact .inl ⟨item, hitem, by simpa using hnone⟩
  · refine .inr fun item hitem => ?_
    have hget := h.uiSessions item.1
    rw [Credentials.pruned, if_neg hnaive, (Dict.get_eq_some c.uiSessions item.1 item.2).2 hitem] at hget
    have hkept := ((Dict.get_filter_eq_some ..).1 hget).2
    cases hexpired : sessionExpired dates now item.2 with
    | none => exact absurd (List.any_eq_true.2 ⟨item, hitem, by rw [hexpired]; rfl⟩) hnaive
    | some expired =>
      cases expired with
      | false => rfl
      | true =>
        rw [hexpired] at hkept
        simp at hkept

/-- The scopes are accepted. -/
theorem scopes_ok {α : Type} {scopes : Option (List (Option Codes))} {normalized : List Codes} {f : List Codes → M α}
    (hscopes : normalizeScopes scopes = .ok normalized) (h : Fails P (f normalized) Q) :
    Fails P (match normalizeScopes scopes with
      | .ok normalized => pure normalized >>= f
      | .error error => Program.raise error >>= f) Q := by
  rw [hscopes]
  exact h

theorem createApiKeyRecord_passes {id hash name : Codes} {scopes : Option (List (Option Codes))} {keys : List ApiKeyRecord}
    (hscopes : badScopes scopes = false) (hname : blank name = false) :
    Passes (fun c => c.apiKeys = keys) (createApiKeyRecord dates now id hash name scopes)
      (fun c => ∃ record, c.apiKeys = keys ++ [record]) := by
  unfold createApiKeyRecord
  cases hnormal : normalizeScopes scopes with
  | error error => simp [badScopes, hnormal] at hscopes
  | ok normalized =>
    dsimp only
    unfold blank at hname
    rw [pure_bind, if_neg (by simp [hname])]
    refine Passes.bind (Passes.modifyStore fun store hkeys => ?_) fun _ => Passes.pure
    exact ⟨_, congrArg (· ++ [_]) hkeys⟩

theorem createApiKey_fails {id hash name : Codes} {scopes : Option (List (Option Codes))} {keys : List ApiKeyRecord}
    (hscopes : badScopes scopes = false) (hname : blank name = false) :
    Fails (fun c => c.apiKeys = keys) (createApiKey dates now id hash name scopes)
      (fun c => ∃ record, c.apiKeys = keys ++ [record]) := by
  refine Fails.after (createApiKeyRecord_passes hscopes hname) fun record => ?_
  have hrest : Fails (fun c => ∃ record, c.apiKeys = keys ++ [record]) (do
      save dates now
      recordHistoryEvent dates now "api_key_created" (codes "create_api_key") (keyDetails record)
      return record) (fun c => ∃ record, c.apiKeys = keys ++ [record]) :=
    Fails.bind (save_fails fun c h => by rwa [pruned_apiKeys])
  refine Fails.ite (Fails.after (clearBootstrapProof_passes _) fun _ => ?_) hrest
  exact Fails.after (clearBootstrapExchange_passes _) fun _ => hrest

theorem deleteApiKey_fails {keyId : Codes} {record : ApiKeyRecord} {keys : List ApiKeyRecord}
    (hget : keys.find? (fun r => r.id = keyId) = some record) (hrevoked : record.isRevoked = true) :
    Fails (fun c => c.apiKeys = keys) (deleteApiKey dates now keyId) (fun c => c.apiKeys = keys.erase record) := by
  refine Fails.getStore_bind fun store hstore => ?_
  have hfound : store.getApiKey keyId = some record := by
    rw [ApiKeyStore.getApiKey, show store.apiKeys = keys from hstore, hget]
  rw [hfound]
  refine Fails.guard (by simp [hrevoked]) (Fails.after (discardBrowserSessionsForApiKey_passes _ _) fun discarded => ?_)
  refine Fails.after (Passes.modifyStore (Q := fun c => c.apiKeys = keys.erase record) fun _ hkeys => ?_) fun _ => ?_
  · exact congrArg (List.erase · record) hkeys
  · exact Fails.bind (save_fails fun c h => by rwa [pruned_apiKeys])

/-! ### One record -/

/-- The record for the id is written over. -/
def Credentials.setApiKey (c : Credentials) (keyId : Codes) (new : ApiKeyRecord) : Credentials :=
  { c with apiKeys := (({ apiKeys := c.apiKeys } : ApiKeyStore).setApiKey keyId new).apiKeys }

theorem credentials_setApiKey (store : ApiKeyStore) (keyId : Codes) (new : ApiKeyRecord) :
    (store.setApiKey keyId new).credentials = store.credentials.setApiKey keyId new := by
  unfold Credentials.setApiKey ApiKeyStore.credentials ApiKeyStore.setApiKey
  dsimp only
  cases store.apiKeys.findIdx? fun record => record.id = keyId with
  | none => rfl
  | some index => rfl

theorem setApiKey_passes {c : Credentials} {keyId : Codes} {new : ApiKeyRecord} :
    Passes (fun c' => c' = c) (modifyStore fun store => store.setApiKey keyId new) (fun c' => c' = c.setApiKey keyId new) :=
  Passes.modifyStore fun store hstore => by rw [credentials_setApiKey, hstore]

/-- The later of two writes stands. -/
theorem setApiKey_again {c : Credentials} {keyId : Codes} {new : ApiKeyRecord} (hid : new.id = keyId) (last : ApiKeyRecord) :
    (c.setApiKey keyId new).setApiKey keyId last = c.setApiKey keyId last := by
  unfold Credentials.setApiKey ApiKeyStore.setApiKey
  dsimp only
  cases hindex : c.apiKeys.findIdx? fun record => record.id = keyId with
  | none => simp only [hindex]
  | some index =>
    dsimp only
    obtain ⟨hlt, -, hbefore⟩ := List.findIdx?_eq_some_iff_getElem.1 hindex
    have hagain : (c.apiKeys.set index new).findIdx? (fun record => record.id = keyId) = some index := by
      refine List.findIdx?_eq_some_iff_getElem.2 ⟨by simpa using hlt, by simpa using hid, fun j hj => ?_⟩
      rw [List.getElem_set_ne (by omega)]
      exact hbefore j hj
    rw [hagain]
    exact congrArg (Credentials.mk · c.uiSessions c.claimedVersion) (List.set_set ..)

theorem setApiKey_same {c : Credentials} {keyId : Codes} {record new : ApiKeyRecord}
    (hget : c.apiKeys.find? (fun r => r.id = keyId) = some record) (h : (c.setApiKey keyId new).apiKeys = c.apiKeys) :
    new = record := (@setApiKey_keys_iff { apiKeys := c.apiKeys } keyId record new hget).1 h

theorem setApiKey_self {c : Credentials} {keyId : Codes} {record : ApiKeyRecord}
    (hget : c.apiKeys.find? (fun r => r.id = keyId) = some record) : c.setApiKey keyId record = c :=
  congrArg (Credentials.mk · c.uiSessions c.claimedVersion)
    ((@setApiKey_keys_iff { apiKeys := c.apiKeys } keyId record record hget).2 rfl)

/-- What is left of a write and the pruning of a save that fails is what was there only if both change nothing. -/
theorem same_of_written {c : Credentials} {keyId : Codes} {record new : ApiKeyRecord}
    (hget : c.apiKeys.find? (fun r => r.id = keyId) = some record)
    (h : ((c.setApiKey keyId new).pruned dates now).Same c) : new = record ∧ Unpruned dates now c.uiSessions := by
  have hkeys := h.apiKeys
  rw [pruned_apiKeys] at hkeys
  obtain rfl := setApiKey_same hget hkeys
  rw [setApiKey_self hget] at h
  exact ⟨rfl, unpruned_of_same h⟩

theorem rotateApiKey_fails {c : Credentials} {keyId hash : Codes} {record : ApiKeyRecord}
    (hget : c.apiKeys.find? (fun r => r.id = keyId) = some record) (hrevoked : record.isRevoked = false) :
    Fails (fun c' => c' = c) (rotateApiKey dates now keyId hash)
      (fun c' => c' = (c.setApiKey keyId { record with secretHash := hash, updatedAt := dates.utc now }).pruned dates now) := by
  refine Fails.getStore_bind fun store hstore => ?_
  have hfound : store.getApiKey keyId = some record := by rw [ApiKeyStore.getApiKey, ← hget, ← hstore]; rfl
  rw [hfound]
  refine Fails.guard (by simp [hrevoked]) (Fails.after setApiKey_passes fun _ => Fails.bind (save_fails ?_))
  rintro _ rfl
  rfl

theorem revokeApiKey_fails {c : Credentials} {keyId : Codes} {record : ApiKeyRecord}
    (hget : c.apiKeys.find? (fun r => r.id = keyId) = some record) (hrevoked : record.isRevoked = false) :
    Fails (fun c' => c' = c) (revokeApiKey dates now keyId) (fun c' => c'.apiKeys =
      (c.setApiKey keyId { record with revokedAt := some (dates.utc now), updatedAt := dates.utc now }).apiKeys) := by
  refine Fails.getStore_bind fun store hstore => ?_
  have hfound : store.getApiKey keyId = some record := by rw [ApiKeyStore.getApiKey, ← hget, ← hstore]; rfl
  rw [hfound]
  refine Fails.guard (by simp [hrevoked]) (Fails.after setApiKey_passes fun _ => ?_)
  have hdiscard := @discardBrowserSessionsForApiKey_passes dates now record.id "api_key_revoked"
    (c.setApiKey keyId { record with revokedAt := some (dates.utc now), updatedAt := dates.utc now }).apiKeys
  refine Fails.after (Passes.weaken ?_ hdiscard) fun discarded => ?_
  · rintro _ rfl
    rfl
  · exact Fails.bind (save_fails fun c h => by rwa [pruned_apiKeys])

/-- The name is written before the scopes are looked at, and all before the save. -/
theorem updateApiKey_fails {c : Credentials} {keyId : Codes} {name : Option Codes}
    {scopes : Option (Option (List (Option Codes)))} {record : ApiKeyRecord}
    (hget : c.apiKeys.find? (fun r => r.id = keyId) = some record) (hrevoked : record.isRevoked = false)
    (hname : name.any blank = false) :
    Fails (fun c' => c' = c) (updateApiKey dates now keyId name scopes) (fun c' =>
      let named := { record with name := (name.map strip).getD record.name }
      match (scopes.map normalizeScopes).getD (.ok record.scopes) with
      | .error _ => c' = c.setApiKey keyId named
      | .ok normalized =>
        c' = (c.setApiKey keyId { named with scopes := normalized, updatedAt := dates.utc now }).pruned dates now) := by
  have hid : record.id = keyId := by simpa using List.find?_some hget
  refine Fails.getStore_bind fun store hstore => ?_
  have hfound : store.getApiKey keyId = some record := by rw [ApiKeyStore.getApiKey, ← hget, ← hstore]; rfl
  rw [hfound]
  refine Fails.guard (by simp [hrevoked]) (Fails.guard (by exact Bool.eq_false_iff.1 hname) ?_)
  refine Fails.after setApiKey_passes fun _ => ?_
  have hrest : ∀ (new : ApiKeyRecord) (reason : Codes), Fails
      (fun c' => c' = c.setApiKey keyId { record with name := (name.map strip).getD record.name }) (do
        modifyStore fun store => store.setApiKey keyId new
        save dates now
        recordHistoryEvent dates now "api_key_updated" reason (keyDetails new)
        return new) (fun c' => c' = (c.setApiKey keyId new).pruned dates now) := by
    intro new reason
    refine Fails.after setApiKey_passes fun _ => Fails.bind (save_fails ?_)
    rintro _ rfl
    rw [setApiKey_again (by exact hid)]
  cases scopes with
  | none => exact hrest _ _
  | some given =>
    cases hgiven : normalizeScopes given with
    | error error =>
      simp only [Option.map_some, Option.getD_some, hgiven]
      exact Fails.bind Fails.raise
    | ok normalized =>
      simp only [Option.map_some, Option.getD_some, hgiven]
      exact hrest _ _

/-! ### Sessions -/

/-- A session that is made has not expired. -/
theorem sessionExpired_madeSession (secret : Codes) (normalized : List Codes) (bootstrap remembered : Bool)
    (keyId hash : Option Codes) :
    sessionExpired dates now (madeSession dates now secret normalized bootstrap remembered keyId hash) = some false := by
  unfold sessionExpired madeSession
  cases remembered with
  | true => rfl
  | false =>
    simp only [Bool.false_eq_true, if_false, isPast_utc, uiSessionTtl, seconds]
    exact congrArg some (decide_eq_false (by omega))

def Credentials.withSession (c : Credentials) (secret : Codes) (record : UiSessionRecord) : Credentials :=
  { c with uiSessions := c.uiSessions.set secret record }

theorem createUiSession_fails {c : Credentials} {secret : Codes} {scopes normalized : List Codes} {bootstrap remembered : Bool}
    {keyId hash : Option Codes} (hscopes : normalizeScopes (some (scopes.map some)) = .ok normalized)
    (hkey : keyId.any blank = false) (hhash : hash.any blank = false) (hflags : (bootstrap && remembered) = false) :
    Fails (fun c' => c' = c) (createUiSession dates now secret scopes bootstrap remembered keyId hash) (fun c' => c' =
      (c.withSession secret (madeSession dates now secret normalized bootstrap remembered keyId hash)).pruned dates now) := by
  unfold createUiSession
  refine scopes_ok hscopes (Fails.guard (by exact Bool.eq_false_iff.1 hkey) (Fails.guard (by exact Bool.eq_false_iff.1 hhash) ?_))
  refine Fails.guard (Bool.eq_false_iff.1 hflags) ?_
  refine Fails.after (Passes.modifyStore (Q := fun c' => c' = c.withSession secret
    (madeSession dates now secret normalized bootstrap remembered keyId hash)) ?_) fun _ => ?_
  · rintro store rfl
    rfl
  · refine pruneExpiredUiSessions_bind (by rintro _ rfl; rfl) (Fails.bind (save_fails ?_))
    rintro _ rfl
    exact pruned_pruned _

theorem same_of_session {c : Credentials} {secret : Codes} {normalized : List Codes} {bootstrap remembered : Bool}
    {keyId hash : Option Codes}
    (h : ((c.withSession secret (madeSession dates now secret normalized bootstrap remembered keyId hash)).pruned dates now).Same c) :
    c.uiSessions.get secret = some (madeSession dates now secret normalized bootstrap remembered keyId hash) ∧
      Unpruned dates now c.uiSessions := by
  have hget : c.uiSessions.get secret = some (madeSession dates now secret normalized bootstrap remembered keyId hash) := by
    rw [← h.uiSessions, Credentials.pruned]
    split_ifs with hnaive
    · exact Dict.get_set_self ..
    · refine (Dict.get_filter_eq_some ..).2 ⟨Dict.get_set_self .., ?_⟩
      rw [sessionExpired_madeSession]
      rfl
  refine ⟨hget, ?_⟩
  rw [Credentials.withSession, Dict.set_of_get hget] at h
  exact unpruned_of_same h

end

/-! ## The first administrator -/

/-- What is to come for the target does not matter to the program. -/
def Ignores {α : Type} (target : Target) (program : M α) : Prop :=
  ∀ (m : Machine Target World) (outcomes : List Outcome),
    program.run.run { m with outcomes := Function.update m.outcomes target outcomes } =
      ((program.run.run m).1, { (program.run.run m).2 with
        outcomes := Function.update (program.run.run m).2.outcomes target outcomes })

namespace Ignores

variable {α β : Type} {target : Target}

theorem pure {a : α} : Ignores target (Pure.pure a) := fun _ _ => rfl

theorem raise {error : Error} : Ignores target (Program.raise error : M α) := fun _ _ => rfl

theorem bind {program : M α} {f : α → M β} (h : Ignores target program) (hf : ∀ a, Ignores target (f a)) :
    Ignores target (program >>= f) := by
  intro m outcomes
  have hprogram := h m outcomes
  rcases hrun : program.run.run m with ⟨stop | a, m'⟩
  · rw [hrun] at hprogram
    rw [run_bind_of_error hprogram, run_bind_of_error hrun]
  · rw [hrun] at hprogram
    rw [run_bind_of_ok hprogram, run_bind_of_ok hrun]
    exact hf a m' outcomes

theorem read_bind {g : World → α} {f : α → M β} (hf : ∀ a, Ignores target (f a)) : Ignores target (Program.read g >>= f) :=
  fun m outcomes => hf (g m.world) m outcomes

theorem getStore_bind {f : ApiKeyStore → M β} (hf : ∀ store, Ignores target (f store)) : Ignores target (getStore >>= f) :=
  fun m outcomes => hf m.world.store m outcomes

theorem modifyStore {g : ApiKeyStore → ApiKeyStore} : Ignores target (Auth.modifyStore g) := fun _ _ => rfl

theorem ite {c : Prop} [Decidable c] {a b : M α} (ha : Ignores target a) (hb : Ignores target b) :
    Ignores target (if c then a else b) := by
  split_ifs
  · exact ha
  · exact hb

theorem rescue {program : M α} {handler : Error → M α} (h : Ignores target program)
    (hhandler : ∀ error, Ignores target (handler error)) : Ignores target (Program.rescue program handler) := by
  intro m outcomes
  have hprogram := h m outcomes
  rw [run_rescue, run_rescue, hprogram]
  generalize program.run.run m = r
  obtain ⟨(error | _) | a, m'⟩ := r
  · exact hhandler error m' outcomes
  · rfl
  · rfl

theorem replace {other : Target} {error : Error} {run : World → World} (hne : other ≠ target) :
    Ignores target (Program.replace other error run) := by
  intro m outcomes
  have hnext : Machine.next { m with outcomes := Function.update m.outcomes target outcomes } other = m.next other := by
    unfold Machine.next
    dsimp only
    rw [Function.update_of_ne hne]
  have hadvance : Machine.advance { m with outcomes := Function.update m.outcomes target outcomes } other =
      { m.advance other with outcomes := Function.update (m.advance other).outcomes target outcomes } := by
    unfold Machine.advance
    dsimp only
    rw [Function.update_of_ne hne, Function.update_comm hne]
  rw [Program.replace, run_act, run_act, hnext, hadvance]
  cases m.next other <;> rfl

end Ignores

section

variable {dates : DateTimes} {digest : Codes → Codes} {now : Int} {target : Target}

theorem writeBrowserHandoverDeadline_ignores (hne : .deadline ≠ target) (state : DeadlineState) :
    Ignores target (writeBrowserHandoverDeadline state) :=
  Ignores.ite (Ignores.bind Ignores.raise fun _ => Ignores.replace hne) (Ignores.replace hne)

theorem finalizeBrowserHandoverClaim_ignores (hne : .deadline ≠ target) (version : Codes) :
    Ignores target (finalizeBrowserHandoverClaim digest version) := by
  refine Ignores.rescue (Ignores.bind ?_ fun _ => Ignores.pure) fun error => ?_
  · refine Ignores.getStore_bind fun store => Ignores.ite Ignores.pure ?_
    cases store.browserHandoverDeadline with
    | none => exact Ignores.pure
    | some state =>
      dsimp only
      cases state.active with
      | none => exact Ignores.pure
      | some active =>
        exact Ignores.ite Ignores.pure (Ignores.bind Ignores.modifyStore fun _ => writeBrowserHandoverDeadline_ignores hne _)
  · cases error with
    | os => exact Ignores.pure
    | value message => exact Ignores.pure
    | type => exact Ignores.raise
    | key => exact Ignores.raise

theorem browserHandoverState_ignores (hne : .deadline ≠ target) (version : Codes) (config : HandoverConfig)
    (activate reopenInitial : Bool) :
    Ignores target (browserHandoverState dates digest now version config activate reopenInitial) := by
  have hload : Ignores target (loadBrowserHandoverDeadline dates digest) :=
    Ignores.read_bind fun w => Ignores.bind Ignores.modifyStore fun _ => Ignores.getStore_bind fun _ => Ignores.pure
  refine Ignores.getStore_bind fun asked => Ignores.bind hload fun state => Ignores.getStore_bind fun loaded => ?_
  refine Ignores.ite ?_ (Ignores.ite ?_ Ignores.pure)
  · exact Ignores.ite (Ignores.bind (finalizeBrowserHandoverClaim_ignores hne version) fun _ =>
      Ignores.getStore_bind fun _ => Ignores.pure) (Ignores.getStore_bind fun _ => Ignores.pure)
  · exact Ignores.bind Ignores.modifyStore fun _ => Ignores.bind (writeBrowserHandoverDeadline_ignores hne _) fun _ =>
      Ignores.getStore_bind fun _ => Ignores.pure

theorem canClaimInitialAdmin_ignores (hne : .deadline ≠ target) (version : Codes) :
    Ignores target (canClaimInitialAdmin dates digest now version) :=
  Ignores.bind (browserHandoverState_ignores hne _ _ _ _) fun _ => Ignores.getStore_bind fun _ =>
    Ignores.ite Ignores.pure Ignores.pure

/-- Once the claim is granted, the key is in memory before the save. -/
theorem createInitialAdmin_fails {w : World} {outcomes : Target → List Outcome} {version name id hash : Codes}
    (hgranted : ((canClaimInitialAdmin dates digest now (strip version)).run.run ⟨w, outcomes⟩).1 = .ok true)
    (hname : blank name = false) : ∃ outcomes' error m',
      (createInitialAdminApiKeyIfAvailable dates digest now version name id hash).run.run ⟨w, outcomes'⟩ =
        (.error (.raised error), m') ∧ ∃ record, m'.world.credentials.apiKeys = w.store.apiKeys ++ [record] := by
  have hleaves := @canClaimInitialAdmin_credentials dates digest now (strip version) ⟨w, outcomes⟩
  have hstore := @canClaimInitialAdmin_ignores dates digest now .store (by decide) (strip version) ⟨w, outcomes⟩ [.fails]
  have hhistory := @canClaimInitialAdmin_ignores dates digest now .history (by decide) (strip version)
    ⟨w, Function.update outcomes .store [.fails]⟩ []
  rw [hstore] at hhistory
  generalize (canClaimInitialAdmin dates digest now (strip version)).run.run ⟨w, outcomes⟩ = r at hgranted hleaves hhistory
  obtain ⟨result, m⟩ := r
  obtain rfl : result = .ok true := hgranted
  have hrest : Fails (fun c => c.apiKeys = w.store.apiKeys) (do
      let record ← createApiKeyRecord dates now id hash name (some [some adminScope])
      modifyStore fun store =>
        if store.claimedHandoverVersion.isEmpty then { store with browserHandoverClaimedVersion := strip version } else store
      clearBootstrapProof dates now (codes "admin_api_key_created")
      clearBootstrapExchange dates now (codes "admin_api_key_created")
      save dates now
      let store ← getStore
      if store.claimTransaction.isNone then
        let _ ← finalizeBrowserHandoverClaim digest (strip version)
      recordHistoryEvent dates now "api_key_created" (codes "initial_admin_created")
        (keyDetails record ++ [(codes "browser_handover_version", .str (strip version))])
      return some record) (fun c => ∃ record, c.apiKeys = w.store.apiKeys ++ [record]) := by
    refine Fails.after (createApiKeyRecord_passes (by decide) hname) fun record => ?_
    refine Fails.after (Passes.modifyStore (Q := fun c => ∃ record, c.apiKeys = w.store.apiKeys ++ [record]) fun store h => ?_)
      fun _ => ?_
    · split_ifs
      · exact h
      · exact h
    refine Fails.after (clearBootstrapProof_passes _) fun _ => Fails.after (clearBootstrapExchange_passes _) fun _ => ?_
    exact Fails.bind (save_fails fun c h => by rwa [pruned_apiKeys])
  have hfailing : Failing { m with outcomes := Function.update (Function.update m.outcomes .store [.fails]) .history [] } :=
    ⟨by simp, by simp⟩
  obtain ⟨error, m', hrun, hkeys⟩ := hrest _ hfailing (congrArg Credentials.apiKeys hleaves)
  refine ⟨Function.update (Function.update outcomes .store [.fails]) .history [], error, m', ?_, hkeys⟩
  rw [createInitialAdminApiKeyIfAvailable, run_bind_of_ok hhistory]
  exact hrun

/-! ## Only a harmless call leaves the credentials -/

/-- What is left when the save fails is what was there. -/
theorem Fails.same {α : Type} {program : M α} {call : CredentialCall} {w : World} {Q : Credentials → Prop}
    (hprogram : call.program dates digest now = discard program) (h : Fails (fun c => c = w.credentials) program Q)
    (hatomic : call.Atomic dates digest now w) : ∃ c, Q c ∧ c.Same w.credentials := by
  let outcomes : Target → List Outcome := Function.update (fun _ => []) .store [.fails]
  obtain ⟨error, m', hrun, hQ⟩ := h ⟨w, outcomes⟩ ⟨by simp [outcomes], by simp [outcomes]⟩ rfl
  refine ⟨_, hQ, hatomic outcomes error m' ?_⟩
  rw [hprogram]
  exact run_bind_of_error hrun fun _ => (pure ⟨⟩ : M PUnit)

theorem not_appended {keys : List ApiKeyRecord} {record : ApiKeyRecord} : keys ++ [record] ≠ keys := fun h => by
  simpa using congrArg List.length h

theorem CredentialCall.Harmless.of_atomic {call : CredentialCall} {w : World} (h : call.Atomic dates digest now w) :
    call.Harmless dates digest now w := by
  have hfind : ∀ {keyId record}, w.store.getApiKey keyId = some record →
      w.credentials.apiKeys.find? (fun r => r.id = keyId) = some record := fun hget => hget
  cases call with
  | createApiKey id hash name scopes =>
    by_contra hnot
    obtain ⟨hscopes, hname⟩ := not_or.1 hnot
    have hfails := @createApiKey_fails dates now id hash name scopes w.credentials.apiKeys (by simpa using hscopes)
      (by simpa using hname)
    obtain ⟨c, ⟨record, hkeys⟩, hsame⟩ := (Fails.weaken (fun _ hc => congrArg _ hc) hfails).same rfl h
    exact not_appended (hkeys.symm.trans hsame.apiKeys)
  | updateApiKey keyId name scopes =>
    intro record hget hrevoked hname
    obtain ⟨c, hc, hsame⟩ := (updateApiKey_fails (hfind hget) hrevoked hname).same rfl h
    dsimp only at hc
    cases hscopes : (scopes.map normalizeScopes).getD (.ok record.scopes) with
    | error error =>
      rw [hscopes] at hc
      obtain rfl : c = _ := hc
      refine ⟨?_, fun normalized hok => by cases hok⟩
      exact congrArg ApiKeyRecord.name (setApiKey_same (hfind hget) hsame.apiKeys)
    | ok normalized =>
      rw [hscopes] at hc
      obtain rfl : c = _ := hc
      obtain ⟨hrecord, hsessions⟩ := same_of_written (hfind hget) hsame
      refine ⟨congrArg ApiKeyRecord.name hrecord, fun normalized' hok => ?_⟩
      cases hok
      exact ⟨congrArg ApiKeyRecord.scopes hrecord, congrArg ApiKeyRecord.updatedAt hrecord, hsessions⟩
  | deleteApiKey keyId =>
    intro record hget
    by_contra hrevoked
    have hfails := @deleteApiKey_fails dates now keyId record _ (hfind hget) (by simpa using hrevoked)
    obtain ⟨c, hkeys, hsame⟩ := (Fails.weaken (fun _ hc => congrArg _ hc) hfails).same rfl h
    have hlength := congrArg List.length (hkeys.symm.trans hsame.apiKeys)
    have hmem : record ∈ w.credentials.apiKeys := (of_getApiKey hget).1
    have hpos := List.length_pos_of_mem hmem
    rw [List.length_erase_of_mem hmem] at hlength
    omega
  | revokeApiKey keyId =>
    intro record hget
    by_contra hrevoked
    obtain ⟨c, hkeys, hsame⟩ := (revokeApiKey_fails (hfind hget) (by simpa using hrevoked)).same rfl h
    have hrecord := setApiKey_same (hfind hget) (hkeys.symm.trans hsame.apiKeys)
    exact hrevoked (by rw [← hrecord]; rfl)
  | rotateApiKey keyId hash =>
    intro record hget hrevoked
    obtain ⟨c, rfl, hsame⟩ := (rotateApiKey_fails (hfind hget) hrevoked).same rfl h
    obtain ⟨hrecord, hsessions⟩ := same_of_written (hfind hget) hsame
    exact ⟨congrArg ApiKeyRecord.secretHash hrecord, congrArg ApiKeyRecord.updatedAt hrecord, hsessions⟩
  | createUiSession secret scopes bootstrap remembered keyId hash =>
    intro normalized b r hscopes hbootstrap hremembered hkey hhash hflags
    subst hbootstrap
    subst hremembered
    have hfails := @createUiSession_fails dates now w.credentials secret _ normalized b r keyId hash
      (normalizeScopes_reduceOption hscopes) hkey hhash hflags
    have hprogram : createUiSessionOf dates now secret scopes (some b) (some r) keyId hash =
        Auth.createUiSession dates now secret (scopes.getD []).reduceOption b r keyId hash := by
      unfold createUiSessionOf
      rw [hscopes]
    rw [← hprogram] at hfails
    obtain ⟨c, rfl, hsame⟩ := hfails.same rfl h
    exact same_of_session hsame
  | createInitialAdminApiKeyIfAvailable version name id hash =>
    by_contra hnot
    obtain ⟨hname, hgranted⟩ := not_or.1 hnot
    obtain ⟨outcomes, hgranted⟩ := not_forall_not.1 hgranted
    obtain ⟨outcomes', error, m', hrun, record, hkeys⟩ :=
      @createInitialAdmin_fails dates digest now w outcomes version name id hash hgranted (by simpa using hname)
    have hsame := h outcomes' error m' (run_bind_of_error hrun fun _ => (pure ⟨⟩ : M PUnit))
    exact not_appended (hkeys.symm.trans hsame.apiKeys)

/-- A call leaves the credentials whenever it raises, exactly if it is harmless. -/
theorem CredentialCall.atomic_iff {call : CredentialCall} {w : World} :
    call.Atomic dates digest now w ↔ call.Harmless dates digest now w := ⟨.of_atomic, Harmless.atomic⟩

end

end SeedSync.Auth
