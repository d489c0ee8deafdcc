import SeedSync.Auth.Credentials

/-!
# A claimed application can be started

Runs of credential operations from a state that `validate_completed_migration_claimed_auth_state`
accepts. Each operation keeps the state acceptable, but for the rotation of a key that has a session and
the session of a key with blanks around its id or hash.
-/

namespace SeedSync.Auth

open Lib Program

/-- The program keeps `I` however its steps fail, as long as the process lives. -/
def Keeps {α : Type} (I : World → Prop) (program : M α) : Prop :=
  Triple (Living I) program (fun _ => Living I) (Living I)

namespace Keeps

variable {α β : Type} {I J : World → Prop}

theorem pure {a : α} : Keeps I (Pure.pure a) := Triple.pure fun _ h => h

theorem raise {error : Error} : Keeps I (Program.raise error : M α) := Triple.raise fun _ h => h

theorem bind {program : M α} {f : α → M β} (h : Keeps I program) (hf : ∀ a, Keeps I (f a)) : Keeps I (program >>= f) :=
  Triple.bind h hf

/-- What is read of the store is that of some world that meets `I`. -/
theorem getStore_bind {f : ApiKeyStore → M β} (h : ∀ w, I w → Keeps I (f w.store)) : Keeps I (getStore >>= f) :=
  Triple.read_bind fun m hm => Triple.of_eq hm (h m.world hm.1)

theorem modifyStore {f : ApiKeyStore → ApiKeyStore} (h : ∀ w, I w → I (w.updateStore f)) : Keeps I (Auth.modifyStore f) :=
  Triple.update fun m hm => ⟨h m.world hm.1, hm.2⟩

theorem ite {c : Prop} [Decidable c] {a b : M α} (ha : c → Keeps I a) (hb : ¬ c → Keeps I b) :
    Keeps I (if c then a else b) := by
  split_ifs with h
  · exact ha h
  · exact hb h

/-- A check that raises. -/
theorem guard {c : Prop} [Decidable c] {error : Error} {f : α → M β} {rest : M β} (hrest : ¬ c → Keeps I rest) :
    Keeps I (if c then Program.raise error >>= f else rest) :=
  Triple.check (fun _ h => h) hrest

/-- A change after which `J` holds, and a rest that needs `J`. -/
theorem modify_bind {f : ApiKeyStore → ApiKeyStore} {g : Unit → M α} {P : Machine Target World → Prop}
    (h : ∀ m, P m → J (m.world.updateStore f) ∧ m.Lives)
    (hg : Triple (Living J) (g ()) (fun _ => Living I) (Living I)) :
    Triple P (Auth.modifyStore f >>= g) (fun _ => Living I) (Living I) :=
  Triple.update_bind (fun m hm => h m hm) hg

end Keeps

section Operations

variable {dates : DateTimes} {digest : Codes → Codes} {terms : ClaimTerms}

/-- The files are those of the claim, and the store is tidy. -/
structure Claimed (dates : DateTimes) (digest : Codes → Codes) (terms : ClaimTerms) (skip : Option Codes) (w : World) : Prop where
  files : ClaimedFiles dates digest terms w.files
  store : Tidy terms.keyId terms.storedVersion skip w.store

variable {skip : Option Codes}

/-- The change is of fields that the file of the store does not have. -/
theorem Claimed.store_with {w : World} (h : Claimed dates digest terms skip w) {store : ApiKeyStore}
    (hstore : Tidy terms.keyId terms.storedVersion skip store) : Claimed dates digest terms skip { w with store := store } :=
  ⟨h.files, hstore⟩

theorem recordHistoryEvent_keeps (now : Int) {event : String} (reason : Codes) {details : List (Codes × Json)}
    (hevent : codes event ∈ allowedEvents) (hstrict : strict (.obj details) = true) :
    Keeps (Claimed dates digest terms skip) (recordHistoryEvent dates now event reason details) := by
  have hline : ∃ entry, readClaimLine dates (some (historyLine dates now event reason details)) = some entry :=
    readClaimLine_historyLine now reason hevent hstrict
  unfold recordHistoryEvent
  refine Keeps.getStore_bind fun w hw => ?_
  refine Triple.rescue (F := Living (Claimed dates digest terms skip)) (Living.act ?_ fun _ h => h) ?_ fun _ h => h
  · exact fun w hw => ⟨hw.files.append hline, hw.store⟩
  · exact fun error => Keeps.ite (fun _ => Keeps.raise) fun _ => Keeps.pure

theorem allowed_of {event : String} (h : event ∈ ["store_loaded", "store_saved", "bootstrap_proof_created",
    "bootstrap_proof_cleared", "bootstrap_exchange_created", "bootstrap_exchange_cleared", "api_key_created",
    "ui_session_created", "ui_sessions_discarded", "api_key_updated", "api_key_rotated", "api_key_revoked",
    "api_key_deleted"]) : codes event ∈ allowedEvents := List.mem_map_of_mem h

theorem clearBootstrapProof_keeps (now : Int) (reason : Codes) :
    Keeps (Claimed dates digest terms skip) (clearBootstrapProof dates now reason) := by
  unfold clearBootstrapProof
  refine Keeps.getStore_bind fun w hw => Keeps.ite (fun _ => ?_) fun _ => Keeps.pure
  refine Keeps.bind (Keeps.modifyStore fun w hw => ⟨hw.files, { hw.store with }⟩) fun _ => ?_
  exact recordHistoryEvent_keeps now reason (allowed_of (by decide)) (by simp [strict, strictFields])

theorem clearBootstrapExchange_keeps (now : Int) (reason : Codes) :
    Keeps (Claimed dates digest terms skip) (clearBootstrapExchange dates now reason) := by
  unfold clearBootstrapExchange
  refine Keeps.getStore_bind fun w hw => Keeps.ite (fun _ => ?_) fun _ => Keeps.pure
  refine Keeps.bind (Keeps.modifyStore fun w hw => ⟨hw.files, { hw.store with }⟩) fun _ => ?_
  exact recordHistoryEvent_keeps now reason (allowed_of (by decide)) (by simp [strict, strictFields])

theorem pruneBootstrapProof_keeps (now : Int) :
    Keeps (Claimed dates digest terms skip) (pruneBootstrapProof dates now) := by
  unfold pruneBootstrapProof
  refine Keeps.getStore_bind fun w hw => ?_
  cases w.store.bootstrapProof with
  | none => exact Keeps.pure
  | some proof => exact Keeps.ite (fun _ => Keeps.pure) fun _ => clearBootstrapProof_keeps now _

theorem pruneBootstrapExchange_keeps (now : Int) :
    Keeps (Claimed dates digest terms skip) (pruneBootstrapExchange dates now) := by
  unfold pruneBootstrapExchange
  refine Keeps.getStore_bind fun w hw => ?_
  cases w.store.bootstrapExchange with
  | none => exact Keeps.pure
  | some exchange => exact Keeps.ite (fun _ => Keeps.pure) fun _ => clearBootstrapExchange_keeps now _

/-! ## Expiry and saves -/

/-- A time at which the sessions passed over all go when the expired sessions do. -/
structure Expiring (dates : DateTimes) (now : Int) (keyId : Codes) (store : ApiKeyStore) : Prop where
  expired : ∀ item ∈ store.uiSessions.items, item.2.apiKeyId = some keyId → sessionExpired dates now item.2 = some true
  reached : (∃ item ∈ store.uiSessions.items, item.2.apiKeyId = some keyId) →
    ∀ item ∈ store.uiSessions.items, sessionExpired dates now item.2 ≠ none

theorem pruneExpiredUiSessions_keeps (now : Int) :
    Keeps (Claimed dates digest terms skip) (pruneExpiredUiSessions dates now) := by
  unfold pruneExpiredUiSessions
  refine Keeps.getStore_bind fun w hw => Keeps.guard fun _ => Keeps.modifyStore fun w hw => ?_
  exact ⟨hw.files, hw.store.filter (.inl rfl)⟩

/-- The sessions of a rotated key go with the expired ones. -/
theorem pruneExpiredUiSessions_drops {now : Int} {keyId : Codes} :
    Triple (Living fun w => Claimed dates digest terms (some keyId) w ∧ Expiring dates now keyId w.store)
      (pruneExpiredUiSessions dates now) (fun _ => Living (Claimed dates digest terms none))
      (Living (Claimed dates digest terms none)) := by
  unfold pruneExpiredUiSessions
  refine Triple.read_bind fun m hm => ?_
  obtain ⟨⟨⟨hfiles, htidy⟩, hexpired, hreached⟩, hlives⟩ := hm
  split_ifs with hnaive
  · -- It raises only where no session is passed over.
    refine Triple.raise_bind ?_
    rintro m' rfl
    obtain ⟨item, hitem, hnone⟩ := List.any_eq_true.1 hnaive
    have hfree : ∀ item ∈ m'.world.store.uiSessions.items, item.2.apiKeyId ≠ some keyId := fun other hother hkey =>
      hreached ⟨other, hother, hkey⟩ item hitem (by simpa using hnone)
    exact ⟨⟨hfiles, { htidy with bound := fun item hitem _ => htidy.bound item hitem (.inr (hfree item hitem)) }⟩, hlives⟩
  · refine Triple.update ?_
    rintro m' rfl
    refine ⟨⟨hfiles, htidy.filter (.inr fun item hitem hkept => .inr fun hkey => ?_)⟩, hlives⟩
    rw [hexpired item hitem hkey] at hkept
    simp at hkept

theorem strict_details_json (snapshot : HistorySnapshot) : strict (.obj snapshot.details) = true := by
  simp [HistorySnapshot.details, strict, strictFields]

/-- A save of what the expiry makes tidy. -/
theorem save_of_prune {now : Int} {P : World → Prop} (hprune : Triple (Living P) (pruneExpiredUiSessions dates now)
      (fun _ => Living (Claimed dates digest terms none)) (Living (Claimed dates digest terms none))) :
    Triple (Living P) (save dates now) (fun _ => Living (Claimed dates digest terms none))
      (Living (Claimed dates digest terms none)) := by
  unfold save
  refine Triple.bind (Q := fun payload => Living fun w => Claimed dates digest terms none w ∧
    ∃ store, Tidy terms.keyId terms.storedVersion none store ∧ payload = store.payload) ?_ fun payload => ?_
  · unfold toStr
    refine Triple.bind hprune fun _ => ?_
    refine Triple.bind (pruneBootstrapProof_keeps now) fun _ => ?_
    refine Triple.bind (pruneBootstrapExchange_keeps now) fun _ => ?_
    refine Triple.read_bind fun m hm => Triple.pure ?_
    rintro m' rfl
    exact ⟨⟨hm.1, m'.world.store, hm.1.store, rfl⟩, hm.2⟩
  refine Triple.bind (Q := fun _ => Living (Claimed dates digest terms none)) ?_ fun _ => ?_
  · refine Living.act ?_ fun w hw => hw.1
    rintro w ⟨hw, store, hstore, rfl⟩
    exact ⟨hw.files.save hstore, hw.store⟩
  · refine Keeps.getStore_bind fun w hw => Keeps.ite (fun _ => ?_) fun _ => Keeps.pure
    refine Keeps.bind (recordHistoryEvent_keeps now _ (allowed_of (by decide)) (strict_details_json _)) fun _ => ?_
    exact Keeps.modifyStore fun w hw => ⟨hw.files, { hw.store with }⟩

theorem save_keeps (now : Int) : Keeps (Claimed dates digest terms none) (save dates now) :=
  save_of_prune (pruneExpiredUiSessions_keeps now)

/-! ## Bootstrap secrets -/

theorem ensureBootstrapProof_keeps (now : Int) (secret : Codes) :
    Keeps (Claimed dates digest terms skip) (ensureBootstrapProof dates now secret) := by
  unfold ensureBootstrapProof
  refine Keeps.bind (pruneBootstrapProof_keeps now) fun _ => ?_
  refine Keeps.bind (pruneBootstrapExchange_keeps now) fun _ => Keeps.getStore_bind fun w hw => ?_
  refine Keeps.ite (fun _ => ?_) fun _ => ?_
  · refine Keeps.bind (clearBootstrapProof_keeps now _) fun _ => ?_
    exact Keeps.bind (clearBootstrapExchange_keeps now _) fun _ => Keeps.pure
  · refine Keeps.ite (fun _ => ?_) fun _ => Keeps.getStore_bind fun w hw => Keeps.pure
    refine Keeps.bind (Keeps.modifyStore fun w hw => ⟨hw.files, { hw.store with }⟩) fun _ => ?_
    refine Keeps.bind (recordHistoryEvent_keeps now _ (allowed_of (by decide)) (by simp [strict, strictFields])) fun _ => ?_
    exact Keeps.getStore_bind fun w hw => Keeps.pure

theorem ensureBootstrapExchange_keeps (now : Int) (secret : Codes) :
    Keeps (Claimed dates digest terms skip) (ensureBootstrapExchange dates now secret) := by
  unfold ensureBootstrapExchange
  refine Keeps.bind (pruneBootstrapExchange_keeps now) fun _ => Keeps.getStore_bind fun w hw => ?_
  refine Keeps.ite (fun _ => ?_) fun _ => ?_
  · exact Keeps.bind (clearBootstrapExchange_keeps now _) fun _ => Keeps.pure
  · refine Keeps.ite (fun _ => ?_) fun _ => Keeps.getStore_bind fun w hw => Keeps.pure
    refine Keeps.bind (Keeps.modifyStore fun w hw => ⟨hw.files, { hw.store with }⟩) fun _ => ?_
    refine Keeps.bind (recordHistoryEvent_keeps now _ (allowed_of (by decide)) (by simp [strict, strictFields])) fun _ => ?_
    exact Keeps.getStore_bind fun w hw => Keeps.pure

theorem peekBootstrapProof_keeps (now : Int) (secret : Codes) :
    Keeps (Claimed dates digest terms skip) (peekBootstrapProof dates now secret) := by
  unfold peekBootstrapProof
  refine Keeps.ite (fun _ => Keeps.pure) fun _ => Keeps.bind (pruneBootstrapProof_keeps now) fun _ => ?_
  refine Keeps.getStore_bind fun w hw => ?_
  cases w.store.bootstrapProof with
  | none => exact Keeps.pure
  | some proof => exact Keeps.pure

theorem peekBootstrapExchange_keeps (now : Int) (secret : Codes) :
    Keeps (Claimed dates digest terms skip) (peekBootstrapExchange dates now secret) := by
  unfold peekBootstrapExchange
  refine Keeps.ite (fun _ => Keeps.pure) fun _ => Keeps.bind (pruneBootstrapExchange_keeps now) fun _ => ?_
  refine Keeps.getStore_bind fun w hw => ?_
  cases w.store.bootstrapExchange with
  | none => exact Keeps.pure
  | some exchange => exact Keeps.pure

theorem consumeBootstrapProof_keeps (now : Int) (secret : Codes) :
    Keeps (Claimed dates digest terms skip) (consumeBootstrapProof dates now secret) := by
  unfold consumeBootstrapProof
  refine Keeps.bind (peekBootstrapProof_keeps now secret) fun found => Keeps.ite (fun _ => Keeps.pure) fun _ => ?_
  refine Keeps.bind (Keeps.modifyStore fun w hw => ⟨hw.files, { hw.store with }⟩) fun _ => ?_
  exact Keeps.bind (recordHistoryEvent_keeps now _ (allowed_of (by decide)) rfl) fun _ => Keeps.pure

theorem consumeBootstrapExchange_keeps (now : Int) (secret : Codes) :
    Keeps (Claimed dates digest terms skip) (consumeBootstrapExchange dates now secret) := by
  unfold consumeBootstrapExchange
  refine Keeps.bind (peekBootstrapExchange_keeps now secret) fun found => Keeps.ite (fun _ => Keeps.pure) fun _ => ?_
  refine Keeps.bind (Keeps.modifyStore fun w hw => ⟨hw.files, { hw.store with }⟩) fun _ => ?_
  exact Keeps.bind (recordHistoryEvent_keeps now _ (allowed_of (by decide)) rfl) fun _ => Keeps.pure

/-! ## Sessions -/

theorem findUiSessionBySecret_keeps (now : Int) (secret : Codes) :
    Keeps (Claimed dates digest terms skip) (findUiSessionBySecret dates now secret) := by
  unfold findUiSessionBySecret
  exact Keeps.bind (pruneExpiredUiSessions_keeps now) fun _ => Keeps.getStore_bind fun w hw => Keeps.pure

theorem invalidateUiSession_keeps (now : Int) (secret : Codes) :
    Keeps (Claimed dates digest terms none) (invalidateUiSession dates now secret) := by
  unfold invalidateUiSession
  refine Keeps.ite (fun _ => Keeps.pure) fun _ => Keeps.getStore_bind fun w hw => ?_
  refine Keeps.ite (fun _ => ?_) fun _ => Keeps.pure
  exact Keeps.bind (Keeps.modifyStore fun w hw => ⟨hw.files, hw.store.filter (.inl rfl)⟩) fun _ => save_keeps now

/-- The sessions of a key go, and with them those that were passed over. -/
theorem discardBrowserSessionsForApiKey_drops (now : Int) (id : Codes) (reason : String)
    (hskip : skip = none ∨ skip = some id) : Triple (Living (Claimed dates digest terms skip))
      (discardBrowserSessionsForApiKey dates now id reason) (fun _ => Living (Claimed dates digest terms none))
      (Living (Claimed dates digest terms none)) := by
  unfold discardBrowserSessionsForApiKey
  refine Triple.read_bind fun m hm => Keeps.modify_bind (J := Claimed dates digest terms none) ?_ ?_
  · rintro m' rfl
    refine ⟨⟨hm.1.files, ?_⟩, hm.2⟩
    rcases hskip with rfl | rfl
    · exact hm.1.store.filter (.inl rfl)
    · refine hm.1.store.filter (.inr fun item _ hkept => .inr ?_)
      simpa using hkept
  · refine Keeps.bind (recordHistoryEvent_keeps now _ (allowed_of (by decide)) (by simp [strict, strictFields])) fun _ => ?_
    exact Keeps.pure

/-- An id and a hash that a session can be bound by. -/
def BindsTo (store : ApiKeyStore) (id hash : Codes) : Prop :=
  ∃ record ∈ store.apiKeys, record.revokedAt = none ∧ strip id = record.id ∧ strip hash = record.secretHash

/-- Scopes are normal or the program raises. -/
theorem scopes_bind {α : Type} {P E : Machine Target World → Prop} {R : α → Machine Target World → Prop}
    {scopes : Option (List (Option Codes))} {f : List Codes → M α} (hraise : ∀ m, P m → E m)
    (hf : ∀ normalized, NormalScopes normalized → Triple P (f normalized) R E) :
    Triple P (match normalizeScopes scopes with
      | .ok normalized => pure normalized >>= f
      | .error error => Program.raise error >>= f) R E := by
  cases hnormal : normalizeScopes scopes with
  | ok normalized => exact hf normalized (normalScopes_of_ok hnormal)
  | error error => exact Triple.raise_bind hraise

theorem createUiSession_keeps (now : Int) (secret : Codes) (scopes : List Codes) (remembered : Bool) (id hash : Codes) :
    Triple (Living fun w => Claimed dates digest terms none w ∧ BindsTo w.store id hash)
      (createUiSession dates now secret scopes false remembered (some id) (some hash))
      (fun _ => Living (Claimed dates digest terms none)) (Living (Claimed dates digest terms none)) := by
  unfold createUiSession
  refine scopes_bind (fun m hm => ⟨hm.1.1, hm.2⟩) fun normalized hnormal => ?_
  refine Triple.check (fun m hm => ⟨hm.1.1, hm.2⟩) fun _ => Triple.check (fun m hm => ⟨hm.1.1, hm.2⟩) fun _ => ?_
  refine Triple.check (fun m hm => ⟨hm.1.1, hm.2⟩) fun _ => ?_
  refine Keeps.modify_bind (J := Claimed dates digest terms none) ?_ ?_
  · rintro m ⟨⟨hclaimed, record, hmem, hactive, hkey, hsecret⟩, hlives⟩
    refine ⟨⟨hclaimed.files, hclaimed.store.addSession hnormal ?_⟩, hlives⟩
    exact ⟨rfl, record, hmem, hactive, by rw [← hkey]; rfl, by rw [← hsecret]; rfl⟩
  · refine Keeps.bind (pruneExpiredUiSessions_keeps now) fun _ => Keeps.bind (save_keeps now) fun _ => ?_
    refine Keeps.bind (recordHistoryEvent_keeps now _ (allowed_of ?_) ?_) fun _ => Keeps.pure
    · decide
    · simp [strict, strictFields, strict_strOption, strict_str_list]

theorem createBrowserSessionForApiKey_keeps (now : Int) (secret keyId : Codes) (remembered : Bool) {w : World}
    (hstrip : ∀ record, w.store.getApiKey keyId = some record → strip record.id = record.id ∧
      strip record.secretHash = record.secretHash) :
    Triple (fun m => Living (Claimed dates digest terms none) m ∧ m.world = w)
      (createBrowserSessionForApiKey dates now secret keyId remembered)
      (fun _ => Living (Claimed dates digest terms none)) (Living (Claimed dates digest terms none)) := by
  unfold createBrowserSessionForApiKey
  split_ifs with hblank
  · exact Triple.raise_bind fun m hm => hm.1
  · refine Triple.read_bind fun m hm => ?_
    obtain ⟨hclaimed, rfl⟩ := hm
    cases hget : m.world.store.getApiKey keyId with
    | none => exact Triple.of_eq hclaimed Keeps.raise
    | some record =>
      dsimp only
      split_ifs with hrevoked
      · exact Triple.raise_bind (by rintro m' rfl; exact hclaimed)
      · obtain ⟨hid, hhash⟩ := hstrip record hget
        have hactive : record.revokedAt = none := by simpa [ApiKeyRecord.isRevoked] using hrevoked
        refine Triple.of_eq ?_ (createUiSession_keeps now secret record.scopes remembered record.id record.secretHash)
        exact ⟨⟨hclaimed.1, record, (of_getApiKey hget).1, hactive, hid, hhash⟩, hclaimed.2⟩

/-! ## Keys -/

theorem strict_keyDetails (record : ApiKeyRecord) : strict (.obj (keyDetails record)) = true := by
  simp [keyDetails, strict, strictFields, strict_str_list]

theorem createApiKey_keeps (now : Int) (id hash name : Codes) (scopes : Option (List (Option Codes))) :
    Triple (Living fun w => Claimed dates digest terms none w ∧ ∀ record ∈ w.store.apiKeys, record.id ≠ id)
      (createApiKey dates now id hash name scopes) (fun _ => Living (Claimed dates digest terms none))
      (Living (Claimed dates digest terms none)) := by
  unfold createApiKey
  refine Triple.bind (Q := fun _ => Living (Claimed dates digest terms none)) ?_ fun record => ?_
  · unfold createApiKeyRecord
    refine scopes_bind (fun m hm => ⟨hm.1.1, hm.2⟩) fun normalized hnormal => ?_
    split_ifs with hblank
    · exact Triple.raise_bind fun m hm => ⟨hm.1.1, hm.2⟩
    · refine Keeps.modify_bind (J := Claimed dates digest terms none) ?_ Keeps.pure
      exact fun m hm => ⟨⟨hm.1.1.files, hm.1.1.store.addKey hnormal hm.1.2⟩, hm.2⟩
  · have hrest : Keeps (Claimed dates digest terms none) (do
        save dates now
        recordHistoryEvent dates now "api_key_created" (codes "create_api_key") (keyDetails record)
        return record) := by
      refine Keeps.bind (save_keeps now) fun _ => ?_
      exact Keeps.bind (recordHistoryEvent_keeps now _ (allowed_of (by decide)) (strict_keyDetails record)) fun _ => Keeps.pure
    refine Keeps.ite (fun _ => ?_) fun _ => hrest
    refine Keeps.bind (clearBootstrapProof_keeps now _) fun _ => ?_
    exact Keeps.bind (clearBootstrapExchange_keeps now _) fun _ => hrest

theorem getApiKey_setApiKey {store : ApiKeyStore} {id : Codes} {record new : ApiKeyRecord}
    (hids : (store.apiKeys.map ApiKeyRecord.id).Nodup) (hget : store.getApiKey id = some record) (hid : new.id = record.id) :
    (store.setApiKey id new).getApiKey id = some new := by
  obtain ⟨-, hrecord⟩ := of_getApiKey hget
  have hmem : new ∈ (store.setApiKey id new).apiKeys := (mem_setApiKey hids hget).2 (.inl rfl)
  have hget' := getApiKey_of_mem (by rw [setApiKey_ids hids hget hid]; exact hids) hmem
  rw [hid, hrecord] at hget'
  exact hget'

/-- A record is written over, saved and told of. -/
theorem replaceApiKey_keeps (now : Int) {id : Codes} {record new : ApiKeyRecord} (reason : Codes) (hid : new.id = record.id)
    (hscopes : NormalScopes new.scopes) (hinitial : id = terms.keyId → new.revokedAt = none ∧ adminScope ∈ new.scopes)
    (hsame : new.revokedAt = record.revokedAt ∧ new.secretHash = record.secretHash) :
    Triple (Living fun w => Claimed dates digest terms none w ∧ w.store.getApiKey id = some record)
      (do
        modifyStore fun store => store.setApiKey id new
        save dates now
        recordHistoryEvent dates now "api_key_updated" reason (keyDetails new)
        return new)
      (fun _ => Living (Claimed dates digest terms none)) (Living (Claimed dates digest terms none)) := by
  refine Keeps.modify_bind (J := Claimed dates digest terms none) ?_ ?_
  · exact fun m hm => ⟨⟨hm.1.1.files, hm.1.1.store.setApiKey hm.1.2 hid hscopes hinitial (.inr hsame)⟩, hm.2⟩
  · refine Keeps.bind (save_keeps now) fun _ => ?_
    exact Keeps.bind (recordHistoryEvent_keeps now _ (allowed_of (by decide)) (strict_keyDetails new)) fun _ => Keeps.pure

theorem Claimed.initialKey {w : World} (h : Claimed dates digest terms skip w) {record : ApiKeyRecord}
    (hget : w.store.getApiKey terms.keyId = some record) : record.revokedAt = none ∧ adminScope ∈ record.scopes := by
  obtain ⟨r, hr, hid, hactive, hscope⟩ := h.store.initial
  have hsame := getApiKey_of_mem h.store.ids hr
  rw [hid, hget] at hsame
  cases hsame
  exact ⟨hactive, hscope⟩

/-- An update of the initial key leaves it the scope of an administrator. -/
theorem updateApiKey_keeps (now : Int) (id : Codes) (name : Option Codes) (scopes : Option (Option (List (Option Codes))))
    (hadmin : id = terms.keyId → ∀ given normalized, scopes = some given → normalizeScopes given = .ok normalized →
      adminScope ∈ normalized) :
    Keeps (Claimed dates digest terms none) (updateApiKey dates now id name scopes) := by
  unfold updateApiKey
  refine Triple.read_bind fun m hm => ?_
  cases hget : m.world.store.getApiKey id with
  | none => exact Triple.of_eq hm Keeps.raise
  | some record =>
    have hnormal := hm.1.store.scopes record (of_getApiKey hget).1
    dsimp only
    refine Triple.check (by rintro m' rfl; exact hm) fun _ => Triple.check (by rintro m' rfl; exact hm) fun _ => ?_
    have hinitial : id = terms.keyId → record.revokedAt = none ∧ adminScope ∈ record.scopes := by
      rintro rfl
      exact hm.1.initialKey hget
    refine Keeps.modify_bind (J := fun w => Claimed dates digest terms none w ∧ w.store.getApiKey id =
      some { record with name := (name.map strip).getD record.name }) ?_ ?_
    · rintro m' rfl
      refine ⟨⟨⟨hm.1.files, hm.1.store.setApiKey hget rfl hnormal hinitial (.inr ⟨rfl, rfl⟩)⟩, ?_⟩, hm.2⟩
      exact getApiKey_setApiKey hm.1.store.ids hget rfl
    cases scopes with
    | none => exact replaceApiKey_keeps now _ rfl hnormal hinitial ⟨rfl, rfl⟩
    | some given =>
      dsimp only
      cases hgiven : normalizeScopes given with
      | error error => exact Triple.raise_bind fun m hm => ⟨hm.1.1, hm.2⟩
      | ok normalized =>
        have hadmin' : id = terms.keyId → record.revokedAt = none ∧ adminScope ∈ normalized := fun hkey =>
          ⟨(hinitial hkey).1, hadmin hkey given normalized rfl hgiven⟩
        exact replaceApiKey_keeps now _ rfl (normalScopes_of_ok hgiven) hadmin' ⟨rfl, rfl⟩

/-- Only a revoked key is deleted. -/
theorem deleteApiKey_keeps (now : Int) (id : Codes) :
    Keeps (Claimed dates digest terms none) (deleteApiKey dates now id) := by
  unfold deleteApiKey
  refine Triple.read_bind fun m hm => Triple.of_eq hm ?_
  cases m.world.store.getApiKey id with
  | none => exact Keeps.raise
  | some record =>
    refine Keeps.guard fun hrevoked => ?_
    have hrevoked' : record.revokedAt ≠ none := by
      intro hnone
      simp [ApiKeyRecord.isRevoked, hnone] at hrevoked
    refine Triple.bind (discardBrowserSessionsForApiKey_drops now record.id _ (.inl rfl)) fun discarded => ?_
    refine Keeps.bind (Keeps.modifyStore fun w hw => ⟨hw.files, hw.store.eraseKey hrevoked'⟩) fun _ => ?_
    refine Keeps.bind (save_keeps now) fun _ => ?_
    exact Keeps.bind (recordHistoryEvent_keeps now _ (allowed_of (by decide)) (by simp [strict, strictFields])) fun _ => Keeps.pure

/-- A key that is revoked takes its sessions with it. -/
theorem revokeApiKey_keeps (now : Int) {id : Codes} (hid : id ≠ terms.keyId) :
    Keeps (Claimed dates digest terms none) (revokeApiKey dates now id) := by
  unfold revokeApiKey
  refine Triple.read_bind fun m hm => ?_
  cases hget : m.world.store.getApiKey id with
  | none => exact Triple.of_eq hm Keeps.raise
  | some record =>
    obtain ⟨hrecord, hrecordId⟩ := of_getApiKey hget
    dsimp only
    refine Triple.check (by rintro m' rfl; exact hm) fun _ => ?_
    refine Keeps.modify_bind (J := Claimed dates digest terms (some record.id)) ?_ ?_
    · rintro m' rfl
      refine ⟨⟨hm.1.files, (hm.1.store.of_none _).setApiKey hget rfl (hm.1.store.scopes record hrecord) ?_ (.inl ?_)⟩, hm.2⟩
      · exact fun hkey => absurd hkey hid
      · rw [hrecordId]
    refine Triple.bind (discardBrowserSessionsForApiKey_drops now record.id _ (.inr rfl)) fun discarded => ?_
    refine Keeps.bind (save_keeps now) fun _ => ?_
    exact Keeps.bind (recordHistoryEvent_keeps now _ (allowed_of (by decide)) (by simp [strict, strictFields])) fun _ => Keeps.pure

/-- A key is given another hash while no session that stays belongs to it. -/
theorem rotateApiKey_keeps (now : Int) (id hash : Codes) :
    Triple (Living fun w => Claimed dates digest terms none w ∧ Expiring dates now id w.store) (rotateApiKey dates now id hash)
      (fun _ => Living (Claimed dates digest terms none)) (Living (Claimed dates digest terms none)) := by
  unfold rotateApiKey
  refine Triple.read_bind fun m hm => ?_
  obtain ⟨⟨hclaimed, hexpiring⟩, hlives⟩ := hm
  cases hget : m.world.store.getApiKey id with
  | none => exact Triple.of_eq ⟨hclaimed, hlives⟩ Keeps.raise
  | some record =>
    obtain ⟨hrecord, -⟩ := of_getApiKey hget
    have hinitial : id = terms.keyId → record.revokedAt = none ∧ adminScope ∈ record.scopes := by
      rintro rfl
      exact hclaimed.initialKey hget
    dsimp only
    refine Triple.check (by rintro m' rfl; exact ⟨hclaimed, hlives⟩) fun _ => ?_
    refine Keeps.modify_bind (J := fun w => Claimed dates digest terms (some id) w ∧ Expiring dates now id w.store) ?_ ?_
    · rintro m' rfl
      obtain ⟨hsessions, -⟩ := setApiKey_uiSessions m'.world.store id
        { record with secretHash := hash, updatedAt := dates.utc now }
      refine ⟨⟨⟨hclaimed.files, ?_⟩, ⟨?_, ?_⟩⟩, hlives⟩
      · exact (hclaimed.store.of_none _).setApiKey hget rfl (hclaimed.store.scopes record hrecord) hinitial (.inl rfl)
      · exact fun item hitem => hexpiring.expired item (hsessions ▸ hitem)
      · rintro ⟨item, hitem, hkey⟩ other hother
        exact hexpiring.reached ⟨item, hsessions ▸ hitem, hkey⟩ other (hsessions ▸ hother)
    refine Triple.bind (save_of_prune pruneExpiredUiSessions_drops) fun _ => ?_
    exact Keeps.bind (recordHistoryEvent_keeps now _ (allowed_of (by decide)) (strict_keyDetails _)) fun _ => Keeps.pure

/-- The file of a claimed store is loaded. -/
theorem load_keeps (now : Int) (backupPath : Codes) : Keeps (Claimed dates digest terms none) (load dates now backupPath) := by
  unfold load
  refine Triple.read_bind fun m hm => ?_
  obtain ⟨doc, hdoc, hread⟩ := hm.1.files.store
  obtain ⟨-, store, hstore, htidy⟩ := tidy_of_read hread
  simp only [id_eq, hdoc, hstore]
  refine Keeps.modify_bind (J := Claimed dates digest terms none) ?_ ?_
  · rintro m' rfl
    exact ⟨⟨hm.1.files, htidy⟩, hm.2⟩
  · exact recordHistoryEvent_keeps now _ (allowed_of (by decide)) (strict_details_json _)

end Operations

/-! ## Runs -/

/-- The operations on keys, on sessions that belong to keys and on bootstrap secrets. What the code makes
up (ids, hashes, secrets) is given. -/
inductive CredentialOp where
  | createApiKey (id hash name : Codes) (scopes : Option (List (Option Codes)))
  | updateApiKey (keyId : Codes) (name : Option Codes) (scopes : Option (Option (List (Option Codes))))
  | deleteApiKey (keyId : Codes)
  | revokeApiKey (keyId : Codes)
  | rotateApiKey (keyId hash : Codes)
  | createUiSession (secret : Codes) (scopes : List Codes) (remembered : Bool) (apiKeyId apiKeySecretHash : Codes)
  | createBrowserSession (secret keyId : Codes) (remembered : Bool)
  | findUiSession (secret : Codes)
  | invalidateUiSession (secret : Codes)
  | ensureProof (secret : Codes)
  | peekProof (secret : Codes)
  | consumeProof (secret : Codes)
  | clearProof (reason : Codes)
  | ensureExchange (secret : Codes)
  | peekExchange (secret : Codes)
  | consumeExchange (secret : Codes)
  | clearExchange (reason : Codes)
  | save
  | reload (backupPath : Codes)

/-- An operation at a time, and how its steps on the files end. -/
structure CredentialStep where
  now : Int
  op : CredentialOp
  outcomes : Target → List Outcome := fun _ => []

def CredentialOp.program (dates : DateTimes) (now : Int) : CredentialOp → M Unit
  | .createApiKey id hash name scopes => discard (Auth.createApiKey dates now id hash name scopes)
  | .updateApiKey keyId name scopes => discard (Auth.updateApiKey dates now keyId name scopes)
  | .deleteApiKey keyId => discard (Auth.deleteApiKey dates now keyId)
  | .revokeApiKey keyId => discard (Auth.revokeApiKey dates now keyId)
  | .rotateApiKey keyId hash => discard (Auth.rotateApiKey dates now keyId hash)
  | .createUiSession secret scopes remembered keyId hash =>
    discard (Auth.createUiSession dates now secret scopes false remembered (some keyId) (some hash))
  | .createBrowserSession secret keyId remembered => discard (createBrowserSessionForApiKey dates now secret keyId remembered)
  | .findUiSession secret => discard (findUiSessionBySecret dates now secret)
  | .invalidateUiSession secret => Auth.invalidateUiSession dates now secret
  | .ensureProof secret => discard (ensureBootstrapProof dates now secret)
  | .peekProof secret => discard (peekBootstrapProof dates now secret)
  | .consumeProof secret => discard (consumeBootstrapProof dates now secret)
  | .clearProof reason => clearBootstrapProof dates now reason
  | .ensureExchange secret => discard (ensureBootstrapExchange dates now secret)
  | .peekExchange secret => discard (peekBootstrapExchange dates now secret)
  | .consumeExchange secret => discard (consumeBootstrapExchange dates now secret)
  | .clearExchange reason => clearBootstrapExchange dates now reason
  | .save => Auth.save dates now
  | .reload backupPath => load dates now backupPath

def CredentialStep.run (dates : DateTimes) (step : CredentialStep) (w : World) : World :=
  ((step.op.program dates step.now).run.run ⟨w, step.outcomes⟩).2.world

def runCredentials (dates : DateTimes) (w : World) (steps : List CredentialStep) : World :=
  steps.foldl (fun w step => step.run dates w) w

/-- Each step meets `P` in the world that it starts from. -/
def Along (dates : DateTimes) (P : World → CredentialStep → Prop) : World → List CredentialStep → Prop
  | _, [] => True
  | w, step :: steps => P w step ∧ Along dates P (step.run dates w) steps

/-- The id of a new key is new, the initial key is neither revoked nor left without the scope of an
administrator, a session is bound to a key by its current hash, and the process does not die. -/
def CredentialStep.Allowed (initial : Codes) (w : World) (step : CredentialStep) : Prop :=
  (∀ target, ∀ outcome ∈ step.outcomes target, ∀ part, outcome ≠ .dies part) ∧
  match step.op with
  | .createApiKey id _ _ _ => ∀ record ∈ w.store.apiKeys, record.id ≠ id
  | .updateApiKey keyId _ scopes => keyId = initial → ∀ given normalized, scopes = some given →
      normalizeScopes given = .ok normalized → adminScope ∈ normalized
  | .revokeApiKey keyId => keyId ≠ initial
  | .createUiSession _ _ _ keyId hash =>
      ∃ record ∈ w.store.apiKeys, record.revokedAt = none ∧ keyId = record.id ∧ hash = record.secretHash
  | _ => True

/-- A key is rotated while no session that stays belongs to it, and a session is bound to a key whose id
and hash have no blanks around them. -/
def CredentialStep.Careful (dates : DateTimes) (w : World) (step : CredentialStep) : Prop :=
  match step.op with
  | .rotateApiKey keyId _ => Expiring dates step.now keyId w.store
  | .createUiSession _ _ _ keyId hash => strip keyId = keyId ∧ strip hash = hash
  | .createBrowserSession _ keyId _ =>
      ∀ record ∈ w.store.getApiKey keyId, strip record.id = record.id ∧ strip record.secretHash = record.secretHash
  | _ => True

variable {dates : DateTimes} {digest : Codes → Codes} {terms : ClaimTerms}

/-- What a step keeps of a claimed world. -/
theorem Claimed.step {w : World} (h : Claimed dates digest terms none w) {step : CredentialStep}
    (hallowed : step.Allowed terms.keyId w) (hcareful : step.Careful dates w) :
    Claimed dates digest terms none (step.run dates w) := by
  obtain ⟨now, op, outcomes⟩ := step
  obtain ⟨hlives, hop⟩ := hallowed
  have hrun : ∀ {α : Type} {P : Machine Target World → Prop} {program : M α}, Triple P program
      (fun _ => Living (Claimed dates digest terms none)) (Living (Claimed dates digest terms none)) →
      P ⟨w, outcomes⟩ → Claimed dates digest terms none (program.run.run ⟨w, outcomes⟩).2.world :=
    fun htriple hpre => (htriple.run hpre).1
  have hliving : Living (Claimed dates digest terms none) ⟨w, outcomes⟩ := ⟨h, hlives⟩
  unfold CredentialStep.run
  cases op <;> unfold CredentialOp.program <;> dsimp only <;> try rw [run_discard]
  case createApiKey id hash name scopes => exact hrun (createApiKey_keeps now id hash name scopes) ⟨⟨h, hop⟩, hlives⟩
  case updateApiKey keyId name scopes => exact hrun (updateApiKey_keeps now keyId name scopes hop) hliving
  case deleteApiKey keyId => exact hrun (deleteApiKey_keeps now keyId) hliving
  case revokeApiKey keyId => exact hrun (revokeApiKey_keeps now hop) hliving
  case rotateApiKey keyId hash => exact hrun (rotateApiKey_keeps now keyId hash) ⟨⟨h, hcareful⟩, hlives⟩
  case createUiSession secret scopes remembered keyId hash =>
    obtain ⟨record, hmem, hactive, rfl, rfl⟩ := hop
    exact hrun (createUiSession_keeps now secret scopes remembered _ _) ⟨⟨h, record, hmem, hactive, hcareful⟩, hlives⟩
  case createBrowserSession secret keyId remembered =>
    exact hrun (createBrowserSessionForApiKey_keeps now secret keyId remembered hcareful) ⟨hliving, rfl⟩
  case findUiSession secret => exact hrun (findUiSessionBySecret_keeps now secret) hliving
  case invalidateUiSession secret => exact hrun (invalidateUiSession_keeps now secret) hliving
  case ensureProof secret => exact hrun (ensureBootstrapProof_keeps now secret) hliving
  case peekProof secret => exact hrun (peekBootstrapProof_keeps now secret) hliving
  case consumeProof secret => exact hrun (consumeBootstrapProof_keeps now secret) hliving
  case clearProof reason => exact hrun (clearBootstrapProof_keeps now reason) hliving
  case ensureExchange secret => exact hrun (ensureBootstrapExchange_keeps now secret) hliving
  case peekExchange secret => exact hrun (peekBootstrapExchange_keeps now secret) hliving
  case consumeExchange secret => exact hrun (consumeBootstrapExchange_keeps now secret) hliving
  case clearExchange reason => exact hrun (clearBootstrapExchange_keeps now reason) hliving
  case save => exact hrun (save_keeps now) hliving
  case reload backupPath => exact hrun (load_keeps now backupPath) hliving

theorem Claimed.run {w : World} (h : Claimed dates digest terms none w) {steps : List CredentialStep}
    (hallowed : Along dates (fun w step => step.Allowed terms.keyId w) w steps)
    (hcareful : Along dates (fun w step => step.Careful dates w) w steps) :
    Claimed dates digest terms none (runCredentials dates w steps) := by
  induction steps generalizing w with
  | nil => exact h
  | cons step steps ih => exact ih (h.step hallowed.1 hcareful.1) hallowed.2 hcareful.2

/-! ## The application starts again -/

/-- From a store loaded of accepted files; `initial` is the key that the marker names. -/
theorem credentials_accepted (dates : DateTimes) (digest : Codes → Codes) {w : World} {binding : TransitionBinding}
    {store marker : Doc} {version initial : Codes} (hstart : validateClaimedAuthState dates digest w.files binding = true)
    (hstore : w.files.store = some store) (hloaded : fromStr store.value = some w.store)
    (hmarker : w.files.marker = some marker) (hread : readMarker binding marker = some (version, initial))
    (steps : List CredentialStep) (hallowed : Along dates (fun w step => step.Allowed initial w) w steps)
    (hcareful : Along dates (fun w step => step.Careful dates w) w steps)
    (hlimits : claimedWithinLimits (runCredentials dates w steps).files = true) :
    validateClaimedAuthState dates digest (runCredentials dates w steps).files binding = true := by
  obtain ⟨-, terms, rfl, hfiles⟩ := (validate_iff dates digest).1 hstart
  obtain ⟨doc, hdoc, hterms⟩ := hfiles.marker
  rw [hmarker, Option.some.injEq] at hdoc
  subst hdoc
  rw [hread, Option.some.injEq, Prod.mk.injEq] at hterms
  obtain ⟨-, rfl⟩ := hterms
  obtain ⟨doc, hdoc, hclaimed⟩ := hfiles.store
  rw [hstore, Option.some.injEq] at hdoc
  subst hdoc
  obtain ⟨-, loaded, hloaded', htidy⟩ := tidy_of_read hclaimed
  rw [hloaded, Option.some.injEq] at hloaded'
  subst hloaded'
  have hrun := Claimed.run ⟨hfiles, htidy⟩ hallowed hcareful
  exact (validate_iff dates digest).2 ⟨hlimits, terms, rfl, hrun.files⟩

set_option maxRecDepth 10000

def sampleBinding : TransitionBinding where
  migrationId := codes "seedsync-v0.8.6"
  backup := codes "migration-backups/first"
  receiptSha256 := List.replicate 64 97
  backupManifestSha256 := List.replicate 64 98

/-- The id of a key, with a digit of its own. -/
def sampleKeyId (digit : Nat) : Codes := List.replicate 36 (48 + digit)

def sampleMarker : Json :=
  .obj [(codes "schema", .int 1), (codes "migration_id", .str sampleBinding.migrationId),
    (codes "backup", .str sampleBinding.backup), (codes "receipt_sha256", .str sampleBinding.receiptSha256),
    (codes "backup_manifest_sha256", .str sampleBinding.backupManifestSha256),
    (codes "browser_handover_version", .str (codes "1.2.0")), (codes "initial_admin_key_id", .str (sampleKeyId 0))]

def sampleKey (digit : Nat) (scope : String) : ApiKeyRecord where
  id := sampleKeyId digit
  name := codes "key"
  scopes := [codes scope]
  secretHash := codes "pbkdf2:" ++ [48 + digit]
  createdAt := newYearDates.utc 0
  updatedAt := newYearDates.utc 0

/-- The initial key and another one. -/
def sampleStore : ApiKeyStore where
  apiKeys := [sampleKey 0 "admin", sampleKey 1 "read"]
  browserHandoverClaimedVersion := codes "1.2.0"

/-- A claimed directory, loaded. -/
def sampleWorld : World where
  store := sampleStore
  files := {
    store := some (Doc.indented sampleStore.payload)
    marker := some (Doc.compact sampleMarker)
    history := some ((({} : History).append (historyLine newYearDates 0 "api_key_created" (codes "initial_admin_created")
      [(codes "api_key_id", .str (sampleKeyId 0)), (codes "browser_handover_version", .str (codes "1.2.0"))])).append
      (historyLine newYearDates 0 "ui_session_created" (codes "remembered_browser_session_created")
        [(codes "api_key_id", .str (sampleKeyId 0))])) }

/-- The second key is rotated, used by a browser and revoked. -/
def sampleSteps : List CredentialStep :=
  [{ now := seconds 10, op := .rotateApiKey (sampleKeyId 1) (codes "pbkdf2:r") },
    { now := seconds 20, op := .createBrowserSession (codes "cookie") (sampleKeyId 1) true },
    { now := seconds 30, op := .revokeApiKey (sampleKeyId 1) },
    { now := seconds 40, op := .reload [] }]

theorem sample_marker : readMarker sampleBinding (Doc.compact sampleMarker) = some (codes "1.2.0", sampleKeyId 0) := by
  decide +kernel

theorem sample_careful : ∀ record ∈ (runCredentials newYearDates sampleWorld (sampleSteps.take 1)).store.getApiKey (sampleKeyId 1),
    strip record.id = record.id ∧ strip record.secretHash = record.secretHash := by decide +kernel

theorem sample_accepted :
    validateClaimedAuthState newYearDates id (runCredentials newYearDates sampleWorld sampleSteps).files sampleBinding = true :=
  credentials_accepted newYearDates id (by decide +kernel) rfl (by decide +kernel) rfl sample_marker sampleSteps
    (by simp [sampleSteps, Along, CredentialStep.Allowed, sampleKeyId])
    ⟨⟨by decide +kernel, by decide +kernel⟩, sample_careful, True.intro, True.intro, True.intro⟩ (by decide +kernel)

/-- A key that a browser uses is rotated: the session keeps the old hash. -/
def rotationSteps : List CredentialStep :=
  [{ now := seconds 10, op := .createBrowserSession (codes "cookie") (sampleKeyId 1) true },
    { now := seconds 20, op := .rotateApiKey (sampleKeyId 1) (codes "pbkdf2:r") }]

theorem rotated_session_rejected :
    validateClaimedAuthState newYearDates id sampleWorld.files sampleBinding = true ∧
    sampleWorld.files.store.bind (fun doc => fromStr doc.value) = some sampleWorld.store ∧
    Along newYearDates (fun w step => step.Allowed (sampleKeyId 0) w) sampleWorld rotationSteps ∧
    claimedWithinLimits (runCredentials newYearDates sampleWorld rotationSteps).files = true ∧
    validateClaimedAuthState newYearDates id (runCredentials newYearDates sampleWorld rotationSteps).files sampleBinding = false := by
  refine ⟨by decide +kernel, by decide +kernel, ?_, by decide +kernel, by decide +kernel⟩
  simp [rotationSteps, Along, CredentialStep.Allowed]

end SeedSync.Auth
