import SeedSync.Auth.Claimed

/-!
# What the claimed state rests on

The part of a store that keeps its file acceptable: every session is bound to a key that is not
revoked, by the key's current hash. A store that has it is written to an accepted file, and an accepted
file is loaded to a store that has it.
-/

namespace SeedSync.Auth

open Lib

/-! ## Scopes -/

/-- Scopes as `_normalize_scopes` returns them. -/
structure NormalScopes (scopes : List Codes) : Prop where
  allowed : ∀ scope ∈ scopes, scope ∈ allowedScopes
  nodup : scopes.Nodup
  nonempty : scopes ≠ []

theorem normalizeScope_ok {normalized result : List Codes} {scope : Option Codes}
    (h : normalizeScope normalized scope = .ok result) : ∃ name ∈ allowedScopes,
      result = if normalized.contains name then normalized else normalized ++ [name] := by
  unfold normalizeScope at h
  cases scope with
  | none => cases h
  | some text =>
    by_cases hblank : (lower (strip text)).isEmpty = true
    · simp only [hblank, if_true] at h
      cases h
    · by_cases hallowed : allowedScopes.contains (lower (strip text)) = true
      · simp only [hblank, hallowed, Bool.not_true, Bool.false_eq_true, if_false] at h
        cases h
        exact ⟨_, by simpa using hallowed, rfl⟩
      · simp only [hblank, hallowed, Bool.not_false, Bool.false_eq_true, if_false, if_true] at h
        cases h

theorem foldlM_normalizeScope {scopes : List (Option Codes)} {normalized result : List Codes}
    (h : scopes.foldlM normalizeScope normalized = .ok result) (hallowed : ∀ scope ∈ normalized, scope ∈ allowedScopes)
    (hnodup : normalized.Nodup) : (∀ scope ∈ result, scope ∈ allowedScopes) ∧ result.Nodup := by
  induction scopes generalizing normalized with
  | nil =>
    cases h
    exact ⟨hallowed, hnodup⟩
  | cons scope scopes ih =>
    rw [List.foldlM_cons] at h
    obtain ⟨next, hnext, hrest⟩ := ok_of_bind h
    obtain ⟨name, hname, rfl⟩ := normalizeScope_ok hnext
    refine ih hrest ?_ ?_
    · intro other hother
      split_ifs at hother with hmem
      · exact hallowed other hother
      · rcases List.mem_append.1 hother with hother | hother
        · exact hallowed other hother
        · rw [List.mem_singleton.1 hother]
          exact hname
    · split_ifs with hmem
      · exact hnodup
      · refine List.nodup_append.2 ⟨hnodup, List.nodup_singleton _, ?_⟩
        intro a ha b hb hab
        rw [List.mem_singleton.1 hb] at hab
        exact hmem (by simpa [← hab] using ha)

theorem normalScopes_of_ok {scopes : Option (List (Option Codes))} {result : List Codes}
    (h : normalizeScopes scopes = .ok result) : NormalScopes result := by
  unfold normalizeScopes at h
  cases scopes with
  | none => cases h
  | some scopes =>
    obtain ⟨normalized, hfold, hrest⟩ := ok_of_bind h
    obtain ⟨hallowed, hnodup⟩ := foldlM_normalizeScope hfold (by simp) List.nodup_nil
    by_cases hempty : normalized.isEmpty = true
    · simp only [hempty, if_true] at hrest
      cases hrest
    · simp only [hempty, Bool.false_eq_true, if_false] at hrest
      cases hrest
      exact ⟨hallowed, hnodup, by simpa using hempty⟩

theorem lower_strip_allowed : ∀ scope ∈ allowedScopes, lower (strip scope) = scope ∧ scope.isEmpty = false := by
  decide +kernel

theorem foldlM_normal {scopes : List Codes} (normalized : List Codes) (hallowed : ∀ scope ∈ scopes, scope ∈ allowedScopes)
    (hnodup : (normalized ++ scopes).Nodup) :
    (scopes.map some).foldlM normalizeScope normalized = .ok (normalized ++ scopes) := by
  induction scopes generalizing normalized with
  | nil => simp [pure, Except.pure]
  | cons scope scopes ih =>
    obtain ⟨hlower, hempty⟩ := lower_strip_allowed scope (hallowed scope List.mem_cons_self)
    have hnew : normalized.contains scope = false := by
      have := List.nodup_append.1 hnodup
      simpa using fun hmem => this.2.2 scope hmem scope List.mem_cons_self rfl
    have hstep : normalizeScope normalized (some scope) = .ok (normalized ++ [scope]) := by
      have hcontains : allowedScopes.contains scope = true := by simpa using hallowed scope List.mem_cons_self
      simp only [normalizeScope, hlower, hempty, hcontains, hnew, Bool.not_true, Bool.false_eq_true, if_false]
      rfl
    have hrest := ih (normalized ++ [scope]) (fun other hmem => hallowed other (List.mem_cons_of_mem _ hmem))
      (by simpa using hnodup)
    rw [List.append_assoc, List.singleton_append] at hrest
    rw [List.map_cons, List.foldlM_cons, hstep]
    exact hrest

/-- What is normal is read back as it is. -/
theorem NormalScopes.again {scopes : List Codes} (h : NormalScopes scopes) :
    normalizeScopes (some (scopes.map some)) = .ok scopes := by
  have hfold := foldlM_normal [] h.allowed (by simpa using h.nodup)
  rw [List.nil_append] at hfold
  have hempty : scopes.isEmpty = false := by simpa using h.nonempty
  simp only [normalizeScopes, hfold]
  change (if scopes.isEmpty = true then _ else _) = _
  rw [if_neg (by simp [hempty])]
  rfl

/-! ## Sessions and keys -/

/-- The session belongs to a key that is not revoked, by the key's current hash. -/
structure Bound (keys : List ApiKeyRecord) (session : UiSessionRecord) : Prop where
  plain : session.bootstrap = false
  key : ∃ record ∈ keys, record.revokedAt = none ∧ session.apiKeyId = some record.id ∧
    session.apiKeySecretHash = some record.secretHash

/-- What keeps the file of a store acceptable. Sessions of the key `skip` are passed over. -/
structure Tidy (keyId version : Codes) (skip : Option Codes) (store : ApiKeyStore) : Prop where
  version : store.browserHandoverClaimedVersion = version
  ids : (store.apiKeys.map ApiKeyRecord.id).Nodup
  scopes : ∀ record ∈ store.apiKeys, NormalScopes record.scopes
  initial : ∃ record ∈ store.apiKeys, record.id = keyId ∧ record.revokedAt = none ∧ adminScope ∈ record.scopes
  sessionScopes : ∀ item ∈ store.uiSessions.items, NormalScopes item.2.scopes
  bound : ∀ item ∈ store.uiSessions.items, (item.2.apiKeyId = none ∨ item.2.apiKeyId ≠ skip) → Bound store.apiKeys item.2
  unclaiming : store.claimTransaction = none

theorem Tidy.of_none {keyId version : Codes} {store : ApiKeyStore} (h : Tidy keyId version none store)
    (skip : Option Codes) : Tidy keyId version skip store :=
  { h with bound := fun item hitem _ => h.bound item hitem (by
      cases item.2.apiKeyId with
      | none => exact .inl rfl
      | some id => exact .inr (by simp)) }

theorem activeHashes_get {store : ApiKeyStore} (hids : (store.apiKeys.map ApiKeyRecord.id).Nodup) {record : ApiKeyRecord}
    (hmem : record ∈ store.apiKeys) (hactive : record.revokedAt = none) :
    (activeHashes store).get record.id = some record.secretHash := by
  have hnodup : (((store.apiKeys.filter fun record => !record.isRevoked).map
      fun record => (record.id, record.secretHash)).map Prod.fst).Nodup := by
    rw [List.map_map]
    exact hids.sublist (List.filter_sublist.map _)
  rw [Dict.get_eq_some, activeHashes, Dict.ofList_items hnodup]
  exact List.mem_map.2 ⟨record, List.mem_filter.2 ⟨hmem, by simp [ApiKeyRecord.isRevoked, hactive]⟩, rfl⟩

/-- An active hash is that of a key that is not revoked. -/
theorem of_activeHashes_get {store : ApiKeyStore} {keyId hash : Codes} (h : (activeHashes store).get keyId = some hash) :
    ∃ record ∈ store.apiKeys, record.revokedAt = none ∧ record.id = keyId ∧ record.secretHash = hash := by
  have hmem := Dict.get_ofList_mem h
  obtain ⟨record, hrecord, heq⟩ := List.mem_map.1 hmem
  obtain ⟨hrecord, hactive⟩ := List.mem_filter.1 hrecord
  obtain ⟨rfl, rfl⟩ := Prod.mk.inj heq
  exact ⟨record, hrecord, by simpa [ApiKeyRecord.isRevoked] using hactive, rfl, rfl⟩

theorem getApiKey_of_mem {store : ApiKeyStore} (hids : (store.apiKeys.map ApiKeyRecord.id).Nodup) {record : ApiKeyRecord}
    (hmem : record ∈ store.apiKeys) : store.getApiKey record.id = some record := by
  unfold ApiKeyStore.getApiKey
  generalize store.apiKeys = keys at hids hmem
  induction keys with
  | nil => simp at hmem
  | cons key keys ih =>
    rw [List.map_cons, List.nodup_cons] at hids
    rcases List.mem_cons.1 hmem with rfl | hmem
    · simp
    · have hne : key.id ≠ record.id := fun heq => hids.1 (heq ▸ List.mem_map_of_mem hmem)
      rw [List.find?_cons_of_neg (by simpa using hne)]
      exact ih hids.2 hmem

theorem of_getApiKey {store : ApiKeyStore} {keyId : Codes} {record : ApiKeyRecord}
    (h : store.getApiKey keyId = some record) : record ∈ store.apiKeys ∧ record.id = keyId := by
  unfold ApiKeyStore.getApiKey at h
  exact ⟨List.mem_of_find?_eq_some h, by simpa using List.find?_some h⟩

/-! ## Writing a store and loading it -/

theorem strItem_comp_str : strItem ∘ Json.str = some := rfl

@[simp] theorem optionalString_strOption (value : Option Codes) : optionalString (strOption value) = some value := by
  cases value <;> rfl

theorem loadApiKey_asdict {record : ApiKeyRecord} (h : NormalScopes record.scopes) :
    loadApiKey record.asdict = some record := by
  have hscopes := h.again
  simp [loadApiKey, ApiKeyRecord.asdict, requiredStringField, scopesField, listField, hasField, field, optionalStringField,
    strItem_comp_str, hscopes, Except.toOption]

theorem loadUiSession_asdict {session : UiSessionRecord} (h : NormalScopes session.scopes) :
    loadUiSession session.asdict = some session := by
  have hscopes := h.again
  simp [loadUiSession, UiSessionRecord.asdict, requiredStringField, scopesField, listField, hasField, field,
    optionalStringField, boolField, strItem_comp_str, hscopes, Except.toOption]

theorem mapM_map_some {α β : Type} {f : α → β} {g : β → Option α} {l : List α} (h : ∀ a ∈ l, g (f a) = some a) :
    (l.map f).mapM g = some l := by
  induction l with
  | nil => rfl
  | cons a l ih =>
    rw [List.map_cons, List.mapM_cons, h a List.mem_cons_self, ih fun b hb => h b (List.mem_cons_of_mem _ hb)]
    rfl

/-- The sessions as they are written. -/
def ApiKeyStore.sortedSessions (store : ApiKeyStore) : List UiSessionRecord :=
  (store.uiSessions.items.map Prod.snd).mergeSort sessionLe

theorem mem_sortedSessions {store : ApiKeyStore} {session : UiSessionRecord} :
    session ∈ store.sortedSessions ↔ ∃ item ∈ store.uiSessions.items, item.2 = session := by
  rw [ApiKeyStore.sortedSessions, List.mem_mergeSort, List.mem_map]

/-- The sessions that are loaded, under their secrets -/
def sessionDict (sessions : List UiSessionRecord) : Dict Codes UiSessionRecord :=
  sessions.foldl (fun d session => d.set session.secret session) {}

/-- Records that are written are loaded. -/
theorem fromStr_records {keys : List ApiKeyRecord} {sessions : List UiSessionRecord}
    (hkeys : ∀ record ∈ keys, NormalScopes record.scopes) (hsessions : ∀ session ∈ sessions, NormalScopes session.scopes)
    (version : Codes) :
    fromStr (.obj [(codes "version", .int 3), (codes "api_keys", .list (keys.map ApiKeyRecord.asdict)),
        (codes "ui_sessions", .list (sessions.map UiSessionRecord.asdict)),
        (codes "browser_handover_claimed_version", .str version)]) =
      some { apiKeys := keys, uiSessions := sessionDict sessions, browserHandoverClaimedVersion := version } := by
  have hloaded : (keys.map ApiKeyRecord.asdict).mapM loadApiKey = some keys :=
    mapM_map_some fun record hmem => loadApiKey_asdict (hkeys record hmem)
  have hsession : (sessions.map UiSessionRecord.asdict).mapM loadUiSession = some sessions :=
    mapM_map_some fun session hmem => loadUiSession_asdict (hsessions session hmem)
  simp [fromStr, versionField, hasField, field, optionalStringField, optionalString, listField, hloaded, hsession, sessionDict]

/-- What is loaded of the file of a store. -/
def ApiKeyStore.reloaded (store : ApiKeyStore) : ApiKeyStore :=
  { apiKeys := store.apiKeys
    uiSessions := store.sortedSessions.foldl (fun d session => d.set session.secret session) {}
    browserHandoverClaimedVersion := store.browserHandoverClaimedVersion }

theorem fromStr_payload {store : ApiKeyStore} (hkeys : ∀ record ∈ store.apiKeys, NormalScopes record.scopes)
    (hsessions : ∀ item ∈ store.uiSessions.items, NormalScopes item.2.scopes) :
    fromStr store.payload = some store.reloaded :=
  fromStr_records hkeys (fun session hmem => by
    obtain ⟨item, hitem, rfl⟩ := mem_sortedSessions.1 hmem
    exact hsessions item hitem) _

theorem strictItems_of {items : List Json} (h : ∀ item ∈ items, strict item = true) : strictItems items = true := by
  induction items with
  | nil => rfl
  | cons item items ih =>
    rw [strictItems, h item List.mem_cons_self, ih fun other hmem => h other (List.mem_cons_of_mem _ hmem)]
    rfl

theorem strict_str_list (texts : List Codes) : strictItems (texts.map Json.str) = true :=
  strictItems_of fun item hitem => by
    obtain ⟨text, -, rfl⟩ := List.mem_map.1 hitem
    rfl

theorem strict_strOption (value : Option Codes) : strict (strOption value) = true := by
  cases value <;> rfl

theorem strict_asdict (record : ApiKeyRecord) : strict record.asdict = true := by
  simp [ApiKeyRecord.asdict, strict, strictFields, strict_str_list, strict_strOption]

theorem strict_session_asdict (session : UiSessionRecord) : strict session.asdict = true := by
  simp [UiSessionRecord.asdict, strict, strictFields, strict_str_list, strict_strOption]

theorem strict_payload (store : ApiKeyStore) : strict store.payload = true := by
  have hkeys : strictItems (store.apiKeys.map ApiKeyRecord.asdict) = true :=
    strictItems_of fun item hitem => by
      obtain ⟨record, -, rfl⟩ := List.mem_map.1 hitem
      exact strict_asdict record
  have hsessions : strictItems (((store.uiSessions.items.map Prod.snd).mergeSort sessionLe).map UiSessionRecord.asdict) = true :=
    strictItems_of fun item hitem => by
      obtain ⟨session, -, rfl⟩ := List.mem_map.1 hitem
      exact strict_session_asdict session
  simp [ApiKeyStore.payload, strict, strictFields, hkeys, hsessions]

theorem rawSessionOk_asdict {store : ApiKeyStore} (hids : (store.apiKeys.map ApiKeyRecord.id).Nodup)
    {session : UiSessionRecord} (h : Bound store.apiKeys session) : rawSessionOk store session.asdict = true := by
  obtain ⟨hplain, record, hmem, hactive, hid, hhash⟩ := h
  simp [rawSessionOk, UiSessionRecord.asdict, field, hplain, hid, hhash, strOption, activeHashes_get hids hmem hactive]

/-- A tidy store is written to a file that the checks pass. -/
theorem Tidy.written {keyId version : Codes} {store : ApiKeyStore} (h : Tidy keyId version none store)
    (hversion : isVersion version = true) : readClaimedStore keyId (Doc.indented store.payload) = some version := by
  have hload := fromStr_payload h.scopes h.sessionScopes
  have hids : (store.apiKeys.map ApiKeyRecord.asdict).mapM rawKeyId = some (store.apiKeys.map ApiKeyRecord.id) := by
    generalize store.apiKeys = keys
    induction keys with
    | nil => rfl
    | cons record keys ih =>
      have hid : rawKeyId record.asdict = some record.id := by simp [rawKeyId, ApiKeyRecord.asdict, field, strItem]
      rw [List.map_cons, List.mapM_cons, hid, ih]
      rfl
  have hinitial : initialActive store.reloaded keyId = true := by
    obtain ⟨record, hmem, rfl, hactive, hadmin⟩ := h.initial
    have hget : store.reloaded.getApiKey record.id = some record := getApiKey_of_mem (by exact h.ids) hmem
    simp [initialActive, hget, ApiKeyRecord.isRevoked, hactive, hadmin]
  have hsessions : (((store.uiSessions.items.map Prod.snd).mergeSort sessionLe).map UiSessionRecord.asdict).all
      (rawSessionOk store.reloaded) = true := by
    rw [List.all_eq_true]
    intro item hitem
    obtain ⟨session, hsession, rfl⟩ := List.mem_map.1 hitem
    obtain ⟨entry, hentry, rfl⟩ := mem_sortedSessions.1 hsession
    refine rawSessionOk_asdict (by exact h.ids) (h.bound entry hentry ?_)
    cases entry.2.apiKeyId with
    | none => exact .inl rfl
    | some id => exact .inr (by simp)
  have hstrict := strict_payload store
  unfold readClaimedStore Doc.indented
  unfold ApiKeyStore.payload at hload hstrict ⊢
  simp only [h.version] at hload hstrict ⊢
  simp only [hload, hstrict, Option.bind_eq_bind, Option.bind_some]
  simp [field, strItem, Json.equalsNat, hids, h.ids, hversion, hinitial, hsessions]

theorem listField_of_list {fields : List (Codes × Json)} {name : String} {items : List Json}
    (h : field fields name = .list items) : listField fields name = some items := by
  have hhas : hasField fields name = true := by
    by_contra hnot
    have hnone : fields.reverse.lookup (codes name) = none := by
      rw [List.lookup_eq_none_iff]
      intro pair hpair
      rw [List.mem_reverse] at hpair
      rw [bne_iff_ne]
      intro heq
      exact hnot (by simpa [hasField, heq] using ⟨pair.2, hpair⟩)
    rw [field, hnone] at h
    cases h
  simp [listField, hhas, h]

theorem mapM_relate {α β γ : Type} {f : α → Option β} {g : α → Option γ} {k : β → γ} {l : List α} {bs : List β}
    (h : l.mapM f = some bs) (hrel : ∀ a b, f a = some b → g a = some (k b)) : l.mapM g = some (bs.map k) := by
  induction l generalizing bs with
  | nil =>
    cases h
    rfl
  | cons a l ih =>
    rw [List.mapM_cons] at h ⊢
    simp only [Option.bind_eq_bind, Option.bind_eq_some_iff] at h
    obtain ⟨b, hb, rest, hrest, heq⟩ := h
    cases heq
    rw [hrel a b hb, ih hrest]
    rfl

theorem mem_of_mapM {α β : Type} {f : α → Option β} {l : List α} {bs : List β} (h : l.mapM f = some bs) :
    ∀ b ∈ bs, ∃ a ∈ l, f a = some b := by
  induction l generalizing bs with
  | nil =>
    cases h
    simp
  | cons a l ih =>
    rw [List.mapM_cons] at h
    simp only [Option.bind_eq_bind, Option.bind_eq_some_iff] at h
    obtain ⟨b, hb, rest, hrest, heq⟩ := h
    cases heq
    intro c hc
    rcases List.mem_cons.1 hc with rfl | hc
    · exact ⟨a, List.mem_cons_self, hb⟩
    · obtain ⟨x, hx, hfx⟩ := ih hrest c hc
      exact ⟨x, List.mem_cons_of_mem _ hx, hfx⟩

theorem normalScopes_of_scopesField {fields : List (Codes × Json)} {scopes : List Codes}
    (h : scopesField fields = some scopes) : NormalScopes scopes := by
  unfold scopesField at h
  simp only [Option.bind_eq_bind, Option.bind_eq_some_iff] at h
  obtain ⟨items, -, hscopes⟩ := h
  exact normalScopes_of_ok (ok_of_toOption hscopes)

theorem of_loadApiKey {value : Json} {record : ApiKeyRecord} (h : loadApiKey value = some record) :
    rawKeyId value = some record.id ∧ NormalScopes record.scopes := by
  cases value with
  | obj fields =>
    simp only [loadApiKey, Option.bind_eq_bind, Option.bind_eq_some_iff, pure, Option.some.injEq] at h
    obtain ⟨id, hid, name, -, scopes, hscopes, hash, -, created, -, updated, -, revoked, -, rfl⟩ := h
    refine ⟨?_, normalScopes_of_scopesField hscopes⟩
    unfold requiredStringField at hid
    rw [rawKeyId]
    cases hfield : field fields "id" <;> simp_all [strItem]
  | _ => cases h

/-- A session of the file that is loaded, and passes the check, is bound. -/
theorem of_loadUiSession {store : ApiKeyStore} {value : Json} {session : UiSessionRecord}
    (h : loadUiSession value = some session) (hok : rawSessionOk store value = true) :
    Bound store.apiKeys session ∧ NormalScopes session.scopes := by
  cases value with
  | obj fields =>
    simp only [loadUiSession, Option.bind_eq_bind, Option.bind_eq_some_iff, pure, Option.some.injEq] at h
    obtain ⟨keyId, hkeyId, hash, hhash, remembered, -, secret, -, bootstrap, hbootstrap, scopes, hscopes, created, -,
      expires, -, rfl⟩ := h
    refine ⟨?_, normalScopes_of_scopesField hscopes⟩
    simp only [rawSessionOk] at hok
    split at hok
    · cases hok
    · next hid hgiven hplain =>
      obtain ⟨record, hmem, hactive, rfl, rfl⟩ := of_activeHashes_get (of_decide_eq_true hok)
      rw [optionalStringField, hid] at hkeyId
      rw [optionalStringField, hgiven] at hhash
      cases hkeyId
      cases hhash
      refine ⟨?_, record, hmem, hactive, rfl, rfl⟩
      unfold boolField at hbootstrap
      split at hbootstrap
      · cases hbootstrap
        rfl
      · next value hhas hvalue =>
        cases hbootstrap
        cases bootstrap with
        | false => rfl
        | true => exact absurd hvalue (by simpa using hplain)
      · cases hbootstrap
    · cases hok
  | _ => cases h

theorem mem_sessionDict {sessions : List UiSessionRecord} {item : Codes × UiSessionRecord}
    (h : item ∈ (sessions.foldl (fun d session => d.set session.secret session) ({} : Dict Codes UiSessionRecord)).items) :
    item.2 ∈ sessions := by
  have hofList : sessions.foldl (fun d session => d.set session.secret session) ({} : Dict Codes UiSessionRecord) =
      Dict.ofList (sessions.map fun session => (session.secret, session)) := by
    rw [Dict.ofList, List.foldl_map]
  rw [hofList] at h
  have hget := Dict.get_ofList_mem ((Dict.get_eq_some _ item.1 item.2).2 h)
  obtain ⟨session, hmem, heq⟩ := List.mem_map.1 hget
  rw [← (Prod.mk.inj heq).2]
  exact hmem

/-- A file that the checks pass is loaded to a tidy store. -/
theorem tidy_of_read {keyId version : Codes} {doc : Doc} (h : readClaimedStore keyId doc = some version) :
    isVersion version = true ∧ ∃ store, fromStr doc.value = some store ∧ Tidy keyId version none store := by
  unfold readClaimedStore at h
  split at h
  · next fields hvalue =>
    simp only [Option.bind_eq_bind, Option.bind_eq_some_iff] at h
    obtain ⟨store, hstore, claimed, hclaimed, h⟩ := h
    split at h
    · next keys sessions hkeys hsessions =>
      simp only [Option.bind_eq_some_iff] at h
      obtain ⟨ids, hids, h⟩ := h
      split_ifs at h with hchecks
      cases h
      simp only [Bool.and_eq_true, decide_eq_true_eq] at hchecks
      obtain ⟨⟨⟨⟨⟨-, -⟩, hversion⟩, hnodup⟩, hinitial⟩, hall⟩ := hchecks
      refine ⟨hversion, store, by rw [hvalue]; exact hstore, ?_⟩
      unfold fromStr at hstore
      simp only [Option.bind_eq_bind, Option.bind_eq_some_iff, listField_of_list hkeys, listField_of_list hsessions,
        pure] at hstore
      obtain ⟨number, -, hstore⟩ := hstore
      split_ifs at hstore
      · cases hstore
      simp only [Option.bind_some, Option.bind_eq_some_iff, Option.some.injEq] at hstore
      obtain ⟨stored, hstored, records, hrecords, loaded, hloaded, rfl⟩ := hstore
      have hsame : stored.getD [] = version := by
        cases hfield : field fields "browser_handover_claimed_version" <;> rw [hfield] at hclaimed <;> cases hclaimed
        rw [optionalStringField, hfield] at hstored
        cases hstored
        rfl
      have hidsEq := mapM_relate hrecords fun k r h => (of_loadApiKey h).1
      rw [hids, Option.some.injEq] at hidsEq
      have hbound : ∀ session ∈ loaded, Bound records session ∧ NormalScopes session.scopes := by
        intro session hmem
        obtain ⟨value, hvalue, hload⟩ := mem_of_mapM hloaded session hmem
        exact of_loadUiSession hload (List.all_eq_true.1 hall value hvalue)
      refine ⟨hsame, by rw [← hidsEq]; exact hnodup, ?_, ?_, ?_, ?_, rfl⟩
      · intro record hmem
        obtain ⟨value, -, hload⟩ := mem_of_mapM hrecords record hmem
        exact (of_loadApiKey hload).2
      · unfold initialActive at hinitial
        cases hget : ApiKeyStore.getApiKey _ keyId with
        | none =>
          rw [hget] at hinitial
          simp at hinitial
        | some record =>
          rw [hget, Option.any_some, Bool.and_eq_true] at hinitial
          obtain ⟨hmem, hid⟩ := of_getApiKey hget
          exact ⟨record, hmem, hid, by simpa [ApiKeyRecord.isRevoked] using hinitial.1, by simpa using hinitial.2⟩
      · exact fun item hitem => (hbound item.2 (mem_sessionDict hitem)).2
      · exact fun item hitem _ => (hbound item.2 (mem_sessionDict hitem)).1
    · cases h
  · cases h

end SeedSync.Auth
