import SeedSync.Auth.Bound

/-!
# Credential use after a claim

The operations on keys, sessions and bootstrap secrets of a claimed store, and what each keeps of the
state that `validate_completed_migration_claimed_auth_state` accepts.
-/

namespace SeedSync.Auth

open Lib Program

/-! ## The files -/

section Files

variable (dates : DateTimes) (digest : Codes → Codes)

/-- What a claimed state is checked against: the marker's version and key, and the store's version. -/
structure ClaimTerms where
  binding : TransitionBinding
  version : Codes
  keyId : Codes
  storedVersion : Codes

/-- The evidence of a claim in the history: of the first one, and of the recovery whose version is stored. -/
structure Evidence (terms : ClaimTerms) (deadline : Option Doc) (entries : List ClaimEntry) : Prop where
  claimed : ∃ entry ∈ entries, entry.claims terms.version terms.keyId = true
  remembered : ∃ entry ∈ entries, entry.remembers terms.keyId = true
  recovered : terms.storedVersion = terms.version ∨ ((∃ keyId, keyId ∈ claimedKeyIds entries terms.storedVersion) ∧
    deadline.any (fun doc => doc.bytes ≤ browserHandoverStateMaxBytes && deadlineClosed digest terms.storedVersion doc) =
      true)

/-- The files of a claimed state, whatever their size. -/
structure ClaimedFiles (terms : ClaimTerms) (files : Files) : Prop where
  binding : terms.binding.isValid = true
  marker : ∃ doc, files.marker = some doc ∧ readMarker terms.binding doc = some (terms.version, terms.keyId)
  version : isVersion terms.storedVersion = true
  store : ∃ doc, files.store = some doc ∧ readClaimedStore terms.keyId doc = some terms.storedVersion
  history : ∃ history entries, files.history = some history ∧ readClaimHistory dates history = some entries ∧
    Evidence digest terms files.deadline entries

theorem any_eq_true_iff {entries : List ClaimEntry} {p : ClaimEntry → Bool} :
    entries.any p = true ↔ ∃ entry ∈ entries, p entry = true := List.any_eq_true

theorem not_isEmpty_iff {l : List Codes} : (!l.isEmpty) = true ↔ ∃ a, a ∈ l := by
  cases l with
  | nil => simp
  | cons a l => simp

/-- The check in parts. -/
theorem validate_iff {files : Files} {binding : TransitionBinding} :
    validateClaimedAuthState dates digest files binding = true ↔ claimedWithinLimits files = true ∧
      ∃ terms, terms.binding = binding ∧ ClaimedFiles dates digest terms files := by
  unfold validateClaimedAuthState
  rw [Bool.and_eq_true, Bool.and_eq_true]
  constructor
  · rintro ⟨⟨hbinding, hlimits⟩, h⟩
    refine ⟨hlimits, ?_⟩
    have hresult := (Option.getD_eq_iff.1 h).resolve_right (by simp)
    simp only [Option.bind_eq_bind, Option.bind_eq_some_iff, pure, Option.some.injEq] at hresult
    obtain ⟨marker, hmarker, ⟨version, keyId⟩, hread, doc, hdoc, stored, hstored, history, hhistory, entries, hentries,
      hchecks⟩ := hresult
    simp only [Bool.and_eq_true, Bool.or_eq_true, decide_eq_true_eq] at hchecks
    obtain ⟨⟨hclaims, hremembers⟩, hrecovered⟩ := hchecks
    refine ⟨⟨binding, version, keyId, stored⟩, rfl, hbinding, ⟨marker, hmarker, hread⟩, (tidy_of_read hstored).1,
      ⟨doc, hdoc, hstored⟩, history, entries, hhistory, hentries, any_eq_true_iff.1 hclaims, any_eq_true_iff.1 hremembers,
      ?_⟩
    exact hrecovered.imp id fun h => ⟨not_isEmpty_iff.1 h.1, h.2⟩
  · rintro ⟨hlimits, terms, rfl, hfiles⟩
    obtain ⟨hbinding, ⟨marker, hmarker, hread⟩, -, ⟨doc, hdoc, hstored⟩, history, entries, hhistory, hentries, hevidence⟩ := hfiles
    refine ⟨⟨hbinding, hlimits⟩, ?_⟩
    simp only [hmarker, hread, hdoc, hstored, hhistory, hentries, Option.bind_eq_bind, Option.bind_some, pure,
      Option.getD_some, Bool.and_eq_true, Bool.or_eq_true, decide_eq_true_eq]
    exact ⟨⟨any_eq_true_iff.2 hevidence.claimed, any_eq_true_iff.2 hevidence.remembered⟩,
      hevidence.recovered.imp id fun h => ⟨not_isEmpty_iff.2 h.1, h.2⟩⟩

variable {dates} {digest} {terms : ClaimTerms} {files : Files}

theorem Evidence.append {deadline : Option Doc} {entries : List ClaimEntry} (h : Evidence digest terms deadline entries)
    (entry : ClaimEntry) : Evidence digest terms deadline (entries ++ [entry]) := by
  obtain ⟨⟨a, ha, hclaims⟩, ⟨b, hb, hremembers⟩, hrecovered⟩ := h
  refine ⟨⟨a, List.mem_append_left _ ha, hclaims⟩, ⟨b, List.mem_append_left _ hb, hremembers⟩, hrecovered.imp id fun h => ?_⟩
  obtain ⟨⟨keyId, hkeyId⟩, hdeadline⟩ := h
  refine ⟨⟨keyId, ?_⟩, hdeadline⟩
  unfold claimedKeyIds at hkeyId ⊢
  rw [List.mem_filter] at hkeyId ⊢
  refine ⟨?_, ?_⟩
  · rw [List.filterMap_append]
    exact List.mem_append_left _ hkeyId.1
  · rw [List.any_append, List.any_append]
    have := hkeyId.2
    simp only [Bool.and_eq_true] at this ⊢
    rw [this.1, this.2]
    exact ⟨rfl, rfl⟩

theorem readClaimLine_historyLine (now : Int) {event : String} (reason : Codes) {details : List (Codes × Json)}
    (hevent : codes event ∈ allowedEvents) (hstrict : strict (.obj details) = true) :
    ∃ entry, readClaimLine dates (some (historyLine dates now event reason details)) = some entry := by
  cases details with
  | nil => simp [readClaimLine, historyLine, hasKeys, hasField, field, isStr, valid_utc, hevent, strict, strictFields]
  | cons d ds =>
    have hline : strict (.obj [(codes "timestamp", .str (dates.utc now)), (codes "event", .str (codes event)),
        (codes "reason", .str reason), (codes "store_file", .str storeName), (codes "details", .obj (d :: ds))]) = true := by
      rw [strict, strictFields, strictFields, strictFields, strictFields, strictFields, hstrict]
      simp [strict, strictFields]
    unfold readClaimLine historyLine
    simp only [List.isEmpty_cons, Bool.false_eq_true, if_false, List.cons_append, List.nil_append]
    simp [hline, hasKeys, hasField, field, isStr, valid_utc, hevent]

theorem ClaimedFiles.append (h : ClaimedFiles dates digest terms files) {line : Json}
    (hline : ∃ entry, readClaimLine dates (some line) = some entry) :
    ClaimedFiles dates digest terms { files with history := appendHistory files.history line } := by
  obtain ⟨hbinding, hmarker, hversion, hstore, history, entries, hhistory, hentries, hevidence⟩ := h
  obtain ⟨entry, hentry⟩ := hline
  refine ⟨hbinding, hmarker, hversion, hstore, history.append line, entries ++ [entry], by rw [hhistory]; rfl, ?_,
    hevidence.append entry⟩
  unfold readClaimHistory at hentries ⊢
  split_ifs at hentries with hbad
  simp only [Bool.or_eq_true, not_or, Bool.not_eq_true] at hbad
  have happend : (history.append line).lines = history.lines ++ [some line] := by
    simp [History.append, hbad.1]
  have hgood : ((history.append line).torn || (history.append line).lines.isEmpty) = false := by
    rw [happend]
    simp [History.append]
  rw [if_neg (by simp [hgood]), happend, List.mapM_append, hentries]
  simp [hentry]

/-- The store file is replaced by that of a tidy store. -/
theorem ClaimedFiles.save (h : ClaimedFiles dates digest terms files) {store : ApiKeyStore}
    (hstore : Tidy terms.keyId terms.storedVersion none store) :
    ClaimedFiles dates digest terms { files with store := some (Doc.indented store.payload) } :=
  ⟨h.binding, h.marker, h.version, ⟨_, rfl, hstore.written h.version⟩, h.history⟩

end Files

/-! ## The store -/

section Stores

variable {keyId version : Codes} {skip : Option Codes} {store : ApiKeyStore}

theorem set_findIdx {keys : List ApiKeyRecord} {id : Codes} {record : ApiKeyRecord} (new : ApiKeyRecord)
    (hids : (keys.map ApiKeyRecord.id).Nodup) (hget : keys.find? (fun r => r.id = id) = some record) :
    ∃ index, keys.findIdx? (fun r => r.id = id) = some index ∧
      keys.set index new = keys.map fun r => if r.id = id then new else r := by
  induction keys with
  | nil => simp at hget
  | cons key keys ih =>
    rw [List.map_cons, List.nodup_cons] at hids
    by_cases hkey : key.id = id
    · have hrest : keys.map (fun r => if r.id = id then new else r) = keys := by
        refine (List.map_congr_left fun r hr => ?_).trans (List.map_id _)
        rw [if_neg, id_eq]
        intro heq
        exact hids.1 (by rw [hkey, ← heq]; exact List.mem_map_of_mem hr)
      exact ⟨0, by simp [List.findIdx?_cons, hkey], by simp [hkey, hrest]⟩
    · rw [List.find?_cons_of_neg (by simpa using hkey)] at hget
      obtain ⟨index, hindex, hset⟩ := ih hids.2 hget
      exact ⟨index + 1, by simp [List.findIdx?_cons, hkey, hindex], by simp [hkey, hset]⟩

/-- The records change at one key only. -/
theorem setApiKey_spec {id : Codes} {record : ApiKeyRecord} (new : ApiKeyRecord) (hids : (store.apiKeys.map ApiKeyRecord.id).Nodup)
    (hget : store.getApiKey id = some record) :
    (store.setApiKey id new).apiKeys = store.apiKeys.map fun r => if r.id = id then new else r := by
  obtain ⟨index, hindex, hset⟩ := set_findIdx new hids hget
  unfold ApiKeyStore.setApiKey
  rw [hindex]
  exact hset

theorem mem_setApiKey {id : Codes} {record new r : ApiKeyRecord} (hids : (store.apiKeys.map ApiKeyRecord.id).Nodup)
    (hget : store.getApiKey id = some record) :
    r ∈ (store.setApiKey id new).apiKeys ↔ r = new ∨ (r ∈ store.apiKeys ∧ r.id ≠ id) := by
  obtain ⟨hmem, rfl⟩ := of_getApiKey hget
  rw [setApiKey_spec new hids hget, List.mem_map]
  constructor
  · rintro ⟨old, hold, rfl⟩
    by_cases hold' : old.id = record.id
    · exact .inl (if_pos hold')
    · rw [if_neg hold']
      exact .inr ⟨hold, hold'⟩
  · rintro (rfl | ⟨hr, hne⟩)
    · exact ⟨record, hmem, if_pos rfl⟩
    · exact ⟨r, hr, if_neg hne⟩

theorem setApiKey_ids {id : Codes} {record new : ApiKeyRecord} (hids : (store.apiKeys.map ApiKeyRecord.id).Nodup)
    (hget : store.getApiKey id = some record) (hid : new.id = record.id) :
    (store.setApiKey id new).apiKeys.map ApiKeyRecord.id = store.apiKeys.map ApiKeyRecord.id := by
  obtain ⟨-, rfl⟩ := of_getApiKey hget
  rw [setApiKey_spec new hids hget, List.map_map]
  refine List.map_congr_left fun r _ => ?_
  by_cases hr : r.id = record.id
  · simp [hr, hid]
  · simp [hr]

theorem setApiKey_uiSessions (store : ApiKeyStore) (id : Codes) (new : ApiKeyRecord) :
    (store.setApiKey id new).uiSessions = store.uiSessions ∧
      (store.setApiKey id new).browserHandoverClaimedVersion = store.browserHandoverClaimedVersion ∧
      (store.setApiKey id new).claimTransaction = store.claimTransaction := by
  unfold ApiKeyStore.setApiKey
  split <;> exact ⟨rfl, rfl, rfl⟩

/-- A record is replaced by one that its sessions still belong to, or whose sessions are passed over. -/
theorem Tidy.setApiKey (h : Tidy keyId version skip store) {id : Codes} {record new : ApiKeyRecord}
    (hget : store.getApiKey id = some record) (hid : new.id = record.id) (hscopes : NormalScopes new.scopes)
    (hinitial : id = keyId → new.revokedAt = none ∧ adminScope ∈ new.scopes)
    (hbound : skip = some id ∨ (new.revokedAt = record.revokedAt ∧ new.secretHash = record.secretHash)) :
    Tidy keyId version skip (store.setApiKey id new) := by
  have hmem := @mem_setApiKey store id record new
  obtain ⟨hrecord, hidEq⟩ := of_getApiKey hget
  obtain ⟨hsessions, hversion, hclaim⟩ := setApiKey_uiSessions store id new
  refine ⟨hversion.trans h.version, ?_, ?_, ?_, ?_, ?_, hclaim.trans h.unclaiming⟩
  · rw [setApiKey_ids h.ids hget hid]
    exact h.ids
  · intro r hr
    rcases (hmem h.ids hget).1 hr with rfl | ⟨hr, -⟩
    · exact hscopes
    · exact h.scopes r hr
  · obtain ⟨r, hr, hrid, hactive, hadmin⟩ := h.initial
    by_cases hsame : id = keyId
    · exact ⟨new, (hmem h.ids hget).2 (.inl rfl), by rw [hid, hidEq, hsame], hinitial hsame⟩
    · exact ⟨r, (hmem h.ids hget).2 (.inr ⟨hr, by rw [hrid]; exact Ne.symm hsame⟩), hrid, hactive, hadmin⟩
  · rw [hsessions]
    exact h.sessionScopes
  · rw [hsessions]
    intro item hitem hskip
    obtain ⟨hplain, r, hr, hactive, hkey, hhash⟩ := h.bound item hitem hskip
    refine ⟨hplain, ?_⟩
    by_cases hsame : r.id = id
    · have hreq : r = record := by
        have := getApiKey_of_mem h.ids hr
        rw [hsame, hget] at this
        exact (Option.some.inj this).symm
      subst hreq
      rcases hbound with hbound | ⟨hrevoked, hsecret⟩
      · rw [hkey, hbound, hsame] at hskip
        simp at hskip
      · exact ⟨new, (hmem h.ids hget).2 (.inl rfl), by rw [hrevoked, hactive], by rw [hid, hkey], by rw [hsecret, hhash]⟩
    · exact ⟨r, (hmem h.ids hget).2 (.inr ⟨hr, hsame⟩), hactive, hkey, hhash⟩

/-- Sessions may go; with all of the key's passed over gone, none is passed over. -/
theorem Tidy.filter (h : Tidy keyId version skip store) {p : Codes → UiSessionRecord → Bool} {skip' : Option Codes}
    (hp : skip' = skip ∨ ∀ item ∈ store.uiSessions.items, p item.1 item.2 = true → item.2.apiKeyId = none ∨ item.2.apiKeyId ≠ skip) :
    Tidy keyId version skip' { store with uiSessions := store.uiSessions.filter p } := by
  have hsub : ∀ item ∈ (store.uiSessions.filter p).items, item ∈ store.uiSessions.items ∧ p item.1 item.2 = true :=
    fun item hitem => List.mem_filter.1 hitem
  refine ⟨h.version, h.ids, h.scopes, h.initial, fun item hitem => h.sessionScopes item (hsub item hitem).1, ?_, h.unclaiming⟩
  intro item hitem hskip
  obtain ⟨hmem, hkept⟩ := hsub item hitem
  rcases hp with rfl | hp
  · exact h.bound item hmem hskip
  · exact h.bound item hmem (hp item hmem hkept)

/-- A new key with an id of its own. -/
theorem Tidy.addKey (h : Tidy keyId version skip store) {record : ApiKeyRecord} (hscopes : NormalScopes record.scopes)
    (hfresh : ∀ r ∈ store.apiKeys, r.id ≠ record.id) :
    Tidy keyId version skip { store with apiKeys := store.apiKeys ++ [record] } := by
  refine ⟨h.version, ?_, ?_, ?_, h.sessionScopes, ?_, h.unclaiming⟩
  · change ((store.apiKeys ++ [record]).map ApiKeyRecord.id).Nodup
    rw [List.map_append, List.nodup_append]
    refine ⟨h.ids, by simp, ?_⟩
    intro a ha b hb
    obtain ⟨r, hr, rfl⟩ := List.mem_map.1 ha
    rw [List.map_singleton, List.mem_singleton] at hb
    rw [hb]
    exact hfresh r hr
  · intro r hr
    rcases List.mem_append.1 hr with hr | hr
    · exact h.scopes r hr
    · rw [List.mem_singleton.1 hr]
      exact hscopes
  · obtain ⟨r, hr, hinitial⟩ := h.initial
    exact ⟨r, List.mem_append_left _ hr, hinitial⟩
  · intro item hitem hskip
    obtain ⟨hplain, r, hr, hbound⟩ := h.bound item hitem hskip
    exact ⟨hplain, r, List.mem_append_left _ hr, hbound⟩

/-- A revoked key goes: no session belongs to it. -/
theorem Tidy.eraseKey (h : Tidy keyId version skip store) {record : ApiKeyRecord} (hrevoked : record.revokedAt ≠ none) :
    Tidy keyId version skip { store with apiKeys := store.apiKeys.erase record } := by
  have hkept : ∀ r ∈ store.apiKeys, r.revokedAt = none → r ∈ store.apiKeys.erase record := fun r hr hactive =>
    (List.mem_erase_of_ne (by rintro rfl; exact hrevoked hactive)).2 hr
  refine ⟨h.version, h.ids.sublist ((List.erase_sublist ..).map _), fun r hr => h.scopes r (List.mem_of_mem_erase hr), ?_,
    h.sessionScopes, ?_, h.unclaiming⟩
  · obtain ⟨r, hr, hid, hactive, hadmin⟩ := h.initial
    exact ⟨r, hkept r hr hactive, hid, hactive, hadmin⟩
  · intro item hitem hskip
    obtain ⟨hplain, r, hr, hactive, hbound⟩ := h.bound item hitem hskip
    exact ⟨hplain, r, hkept r hr hactive, hactive, hbound⟩

/-- A session that belongs to a key is added. -/
theorem Tidy.addSession (h : Tidy keyId version skip store) {session : UiSessionRecord} {secret : Codes}
    (hscopes : NormalScopes session.scopes) (hbound : Bound store.apiKeys session) :
    Tidy keyId version skip { store with uiSessions := store.uiSessions.set secret session } := by
  have hmem : ∀ item ∈ (store.uiSessions.set secret session).items, item.2 = session ∨ item ∈ store.uiSessions.items := by
    intro item hitem
    rcases Dict.eq_or_of_get_set ((Dict.get_eq_some _ item.1 item.2).2 hitem) with ⟨-, heq⟩ | hold
    · exact .inl heq
    · exact .inr ((Dict.get_eq_some _ item.1 item.2).1 hold)
  refine ⟨h.version, h.ids, h.scopes, h.initial, ?_, ?_, h.unclaiming⟩
  · intro item hitem
    rcases hmem item hitem with heq | hold
    · rw [heq]
      exact hscopes
    · exact h.sessionScopes item hold
  · intro item hitem hskip
    rcases hmem item hitem with heq | hold
    · rw [heq]
      exact hbound
    · exact h.bound item hold hskip

end Stores

end SeedSync.Auth
