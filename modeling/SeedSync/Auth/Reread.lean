import SeedSync.Auth.Unsaved

/-!
# What is read back of a store

`from_str` of the text of `to_str`: the keys, the sessions that have not expired and the claimed version,
but for texts that hold the two halves of a character. A session whose time has no offset stops `to_str`.
-/

namespace SeedSync.Auth

open Lib Program

/-! ## Texts -/

/-- The texts of a record that `json.dumps` writes as they are. -/
def ApiKeyRecord.texts (record : ApiKeyRecord) : List Codes :=
  [record.id, record.name, record.secretHash, record.createdAt, record.updatedAt] ++ record.revokedAt.toList

def UiSessionRecord.texts (record : UiSessionRecord) : List Codes :=
  [record.secret, record.createdAt, record.expiresAt] ++ record.apiKeyId.toList ++ record.apiKeySecretHash.toList

/-- What the credentials have of texts -/
def Credentials.texts (c : Credentials) : List Codes :=
  c.apiKeys.flatMap ApiKeyRecord.texts ++ c.uiSessions.items.flatMap (fun item => item.2.texts) ++ [c.claimedVersion]

/-- What `from_str` makes of the text that `to_str` returns, where every write succeeds. -/
def World.reread (dates : DateTimes) (now : Int) (w : World) : Option ApiKeyStore :=
  match ((toStr dates now).run.run ⟨w, fun _ => []⟩).1 with
  | .ok payload => (loads (payload.write (.indented 2) 0)).bind fromStr
  | .error _ => none

/-- The credentials are read back, less the expired sessions. -/
def RoundTrips (dates : DateTimes) (now : Int) (w : World) : Prop :=
  ∃ store, w.reread dates now = some store ∧ store.credentials.Same (w.credentials.unexpired dates now)

/-- Each session's time has an offset, and in no text that is written does the first half of a character stand before a
second one. -/
structure Reloadable (dates : DateTimes) (now : Int) (c : Credentials) : Prop where
  offsets : ∀ item ∈ c.uiSessions.items, sessionExpired dates now item.2 ≠ none
  joined : ∀ text ∈ (c.unexpired dates now).texts, joinCodes text = text

/-! ## Records read back -/

theorem joinCodes_joinCodes {text : Codes} (h : IsText text) : joinCodes (joinCodes text) = joinCodes text := by
  have hsame : (Json.str (joinCodes text)).write .compact 0 = (Json.str text).write .compact 0 := by
    simp only [Json.write, quoted_joinCodes]
  have hread := Json.loads_write .compact (.str (joinCodes text)) (isText_joinCodes h)
  rw [hsame, Json.loads_write .compact (.str text) h] at hread
  simpa [Json.reread] using hread.symm

/-- The record with the halves in its texts joined -/
def ApiKeyRecord.joined (record : ApiKeyRecord) : ApiKeyRecord :=
  { record with
    id := joinCodes record.id
    name := joinCodes record.name
    secretHash := joinCodes record.secretHash
    createdAt := joinCodes record.createdAt
    updatedAt := joinCodes record.updatedAt
    revokedAt := record.revokedAt.map joinCodes }

def UiSessionRecord.joined (record : UiSessionRecord) : UiSessionRecord :=
  { record with
    secret := joinCodes record.secret
    createdAt := joinCodes record.createdAt
    expiresAt := joinCodes record.expiresAt
    apiKeyId := record.apiKeyId.map joinCodes
    apiKeySecretHash := record.apiKeySecretHash.map joinCodes }

theorem map_joinCodes_eq (text : Option Codes) : text.map joinCodes = text ↔ ∀ t ∈ text.toList, joinCodes t = t := by
  cases text with
  | none => simp
  | some t => simp

theorem ApiKeyRecord.joined_eq {record : ApiKeyRecord} :
    record.joined = record ↔ ∀ text ∈ record.texts, joinCodes text = text := by
  cases record
  simp [joined, texts, map_joinCodes_eq]

theorem UiSessionRecord.joined_eq {record : UiSessionRecord} :
    record.joined = record ↔ ∀ text ∈ record.texts, joinCodes text = text := by
  cases record
  simp [joined, texts, map_joinCodes_eq, or_imp, forall_and]

theorem UiSessionRecord.texts_joined (record : UiSessionRecord) : record.joined.texts = record.texts.map joinCodes := by
  obtain ⟨secret, scopes, created, expires, bootstrap, remembered, _ | keyId, _ | hash⟩ := record <;> rfl

theorem UiSessionRecord.joined_joined {record : UiSessionRecord} (h : ∀ text ∈ record.texts, IsText text) :
    record.joined.joined = record.joined := by
  rw [joined_eq, texts_joined]
  intro text htext
  obtain ⟨t, ht, rfl⟩ := List.mem_map.1 htext
  exact joinCodes_joinCodes (h t ht)

theorem NormalScopes.joined {scopes : List Codes} (h : NormalScopes scopes) : scopes.map joinCodes = scopes := by
  refine (List.map_congr_left fun scope hmem => ?_).trans (List.map_id _)
  obtain ⟨text, -, rfl⟩ := List.mem_map.1 (h.allowed scope hmem)
  exact joinCodes_codes text

theorem reread_strOption (text : Option Codes) : (strOption text).reread = strOption (text.map joinCodes) := by
  cases text <;> rfl

theorem reread_texts (texts : List Codes) :
    (Json.list (texts.map Json.str)).reread = .list ((texts.map joinCodes).map Json.str) := by
  rw [Json.reread, Json.rereadItems_eq, List.map_map, List.map_map]
  rfl

theorem reread_asdict {record : ApiKeyRecord} (h : NormalScopes record.scopes) :
    record.asdict.reread = record.joined.asdict := by
  rw [ApiKeyRecord.asdict, Json.reread, Json.rereadFields_eq]
  simp only [List.map_cons, List.map_nil, joinCodes_codes, reread_texts, h.joined, reread_strOption]
  rw [Dict.ofList_items (by simp only [List.map_cons, List.map_nil]; decide)]
  rfl

theorem reread_session_asdict {record : UiSessionRecord} (h : NormalScopes record.scopes) :
    record.asdict.reread = record.joined.asdict := by
  rw [UiSessionRecord.asdict, Json.reread, Json.rereadFields_eq]
  simp only [List.map_cons, List.map_nil, joinCodes_codes, reread_texts, h.joined, reread_strOption]
  rw [Dict.ofList_items (by simp only [List.map_cons, List.map_nil]; decide)]
  rfl

/-! ## A store read back -/

/-- What keeps credentials readable: normal scopes, and every session under its own secret. -/
structure Credentials.Sound (c : Credentials) : Prop where
  keys : ∀ record ∈ c.apiKeys, NormalScopes record.scopes
  sessions : ∀ item ∈ c.uiSessions.items, NormalScopes item.2.scopes
  keyed : ∀ item ∈ c.uiSessions.items, item.2.secret = item.1

theorem sessionDict_get {sessions : List UiSessionRecord} (h : (sessions.map UiSessionRecord.secret).Nodup) (secret : Codes)
    (session : UiSessionRecord) :
    (sessionDict sessions).get secret = some session ↔ session ∈ sessions ∧ session.secret = secret := by
  have hofList : sessionDict sessions = Dict.ofList (sessions.map fun session => (session.secret, session)) := by
    rw [sessionDict, Dict.ofList, List.foldl_map]
  rw [hofList, Dict.get_eq_some, Dict.ofList_items (by simpa [List.map_map, Function.comp_def] using h)]
  simp [and_comm, eq_comm]

theorem fromStr_reread {store : ApiKeyStore} (hkeys : ∀ record ∈ store.apiKeys, NormalScopes record.scopes)
    (hsessions : ∀ item ∈ store.uiSessions.items, NormalScopes item.2.scopes) :
    fromStr store.payload.reread = some {
      apiKeys := store.apiKeys.map ApiKeyRecord.joined
      uiSessions := sessionDict (store.sortedSessions.map UiSessionRecord.joined)
      browserHandoverClaimedVersion := joinCodes store.browserHandoverClaimedVersion } := by
  have hsorted : ∀ session ∈ store.sortedSessions, NormalScopes session.scopes := fun session hmem => by
    obtain ⟨item, hitem, rfl⟩ := mem_sortedSessions.1 hmem
    exact hsessions item hitem
  have hrereadKeys : (store.apiKeys.map ApiKeyRecord.asdict).map Json.reread =
      (store.apiKeys.map ApiKeyRecord.joined).map ApiKeyRecord.asdict := by
    rw [List.map_map, List.map_map]
    exact List.map_congr_left fun record hmem => reread_asdict (hkeys record hmem)
  have hrereadSessions : (store.sortedSessions.map UiSessionRecord.asdict).map Json.reread =
      (store.sortedSessions.map UiSessionRecord.joined).map UiSessionRecord.asdict := by
    rw [List.map_map, List.map_map]
    exact List.map_congr_left fun session hmem => reread_session_asdict (hsorted session hmem)
  have hpayload : store.payload.reread = .obj [(codes "version", .int 3),
      (codes "api_keys", .list ((store.apiKeys.map ApiKeyRecord.joined).map ApiKeyRecord.asdict)),
      (codes "ui_sessions", .list ((store.sortedSessions.map UiSessionRecord.joined).map UiSessionRecord.asdict)),
      (codes "browser_handover_claimed_version", .str (joinCodes store.browserHandoverClaimedVersion))] := by
    rw [ApiKeyStore.payload, ← ApiKeyStore.sortedSessions, Json.reread, Json.rereadFields_eq]
    simp only [List.map_cons, List.map_nil, joinCodes_codes, Json.reread, Json.rereadItems_eq, hrereadKeys, hrereadSessions]
    rw [Dict.ofList_items (by simp only [List.map_cons, List.map_nil]; decide)]
  rw [hpayload]
  refine fromStr_records (fun record hmem => ?_) (fun session hmem => ?_) _
  · obtain ⟨key, hkey, rfl⟩ := List.mem_map.1 hmem
    exact hkeys key hkey
  · obtain ⟨session, hsession, rfl⟩ := List.mem_map.1 hmem
    exact hsorted session hsession

theorem run_toStr_of_naive {dates : DateTimes} {now : Int} {m : Machine Target World}
    (h : hasNaive dates now m.world.credentials.uiSessions = true) :
    (toStr dates now).run.run m = (.error (.raised .type), m) := run_bind_of_error (run_prune_of_naive h) _

/-- `to_str` returns the payload of the store without the expired sessions. -/
theorem run_toStr_of_not_naive {dates : DateTimes} {now : Int} {m : Machine Target World} (hhistory : m.outcomes .history = [])
    (h : ¬ hasNaive dates now m.world.credentials.uiSessions = true) :
    ∃ m', (toStr dates now).run.run m = (.ok m'.world.store.payload, m') ∧
      m'.world.credentials = m.world.credentials.unexpired dates now := by
  obtain ⟨w, hprune, hw⟩ := run_prune_of_not_naive h
  have hrest : Passes (fun c => c = w.credentials) (do pruneBootstrapProof dates now; pruneBootstrapExchange dates now)
      (fun c => c = w.credentials) := Passes.bind pruneBootstrapProof_passes fun _ => pruneBootstrapExchange_passes
  obtain ⟨_, m', hrun, -, hlast⟩ := hrest { m with world := w } hhistory rfl
  refine ⟨m', ?_, hlast.trans hw⟩
  have hmore := run_bind_of_ok hrun fun _ => getStore >>= fun store => (pure store.payload : M Json)
  rw [bind_assoc] at hmore
  exact (run_bind_of_ok hprune _).trans hmore

/-- Filtering keeps what keeps credentials readable. -/
theorem Credentials.Sound.filter {c : Credentials} (h : c.Sound) (p : Codes → UiSessionRecord → Bool) :
    ({ c with uiSessions := c.uiSessions.filter p } : Credentials).Sound :=
  ⟨h.keys, fun item hitem => h.sessions item (List.mem_filter.1 hitem).1,
    fun item hitem => h.keyed item (List.mem_filter.1 hitem).1⟩

theorem mem_texts_of_unexpired {dates : DateTimes} {now : Int} {c : Credentials} {text : Codes}
    (h : text ∈ (c.unexpired dates now).texts) : text ∈ c.texts := by
  simp only [Credentials.texts, Credentials.unexpired, List.mem_append, List.mem_flatMap] at h ⊢
  obtain (hkey | ⟨item, hitem, htext⟩) | hversion := h
  · exact .inl (.inl hkey)
  · exact .inl (.inr ⟨item, (List.mem_filter.1 hitem).1, htext⟩)
  · exact .inr hversion

theorem isValue_texts {texts : List Codes} (h : ∀ text ∈ texts, IsText text) : (Json.list (texts.map Json.str)).IsValue := by
  refine (Json.allValues_iff _).2 fun item hitem => ?_
  obtain ⟨text, htext, rfl⟩ := List.mem_map.1 hitem
  exact h text htext

theorem isValue_strOption {text : Option Codes} (h : ∀ t ∈ text.toList, IsText t) : (strOption text).IsValue := by
  cases text with
  | none => exact trivial
  | some t => exact h t (by simp)

theorem NormalScopes.isText {scopes : List Codes} (h : NormalScopes scopes) : ∀ scope ∈ scopes, IsText scope := by
  intro scope hmem
  obtain ⟨text, -, rfl⟩ := List.mem_map.1 (h.allowed scope hmem)
  exact isText_codes text

theorem isValue_asdict {record : ApiKeyRecord} (hscopes : NormalScopes record.scopes)
    (h : ∀ text ∈ record.texts, IsText text) : record.asdict.IsValue := by
  have hlist := isValue_texts hscopes.isText
  have hrevoked : (strOption record.revokedAt).IsValue := isValue_strOption fun t ht => h t (by simp [ApiKeyRecord.texts, ht])
  simp only [ApiKeyRecord.texts, List.forall_mem_append, List.forall_mem_cons] at h
  obtain ⟨⟨hid, hname, hhash, hcreated, hupdated, -⟩, -⟩ := h
  exact ⟨isText_codes _, hid, isText_codes _, hname, isText_codes _, hlist, isText_codes _, hhash, isText_codes _, hcreated,
    isText_codes _, hupdated, isText_codes _, hrevoked, trivial⟩

theorem isValue_session_asdict {record : UiSessionRecord} (hscopes : NormalScopes record.scopes)
    (h : ∀ text ∈ record.texts, IsText text) : record.asdict.IsValue := by
  have hlist := isValue_texts hscopes.isText
  have hkey : (strOption record.apiKeyId).IsValue := isValue_strOption fun t ht => h t (by simp [UiSessionRecord.texts, ht])
  have hhash : (strOption record.apiKeySecretHash).IsValue :=
    isValue_strOption fun t ht => h t (by simp [UiSessionRecord.texts, ht])
  simp only [UiSessionRecord.texts, List.forall_mem_append, List.forall_mem_cons] at h
  obtain ⟨⟨⟨hsecret, hcreated, hexpires, -⟩, -⟩, -⟩ := h
  exact ⟨isText_codes _, hsecret, isText_codes _, hlist, isText_codes _, hcreated, isText_codes _, hexpires, isText_codes _,
    trivial, isText_codes _, trivial, isText_codes _, hkey, isText_codes _, hhash, trivial⟩

theorem isValue_payload {store : ApiKeyStore} (h : store.credentials.Sound)
    (htexts : ∀ text ∈ store.credentials.texts, IsText text) : store.payload.IsValue := by
  simp only [Credentials.texts, List.forall_mem_append, List.mem_flatMap] at htexts
  obtain ⟨⟨hkeys, hsessions⟩, hversion⟩ := htexts
  refine ⟨isText_codes _, trivial, isText_codes _, (Json.allValues_iff _).2 fun item hitem => ?_, isText_codes _,
    (Json.allValues_iff _).2 fun item hitem => ?_, isText_codes _, hversion _ (List.mem_singleton_self _), trivial⟩
  · obtain ⟨record, hrecord, rfl⟩ := List.mem_map.1 hitem
    exact isValue_asdict (h.keys record hrecord) fun text ht => hkeys text ⟨record, hrecord, ht⟩
  · obtain ⟨session, hsession, rfl⟩ := List.mem_map.1 hitem
    obtain ⟨entry, hentry, rfl⟩ := mem_sortedSessions.1 hsession
    exact isValue_session_asdict (h.sessions entry hentry) fun text ht => hsessions text ⟨entry, hentry, ht⟩

/-- Joining the halves in the texts changes nothing, exactly if there are none to join. -/
theorem joined_same_iff {store : ApiKeyStore} (h : store.credentials.Sound)
    (htexts : ∀ text ∈ store.credentials.texts, IsText text) :
    (⟨store.apiKeys.map ApiKeyRecord.joined, sessionDict (store.sortedSessions.map UiSessionRecord.joined),
      joinCodes store.browserHandoverClaimedVersion⟩ : Credentials).Same store.credentials ↔
      ∀ text ∈ store.credentials.texts, joinCodes text = text := by
  simp only [Credentials.texts, List.forall_mem_append, List.mem_flatMap] at htexts ⊢
  constructor
  · rintro ⟨hkeys, hsessions, hversion⟩
    refine ⟨⟨?_, ?_⟩, fun text ht => by rw [List.mem_singleton.1 ht]; exact hversion⟩
    · rintro text ⟨record, hrecord, ht⟩
      have hall := List.map_inj_left.1 (hkeys.trans (List.map_id store.apiKeys).symm)
      exact ApiKeyRecord.joined_eq.1 (hall record hrecord) text ht
    · rintro text ⟨item, hitem, ht⟩
      have hget := (hsessions item.1).trans ((Dict.get_eq_some store.uiSessions item.1 item.2).2 hitem)
      obtain ⟨session, hsession, heq⟩ := List.mem_map.1 (mem_sessionDict ((Dict.get_eq_some _ item.1 item.2).1 hget))
      obtain ⟨entry, hentry, rfl⟩ := mem_sortedSessions.1 hsession
      dsimp only at heq
      rw [← heq] at ht
      have htext := fun t ht => htexts.1.2 t ⟨entry, hentry, ht⟩
      exact UiSessionRecord.joined_eq.1 (UiSessionRecord.joined_joined htext) text ht
  · rintro ⟨⟨hkeys, hsessions⟩, hversion⟩
    have hsorted : store.sortedSessions.map UiSessionRecord.joined = store.sortedSessions := by
      refine (List.map_congr_left fun session hmem => ?_).trans (List.map_id _)
      obtain ⟨item, hitem, rfl⟩ := mem_sortedSessions.1 hmem
      exact UiSessionRecord.joined_eq.2 fun text ht => hsessions text ⟨item, hitem, ht⟩
    have hsecrets : (store.sortedSessions.map UiSessionRecord.secret).Nodup := by
      have hperm : store.sortedSessions.Perm (store.uiSessions.items.map Prod.snd) := List.mergeSort_perm ..
      refine (hperm.map _).nodup_iff.2 ?_
      have hkeyed : (store.uiSessions.items.map Prod.snd).map UiSessionRecord.secret = store.uiSessions.items.map Prod.fst := by
        rw [List.map_map]
        exact List.map_congr_left h.keyed
      rw [hkeyed]
      exact store.uiSessions.nodup
    refine ⟨?_, fun secret => ?_, hversion _ (List.mem_singleton_self _)⟩
    · refine (List.map_congr_left fun record hmem => ?_).trans (List.map_id _)
      exact ApiKeyRecord.joined_eq.2 fun text ht => hkeys text ⟨record, hmem, ht⟩
    · dsimp only
      rw [hsorted]
      refine Option.ext fun session => ?_
      rw [sessionDict_get hsecrets, mem_sortedSessions]
      change _ ↔ store.uiSessions.get secret = some session
      rw [Dict.get_eq_some]
      constructor
      · rintro ⟨⟨item, hitem, rfl⟩, rfl⟩
        rw [h.keyed item hitem]
        exact hitem
      · exact fun hitem => ⟨⟨_, hitem, rfl⟩, h.keyed _ hitem⟩

/-- Credentials that are read as they should be are read back exactly if they can be. -/
theorem roundTrips_iff {dates : DateTimes} {now : Int} {w : World} (h : w.credentials.Sound)
    (htexts : ∀ text ∈ w.credentials.texts, IsText text) : RoundTrips dates now w ↔ Reloadable dates now w.credentials := by
  by_cases hnaive : hasNaive dates now w.credentials.uiSessions = true
  · constructor
    · rintro ⟨store, hreread, -⟩
      rw [World.reread, @run_toStr_of_naive dates now ⟨w, fun _ => []⟩ hnaive] at hreread
      cases hreread
    · rintro ⟨hoffsets, -⟩
      obtain ⟨item, hitem, hnone⟩ := List.any_eq_true.1 hnaive
      exact absurd (by simpa using hnone) (hoffsets item hitem)
  · obtain ⟨m', hrun, hlast⟩ := @run_toStr_of_not_naive dates now ⟨w, fun _ => []⟩ rfl hnaive
    have hunexpired : m'.world.store.credentials = w.credentials.unexpired dates now := hlast
    have hsound : m'.world.store.credentials.Sound := hunexpired ▸ h.filter _
    have htexts' : ∀ text ∈ m'.world.store.credentials.texts, IsText text := fun text ht =>
      htexts text (mem_texts_of_unexpired (hunexpired ▸ ht))
    have hreread : w.reread dates now = fromStr m'.world.store.payload.reread := by
      rw [World.reread, hrun]
      dsimp only
      rw [Json.loads_write _ _ (isValue_payload hsound htexts'), Option.bind_some]
    have hsame := joined_same_iff hsound htexts'
    rw [fromStr_reread hsound.keys hsound.sessions] at hreread
    constructor
    · rintro ⟨store, hstore, hround⟩
      rw [hreread] at hstore
      cases hstore
      refine ⟨fun item hitem hnone => hnaive (List.any_eq_true.2 ⟨item, hitem, by rw [hnone]; rfl⟩), ?_⟩
      rw [← hunexpired] at hround ⊢
      exact hsame.1 hround
    · rintro ⟨-, hjoined⟩
      refine ⟨_, hreread, ?_⟩
      rw [← hunexpired] at hjoined ⊢
      exact hsame.2 hjoined

end SeedSync.Auth
