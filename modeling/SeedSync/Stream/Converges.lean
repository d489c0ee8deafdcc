import SeedSync.Lib.Fold
import SeedSync.Stream.Rows

/-!
# The stream loses no update

Word of every change is pending at the listener, taken by the loop, or on its way, until the client
has it. When nothing is under way and all pages are fetched, the client shows the published roots.
-/

namespace SeedSync.Stream

open Lib Identity Paging

variable {ρ : Type} {scope : Text}

/-! ## The session -/

/-- The ids of roots of which an event is to come. -/
def System.Awaits (scope : Text) (s : System ρ) (id : Codes) : Prop :=
  rootIdOf scope id = some id ∧ (s.listener.Holds id ∨ ∃ taken, s.taken = some taken ∧ taken.Names id)

def Pages.Covers : Pages → Codes → Prop
  | behind position, id => isAbove position id = false
  | complete, _ => True

/-- The stream as a session between a source and its replica. -/
def System.session (scope : Text) (s : System ρ) (source : Source Codes ρ) : Session Codes ρ where
  source
  pending := s.Awaits scope
  channel := s.channel.map SseEvent.message
  page := s.page.map PageAnswer.fetched
  rows := s.client.rows
  fetched := s.client.pages.Covers

structure Followed (scope : Text) (s : System ρ) : Prop where
  plain : ∀ root ∈ s.model.snapshot.roots, Plain scope root
  tracked : ∃ source : Source Codes ρ, source.truth = s.model.row scope ∧
    source.version = s.model.snapshot.scopeVersion (expectedPathPairId scope) ∧ (s.session scope source).Tracks
  /-- A page in flight goes on where the client is. -/
  page : ∀ page, s.page = some page →
    s.client.pages = .behind page.start ∧ ∀ last, page.next = some last → isAbove page.start last = true
  changes : s.listener.changes.items.length ≤ maxIdentities
  taken : ∀ taken, s.taken = some taken → taken.Bounded
  channel : ∀ event ∈ s.channel, event.Bounded
  notified : ∀ id ∈ s.notified, s.listener.Holds id

/-! ## The model changes -/

theorem scopeIdOf_expected (scope : Text) : scopeIdOf (expectedPathPairId scope) = scope.str.codes := by
  unfold expectedPathPairId scopeIdOf
  split_ifs with hlegacy
  · exact hlegacy.symm
  · rfl

theorem tell_session (s : System ρ) (root : Root) (source : Source Codes ρ) :
    (s.tell scope root).session scope source =
      { s.session scope source with pending := (s.tell scope root).Awaits scope } := by
  unfold System.tell System.session
  split_ifs <;> rfl

theorem tell_awaits {s : System ρ} {root : Root} (hroot : Plain scope root) :
    ∀ id, s.Awaits scope id → (s.tell scope root).Awaits scope id := by
  rintro id ⟨hid, hawaits⟩
  refine ⟨hid, ?_⟩
  unfold System.tell
  split_ifs with htold
  · exact hawaits.imp_left fun hholds => (modelVersionPublished_holds (hroot.2 htold) _).2 id hholds
  · exact hawaits

theorem tell_awaits_root {s : System ρ} {root : Root} (hroot : Plain scope root) (hpair : root.pair = expectedPathPairId scope) :
    (s.tell scope root).Awaits scope root.fileId := by
  have htold : scopeIdOf root.pair = scope.str.codes := by rw [hpair, scopeIdOf_expected]
  refine ⟨rootIdOf_root hpair, .inl ?_⟩
  rw [System.tell, if_pos htold]
  exact (modelVersionPublished_holds (hroot.2 htold) _).1

theorem Followed.tell {s : System ρ} (h : Followed scope s) {m : Published ρ} {root : Root}
    (hplain : ∀ other ∈ m.snapshot.roots, Plain scope other) (hroot : Plain scope root)
    (htracked : ∃ source : Source Codes ρ, source.truth = m.row scope ∧
      source.version = m.snapshot.scopeVersion (expectedPathPairId scope) ∧
      (({ s with model := m }.tell scope root).session scope source).Tracks) :
    Followed scope ({ s with model := m }.tell scope root) := by
  unfold System.tell at htracked ⊢
  split_ifs at htracked ⊢ with htold
  · have hholds := modelVersionPublished_holds (l := s.listener) (hroot.2 htold) (m.snapshot.scopeVersion root.pair)
    exact { h with
      plain := hplain
      tracked := htracked
      changes := modelVersionPublished_bounded (hroot.2 htold) _ h.changes
      notified := by
        intro id hid
        rcases List.mem_append.1 hid with hid | hid
        · exact hholds.2 id (h.notified id hid)
        · exact List.mem_singleton.1 hid ▸ hholds.1 }
  · exact { h with plain := hplain, tracked := htracked }

/-- One root changes, and the listener is told. -/
theorem Followed.change {s : System ρ} (h : Followed scope s) {m : Published ρ} {root : Root}
    (hplain : ∀ other ∈ m.snapshot.roots, Plain scope other) (hroot : Plain scope root)
    (hothers : ∀ id, id ≠ root.fileId → m.row scope id = s.model.row scope id)
    (hversion : m.snapshot.scopeVersion = bumped s.model.snapshot root.pair)
    (hforeign : root.pair ≠ expectedPathPairId scope → m.row scope root.fileId = s.model.row scope root.fileId) :
    Followed scope ({ s with model := m }.tell scope root) := by
  obtain ⟨source, htruth, hsource, htracks⟩ := h.tracked
  have hkeeps : ∀ id, s.Awaits scope id → ({ s with model := m }.tell scope root).Awaits scope id :=
    tell_awaits (s := { s with model := m }) hroot
  refine h.tell hplain hroot ?_
  by_cases hpair : root.pair = expectedPathPairId scope
  · refine ⟨source.touch (m.row scope) root.fileId, rfl, ?_, ?_⟩
    · rw [hversion, bumped, if_pos hpair.symm, ← hsource]
      rfl
    · rw [tell_session]
      refine htracks.change (fun other hid => ?_) hkeeps (tell_awaits_root hroot hpair)
      exact (hothers other hid).trans (congrFun htruth other).symm
  · refine ⟨source, ?_, ?_, ?_⟩
    · rw [htruth]
      funext id
      by_cases hid : id = root.fileId
      · exact hid ▸ (hforeign hpair).symm
      · exact (hothers id hid).symm
    · rw [hversion, bumped, if_neg (Ne.symm hpair), hsource]
      rfl
    · rw [tell_session]
      exact htracks.await hkeeps

theorem Followed.put {s : System ρ} (h : Followed scope s) {root : Root} (hroot : Plain scope root) (record : ρ) :
    Followed scope ({ s with model := s.model.put root record }.tell scope root) := by
  refine h.change (plain_put h.plain hroot record) hroot (fun id hid => row_put_ne hid) rfl fun hpair => ?_
  rw [row_other h.plain hroot hpair, row_other (plain_put h.plain hroot record) hroot hpair]

theorem Followed.remove {s : System ρ} (h : Followed scope s) {root : Root} (hroot : root ∈ s.model.snapshot.roots) :
    Followed scope ({ s with model := s.model.remove root }.tell scope root) := by
  have hplain := h.plain root hroot
  refine h.change (plain_remove h.plain root) hplain (fun id hid => row_remove_ne hid) rfl fun hpair => ?_
  rw [row_other h.plain hplain hpair, row_other (plain_remove h.plain root) hplain hpair]

/-! ## The loop -/

theorem Followed.take {s : System ρ} (h : Followed scope s) (htaken : s.taken = none) :
    Followed scope { s with taken := s.listener.takeNextEvent.1, listener := s.listener.takeNextEvent.2, notified := [] } := by
  obtain ⟨source, htruth, hsource, htracks⟩ := h.tracked
  obtain ⟨hbounded, hchanges⟩ := takeNextEvent_spec h.changes
  refine { h with tracked := ⟨source, htruth, hsource, ?_⟩, changes := hchanges, taken := hbounded, notified := by simp }
  refine htracks.await ?_
  rintro id ⟨hid, hholds | ⟨taken, hsome, -⟩⟩
  · exact ⟨hid, .inr (takeNextEvent_names hholds)⟩
  · rw [htaken] at hsome
    simp at hsome

theorem Followed.assemble {s : System ρ} (h : Followed scope s) {taken : Taken} (htaken : s.taken = some taken) :
    Followed scope { s with taken := none, channel := s.channel ++ [assembled scope s.model taken] } := by
  obtain ⟨source, htruth, hsource, htracks⟩ := h.tracked
  refine { h with tracked := ⟨source, htruth, hsource, ?_⟩, taken := by simp, channel := ?_ }
  · have hchannel : (s.channel ++ [assembled scope s.model taken]).map SseEvent.message =
        s.channel.map SseEvent.message ++ [(assembled scope s.model taken).message] := by simp
    rw [System.session, hchannel]
    refine htracks.send (assembled scope s.model taken).message ?_ ?_
    · rintro id ⟨hid, hholds | ⟨held, hsome, hnames⟩⟩
      · exact .inl ⟨hid, .inl hholds⟩
      · obtain rfl := Option.some.inj (htaken.symm.trans hsome)
        exact .inr (assembled_names h.plain hid hnames)
    · intro version entries hpatch
      obtain ⟨hversion, hentries⟩ := assembled_patch h.plain hpatch
      exact ⟨hversion.trans hsource.symm, fun entry hentry => (hentries entry hentry).trans (congrFun htruth _).symm⟩
  · intro event hevent
    rcases List.mem_append.1 hevent with hold | hnew
    · exact h.channel event hold
    · rw [List.mem_singleton.1 hnew]
      exact assembled_bounded s.model (h.taken taken htaken)

/-! ## The client -/

theorem Followed.restart {s : System ρ} (h : Followed scope s) {version : Nat} {rest : List (SseEvent ρ)}
    (hchannel : s.channel = .modelReset version :: rest) :
    Followed scope { s with channel := rest, page := none, client := {} } := by
  obtain ⟨source, htruth, hsource, htracks⟩ := h.tracked
  refine { h with tracked := ⟨source, htruth, hsource, ?_⟩, page := by simp, channel := ?_ }
  · have hmessages : (s.session scope source).channel = .reset :: rest.map SseEvent.message := by
      simp [System.session, hchannel, SseEvent.message]
    exact htracks.restart hmessages (by simp [Pages.Covers, isAbove])
  · exact fun event hevent => h.channel event (by rw [hchannel]; exact List.mem_cons_of_mem _ hevent)

theorem Followed.patch {s : System ρ} (h : Followed scope s) {event : SseEvent ρ} {rest : List (SseEvent ρ)} {version : Nat}
    {entries : List (Codes × Option ρ)} (hchannel : s.channel = event :: rest) (hevent : event.message = .patch version entries) :
    Followed scope { s with channel := rest, client := { s.client with rows := s.client.rows.learnAll version entries } } := by
  obtain ⟨source, htruth, hsource, htracks⟩ := h.tracked
  refine { h with tracked := ⟨source, htruth, hsource, ?_⟩, channel := ?_ }
  · have hmessages : (s.session scope source).channel = .patch version entries :: rest.map SseEvent.message := by
      simp [System.session, hchannel, hevent]
    exact htracks.patch hmessages
  · exact fun event hevent => h.channel event (by rw [hchannel]; exact List.mem_cons_of_mem _ hevent)

theorem Followed.requestPage {s : System ρ} (h : Followed scope s) (limit : Limit) {position : Option Codes}
    (hpages : s.client.pages = .behind position) :
    Followed scope { s with page := some (pageAt scope limit s.model position) } := by
  obtain ⟨source, htruth, hsource, htracks⟩ := h.tracked
  obtain ⟨hversion, hstart, hlast, hentries, habsent⟩ := pageAt_spec scope limit s.model position
  refine { h with tracked := ⟨source, htruth, hsource, ?_⟩, page := ?_ }
  · refine htracks.answer (hversion.trans hsource.symm) ?_ ?_
    · exact fun entry hentry => ⟨(hentries entry hentry).1, (hentries entry hentry).2.trans (congrFun htruth _).symm⟩
    · exact fun id hid hout => (congrFun htruth id).trans (habsent id hid hout)
  · intro page hpage
    obtain rfl := Option.some.inj hpage
    rw [hstart]
    exact ⟨hpages, hlast⟩

/-- The pages cover what they covered and what the new page covers. -/
theorem covers_onPage {client : Client ρ} {page : PageAnswer ρ} (hpages : client.pages = .behind page.start)
    (hlast : ∀ last, page.next = some last → isAbove page.start last = true) (id : Codes) :
    (client.onPage page).pages.Covers id ↔ client.pages.Covers id ∨ page.Covers id := by
  rw [hpages]
  unfold Client.onPage PageAnswer.Covers
  cases hnext : page.next with
  | none =>
    cases habove : isAbove page.start id <;> simp [Pages.Covers, habove]
  | some last =>
    have hstart := hlast last hnext
    simp only [Pages.Covers, Option.some.injEq, forall_eq']
    cases hposition : page.start with
    | none => simp [isAbove]
    | some start =>
      rw [hposition] at hstart
      simp only [isAbove, decide_eq_true_eq, decide_eq_false_iff_not, not_lt] at hstart ⊢
      constructor
      · intro hbelow
        by_cases hold : id ≤ start
        · exact .inl hold
        · exact .inr ⟨not_le.1 hold, hbelow⟩
      · rintro (hold | hnew)
        · exact hold.trans hstart.le
        · exact hnew.2

theorem Followed.receivePage {s : System ρ} (h : Followed scope s) {page : PageAnswer ρ} (hpage : s.page = some page) :
    Followed scope { s with page := none, client := s.client.onPage page } := by
  obtain ⟨source, htruth, hsource, htracks⟩ := h.tracked
  obtain ⟨hpages, hlast⟩ := h.page page hpage
  refine { h with tracked := ⟨source, htruth, hsource, ?_⟩, page := by simp }
  have hflight : (s.session scope source).page = some page.fetched := by simp [System.session, hpage]
  exact htracks.arrive hflight (covers_onPage hpages hlast)

/-! ## Every run -/

/-- What the listener is told of are plain roots. -/
def Event.Plain (scope : Text) : Event ρ → Prop
  | .put root _ => Stream.Plain scope root
  | _ => True

theorem Followed.step {s : System ρ} (h : Followed scope s) (limit : Limit) {event : Event ρ} (hevent : event.Plain scope) :
    Followed scope (step scope limit s event) := by
  cases event with
  | put root record => exact h.put hevent record
  | remove id =>
    unfold Stream.step
    dsimp only
    split
    · exact h
    · next root hfound => exact h.remove (List.mem_of_find?_eq_some hfound)
  | take =>
    unfold Stream.step
    dsimp only
    split
    · exact h
    · next htaken => exact h.take htaken
  | assemble =>
    unfold Stream.step
    dsimp only
    split
    · exact h
    · next taken htaken => exact h.assemble htaken
  | deliver =>
    unfold Stream.step
    dsimp only
    split
    · exact h
    · next version rest hchannel => exact h.restart hchannel
    · next version fileIds records removed rest hchannel => exact h.patch hchannel rfl
  | requestPage =>
    unfold Stream.step
    dsimp only
    split
    · next position _ hpages => exact h.requestPage limit hpages
    · exact h
  | receivePage =>
    unfold Stream.step
    dsimp only
    split
    · exact h
    · next page hpage => exact h.receivePage hpage

/-- The first page is requested and received at the registration. -/
theorem followed_opened (limit : Limit) {m : Published ρ} (hplain : ∀ root ∈ m.snapshot.roots, Plain scope root)
    (reconnects : Bool) :
    Followed scope (System.opened scope limit m reconnects) := by
  have hstart : Followed scope { System.opened scope limit m reconnects with client := {} } := {
    plain := hplain
    tracked := ⟨⟨m.row scope, m.snapshot.scopeVersion (expectedPathPairId scope), fun _ => 0, fun _ => Nat.zero_le _⟩, rfl, rfl,
      Session.tracks_start _ _ (by cases reconnects <;> simp [System.opened, SseEvent.message]) (by simp [Pages.Covers, isAbove])⟩
    page := by simp [System.opened]
    changes := Nat.zero_le _
    taken := by simp [System.opened]
    channel := by cases reconnects <;> simp [System.opened, SseEvent.Bounded]
    notified := by simp [System.opened] }
  exact (hstart.requestPage limit rfl).receivePage rfl

theorem Followed.run {s : System ρ} (h : Followed scope s) (limit : Limit) {events : List (Event ρ)}
    (hevents : ∀ event ∈ events, event.Plain scope) :
    Followed scope (run scope limit s events) := by
  unfold Stream.run
  exact foldl_invariant (Followed scope) events s (fun s event hevent hs => hs.step limit (hevents event hevent)) h

/-- The next event of the listener speaks of every id that it was told of. -/
def Listener.TellsOf (l : Listener) (notified : List Codes) : Prop :=
  match l.takeNextEvent.1 with
  | none => notified = []
  | some taken => ∀ id ∈ notified, taken.Names id

theorem Followed.tellsOf {s : System ρ} (h : Followed scope s) : s.listener.TellsOf s.notified := by
  have hnames : ∀ id ∈ s.notified, ∃ taken, s.listener.takeNextEvent.1 = some taken ∧ taken.Names id :=
    fun id hid => takeNextEvent_names (h.notified id hid)
  unfold Listener.TellsOf
  cases htaken : s.listener.takeNextEvent.1 with
  | none =>
    refine List.eq_nil_iff_forall_not_mem.2 fun id hid => ?_
    obtain ⟨taken, hsome, -⟩ := hnames id hid
    rw [htaken] at hsome
    simp at hsome
  | some taken =>
    intro id hid
    obtain ⟨found, hsome, hfound⟩ := hnames id hid
    rw [htaken] at hsome
    exact Option.some.inj hsome ▸ hfound

theorem Followed.converges {s : System ρ} (h : Followed scope s) (hpages : s.client.pages = .complete) (hchannel : s.channel = [])
    (htaken : s.taken = none) (hlistener : s.listener.takeNextEvent.1 = none) (id : Codes) :
    s.client.rows.record id = s.model.row scope id := by
  obtain ⟨source, htruth, -, htracks⟩ := h.tracked
  have hpending : ∀ id, ¬s.Awaits scope id := by
    rintro id ⟨-, hholds | ⟨taken, hsome, -⟩⟩
    · obtain ⟨taken, hsome, -⟩ := takeNextEvent_names hholds
      rw [hlistener] at hsome
      simp at hsome
    · rw [htaken] at hsome
      simp at hsome
  have hquiet := htracks.quiet hpending (by simp [System.session, hchannel]) (by simp [System.session, hpages, Pages.Covers]) id
  exact hquiet.trans (congrFun htruth id)

/-- Where the roots are plain, every run of the stream keeps its client up to date: an event names at
most 200 ids, the next one speaks of all that changed, and in the end the client shows the roots. -/
theorem scoped_stream_converges (scope : Text) (limit : Limit) (m : Published ρ) (reconnects : Bool)
    (hroots : ∀ root ∈ m.snapshot.roots, Plain scope root) (events : List (Event ρ))
    (hputs : ∀ root record, .put root record ∈ events → Plain scope root) :
    let s := run scope limit (System.opened scope limit m reconnects) events
    (∀ event ∈ s.channel, event.Bounded) ∧ s.listener.TellsOf s.notified ∧
      (s.client.pages = .complete → s.channel = [] → s.taken = none → s.listener.takeNextEvent.1 = none →
        ∀ id, s.client.rows.record id = s.model.row scope id) := by
  have hevents : ∀ event ∈ events, event.Plain scope := by
    intro event hevent
    cases event with
    | put root record => exact hputs root record hevent
    | remove | take | assemble | deliver | requestPage | receivePage => trivial
  have hfollowed := (followed_opened limit hroots reconnects).run limit hevents
  exact ⟨hfollowed.channel, hfollowed.tellsOf, hfollowed.converges⟩

def rootZ : Root := ⟨some scopeP, .mk shortName [], leaf_proper shortName⟩

def oneRoot : Published Nat where
  snapshot := { roots := [rootZ], sorted := by simp, scopeVersion := fun _ => 7 }
  record _ := 1

theorem rootZ_plain : Plain scopeP rootZ := by
  refine ⟨fun pair path h => ?_, fun _ => by decide +kernel⟩
  have hhead : rootZ.file.name.text.head? = some 91 := by
    rw [h, idText_eq]
    rfl
  exact absurd hhead (by decide +kernel)

/-- The root is updated, and removed before the event of the update is assembled. -/
theorem updated_root_converges :
    let s := run scopeP ⟨200, by decide⟩ (System.opened scopeP ⟨200, by decide⟩ oneRoot true)
      [.put rootZ 2, .take, .remove rootZ.fileId, .assemble, .deliver, .requestPage, .deliver, .take, .assemble, .receivePage,
        .deliver]
    s.client.rows.record rootZ.fileId = none ∧ s.model.row scopeP rootZ.fileId = none := by
  have h := (scoped_stream_converges scopeP ⟨200, by decide⟩ oneRoot true
    (fun root hroot => List.mem_singleton.1 hroot ▸ rootZ_plain)
    [.put rootZ 2, .take, .remove rootZ.fileId, .assemble, .deliver, .requestPage, .deliver, .take, .assemble, .receivePage,
      .deliver] (by
        intro root record hmem
        simp only [List.mem_cons, Event.put.injEq, reduceCtorEq, List.not_mem_nil, or_false] at hmem
        exact hmem.1 ▸ rootZ_plain)).2.2 (by decide +kernel) (by decide +kernel)
    (by decide +kernel) (by decide +kernel) rootZ.fileId
  exact ⟨h.trans (by decide +kernel), by decide +kernel⟩

/-- A root that is named by the id of another root of its path pair. -/
def idName : Name where
  text := rootZ.fileId
  valid := by decide +kernel
  joined := by decide +kernel
  nonempty := by decide +kernel
  plain := by decide +kernel
  notSelf := by decide +kernel
  notParent := by decide +kernel

def namedById : Root := ⟨some scopeP, .mk idName [], .mk (by simp) (by simp)⟩

def confusable : Published Nat where
  snapshot := { roots := [namedById, rootZ], sorted := by decide +kernel, scopeVersion := fun _ => 7 }
  record _ := 1

/-- The event of a removal carries the record of the root with that name, and the removed root stays
at the client when nothing is pending. -/
theorem removed_root_stays :
    let s := run scopeP ⟨200, by decide⟩ (System.opened scopeP ⟨200, by decide⟩ confusable false)
      [.remove rootZ.fileId, .take, .assemble, .deliver]
    s.client.pages = .complete ∧ s.channel = [] ∧ s.taken = none ∧ s.listener.takeNextEvent.1 = none ∧
      s.client.rows.record rootZ.fileId = some 1 ∧ s.model.row scopeP rootZ.fileId = none := by
  decide +kernel

end SeedSync.Stream
