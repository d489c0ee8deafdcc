import SeedSync.Auth.Frame

/-!
# How a claim window moves

What the handover operations do to the claimed version, to the window in memory and to its file. A window
that is not loaded yet counts as that of the file.
-/

namespace SeedSync.Auth

open Lib Program

/-! ## Where a claim stands -/

/-- The window state in memory, or as it would be loaded. -/
structure View where
  state : Option DeadlineState
  invalid : Bool
  deriving DecidableEq

def View.active (view : View) : Option Deadline := view.state.bind DeadlineState.active

def View.seen (view : View) : List Codes := (view.state.map DeadlineState.seenRecoveryVersions).getD []

/-- What decides a claim, less the keys. -/
@[ext] structure Standing where
  claimedVersion : Codes
  view : View
  file : Option Doc
  activated : Bool
  bound : Codes
  claiming : Bool

section

variable (dates : DateTimes) (digest : Codes → Codes)

def Frame.view (frame : Frame) : View :=
  if frame.loaded then ⟨frame.deadline, frame.invalid⟩
  else match frame.deadlineFile with
    | none => ⟨frame.deadline, frame.invalid⟩
    | some doc =>
      match readDeadlineState dates digest doc with
      | some state => ⟨some state, frame.invalid⟩
      | none => ⟨frame.deadline, true⟩

def Frame.standing (frame : Frame) : Standing where
  claimedVersion := frame.claimedVersion
  view := frame.view dates digest
  file := frame.deadlineFile
  activated := frame.activated
  bound := frame.claimedHandoverVersion
  claiming := frame.claimTransaction.isSome

def World.standing (w : World) : Standing := w.frame.standing dates digest

/-- The store after its window state is loaded. -/
def World.loadedStore (w : World) : ApiKeyStore :=
  { w.store with
    browserHandoverDeadlineLoaded := true
    browserHandoverDeadline := (w.standing dates digest).view.state
    browserHandoverDeadlineInvalid := (w.standing dates digest).view.invalid }

variable {dates} {digest}

theorem standing_of_frame {α : Type} {program : M α} (h : Leaves World.frame program) :
    Leaves (World.standing dates digest) program :=
  fun m => congrArg (Frame.standing dates digest) (h m)

theorem withDeadlineOf_eq (w : World) : w.store.withDeadlineOf dates digest w.files.deadline = w.loadedStore dates digest := by
  unfold ApiKeyStore.withDeadlineOf World.loadedStore World.standing Frame.standing Frame.view World.frame
  dsimp only
  by_cases hloaded : w.store.browserHandoverDeadlineLoaded = true
  · rw [if_pos hloaded, if_pos hloaded]
    cases hstore : w.store
    rw [hstore] at hloaded
    simp_all
  · rw [if_neg hloaded, if_neg hloaded]
    cases w.files.deadline with
    | none => rfl
    | some doc =>
      dsimp only
      cases readDeadlineState dates digest doc <;> rfl

/-- A loaded store's window state is what is in memory. -/
theorem view_of_loaded {w : World} (h : w.store.browserHandoverDeadlineLoaded = true) :
    (w.standing dates digest).view = ⟨w.store.browserHandoverDeadline, w.store.browserHandoverDeadlineInvalid⟩ := by
  simp [World.standing, Frame.standing, Frame.view, World.frame, h]

theorem standing_of_loaded {w : World} (h : w.store.browserHandoverDeadlineLoaded = true) :
    w.standing dates digest =
      { claimedVersion := w.store.browserHandoverClaimedVersion
        view := ⟨w.store.browserHandoverDeadline, w.store.browserHandoverDeadlineInvalid⟩
        file := w.files.deadline
        activated := w.store.browserHandoverActivated
        bound := w.store.claimedHandoverVersion
        claiming := w.store.claimTransaction.isSome } :=
  Standing.ext rfl (view_of_loaded h) rfl rfl rfl rfl

/-- Loading leaves the standing as it is. -/
theorem standing_loadedStore (w : World) :
    ({ w with store := w.loadedStore dates digest } : World).standing dates digest = w.standing dates digest := by
  have hview : (({ w with store := w.loadedStore dates digest } : World).standing dates digest).view =
      (w.standing dates digest).view := by
    rw [view_of_loaded rfl]
    rfl
  exact Standing.ext rfl hview rfl rfl rfl rfl

theorem run_loadBrowserHandoverDeadline (m : Machine Target World) :
    (loadBrowserHandoverDeadline dates digest).run.run m = (.ok (m.world.standing dates digest).view.state,
      { m with world := { m.world with store := m.world.loadedStore dates digest } }) := by
  have hstore : m.world.store.withDeadlineOf dates digest m.world.files.deadline = m.world.loadedStore dates digest :=
    withDeadlineOf_eq m.world
  unfold loadBrowserHandoverDeadline
  rw [run_read_bind]
  change (_, _) = _
  unfold World.updateStore
  simp only [id_eq, hstore]
  rfl

/-! ## A window that is closed -/

def expectedVersion (digest : Codes → Codes) (version : Codes) : HandoverKind → Codes
  | .recovery => digest version
  | .initial => []

/-- What the end of a claim of a version does to a loaded window. -/
inductive Closes (digest : Codes → Codes) (version : Codes) (at_ : Standing) : Standing → Prop where
  | kept (h : ∀ active, at_.view.active = some active → at_.view.invalid = false →
      active.versionSha256 ≠ expectedVersion digest version active.kind) : Closes digest version at_ at_
  | closed (state : DeadlineState) (active : Deadline) (file : Option Doc) (hstate : at_.view.state = some state)
      (hactive : state.active = some active) (hvalid : at_.view.invalid = false)
      (hfile : file = at_.file ∨ file = some ({ state with active := none } : DeadlineState).doc) :
      Closes digest version at_ { at_ with view := ⟨some { state with active := none }, false⟩, file := file }

/-- The window is loaded, and the claim stands at `at_`. -/
structure StandsAt (dates : DateTimes) (digest : Codes → Codes) (at_ : Standing) (m : Machine Target World) : Prop where
  loaded : m.world.store.browserHandoverDeadlineLoaded = true
  standing : m.world.standing dates digest = at_

theorem StandsAt.view {at_ : Standing} {m : Machine Target World} (h : StandsAt dates digest at_ m) :
    at_.view = ⟨m.world.store.browserHandoverDeadline, m.world.store.browserHandoverDeadlineInvalid⟩ := by
  rw [← h.standing]
  exact view_of_loaded h.loaded

/-- A window state is set in memory and written, or its write raises. -/
theorem write_triple {at_ : Standing} (state : DeadlineState) :
    Triple (StandsAt dates digest { at_ with view := ⟨some state, false⟩ }) (writeBrowserHandoverDeadline state)
      (fun _ m => StandsAt dates digest { at_ with view := ⟨some state, false⟩, file := some state.doc } m)
      (fun m => ∃ file, (file = at_.file ∨ file = some state.doc) ∧
        StandsAt dates digest { at_ with view := ⟨some state, false⟩, file := file } m) := by
  have hwritten : ∀ m : Machine Target World, StandsAt dates digest { at_ with view := ⟨some state, false⟩ } m →
      ∀ outcomes, StandsAt dates digest { at_ with view := ⟨some state, false⟩, file := some state.doc }
        ⟨{ m.world with files.deadline := some state.doc }, outcomes⟩ := by
    rintro m ⟨hloaded, hstanding⟩ outcomes
    refine ⟨hloaded, ?_⟩
    rw [standing_of_loaded hloaded, Standing.mk.injEq] at hstanding
    rw [standing_of_loaded (by exact hloaded), Standing.mk.injEq]
    exact ⟨hstanding.1, hstanding.2.1, rfl, hstanding.2.2.2⟩
  have hkept : ∀ m : Machine Target World, StandsAt dates digest { at_ with view := ⟨some state, false⟩ } m →
      ∃ file, (file = at_.file ∨ file = some state.doc) ∧
        StandsAt dates digest { at_ with view := ⟨some state, false⟩, file := file } m :=
    fun m h => ⟨at_.file, .inl rfl, h⟩
  unfold writeBrowserHandoverDeadline
  refine Triple.check (fun m h => hkept m h) fun _ => Triple.act ?_ ?_ ?_ ?_
  · exact fun m h => hwritten m h _
  · exact fun m h _ => ⟨at_.file, .inl rfl, h.loaded, h.standing⟩
  · exact fun m h _ => ⟨_, .inr rfl, hwritten m h _⟩
  · exact fun m n h _ => ⟨at_.file, .inl rfl, h.loaded, h.standing⟩

/-- The store is changed in its window state. -/
theorem StandsAt.setState {at_ : Standing} {m : Machine Target World} (h : StandsAt dates digest at_ m) {state : DeadlineState}
    {store : ApiKeyStore} (hstore : store = { m.world.store with
      browserHandoverDeadline := some state, browserHandoverDeadlineInvalid := false }) :
    StandsAt dates digest { at_ with view := ⟨some state, false⟩ } { m with world := { m.world with store := store } } := by
  subst hstore
  refine ⟨h.loaded, ?_⟩
  rw [← h.standing, standing_of_loaded h.loaded, standing_of_loaded (by exact h.loaded)]

theorem finalize_triple {at_ : Standing} (version : Codes) :
    Triple (StandsAt dates digest at_) (finalizeBrowserHandoverClaim digest version)
      (fun _ m => ∃ last, Closes digest (strip version) at_ last ∧ StandsAt dates digest last m)
      (fun m => ∃ last, Closes digest (strip version) at_ last ∧ StandsAt dates digest last m) := by
  unfold finalizeBrowserHandoverClaim
  refine Triple.rescue (F := fun m => ∃ last, Closes digest (strip version) at_ last ∧ StandsAt dates digest last m) ?_ ?_
    fun _ h => h
  · refine Triple.bind (Q := fun _ m => ∃ last, Closes digest (strip version) at_ last ∧ StandsAt dates digest last m) ?_ fun _ =>
      Triple.pure fun _ h => h
    unfold markBrowserHandoverClaimed
    refine Triple.read_bind fun m hm => ?_
    have hview := hm.view
    have hsame : (∀ active, at_.view.active = some active → at_.view.invalid = false →
        active.versionSha256 ≠ expectedVersion digest (strip version) active.kind) →
        ∀ m', m' = m → ∃ last, Closes digest (strip version) at_ last ∧ StandsAt dates digest last m' := by
      rintro h m' rfl
      exact ⟨at_, .kept h, hm⟩
    split_ifs with hunusable
    · refine Triple.pure (hsame fun active _ hvalid => ?_)
      have hinvalid : m.world.store.browserHandoverDeadlineInvalid = true := by simpa [hm.loaded] using hunusable
      rw [hview] at hvalid
      rw [hinvalid] at hvalid
      cases hvalid
    · have hvalid : m.world.store.browserHandoverDeadlineInvalid = false := by
        simpa [hm.loaded] using hunusable
      cases hstate : m.world.store.browserHandoverDeadline with
      | none =>
        refine Triple.pure (hsame fun active hactive => ?_)
        rw [hview, View.active, hstate] at hactive
        cases hactive
      | some state =>
        cases hactive : state.active with
        | none =>
          simp only [hactive]
          refine Triple.pure (hsame fun active hsome => ?_)
          rw [hview, View.active, hstate, Option.bind_some, hactive] at hsome
          cases hsome
        | some active =>
          simp only [hactive]
          split_ifs with hother
          · refine Triple.pure (hsame fun found hsome _ => ?_)
            rw [hview, View.active, hstate, Option.bind_some, hactive, Option.some.injEq] at hsome
            subst hsome
            cases hkind : active.kind <;> simpa [expectedVersion, hkind] using hother
          · refine Triple.bind (Q := fun _ => StandsAt dates digest
              { at_ with view := ⟨some { state with active := none }, false⟩ }) (Triple.update ?_) fun _ => ?_
            · rintro m' rfl
              exact hm.setState (by rw [← hvalid])
            · have hstateAt : at_.view.state = some state := by rw [hview, hstate]
              have hvalidAt : at_.view.invalid = false := by rw [hview, hvalid]
              refine (write_triple _).conseq (fun _ h => h) (fun _ m' h => ?_) fun m' h => ?_
              · exact ⟨_, .closed state active _ hstateAt hactive hvalidAt (.inr rfl), h⟩
              · obtain ⟨file, hfile, hstands⟩ := h
                exact ⟨_, .closed state active file hstateAt hactive hvalidAt hfile, hstands⟩
  · intro error
    cases error with
    | os => exact Triple.pure fun _ h => h
    | value message => exact Triple.pure fun _ h => h
    | type => exact Triple.raise fun _ h => h
    | key => exact Triple.raise fun _ h => h

/-! ## A window that is opened -/

/-- A window is opened, one of a recovery only for a version that had none. -/
structure Opens (dates : DateTimes) (now : Int) (kind : HandoverKind) (version : Codes) (at_ last : Standing) : Prop where
  valid : at_.view.invalid = false
  fresh : kind = .recovery → version ∉ at_.view.seen
  last : ∃ file, (file = at_.file ∨ file = some ((at_.view.state.getD {}).open (openedDeadline dates now kind version)).doc) ∧
    last = { at_ with
      view := ⟨some ((at_.view.state.getD {}).open (openedDeadline dates now kind version)), false⟩, file := file }

def desiredKind (recovery : Bool) : HandoverKind := if recovery then .recovery else .initial

def desiredVersion (digest : Codes → Codes) (recovery : Bool) (version : Codes) : Codes :=
  if recovery then digest version else []

def Standing.matching (at_ : Standing) (kind : HandoverKind) (version : Codes) : Bool :=
  at_.view.active.any fun deadline => deadline.matches kind version

def Standing.expired (dates : DateTimes) (now : Int) (at_ : Standing) : Bool :=
  at_.view.active.any fun deadline => deadlineExpired dates now deadline

/-- What is answered of a claim that would be a recovery or not, and where the claim then stands. -/
inductive Answer (dates : DateTimes) (digest : Codes → Codes) (now : Int) (version : Codes) (recovery activate : Bool)
    (admins : Nat) (at_ : Standing) : Standing → HandoverPayload → Prop where
  | settled {last payload} (hrecovery : recovery = false) (hadmins : admins > 0)
      (hlast : last = at_ ∨ Closes digest (strip version) at_ last) (hopen : payload.isOpen = false)
      (hexpires : payload.expiresAt = none) (hinvalid : payload.stateInvalid = at_.view.invalid) :
      Answer dates digest now version recovery activate admins at_ last payload
  | opened {last payload}
      (hopens : Opens dates now (desiredKind recovery) (desiredVersion digest recovery version) at_ last)
      (hallowed : activate = true ∨ (recovery = true ∧ at_.activated = true))
      (hunmatched : recovery = true → at_.matching .recovery (digest version) = false ∧
        at_.view.seen.length < seenRecoveryVersionLimit)
      (hopen : payload.isOpen = true) (hexpires : payload.expiresAt.isSome = true) :
      Answer dates digest now version recovery activate admins at_ last payload
  | stayed {payload} (hunsettled : recovery = true ∨ admins = 0)
      (hopen : payload.isOpen = (at_.matching (desiredKind recovery) (desiredVersion digest recovery version) &&
        !at_.expired dates now && !at_.view.invalid))
      (hexpires : payload.expiresAt.isSome = at_.matching (desiredKind recovery) (desiredVersion digest recovery version))
      (hinvalid : payload.stateInvalid = at_.view.invalid) :
      Answer dates digest now version recovery activate admins at_ at_ payload

theorem openedDeadline_live (now : Int) (kind : HandoverKind) (version : Codes) :
    deadlineExpired dates now (openedDeadline dates now kind version) = false := by
  have hlater : ∀ ttl : Int, 1000000 ≤ ttl → isPast dates now (dates.utc (now + ttl)) = some false := by
    intro ttl httl
    rw [isPast_utc, Option.some.injEq, decide_eq_false_iff_not]
    omega
  unfold deadlineExpired openedDeadline
  cases kind with
  | initial => simp [hlater initialBrowserHandoverTtl (by unfold initialBrowserHandoverTtl seconds; omega)]
  | recovery => simp [hlater recoveryBrowserHandoverTtl (by unfold recoveryBrowserHandoverTtl seconds; omega)]

/-- The time of a window that has not expired can be read. -/
theorem readable_of_live {now : Int} {deadline : Deadline} (h : deadlineExpired dates now deadline = false) :
    ((dates.fromisoformat deadline.expiresAt).bind instant).isSome = true := by
  unfold deadlineExpired isPast at h
  cases htime : dates.fromisoformat deadline.expiresAt with
  | none => simp [htime] at h
  | some time =>
    cases hinstant : instant time with
    | none => simp [htime, hinstant] at h
    | some at_ => simp [hinstant]

/-- What any handover operation does to where a claim stands. -/
def Moves (dates : DateTimes) (digest : Codes → Codes) (now : Int) (version : Codes) (at_ last : Standing) : Prop :=
  last = at_ ∨ Closes digest (strip version) at_ last ∨ ∃ kind d, Opens dates now kind d at_ last

theorem Answer.moves {now : Int} {version : Codes} {recovery activate : Bool} {admins : Nat} {at_ last : Standing}
    {payload : HandoverPayload} (h : Answer dates digest now version recovery activate admins at_ last payload) :
    Moves dates digest now version at_ last := by
  cases h with
  | settled _ _ hlast => exact hlast.imp id Or.inl
  | opened hopens => exact .inr (.inr ⟨_, _, hopens⟩)
  | stayed => exact .inl rfl

theorem standsAt_loaded (m : Machine Target World) :
    StandsAt dates digest (m.world.standing dates digest)
      { m with world := { m.world with store := m.world.loadedStore dates digest } } :=
  ⟨rfl, standing_loadedStore m.world⟩

theorem load_triple (m : Machine Target World) {E : Machine Target World → Prop} :
    Triple (fun m' => m' = m) (loadBrowserHandoverDeadline dates digest)
      (fun state m' => state = (m.world.standing dates digest).view.state ∧
        m' = { m with world := { m.world with store := m.world.loadedStore dates digest } }) E := by
  rintro m' rfl
  rw [run_loadBrowserHandoverDeadline]
  exact ⟨rfl, rfl⟩

/-- The answer, and where the claim then stands. -/
theorem browserHandoverState_triple {w : World} (now : Int) (version : Codes) (config : HandoverConfig)
    (activate reopenInitial : Bool) :
    Triple (fun m => m.world = w) (browserHandoverState dates digest now version config activate reopenInitial)
      (fun payload m => ∃ last, StandsAt dates digest last m ∧
        Answer dates digest now version (w.store.recovers version config) activate w.store.activeAdminKeyCount
          (w.standing dates digest) last payload)
      (fun m => ∃ last, StandsAt dates digest last m ∧ Moves dates digest now version (w.standing dates digest) last) := by
  unfold browserHandoverState
  refine Triple.read_bind fun m hm => ?_
  subst hm
  dsimp only
  generalize hrecovery : m.world.store.recovers version config = recovery
  generalize hadmins : m.world.store.activeAdminKeyCount = admins
  refine Triple.bind (load_triple m) fun state => ?_
  refine Triple.read_bind fun m' hm' => ?_
  obtain ⟨rfl, rfl⟩ := hm'
  have hstands : StandsAt dates digest (m.world.standing dates digest)
      { m with world := { m.world with store := m.world.loadedStore dates digest } } := standsAt_loaded m
  generalize m.world.standing dates digest = at_ at hstands ⊢
  generalize ({ m with world := { m.world with store := m.world.loadedStore dates digest } } : Machine Target World) = m'
    at hstands ⊢
  have hview := hstands.view
  have hinvalid : m'.world.store.browserHandoverDeadlineInvalid = at_.view.invalid := by rw [hview]
  by_cases hsettled : (!recovery && decide (admins > 0)) = true
  · obtain ⟨hnot, hsome⟩ : recovery = false ∧ admins > 0 := by simpa using hsettled
    rw [if_pos hsettled]
    by_cases hactivate : activate = true
    · rw [if_pos hactivate]
      refine Triple.bind (Q := fun _ m => ∃ last, Closes digest (strip version) at_ last ∧ StandsAt dates digest last m) ?_
        fun _ => ?_
      · refine (finalize_triple version).conseq ?_ (fun _ _ h => h) ?_
        · rintro m'' rfl
          exact hstands
        · rintro m'' ⟨last, hcloses, hlast⟩
          exact ⟨last, hlast, .inr (.inl hcloses)⟩
      · refine Triple.read_bind fun closed hclosed => Triple.pure ?_
        rintro m'' rfl
        obtain ⟨last, hcloses, hlast⟩ := hclosed
        exact ⟨last, hlast, .settled hnot hsome (.inr hcloses) rfl rfl hinvalid⟩
    · rw [if_neg hactivate]
      refine Triple.read_bind fun kept hkept => Triple.pure ?_
      subst hkept
      rintro m'' rfl
      exact ⟨at_, hstands, .settled hnot hsome (.inl rfl) rfl rfl hinvalid⟩
  · have hunsettled : recovery = true ∨ admins = 0 := by
      by_contra hboth
      push Not at hboth
      exact hsettled (by simp [hboth.1, Nat.pos_of_ne_zero hboth.2])
    rw [if_neg hsettled]
    have hactivated : m'.world.store.browserHandoverActivated = at_.activated := by
      rw [← hstands.standing]
      rfl
    have hkind : (if recovery = true then HandoverKind.recovery else HandoverKind.initial) = desiredKind recovery := rfl
    have hdesired : (if recovery = true then digest version else []) = desiredVersion digest recovery version := rfl
    have hactive : at_.view.state.bind DeadlineState.active = at_.view.active := rfl
    rw [hkind, hdesired, hactive, hinvalid]
    have hmatching : (at_.view.active.any fun deadline => deadline.matches (desiredKind recovery)
      (desiredVersion digest recovery version)) = at_.matching (desiredKind recovery) (desiredVersion digest recovery version) := rfl
    have hexpired : (at_.view.active.any fun deadline => deadlineExpired dates now deadline) = at_.expired dates now := rfl
    rw [hmatching, hexpired]
    generalize hseen : (recovery && at_.view.state.any fun state =>
      state.seenRecoveryVersions.contains (desiredVersion digest recovery version)) = seen
    generalize hfull : (recovery && !at_.matching (desiredKind recovery) (desiredVersion digest recovery version) && !seen &&
      at_.view.state.any fun state => decide (seenRecoveryVersionLimit ≤ state.seenRecoveryVersions.length)) = full
    by_cases hopens : (!at_.view.invalid && ((!at_.matching (desiredKind recovery) (desiredVersion digest recovery version) &&
        !seen && !full) || decide (desiredKind recovery = .initial) && (at_.matching (desiredKind recovery)
          (desiredVersion digest recovery version) && at_.expired dates now) && reopenInitial) &&
        (activate || decide (desiredKind recovery = .recovery) && m'.world.store.browserHandoverActivated)) = true
    · rw [if_pos hopens]
      obtain ⟨hvalid, hallowed, hunmatched, hfresh⟩ : at_.view.invalid = false ∧
          (activate = true ∨ (recovery = true ∧ at_.activated = true)) ∧
          (recovery = true → at_.matching .recovery (digest version) = false ∧
            at_.view.seen.length < seenRecoveryVersionLimit) ∧
          (recovery = true → digest version ∉ at_.view.seen) := by
        rw [Bool.and_eq_true, Bool.and_eq_true] at hopens
        obtain ⟨⟨hvalid, hmay⟩, hallowed⟩ := hopens
        have hnew : recovery = true → at_.matching .recovery (digest version) = false ∧ seen = false ∧ full = false := by
          rintro rfl
          simpa [desiredKind, desiredVersion, and_assoc] using hmay
        refine ⟨by simpa using hvalid, ?_, fun hrec => ⟨(hnew hrec).1, ?_⟩, fun hrec => ?_⟩
        · rw [hactivated] at hallowed
          cases recovery <;> simpa [desiredKind] using hallowed
        · obtain ⟨hnone, hunseen, hroom⟩ := hnew hrec
          subst hrec
          unfold View.seen
          cases hsome : at_.view.state with
          | none => simp [seenRecoveryVersionLimit]
          | some state =>
            rw [hsome] at hfull
            simpa [desiredKind, desiredVersion, hnone, hunseen, hroom] using hfull
        · obtain ⟨-, hunseen, -⟩ := hnew hrec
          subst hrec
          unfold View.seen
          cases hsome : at_.view.state with
          | none => simp
          | some state =>
            rw [hsome] at hseen
            simpa [desiredVersion, hunseen] using hseen
      have hopened : Opens dates now (desiredKind recovery) (desiredVersion digest recovery version) at_
          { at_ with
            view := ⟨some ((at_.view.state.getD {}).open (openedDeadline dates now (desiredKind recovery)
              (desiredVersion digest recovery version))), false⟩ } := by
        refine ⟨hvalid, fun hrec => ?_, at_.file, .inl rfl, rfl⟩
        have hrec' : recovery = true := by
          cases recovery with
          | true => rfl
          | false => simp [desiredKind] at hrec
        rw [desiredVersion, if_pos hrec']
        exact hfresh hrec'
      refine Triple.bind (Q := fun _ => StandsAt dates digest { at_ with
        view := ⟨some ((at_.view.state.getD {}).open (openedDeadline dates now (desiredKind recovery)
          (desiredVersion digest recovery version))), false⟩ }) (Triple.update ?_) fun _ => ?_
      · rintro m'' rfl
        exact hstands.setState rfl
      refine Triple.bind (Q := fun _ m => ∃ last, StandsAt dates digest last m ∧ Opens dates now (desiredKind recovery)
        (desiredVersion digest recovery version) at_ last) ?_ fun _ => ?_
      · refine (write_triple _).conseq (fun _ h => h) (fun _ m'' h => ?_) fun m'' h => ?_
        · exact ⟨_, h, hopened.valid, hopened.fresh, _, .inr rfl, rfl⟩
        · obtain ⟨file, hfile, hwritten⟩ := h
          exact ⟨_, hwritten, .inr (.inr ⟨_, _, hopened.valid, hopened.fresh, file, hfile, rfl⟩)⟩
      · refine Triple.read_bind fun written hwritten => Triple.pure ?_
        rintro m'' rfl
        obtain ⟨last, hlast, hopens⟩ := hwritten
        refine ⟨last, hlast, .opened hopens hallowed hunmatched ?_ rfl⟩
        have hreadable : ((dates.fromisoformat (openedDeadline dates now (desiredKind recovery)
            (desiredVersion digest recovery version)).expiresAt).bind instant).isSome = true :=
          readable_of_live (openedDeadline_live now _ _)
        simp [handoverPayload, hvalid, hreadable]
    · rw [if_neg hopens]
      refine Triple.pure ?_
      rintro m'' rfl
      have hexpiredOf : ∀ deadline, at_.view.active = some deadline → deadlineExpired dates now deadline = at_.expired dates now := by
        intro deadline hsome
        simp [Standing.expired, hsome]
      refine ⟨at_, hstands, .stayed hunsettled ?_ ?_ rfl⟩
      · cases hsome : at_.view.active with
        | none => simp [handoverPayload, Standing.matching, hsome]
        | some deadline =>
          cases hlive : at_.expired dates now with
          | true => cases hm : at_.matching (desiredKind recovery) (desiredVersion digest recovery version) <;>
              simp [handoverPayload]
          | false =>
            have hreadable : ((dates.fromisoformat deadline.expiresAt).bind instant).isSome = true :=
              readable_of_live ((hexpiredOf deadline hsome).trans hlive)
            cases hm : at_.matching (desiredKind recovery) (desiredVersion digest recovery version) <;>
              simp [handoverPayload, hreadable]
      · cases hsome : at_.view.active with
        | none => simp [handoverPayload, Standing.matching, hsome]
        | some deadline =>
          cases hm : at_.matching (desiredKind recovery) (desiredVersion digest recovery version) <;> simp [handoverPayload]

/-! ## A claim -/

/-- What a program leaves is as it was before, whether it returns or raises. -/
theorem Leaves.triple {α γ : Type} {f : World → γ} {program : M α} (hleaves : Leaves f program) {P E : Machine Target World → Prop}
    {Q : α → Machine Target World → Prop} (h : Triple P program Q E) (c : γ) :
    Triple (fun m => P m ∧ f m.world = c) program (fun a m => Q a m ∧ f m.world = c) (fun m => E m ∧ f m.world = c) := by
  rintro m ⟨hm, rfl⟩
  have hrun := h m hm
  have hleft := hleaves m
  generalize program.run.run m = r at hrun hleft ⊢
  obtain ⟨stop | a, m'⟩ := r
  · exact ⟨hrun, hleft⟩
  · exact ⟨hrun, hleft⟩

/-- A claim of the version would be a recovery. -/
def Standing.recovers (at_ : Standing) (admins : Nat) (version : Codes) : Bool :=
  decide (admins > 0) && decide (version ≠ at_.claimedVersion)

/-- Whether a claim of the version is granted, as far as the files can be written. -/
def Standing.offers (dates : DateTimes) (digest : Codes → Codes) (now : Int) (at_ : Standing) (admins : Nat) (version : Codes) :
    Bool :=
  let recovery := at_.recovers admins version
  if decide (admins > 0) && !recovery then false
  else if at_.matching (desiredKind recovery) (desiredVersion digest recovery version) then
    !at_.expired dates now && !at_.view.invalid
  else if at_.view.invalid then false
  else if at_.activated then
    recovery && !at_.view.seen.contains (digest version) && decide (at_.view.seen.length < seenRecoveryVersionLimit)
  else true

/-- A window for the claim is open and has not expired. -/
def Standing.HasWindow (dates : DateTimes) (digest : Codes → Codes) (now : Int) (at_ : Standing) (recovery : Bool) (version : Codes) :
    Prop :=
  at_.view.invalid = false ∧ ∃ active, at_.view.active = some active ∧
    active.matches (desiredKind recovery) (desiredVersion digest recovery version) = true ∧
    deadlineExpired dates now active = false

/-- A claim that can be made, and where it then stands. -/
structure Offered (dates : DateTimes) (digest : Codes → Codes) (now : Int) (admins : Nat) (version : Codes)
    (at_ last : Standing) : Prop where
  offers : at_.offers dates digest now admins version = true
  moved : last = at_ ∨ (at_.recovers admins version = true ∧ Opens dates now .recovery (digest version) at_ last)
  window : at_.activated = true → last.HasWindow dates digest now (at_.recovers admins version) version

theorem Opens.hasWindow {now : Int} {recovery : Bool} {version : Codes} {at_ last : Standing}
    (h : Opens dates now (desiredKind recovery) (desiredVersion digest recovery version) at_ last) :
    last.HasWindow dates digest now recovery version := by
  obtain ⟨-, -, file, -, rfl⟩ := h
  exact ⟨rfl, _, rfl, by simp [Deadline.matches, openedDeadline], openedDeadline_live now _ _⟩

theorem hasWindow_of_matching {now : Int} {recovery : Bool} {version : Codes} {at_ : Standing}
    (hmatching : at_.matching (desiredKind recovery) (desiredVersion digest recovery version) = true)
    (hlive : at_.expired dates now = false) (hvalid : at_.view.invalid = false) :
    at_.HasWindow dates digest now recovery version := by
  unfold Standing.matching at hmatching
  unfold Standing.expired at hlive
  cases hactive : at_.view.active with
  | none => simp [hactive] at hmatching
  | some active =>
    rw [hactive, Option.any_some] at hmatching hlive
    exact ⟨hvalid, active, hactive, hmatching, hlive⟩

theorem recovers_none (w : World) (version : Codes) :
    w.store.recovers version none = (w.standing dates digest).recovers w.store.activeAdminKeyCount version := by
  rw [ApiKeyStore.recovers, Option.isNone_none, Bool.or_true, Bool.and_true]
  rfl

theorem Closes.same {version : Codes} {at_ last : Standing} (h : Closes digest version at_ last) :
    last.claimedVersion = at_.claimedVersion ∧ last.activated = at_.activated ∧ last.bound = at_.bound ∧
      last.claiming = at_.claiming := by
  cases h <;> exact ⟨rfl, rfl, rfl, rfl⟩

theorem Opens.same {now : Int} {kind : HandoverKind} {version : Codes} {at_ last : Standing}
    (h : Opens dates now kind version at_ last) : last.claimedVersion = at_.claimedVersion ∧
      last.activated = at_.activated ∧ last.bound = at_.bound ∧ last.claiming = at_.claiming := by
  obtain ⟨-, -, file, -, rfl⟩ := h
  exact ⟨rfl, rfl, rfl, rfl⟩

theorem Moves.same {now : Int} {version : Codes} {at_ last : Standing} (h : Moves dates digest now version at_ last) :
    last.claimedVersion = at_.claimedVersion ∧ last.activated = at_.activated ∧ last.bound = at_.bound ∧
      last.claiming = at_.claiming := by
  obtain rfl | hcloses | ⟨kind, d, hopens⟩ := h
  · exact ⟨rfl, rfl, rfl, rfl⟩
  · exact hcloses.same
  · exact hopens.same

/-- A claim is offered when the answer allows it. -/
theorem Answer.offered {now : Int} {version : Codes} {admins : Nat} {at_ last : Standing} {payload : HandoverPayload}
    (h : Answer dates digest now version (at_.recovers admins version) false admins at_ last payload)
    (hcan : (if at_.activated || payload.stateInvalid || payload.expiresAt.isSome then payload.isOpen
      else decide (admins = 0) || decide (at_.claimedVersion ≠ version)) = true) :
    Offered dates digest now admins version at_ last := by
  cases h with
  | settled hrecovery hadmins hlast hopen hexpires hinvalid =>
    have hsame : version = at_.claimedVersion := by simpa [Standing.recovers, hadmins] using hrecovery
    have hnonzero : admins ≠ 0 := by omega
    rw [hopen] at hcan
    simp [hsame, hnonzero] at hcan
  | opened hopens hallowed hunmatched hopen hexpires =>
    obtain ⟨hrecovery, hactivated⟩ : at_.recovers admins version = true ∧ at_.activated = true := by simpa using hallowed
    obtain ⟨hmatching, hroom⟩ := hunmatched hrecovery
    have hfresh : digest version ∉ at_.view.seen := by
      have := hopens.fresh (by simp [desiredKind, hrecovery])
      simpa [desiredVersion, hrecovery] using this
    refine ⟨?_, .inr ⟨hrecovery, by simpa [desiredKind, desiredVersion, hrecovery] using hopens⟩, fun _ => hopens.hasWindow⟩
    unfold Standing.offers
    simp [hrecovery, desiredKind, desiredVersion, hmatching, hopens.valid, hactivated, hfresh, hroom]
  | stayed hunsettled hopen hexpires hinvalid =>
    have hsettled : (decide (admins > 0) && !at_.recovers admins version) = false := by
      rcases hunsettled with h | h <;> simp [h]
    rw [hopen, hexpires, hinvalid] at hcan
    cases hmatching : at_.matching (desiredKind (at_.recovers admins version))
        (desiredVersion digest (at_.recovers admins version) version) with
    | true =>
      obtain ⟨hlive, hvalid⟩ : at_.expired dates now = false ∧ at_.view.invalid = false := by simpa [hmatching] using hcan
      refine ⟨?_, .inl rfl, fun _ => hasWindow_of_matching hmatching hlive hvalid⟩
      unfold Standing.offers
      simp [hsettled, hmatching, hlive, hvalid]
    | false =>
      obtain ⟨hactivated, hvalid⟩ : at_.activated = false ∧ at_.view.invalid = false := by
        rw [hmatching] at hcan
        cases hactivated : at_.activated <;> cases hvalid : at_.view.invalid <;> simp [hactivated, hvalid] at hcan ⊢
      refine ⟨?_, .inl rfl, fun h => by rw [hactivated] at h; cases h⟩
      unfold Standing.offers
      simp [hsettled, hmatching, hactivated, hvalid]

theorem canClaimInitialAdmin_triple {w : World} (now : Int) (version : Codes) :
    Triple (fun m => m.world = w) (canClaimInitialAdmin dates digest now version)
      (fun can m => ∃ last, StandsAt dates digest last m ∧
        Moves dates digest now (strip version) (w.standing dates digest) last ∧
        (can = true → Offered dates digest now w.store.activeAdminKeyCount (strip version) (w.standing dates digest) last))
      (fun m => ∃ last, StandsAt dates digest last m ∧
        Moves dates digest now (strip version) (w.standing dates digest) last) := by
  have hkeys : Beside fun w : World => w.store.apiKeys := ⟨fun _ _ _ _ => rfl, fun _ _ => rfl⟩
  have hstate : Triple _ (browserHandoverState dates digest now (strip version) none false false) _ _ :=
    browserHandoverState_triple (w := w) now (strip version) none false false
  have hanswer := (browserHandoverState_beside now hkeys (strip version) none false false).triple hstate w.store.apiKeys
  unfold canClaimInitialAdmin
  refine Triple.bind (hanswer.conseq ?_ (fun _ _ h => h) fun _ h => h.1) fun payload => ?_
  · rintro m rfl
    exact ⟨rfl, rfl⟩
  refine Triple.read_bind fun m hm => ?_
  obtain ⟨⟨last, hlast, hpayload⟩, hsame⟩ := hm
  have hadmins : m.world.store.activeAdminKeyCount = w.store.activeAdminKeyCount := by
    unfold ApiKeyStore.activeAdminKeyCount
    rw [hsame]
  have hrecovers : w.store.recovers (strip version) none =
      (w.standing dates digest).recovers w.store.activeAdminKeyCount (strip version) := recovers_none w _
  rw [hrecovers] at hpayload
  have hmoves := hpayload.moves
  have hstanding := hlast.standing
  rw [standing_of_loaded hlast.loaded] at hstanding
  have hactivated : m.world.store.browserHandoverActivated = (w.standing dates digest).activated := by
    rw [← hmoves.same.2.1, ← hstanding]
  have hclaimed : m.world.store.browserHandoverClaimedVersion = (w.standing dates digest).claimedVersion := by
    rw [← hmoves.same.1, ← hstanding]
  have hcan : ∀ can, can = (if (w.standing dates digest).activated || payload.stateInvalid || payload.expiresAt.isSome then
      payload.isOpen else decide (w.store.activeAdminKeyCount = 0) ||
        decide ((w.standing dates digest).claimedVersion ≠ strip version)) →
      ∃ last, StandsAt dates digest last m ∧ Moves dates digest now (strip version) (w.standing dates digest) last ∧
        (can = true → Offered dates digest now w.store.activeAdminKeyCount (strip version) (w.standing dates digest) last) :=
    fun can heq => ⟨last, hlast, hmoves, fun h => hpayload.offered (heq ▸ h)⟩
  rw [hactivated, hadmins, hclaimed]
  split_ifs with hwindow
  · exact Triple.pure (by rintro m' rfl; exact hcan _ (by rw [if_pos hwindow]))
  · exact Triple.pure (by rintro m' rfl; exact hcan _ (by rw [if_neg hwindow]))

/-- What a program leaves of the frame leaves where a claim stands. -/
theorem stands_triple {α : Type} {program : M α} (h : Leaves World.frame program) {at_ : Standing} :
    Triple (StandsAt dates digest at_) program (fun _ => StandsAt dates digest at_) (StandsAt dates digest at_) := by
  have hkept : ∀ m : Machine Target World, StandsAt dates digest at_ m → StandsAt dates digest at_ (program.run.run m).2 := by
    intro m hm
    refine ⟨?_, (standing_of_frame h m).trans hm.standing⟩
    have hloaded := congrArg Frame.loaded (h m)
    exact hloaded.trans hm.loaded
  intro m hm
  have := hkept m hm
  generalize program.run.run m = r at this ⊢
  obtain ⟨stop | a, m'⟩ := r
  · exact this
  · exact this

/-- The standing once the version is claimed. -/
def Standing.claim (at_ : Standing) (version : Codes) : Standing :=
  if at_.bound = [] then { at_ with claimedVersion := version } else at_

theorem Standing.claim_claiming (at_ : Standing) (version : Codes) : (at_.claim version).claiming = at_.claiming := by
  unfold Standing.claim
  split_ifs <;> rfl

theorem Offered.same {now : Int} {admins : Nat} {version : Codes} {at_ last : Standing}
    (h : Offered dates digest now admins version at_ last) : last.claimedVersion = at_.claimedVersion ∧
      last.activated = at_.activated ∧ last.bound = at_.bound ∧ last.claiming = at_.claiming := by
  obtain rfl | ⟨-, hopens⟩ := h.moved
  · exact ⟨rfl, rfl, rfl, rfl⟩
  · exact hopens.same

/-- What a claim that began leaves: it ended before the version was claimed, or after, or closed the window. -/
def Begun (dates : DateTimes) (digest : Codes → Codes) (now : Int) (admins : Nat) (version : Codes) (at_ last : Standing) : Prop :=
  ∃ mid, Offered dates digest now admins version at_ mid ∧
    (last = mid ∨ last = mid.claim version ∨ Closes digest version (mid.claim version) last)

/-- What a claim that succeeds leaves. -/
def Succeeds (dates : DateTimes) (digest : Codes → Codes) (now : Int) (admins : Nat) (version : Codes)
    (at_ last : Standing) : Prop :=
  ∃ mid, Offered dates digest now admins version at_ mid ∧ Closes digest version (mid.claim version) last

theorem StandsAt.claim {at_ : Standing} {m : Machine Target World} (h : StandsAt dates digest at_ m) (version : Codes) :
    StandsAt dates digest (at_.claim version) { m with world := m.world.updateStore fun store =>
      if store.claimedHandoverVersion.isEmpty then { store with browserHandoverClaimedVersion := version } else store } := by
  have hbound : m.world.store.claimedHandoverVersion = at_.bound := by
    rw [← h.standing]
    rfl
  unfold Standing.claim World.updateStore
  dsimp only
  rw [hbound]
  by_cases hnone : at_.bound = []
  · rw [if_pos hnone, if_pos (by rw [hnone]; rfl)]
    refine ⟨h.loaded, ?_⟩
    rw [← h.standing, standing_of_loaded h.loaded, standing_of_loaded (by exact h.loaded)]
  · rw [if_neg hnone, if_neg (by simpa using hnone)]
    exact h

theorem createInitialAdminApiKeyIfAvailable_triple {w : World} (hclaiming : w.store.claimTransaction = none) (now : Int)
    (version name id hash : Codes) :
    Triple (fun m => m.world = w) (createInitialAdminApiKeyIfAvailable dates digest now version name id hash)
      (fun result m => if result.isSome then
          Succeeds dates digest now w.store.activeAdminKeyCount (strip version) (w.standing dates digest)
            (m.world.standing dates digest)
        else Moves dates digest now (strip version) (w.standing dates digest) (m.world.standing dates digest))
      (fun m => Moves dates digest now (strip version) (w.standing dates digest) (m.world.standing dates digest) ∨
        Begun dates digest now w.store.activeAdminKeyCount (strip version) (w.standing dates digest)
          (m.world.standing dates digest)) := by
  have hcan : Triple (fun m => m.world = w) (canClaimInitialAdmin dates digest now (strip version)) _ _ :=
    canClaimInitialAdmin_triple now (strip version)
  rw [strip_strip] at hcan
  have hat : (w.standing dates digest).claiming = false := by
    change w.store.claimTransaction.isSome = false
    rw [hclaiming]
    rfl
  generalize w.store.activeAdminKeyCount = admins at hcan ⊢
  generalize w.standing dates digest = at_ at hcan hat ⊢
  unfold createInitialAdminApiKeyIfAvailable
  dsimp only
  refine Triple.bind (hcan.conseq (fun _ h => h) (fun _ _ h => h) ?_) fun can => ?_
  · rintro m ⟨last, hlast, hmoves⟩
    exact .inl (hlast.standing ▸ hmoves)
  refine Triple.of_exists fun mid => ?_
  cases can with
  | false =>
    refine Triple.pure ?_
    rintro m ⟨hlast, hmoves, -⟩
    exact hlast.standing ▸ hmoves
  | true =>
    refine Triple.conseq (P := fun m => Offered dates digest now admins (strip version) at_ mid ∧ StandsAt dates digest mid m) ?_
      (fun _ h => ⟨h.2.2 rfl, h.1⟩) (fun _ _ h => h) fun _ h => h
    refine Triple.of_and fun hoffered => ?_
    have hstopped : ∀ last, (last = mid ∨ last = mid.claim (strip version) ∨
        Closes digest (strip version) (mid.claim (strip version)) last) → ∀ m, StandsAt dates digest last m →
        Moves dates digest now (strip version) at_ (m.world.standing dates digest) ∨
          Begun dates digest now admins (strip version) at_ (m.world.standing dates digest) := by
      rintro last hlast m hm
      rw [hm.standing]
      exact .inr ⟨mid, hoffered, hlast⟩
    have hclaim : (mid.claim (strip version)).claiming = false := by
      rw [Standing.claim_claiming, hoffered.same.2.2.2, hat]
    refine Triple.bind ((stands_triple (createApiKeyRecord_frame now _ _ _ _)).conseq (fun _ h => h) (fun _ _ h => h)
      (hstopped _ (.inl rfl))) fun record => ?_
    refine Triple.bind (Q := fun _ => StandsAt dates digest (mid.claim (strip version)))
      (Triple.update fun m hm => hm.claim (strip version)) fun _ => ?_
    have hleft : ∀ {program : M Unit}, Leaves World.frame program →
        Triple (StandsAt dates digest (mid.claim (strip version))) program
          (fun _ => StandsAt dates digest (mid.claim (strip version))) (fun m =>
            Moves dates digest now (strip version) at_ (m.world.standing dates digest) ∨
              Begun dates digest now admins (strip version) at_ (m.world.standing dates digest)) :=
      fun hleaves => (stands_triple hleaves).conseq (fun _ h => h) (fun _ _ h => h) (hstopped _ (.inr (.inl rfl)))
    refine Triple.bind (hleft (clearBootstrapProof_frame now _)) fun _ => ?_
    refine Triple.bind (hleft (clearBootstrapExchange_frame now _)) fun _ => ?_
    refine Triple.bind (hleft (save_frame now)) fun _ => ?_
    refine Triple.read_bind fun m hm => ?_
    have hidle : m.world.store.claimTransaction.isNone = true := by
      have : m.world.store.claimTransaction.isSome = false := by
        rw [← hclaim, ← hm.standing]
        rfl
      simpa using this
    rw [if_pos hidle]
    have hfinalize : Triple (StandsAt dates digest (mid.claim (strip version)))
        (finalizeBrowserHandoverClaim digest (strip version)) _ _ := finalize_triple (strip version)
    rw [strip_strip] at hfinalize
    refine Triple.of_eq hm (Triple.bind (hfinalize.conseq (fun _ h => h) (fun _ _ h => h) ?_) fun _ => ?_)
    · rintro m' ⟨last, hcloses, hlast⟩
      exact hstopped last (.inr (.inr hcloses)) m' hlast
    refine Triple.of_exists fun last => Triple.of_and fun hcloses => ?_
    refine Triple.bind ((stands_triple (recordHistoryEvent_frame now _ _ _)).conseq (fun _ h => h) (fun _ _ h => h)
      (hstopped last (.inr (.inr hcloses)))) fun _ => Triple.pure fun m hlast => ?_
    rw [hlast.standing]
    exact ⟨mid, hoffered, hcloses⟩

end

end SeedSync.Auth
