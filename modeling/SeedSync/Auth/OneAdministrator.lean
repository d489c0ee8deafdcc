import SeedSync.Auth.Shut
import SeedSync.Auth.Startable

/-!
# One administrator for a version

Runs of one directory: the process starts again, the web application is activated, the state is asked for, a
version is claimed, and keys and sessions are changed. Every step may fail to write its files.
-/

namespace SeedSync.Auth

open Lib Program

/-! ## Runs -/

/-- A key or session operation of a process that runs. -/
abbrev LiveOp := { op : CredentialOp // ∀ backupPath, op ≠ .reload backupPath }

inductive HandoverOp where
  /-- The process starts, with what it binds of a completed migration. -/
  | restart (binding : Option TransitionBinding) (bound backupPath : Codes)
  | activate (config : HandoverConfig)
  | query (config : HandoverConfig)
  | claim (version name id hash : Codes)
  | credential (op : LiveOp)

structure HandoverStep where
  now : Int
  op : HandoverOp
  outcomes : Target → List Outcome := fun _ => []

/-- A run up to here: the versions granted since there was last no administrator, and the digests of the recoveries
opened. -/
structure HandoverRun where
  world : World
  clock : Int
  granted : List Codes := []
  opened : List Codes := []

section

variable (dates : DateTimes) (digest : Codes → Codes) (bindingVersion : TransitionBinding → Codes)

/-- The part of `Seedsync.__init__` on the store -/
def restart (now : Int) (binding : Option TransitionBinding) (bound backupPath : Codes) : M Unit := do
  load dates now backupPath
  modifyStore fun store => { store with transitionBinding := binding, claimedHandoverVersion := strip bound }

/-- What is run, and the version that is granted. -/
def HandoverOp.program (now : Int) : HandoverOp → M (Option Codes)
  | .restart binding bound backupPath => do
    Auth.restart dates now binding bound backupPath
    return none
  | .activate config => do
    let _ ← activateBrowserHandover dates digest now bindingVersion config
    return none
  | .query config => do
    let _ ← getBrowserHandoverState dates digest now bindingVersion config
    return none
  | .claim version name id hash => do
    let record ← createInitialAdminApiKeyIfAvailable dates digest now version name id hash
    return if record.isSome then some (strip version) else none
  | .credential op => do
    op.1.program dates now
    return none

def HandoverStep.exec (step : HandoverStep) (w : World) : Except (Stop Error) (Option Codes) × Machine Target World :=
  (step.op.program dates digest bindingVersion step.now).run.run ⟨w, step.outcomes⟩

/-- The version whose claim the step grants. -/
def HandoverStep.grants (step : HandoverStep) (w : World) : Option Codes :=
  match (step.exec dates digest bindingVersion w).1 with
  | .ok version => version
  | .error _ => none

def HandoverStep.last (step : HandoverStep) (w : World) : World := (step.exec dates digest bindingVersion w).2.world

/-- The recoveries that the step opens, in a process that was running before it. -/
def HandoverStep.opens (step : HandoverStep) (w : World) : List Codes :=
  match step.op with
  | .restart _ _ _ => []
  | _ => newlyOpened (w.standing dates digest) ((step.last dates digest bindingVersion w).standing dates digest)

/-- Where a claim stands once it was decided whether it can be made. -/
def HandoverStep.decided (step : HandoverStep) (w : World) : Standing :=
  match step.op with
  | .claim version _ _ _ =>
    (((canClaimInitialAdmin dates digest step.now (strip version)).run.run ⟨w, step.outcomes⟩).2.world).standing dates digest
  | _ => w.standing dates digest

def HandoverRun.next (run : HandoverRun) (step : HandoverStep) : HandoverRun :=
  let last := step.last dates digest bindingVersion run.world
  { world := last
    clock := step.now
    granted := if last.store.activeAdminKeyCount = 0 then []
      else run.granted ++ (step.grants dates digest bindingVersion run.world).toList
    opened := run.opened ++ step.opens dates digest bindingVersion run.world }

/-- Each step meets `P` in the run up to it. -/
def Throughout (P : HandoverRun → HandoverStep → Prop) : HandoverRun → List HandoverStep → Prop
  | _, [] => True
  | run, step :: steps => P run step ∧ Throughout P (run.next dates digest bindingVersion step) steps

/-! ## What is asked of a step -/

/-- A version is granted once while there is an administrator, with the web application activated only in a window
for its kind and version, and no recovery is opened twice. -/
structure HandoverStep.Sound (run : HandoverRun) (step : HandoverStep) : Prop where
  first : ∀ version, step.grants dates digest bindingVersion run.world = some version →
    run.world.store.activeAdminKeyCount > 0 → version ∉ run.granted
  window : ∀ version, step.grants dates digest bindingVersion run.world = some version →
    run.world.store.browserHandoverActivated = true →
    (step.decided dates digest run.world).HasWindow dates digest step.now
      ((run.world.standing dates digest).recovers run.world.store.activeAdminKeyCount version) version
  fresh : ∀ d ∈ step.opens dates digest bindingVersion run.world, d ∉ run.opened

/-- The store that a process which starts has of its file. -/
def Files.reread (files : Files) : ApiKeyStore := (files.store.bind fun doc => fromStr doc.value).getD {}

/-- Where a claim stands in a process that starts. -/
def Files.restarted (files : Files) : Standing := (⟨files.reread, files⟩ : World).standing dates digest

/-- The clock does not go back. The files that a process starts from have every granted version claimed or shut,
unless they have no administrator, and remember every recovery. A claim that is offered keeps the granted versions
shut. -/
def HandoverStep.Guarded (run : HandoverRun) (step : HandoverStep) : Prop :=
  run.clock ≤ step.now ∧
  match step.op with
  | .restart _ _ _ =>
    let again := run.world.files.restarted dates digest
    (run.world.files.reread.activeAdminKeyCount > 0 →
      ∀ version ∈ run.granted, version = again.claimedVersion ∨ again.view.Shut dates digest step.now version) ∧
    ∀ d ∈ run.opened, again.view.invalid = true ∨ d ∈ again.view.seen
  | .claim version _ _ _ =>
    let admins := run.world.store.activeAdminKeyCount
    (run.world.standing dates digest).offers dates digest step.now admins (strip version) = true →
      (run.world.standing dates digest).Claimable dates digest step.now admins run.granted (strip version)
  | _ => True

end

section

variable {dates : DateTimes} {digest : Codes → Codes} {bindingVersion : TransitionBinding → Codes}

/-! ## The process starts -/

/-- A store that is loaded knows of no window and no claim. -/
theorem fromStr_fresh {value : Json} {store : ApiKeyStore} (h : fromStr value = some store) :
    store = { apiKeys := store.apiKeys
              uiSessions := store.uiSessions
              browserHandoverClaimedVersion := store.browserHandoverClaimedVersion } := by
  unfold fromStr at h
  cases value with
  | obj fields =>
    simp only [Option.bind_eq_bind, Option.bind_eq_some_iff, Option.pure_def] at h
    obtain ⟨number, -, h⟩ := h
    split_ifs at h
    · cases h
    · simp only [Option.bind_eq_some_iff, Option.some.injEq] at h
      obtain ⟨stored, -, items, -, keys, -, listed, -, sessions, -, rfl⟩ := h
      rfl
  | _ => cases h

theorem reread_fresh (files : Files) : files.reread =
    { apiKeys := files.reread.apiKeys
      uiSessions := files.reread.uiSessions
      browserHandoverClaimedVersion := files.reread.browserHandoverClaimedVersion } := by
  unfold Files.reread
  cases hread : files.store.bind fun doc => fromStr doc.value with
  | none => rfl
  | some store =>
    obtain ⟨doc, -, hstore⟩ := Option.bind_eq_some_iff.1 hread
    exact fromStr_fresh hstore

theorem restarted_claiming (files : Files) : (files.restarted dates digest).claiming = false := by
  change files.reread.claimTransaction.isSome = false
  rw [reread_fresh files]
  rfl

theorem restarted_remembered {files : Files}
    (h : ∀ doc, files.deadline = some doc → ∀ state, readDeadlineState dates digest doc = some state → state.Remembered) :
    (files.restarted dates digest).Remembered dates digest where
  view := by
    intro state hstate
    unfold Files.restarted World.standing Frame.standing Frame.view World.frame at hstate
    dsimp only at hstate
    rw [reread_fresh files] at hstate
    cases hdoc : files.deadline with
    | none =>
      rw [hdoc] at hstate
      cases hstate
    | some doc =>
      rw [hdoc] at hstate
      simp only [Bool.false_eq_true, if_false] at hstate
      cases hread : readDeadlineState dates digest doc with
      | none =>
        rw [hread] at hstate
        cases hstate
      | some read =>
        rw [hread] at hstate
        cases hstate
        exact h doc hdoc _ hread
  file := h

/-- The history is written beside the store and the window file. -/
theorem recordHistoryEvent_aside (now : Int) (event : String) (reason : Codes) (details : List (Codes × Json)) :
    Leaves (fun w => (w.store, w.files.deadline)) (recordHistoryEvent dates now event reason details) :=
  Leaves.getStore_bind fun _ => Leaves.rescue (Leaves.act (fun _ => rfl) fun _ _ => rfl) fun _ =>
    Leaves.ite Leaves.raise Leaves.pure

theorem load_aside {w : World} (now : Int) (backupPath : Codes) {outcomes : Target → List Outcome} :
    let last := ((load dates now backupPath).run.run ⟨w, outcomes⟩).2.world
    last.store = w.files.reread ∧ last.files.deadline = w.files.deadline := by
  have hwritten : ∀ (store : ApiKeyStore), store = w.files.reread → ∀ event reason details,
      let last := ((do
        modifyStore fun _ => store
        recordHistoryEvent dates now event reason details : M Unit).run.run ⟨w, outcomes⟩).2.world
      last.store = w.files.reread ∧ last.files.deadline = w.files.deadline := by
    intro store hstore event reason details
    exact Prod.mk.inj ((recordHistoryEvent_aside now event reason details ⟨w.updateStore fun _ => store, outcomes⟩).trans
      (congrArg (·, w.files.deadline) hstore))
  unfold load
  rw [run_read_bind]
  dsimp only [id]
  unfold Files.reread at hwritten ⊢
  cases hdoc : w.files.store with
  | none => exact ⟨rfl, rfl⟩
  | some doc =>
    rw [hdoc, Option.bind_some] at hwritten
    rw [Option.bind_some]
    dsimp only
    cases hstore : fromStr doc.value with
    | none =>
      rw [hstore] at hwritten
      exact hwritten {} rfl _ _ _
    | some store =>
      rw [hstore] at hwritten
      exact hwritten store rfl _ _ _

theorem standing_of_parts {w : World} (store : ApiKeyStore) {files : Files} (hstore : w.store = store)
    (hfile : w.files.deadline = files.deadline) : w.standing dates digest = (⟨store, files⟩ : World).standing dates digest := by
  unfold World.standing Frame.standing Frame.view World.frame
  dsimp only
  rw [hstore, hfile]

theorem restart_standing {w : World} (now : Int) (binding : Option TransitionBinding) (bound backupPath : Codes)
    {outcomes : Target → List Outcome} :
    let last := ((Auth.restart dates now binding bound backupPath).run.run ⟨w, outcomes⟩).2.world
    last.store.activeAdminKeyCount = w.files.reread.activeAdminKeyCount ∧
      ∃ version, last.standing dates digest = { w.files.restarted dates digest with bound := version } := by
  unfold Auth.restart
  generalize hrun : (load dates now backupPath).run.run ⟨w, outcomes⟩ = r
  have hload : r.2.world.store = w.files.reread ∧ r.2.world.files.deadline = w.files.deadline := by
    rw [← hrun]
    exact load_aside now backupPath
  obtain ⟨result, m⟩ := r
  obtain ⟨hstore, hfile⟩ := hload
  cases result with
  | error stop =>
    rw [run_bind_of_error hrun]
    exact ⟨by rw [hstore], _, standing_of_parts _ hstore hfile⟩
  | ok done =>
    rw [run_bind_of_ok hrun]
    change m.world.store = w.files.reread at hstore
    refine ⟨?_, strip bound, ?_⟩
    · change m.world.store.activeAdminKeyCount = _
      rw [hstore]
    refine standing_of_parts { w.files.reread with
      transitionBinding := binding, claimedHandoverVersion := strip bound } ?_ hfile
    exact congrArg (fun store : ApiKeyStore => { store with
      transitionBinding := binding, claimedHandoverVersion := strip bound }) hstore

/-! ## A process that runs -/

theorem Leaves.discard {α β : Type} {f : World → β} {program : M α} (h : Leaves f program) : Leaves f (discard program) := by
  intro m
  rw [run_discard]
  exact h m

theorem liveOp_frame (now : Int) (op : LiveOp) : Leaves World.frame (op.1.program dates now) := by
  obtain ⟨op, hlive⟩ := op
  unfold CredentialOp.program
  cases op with
  | createApiKey id hash name scopes => exact (createApiKey_frame now _ _ _ _).discard
  | updateApiKey keyId name scopes => exact (updateApiKey_frame now _ _ _).discard
  | deleteApiKey keyId => exact (deleteApiKey_frame now _).discard
  | revokeApiKey keyId => exact (revokeApiKey_frame now _).discard
  | rotateApiKey keyId hash => exact (rotateApiKey_frame now _ _).discard
  | createUiSession secret scopes remembered keyId hash => exact (createUiSession_frame now _ _ _ _ _ _).discard
  | createBrowserSession secret keyId remembered => exact (createBrowserSessionForApiKey_frame now _ _ _).discard
  | findUiSession secret => exact (findUiSessionBySecret_frame now _).discard
  | invalidateUiSession secret => exact invalidateUiSession_frame now _
  | ensureProof secret => exact (ensureBootstrapProof_frame now _).discard
  | peekProof secret => exact (peekBootstrapProof_frame now _).discard
  | consumeProof secret => exact (consumeBootstrapProof_frame now _).discard
  | clearProof reason => exact clearBootstrapProof_frame now _
  | ensureExchange secret => exact (ensureBootstrapExchange_frame now _).discard
  | peekExchange secret => exact (peekBootstrapExchange_frame now _).discard
  | consumeExchange secret => exact (consumeBootstrapExchange_frame now _).discard
  | clearExchange reason => exact clearBootstrapExchange_frame now _
  | save => exact save_frame now
  | reload backupPath => exact absurd rfl (hlive backupPath)

theorem browserHandoverState_follows {w : World} (now : Int) (version : Codes) (config : HandoverConfig)
    (activate reopenInitial : Bool) :
    Triple (fun m => m.world = w) (browserHandoverState dates digest now version config activate reopenInitial)
      (fun _ m => Follows dates digest now (w.standing dates digest) (m.world.standing dates digest))
      (fun m => Follows dates digest now (w.standing dates digest) (m.world.standing dates digest)) := by
  refine (browserHandoverState_triple now version config activate reopenInitial).conseq (fun _ h => h) ?_ ?_
  · rintro payload m ⟨last, hlast, hanswer⟩
    rw [hlast.standing]
    exact hanswer.moves.follows
  · rintro m ⟨last, hlast, hmoves⟩
    rw [hlast.standing]
    exact hmoves.follows

/-- The standing once the web application is activated. -/
def Standing.activate (at_ : Standing) : Standing := { at_ with activated := true }

theorem activateBrowserHandover_follows {w : World} (now : Int) (config : HandoverConfig) :
    Triple (fun m => m.world = w) (activateBrowserHandover dates digest now bindingVersion config)
      (fun _ m => Follows dates digest now (w.standing dates digest).activate (m.world.standing dates digest))
      (fun m => Follows dates digest now (w.standing dates digest).activate (m.world.standing dates digest)) := by
  unfold activateBrowserHandover
  refine Triple.read_bind fun m hm => Triple.update_bind (Q := fun m => m.world =
    w.updateStore fun store => { store with browserHandoverActivated := true }) ?_ (browserHandoverState_follows now _ _ _ _)
  rintro m' rfl
  rw [← hm]

theorem query_triple {w : World} (now : Int) (config : HandoverConfig) :
    Triple (fun m => m.world = w) ((HandoverOp.query config).program dates digest bindingVersion now)
      (fun version m => version = none ∧ Follows dates digest now (w.standing dates digest) (m.world.standing dates digest))
      (fun m => Follows dates digest now (w.standing dates digest) (m.world.standing dates digest)) := by
  have hstate : Triple (fun m => m.world = w) (getBrowserHandoverState dates digest now bindingVersion config)
      (fun _ m => Follows dates digest now (w.standing dates digest) (m.world.standing dates digest))
      (fun m => Follows dates digest now (w.standing dates digest) (m.world.standing dates digest)) := by
    unfold getBrowserHandoverState
    exact Triple.read_bind fun _ hm => Triple.of_eq hm (browserHandoverState_follows now _ config false false)
  exact Triple.bind hstate fun _ => Triple.pure fun _ hm => ⟨rfl, hm⟩

theorem activate_triple {w : World} (now : Int) (config : HandoverConfig) :
    Triple (fun m => m.world = w) ((HandoverOp.activate config).program dates digest bindingVersion now)
      (fun version m => version = none ∧
        Follows dates digest now (w.standing dates digest).activate (m.world.standing dates digest))
      (fun m => Follows dates digest now (w.standing dates digest).activate (m.world.standing dates digest)) :=
  Triple.bind (activateBrowserHandover_follows now config) fun _ => Triple.pure fun _ hm => ⟨rfl, hm⟩

theorem credential_triple {w : World} (now : Int) (op : LiveOp) :
    Triple (fun m => m.world = w) ((HandoverOp.credential op).program dates digest bindingVersion now)
      (fun version m => version = none ∧ Follows dates digest now (w.standing dates digest) (m.world.standing dates digest))
      (fun m => Follows dates digest now (w.standing dates digest) (m.world.standing dates digest)) := by
  have hfollows : ∀ m : Machine Target World, m.world = w → Follows dates digest now (w.standing dates digest)
      (((op.1.program dates now).run.run m).2.world.standing dates digest) := by
    rintro m rfl
    rw [standing_of_frame (liveOp_frame now op) m]
    exact Follows.refl now _
  refine Triple.bind (Q := fun _ m => Follows dates digest now (w.standing dates digest) (m.world.standing dates digest)) ?_
    fun _ => Triple.pure fun _ hm => ⟨rfl, hm⟩
  exact fun _ hm => Triple.of_run (hfollows _ hm) _ rfl

/-- What a step does, by what it grants. -/
theorem exec_spec {R : Option Codes → World → Prop} {w : World} {step : HandoverStep}
    (h : Triple (fun m => m.world = w) (step.op.program dates digest bindingVersion step.now) (fun version m => R version m.world)
      (fun m => R none m.world)) :
    R (step.grants dates digest bindingVersion w) (step.last dates digest bindingVersion w) := by
  have hrun := h ⟨w, step.outcomes⟩ rfl
  unfold HandoverStep.grants HandoverStep.last HandoverStep.exec
  generalize (step.op.program dates digest bindingVersion step.now).run.run ⟨w, step.outcomes⟩ = r at hrun ⊢
  obtain ⟨stop | version, m⟩ := r
  · exact hrun
  · exact hrun

/-! ## The invariant over a run -/

structure HandoverRun.Good (dates : DateTimes) (digest : Codes → Codes) (run : HandoverRun) : Prop where
  safe : Safe dates digest run.clock (run.world.standing dates digest) run.granted run.opened
  admins : run.granted ≠ [] → run.world.store.activeAdminKeyCount > 0

theorem Safe.while_administered {now : Int} {at_ : Standing} {granted opened : List Codes} {admins : Nat}
    (h : Safe dates digest now at_ granted opened) : Safe dates digest now at_ (if admins = 0 then [] else granted) opened := by
  split_ifs
  · exact ⟨h.idle, h.remembered, fun v hv => absurd hv List.not_mem_nil, h.opened⟩
  · exact h

theorem HandoverRun.Good.next {run : HandoverRun} {step : HandoverStep}
    (h : Safe dates digest step.now ((step.last dates digest bindingVersion run.world).standing dates digest)
      (run.next dates digest bindingVersion step).granted (run.next dates digest bindingVersion step).opened) :
    (run.next dates digest bindingVersion step).Good dates digest := by
  refine ⟨h, fun hgranted => Nat.pos_of_ne_zero fun hnone => hgranted ?_⟩
  exact if_pos hnone

/-- A step of a process that runs and grants nothing. -/
theorem HandoverRun.Good.silent {run : HandoverRun} {step : HandoverStep} {at_ : Standing}
    (hopens : step.opens dates digest bindingVersion run.world =
      newlyOpened at_ ((step.last dates digest bindingVersion run.world).standing dates digest))
    (h : Safe dates digest step.now at_ run.granted run.opened)
    (hstep : Triple (fun m => m.world = run.world) (step.op.program dates digest bindingVersion step.now)
      (fun version m => version = none ∧ Follows dates digest step.now at_ (m.world.standing dates digest))
      (fun m => Follows dates digest step.now at_ (m.world.standing dates digest))) :
    step.Sound dates digest bindingVersion run ∧ (run.next dates digest bindingVersion step).Good dates digest := by
  obtain ⟨hgrants, hfollows⟩ : step.grants dates digest bindingVersion run.world = none ∧ Follows dates digest step.now at_
      ((step.last dates digest bindingVersion run.world).standing dates digest) :=
    exec_spec (R := fun version w => version = none ∧ Follows dates digest step.now at_ (w.standing dates digest))
      (hstep.conseq (fun _ h => h) (fun _ _ h => h) fun _ h => ⟨rfl, h⟩)
  refine ⟨⟨?_, ?_, ?_⟩, HandoverRun.Good.next ?_⟩
  · intro version hversion
    rw [hgrants] at hversion
    cases hversion
  · intro version hversion
    rw [hgrants] at hversion
    cases hversion
  · rw [hopens]
    exact h.fresh hfollows
  · unfold HandoverRun.next
    dsimp only
    rw [hgrants, hopens, Option.toList_none, List.append_nil]
    exact (h.follows hfollows).while_administered

/-- A version that is granted was asked for, and its claim was offered. -/
theorem claim_triple {w : World} (hclaiming : w.store.claimTransaction = none) (now : Int) (version name id hash : Codes) :
    Triple (fun m => m.world = w) ((HandoverOp.claim version name id hash).program dates digest bindingVersion now)
      (fun granted m => match granted with
        | some claimed => claimed = strip version ∧
          Succeeds dates digest now w.store.activeAdminKeyCount (strip version) (w.standing dates digest)
            (m.world.standing dates digest)
        | none => Moves dates digest now (strip version) (w.standing dates digest) (m.world.standing dates digest) ∨
          Begun dates digest now w.store.activeAdminKeyCount (strip version) (w.standing dates digest)
            (m.world.standing dates digest))
      (fun m => Moves dates digest now (strip version) (w.standing dates digest) (m.world.standing dates digest) ∨
        Begun dates digest now w.store.activeAdminKeyCount (strip version) (w.standing dates digest)
          (m.world.standing dates digest)) := by
  refine Triple.bind (createInitialAdminApiKeyIfAvailable_triple hclaiming now version name id hash) fun record => ?_
  refine Triple.pure fun m hm => ?_
  cases record with
  | none => exact .inl hm
  | some record => exact ⟨rfl, hm⟩

/-- A claim that returns a key was decided to be one that can be made. -/
theorem can_of_created {now : Int} {version name id hash : Codes} {record : ApiKeyRecord} {m m' : Machine Target World}
    (h : (createInitialAdminApiKeyIfAvailable dates digest now version name id hash).run.run m = (.ok (some record), m')) :
    ((canClaimInitialAdmin dates digest now (strip version)).run.run m).1 = .ok true := by
  unfold createInitialAdminApiKeyIfAvailable at h
  dsimp only at h
  cases hcan : (canClaimInitialAdmin dates digest now (strip version)).run.run m with
  | mk result last =>
    cases result with
    | error stop =>
      rw [run_bind_of_error hcan] at h
      cases h
    | ok can =>
      rw [run_bind_of_ok hcan] at h
      cases can with
      | false => cases h
      | true => rfl

theorem HandoverStep.grants_claim {step : HandoverStep} {version name id hash claimed : Codes} {w : World}
    (hop : step.op = .claim version name id hash) (h : step.grants dates digest bindingVersion w = some claimed) :
    ((canClaimInitialAdmin dates digest step.now (strip version)).run.run ⟨w, step.outcomes⟩).1 = .ok true := by
  unfold HandoverStep.grants HandoverStep.exec at h
  rw [hop] at h
  unfold HandoverOp.program at h
  cases hcreate : (createInitialAdminApiKeyIfAvailable dates digest step.now version name id hash).run.run ⟨w, step.outcomes⟩ with
  | mk result last =>
    cases result with
    | error stop =>
      rw [run_bind_of_error hcreate] at h
      cases h
    | ok record =>
      rw [run_bind_of_ok hcreate] at h
      cases record with
      | none => cases h
      | some record => exact can_of_created hcreate

/-- With the web application activated, a window decides. -/
theorem HandoverStep.decided_window {step : HandoverStep} {version name id hash claimed : Codes} {w : World}
    (hop : step.op = .claim version name id hash) (h : step.grants dates digest bindingVersion w = some claimed)
    (hactivated : w.store.browserHandoverActivated = true) :
    (step.decided dates digest w).HasWindow dates digest step.now
      ((w.standing dates digest).recovers w.store.activeAdminKeyCount (strip version)) (strip version) := by
  have hcan := HandoverStep.grants_claim hop h
  have htriple : Triple (fun m => m.world = w) (canClaimInitialAdmin dates digest step.now (strip version)) _ _ :=
    canClaimInitialAdmin_triple step.now (strip version)
  have hrun := htriple ⟨w, step.outcomes⟩ rfl
  unfold HandoverStep.decided
  rw [hop]
  dsimp only
  generalize (canClaimInitialAdmin dates digest step.now (strip version)).run.run ⟨w, step.outcomes⟩ = r at hcan hrun ⊢
  obtain ⟨stop | can, m⟩ := r
  · cases hcan
  · obtain rfl : can = true := by simpa using hcan
    obtain ⟨last, hlast, -, hoffered⟩ := hrun
    have hoffered := hoffered rfl
    rw [strip_strip] at hoffered
    rw [hlast.standing]
    exact hoffered.window hactivated

theorem restart_triple {w : World} (now : Int) (binding : Option TransitionBinding) (bound backupPath : Codes) :
    Triple (fun m => m.world = w) ((HandoverOp.restart binding bound backupPath).program dates digest bindingVersion now)
      (fun granted m => granted = none ∧ m.world.store.activeAdminKeyCount = w.files.reread.activeAdminKeyCount ∧
        ∃ version, m.world.standing dates digest = { w.files.restarted dates digest with bound := version })
      (fun m => m.world.store.activeAdminKeyCount = w.files.reread.activeAdminKeyCount ∧
        ∃ version, m.world.standing dates digest = { w.files.restarted dates digest with bound := version }) := by
  refine Triple.bind (Q := fun _ m => m.world.store.activeAdminKeyCount = w.files.reread.activeAdminKeyCount ∧
    ∃ version, m.world.standing dates digest = { w.files.restarted dates digest with bound := version }) ?_
    fun _ => Triple.pure fun _ hm => ⟨rfl, hm⟩
  rintro ⟨w, outcomes⟩ rfl
  exact Triple.of_run (restart_standing now binding bound backupPath) _ rfl

/-- The files that a process starts from have what was granted and opened. -/
theorem HandoverRun.Good.restart {run : HandoverRun} {step : HandoverStep} {binding : Option TransitionBinding}
    {bound backupPath : Codes} (h : run.Good dates digest) (hop : step.op = .restart binding bound backupPath)
    (hguarded : step.Guarded dates digest run) :
    step.Sound dates digest bindingVersion run ∧ (run.next dates digest bindingVersion step).Good dates digest := by
  obtain ⟨-, hguard⟩ := hguarded
  rw [hop] at hguard
  obtain ⟨hgranted, hopened⟩ := hguard
  have htriple : Triple (fun m => m.world = run.world)
      (HandoverOp.program dates digest bindingVersion step.now (.restart binding bound backupPath)) _ _ :=
    restart_triple step.now binding bound backupPath
  rw [← hop] at htriple
  obtain ⟨hgrants, hadmins, version, hstanding⟩ := exec_spec (R := fun granted w => granted = none ∧
    w.store.activeAdminKeyCount = run.world.files.reread.activeAdminKeyCount ∧
    ∃ version, w.standing dates digest = { run.world.files.restarted dates digest with bound := version })
    (htriple.conseq (fun _ h => h) (fun _ _ h => h) fun _ h => ⟨rfl, h⟩)
  have hopens : step.opens dates digest bindingVersion run.world = [] := by
    unfold HandoverStep.opens
    rw [hop]
  refine ⟨⟨?_, ?_, ?_⟩, HandoverRun.Good.next ?_⟩
  · intro claimed hclaimed
    rw [hgrants] at hclaimed
    cases hclaimed
  · intro claimed hclaimed
    rw [hgrants] at hclaimed
    cases hclaimed
  · rw [hopens]
    exact fun d hd => absurd hd List.not_mem_nil
  · unfold HandoverRun.next
    dsimp only
    rw [hgrants, hopens, hadmins, hstanding, Option.toList_none, List.append_nil, List.append_nil]
    have hremembered := restarted_remembered h.safe.remembered.file
    have hidle : (run.world.files.restarted dates digest).claiming = false := restarted_claiming _
    refine ⟨hidle, ⟨hremembered.view, hremembered.file⟩, fun v hv => ?_, hopened⟩
    split_ifs at hv with hnone
    · cases hv
    · exact hgranted (Nat.pos_of_ne_zero hnone) v hv

/-- A claim grants a version for the first time, or none. -/
theorem HandoverRun.Good.claim {run : HandoverRun} {step : HandoverStep} {version name id hash : Codes}
    (h : run.Good dates digest) (hop : step.op = .claim version name id hash) (hguarded : step.Guarded dates digest run) :
    step.Sound dates digest bindingVersion run ∧ (run.next dates digest bindingVersion step).Good dates digest := by
  obtain ⟨hclock, hguard⟩ := hguarded
  rw [hop] at hguard
  have hsafe := h.safe.later hclock
  have hidle : run.world.store.claimTransaction = none := by
    have : run.world.store.claimTransaction.isSome = false := hsafe.idle
    simpa using this
  have htriple : Triple (fun m => m.world = run.world)
      (HandoverOp.program dates digest bindingVersion step.now (.claim version name id hash)) _ _ :=
    claim_triple hidle step.now version name id hash
  rw [← hop] at htriple
  have hspec := exec_spec (R := fun granted w => match granted with
    | some claimed => claimed = strip version ∧ Succeeds dates digest step.now run.world.store.activeAdminKeyCount (strip version)
        (run.world.standing dates digest) (w.standing dates digest)
    | none => Moves dates digest step.now (strip version) (run.world.standing dates digest) (w.standing dates digest) ∨
        Begun dates digest step.now run.world.store.activeAdminKeyCount (strip version) (run.world.standing dates digest)
          (w.standing dates digest)) htriple
  have hopens : step.opens dates digest bindingVersion run.world = newlyOpened (run.world.standing dates digest)
      ((step.last dates digest bindingVersion run.world).standing dates digest) := by
    unfold HandoverStep.opens
    rw [hop]
  have hbegun : ∀ last, Begun dates digest step.now run.world.store.activeAdminKeyCount (strip version)
      (run.world.standing dates digest) last → Safe dates digest step.now last run.granted
        (run.opened ++ newlyOpened (run.world.standing dates digest) last) ∧
      ∀ d ∈ newlyOpened (run.world.standing dates digest) last, d ∉ run.opened := by
    rintro last ⟨mid, hoffered, hlast⟩
    exact hsafe.begun h.admins (hguard hoffered.offers) ⟨mid, hoffered, hlast⟩
  cases hgrants : step.grants dates digest bindingVersion run.world with
  | none =>
    rw [hgrants] at hspec
    have hkept : Safe dates digest step.now ((step.last dates digest bindingVersion run.world).standing dates digest) run.granted
          (run.opened ++ newlyOpened (run.world.standing dates digest)
            ((step.last dates digest bindingVersion run.world).standing dates digest)) ∧
        ∀ d ∈ newlyOpened (run.world.standing dates digest)
          ((step.last dates digest bindingVersion run.world).standing dates digest), d ∉ run.opened := by
      rcases hspec with hmoves | hbegan
      · exact ⟨hsafe.follows hmoves.follows, hsafe.fresh hmoves.follows⟩
      · exact hbegun _ hbegan
    refine ⟨⟨fun claimed hclaimed => ?_, fun claimed hclaimed => ?_, ?_⟩, HandoverRun.Good.next ?_⟩
    · rw [hgrants] at hclaimed
      cases hclaimed
    · rw [hgrants] at hclaimed
      cases hclaimed
    · rw [hopens]
      exact hkept.2
    · unfold HandoverRun.next
      dsimp only
      rw [hgrants, hopens, Option.toList_none, List.append_nil]
      exact hkept.1.while_administered
  | some claimed =>
    rw [hgrants] at hspec
    obtain ⟨rfl, hsucceeds⟩ := hspec
    have ⟨mid, hoffered, hcloses⟩ := hsucceeds
    have hclaimable := hguard hoffered.offers
    refine ⟨⟨fun claimed hclaimed hadmins => ?_, fun claimed hclaimed hactivated => ?_, ?_⟩, HandoverRun.Good.next ?_⟩
    · rw [hgrants, Option.some.injEq] at hclaimed
      subst hclaimed
      exact hsafe.first hadmins hclaimable hoffered.offers
    · have hwindow := HandoverStep.decided_window hop hclaimed hactivated
      rw [hgrants, Option.some.injEq] at hclaimed
      subst hclaimed
      exact hwindow
    · rw [hopens]
      exact (hbegun _ hsucceeds.begun).2
    · unfold HandoverRun.next
      dsimp only
      rw [hgrants, hopens]
      exact (hsafe.succeeds h.admins hclaimable hsucceeds).while_administered

theorem HandoverRun.Good.step {run : HandoverRun} {step : HandoverStep} (h : run.Good dates digest)
    (hguarded : step.Guarded dates digest run) :
    step.Sound dates digest bindingVersion run ∧ (run.next dates digest bindingVersion step).Good dates digest := by
  have hsafe := h.safe.later hguarded.1
  obtain ⟨now, op, outcomes⟩ := step
  cases op with
  | query config => exact HandoverRun.Good.silent rfl hsafe (query_triple now config)
  | activate config =>
    have hactive : Safe dates digest now (run.world.standing dates digest).activate run.granted run.opened :=
      ⟨hsafe.idle, ⟨hsafe.remembered.view, hsafe.remembered.file⟩, hsafe.granted, hsafe.opened⟩
    have hopens : (HandoverStep.mk now (.activate config) outcomes).opens dates digest bindingVersion run.world =
        newlyOpened (run.world.standing dates digest).activate (((HandoverStep.mk now (.activate config) outcomes).last dates
          digest bindingVersion run.world).standing dates digest) := rfl
    exact HandoverRun.Good.silent hopens hactive (activate_triple now config)
  | credential op => exact HandoverRun.Good.silent rfl hsafe (credential_triple now op)
  | restart binding bound backupPath => exact h.restart rfl hguarded
  | claim version name id hash => exact h.claim rfl hguarded

theorem HandoverRun.Good.run {run : HandoverRun} (h : run.Good dates digest) {steps : List HandoverStep}
    (hguarded : Throughout dates digest bindingVersion (fun run step => step.Guarded dates digest run) run steps) :
    Throughout dates digest bindingVersion (fun run step => step.Sound dates digest bindingVersion run) run steps := by
  induction steps generalizing run with
  | nil => exact True.intro
  | cons step steps ih =>
    obtain ⟨hsound, hnext⟩ := h.step hguarded.1
    exact ⟨hsound, ih hnext hguarded.2⟩

end

/-! ## A version admits one administrator -/

/-- Over every run from a process that has just started in a directory without a window file. -/
theorem one_administrator (dates : DateTimes) (digest : Codes → Codes) (bindingVersion : TransitionBinding → Codes) {w : World}
    (hfile : w.files.deadline = none) (hdeadline : w.store.browserHandoverDeadline = none)
    (hclaiming : w.store.claimTransaction = none) (clock : Int) (steps : List HandoverStep)
    (hguarded : Throughout dates digest bindingVersion (fun run step => step.Guarded dates digest run) ⟨w, clock, [], []⟩ steps) :
    Throughout dates digest bindingVersion (fun run step => step.Sound dates digest bindingVersion run) ⟨w, clock, [], []⟩
      steps := by
  have hview : (w.standing dates digest).view.state = none := by
    unfold World.standing Frame.standing Frame.view World.frame
    dsimp only
    rw [hdeadline, hfile]
    split_ifs <;> rfl
  have hidle : (w.standing dates digest).claiming = false := by
    change w.store.claimTransaction.isSome = false
    rw [hclaiming]
    rfl
  refine HandoverRun.Good.run ⟨⟨hidle, ⟨?_, ?_⟩, ?_, ?_⟩, ?_⟩ hguarded
  · intro state hstate
    rw [hview] at hstate
    cases hstate
  · intro doc hdoc
    rw [show (w.standing dates digest).file = none from hfile] at hdoc
    cases hdoc
  · exact fun v hv => absurd hv List.not_mem_nil
  · exact fun d hd => absurd hd List.not_mem_nil
  · exact fun h => absurd rfl h

set_option maxRecDepth 10000

/-- A digest of 64 characters. -/
def sampleDigest (text : Codes) : Codes := ((text.map fun c => 48 + c % 10) ++ List.replicate 64 97).take 64

/-- A claim, after which the window cannot be closed in its file, and a claim of the same version by the process
that starts next. -/
def claimedAgain : List HandoverStep :=
  [{ now := seconds 10, op := .activate (some (codes "v1")) },
    { now := seconds 20, op := .claim (codes "v1") (codes "admin") (sampleKeyId 0) (codes "hash"),
      outcomes := fun target => if target = .deadline then [.fails] else [] },
    { now := seconds 30, op := .restart none [] [] },
    { now := seconds 40, op := .activate (some (codes "v1")) },
    { now := seconds 50, op := .claim (codes "v1") (codes "admin") (sampleKeyId 1) (codes "hash") }]

theorem claimed_again_sound :
    Throughout newYearDates sampleDigest TransitionBinding.backup
      (fun run step => step.Sound newYearDates sampleDigest TransitionBinding.backup run) ⟨{}, 0, [], []⟩ claimedAgain := by
  refine one_administrator newYearDates sampleDigest TransitionBinding.backup rfl rfl rfl 0 claimedAgain ?_
  refine ⟨⟨by decide, True.intro⟩, ⟨by decide, fun _ => ⟨?_, ?_, ?_⟩⟩, ⟨by decide, fun _ v hv => .inl ?_, ?_⟩,
    ⟨by decide, True.intro⟩, ⟨by decide, fun hoffers => absurd hoffers (by decide +kernel)⟩, True.intro⟩
  · exact fun _ hgranted => absurd hgranted (by decide +kernel)
  · exact fun hbound => absurd (by decide +kernel) hbound
  · exact fun hgranted => absurd hgranted (by decide +kernel)
  · revert v
    decide +kernel
  · decide +kernel

/-- A claim of the blank version, one of the version that is configured then, and the first again. -/
def blankAgain : List HandoverStep :=
  [{ now := seconds 10, op := .activate (some []) },
    { now := seconds 20, op := .claim [] (codes "admin") (sampleKeyId 0) (codes "hash") },
    { now := seconds 30, op := .query (some (codes "r1")) },
    { now := seconds 40, op := .claim (codes "r1") (codes "admin") (sampleKeyId 1) (codes "hash") },
    { now := seconds 50, op := .claim [] (codes "admin") (sampleKeyId 2) (codes "hash") }]

theorem blank_claimed_again :
    ¬ Throughout newYearDates sampleDigest TransitionBinding.backup
      (fun run step => step.Sound newYearDates sampleDigest TransitionBinding.backup run) ⟨{}, 0, [], []⟩ blankAgain := by
  rintro ⟨-, -, -, -, ⟨hfirst, -, -⟩, -⟩
  exact hfirst [] (by decide +kernel) (by decide +kernel) (by decide +kernel)

end SeedSync.Auth
