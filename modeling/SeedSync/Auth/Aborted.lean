import SeedSync.Auth.Recovered

/-!
# A claim that is aborted

What the calls of a claim leave of the transaction they run in, and the world that an abort comes back to.
-/

namespace SeedSync.Auth

open Lib Program

/-! ## The calls of a claim -/

/-- The transaction under way. -/
structure Underway where
  claimTransaction : Option ClaimRuntimeState
  activated : Bool
  journal : Option Journal

def World.underway (w : World) : Underway :=
  ⟨w.store.claimTransaction, w.store.browserHandoverActivated, w.files.journal⟩

theorem underway_of_frame {α : Type} {program : M α} (h : Leaves World.frame program) : Leaves World.underway program :=
  fun m => congrArg (fun frame : Frame => (⟨frame.claimTransaction, frame.activated, frame.journal⟩ : Underway)) (h m)

theorem underway_beside : Beside World.underway := ⟨fun _ _ _ _ => rfl, fun _ _ => rfl⟩

section

variable {dates : DateTimes} {digest : Codes → Codes} (now : Int)

theorem createInitialAdminApiKeyIfAvailable_underway (version name id hash : Codes) :
    Leaves World.underway (createInitialAdminApiKeyIfAvailable dates digest now version name id hash) := by
  refine Leaves.bind (Leaves.bind (browserHandoverState_beside now underway_beside _ _ _ _) fun _ => Leaves.getStore_bind fun _ =>
    Leaves.ite Leaves.pure Leaves.pure) fun available => Leaves.ite Leaves.pure ?_
  refine Leaves.bind (underway_of_frame (createApiKeyRecord_frame now _ _ _ _)) fun record => ?_
  refine Leaves.bind (Leaves.modifyStore fun w => ?_) fun _ => ?_
  · unfold World.updateStore
    dsimp only
    split_ifs <;> rfl
  refine Leaves.bind (underway_of_frame (clearBootstrapProof_frame now _)) fun _ => ?_
  refine Leaves.bind (underway_of_frame (clearBootstrapExchange_frame now _)) fun _ => ?_
  refine Leaves.bind (underway_of_frame (save_frame now)) fun _ => Leaves.getStore_bind fun store => ?_
  have hrecord : Leaves World.underway (do
      recordHistoryEvent dates now "api_key_created" (codes "initial_admin_created")
        (keyDetails record ++ [(codes "browser_handover_version", .str (strip version))])
      return some record) :=
    Leaves.bind (underway_of_frame (recordHistoryEvent_frame now _ _ _)) fun _ => Leaves.pure
  exact Leaves.ite (Leaves.bind (finalizeBrowserHandoverClaim_beside underway_beside _) fun _ => hrecord) hrecord

theorem completeCompletedMigrationClaimTransition_underway (keyId version : Codes) :
    Leaves World.underway (completeCompletedMigrationClaimTransition keyId version) := by
  refine Leaves.getStore_bind fun store => ?_
  cases store.transitionBinding with
  | none => exact Leaves.pure
  | some binding =>
    refine Leaves.bind (Leaves.read_bind fun w => Leaves.ite Leaves.pure (Leaves.guard ?_)) fun _ => ?_
    · exact Leaves.ite Leaves.raise Leaves.pure
    cases store.getApiKey keyId with
    | none => exact Leaves.raise
    | some record =>
      refine Leaves.guard (Leaves.bind (Leaves.guard (Leaves.replace fun _ => rfl)) fun _ => ?_)
      exact Leaves.modifyStore fun _ => rfl

end

/-! ## Where a claim is cut off -/

/-- The journal that a claim begins with. -/
def Files.copies (files : Files) : Journal := { store := files.store, history := files.history, marker := files.marker }

/-- The transaction that a claim begins. -/
def World.begun (w : World) : Underway :=
  ⟨some w.store.runtimeState, w.store.browserHandoverActivated, some w.files.copies⟩

/-- The worlds that a claim can be cut off in: none was begun, the files are in the journal, or the claim
is complete and so marked. -/
inductive CutOff (w : World) (completed : AuthFiles → Prop) (w' : World) : Prop where
  | outside (hclaim : w'.store.claimTransaction = none) (hsettled : w'.files.settled = w.files.auth)
      (hjournal : ∀ journal, w'.files.journal = some journal → ¬ journal.committed = true)
  | within (h : w'.underway = w.begun)
  | complete (hauth : completed w'.files.auth) (hjournal : ∀ journal, w'.files.journal = some journal → journal.committed = true)
      (hdone : w'.store.claimTransaction = none ∨ w'.files.journal ≠ none)

variable {dates : DateTimes} {digest : Codes → Codes} {request : ClaimRequest} {w : World}

theorem settled_of_underway {w' : World} (h : w'.underway = w.begun) : w'.files.settled = w.files.auth := by
  have hjournal : w'.files.journal = some w.files.copies := congrArg Underway.journal h
  simp [Files.settled, hjournal, Files.copies, Journal.auth, Files.auth]

/-- A transaction begins with the journal, or not at all. -/
theorem begin_triple {completed : AuthFiles → Prop} (hclaim : w.store.claimTransaction = none) (hjournal : w.files.journal = none)
    (hbinding : w.store.transitionBinding ≠ none) :
    Triple (fun m => m.world = w) (do
        validateCompletedMigrationClaimTransition request.version
        beginCompletedMigrationClaimTransaction)
      (fun _ m => m.world.underway = w.begun) (fun m => CutOff w completed m.world) := by
  have hsettled : w.files.settled = w.files.auth := by simp [Files.settled, hjournal]
  have houtside : ∀ m : Machine Target World, m.world = w → CutOff w completed m.world := by
    rintro m rfl
    exact .outside hclaim hsettled (by simp [hjournal])
  refine Triple.bind (Q := fun _ m => m.world = w) ?_ fun _ => ?_
  · unfold validateCompletedMigrationClaimTransition
    refine Triple.read_bind fun m hm => ?_
    subst hm
    rw [id_eq, if_neg (by simpa using hbinding)]
    refine Triple.check (by rintro m' rfl; exact houtside m' rfl) fun _ => ?_
    split_ifs
    · exact Triple.raise (by rintro m' rfl; exact houtside m' rfl)
    · exact Triple.pure (by rintro m' rfl; rfl)
  · unfold beginCompletedMigrationClaimTransaction
    refine Triple.read_bind fun m hm => ?_
    subst hm
    rw [if_neg (by simpa using hbinding), if_neg (by simp [hclaim])]
    refine Triple.bind (Q := fun _ m' => m'.world = { m.world with files.journal := some m.world.files.copies }) ?_ fun _ => ?_
    · unfold beginCompletedMigrationClaimJournal
      refine Triple.read_bind fun m' hm' => ?_
      subst hm'
      refine Triple.check (by rintro m'' rfl; exact houtside m'' rfl) fun _ => ?_
      refine Triple.check (by rintro m'' rfl; exact houtside m'' rfl) fun _ => Triple.act ?_ ?_ ?_ ?_
      · rintro m'' rfl
        rfl
      · rintro m'' rfl -
        exact houtside _ rfl
      · rintro m'' rfl -
        exact .outside hclaim (by simp [Files.settled, Journal.auth, Files.auth]) (by simp)
      · rintro m'' n rfl -
        exact houtside _ rfl
    · refine Triple.update_bind (Q := fun m' => m'.world.underway = m.world.begun) ?_ (Triple.pure fun _ h => h)
      rintro m' hm'
      dsimp only [World.underway, World.updateStore]
      rw [hm']
      rfl

/-- The calls before the last one leave the transaction as it is. -/
theorem claimCall_underway {call : ClaimCall} (h : call ≠ .finish) :
    Leaves World.underway (call.program dates digest request) := by
  cases call with
  | create =>
    refine Leaves.bind (createInitialAdminApiKeyIfAvailable_underway _ _ _ _ _) fun created => ?_
    exact Leaves.ite Leaves.raise Leaves.pure
  | session =>
    exact Leaves.bind (underway_of_frame (createBrowserSessionForApiKey_frame _ _ _ _)) fun _ => Leaves.pure
  | complete => exact completeCompletedMigrationClaimTransition_underway _ _
  | finish => exact absurd rfl h

/-- Calls before the last one, cut off or not. -/
theorem calls_triple {completed : AuthFiles → Prop} {calls : List ClaimCall} (h : .finish ∉ calls)
    (hclaim : w.store.claimTransaction = none) (hjournal : w.files.journal = none) (hbinding : w.store.transitionBinding ≠ none) :
    Triple (fun m => m.world = w) (claimTransaction dates digest request calls) (fun _ m => m.world.underway = w.begun)
      (fun m => CutOff w completed m.world) := by
  have hsplit : claimTransaction dates digest request calls = (do
      validateCompletedMigrationClaimTransition request.version
      beginCompletedMigrationClaimTransaction) >>= fun _ => calls.forM fun call => call.program dates digest request := by
    rw [claimTransaction, bind_assoc]
  rw [hsplit]
  refine Triple.bind (begin_triple hclaim hjournal hbinding) fun _ => ?_
  have hspec : Spec (fun m : Machine Target World => m.world.underway = w.begun)
      (calls.forM fun call => call.program dates digest request) (fun _ => True) := by
    refine Spec.forM calls fun call hcall m hm => ⟨?_, fun _ _ => True.intro⟩
    exact (claimCall_underway (by rintro rfl; exact h hcall) m).trans hm
  exact (Triple.of_spec hspec).conseq (fun _ h => h) (fun _ _ h => h.1) fun _ h => .within h

/-- The last call: the journal is marked, and removed when that does not fail. -/
theorem finish_triple {completed : AuthFiles → Prop} :
    Triple (fun m => m.world.underway = w.begun ∧ completed m.world.files.auth) finishCompletedMigrationClaimTransaction
      (fun _ m => CutOff w completed m.world) (fun m => CutOff w completed m.world) := by
  unfold finishCompletedMigrationClaimTransaction
  refine Triple.read_bind fun m hm => ?_
  obtain ⟨hunderway, hauth⟩ := hm
  have hjournal : m.world.files.journal = some w.files.copies := congrArg Underway.journal hunderway
  have hclaim : m.world.store.claimTransaction = some w.store.runtimeState := congrArg Underway.claimTransaction hunderway
  rw [if_neg (by simp [hclaim])]
  refine Triple.bind (Q := fun _ m' => m'.world.files.auth = m.world.files.auth ∧
    m'.world.files.journal = some { w.files.copies with committed := true }) ?_ fun _ => ?_
  · unfold commitCompletedMigrationClaimJournal
    refine Triple.read_bind fun m' hm' => ?_
    subst hm'
    simp only [id_eq, hjournal]
    rw [if_neg (by simp [Files.copies])]
    refine Triple.act ?_ ?_ ?_ ?_
    · rintro m'' rfl
      exact ⟨rfl, rfl⟩
    · rintro m'' rfl -
      exact .within hunderway
    · rintro m'' rfl -
      refine .complete hauth ?_ (.inr (by simp))
      rintro journal heq
      rw [← Option.some.inj heq]
    · rintro m'' n rfl -
      exact .within hunderway
  · refine Triple.update_bind (Q := fun m' => m'.world.store.claimTransaction = none ∧
      m'.world.files.auth = m.world.files.auth ∧ m'.world.files.journal = some { w.files.copies with committed := true })
      (fun m' hm' => ⟨rfl, hm'⟩) ?_
    have hmarked : ∀ m' : Machine Target World, m'.world.store.claimTransaction = none ∧
        m'.world.files.auth = m.world.files.auth ∧ m'.world.files.journal = some { w.files.copies with committed := true } →
        CutOff w completed m'.world := by
      rintro m' ⟨hnone, hsame, hmarked⟩
      refine .complete (by rw [hsame]; exact hauth) ?_ (.inl hnone)
      intro journal heq
      rw [hmarked, Option.some.injEq] at heq
      rw [← heq]
    have hcleared : ∀ m' : Machine Target World, m'.world.store.claimTransaction = none ∧
        m'.world.files.auth = m.world.files.auth ∧ m'.world.files.journal = none → CutOff w completed m'.world := by
      rintro m' ⟨hnone, hsame, hgone⟩
      exact .complete (by rw [hsame]; exact hauth) (by simp [hgone]) (.inl hnone)
    refine Triple.rescue (F := fun m' => CutOff w completed m'.world) ?_ ?_ fun _ h => h
    · unfold clearCompletedMigrationClaimJournal
      refine Triple.read_bind fun m' hm' => Triple.check (by rintro m'' rfl; exact hmarked _ hm') fun _ => Triple.act ?_ ?_ ?_ ?_
      · rintro m'' rfl
        exact hcleared _ ⟨hm'.1, hm'.2.1, rfl⟩
      · rintro m'' rfl -
        exact hmarked _ hm'
      · rintro m'' rfl -
        exact hcleared _ ⟨hm'.1, hm'.2.1, rfl⟩
      · rintro m'' n rfl -
        exact hmarked _ hm'
    · intro error
      cases error with
      | os => exact Triple.pure fun _ h => h
      | value message => exact Triple.raise fun _ h => h
      | type => exact Triple.raise fun _ h => h
      | key => exact Triple.raise fun _ h => h

/-! ## An abort -/

/-- What an abort does not bring back is as it was when the transaction began, and the claim is not marked
as complete. -/
structure Unmarked (w w' : World) : Prop where
  snapshot : w'.store.lastSavedHistorySnapshot = w.store.lastSavedHistorySnapshot
  claimedHandover : w'.store.claimedHandoverVersion = w.store.claimedHandoverVersion
  deadline : w'.store.browserHandoverDeadline = w.store.browserHandoverDeadline
  loaded : w'.store.browserHandoverDeadlineLoaded = w.store.browserHandoverDeadlineLoaded
  invalid : w'.store.browserHandoverDeadlineInvalid = w.store.browserHandoverDeadlineInvalid
  deadlineFile : w'.files.deadline = w.files.deadline
  uncommitted : w'.files.journal.all (fun journal => !journal.committed) = true

theorem revert_eq {w w' : World} (h : Unmarked w w') (hunderway : w'.underway = w.begun) (hclaim : w.store.claimTransaction = none) :
    w'.store.revert w.store.runtimeState = w.store := by
  have hactivated : w'.store.browserHandoverActivated = w.store.browserHandoverActivated := congrArg Underway.activated hunderway
  obtain ⟨hsnapshot, hclaimed, hdeadline, hloaded, hinvalid, -, -⟩ := h
  simp only [ApiKeyStore.revert, ApiKeyStore.runtimeState, hsnapshot, hclaimed, hdeadline, hloaded, hinvalid, hactivated, ← hclaim]

/-- An abort in such a world comes back to the one that the transaction began in. -/
theorem abort_triple {w' : World} {order : List Target} (horder : ∀ target ∈ artifacts, target ∈ order) (h : Unmarked w w')
    (hunderway : w'.underway = w.begun) (hclaim : w.store.claimTransaction = none) (hjournal : w.files.journal = none) :
    Triple (fun m => m.world = w') (abortCompletedMigrationClaimTransaction order) (fun _ m => m.world = w) (fun _ => True) := by
  have hstate : w'.store.claimTransaction = some w.store.runtimeState := congrArg Underway.claimTransaction hunderway
  unfold abortCompletedMigrationClaimTransaction
  refine Triple.read_bind fun m hm => ?_
  subst hm
  simp only [hstate]
  refine Triple.bind (Q := fun _ => Recovered m.world) ?_ fun _ => Triple.update fun m' hm' => ?_
  · refine (recover_triple m.world False horder).conseq ?_ (fun _ _ h => h) fun _ _ => True.intro
    rintro m' rfl
    exact ⟨rfl, False.elim⟩
  · have hauth := hm'.auth.trans (settled_of_underway hunderway)
    have hfiles : m'.world.files = w.files := by
      have hstore : m'.world.files.store = w.files.store := congrArg AuthFiles.store hauth
      have hhistory : m'.world.files.history = w.files.history := congrArg AuthFiles.history hauth
      have hmarker : m'.world.files.marker = w.files.marker := congrArg AuthFiles.marker hauth
      have hgone := hm'.journal.trans hjournal.symm
      have hdeadline := hm'.deadline.trans h.deadlineFile
      cases hleft : m'.world.files
      cases hright : w.files
      simp_all
    dsimp only [World.updateStore]
    rw [hm'.store, revert_eq h hunderway hclaim, hfiles]

/-! ## Any point of a claim -/

/-- The files of the claim as the calls before the last one leave them, when they all return. -/
def CompletedBy (dates : DateTimes) (digest : Codes → Codes) (request : ClaimRequest) (w : World)
    (outcomes : Target → List Outcome) (files : AuthFiles) : Prop :=
  ∃ m, (claimTransaction dates digest request [.create, .session, .complete]).run.run ⟨w, outcomes⟩ = (.ok (), m) ∧
    m.world.files.auth = files

/-- The world when a claim is cut off in one of its first `n` calls or after them. -/
def claimedUpTo (dates : DateTimes) (digest : Codes → Codes) (request : ClaimRequest) (n : Nat) (w : World)
    (outcomes : Target → List Outcome) : World :=
  ((claimTransaction dates digest request (claimCalls.take n)).run.run ⟨w, outcomes⟩).2.world

theorem claimTransaction_claimCalls : claimTransaction dates digest request claimCalls =
    claimTransaction dates digest request [.create, .session, .complete] >>= fun _ =>
      finishCompletedMigrationClaimTransaction := by
  simp [claimTransaction, claimCalls, ClaimCall.program]

theorem cutOff_claimedUpTo (hclaim : w.store.claimTransaction = none) (hjournal : w.files.journal = none)
    (hbinding : w.store.transitionBinding ≠ none) (n : Nat) (outcomes : Target → List Outcome) :
    CutOff w (CompletedBy dates digest request w outcomes) (claimedUpTo dates digest request n w outcomes) := by
  have hfirst : ∀ calls : List ClaimCall, .finish ∉ calls → Triple (fun m => m.world = w)
      (claimTransaction dates digest request calls) (fun _ m => m.world.underway = w.begun)
      (fun m => CutOff w (CompletedBy dates digest request w outcomes) m.world) := fun calls h =>
    calls_triple h hclaim hjournal hbinding
  unfold claimedUpTo
  rcases Nat.lt_or_ge n 4 with hn | hn
  · have hcalls : ClaimCall.finish ∉ claimCalls.take n := by
      interval_cases n <;> decide
    exact ((hfirst _ hcalls).conseq (fun _ h => h) (fun _ _ h => .within h) fun _ h => h).run
      (s := ⟨w, outcomes⟩) rfl
  · have hall : claimCalls.take n = claimCalls := List.take_of_length_le (by simpa [claimCalls] using hn)
    rw [hall, claimTransaction_claimCalls]
    have hrun := hfirst [.create, .session, .complete] (by decide) ⟨w, outcomes⟩ rfl
    cases hcalls : (claimTransaction dates digest request [.create, .session, .complete]).run.run ⟨w, outcomes⟩ with
    | mk result m =>
      rw [hcalls] at hrun
      cases result with
      | error stop =>
        rw [run_bind_of_error hcalls]
        exact hrun
      | ok done =>
        rw [run_bind_of_ok hcalls]
        exact finish_triple.run ⟨hrun, m, hcalls, rfl⟩

/-- What recoveries leave, by the mark of the journal. -/
theorem CutOff.settled {completed : AuthFiles → Prop} {w' : World} (h : CutOff w completed w') :
    (w'.files.settled = w.files.auth ∨ completed w'.files.settled) ∧
    (∀ journal, w'.files.journal = some journal → journal.committed = true → completed w'.files.settled) ∧
    (∀ journal, w'.files.journal = some journal → ¬ journal.committed = true → w'.files.settled = w.files.auth) := by
  cases h with
  | outside hclaim hsettled huncommitted =>
    exact ⟨.inl hsettled, fun journal heq hcommitted => absurd hcommitted (huncommitted journal heq), fun _ _ _ => hsettled⟩
  | within hunderway =>
    have hjournal : w'.files.journal = some w.files.copies := congrArg Underway.journal hunderway
    have hsettled := settled_of_underway hunderway
    refine ⟨.inl hsettled, fun journal heq hcommitted => ?_, fun _ _ _ => hsettled⟩
    rw [hjournal, Option.some.injEq] at heq
    rw [← heq] at hcommitted
    cases hcommitted
  | complete hauth hmarked hdone =>
    have hsettled : w'.files.settled = w'.files.auth := by
      unfold Files.settled
      cases hjournal : w'.files.journal with
      | none => rfl
      | some journal => simp [hmarked journal hjournal]
    refine ⟨.inr (hsettled ▸ hauth), fun _ _ _ => hsettled ▸ hauth, fun journal heq huncommitted => ?_⟩
    exact absurd (hmarked journal heq) huncommitted

/-- A claim, cut off anywhere, and any recoveries, cut off too: the next one that is not leaves the files as
they were, or as the completed claim wrote them, by the mark of the journal. An abort that returns, of a
claim that left no trace out of its reach, comes back to where the claim began for all that follows. -/
theorem claim_all_or_nothing (dates : DateTimes) (digest : Codes → Codes) (request : ClaimRequest) {w : World}
    (hclaim : w.store.claimTransaction = none) (hjournal : w.files.journal = none)
    (hbinding : w.store.transitionBinding ≠ none) (n : Nat) (outcomes : Target → List Outcome) :
    let cut := claimedUpTo dates digest request n w outcomes
    (∀ recoveries : List Recovery, (∀ recovery ∈ recoveries, recovery.order.Perm artifacts) →
      ∀ order : List Target, order.Perm artifacts →
        let files := (Recovery.run ⟨order, fun _ => []⟩ (runRecoveries cut recoveries)).files
        files.journal = none ∧
        match cut.files.journal with
        | some journal =>
          if journal.committed then CompletedBy dates digest request w outcomes files.auth else files.auth = w.files.auth
        | none => files.auth = cut.files.auth ∧
            (files.auth = w.files.auth ∨ CompletedBy dates digest request w outcomes files.auth)) ∧
    (∀ (order : List Target) (m : Machine Target World) (aborting : Target → List Outcome), order.Perm artifacts →
      cut.store.claimTransaction ≠ none → Unmarked w cut →
      (abortCompletedMigrationClaimTransaction order).run.run ⟨cut, aborting⟩ = (.ok (), m) →
      ∀ (α : Type) (later : M α) (outcomes : Target → List Outcome),
        later.run.run ⟨m.world, outcomes⟩ = later.run.run ⟨w, outcomes⟩) := by
  intro cut
  have hcut : CutOff w (CompletedBy dates digest request w outcomes) cut :=
    cutOff_claimedUpTo hclaim hjournal hbinding n outcomes
  have hcomplete : ∀ {order : List Target}, order.Perm artifacts → ∀ target ∈ artifacts, target ∈ order :=
    fun hperm target htarget => hperm.mem_iff.2 htarget
  refine ⟨?_, ?_⟩
  · intro recoveries hrecoveries order horder files
    obtain ⟨hgone, hleft⟩ := Recovery.run_calm (hcomplete horder) (runRecoveries cut recoveries)
    rw [settled_runRecoveries fun r hr => hcomplete (hrecoveries r hr)] at hleft
    refine ⟨hgone, ?_⟩
    change files.auth = cut.files.settled at hleft
    rw [hleft]
    have hdecided := hcut.settled
    cases hjournalCut : cut.files.journal with
    | none => exact ⟨by simp [Files.settled, hjournalCut], hdecided.1⟩
    | some journal =>
      dsimp only
      split_ifs with hcommitted
      · exact hdecided.2.1 journal hjournalCut hcommitted
      · exact hdecided.2.2 journal hjournalCut hcommitted
  · intro order m aborting horder hunder hunmarked habort α later outcomes
    have hwithin : cut.underway = w.begun := by
      cases hcut with
      | outside hnone _ _ => exact absurd hnone hunder
      | within h => exact h
      | complete hauth hmarked hdone =>
        obtain ⟨journal, hsome⟩ := Option.ne_none_iff_exists'.1 (hdone.resolve_left hunder)
        have := hunmarked.uncommitted
        rw [hsome, Option.all_some, hmarked journal hsome] at this
        cases this
    have htriple := abort_triple (hcomplete horder) hunmarked hwithin hclaim hjournal ⟨cut, aborting⟩ rfl
    rw [habort] at htriple
    have hworld : m.world = w := htriple
    rw [hworld]

set_option maxRecDepth 10000

/-- An unclaimed store with an open window. -/
def unclaimedStore : ApiKeyStore where
  browserHandoverDeadline := some { active := some (openedDeadline newYearDates 0 .initial []) }
  browserHandoverDeadlineLoaded := true
  browserHandoverActivated := true
  transitionBinding := some ⟨codes "seedsync-v0.8.6", codes "migration-backups/first", List.replicate 64 97, List.replicate 64 98⟩
  lastSavedHistorySnapshot := some ({} : ApiKeyStore).historySnapshot

def unclaimedWorld : World where
  store := unclaimedStore
  files := { store := some (Doc.indented unclaimedStore.payload)
             history := some (({} : History).append (historyLine newYearDates 0 "store_saved" (codes "persisted")
               ({} : ApiKeyStore).historySnapshot.details)) }

def sampleRequest : ClaimRequest where
  now := seconds 60
  sessionNow := seconds 61
  version := codes "migration-claim-1"
  name := codes "bootstrap-admin"
  keyId := List.replicate 36 48
  hash := codes "pbkdf2"
  secret := codes "cookie"

/-- The store cannot be written. -/
def unwritable (target : Target) : List Outcome := if target = .store then [.fails] else []

theorem unwritable_unmarked : Unmarked unclaimedWorld (claimedUpTo newYearDates id sampleRequest 4 unclaimedWorld unwritable) where
  snapshot := by decide +kernel
  claimedHandover := by decide +kernel
  deadline := by decide +kernel
  loaded := by decide +kernel
  invalid := by decide +kernel
  deadlineFile := Option.isNone_iff_eq_none.1 (by decide +kernel)
  uncommitted := by decide +kernel

theorem unwritable_all_or_nothing :
    (Recovery.run ⟨artifacts, fun _ => []⟩ (runRecoveries
      (claimedUpTo newYearDates id sampleRequest 4 unclaimedWorld unwritable)
      [⟨[.marker, .history, .store], fun _ => [.dies 0]⟩])).files.journal = none ∧
    ∀ m, (abortCompletedMigrationClaimTransaction artifacts).run.run
      ⟨claimedUpTo newYearDates id sampleRequest 4 unclaimedWorld unwritable, fun _ => []⟩ = (.ok (), m) →
      ∀ (later : M Bool) (outcomes : Target → List Outcome),
        later.run.run ⟨m.world, outcomes⟩ = later.run.run ⟨unclaimedWorld, outcomes⟩ := by
  have h := claim_all_or_nothing newYearDates id sampleRequest (w := unclaimedWorld) rfl rfl (by decide) 4 unwritable
  refine ⟨(h.1 [⟨[.marker, .history, .store], fun _ => [.dies 0]⟩] ?_ artifacts (List.Perm.refl _)).1, ?_⟩
  · intro recovery hrecovery
    rw [List.mem_singleton.1 hrecovery]
    decide
  · intro m habort later outcomes
    exact h.2 artifacts m (fun _ => []) (List.Perm.refl _) (by decide +kernel) unwritable_unmarked habort Bool later outcomes

/-- The journal cannot be marked. -/
def uncommittable (target : Target) : List Outcome := if target = .journal then [.done, .fails] else []

/-- The claim is aborted when its journal cannot be marked; a second claim of the same version raises, and
would succeed had there been no first. -/
theorem second_claim_rejected :
    let cut := claimedUpTo newYearDates id sampleRequest 4 unclaimedWorld uncommittable
    let aborted := (abortCompletedMigrationClaimTransaction artifacts).run.run ⟨cut, fun _ => []⟩
    cut.store.claimTransaction.isSome = true ∧ aborted.1.toBool = true ∧
      ((claimTransaction newYearDates id sampleRequest claimCalls).run.run ⟨aborted.2.world, fun _ => []⟩).1.toBool = false ∧
      ((claimTransaction newYearDates id sampleRequest claimCalls).run.run ⟨unclaimedWorld, fun _ => []⟩).1.toBool = true := by
  decide +kernel

end SeedSync.Auth
