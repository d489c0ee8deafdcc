import SeedSync.Auth.Claim

/-!
# What credential operations leave alone

No operation on keys, sessions or bootstrap secrets touches a claim window, a claim transaction or their
files.
-/

namespace SeedSync.Auth

open Lib Program

/-- The fields and files of claims. -/
structure Frame where
  claimedVersion : Codes
  deadline : Option DeadlineState
  loaded : Bool
  invalid : Bool
  activated : Bool
  transitionBinding : Option TransitionBinding
  claimedHandoverVersion : Codes
  claimTransaction : Option ClaimRuntimeState
  marker : Option Doc
  journal : Option Journal
  deadlineFile : Option Doc

def World.frame (w : World) : Frame where
  claimedVersion := w.store.browserHandoverClaimedVersion
  deadline := w.store.browserHandoverDeadline
  loaded := w.store.browserHandoverDeadlineLoaded
  invalid := w.store.browserHandoverDeadlineInvalid
  activated := w.store.browserHandoverActivated
  transitionBinding := w.store.transitionBinding
  claimedHandoverVersion := w.store.claimedHandoverVersion
  claimTransaction := w.store.claimTransaction
  marker := w.files.marker
  journal := w.files.journal
  deadlineFile := w.files.deadline

/-- The program leaves `f` of the world as it is. -/
def Leaves {α β : Type} (f : World → β) (program : M α) : Prop :=
  ∀ m, f (program.run.run m).2.world = f m.world

namespace Leaves

variable {α β γ : Type} {f : World → γ}

theorem pure {a : α} : Leaves f (Pure.pure a) := fun _ => rfl

theorem raise {error : Error} : Leaves f (Program.raise error : M α) := fun _ => rfl

theorem bind {program : M α} {g : α → M β} (h : Leaves f program) (hg : ∀ a, Leaves f (g a)) :
    Leaves f (program >>= g) := by
  intro m
  have hprogram := h m
  cases hrun : program.run.run m with
  | mk result m' =>
    rw [hrun] at hprogram
    cases result with
    | error stop =>
      rw [run_bind_of_error hrun]
      exact hprogram
    | ok a =>
      rw [run_bind_of_ok hrun]
      exact (hg a m').trans hprogram

theorem read_bind {g : World → α} {h : α → M β} (hg : ∀ a, Leaves f (h a)) : Leaves f (Program.read g >>= h) :=
  fun m => hg (g m.world) m

theorem getStore_bind {h : ApiKeyStore → M β} (hg : ∀ store, Leaves f (h store)) : Leaves f (getStore >>= h) :=
  fun m => hg m.world.store m

theorem modifyStore {g : ApiKeyStore → ApiKeyStore} (h : ∀ w : World, f (w.updateStore g) = f w) :
    Leaves f (Auth.modifyStore g) := fun m => h m.world

theorem ite {c : Prop} [Decidable c] {a b : M α} (ha : Leaves f a) (hb : Leaves f b) : Leaves f (if c then a else b) := by
  split_ifs
  · exact ha
  · exact hb

/-- A check that raises. -/
theorem guard {c : Prop} [Decidable c] {error : Error} {g : β → M α} {rest : M α} (h : Leaves f rest) :
    Leaves f (if c then Program.raise error >>= g else rest) :=
  ite (fun _ => rfl) h

theorem act {target : Target} {error : Error} {run : World → World} {part : Nat → World → World}
    (hrun : ∀ w, f (run w) = f w) (hpart : ∀ n w, f (part n w) = f w) : Leaves f (Program.act target error run part) := by
  intro m
  rw [run_act]
  cases m.next target with
  | done => exact hrun _
  | fails => rfl
  | late => exact hrun _
  | dies n => exact hpart n _

theorem replace {target : Target} {error : Error} {run : World → World} (hrun : ∀ w, f (run w) = f w) :
    Leaves f (Program.replace target error run) := act hrun fun _ _ => rfl

theorem rescue {program : M α} {handler : Error → M α} (h : Leaves f program) (hhandler : ∀ error, Leaves f (handler error)) :
    Leaves f (Program.rescue program handler) := by
  intro m
  have hprogram := h m
  rw [run_rescue]
  generalize program.run.run m = r at hprogram ⊢
  obtain ⟨(error | _) | a, m'⟩ := r
  · exact (hhandler error m').trans hprogram
  · exact hprogram
  · exact hprogram

/-- What depends on what is left is left. -/
theorem weaken {g : γ → β} {program : M α} (h : Leaves f program) : Leaves (fun w => g (f w)) program :=
  fun m => congrArg g (h m)

end Leaves

section Operations

variable {dates : DateTimes} (now : Int)

theorem recordHistoryEvent_frame (event : String) (reason : Codes) (details : List (Codes × Json)) :
    Leaves World.frame (recordHistoryEvent dates now event reason details) :=
  Leaves.getStore_bind fun _ => Leaves.rescue (Leaves.act (fun _ => rfl) fun _ _ => rfl) fun _ =>
    Leaves.ite Leaves.raise Leaves.pure

theorem pruneExpiredUiSessions_frame : Leaves World.frame (pruneExpiredUiSessions dates now) :=
  Leaves.getStore_bind fun _ => Leaves.guard (Leaves.modifyStore fun _ => rfl)

theorem clearBootstrapProof_frame (reason : Codes) : Leaves World.frame (clearBootstrapProof dates now reason) :=
  Leaves.getStore_bind fun _ => Leaves.ite (Leaves.bind (Leaves.modifyStore fun _ => rfl) fun _ =>
    recordHistoryEvent_frame now _ _ _) Leaves.pure

theorem clearBootstrapExchange_frame (reason : Codes) : Leaves World.frame (clearBootstrapExchange dates now reason) :=
  Leaves.getStore_bind fun _ => Leaves.ite (Leaves.bind (Leaves.modifyStore fun _ => rfl) fun _ =>
    recordHistoryEvent_frame now _ _ _) Leaves.pure

theorem pruneBootstrapProof_frame : Leaves World.frame (pruneBootstrapProof dates now) := by
  refine Leaves.getStore_bind fun store => ?_
  cases store.bootstrapProof with
  | none => exact Leaves.pure
  | some proof => exact Leaves.ite Leaves.pure (clearBootstrapProof_frame now _)

theorem pruneBootstrapExchange_frame : Leaves World.frame (pruneBootstrapExchange dates now) := by
  refine Leaves.getStore_bind fun store => ?_
  cases store.bootstrapExchange with
  | none => exact Leaves.pure
  | some exchange => exact Leaves.ite Leaves.pure (clearBootstrapExchange_frame now _)

theorem toStr_frame : Leaves World.frame (toStr dates now) :=
  Leaves.bind (pruneExpiredUiSessions_frame now) fun _ => Leaves.bind (pruneBootstrapProof_frame now) fun _ =>
    Leaves.bind (pruneBootstrapExchange_frame now) fun _ => Leaves.getStore_bind fun _ => Leaves.pure

theorem save_frame : Leaves World.frame (save dates now) := by
  refine Leaves.bind (toStr_frame now) fun payload => ?_
  refine Leaves.bind (Leaves.replace fun _ => rfl) fun _ => Leaves.getStore_bind fun store => Leaves.ite ?_ Leaves.pure
  exact Leaves.bind (recordHistoryEvent_frame now _ _ _) fun _ => Leaves.modifyStore fun _ => rfl

theorem scopes_leave {α γ : Type} {f : World → γ} {scopes : Option (List (Option Codes))} {g : List Codes → M α}
    (h : ∀ normalized, Leaves f (g normalized)) :
    Leaves f (match normalizeScopes scopes with
      | .ok normalized => pure normalized >>= g
      | .error error => Program.raise error >>= g) := by
  cases normalizeScopes scopes with
  | ok normalized => exact h normalized
  | error error => exact fun _ => rfl

theorem createUiSession_frame (secret : Codes) (scopes : List Codes) (bootstrap remembered : Bool) (id hash : Option Codes) :
    Leaves World.frame (createUiSession dates now secret scopes bootstrap remembered id hash) := by
  refine scopes_leave fun normalized => Leaves.guard (Leaves.guard (Leaves.guard ?_))
  refine Leaves.bind (Leaves.modifyStore fun _ => rfl) fun _ => Leaves.bind (pruneExpiredUiSessions_frame now) fun _ => ?_
  exact Leaves.bind (save_frame now) fun _ => Leaves.bind (recordHistoryEvent_frame now _ _ _) fun _ => Leaves.pure

theorem createBrowserSessionForApiKey_frame (secret keyId : Codes) (remembered : Bool) :
    Leaves World.frame (createBrowserSessionForApiKey dates now secret keyId remembered) := by
  refine Leaves.guard (Leaves.getStore_bind fun store => ?_)
  cases store.getApiKey keyId with
  | none => exact Leaves.raise
  | some record => exact Leaves.guard (createUiSession_frame now _ _ _ _ _ _)

theorem createApiKeyRecord_frame (id hash name : Codes) (scopes : Option (List (Option Codes))) :
    Leaves World.frame (createApiKeyRecord dates now id hash name scopes) := by
  refine scopes_leave fun normalized => Leaves.guard ?_
  exact Leaves.bind (Leaves.modifyStore fun _ => rfl) fun _ => Leaves.pure

theorem discardBrowserSessionsForApiKey_frame (keyId : Codes) (reason : String) :
    Leaves World.frame (discardBrowserSessionsForApiKey dates now keyId reason) :=
  Leaves.getStore_bind fun _ => Leaves.bind (Leaves.modifyStore fun _ => rfl) fun _ =>
    Leaves.bind (recordHistoryEvent_frame now _ _ _) fun _ => Leaves.pure

theorem findUiSessionBySecret_frame (secret : Codes) : Leaves World.frame (findUiSessionBySecret dates now secret) :=
  Leaves.bind (pruneExpiredUiSessions_frame now) fun _ => Leaves.getStore_bind fun _ => Leaves.pure

theorem invalidateUiSession_frame (secret : Codes) : Leaves World.frame (invalidateUiSession dates now secret) :=
  Leaves.ite Leaves.pure (Leaves.getStore_bind fun _ => Leaves.ite
    (Leaves.bind (Leaves.modifyStore fun _ => rfl) fun _ => save_frame now) Leaves.pure)

theorem createApiKey_frame (id hash name : Codes) (scopes : Option (List (Option Codes))) :
    Leaves World.frame (createApiKey dates now id hash name scopes) := by
  refine Leaves.bind (createApiKeyRecord_frame now _ _ _ _) fun record => ?_
  have hrest : Leaves World.frame (do
      save dates now
      recordHistoryEvent dates now "api_key_created" (codes "create_api_key") (keyDetails record)
      return record) :=
    Leaves.bind (save_frame now) fun _ => Leaves.bind (recordHistoryEvent_frame now _ _ _) fun _ => Leaves.pure
  refine Leaves.ite (Leaves.bind (clearBootstrapProof_frame now _) fun _ => ?_) hrest
  exact Leaves.bind (clearBootstrapExchange_frame now _) fun _ => hrest

theorem setApiKey_frame (keyId : Codes) (record : ApiKeyRecord) (w : World) :
    (w.updateStore fun store => store.setApiKey keyId record).frame = w.frame := by
  unfold World.updateStore ApiKeyStore.setApiKey
  dsimp only
  split <;> rfl

theorem updateApiKey_frame (keyId : Codes) (name : Option Codes) (scopes : Option (Option (List (Option Codes)))) :
    Leaves World.frame (updateApiKey dates now keyId name scopes) := by
  refine Leaves.getStore_bind fun store => ?_
  cases store.getApiKey keyId with
  | none => exact Leaves.raise
  | some record =>
    refine Leaves.guard (Leaves.guard (Leaves.bind (Leaves.modifyStore (setApiKey_frame _ _)) fun _ => ?_))
    have hrest : ∀ new reason, Leaves World.frame (do
        modifyStore fun store => store.setApiKey keyId new
        save dates now
        recordHistoryEvent dates now "api_key_updated" reason (keyDetails new)
        return new) := fun new reason =>
      Leaves.bind (Leaves.modifyStore (setApiKey_frame _ _)) fun _ => Leaves.bind (save_frame now) fun _ =>
        Leaves.bind (recordHistoryEvent_frame now _ _ _) fun _ => Leaves.pure
    cases scopes with
    | none => exact hrest _ _
    | some given =>
      dsimp only
      cases normalizeScopes given with
      | error error => exact fun _ => rfl
      | ok normalized => exact hrest _ _

theorem deleteApiKey_frame (keyId : Codes) : Leaves World.frame (deleteApiKey dates now keyId) := by
  refine Leaves.getStore_bind fun store => ?_
  cases store.getApiKey keyId with
  | none => exact Leaves.raise
  | some record =>
    refine Leaves.guard (Leaves.bind (discardBrowserSessionsForApiKey_frame now _ _) fun _ => ?_)
    refine Leaves.bind (Leaves.modifyStore fun _ => rfl) fun _ => Leaves.bind (save_frame now) fun _ => ?_
    exact Leaves.bind (recordHistoryEvent_frame now _ _ _) fun _ => Leaves.pure

theorem revokeApiKey_frame (keyId : Codes) : Leaves World.frame (revokeApiKey dates now keyId) := by
  refine Leaves.getStore_bind fun store => ?_
  cases store.getApiKey keyId with
  | none => exact Leaves.raise
  | some record =>
    refine Leaves.guard (Leaves.bind (Leaves.modifyStore (setApiKey_frame _ _)) fun _ => ?_)
    refine Leaves.bind (discardBrowserSessionsForApiKey_frame now _ _) fun _ => Leaves.bind (save_frame now) fun _ => ?_
    exact Leaves.bind (recordHistoryEvent_frame now _ _ _) fun _ => Leaves.pure

theorem rotateApiKey_frame (keyId hash : Codes) : Leaves World.frame (rotateApiKey dates now keyId hash) := by
  refine Leaves.getStore_bind fun store => ?_
  cases store.getApiKey keyId with
  | none => exact Leaves.raise
  | some record =>
    refine Leaves.guard (Leaves.bind (Leaves.modifyStore (setApiKey_frame _ _)) fun _ => ?_)
    exact Leaves.bind (save_frame now) fun _ => Leaves.bind (recordHistoryEvent_frame now _ _ _) fun _ => Leaves.pure

theorem ensureBootstrapProof_frame (secret : Codes) : Leaves World.frame (ensureBootstrapProof dates now secret) := by
  refine Leaves.bind (pruneBootstrapProof_frame now) fun _ => Leaves.bind (pruneBootstrapExchange_frame now) fun _ => ?_
  refine Leaves.getStore_bind fun store => Leaves.ite ?_ (Leaves.ite ?_ (Leaves.getStore_bind fun _ => Leaves.pure))
  · refine Leaves.bind (clearBootstrapProof_frame now _) fun _ => ?_
    exact Leaves.bind (clearBootstrapExchange_frame now _) fun _ => Leaves.pure
  · refine Leaves.bind (Leaves.modifyStore fun _ => rfl) fun _ => ?_
    exact Leaves.bind (recordHistoryEvent_frame now _ _ _) fun _ => Leaves.getStore_bind fun _ => Leaves.pure

theorem ensureBootstrapExchange_frame (secret : Codes) : Leaves World.frame (ensureBootstrapExchange dates now secret) := by
  refine Leaves.bind (pruneBootstrapExchange_frame now) fun _ => ?_
  refine Leaves.getStore_bind fun store => Leaves.ite ?_ (Leaves.ite ?_ (Leaves.getStore_bind fun _ => Leaves.pure))
  · exact Leaves.bind (clearBootstrapExchange_frame now _) fun _ => Leaves.pure
  · refine Leaves.bind (Leaves.modifyStore fun _ => rfl) fun _ => ?_
    exact Leaves.bind (recordHistoryEvent_frame now _ _ _) fun _ => Leaves.getStore_bind fun _ => Leaves.pure

theorem peekBootstrapProof_frame (secret : Codes) : Leaves World.frame (peekBootstrapProof dates now secret) := by
  refine Leaves.ite Leaves.pure (Leaves.bind (pruneBootstrapProof_frame now) fun _ => Leaves.getStore_bind fun store => ?_)
  cases store.bootstrapProof with
  | none => exact Leaves.pure
  | some proof => exact Leaves.pure

theorem peekBootstrapExchange_frame (secret : Codes) : Leaves World.frame (peekBootstrapExchange dates now secret) := by
  refine Leaves.ite Leaves.pure (Leaves.bind (pruneBootstrapExchange_frame now) fun _ => Leaves.getStore_bind fun store => ?_)
  cases store.bootstrapExchange with
  | none => exact Leaves.pure
  | some exchange => exact Leaves.pure

theorem consumeBootstrapProof_frame (secret : Codes) : Leaves World.frame (consumeBootstrapProof dates now secret) :=
  Leaves.bind (peekBootstrapProof_frame now secret) fun _ => Leaves.ite Leaves.pure
    (Leaves.bind (Leaves.modifyStore fun _ => rfl) fun _ => Leaves.bind (recordHistoryEvent_frame now _ _ _) fun _ => Leaves.pure)

theorem consumeBootstrapExchange_frame (secret : Codes) : Leaves World.frame (consumeBootstrapExchange dates now secret) :=
  Leaves.bind (peekBootstrapExchange_frame now secret) fun _ => Leaves.ite Leaves.pure
    (Leaves.bind (Leaves.modifyStore fun _ => rfl) fun _ => Leaves.bind (recordHistoryEvent_frame now _ _ _) fun _ => Leaves.pure)

end Operations

/-! ## The handover -/

/-- What does not depend on a window. -/
structure Beside {γ : Type} (f : World → γ) : Prop where
  state : ∀ (w : World) (deadline : Option DeadlineState) (loaded invalid : Bool), f { w with store := { w.store with
    browserHandoverDeadline := deadline, browserHandoverDeadlineLoaded := loaded, browserHandoverDeadlineInvalid := invalid } } = f w
  file : ∀ (w : World) (doc : Option Doc), f { w with files.deadline := doc } = f w

section Handover

variable {dates : DateTimes} {digest : Codes → Codes} {γ : Type} {f : World → γ} (now : Int)

theorem Beside.withDeadlineOf (h : Beside f) (doc : Option Doc) (w : World) :
    f (w.updateStore fun store => store.withDeadlineOf dates digest doc) = f w := by
  unfold World.updateStore ApiKeyStore.withDeadlineOf
  dsimp only
  split_ifs with hloaded
  · rfl
  · cases doc with
    | none => exact h.state w _ _ _
    | some doc =>
      dsimp only
      cases readDeadlineState dates digest doc with
      | none => exact h.state w _ _ _
      | some state => exact h.state w _ _ _

theorem loadBrowserHandoverDeadline_beside (h : Beside f) : Leaves f (loadBrowserHandoverDeadline dates digest) :=
  Leaves.read_bind fun w => Leaves.bind (Leaves.modifyStore (h.withDeadlineOf w.files.deadline)) fun _ =>
    Leaves.getStore_bind fun _ => Leaves.pure

theorem writeBrowserHandoverDeadline_beside (h : Beside f) (state : DeadlineState) :
    Leaves f (writeBrowserHandoverDeadline state) :=
  Leaves.guard (Leaves.replace fun w => h.file w _)

theorem finalizeBrowserHandoverClaim_beside (h : Beside f) (version : Codes) :
    Leaves f (finalizeBrowserHandoverClaim digest version) := by
  refine Leaves.rescue (Leaves.bind ?_ fun _ => Leaves.pure) fun error => ?_
  · refine Leaves.getStore_bind fun store => Leaves.ite Leaves.pure ?_
    cases store.browserHandoverDeadline with
    | none => exact Leaves.pure
    | some state =>
      dsimp only
      cases state.active with
      | none => exact Leaves.pure
      | some active =>
        refine Leaves.ite Leaves.pure (Leaves.bind (Leaves.modifyStore fun w => h.state w _ _ _) fun _ => ?_)
        exact writeBrowserHandoverDeadline_beside h _
  · cases error with
    | os => exact Leaves.pure
    | value message => exact Leaves.pure
    | type => exact Leaves.raise
    | key => exact Leaves.raise

theorem browserHandoverState_beside (h : Beside f) (version : Codes) (config : HandoverConfig)
    (activate reopenInitial : Bool) :
    Leaves f (browserHandoverState dates digest now version config activate reopenInitial) := by
  refine Leaves.getStore_bind fun asked => Leaves.bind (loadBrowserHandoverDeadline_beside h) fun state => ?_
  refine Leaves.getStore_bind fun loaded => Leaves.ite ?_ (Leaves.ite ?_ Leaves.pure)
  · refine Leaves.ite (Leaves.bind (finalizeBrowserHandoverClaim_beside h version) fun _ => ?_) ?_
    · exact Leaves.getStore_bind fun _ => Leaves.pure
    · exact Leaves.getStore_bind fun _ => Leaves.pure
  · refine Leaves.bind (Leaves.modifyStore fun w => h.state w _ _ _) fun _ => ?_
    exact Leaves.bind (writeBrowserHandoverDeadline_beside h _) fun _ => Leaves.getStore_bind fun _ => Leaves.pure

end Handover

end SeedSync.Auth
