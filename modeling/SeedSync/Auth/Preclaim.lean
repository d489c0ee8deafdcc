import SeedSync.Auth.Store

/-!
# The state before the first claim

`validate_completed_migration_preclaim_auth_state` and the closed grammar of the history that it
accepts. The directory of the store holds no other file whose name starts with `api-keys`: backups
go to a directory of their own.
-/

namespace SeedSync.Auth

open Lib

/-! ## The grammar -/

inductive HistoryKind where
  | proof
  | expiredProof
  | loaded
  | savedWithProof
  | savedWithoutProof
  deriving DecidableEq, Repr

def HistoryKind.event : HistoryKind → String
  | .proof => "bootstrap_proof_created"
  | .expiredProof => "bootstrap_proof_cleared"
  | .loaded => "store_loaded"
  | .savedWithProof | .savedWithoutProof => "store_saved"

def HistoryKind.reason : HistoryKind → String
  | .proof => "first_run_bootstrap_window_opened"
  | .expiredProof => "expired"
  | .loaded => "loaded_existing_store"
  | .savedWithProof | .savedWithoutProof => "persisted"

/-- `details == expected_details` of a snapshot: `0` and `False` are equal. -/
def isEmptySnapshot (details : List (Codes × Json)) (proofPresent : Bool) : Bool :=
  hasKeys details ["api_key_count", "active_api_key_count", "ui_session_count", "remembered_ui_session_count",
    "browser_handover_claimed_version", "bootstrap_proof_present", "bootstrap_exchange_present"] &&
  (field details "api_key_count").equalsNat 0 && (field details "active_api_key_count").equalsNat 0 &&
  (field details "ui_session_count").equalsNat 0 && (field details "remembered_ui_session_count").equalsNat 0 &&
  isStr [] (field details "browser_handover_claimed_version") &&
  (field details "bootstrap_proof_present").equalsNat proofPresent.toNat &&
  (field details "bootstrap_exchange_present").equalsNat 0

section

variable (dates : DateTimes)

/-- The details an entry of the kind must have. -/
def HistoryKind.detailsOk (kind : HistoryKind) (details : Json) : Bool :=
  match kind, details with
  | .proof, .obj fields => hasKeys fields ["expires_at"] && validCompletedMigrationTimestamp dates (field fields "expires_at")
  | .loaded, .obj fields => isEmptySnapshot fields false
  | .savedWithProof, .obj fields => isEmptySnapshot fields true
  | .savedWithoutProof, .obj fields => isEmptySnapshot fields false
  | _, _ => false

/-- `_completed_migration_history_entry` -/
def completedMigrationHistoryEntry (payload : Json) (kind : HistoryKind) : Bool :=
  match payload with
  | .obj fields =>
    let plain := kind = .expiredProof
    hasKeys fields (["timestamp", "event", "reason", "store_file"] ++ if plain then [] else ["details"]) &&
      isStr (codes kind.event) (field fields "event") && isStr (codes kind.reason) (field fields "reason") &&
      isStr storeName (field fields "store_file") && validCompletedMigrationTimestamp dates (field fields "timestamp") &&
      (plain || kind.detailsOk dates (field fields "details"))
  | _ => false

/-- The locals of the loop in `_completed_migration_history_is_safe`. -/
structure Grammar where
  proofPresent : Bool := false
  proofIssued : Bool := false
  storeSaved : Bool := false
  deriving DecidableEq, Repr

/-- One turn of the loop. -/
def Grammar.read (g : Grammar) (entry : Json) : Option Grammar :=
  if completedMigrationHistoryEntry dates entry .proof then some { g with proofPresent := true, proofIssued := true }
  else if completedMigrationHistoryEntry dates entry .expiredProof then
    if g.proofPresent then some { g with proofPresent := false } else none
  else if completedMigrationHistoryEntry dates entry .loaded then
    if g.storeSaved then some { g with proofPresent := false } else none
  else if completedMigrationHistoryEntry dates entry .savedWithProof then
    if g.proofPresent then some { g with storeSaved := true } else none
  else if completedMigrationHistoryEntry dates entry .savedWithoutProof then
    if g.proofPresent || !g.proofIssued then none else some { g with storeSaved := true }
  else none

/-- The entries of a text whose last line ends; `none` where a line is no strict JSON. -/
def History.entries (history : History) : Option (List Json) :=
  if history.torn || history.lines.isEmpty then none
  else history.lines.mapM fun line => line.filter strict

/-- `_completed_migration_history_is_safe` -/
def completedMigrationHistoryIsSafe (history : History) (storePresent : Bool) : Bool :=
  match history.entries with
  | none => false
  | some entries =>
    if !storePresent then
      match entries with
      | [entry] => completedMigrationHistoryEntry dates entry .proof
      | _ => false
    else (entries.foldlM (Grammar.read dates) {}).any Grammar.storeSaved

def isEmptyList : Json → Bool
  | .list [] => true
  | _ => false

/-- `_completed_migration_empty_store` -/
def completedMigrationEmptyStore (doc : Doc) : Bool :=
  strict doc.value &&
  match doc.value with
  | .obj fields =>
    hasKeys fields ["version", "api_keys", "ui_sessions", "browser_handover_claimed_version"] &&
      (field fields "version").equalsNat 3 && isEmptyList (field fields "api_keys") &&
      isEmptyList (field fields "ui_sessions") && isStr [] (field fields "browser_handover_claimed_version")
  | _ => false

/-- The limits of `_read_completed_migration_auth_file` on the two files. -/
def withinLimits (files : Files) : Bool :=
  files.store.all (fun doc => doc.bytes ≤ completedMigrationAuthMaxBytes) &&
    files.history.all fun history => history.bytes ≤ completedMigrationHistoryMaxBytes

/-- `validate_completed_migration_preclaim_auth_state`: whether it returns. -/
def validatePreclaimAuthState (files : Files) : Bool :=
  withinLimits files &&
  match files.store, files.history with
  | none, none => true
  | _, none => false
  | store, some history =>
    completedMigrationHistoryIsSafe dates history store.isSome && store.all completedMigrationEmptyStore

end

/-! ## Runs without a claim -/

/-- What an unclaimed process does; `stored` tells whether a save can write the file. -/
inductive PreclaimStep where
  | start (now : Int) (backupPath : Codes)
  | ensure (now : Int) (secret : Codes)
  | save (now : Int) (stored : Bool)
  deriving DecidableEq, Repr

/-- The program of a step, and how writes of the store end in it. Appends to the history succeed. -/
def PreclaimStep.run (dates : DateTimes) (step : PreclaimStep) (w : World) : World :=
  let write : List Outcome := match step with
    | .save _ false => [.fails]
    | _ => []
  let program : M Unit := match step with
    | .start now backupPath => load dates now backupPath
    | .ensure now secret => discard (ensureBootstrapProof dates now secret)
    | .save now _ => Auth.save dates now
  (program.run.run ⟨w, fun target => if target = .store then write else []⟩).2.world

def runPreclaim (dates : DateTimes) (w : World) (steps : List PreclaimStep) : World :=
  steps.foldl (fun w step => step.run dates w) w

/-- Where a process stands: none runs, it is loaded, or its first `ensure_bootstrap_proof` is done. -/
inductive Phase where
  | ended
  | loaded
  | running
  deriving DecidableEq, Repr

/-- A process starts with a load and an `ensure_bootstrap_proof`. -/
def Lifetimes : Phase → List PreclaimStep → Prop
  | _, [] => True
  | _, .start _ _ :: steps => Lifetimes .loaded steps
  | phase, .ensure _ _ :: steps => phase ≠ .ended ∧ Lifetimes .running steps
  | phase, .save _ _ :: steps => phase = .running ∧ Lifetimes .running steps

/-- What has happened before there is a store: nothing, one proof is open until a time, or the process
that opened it is gone. -/
inductive Opening where
  | fresh
  | opened (until_ : Int)
  | gone

/-- Until a store is saved, only one proof is opened and it does not expire. -/
def OneProof : Opening → List PreclaimStep → Prop
  | _, [] => True
  | .fresh, .start _ _ :: steps => OneProof .fresh steps
  | .fresh, .ensure now _ :: steps => OneProof (.opened ((now + bootstrapProofTtl) / 1000000 * 1000000)) steps
  | .fresh, .save _ _ :: _ => True
  | .opened _, .start _ _ :: steps => OneProof .gone steps
  | .opened until_, .ensure now _ :: steps => now < until_ ∧ OneProof (.opened until_) steps
  | .opened _, .save _ true :: _ => True
  | .opened until_, .save now false :: steps => now < until_ ∧ OneProof (.opened until_) steps
  | .gone, .start _ _ :: steps => OneProof .gone steps
  | .gone, .ensure _ _ :: _ => False
  | .gone, .save _ _ :: _ => True

end SeedSync.Auth
