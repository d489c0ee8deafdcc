import SeedSync.Progressive.Pair
import Mathlib.Data.List.Dedup

/-!
# The progressive scan accumulator

`_ProgressiveScanAccumulator` of `model_updater.py`: the drain prologue, the event loop
around `stepPair`, the fences of moves and deletions, and the views that other code reads.
Trace counters, breadcrumbs and the failure origin are left out.
-/

namespace SeedSync.Progressive

structure ScanAccumulator where
  sessionToken : Option String := none
  pairs : PairId → PairState := fun _ => {}
  incompletePairs : List PairId := []
  sessionHasProgressiveEvidence : Bool := false
  nextMoveInvalidationToken : Nat := 0

def ScanAccumulator.modifyPair (acc : ScanAccumulator) (pair : PairId) (f : PairState → PairState) : ScanAccumulator :=
  { acc with pairs := Function.update acc.pairs pair (f (acc.pairs pair)) }

/-! ## Sessions -/

/-- `set_session_token`: a first token is bound, another one starts over. -/
def setSessionToken (acc : ScanAccumulator) (token : Option String) : ScanAccumulator :=
  match token with
  | none => acc
  | some t =>
    if t = "" ∨ acc.sessionToken = some t then acc
    else if acc.sessionToken = none then { acc with sessionToken := some t }
    else { sessionToken := some t, nextMoveInvalidationToken := acc.nextMoveInvalidationToken }

/-! ## Move and delete fences -/

def beginRootInvalidation (acc : ScanAccumulator) (pair : PairId) (rootName : String) (generation : Int) :
    ScanAccumulator × Option Nat :=
  if rootName = "" then (acc, none)
  else
    let token := acc.nextMoveInvalidationToken + 1
    let entry : Invalidation := { generation, status := .pending, completedAt := none }
    let fenced := acc.modifyPair pair (fun s =>
      { s with
        moveInvalidations := Function.update s.moveInvalidations rootName
          (s.moveInvalidations rootName ++ [(token, entry)]) })
    ({ fenced with nextMoveInvalidationToken := token }, some token)

def finishRootInvalidation (acc : ScanAccumulator) (pair : PairId) (rootName : String) (token : Nat)
    (mutated : Bool) (completedAt : Option Instant) : ScanAccumulator :=
  acc.modifyPair pair (fun s =>
    { s with
      moveInvalidations := Function.update s.moveInvalidations rootName
        (if mutated then
          (s.moveInvalidations rootName).map (fun t =>
            if t.1 = token then (t.1, { t.2 with status := .committed, completedAt }) else t)
        else (s.moveInvalidations rootName).filter (fun t => decide (t.1 ≠ token))) })

/-- The names that a path segment may not be. -/
def validSegments (segments : List String) : Bool :=
  segments.all (fun segment => decide (segment ≠ "" ∧ segment ≠ "." ∧ segment ≠ ".."))

def pruneRoots (rootName : String) (segments : List String) (files : Roots) : Roots :=
  Function.update files rootName
    ((files rootName).bind (fun root => root.pruneConfirmedLocalDeletion segments))

def prunePair (rootName : String) (segments : List String) (s : PairState) : PairState :=
  { s with
    committed := pruneRoots rootName segments s.committed
    working := fun g => pruneRoots rootName segments (s.working g)
    -- An absent root stays an authoritative absence: `prune_root` returns early on `None`.
    authoritative := Function.update s.authoritative rootName
      (match s.authoritative rootName with
      | some (some root) => (root.pruneConfirmedLocalDeletion segments).map some
      | entry => entry)
    committedRootFingerprints := Function.update s.committedRootFingerprints rootName none
    lastTouched := fun name => s.lastTouched name || decide (name = rootName) }

/-- `prune_confirmed_local_deletion`. -/
def pruneConfirmedLocalDeletion (acc : ScanAccumulator) (pair : PairId) (rootName : String)
    (segments : List String) : ScanAccumulator :=
  if rootName = "" ∨ validSegments segments = false then acc
  else acc.modifyPair pair (prunePair rootName segments)

/-- The deletion fence of a root, raised to `generation`. The token is used when there is none yet. -/
def fenceDeletion (token : Nat) (generation : Int) (entries : List (Nat × Invalidation)) :
    List (Nat × Invalidation) × Bool :=
  match entries with
  | [] => ([(token, { generation, status := .confirmedDelete, completedAt := none })], true)
  | t :: rest =>
    if t.2.status = .confirmedDelete then
      ((t.1, { generation := max t.2.generation generation, status := .confirmedDelete,
               completedAt := none }) :: rest, false)
    else
      let fenced := fenceDeletion token generation rest
      (t :: fenced.1, fenced.2)

/-- `confirm_local_deletion`. -/
def confirmLocalDeletion (acc : ScanAccumulator) (pair : PairId) (rootName : String) (segments : List String)
    (generation : Int) (sessionToken : String) : ScanAccumulator × Bool :=
  if rootName = "" ∨ generation < 0 ∨ sessionToken = "" ∨ validSegments segments = false then (acc, false)
  else
    let bound := setSessionToken acc (some sessionToken)
    let fenced := fenceDeletion (bound.nextMoveInvalidationToken + 1) generation
      ((bound.pairs pair).moveInvalidations rootName)
    let raised := bound.modifyPair pair (fun s =>
      { s with moveInvalidations := Function.update s.moveInvalidations rootName fenced.1 })
    let next := if fenced.2 then bound.nextMoveInvalidationToken + 1 else bound.nextMoveInvalidationToken
    (pruneConfirmedLocalDeletion { raised with nextMoveInvalidationToken := next } pair rootName segments, true)

/-! ## The drain -/

/-- `__resolve_failure_path_pair_ids`: anonymous evidence goes to open work, else to open scopes. -/
def resolveFailurePathPairIds (pathPairIds : List PairId) (configured : List String)
    (explicitlyCompleted incomplete : List PairId) : List PairId :=
  if none ∉ pathPairIds ∨ configured = [] then pathPairIds
  else
    let stillIncomplete := incomplete.filter (fun p => decide (p ∉ explicitlyCompleted))
    let stillOpen := (configured.map some).filter (fun p => decide (p ∉ explicitlyCompleted))
    pathPairIds.filter (fun p => decide (p ≠ none)) ++
      (if stillIncomplete = [] then stillOpen else stillIncomplete)

/-- The locals of `__authoritative_completed_pair_ids_after`. -/
structure CompletionWalk where
  generationByPair : PairId → Int
  completed : List PairId := []

def completionStepPair (event : ScannerResult) (w : CompletionWalk) (pair : PairId) : CompletionWalk :=
  if pair = none ∨ event.generation < w.generationByPair pair then w
  else
    let completed := if w.generationByPair pair < event.generation
      then w.completed.filter (fun p => decide (p ≠ pair)) else w.completed
    { generationByPair := Function.update w.generationByPair pair event.generation
      completed :=
        if event.failed then completed.filter (fun p => decide (p ≠ pair))
        else if event.isAuthoritativeCompletion pair then completed.insert pair else completed }

/-- `__authoritative_completed_pair_ids_after`. -/
def authoritativeCompletedPairIdsAfter (acc : ScanAccumulator) (events : List ScannerResult) : List PairId :=
  (events.foldl
    (fun (w : CompletionWalk) event => (event.scannedPathPairIds ++ event.completedPathPairIds).dedup.foldl
      (completionStepPair event) w)
    ({ generationByPair := fun p => (acc.pairs p).previousGeneration } : CompletionWalk)).completed

/-- The values that one `apply` call fixes before its loop. -/
structure DrainScope where
  configured : List String
  explicitlyCompleted : List PairId
  incompleteBeforeDrain : List PairId

/-- `ids`: the pairs that an event is about. -/
def DrainScope.pairIds (scope : DrainScope) (event : ScannerResult) : List PairId :=
  let raw := if event.failed
    then event.scannedPathPairIds ++ event.unknownPathPairIds ++ event.recoverableFailurePathPairIds
    else event.scannedPathPairIds
  let resolved := (resolveFailurePathPairIds raw scope.configured scope.explicitlyCompleted
    scope.incompleteBeforeDrain).dedup
  if resolved = [] then [none] else resolved

end Progressive

open Progressive in
/-- The event as the loop body reads it for one of its pairs. -/
def ScannerResult.forPair (event : ScannerResult) (ids : List PairId) (pair : PairId) : PairEvent where
  generation := event.generation
  failed := event.failed
  fullSnapshot := event.fullSnapshotFor pair
  healthy := event.isAuthoritativeCompletion pair
  files := if 1 < ids.length then event.files.filter (fun f => decide (pairForFile f = pair))
    else event.files
  rootNames := event.rootNamesFor pair
  outcomes := event.outcomesFor pair
  manifest := event.rootNames
  markers := event.markersFor pair
  scanStartedAt := event.scanStartedAt
  healthy_full := by
    simp only [isAuthoritativeCompletion, fullSnapshotFor, Bool.and_eq_true, Bool.not_eq_true']
    tauto

namespace Progressive

/-- The locals that the event loop collects for the result of the drain. -/
structure DrainLocals where
  failed : Bool := false
  fullSnapshotCompleted : List PairId := []
  drainRecoverable : List PairId := []
  drainTerminal : List PairId := []
  errorMessage : Option String := none
  completed : List PairId := []
  touched : List PairId := []

def discard (pair : PairId) (ids : List PairId) : List PairId := ids.filter (fun p => decide (p ≠ pair))

def markerMismatch : String := "Remote unchanged-root fingerprint did not match committed authority"

def DrainScope.recordPair (scope : DrainScope) (event : ScannerResult) (ids : List PairId) (pair : PairId)
    (advanced : Bool) (disposition : Disposition) (d : DrainLocals) : DrainLocals :=
  let opened : DrainLocals :=
    if advanced then
      { d with fullSnapshotCompleted := discard pair d.fullSnapshotCompleted
               completed := discard pair d.completed }
    else d
  let touched := opened.touched.insert pair
  match disposition with
  | .stale => d
  | .failed =>
    let recoverable := (resolveFailurePathPairIds event.recoverableFailurePathPairIds scope.configured
      scope.explicitlyCompleted scope.incompleteBeforeDrain).filter (fun p => decide (p ∈ ids))
    { opened with
      touched := touched
      completed := discard pair opened.completed
      failed := true
      drainRecoverable := opened.drainRecoverable ∪ recoverable
      drainTerminal := opened.drainTerminal ∪ ids.filter (fun p => decide (p ∉ recoverable))
      errorMessage := event.errorMessage }
  | .rejected =>
    { opened with
      touched := touched
      failed := true
      drainTerminal := opened.drainTerminal.insert pair
      errorMessage := some markerMismatch }
  | .progressed =>
    { opened with
      touched := touched
      fullSnapshotCompleted := if event.fullSnapshotFor pair
        then opened.fullSnapshotCompleted.insert pair else opened.fullSnapshotCompleted }
  | .completed =>
    { opened with
      touched := touched
      fullSnapshotCompleted := opened.fullSnapshotCompleted.insert pair
      completed := opened.completed.insert pair }

/-- `__incomplete_pairs` after one event for one pair. -/
def incompleteAfter (pair : PairId) (advanced : Bool) (disposition : Disposition) (ids : List PairId) :
    List PairId :=
  match disposition with
  | .stale => ids
  | .failed | .rejected => ids.insert pair
  | .progressed => if advanced then ids.insert pair else ids
  | .completed => discard pair ids

/-- A failure without any pair identity drops the hints of every pair. -/
def dropsAllHints (scope : DrainScope) (ids : List PairId)
    (disposition : Disposition) : Bool :=
  decide (disposition = .failed) && decide (ids = [none]) && decide (scope.configured = [])

section
variable (sha256 : List StreamRecord → Digest)

/-- One iteration of `for pair_id in ids`, on the stored state. -/
def DrainScope.applyPair (scope : DrainScope) (event : ScannerResult) (ids : List PairId)
    (acc : ScanAccumulator) (pair : PairId) : ScanAccumulator :=
  let e := event.forPair ids pair
  let stepped := stepPair sha256 e (acc.pairs pair)
  let advanced := decide ((acc.pairs pair).previousGeneration < event.generation)
  let pairs := Function.update acc.pairs pair stepped.1
  { acc with
    pairs := if dropsAllHints scope ids stepped.2
      then fun p => { pairs p with committedRootFingerprints := fun _ => none } else pairs
    incompletePairs := incompleteAfter pair advanced stepped.2 acc.incompletePairs }

/-- One event of the loop, on the stored state. -/
def DrainScope.applyEvent (scope : DrainScope) (acc : ScanAccumulator) (event : ScannerResult) : ScanAccumulator :=
  (scope.pairIds event).foldl (scope.applyPair sha256 event (scope.pairIds event)) acc

/-- One event of the loop, with the locals that it collects. -/
def DrainScope.drainEvent (scope : DrainScope) (st : ScanAccumulator × DrainLocals) (event : ScannerResult) :
    ScanAccumulator × DrainLocals :=
  let ids := scope.pairIds event
  ids.foldl (fun st pair =>
    let stepped := stepPair sha256 (event.forPair ids pair) (st.1.pairs pair)
    (scope.applyPair sha256 event ids st.1 pair,
      scope.recordPair event ids pair
        (decide ((st.1.pairs pair).previousGeneration < event.generation)) stepped.2 st.2)) st

/-- The working roots that `snapshot` shows over the committed ones. -/
def PairState.visible (s : PairState) : Roots := fun name =>
  match s.activeGeneration with
  | none => s.committed name
  | some g => if s.failedAt g then s.committed name else (s.working g name).or (s.committed name)

/-- `__apply_drain_failure_truth`. -/
def applyDrainFailureTruth (recoverable terminal : List PairId) (acc : ScanAccumulator) : ScanAccumulator :=
  { acc with
    pairs := fun p =>
      let s := acc.pairs p
      let isTerminal := decide (p ∈ terminal) ||
        (decide (none ∈ terminal) && decide (p ∈ acc.incompletePairs) && decide (p ≠ none) && !s.completed)
      { s with
        recoverableIncomplete := (s.recoverableIncomplete || decide (p ∈ recoverable)) && !isTerminal &&
          decide (p ∈ acc.incompletePairs) } }

/-- The aggregate that `apply` returns. `files` is the dict of visible roots. -/
structure DrainResult where
  files : PairId → Roots
  malformedStatusOnlyFileIds : List String
  managedExtractFileIds : List String
  completedPathPairIds : List PairId
  failed : Bool
  recoverableFailurePathPairIds : List PairId
  terminalFailurePathPairIds : List PairId
  errorMessage : Option String
  generation : Int
  sessionToken : Option String
  isProgress : Bool
  unknownPathPairIds : List PairId
  isScanFinal : Bool
  isFullSnapshot : Bool
  fullSnapshotPathPairIds : List PairId
  isTargetedScan : Bool
  scanAuthorityTokensByPair : List (PairId × String × Int)

def drainResult (scope : DrainScope) (accepted : List ScannerResult) (newestGeneration : Int)
    (hadProgress : Bool) (acc : ScanAccumulator) (d : DrainLocals) : DrainResult :=
  let incomplete := if scope.configured = [] then acc.incompletePairs else discard none acc.incompletePairs
  let recoverable := incomplete.filter (fun p => (acc.pairs p).recoverableIncomplete)
  let full := d.completed.filter (fun p => decide (p ∈ d.fullSnapshotCompleted))
  let isFinal := decide (d.completed ≠ []) && decide (incomplete = []) && !d.failed
  let isFull := isFinal && d.completed.all (fun p => decide (p ∈ full))
  { files := fun p => (acc.pairs p).visible
    malformedStatusOnlyFileIds := (accepted.flatMap (·.malformedStatusOnlyFileIds)).dedup.mergeSort
    managedExtractFileIds := (accepted.flatMap (·.managedExtractFileIds)).dedup.mergeSort
    completedPathPairIds := d.completed
    failed := d.failed && decide (d.completed = [])
    recoverableFailurePathPairIds := recoverable
    terminalFailurePathPairIds := incomplete.filter (fun p =>
      (acc.pairs p).activeGeneration.any (acc.pairs p).failedAt && !(acc.pairs p).recoverableIncomplete)
    errorMessage := d.errorMessage
    generation := newestGeneration
    sessionToken := acc.sessionToken
    isProgress := hadProgress
    unknownPathPairIds := incomplete
    isScanFinal := isFinal
    isFullSnapshot := isFull
    fullSnapshotPathPairIds := if isFull then full else []
    isTargetedScan := accepted.any (·.isTargetedScan)
    scanAuthorityTokensByPair := d.completed.filterMap (fun p =>
      match acc.sessionToken, (acc.pairs p).activeGeneration with
      | some token, some g => some (p, token, g)
      | _, _ => none) }

/-- The first session token that a drain brings. -/
def firstToken (events : List ScannerResult) : Option String := events.findSome? (·.sessionToken)

/-- The state that a drain starts from, with the per-drain marks cleared and the session bound. -/
def openDrain (acc : ScanAccumulator) (events : List ScannerResult) : ScanAccumulator :=
  let cleared : ScanAccumulator :=
    { acc with
      pairs := fun p => { acc.pairs p with lastTouched := fun _ => false, lastFinalComparisonProven := false } }
  if acc.sessionToken = none then setSessionToken cleared (firstToken events) else cleared

/-- The events of the bound session, as the loop reads them. -/
def acceptedEvents (sessionToken : Option String) (events : List ScannerResult) : List ScannerResult :=
  (events.filter (fun event => decide (sessionToken = none ∨ event.sessionToken = sessionToken))).filterMap
    ScannerResult.admitted

def drainScope (acc : ScanAccumulator) (accepted : List ScannerResult) (configured : List String) : DrainScope where
  configured := configured
  explicitlyCompleted := authoritativeCompletedPairIdsAfter acc accepted
  incompleteBeforeDrain := acc.incompletePairs.filter (fun p => decide (p ≠ none))

/-- `apply`: one drain of the scanner queue. -/
def apply (acc : ScanAccumulator) (events : List ScannerResult) (configured : List String) :
    ScanAccumulator × Option DrainResult :=
  let opened := openDrain acc events
  let accepted := acceptedEvents opened.sessionToken events
  if accepted = [] then (opened, none)
  else
    let scope := drainScope opened accepted configured
    let start : ScanAccumulator :=
      { opened with
        sessionHasProgressiveEvidence := opened.sessionHasProgressiveEvidence ||
          accepted.any (fun event => !event.failed && !event.files.isEmpty) }
    let drained := accepted.foldl (scope.drainEvent sha256) (start, {})
    let d := drained.2
    if d.touched = [] ∧ d.failed = false ∧ d.completed = [] then (drained.1, none)
    else
      let final := applyDrainFailureTruth d.drainRecoverable d.drainTerminal drained.1
      let own := events.filter (fun event =>
        decide (opened.sessionToken = none ∨ event.sessionToken = opened.sessionToken))
      (final, some (drainResult scope accepted ((own.map (·.generation)).foldl max
        ((own.map (·.generation)).headD 0)) (own.any (·.isProgress)) final d))

end

/-! ## Views -/

/-- `snapshot`. -/
def snapshot (acc : ScanAccumulator) (pair : PairId) : Roots := (acc.pairs pair).visible

/-- `authority`. -/
def authority (acc : ScanAccumulator) (pair : PairId) : String → Option (Option SystemFile) :=
  (acc.pairs pair).authoritative

/-- `current_root_scan_sources`, by pair and root name. -/
def currentRootScanSources (acc : ScanAccumulator) (pair : PairId) (name : String) :
    Option (SystemFile × String × Int) :=
  let s := acc.pairs pair
  match acc.sessionToken, s.rootScanOutcomes with
  | some token, some (generation, outcomes) =>
    if s.activeGeneration = some generation ∧
        (s.moveInvalidations name).all (fun t => decide (t.2.status ≠ .confirmedDelete)) = true ∧
        (outcomes name).any (fun o => decide (o.1 = (true, true))) = true then
      match s.authoritative name with
      | some (some root) => some (root, token, generation)
      | _ => none
    else none
  | _, _ => none

/-- `accepted_root_fingerprints`: the hints sent with the next scan. -/
def acceptedRootFingerprints (acc : ScanAccumulator) (pair : PairId) (name : String) : Option Digest :=
  if (acc.pairs pair).isCommitted then (acc.pairs pair).committedRootFingerprints name else none

end SeedSync.Progressive
