import SeedSync.Scan.Fingerprint
import Mathlib.Logic.Function.Basic

/-!
# One event, one path pair

The body of the inner loop of `_ProgressiveScanAccumulator.apply`. The accumulator keeps
one dict per fact, each keyed by the pair; `PairState` is what those dicts hold for one
pair. A dict is a function to `Option`, so a missing entry and an empty inner dict are the
same here, as they are for every reader in the source.
-/

namespace SeedSync.Progressive

/-- A dict from root names to trees. -/
abbrev Roots := String → Option SystemFile

inductive InvalidationStatus where
  | pending
  | committed
  | confirmedDelete
  deriving DecidableEq, Repr

/-- One entry of `__move_invalidations_by_root`. -/
structure Invalidation where
  generation : Int
  status : InvalidationStatus
  completedAt : Option Instant
  deriving DecidableEq, Repr

/-- What the accumulator stores for one pair. -/
structure PairState where
  committed : Roots := fun _ => none
  /-- The pair is in `__committed_pairs`. -/
  isCommitted : Bool := false
  committedRootFingerprints : String → Option Digest := fun _ => none
  working : Int → Roots := fun _ _ => none
  manifests : Int → Option (String → Bool) := fun _ => none
  activeGeneration : Option Int := none
  /-- `(generation, pair)` is in `__failed_pairs`. -/
  failedAt : Int → Bool := fun _ => false
  /-- `some none` is an authoritative absence. -/
  authoritative : String → Option (Option SystemFile) := fun _ => none
  rootScanOutcomes : Option (Int × (String → Option (RoleOutcomes × Option Instant))) := none
  recoverableIncomplete : Bool := false
  completed : Bool := false
  /-- The invalidations of a root with their tokens; no entry is the empty list. -/
  moveInvalidations : String → List (Nat × Invalidation) := fun _ => []
  lastTouched : String → Bool := fun _ => false
  lastFinalComparisonProven : Bool := false

/-- What the loop reads of an event for one pair. -/
structure PairEvent where
  generation : Int
  failed : Bool
  fullSnapshot : Bool
  /-- `healthy_post_move_snapshot`: the event is an authoritative completion for the pair. -/
  healthy : Bool
  /-- The files that the root loop takes for the pair. -/
  files : List SystemFile
  rootNames : List String
  outcomes : List (String × RoleOutcomes)
  manifest : Option (List String)
  markers : List (String × Digest)
  scanStartedAt : Option Instant
  healthy_full : healthy = true → fullSnapshot = true ∧ failed = false

/-- What became of an event for one pair. -/
inductive Disposition where
  | stale
  | failed
  /-- An unchanged marker did not match, so the snapshot was not used. -/
  | rejected
  | progressed
  | completed
  deriving DecidableEq, Repr

namespace PairState

/-- `self.__active_generation.get(pair_id, -1)`. -/
def previousGeneration (s : PairState) : Int := s.activeGeneration.getD (-1)

def setWorking (s : PairState) (generation : Int) (name : String) (file : SystemFile) : PairState :=
  { s with
    working := Function.update s.working generation
      (Function.update (s.working generation) name (some file)) }

def setAuthority (s : PairState) (name : String) (entry : Option (Option SystemFile)) : PairState :=
  { s with authoritative := Function.update s.authoritative name entry }

end PairState

/-! ## Fences -/

/-- The event carries the root with both halves scanned completely. -/
def PairEvent.hasCurrentRoot (e : PairEvent) (name : String) : Bool :=
  decide (e.outcomes.lookup name = some (true, true)) && decide (name ∈ e.rootNames)

/-- A confirmed deletion that the event supersedes. -/
def releasesDeletion (e : PairEvent) (previous : Int) (name : String) (inv : Invalidation) : Bool :=
  decide (inv.status = .confirmedDelete) && decide (inv.generation < e.generation) &&
    decide (previous ≤ e.generation) && (e.hasCurrentRoot name || e.healthy)

/-- A committed move that one complete root, scanned after it, supersedes. -/
def releasesMove (e : PairEvent) (previous : Int) (name : String) (inv : Invalidation) : Bool :=
  !e.healthy && !e.failed && decide (previous ≤ e.generation) && e.hasCurrentRoot name &&
    decide (inv.status = .committed) && decide (inv.generation < e.generation) &&
    decide (datetimeStrictlyAfter e.scanStartedAt inv.completedAt = some true)

def releaseFences (e : PairEvent) (s : PairState) : PairState :=
  { s with
    moveInvalidations := fun name =>
      ((s.moveInvalidations name).filter (fun t => !releasesDeletion e s.previousGeneration name t.2)).filter
        (fun t => !releasesMove e s.previousGeneration name t.2) }

def protects (e : PairEvent) (inv : Invalidation) : Bool :=
  decide (inv.status = .confirmedDelete) || decide (inv.status = .pending) ||
    decide (e.generation ≤ inv.generation) || !e.healthy

/-- `protected_root_names`. -/
def protectedRoot (e : PairEvent) (s : PairState) (name : String) : Bool :=
  (s.moveInvalidations name).any (fun t => protects e t.2)

/-! ## The phases of an accepted event -/

/-- A higher generation starts over from the committed inventory. -/
def advanceGeneration (generation : Int) (isProtected : String → Bool) (s : PairState) : PairState :=
  { s with
    activeGeneration := some generation
    completed := false
    working := fun g => if g < generation then fun _ => none
      else if g = generation then s.committed else s.working g
    manifests := fun g => if g ≤ generation then none else s.manifests g
    failedAt := fun g => if g ≤ generation then false else s.failedAt g
    authoritative := fun name =>
      if isProtected name then (s.committed name).map some else none
    rootScanOutcomes := none }

/-- The outcomes recorded so far in this generation. -/
def PairState.outcomesAt (s : PairState) (generation : Int) (name : String) :
    Option (RoleOutcomes × Option Instant) :=
  match s.rootScanOutcomes with
  | some (g, outcomes) => if g = generation then outcomes name else none
  | none => none

/-- Outcomes count only for roots that the same event carries. -/
def admitOutcomes (e : PairEvent) (s : PairState) : PairState :=
  if e.outcomes = [] then s
  else
    let admitted := e.outcomes.filter (fun o => decide (o.1 ∈ e.rootNames))
    { s with
      rootScanOutcomes := some (e.generation, admitted.foldl
        (fun outcomes o => Function.update outcomes o.1 (some (o.2, e.scanStartedAt)))
        (s.outcomesAt e.generation))
      lastTouched := fun name => s.lastTouched name || admitted.any (fun o => decide (o.1 = name)) }

/-- The failed branch: keep the committed tree, drop the derived hints. -/
def failGeneration (e : PairEvent) (isProtected : String → Bool) (s : PairState) : PairState :=
  { s with
    committedRootFingerprints := fun _ => none
    failedAt := Function.update s.failedAt e.generation true
    completed := false
    authoritative := fun name =>
      let complete := (s.outcomesAt e.generation name).any (fun o => decide (o.1 = (true, true)))
      match s.working e.generation name with
      | some file => if complete then some (some file)
          else if isProtected name then (s.committed name).map some else none
      | none => if isProtected name then (s.committed name).map some else none }

/-- A full snapshot rebuilds the working map; protected roots keep their committed tree. -/
def rebuildWorking (e : PairEvent) (isProtected : String → Bool) (s : PairState) : PairState :=
  if e.fullSnapshot then
    { s with
      working := Function.update s.working e.generation
        (fun name => if isProtected name then s.committed name else none)
      authoritative := fun name =>
        if isProtected name && (s.committed name).isSome then (s.committed name).map some
        else s.authoritative name }
  else s

/-- A manifest proves presence; only one of a full snapshot proves absence. -/
def admitManifest (e : PairEvent) (isProtected : String → Bool) (s : PairState) : PairState :=
  match e.manifest with
  | none => s
  | some names =>
    { s with
      manifests := Function.update s.manifests e.generation (some (fun name => decide (name ∈ names)))
      authoritative := fun name =>
        if e.fullSnapshot && (s.committed name).isSome && !isProtected name then
          if name ∈ names then none else some none
        else s.authoritative name }

/-- The locals of the loop over the unchanged markers. -/
structure MarkerWalk where
  state : PairState
  retained : String → Option Digest := fun _ => none
  invalidMarker : Bool := false

def admitMarker (generation : Int) (w : MarkerWalk) (marker : String × Digest) : MarkerWalk :=
  match w.state.committed marker.1 with
  | none => { w with invalidMarker := true }
  | some root =>
    if w.state.committedRootFingerprints marker.1 = some marker.2 then
      { w with
        state := (w.state.setWorking generation marker.1 root).setAuthority marker.1 (some (some root))
        retained := Function.update w.retained marker.1 (some marker.2) }
    else { w with invalidMarker := true }

def admitMarkers (e : PairEvent) (s : PairState) : MarkerWalk :=
  if e.fullSnapshot then e.markers.foldl (admitMarker e.generation) { state := s } else { state := s }

/-- A marker without matching authority drops the hints of the pair and nothing else. -/
def rejectMarkers (e : PairEvent) (s : PairState) : PairState :=
  { s with
    committedRootFingerprints := fun _ => none
    failedAt := Function.update s.failedAt e.generation true }

/-- Outcomes of an earlier event lose their start when the root comes again without one. -/
def forgetStart (e : PairEvent) (name : String) (s : PairState) : PairState :=
  match s.rootScanOutcomes with
  | some (g, outcomes) =>
    match outcomes name with
    | some (roles, _) =>
      if g = e.generation ∧ e.outcomes.lookup name = none then
        { s with rootScanOutcomes := some (g, Function.update outcomes name (some (roles, none))) }
      else s
    | none => s
  | none => s

/-- One root of the event. -/
def admitRoot (e : PairEvent) (isProtected : String → Bool) (s : PairState) (file : SystemFile) : PairState :=
  if isProtected file.name then s
  else
    let previousFile := if e.fullSnapshot then s.committed file.name else s.working e.generation file.name
    let incomplete := (s.outcomesAt e.generation file.name).any (fun o => decide (o.1 ≠ (true, true)))
    let recorded := (forgetStart e file.name (s.setWorking e.generation file.name file)).setAuthority
      file.name (if incomplete then none else some (some file))
    { recorded with
      lastTouched := fun name =>
        recorded.lastTouched name || (decide (name = file.name) && decide (previousFile ≠ some file)) }

/-- `self.__manifests[generation][pair_id] = set(working)`. -/
def sealManifest (e : PairEvent) (s : PairState) : PairState :=
  if e.fullSnapshot then
    { s with
      manifests := Function.update s.manifests e.generation
        (some (fun name => (s.working e.generation name).isSome)) }
  else s

section
variable (sha256 : List StreamRecord → Digest)

/-- The commit of an authoritative completion. -/
def commitSnapshot (e : PairEvent) (retained : String → Option Digest) (s : PairState) : PairState :=
  let listed (name : String) : Bool := (s.manifests e.generation).all (fun names => names name)
  let kept : Roots := fun name => if listed name then s.working e.generation name else none
  let named (name : String) : Bool := (s.manifests e.generation).any (fun names => names name)
  let merged : Roots := fun name => (kept name).or (s.committed name)
  let committed : Roots := fun name => if (kept name).isSome then merged name else none
  { s with
    working := Function.update s.working e.generation kept
    committed := committed
    authoritative := fun name =>
      if (merged name).isSome && (kept name).isNone then none
      else if named name && (s.authoritative name).isNone then some none
      else s.authoritative name
    -- `previous_committed` is the committed dict itself, which now holds the new roots.
    committedRootFingerprints := fun name =>
      match kept name with
      | none => none
      | some file =>
        match retained name with
        | some digest => if committed name = some file then some digest
            else some (streamRootFingerprint sha256 file)
        | none => some (streamRootFingerprint sha256 file)
    lastTouched := fun name => s.lastTouched name || decide (s.committed name ≠ kept name)
    lastFinalComparisonProven := s.lastFinalComparisonProven || s.isCommitted
    isCommitted := true
    completed := true
    recoverableIncomplete := false
    moveInvalidations := fun name => (s.moveInvalidations name).filter
      (fun t => !(decide (t.2.status = .committed) && decide (t.2.generation < e.generation))) }

/-- The rest of an accepted event that did not fail. -/
def admitSnapshot (e : PairEvent) (isProtected : String → Bool) (s : PairState) : PairState × Disposition :=
  let walk := admitMarkers e (admitManifest e isProtected (rebuildWorking e isProtected s))
  if walk.invalidMarker then (rejectMarkers e walk.state, .rejected)
  else
    let s := sealManifest e (e.files.foldl (admitRoot e isProtected) walk.state)
    if e.healthy then (commitSnapshot sha256 e walk.retained s, .completed) else (s, .progressed)

/-- The generation and the outcomes of an event that is not stale. -/
def acceptGeneration (e : PairEvent) (s : PairState) : PairState :=
  let released := releaseFences e s
  admitOutcomes e (if s.previousGeneration < e.generation
    then advanceGeneration e.generation (protectedRoot e released) released else released)

/-- One event for one pair: the body of `for pair_id in ids`. -/
def stepPair (e : PairEvent) (s : PairState) : PairState × Disposition :=
  let released := releaseFences e s
  if e.generation < s.previousGeneration then (released, .stale)
  else
    let isProtected := protectedRoot e released
    let accepted := acceptGeneration e s
    if e.failed then (failGeneration e isProtected accepted, .failed)
    else admitSnapshot sha256 e isProtected accepted

end

end SeedSync.Progressive
