import SeedSync.Builder.Sources

/-!
# The stores of transfer snapshots

The builder keeps the last counters of a job per node, in one store for jobs it saw running and
one for jobs that were stopped, and finds them again by id, by alias or by job.
-/

namespace SeedSync.Builder

open SystemFile Lib

/-! ## State -/

/-- `_RecentLiveTransferSnapshot` -/
structure Snapshot where
  /-- The identity of the object: the two stores may hold the same one. -/
  object : Nat
  rootFileId : FileId
  sizeLocal : Option Int := none
  percentLocal : Option Int := none
  speed : Option Int := none
  eta : Option Int := none
  lftpJobId : Option Int := none
  lftpJobType : Option JobType := none
  subsetSizeLocal : Option Int := none
  subsetSizeRemote : Option Int := none
  updatedAtNs : Int := 0
  /-- Ghost: the id that the snapshot was recorded under. -/
  recordedFor : FileId
  deriving DecidableEq, Repr

/-- Assign `root_file_id` where the snapshot is the object. -/
def Snapshot.assignRoot (object : Nat) (root : FileId) (s : Snapshot) : Snapshot :=
  if s.object = object then { s with rootFileId := root } else s

abbrev SnapshotStore := Dict FileId Snapshot

inductive StoreName where
  | recent | retained
  deriving DecidableEq, Repr

inductive LookupKind where
  /-- `__resolve_transfer_snapshot` and the promotion after it -/
  | alias
  /-- `__resolve_recent_live_transfer_snapshot_for_job` -/
  | forJob
  /-- a plain `get` -/
  | exact
  deriving DecidableEq, Repr

/-- One question to a store, the two stores as they stood then, and the key and snapshot that
answered it. -/
structure Lookup where
  kind : LookupKind
  which : StoreName
  recent : SnapshotStore
  retained : SnapshotStore
  node : FileId
  root : Option FileId
  answer : Option (FileId × Snapshot)
  deriving DecidableEq

/-- Bytes, percent, source size, source mtime in seconds, subset total. -/
structure DisplayFloor where
  bytes : Int
  percent : Int
  sourceSize : Int
  sourceMtime : Int
  subsetTotal : Int
  deriving DecidableEq, Repr

/-- What a build reads and writes: the two stores and the display floors. -/
structure Transfers where
  recent : SnapshotStore := {}
  retained : SnapshotStore := {}
  persistedDisplayProgressFloors : Dict FileId DisplayFloor := {}
  /-- How many snapshots were made, and so how often the clock was read. -/
  made : Nat := 0
  /-- Ghost: the lookups so far, the newest first. -/
  lookups : List Lookup := []
  deriving DecidableEq

namespace Transfers

def store (t : Transfers) : StoreName → SnapshotStore
  | .recent => t.recent
  | .retained => t.retained

def setStore (t : Transfers) : StoreName → SnapshotStore → Transfers
  | .recent, s => { t with recent := s }
  | .retained, s => { t with retained := s }

/-- Assign `root_file_id` of an object, wherever it is held. -/
def assignRoot (t : Transfers) (object : Nat) (root : FileId) : Transfers :=
  { t with
    recent := t.recent.mapValues (Snapshot.assignRoot object root)
    retained := t.retained.mapValues (Snapshot.assignRoot object root) }

end Transfers

/-- What Python leaves open: the readings of the clock and the order in which a set is walked. -/
structure Runtime where
  monotonicNs : Nat → Int
  ids : List FileId → List FileId
  ids_perm : ∀ l, (ids l).Perm l
  names : List String → List String
  names_perm : ∀ l, (names l).Perm l

/-- A clock that counts its readings, and sets walked as they were filled. -/
def Runtime.insertionOrder : Runtime := ⟨fun n => n, id, fun _ => .refl _, id, fun _ => .refl _⟩

abbrev Build := ExceptT BuildError (StateM Transfers)

/-! ## Lookup by id and by alias -/

/-- `__get_transfer_snapshot_alias_keys` -/
def getTransferSnapshotAliasKeys (store : SnapshotStore) (root : Option FileId) (excluded : List FileId) :
    List FileId :=
  match root with
  | none => []
  | some root =>
    root.rootAliases.filter (fun a => decide (a ∉ excluded) && store.contains a) ++
      (store.items.filter (fun item =>
        decide (item.1 ∉ excluded ∧ item.1 ∉ root.rootAliases ∧ item.2.rootFileId ∈ root.rootAliases))).map Prod.fst

/-- `__resolve_transfer_snapshot` -/
def resolveTransferSnapshot (store : SnapshotStore) (fileId : FileId) (root : Option FileId) :
    Option (FileId × Snapshot) :=
  match store.get fileId with
  | some snapshot => some (fileId, snapshot)
  | none =>
    match getTransferSnapshotAliasKeys store root [fileId] with
    | [key] => (store.get key).map fun snapshot => (key, snapshot)
    | _ => none

/-- Record a lookup. -/
def Transfers.note (t : Transfers) (kind : LookupKind) (which : StoreName) (node : FileId) (root : Option FileId)
    (answer : Option (FileId × Snapshot)) : Transfers :=
  { t with lookups := ⟨kind, which, t.recent, t.retained, node, root, answer⟩ :: t.lookups }

/-- `__promote_transfer_snapshot` -/
def promoteTransferSnapshot (which : StoreName) (resolved : FileId × Snapshot) (canonical : FileId)
    (root : Option FileId) : Build Snapshot := do
  match root with
  | some root => modify fun t => t.assignRoot resolved.2.object root
  | none => pure ()
  let promoted := { resolved.2 with rootFileId := root.getD resolved.2.rootFileId }
  if resolved.1 ≠ canonical then
    modify fun t => t.setStore which (((t.store which).pop resolved.1).set canonical promoted)
  return promoted

/-- The common body of the two ordinary resolvers. The key they return is always `file_id`. -/
def resolveAndPromote (which : StoreName) (fileId : FileId) (root : Option FileId) : Build (Option Snapshot) := do
  let store := (← get).store which
  let resolved := resolveTransferSnapshot store fileId root
  modify (·.note .alias which fileId root resolved)
  match resolved with
  | none => return none
  | some resolved => return some (← promoteTransferSnapshot which resolved fileId root)

/-- `__resolve_retained_stopped_transfer_snapshot` -/
def resolveRetainedStoppedTransferSnapshot := resolveAndPromote .retained

/-- `__resolve_recent_live_transfer_snapshot` -/
def resolveRecentLiveTransferSnapshot := resolveAndPromote .recent

/-- `snapshots.get(file_id)`. -/
def getSnapshot (which : StoreName) (fileId : FileId) : Build (Option Snapshot) := do
  let store := (← get).store which
  let found := store.get fileId
  modify (·.note .exact which fileId none (found.map fun snapshot => (fileId, snapshot)))
  return found

/-! ## Lookup by job -/

/-- `is_nested_root_candidate` -/
def isNestedRootCandidate (fileId root key : FileId) : Bool :=
  decide (fileId.path = root.path) && nestedPath key.path root.path

/-- `is_scoped_candidate` -/
def isScopedCandidate (fileId root key : FileId) (snapshot : Snapshot) : Bool :=
  let requested := fileId.pathPairId.or root.pathPairId
  if isNestedRootCandidate fileId root key then false
  else if key ≠ fileId ∧ snapshot.rootFileId ∉ root.rootAliases ++ fileId.rootAliases then false
  else if key = fileId then
    requested.isNone || snapshot.rootFileId.pathPairId.isNone || snapshot.rootFileId.pathPairId == requested
  else if requested.isNone then snapshot.rootFileId.pathPairId.isNone && key.pathPairId.isNone
  else snapshot.rootFileId.pathPairId == requested || key.pathPairId == requested

/-- `is_revoked` -/
def isRevoked (b : Sources) (fileId root : FileId) (jobId : Int) (jobType : JobType) (snapshot : Snapshot) : Bool :=
  [fileId, root, snapshot.rootFileId].any fun id =>
    b.isLifecycleRevokedStatusIdentity id (some jobId) (some jobType)

/-- The greatest value of a list. -/
def greatest (values : List Int) : Option Int :=
  match values with
  | [] => none
  | v :: vs => some (vs.foldl max v)

/-- `progress_key` -/
def progressKey (snapshot : Snapshot) : Int × Int :=
  (snapshot.sizeLocal.getD (-1), snapshot.percentLocal.getD (-1))

/-- No candidate stands above this one in the order of `progress_key`. -/
def isBestProgress (candidates : List (FileId × Snapshot)) (c : FileId × Snapshot) : Bool :=
  candidates.all fun d =>
    let mine := progressKey c.2
    let other := progressKey d.2
    decide (other.1 < mine.1 ∨ (other.1 = mine.1 ∧ other.2 ≤ mine.2))

/-- The first candidate of the greatest `(updated_at_ns, key == file_id)`. -/
def latestCandidate (fileId : FileId) (candidates : List (FileId × Snapshot)) : Option (FileId × Snapshot) :=
  candidates.find? fun c => candidates.all fun d =>
    decide (d.2.updatedAtNs < c.2.updatedAtNs ∨
      (d.2.updatedAtNs = c.2.updatedAtNs ∧ (d.1 = fileId → c.1 = fileId)))

/-- The selection among the candidates of a job. -/
def selectCandidate (fileId : FileId) (candidates : List (FileId × Snapshot)) : Option (FileId × Snapshot) :=
  let zero := candidates.filter fun c => c.2.sizeLocal == some 0
  let nonzero := candidates.filter fun c => c.2.sizeLocal != some 0
  match greatest (zero.map (·.2.updatedAtNs)), greatest (nonzero.map (·.2.updatedAtNs)) with
  | none, none => none
  | some _, none => latestCandidate fileId zero
  | some z, some n => if n ≤ z then latestCandidate fileId zero else selectBest nonzero
  | none, some _ => selectBest nonzero
where
  /-- The greatest progress, then the latest, then the exact key; a tie of aliases selects none. -/
  selectBest (nonzero : List (FileId × Snapshot)) : Option (FileId × Snapshot) :=
    let best := nonzero.filter (isBestProgress nonzero)
    let latest := best.filter fun c => greatest (best.map (·.2.updatedAtNs)) == some c.2.updatedAtNs
    match latest with
    | [c] => some c
    | _ =>
      match latest.filter (fun c => decide (c.1 = fileId)) with
      | [c] => some c
      | _ => none

/-- The snapshots of a store that a job may take over for a root. -/
def jobCandidates (b : Sources) (store : SnapshotStore) (fileId root : FileId) (jobId : Int) (jobType : JobType) :
    List (FileId × Snapshot) :=
  store.items.filter fun item =>
    isScopedCandidate fileId root item.1 item.2 && decide (item.2.lftpJobId = some jobId) &&
      decide (item.2.lftpJobType = some jobType) && !isRevoked b fileId root jobId jobType item.2

/-- The way back of the lookup by job to the ordinary resolver. -/
def fallBackToOrdinarySnapshot (b : Sources) (store : SnapshotStore) (fileId root : FileId) (jobId : Int)
    (jobType : JobType) : Build (Option Snapshot) := do
  -- A scoped lookup may not fall back.
  if (fileId.pathPairId.or root.pathPairId).isSome then return none
  if (resolveTransferSnapshot store fileId (some root)).any (isNestedRootCandidate fileId root ·.1) then return none
  match ← resolveRecentLiveTransferSnapshot fileId (some root) with
  | none => return none
  | some snapshot =>
    if snapshot.lftpJobId = some jobId ∧ snapshot.lftpJobType = some jobType ∧
        (isRevoked b fileId root jobId jobType snapshot ∨ !isScopedCandidate fileId root fileId snapshot) then
      return none
    return some snapshot

/-- `__resolve_recent_live_transfer_snapshot_for_job`, for a job with an id and a type. -/
def resolveRecentLiveTransferSnapshotForJob (b : Sources) (fileId root : FileId) (jobId : Int) (jobType : JobType) :
    Build (Option Snapshot) := do
  let store := (← get).recent
  let requested := fileId.pathPairId.or root.pathPairId
  let selected := selectCandidate fileId (jobCandidates b store fileId root jobId jobType)
  modify (·.note .forJob .recent fileId (some root) selected)
  match selected with
  | some candidate =>
    return some (← promoteTransferSnapshot .recent candidate fileId (if requested.isSome then fileId else root))
  | none => fallBackToOrdinarySnapshot b store fileId root jobId jobType

/-- `__resolve_transfer_checkpoint_snapshot` -/
def resolveTransferCheckpointSnapshot (b : Sources) (fileId root : FileId) (jobId : Int) (jobType : JobType)
    (rawSizeLocal : Option Int) : Build (Option Snapshot) := do
  let snapshot ← resolveRecentLiveTransferSnapshotForJob b fileId root jobId jobType
  if snapshot.isNone && rawSizeLocal == some 0 then
    resolveRetainedStoppedTransferSnapshot fileId (some root)
  else return snapshot

/-! ## Eviction -/

/-- `snapshots.pop(file_id, None)`. -/
def popSnapshot (which : StoreName) (fileId : FileId) : Build Unit :=
  modify fun t => t.setStore which ((t.store which).pop fileId)

/-- `__evict_transfer_completion_snapshots` -/
def evictTransferCompletionSnapshots (fileId : FileId) (root : Option FileId) : Build Unit := do
  if (← resolveRecentLiveTransferSnapshot fileId root).isSome then popSnapshot .recent fileId
  if (← resolveRetainedStoppedTransferSnapshot fileId root).isSome then popSnapshot .retained fileId

/-- `__evict_recent_live_transfer_snapshots` -/
def evictRecentLiveTransferSnapshots (root : FileId) : Build Unit :=
  modify fun t => { t with recent := t.recent.filter fun _ snapshot => decide (snapshot.rootFileId ≠ root) }

/-- `__sweep_recent_live_transfer_snapshots` -/
def sweepRecentLiveTransferSnapshots (b : Sources) (seen : Option (List FileId)) (t : Transfers) : Transfers :=
  let unseen (fileId : FileId) : Bool := seen.any fun ids => decide (fileId ∉ ids)
  { t with
    recent := t.recent.filter fun fileId snapshot =>
      let rootStatus := b.lftpStatuses.get snapshot.rootFileId
      if b.isStoppedFile fileId || b.isStoppedFile snapshot.rootFileId none none rootStatus then !unseen fileId
      else rootStatus.isSome || !unseen fileId }

end SeedSync.Builder
