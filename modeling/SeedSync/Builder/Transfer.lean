import SeedSync.Builder.Snapshots

/-!
# Transfer counters

How the counters of a job become the progress of a whole root, and what the snapshot stores add
to them.
-/

namespace SeedSync.Builder

open SystemFile Lib

/-! ## Arithmetic -/

/-- `int(round((part * 100) / whole))`: the exact quotient, a half to the even neighbour. -/
def roundedPercent (part whole : Int) : Int :=
  let q := part * 100 / whole
  let r := part * 100 % whole
  if 2 * r < whole then q else if whole < 2 * r then q + 1 else if q % 2 = 0 then q else q + 1

/-- The percentage, where the whole is not empty. -/
def percentOf (part whole : Int) : Option Int := if 0 < whole then some (roundedPercent part whole) else none

/-- `max(0, min(value, bound))`. -/
def clamp (value bound : Int) : Int := max 0 (min value bound)

/-- `max(value, floor)` where there is a floor. -/
def raiseTo (value : Int) : Option Int → Int
  | none => value
  | some floor => max value floor

mutual
/-- `__staged_remote_leaf_bytes`; only the selected leaves count where a selection is given. -/
def stagedRemoteLeafBytes (selected : Option (List FileId)) : SystemFile → Option SystemFile → FileId → Nat
  | .mk _ _, none, _ => 0
  | .mk a cs, some mine, fileId =>
    if a.isDir ≠ mine.isDir ∨ mine.hasStagingCollision then 0
    else if !a.isDir then
      if selected.any (fun ids => decide (fileId ∉ ids)) then 0
      else if !mine.isStaging || !mine.statusSidecarReady then 0
      else min mine.size a.size
    else sumStagedRemoteLeafBytes selected cs mine.children fileId

def sumStagedRemoteLeafBytes (selected : Option (List FileId)) : List SystemFile → List SystemFile → FileId → Nat
  | [], _, _ => 0
  | c :: cs, mine, fileId =>
    stagedRemoteLeafBytes selected c (childNamed mine c.name)
        (buildFileId (fileId.path ++ "/" ++ c.name) fileId.pathPairId) +
      sumStagedRemoteLeafBytes selected cs mine fileId
end

/-- `__staged_remote_leaf_bytes` without a selection. -/
def stagedBytes (remote local' : Option SystemFile) : Int :=
  match remote with
  | none => 0
  | some remote => stagedRemoteLeafBytes none remote local' (.bare "")

/-- `__trusted_final_leaf_bytes` of a root. -/
def finalBytes (remote local' : Option SystemFile) : Int :=
  match local' with
  | none => 0
  | some mine => trustedFinalLeafBytes remote mine false

/-- The inner `has_staging_descendant` of `__combine_split_root_transfer_state`. -/
def localHasStaging (local' : Option SystemFile) : Bool := local'.any hasStagingDescendant

/-- `__fresh_checkpoint_bytes` -/
def freshCheckpointBytes (b : Sources) (fileId : FileId) (remote local' : Option SystemFile) : Int :=
  match remote with
  | none => 0
  | some r =>
    if !r.isDir then
      if b.pendingLocalFilesTokens.any (fun affected => affected.any fun ids => decide (fileId ∈ ids)) then
        stagedBytes remote local'
      else 0
    else
      let selected := (b.pendingLocalFilesTokens.flatMap (·.getD [])).filter fun id =>
        decide (id.pathPairId = fileId.pathPairId) &&
          (decide (id.path = fileId.path) || (fileId.path ++ "/").toList.isPrefixOf id.path.toList)
      if selected.isEmpty then 0 else stagedRemoteLeafBytes (some selected) r local' fileId

/-! ## `__combine_split_root_transfer_state` -/

section Combine

variable (remote local' : Option SystemFile) (jobType : Option JobType)

/-- A counterless record of the same PGET job keeps the last counters. -/
def bridgeCounterless (matching : Option Snapshot) (ts : TransferState) : TransferState :=
  match matching with
  | some p =>
    if jobType = some .pget ∧ ts.sizeLocal = none ∧ ts.percentLocal = none ∧ p.sizeLocal.isSome then
      { ts with
        sizeLocal := p.sizeLocal
        sizeRemote := match remote with
          | some r => some r.size
          | none => p.subsetSizeRemote
        percentLocal := p.percentLocal }
    else ts
  | none => ts

/-- The counters of the selected subset as counters of the root; `true` where this is final. -/
def normalizeSubset (matching : Option Snapshot) (ts : TransferState) : TransferState × Bool :=
  match remote, ts.sizeRemote, ts.sizeLocal with
  | some r, some sizeRemote, some sizeLocal =>
    let total : Int := r.size
    let remaining := clamp sizeRemote total
    let subset := clamp sizeLocal remaining
    let whole (size : Int) : TransferState :=
      { ts with sizeLocal := some size, sizeRemote := some total, percentLocal := percentOf size total }
    if subset = 0 then
      ({ ts with sizeLocal := some 0, sizeRemote := some total, percentLocal := some 0 }, false)
    else if jobType = some .mirror ∧ (remaining ≠ total ∨ total < sizeRemote) then
      (whole (clamp (raiseTo subset (matching.bind (·.subsetSizeLocal))) total), false)
    else if remaining ≠ total then
      (whole (clamp (raiseTo (total - (remaining - subset)) (matching.bind (·.sizeLocal))) total), true)
    else if total < sizeRemote then
      (whole (clamp (raiseTo subset (matching.bind (·.sizeLocal))) total), false)
    else
      match matching with
      | some p =>
        if p.sizeLocal.isSome then
          let floor := if jobType = some .mirror then p.subsetSizeLocal else p.sizeLocal
          let size := clamp (max subset (floor.getD 0)) total
          let raised := floor.any fun f => decide (subset < f)
          ({ ts with
            sizeLocal := some size
            sizeRemote := some total
            percentLocal := if raised && decide (0 < total) then percentOf size total else ts.percentLocal }, false)
        else (ts, false)
      | none => (ts, false)
  | _, _, _ => (ts, false)

/-- The same job does not fall below its last accepted counters, short of an explicit zero. -/
def applySnapshotFloor (matching : Option Snapshot) (ts : TransferState) : TransferState :=
  match matching with
  | some p =>
    if (ts.sizeLocal.isSome || ts.percentLocal.isSome) && ts.sizeLocal != some 0 then
      let floor := if jobType = some .mirror ∧ localHasStaging local' then p.subsetSizeLocal else p.sizeLocal
      { ts with
        sizeLocal := match floor with
          | some f => if ts.sizeLocal.all (fun s => decide (s < f)) then some f else ts.sizeLocal
          | none => ts.sizeLocal
        percentLocal := match p.percentLocal with
          | some f => if ts.percentLocal.all (fun s => decide (s < f)) then some f else ts.percentLocal
          | none => ts.percentLocal }
    else ts
  | none => ts

/-- The staged bytes that a scan proves beyond the counters of the job. -/
def checkpointBytes (previous matching : Option Snapshot) (raw : Option Int) (ts : TransferState)
    (fresh : Int) : Int :=
  let final := finalBytes remote local'
  let current := if ts.sizeLocal.isSome then stagedBytes remote local' else 0
  let carried (p : Snapshot) : Int := min current (max 0 (p.sizeLocal.getD 0 - final))
  let resumed : Int :=
    if raw = some 0 then
      match previous, matching with
      | none, _ => current
      | some _, some p =>
        if p.subsetSizeLocal = some 0 ∧ p.sizeLocal.any (fun s => decide (final < s)) then carried p else 0
      | some _, none => 0
    else 0
  let started := if raw = some 0 ∧ matching.isSome then max resumed fresh else resumed
  match matching, raw with
  | some p, some r =>
    match p.sizeLocal, p.subsetSizeLocal with
    | some size, some subset => if r ≠ 0 ∧ subset + final < size then carried p else started
    | _, _ => started
  | _, _ => started

/-- Add what the final tree and the staged checkpoint hold. -/
def addSplitRootBytes (previous matching : Option Snapshot) (raw : Option Int) (ts : TransferState)
    (fresh : Int) : TransferState :=
  if !localHasStaging local' then ts
  else
    let final := finalBytes remote local'
    let staged := max (ts.sizeLocal.getD 0) (checkpointBytes remote local' previous matching raw ts fresh)
    if final = 0 ∧ staged = ts.sizeLocal.getD 0 then ts
    else
      match remote with
      | none => { ts with sizeLocal := some (final + staged) }
      | some r =>
        let size := min (final + staged) (r.size : Int)
        { ts with
          sizeLocal := some size
          sizeRemote := some r.size
          percentLocal := if 0 < r.size then percentOf size r.size else ts.percentLocal }

/-- `__combine_split_root_transfer_state` -/
def combineSplitRootTransferState (ts : TransferState) (previous : Option Snapshot) (jobId : Option Int)
    (fresh : Int) : TransferState :=
  let matching := previous.filter fun p => decide (p.lftpJobId = jobId ∧ p.lftpJobType = jobType)
  let (normalized, final) := normalizeSubset remote jobType matching (bridgeCounterless remote jobType matching ts)
  if final then normalized
  else
    addSplitRootBytes remote local' previous matching ts.sizeLocal
      (applySnapshotFloor local' jobType matching normalized) fresh

end Combine

/-! ## Display floors -/

/-- `min(99, int(round(bytes * 100 / whole)))`. -/
def floorPercent (bytes whole : Int) : Int := min 99 (roundedPercent bytes whole)

/-- `__promote_recent_live_pget_snapshot_to_display_floor` -/
def promoteRecentLivePgetSnapshotToDisplayFloor (b : Sources) (fileId root : FileId) (snapshot : Snapshot)
    (raw : Option TransferState) : Build Unit :=
  match b.lftpStatuses.get root with
  | none => pure ()
  | some status =>
    let local' := (b.activeFiles.get root).or (b.localFiles.get fileId)
    if !status.isRunning || decide (status.type ≠ .pget) then pure ()
    else if (raw.bind (·.sizeLocal)) = some 0 then
      modify fun t => { t with persistedDisplayProgressFloors := t.persistedDisplayProgressFloors.pop fileId }
    else
      match b.remoteFiles.get fileId, raw.bind (·.sizeLocal), raw.bind (·.sizeRemote), snapshot.sizeLocal with
      | some remote, some rawLocal, some rawRemote, some size =>
        match remote.mtimeNs with
        | none => pure ()
        | some mtimeNs =>
          if remote.isDir || b.isStoppedFile fileId (some remote) local' (some status) ||
              !local'.any statusSidecarReady then pure ()
          else if 0 < rawLocal ∧ rawLocal ≤ rawRemote ∧ rawRemote ≤ remote.size ∧ 0 < size ∧ size < remote.size then
            modify fun t =>
              { t with
                persistedDisplayProgressFloors := t.persistedDisplayProgressFloors.set fileId
                  ⟨size, floorPercent size remote.size, remote.size, mtimeNs / 1000000000, rawRemote⟩ }
          else pure ()
      | _, _, _, _ => pure ()

/-- `__apply_persisted_display_progress_floor` -/
def applyPersistedDisplayProgressFloor (b : Sources) (t : Transfers) (fileId : FileId) (state raw : TransferState)
    (remote local' : Option SystemFile) (status : LftpJobStatus) : TransferState :=
  match t.persistedDisplayProgressFloors.get fileId, remote, raw.sizeLocal, raw.sizeRemote with
  | some floor, some r, some rawLocal, some rawRemote =>
    match r.mtimeNs with
    | none => state
    | some mtimeNs =>
      if !status.isRunning || decide (status.type ≠ .pget) || r.isDir ||
          !(local'.or (b.activeFiles.get status.fileId)).any statusSidecarReady then state
      else if ¬ (0 < rawLocal ∧ rawLocal ≤ rawRemote ∧ 0 < rawRemote ∧ rawRemote ≤ r.size) then state
      else if b.isLifecycleRevokedStatusIdentity fileId (some status.id) (some status.type) then state
      else if floor.sourceSize ≠ r.size ∨ floor.sourceMtime ≠ mtimeNs / 1000000000 ∨
          ¬ (0 < floor.subsetTotal ∧ floor.subsetTotal ≤ floor.sourceSize) ∨ floor.subsetTotal ≠ rawRemote ∨
          ¬ (0 < floor.bytes ∧ floor.bytes < r.size) ∨ floor.percent ≠ floorPercent floor.bytes r.size then state
      else
        { state with
          sizeLocal := some (min (max (state.sizeLocal.getD 0) floor.bytes) r.size)
          percentLocal := some (min (max (state.percentLocal.getD 0) floor.percent) 99) }
  | _, _, _, _ => state

/-! ## Recording -/

/-- The snapshot that the store functions make of a state. -/
def makeSnapshot (rt : Runtime) (t : Transfers) (fileId root : FileId) (state : TransferState)
    (subsetSizeLocal subsetSizeRemote : Option Int) (jobId : Option Int) (jobType : Option JobType) : Snapshot :=
  { object := t.made
    rootFileId := root
    sizeLocal := state.sizeLocal
    percentLocal := state.percentLocal
    speed := state.speed
    eta := state.eta
    lftpJobId := jobId
    lftpJobType := jobType
    subsetSizeLocal
    subsetSizeRemote
    updatedAtNs := rt.monotonicNs t.made
    recordedFor := fileId }

/-- The floor of the job's own earlier subset, in `__store_recent_live_transfer_snapshot`. -/
def mergedSubset (previous : Option Snapshot) (jobId : Option Int) (jobType : Option JobType) (subset : Int) : Int :=
  match previous with
  | some p => if p.lftpJobId = jobId ∧ p.lftpJobType = jobType then raiseTo subset p.subsetSizeLocal else subset
  | none => subset

/-- The subset that a recent snapshot records, raised to that of its job so far. -/
def recordedSubset (fileId root : FileId) (raw : Option TransferState) (jobId : Option Int) (jobType : Option JobType)
    (mergeMatchingSubsetFloor resolveRootAlias : Bool) : Build (Option Int) :=
  match raw.bind (·.sizeLocal) with
  | none => pure none
  | some subset =>
    if mergeMatchingSubsetFloor && decide (subset ≠ 0) then do
      -- A nested leaf has its own counters, not its root's subset.
      let previous ← (if resolveRootAlias then resolveRecentLiveTransferSnapshot fileId (some root)
        else getSnapshot .recent fileId)
      return some (mergedSubset previous jobId jobType subset)
    else pure (some subset)

/-- `__store_recent_live_transfer_snapshot` -/
def storeRecentLiveTransferSnapshot (rt : Runtime) (b : Sources) (fileId root : FileId) (state : TransferState)
    (raw : Option TransferState) (jobId : Option Int) (jobType : Option JobType)
    (mergeMatchingSubsetFloor : Bool := true) (resolveRootAlias : Bool := true) : Build Unit := do
  let subset ← recordedSubset fileId root raw jobId jobType mergeMatchingSubsetFloor resolveRootAlias
  if b.isLifecycleRevokedStatusIdentity root jobId jobType || state.sizeLocal.isNone then return
  let t ← get
  let snapshot := makeSnapshot rt t fileId root state subset (raw.bind (·.sizeRemote)) jobId jobType
  set { t with recent := t.recent.set fileId snapshot, made := t.made + 1 }
  promoteRecentLivePgetSnapshotToDisplayFloor b fileId root snapshot raw

/-- `__store_retained_stopped_transfer_snapshot` -/
def storeRetainedStoppedTransferSnapshot (rt : Runtime) (b : Sources) (fileId root : FileId) (state : TransferState)
    (raw : Option TransferState) (jobId : Option Int) (jobType : Option JobType) : Build Unit := do
  if b.isLifecycleRevokedStatusIdentity root jobId jobType || state.sizeLocal.isNone then return
  let t ← get
  let snapshot := makeSnapshot rt t fileId root state (raw.bind (·.sizeLocal)) (raw.bind (·.sizeRemote)) jobId jobType
  set { t with retained := t.retained.set fileId snapshot, made := t.made + 1 }

/-- `__promote_recent_live_transfer_snapshot_to_stopped_floor` -/
def promoteRecentLiveTransferSnapshotToStoppedFloor (fileId : FileId) (root : Option FileId) : Build Unit := do
  match ← resolveRecentLiveTransferSnapshot fileId root with
  | none => return
  | some snapshot => modify fun t => { t with retained := t.retained.set fileId snapshot }

/-! ## What the stores supply -/

/-- `__resolve_root_file_id` -/
def resolveRootFileId (fileId : FileId) (rootRemote rootLocal : Option SystemFile) : FileId :=
  ((rootRemote.map rootFileId).or (rootLocal.map rootFileId)).getD fileId

/-- `__build_retained_transfer_state` -/
def buildRetainedTransferState (sizeLocal sizeRemote percentLocal : Option Int) : Option TransferState :=
  if sizeLocal.isNone then none else some { sizeLocal, sizeRemote, percentLocal }

/-- A counterless status of an older job does not retire the snapshot of a newer one. -/
def olderCounterlessStatus (current : LftpJobStatus) (snapshot : Snapshot) : Bool :=
  current.isRunning && snapshot.lftpJobId.any (fun id => decide (current.id < id)) &&
    current.totalTransferState.sizeLocal.isNone && current.totalTransferState.percentLocal.isNone &&
    decide (snapshot.lftpJobType = some current.type)

/-- The status of the snapshot's root leaves the snapshot in force. -/
def statusAdmitsSnapshot (current : LftpJobStatus) (snapshot : Snapshot) (matchingJobId : Int) : Bool :=
  (decide (snapshot.lftpJobId = some matchingJobId) || olderCounterlessStatus current snapshot) &&
    decide (snapshot.lftpJobType = some current.type)

/-- The state that a recent snapshot supplies, and the ways in which it is dropped instead. -/
def supplyRecentLiveTransferState (b : Sources) (fileId : FileId)
    (remote local' rootRemote rootLocal : Option SystemFile) (matchingJob : Option (Int × JobType))
    (snapshot : Snapshot) : Build (Option TransferState) := do
  let current := b.lftpStatuses.get snapshot.rootFileId
  if b.isStoppedFile snapshot.rootFileId (rootRemote.or remote) (rootLocal.or local') current then
    popSnapshot .recent fileId
    return none
  else if current.isSome && matchingJob.isNone then return none
  else if current.any (fun status => matchingJob.any fun job => !statusAdmitsSnapshot status snapshot job.1) then
    popSnapshot .recent fileId
    return none
  else
    match remote, local', snapshot.sizeLocal with
    | some r, some l, some size =>
      if matchingJob.isNone && localTransferSnapshotIsCaughtUp local' remote (some size) then
        popSnapshot .recent fileId
        return none
      else
        let observed : Int :=
          if matchingJob.isNone then size
          else if r.isDir then max size (authoritativeRemoteLeafProgressBytes r local')
          else if isAuthoritativeLocalFile local' then max size (min l.size r.size : Nat)
          else size
        return some
          { sizeLocal := some observed
            sizeRemote := some r.size
            percentLocal := snapshot.percentLocal
            speed := snapshot.speed
            eta := snapshot.eta }
    | _, _, _ =>
      popSnapshot .recent fileId
      return none

/-- `__get_recent_live_transfer_state` -/
def getRecentLiveTransferState (b : Sources) (fileId : FileId) (remote local' rootRemote rootLocal : Option SystemFile)
    (matchingJob : Option (Int × JobType)) : Build (Option TransferState) := do
  let root := resolveRootFileId fileId rootRemote rootLocal
  let found ← (match matchingJob with
    | some (id, type) => resolveRecentLiveTransferSnapshotForJob b fileId root id type
    | none => resolveRecentLiveTransferSnapshot fileId (some root))
  match found with
  | none => return none
  | some snapshot =>
    supplyRecentLiveTransferState b fileId remote local' rootRemote rootLocal matchingJob snapshot

/-- `__coalesce_retained_stopped_transfer_state` -/
def coalesceRetainedStoppedTransferState (fileId : FileId) (root : Option FileId) (remote : Option SystemFile)
    (current : TransferState) (raw : Option TransferState) (jobId : Option Int) (jobType : Option JobType) :
    Build TransferState := do
  match ← resolveRetainedStoppedTransferSnapshot fileId root with
  | none => return current
  | some retained =>
    match retained.sizeLocal with
    | none => return current
    | some retainedSize =>
      let sizeCaughtUp := current.sizeLocal.any fun s => decide (retainedSize ≤ s)
      let percentCaughtUp := retained.percentLocal.all fun p => current.percentLocal.any fun c => decide (p ≤ c)
      if retained.lftpJobId ≠ jobId ∨ retained.lftpJobType ≠ jobType ∨
          (jobType = some .mirror ∧ raw.any (fun r => decide (r.sizeLocal = some 0))) ∨
          current.sizeLocal = some 0 ∨ (sizeCaughtUp && percentCaughtUp) then
        popSnapshot .retained fileId
        return current
      return { current with
        sizeLocal := if sizeCaughtUp then current.sizeLocal else some retainedSize
        sizeRemote := match remote with
          | some r => some r.size
          | none => current.sizeRemote
        percentLocal := if percentCaughtUp then current.percentLocal else retained.percentLocal }

/-- `__get_retained_stopped_transfer_state_without_live_progress` -/
def getRetainedStoppedTransferStateWithoutLiveProgress (fileId : FileId) (root : Option FileId)
    (remote local' : Option SystemFile) (preserveWhenLocalGrowthOnly : Bool) (job : Option (Int × JobType)) :
    Build (Option TransferState) := do
  match ← resolveRetainedStoppedTransferSnapshot fileId root with
  | none => return none
  | some retained =>
    match retained.sizeLocal with
    | none => return none
    | some retainedSize =>
      if job.any (fun j => decide (retained.lftpJobId ≠ some j.1 ∨ retained.lftpJobType ≠ some j.2)) then
        popSnapshot .retained fileId
        return none
      if localTransferSnapshotIsCaughtUp local' remote then
        evictTransferCompletionSnapshots fileId root
        return none
      if isAuthoritativeLocalFile local' && local'.any (fun l => decide (l.size = 0)) then
        popSnapshot .retained fileId
        return none
      if isAuthoritativeLocalFile local' && local'.any (fun l => decide (retainedSize < l.size)) &&
          !preserveWhenLocalGrowthOnly && !remote.any isDir then
        return none
      return buildRetainedTransferState retained.sizeLocal (remote.map fun r => (r.size : Int)) retained.percentLocal

/-- `__get_retained_recent_transfer_state` -/
def getRetainedRecentTransferState (fileId : FileId) (remote local' rootRemote rootLocal : Option SystemFile) :
    Build (Option TransferState) := do
  let root := resolveRootFileId fileId rootRemote rootLocal
  match ← resolveRecentLiveTransferSnapshot fileId (some root) with
  | none => return none
  | some snapshot =>
    if snapshot.sizeLocal.isNone then
      popSnapshot .recent fileId
      return none
    if localTransferSnapshotIsCaughtUp local' remote then
      evictTransferCompletionSnapshots fileId (some root)
      return none
    return buildRetainedTransferState snapshot.sizeLocal (remote.map fun r => (r.size : Int)) snapshot.percentLocal

/-- `__get_stopped_staging_transfer_state_without_live_progress` -/
def getStoppedStagingTransferStateWithoutLiveProgress (remote local' : Option SystemFile) : Option TransferState :=
  match remote, local' with
  | some r, some l =>
    if !r.isDir || !l.isDir || effectiveLocalTreeProvesCompletion remote local' then none
    else
      let staged := stagedBytes remote local'
      let final := finalBytes remote local'
      if staged = 0 ∧ final = 0 then none
      else if hasStagingDescendant l then
        some (combineSplitRootTransferState remote local' none
          { sizeLocal := some staged, sizeRemote := some r.size, percentLocal := percentOf staged r.size }
          none none 0)
      else some { sizeLocal := some final, sizeRemote := some r.size, percentLocal := percentOf final r.size }
  | _, _ => none

end SeedSync.Builder
