import SeedSync.Builder.Model

/-!
# The calls on a builder

The setters and evictions that change the snapshot stores, the overlay builds, and a run of calls.
What lets an overlay build start, and which roots it is for, is left open.
-/

namespace SeedSync.Builder

open SystemFile Lib

structure ModelBuilder where
  sources : Sources := {}
  transfers : Transfers := {}

/-! ## Setters and evictions -/

/-- Drop the snapshots of both stores that an id names, by their key or by their root. -/
def Transfers.evictNamed (t : Transfers) (ids : List FileId) : Transfers :=
  let kept (fileId : FileId) (snapshot : Snapshot) : Bool := decide (fileId ∉ ids ∧ snapshot.rootFileId ∉ ids)
  { t with recent := t.recent.filter kept, retained := t.retained.filter kept }

/-- `set_lftp_statuses` -/
def setLftpStatuses (statuses : List LftpJobStatus) (m : ModelBuilder) : ModelBuilder :=
  let ids := statuses.map LftpJobStatus.fileId
  let table : StatusTable := .ofList (statuses.filter fun status => decide (ids.count status.fileId = 1))
  { sources := { m.sources with
      lftpStatuses := table
      -- Only another identity proves that the lifecycle that was revoked is over.
      lifecycleRevokedStatusIdentities := m.sources.lifecycleRevokedStatusIdentities.filter fun fileId identity =>
        (table.get fileId).all fun status => decide ((status.id, status.type) = identity) }
    -- Duplicate rows are no retirement: their roots lose their snapshots.
    transfers := m.transfers.evictNamed (ids.filter fun id => decide (1 < ids.count id)) }

/-- `set_stopped_files` -/
def setStoppedFiles (ids : List FileId) (m : ModelBuilder) : ModelBuilder :=
  let sources := { m.sources with stoppedFiles := ids }
  { sources
    transfers := sweepRecentLiveTransferSnapshots sources none
      { m.transfers with
        persistedDisplayProgressFloors :=
          m.transfers.persistedDisplayProgressFloors.filter fun fileId _ => decide (fileId ∉ ids) } }

/-- `set_persisted_display_progress_floors` -/
def setPersistedDisplayProgressFloors (floors : Dict FileId DisplayFloor) (m : ModelBuilder) : ModelBuilder :=
  { m with
    transfers := { m.transfers with
      persistedDisplayProgressFloors := floors.filter fun fileId _ => decide (fileId ∉ m.sources.stoppedFiles) } }

/-- `evict_transfer_progress_for_lifecycle` -/
def evictTransferProgressForLifecycle (ids : List FileId) (m : ModelBuilder) : ModelBuilder :=
  let revoke (revoked : Dict FileId (Int × JobType)) (fileId : FileId) : Dict FileId (Int × JobType) :=
    match (m.sources.lftpStatuses.get fileId).filter LftpJobStatus.isRunning with
    | some status => revoked.set fileId (status.id, status.type)
    | none => revoked
  let transfers := m.transfers.evictNamed ids
  { sources := { m.sources with
      lifecycleRevokedStatusIdentities := ids.foldl revoke m.sources.lifecycleRevokedStatusIdentities }
    transfers := { transfers with
      persistedDisplayProgressFloors :=
        transfers.persistedDisplayProgressFloors.filter fun fileId _ => decide (fileId ∉ ids) } }

/-- `evict_ambiguous_lftp_status_snapshots` -/
def evictAmbiguousLftpStatusSnapshots (ids : List FileId) (m : ModelBuilder) : ModelBuilder :=
  { m with transfers := m.transfers.evictNamed ids }

/-- `evict_recent_live_transfer_snapshots_missing_roots` -/
def evictRecentLiveTransferSnapshotsMissingRoots (active : List FileId) (m : ModelBuilder) : ModelBuilder :=
  { m with
    transfers := { m.transfers with
      recent := m.transfers.recent.filter fun fileId snapshot =>
        decide (snapshot.rootFileId ∈ active) || m.sources.isStoppedFile fileId ||
          m.sources.isStoppedFile snapshot.rootFileId none none (m.sources.lftpStatuses.get snapshot.rootFileId) } }

/-- `clear`; the paths of the pairs and the scan proofs stay. -/
def clear (m : ModelBuilder) : ModelBuilder :=
  { sources :=
      { unknownLocalPathPairIds := m.sources.unknownLocalPathPairIds
        localRootScanProofs := m.sources.localRootScanProofs
        localRootPaths := m.sources.localRootPaths
        pendingLocalFilesTokens := m.sources.pendingLocalFilesTokens }
    transfers := { m.transfers with recent := {}, retained := {}, persistedDisplayProgressFloors := {} } }

/-- `recent_live_transfer_snapshot_identities`; what it returns is read off the snapshots. -/
def recentLiveTransferSnapshotIdentities (ids : List FileId) : Build (List (FileId × Int × JobType)) :=
  ids.foldlM (fun found fileId => do
    match ← resolveRecentLiveTransferSnapshot fileId (some fileId) with
    | none => return found
    | some snapshot =>
      match snapshot.lftpJobId, snapshot.lftpJobType with
      | some id, some type => return if 0 ≤ id then found ++ [(fileId, id, type)] else found
      | _, _ => return found) []

/-! ## Overlays -/

/-- The status that an overlay projects: running, and its root not stopped. -/
def overlayStatus (b : Sources) (fileId : FileId) : Option LftpJobStatus :=
  (b.lftpStatuses.get fileId).filter fun status =>
    decide (status.fileId = fileId) && status.isRunning &&
      !b.isStoppedFile fileId (b.remoteFiles.get fileId) (b.localFiles.get fileId) (some status)

/-- The root counter that both overlay builds project. -/
def overlayState (b : Sources) (fileId : FileId) (status : LftpJobStatus) : Build TransferState := do
  let remote := b.remoteFiles.get fileId
  let local' := b.localFiles.get fileId
  let source := status.totalTransferState
  let previous ← resolveTransferCheckpointSnapshot b fileId status.fileId status.id status.type source.sizeLocal
  let combined := combineSplitRootTransferState remote local' (some status.type) source previous (some status.id)
    (freshCheckpointBytes b fileId remote local')
  let current ← coalesceRetainedStoppedTransferState fileId (some status.fileId) remote combined (some source)
    (some status.id) (some status.type)
  return applyPersistedDisplayProgressFloor b (← get) fileId current source remote local' status

/-- The overlay of one root, recorded where the build records it. -/
def overlayOf (b : Sources) (displayTransferSafe : FileId → Bool)
    (record : FileId → LftpJobStatus → TransferState → Build Unit) (fileId : FileId) :
    Build (Option ActiveProgressOverlay) := do
  if !displayTransferSafe fileId then return none
  match overlayStatus b fileId with
  | none => return none
  | some status =>
    let current ← overlayState b fileId status
    if current.sizeLocal.isNone && current.percentLocal.isNone then return none
    record fileId status current
    return some ⟨current.percentLocal, current.sizeLocal, current.speed, current.eta⟩

/-- The loop of the overlay builds: the first root without an overlay ends it. -/
def overlaysOf (overlay : FileId → Build (Option ActiveProgressOverlay)) :
    List FileId → Build (Option (List (FileId × ActiveProgressOverlay)))
  | [] => return some []
  | fileId :: ids => do
    match ← overlay fileId with
    | none => return none
    | some shown => return (← overlaysOf overlay ids).map ((fileId, shown) :: ·)

/-- `build_read_only_lftp_root_counter_overlays` -/
def buildReadOnlyLftpRootCounterOverlays (b : Sources) (displayTransferSafe : FileId → Bool) (ids : List FileId) :
    Build (Option (List (FileId × ActiveProgressOverlay))) :=
  overlaysOf (overlayOf b displayTransferSafe fun _ _ _ => pure ()) ids

/-- `build_active_progress_overlays` -/
def buildActiveProgressOverlays (rt : Runtime) (b : Sources) (displayTransferSafe : FileId → Bool)
    (ids : List FileId) : Build (Option (List (FileId × ActiveProgressOverlay))) :=
  overlaysOf (overlayOf b displayTransferSafe fun fileId status current =>
    storeRecentLiveTransferSnapshot rt b fileId status.fileId current (some status.totalTransferState)
      (some status.id) (some status.type)) ids

/-- The values that `record_read_only_lftp_root_counter_overlays` admits. -/
def overlayIsValid (overlay : ActiveProgressOverlay) : Bool :=
  let natural (value : Option Int) : Bool := value.all fun v => decide (0 ≤ v)
  overlay.transferredSize.any (fun v => decide (0 ≤ v)) && natural overlay.downloadProgress &&
    overlay.downloadProgress.all (fun v => decide (v ≤ 100)) && natural overlay.downloadingSpeed &&
    natural overlay.eta

/-- `record_read_only_lftp_root_counter_overlays`: all roots are checked before one is recorded. -/
def recordReadOnlyLftpRootCounterOverlays (rt : Runtime) (b : Sources)
    (overlays : List (FileId × ActiveProgressOverlay)) : Build Bool := do
  let pending := overlays.filterMap fun (fileId, overlay) =>
    ((overlayStatus b fileId).filter fun status => decide (0 ≤ status.id) && overlayIsValid overlay).map fun status =>
      (fileId, overlay, status)
  if overlays.isEmpty || decide (pending.length ≠ overlays.length) then return false
  pending.forM fun (fileId, overlay, status) =>
    storeRecentLiveTransferSnapshot rt b fileId status.fileId
      { sizeLocal := overlay.transferredSize
        sizeRemote := ((b.remoteFiles.get fileId).map fun r => (r.size : Int)).or status.totalTransferState.sizeRemote
        percentLocal := overlay.downloadProgress
        speed := overlay.downloadingSpeed
        eta := overlay.eta }
      (some status.totalTransferState) (some status.id) (some status.type)
  return true

/-! ## Runs -/

inductive Call where
  /-- A setter that replaces maps of the sources alone; what it leaves is any sources. -/
  | setMaps (sources : Sources)
  | setLftpStatuses (statuses : List LftpJobStatus)
  | setStoppedFiles (ids : List FileId)
  | setPersistedDisplayProgressFloors (floors : Dict FileId DisplayFloor)
  | evictTransferProgressForLifecycle (ids : List FileId)
  | evictAmbiguousLftpStatusSnapshots (ids : List FileId)
  | evictRecentLiveTransferSnapshotsMissingRoots (active : List FileId)
  /-- A completion handoff or a confirmed deletion: entries of the stores go, whichever. -/
  | evict (kept : StoreName → FileId → Snapshot → Bool)
  | clear
  | recentLiveTransferSnapshotIdentities (ids : List FileId)
  | buildReadOnlyLftpRootCounterOverlays (displayTransferSafe : FileId → Bool) (ids : List FileId)
  | buildActiveProgressOverlays (rt : Runtime) (displayTransferSafe : FileId → Bool) (ids : List FileId)
  | recordReadOnlyLftpRootCounterOverlays (rt : Runtime) (overlays : List (FileId × ActiveProgressOverlay))
  | buildModel (rt : Runtime) (authority : Option LocalScanAuthority)

/-- Run a program on the transfers of a builder, whether it raises or not. -/
def ModelBuilder.perform {α : Type} (m : ModelBuilder) (program : Build α) : ModelBuilder :=
  { m with transfers := (program.run.run m.transfers).2 }

def Call.apply (m : ModelBuilder) : Call → ModelBuilder
  | setMaps sources => { m with sources }
  | setLftpStatuses statuses => Builder.setLftpStatuses statuses m
  | setStoppedFiles ids => Builder.setStoppedFiles ids m
  | setPersistedDisplayProgressFloors floors => Builder.setPersistedDisplayProgressFloors floors m
  | evictTransferProgressForLifecycle ids => Builder.evictTransferProgressForLifecycle ids m
  | evictAmbiguousLftpStatusSnapshots ids => Builder.evictAmbiguousLftpStatusSnapshots ids m
  | evictRecentLiveTransferSnapshotsMissingRoots active =>
    Builder.evictRecentLiveTransferSnapshotsMissingRoots active m
  | evict kept =>
    { m with
      transfers := { m.transfers with
        recent := m.transfers.recent.filter (kept .recent)
        retained := m.transfers.retained.filter (kept .retained) } }
  | clear => Builder.clear m
  | recentLiveTransferSnapshotIdentities ids => m.perform (Builder.recentLiveTransferSnapshotIdentities ids)
  | buildReadOnlyLftpRootCounterOverlays safe ids =>
    m.perform (Builder.buildReadOnlyLftpRootCounterOverlays m.sources safe ids)
  | buildActiveProgressOverlays rt safe ids => m.perform (Builder.buildActiveProgressOverlays rt m.sources safe ids)
  | recordReadOnlyLftpRootCounterOverlays rt overlays =>
    m.perform (Builder.recordReadOnlyLftpRootCounterOverlays rt m.sources overlays)
  | buildModel rt authority => m.perform (Builder.buildModel rt m.sources authority)

/-- A builder after a sequence of calls. -/
def run (calls : List Call) : ModelBuilder := calls.foldl Call.apply {}

end SeedSync.Builder
