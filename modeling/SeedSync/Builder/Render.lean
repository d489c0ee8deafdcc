import SeedSync.Builder.Transfer

/-!
# Rendering one root

The part of `ModelBuilder.build_model` between the choice of the sources of a root and the row it
makes of them: the transfer state of the root, its descendants, and the state it ends in. Traces
are left out.
-/

namespace SeedSync.Builder

open SystemFile Lib

/-! ## The transfer state of a root -/

/-- What `__resolve_root_transfer_state` returns, and the state it gives the root. -/
structure RootTransfer where
  current : Option TransferState := none
  recent : Option TransferState := none
  retained : Option TransferState := none
  state : ModelState := .default

/-- The counters of a running status, raised to what the stores and the trees prove. -/
def combinedCurrentState (b : Sources) (fileId : FileId) (remote local' : Option SystemFile)
    (status : LftpJobStatus) : Build TransferState := do
  let source := status.totalTransferState
  let previous ← resolveTransferCheckpointSnapshot b fileId status.fileId status.id status.type source.sizeLocal
  let combined := combineSplitRootTransferState remote local' (some status.type) source previous (some status.id)
    (freshCheckpointBytes b fileId remote local')
  return applyPersistedDisplayProgressFloor b (← get) fileId combined source remote local' status

/-- The status without usable counters: what the stopped store retains for its job. -/
def statusWithoutLiveProgress (fileId : FileId) (remote local' : Option SystemFile) (isStopped : Bool)
    (status : LftpJobStatus) : Build (Option TransferState) :=
  getRetainedStoppedTransferStateWithoutLiveProgress fileId (some status.fileId) remote local' isStopped
    (some (status.id, status.type))

/-- The first branches for a root with a status. `counterless` is a running row with target data
alone, which is no counter publication. -/
def resolveStatusTransferState (rt : Runtime) (b : Sources) (fileId modelFileId : FileId)
    (remote local' : Option SystemFile) (isStopped : Bool) (status : LftpJobStatus) :
    Build (RootTransfer × Option TransferState) := do
  if status.isRunning then
    let source := status.totalTransferState
    let raw ← combinedCurrentState b fileId remote local' status
    if isStopped then
      storeRecentLiveTransferSnapshot rt b modelFileId status.fileId raw (some source) (some status.id)
        (some status.type) false
      storeRetainedStoppedTransferSnapshot rt b modelFileId status.fileId raw (some source) (some status.id)
        (some status.type)
      let retained := buildRetainedTransferState raw.sizeLocal (remote.map fun r => (r.size : Int)) raw.percentLocal
      return ({ retained }, none)
    else if raw.sizeLocal.isNone && raw.percentLocal.isNone then
      return ({ retained := ← statusWithoutLiveProgress fileId remote local' isStopped status }, some raw)
    else
      let current ← coalesceRetainedStoppedTransferState fileId (some status.fileId) remote raw (some source)
        (some status.id) (some status.type)
      return ({ current := some current }, none)
  else return ({ retained := ← statusWithoutLiveProgress fileId remote local' isStopped status }, none)

/-- A running row without counters: the snapshot of its job, or the row's own rate. -/
def resolveCounterlessTransferState (b : Sources) (fileId : FileId) (remote local' : Option SystemFile)
    (status : LftpJobStatus) (counterless : TransferState) (found : RootTransfer) : Build RootTransfer := do
  match ← getRecentLiveTransferState b fileId remote local' none none (some (status.id, status.type)) with
  | none => return { found with current := some counterless }
  | some recent =>
    match ← resolveRecentLiveTransferSnapshot fileId (some status.fileId) with
    | none => return { found with recent := some recent }
    | some snapshot =>
      -- A newer direct projection stays in force over an older counterless row.
      let newer := snapshot.lftpJobId.any fun id => decide (status.id < id)
      return { found with current := if newer then some recent else none, recent := some recent }

/-- The retained state of a stopped root without a status. -/
def resolveStoppedTransferState (fileId modelFileId : FileId) (remote local' : Option SystemFile) :
    Build (Option TransferState) := do
  match ← getRetainedStoppedTransferStateWithoutLiveProgress fileId (some modelFileId) remote local' true none with
  | some retained => return some retained
  | none =>
    match ← getRetainedRecentTransferState fileId remote local' remote local' with
    | some retained =>
      promoteRecentLiveTransferSnapshotToStoppedFloor fileId (some modelFileId)
      return some retained
    | none => return getStoppedStagingTransferStateWithoutLiveProgress remote local'

/-- The state that the status and the stores give a root before its children are built. -/
def transferModelState (status : Option LftpJobStatus) (isStopped : Bool) (recent : Option TransferState) :
    ModelState :=
  match status, isStopped with
  | some status, false => if status.isRunning then .downloading else .queued
  | _, _ => if recent.isSome then .downloading else .default

/-- `__resolve_root_transfer_state` -/
def resolveRootTransferState (rt : Runtime) (b : Sources) (fileId modelFileId : FileId)
    (remote local' : Option SystemFile) (status : Option LftpJobStatus) (isStopped : Bool) : Build RootTransfer := do
  match status with
  | some row =>
    let (found, counterless) ← resolveStatusTransferState rt b fileId modelFileId remote local' isStopped row
    let found ← match counterless with
      | some counterless => resolveCounterlessTransferState b fileId remote local' row counterless found
      | none => pure found
    if !isStopped && !row.isRunning then evictRecentLiveTransferSnapshots row.fileId
    return { found with state := transferModelState status isStopped found.recent }
  | none =>
    if isStopped then
      let retained ← resolveStoppedTransferState fileId modelFileId remote local'
      return { retained, state := transferModelState none true none }
    else
      let recent ← getRecentLiveTransferState b fileId remote local' none none none
      return { recent, state := transferModelState none false recent }

/-! ## Filling a node -/

/-- What the fill of a node writes outside the node. -/
structure Scratch where
  /-- `live_transferred_file_ids` -/
  live : List FileId := []
  /-- `transferred_size` of the nodes of the root, which children add to. -/
  transferred : Dict FileId Int := {}

/-- `_parent_file.transferred_size += size`, up to the first ancestor with live counters. -/
def creditAncestors (size : Int) (scratch : Scratch) : List FileId → Scratch
  | [] => scratch
  | ancestor :: ancestors =>
    if ancestor ∈ scratch.live then scratch
    else
      creditAncestors size
        { scratch with
          transferred := scratch.transferred.set ancestor ((scratch.transferred.get ancestor).getD 0 + size) } ancestors

/-- `__update_transferred_size` -/
def updateTransferredSize (file : ModelFile) (fileId : FileId) (ancestors : List FileId) (remote mine : SystemFile)
    (scratch : Scratch) : Scratch :=
  let own := scratch.transferred.get fileId
  if file.isDir then
    if own.isNone then { scratch with transferred := scratch.transferred.set fileId 0 } else scratch
  else
    let filled : Option Int :=
      if own.isSome then own
      else if isAuthoritativeLocalFile (some mine) then some (min mine.size remote.size : Nat)
      else if file.state = .queued ∧ mine.statusSidecarReady then some (stagedBytes (some remote) (some mine))
      else none
    match filled with
    | none => scratch
    | some size => creditAncestors size { scratch with transferred := scratch.transferred.set fileId size } ancestors

/-- The setters of `ModelFile` that a transfer state goes through. -/
def checkTransferState (state : TransferState) : Except BuildError Unit :=
  let negative (value : Option Int) : Bool := value.any fun v => decide (v < 0)
  if negative state.percentLocal || state.percentLocal.any (fun v => decide (100 < v)) ||
      negative state.sizeLocal || negative state.speed || negative state.eta then
    .error .valueError
  else .ok ()

/-- The job that the counters of a node come from. -/
structure JobRef where
  rootFileId : FileId
  id : Int
  type : JobType

def jobRef (status : LftpJobStatus) : JobRef := ⟨status.fileId, status.id, status.type⟩

/-- The row with the facts of its sources and of its transfer state. -/
def filledRow (file : ModelFile) (remote local' : Option SystemFile) (transfer : Option TransferState) : ModelFile :=
  { file with
    remotePresent := remote.isSome
    localPresent := local'.isSome
    remoteHasTransferableContent := remote.any hasRemoteTransferableContent
    remoteSize := remote.map size
    localSize := local'.map size
    resumeCheckpointPresent := local'.any statusSidecarReady
    downloadProgress := transfer.bind (·.percentLocal)
    downloadingSpeed := transfer.bind (·.speed)
    eta := transfer.bind (·.eta) }

/-- The bytes that the row counts for itself and for its ancestors. -/
def filledScratch (file : ModelFile) (remote local' : Option SystemFile) (transfer : Option TransferState)
    (fileId : FileId) (ancestors : List FileId) (scratch : Scratch) : Scratch :=
  let counted : Scratch := match transfer.bind (·.sizeLocal) with
    | some size => { live := fileId :: scratch.live, transferred := scratch.transferred.set fileId size }
    | none => scratch
  match remote, local' with
  | some r, some l =>
    -- A parsed sidecar is resumability metadata, not an owned progress report.
    if transfer.isNone && l.statusSidecarReady && !file.explicitlyStopped && decide (file.state ≠ .queued) then counted
    else updateTransferredSize file fileId ancestors r l counted
  | _, _ => counted

/-- The snapshot and the setters of a transfer state that a row shows. -/
def recordTransfer (rt : Runtime) (b : Sources) (state : TransferState) (storeRecentSnapshot : Bool)
    (job : Option JobRef) (raw : Option TransferState) (fileId : FileId) (ancestors : List FileId) : Build Unit := do
  if storeRecentSnapshot then
    storeRecentLiveTransferSnapshot rt b fileId ((job.map (·.rootFileId)).getD fileId) state raw
      (job.map (·.id)) (job.map (·.type)) true ancestors.isEmpty
  checkTransferState state

/-- `__fill_model_file`; a node with ancestors is no root. -/
def fillModelFile (rt : Runtime) (b : Sources) (file : ModelFile) (remote local' : Option SystemFile)
    (transfer : Option TransferState) (storeRecentSnapshot : Bool) (job : Option JobRef) (raw : Option TransferState)
    (fileId : FileId) (ancestors : List FileId) (scratch : Scratch) : Build (ModelFile × Scratch) := do
  match transfer with
  | some state => recordTransfer rt b state storeRecentSnapshot job raw fileId ancestors
  | none => pure ()
  return (filledRow file remote local' transfer,
    filledScratch file remote local' transfer fileId ancestors scratch)

/-! ## Descendants -/

/-- A node whose children are still to be built. -/
structure Frontier where
  remote : Option SystemFile
  local' : Option SystemFile
  isDir : Bool
  pathPairId : Option String
  pathPairName : Option String
  /-- `_ancestor_has_staging_collision`, the node included. -/
  collided : Bool
  fullPath : String
  fileId : FileId
  ancestors : List FileId

/-- The root that the descendants belong to. -/
structure RootContext where
  remote : Option SystemFile
  local' : Option SystemFile
  status : Option LftpJobStatus
  state : ModelState

/-- What the walk has built. -/
structure Walk where
  scratch : Scratch := {}
  descendants : List ModelFile := []
  seen : List FileId := []

/-- `_child_full_path.split(os.sep)[1:]`, joined. -/
def rootRelativePath (fullPath : String) : String := String.ofList ((fullPath.toList.dropWhile (· ≠ '/')).drop 1)

/-- The job that owns the live state of a child, and its counters where it has some. -/
structure ChildLive where
  status : Option LftpJobStatus := none
  current : Option TransferState := none

/-- The status of a child itself, or its row in the status of the root. -/
def childLive (b : Sources) (root : RootContext) (childId : FileId) (fullPath : String) : ChildLive :=
  let stopped (status : LftpJobStatus) : Bool :=
    b.isStoppedFile status.fileId root.remote root.local' (some status) || decide (childId ∈ b.stoppedFiles)
  let own := (b.lftpStatuses.get childId).filter fun status => decide (status.type ≠ .mirror) && !stopped status
  match own, root.status with
  | some status, rootStatus =>
    if status.isRunning then { status := some status, current := some status.totalTransferState }
    else if rootStatus.isNone then { status := some status }
    else inRoot stopped rootStatus
  | none, rootStatus => inRoot stopped rootStatus
where
  inRoot (stopped : LftpJobStatus → Bool) (rootStatus : Option LftpJobStatus) : ChildLive :=
    match rootStatus with
    | some status =>
      if status.isRunning && !stopped status then
        match status.activeFileTransferStates.find? (fun row => row.1 == rootRelativePath fullPath) with
        | some row => { status := some status, current := some row.2 }
        | none => {}
      else {}
    | none => {}

/-- The state of a child before the lifecycle markers are read. -/
def childState (root : RootContext) (isDir childIsStopped : Bool) (live : ChildLive) (recent : Option TransferState)
    (remote local' : Option SystemFile) : ModelState :=
  if isDir then .default
  else if live.current.isSome || recent.isSome then .downloading
  else if root.status.isNone && live.status.any (fun status => !status.isRunning) then .queued
  else if isAuthoritativeLocalFile local' &&
      remote.any (fun r => local'.any fun l => decide (r.size ≤ l.size)) then .downloaded
  else if remote.isSome && !childIsStopped && (root.state = .queued || root.state = .downloading) then .queued
  else .default

/-- A finished leaf keeps its marker although the view of it lags. -/
def childMarkedDownloaded (b : Sources) (childId : FileId) (isDir : Bool) (remote local' : Option SystemFile)
    (state : ModelState) : Bool :=
  !isDir && decide (state = .default) && (b.downloadedFiles.getD []).contains childId &&
    (decide (childId ∈ b.finalMoveSucceededFiles) ||
      if remote.isSome then localFileProvesDownloadCompletion local' remote else isAuthoritativeLocalFile local')

/-- `__is_stoppable_model_file` -/
def isStoppableModelFile (state : ModelState) (isDir : Bool) (local' : Option SystemFile)
    (current : Option TransferState) (status : Option LftpJobStatus) : Bool :=
  if state = .queued then true
  else if state ≠ .downloading ∨ current.isNone then false
  else
    isDir || local'.any statusSidecarReady ||
      status.any (fun status => status.isRunning && decide (status.type = .get))

/-- The counters of a live leaf, combined with the snapshot of the same leaf. -/
def combinedChildState (b : Sources) (childId : FileId) (remote local' : Option SystemFile) (collided isDir : Bool)
    (live : ChildLive) : Build (Option TransferState) := do
  match live.current with
  | none => return none
  | some current =>
    if collided || isDir then return some current
    let previous ← match ← getSnapshot .recent childId with
      | some snapshot => pure (some snapshot)
      | none => getSnapshot .retained childId
    return some (combineSplitRootTransferState remote local' (live.status.map (·.type)) current previous
      (live.status.map (·.id)) (freshCheckpointBytes b childId remote local'))

/-- The kind of a child, where its sources agree on it and its parent is a directory. -/
def childIsDir (node : Frontier) (remote scanned : Option SystemFile) : Except BuildError Bool :=
  let isDir := ((remote.map SystemFile.isDir).or (scanned.map SystemFile.isDir)).getD false
  if scanned.any (fun l => decide (l.isDir ≠ isDir)) then
    .error (.modelError "Mismatch in is_dir between child sources")
  else if !node.isDir then .error (.typeError "Cannot add child to a non-directory")
  else .ok isDir

/-- One turn of the inner loop of `__build_children`. -/
def buildChild (rt : Runtime) (b : Sources) (root : RootContext) (node : Frontier) (acc : List Frontier × Walk)
    (childName : String) : Build (List Frontier × Walk) := do
  let remote := node.remote.bind fun r => childNamed r.children childName
  let scanned := node.local'.bind fun l => childNamed l.children childName
  let isDir ← childIsDir node remote scanned
  let fullPath := osPathJoin node.fullPath childName
  let childId := buildFileId fullPath node.pathPairId
  -- A canonical leaf of an active scan stands in for a child that no local scan has.
  let local' := scanned.or (b.activeFiles.get childId)
  let live := childLive b root childId fullPath
  let recent ← (if live.current.isNone && root.status.isNone && (b.lftpStatuses.get childId).isNone then
      getRecentLiveTransferState b childId remote local' root.remote root.local' none
    else pure none)
  let childIsStopped := decide (childId ∈ b.stoppedFiles)
  let state := childState root isDir childIsStopped live recent remote local'
  let current ← combinedChildState b childId remote local' node.collided isDir live
  let file : ModelFile :=
    { name := childName, isDir, fileId := childId
      pathPairId := node.pathPairId, pathPairName := node.pathPairName, state
      explicitlyStopped := childIsStopped
      completeLocalCoverage := !node.collided && remote.any (directoryLeavesCoverRemoteForPresentation · local') }
  let (filled, scratch) ← fillModelFile rt b file remote local' (current.or recent) current.isSome
    (live.status.map jobRef) live.current childId (node.fileId :: node.ancestors) acc.2.scratch
  let state := if childMarkedDownloaded b childId isDir remote local' filled.state then .downloaded else filled.state
  let child := { filled with
    state
    finalMoveSucceeded := decide (childId ∈ b.finalMoveSucceededFiles)
    isStoppable := isStoppableModelFile state isDir local' current live.status }
  let next : Frontier :=
    { remote, local', isDir, pathPairId := node.pathPairId, pathPairName := node.pathPairName
      collided := node.collided || local'.any hasStagingCollision
      fullPath, fileId := childId, ancestors := node.fileId :: node.ancestors }
  return (acc.1 ++ [next],
    { scratch, descendants := acc.2.descendants ++ [child], seen := acc.2.seen ++ [childId] })

/-- `set(_remote_children).union(_local_children)` -/
def childNames (node : Frontier) : List String :=
  (((node.remote.map children).getD []).map name ++ ((node.local'.map children).getD []).map name).dedup

/-- The children of one level of the tree. -/
def buildLevel (rt : Runtime) (b : Sources) (root : RootContext) (level : List Frontier) (walk : Walk) :
    Build (List Frontier × Walk) :=
  level.foldlM (fun acc node => (rt.names (childNames node)).foldlM (buildChild rt b root node) acc) ([], walk)

/-- The queue of `__build_children`, level by level. -/
def buildLevels (rt : Runtime) (b : Sources) (root : RootContext) : Nat → List Frontier → Walk → Build Walk
  | 0, _, walk => pure walk
  | fuel + 1, level, walk =>
    if level.isEmpty then pure walk
    else do
      let (next, walk) ← buildLevel rt b root level walk
      buildLevels rt b root fuel next walk

mutual
def depth : SystemFile → Nat
  | .mk _ cs => depthList cs + 1

def depthList : List SystemFile → Nat
  | [] => 0
  | c :: cs => max (depth c) (depthList cs)
end

def optionDepth (file : Option SystemFile) : Nat := (file.map depth).getD 0

/-- More levels than the walk below a node can have. -/
def levelBound (b : Sources) (remote local' : Option SystemFile) : Nat :=
  optionDepth remote + max (optionDepth local') (depthList (b.activeFiles.dict.items.map Prod.snd)) + 1

/-- `__build_children` -/
def buildChildren (rt : Runtime) (b : Sources) (root : RootContext) (file : ModelFile) (fileId : FileId)
    (scratch : Scratch) : Build Walk :=
  let top : Frontier :=
    { remote := root.remote, local' := root.local', isDir := file.isDir
      pathPairId := file.pathPairId, pathPairName := file.pathPairName
      collided := root.local'.any hasStagingCollision
      fullPath := file.name, fileId, ancestors := [] }
  buildLevels rt b root (levelBound b root.remote root.local') [top] { scratch }

end SeedSync.Builder
