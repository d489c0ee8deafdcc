import SeedSync.Builder.Render

/-!
# The model of a build

The state that a root ends in, and `ModelBuilder.build_model` over all roots. A cached model is a
value that an earlier call returned; what is modelled is the call that builds.
-/

namespace SeedSync.Builder

open SystemFile Lib

/-! ## Completion -/

/-- `__has_incomplete_remote_file_children` -/
def hasIncompleteRemoteFileChildren (descendants : List ModelFile) : Bool :=
  descendants.any fun file =>
    !file.isDir && file.remoteSize.any fun remote => file.localSize.all fun mine => decide (mine < remote)

/-- The root is shown as complete, its live counters gone. -/
def completed (file : ModelFile) (transferredSize : Option Int) : ModelFile :=
  { file with
    state := .downloaded
    transferredSize
    downloadProgress := none
    downloadingSpeed := none
    eta := none }

/-- A root that is still downloading, although a complete copy is there. -/
def finishDownloading (fileId : FileId) (file : ModelFile) (remote local' : Option SystemFile)
    (status : Option LftpJobStatus) (isStopped : Bool) (descendants : List ModelFile) : Build ModelFile := do
  let root := (status.map LftpJobStatus.fileId).getD file.fileId
  if file.state = .downloading ∧ localFileProvesDownloadCompletion local' remote ∧
      effectiveLocalTreeProvesCompletion remote local' then
    evictTransferCompletionSnapshots fileId (some root)
    return completed file (((remote.map size).or file.localSize).map Int.ofNat)
  if file.state = .downloading ∧ status.isNone ∧ isStopped = false ∧ local'.any isStaging ∧
      remote.any (fun r => local'.any fun l => decide (r.size ≤ l.size)) ∧
      effectiveLocalTreeProvesCompletion remote local' ∧ hasIncompleteRemoteFileChildren descendants = false then
    if (← resolveRecentLiveTransferSnapshot fileId (some root)).isSome then
      evictTransferCompletionSnapshots fileId (some root)
      return completed file (remote.map fun r => Int.ofNat r.size)
    return file
  return file

/-- All children that are remote files are downloaded, and there is one. -/
def allChildrenDownloaded (descendants : List ModelFile) : Bool :=
  descendants.all fun file => file.isDir || file.remoteSize.isNone || decide (file.state = .downloaded)

def hasDownloadableChildren (descendants : List ModelFile) : Bool :=
  descendants.any fun file => !file.isDir && file.remoteSize.isSome

/-- A single file at rest. -/
def finishDefaultFile (b : Sources) (file : ModelFile) (remote local' : Option SystemFile) (statusIsNone isStopped : Bool)
    (retained : Option TransferState) : ModelFile :=
  let complete := file.remoteSize.any fun remote => file.localSize.any fun mine => decide (remote ≤ mine)
  if !(isStopped && retained.isSome) && isAuthoritativeLocalFile local' &&
      effectiveLocalTreeProvesCompletion remote local' && complete then
    { file with state := .downloaded }
  else if statusIsNone && !isStopped && local'.any isStaging && effectiveLocalTreeProvesCompletion remote local' &&
      complete then
    completed file (file.remoteSize.map Int.ofNat)
  else if file.localSize.isSome && file.remoteSize.isNone && isAuthoritativeLocalFile local' &&
      (b.downloadedFiles.getD []).contains file.fileId then
    { file with state := .downloaded }
  else file

/-- A directory at rest that the remote side has too, and whether its children are incomplete. -/
def finishDefaultDirectory (file : ModelFile) (remote local' : Option SystemFile) (statusIsNone isStopped : Bool)
    (descendants : List ModelFile) : ModelFile × Bool :=
  if statusIsNone && !isStopped && local'.any isStaging && effectiveLocalTreeProvesCompletion remote local' &&
      file.remoteSize.any (fun remote => local'.any fun l => decide (remote ≤ l.size)) then
    if hasIncompleteRemoteFileChildren descendants then (file, false)
    else (completed file (file.remoteSize.map Int.ofNat), false)
  else if hasDownloadableChildren descendants &&
      (allChildrenDownloaded descendants || treesHaveVerifiedCompleteStagingRemoteIdentity remote local') &&
      effectiveLocalTreeProvesCompletion remote local' then
    ({ file with state := .downloaded }, false)
  else (file, true)

/-- The exact terminal counters of a downloaded root of positive size. -/
def terminalCounters (file : ModelFile) (remote : Option SystemFile) : ModelFile :=
  match remote with
  | some r =>
    if file.state = .downloaded ∧ 0 < r.size then
      { file with
        transferredSize := some r.size
        downloadProgress := some 100
        downloadingSpeed := none
        eta := none }
    else file
  | none => file

/-- `__check_root_downloaded`; also whether the children are incomplete. -/
def checkRootDownloaded (b : Sources) (fileId : FileId) (file : ModelFile) (remote local' : Option SystemFile)
    (status : Option LftpJobStatus) (isStopped : Bool) (retained : Option TransferState)
    (descendants : List ModelFile) : Build (ModelFile × Bool) := do
  let file ← finishDownloading fileId file remote local' status isStopped descendants
  let (file, incomplete) :=
    if file.state ≠ .default then (file, false)
    else if !file.isDir then (finishDefaultFile b file remote local' status.isNone isStopped retained, false)
    else if file.remoteSize.isSome then
      finishDefaultDirectory file remote local' status.isNone isStopped descendants
    else (file, false)
  return (terminalCounters file remote, incomplete)

/-- `__estimate_eta` -/
def estimateEta (file : ModelFile) : ModelFile :=
  match file.downloadingSpeed, file.remoteSize, file.transferredSize with
  | some speed, some remote, some transferred =>
    if file.state = .downloading ∧ file.eta = none ∧ 0 < speed then
      { file with eta := some ((max ((remote : Int) - transferred) 0 + speed - 1) / speed) }
    else file
  | _, _, _ => file

/-! ## Lifecycle markers -/

/-- `__check_persist_authority` -/
def checkPersistAuthority (b : Sources) (file : ModelFile) : ModelFile :=
  match b.downloadedFiles with
  | none => file
  | some downloaded =>
    if file.pathPairId ∈ b.unknownLocalPathPairIds then file
    else if file.state = .default ∧ file.localSize = none ∧ file.fileId ∈ downloaded then
      { file with state := .deleted }
    else file

/-- `__check_extracting` -/
def checkExtracting (b : Sources) (file : ModelFile) : Except BuildError ModelFile :=
  match b.extractStatuses.get file.fileId with
  | none => .ok file
  | some status =>
    if file.isDir ≠ status.isDir then
      .error (.modelError "Mismatch in is_dir between file and extract status")
    else if (file.state = .default ∨ file.state = .downloaded) ∧ file.localSize.isSome then
      .ok { file with state := .extracting }
    else .ok file

/-- The extracted marker of a downloaded root; a bare one must not be ambiguous. -/
def checkExtracted (b : Sources) (suppressed : List String) (local' : Option SystemFile) (file : ModelFile) : ModelFile :=
  -- `__model_file_matches_persisted_name` and `has_exact_extracted_marker` are the same test.
  if file.fileId ∈ b.extractedFiles ∧ file.state = .downloaded ∧ isAuthoritativeLocalFile local' ∧
      (file.fileId ∈ b.extractedFiles ∨ file.name ∉ suppressed) then
    { file with state := .extracted }
  else file

/-- `__check_validating` -/
def checkValidating (b : Sources) (file : ModelFile) : Except BuildError ModelFile :=
  match b.validationStatuses.get file.fileId with
  | none => .ok file
  | some status =>
    if file.state ∈ [ModelState.default, .downloaded, .extracted, .validating, .validated, .corrupt] ∧
        file.localSize.isSome ∧ file.remoteSize.isSome then
      if status.progress.any (fun p => decide (p < 0 ∨ 100 < p)) then .error .valueError
      else
        .ok { file with
          state := status.state
          validationProgress := status.progress
          validationError := status.error
          corruptChunks := status.corruptChunks }
    else .ok file

/-- `__determine_state` -/
def determineState (b : Sources) (suppressed : List String) (file : ModelFile) (local' : Option SystemFile) :
    Except BuildError ModelFile := do
  let file := { file with finalMoveSucceeded := decide (file.fileId ∈ b.finalMoveSucceededFiles) }
  let file ← checkExtracting b (checkPersistAuthority b file)
  let file ← checkValidating b (checkExtracted b suppressed local' file)
  if file.fileId ∈ b.moveFailedFiles then return { file with state := .moveFailed }
  return file

/-! ## One root -/

/-- `_BuiltRootFile`; the descendants of the model file stand beside it. -/
structure BuiltRoot where
  /-- The id of the sources. -/
  fileId : FileId
  file : ModelFile
  descendants : List ModelFile
  normalizedLocalRootPath : Option String
  isLocalOnly : Bool
  seen : List FileId

/-- The kind of a root, where its sources agree on it. -/
def rootIsDir (remote local' : Option SystemFile) (status : Option LftpJobStatus) : Except BuildError Bool :=
  let ofStatus := status.map fun status => decide (status.type = .mirror)
  match ((remote.map SystemFile.isDir).or (local'.map SystemFile.isDir)).or ofStatus with
  | none => .error (.modelError "Zero sources have a file object")
  | some isDir =>
    if local'.any (fun l => decide (l.isDir ≠ isDir)) || ofStatus.any (fun s => decide (s ≠ isDir)) then
      .error (.modelError "Mismatch in is_dir between sources")
    else .ok isDir

/-- The pair of a root: the remote side's, else the local one's, else the status's. -/
def rootPathPair {α : Type} (remote local' : Option SystemFile) (status : Option LftpJobStatus)
    (ofFile : SystemFile → Option α) (ofStatus : LftpJobStatus → Option α) : Option α :=
  (remote.bind ofFile).or
    (match local' with
    | some l => ofFile l
    | none => status.bind ofStatus)

/-- The row of a root before its transfer state is known. -/
def bareRoot (fileId : FileId) (remote local' : Option SystemFile) (status : Option LftpJobStatus)
    (isDir isStopped : Bool) : ModelFile :=
  let pair := rootPathPair remote local' status pathPairId LftpJobStatus.pathPairId
  let known := (remote.map name).or (local'.map name)
  { name := known.getD fileId.text
    isDir
    fileId := match known with
      | some name => buildFileId name pair
      | none => fileId.statusOnlyId
    pathPairId := pair
    pathPairName := rootPathPair remote local' status pathPairName LftpJobStatus.pathPairName
    explicitlyStopped := isStopped
    completeLocalCoverage := remote.any (directoryLeavesCoverRemoteForPresentation · local') }

/-- The loop body of `build_model` for one root: the row it makes, unless the root is an empty
remote tree, and the ids with live counters so far. -/
def buildRoot (rt : Runtime) (b : Sources) (effective : Dict FileId SystemFile) (suppressed : List String)
    (live : List FileId) (fileId : FileId) : Build (Option BuiltRoot × List FileId) := do
  let remote := b.remoteFiles.get fileId
  let local' := effective.get fileId
  let status := b.lftpStatuses.get fileId
  let isStopped := b.isStoppedFile fileId remote local'
  let isDir ← rootIsDir remote local' status
  let bare := bareRoot fileId remote local' status isDir isStopped
  let transfer ← resolveRootTransferState rt b fileId bare.fileId remote local' status isStopped
  let (filled, scratch) ← fillModelFile rt b { bare with state := transfer.state } remote local'
    ((transfer.current.or transfer.recent).or transfer.retained) transfer.current.isSome (status.map jobRef)
    ((status.filter LftpJobStatus.isRunning).map (·.totalTransferState)) fileId [] { live }
  let walk ← buildChildren rt b { remote, local', status, state := filled.state } filled fileId scratch
  let descendants := walk.descendants.map fun file =>
    { file with transferredSize := walk.scratch.transferred.get file.fileId }
  let file := estimateEta { filled with transferredSize := walk.scratch.transferred.get fileId }
  let (file, _) ← checkRootDownloaded b fileId file remote local' status isStopped transfer.retained descendants
  let file ← determineState b suppressed file local'
  let file := { file with isStoppable := isStoppableModelFile file.state file.isDir local' transfer.current status }
  -- An empty remote tree alone is metadata, not a row.
  if status.isNone && local'.isNone && !file.remoteHasTransferableContent then return (none, walk.scratch.live)
  return (some
    { fileId, file, descendants
      normalizedLocalRootPath := b.resolveNormalizedLocalRootPath local' file.pathPairId
      isLocalOnly := local'.isSome && !file.remoteHasTransferableContent && status.isNone
      seen := walk.seen }, walk.scratch.live)

/-! ## All roots -/

/-- The roots of one local path and name, only one of which may be shown. -/
def sameLocalName (x y : BuiltRoot) : Bool :=
  x.normalizedLocalRootPath.isSome && x.normalizedLocalRootPath == y.normalizedLocalRootPath &&
    x.file.name == y.file.name

/-- `candidate_priority > current_priority` -/
def outranks (x y : BuiltRoot) : Bool :=
  decide (y.file.state.value < x.file.state.value ∨
    (y.file.state.value = x.file.state.value ∧ y.file.fileId.text < x.file.fileId.text))

/-- `local_only_root_winners` of a path and a name: the first root that no later one outranks. -/
def localOnlyWinner (roots : List BuiltRoot) (root : BuiltRoot) : Option BuiltRoot :=
  (roots.filter fun x => x.isLocalOnly && sameLocalName x root).foldl
    (fun winner x => match winner with
      | none => some x
      | some w => if outranks x w then some x else some w) none

/-- The root survives the visibility pass. -/
def isVisible (roots : List BuiltRoot) (root : BuiltRoot) : Bool :=
  if root.isLocalOnly && root.normalizedLocalRootPath.isSome then
    !(roots.any fun x => !x.isLocalOnly && sameLocalName x root) &&
      (localOnlyWinner roots root).any fun winner => decide (winner.fileId = root.fileId)
  else true

/-- `model.add_file` over the visible roots. -/
def publish (roots : List BuiltRoot) : Except BuildError (List BuiltRoot) :=
  let visible := roots.filter (isVisible roots)
  if (visible.map (·.file.fileId)).Nodup then .ok visible
  else .error (.modelError "File already exists in the model")

/-- `all_file_ids` -/
def allFileIds (b : Sources) (effective : Dict FileId SystemFile) : List FileId :=
  let sources := (effective.keys ++ b.remoteFiles.dict.keys).dedup
  sources ++ (b.lftpStatuses.dict.items.filter fun item =>
    decide (item.1 ∉ sources) && (b.nestedLftpStatusRootFileId item.2).isNone).map Prod.fst

/-- The name that a root counts under when names are compared across pairs. -/
def sourceName (b : Sources) (effective : Dict FileId SystemFile) (fileId : FileId) : String :=
  (((effective.get fileId).or (b.remoteFiles.get fileId)).map name).getD
    (((b.lftpStatuses.get fileId).map LftpJobStatus.name).getD fileId.text)

/-- `__suppressed_ambiguous_extracted_file_names` -/
def suppressedAmbiguousExtractedFileNames (b : Sources) (effective : Dict FileId SystemFile) : List String :=
  let names := (allFileIds b effective).map (sourceName b effective)
  names.filter fun n => decide (1 < names.count n) && decide (FileId.bare n ∈ b.extractedFiles)

/-- The loop of `build_model` over the roots. -/
def buildRoots (rt : Runtime) (b : Sources) (effective : Dict FileId SystemFile) (ids : List FileId) :
    Build (List BuiltRoot) := do
  let suppressed := suppressedAmbiguousExtractedFileNames b effective
  let (roots, _) ← ids.foldlM (fun (acc : List BuiltRoot × List FileId) fileId => do
    let (root, live) ← buildRoot rt b effective suppressed acc.2 fileId
    return (acc.1 ++ root.toList, live)) ([], [])
  return roots

/-- `build_model` -/
def buildModel (rt : Runtime) (b : Sources) (authority : Option LocalScanAuthority) : Build (List BuiltRoot) := do
  let effective := b.buildEffectiveLocalFiles authority
  let roots ← buildRoots rt b effective (rt.ids (allFileIds b effective))
  let visible ← publish roots
  let seen := visible.flatMap fun root => root.file.fileId :: root.seen
  modify (sweepRecentLiveTransferSnapshots b (some seen))
  return visible

end SeedSync.Builder
