import SeedSync.Builder.Trees
import SeedSync.Model.File

/-!
# What the builder is told

The source maps of `ModelBuilder`, as the setters leave them, and the questions a build asks of
them without changing them. The source keeps the scanned roots in one dict per path pair; the
pair of a root is part of its id, so one dict by id holds the same.
-/

namespace SeedSync

/-- `ModelBuilder.__root_file_id` of a scanned root. -/
def SystemFile.rootFileId (file : SystemFile) : FileId := buildFileId file.name file.pathPairId

namespace Builder

open SystemFile Lib

theorem keyed_empty {ν : Type} (key : ν → FileId) :
    ∀ id v, ({} : Dict FileId ν).get id = some v → key v = id := by simp

/-- A dict in which every value stands under its own key. -/
structure Keyed {ν : Type} (key : ν → FileId) where
  dict : Dict FileId ν := {}
  keyed : ∀ id v, dict.get id = some v → key v = id := by first | exact keyed_empty _ | simp

namespace Keyed

variable {ν : Type} {key : ν → FileId}

def get (t : Keyed key) (id : FileId) : Option ν := t.dict.get id

/-- `{key(v): v for v in values}`. -/
def ofList (values : List ν) : Keyed key :=
  ⟨.ofList (values.map fun v => (key v, v)), by
    intro id v h
    obtain ⟨w, -, hw⟩ := List.mem_map.mp (Dict.get_ofList_mem h)
    cases hw
    rfl⟩

theorem mem_of_get_ofList {values : List ν} {id : FileId} {v : ν} (h : (ofList values : Keyed key).get id = some v) :
    v ∈ values := by
  obtain ⟨w, hw, heq⟩ := List.mem_map.mp (Dict.get_ofList_mem h)
  cases heq
  exact hw

end Keyed

abbrev RootTable := Keyed SystemFile.rootFileId
abbrev StatusTable := Keyed LftpJobStatus.fileId

/-- The scan that a caller of `build_model` vouches for: session, generation, reconciled pairs. -/
structure LocalScanAuthority where
  sessionToken : String
  generation : Int
  reconciledRemotePathPairIds : List (Option String)
  deriving DecidableEq, Repr

/-- The source maps of `ModelBuilder`. Sets are lists; only membership is read. -/
structure Sources where
  localFiles : RootTable := {}
  remoteFiles : RootTable := {}
  activeFiles : RootTable := {}
  lftpStatuses : StatusTable := {}
  lifecycleRevokedStatusIdentities : Dict FileId (Int × JobType) := {}
  downloadedFiles : Option (List FileId) := none
  extractStatuses : Dict FileId ExtractStatus := {}
  extractedFiles : List FileId := []
  stoppedFiles : List FileId := []
  validationStatuses : Dict FileId ValidateStatus := {}
  moveFailedFiles : List FileId := []
  finalMoveSucceededFiles : List FileId := []
  unknownLocalPathPairIds : List (Option String) := []
  localRootScanProofs : Dict FileId (String × Int × SystemFile) := {}
  localRootPaths : Dict PairId String := {}
  /-- The affected ids of the pending `local_files` invalidation tokens. -/
  pendingLocalFilesTokens : List (Option (List FileId)) := []

namespace Sources

variable (b : Sources)

/-- The pair that the nodes of a root belong to: the first of its sources that names one. -/
def firstPathPairId (remote local' : Option SystemFile) (status : Option LftpJobStatus) : Option String :=
  ((remote.bind pathPairId).or (local'.bind pathPairId)).or (status.bind LftpJobStatus.pathPairId)

/-- `__candidate_stopped_file_ids` -/
def candidateStoppedFileIds (fileId : FileId) (remote local' : Option SystemFile)
    (status : Option LftpJobStatus) : List FileId :=
  match firstPathPairId remote local' status with
  | none => [fileId]
  | some pair =>
    match (status.map LftpJobStatus.name).or ((remote.map name).or (local'.map name)) with
    | none => [fileId]
    | some fullPath => [fileId, buildFileId fullPath (some pair)]

/-- A stopped set may name a file by its bare name. -/
def stoppedByName (file : Option String) : Bool := file.any fun n => decide (FileId.bare n ∈ b.stoppedFiles)

/-- `__is_stopped_file` -/
def isStoppedFile (fileId : FileId) (remote local' : Option SystemFile := none)
    (status : Option LftpJobStatus := none) : Bool :=
  if (candidateStoppedFileIds fileId remote local' status).any (fun id => decide (id ∈ b.stoppedFiles)) then true
  else
    let remote := remote.or (b.remoteFiles.get fileId)
    let local' := local'.or (b.localFiles.get fileId)
    let status := if remote.isNone && local'.isNone && status.isNone then b.lftpStatuses.get fileId else status
    b.stoppedByName (status.map LftpJobStatus.name) || b.stoppedByName (remote.map name) ||
      b.stoppedByName (local'.map name)

/-- `__is_lifecycle_revoked_status_identity` -/
def isLifecycleRevokedStatusIdentity (fileId : FileId) (jobId : Option Int) (jobType : Option JobType) : Bool :=
  match b.lifecycleRevokedStatusIdentities.get fileId, jobId, jobType with
  | some revoked, some id, some type => decide (revoked = (id, type))
  | _, _, _ => false

/-- `__resolve_normalized_local_root_path` -/
def resolveNormalizedLocalRootPath (local' : Option SystemFile) (pathPairId : Option String) : Option String :=
  if local'.any isStaging then none else (b.localRootPaths.get pathPairId).map normalizedPath

/-! ## Leaves that a job or an active scan names by their path -/

/-- The walk by `next(...)`: the first sibling of a name, at each step. -/
def firstNodeAt : SystemFile → List String → Option SystemFile
  | file, [] => some file
  | file, part :: parts =>
    match file.children.find? (fun c => c.name == part) with
    | some child => firstNodeAt child parts
    | none => none

/-- The remote roots of a pair that hold a leaf at the path. -/
def rootsHoldingLeaf (pair : Option String) (parts : List String) : List FileId :=
  match parts with
  | [] => []
  | first :: rest =>
    (b.remoteFiles.dict.items.filter fun root =>
      root.2.isDir && root.2.name == first && root.2.pathPairId == pair &&
        (firstNodeAt root.2 rest).any (fun leaf => !leaf.isDir)).map Prod.fst

/-- The common body of `__nested_lftp_status_root_file_id` and `__nested_active_file_root_file_id`. -/
def nestedLeafRootFileId (fileName : String) (pair : Option String) : Option FileId :=
  if '/' ∉ fileName.toList ∨ '\\' ∈ fileName.toList then none
  else
    let parts := pathParts fileName
    if "" ∈ parts then none
    else
      match b.rootsHoldingLeaf pair parts with
      | [root] => some root
      | _ => none

/-- `__nested_lftp_status_root_file_id` -/
def nestedLftpStatusRootFileId (status : LftpJobStatus) : Option FileId :=
  if status.type = .mirror then none else b.nestedLeafRootFileId status.name status.pathPairId

/-- `__nested_active_file_root_file_id` -/
def nestedActiveFileRootFileId (active : SystemFile) : Option FileId :=
  if active.isDir then none else b.nestedLeafRootFileId active.name active.pathPairId

/-! ## The local tree that stands for a root -/

/-- `has_current_local_root_scan_proof`; the source object is compared by value. -/
def hasCurrentLocalRootScanProof (fileId : FileId) (authority : LocalScanAuthority) (expected : SystemFile) : Bool :=
  match b.localRootScanProofs.get fileId with
  | some (token, generation, source) =>
    decide (0 ≤ authority.generation ∧ token = authority.sessionToken ∧ generation = authority.generation ∧
      b.localFiles.get fileId = some source ∧ source = expected)
  | none => false

/-- `known_path_pair` of `__build_effective_local_files` -/
def knownPathPair (authority : Option LocalScanAuthority) (fileId : FileId) (existing : SystemFile) : Bool :=
  decide (fileId.pathPairId ∉ b.unknownLocalPathPairIds) ||
    authority.any fun a =>
      decide (fileId.pathPairId ∈ a.reconciledRemotePathPairIds) && b.hasCurrentLocalRootScanProof fileId a existing

/-- The branches of the loop that merge the scanned and the active tree of a root. -/
def splitMerge (authority : Option LocalScanAuthority) (fileId : FileId) (active existing remote : SystemFile) :
    Option SystemFile :=
  let collided := hasStagingCollisionDescendant existing
  if hasStagingDescendant existing || collided then
    if hasVerifiedSplitRootFinalLeaf existing (some remote) || collided ||
        (b.knownPathPair authority fileId existing &&
          queueTrustedFinalLeafAbsent existing (some remote) (.enter existing.isDir (some active))) then
      some (mergeActiveSplitRoot existing active (some remote))
    else none
  else none

/-- One turn of the loop of `__build_effective_local_files`: the tree it writes, if it writes one. -/
def selectEffective (authority : Option LocalScanAuthority) (fileId : FileId) (active : SystemFile)
    (existing : Option SystemFile) : Option SystemFile :=
  if (b.nestedActiveFileRootFileId active).isSome then none
  else
    match existing with
    | none => some active
    | some e =>
      match (b.remoteFiles.get fileId).bind (b.splitMerge authority fileId active e) with
      | some merged => some merged
      | none =>
        if e.isStaging then none
        else if isAuthoritativeLocalFile existing && active.isStaging && decide (active.size ≤ e.size) &&
            !remoteIndicatesNewerContent e (b.remoteFiles.get fileId) then none
        else some active

/-- `__build_effective_local_files` -/
def buildEffectiveLocalFiles (authority : Option LocalScanAuthority) : Dict FileId SystemFile :=
  b.activeFiles.dict.items.foldl (fun effective (entry : FileId × SystemFile) =>
    match b.selectEffective authority entry.1 entry.2 (effective.get entry.1) with
    | some file => effective.set entry.1 file
    | none => effective) b.localFiles.dict

end Sources

end Builder

end SeedSync
