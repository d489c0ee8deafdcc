import SeedSync.Lib.Dict
import SeedSync.Model.FileId
import SeedSync.System.File

/-!
# The inventory of the local libraries

What the builder tells of each pair's local library: how many files, how large, and how fresh. A scan
is observed, a generation begun, a completion recorded and a pair's sources committed in any order.
-/

namespace SeedSync.Builder

open SystemFile Lib

/-! ## Counting -/

mutual
/-- `visit` of `__local_regular_file_inventory`, which adds to the count and the size. -/
def visitInventory : SystemFile → Nat × Nat → Nat × Nat
  | .mk a cs, counted => if a.isDir then visitInventoryOf cs counted else (counted.1 + 1, counted.2 + a.size)

def visitInventoryOf : List SystemFile → Nat × Nat → Nat × Nat
  | [], counted => counted
  | c :: cs, counted => visitInventoryOf cs (visitInventory c counted)
end

/-- `__local_regular_file_inventory` -/
def localRegularFileInventory (files : List SystemFile) : Nat × Nat := visitInventoryOf files (0, 0)

mutual
/-- The regular files of a tree. -/
def regularFiles : SystemFile → List SystemFile
  | .mk a cs => if a.isDir then regularFilesOf cs else [.mk a cs]

def regularFilesOf : List SystemFile → List SystemFile
  | [] => []
  | c :: cs => regularFiles c ++ regularFilesOf cs
end

/-- How many they are, and how large together. -/
def numberAndSize (files : List SystemFile) : Nat × Nat := (files.length, (files.map size).sum)

mutual
theorem visitInventory_eq (file : SystemFile) (counted : Nat × Nat) :
    visitInventory file counted =
      (counted.1 + (numberAndSize (regularFiles file)).1, counted.2 + (numberAndSize (regularFiles file)).2) := by
  obtain ⟨a, cs⟩ := file
  rw [visitInventory, regularFiles]
  by_cases hdir : a.isDir = true
  · rw [if_pos hdir, if_pos hdir]
    exact visitInventoryOf_eq cs counted
  · rw [if_neg hdir, if_neg hdir]
    simp [numberAndSize, size]

theorem visitInventoryOf_eq (files : List SystemFile) (counted : Nat × Nat) :
    visitInventoryOf files counted =
      (counted.1 + (numberAndSize (regularFilesOf files)).1, counted.2 + (numberAndSize (regularFilesOf files)).2) := by
  match files with
  | [] => simp [visitInventoryOf, regularFilesOf, numberAndSize]
  | c :: cs =>
    rw [visitInventoryOf, visitInventory_eq c counted, visitInventoryOf_eq cs, regularFilesOf]
    simp only [numberAndSize, List.length_append, List.map_append, List.sum_append]
    ext
    · dsimp only
      omega
    · dsimp only
      omega
end

theorem localRegularFileInventory_eq (files : List SystemFile) :
    localRegularFileInventory files = numberAndSize (regularFilesOf files) := by
  rw [localRegularFileInventory, visitInventoryOf_eq]
  simp

theorem regularFilesOf_eq (files : List SystemFile) : regularFilesOf files = files.flatMap regularFiles := by
  induction files with
  | nil => rfl
  | cons c cs ih => rw [regularFilesOf, ih, List.flatMap_cons]

/-- The order of the roots does not matter. -/
theorem numberAndSize_perm {files files' : List SystemFile} (h : files.Perm files') :
    numberAndSize (regularFilesOf files) = numberAndSize (regularFilesOf files') := by
  rw [regularFilesOf_eq, regularFilesOf_eq]
  have hall := h.flatMap_right regularFiles
  unfold numberAndSize
  rw [hall.length_eq, (hall.map size).sum_nat]

/-! ## The inventory -/

inductive LibraryState where
  | upToDate
  | scanning
  | stale
  | waitingForScan
  deriving DecidableEq

/-- `_LocalLibraryInventory` -/
structure LocalLibraryInventory where
  fileCount : Option Nat
  size : Option Nat
  state : LibraryState
  deriving DecidableEq

/-- The object that holds a tree. -/
abbrev Address := Nat

/-- The roots of one side of one pair. -/
abbrev Bucket := Dict FileId Address

abbrev Pair := Option String

/-- What the operations on the inventory read and write. -/
structure Library where
  localFilesByPair : Dict Pair Bucket := {}
  remoteFilesByPair : Dict Pair Bucket := {}
  inventoryByPair : Dict Pair LocalLibraryInventory := {}
  revision : Nat := 0

/-- `_AuthoritativePairBuild`, as far as a commit takes sources from it. -/
structure PairBuild where
  pathPairId : Pair
  previousLocalFiles : Bucket
  previousRemoteFiles : Bucket
  localFiles : Bucket
  remoteFiles : Bucket

namespace Library

section

variable (self : Library)

/-- `__local_files_by_pair.get(pair_id, {})` -/
def localBucket (pathPairId : Pair) : Bucket := (self.localFilesByPair.get pathPairId).getD {}

def remoteBucket (pathPairId : Pair) : Bucket := (self.remoteFilesByPair.get pathPairId).getD {}

/-- `__replace_local_library_inventory` -/
def replaceLocalLibraryInventory (updated : Dict Pair LocalLibraryInventory) : Library :=
  if updated.same self.inventoryByPair then self
  else { self with inventoryByPair := updated, revision := self.revision + 1 }

/-- What a new generation makes of an inventory. -/
def begun (existing : LocalLibraryInventory) : LocalLibraryInventory :=
  ⟨existing.fileCount, existing.size, if existing.state = .stale then .stale else .scanning⟩

/-- `begin_local_inventory_runtime_generation` -/
def beginLocalInventoryRuntimeGeneration (enabled : List Pair) : Library :=
  let updated := self.inventoryByPair.filter fun pathPairId _ => decide (pathPairId ∈ enabled)
  self.replaceLocalLibraryInventory (updated.mapValues begun)

/-- The arguments of `observe_local_scan_result`. -/
structure Observation where
  scanned : List Pair
  completed : List Pair
  unknown : List Pair
  failed : Bool
  recoverableFailure : Option (List Pair) := none
  terminalFailure : Option (List Pair) := none

/-- Whether the observation says that the scan of the pair has failed for good. -/
def Observation.terminal (o : Observation) (pathPairId : Pair) : Bool :=
  match o.terminalFailure with
  | some ids => decide (pathPairId ∈ ids)
  | none => o.failed && decide (pathPairId ∉ o.recoverableFailure.getD [])

/-- The pairs that the observation is about. -/
def Observation.affected (o : Observation) : List Pair :=
  let affected := (o.scanned ++ o.completed ++ o.unknown).dedup
  if affected = [] then [none] else affected

/-- What the observation makes of the inventory of an affected pair. -/
def Observation.inventory (o : Observation) (pathPairId : Pair) (existing : Option LocalLibraryInventory) :
    LocalLibraryInventory :=
  let fileCount := existing.bind LocalLibraryInventory.fileCount
  let size := existing.bind LocalLibraryInventory.size
  if o.terminal pathPairId then ⟨fileCount, size, if existing.isSome then .stale else .waitingForScan⟩
  else if o.failed || decide (pathPairId ∈ o.unknown) then ⟨fileCount, size, .scanning⟩
  else ⟨fileCount, size, if existing.map LocalLibraryInventory.state = some .stale then .stale else .scanning⟩

/-- `observe_local_scan_result` -/
def observeLocalScanResult (o : Observation) : Library :=
  self.replaceLocalLibraryInventory
    (o.affected.foldl (fun d pathPairId => d.set pathPairId (o.inventory pathPairId (d.get pathPairId))) self.inventoryByPair)

variable (heap : Address → SystemFile)

/-- The local trees of a pair. -/
def localTrees (pathPairId : Pair) : List SystemFile := (self.localBucket pathPairId).items.map fun item => heap item.2

/-- What is counted of the local trees of a pair. -/
def counted (pathPairId : Pair) : LocalLibraryInventory :=
  let inventory := localRegularFileInventory (self.localTrees heap pathPairId)
  ⟨some inventory.1, some inventory.2, .upToDate⟩

/-- `record_local_inventory_completion` -/
def recordLocalInventoryCompletion (pathPairIds : List Pair) : Library :=
  self.replaceLocalLibraryInventory
    (pathPairIds.dedup.foldl (fun d pathPairId => d.set pathPairId (self.counted heap pathPairId)) self.inventoryByPair)

/-- `__record_local_inventory_after_pair_source_commit` -/
def recordAfterPairSourceCommit (pathPairId : Pair) (localSourcesChanged : Bool) : Library :=
  if localSourcesChanged = true ∨ (self.inventoryByPair.get pathPairId).map LocalLibraryInventory.state ≠ some .upToDate then
    self.recordLocalInventoryCompletion heap [pathPairId]
  else self

/-- A bucket that is put in, or taken out when nothing is in it. -/
def putBucket (buckets : Dict Pair Bucket) (pathPairId : Pair) (files : Bucket) : Dict Pair Bucket :=
  if files.items = [] then buckets.pop pathPairId else buckets.set pathPairId files

/-- `__replace_authoritative_pair_sources`: whether an object of the local side is another one, and the sources. -/
def replaceAuthoritativePairSources (build : PairBuild) : Bool × Library :=
  let previousLocal := self.localBucket build.pathPairId
  let previousRemote := self.remoteBucket build.pathPairId
  let affectedIds := previousLocal.keys ++ previousRemote.keys ++ build.localFiles.keys ++ build.remoteFiles.keys
  (affectedIds.any fun fileId => decide (previousLocal.get fileId ≠ build.localFiles.get fileId),
    { self with
      localFilesByPair := putBucket self.localFilesByPair build.pathPairId build.localFiles
      remoteFilesByPair := putBucket self.remoteFilesByPair build.pathPairId build.remoteFiles })

/-- `adopt_authoritative_pair_delta` -/
def adoptAuthoritativePairDelta (build : PairBuild) : Library :=
  let replaced := self.replaceAuthoritativePairSources build
  replaced.2.recordAfterPairSourceCommit heap build.pathPairId replaced.1

/-- `__same_source_bucket_by_identity` -/
def sameSourceBucketByIdentity (current previous : Bucket) : Bool :=
  decide (current.items.length = previous.items.length) &&
    previous.items.all fun item => decide (current.get item.1 = some item.2)

/-- `commit_authoritative_pair_sources_for_full_rebuild`, which refuses what was staged on other sources. -/
def commitAuthoritativePairSourcesForFullRebuild (build : PairBuild) : Library :=
  if !sameSourceBucketByIdentity (self.localBucket build.pathPairId) build.previousLocalFiles ||
      !sameSourceBucketByIdentity (self.remoteBucket build.pathPairId) build.previousRemoteFiles then
    self
  else self.adoptAuthoritativePairDelta heap build

/-- `{root_file_id(file.name): file for file in files if file.path_pair_id == path_pair_id}` -/
def bucketOf (pathPairId : Pair) (files : List Address) : Bucket :=
  .ofList ((files.filter fun file => decide ((heap file).pathPairId = pathPairId)).map fun file =>
    (buildFileId (heap file).name pathPairId, file))

/-- `replace_completed_pair_sources_for_full_rebuild` -/
def replaceCompletedPairSourcesForFullRebuild (pathPairId : Pair) (localFiles remoteFiles : Option (List Address)) : Library :=
  let replaced := self.replaceAuthoritativePairSources
    { pathPairId
      previousLocalFiles := self.localBucket pathPairId
      previousRemoteFiles := self.remoteBucket pathPairId
      localFiles := match localFiles with
        | none => self.localBucket pathPairId
        | some files => bucketOf heap pathPairId files
      remoteFiles := match remoteFiles with
        | none => self.remoteBucket pathPairId
        | some files => bucketOf heap pathPairId files }
  if localFiles.isSome then replaced.2.recordAfterPairSourceCommit heap pathPairId replaced.1 else replaced.2

/-- The operations on the inventory. -/
inductive Operation where
  | begin (enabled changed : List Pair)
  | observe (o : Observation)
  | record (pathPairIds : List Pair)
  | adopt (build : PairBuild)
  | commit (build : PairBuild)
  | replace (pathPairId : Pair) (localFiles remoteFiles : Option (List Address))

def step : Operation → Library
  | .begin enabled _ => self.beginLocalInventoryRuntimeGeneration enabled
  | .observe o => self.observeLocalScanResult o
  | .record pathPairIds => self.recordLocalInventoryCompletion heap pathPairIds
  | .adopt build => self.adoptAuthoritativePairDelta heap build
  | .commit build => self.commitAuthoritativePairSourcesForFullRebuild heap build
  | .replace pathPairId localFiles remoteFiles =>
    self.replaceCompletedPairSourcesForFullRebuild heap pathPairId localFiles remoteFiles

end

/-- One operation after the other. -/
def run (heap : Address → SystemFile) : Library → List Operation → Library
  | self, [] => self
  | self, op :: ops => run heap (self.step heap op) ops

end Library

end SeedSync.Builder
