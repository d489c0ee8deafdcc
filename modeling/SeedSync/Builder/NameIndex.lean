import SeedSync.Builder.Buckets
import SeedSync.Builder.Deletions

/-!
# The name indexes

What `ModelBuilder` keeps beside its source maps to see whether a name is used twice: how many roots
have a name, how many local roots share a directory and a name, and the names and counts of the jobs
and of the active files that no scan knows. Some mutators count anew, the others adjust what they
believe they touched; every index is what counting anew gives.
-/

namespace SeedSync.Builder.Index

open Lib Paging

/-! ## The state -/

structure IndexedSources where
  localFilesByPair : Buckets := {}
  remoteFilesByPair : Buckets := {}
  activeFiles : Roots := {}
  lftpStatuses : Dict Codes LftpJobStatus := {}
  ambiguousLftpStatusFileIds : List Codes := []
  localRootPaths : Dict PairKey String := {}
  sourceNameCounts : Dict String Int := {}
  localRootNameCounts : Dict (String × String) Int := {}
  /-- `__status_only_file_names` and `__status_only_name_counts` -/
  statusOnly : NameIndex Codes String := {}
  /-- `__active_only_file_names` and `__active_only_name_counts` -/
  activeOnly : NameIndex Codes String := {}

/-- The names of the roots that two dicts hold: of the first where both have one. -/
def unionNames (localFiles remoteFiles : Roots) : List String :=
  (localFiles.keys ∪ remoteFiles.keys).filterMap fun fileId =>
    ((localFiles.get fileId).or (remoteFiles.get fileId)).map SystemFile.name

namespace IndexedSources

variable (b : IndexedSources)

/-- Neither scan knows a root of the id. -/
def unscanned (fileId : Codes) : Bool :=
  (b.localFilesByPair.file fileId).isNone && (b.remoteFilesByPair.file fileId).isNone

def statusOnlyName (fileId : Codes) : Option String :=
  if b.unscanned fileId then (b.lftpStatuses.get fileId).map LftpJobStatus.name else none

def activeOnlyName (fileId : Codes) : Option String :=
  if b.unscanned fileId then (b.activeFiles.get fileId).map SystemFile.name else none

/-- `__local_root_name_key` -/
def localRootNameKey (file : SystemFile) (pair : Option Codes) : Option (String × String) :=
  if file.isStaging then none else (b.localRootPaths.get pair).map fun path => (normalizedPath path, file.name)

/-- The keys of the roots of one bucket. -/
def bucketKeys (pair : Option Codes) (roots : Roots) : List (String × String) :=
  (roots.items.map Prod.snd).filterMap fun file => b.localRootNameKey file pair

/-! ## Counting anew -/

/-- `__refresh_source_name_counts` -/
def refreshSourceNameCounts : IndexedSources :=
  { b with
    sourceNameCounts := .tally (unionNames b.localFilesByPair.flatten b.remoteFilesByPair.flatten)
    statusOnly := .ofDict (b.lftpStatuses.select b.unscanned LftpJobStatus.name)
    activeOnly := .ofDict (b.activeFiles.select b.unscanned SystemFile.name) }

def localRootNames : List (String × String) := b.localFilesByPair.items.flatMap fun item => b.bucketKeys item.1 item.2

/-- `__refresh_local_root_name_counts` -/
def refreshLocalRootNameCounts : IndexedSources := { b with localRootNameCounts := .tally b.localRootNames }

/-- What both recounts leave. -/
def recounted : IndexedSources := b.refreshSourceNameCounts.refreshLocalRootNameCounts

/-! ## Adjusting -/

/-- `__adjust_local_root_name_count` -/
def adjustLocalRootNameCount (pair : Option Codes) (delta : Int) (b : IndexedSources) (file : SystemFile) :
    IndexedSources :=
  match b.localRootNameKey file pair with
  | none => b
  | some key => { b with localRootNameCounts := b.localRootNameCounts.adjust key delta }

/-- `__update_status_only_name_count` -/
def updateStatusOnlyNameCount (fileId : Codes) : IndexedSources :=
  { b with statusOnly := b.statusOnly.rename fileId (b.statusOnlyName fileId) }

/-- `__update_active_only_name_count` -/
def updateActiveOnlyNameCount (fileId : Codes) : IndexedSources :=
  { b with activeOnly := b.activeOnly.rename fileId (b.activeOnlyName fileId) }

end IndexedSources

/-! ## The mutators -/

namespace IndexedSources

variable (b : IndexedSources)

/-- `set_local_files` -/
def setLocalFiles (files : List SystemFile) : IndexedSources :=
  let next := bucketFiles files
  if next.sameBy (fun a b => a.sameBy sameFile b) b.localFilesByPair then b
  else ({ b with localFilesByPair := next } : IndexedSources).refreshSourceNameCounts.refreshLocalRootNameCounts

/-- `set_remote_files` -/
def setRemoteFiles (files : List SystemFile) : IndexedSources :=
  let next := bucketFiles files
  if next.sameBy (fun a b => a.sameBy sameFile b) b.remoteFilesByPair then b
  else ({ b with remoteFilesByPair := next } : IndexedSources).refreshSourceNameCounts

/-- An active file without a pair takes the one pair that the jobs of its name have. -/
def matchPair (file : SystemFile) : SystemFile :=
  if file.pathPairId = none then
    let matching := b.lftpStatuses.items.filterMap fun item =>
      if item.2.name = file.name then item.2.pathPairId else none
    match matching.dedup with
    | [pair] => .mk { file.attrs with pathPairId := some pair } file.children
    | _ => file
  else file

end IndexedSources

mutual
/-- `__mark_active_tree_staging` -/
def markActiveTreeStaging : SystemFile → SystemFile
  | .mk a cs => .mk { a with isStaging := true } (markActiveTreesStaging cs)

def markActiveTreesStaging : List SystemFile → List SystemFile
  | [] => []
  | c :: cs => markActiveTreeStaging c :: markActiveTreesStaging cs
end

/-- `LftpJobStatus.__eq__`, which does not see the pair. -/
def sameStatus (a b : LftpJobStatus) : Bool :=
  decide ({ a with pathPairId := none, pathPairName := none } =
    ({ b with pathPairId := none, pathPairName := none } : LftpJobStatus))

/-- Two sets, as lists of their members. -/
def sameSet (a b : List Codes) : Bool := a.all (fun x => decide (x ∈ b)) && b.all fun x => decide (x ∈ a)

def statusFileId (status : LftpJobStatus) : Codes := rootFileId status.name status.pathPairId

/-- `{root_file_id(file.name, pair): file for file in files if file.path_pair_id == pair}` -/
def pairRoots (pair : Option String) (files : List SystemFile) : Roots :=
  .ofList ((files.filter fun file => decide (file.pathPairId = pair)).map fun file =>
    (rootFileId file.name pair, file))

/-- What `build_authoritative_pair_roots` stages: the pair, and the files of the scans that it selects from. -/
structure PairBuild where
  pathPairId : Option String
  localFiles : List SystemFile
  remoteFiles : List SystemFile

namespace IndexedSources

variable (b : IndexedSources)

/-- `set_active_files` -/
def setActiveFiles (files : List SystemFile) : IndexedSources :=
  let next : Roots := .ofList ((files.map fun file => markActiveTreeStaging (b.matchPair file)).map fun file =>
    (rootId file, file))
  if next.sameBy sameFile b.activeFiles then b
  else
    let touched := (b.activeFiles.keys ∪ next.keys).filter fun fileId =>
      !Dict.sameValue sameFile (b.activeFiles.get fileId) (next.get fileId)
    touched.foldl updateActiveOnlyNameCount { b with activeFiles := next }

/-- `set_lftp_statuses` -/
def setLftpStatuses (statuses : List LftpJobStatus) : IndexedSources :=
  let ids := statuses.map statusFileId
  let ambiguous := (ids.filter fun fileId => decide (1 < ids.count fileId)).dedup
  let next : Dict Codes LftpJobStatus := .ofList
    ((statuses.filter fun status => decide (ids.count (statusFileId status) = 1)).map fun status =>
      (statusFileId status, status))
  let changed := { b with lftpStatuses := next, ambiguousLftpStatusFileIds := ambiguous }
  if next.sameBy sameStatus b.lftpStatuses && sameSet ambiguous b.ambiguousLftpStatusFileIds then changed
  else
    let touched := ((b.lftpStatuses.keys ∪ next.keys) ∪ (b.ambiguousLftpStatusFileIds ∪ ambiguous)).filter fun fileId =>
      !Dict.sameValue sameStatus (b.lftpStatuses.get fileId) (next.get fileId) ||
        (decide (fileId ∈ b.ambiguousLftpStatusFileIds) != decide (fileId ∈ ambiguous))
    touched.foldl updateStatusOnlyNameCount changed

/-- `set_local_root_paths` -/
def setLocalRootPaths (paths : Dict (Option Codes) String) : IndexedSources :=
  ({ b with localRootPaths := paths.filter fun _ path => decide (path ≠ "") } : IndexedSources).refreshLocalRootNameCounts

/-- A scanned directory takes the place of the equal root that `set_local_files` kept. -/
def adoptRoot (b : IndexedSources) (source : Codes × SystemFile) : IndexedSources :=
  if source.2.isDir = false then b
  else
    match b.localFilesByPair.file source.1 with
    | none => b
    | some adopted =>
      if sameFile adopted source.2 then
        { b with
          localFilesByPair := b.localFilesByPair.set (pairKey source.2)
            ((b.localFilesByPair.bucket (pairKey source.2)).set source.1 source.2) }
      else b

/-- `adopt_local_root_scan_sources`: the roots, their sessions and their generations by id. -/
def adoptLocalRootScanSources (sources : Dict Codes (SystemFile × String × Int)) : IndexedSources :=
  let accepted := sources.filter fun fileId source => decide (0 ≤ source.2.2 ∧ rootId source.1 = fileId)
  let roots := accepted.items.map fun item => (item.1, item.2.1)
  let retained := b.localFilesByPair.files.map fun root => (rootId root, root)
  let rootsById : Roots := .ofList (retained ++ roots)
  roots.foldl adoptRoot (b.setLocalFiles (rootsById.items.map Prod.snd))

/-- `evict_active_file_ids` -/
def evictActiveFileIds (fileIds : List Codes) : IndexedSources :=
  let removed := b.activeFiles.keys.filter fun fileId => decide (fileId ∈ fileIds)
  let retained := b.activeFiles.filter fun fileId _ => decide (fileId ∉ fileIds)
  if retained.items.length = b.activeFiles.items.length then b
  else removed.foldl updateActiveOnlyNameCount { b with activeFiles := retained }

/-- `__replace_authoritative_pair_sources` -/
def replaceAuthoritativePairSources (pathPairId : Option String) (nextLocal nextRemote : Roots) : IndexedSources :=
  let pair := pathPairId.map codes
  let previousLocal := b.localFilesByPair.bucket pair
  let previousRemote := b.remoteFilesByPair.bucket pair
  let counts := (unionNames previousLocal previousRemote).foldl (fun counts name => counts.adjust name (-1))
    b.sourceNameCounts
  let counts := (unionNames nextLocal nextRemote).foldl Dict.increment counts
  let b := { b with sourceNameCounts := counts }
  let b := (previousLocal.items.map Prod.snd).foldl (adjustLocalRootNameCount pair (-1)) b
  let b := (nextLocal.items.map Prod.snd).foldl (adjustLocalRootNameCount pair 1) b
  let b := { b with
    localFilesByPair := b.localFilesByPair.replace pair nextLocal
    remoteFilesByPair := b.remoteFilesByPair.replace pair nextRemote }
  let affected := (previousLocal.keys ∪ previousRemote.keys) ∪ (nextLocal.keys ∪ nextRemote.keys)
  affected.foldl (fun b fileId => (b.updateStatusOnlyNameCount fileId).updateActiveOnlyNameCount fileId) b

/-- `adopt_authoritative_pair_delta` -/
def adoptAuthoritativePairDelta (build : PairBuild) : IndexedSources :=
  b.replaceAuthoritativePairSources build.pathPairId (pairRoots build.pathPairId build.localFiles)
    (pairRoots build.pathPairId build.remoteFiles)

/-- `commit_authoritative_pair_sources_for_full_rebuild`, which goes on only while the buckets hold the very
objects that the build found in them. -/
def commitAuthoritativePairSourcesForFullRebuild (build : PairBuild) (sameByIdentity : Bool) : IndexedSources :=
  if sameByIdentity then b.adoptAuthoritativePairDelta build else b

/-- `replace_completed_pair_sources_for_full_rebuild` -/
def replaceCompletedPairSourcesForFullRebuild (pathPairId : Option String)
    (localFiles remoteFiles : Option (List SystemFile)) : IndexedSources :=
  let next (buckets : Buckets) : Option (List SystemFile) → Roots
    | none => buckets.bucket (pathPairId.map codes)
    | some files => pairRoots pathPairId files
  b.replaceAuthoritativePairSources pathPairId (next b.localFilesByPair localFiles)
    (next b.remoteFilesByPair remoteFiles)

/-- `clear`, which leaves the root paths. -/
def clear : IndexedSources := { localRootPaths := b.localRootPaths }

end IndexedSources

/-! ## Confirmed deletions -/

/-- The string of a text, if it has no surrogate. -/
def textOf? (text : Codes) : Option String :=
  let string := String.ofList (text.map Char.ofNat)
  if codes string = text then some string else none

/-- `__completion_relative_path_segments`. No child has a name with a surrogate. -/
def relativeSegments (fileId : Codes) (root : SystemFile) (pair : Option Codes) : Option (List String) :=
  let target := completionFilePath fileId
  let lead := codes (root.name ++ "/")
  if target.2 ≠ pair ∨ lead.isPrefixOf target.1 = false then none
  else
    let segments := (target.1.drop lead.length).splitOn 47
    if segments.any (fun segment => decide (segment ∈ [codes "", codes ".", codes ".."])) then none
    else segments.mapM textOf?

/-- The first root in which the deletion changes something is replaced. The roots of a bucket all have its pair;
of the active files only those of the pair are looked at. -/
def pruneRoots (fileId : Codes) (pair : Option Codes) (roots : Roots) : List (Codes × SystemFile) → Option Roots
  | [] => none
  | (rootFileId, root) :: items =>
    if pairKey root ≠ pair then pruneRoots fileId pair roots items
    else
      match relativeSegments fileId root pair with
      | none => pruneRoots fileId pair roots items
      | some segments =>
        let pruned := root.pruneConfirmedLocalDescendant segments
        if pruned.2.2 then some (roots.set rootFileId pruned.1) else pruneRoots fileId pair roots items

/-- What a confirmed id does to the roots of one dict, when it changes them. -/
def confirmRoots (fileId : Codes) (pair : Option Codes) (roots : Roots) : Option Roots :=
  match roots.get fileId with
  | some _ => some (roots.pop fileId)
  | none => pruneRoots fileId pair roots roots.items

namespace IndexedSources

variable (b : IndexedSources)

/-- The loop of `confirm_local_deletions` for one id, and whether a transfer snapshot goes with it. -/
def confirmLocalDeletion (dropsSnapshot : Codes → Bool) (b : IndexedSources) (fileId : Codes) : Option IndexedSources :=
  let pair := fileIdPathPairId fileId
  let localFiles := confirmRoots fileId pair (b.localFilesByPair.bucket pair)
  let activeFiles := confirmRoots fileId pair b.activeFiles
  if localFiles = none ∧ activeFiles = none ∧ dropsSnapshot fileId = false then none
  else some
    { b with
      localFilesByPair := match localFiles with
        | none => b.localFilesByPair
        | some roots => b.localFilesByPair.replace pair roots
      activeFiles := activeFiles.getD b.activeFiles }

/-- One more id, and whether anything was changed so far. -/
def confirmNext (dropsSnapshot : Codes → Bool) (walk : IndexedSources × Bool) (fileId : Codes) : IndexedSources × Bool :=
  match confirmLocalDeletion dropsSnapshot walk.1 fileId with
  | none => walk
  | some b => (b, true)

/-- `confirm_local_deletions`: the ids in the order in which the set yields them. -/
def confirmLocalDeletions (fileIds : List Codes) (dropsSnapshot : Codes → Bool) : IndexedSources :=
  let walk := fileIds.foldl (confirmNext dropsSnapshot) (b, false)
  if walk.2 then walk.1.refreshSourceNameCounts.refreshLocalRootNameCounts else walk.1

end IndexedSources

/-! ## Runs -/

inductive Mutation where
  | setLocalFiles (files : List SystemFile)
  | setRemoteFiles (files : List SystemFile)
  | setActiveFiles (files : List SystemFile)
  | setLftpStatuses (statuses : List LftpJobStatus)
  | setLocalRootPaths (paths : Dict (Option Codes) String)
  | adoptLocalRootScanSources (sources : Dict Codes (SystemFile × String × Int))
  | evictActiveFileIds (fileIds : List Codes)
  | confirmLocalDeletions (fileIds : List Codes) (dropsSnapshot : Codes → Bool)
  | adoptAuthoritativePairDelta (build : PairBuild)
  | commitAuthoritativePairSourcesForFullRebuild (build : PairBuild) (sameByIdentity : Bool)
  | replaceCompletedPairSourcesForFullRebuild (pathPairId : Option String)
      (localFiles remoteFiles : Option (List SystemFile))
  | clear

namespace Mutation

def apply (b : IndexedSources) : Mutation → IndexedSources
  | setLocalFiles files => b.setLocalFiles files
  | setRemoteFiles files => b.setRemoteFiles files
  | setActiveFiles files => b.setActiveFiles files
  | setLftpStatuses statuses => b.setLftpStatuses statuses
  | setLocalRootPaths paths => b.setLocalRootPaths paths
  | adoptLocalRootScanSources sources => b.adoptLocalRootScanSources sources
  | evictActiveFileIds fileIds => b.evictActiveFileIds fileIds
  | confirmLocalDeletions fileIds dropsSnapshot => b.confirmLocalDeletions fileIds dropsSnapshot
  | adoptAuthoritativePairDelta build => b.adoptAuthoritativePairDelta build
  | commitAuthoritativePairSourcesForFullRebuild build sameByIdentity =>
    b.commitAuthoritativePairSourcesForFullRebuild build sameByIdentity
  | replaceCompletedPairSourcesForFullRebuild pathPairId localFiles remoteFiles =>
    b.replaceCompletedPairSourcesForFullRebuild pathPairId localFiles remoteFiles
  | clear => b.clear

/-- The scanned roots that a mutator is handed. -/
def roots : Mutation → List SystemFile
  | setLocalFiles files => files
  | setRemoteFiles files => files
  | adoptLocalRootScanSources sources => sources.items.map fun item => item.2.1
  | adoptAuthoritativePairDelta build => build.localFiles ++ build.remoteFiles
  | commitAuthoritativePairSourcesForFullRebuild build _ => build.localFiles ++ build.remoteFiles
  | replaceCompletedPairSourcesForFullRebuild _ localFiles remoteFiles =>
    localFiles.getD [] ++ remoteFiles.getD []
  | _ => []

end Mutation

def runMutations (mutations : List Mutation) : IndexedSources := mutations.foldl Mutation.apply {}

end SeedSync.Builder.Index
