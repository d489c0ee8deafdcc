import SeedSync.System.File
import SeedSync.Lib.Dict
import Mathlib.Data.List.Sort

/-!
# What the builder asks of the scanned trees

The static tree predicates of `ModelBuilder`. A dict comprehension over the children of a node
is read by name, so the last sibling of a name stands for it (`childNamed`).
-/

namespace SeedSync

namespace SystemFile

def mtimeNs (file : SystemFile) : Option Int := file.attrs.mtimeNs
def statusSidecarReady (file : SystemFile) : Bool := file.attrs.statusSidecarReady
def hasStagingOrigin (file : SystemFile) : Option Bool := file.attrs.hasStagingOrigin
def pathPairName (file : SystemFile) : Option String := file.attrs.pathPairName

@[simp] theorem isDir_mk (a : FileAttrs) (cs : List SystemFile) : (mk a cs).isDir = a.isDir := rfl
@[simp] theorem size_mk (a : FileAttrs) (cs : List SystemFile) : (mk a cs).size = a.size := rfl

/-- Assign to attributes of a node. -/
def modifyAttrs (f : FileAttrs → FileAttrs) (file : SystemFile) : SystemFile := mk (f file.attrs) file.children

/-- A later sibling has the name of `child`, so the comprehension drops `child`. -/
def shadowed (child : SystemFile) (later : List SystemFile) : Bool := (childNamed later child.name).isSome

/-- The values of `{child.name: child for child in children}`. -/
def childDict : List SystemFile → List SystemFile
  | [] => []
  | c :: cs => if shadowed c cs then childDict cs else c :: childDict cs

end SystemFile

namespace Builder

open SystemFile Lib

/-! ## Staging content -/

mutual
/-- `__has_staging_descendant` -/
def hasStagingDescendant : SystemFile → Bool
  | .mk a cs => a.isStaging || anyStagingDescendant cs

def anyStagingDescendant : List SystemFile → Bool
  | [] => false
  | c :: cs => hasStagingDescendant c || anyStagingDescendant cs
end

mutual
/-- `__has_staging_collision_descendant` -/
def hasStagingCollisionDescendant : SystemFile → Bool
  | .mk a cs => a.hasStagingCollision || anyStagingCollisionDescendant cs

def anyStagingCollisionDescendant : List SystemFile → Bool
  | [] => false
  | c :: cs => hasStagingCollisionDescendant c || anyStagingCollisionDescendant cs
end

mutual
/-- `__has_staging_ambiguity_descendant`, ready sidecars included. -/
def hasStagingAmbiguityDescendant : SystemFile → Bool
  | .mk a cs =>
    a.isStaging || a.hasStagingOrigin == some true || a.hasStagingCollision || a.statusSidecarReady ||
      anyStagingAmbiguityDescendant cs

def anyStagingAmbiguityDescendant : List SystemFile → Bool
  | [] => false
  | c :: cs => hasStagingAmbiguityDescendant c || anyStagingAmbiguityDescendant cs
end

mutual
/-- `__has_remote_transferable_content` -/
def hasRemoteTransferableContent : SystemFile → Bool
  | .mk a cs => !a.isDir || anyRemoteTransferableContent cs

def anyRemoteTransferableContent : List SystemFile → Bool
  | [] => false
  | c :: cs => hasRemoteTransferableContent c || anyRemoteTransferableContent cs
end

/-! ## One leaf -/

/-- `__is_authoritative_local_file` -/
def isAuthoritativeLocalFile : Option SystemFile → Bool
  | none => false
  | some file => !file.isStaging && !file.hasStagingCollision

/-- `__local_size_is_authoritative_progress` -/
def localSizeIsAuthoritativeProgress (localFile remoteFile : Option SystemFile)
    (retainedSizeLocal : Option Int) : Bool :=
  match localFile, retainedSizeLocal with
  | some file, some retained =>
    isAuthoritativeLocalFile localFile &&
      (decide (retained ≤ file.size) || remoteFile.any fun remote => decide (remote.size ≤ file.size))
  | _, _ => false

/-- `__local_file_proves_download_completion` -/
def localFileProvesDownloadCompletion (localFile remoteFile : Option SystemFile) : Bool :=
  match localFile, remoteFile with
  | some file, some remote => isAuthoritativeLocalFile localFile && decide (remote.size ≤ file.size)
  | _, _ => false

/-- `__mtime_epoch_second` -/
def mtimeEpochSecond (file : SystemFile) : Option Int := file.mtimeNs.map (· / 1000000000)

/-- `__leaf_matches_remote_identity` -/
def leafMatchesRemoteIdentity (remote candidate : SystemFile) : Bool :=
  !remote.isDir && !candidate.isDir && candidate.size == remote.size && candidate.mtimeNs.isSome &&
    candidate.mtimeNs == remote.mtimeNs

/-- `__is_verified_final_leaf` -/
def isVerifiedFinalLeaf (remote candidate : SystemFile) : Bool :=
  !remote.isDir && !candidate.isDir && isAuthoritativeLocalFile (some candidate) &&
    leafMatchesRemoteIdentity remote candidate

/-- `__leaf_matches_remote_queue_exclusion_identity` -/
def leafMatchesRemoteQueueExclusionIdentity (remote candidate : SystemFile) : Bool :=
  !remote.isDir && !candidate.isDir && isAuthoritativeLocalFile (some candidate) &&
    candidate.size == remote.size &&
    match candidate.mtimeNs, remote.mtimeNs with
    | some mine, some theirs =>
      mine == theirs || (mine % 1000000000 == 0 && mine / 1000000000 == theirs / 1000000000)
    | _, _ => false

/-- `__leaf_matches_remote_collision_identity` -/
def leafMatchesRemoteCollisionIdentity (remote candidate : SystemFile) : Bool :=
  !remote.isDir && !candidate.isDir && candidate.size == remote.size &&
    match candidate.mtimeNs, remote.mtimeNs with
    | some mine, some theirs => mine / 1000000000 == theirs / 1000000000
    | _, _ => false

/-- `__remote_indicates_newer_content` -/
def remoteIndicatesNewerContent (localFile : SystemFile) : Option SystemFile → Bool
  | none => false
  | some remote =>
    if !localFileProvesDownloadCompletion (some localFile) (some remote) then true
    else
      match mtimeEpochSecond localFile, mtimeEpochSecond remote with
      | some mine, some theirs => decide (mine < theirs)
      | _, _ => false

/-! ## Bytes held below a root -/

mutual
/-- `__authoritative_remote_leaf_progress_bytes` -/
def authoritativeRemoteLeafProgressBytes : SystemFile → Option SystemFile → Nat
  | .mk _ _, none => 0
  | .mk a cs, some mine =>
    if a.isDir ≠ mine.isDir ∨ mine.hasStagingCollision then 0
    else if !a.isDir then if isAuthoritativeLocalFile (some mine) then min mine.size a.size else 0
    else sumAuthoritativeBytes cs mine.children

def sumAuthoritativeBytes : List SystemFile → List SystemFile → Nat
  | [], _ => 0
  | c :: cs, mine => authoritativeRemoteLeafProgressBytes c (childNamed mine c.name) + sumAuthoritativeBytes cs mine
end

mutual
/-- `__trusted_final_leaf_bytes`: the walk follows the local children. -/
def trustedFinalLeafBytes : Option SystemFile → SystemFile → Bool → Nat
  | none, .mk _ _, _ => 0
  | some remote, .mk a cs, ancestorHasStagingCollision =>
    if remote.isDir ≠ a.isDir then 0
    else
      let collided := ancestorHasStagingCollision || a.hasStagingCollision
      if !remote.isDir then
        if leafMatchesRemoteQueueExclusionIdentity remote (.mk a cs) && !collided then min a.size remote.size else 0
      else sumTrustedFinalLeafBytes remote.children cs collided

def sumTrustedFinalLeafBytes : List SystemFile → List SystemFile → Bool → Nat
  | _, [], _ => 0
  | remotes, c :: cs, collided =>
    trustedFinalLeafBytes (childNamed remotes c.name) c collided + sumTrustedFinalLeafBytes remotes cs collided
end

/-! ## Splitting a root between its final and its staging tree -/

mutual
/-- `__has_verified_split_root_final_leaf`, less its observers. -/
def hasVerifiedSplitRootFinalLeaf : SystemFile → Option SystemFile → Bool
  | .mk _ _, none => false
  | .mk a cs, some remote =>
    if a.isDir ≠ remote.isDir then false
    else if !a.isDir then !a.hasStagingCollision && isVerifiedFinalLeaf remote (.mk a cs)
    else anyVerifiedSplitRootFinalLeaf cs remote.children

def anyVerifiedSplitRootFinalLeaf : List SystemFile → List SystemFile → Bool
  | [], _ => false
  | c :: cs, remotes =>
    hasVerifiedSplitRootFinalLeaf c (childNamed remotes c.name) || anyVerifiedSplitRootFinalLeaf cs remotes
end

/-- Where the walk stands in the active tree. -/
inductive ActivePath where
  | at (file : SystemFile)
  | missing
  | conflict

/-- The active node that stands for an existing node. -/
def ActivePath.enter (isDir : Bool) : Option SystemFile → ActivePath
  | none => .missing
  | some active => if active.isDir ≠ isDir then .conflict else .at active

/-- The step of the walk to an existing child. -/
def ActivePath.child (path : ActivePath) (existing : SystemFile) : ActivePath :=
  match path with
  | .at active => .enter existing.isDir (if active.isDir then childNamed active.children existing.name else none)
  | .missing => .missing
  | .conflict => .conflict

mutual
/-- `queue_trusted_final_leaf_absent_from_active`, as the queue observer leaves it when no
verified leaf ends the walk of `__has_verified_split_root_final_leaf` early. -/
def queueTrustedFinalLeafAbsent : SystemFile → Option SystemFile → ActivePath → Bool
  | .mk _ _, none, _ => false
  | .mk a cs, some remote, path =>
    if a.isDir ≠ remote.isDir then false
    else if !a.isDir then
      match path with
      | .missing => !a.statusSidecarReady && leafMatchesRemoteQueueExclusionIdentity remote (.mk a cs)
      | _ => false
    else anyQueueTrustedFinalLeafAbsent cs remote.children path

def anyQueueTrustedFinalLeafAbsent : List SystemFile → List SystemFile → ActivePath → Bool
  | [], _, _ => false
  | c :: cs, remotes, path =>
    queueTrustedFinalLeafAbsent c (childNamed remotes c.name) (path.child c) ||
      anyQueueTrustedFinalLeafAbsent cs remotes path
end

mutual
/-- `__final_split_root_structure` -/
def finalSplitRootStructure : SystemFile → Option SystemFile → Option SystemFile
  | .mk _ _, none => none
  | .mk a cs, some remote =>
    if a.isDir ≠ remote.isDir then none
    else if !a.isDir then
      if leafMatchesRemoteQueueExclusionIdentity remote (.mk a cs) then some (.mk a cs) else none
    else
      let retained := retainedFinalChildren cs remote.children
      if retained.isEmpty && a.isStaging then none
      else some (cloneSystemFile (.mk a cs) (some retained) (some false))

def retainedFinalChildren : List SystemFile → List SystemFile → List SystemFile
  | [], _ => []
  | c :: cs, remotes =>
    match finalSplitRootStructure c (childNamed remotes c.name) with
    | some kept => kept :: retainedFinalChildren cs remotes
    | none => retainedFinalChildren cs remotes
end

/-- `active_file.is_staging or active_file.has_staging_origin is True` marks the merged node. -/
def markStagingOrigin (active : SystemFile) (attrs : FileAttrs) : FileAttrs :=
  if active.isStaging || active.hasStagingOrigin == some true then { attrs with hasStagingOrigin := some true }
  else attrs

/-- `{child.name: child for child in children}` as a dict. -/
def namedChildren (children : List SystemFile) : Dict String SystemFile :=
  children.foldl (fun d c => d.set c.name c) {}

mutual
/-- `__merge_active_split_root` -/
def mergeActiveSplitRoot : SystemFile → SystemFile → Option SystemFile → SystemFile
  | .mk a cs, active, remote =>
    if a.isDir ≠ active.isDir then
      -- The shape that the remote tree has is kept; either way the node is ambiguous.
      let kept := if remote.any (fun r => r.isDir = a.isDir) then SystemFile.mk a cs else active
      kept.modifyAttrs fun x => { x with hasStagingCollision := true }
    else if a.isDir then
      let remotes := match remote with
        | some r => if r.isDir then r.children else []
        | none => []
      let (merged, rest) := mergeSplitChildren cs (namedChildren active.children) remotes
      let sorted := (merged ++ rest.items.map Prod.snd).insertionSort (fun x y => x.name ≤ y.name)
      (cloneSystemFile (.mk a cs) (some sorted) (some (a.isStaging && active.isStaging))).modifyAttrs fun x =>
        { markStagingOrigin active x with
          hasStagingCollision := a.hasStagingCollision || active.hasStagingCollision }
    else if !a.isStaging && remote.any (fun r => leafMatchesRemoteIdentity r (.mk a cs)) then
      -- The final copy wins; a staging duplicate of another identity leaves a collision.
      (SystemFile.mk a cs).modifyAttrs fun x =>
        { markStagingOrigin active x with
          hasStagingCollision := !remote.any fun r => leafMatchesRemoteIdentity r active }
    else
      active.modifyAttrs fun x =>
        { x with hasStagingCollision := a.hasStagingCollision || active.hasStagingCollision }

/-- The loop over the existing children: the merged ones, and the active children left over. -/
def mergeSplitChildren : List SystemFile → Dict String SystemFile → List SystemFile →
    List SystemFile × Dict String SystemFile
  | [], actives, _ => ([], actives)
  | c :: cs, actives, remotes =>
    match actives.get c.name with
    | none =>
      let (merged, rest) := mergeSplitChildren cs actives remotes
      match finalSplitRootStructure c (childNamed remotes c.name) with
      | some kept => (kept :: merged, rest)
      | none => (merged, rest)
    | some active =>
      let (merged, rest) := mergeSplitChildren cs (actives.pop c.name) remotes
      (mergeActiveSplitRoot c active (childNamed remotes c.name) :: merged, rest)
end

/-! ## Complete copies -/

/-- A local child without a remote counterpart that keeps its directory from being complete. -/
def blockingExtra (remotes : List SystemFile) (child : SystemFile) : Bool :=
  (childNamed remotes child.name).isNone && (child.hasStagingCollision || hasStagingDescendant child)

mutual
/-- `__directory_leaves_cover_remote` -/
def directoryLeavesCoverRemote : SystemFile → Option SystemFile → Bool
  | .mk _ _, none => false
  | .mk a cs, some mine =>
    if a.isDir ≠ mine.isDir then false
    else if mine.hasStagingCollision then false
    else if !a.isDir then decide (a.size ≤ mine.size)
    else if (childDict mine.children).any (blockingExtra cs) then false
    else childrenCoverRemote cs mine.children

def childrenCoverRemote : List SystemFile → List SystemFile → Bool
  | [], _ => true
  | c :: cs, mine =>
    (shadowed c cs || directoryLeavesCoverRemote c (childNamed mine c.name)) && childrenCoverRemote cs mine
end

mutual
/-- `__directory_leaves_cover_remote_for_presentation` -/
def directoryLeavesCoverRemoteForPresentation : SystemFile → Option SystemFile → Bool
  | .mk _ _, none => false
  | .mk a cs, some mine =>
    if a.isDir ≠ mine.isDir then false
    else if mine.hasStagingCollision then false
    else if !a.isDir then decide (a.size ≤ mine.size)
    else childrenCoverRemoteForPresentation cs mine.children

def childrenCoverRemoteForPresentation : List SystemFile → List SystemFile → Bool
  | [], _ => true
  | c :: cs, mine =>
    directoryLeavesCoverRemoteForPresentation c (childNamed mine c.name) &&
      childrenCoverRemoteForPresentation cs mine
end

/-- `__effective_local_tree_proves_completion` -/
def effectiveLocalTreeProvesCompletion (remote local' : Option SystemFile) : Bool :=
  match remote, local' with
  | some remote, some mine =>
    if remote.isDir ≠ mine.isDir then false
    else if mine.hasStagingCollision then false
    else if remote.isDir then
      directoryLeavesCoverRemote remote (some mine) ||
        (mine.isStaging && mine.children.isEmpty && decide (remote.size ≤ mine.size))
    else decide (remote.size ≤ mine.size)
  | _, _ => false

/-- `__local_transfer_snapshot_is_caught_up` -/
def localTransferSnapshotIsCaughtUp (localFile remoteFile : Option SystemFile)
    (retainedSizeLocal : Option Int := none) : Bool :=
  match remoteFile with
  | some remote =>
    if remote.isDir then
      effectiveLocalTreeProvesCompletion remoteFile localFile ||
        retainedSizeLocal.any fun retained =>
          decide (retained ≤ (authoritativeRemoteLeafProgressBytes remote localFile : Int))
    else if retainedSizeLocal.isNone then localFileProvesDownloadCompletion localFile remoteFile
    else localSizeIsAuthoritativeProgress localFile remoteFile retainedSizeLocal
  | none =>
    if retainedSizeLocal.isNone then localFileProvesDownloadCompletion localFile remoteFile
    else localSizeIsAuthoritativeProgress localFile remoteFile retainedSizeLocal

/-- An effective child outside the remote tree that spoils the identity of its directory. -/
def ambiguousExtra (remotes : List SystemFile) (child : SystemFile) : Bool :=
  (childNamed remotes child.name).isNone &&
    (child.hasStagingOrigin != some false || hasStagingAmbiguityDescendant child)

mutual
/-- `visit` of `__trees_have_verified_complete_staging_remote_identity`: `some saw_leaf` where it
returns `True, saw_leaf`. -/
def visitStagingIdentity : SystemFile → Option SystemFile → Option Bool
  | .mk _ _, none => none
  | .mk a cs, some mine =>
    if a.isDir ≠ mine.isDir ∨ mine.hasStagingCollision then none
    else if !a.isDir then
      if mine.statusSidecarReady then none
      else if mine.isStaging then
        if leafMatchesRemoteCollisionIdentity (.mk a cs) mine then some true else none
      else if leafMatchesRemoteQueueExclusionIdentity (.mk a cs) mine then some false else none
    else if (childDict mine.children).any (ambiguousExtra cs) then none
    else visitStagingChildren cs mine.children

def visitStagingChildren : List SystemFile → List SystemFile → Option Bool
  | [], _ => some false
  | c :: cs, mine =>
    if shadowed c cs then visitStagingChildren cs mine
    else
      match visitStagingIdentity c (childNamed mine c.name), visitStagingChildren cs mine with
      | some here, some rest => some (here || rest)
      | _, _ => none
end

/-- `__trees_have_verified_complete_staging_remote_identity` -/
def treesHaveVerifiedCompleteStagingRemoteIdentity (remote effective : Option SystemFile) : Bool :=
  match remote with
  | none => false
  | some remote => visitStagingIdentity remote effective == some true

end Builder

end SeedSync
