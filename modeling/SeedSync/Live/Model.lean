import Mathlib.Data.List.Sort
import SeedSync.Lib.Dict
import SeedSync.Live.Record

/-!
# The live model

`Model` of `model/model.py`: the roots, the live counters shown over them, the rows that readers
get, and the versions that tell readers of a change. The callbacks of legacy listeners and the
trace of publication provenance are left out; a versioned notification is an entry of a log.
-/

namespace SeedSync.Live

open Lib

/-- An LFTP job id and the value of its type. -/
abbrev JobIdentity := Int × String

/-- One call of `model_version_published`. -/
structure Notice where
  scopeVersion : Nat
  globalVersion : Nat
  scopeId : Option String
  fileId : String
  deriving DecidableEq, Repr

structure Model where
  filesById : Table (fun file : RootFile => file.fileId) := {}
  orderedFileIds : List String := []
  fileIdsByName : Dict String (List String) := {}
  version : Nat := 0
  scopeVersions : Dict PairId Nat := {}
  activeProgressOverlays : Dict String ActiveProgressOverlay := {}
  overlayJobIdentities : Dict String JobIdentity := {}
  overlayLifecycleEpochs : Dict String Int := {}
  authoritativeReplacementDepth : Nat := 0
  physicalBaseFallbacks : Dict String Nat := {}
  suppressActiveProgressClear : Nat := 0
  publishedFilesById : Dict String Row := {}
  publishedFileJobIdentities : Dict String JobIdentity := {}
  retiringJobIdentities : Dict String JobIdentity := {}
  /-- Ghost: the notifications so far, the newest last. -/
  notices : List Notice := []

/-- An operation of the model; what it raises does not undo what it did. -/
abbrev Act := ExceptT Error (StateM Model)

/-- `try: … finally: …` -/
def finallyDo {α : Type} (body : Act α) (cleanup : Act Unit) : Act α := fun m =>
  let (result, m) := body m
  let (cleaned, m) := cleanup m
  match cleaned with
  | .ok _ => (result, m)
  | .error e => (.error e, m)

def sorted (ids : List String) : List String := ids.insertionSort (· ≤ ·)

namespace Model

def publishedFile (m : Model) (fileId : String) : Option Row := m.publishedFilesById.get fileId

def scopeVersion (m : Model) (pathPairId : Option String) : Nat := (m.scopeVersions.get pathPairId).getD 0

/-- Drop the live counters of one root. -/
def dropOverlay (m : Model) (fileId : String) : Model :=
  { m with
    activeProgressOverlays := m.activeProgressOverlays.pop fileId
    overlayJobIdentities := m.overlayJobIdentities.pop fileId
    overlayLifecycleEpochs := m.overlayLifecycleEpochs.pop fileId }

/-- The state with other live counters. -/
def withOverlays (m : Model) (overlays : Dict String ActiveProgressOverlay) (identities : Dict String JobIdentity)
    (epochs : Dict String Int) : Model :=
  { m with
    activeProgressOverlays := overlays
    overlayJobIdentities := identities
    overlayLifecycleEpochs := epochs }

end Model

/-! ## Publication -/

def isValidIdentity (identity : JobIdentity) : Bool := decide (0 ≤ identity.1) && identity.2 != ""

/-- A mirror whose root is still being transferred may bind its identity without an overlay. -/
def structuralIdentity (file : RootFile) (identity : Option JobIdentity) : Option JobIdentity :=
  identity.filter fun i =>
    decide (0 ≤ i.1) && i.2 == "mirror" && file.isDir && decide (file.state = .downloading) && file.isStoppable &&
      !file.explicitlyStopped

/-- The identity that the rows of the next publication are bound to. -/
def boundIdentity (m : Model) (file : RootFile) (structural : Option JobIdentity) (published : Row) :
    Option JobIdentity :=
  let fileId := file.fileId
  let found := (m.overlayJobIdentities.get fileId).or
    ((structuralIdentity file structural).or (m.retiringJobIdentities.get fileId))
  match found.filter isValidIdentity with
  | some identity => some identity
  | none =>
    -- An equal row is the same committed publication.
    if (m.publishedFilesById.get fileId).any (fun row => row.toFileRecord == published.toFileRecord) then
      m.publishedFileJobIdentities.get fileId
    else none

/-- The state with a row of a root and the identity that it is bound to. -/
def Model.withPublished (m : Model) (file : RootFile) (structural : Option JobIdentity) (published : Row) : Model :=
  { m with
    publishedFileJobIdentities := match boundIdentity m file structural published with
      | some identity => m.publishedFileJobIdentities.set file.fileId identity
      | none => m.publishedFileJobIdentities.pop file.fileId
    publishedFilesById := m.publishedFilesById.set file.fileId published }

/-- `__refresh_published_file` -/
def refreshPublishedFile (file : RootFile) (structural : Option JobIdentity := none) : Act Row := do
  let m ← get
  let published ← file.toRow.effective (m.activeProgressOverlays.get file.fileId)
  set (m.withPublished file structural published)
  return published

/-- The state after `__advance_version` and `__notify_versioned_change` of one file. -/
def Model.announced (m : Model) (file : RootFile) : Model :=
  let globalVersion := m.version + 1
  let scopeVersion := m.scopeVersion file.pathPairId + 1
  { m with
    version := globalVersion
    scopeVersions := m.scopeVersions.set file.pathPairId scopeVersion
    notices := m.notices ++ [⟨scopeVersion, globalVersion, file.pathPairId, file.fileId⟩] }

def announce (file : RootFile) : Act Unit := modify fun m => m.announced file

/-- The loop that ends every operation on the overlays. -/
def republish (ids : List String) : Act Unit :=
  ids.forM fun fileId => do
    match (← get).filesById.get fileId with
    | none => pure ()
    | some file =>
      let _ ← refreshPublishedFile file
      announce file

/-! ## Overlays -/

/-- `clear_active_progress_overlays` -/
def clearActiveProgressOverlays : Act Unit := do
  let m ← get
  if m.suppressActiveProgressClear ≠ 0 then return
  set (m.withOverlays {} {} {})
  republish (sorted m.activeProgressOverlays.keys)

/-- `clear_active_progress_overlays_except` -/
def clearActiveProgressOverlaysExcept (preserved : List String) : Act (List String) := do
  let m ← get
  let removed := m.activeProgressOverlays.keys.filter fun fileId => decide (fileId ∉ preserved)
  set (removed.foldl Model.dropOverlay m)
  republish (sorted removed)
  return removed

/-- A root that may carry live counters. -/
def admitsOverlay (file : RootFile) : Bool :=
  decide (file.state = .downloading) && file.isStoppable && !file.explicitlyStopped && file.displaySizeTotal.isNone &&
    file.displayTransferredSize.isNone

/-- The roots whose overlay or identity is another one in the maps to come. -/
def changedOverlays (m : Model) (overlays : Dict String ActiveProgressOverlay)
    (identities : Dict String JobIdentity) : List String :=
  (m.activeProgressOverlays.keys ++ overlays.keys).dedup.filter fun fileId =>
    decide (m.activeProgressOverlays.get fileId ≠ overlays.get fileId ∨
      m.overlayJobIdentities.get fileId ≠ identities.get fileId)

/-- `restore_active_progress_overlays` -/
def restoreActiveProgressOverlays (overlays : Dict String ActiveProgressOverlay)
    (jobIdentities : Dict String JobIdentity) : Act (List String) := do
  let m ← get
  let restorable (fileId : String) : Bool :=
    (jobIdentities.get fileId).any isValidIdentity && (m.filesById.get fileId).any admitsOverlay
  let normalized := overlays.filter fun fileId _ => restorable fileId
  let identities := jobIdentities.filter fun fileId _ => normalized.contains fileId
  let changed := changedOverlays m normalized identities
  set (m.withOverlays normalized identities
    (m.overlayLifecycleEpochs.filter fun fileId _ => normalized.contains fileId))
  republish (sorted changed)
  return changed

/-- `clear_active_progress_overlay_if_job_identity_matches` -/
def clearActiveProgressOverlayIfJobIdentityMatches (fileId : String) (identity : JobIdentity) : Act Bool := do
  let m ← get
  if m.overlayJobIdentities.get fileId ≠ some identity ∨ ¬ m.activeProgressOverlays.contains fileId then return false
  set (m.dropOverlay fileId)
  republish [fileId]
  return true

/-- `replace_active_progress_overlays` -/
def replaceActiveProgressOverlays (overlays : Dict String ActiveProgressOverlay) (changedRootIds : List String) :
    Act (List String) := do
  let m ← get
  let changed := changedRootIds.dedup.filter fun fileId =>
    m.filesById.contains fileId && decide (m.activeProgressOverlays.get fileId ≠ overlays.get fileId)
  set (m.withOverlays overlays {} {})
  republish (sorted changed)
  return changed

/-! ## `publish_active_lftp_root_counters` -/

inductive Outcome where
  | jobIdentity | lifecycleEpoch | rootAuthority | accepted
  deriving DecidableEq, Repr

/-- The epochs of the controller, as the model may ask for them. -/
structure Lifecycle where
  /-- `lifecycle_epoch_matches` -/
  epochMatches : String → Bool
  /-- `lifecycle_epoch_for`, where it is given; `none` for what is no integer. -/
  epochFor : Option (String → Option Int)

/-- The locals of the loop over the counters. -/
structure Admission where
  normalized : Dict String ActiveProgressOverlay := {}
  identities : Dict String JobIdentity := {}
  mismatches : Dict String JobIdentity := {}
  rejected : Bool := false

/-- A positive counter of the same job does not fall below the one shown. -/
def continued (new prior : Option Int) : Option Int :=
  match new, prior with
  | some n, some p => if 0 < n then some (max n p) else some n
  | new, _ => new

/-- The counters of the same job as those that are shown. -/
def continuedOverlay (overlay : ActiveProgressOverlay) (prior : Option ActiveProgressOverlay) : ActiveProgressOverlay :=
  match prior with
  | none => overlay
  | some p =>
    { overlay with
      downloadProgress := continued overlay.downloadProgress p.downloadProgress
      transferredSize := continued overlay.transferredSize p.transferredSize }

/-- One turn of the loop: the counters of one root. -/
def admitCounter (m : Model) (jobIdentities : Dict String JobIdentity) (lifecycle : Lifecycle) (admission : Admission)
    (entry : String × ActiveProgressOverlay) : Except Outcome Admission :=
  let (fileId, overlay) := entry
  match (jobIdentities.get fileId).filter isValidIdentity, m.filesById.get fileId with
  | some identity, some file =>
    let epoch := lifecycle.epochFor.bind fun epochFor => epochFor fileId
    if !lifecycle.epochMatches fileId then .error .lifecycleEpoch
    else if lifecycle.epochFor.isSome && epoch.isNone then .error .lifecycleEpoch
    else if (m.overlayLifecycleEpochs.get fileId).any fun previous => epoch.any fun e => decide (previous ≠ e) then
      .error .lifecycleEpoch
    else
      match m.overlayJobIdentities.get fileId with
      | some previous =>
        if previous ≠ identity then
          -- Job ids grow: a newer job retires the old counters, an older row does not.
          .ok { admission with
            rejected := true
            mismatches :=
              if previous.1 < identity.1 then admission.mismatches.set fileId previous else admission.mismatches }
        else if !admitsOverlay file then .error .rootAuthority
        else
          .ok { admission with
            normalized := admission.normalized.set fileId
              (continuedOverlay overlay (m.activeProgressOverlays.get fileId))
            identities := admission.identities.set fileId identity }
      | none =>
        if !admitsOverlay file then .error .rootAuthority
        else
          .ok { admission with
            normalized := admission.normalized.set fileId overlay
            identities := admission.identities.set fileId identity }
  | _, _ => .error .jobIdentity

/-- The epochs that the admitted counters are bound to. -/
def nextEpochs (lifecycle : Lifecycle) (ids : List String) : Dict String Int :=
  match lifecycle.epochFor with
  | none => {}
  | some epochFor => .ofList (ids.filterMap fun fileId => (epochFor fileId).map fun epoch => (fileId, epoch))

/-- `publish_active_lftp_root_counters` -/
def publishActiveLftpRootCounters (overlays : Dict String ActiveProgressOverlay)
    (jobIdentities : Dict String JobIdentity) (lifecycle : Lifecycle) : Act (List String × Outcome) := do
  let m ← get
  match overlays.items.foldlM (admitCounter m jobIdentities lifecycle) {} with
  | .error reason =>
    clearActiveProgressOverlays
    return ([], reason)
  | .ok admission =>
    if admission.rejected then
      (sorted admission.mismatches.keys).forM fun fileId => do
        match admission.mismatches.get fileId with
        | some previous =>
          let _ ← clearActiveProgressOverlayIfJobIdentityMatches fileId previous
        | none => pure ()
      return ([], .jobIdentity)
    let changed := changedOverlays m admission.normalized admission.identities
    set (m.withOverlays admission.normalized admission.identities (nextEpochs lifecycle admission.normalized.keys))
    republish (sorted changed)
    return (changed, .accepted)

/-! ## Roots -/

/-- `__resolve_file_id` -/
def resolveFileId (m : Model) (identifier : String) : Except Error String :=
  if m.filesById.contains identifier then .ok identifier
  else
    match m.fileIdsByName.get identifier with
    | some [fileId] => .ok fileId
    | some (_ :: _ :: _) => .error (.modelError "File lookup is ambiguous in the model")
    | _ => .error (.modelError "File does not exist in the model")

/-- The ids that the name index has for a name. -/
def Model.namedIds (m : Model) (name : String) : List String := (m.fileIdsByName.get name).getD []

/-- The state with one more root. -/
def Model.withRoot (m : Model) (file : RootFile) : Model :=
  { m with
    filesById := m.filesById.put file
    orderedFileIds := m.orderedFileIds.orderedInsert (· ≤ ·) file.fileId
    fileIdsByName := m.fileIdsByName.set file.name ((m.namedIds file.name).insert file.fileId) }

/-- `add_file` -/
def addFile (file : RootFile) (structural : Option JobIdentity := none) : Act Unit := do
  clearActiveProgressOverlays
  let m ← get
  if m.filesById.contains file.fileId then throw (.modelError "File already exists in the model")
  set (m.withRoot file)
  let _ ← refreshPublishedFile file structural
  announce file

/-- `del self.__files_by_id[file_id]` and `self.__ordered_file_ids.remove(file_id)` -/
def Model.withoutRoot (m : Model) (fileId : String) : Model :=
  { m with
    filesById := m.filesById.pop fileId
    orderedFileIds := m.orderedFileIds.erase fileId }

/-- The state without the name, the row and the live counters of a root. -/
def Model.dropRoot (m : Model) (fileId name : String) : Model :=
  let named := (m.namedIds name).erase fileId
  { m.dropOverlay fileId with
    fileIdsByName := if named.isEmpty then m.fileIdsByName.pop name else m.fileIdsByName.set name named
    publishedFilesById := m.publishedFilesById.pop fileId
    publishedFileJobIdentities := m.publishedFileJobIdentities.pop fileId }

/-- `self.__published_files_by_id.get(file_id) or self.__refresh_published_file(file)` -/
def ensurePublished (file : RootFile) : Act Unit := do
  if !(← get).publishedFilesById.contains file.fileId then
    let _ ← refreshPublishedFile file

/-- `remove_file` -/
def removeFile (identifier : String) : Act Unit := do
  clearActiveProgressOverlays
  let fileId ← resolveFileId (← get) identifier
  match (← get).filesById.get fileId with
  | none => throw .keyError
  | some file =>
    ensurePublished file
    modify fun m => m.withoutRoot fileId
    if fileId ∈ (← get).namedIds file.name then
      modify fun m => m.dropRoot fileId file.name
      announce file
    else
      -- The name of a root is not always the one that it was added under.
      throw .keyError

/-- `__candidate_can_retain_active_projection` -/
def candidateCanRetainActiveProjection (file : RootFile) : Bool :=
  admitsOverlay file && !file.completeLocalCoverage && file.localSize != some 0 &&
    file.downloadProgress.all (fun p => decide (p.val < 100)) &&
    file.transferredSize.all (fun t => file.remoteSize.all fun r => decide (t ≤ r)) &&
    (file.downloadProgress.any (fun p => decide (0 < p.val)) || file.transferredSize.any (fun t => decide (0 < t)))

/-- `__retire_active_projection_for_candidate` -/
def retireActiveProjectionForCandidate (file : RootFile) : Act Unit := modify fun m =>
  if m.authoritativeReplacementDepth ≠ 0 ∧ m.activeProgressOverlays.contains file.fileId ∧
      candidateCanRetainActiveProjection file = false then m.dropOverlay file.fileId
  else m

/-- A root whose job is gone keeps the bytes that its local copy proves. -/
def withPhysicalBase (m : Model) (file : RootFile) : RootFile :=
  match m.physicalBaseFallbacks.get file.fileId with
  | some fallback =>
    if file.transferredSize = none ∧ file.localSize.any (fun size => decide (fallback ≤ size)) then
      { file with transferredSize := some fallback }
    else file
  | none => file

/-- `update_file` -/
def updateFile (file : RootFile) (structural : Option JobIdentity := none) : Act Unit := do
  let file := withPhysicalBase (← get) file
  retireActiveProjectionForCandidate file
  clearActiveProgressOverlays
  match (← get).filesById.get file.fileId with
  | none => throw (.modelError "File does not exist in the model")
  | some oldFile =>
    ensurePublished oldFile
    modify fun m => { m with filesById := m.filesById.put file }
    let _ ← refreshPublishedFile file structural
    announce file

/-! ## Replacements -/

/-- A step of the operation that a replacement applies. -/
inductive Edit where
  | addFile (file : RootFile) (structural : Option JobIdentity := none)
  | updateFile (file : RootFile) (structural : Option JobIdentity := none)
  | removeFile (identifier : String)
  | clearActiveProgressOverlays

def Edit.run : Edit → Act Unit
  | addFile file structural => Live.addFile file structural
  | updateFile file structural => Live.updateFile file structural
  | removeFile identifier => Live.removeFile identifier
  | clearActiveProgressOverlays => Live.clearActiveProgressOverlays

/-- The callable of a replacement: edits up to the first that raises, and an error of its own. -/
structure Operation where
  edits : List Edit
  raises : Bool := false

def Operation.run (operation : Operation) : Act Unit := do
  operation.edits.forM Edit.run
  if operation.raises then throw .raised

/-- The overlay goes, and its identity waits for the publication that follows. -/
def Model.retire (m : Model) (fileId : String) : Model :=
  { m.dropOverlay fileId with
    retiringJobIdentities := match m.overlayJobIdentities.get fileId with
      | some identity => m.retiringJobIdentities.set fileId identity
      | none => m.retiringJobIdentities }

/-- The publication of the roots that a replacement retired. -/
def publishRetired (ids : List String) : Act Unit :=
  ids.forM fun fileId => do
    match (← get).filesById.get fileId with
    | none => pure ()
    | some file =>
      let previous := (← get).publishedFilesById.get fileId
      let published ← refreshPublishedFile file
      if !previous.any (fun row => row.toFileRecord == published.toFileRecord) then announce file

/-- `apply_with_active_progress_retained` -/
def applyWithActiveProgressRetained (operation : Operation) (retireFileIds : List String) : Act Unit := do
  let retired := retireFileIds.dedup
  modify fun m => retired.foldl Model.retire m
  modify fun m => { m with suppressActiveProgressClear := m.suppressActiveProgressClear + 1 }
  finallyDo operation.run do
    modify fun m => { m with suppressActiveProgressClear := m.suppressActiveProgressClear - 1 }
    publishRetired (sorted retired)
    modify fun m => { m with retiringJobIdentities := m.retiringJobIdentities.filter fun id _ => decide (id ∉ retired) }

def jobTypeValue : JobType → String
  | .mirror => "mirror"
  | .pget => "pget"
  | .get => "get"

def statusIdentity (status : LftpJobStatus) : JobIdentity := (status.id, jobTypeValue status.type)

/-- A counter that is there and not positive. -/
def isReset (transfer : TransferState) : Bool :=
  transfer.sizeLocal.any (fun v => decide (v ≤ 0)) || transfer.percentLocal.any (fun v => decide (v ≤ 0))

/-- The status leaves the live counters of the job in force. -/
def keepsProjection (identity : JobIdentity) (status : Option LftpJobStatus) (storedEpoch epoch : Option Int) : Bool :=
  status.any (fun s => decide (statusIdentity s = identity) && s.isRunning && !isReset s.totalTransferState) &&
    storedEpoch.all fun stored => decide (epoch = some stored)

/-- `retire` of `apply_authoritative_root_replacement` -/
def retiredRoots (m : Model) (statuses : Dict String LftpJobStatus) (epochFor : String → Option Int) : List String :=
  (m.overlayJobIdentities.items.filter fun item =>
    !keepsProjection item.2 (statuses.get item.1) (m.overlayLifecycleEpochs.get item.1) (epochFor item.1)).map Prod.fst

/-- The bytes of the roots whose job is gone. -/
def physicalBases (m : Model) (statuses : Dict String LftpJobStatus) (retired : List String) : Dict String Nat :=
  .ofList (retired.filterMap fun fileId =>
    if statuses.contains fileId then none
    else ((m.filesById.get fileId).bind fun file => file.transferredSize).map fun size => (fileId, size))

/-- The greater counter, where the candidate has a positive one. -/
def raised (shown : Option Int) (candidate : Option Nat) : Option Int :=
  match candidate with
  | none => shown
  | some c => if 0 < c ∧ shown.all (fun s => decide (s < (c : Int))) then some (c : Int) else shown

/-- The overlay of a root that stays, with the rates of the status or the candidate. -/
def refreshedOverlay (overlay : ActiveProgressOverlay) (file : RootFile) (transfer : TransferState) :
    ActiveProgressOverlay where
  downloadProgress := raised overlay.downloadProgress (file.downloadProgress.map (·.val))
  transferredSize := raised overlay.transferredSize file.transferredSize
  downloadingSpeed := (file.downloadingSpeed.map Int.ofNat).or transfer.speed
  eta := (file.eta.map Int.ofNat).or transfer.eta

/-- One turn of the loop after the replacement. -/
def refreshRetained (replaced retired : List String)
    (statuses : Dict String LftpJobStatus) (entry : String × ActiveProgressOverlay) : Act Unit := do
  let (fileId, overlay) := entry
  if fileId ∈ retired then return
  match statuses.get fileId, (← get).filesById.get fileId with
  | some status, some file =>
    if fileId ∈ replaced ∧ candidateCanRetainActiveProjection file = false then
      match (← get).overlayJobIdentities.get fileId with
      | some identity =>
        let _ ← clearActiveProgressOverlayIfJobIdentityMatches fileId identity
      | none => pure ()
    else
      let refreshed := refreshedOverlay overlay file status.totalTransferState
      if refreshed ≠ overlay then
        modify fun m => { m with activeProgressOverlays := m.activeProgressOverlays.set fileId refreshed }
        let _ ← refreshPublishedFile file
        announce file
  | _, _ => pure ()

/-- The roots that are not the objects they were. -/
def replacedRoots (before after : Dict String RootFile) : List String :=
  (after.items.filter fun item => !(before.get item.1).any fun file => file.object == item.2.object).map Prod.fst

/-- The state in which a replacement runs. -/
def Model.replacing (m : Model) (fallbacks : Dict String Nat) : Model :=
  { m with
    physicalBaseFallbacks := fallbacks
    authoritativeReplacementDepth := m.authoritativeReplacementDepth + 1 }

/-- `apply_authoritative_root_replacement` -/
def applyAuthoritativeRootReplacement (operation : Operation) (statuses : Dict String LftpJobStatus)
    (epochFor : String → Option Int) : Act Unit := do
  let m ← get
  let retired := retiredRoots m statuses epochFor
  set (m.replacing (physicalBases m statuses retired))
  finallyDo (applyWithActiveProgressRetained operation retired) (modify fun after =>
    { after with
      physicalBaseFallbacks := m.physicalBaseFallbacks
      authoritativeReplacementDepth := after.authoritativeReplacementDepth - 1 })
  let after ← get
  after.activeProgressOverlays.items.forM
    (refreshRetained (replacedRoots m.filesById.dict after.filesById.dict) retired statuses)

/-! ## Runs -/

inductive Call where
  | addFile (file : RootFile) (structural : Option JobIdentity := none)
  | updateFile (file : RootFile) (structural : Option JobIdentity := none)
  | removeFile (identifier : String)
  | clearActiveProgressOverlays
  | clearActiveProgressOverlaysExcept (preserved : List String)
  | clearActiveProgressOverlayIfJobIdentityMatches (fileId : String) (identity : JobIdentity)
  | restoreActiveProgressOverlays (overlays : Dict String ActiveProgressOverlay) (jobIdentities : Dict String JobIdentity)
  | replaceActiveProgressOverlays (overlays : Dict String ActiveProgressOverlay) (changedRootIds : List String)
  | publishActiveLftpRootCounters (overlays : Dict String ActiveProgressOverlay)
      (jobIdentities : Dict String JobIdentity) (lifecycle : Lifecycle)
  | applyWithActiveProgressRetained (operation : Operation) (retireFileIds : List String)
  | applyAuthoritativeRootReplacement (operation : Operation) (statuses : Dict String LftpJobStatus)
      (epochFor : String → Option Int)

def Call.run : Call → Act Unit
  | addFile file structural => Live.addFile file structural
  | updateFile file structural => Live.updateFile file structural
  | removeFile identifier => Live.removeFile identifier
  | clearActiveProgressOverlays => Live.clearActiveProgressOverlays
  | clearActiveProgressOverlaysExcept preserved => discard (Live.clearActiveProgressOverlaysExcept preserved)
  | clearActiveProgressOverlayIfJobIdentityMatches fileId identity =>
    discard (Live.clearActiveProgressOverlayIfJobIdentityMatches fileId identity)
  | restoreActiveProgressOverlays overlays identities => discard (Live.restoreActiveProgressOverlays overlays identities)
  | replaceActiveProgressOverlays overlays changed => discard (Live.replaceActiveProgressOverlays overlays changed)
  | publishActiveLftpRootCounters overlays identities lifecycle =>
    discard (Live.publishActiveLftpRootCounters overlays identities lifecycle)
  | applyWithActiveProgressRetained operation retire => Live.applyWithActiveProgressRetained operation retire
  | applyAuthoritativeRootReplacement operation statuses epochFor =>
    Live.applyAuthoritativeRootReplacement operation statuses epochFor

/-- The model after a call, whether it raised or not. -/
def Call.apply (m : Model) (call : Call) : Model := (call.run.run.run m).2

/-- The model after a sequence of calls. -/
def run (calls : List Call) : Model := calls.foldl Call.apply {}

end SeedSync.Live
