import Mathlib.Data.List.Sort
import SeedSync.Lib.Dict
import SeedSync.Lib.Stamp
import SeedSync.Live.Record

/-!
# The model summary

`get_model_summary` of `controller.py`: what it reads, the counts of each path pair, and the cache
that it keeps. A root is its record and the counters that are published for it.
-/

namespace SeedSync.Summary

open Lib Live

/-! ## What a summary reads -/

/-- The counters that `_model_file_progress_presentation` shows. -/
structure Progress where
  downloadProgress : Option Percent
  transferredSize : Option Nat
  downloadingSpeed : Option Nat
  eta : Option Nat
  deriving DecidableEq, Repr

/-- A root of the model, and its published row where there is one. -/
structure Root where
  file : FileRecord
  published : Option Progress := none
  deriving DecidableEq, Repr

/-- `_model_file_progress_presentation` -/
def Root.progress (root : Root) : Progress :=
  root.published.getD ⟨root.file.downloadProgress, root.file.transferredSize, root.file.downloadingSpeed, root.file.eta⟩

/-- `_LocalLibraryInventory` -/
structure Inventory where
  fileCount : Option Nat
  size : Option Nat
  state : String
  deriving DecidableEq, Repr

/-- What a scan-authority snapshot holds under a key. -/
inductive AuthorityValue where
  | int (n : Int)
  | flag (b : Bool)
  | text (s : String)
  deriving DecidableEq, Repr

abbrev Authority := Dict String AuthorityValue

structure Inputs where
  /-- The model's roots in their order, under the global version. -/
  model : Stamped (Table fun root : Root => root.file.fileId) := ⟨0, {}⟩
  /-- The inventory of the model builder, under its revision. -/
  inventory : Stamped (Dict (Option String) Inventory) := ⟨0, {}⟩
  /-- `unknown_local_path_pair_ids_snapshot` -/
  unknownLocal : List (Option String) := []
  reconciledLocal : List (Option String) := []
  reconciledRemote : List (Option String) := []
  /-- The names of the path pairs by id. -/
  pathPairs : Dict String String := {}
  scanAuthority : Authority := {}

/-- `MODEL_LEGACY_SCOPE_ID` -/
def modelLegacyScopeId : String := "__legacy__"

/-- `_model_scope_id` -/
def modelScopeId (pathPairId : Option String) : String := pathPairId.getD modelLegacyScopeId

/-! ## The visible state -/

/-- What a row shows of its state: a state by its name, or one of three others. -/
inductive VisibleState where
  | moving | localOnly | stopped
  | named (state : ModelState)
  deriving DecidableEq, Repr

/-- `_model_record_visible_state` -/
def modelRecordVisibleState (file : FileRecord) : VisibleState :=
  if file.finalMovePending && file.completeLocalCoverage && !file.explicitlyStopped && !file.finalMoveSucceeded &&
      (file.state = .default || file.state = .downloading || file.state = .downloaded) then .moving
  else if file.localPresent && !file.remoteHasTransferableContent &&
      !(file.finalMovePending && file.completeLocalCoverage) then .localOnly
  else
    let union := file.displaySizeTotal.bind fun total => file.displayTransferredSize.map fun transferred => (total, transferred)
    let progressTotal := match union with
      | some (total, _) => some total
      | none => file.remoteSize
    let progressTransferred := match union with
      | some (_, transferred) => some transferred
      | none => file.transferredSize
    let completeUnion := union.all fun (total, transferred) => decide (0 < total ∧ total ≤ transferred)
    let completeProgress := file.completeLocalCoverage && completeUnion && !file.explicitlyStopped
    let retainedProgress := file.remoteHasTransferableContent && decide (0 < progressTotal.getD 0) &&
      (decide (0 < progressTransferred.getD 0) || decide (0 < (file.downloadProgress.map Fin.val).getD 0))
    if (file.state = .default || file.state = .downloaded) && file.explicitlyStopped then .stopped
    else if file.state = .default && completeProgress then .named .downloaded
    else if file.state = .default && retainedProgress then .stopped
    else .named file.state

/-! ## The counts of a path pair -/

structure PairSummary where
  pathPairId : String
  pathPairName : Option String
  rootCount : Nat := 0
  remoteSize : Int := 0
  localSize : Int := 0
  transferredSize : Int := 0
  downloadingSpeed : Int := 0
  remainingBytes : Int := 0
  activeEtaSecondsMax : Option Nat := none
  activeCount : Nat := 0
  queuedCount : Nat := 0
  completedCount : Nat := 0
  stateCounts : Dict ModelState Nat := {}
  visibleStateCounts : Dict VisibleState Nat := {}
  reconciledLocal : Bool
  reconciledRemote : Bool
  localLibraryFileCount : Option Nat
  localLibrarySize : Option Nat
  localLibraryState : String

/-- Whether the scope is reconciled on the local side. -/
def effectivelyReconciledLocal (inputs : Inputs) (scope : String) : Bool :=
  decide (scope ∈ inputs.reconciledLocal.map modelScopeId) && decide (scope ∉ inputs.unknownLocal.map modelScopeId)

/-- `summary_for`, for a scope that has none yet -/
def summaryFor (inputs : Inputs) (scope : String) : PairSummary :=
  let inventory := inputs.inventory.value.get (if scope = modelLegacyScopeId then none else some scope)
  { pathPairId := scope
    pathPairName := inputs.pathPairs.get scope
    reconciledLocal := effectivelyReconciledLocal inputs scope
    reconciledRemote := decide (scope ∈ inputs.reconciledRemote.map modelScopeId)
    localLibraryFileCount := inventory.bind (·.fileCount)
    localLibrarySize := inventory.bind (·.size)
    localLibraryState := (inventory.map (·.state)).getD "waiting_for_scan" }

/-- One more under a key. -/
def countIn {κ : Type} [DecidableEq κ] (counts : Dict κ Nat) (key : κ) : Dict κ Nat :=
  counts.set key ((counts.get key).getD 0 + 1)

/-- The bytes of a root: the total, and how much of it is there. -/
def rootBytes (root : Root) : Option (Int × Int) :=
  let total := root.file.displaySizeTotal.or root.file.remoteSize
  let completed := (root.file.displayTransferredSize.or root.progress.transferredSize).or root.file.localSize
  (total.filter fun total => decide (0 < total)).map fun (total : Nat) =>
    ((total : Int), min (max ((completed.getD 0 : Nat) : Int) 0) (total : Int))

def addBytes (root : Root) (summary : PairSummary) : PairSummary :=
  match rootBytes root with
  | none => summary
  | some (total, completed) =>
    { summary with
      remoteSize := summary.remoteSize + total
      transferredSize := summary.transferredSize + completed
      localSize := summary.localSize + completed }

def addStates (root : Root) (summary : PairSummary) : PairSummary :=
  { summary with
    stateCounts := countIn summary.stateCounts root.file.state
    visibleStateCounts := countIn summary.visibleStateCounts (modelRecordVisibleState root.file) }

/-- What a download under way adds. -/
def addDownloading (root : Root) (summary : PairSummary) : PairSummary :=
  let progress := root.progress
  { summary with
    downloadingSpeed := summary.downloadingSpeed + ((progress.downloadingSpeed.getD 0 : Nat) : Int)
    remainingBytes := summary.remainingBytes + (match root.file.remoteSize with
      | some size => max 0 ((size : Int) - ((progress.transferredSize.getD 0 : Nat) : Int))
      | none => 0)
    activeEtaSecondsMax := match progress.eta with
      | some eta => some (max (summary.activeEtaSecondsMax.getD 0) eta)
      | none => summary.activeEtaSecondsMax }

def addActivity (root : Root) (summary : PairSummary) : PairSummary :=
  let visible := modelRecordVisibleState root.file
  if root.file.state = .downloading ∨ visible = .moving then
    let summary := { summary with activeCount := summary.activeCount + 1 }
    if root.file.state = .downloading then addDownloading root summary else summary
  else if root.file.state = .queued then { summary with queuedCount := summary.queuedCount + 1 }
  else if visible = .named .downloaded ∨ visible = .named .extracted then
    { summary with completedCount := summary.completedCount + 1 }
  else summary

/-- The body of the loop over the roots. -/
def addRoot (root : Root) (summary : PairSummary) : PairSummary :=
  addActivity root (addStates root (addBytes root
    { summary with
      pathPairName := summary.pathPairName.or root.file.pathPairName
      rootCount := summary.rootCount + 1 }))

/-! ## The summary -/

structure ModelSummary where
  modelVersion : Nat
  pathPairs : List PairSummary
  scanAuthority : Authority

/-- `summary_for`: the summary of a scope so far. -/
def summaryOf (inputs : Inputs) (summaries : Dict String PairSummary) (scope : String) : PairSummary :=
  (summaries.get scope).getD (summaryFor inputs scope)

def addInventory (inputs : Inputs) (summaries : Dict String PairSummary) (pair : Option String) : Dict String PairSummary :=
  summaries.set (modelScopeId pair) (summaryOf inputs summaries (modelScopeId pair))

def addToScope (inputs : Inputs) (summaries : Dict String PairSummary) (root : Root) : Dict String PairSummary :=
  let scope := modelScopeId root.file.pathPairId
  summaries.set scope (addRoot root (summaryOf inputs summaries scope))

def rootsOf (inputs : Inputs) : List Root := inputs.model.value.dict.items.map Prod.snd

/-- The summaries by scope, from the inventory and then from the roots. -/
def summariesOf (inputs : Inputs) : Dict String PairSummary :=
  (rootsOf inputs).foldl (addToScope inputs) (inputs.inventory.value.keys.foldl (addInventory inputs) {})

/-- `get_model_summary` without the cache -/
def freshSummary (inputs : Inputs) : ModelSummary where
  modelVersion := inputs.model.stamp
  pathPairs := ((summariesOf inputs).keys.insertionSort (· ≤ ·)).filterMap (summariesOf inputs).get
  scanAuthority := inputs.scanAuthority

end SeedSync.Summary
