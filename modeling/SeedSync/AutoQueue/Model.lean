import SeedSync.Lib.Dict
import SeedSync.Lib.Preorder
import SeedSync.Model.File
import Mathlib.Data.List.Sort

/-!
# The auto-queue

`AutoQueue` of `controller/auto_queue.py`: the listener buffers, one cycle of `process`, and the two
sets of ids that remember what was seen before a path pair was reconciled. What the controller
answers within a cycle, and how a pattern matches, are inputs.
-/

namespace SeedSync.AutoQueue

open Lib

/-! ## Files -/

/-- What a cycle reads of a node. -/
structure Info where
  name : String
  isDir : Bool := false
  state : ModelState := .default
  remoteSize : Option Nat := none
  localSize : Option Nat := none
  remotePresent : Bool := false
  localPresent : Bool := false
  remoteHasTransferableContent : Bool := false
  isExtractable : Bool := false
  deriving DecidableEq

/-- A root of the model. -/
structure File where
  fileId : String
  pathPairId : Option String
  tree : Rose Info

def File.info (file : File) : Info := file.tree.value

/-- One level of a remote tree signature. -/
structure Mark where
  name : String
  isDir : Bool
  remotePresent : Bool
  remoteSize : Option Nat
  remoteHasTransferableContent : Bool
  deriving DecidableEq

def Info.mark (info : Info) : Mark :=
  ⟨info.name, info.isDir, info.remotePresent, info.remoteSize, info.remoteHasTransferableContent⟩

mutual
/-- `__remote_tree_fingerprint` -/
def remoteTreeFingerprint : Rose Info → Option (Rose Mark)
  | .node info children =>
    let below := (remoteTreeFingerprints children).insertionSort fun a b => a.value.name ≤ b.value.name
    if !(info.remotePresent || info.remoteSize.isSome || info.remoteHasTransferableContent) && below.isEmpty then none
    else some (.node info.mark below)

def remoteTreeFingerprints : List (Rose Info) → List (Rose Mark)
  | [] => []
  | tree :: trees => (remoteTreeFingerprint tree).toList ++ remoteTreeFingerprints trees
end

/-- `__is_remote_discovery_changed`; two signatures are equal when their nodes are, in order. -/
def isRemoteDiscoveryChanged (old new : File) : Bool :=
  old.info.remoteSize != new.info.remoteSize ||
  (!old.info.remoteHasTransferableContent && new.info.remoteHasTransferableContent) ||
  (!old.info.remotePresent && new.info.remotePresent && new.info.remoteHasTransferableContent) ||
  decide ((remoteTreeFingerprint old.tree).map (·.items none 0) ≠ (remoteTreeFingerprint new.tree).map (·.items none 0))

mutual
/-- `__has_new_remote_only_transfer_branch` -/
def hasNewRemoteOnlyTransferBranch (old : Rose Info) : Rose Info → Bool
  | .node _ children => anyNewBranch old children

def anyNewBranch (old : Rose Info) : List (Rose Info) → Bool
  | [] => false
  | child :: rest =>
    (match old.children.find? fun other => decide (other.value.name = child.value.name) with
      | none => child.value.remotePresent && child.value.remoteHasTransferableContent && !child.value.localPresent
      | some oldChild =>
        if oldChild.value.isDir != child.value.isDir then false
        else if child.value.remotePresent && child.value.remoteHasTransferableContent && !oldChild.value.remotePresent &&
            !child.value.localPresent then true
        else hasNewRemoteOnlyTransferBranch oldChild child) || anyNewBranch old rest
end

/-! ## State -/

structure Config where
  enabled : Bool
  patternsOnly : Bool
  autoExtractEnabled : Bool
  autoDeleteRemoteEnabled : Bool

/-- The two sets of ids that keep what was seen before reconciliation. -/
structure Lineage where
  deferredRemoteDelete : List String := []
  initialReconciliation : List String := []
  deriving DecidableEq

structure State where
  newFiles : List File := []
  modifiedFiles : List (File × File) := []
  removedFileIds : List String := []
  newPatterns : List String := []
  lineage : Lineage := {}

inductive Action where
  | queue | extract | deleteRemote
  deriving DecidableEq, Repr

structure Command where
  action : Action
  fileId : String
  deriving DecidableEq, Repr

/-- What a cycle finds: the enabled path pairs, the model roots, the answers of the controller and
the patterns that are kept. -/
structure World where
  pairAutoQueue : List (String × Bool) := []
  roots : List File
  isPathPairReconciled : Option String → Bool := fun _ => true
  isRemoteDeleteEligible : File → Bool := fun _ => true
  hasCurrentProcessFinalPublication : File → Bool := fun _ => false
  isOwnedIncompleteTransfer : File → Bool := fun _ => false
  isFileStopped : String → Bool := fun _ => false
  patterns : List String := []

/-- A selected file and the pattern that selected it. -/
abbrev CandidateMatch := File × Option String

namespace World

/-- `__queue_enabled` as `__refresh_queue_state` sets it. -/
def queueEnabled (w : World) (config : Config) : Bool :=
  if w.pairAutoQueue.isEmpty then config.enabled else w.pairAutoQueue.any (·.2)

def isAutoQueueEnabledForFile (w : World) (file : File) : Bool :=
  if w.pairAutoQueue.isEmpty then true
  else
    match file.pathPairId with
    | none => false
    | some pair => ((Dict.ofList w.pairAutoQueue).get pair).getD false

def isOwnedIncompleteDirectory (w : World) (file : File) : Bool :=
  file.info.isDir && w.isOwnedIncompleteTransfer file

def isReconciliationReady (w : World) (file : File) : Bool := w.isPathPairReconciled file.pathPairId

/-- `__current_model_by_id` -/
def currentFiles (w : World) : Dict String File := Dict.ofList (w.roots.map fun file => (file.fileId, file))

end World

def isActiveTransferState (state : ModelState) : Bool := decide (state = .queued ∨ state = .downloading)

def addId (ids : List String) (id : String) : List String := if id ∈ ids then ids else ids ++ [id]

def dropId (ids : List String) (id : String) : List String := ids.filter fun other => decide (other ≠ id)

section Cycle

variable (config : Config) (matchesPattern : String → File → Bool)

/-! ## Candidates to queue and to extract -/

/-- `__filter_candidates` -/
def filterCandidates (w : World) (candidates : List File) (newPatterns : List String) (accept : File → Bool) :
    Dict String CandidateMatch :=
  let matched := candidates.foldl (fun (matched : Dict String CandidateMatch) candidate =>
    match w.currentFiles.get candidate.fileId with
    | none => matched
    | some file =>
      if !w.isReconciliationReady file then matched
      else if config.patternsOnly then
        match w.patterns.find? fun pattern => accept file && matchesPattern pattern file with
        | some pattern => matched.set file.fileId (file, some pattern)
        | none => matched
      else if accept file then matched.set file.fileId (file, none)
      else matched) {}
  newPatterns.foldl (fun matched pattern =>
    w.currentFiles.items.foldl (fun (matched : Dict String CandidateMatch) item =>
      if w.isReconciliationReady item.2 && accept item.2 && matchesPattern pattern item.2 then
        matched.set item.2.fileId (item.2, some pattern)
      else matched) matched) matched

/-- What every queue lane asks of a file. -/
def acceptsQueue (w : World) (grown : File → Bool) (file : File) : Bool :=
  file.info.remoteHasTransferableContent && decide (file.info.state = .default) &&
  (!file.info.localPresent || w.isOwnedIncompleteDirectory file || grown file) && w.isAutoQueueEnabledForFile file

/-- The files to queue, by id. -/
def filesToQueue (w : World) (s : State) (newPatterns : List String) : List CandidateMatch :=
  if w.queueEnabled config then
    let changed := s.modifiedFiles.filter fun event => isRemoteDiscoveryChanged event.1 event.2
    let updates := changed.filter fun event => event.1.info.remotePresent
    let discoveries := changed.filter fun event => !event.1.info.remotePresent
    let proofs (file : File) := updates.any fun event =>
      decide (event.2.fileId = file.fileId) && hasNewRemoteOnlyTransferBranch event.1.tree event.2.tree
    let fresh := filterCandidates config matchesPattern w s.newFiles newPatterns (acceptsQueue w fun _ => false)
    let grown := filterCandidates config matchesPattern w (updates.map (·.2)) newPatterns (acceptsQueue w proofs)
    let found := filterCandidates config matchesPattern w (discoveries.map (·.2)) newPatterns (acceptsQueue w fun _ => false)
    let all := (grown.items ++ found.items).foldl (fun (d : Dict String CandidateMatch) item => d.set item.1 item.2) fresh
    (all.items.map (·.2)).filter fun candidate => !w.isFileStopped candidate.1.fileId
  else []

/-- An update that just reached DOWNLOADED, and not by a failed extraction. -/
def justDownloaded (event : File × File) : Bool :=
  decide (event.1.info.state ≠ .downloaded ∧ event.1.info.state ≠ .extracting ∧ event.2.info.state = .downloaded)

def filesToExtract (w : World) (s : State) (newPatterns : List String) : List CandidateMatch :=
  if config.enabled && config.autoExtractEnabled then
    let candidates := s.newFiles ++ (s.modifiedFiles.filter justDownloaded).map (·.2)
    (filterCandidates config matchesPattern w candidates newPatterns fun file =>
      decide (file.info.state = .downloaded) && decide (0 < file.info.localSize.getD 0) && file.info.isExtractable).items.map (·.2)
  else []

/-! ## Candidates to delete -/

/-- `__is_remote_delete_transition` -/
def isRemoteDeleteTransition (old new : File) : Bool :=
  if !new.info.remoteHasTransferableContent then false
  else if old.info.state = new.info.state then false
  else if new.info.state = .extracted then decide (old.info.state = .extracting)
  else if new.info.state = .downloaded then
    if new.info.isExtractable then false
    else decide (old.info.state ≠ .downloaded ∧ old.info.state ≠ .extracted ∧ old.info.state ≠ .extracting)
  else false

/-- One turn of the first loop: a new file of a pair that is not reconciled is remembered. -/
def markNewFile (w : World) (lineage : Lineage) (newFile : File) : Lineage :=
  match w.currentFiles.get newFile.fileId with
  | none => lineage
  | some file =>
    if w.isReconciliationReady file then lineage
    else { lineage with initialReconciliation := addId lineage.initialReconciliation file.fileId }

def markNewFiles (w : World) (lineage : Lineage) (newFiles : List File) : Lineage := newFiles.foldl (markNewFile w) lineage

/-- The id leaves a set on proof of a transfer by this process; without the proof the event is passed over. -/
def leaveLineage (w : World) (ids : List String) (old file : File) : Option (List String) :=
  if file.fileId ∈ ids then
    if !isActiveTransferState old.info.state && !w.hasCurrentProcessFinalPublication file then none
    else some (dropId ids file.fileId)
  else some ids

/-- The pattern of a file that may be deleted. -/
def deletePattern (w : World) (file : File) : Option (Option String) :=
  if config.patternsOnly then (w.patterns.find? fun pattern => matchesPattern pattern file).map some else some none

/-- One turn of the second loop. -/
def evaluateEvent (w : World) (lineage : Lineage) (event : File × File) : Lineage × Option CandidateMatch :=
  match w.currentFiles.get event.2.fileId with
  | none => (lineage, none)
  | some file =>
    if !w.isReconciliationReady file then
      ({ lineage with deferredRemoteDelete := addId lineage.deferredRemoteDelete file.fileId }, none)
    else
      match leaveLineage w lineage.deferredRemoteDelete event.1 file with
      | none => (lineage, none)
      | some deferred =>
        match leaveLineage w lineage.initialReconciliation event.1 file with
        | none => ({ lineage with deferredRemoteDelete := deferred }, none)
        | some initial =>
          (⟨deferred, initial⟩,
            if w.isAutoQueueEnabledForFile file && w.isRemoteDeleteEligible file && isRemoteDeleteTransition event.1 file then
              (deletePattern config matchesPattern w file).map fun pattern => (file, pattern)
            else none)

/-- The second loop: the lineage behind it and the files to delete. -/
def evaluateEvents (w : World) (lineage : Lineage) (events : List (File × File)) : Lineage × Dict String CandidateMatch :=
  events.foldl (fun (acc : Lineage × Dict String CandidateMatch) event =>
    let (lineage, found) := evaluateEvent config matchesPattern w acc.1 event
    (lineage, match found with
      | some candidate => acc.2.set candidate.1.fileId candidate
      | none => acc.2)) (lineage, {})

/-- `__filter_delete_remote_candidates`, behind the test of `__enabled` -/
def filterDeleteRemoteCandidates (w : World) (s : State) : Lineage × List CandidateMatch :=
  if config.enabled && config.autoDeleteRemoteEnabled then
    let (lineage, matched) := evaluateEvents config matchesPattern w (markNewFiles w s.lineage s.newFiles) s.modifiedFiles
    (lineage, matched.items.map (·.2))
  else (s.lineage, [])

/-! ## A cycle -/

/-- `__retain_remote_growth_event` -/
def retainRemoteGrowthEvent (w : World) (selected : List String) (event : File × File) : Bool :=
  match w.currentFiles.get event.2.fileId with
  | none => false
  | some file =>
    if !w.isReconciliationReady event.2 then true
    else if !isActiveTransferState event.1.info.state || !isRemoteDiscoveryChanged event.1 event.2 then false
    else if event.2.fileId ∈ selected then false
    else if !file.info.isDir || !file.info.remoteHasTransferableContent then false
    else if isActiveTransferState file.info.state then !w.isFileStopped file.fileId
    else if file.info.state ≠ .default ∨ w.isFileStopped file.fileId then false
    else if !w.isOwnedIncompleteDirectory file then false
    else if !w.isAutoQueueEnabledForFile file then false
    else !config.patternsOnly || w.patterns.any fun pattern => matchesPattern pattern file

/-- The removals that the listener reported are taken out of the lineage. -/
def State.forgetRemoved (s : State) : State :=
  { s with
    removedFileIds := []
    lineage := {
      deferredRemoteDelete := s.lineage.deferredRemoteDelete.filter fun id => decide (id ∉ s.removedFileIds)
      initialReconciliation := s.lineage.initialReconciliation.filter fun id => decide (id ∉ s.removedFileIds) } }

/-- The commands of a cycle, in the order in which they are sent. -/
def cycleCommands (queued extracted deleted : List CandidateMatch) : List Command :=
  queued.map (fun candidate => ⟨.queue, candidate.1.fileId⟩) ++
    (extracted.map (fun candidate => ⟨.extract, candidate.1.fileId⟩) ++
      deleted.map fun candidate => ⟨.deleteRemote, candidate.1.fileId⟩)

/-- What a cycle keeps for the next one. -/
def State.retained (s : State) (w : World) (lineage : Lineage) (queued : List CandidateMatch) : State :=
  { s with
    newPatterns := []
    lineage := {
      deferredRemoteDelete := lineage.deferredRemoteDelete.filter fun id => w.currentFiles.contains id
      initialReconciliation := lineage.initialReconciliation.filter fun id => w.currentFiles.contains id }
    newFiles := s.newFiles.filter fun file => w.currentFiles.contains file.fileId && !w.isReconciliationReady file
    modifiedFiles :=
      s.modifiedFiles.filter (retainRemoteGrowthEvent config matchesPattern w (queued.map fun candidate => candidate.1.fileId)) }

/-- The cycle behind the idle test. The controller takes `taken` commands before it raises; the
buffers and the patterns are then kept, while the lineage has changed. -/
def activeCycle (w : World) (taken : Option Nat) (s : State) : State × List Command :=
  let queued := filesToQueue config matchesPattern w s s.newPatterns
  let extracted := filesToExtract config matchesPattern w s s.newPatterns
  let (lineage, deleted) := filterDeleteRemoteCandidates config matchesPattern w s
  let commands := cycleCommands queued extracted deleted
  match taken with
  | some count =>
    if count < commands.length then
      ({ s with lineage, newPatterns := s.newPatterns.filter fun pattern => decide (pattern ∈ w.patterns) }, commands.take count)
    else (s.retained config matchesPattern w lineage queued, commands)
  | none => (s.retained config matchesPattern w lineage queued, commands)

/-- `__process_once` -/
def processOnce (w : World) (taken : Option Nat) (s : State) : State × List Command :=
  let s := s.forgetRemoved
  if !config.enabled && !w.queueEnabled config then ({ s with newFiles := [], modifiedFiles := [], newPatterns := [] }, [])
  else if s.newPatterns.isEmpty && s.newFiles.isEmpty && s.modifiedFiles.isEmpty then (s, [])
  else activeCycle config matchesPattern w taken s

/-! ## Runs -/

inductive Event where
  | fileAdded (file : File)
  | fileUpdated (old new : File)
  | fileRemoved (file : File)
  | patternAdded (pattern : String)
  | patternRemoved (pattern : String)
  | process (w : World) (taken : Option Nat)

def step (s : State) : Event → State
  | .fileAdded file => { s with newFiles := s.newFiles ++ [file] }
  | .fileUpdated old new => { s with modifiedFiles := s.modifiedFiles ++ [(old, new)] }
  | .fileRemoved file => { s with removedFileIds := addId s.removedFileIds file.fileId }
  | .patternAdded pattern => { s with newPatterns := addId s.newPatterns pattern }
  | .patternRemoved pattern => { s with newPatterns := dropId s.newPatterns pattern }
  | .process w taken => (processOnce config matchesPattern w taken s).1

def run (s : State) (events : List Event) : State := events.foldl (step config matchesPattern) s

end Cycle

end SeedSync.AutoQueue
