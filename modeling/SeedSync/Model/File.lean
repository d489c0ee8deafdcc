import SeedSync.Model.FileId

/-!
# Model files and LFTP job statuses

What the builder returns for one node (`model/file.py`) and what it is told of a running job
(`lftp/job_status.py`). Timestamps, the extractable flag and the display totals are left out:
the builder writes them and reads none of them.
-/

namespace SeedSync

/-! ## `LftpJobStatus` -/

inductive JobType where
  | mirror | pget | get
  deriving DecidableEq, Repr

inductive JobState where
  | queued | running
  deriving DecidableEq, Repr

/-- `LftpJobStatus.TransferState`, and the builder's own `_TransferState`. -/
structure TransferState where
  sizeLocal : Option Int := none
  sizeRemote : Option Int := none
  percentLocal : Option Int := none
  speed : Option Int := none
  eta : Option Int := none
  deriving DecidableEq, Repr

structure LftpJobStatus where
  id : Int
  type : JobType
  state : JobState
  name : String
  pathPairId : Option String := none
  pathPairName : Option String := none
  totalTransferState : TransferState := {}
  activeFileTransferStates : List (String × TransferState) := []
  deriving DecidableEq, Repr

def LftpJobStatus.fileId (status : LftpJobStatus) : FileId := buildFileId status.name status.pathPairId

/-- `status.state == LftpJobStatus.State.RUNNING`. -/
def LftpJobStatus.isRunning (status : LftpJobStatus) : Bool := status.state = .running

/-! ## `ModelFile` -/

inductive ModelState where
  | default | downloading | queued | downloaded | deleted | extracting | extracted
  | validating | validated | corrupt | moveFailed
  deriving DecidableEq, Repr

/-- The value of the `ModelFile.State` member, which ranks local-only roots of one name. -/
def ModelState.value : ModelState → Nat
  | default => 0
  | downloading => 1
  | queued => 2
  | downloaded => 3
  | deleted => 4
  | extracting => 5
  | extracted => 6
  | validating => 7
  | validated => 8
  | corrupt => 9
  | moveFailed => 10

structure ModelFile where
  name : String
  isDir : Bool
  fileId : FileId
  pathPairId : Option String := none
  pathPairName : Option String := none
  state : ModelState := .default
  remoteSize : Option Nat := none
  localSize : Option Nat := none
  remotePresent : Bool := false
  localPresent : Bool := false
  remoteHasTransferableContent : Bool := false
  transferredSize : Option Int := none
  downloadProgress : Option Int := none
  downloadingSpeed : Option Int := none
  eta : Option Int := none
  isStoppable : Bool := false
  explicitlyStopped : Bool := false
  completeLocalCoverage : Bool := false
  resumeCheckpointPresent : Bool := false
  validationProgress : Option Int := none
  validationError : Option String := none
  corruptChunks : Option (List Nat) := none
  finalMoveSucceeded : Bool := false
  deriving DecidableEq, Repr

/-- What the live counters of a job show on a root: `ActiveProgressOverlay` of `model/model.py`. -/
structure ActiveProgressOverlay where
  downloadProgress : Option Int
  transferredSize : Option Int
  downloadingSpeed : Option Int
  eta : Option Int
  deriving DecidableEq, Repr

/-- What a build raises. -/
inductive BuildError where
  | modelError (message : String)
  | typeError (message : String)
  /-- A setter of `ModelFile` that rejects its value. -/
  | valueError
  deriving DecidableEq, Repr

/-- `ExtractStatus`, less its only state. -/
structure ExtractStatus where
  name : String
  isDir : Bool
  fileId : Option FileId := none
  pathPairId : Option String := none
  deriving DecidableEq, Repr

structure ValidateStatus where
  fileId : FileId
  state : ModelState
  progress : Option Int := none
  error : Option String := none
  corruptChunks : Option (List Nat) := none
  deriving DecidableEq, Repr

end SeedSync
