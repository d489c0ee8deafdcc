import SeedSync.Model.File
import SeedSync.System.File

/-!
# The attributes of a model file

`ModelFile` of `model/file.py` with all that its equality compares, as the live model holds it
and as it shows it to readers. The setters take numbers within their range alone, so a record
has no others.
-/

namespace SeedSync.Live

/-- What an operation of the live model raises. -/
inductive Error where
  | modelError (message : String)
  | keyError
  | valueError
  /-- Whatever the operation of a caller raises by itself. -/
  | raised
  deriving DecidableEq, Repr

abbrev Percent := Fin 101

/-- `ModelFile.__comparison_attributes` -/
structure FileRecord where
  name : String
  isDir : Bool
  state : ModelState := .default
  remoteSize : Option Nat := none
  localSize : Option Nat := none
  remotePresent : Bool := false
  localPresent : Bool := false
  remoteHasTransferableContent : Bool := false
  transferredSize : Option Nat := none
  displaySizeTotal : Option Nat := none
  displayTransferredSize : Option Nat := none
  downloadProgress : Option Percent := none
  downloadingSpeed : Option Nat := none
  eta : Option Nat := none
  isExtractable : Bool := false
  isStoppable : Bool := false
  explicitlyStopped : Bool := false
  completeLocalCoverage : Bool := false
  localCreatedTimestamp : Option Timestamp := none
  localModifiedTimestamp : Option Timestamp := none
  remoteCreatedTimestamp : Option Timestamp := none
  remoteModifiedTimestamp : Option Timestamp := none
  downloadedTimestamp : Option Timestamp := none
  validationProgress : Option Percent := none
  validationError : Option String := none
  corruptChunks : Option (List Nat) := none
  finalMoveSucceeded : Bool := false
  finalMovePending : Bool := false
  pathPairId : Option String := none
  pathPairName : Option String := none
  deriving DecidableEq, Repr

/-- A model file less its children. The last attribute is not compared. -/
structure Row extends FileRecord where
  resumeCheckpointPresent : Bool := false
  deriving DecidableEq, Repr

/-- A root that a caller hands to the model, and which object it is. -/
structure RootFile extends Row where
  object : Nat := 0
  deriving DecidableEq, Repr

/-- `ModelFile.file_id` of a file without a parent. -/
def FileRecord.fileId (file : FileRecord) : String := (buildFileId file.name file.pathPairId).text

/-! ## Setters -/

/-- The setters of `transferred_size`, `downloading_speed` and `eta`. -/
def setCount : Option Int → Except Error (Option Nat)
  | none => .ok none
  | some value => if 0 ≤ value then .ok (some value.toNat) else .error .valueError

/-- The setter of `download_progress`. -/
def setPercent : Option Int → Except Error (Option Percent)
  | none => .ok none
  | some value =>
    if h : 0 ≤ value ∧ value ≤ 100 then .ok (some ⟨value.toNat, by omega⟩) else .error .valueError

/-- The values that the setters take. -/
structure Overlay.Valid (overlay : ActiveProgressOverlay) : Prop where
  downloadProgress : ∀ v ∈ overlay.downloadProgress, 0 ≤ v ∧ v ≤ 100
  transferredSize : ∀ v ∈ overlay.transferredSize, 0 ≤ v
  downloadingSpeed : ∀ v ∈ overlay.downloadingSpeed, 0 ≤ v
  eta : ∀ v ∈ overlay.eta, 0 ≤ v

/-- The four values of an overlay on a record. -/
def FileRecord.withOverlay (file : FileRecord) (overlay : ActiveProgressOverlay) : Except Error FileRecord := do
  let downloadProgress ← setPercent overlay.downloadProgress
  let transferredSize ← setCount overlay.transferredSize
  let downloadingSpeed ← setCount overlay.downloadingSpeed
  let eta ← setCount overlay.eta
  return { file with downloadProgress, transferredSize, downloadingSpeed, eta }

/-- The attributes that a fresh `ModelFile` takes over from a root before the overlay is read;
`final_move_pending` is none of them. -/
def Row.materialized (row : Row) : Row := { row with finalMovePending := false }

/-- The row that readers get of a root. -/
def Row.effective (row : Row) : Option ActiveProgressOverlay → Except Error Row
  | none => .ok row.materialized
  | some overlay => (row.materialized.withOverlay overlay).map fun shown => { row.materialized with toFileRecord := shown }

end SeedSync.Live
