import SeedSync.System.File

/-!
# Scan events

`ScannerResult` of `scanner_process.py`, less the fields that only feed diagnostics.
Its sets and dicts are lists here: a set is read by membership, a dict by `List.lookup`.
-/

namespace SeedSync

/-- Digest text of one root. -/
abbrev Digest := String

/-- Whether the final half and the staging half of a root were scanned completely. -/
abbrev RoleOutcomes := Bool × Bool

/-- A `datetime` as `_datetime_strictly_after` reads it. -/
structure Instant where
  aware : Bool
  /-- The instant in UTC, or `none` when the conversion raises. -/
  utc : Option Int
  deriving DecidableEq, Repr

/-- `_datetime_strictly_after`: `none` is unknown. -/
def datetimeStrictlyAfter (left right : Option Instant) : Option Bool :=
  match left, right with
  | some l, some r =>
    if l.aware ≠ r.aware then none
    else
      match l.utc, r.utc with
      | some x, some y => some (decide (y < x))
      | _, _ => none
  | _, _ => none

structure ScannerResult where
  files : List SystemFile
  malformedStatusOnlyFileIds : List String := []
  managedExtractFileIds : List String := []
  scannedPathPairIds : List PairId := [none]
  failed : Bool := false
  errorMessage : Option String := none
  generation : Int := 0
  isProgress : Bool := false
  rootNames : Option (List String) := none
  completedPathPairIds : List PairId := []
  isScanFinal : Bool := true
  unknownPathPairIds : List PairId := []
  sessionToken : Option String := none
  isFullSnapshot : Bool := false
  fullSnapshotPathPairIds : List PairId := []
  isTargetedScan : Bool := false
  unchangedRootFingerprintsByPair : List (PairId × List (String × Digest)) := []
  recoverableFailurePathPairIds : List PairId := []
  rootScanOutcomesByPair : List (PairId × List (String × RoleOutcomes)) := []
  scanStartedAt : Option Instant := none
  deriving DecidableEq, Repr

namespace ScannerResult

/-- `__is_authoritative_completion`: the event can replace the committed inventory of the pair. -/
def isAuthoritativeCompletion (event : ScannerResult) (pair : PairId) : Bool :=
  !event.failed && event.isFullSnapshot && decide (pair ∈ event.fullSnapshotPathPairIds) &&
    decide (pair ∈ event.completedPathPairIds) && !decide (pair ∈ event.unknownPathPairIds)

/-- The full snapshot flag as the event loop reads it for one pair. -/
def fullSnapshotFor (event : ScannerResult) (pair : PairId) : Bool :=
  event.isFullSnapshot && decide (pair ∈ event.fullSnapshotPathPairIds)

/-- `__pair_for_file`. The id of a `SystemFile` is a string or `None`, so its fallback is dead. -/
def pairForFile (file : SystemFile) : PairId := file.pathPairId

/-- `event_root_names`: the root names that the event carries for the pair. -/
def rootNamesFor (event : ScannerResult) (pair : PairId) : List String :=
  (event.files.filter (fun f => pairForFile f = pair)).map (·.name)

/-- `root_scan_outcomes_by_pair.get(pair_id)`. -/
def outcomesFor (event : ScannerResult) (pair : PairId) : List (String × RoleOutcomes) :=
  (event.rootScanOutcomesByPair.lookup pair).getD []

/-- `unchanged_root_fingerprints_by_pair.get(pair_id, {})`. -/
def markersFor (event : ScannerResult) (pair : PairId) : List (String × Digest) :=
  (event.unchangedRootFingerprintsByPair.lookup pair).getD []

/-- `__legacy_result_as_progress_snapshot`: a one-shot result, made explicit. -/
def legacyResultAsProgressSnapshot (event : ScannerResult) : Option ScannerResult :=
  let unknown := event.unknownPathPairIds
  if event.scannedPathPairIds = [] ∧ unknown = [] ∧ event.isTargetedScan ∧ !event.failed then none
  else
    let selected :=
      if event.scannedPathPairIds ≠ [] then event.scannedPathPairIds
      else if unknown ≠ [] then unknown else [none]
    some {
      files := event.files
      malformedStatusOnlyFileIds := event.malformedStatusOnlyFileIds
      managedExtractFileIds := event.managedExtractFileIds
      scannedPathPairIds := selected
      failed := event.failed
      errorMessage := event.errorMessage
      generation := event.generation
      isProgress := true
      rootNames := event.rootNames
      completedPathPairIds := if event.failed then [] else selected
      isScanFinal := !event.failed
      unknownPathPairIds := if event.failed ∧ unknown = [] then selected else unknown
      sessionToken := event.sessionToken
      isFullSnapshot := !event.failed
      fullSnapshotPathPairIds := if event.failed then [] else selected
      isTargetedScan := event.isTargetedScan
      recoverableFailurePathPairIds := event.recoverableFailurePathPairIds
      rootScanOutcomesByPair := event.rootScanOutcomesByPair
      scanStartedAt := event.scanStartedAt }

/-- The event as the loop reads it: a progress event as it is, a legacy one made explicit. -/
def admitted (event : ScannerResult) : Option ScannerResult :=
  if event.isProgress then some event else event.legacyResultAsProgressSnapshot

end ScannerResult

end SeedSync
