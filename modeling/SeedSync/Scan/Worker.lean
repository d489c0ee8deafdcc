import SeedSync.Lib.Dict
import SeedSync.Scan.Result

/-!
# One scan

`_run_scanner_once` of `scanner_process.py`: what a scan sends from its first progress call to its
last result. The scanner itself is its calls of `publish_progress` and what `scan` ends in.
-/

open SeedSync.Lib.Dict

namespace SeedSync

/-- The arguments of `publish_progress`. An absent dict and an empty one are the same to it. -/
structure ProgressCall where
  files : List SystemFile
  pathPairId : PairId
  pathPairName : Option String := none
  rootNames : Option (List String) := none
  complete : Bool := false
  unchangedRootFingerprints : List (String × Digest) := []
  rootScanOutcomes : List (String × RoleOutcomes) := []
  deriving DecidableEq, Repr

/-- How `scan` ends. A `ScannerError` that is not recoverable sends no result. -/
inductive ScanOutcome where
  | returned (files : List SystemFile) (malformed managed : List String) (scannedPathPairIds : List PairId)
  | recoverable (message : String) (files : Option (List SystemFile)) (malformed managed : List String)
      (failedPathPairIds : List PairId)
  | fatal
  deriving DecidableEq, Repr

/-- What the coordinator fixes for one scan. -/
structure ScanRun where
  generation : Int
  sessionToken : String
  scanTargetPathPairIds : Option (List String) := none
  scanStartedAt : Option Instant := none

/-- The variables that `publish_progress` shares with the rest of the scan. -/
structure ScanLocals where
  progressEmitted : Bool := false
  progressFilesByPair : List (PairId × List SystemFile) := []
  unchangedRootFingerprintsByPair : List (PairId × List (String × Digest)) := []
  rootScanOutcomesByPair : List (PairId × List (String × RoleOutcomes)) := []

/-- `system_file.path_pair_id = path_pair_id` and the same for the name. -/
def SystemFile.tagged (pair : PairId) (pairName : Option String) (file : SystemFile) : SystemFile :=
  .mk { file.attrs with pathPairId := pair, pathPairName := pairName } file.children

/-- `d.setdefault(pair, {}).update(entries)`, skipped for no entries. -/
def updateEntries {ν : Type} (d : List (PairId × List (String × ν))) (pair : PairId) (entries : List (String × ν)) :
    List (PairId × List (String × ν)) :=
  if entries.isEmpty then d
  else setItem d pair (entries.foldl (fun inner entry => setItem inner entry.1 entry.2) ((d.lookup pair).getD []))

/-- `d.setdefault(pair, []).extend(files)`. -/
def extendFiles (d : List (PairId × List SystemFile)) (pair : PairId) (files : List SystemFile) :
    List (PairId × List SystemFile) :=
  setItem d pair ((d.lookup pair).getD [] ++ files)

def ProgressCall.tagged (call : ProgressCall) : List SystemFile :=
  call.files.map (SystemFile.tagged call.pathPairId call.pathPairName)

/-- The locals after a call of `publish_progress`. -/
def ScanLocals.record (st : ScanLocals) (call : ProgressCall) : ScanLocals where
  progressEmitted := true
  progressFilesByPair := extendFiles st.progressFilesByPair call.pathPairId call.tagged
  unchangedRootFingerprintsByPair :=
    updateEntries st.unchangedRootFingerprintsByPair call.pathPairId call.unchangedRootFingerprints
  rootScanOutcomesByPair := updateEntries st.rootScanOutcomesByPair call.pathPairId call.rootScanOutcomes

/-- `progress_result`. -/
def ScanRun.progressResult (run : ScanRun) (call : ProgressCall) : ScannerResult where
  files := call.tagged
  scannedPathPairIds := [call.pathPairId]
  generation := run.generation
  isProgress := true
  rootNames := call.rootNames
  completedPathPairIds := if call.complete then [call.pathPairId] else []
  isScanFinal := false
  sessionToken := some run.sessionToken
  unchangedRootFingerprintsByPair :=
    if call.unchangedRootFingerprints.isEmpty then [] else [(call.pathPairId, call.unchangedRootFingerprints)]
  rootScanOutcomesByPair :=
    if call.rootScanOutcomes.isEmpty then [] else [(call.pathPairId, call.rootScanOutcomes)]
  scanStartedAt := run.scanStartedAt

/-- `pair_snapshot`: everything that was streamed for a completed pair. -/
def ScanRun.pairSnapshot (run : ScanRun) (st : ScanLocals) (pair : PairId) : ScannerResult where
  files := (st.progressFilesByPair.lookup pair).getD []
  scannedPathPairIds := [pair]
  generation := run.generation
  isProgress := true
  completedPathPairIds := [pair]
  isFullSnapshot := true
  fullSnapshotPathPairIds := [pair]
  sessionToken := some run.sessionToken
  unchangedRootFingerprintsByPair := st.unchangedRootFingerprintsByPair
  rootScanOutcomesByPair := st.rootScanOutcomesByPair
  scanStartedAt := run.scanStartedAt

/-- `publish_progress`: the locals and what it sends. -/
def ScanRun.publishProgress (run : ScanRun) (st : ScanLocals) (call : ProgressCall) : ScanLocals × List ScannerResult :=
  let next := st.record call
  (next, run.progressResult call :: if call.complete then [run.pairSnapshot next call.pathPairId] else [])

/-- `_failed_scan_path_pair_ids`: the reported ids, else the targets, else the unscoped marker. -/
def failedScanPathPairIds (reported : List PairId) (scanTargetPathPairIds : Option (List String)) : List PairId :=
  let explicit := reported.filter Option.isSome
  if explicit ≠ [] then explicit
  else if (scanTargetPathPairIds.getD []) ≠ [] then (scanTargetPathPairIds.getD []).map some
  else [none]

/-- The last result of the scan. -/
def ScanRun.finalResult (run : ScanRun) (st : ScanLocals) : ScanOutcome → Option ScannerResult
  | .returned files malformed managed scannedIds =>
    some {
      files
      malformedStatusOnlyFileIds := malformed
      managedExtractFileIds := managed
      scannedPathPairIds := scannedIds
      generation := run.generation
      isProgress := st.progressEmitted
      completedPathPairIds := if st.progressEmitted then scannedIds else []
      isFullSnapshot := st.progressEmitted
      fullSnapshotPathPairIds := if st.progressEmitted then scannedIds else []
      isTargetedScan := run.scanTargetPathPairIds.isSome
      sessionToken := some run.sessionToken
      unchangedRootFingerprintsByPair := st.unchangedRootFingerprintsByPair
      rootScanOutcomesByPair := st.rootScanOutcomesByPair
      scanStartedAt := run.scanStartedAt }
  | .recoverable message files malformed managed failedIds =>
    let failed := failedScanPathPairIds failedIds run.scanTargetPathPairIds
    some {
      files := if st.progressEmitted then [] else files.getD []
      malformedStatusOnlyFileIds := malformed
      managedExtractFileIds := managed
      scannedPathPairIds := failed
      failed := true
      errorMessage := some message
      generation := run.generation
      isProgress := st.progressEmitted || decide (failed ≠ [])
      unknownPathPairIds := failed
      isTargetedScan := run.scanTargetPathPairIds.isSome
      sessionToken := some run.sessionToken
      recoverableFailurePathPairIds := if failed ≠ [] then failed else [none]
      rootScanOutcomesByPair := st.rootScanOutcomesByPair
      scanStartedAt := run.scanStartedAt }
  | .fatal => none

/-- The results of the calls, in the order in which they are sent. -/
def ScanRun.progressResults (run : ScanRun) : ScanLocals → List ProgressCall → List ScannerResult
  | _, [] => []
  | st, call :: calls => (run.publishProgress st call).2 ++ run.progressResults (run.publishProgress st call).1 calls

/-- Everything that one scan sends. -/
def ScanRun.results (run : ScanRun) (calls : List ProgressCall) (outcome : ScanOutcome) : List ScannerResult :=
  run.progressResults {} calls ++ (run.finalResult (calls.foldl ScanLocals.record {}) outcome).toList

/-! ## What the locals hold for one pair -/

section
variable {p : PairId}

theorem lookup_setItem {ν : Type} (d : List (PairId × ν)) (key other : PairId) (value : ν) :
    (setItem d key value).lookup other = if key = other then some value else d.lookup other := by
  induction d with
  | nil =>
    by_cases h : key = other
    · simp [setItem, h]
    · simp [setItem, h, List.lookup_cons, beq_false_of_ne (Ne.symm h)]
  | cons item d ih =>
    obtain ⟨k, v⟩ := item
    rw [setItem]
    split_ifs with hk ho ho
    · rw [List.lookup_cons, hk, ho]
      simp
    · rw [List.lookup_cons, List.lookup_cons, hk, beq_false_of_ne (Ne.symm ho)]
    · rw [List.lookup_cons, ih, if_pos ho, beq_false_of_ne (fun h => hk (h.symm.trans ho.symm))]
    · rw [List.lookup_cons, List.lookup_cons, ih, if_neg ho]

/-- The roots that the calls stream for the pair. -/
def streamed (p : PairId) (calls : List ProgressCall) : List SystemFile :=
  (calls.filter (fun call => decide (call.pathPairId = p))).flatMap ProgressCall.tagged

/-- The markers that the calls leave for the pair. -/
def marked (p : PairId) (calls : List ProgressCall) : List (String × Digest) :=
  ((calls.foldl ScanLocals.record {}).unchangedRootFingerprintsByPair.lookup p).getD []

theorem record_files (st : ScanLocals) (call : ProgressCall) :
    ((st.record call).progressFilesByPair.lookup p).getD [] =
      (st.progressFilesByPair.lookup p).getD [] ++ if call.pathPairId = p then call.tagged else [] := by
  simp only [ScanLocals.record, extendFiles, lookup_setItem]
  split_ifs with h
  · rw [h, Option.getD_some]
  · rw [List.append_nil]

theorem foldl_record_files (st : ScanLocals) (calls : List ProgressCall) :
    ((calls.foldl ScanLocals.record st).progressFilesByPair.lookup p).getD [] =
      (st.progressFilesByPair.lookup p).getD [] ++ streamed p calls := by
  induction calls generalizing st with
  | nil => simp [streamed]
  | cons call calls ih =>
    rw [List.foldl_cons, ih, record_files, List.append_assoc, streamed, streamed, List.filter_cons]
    by_cases h : call.pathPairId = p <;> simp [h]

/-- Calls for other pairs leave the markers of the pair. -/
theorem foldl_record_markers (st : ScanLocals) {calls : List ProgressCall} (h : ∀ call ∈ calls, call.pathPairId ≠ p) :
    (calls.foldl ScanLocals.record st).unchangedRootFingerprintsByPair.lookup p =
      st.unchangedRootFingerprintsByPair.lookup p := by
  induction calls generalizing st with
  | nil => rfl
  | cons call calls ih =>
    rw [List.foldl_cons, ih _ (fun c hc => h c (List.mem_cons_of_mem _ hc))]
    simp only [ScanLocals.record, updateEntries]
    split_ifs
    · rfl
    · rw [lookup_setItem, if_neg (h call List.mem_cons_self)]

theorem foldl_record_emitted (st : ScanLocals) (calls : List ProgressCall) :
    (calls.foldl ScanLocals.record st).progressEmitted = (st.progressEmitted || decide (calls ≠ [])) := by
  induction calls generalizing st with
  | nil => simp
  | cons call calls ih => rw [List.foldl_cons, ih]; simp [ScanLocals.record]

theorem streamed_append (before after : List ProgressCall) : streamed p (before ++ after) = streamed p before ++ streamed p after := by
  simp [streamed]

theorem streamed_none {calls : List ProgressCall} (h : ∀ call ∈ calls, call.pathPairId ≠ p) : streamed p calls = [] := by
  rw [streamed, List.filter_eq_nil_iff.mpr (by simpa using h), List.flatMap_nil]

end

/-! ## What a scan sends -/

/-- A result of a call is the progress of one call, or the snapshot after a call that completes its pair. -/
theorem mem_progressResults {run : ScanRun} {st : ScanLocals} {calls : List ProgressCall} {r : ScannerResult}
    (h : r ∈ run.progressResults st calls) :
    ∃ before call after, calls = before ++ call :: after ∧ (r = run.progressResult call ∨
      (call.complete = true ∧ r = run.pairSnapshot ((before ++ [call]).foldl ScanLocals.record st) call.pathPairId)) := by
  induction calls generalizing st with
  | nil => simp [ScanRun.progressResults] at h
  | cons call calls ih =>
    rw [ScanRun.progressResults, List.mem_append] at h
    rcases h with h | h
    · refine ⟨[], call, calls, rfl, ?_⟩
      simp only [ScanRun.publishProgress, List.mem_cons] at h
      rcases h with h | h
      · exact Or.inl h
      · split_ifs at h with hc
        · exact Or.inr ⟨hc, List.mem_singleton.mp h⟩
        · cases h
    · obtain ⟨before, later, after, rfl, hr⟩ := ih h
      exact ⟨call :: before, later, after, rfl, hr⟩

end SeedSync
