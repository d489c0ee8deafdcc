import SeedSync.Lib.Collect
import SeedSync.Lib.Dict
import SeedSync.Local.Files

/-!
# The scan of the local roots

`LocalScanner.scan`, with and without a progress callback, less the calls of the callback: what it
returns or raises for a content that stays as it is and may be read.
-/

namespace SeedSync.Local

open Lib

/-- What there is to scan. -/
structure Content where
  /-- The final root; none is a path that is not valid or is no directory. -/
  final : Option (List Entry)
  /-- The staging root, where there is a scanner for it. -/
  staging : Option (Option (List Entry)) := none
  /-- `__get_nested_staging_name` -/
  excludeName : Option Codes := none
  finalDistinct : ∀ entries ∈ final, (entries.map Entry.name).Nodup
  stagingDistinct : ∀ entries ∈ staging.join, (entries.map Entry.name).Nodup

structure LocalScanner where
  useTempFile : Bool
  managedExtractFoldersEnabled : Bool := true
  /-- Where a marker below the final root is that of a managed extract folder. -/
  finalMarker : List String → Bool := fun _ => false
  stagingMarker : List String → Bool := fun _ => false

inductive ScannerError where
  | scan (failure : ScanFailure)
  | missingFinalRoot
  | missingStagingRoot
  deriving DecidableEq, Repr

def lift {α : Type} : Except ScanFailure α → Except ScannerError α
  | .ok value => .ok value
  | .error failure => .error (.scan failure)

namespace LocalScanner

/-- The two scanners are set up alike. -/
def system (scanner : LocalScanner) : Scanner := { useTempFile := scanner.useTempFile }

def prune (scanner : LocalScanner) (isMarker : List String → Bool) (files : List SystemFile) : List SystemFile :=
  if scanner.managedExtractFoldersEnabled then pruneManagedExtractEntries isMarker files else files

/-! ## Without a callback -/

def excludeNested (excludeName : Option Codes) (files : List SystemFile) : List SystemFile :=
  match excludeName with
  | none => files
  | some name => files.filter fun file => decide (codes file.name ≠ name)

/-- The roots so far, with the index that each name stands at. -/
structure Merging where
  result : List SystemFile
  localNames : Dict String Nat

/-- `{system_file.name: index for index, system_file in enumerate(result)}` -/
def localNames (files : List SystemFile) : Dict String Nat :=
  Dict.ofList (files.zipIdx.map fun item => (item.1.name, item.2))

def mergeStagingFile (merging : Merging) (staging : SystemFile) : Merging :=
  let staging := markStagingFileTree staging
  match merging.localNames.get staging.name with
  | none =>
    { result := merging.result ++ [staging]
      localNames := merging.localNames.set staging.name merging.result.length }
  | some index =>
    { merging with result := merging.result.modify index fun final => mergeDuplicateLocalEntries final staging }

def mergeStaging (final staging : List SystemFile) : List SystemFile :=
  (staging.foldl mergeStagingFile { result := final, localNames := localNames final }).result

/-- `scan` without a progress callback -/
def scan (scanner : LocalScanner) (content : Content) : Except ScannerError (List SystemFile) := do
  let result ← lift (scanner.system.scan content.final)
  let result := excludeNested content.excludeName (scanner.prune scanner.finalMarker result)
  match content.staging with
  | none => return result
  | some staging =>
    let stagingResult ← lift (scanner.system.scan staging)
    return mergeStaging result (scanner.prune scanner.stagingMarker stagingResult)

/-! ## With a callback -/

/-- One root of one of the two directories: `missing` is raised where the name leads to nothing. -/
def scanSingle (scanner : LocalScanner) (isMarker : List String → Bool) (missing : ScannerError)
    (entries : List Entry) (name : Codes) : Except ScannerError (Option SystemFile) := do
  match ← lift (scanner.system.scanSingleIfPresent entries name) with
  | none => throw missing
  | some file => return (scanner.prune isMarker [file]).head?

/-- One of the two directories, where it has the name. -/
def scanSide (scanner : LocalScanner) (isMarker : List String → Bool) (missing : ScannerError) (entries : List Entry)
    (names : List Codes) (name : Codes) : Except ScannerError (Option SystemFile) :=
  if name ∈ names then scanner.scanSingle isMarker missing entries name else .ok none

/-- The body of the loop over `all_names`. -/
def scanRoot (scanner : LocalScanner) (final staging : List Entry) (rootNames stagingNames : List Codes) (name : Codes) :
    Except ScannerError (Option SystemFile) := do
  let result ← scanner.scanSide scanner.finalMarker .missingFinalRoot final rootNames name
  let stagingResult ← scanner.scanSide scanner.stagingMarker .missingStagingRoot staging stagingNames name
  return match result, stagingResult.map markStagingFileTree with
    | some result, some staging => some (mergeDuplicateLocalEntries result staging)
    | some result, none => some result
    | none, staging => staging

def discard (excludeName : Option Codes) (names : List Codes) : List Codes :=
  match excludeName with
  | none => names
  | some name => names.filter fun other => decide (other ≠ name)

/-- `__scan_progressively` -/
def scanProgressively (scanner : LocalScanner) (content : Content) : Except ScannerError (List SystemFile) := do
  let rootNames ← lift (scanner.system.rootNames content.final)
  let stagingNames ←
    match content.staging with
    | none => pure []
    | some staging => lift (scanner.system.rootNames staging)
  let rootNames := discard content.excludeName rootNames
  let stagingNames := discard content.excludeName stagingNames
  let allNames := sortNames (rootNames ++ stagingNames)
  collect (scanner.scanRoot (content.final.getD []) (content.staging.join.getD []) rootNames stagingNames) allNames

end LocalScanner

end SeedSync.Local
