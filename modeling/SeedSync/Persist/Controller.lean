import SeedSync.Persist.Keys

/-!
# The persisted state of the controller

`ControllerPersist` of `controller_persist.py`: its marker collections, the two phases of the
migration to canonical ids, and its JSON file.
-/

namespace SeedSync.Persist

open Lib Identity

/-- A set of names, in the order in which `list(names)` happens to give them. -/
structure NameSet where
  names : List Str := []
  nodup : names.Nodup := by first | exact List.nodup_nil | simp
  deriving DecidableEq, Repr

namespace NameSet

def ofList (names : List Str) : NameSet := ⟨names.dedup, List.nodup_dedup names⟩

/-- `self.update(other)` -/
def update (self other : NameSet) : NameSet := ofList (self.names ++ other.names)

instance : Membership Str NameSet := ⟨fun set name => name ∈ set.names⟩

@[simp] theorem mem_ofList (name : Str) (names : List Str) : name ∈ ofList names ↔ name ∈ names := List.mem_dedup

theorem mem_update (name : Str) (self other : NameSet) : name ∈ self.update other ↔ name ∈ self ∨ name ∈ other := by
  rw [update, mem_ofList, List.mem_append]
  rfl

theorem ofList_names (set : NameSet) : ofList set.names = set := by
  obtain ⟨names, h⟩ := set
  simp only [ofList, mk.injEq]
  exact h.dedup

end NameSet

/-- `(root bytes, percent, source size, source mtime, current PGET subset total)` -/
structure Floor where
  bytes : Int
  percent : Int
  size : Int
  mtime : Int
  subset : Int
  deriving DecidableEq, Repr

structure ControllerPersist where
  downloadedFileNames : NameSet := {}
  downloadedTimestamps : Dict Str JsonFloat := {}
  extractedFileNames : NameSet := {}
  stoppedFileNames : NameSet := {}
  moveFailureCounts : Dict Str Int := {}
  finalMoveSucceededFileNames : NameSet := {}
  resumeSourceIdentities : Dict Str (Int × Int) := {}
  displayProgressFloors : Dict Str Floor := {}
  markerIdentityMigration : Int := 0
  deriving DecidableEq, Repr

/-- What the module takes from the standard library. -/
structure PersistEnv where
  /-- Whether `uuid.UUID(text)` returns. -/
  isUuid : Str → Bool
  /-- `float(n)` -/
  toFloat : Int → JsonFloat
  /-- `int(round(bytes * 100 / size))` -/
  percentOf : Int → Int → Int
  /-- The text of the `JSONDecodeError` of `json.loads`. -/
  decodeError : Codes → String

/-! ## The migration -/

section

variable (isUuid : Str → Bool) (defaultPathPairId : Option Str)

/-- `_canonicalize_set` -/
def canonicalizeSet (keys : NameSet) : NameSet :=
  .ofList (keys.names.filterMap fun key => canonicalFileId isUuid key defaultPathPairId)

/-- `_canonicalize_counts` -/
def canonicalizeCounts (counts : Dict Str Int) : Dict Str Int :=
  counts.items.foldl (fun canonical item =>
    match canonicalFileId isUuid item.1 defaultPathPairId with
    | some normalized => canonical.set normalized (max ((canonical.get normalized).getD 0) item.2)
    | none => canonical) {}

/-- `_canonicalize_timestamps` -/
def canonicalizeTimestamps (timestamps : Dict Str JsonFloat) : Dict Str JsonFloat :=
  timestamps.items.foldl (fun canonical item =>
    match canonicalFileId isUuid item.1 defaultPathPairId with
    | some normalized =>
      if canonical.get normalized = none ∨ item.1 = normalized then canonical.set normalized item.2 else canonical
    | none => canonical) {}

/-- `self.downloaded_timestamps.update(other)` -/
def updateTimestamps (self other : Dict Str JsonFloat) : Dict Str JsonFloat :=
  other.items.foldl (fun d item => d.set item.1 item.2) self

/-- The loop over `canonical_counts.items()` of the first phase. -/
def raiseCounts (self other : Dict Str Int) : Dict Str Int :=
  other.items.foldl (fun d item => d.set item.1 (max ((d.get item.1).getD 0) item.2)) self

/-- `canonicalize_file_identities`: whether the state has to be written, and the state. -/
def canonicalizeFileIdentities (p : ControllerPersist) : Bool × ControllerPersist :=
  if 2 ≤ p.markerIdentityMigration then (false, p)
  else
    let downloaded := canonicalizeSet isUuid defaultPathPairId p.downloadedFileNames
    let extracted := canonicalizeSet isUuid defaultPathPairId p.extractedFileNames
    let stopped := canonicalizeSet isUuid defaultPathPairId p.stoppedFileNames
    let finalMoveSucceeded := canonicalizeSet isUuid defaultPathPairId p.finalMoveSucceededFileNames
    let counts := canonicalizeCounts isUuid defaultPathPairId p.moveFailureCounts
    let timestamps := canonicalizeTimestamps isUuid defaultPathPairId p.downloadedTimestamps
    if p.markerIdentityMigration = 0 then
      (true, { p with
        downloadedFileNames := p.downloadedFileNames.update downloaded
        downloadedTimestamps := updateTimestamps p.downloadedTimestamps timestamps
        extractedFileNames := p.extractedFileNames.update extracted
        stoppedFileNames := p.stoppedFileNames.update stopped
        finalMoveSucceededFileNames := p.finalMoveSucceededFileNames.update finalMoveSucceeded
        moveFailureCounts := raiseCounts p.moveFailureCounts counts
        markerIdentityMigration := 1 })
    else
      (true, { p with
        downloadedFileNames := downloaded
        downloadedTimestamps := timestamps
        extractedFileNames := extracted
        stoppedFileNames := stopped
        finalMoveSucceededFileNames := finalMoveSucceeded
        moveFailureCounts := counts
        markerIdentityMigration := 2 })

end

/-! ## The file -/

def namesJson (set : NameSet) : Json := .list (set.names.map fun name => .str name.codes)

def dictJson {ν : Type} (value : ν → Json) (d : Dict Str ν) : Json :=
  .obj (d.items.map fun item => (item.1.codes, value item.2))

def identityJson (identity : Int × Int) : Json :=
  .obj [(codes "size", .int identity.1), (codes "mtime", .int identity.2)]

def floorJson (floor : Floor) : Json :=
  .obj [(codes "bytes", .int floor.bytes), (codes "percent", .int floor.percent), (codes "size", .int floor.size),
    (codes "mtime", .int floor.mtime), (codes "subset", .int floor.subset)]

/-- A field that is written only when the dict has an item. -/
def fieldUnlessEmpty {ν : Type} (key : String) (value : ν → Json) (d : Dict Str ν) : List (Codes × Json) :=
  if d.items = [] then [] else [(codes key, dictJson value d)]

/-- The dict of `to_str`. -/
def ControllerPersist.json (p : ControllerPersist) : Json :=
  .obj ([(codes "downloaded", namesJson p.downloadedFileNames), (codes "extracted", namesJson p.extractedFileNames),
      (codes "stopped", namesJson p.stoppedFileNames), (codes "move_failure_counts", dictJson .int p.moveFailureCounts),
      (codes "final_move_succeeded", namesJson p.finalMoveSucceededFileNames),
      (codes "marker_identity_migration", .int p.markerIdentityMigration)] ++
    fieldUnlessEmpty "resume_sources" identityJson p.resumeSourceIdentities ++
    fieldUnlessEmpty "display_progress_floors" floorJson p.displayProgressFloors ++
    fieldUnlessEmpty "downloaded_timestamps" .float p.downloadedTimestamps)

/-- `to_str` -/
def ControllerPersist.toStr (p : ControllerPersist) : Codes := p.json.write (.indented 4) 0

def readName : Json → Option Str
  | .str s => Str.ofCodes? s
  | _ => none

/-- `_read_string_set` -/
def readStringSet (value : Json) (fieldName : String) : Except String NameSet :=
  let refused := "TypeError: " ++ fieldName ++ " must be an array of strings"
  match value with
  | .list items =>
    match items.mapM readName with
    | some names => .ok (.ofList names)
    | none => .error refused
  | _ => .error refused

/-- `dct.get(key, {})`, which has to be an object. -/
def readObject (fields : List (Codes × Json)) (key : String) : Except String (List (Codes × Json)) :=
  match (fields.lookup (codes key)).getD (.obj []) with
  | .obj items => .ok items
  | _ => .error ("TypeError: " ++ key ++ " must be an object")

/-- A completion time that is kept: a number that is finite and not negative. -/
def readTimestamp (env : PersistEnv) (value : Json) : Option JsonFloat :=
  let converted := match value with
    | .int n => some (env.toFloat n)
    | .float x => some x
    | _ => none
  converted.filter fun x => match x with
    | .decimal mantissa _ => decide (0 ≤ mantissa)
    | _ => false

/-- A count that is kept. -/
def readCount (key : Str) (value : Json) : Option Int :=
  match value with
  | .int count => if key.codes ≠ [] ∧ 0 ≤ count ∧ count ≤ 4 then some count else none
  | _ => none

/-- A dict comprehension with a condition on its items. -/
def keepItems {ν : Type} (read : Str → Json → Option ν) (fields : List (Codes × Json)) : Dict Str ν :=
  .ofList (fields.filterMap fun field => do
    let key ← Str.ofCodes? field.1
    return (key, ← read key field.2))

/-- The identity of one resume source. -/
def readIdentity (env : PersistEnv) (key : Str) (value : Json) : Except String (Int × Int) :=
  match canonicalResumeSourceId env.isUuid key, value with
  | some id, .obj fields =>
    if id ≠ key then .error "TypeError: resume_sources must map strings to source identities"
    else
      match Json.get fields "size", Json.get fields "mtime" with
      | .int size, .int mtime =>
        if size < 0 ∨ mtime < 0 then
          .error "TypeError: resume source identity must contain non-negative integer size and mtime"
        else .ok (size, mtime)
      | _, _ => .error "TypeError: resume source identity must contain non-negative integer size and mtime"
  | _, _ => .error "TypeError: resume_sources must map strings to source identities"

/-- One display floor. -/
def readFloor (env : PersistEnv) (key : Str) (value : Json) : Except String Floor :=
  match canonicalResumeSourceId env.isUuid key, value with
  | some id, .obj fields =>
    if id ≠ key then .error "TypeError: display_progress_floors must map canonical IDs to floors"
    else
      match Json.get fields "bytes", Json.get fields "percent", Json.get fields "size", Json.get fields "mtime",
        Json.get fields "subset" with
      | .int bytes, .int percent, .int size, .int mtime, .int subset =>
        if bytes ≤ 0 ∨ ¬(0 ≤ percent ∧ percent ≤ 99) ∨ size ≤ 0 ∨ mtime < 0 ∨ ¬(0 < subset ∧ subset ≤ size) then
          .error "TypeError: display progress floor is invalid"
        else if size ≤ bytes ∨ percent ≠ min 99 (env.percentOf bytes size) then
          .error "TypeError: display progress floor cannot be terminal"
        else .ok ⟨bytes, percent, size, mtime, subset⟩
      | _, _, _, _, _ => .error "TypeError: display progress floor is invalid"
  | _, _ => .error "TypeError: display_progress_floors must map canonical IDs to floors"

/-- A loop over the items of an object that refuses the whole of it at the first bad item. -/
def readAll {ν : Type} (read : Str → Json → Except String ν) :
    Dict Str ν → List (Codes × Json) → Except String (Dict Str ν)
  | d, [] => .ok d
  | d, (key, value) :: fields =>
    match Str.ofCodes? key with
    | none => readAll read d fields
    | some key => do readAll read (d.set key (← read key value)) fields

/-- `dct[key]` -/
def required (fields : List (Codes × Json)) (key : String) : Except String Json :=
  match fields.lookup (codes key) with
  | some value => .ok value
  | none => .error ("KeyError: '" ++ key ++ "'")

/-- `dct.get(key, [])` -/
def optionalList (fields : List (Codes × Json)) (key : String) : Json := (fields.lookup (codes key)).getD (.list [])

def readPhase (fields : List (Codes × Json)) : Except String Int :=
  match (fields.lookup (codes "marker_identity_migration")).getD (.int 0) with
  | .int phase =>
    if phase = 0 ∨ phase = 1 ∨ phase = 2 then .ok phase
    else .error "TypeError: marker_identity_migration must be 0, 1, or 2"
  | _ => .error "TypeError: marker_identity_migration must be 0, 1, or 2"

def readFields (env : PersistEnv) (fields : List (Codes × Json)) : Except String ControllerPersist := do
  let downloaded ← readStringSet (← required fields "downloaded") "downloaded"
  let timestamps ← readObject fields "downloaded_timestamps"
  let extracted ← readStringSet (← required fields "extracted") "extracted"
  let stopped ← readStringSet (optionalList fields "stopped") "stopped"
  let counts ← readObject fields "move_failure_counts"
  let finalMoveSucceeded ← readStringSet (optionalList fields "final_move_succeeded") "final_move_succeeded"
  let resumeSources ← readAll (readIdentity env) {} (← readObject fields "resume_sources")
  let floors ← readAll (readFloor env) {} (← readObject fields "display_progress_floors")
  let phase ← readPhase fields
  return {
    downloadedFileNames := downloaded
    downloadedTimestamps := keepItems (fun _ => readTimestamp env) timestamps
    extractedFileNames := extracted
    stoppedFileNames := stopped
    moveFailureCounts := keepItems readCount counts
    finalMoveSucceededFileNames := finalMoveSucceeded
    resumeSourceIdentities := resumeSources
    displayProgressFloors := floors
    markerIdentityMigration := phase }

/-- `from_str`: the error is the text of the `PersistError`. -/
def ControllerPersist.fromStr (env : PersistEnv) (content : Codes) : Except String ControllerPersist :=
  let answer := match loads content with
    | some (.obj fields) => readFields env fields
    | some _ => .error "TypeError: controller persist must be an object"
    | none => .error ("JSONDecodeError: " ++ env.decodeError content)
  answer.mapError fun text => "Error parsing ControllerPersist - " ++ text

end SeedSync.Persist
