import SeedSync.Lib.Json
import SeedSync.Lib.Preorder
import SeedSync.Lib.Stateful
import SeedSync.System.File

/-!
# The decoder of a scan stream

`__decode_stream_record` and `__decode_framed_root_node` of `remote_scanner.py`, with
`SystemFile.from_dict` of `system/file.py` for whatever JSON stands in a record. `json.loads`,
`datetime.fromisoformat` and the clock are parameters. Completion is always deferred: both callers
set `defer_complete`.
-/

namespace SeedSync.Remote

open Lib

inductive StreamError where
  | typeError (message : String)
  | valueError (message : String)
  | keyError (key : String)
  /-- `json.JSONDecodeError` -/
  | jsonDecode
  /-- `UnicodeDecodeError` -/
  | unicodeDecode
  deriving DecidableEq, Repr

/-! ## `SystemFile.from_dict` -/

/-- A `SystemFile` as `from_dict` makes it, which does not look at the type of every value. -/
structure WireAttrs where
  name : Json
  size : Json
  isDir : Bool
  timestampCreated : Option Timestamp
  timestampModified : Option Timestamp
  mtimeNs : Json
  pathPairId : Option Codes
  pathPairName : Option Codes
  isStaging : Bool
  hasStagingOrigin : Option Bool
  hasStagingCollision : Bool

abbrev WireFile := Rose WireAttrs

/-- `size < 0` -/
def isNegative : Json → Except StreamError Bool
  | .bool _ => .ok false
  | .int value => .ok (decide (value < 0))
  | .float .nan => .ok false
  | .float (.infinity negative) => .ok negative
  | .float (.decimal mantissa _) => .ok (decide (mantissa < 0))
  | _ => .error (.typeError "'<' not supported")

/-- The setter of `path_pair_id` and `path_pair_name`. -/
def setPairText : Json → Except StreamError (Option Codes)
  | .null => .ok none
  | .str value => .ok (some value)
  | _ => .error (.typeError "")

/-- `data[key]` -/
def required (fields : List (Codes × Json)) (key : String) : Except StreamError Json :=
  match fields.lookup (codes key) with
  | some value => .ok value
  | none => .error (.keyError key)

def hasName (attrs : WireAttrs) (name : Codes) : Bool :=
  match attrs.name with
  | .str value => value == name
  | _ => false

section

variable (fromisoformat : Codes → Option Timestamp)

def readTime : Json → Except StreamError (Option Timestamp)
  | .null => .ok none
  | .str value =>
    match fromisoformat value with
    | some time => .ok (some time)
    | none => .error (.valueError "Invalid isoformat string")
  | _ => .error (.typeError "fromisoformat: argument must be str")

/-- `from_dict`, less the children -/
def readAttrs (fields : List (Codes × Json)) : Except StreamError WireAttrs := do
  let timestampCreated ← readTime fromisoformat (Json.get fields "time_created")
  let timestampModified ← readTime fromisoformat (Json.get fields "time_modified")
  let name ← required fields "name"
  let size ← required fields "size"
  if ← isNegative size then throw (.valueError "File size must be zero or greater")
  let pathPairId ← setPairText (Json.get fields "path_pair_id")
  let pathPairName ← setPairText (Json.get fields "path_pair_name")
  let hasStagingOrigin := match Json.get fields "has_staging_origin" with
    | .bool value => some value
    | _ => none
  let hasStagingCollision ← match (fields.lookup (codes "has_staging_collision")).getD (.bool false) with
    | .bool value => pure value
    | _ => throw (.typeError "")
  return {
    name, size, timestampCreated, timestampModified, pathPairId, pathPairName, hasStagingOrigin, hasStagingCollision
    isDir := (Json.get fields "is_dir").truthy
    mtimeNs := Json.get fields "mtime_ns"
    isStaging := (Json.get fields "is_staging").truthy }

mutual
/-- `from_dict`; whatever is no object has no items by name. -/
def fromDict : Json → Except StreamError WireFile
  | .obj fields => do
    let attrs ← readAttrs fromisoformat fields
    let children ← fromChildren attrs.isDir fields
    return .node attrs children
  | _ => .error (.typeError "from_dict")

/-- `data.get("children", [])` -/
def fromChildren (isDir : Bool) : List (Codes × Json) → Except StreamError (List WireFile)
  | [] => .ok []
  | (key, value) :: fields => if key = codes "children" then fromIterable isDir value else fromChildren isDir fields

/-- What may be iterated without an item that is no object. -/
def fromIterable (isDir : Bool) : Json → Except StreamError (List WireFile)
  | .list items => fromDicts isDir items
  | .str value => if value.isEmpty then .ok [] else .error (.typeError "from_dict")
  | .obj fields => if fields.isEmpty then .ok [] else .error (.typeError "from_dict")
  | _ => .error (.typeError "object is not iterable")

def fromDicts (isDir : Bool) : List Json → Except StreamError (List WireFile)
  | [] => .ok []
  | item :: items => do
    let child ← fromDict item
    if !isDir then throw (.typeError "Cannot add children to a file")
    let rest ← fromDicts isDir items
    return child :: rest
end

end

/-! ## The state -/

inductive Dialect where
  | legacy | framed
  deriving DecidableEq, Repr

structure CurrentRoot where
  id : Nat
  name : Codes
  nextNodeId : Nat := 0
  nodeCount : Nat := 0
  /-- The active preorder stack; the root is what it closes to. -/
  stack : Opened WireAttrs := []

/-- One call of the progress callback. -/
structure Progress where
  files : List WireFile := []
  manifestNames : Option (List Json) := none
  complete : Bool := false
  unchanged : List (Codes × Codes) := []

structure StreamState where
  manifest : Bool := false
  complete : Bool := false
  sawPrefix : Bool := false
  manifestNames : List Codes := []
  manifestExpected : Option Int := none
  manifestCollecting : Bool := false
  currentRoot : Option CurrentRoot := none
  nextRootId : Nat := 0
  emittedRootNames : List Codes := []
  pendingRoots : List WireFile := []
  pendingRootsStartedAt : Option Int := none
  pendingUnchanged : List (Codes × Codes) := []
  dialect : Option Dialect := none
  /-- `remote_files` -/
  files : List WireFile := []
  /-- The calls of the progress callback so far, the newest last. -/
  published : List Progress := []
  /-- Ghost: the node counts that the `root_end` records of the roots declared. -/
  declaredNodes : List Int := []

abbrev Decode := ExceptT StreamError (StateM StreamState)

def publish (progress : Progress) : Decode Unit := modify fun s => { s with published := s.published ++ [progress] }

/-- `__flush_pending_root_progress` -/
def flushPendingRootProgress : Decode Unit := do
  let s ← get
  if s.pendingRoots.isEmpty then return
  set { s with pendingRoots := [], pendingRootsStartedAt := none }
  publish { files := s.pendingRoots }

/-- `__flush_pending_unchanged_progress` -/
def flushPendingUnchangedProgress : Decode Unit := do
  let s ← get
  if s.pendingUnchanged.isEmpty then return
  set { s with pendingUnchanged := [] }
  publish { unchanged := s.pendingUnchanged }

/-- The calls that publish what waits. -/
def rootCalls (roots : List WireFile) : List Progress := if roots.isEmpty then [] else [{ files := roots }]

def unchangedCalls (unchanged : List (Codes × Codes)) : List Progress :=
  if unchanged.isEmpty then [] else [{ unchanged }]

theorem flushPendingRootProgress_run (s : StreamState) : ∃ startedAt, flushPendingRootProgress.run.run s = (.ok (), { s with
    pendingRoots := [], pendingRootsStartedAt := startedAt, published := s.published ++ rootCalls s.pendingRoots }) := by
  unfold flushPendingRootProgress rootCalls
  rw [run_get_bind]
  obtain ⟨manifest, complete, sawPrefix, names, expected, collecting, current, nextId, emitted, pending, startedAt,
    unchanged, dialect, files, published, declared⟩ := s
  cases pending with
  | nil => exact ⟨startedAt, by simp only [List.isEmpty_nil, if_true, List.append_nil]; rfl⟩
  | cons root roots => exact ⟨none, rfl⟩

theorem flushPendingUnchangedProgress_run (s : StreamState) : flushPendingUnchangedProgress.run.run s = (.ok (), { s with
    pendingUnchanged := [], published := s.published ++ unchangedCalls s.pendingUnchanged }) := by
  unfold flushPendingUnchangedProgress unchangedCalls
  rw [run_get_bind]
  obtain ⟨manifest, complete, sawPrefix, names, expected, collecting, current, nextId, emitted, pending, startedAt,
    unchanged, dialect, files, published, declared⟩ := s
  cases unchanged with
  | nil => simp only [List.isEmpty_nil, if_true, List.append_nil]; rfl
  | cons mark marks => rfl

/-! ## Records -/

def maxV2RootNodesPerRecord : Nat := 64
def rootProgressBatchSize : Nat := 8
/-- In nanoseconds. -/
def rootProgressMaxAge : Int := 100000000

inductive RecordType where
  | manifest | manifestBegin | manifestNames | manifestEnd | roots | rootBegin | rootNode | rootNodes | rootEnd
  | rootUnchanged | complete | unknown
  deriving DecidableEq, Repr

def recordType (type : Codes) : RecordType :=
  if type = codes "manifest" then .manifest
  else if type = codes "manifest_begin" then .manifestBegin
  else if type = codes "manifest_names" then .manifestNames
  else if type = codes "manifest_end" then .manifestEnd
  else if type = codes "roots" then .roots
  else if type = codes "root_begin" then .rootBegin
  else if type = codes "root_node" then .rootNode
  else if type = codes "root_nodes" then .rootNodes
  else if type = codes "root_end" then .rootEnd
  else if type = codes "root_unchanged" then .rootUnchanged
  else if type = codes "complete" then .complete
  else .unknown

/-- `isinstance(names, list) and all(isinstance(name, str) for name in names)` -/
def readNames : Json → Option (List Codes)
  | .list items => items.mapM fun
    | .str value => some value
    | _ => none
  | _ => none

def isHexDigit (code : Nat) : Bool := decide (48 ≤ code ∧ code ≤ 57) || decide (97 ≤ code ∧ code ≤ 102)

/-- `re.fullmatch(r"[0-9a-f]{64}", fingerprint)` -/
def isFingerprint (fingerprint : Codes) : Bool := decide (fingerprint.length = 64) && fingerprint.all isHexDigit

def decodeManifest (fields : List (Codes × Json)) : Decode Unit := do
  match readNames (Json.get fields "names") with
  | none => throw (.typeError "invalid scan manifest")
  | some names =>
    let s ← get
    if s.dialect = some .framed ∨ s.manifest ∨ s.manifestCollecting ∨ ¬ names.Nodup then
      throw (.typeError "duplicate or unexpected scan manifest")
    set { s with dialect := some .legacy, manifest := true, manifestNames := s.manifestNames ++ names }
    publish { manifestNames := some ((s.manifestNames ++ names).map .str) }

def decodeManifestBegin (fields : List (Codes × Json)) : Decode Unit := do
  let s ← get
  match Json.get fields "count" with
  | .int count =>
    if count < 0 ∨ s.dialect = some .legacy ∨ s.manifest ∨ s.manifestCollecting then
      throw (.typeError "invalid scan manifest start")
    set { s with dialect := some .framed, manifestCollecting := true, manifestExpected := some count }
  | _ => throw (.typeError "invalid scan manifest start")

def decodeManifestNames (fields : List (Codes × Json)) : Decode Unit := do
  let s ← get
  match readNames (Json.get fields "names") with
  | none => throw (.typeError "invalid scan manifest fragment")
  | some names =>
    if s.dialect ≠ some .framed ∨ ¬ s.manifestCollecting then throw (.typeError "invalid scan manifest fragment")
    if names.isEmpty ∨ ¬ names.Nodup ∨ ∃ name ∈ names, name ∈ s.manifestNames then
      throw (.typeError "duplicate or empty scan manifest fragment")
    set { s with manifestNames := s.manifestNames ++ names }

def decodeManifestEnd : Decode Unit := do
  let s ← get
  if s.dialect ≠ some .framed ∨ ¬ s.manifestCollecting ∨ s.manifestExpected ≠ some (s.manifestNames.length : Int) then
    throw (.typeError "incomplete scan manifest")
  set { s with manifestCollecting := false, manifest := true }
  publish { manifestNames := some (s.manifestNames.map .str) }

/-- The names of a batch, where they are all strings. -/
def batchNames (batch : List WireFile) : Option (List Codes) :=
  batch.mapM fun file => match file.value.name with
    | .str name => some name
    | _ => none

def decodeRoots (fromisoformat : Codes → Option Timestamp) (fields : List (Codes × Json)) : Decode Unit := do
  let s ← get
  if s.dialect ≠ some .legacy ∨ ¬ s.manifest ∨ s.manifestCollecting then throw (.typeError "invalid scan root batch")
  match Json.get fields "files" with
  | .list data =>
    let batch ← liftM (data.mapM (fromDict fromisoformat))
    match batchNames batch with
    | none => throw (.typeError "invalid or duplicate scan root")
    | some names =>
      if ¬ names.Nodup ∨ ∃ name ∈ names, name ∉ s.manifestNames ∨ name ∈ s.emittedRootNames then
        throw (.typeError "invalid or duplicate scan root")
      set { s with files := s.files ++ batch, emittedRootNames := s.emittedRootNames ++ names }
      publish { files := batch }
  | _ => throw (.typeError "invalid scan root batch")

/-- The stream is between two roots, where one of the name may come. -/
def admitsRoot (s : StreamState) (name : Codes) : Prop :=
  s.dialect = some .framed ∧ s.manifest ∧ ¬ s.manifestCollecting ∧ s.currentRoot.isNone ∧ name ∈ s.manifestNames ∧
    name ∉ s.emittedRootNames

instance (s : StreamState) (name : Codes) : Decidable (admitsRoot s name) := by
  unfold admitsRoot
  infer_instance

def decodeRootBegin (fields : List (Codes × Json)) : Decode Unit := do
  let s ← get
  match Json.get fields "id", Json.get fields "name" with
  | .int rootId, .str name =>
    if rootId ≠ s.nextRootId ∨ ¬ admitsRoot s name then throw (.typeError "invalid scan root start")
    set { s with currentRoot := some { id := s.nextRootId, name } }
  | _, _ => throw (.typeError "invalid scan root start")

/-- `parent_id is not None and type(parent_id) is not int` does not hold; a negative number is
never found on the stack. -/
def readParent : Json → Option (Option Int)
  | .null => some none
  | .int id => some (some id)
  | _ => none

/-- `__decode_framed_root_node` -/
def decodeFramedRootNode (fromisoformat : Codes → Option Timestamp) (rootId nodeId parentId data : Json) :
    Decode Unit := do
  let s ← get
  match s.dialect, s.currentRoot with
  | some .framed, some current =>
    match nodeId, readParent parentId, data with
    | .int id, some parent, .obj fields =>
      if ¬ rootId.equalsNat current.id ∨ id ≠ current.nextNodeId ∨ (fields.lookup (codes "children")).isSome then
        throw (.typeError "invalid scan root node")
      -- Without children in the data this is the whole of `from_dict`.
      let attrs ← liftM (readAttrs fromisoformat fields)
      if current.stack.isEmpty ∧ (parent.isSome ∨ ¬ hasName attrs current.name) then
        throw (.typeError "invalid scan root node ordering")
      if parent.any (· < 0) then throw (.typeError "invalid scan node parent")
      match place (fun a : WireAttrs => a.isDir) current.stack ⟨current.nextNodeId, parent.map Int.toNat, attrs⟩ with
      | none => throw (.typeError "invalid scan node parent")
      | some stack =>
        set { s with currentRoot := some { current with
          stack, nextNodeId := current.nextNodeId + 1, nodeCount := current.nodeCount + 1 } }
    | _, _, _ => throw (.typeError "invalid scan root node")
  | _, _ => throw (.typeError "scan node without a root")

def decodeNodeRecord (fromisoformat : Codes → Option Timestamp) (rootId : Json) : Json → Decode Unit
  | .obj node => decodeFramedRootNode fromisoformat rootId (Json.get node "id") (Json.get node "parent") (Json.get node "file")
  | _ => throw (.typeError "invalid scan root node")

def decodeRootNodes (fromisoformat : Codes → Option Timestamp) (fields : List (Codes × Json)) : Decode Unit := do
  match Json.get fields "root", Json.get fields "nodes" with
  | .int rootId, .list nodes =>
    if nodes.isEmpty ∨ maxV2RootNodesPerRecord < nodes.length then throw (.typeError "invalid scan root node batch")
    nodes.forM (decodeNodeRecord fromisoformat (.int rootId))
  | _, _ => throw (.typeError "invalid scan root node batch")

/-- The state with one more complete root, which waits for its publication. -/
def StreamState.completeRoot (s : StreamState) (root : WireFile) (nodeCount completedAt : Int) : StreamState :=
  { s with
    files := s.files ++ [root]
    declaredNodes := s.declaredNodes ++ [nodeCount]
    pendingRootsStartedAt := if s.pendingRoots.isEmpty then some completedAt else s.pendingRootsStartedAt
    pendingRoots := s.pendingRoots ++ [root] }

def StreamState.leaveRoot (s : StreamState) (name : Codes) : StreamState :=
  { s with emittedRootNames := s.emittedRootNames ++ [name], nextRootId := s.nextRootId + 1, currentRoot := none }

/-- A root ends; the clock is read once for each root. -/
def decodeRootEnd (monotonic : Nat → Int) (fields : List (Codes × Json)) : Decode Unit := do
  let s ← get
  match s.dialect, s.currentRoot, Json.get fields "nodes" with
  | some .framed, some current, .int nodeCount =>
    match closeAll none current.stack with
    | none => throw (.typeError "incomplete scan root")
    | some root =>
      if ¬ (Json.get fields "id").equalsNat current.id ∨ nodeCount ≠ current.nodeCount then
        throw (.typeError "incomplete scan root")
      let completedAt := monotonic s.nextRootId
      set (s.completeRoot root nodeCount completedAt)
      let pending ← get
      if rootProgressBatchSize ≤ pending.pendingRoots.length ∨
          pending.pendingRootsStartedAt.any (fun started => decide (rootProgressMaxAge ≤ completedAt - started)) then
        flushPendingRootProgress
      -- The name of the root is the one it began with.
      modify fun s => s.leaveRoot current.name
  | _, _, _ => throw (.typeError "incomplete scan root")

def decodeRootUnchanged (fields : List (Codes × Json)) : Decode Unit := do
  let s ← get
  match Json.get fields "name", Json.get fields "fingerprint" with
  | .str name, .str fingerprint =>
    if ¬ isFingerprint fingerprint ∨ ¬ admitsRoot s name then throw (.typeError "invalid unchanged scan root")
    set { s with
      emittedRootNames := s.emittedRootNames ++ [name]
      pendingUnchanged := s.pendingUnchanged ++ [(name, fingerprint)] }
  | _, _ => throw (.typeError "invalid unchanged scan root")

def decodeComplete : Decode Unit := do
  let s ← get
  if ¬ s.manifest ∨ s.manifestCollecting ∨ s.currentRoot.isSome then throw (.typeError "incomplete scan stream")
  set { s with complete := true }

/-- What the decoder takes from outside. -/
structure Environment where
  /-- `json.loads` -/
  loads : List Char → Option Json
  fromisoformat : Codes → Option Timestamp
  /-- The clock as the n-th root ends, in nanoseconds. -/
  monotonic : Nat → Int

def decodeRecord (env : Environment) (type : RecordType) (fields : List (Codes × Json)) : Decode Unit :=
  match type with
  | .manifest => decodeManifest fields
  | .manifestBegin => decodeManifestBegin fields
  | .manifestNames => decodeManifestNames fields
  | .manifestEnd => decodeManifestEnd
  | .roots => decodeRoots env.fromisoformat fields
  | .rootBegin => decodeRootBegin fields
  | .rootNode =>
    decodeFramedRootNode env.fromisoformat (Json.get fields "root") (Json.get fields "id") (Json.get fields "parent")
      (Json.get fields "file")
  | .rootNodes => decodeRootNodes env.fromisoformat fields
  | .rootEnd => decodeRootEnd env.monotonic fields
  | .rootUnchanged => decodeRootUnchanged fields
  | .complete => decodeComplete
  | .unknown => throw (.typeError "unknown scan stream record")

def streamLinePrefix : List Char := "SEEDSYNC_SCAN_V2\t".toList

/-- `__decode_stream_record` -/
def decodeStreamRecord (env : Environment) (line : List Char) : Decode Unit := do
  if ¬ streamLinePrefix <+: line then return
  modify fun s => { s with sawPrefix := true }
  match env.loads (line.drop streamLinePrefix.length) with
  | none => throw .jsonDecode
  | some (.obj fields) =>
    match Json.get fields "type" with
    | .str type =>
      if (← get).complete then throw (.typeError "scan stream record after complete")
      decodeRecord env (recordType type) fields
    | _ => throw (.typeError "invalid scan stream record")
  | some _ => throw (.typeError "invalid scan stream record")

/-- What a line is for the decoder. -/
def RecordLine (env : Environment) (line : List Char) (type : RecordType) (fields : List (Codes × Json)) : Prop :=
  streamLinePrefix <+: line ∧ env.loads (line.drop streamLinePrefix.length) = some (.obj fields) ∧
    ∃ text, Json.get fields "type" = .str text ∧ recordType text = type

theorem decodeStreamRecord_run {env : Environment} {line : List Char} {type : RecordType} {fields : List (Codes × Json)}
    (h : RecordLine env line type fields) (s : StreamState) :
    (decodeStreamRecord env line).run.run s = if s.complete then
      (.error (.typeError "scan stream record after complete"), { s with sawPrefix := true }) else
      (decodeRecord env type fields).run.run { s with sawPrefix := true } := by
  obtain ⟨hstarts, hloads, text, htext, rfl⟩ := h
  unfold decodeStreamRecord
  rw [if_neg (not_not.mpr hstarts)]
  change ((modify fun s : StreamState => { s with sawPrefix := true } : Decode PUnit) >>= fun _ => _).run.run s = _
  rw [run_modify_bind, hloads]
  dsimp only
  rw [htext]
  dsimp only
  rw [run_get_bind]
  dsimp only
  by_cases hcomplete : s.complete = true
  · rw [if_pos hcomplete, if_pos hcomplete]
    rfl
  · rw [if_neg hcomplete, if_neg hcomplete]

/-- A line is no record, or one that cannot be read, or a record of some type. -/
theorem decodeStreamRecord_cases (env : Environment) (line : List Char) :
    (¬ streamLinePrefix <+: line ∧ ∀ s, (decodeStreamRecord env line).run.run s = (.ok (), s)) ∨
      (∃ e, ∀ s, (decodeStreamRecord env line).run.run s = (.error e, { s with sawPrefix := true })) ∨
      ∃ type fields, RecordLine env line type fields := by
  by_cases hstarts : streamLinePrefix <+: line
  · refine Or.inr ?_
    rcases hloads : env.loads (line.drop streamLinePrefix.length) with _ | value
    · refine Or.inl ⟨.jsonDecode, fun s => ?_⟩
      unfold decodeStreamRecord
      rw [if_neg (not_not.mpr hstarts), hloads]
      rfl
    · cases value with
      | obj fields =>
        cases htype : Json.get fields "type" with
        | str text => exact Or.inr ⟨_, fields, hstarts, hloads, text, htype, rfl⟩
        | _ =>
          refine Or.inl ⟨.typeError "invalid scan stream record", fun s => ?_⟩
          unfold decodeStreamRecord
          rw [if_neg (not_not.mpr hstarts), hloads]
          dsimp only
          rw [htype]
          rfl
      | _ =>
        refine Or.inl ⟨.typeError "invalid scan stream record", fun s => ?_⟩
        unfold decodeStreamRecord
        rw [if_neg (not_not.mpr hstarts), hloads]
        rfl
  · refine Or.inl ⟨hstarts, fun s => ?_⟩
    unfold decodeStreamRecord
    rw [if_pos hstarts]
    rfl

end SeedSync.Remote
