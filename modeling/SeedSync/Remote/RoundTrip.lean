import SeedSync.Remote.Chunks
import SeedSync.Remote.Written

/-!
# The stream carries the trees

What the decoder makes of the records that the writer writes, whatever the chunks are in which
their bytes arrive.
-/

namespace SeedSync.Remote

open Lib

/-! ## One file -/

/-- The object that the decoder has of a file. -/
def wireAttrs (file : FileAttrs) : WireAttrs where
  name := .str (codes file.name)
  size := .int file.size
  isDir := file.isDir
  timestampCreated := file.timestampCreated
  timestampModified := file.timestampModified
  mtimeNs := file.mtimeNs.elim .null .int
  pathPairId := file.pathPairId.map codes
  pathPairName := file.pathPairName.map codes
  isStaging := file.isStaging
  hasStagingOrigin := none
  hasStagingCollision := file.hasStagingCollision

def wireFile (file : SystemFile) : WireFile := (fileTree file).map wireAttrs

theorem lookup_optionalField (key k : String) (value : Option Json) :
    (optionalField key value).lookup (codes k) = if k = key then value else none := by
  cases value with
  | none => simp [optionalField]
  | some value => rw [optionalField, lookup_codes, List.lookup_nil]

theorem lookup_flagField (key k : String) (flag : Bool) :
    (flagField key flag).lookup (codes k) = if k = key ∧ flag = true then some (.bool true) else none := by
  cases flag with
  | false => simp [flagField]
  | true => rw [flagField, if_pos rfl, lookup_codes, List.lookup_nil]; simp

section

variable {isoformat : Timestamp → String} {fromisoformat : Codes → Option Timestamp}

/-- The timestamps of a file are read back. -/
def TimesReadBack (isoformat : Timestamp → String) (fromisoformat : Codes → Option Timestamp) (file : FileAttrs) : Prop :=
  ∀ t, t ∈ file.timestampCreated ∨ t ∈ file.timestampModified → fromisoformat (codes (isoformat t)) = some t

/-- A field of the data by its key. -/
theorem lookup_shallow (file : FileAttrs) (k : String) :
    (streamShallowFileData isoformat file).lookup (codes k) =
      ((((((((if k = "name" then some (.str (codes file.name)) else if k = "size" then some (.int file.size)
        else if k = "is_dir" then some (.bool file.isDir) else none).or
      (if k = "time_created" then file.timestampCreated.map fun t => .str (codes (isoformat t)) else none)).or
      (if k = "time_modified" then file.timestampModified.map fun t => .str (codes (isoformat t)) else none)).or
      (if k = "mtime_ns" then file.mtimeNs.map .int else none)).or
      (if k = "path_pair_id" then file.pathPairId.map fun s => .str (codes s) else none)).or
      (if k = "path_pair_name" then file.pathPairName.map fun s => .str (codes s) else none)).or
      (if k = "is_staging" ∧ file.isStaging = true then some (.bool true) else none)).or
      (if k = "has_staging_collision" ∧ file.hasStagingCollision = true then some (.bool true) else none)) := by
  unfold streamShallowFileData
  simp only [List.lookup_append, lookup_optionalField, lookup_flagField, lookup_codes, List.lookup_nil]

theorem readTime_shallow {time : Option Timestamp} (h : ∀ t ∈ time, fromisoformat (codes (isoformat t)) = some t) :
    readTime fromisoformat ((time.map fun t => Json.str (codes (isoformat t))).getD .null) = .ok time := by
  cases time with
  | none => rfl
  | some t => simp [readTime, h t rfl]

theorem setPairText_shallow (text : Option String) :
    setPairText ((text.map fun s => Json.str (codes s)).getD .null) = .ok (text.map codes) := by
  cases text <;> rfl

/-- `from_dict` reads the data of a node back. -/
theorem readAttrs_shallow {file : FileAttrs} (htimes : TimesReadBack isoformat fromisoformat file) :
    readAttrs fromisoformat (streamShallowFileData isoformat file) = .ok (wireAttrs file) := by
  have hcreated := readTime_shallow fun t ht => htimes t (Or.inl ht)
  have hmodified := readTime_shallow fun t ht => htimes t (Or.inr ht)
  unfold readAttrs Json.get required
  simp only [lookup_shallow]
  have hsize : isNegative (.int file.size) = .ok false := by simp [isNegative]
  simp [hcreated, hmodified, setPairText_shallow, bind, Except.bind, hsize]
  unfold wireAttrs
  cases file.isStaging <;> cases file.hasStagingCollision <;> cases file.mtimeNs <;> rfl

end

/-! ## Records -/

def Record.type : Record → RecordType
  | manifestBegin _ => .manifestBegin
  | manifestNames _ => .manifestNames
  | manifestEnd => .manifestEnd
  | rootBegin _ _ => .rootBegin
  | rootNodes _ _ => .rootNodes
  | rootEnd _ _ => .rootEnd
  | rootUnchanged _ _ => .rootUnchanged
  | complete => .complete

section

variable {isoformat : Timestamp → String} {env : Environment}

/-- The record is read back from its text. -/
def ReadsRecord (isoformat : Timestamp → String) (env : Environment) (record : Record) : Prop :=
  env.loads (record.json isoformat).dumps = some (record.json isoformat)

/-- The line of a record, less its end. -/
def Record.body (isoformat : Timestamp → String) (record : Record) : List Char :=
  streamPrefix ++ (record.json isoformat).dumps

theorem Record.type_field (isoformat : Timestamp → String) (record : Record) :
    ∃ fields type, record.json isoformat = .obj fields ∧ Json.get fields "type" = .str type ∧
      recordType type = record.type := by
  cases record
  all_goals exact ⟨_, _, rfl, rfl, by dsimp only [Record.type]; decide⟩

/-- A record of the writer comes to the part of the decoder for its type. -/
theorem decodeStreamRecord_body {record : Record} (hreads : ReadsRecord isoformat env record)
    {fields : List (Codes × Json)} (hfields : record.json isoformat = .obj fields) {s : StreamState}
    (hopen : s.complete = false) :
    (decodeStreamRecord env (record.body isoformat)).run.run s =
      (decodeRecord env record.type fields).run.run { s with sawPrefix := true } := by
  obtain ⟨fields', type, hjson, htype, hrecord⟩ := record.type_field isoformat
  cases hfields.symm.trans hjson
  have hdrop : (record.body isoformat).drop streamLinePrefix.length = (record.json isoformat).dumps :=
    List.drop_left' rfl
  have hline : RecordLine env (record.body isoformat) record.type fields :=
    ⟨⟨_, rfl⟩, by rw [hdrop, hreads, hjson], type, htype, hrecord⟩
  rw [decodeStreamRecord_run hline, hopen]
  rfl

/-- One record, from a state in which its type is due. -/
theorem triple_record {record : Record} (hreads : ReadsRecord isoformat env record) {fields : List (Codes × Json)}
    (hfields : record.json isoformat = .obj fields) {P Q : StreamState → Prop}
    (h : ∀ s, P s → s.complete = false ∧ ∃ s', (decodeRecord env record.type fields).run.run { s with sawPrefix := true } =
      (.ok (), s') ∧ Q s') :
    Triple P (decodeStreamRecord env (record.body isoformat)) (fun _ => Q) (fun _ => False) := by
  intro s hs
  obtain ⟨hopen, s', hrun, hs'⟩ := h s hs
  rw [decodeStreamRecord_body hreads hfields hopen, hrun]
  exact hs'

def decodeBodies (isoformat : Timestamp → String) (env : Environment) (records : List Record) : Decode Unit :=
  records.forM fun record => decodeStreamRecord env (record.body isoformat)

theorem triple_append {first rest : List Record} {P Q R : StreamState → Prop}
    (hfirst : Triple P (decodeBodies isoformat env first) (fun _ => Q) (fun _ => False))
    (hrest : Triple Q (decodeBodies isoformat env rest) (fun _ => R) (fun _ => False)) :
    Triple P (decodeBodies isoformat env (first ++ rest)) (fun _ => R) (fun _ => False) := by
  have happend : decodeBodies isoformat env (first ++ rest) =
      decodeBodies isoformat env first >>= fun _ => decodeBodies isoformat env rest := List.forM_append
  rw [happend]
  exact Triple.bind hfirst fun _ => hrest

theorem triple_cons {record : Record} {records : List Record} {P Q R : StreamState → Prop}
    (hfirst : Triple P (decodeStreamRecord env (record.body isoformat)) (fun _ => Q) (fun _ => False))
    (hrest : Triple Q (decodeBodies isoformat env records) (fun _ => R) (fun _ => False)) :
    Triple P (decodeBodies isoformat env (record :: records)) (fun _ => R) (fun _ => False) :=
  Triple.bind hfirst fun _ => hrest

theorem triple_nil {P : StreamState → Prop} :
    Triple P (decodeBodies isoformat env []) (fun _ => P) (fun _ => False) :=
  Triple.pure fun _ hs => hs

theorem triple_one {record : Record} {P Q : StreamState → Prop}
    (h : Triple P (decodeStreamRecord env (record.body isoformat)) (fun _ => Q) (fun _ => False)) :
    Triple P (decodeBodies isoformat env [record]) (fun _ => Q) (fun _ => False) :=
  triple_cons h triple_nil

/-! ## The manifest -/

/-- The names so far, of as many as were announced. -/
structure Collecting (count : Nat) (names : List Codes) (s : StreamState) : Prop where
  dialect : s.dialect = some .framed
  collecting : s.manifestCollecting = true
  expected : s.manifestExpected = some (count : Int)
  names : s.manifestNames = names
  open' : s.complete = false
  currentRoot : s.currentRoot = none
  nextRootId : s.nextRootId = 0
  emitted : s.emittedRootNames = []
  files : s.files = []

/-- The roots that are complete, of those of the manifest. -/
structure Between (names : List Codes) (done : List SystemFile) (s : StreamState) : Prop where
  dialect : s.dialect = some .framed
  manifest : s.manifest = true
  collecting : s.manifestCollecting = false
  names : s.manifestNames = names
  open' : s.complete = false
  currentRoot : s.currentRoot = none
  nextRootId : s.nextRootId = done.length
  emitted : s.emittedRootNames = done.map fun root => codes root.name
  files : s.files = done.map wireFile

theorem triple_manifestBegin (count : Nat) (hreads : ReadsRecord isoformat env (.manifestBegin count)) :
    Triple (fun s => s = {}) (decodeStreamRecord env ((Record.manifestBegin count).body isoformat))
      (fun _ => Collecting count []) (fun _ => False) := by
  refine triple_record hreads rfl ?_
  rintro s rfl
  exact ⟨rfl, _, rfl, rfl, rfl, rfl, rfl, rfl, rfl, rfl, rfl, rfl⟩

theorem readNames_map (names : List Codes) : readNames (.list (names.map .str)) = some names := by
  unfold readNames
  induction names with
  | nil => rfl
  | cons name names ih =>
    simp only at ih
    simp [List.map_cons, List.mapM_cons, ih]

theorem triple_manifestNames {count : Nat} {names batch : List Codes} (hne : batch ≠ [])
    (hnodup : (names ++ batch).Nodup) (hreads : ReadsRecord isoformat env (.manifestNames batch)) :
    Triple (Collecting count names) (decodeStreamRecord env ((Record.manifestNames batch).body isoformat))
      (fun _ => Collecting count (names ++ batch)) (fun _ => False) := by
  refine triple_record hreads rfl fun s hs => ⟨hs.open', { s with
    sawPrefix := true, manifestNames := s.manifestNames ++ batch }, ?_, ?_⟩
  · have hread : readNames (Json.get [typeField "manifest_names", (codes "names", .list (batch.map .str))] "names") =
        some batch := readNames_map batch
    have hdue : ¬ (s.dialect ≠ some .framed ∨ ¬ s.manifestCollecting = true) := by simp [hs.dialect, hs.collecting]
    have hfresh : ¬ (batch.isEmpty = true ∨ ¬ batch.Nodup ∨ ∃ name ∈ batch, name ∈ s.manifestNames) := by
      rw [hs.names]
      simp only [List.isEmpty_iff, hne, false_or, not_or, not_not, not_exists, not_and]
      exact ⟨hnodup.of_append_right, fun name hname hold => List.disjoint_of_nodup_append hnodup hold hname⟩
    change (decodeManifestNames _).run.run _ = _
    unfold decodeManifestNames
    rw [run_get_bind, hread]
    dsimp only
    rw [if_neg hdue, if_neg hfresh]
    rfl
  · exact ⟨hs.dialect, hs.collecting, hs.expected, by rw [hs.names], hs.open', hs.currentRoot, hs.nextRootId,
      hs.emitted, hs.files⟩

theorem triple_manifestBatches {count : Nat} (batches : List (List Codes)) {names : List Codes}
    (hne : ∀ batch ∈ batches, batch ≠ []) (hnodup : (names ++ batches.flatten).Nodup)
    (hreads : ∀ batch ∈ batches, ReadsRecord isoformat env (.manifestNames batch)) :
    Triple (Collecting count names) (decodeBodies isoformat env (batches.map .manifestNames))
      (fun _ => Collecting count (names ++ batches.flatten)) (fun _ => False) := by
  induction batches generalizing names with
  | nil => exact triple_nil.conseq (fun _ h => h) (fun _ _ h => by simpa using h) fun _ h => h
  | cons batch batches ih =>
    rw [List.flatten_cons, ← List.append_assoc] at hnodup ⊢
    refine triple_cons (triple_manifestNames (hne batch List.mem_cons_self) hnodup.of_append_left
      (hreads batch List.mem_cons_self)) ?_
    exact ih (fun b hb => hne b (List.mem_cons_of_mem _ hb)) hnodup fun b hb => hreads b (List.mem_cons_of_mem _ hb)

theorem triple_manifestEnd {names : List Codes} (hreads : ReadsRecord isoformat env .manifestEnd) :
    Triple (Collecting names.length names) (decodeStreamRecord env (Record.manifestEnd.body isoformat))
      (fun _ => Between names []) (fun _ => False) := by
  refine triple_record hreads rfl fun s hs => ⟨hs.open', { s with
    sawPrefix := true, manifestCollecting := false, manifest := true,
    published := s.published ++ [{ manifestNames := some (s.manifestNames.map .str) }] }, ?_, ?_⟩
  · have hdue : ¬ (s.dialect ≠ some .framed ∨ ¬ s.manifestCollecting = true ∨
        s.manifestExpected ≠ some (s.manifestNames.length : Int)) := by
      simp [hs.dialect, hs.collecting, hs.expected, hs.names]
    change decodeManifestEnd.run.run _ = _
    unfold decodeManifestEnd
    rw [run_get_bind]
    dsimp only
    rw [if_neg hdue]
    rfl
  · exact ⟨hs.dialect, rfl, rfl, hs.names, hs.open', hs.currentRoot, hs.nextRootId, hs.emitted, hs.files⟩

theorem triple_manifest {names : List Codes} (hnodup : names.Nodup) {records : List Record}
    (hrecords : ManifestRecords names records) (hreads : ∀ record ∈ records, ReadsRecord isoformat env record) :
    Triple (fun s => s = {}) (decodeBodies isoformat env records) (fun _ => Between names []) (fun _ => False) := by
  obtain ⟨batches, rfl, hflat, hne⟩ := hrecords
  rw [List.cons_append] at hreads ⊢
  refine triple_cons (triple_manifestBegin _ (hreads _ List.mem_cons_self)) (triple_append (triple_manifestBatches
    batches hne (by simpa [hflat] using hnodup) fun batch hbatch => hreads _ ?_) ?_)
  · exact List.mem_cons_of_mem _ (List.mem_append_left _ (List.mem_map_of_mem hbatch))
  · rw [List.nil_append, hflat]
    exact triple_one (triple_manifestEnd (hreads _ (by simp)))

/-! ## Roots -/

/-- A root is open, with some of its nodes read. -/
structure InRoot (names : List Codes) (done : List SystemFile) (name : Codes) (nodes : Nat) (stack : Opened WireAttrs)
    (s : StreamState) : Prop where
  dialect : s.dialect = some .framed
  manifest : s.manifest = true
  collecting : s.manifestCollecting = false
  names : s.manifestNames = names
  open' : s.complete = false
  currentRoot : s.currentRoot = some { id := done.length, name, nextNodeId := nodes, nodeCount := nodes, stack }
  nextRootId : s.nextRootId = done.length
  emitted : s.emittedRootNames = done.map fun root => codes root.name
  files : s.files = done.map wireFile

variable {names : List Codes} {done : List SystemFile}

theorem triple_rootBegin {name : Codes} (hlisted : name ∈ names) (hfresh : name ∉ done.map fun root => codes root.name)
    (hreads : ReadsRecord isoformat env (.rootBegin done.length name)) :
    Triple (Between names done) (decodeStreamRecord env ((Record.rootBegin done.length name).body isoformat))
      (fun _ => InRoot names done name 0 []) (fun _ => False) := by
  refine triple_record hreads rfl fun s hs => ⟨hs.open', { s with
    sawPrefix := true, currentRoot := some { id := s.nextRootId, name } }, ?_, ?_⟩
  · have hadmits : admitsRoot { s with sawPrefix := true } name := by
      refine ⟨hs.dialect, hs.manifest, by simp [hs.collecting], by simp [hs.currentRoot], ?_, ?_⟩
      · rw [← hs.names] at hlisted
        exact hlisted
      · rw [← hs.emitted] at hfresh
        exact hfresh
    have hdue : ¬ ((done.length : Int) ≠ s.nextRootId ∨ ¬ admitsRoot { s with sawPrefix := true } name) := by
      rintro (hid | hbad)
      · exact hid (by rw [hs.nextRootId])
      · exact hbad hadmits
    change (decodeRootBegin [typeField "root_begin", (codes "id", .int done.length), (codes "name", .str name)]).run.run _ = _
    unfold decodeRootBegin
    rw [run_get_bind]
    change (ite _ _ _ : Decode Unit).run.run _ = _
    rw [if_neg hdue]
    rfl
  · exact ⟨hs.dialect, hs.manifest, hs.collecting, hs.names, hs.open', by simp [hs.nextRootId], hs.nextRootId, hs.emitted,
      hs.files⟩

theorem lookup_children (file : FileAttrs) : (streamShallowFileData isoformat file).lookup (codes "children") = none := by
  rw [lookup_shallow]
  simp

/-- One node, where the stack takes it. -/
theorem triple_node {name : Codes} {node : Item FileAttrs} {stack stack' : Opened WireAttrs}
    (htimes : TimesReadBack isoformat env.fromisoformat node.value)
    (hplace : place (fun a : WireAttrs => a.isDir) stack (node.map wireAttrs) = some stack')
    (hname : stack = [] → codes node.value.name = name) :
    Triple (InRoot names done name node.id stack)
      (decodeNodeRecord env.fromisoformat (.int done.length) (nodeJson isoformat node))
      (fun _ => InRoot names done name (node.id + 1) stack') (fun _ => False) := by
  intro s hs
  have hparent : readParent (parentJson node.parent) = some (node.parent.map Int.ofNat) := by
    cases node.parent <;> rfl
  have hdue : ¬ (¬ (Json.int done.length).equalsNat done.length = true ∨ (node.id : Int) ≠ (node.id : Nat) ∨
      ((streamShallowFileData isoformat node.value).lookup (codes "children")).isSome = true) := by
    simp [lookup_children, Json.equalsNat]
  have hfirst : ¬ (stack.isEmpty = true ∧ ((node.parent.map Int.ofNat).isSome = true ∨
      ¬ hasName (wireAttrs node.value) name = true)) := by
    rintro ⟨hempty, hbad⟩
    rw [List.isEmpty_iff] at hempty
    subst hempty
    have hroot : (node.map wireAttrs).parent = none := parent_of_place_nil hplace
    change node.parent = none at hroot
    simp [hroot, hasName, wireAttrs, hname rfl] at hbad
  have hnonneg : ¬ (node.parent.map Int.ofNat).any (· < 0) = true := by
    cases node.parent <;> simp
  have htoNat : (node.parent.map Int.ofNat).map Int.toNat = node.parent := by
    cases node.parent <;> simp
  have hrun : (decodeNodeRecord env.fromisoformat (.int done.length) (nodeJson isoformat node)).run.run s =
      (.ok (), { s with currentRoot := some { id := done.length, name, nextNodeId := node.id + 1, nodeCount := node.id + 1, stack := stack' } }) := by
    change (decodeFramedRootNode env.fromisoformat (.int done.length) (.int node.id) (parentJson node.parent)
      (.obj (streamShallowFileData isoformat node.value))).run.run s = _
    unfold decodeFramedRootNode
    rw [run_get_bind, hs.dialect, hs.currentRoot]
    dsimp only
    rw [hparent]
    dsimp only
    rw [if_neg hdue, readAttrs_shallow htimes]
    change (ite _ _ _ : Decode Unit).run.run _ = _
    rw [if_neg hfirst, if_neg hnonneg, htoNat]
    have hopened : place (fun a : WireAttrs => a.isDir) stack ⟨node.id, node.parent, wireAttrs node.value⟩ =
        some stack' := hplace
    simp only [hopened]
    rfl
  rw [hrun]
  exact ⟨hs.dialect, hs.manifest, hs.collecting, hs.names, hs.open', rfl, hs.nextRootId, hs.emitted, hs.files⟩

/-- The nodes of a record one after the other. -/
theorem triple_nodes {name : Codes} (nodes : List (Item FileAttrs)) {next : Nat} {stack stack' : Opened WireAttrs}
    (hids : nodes.map Item.id = List.range' next nodes.length)
    (htimes : ∀ node ∈ nodes, TimesReadBack isoformat env.fromisoformat node.value)
    (hplace : (nodes.map (Item.map wireAttrs)).foldlM (place fun a : WireAttrs => a.isDir) stack = some stack')
    (hname : stack = [] → ∀ node ∈ nodes.head?, codes node.value.name = name) :
    Triple (InRoot names done name next stack)
      ((nodes.map (nodeJson isoformat)).forM (decodeNodeRecord env.fromisoformat (.int done.length)))
      (fun _ => InRoot names done name (next + nodes.length) stack') (fun _ => False) := by
  induction nodes generalizing next stack with
  | nil =>
    cases hplace
    exact Triple.pure fun _ hs => hs
  | cons node nodes ih =>
    rw [List.map_cons, List.length_cons, List.range'_succ, List.cons.injEq] at hids
    obtain ⟨rfl, hids⟩ := hids
    rw [List.map_cons, List.foldlM_cons] at hplace
    obtain ⟨middle, hmiddle, hplace⟩ := Option.bind_eq_some_iff.mp hplace
    have hrest := ih hids (fun n hn => htimes n (List.mem_cons_of_mem _ hn)) hplace
      fun hempty => absurd hempty (place_ne_nil hmiddle)
    rw [List.length_cons, Nat.add_comm nodes.length, ← Nat.add_assoc]
    exact Triple.bind (triple_node (htimes node List.mem_cons_self) hmiddle fun hempty => hname hempty node rfl)
      fun _ => hrest

theorem triple_rootNodes {name : Codes} {nodes : List (Item FileAttrs)} {next : Nat} {stack stack' : Opened WireAttrs}
    (hne : nodes ≠ []) (hlength : nodes.length ≤ maxV2RootNodesPerRecord)
    (hids : nodes.map Item.id = List.range' next nodes.length)
    (htimes : ∀ node ∈ nodes, TimesReadBack isoformat env.fromisoformat node.value)
    (hplace : (nodes.map (Item.map wireAttrs)).foldlM (place fun a : WireAttrs => a.isDir) stack = some stack')
    (hname : stack = [] → ∀ node ∈ nodes.head?, codes node.value.name = name)
    (hreads : ReadsRecord isoformat env (.rootNodes done.length nodes)) :
    Triple (InRoot names done name next stack)
      (decodeStreamRecord env ((Record.rootNodes done.length nodes).body isoformat))
      (fun _ => InRoot names done name (next + nodes.length) stack') (fun _ => False) := by
  intro s hs
  have hbatch : ¬ ((nodes.map (nodeJson isoformat)).isEmpty = true ∨
      maxV2RootNodesPerRecord < (nodes.map (nodeJson isoformat)).length) := by
    simp [hne, hlength]
  have hseen : InRoot names done name next stack { s with sawPrefix := true } :=
    ⟨hs.dialect, hs.manifest, hs.collecting, hs.names, hs.open', hs.currentRoot, hs.nextRootId, hs.emitted, hs.files⟩
  have hrecord : decodeRootNodes env.fromisoformat [typeField "root_nodes", (codes "root", .int done.length),
      (codes "nodes", .list (nodes.map (nodeJson isoformat)))] =
      (nodes.map (nodeJson isoformat)).forM (decodeNodeRecord env.fromisoformat (.int done.length)) := by
    unfold decodeRootNodes
    change ite _ _ _ = _
    rw [if_neg hbatch]
  rw [decodeStreamRecord_body hreads rfl hs.open']
  have hnodes := triple_nodes nodes hids htimes hplace hname _ hseen
  rw [← hrecord] at hnodes
  exact hnodes

/-- The batches of a root. -/
theorem triple_rootBatches {name : Codes} (batches : List (List (Item FileAttrs))) {next : Nat}
    {stack stack' : Opened WireAttrs}
    (hbatches : ∀ batch ∈ batches, batch ≠ [] ∧ batch.length ≤ maxV2RootNodesPerRecord)
    (hids : batches.flatten.map Item.id = List.range' next batches.flatten.length)
    (htimes : ∀ node ∈ batches.flatten, TimesReadBack isoformat env.fromisoformat node.value)
    (hplace : (batches.flatten.map (Item.map wireAttrs)).foldlM (place fun a : WireAttrs => a.isDir) stack = some stack')
    (hname : stack = [] → ∀ node ∈ batches.flatten.head?, codes node.value.name = name)
    (hreads : ∀ batch ∈ batches, ReadsRecord isoformat env (.rootNodes done.length batch)) :
    Triple (InRoot names done name next stack)
      (decodeBodies isoformat env (batches.map (Record.rootNodes done.length)))
      (fun _ => InRoot names done name (next + batches.flatten.length) stack') (fun _ => False) := by
  induction batches generalizing next stack with
  | nil =>
    cases hplace
    exact triple_nil
  | cons batch batches ih =>
    obtain ⟨hne, hlength⟩ := hbatches batch List.mem_cons_self
    rw [List.flatten_cons] at hids htimes hplace hname
    rw [List.map_append, List.length_append, ← List.range'_append_1] at hids
    obtain ⟨hids, hids'⟩ := List.append_inj hids (by simp)
    rw [List.map_append, List.foldlM_append] at hplace
    obtain ⟨middle, hmiddle, hplace⟩ := Option.bind_eq_some_iff.mp hplace
    have hfirst : stack = [] → ∀ node ∈ batch.head?, codes node.value.name = name := by
      intro hempty node hnode
      refine hname hempty node ?_
      rw [List.head?_append_of_ne_nil _ hne]
      exact hnode
    have hopen : middle ≠ [] := by
      obtain ⟨node, rest, rfl⟩ := List.exists_cons_of_ne_nil hne
      exact foldlM_place_ne_nil (by simp) hmiddle
    rw [List.flatten_cons, List.length_append, ← Nat.add_assoc]
    refine triple_cons (triple_rootNodes hne hlength hids (fun n hn => htimes n (List.mem_append_left _ hn)) hmiddle
      hfirst (hreads batch List.mem_cons_self)) ?_
    exact ih (fun b hb => hbatches b (List.mem_cons_of_mem _ hb)) hids'
      (fun n hn => htimes n (List.mem_append_right _ hn)) hplace (fun hempty => absurd hempty hopen)
      fun b hb => hreads b (List.mem_cons_of_mem _ hb)

theorem decodeRootEnd_run (monotonic : Nat → Int) (fields : List (Codes × Json)) {s : StreamState}
    {current : CurrentRoot} {root : WireFile} (hdialect : s.dialect = some .framed) (hcurrent : s.currentRoot = some current)
    (hnodes : Json.get fields "nodes" = .int current.nodeCount) (hid : Json.get fields "id" = .int current.id)
    (hclose : closeAll none current.stack = some root) :
    ∃ pending startedAt published, (decodeRootEnd monotonic fields).run.run s =
      (.ok (), { ((s.completeRoot root current.nodeCount (monotonic s.nextRootId)).leaveRoot current.name) with
        pendingRoots := pending, pendingRootsStartedAt := startedAt, published := published }) := by
  have hdue : ¬ (¬ (Json.int current.id).equalsNat current.id = true ∨ (current.nodeCount : Int) ≠ current.nodeCount) := by
    simp [Json.equalsNat]
  unfold decodeRootEnd
  rw [run_get_bind, hdialect, hcurrent, hnodes, hid]
  dsimp only
  rw [hclose]
  dsimp only
  rw [if_neg hdue, run_set_bind, run_get_bind]
  split_ifs
  · obtain ⟨startedAt, hflush⟩ := flushPendingRootProgress_run
      (s.completeRoot root current.nodeCount (monotonic s.nextRootId))
    rw [run_bind_of_ok hflush]
    exact ⟨_, _, _, rfl⟩
  · exact ⟨_, _, _, rfl⟩

theorem triple_rootEnd {root : SystemFile} {stack : Opened WireAttrs} (hclose : closeAll none stack = some (wireFile root))
    (hreads : ReadsRecord isoformat env (.rootEnd done.length (fileTree root).count)) :
    Triple (InRoot names done (codes root.name) (fileTree root).count stack)
      (decodeStreamRecord env ((Record.rootEnd done.length (fileTree root).count).body isoformat))
      (fun _ => Between names (done ++ [root])) (fun _ => False) := by
  refine triple_record hreads rfl fun s hs => ⟨hs.open', ?_⟩
  obtain ⟨pending, startedAt, published, hrun⟩ := decodeRootEnd_run env.monotonic [typeField "root_end",
    (codes "id", .int done.length), (codes "nodes", .int (fileTree root).count)] (s := { s with sawPrefix := true })
    hs.dialect hs.currentRoot rfl rfl hclose
  refine ⟨_, hrun, hs.dialect, hs.manifest, hs.collecting, hs.names, hs.open', rfl, ?_, ?_, ?_⟩
  · simp [StreamState.leaveRoot, StreamState.completeRoot, hs.nextRootId]
  · simp [StreamState.leaveRoot, StreamState.completeRoot, hs.emitted]
  · simp [StreamState.leaveRoot, StreamState.completeRoot, hs.files]

/-- Only directories have children. -/
def OnlyDirsHaveChildren (root : SystemFile) : Prop := (fileTree root).ParentsOnly fun file => file.isDir = true

/-- The timestamps of a whole tree are read back. -/
def TreeTimesReadBack (isoformat : Timestamp → String) (fromisoformat : Codes → Option Timestamp) (root : SystemFile) :
    Prop :=
  ∀ node ∈ (fileTree root).items none 0, TimesReadBack isoformat fromisoformat node.value

theorem triple_root {nodeBatchSize : Nat} (hsize : nodeBatchSize ≤ maxV2RootNodesPerRecord) {root : SystemFile}
    (hlisted : codes root.name ∈ names) (hfresh : codes root.name ∉ done.map fun root => codes root.name)
    (hdirs : OnlyDirsHaveChildren root) (htimes : TreeTimesReadBack isoformat env.fromisoformat root)
    {records : List Record} (hrecords : RootRecords nodeBatchSize done.length root records)
    (hreads : ∀ record ∈ records, ReadsRecord isoformat env record) :
    Triple (Between names done) (decodeBodies isoformat env records) (fun _ => Between names (done ++ [root]))
      (fun _ => False) := by
  obtain ⟨batches, rfl, hflat, hbatches⟩ := hrecords
  have hparents : (wireFile root).ParentsOnly fun a : WireAttrs => a.isDir = true :=
    (Rose.parentsOnly_map wireAttrs _).mpr hdirs
  obtain ⟨stack, hplace, -, hclose⟩ := reads_tree (wireFile root) hparents
  rw [wireFile, Rose.items_map, ← hflat] at hplace
  have hlength : batches.flatten.length = (fileTree root).count := by rw [hflat, Rose.length_items]
  have hids : batches.flatten.map Item.id = List.range' 0 batches.flatten.length := by
    rw [hflat, Rose.ids_items, Rose.length_items]
  have hfirst : ∀ node ∈ batches.flatten.head?, codes node.value.name = codes root.name := by
    rw [hflat]
    cases root
    rintro node ⟨⟩
    rfl
  rw [List.cons_append] at hreads ⊢
  refine triple_cons (triple_rootBegin hlisted hfresh (hreads _ List.mem_cons_self)) (triple_append
    (triple_rootBatches batches (fun batch hbatch => ⟨(hbatches batch hbatch).1, (hbatches batch hbatch).2.trans hsize⟩)
      hids (by rw [hflat]; exact htimes) hplace (fun _ => hfirst) fun batch hbatch => hreads _ ?_) ?_)
  · exact List.mem_cons_of_mem _ (List.mem_append_left _ (List.mem_map_of_mem hbatch))
  · rw [Nat.zero_add, hlength]
    exact triple_one (triple_rootEnd hclose (hreads _ (by simp)))

/-- The roots one after the other, the first of them numbered by those before it. -/
theorem triple_roots {nodeBatchSize : Nat} (hsize : nodeBatchSize ≤ maxV2RootNodesPerRecord) (done roots : List SystemFile)
    (hlisted : ∀ root ∈ roots, codes root.name ∈ names)
    (hnodup : ((done ++ roots).map fun root => codes root.name).Nodup)
    (hdirs : ∀ root ∈ roots, OnlyDirsHaveChildren root)
    (htimes : ∀ root ∈ roots, TreeTimesReadBack isoformat env.fromisoformat root)
    {records : List Record} (hrecords : RootsRecords nodeBatchSize done.length roots records)
    (hreads : ∀ record ∈ records, ReadsRecord isoformat env record) :
    Triple (Between names done) (decodeBodies isoformat env records) (fun _ => Between names (done ++ roots))
      (fun _ => False) := by
  induction roots generalizing done records with
  | nil =>
    cases hrecords
    rw [List.append_nil]
    exact triple_nil
  | cons root roots ih =>
    obtain ⟨first, rest, rfl, hfirst, hrest⟩ := hrecords
    have hfresh : codes root.name ∉ done.map fun root => codes root.name := by
      rw [List.map_append, List.map_cons] at hnodup
      exact fun hmem => List.disjoint_of_nodup_append hnodup hmem List.mem_cons_self
    have happend : done ++ root :: roots = (done ++ [root]) ++ roots := by simp
    rw [happend] at hnodup ⊢
    have hnext : RootsRecords nodeBatchSize (done ++ [root]).length roots rest := by simpa using hrest
    refine triple_append (triple_root hsize (hlisted root List.mem_cons_self) hfresh (hdirs root List.mem_cons_self)
      (htimes root List.mem_cons_self) hfirst fun r hr => hreads r (List.mem_append_left _ hr)) ?_
    exact ih _ (fun r hr => hlisted r (List.mem_cons_of_mem _ hr)) hnodup (fun r hr => hdirs r (List.mem_cons_of_mem _ hr))
      (fun r hr => htimes r (List.mem_cons_of_mem _ hr)) hnext fun r hr => hreads r (List.mem_append_right _ hr)

/-- Every record was taken, and the roots are the files. -/
structure Complete (roots : List SystemFile) (s : StreamState) : Prop where
  sawPrefix : s.sawPrefix = true
  manifest : s.manifest = true
  complete : s.complete = true
  files : s.files = roots.map wireFile

theorem triple_complete {roots : List SystemFile} (hreads : ReadsRecord isoformat env .complete) :
    Triple (Between names roots) (decodeStreamRecord env (Record.complete.body isoformat)) (fun _ => Complete roots)
      (fun _ => False) := by
  refine triple_record hreads rfl fun s hs => ⟨hs.open', { s with sawPrefix := true, complete := true }, ?_, ?_⟩
  · have hdue : ¬ (¬ s.manifest = true ∨ s.manifestCollecting = true ∨ s.currentRoot.isSome = true) := by
      simp [hs.manifest, hs.collecting, hs.currentRoot]
    change decodeComplete.run.run _ = _
    unfold decodeComplete
    rw [run_get_bind]
    dsimp only
    rw [if_neg hdue]
    rfl
  · exact ⟨rfl, hs.manifest, rfl, hs.files⟩

/-- The records of a scan are decoded to its trees. -/
theorem triple_stream {nodeBatchSize : Nat} (hsize : nodeBatchSize ≤ maxV2RootNodesPerRecord) {roots : List SystemFile}
    (hnames : names.Nodup) (hlisted : ∀ root ∈ roots, codes root.name ∈ names)
    (hnodup : (roots.map fun root => codes root.name).Nodup) (hdirs : ∀ root ∈ roots, OnlyDirsHaveChildren root)
    (htimes : ∀ root ∈ roots, TreeTimesReadBack isoformat env.fromisoformat root) {records : List Record}
    (hrecords : StreamRecords nodeBatchSize names roots records)
    (hreads : ∀ record ∈ records, ReadsRecord isoformat env record) :
    Triple (fun s => s = {}) (decodeBodies isoformat env records) (fun _ => Complete roots) (fun _ => False) := by
  obtain ⟨manifest, body, rfl, hmanifest, hbody⟩ := hrecords
  refine triple_append (triple_append (triple_manifest hnames hmanifest fun r hr => hreads r ?_)
    (triple_roots hsize [] roots hlisted hnodup hdirs htimes hbody fun r hr => hreads r ?_))
    (triple_one (triple_complete (hreads _ (by simp))))
  · exact List.mem_append_left _ (List.mem_append_left _ hr)
  · exact List.mem_append_left _ (List.mem_append_right _ hr)

/-! ## The text -/

theorem body_chars (isoformat : Timestamp → String) (record : Record) :
    ∀ c ∈ record.body isoformat, Ascii c ∧ c ≠ '\n' ∧ c ≠ '\r' := by
  have hall : streamPrefix.all (fun c => decide (Ascii c ∧ c ≠ '\n' ∧ c ≠ '\r')) = true := by decide
  have hstarts : ∀ c ∈ streamPrefix, Ascii c ∧ c ≠ '\n' ∧ c ≠ '\r' := fun c hc =>
    of_decide_eq_true (List.all_eq_true.mp hall c hc)
  intro c hc
  rcases List.mem_append.mp hc with hc | hc
  · exact hstarts c hc
  · obtain ⟨hlow, hhigh⟩ := Json.printable_dumps _ c hc
    refine ⟨Nat.le_trans hhigh (by decide), ?_, ?_⟩
    · rintro rfl
      exact absurd hlow (by decide)
    · rintro rfl
      exact absurd hlow (by decide)

theorem stripCarriageReturns_body (isoformat : Timestamp → String) (record : Record) :
    stripCarriageReturns (record.body isoformat) = record.body isoformat := by
  unfold stripCarriageReturns
  rw [List.rdropWhile_eq_self_iff]
  intro hne
  have hlast := (body_chars isoformat record _ (List.getLast_mem hne)).2.2
  simpa using hlast

/-- What the writer puts on the wire. -/
def streamText (isoformat : Timestamp → String) (records : List Record) : List Char :=
  records.flatMap fun record => record.line isoformat

theorem streamText_eq (isoformat : Timestamp → String) (records : List Record) :
    streamText isoformat records = (records.map fun record => record.body isoformat).flatMap (· ++ ['\n']) := by
  rw [List.flatMap_map]
  rfl

theorem streamText_isStream {records : List Record} (hne : records ≠ []) (hfits : AllFit isoformat records) :
    StreamText (streamText isoformat records) (records.map fun record => record.body isoformat) where
  ascii := by
    intro c hc
    obtain ⟨record, -, hc⟩ := List.mem_flatMap.mp hc
    rcases List.mem_append.mp hc with hc | hc
    · exact (body_chars isoformat record c hc).1
    · rw [List.mem_singleton.mp hc]
      unfold Ascii
      decide
  starts := by
    obtain ⟨record, rest, rfl⟩ := List.exists_cons_of_ne_nil hne
    rw [streamText, List.flatMap_cons, Record.line, List.append_assoc, List.append_assoc]
    exact List.prefix_append _ _
  cut := by
    rw [streamText_eq]
    refine cutLines_flatMap rfl _ fun line hline c hc => ?_
    obtain ⟨record, -, rfl⟩ := List.mem_map.mp hline
    simpa using (body_chars isoformat record c hc).2.1
  short := by
    intro line hline
    obtain ⟨record, hrecord, rfl⟩ := List.mem_map.mp hline
    have hfits := hfits record hrecord
    rw [Record.fits, decide_eq_true_eq, Record.line, List.length_append] at hfits
    exact hfits

theorem decodeLines_bodies (records : List Record) :
    decodeLines env (records.map fun record => record.body isoformat) = decodeBodies isoformat env records := by
  change forM (m := Decode) (records.map fun record => record.body isoformat) _ = forM records _
  rw [List.forM_map]
  simp only [stripCarriageReturns_body]

theorem StreamRecords.ne_nil {nodeBatchSize : Nat} {roots : List SystemFile} {records : List Record}
    (h : StreamRecords nodeBatchSize names roots records) : records ≠ [] := by
  obtain ⟨manifest, body, rfl, -⟩ := h
  simp

/-- A stream that is decoded to some roots is a scan of them. -/
theorem scan_of_complete {records : List Record} (hne : records ≠ []) (hfits : AllFit isoformat records)
    {roots : List SystemFile}
    (hdecoded : Triple (fun s => s = {}) (decodeBodies isoformat env records) (fun _ => Complete roots) (fun _ => False))
    {chunks : List (List UInt8)} (hchunks : chunks.flatten = (streamText isoformat records).map byteOf)
    (out : List UInt8) :
    (consumeStream env chunks).error = none ∧ Complete roots (consumeStream env chunks).stream ∧
      (scan env (.returned chunks out)).2 = .ok (roots.map wireFile) := by
  have hcomplete := hdecoded {} rfl
  rcases hdecode : (decodeBodies isoformat env records).run.run {} with ⟨e | ⟨⟩, s⟩
  · rw [hdecode] at hcomplete
    exact hcomplete.elim
  · rw [hdecode] at hcomplete
    rw [← decodeLines_bodies] at hdecode
    obtain ⟨herror, hdecoder, hbuffer, hmode, hstream⟩ :=
      consumeStream_text hchunks (streamText_isStream hne hfits) hdecode
    have hfinish : (consumeStream env chunks).finish env = consumeStream env chunks := by
      unfold Consumer.finish
      rw [hmode]
      simp [hdecoder, hbuffer]
    refine ⟨herror, hstream ▸ hcomplete, ?_⟩
    unfold scan completeScan
    dsimp only
    rw [hfinish, herror, hstream]
    dsimp only
    rw [if_pos hcomplete.sawPrefix, if_neg (by simp [hcomplete.manifest, hcomplete.complete])]
    rw [hcomplete.files]

/-- The trees of a scan come back from the stream that it writes, in whatever chunks the stream
arrives. -/
theorem stream_round_trip {nodeBatchSize : Nat} (hsize : 1 ≤ nodeBatchSize ∧ nodeBatchSize ≤ maxV2RootNodesPerRecord)
    {roots : List SystemFile} (hnodup : (roots.map fun root => root.name).Nodup)
    (hdirs : ∀ root ∈ roots, OnlyDirsHaveChildren root) (hfits : RootsFit isoformat 0 roots)
    (htimes : ∀ root ∈ roots, TreeTimesReadBack isoformat env.fromisoformat root) {written : List Record}
    {result : Except ScanError Unit}
    (hwritten : (writeStream isoformat (roots.map fun root => codes root.name) roots nodeBatchSize).run.run [] =
      (result, written))
    (hreads : ∀ record ∈ written, ReadsRecord isoformat env record) {chunks : List (List UInt8)}
    (hchunks : chunks.flatten = (streamText isoformat written).map byteOf) (out : List UInt8) :
    result = .ok () ∧ (consumeStream env chunks).error = none ∧ (consumeStream env chunks).stream.complete = true ∧
      (consumeStream env chunks).stream.files = roots.map wireFile ∧
      (scan env (.returned chunks out)).2 = .ok (roots.map wireFile) := by
  obtain ⟨records, hrun, hrecords⟩ := writeStream_run hsize.1 hfits.manifest hfits.names hfits
  obtain ⟨rfl, rfl⟩ := Prod.mk.inj (hwritten.symm.trans hrun)
  have hbound := writeStream_fits isoformat (roots.map fun root => codes root.name) roots nodeBatchSize
  rw [hrun] at hbound
  have hcodes : (roots.map fun root => codes root.name).Nodup := by
    have hmapped := hnodup.map codes_injective
    rwa [List.map_map] at hmapped
  have hlisted : ∀ root ∈ roots, codes root.name ∈ roots.map fun root => codes root.name :=
    fun root hroot => List.mem_map_of_mem (f := fun root => codes root.name) hroot
  obtain ⟨herror, hcomplete, hscan⟩ := scan_of_complete hrecords.ne_nil hbound
    (triple_stream hsize.2 hcodes hlisted hcodes hdirs htimes hrecords hreads) hchunks out
  exact ⟨rfl, herror, hcomplete.complete, hcomplete.files, hscan⟩

end

section Sample

def sampleTime : Timestamp := ⟨0, none⟩

def sampleIsoformat (_ : Timestamp) : String := "1970-01-01T00:00:00"

def sampleDir : FileAttrs := { name := "a", size := 3, isDir := true }

def sampleFile : FileAttrs := { name := "x", size := 3, timestampModified := some sampleTime, mtimeNs := some 7 }

def sampleRoots : List SystemFile := [.mk sampleDir [.mk sampleFile []], .mk { sampleFile with name := "b" } []]

def sampleRecords : List Record :=
  [.manifestBegin 2, .manifestNames [codes "a", codes "b"], .manifestEnd,
    .rootBegin 0 (codes "a"), .rootNodes 0 [⟨0, none, sampleDir⟩], .rootNodes 0 [⟨1, some 0, sampleFile⟩], .rootEnd 0 2,
    .rootBegin 1 (codes "b"), .rootNodes 1 [⟨0, none, { sampleFile with name := "b" }⟩], .rootEnd 1 1, .complete]

/-- `json.loads` on the texts of these records. -/
def sampleEnvironment : Environment where
  loads text := (sampleRecords.find? fun record => decide ((record.json sampleIsoformat).dumps = text)).map
    fun record => record.json sampleIsoformat
  fromisoformat _ := some sampleTime
  monotonic _ := 0

def sampleBytes : List UInt8 := (streamText sampleIsoformat sampleRecords).map byteOf

set_option maxRecDepth 10000
theorem sample_stream_round_trip :
    (scan sampleEnvironment (.returned [sampleBytes.take 30, sampleBytes.drop 30] [])).2 =
      .ok (sampleRoots.map wireFile) := by
  have hwritten : (writeStream sampleIsoformat (sampleRoots.map fun root => codes root.name) sampleRoots 1).run.run [] =
      (((writeStream sampleIsoformat (sampleRoots.map fun root => codes root.name) sampleRoots 1).run.run []).1,
        sampleRecords) :=
    Prod.ext rfl (by decide +kernel)
  have hreads : ∀ record ∈ sampleRecords, ReadsRecord sampleIsoformat sampleEnvironment record := by
    intro record hrecord
    simp only [sampleRecords, List.mem_cons, List.not_mem_nil, or_false] at hrecord
    rcases hrecord with rfl | rfl | rfl | rfl | rfl | rfl | rfl | rfl | rfl | rfl | rfl
    all_goals rfl
  have hdirs : ∀ root ∈ sampleRoots, OnlyDirsHaveChildren root := by
    simp [sampleRoots, OnlyDirsHaveChildren, fileTree, fileTrees, Rose.ParentsOnly, Rose.AllParentsOnly, sampleDir]
  have hfits : RootsFit sampleIsoformat 0 sampleRoots :=
    ⟨fun node hnode => by revert node; decide +kernel, fun node hnode => by revert node; decide +kernel, True.intro⟩
  have htimes : ∀ root ∈ sampleRoots, TreeTimesReadBack sampleIsoformat sampleEnvironment.fromisoformat root := by
    simp [sampleRoots, TreeTimesReadBack, TimesReadBack, fileTree, fileTrees, Rose.items, Rose.itemsAll, sampleDir,
      sampleFile, sampleEnvironment]
  exact (stream_round_trip ⟨by decide, by decide⟩ (by decide) hdirs hfits htimes hwritten hreads
    (by rw [List.flatten_cons, List.flatten_cons, List.flatten_nil, List.append_nil, List.take_append_drop]; rfl)
    []).2.2.2.2

end Sample

end SeedSync.Remote
