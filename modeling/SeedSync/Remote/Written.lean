import SeedSync.Lib.Stateful
import SeedSync.Remote.Wire

/-!
# What a streamed scan writes

The records of a scan whose single nodes fit the wire: the writer raises nothing, and the batches
hold the names and the nodes in their order.
-/

namespace SeedSync.Remote

open Lib

/-! ## Lengths -/

theorem length_dumpsFields_mem {fields : List (Codes × Json)} {key : Codes} {value : Json} (h : (key, value) ∈ fields) :
    (quoted key).length + 1 + value.dumps.length ≤ (Json.dumpsFields fields).length := by
  match fields with
  | [] => cases h
  | [(k, v)] =>
    rw [List.mem_singleton] at h
    cases h
    simp [Json.dumpsFields]
    omega
  | (k, v) :: next :: rest =>
    rcases List.mem_cons.mp h with h | h
    · cases h
      simp [Json.dumpsFields]
      omega
    · have := length_dumpsFields_mem h
      simp [Json.dumpsFields]
      omega

section

variable (isoformat : Timestamp → String)

theorem length_dumps_obj_two (k₁ k₂ : Codes) (v₁ v₂ : Json) : (Json.obj [(k₁, v₁), (k₂, v₂)]).dumps.length =
    (quoted k₁).length + v₁.dumps.length + (quoted k₂).length + v₂.dumps.length + 5 := by
  simp [Json.dumps, Json.dumpsFields]
  omega

theorem length_dumps_obj_three (k₁ k₂ k₃ : Codes) (v₁ v₂ v₃ : Json) :
    (Json.obj [(k₁, v₁), (k₂, v₂), (k₃, v₃)]).dumps.length = (quoted k₁).length + v₁.dumps.length +
      (quoted k₂).length + v₂.dumps.length + (quoted k₃).length + v₃.dumps.length + 7 := by
  simp [Json.dumps, Json.dumpsFields]
  omega

theorem length_dumps_singleton (value : Json) : (Json.list [value]).dumps.length = value.dumps.length + 2 := by
  simp [Json.dumps, Json.dumpsItems]

theorem length_dumps_str (text : Codes) : (Json.str text).dumps.length = (quoted text).length := by
  simp [Json.dumps]

theorem length_dumps_nat (n : Nat) : (Json.int n).dumps.length = (decimal n).length := by
  rw [Json.dumps, decimalInt, if_neg (by omega), Int.natAbs_natCast]

/-- A node is longer than its number and the name of its file. -/
theorem length_nodeJson (node : Item FileAttrs) :
    (decimal node.id).length + (quoted (codes node.value.name)).length + 25 ≤ (nodeJson isoformat node).dumps.length := by
  have hname : (codes "name", Json.str (codes node.value.name)) ∈ streamShallowFileData isoformat node.value := by
    simp [streamShallowFileData]
  have hfile := length_dumpsFields_mem hname
  have hkey : (quoted (codes "name")).length = 6 := by decide
  have hid : (quoted (codes "id")).length = 4 := by decide
  have hparent : (quoted (codes "parent")).length = 8 := by decide
  have hfileKey : (quoted (codes "file")).length = 6 := by decide
  have hobj : (Json.obj (streamShallowFileData isoformat node.value)).dumps.length =
      (Json.dumpsFields (streamShallowFileData isoformat node.value)).length + 2 := by
    simp [Json.dumps]
  rw [nodeJson, length_dumps_obj_three, length_dumps_nat, hobj, hid, hparent, hfileKey]
  rw [length_dumps_str, hkey] at hfile
  omega

/-- The record of a single node is longer than those that carry as much of it. -/
theorem length_rootNodes (rootId : Nat) (node : Item FileAttrs) :
    (decimal rootId).length + (decimal node.id).length + (quoted (codes node.value.name)).length + 64 ≤
      ((Record.rootNodes rootId [node]).json isoformat).dumps.length := by
  have hnode := length_nodeJson isoformat node
  have htype : (quoted (codes "type")).length = 6 := by decide
  have hnodes : (quoted (codes "root_nodes")).length = 12 := by decide
  have hroot : (quoted (codes "root")).length = 6 := by decide
  have hkey : (quoted (codes "nodes")).length = 7 := by decide
  rw [Record.json, typeField, length_dumps_obj_three, List.map_singleton, length_dumps_singleton, length_dumps_nat,
    length_dumps_str, htype, hnodes, hroot, hkey]
  omega

theorem length_line (record : Record) :
    (record.line isoformat).length = (record.json isoformat).dumps.length + 18 := by
  simp only [Record.line, List.length_append, List.length_singleton]
  have : streamPrefix.length = 17 := by decide
  omega

variable {isoformat}

theorem fits_of_le {record other : Record} (h : other.fits isoformat = true)
    (hle : (record.json isoformat).dumps.length ≤ (other.json isoformat).dumps.length) : record.fits isoformat = true := by
  unfold Record.fits at h ⊢
  rw [decide_eq_true_eq, length_line] at h ⊢
  omega

theorem rootBegin_fits {rootId : Nat} {node : Item FileAttrs}
    (h : (Record.rootNodes rootId [node]).fits isoformat = true) :
    (Record.rootBegin rootId (codes node.value.name)).fits isoformat = true := by
  refine fits_of_le h (le_trans ?_ (length_rootNodes isoformat rootId node))
  have htype : (quoted (codes "type")).length = 6 := by decide
  have hbegin : (quoted (codes "root_begin")).length = 12 := by decide
  have hid : (quoted (codes "id")).length = 4 := by decide
  have hname : (quoted (codes "name")).length = 6 := by decide
  rw [Record.json, typeField, length_dumps_obj_three, length_dumps_nat, length_dumps_str, length_dumps_str, htype, hbegin,
    hid, hname]
  omega

theorem manifestName_fits {rootId : Nat} {node : Item FileAttrs}
    (h : (Record.rootNodes rootId [node]).fits isoformat = true) :
    (Record.manifestNames [codes node.value.name]).fits isoformat = true := by
  refine fits_of_le h (le_trans ?_ (length_rootNodes isoformat rootId node))
  have htype : (quoted (codes "type")).length = 6 := by decide
  have hnames : (quoted (codes "manifest_names")).length = 16 := by decide
  have hkey : (quoted (codes "names")).length = 7 := by decide
  rw [Record.json, typeField, length_dumps_obj_two, List.map_singleton, length_dumps_singleton, length_dumps_str,
    length_dumps_str, htype, hnames, hkey]
  omega

theorem rootEnd_fits {rootId : Nat} (nodes : Nat) {node : Item FileAttrs} (hid : nodes = node.id + 1)
    (h : (Record.rootNodes rootId [node]).fits isoformat = true) :
    (Record.rootEnd rootId nodes).fits isoformat = true := by
  refine fits_of_le h (le_trans ?_ (length_rootNodes isoformat rootId node))
  have hnext := length_decimal_succ node.id
  have htype : (quoted (codes "type")).length = 6 := by decide
  have hend : (quoted (codes "root_end")).length = 10 := by decide
  have hkey : (quoted (codes "id")).length = 4 := by decide
  have hnodes : (quoted (codes "nodes")).length = 7 := by decide
  rw [Record.json, typeField, length_dumps_obj_three, length_dumps_nat, length_dumps_nat, length_dumps_str, htype, hend,
    hkey, hnodes, hid]
  omega

theorem manifestBegin_fits {rootId count : Nat} {node : Item FileAttrs} (hid : count = rootId + 1)
    (h : (Record.rootNodes rootId [node]).fits isoformat = true) :
    (Record.manifestBegin count).fits isoformat = true := by
  refine fits_of_le h (le_trans ?_ (length_rootNodes isoformat rootId node))
  have hnext := length_decimal_succ rootId
  have htype : (quoted (codes "type")).length = 6 := by decide
  have hbegin : (quoted (codes "manifest_begin")).length = 16 := by decide
  have hkey : (quoted (codes "count")).length = 7 := by decide
  rw [Record.json, typeField, length_dumps_obj_two, length_dumps_nat, length_dumps_str, htype, hbegin, hkey, hid]
  omega

/-! ## Batches -/

theorem writeStreamRecord_run {record : Record} (h : record.fits isoformat = true) (written : List Record) :
    (writeStreamRecord isoformat record).run.run written = (.ok (), written ++ [record]) := by
  unfold writeStreamRecord
  rw [if_pos h]
  rfl

/-- What is in a batch that waits can be written. -/
def BatchFits (isoformat : Timestamp → String) {α : Type} (record : List α → Record) (batch : List α) : Prop :=
  batch ≠ [] → (record batch).fits isoformat = true

/-- An item goes into the batch, or the batch is written and the item begins the next one. -/
theorem addToBatch_run {α : Type} {record : List α → Record} (batch : List α) (hbatch : BatchFits isoformat record batch)
    {item : α} (hitem : (record [item]).fits isoformat = true) (written : List Record) :
    ∃ (full : List (List α)) (next : List α), (addToBatch isoformat record batch item).run.run written = (.ok next, written ++ full.map record) ∧
      full.flatten ++ next = batch ++ [item] ∧ (∀ b ∈ full, b = batch ∧ b ≠ []) ∧ BatchFits isoformat record next ∧
      next ≠ [] ∧ next.length ≤ batch.length + 1 := by
  unfold addToBatch
  by_cases hfits : (record (batch ++ [item])).fits isoformat = true
  · refine ⟨[], batch ++ [item], ?_, by simp, by simp, fun _ => hfits, by simp, by simp⟩
    rw [if_pos hfits, List.map_nil, List.append_nil]
    rfl
  · have hne : batch ≠ [] := by
      rintro rfl
      exact hfits hitem
    have hempty : batch.isEmpty = false := by simpa using hne
    refine ⟨[batch], [item], ?_, by simp, by simp [hne], fun _ => hitem, by simp, by simp⟩
    rw [if_neg hfits, hempty]
    simp only [Bool.false_eq_true, if_false]
    change ((writeStreamRecord isoformat (record batch)) >>= fun _ => _).run.run written = _
    rw [run_bind_of_ok (writeStreamRecord_run (hbatch hne) written), if_pos hitem]
    rfl

/-- The loop over the names. -/
theorem addAllToBatch_run {α : Type} {record : List α → Record} (items batch : List α)
    (hbatch : BatchFits isoformat record batch) (hitems : ∀ item ∈ items, (record [item]).fits isoformat = true)
    (written : List Record) :
    ∃ (full : List (List α)) (next : List α), (items.foldlM (addToBatch isoformat record) batch).run.run written =
        (.ok next, written ++ full.map record) ∧ full.flatten ++ next = batch ++ items ∧ (∀ b ∈ full, b ≠ []) ∧
      BatchFits isoformat record next := by
  induction items generalizing batch written with
  | nil => exact ⟨[], batch, by simp; rfl, by simp, by simp, hbatch⟩
  | cons item items ih =>
    obtain ⟨full, next, hrun, hflat, hfull, hnext, -⟩ :=
      addToBatch_run batch hbatch (hitems item List.mem_cons_self) written
    obtain ⟨full', next', hrun', hflat', hfull', hnext'⟩ :=
      ih next hnext (fun i hi => hitems i (List.mem_cons_of_mem _ hi)) (written ++ full.map record)
    refine ⟨full ++ full', next', ?_, ?_, ?_, hnext'⟩
    · rw [List.foldlM_cons, run_bind_of_ok hrun, hrun', List.map_append, List.append_assoc]
    · rw [List.flatten_append, List.append_assoc, hflat', ← List.append_assoc, hflat]
      simp
    · intro b hb
      rcases List.mem_append.mp hb with hb | hb
      · exact (hfull b hb).2
      · exact hfull' b hb

/-- The records of a manifest. -/
def ManifestRecords (names : List Codes) (records : List Record) : Prop :=
  ∃ batches : List (List Codes), records =
      Record.manifestBegin names.length :: batches.map .manifestNames ++ [.manifestEnd] ∧
    batches.flatten = names ∧ ∀ batch ∈ batches, batch ≠ []

theorem constant_fits (record : Record) (h : (record.json isoformat).dumps.length ≤ 100) :
    record.fits isoformat = true := by
  unfold Record.fits maxStreamRecordBytes
  rw [decide_eq_true_eq, length_line]
  omega

theorem writeStreamManifest_run {names : List Codes} (hcount : (Record.manifestBegin names.length).fits isoformat = true)
    (hnames : ∀ name ∈ names, (Record.manifestNames [name]).fits isoformat = true) (written : List Record) :
    ∃ records, (writeStreamManifest isoformat names).run.run written = (.ok (), written ++ records) ∧
      ManifestRecords names records := by
  obtain ⟨full, next, hrun, hflat, hfull, hnext⟩ :=
    addAllToBatch_run names [] (fun h => absurd rfl h) hnames (written ++ [.manifestBegin names.length])
  have hend : (Record.manifestEnd).fits isoformat = true := constant_fits _ (by
    rw [show ((Record.manifestEnd).json isoformat).dumps.length = 23 from rfl]; decide)
  refine ⟨.manifestBegin names.length :: (full ++ if next = [] then [] else [next]).map .manifestNames ++ [.manifestEnd],
    ?_, _, rfl, ?_, ?_⟩
  · unfold writeStreamManifest
    rw [run_bind_of_ok (writeStreamRecord_run hcount written), run_bind_of_ok hrun]
    by_cases hempty : next = []
    · subst hempty
      change ((writeStreamRecord isoformat .manifestEnd).run.run _) = _
      rw [writeStreamRecord_run hend]
      simp
    · have hwrite : (!next.isEmpty) = true := by simpa using hempty
      rw [if_pos hwrite]
      change ((writeStreamRecord isoformat (.manifestNames next)) >>= fun _ => _).run.run _ = _
      rw [run_bind_of_ok (writeStreamRecord_run (hnext hempty) _), writeStreamRecord_run hend]
      simp [hempty]
  · by_cases hempty : next = []
    · simpa [hempty] using hflat
    · simpa [hempty] using hflat
  · intro batch hbatch
    by_cases hempty : next = []
    · simp only [hempty, if_true, List.append_nil] at hbatch
      exact hfull batch hbatch
    · simp only [hempty, if_false, List.mem_append, List.mem_singleton] at hbatch
      rcases hbatch with hbatch | rfl
      · exact hfull batch hbatch
      · exact hempty

/-! ## Nodes -/

theorem flushNodeBatch_run {rootId : Nat} {batch : List (Item FileAttrs)}
    (hbatch : BatchFits isoformat (.rootNodes rootId) batch) (written : List Record) :
    (flushNodeBatch isoformat rootId batch).run.run written =
      (.ok (), written ++ (if batch = [] then [] else [batch]).map (.rootNodes rootId)) := by
  unfold flushNodeBatch
  by_cases hempty : batch = []
  · subst hempty
    simp
    rfl
  · have hwrite : (!batch.isEmpty) = true := by simpa using hempty
    rw [if_pos hwrite, writeStreamRecord_run (hbatch hempty), if_neg hempty]
    rfl

/-- A batch holds no more nodes than it may. -/
theorem writeNode_run {rootId nodeBatchSize : Nat} (hsize : 1 ≤ nodeBatchSize) {batch : List (Item FileAttrs)}
    (hbatch : BatchFits isoformat (.rootNodes rootId) batch) (hlength : batch.length ≤ nodeBatchSize)
    {node : Item FileAttrs} (hnode : (Record.rootNodes rootId [node]).fits isoformat = true) (written : List Record) :
    ∃ (full : List (List (Item FileAttrs))) (next : List (Item FileAttrs)),
      (writeNode isoformat rootId nodeBatchSize batch node).run.run written =
        (.ok next, written ++ full.map (.rootNodes rootId)) ∧
      full.flatten ++ next = batch ++ [node] ∧ (∀ b ∈ full, b ≠ [] ∧ b.length ≤ nodeBatchSize) ∧
      BatchFits isoformat (.rootNodes rootId) next ∧ next ≠ [] ∧ next.length ≤ nodeBatchSize := by
  unfold writeNode
  by_cases hfull : nodeBatchSize ≤ batch.length
  · have hne : batch ≠ [] := by
      rintro rfl
      simp at hfull
      omega
    obtain ⟨full, next, hrun, hflat, hfull', hnext, hne', hle⟩ := addToBatch_run [] (fun h => absurd rfl h)
      hnode (written ++ [.rootNodes rootId batch])
    have hnone : full = [] := by
      refine List.eq_nil_iff_forall_not_mem.mpr fun b hb => ?_
      exact (hfull' b hb).2 (hfull' b hb).1
    subst hnone
    refine ⟨[batch], next, ?_, by simpa using hflat, by simp [hne, hlength], hnext, hne', by simpa using hle.trans hsize⟩
    rw [if_pos hfull]
    rw [run_bind_of_ok (flushNodeBatch_run hbatch written), if_neg hne]
    simpa using hrun
  · obtain ⟨full, next, hrun, hflat, hfull', hnext, hne', hle⟩ := addToBatch_run batch hbatch hnode written
    refine ⟨full, next, by rw [if_neg hfull]; exact hrun, hflat, fun b hb => ?_, hnext, hne', by omega⟩
    exact ⟨(hfull' b hb).2, (hfull' b hb).1 ▸ hlength⟩

theorem writeAllNodes_run {rootId nodeBatchSize : Nat} (hsize : 1 ≤ nodeBatchSize)
    (nodes batch : List (Item FileAttrs)) (hbatch : BatchFits isoformat (.rootNodes rootId) batch)
    (hlength : batch.length ≤ nodeBatchSize)
    (hnodes : ∀ node ∈ nodes, (Record.rootNodes rootId [node]).fits isoformat = true) (written : List Record) :
    ∃ (full : List (List (Item FileAttrs))) (next : List (Item FileAttrs)),
      (nodes.foldlM (writeNode isoformat rootId nodeBatchSize) batch).run.run written =
        (.ok next, written ++ full.map (.rootNodes rootId)) ∧
      full.flatten ++ next = batch ++ nodes ∧ (∀ b ∈ full, b ≠ [] ∧ b.length ≤ nodeBatchSize) ∧
      BatchFits isoformat (.rootNodes rootId) next ∧ next.length ≤ nodeBatchSize := by
  induction nodes generalizing batch written with
  | nil => exact ⟨[], batch, by simp; rfl, by simp, by simp, hbatch, hlength⟩
  | cons node nodes ih =>
    obtain ⟨full, next, hrun, hflat, hfull, hnext, -, hle⟩ :=
      writeNode_run hsize hbatch hlength (hnodes node List.mem_cons_self) written
    obtain ⟨full', next', hrun', hflat', hfull', hnext', hle'⟩ :=
      ih next hnext hle (fun n hn => hnodes n (List.mem_cons_of_mem _ hn)) (written ++ full.map (.rootNodes rootId))
    refine ⟨full ++ full', next', ?_, ?_, ?_, hnext', hle'⟩
    · rw [List.foldlM_cons, run_bind_of_ok hrun, hrun', List.map_append, List.append_assoc]
    · rw [List.flatten_append, List.append_assoc, hflat', ← List.append_assoc, hflat]
      simp
    · intro b hb
      rcases List.mem_append.mp hb with hb | hb
      · exact hfull b hb
      · exact hfull' b hb

/-- The loop over the pending nodes writes them in preorder. -/
theorem writeNodes_eq (isoformat : Timestamp → String) (rootId nodeBatchSize : Nat) (pending : Pending FileAttrs)
    (nextNodeId : Nat) (batch : List (Item FileAttrs)) :
    writeNodes isoformat rootId nodeBatchSize pending nextNodeId batch =
      (pending.items nextNodeId).foldlM (writeNode isoformat rootId nodeBatchSize) batch >>= fun batch =>
        pure (batch, nextNodeId + pending.count) := by
  fun_induction writeNodes isoformat rootId nodeBatchSize pending nextNodeId batch with
  | case1 nextNodeId batch => rfl
  | case2 value children parent rest nextNodeId batch ih =>
    rw [Pending.items_pop, List.foldlM_cons, bind_assoc]
    refine bind_congr fun next => ?_
    rw [ih next]
    have hcount : nextNodeId + 1 + (Pending.push children nextNodeId rest).count =
        nextNodeId + Pending.count ((.node value children, parent) :: rest) := by
      rw [Pending.count_push]
      simp only [Pending.count, List.map_cons, List.sum_cons, Rose.count]
      omega
    rw [hcount]

/-- The records of one root. -/
def RootRecords (nodeBatchSize rootId : Nat) (root : SystemFile) (records : List Record) : Prop :=
  ∃ batches : List (List (Item FileAttrs)), records =
      Record.rootBegin rootId (codes root.name) :: batches.map (.rootNodes rootId) ++
        [.rootEnd rootId (fileTree root).count] ∧
    batches.flatten = (fileTree root).items none 0 ∧ ∀ batch ∈ batches, batch ≠ [] ∧ batch.length ≤ nodeBatchSize

/-- Every node of a root fits a record of its own. -/
def NodesFit (isoformat : Timestamp → String) (rootId : Nat) (root : SystemFile) : Prop :=
  ∀ node ∈ (fileTree root).items none 0, (Record.rootNodes rootId [node]).fits isoformat = true

theorem fileTree_value (root : SystemFile) : (fileTree root).value = root.attrs := by
  cases root
  rfl

/-- The first node of a root is the root. -/
theorem first_item (root : SystemFile) :
    (⟨0, none, root.attrs⟩ : Item FileAttrs) ∈ (fileTree root).items none 0 := by
  cases root
  simp [fileTree, Rose.items]

theorem writeStreamRoot_run {nodeBatchSize rootId : Nat} (hsize : 1 ≤ nodeBatchSize) {root : SystemFile}
    (hfits : NodesFit isoformat rootId root) (written : List Record) :
    ∃ records, (writeStreamRoot isoformat rootId root nodeBatchSize).run.run written = (.ok (), written ++ records) ∧
      RootRecords nodeBatchSize rootId root records := by
  have hfirst := hfits _ (first_item root)
  have hbegin := rootBegin_fits hfirst
  change (Record.rootBegin rootId (codes root.name)).fits isoformat = true at hbegin
  obtain ⟨node, hnode, hid⟩ := Rose.exists_last_item (fileTree root) none 0
  have hlast := hfits node hnode
  have hend := rootEnd_fits (fileTree root).count (by omega) hlast
  obtain ⟨full, next, hrun, hflat, hfull, hnext, hle⟩ := writeAllNodes_run hsize ((fileTree root).items none 0) []
    (fun h => absurd rfl h) (by simp) hfits (written ++ [.rootBegin rootId (codes root.name)])
  have hcount : 0 + Pending.count [(fileTree root, none)] = (fileTree root).count := by simp [Pending.count]
  have hitems : Pending.items [(fileTree root, none)] 0 = (fileTree root).items none 0 := by simp [Pending.items]
  refine ⟨.rootBegin rootId (codes root.name) ::
    (full ++ if next = [] then [] else [next]).map (.rootNodes rootId) ++ [.rootEnd rootId (fileTree root).count],
    ?_, _, rfl, ?_, ?_⟩
  · unfold writeStreamRoot
    rw [run_bind_of_ok (writeStreamRecord_run hbegin written), writeNodes_eq, hitems, hcount, bind_assoc,
      run_bind_of_ok hrun, pure_bind]
    dsimp only
    rw [run_bind_of_ok (flushNodeBatch_run hnext _), writeStreamRecord_run hend]
    simp
  · by_cases hempty : next = []
    · simpa [hempty] using hflat
    · simpa [hempty] using hflat
  · intro batch hbatch
    by_cases hempty : next = []
    · simp only [hempty, if_true, List.append_nil] at hbatch
      exact hfull batch hbatch
    · simp only [hempty, if_false, List.mem_append, List.mem_singleton] at hbatch
      rcases hbatch with hbatch | rfl
      · exact hfull batch hbatch
      · exact ⟨hempty, hle⟩

/-- The records of roots, numbered from `rootId` on. -/
def RootsRecords (nodeBatchSize : Nat) : Nat → List SystemFile → List Record → Prop
  | _, [], records => records = []
  | rootId, root :: roots, records => ∃ first rest, records = first ++ rest ∧
      RootRecords nodeBatchSize rootId root first ∧ RootsRecords nodeBatchSize (rootId + 1) roots rest

/-- Every node of every root fits a record of its own. -/
def RootsFit (isoformat : Timestamp → String) : Nat → List SystemFile → Prop
  | _, [] => True
  | rootId, root :: roots => NodesFit isoformat rootId root ∧ RootsFit isoformat (rootId + 1) roots

theorem writeStreamRoots_run {nodeBatchSize : Nat} (hsize : 1 ≤ nodeBatchSize) {rootId : Nat} {roots : List SystemFile}
    (hfits : RootsFit isoformat rootId roots) (written : List Record) :
    ∃ records, (writeStreamRoots isoformat nodeBatchSize rootId roots).run.run written = (.ok (), written ++ records) ∧
      RootsRecords nodeBatchSize rootId roots records := by
  induction roots generalizing rootId written with
  | nil => exact ⟨[], by rw [List.append_nil]; rfl, rfl⟩
  | cons root roots ih =>
    obtain ⟨first, hfirst, hrecords⟩ := writeStreamRoot_run hsize hfits.1 written
    obtain ⟨rest, hrest, hrecords'⟩ := ih hfits.2 (written ++ first)
    refine ⟨first ++ rest, ?_, first, rest, rfl, hrecords, hrecords'⟩
    rw [writeStreamRoots, run_bind_of_ok hfirst, hrest, List.append_assoc]

theorem RootsFit.names {rootId : Nat} {roots : List SystemFile} (h : RootsFit isoformat rootId roots) :
    ∀ name ∈ roots.map fun root => codes root.name, (Record.manifestNames [name]).fits isoformat = true := by
  induction roots generalizing rootId with
  | nil => simp
  | cons root roots ih =>
    intro name hname
    have hfirst := manifestName_fits (h.1 _ (first_item root))
    rcases List.mem_cons.mp hname with rfl | hname
    · exact hfirst
    · exact ih h.2 name hname

theorem RootsFit.count {rootId : Nat} {roots : List SystemFile} (h : RootsFit isoformat rootId roots)
    (hne : roots ≠ []) : (Record.manifestBegin (rootId + roots.length)).fits isoformat = true := by
  induction roots generalizing rootId with
  | nil => exact absurd rfl hne
  | cons root roots ih =>
    by_cases hlast : roots = []
    · subst hlast
      have hfirst := h.1 _ (first_item root)
      exact manifestBegin_fits rfl hfirst
    · rw [List.length_cons, Nat.add_comm roots.length, ← Nat.add_assoc]
      exact ih h.2 hlast

/-- The records of a whole scan. -/
def StreamRecords (nodeBatchSize : Nat) (rootNames : List Codes) (roots : List SystemFile) (records : List Record) : Prop :=
  ∃ manifest body, records = manifest ++ body ++ [.complete] ∧ ManifestRecords rootNames manifest ∧
    RootsRecords nodeBatchSize 0 roots body

/-- Where every single name and node fits the wire, the whole scan is written. -/
theorem writeStream_run {nodeBatchSize : Nat} (hsize : 1 ≤ nodeBatchSize) {rootNames : List Codes} {roots : List SystemFile}
    (hcount : (Record.manifestBegin rootNames.length).fits isoformat = true)
    (hnames : ∀ name ∈ rootNames, (Record.manifestNames [name]).fits isoformat = true)
    (hfits : RootsFit isoformat 0 roots) :
    ∃ records, (writeStream isoformat rootNames roots nodeBatchSize).run.run [] = (.ok (), records) ∧
      StreamRecords nodeBatchSize rootNames roots records := by
  have hcomplete : (Record.complete).fits isoformat = true := constant_fits _ (by
    rw [show ((Record.complete).json isoformat).dumps.length = 19 from rfl]; decide)
  obtain ⟨manifest, hmanifest, hmanifestRecords⟩ := writeStreamManifest_run hcount hnames []
  obtain ⟨body, hbody, hbodyRecords⟩ := writeStreamRoots_run hsize hfits ([] ++ manifest)
  refine ⟨manifest ++ body ++ [.complete], ?_, manifest, body, rfl, hmanifestRecords, hbodyRecords⟩
  unfold writeStream
  rw [run_bind_of_ok hmanifest, run_bind_of_ok hbody, writeStreamRecord_run hcomplete]
  simp

/-- The names of the roots themselves are shorter than their nodes. -/
theorem RootsFit.manifest {roots : List SystemFile} (h : RootsFit isoformat 0 roots) :
    (Record.manifestBegin (roots.map fun root => codes root.name).length).fits isoformat = true := by
  rw [List.length_map]
  by_cases hempty : roots = []
  · subst hempty
    exact constant_fits _ (by
      rw [show ((Record.manifestBegin ([] : List SystemFile).length).json isoformat).dumps.length = 35 from rfl]
      decide)
  · simpa using h.count hempty

/-! ## The bound -/

/-- No record is longer than the wire allows. -/
def AllFit (isoformat : Timestamp → String) (written : List Record) : Prop :=
  ∀ record ∈ written, record.fits isoformat = true

theorem writeStreamRecord_fits (record : Record) :
    Spec (AllFit isoformat) (writeStreamRecord isoformat record) fun _ => True := by
  unfold writeStreamRecord
  split_ifs with hfits
  · refine Spec.modify fun written hwritten r hr => ?_
    rcases List.mem_append.mp hr with hr | hr
    · exact hwritten r hr
    · rw [List.mem_singleton.mp hr]
      exact hfits
  · exact Spec.throw

theorem addToBatch_fits {α : Type} (record : List α → Record) (batch : List α) (item : α) :
    Spec (AllFit isoformat) (addToBatch isoformat record batch item) fun _ => True := by
  have hwrite : Spec (AllFit isoformat) (writeStreamRecord isoformat (record batch) >>= fun _ =>
      if (record [item]).fits isoformat then pure [item] else throw .recordExceeded) fun _ => True := by
    refine Spec.bind (writeStreamRecord_fits _) fun _ _ => ?_
    split_ifs
    · exact Spec.pure True.intro
    · exact Spec.throw
  unfold addToBatch
  by_cases hfits : (record (batch ++ [item])).fits isoformat = true
  · rw [if_pos hfits]
    exact Spec.pure True.intro
  · rw [if_neg hfits]
    by_cases hempty : batch.isEmpty = true
    · simp only [hempty, if_true]
      exact Spec.bind (Q := fun _ => True) Spec.throw fun _ _ => hwrite
    · simp only [hempty]
      exact hwrite

theorem writeStreamManifest_fits (rootNames : List Codes) :
    Spec (AllFit isoformat) (writeStreamManifest isoformat rootNames) fun _ => True := by
  unfold writeStreamManifest
  refine Spec.bind (writeStreamRecord_fits _) fun _ _ => Spec.bind (Spec.foldlM _ (P := fun _ => True)
    (fun batch name _ _ => addToBatch_fits _ batch name) True.intro) fun batch _ => ?_
  split_ifs
  · exact Spec.bind (writeStreamRecord_fits _) fun _ _ => writeStreamRecord_fits _
  · exact writeStreamRecord_fits _

theorem flushNodeBatch_fits (rootId : Nat) (batch : List (Item FileAttrs)) :
    Spec (AllFit isoformat) (flushNodeBatch isoformat rootId batch) fun _ => True := by
  unfold flushNodeBatch
  split_ifs
  · exact writeStreamRecord_fits _
  · exact Spec.pure True.intro

theorem writeNode_fits (rootId nodeBatchSize : Nat) (batch : List (Item FileAttrs)) (node : Item FileAttrs) :
    Spec (AllFit isoformat) (writeNode isoformat rootId nodeBatchSize batch node) fun _ => True := by
  unfold writeNode
  split_ifs
  · exact Spec.bind (flushNodeBatch_fits rootId batch) fun _ _ => addToBatch_fits _ _ _
  · exact addToBatch_fits _ _ _

theorem writeStreamRoot_fits (rootId : Nat) (root : SystemFile) (nodeBatchSize : Nat) :
    Spec (AllFit isoformat) (writeStreamRoot isoformat rootId root nodeBatchSize) fun _ => True := by
  unfold writeStreamRoot
  rw [writeNodes_eq, bind_assoc]
  refine Spec.bind (writeStreamRecord_fits _) fun _ _ => Spec.bind (Spec.foldlM _ (P := fun _ => True)
    (fun batch node _ _ => writeNode_fits _ _ batch node) True.intro) fun batch _ => ?_
  rw [pure_bind]
  exact Spec.bind (flushNodeBatch_fits _ _) fun _ _ => writeStreamRecord_fits _

theorem writeStreamRoots_fits (nodeBatchSize rootId : Nat) (roots : List SystemFile) :
    Spec (AllFit isoformat) (writeStreamRoots isoformat nodeBatchSize rootId roots) fun _ => True := by
  induction roots generalizing rootId with
  | nil => exact Spec.pure True.intro
  | cons root roots ih => exact Spec.bind (writeStreamRoot_fits _ _ _) fun _ _ => ih _

/-- Whatever the roots are, no record that is written is too long. -/
theorem writeStream_fits (isoformat : Timestamp → String) (rootNames : List Codes) (roots : List SystemFile) (nodeBatchSize : Nat) :
    AllFit isoformat ((writeStream isoformat rootNames roots nodeBatchSize).run.run []).2 := by
  have hspec : Spec (AllFit isoformat) (writeStream isoformat rootNames roots nodeBatchSize) fun _ => True :=
    Spec.bind (writeStreamManifest_fits _) fun _ _ => Spec.bind (writeStreamRoots_fits _ _ _) fun _ _ =>
      writeStreamRecord_fits _
  exact (hspec [] fun record hrecord => by cases hrecord).1

end

end SeedSync.Remote
