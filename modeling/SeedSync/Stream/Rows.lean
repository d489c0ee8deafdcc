import SeedSync.Stream.Session

/-!
# What the stream says

The rows that an event and a page speak of, and what the listener holds back. Two roots need care:
one that is named by the text of a file id is found in place of the root with that id, and an id with
a surrogate cannot be counted. The roots are plain where neither happens.
-/

namespace SeedSync.Stream

open Lib Identity Paging

variable {ρ : Type} {scope : Text}

/-! ## Plain roots -/

/-- The root is not named by the text of a file id, and the listener can count the bytes of its id. -/
def Plain (scope : Text) (root : Root) : Prop :=
  (∀ pair path, root.file.name.text ≠ idText pair path) ∧
    (scopeIdOf root.pair = scope.str.codes → encodedLength root.fileId ≠ none)

theorem text_ext {a b : Text} (h : a.str.codes = b.str.codes) : a = b := by
  cases a with
  | mk str _ =>
    cases str
    cases b with
    | mk str _ =>
      cases str
      simpa using h

theorem idText_injective {pair pair' : Text} {name name' : Name}
    (h : idText pair.str.codes name.text = idText pair'.str.codes name'.text) : pair = pair' := by
  have hloads := congrArg loads h
  rw [loads_idText pair.str.valid name.valid, loads_idText pair'.str.valid name'.valid] at hloads
  have hpair : joinCodes pair.str.codes = pair.str.codes := pair.joined
  have hpair' : joinCodes pair'.str.codes = pair'.str.codes := pair'.joined
  rw [hpair, hpair'] at hloads
  refine text_ext ?_
  simp only [Option.some.injEq, Json.list.injEq, List.cons.injEq, Json.str.injEq] at hloads
  exact hloads.1

/-- The id of a plain root says its path pair. -/
theorem pair_of_fileId {a b : Root} (ha : Plain scope a) (hb : Plain scope b) (h : a.fileId = b.fileId) : a.pair = b.pair := by
  change fileIdOf a.pair a.file.name.text = fileIdOf b.pair b.file.name.text at h
  cases hpair : a.pair with
  | none =>
    cases hpair' : b.pair with
    | none => rfl
    | some pair =>
      rw [hpair, hpair'] at h
      exact absurd h (ha.1 _ _)
  | some pair =>
    cases hpair' : b.pair with
    | none =>
      rw [hpair, hpair'] at h
      exact absurd h.symm (hb.1 _ _)
    | some pair' =>
      rw [hpair, hpair'] at h
      rw [idText_injective h]

/-- Among plain roots the lookup of an id of the scope finds the root with that id. -/
theorem scopedRoot_eq_some {m : Snapshot} (hplain : ∀ root ∈ m.roots, Plain scope root) {text : Codes} {root : Root} :
    scopedRoot scope m (fileIdOf (expectedPathPairId scope) text) = some root ↔
      root ∈ m.roots ∧ root.pair = expectedPathPairId scope ∧ root.fileId = fileIdOf (expectedPathPairId scope) text := by
  constructor
  · intro h
    obtain ⟨hget, hpair⟩ := Option.filter_eq_some_iff.1 h
    have hmem := getFile_mem hget
    have hpair : root.pair = expectedPathPairId scope := by simpa using hpair
    refine ⟨hmem, hpair, ?_⟩
    unfold getFile at hget
    split at hget
    · next found hfound =>
      rw [← Option.some.inj hget]
      simpa using List.find?_some hfound
    · split at hget
      · next found hfound =>
        -- The root was found by its bare name.
        obtain rfl := Option.some.inj hget
        have hname : found ∈ m.roots.filter fun root =>
            decide (root.file.name.text = fileIdOf (expectedPathPairId scope) text) := by simp [hfound]
        have hname : found.file.name.text = fileIdOf (expectedPathPairId scope) text := by
          simpa using (List.mem_filter.1 hname).2
        rw [← hname]
        cases hscope : expectedPathPairId scope with
        | none =>
          rw [hscope] at hpair
          change fileIdOf found.pair found.file.name.text = _
          rw [hpair]
          rfl
        | some pair =>
          rw [hscope] at hname
          exact absurd hname ((hplain found hmem).1 _ _)
      · simp at hget
  · rintro ⟨hmem, hpair, hid⟩
    rw [scopedRoot, ← hid, getFile_of_mem hmem]
    simp [hpair]

/-! ## The rows of the scope -/

theorem row_eq_some {m : Published ρ} {id : Codes} {record : ρ} :
    m.row scope id = some record ↔
      (∃ root ∈ m.snapshot.roots, root.pair = expectedPathPairId scope ∧ root.fileId = id) ∧ m.record id = record := by
  unfold Published.row
  split_ifs with hany
  · simp only [List.any_eq_true, Bool.and_eq_true, decide_eq_true_eq] at hany
    simp [hany]
  · simp only [List.any_eq_true, Bool.and_eq_true, decide_eq_true_eq] at hany
    simp [hany]

theorem row_congr {m m' : Published ρ} {id : Codes} (hrecord : m.record id = m'.record id)
    (hroots : ∀ root : Root, root.pair = expectedPathPairId scope → root.fileId = id →
      (root ∈ m.snapshot.roots ↔ root ∈ m'.snapshot.roots)) : m.row scope id = m'.row scope id := by
  refine Option.ext fun record => ?_
  rw [row_eq_some, row_eq_some, hrecord]
  refine and_congr_left fun _ => exists_congr fun root => ?_
  constructor
  · rintro ⟨hmem, hpair, hid⟩
    exact ⟨(hroots root hpair hid).1 hmem, hpair, hid⟩
  · rintro ⟨hmem, hpair, hid⟩
    exact ⟨(hroots root hpair hid).2 hmem, hpair, hid⟩

theorem mem_put {m : Published ρ} {root other : Root} {record : ρ} :
    other ∈ (m.put root record).snapshot.roots ↔ other = root ∨ other ∈ m.snapshot.roots ∧ other.fileId ≠ root.fileId := by
  simp [Published.put, List.mem_orderedInsert]

theorem mem_remove {m : Published ρ} {root other : Root} :
    other ∈ (m.remove root).snapshot.roots ↔ other ∈ m.snapshot.roots ∧ other.fileId ≠ root.fileId := by
  simp [Published.remove]

/-- The row of a found root, or its absence. -/
theorem scopedRoot_row {m : Published ρ} (hplain : ∀ root ∈ m.snapshot.roots, Plain scope root) (text : Codes) :
    (scopedRoot scope m.snapshot (fileIdOf (expectedPathPairId scope) text)).map
        (fun root => (root.fileId, m.record root.fileId)) =
      (m.row scope (fileIdOf (expectedPathPairId scope) text)).map fun record =>
        (fileIdOf (expectedPathPairId scope) text, record) := by
  cases hfound : scopedRoot scope m.snapshot (fileIdOf (expectedPathPairId scope) text) with
  | none =>
    cases hrow : m.row scope (fileIdOf (expectedPathPairId scope) text) with
    | none => rfl
    | some record =>
      obtain ⟨⟨root, hroot⟩, -⟩ := row_eq_some.1 hrow
      rw [(scopedRoot_eq_some hplain).2 hroot] at hfound
      simp at hfound
  | some root =>
    have hroot := (scopedRoot_eq_some hplain).1 hfound
    rw [row_eq_some.2 ⟨⟨root, hroot⟩, rfl⟩, Option.map_some, Option.map_some, hroot.2.2]

theorem row_put_ne {m : Published ρ} {root : Root} {record : ρ} {id : Codes} (h : id ≠ root.fileId) :
    (m.put root record).row scope id = m.row scope id := by
  refine row_congr (by simp [Published.put, h]) fun other _ hid => ?_
  rw [mem_put]
  refine ⟨?_, fun hmem => .inr ⟨hmem, hid ▸ h⟩⟩
  rintro (rfl | hmem)
  · exact absurd hid.symm h
  · exact hmem.1

theorem row_remove_ne {m : Published ρ} {root : Root} {id : Codes} (h : id ≠ root.fileId) :
    (m.remove root).row scope id = m.row scope id := by
  refine row_congr rfl fun other _ hid => ?_
  rw [mem_remove]
  exact ⟨And.left, fun hmem => ⟨hmem, hid ▸ h⟩⟩

/-- A root of another path pair has no row. -/
theorem row_other {m : Published ρ} (hplain : ∀ root ∈ m.snapshot.roots, Plain scope root) {root : Root}
    (hroot : Plain scope root) (hpair : root.pair ≠ expectedPathPairId scope) : m.row scope root.fileId = none := by
  refine Option.eq_none_iff_forall_ne_some.2 fun record hrow => ?_
  obtain ⟨⟨other, hmem, hother, hid⟩, -⟩ := row_eq_some.1 hrow
  rw [← pair_of_fileId (hplain other hmem) hroot hid] at hpair
  exact hpair hother

theorem plain_put {m : Published ρ} (hplain : ∀ root ∈ m.snapshot.roots, Plain scope root) {root : Root}
    (hroot : Plain scope root) (record : ρ) : ∀ other ∈ (m.put root record).snapshot.roots, Plain scope other := by
  intro other hother
  rcases mem_put.1 hother with rfl | hmem
  · exact hroot
  · exact hplain other hmem.1

theorem plain_remove {m : Published ρ} (hplain : ∀ root ∈ m.snapshot.roots, Plain scope root) (root : Root) :
    ∀ other ∈ (m.remove root).snapshot.roots, Plain scope other :=
  fun other hother => hplain other (mem_remove.1 hother).1

/-! ## The listener -/

/-- The next event of the listener speaks of the id. -/
def Listener.Holds (l : Listener) (id : Codes) : Prop := l.resetVersion.isSome ∨ l.changes.contains id

def Taken.Names : Taken → Codes → Prop
  | .reset _, _ => True
  | .invalidate _ fileIds, id => id ∈ fileIds

/-- The events name at most 200 ids. -/
def Taken.Bounded : Taken → Prop
  | .reset _ => True
  | .invalidate _ fileIds => fileIds.length ≤ maxIdentities

theorem contains_set_pop (changes : Dict Codes Nat) (id other : Codes) (version : Nat) :
    ((changes.pop id).set id version).contains other = (decide (other = id) || changes.contains other) := by
  unfold Dict.contains
  by_cases hid : id = other
  · subst hid
    simp
  · rw [Dict.get_set_ne _ hid, Dict.get_pop_ne _ hid]
    simp [Ne.symm hid]

/-- A reset stays, or the changes give way to one, or the id is noted last. -/
theorem Listener.modelVersionPublished_cases (l : Listener) {id : Codes} (hid : encodedLength id ≠ none) (version : Nat) :
    (l.resetVersion.isSome ∧ (l.modelVersionPublished version id).resetVersion.isSome ∧
        (l.modelVersionPublished version id).changes = l.changes) ∨
      ((l.modelVersionPublished version id).resetVersion.isSome ∧ (l.modelVersionPublished version id).changes = {}) ∨
      (l.resetVersion = none ∧ (l.modelVersionPublished version id).changes = (l.changes.pop id).set id version ∧
        ((l.changes.pop id).set id version).items.length ≤ maxIdentities) := by
  unfold Listener.modelVersionPublished
  cases hreset : l.resetVersion with
  | some reset => exact .inl ⟨rfl, rfl, rfl⟩
  | none =>
    cases hsize : encodedLength id with
    | none => exact absurd hsize hid
    | some size =>
      dsimp only
      generalize (if l.changes.contains id = true then l.identityBytes - ↑size else l.identityBytes) + ↑size = bytes
      split_ifs with hlarge
      · exact .inr (.inl ⟨rfl, rfl⟩)
      · push Not at hlarge
        exact .inr (.inr ⟨rfl, rfl, hlarge.1⟩)

theorem modelVersionPublished_holds {l : Listener} {id : Codes} (hid : encodedLength id ≠ none) (version : Nat) :
    (l.modelVersionPublished version id).Holds id ∧
      ∀ other, l.Holds other → (l.modelVersionPublished version id).Holds other := by
  rcases l.modelVersionPublished_cases hid version with ⟨-, hreset, -⟩ | ⟨hreset, -⟩ | ⟨hnone, hchanges, -⟩
  · exact ⟨.inl hreset, fun _ _ => .inl hreset⟩
  · exact ⟨.inl hreset, fun _ _ => .inl hreset⟩
  · unfold Listener.Holds
    rw [hchanges]
    simp only [contains_set_pop, hnone]
    refine ⟨.inr (by simp), fun other hother => .inr ?_⟩
    simpa using .inr (by simpa using hother)

theorem modelVersionPublished_bounded {l : Listener} {id : Codes} (hid : encodedLength id ≠ none) (version : Nat)
    (h : l.changes.items.length ≤ maxIdentities) :
    (l.modelVersionPublished version id).changes.items.length ≤ maxIdentities := by
  rcases l.modelVersionPublished_cases hid version with ⟨-, -, hchanges⟩ | ⟨-, hchanges⟩ | ⟨-, hchanges, hshort⟩
  · rwa [hchanges]
  · rw [hchanges]
    exact Nat.zero_le _
  · rwa [hchanges]

theorem takeNextEvent_names {l : Listener} {id : Codes} (h : l.Holds id) :
    ∃ taken, l.takeNextEvent.1 = some taken ∧ taken.Names id := by
  unfold Listener.takeNextEvent
  cases hreset : l.resetVersion with
  | some version => exact ⟨.reset version, rfl, trivial⟩
  | none =>
    have hin : l.changes.contains id = true := by simpa [Listener.Holds, hreset] using h
    have hkey : id ∈ l.changes.keys := (l.changes.mem_keys id).2 (by simpa [Dict.contains, Option.isSome_iff_ne_none] using hin)
    have hne : l.changes.items.isEmpty = false := by
      cases hitems : l.changes.items with
      | nil => simp [Dict.keys, hitems] at hkey
      | cons => rfl
    simp only [hne]
    exact ⟨_, rfl, hkey⟩

theorem takeNextEvent_spec {l : Listener} (h : l.changes.items.length ≤ maxIdentities) :
    (∀ taken, l.takeNextEvent.1 = some taken → taken.Bounded) ∧ l.takeNextEvent.2.changes.items.length ≤ maxIdentities := by
  unfold Listener.takeNextEvent
  cases l.resetVersion with
  | some version => simpa [Taken.Bounded] using h
  | none =>
    dsimp only
    split_ifs with hempty
    · simpa using h
    · simpa [Taken.Bounded, Dict.keys] using h

/-! ## Events -/

/-- An event of changes names at most 200 ids, and has at most as many rows. -/
def SseEvent.Bounded : SseEvent ρ → Prop
  | .modelReset _ => True
  | .modelInvalidate _ fileIds records removed =>
    fileIds.length ≤ maxIdentities ∧ records.length + removed.length ≤ fileIds.length

theorem length_filterMap_add_filter {α β : Type} (f : α → Option β) (items : List α) :
    (items.filterMap f).length + (items.filter fun item => (f item).isNone).length = items.length := by
  induction items with
  | nil => rfl
  | cons item items ih =>
    cases hitem : f item with
    | none =>
      rw [List.filterMap_cons_none hitem, List.filter_cons_of_pos (by simp [hitem]), List.length_cons, List.length_cons]
      omega
    | some value =>
      rw [List.filterMap_cons_some hitem, List.filter_cons_of_neg (by simp [hitem]), List.length_cons, List.length_cons]
      omega

theorem assembled_bounded (m : Published ρ) {taken : Taken} (h : taken.Bounded) : (assembled scope m taken).Bounded := by
  cases taken with
  | reset version => exact h
  | invalidate version fileIds =>
    refine ⟨h, ?_⟩
    have hrows := length_filterMap_add_filter
      (fun rootId => (scopedRoot scope m.snapshot rootId).map fun root => (root.fileId, m.record root.fileId))
      ((fileIds.filterMap (rootIdOf scope)).dedup.insertionSort (· ≤ ·))
    simp only [Option.isNone_map] at hrows
    rw [hrows, List.length_insertionSort]
    exact (List.dedup_sublist _).length_le.trans (List.length_filterMap_le _ _)

theorem rootIdOf_eq_some {fileId rootId : Codes} (h : rootIdOf scope fileId = some rootId) :
    ∃ text, rootId = fileIdOf (expectedPathPairId scope) text := by
  obtain ⟨path, -, rfl⟩ := Option.map_eq_some_iff.1 h
  exact ⟨_, rfl⟩

/-- The id of a root of the scope is its own root. -/
theorem rootIdOf_root {root : Root} (h : root.pair = expectedPathPairId scope) :
    rootIdOf scope root.fileId = some root.fileId := by
  have hpath : scopedFilePath scope root.fileId = some (fullPath root.node.names) := scopedFilePath_fileId h
  rw [rootIdOf, hpath, Option.map_some, splitOn_fullPath root.node.names_ne_nil, ← h]
  rfl

theorem mem_rootIds {fileIds : List Codes} {id : Codes} :
    id ∈ (fileIds.filterMap (rootIdOf scope)).dedup.insertionSort (· ≤ ·) ↔
      ∃ fileId ∈ fileIds, rootIdOf scope fileId = some id := by
  simp [List.mem_insertionSort]

section Assembled

variable {m : Published ρ} (hplain : ∀ root ∈ m.snapshot.roots, Plain scope root)
include hplain

/-- An event says what the rows are when it is assembled. -/
theorem assembled_patch {taken : Taken} {version : Nat} {entries : List (Codes × Option ρ)}
    (h : (assembled scope m taken).message = .patch version entries) :
    version = m.snapshot.scopeVersion (expectedPathPairId scope) ∧ ∀ entry ∈ entries, entry.2 = m.row scope entry.1 := by
  cases taken with
  | reset reset => simp [assembled, SseEvent.message] at h
  | invalidate origin fileIds =>
    simp only [assembled, getModelRootUpdates, SseEvent.message, Message.patch.injEq] at h
    obtain ⟨rfl, rfl⟩ := h
    refine ⟨rfl, fun entry hentry => ?_⟩
    rcases List.mem_append.1 hentry with hrecord | hremoved
    · obtain ⟨item, hitem, rfl⟩ := List.mem_map.1 hrecord
      obtain ⟨rootId, hroot, hfound⟩ := List.mem_filterMap.1 hitem
      obtain ⟨fileId, -, hid⟩ := mem_rootIds.1 hroot
      obtain ⟨text, rfl⟩ := rootIdOf_eq_some hid
      rw [scopedRoot_row hplain] at hfound
      obtain ⟨record, hrow, rfl⟩ := Option.map_eq_some_iff.1 hfound
      exact hrow.symm
    · obtain ⟨rootId, hroot, rfl⟩ := List.mem_map.1 hremoved
      obtain ⟨hroot, hnone⟩ := List.mem_filter.1 hroot
      obtain ⟨fileId, -, hid⟩ := mem_rootIds.1 hroot
      obtain ⟨text, rfl⟩ := rootIdOf_eq_some hid
      have hrow := scopedRoot_row hplain text
      rw [Option.isNone_iff_eq_none.1 hnone, Option.map_none] at hrow
      exact (Option.map_eq_none_iff.1 hrow.symm).symm

/-- An event names the roots that were taken for it. -/
theorem assembled_names {taken : Taken} {id : Codes} (hid : rootIdOf scope id = some id) (h : taken.Names id) :
    (assembled scope m taken).message.Names id := by
  cases taken with
  | reset reset => trivial
  | invalidate origin fileIds =>
    have hroot := mem_rootIds.2 ⟨id, h, hid⟩
    obtain ⟨text, htext⟩ := rootIdOf_eq_some hid
    have hrow := scopedRoot_row hplain text
    rw [← htext] at hrow
    simp only [assembled, getModelRootUpdates, SseEvent.message, Message.Names, List.map_append, List.mem_append]
    cases hfound : m.row scope id with
    | some record =>
      rw [hfound, Option.map_some] at hrow
      refine .inl (List.mem_map.2 ⟨(id, some record), List.mem_map.2 ⟨(id, record), ?_, rfl⟩, rfl⟩)
      exact List.mem_filterMap.2 ⟨id, hroot, hrow⟩
    | none =>
      rw [hfound, Option.map_none] at hrow
      refine .inr (List.mem_map.2 ⟨(id, none), List.mem_map.2 ⟨id, ?_, rfl⟩, rfl⟩)
      exact List.mem_filter.2 ⟨hroot, by simpa using hrow⟩

end Assembled

/-! ## Pages -/

/-- The ids of which the page speaks: from its start to its last one, or to the end. -/
def PageAnswer.Covers (page : PageAnswer ρ) (id : Codes) : Prop :=
  isAbove page.start id = true ∧ ∀ last, page.next = some last → id ≤ last

def PageAnswer.fetched (page : PageAnswer ρ) : Fetched Codes ρ := ⟨page.version, page.Covers, page.entries⟩

theorem isRow_iff {m : Published ρ} {id : Codes} : IsRow m.snapshot scope none id ↔ m.row scope id = some (m.record id) := by
  rw [row_eq_some]
  constructor
  · rintro (⟨hroot, hpair⟩ | _)
    exact ⟨⟨_, hroot, hpair, rfl⟩, rfl⟩
  · rintro ⟨⟨root, hroot, hpair, rfl⟩, -⟩
    exact .root hroot hpair

/-- A page holds the rows that it covers. -/
theorem pageAt_spec (scope : Text) (limit : Limit) (m : Published ρ) (start : Option Codes) :
    let page := pageAt scope limit m start
    page.version = m.snapshot.scopeVersion (expectedPathPairId scope) ∧ page.start = start ∧
      (∀ last, page.next = some last → isAbove start last = true) ∧
      (∀ entry ∈ page.entries, page.Covers entry.1 ∧ entry.2 = m.row scope entry.1) ∧
      ∀ id, page.Covers id → id ∉ page.entries.map Prod.fst → m.row scope id = none := by
  obtain ⟨answer, hanswer⟩ : ∃ answer, getModelPage m.snapshot scope limit { after := start } none = some answer := ⟨_, rfl⟩
  obtain ⟨rows, hrows, -, hleast, hnext⟩ := getModelPage_spec hanswer
  have hversion : answer.version = m.snapshot.scopeVersion (expectedPathPairId scope) := by
    rw [← Option.some.inj hanswer]
  change IsLeast limit.1 (rowsAbove (fun id => id) start rows) _ at hleast
  intro page
  have hpage : page = ⟨answer.version, start, answer.files.map fun node => (node.fileId, m.record node.fileId),
      answer.nextCursorFileId⟩ := by
    simp only [page, pageAt, hanswer]
  have hkeys : page.entries.map Prod.fst = answer.files.map Node.fileId := by
    rw [hpage]
    simp [PageAnswer.entries]
  have hmem : ∀ id ∈ answer.files.map Node.fileId, isAbove start id = true ∧ IsRow m.snapshot scope none id := by
    intro id hid
    obtain ⟨hin, habove⟩ := mem_rowsAbove.1 (hleast.subset id hid)
    exact ⟨habove, (hrows id).1 hin⟩
  have hlast : ∀ last, page.next = some last → (answer.files.map Node.fileId).getLast? = some last := by
    intro last hsome
    rw [hpage] at hsome
    rcases hnext with ⟨hnone, -⟩ | ⟨node, hnode, hlast, -⟩
    · rw [show answer.nextCursorFileId = some last from hsome] at hnone
      simp at hnone
    · rw [hlast, ← hnode]
      exact hsome
  refine ⟨by rw [hpage]; exact hversion, by rw [hpage], ?_, ?_, ?_⟩
  · intro last hsome
    exact (hmem last (List.mem_of_getLast? (hlast last hsome))).1
  · intro entry hentry
    have hid : entry.1 ∈ answer.files.map Node.fileId := hkeys ▸ List.mem_map_of_mem hentry
    refine ⟨⟨by rw [hpage]; exact (hmem _ hid).1, fun last hsome => hleast.le_last (hlast last hsome) _ hid⟩, ?_⟩
    rw [isRow_iff.1 (hmem _ hid).2]
    rw [hpage] at hentry
    simp only [PageAnswer.entries, List.map_map, List.mem_map, Function.comp] at hentry
    obtain ⟨node, -, rfl⟩ := hentry
    rfl
  · rintro id ⟨habove, hbelow⟩ hout
    rw [hkeys] at hout
    refine Option.eq_none_iff_forall_ne_some.2 fun record hrow => ?_
    have hrow : IsRow m.snapshot scope none id := isRow_iff.2 (by rw [hrow, (row_eq_some.1 hrow).2])
    have hin : id ∈ rowsAbove (fun id => id) start rows :=
      mem_rowsAbove.2 ⟨(hrows id).2 hrow, by rw [hpage] at habove; exact habove⟩
    rcases hnext with ⟨hnone, hshort⟩ | ⟨node, hnode, hend, -⟩
    · -- The page is the last one, and holds every row above its start.
      have hlength := hleast.length
      have hall := (hleast.nodup.subperm hleast.subset).perm_of_length_le (by
        rw [hlength]
        exact Nat.le_min.2 ⟨hshort, Nat.le_refl _⟩)
      exact hout (hall.mem_iff.2 hin)
    · have hbehind := hleast.least id hin hout node.fileId (List.mem_of_getLast? hend)
      exact absurd hbehind (not_lt.2 (hbelow node.fileId (by rw [hpage]; exact hnode)))

end SeedSync.Stream
