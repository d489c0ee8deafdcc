import SeedSync.Builder.NameIndex

/-!
# The indexes are what a recount gives

Each mutator keeps every name index equal to what counting the source maps anew would make it. The
mutators that adjust rely on the roots of a pair standing in its bucket under ids that are read as
its own.
-/

namespace SeedSync.Builder.Index

open Lib Paging

/-! ## What is kept -/

/-- Every index is what the source maps, the active files, the jobs and the root paths make it. -/
structure IndexedSources.Consistent (b : IndexedSources) : Prop where
  localPlaced : b.localFilesByPair.Placed
  remotePlaced : b.remoteFilesByPair.Placed
  sourceNames : Dict.Counts b.sourceNameCounts (unionNames b.localFilesByPair.flatten b.remoteFilesByPair.flatten)
  localRootNames : Dict.Counts b.localRootNameCounts b.localRootNames
  statusOnly : b.statusOnly.Exact b.statusOnlyName
  activeOnly : b.activeOnly.Exact b.activeOnlyName

/-! ### The names of two dicts -/

/-- The name that an id has in two dicts. -/
def nameAt (localFiles remoteFiles : Roots) (fileId : Codes) : Option String :=
  ((localFiles.get fileId).or (remoteFiles.get fileId)).map SystemFile.name

theorem nodup_unionKeys (localFiles remoteFiles : Roots) : (localFiles.keys ∪ remoteFiles.keys).Nodup :=
  .union _ remoteFiles.nodup

theorem mem_unionKeys {localFiles remoteFiles : Roots} {fileId : Codes} (h : nameAt localFiles remoteFiles fileId ≠ none) :
    fileId ∈ localFiles.keys ∪ remoteFiles.keys := by
  rw [List.mem_union_iff, Dict.mem_keys, Dict.mem_keys]
  by_contra hnot
  simp only [not_or, not_not] at hnot
  exact h (by rw [nameAt, hnot.1, hnot.2]; rfl)

/-- The names of two dicts are those of any ids that have one there. -/
theorem unionNames_perm {localFiles remoteFiles : Roots} {name : Codes → Option String} {ids : List Codes}
    (hnodup : ids.Nodup) (hname : ∀ fileId ∈ ids, name fileId = nameAt localFiles remoteFiles fileId)
    (hids : ∀ fileId, nameAt localFiles remoteFiles fileId ≠ none → fileId ∈ ids) :
    (ids.filterMap name).Perm (unionNames localFiles remoteFiles) := by
  refine filterMap_perm hnodup (nodup_unionKeys localFiles remoteFiles) hname fun fileId hsome => ?_
  exact ⟨fun _ => mem_unionKeys hsome, fun _ => hids fileId hsome⟩

theorem unionNames_congr {localFiles remoteFiles localFiles' remoteFiles' : Roots}
    (h : ∀ fileId, nameAt localFiles remoteFiles fileId = nameAt localFiles' remoteFiles' fileId) :
    (unionNames localFiles remoteFiles).Perm (unionNames localFiles' remoteFiles') :=
  unionNames_perm (nodup_unionKeys _ _) (fun fileId _ => h fileId) fun fileId hsome => mem_unionKeys (by rwa [h fileId])

/-- The names of the roots of all other pairs. -/
def otherNames (pair : Option Codes) (localFiles remoteFiles : Buckets) : List String :=
  ((localFiles.flatten.keys ∪ remoteFiles.flatten.keys).filter fun fileId =>
    decide (fileIdPathPairId fileId ≠ pair)).filterMap (nameAt localFiles.flatten remoteFiles.flatten)

theorem nameAt_flatten {localFiles remoteFiles : Buckets} (hlocal : localFiles.Placed) (hremote : remoteFiles.Placed)
    (fileId : Codes) : nameAt localFiles.flatten remoteFiles.flatten fileId =
      nameAt (localFiles.bucket (fileIdPathPairId fileId)) (remoteFiles.bucket (fileIdPathPairId fileId)) fileId := by
  rw [nameAt, hlocal.get_flatten, hremote.get_flatten]
  rfl

/-- The names are those of one pair and those of the others. -/
theorem unionNames_split {localFiles remoteFiles : Buckets} (hlocal : localFiles.Placed) (hremote : remoteFiles.Placed)
    (pair : Option Codes) : (unionNames localFiles.flatten remoteFiles.flatten).Perm
      (unionNames (localFiles.bucket pair) (remoteFiles.bucket pair) ++ otherNames pair localFiles remoteFiles) := by
  have hsplit := (List.filter_append_perm (fun fileId => decide (fileIdPathPairId fileId = pair))
    (localFiles.flatten.keys ∪ remoteFiles.flatten.keys)).symm.filterMap (nameAt localFiles.flatten remoteFiles.flatten)
  rw [List.filterMap_append] at hsplit
  refine hsplit.trans (List.Perm.append ?_ (List.Perm.of_eq ?_))
  · refine unionNames_perm ((nodup_unionKeys _ _).filter _) ?_ ?_
    · intro fileId hmem
      have hpair : fileIdPathPairId fileId = pair := of_decide_eq_true (List.mem_filter.1 hmem).2
      rw [nameAt_flatten hlocal hremote, hpair]
    · intro fileId hsome
      -- A root of the bucket has an id that is read as one of the pair.
      have hpair : fileIdPathPairId fileId = pair := by
        rcases List.mem_union_iff.1 (mem_unionKeys hsome) with hkey | hkey
        · obtain ⟨root, hget⟩ := Option.ne_none_iff_exists'.1 ((Dict.mem_keys _ _).1 hkey)
          exact hlocal.read pair fileId root hget
        · obtain ⟨root, hget⟩ := Option.ne_none_iff_exists'.1 ((Dict.mem_keys _ _).1 hkey)
          exact hremote.read pair fileId root hget
      refine List.mem_filter.2 ⟨mem_unionKeys ?_, decide_eq_true hpair⟩
      rw [nameAt_flatten hlocal hremote, hpair]
      exact hsome
  · unfold otherNames
    simp only [decide_not]

theorem otherNames_congr {pair : Option Codes} {localFiles remoteFiles localFiles' remoteFiles' : Buckets}
    (hlocal : localFiles.Placed) (hremote : remoteFiles.Placed) (hlocal' : localFiles'.Placed)
    (hremote' : remoteFiles'.Placed)
    (h : ∀ other, other ≠ pair → ∀ fileId, (localFiles.bucket other).get fileId = (localFiles'.bucket other).get fileId ∧
      (remoteFiles.bucket other).get fileId = (remoteFiles'.bucket other).get fileId) :
    (otherNames pair localFiles remoteFiles).Perm (otherNames pair localFiles' remoteFiles') := by
  have hname : ∀ fileId, fileIdPathPairId fileId ≠ pair → nameAt localFiles.flatten remoteFiles.flatten fileId =
      nameAt localFiles'.flatten remoteFiles'.flatten fileId := by
    intro fileId hne
    obtain ⟨hl, hr⟩ := h _ hne fileId
    rw [nameAt_flatten hlocal hremote, nameAt_flatten hlocal' hremote', nameAt, nameAt, hl, hr]
  unfold otherNames
  rw [List.filterMap_filter, List.filterMap_filter]
  refine filterMap_perm (nodup_unionKeys _ _) (nodup_unionKeys _ _) ?_ fun fileId hsome => ?_
  · intro fileId _
    by_cases hpair : fileIdPathPairId fileId = pair
    · simp [hpair]
    · simp [hpair, hname fileId hpair]
  · by_cases hpair : fileIdPathPairId fileId = pair
    · simp [hpair] at hsome
    · rw [if_pos (by simpa using hpair)] at hsome
      exact ⟨fun _ => mem_unionKeys hsome, fun _ => mem_unionKeys (by rwa [hname fileId hpair])⟩

/-! ### The keys of the local roots -/

/-- What is listed over the buckets is listed of one bucket and of the others. -/
theorem flatMap_bucket {κ : Type} (list : Option Codes → Roots → List κ) (buckets : Buckets) {pair : Option Codes}
    (hempty : list pair {} = []) : (buckets.items.flatMap fun item => list item.1 item.2).Perm
      (list pair (buckets.bucket pair) ++ ((buckets.pop pair).items.flatMap fun item => list item.1 item.2)) := by
  unfold Buckets.bucket
  cases hget : buckets.get pair with
  | none =>
    have hpop : (buckets.pop pair).items.Perm buckets.items := by
      refine Dict.items_perm fun other => ?_
      rw [Dict.get_pop]
      split_ifs with hpair
      · rw [← hpair, hget]
      · rfl
    rw [Option.getD_none, hempty, List.nil_append]
    exact (hpop.flatMap_right _).symm
  | some roots => exact (Dict.items_pop_of_get hget).flatMap_right _

theorem flatMap_replace {κ : Type} (list : Option Codes → Roots → List κ) (buckets : Buckets) {pair : Option Codes}
    (hempty : list pair {} = []) (roots : Roots) :
    ((buckets.replace pair roots).items.flatMap fun item => list item.1 item.2).Perm
      (list pair roots ++ ((buckets.pop pair).items.flatMap fun item => list item.1 item.2)) := by
  unfold Buckets.replace
  split_ifs with hitems
  · obtain rfl : roots = {} := Dict.eq_of_items hitems
    rw [hempty, List.nil_append]
  · exact (Dict.items_set buckets pair roots).flatMap_right _

namespace IndexedSources

variable {b : IndexedSources}

@[simp] theorem bucketKeys_empty (pair : Option Codes) : b.bucketKeys pair {} = [] := rfl

/-! ### Folds of adjustments -/

theorem foldl_adjustLocalRootNameCount (pair : Option Codes) (delta : Int) (files : List SystemFile)
    (b : IndexedSources) : files.foldl (adjustLocalRootNameCount pair delta) b =
      { b with
        localRootNameCounts := (files.filterMap fun file => b.localRootNameKey file pair).foldl
          (fun counts key => counts.adjust key delta) b.localRootNameCounts } := by
  induction files generalizing b with
  | nil => rfl
  | cons file files ih =>
    rw [List.foldl_cons, ih]
    unfold adjustLocalRootNameCount
    cases hkey : b.localRootNameKey file pair with
    | none => simp only [List.filterMap_cons, hkey]
    | some key =>
      simp only [List.filterMap_cons, hkey, List.foldl_cons]
      rfl

theorem foldl_updateStatusOnly (ids : List Codes) (b : IndexedSources) :
    ids.foldl updateStatusOnlyNameCount b =
      { b with
        statusOnly := ids.foldl (fun index fileId => index.rename fileId (b.statusOnlyName fileId)) b.statusOnly } := by
  induction ids generalizing b with
  | nil => rfl
  | cons fileId ids ih =>
    rw [List.foldl_cons, ih]
    rfl

theorem foldl_updateActiveOnly (ids : List Codes) (b : IndexedSources) :
    ids.foldl updateActiveOnlyNameCount b =
      { b with
        activeOnly := ids.foldl (fun index fileId => index.rename fileId (b.activeOnlyName fileId)) b.activeOnly } := by
  induction ids generalizing b with
  | nil => rfl
  | cons fileId ids ih =>
    rw [List.foldl_cons, ih]
    rfl

theorem foldl_updateBoth (ids : List Codes) (b : IndexedSources) :
    ids.foldl (fun b fileId => (b.updateStatusOnlyNameCount fileId).updateActiveOnlyNameCount fileId) b =
      { b with
        statusOnly := ids.foldl (fun index fileId => index.rename fileId (b.statusOnlyName fileId)) b.statusOnly
        activeOnly := ids.foldl (fun index fileId => index.rename fileId (b.activeOnlyName fileId)) b.activeOnly } := by
  induction ids generalizing b with
  | nil => rfl
  | cons fileId ids ih =>
    rw [List.foldl_cons, ih]
    rfl

/-! ### Counting anew is exact -/

theorem exact_statusOnly (b : IndexedSources) :
    (NameIndex.ofDict (b.lftpStatuses.select b.unscanned LftpJobStatus.name)).Exact b.statusOnlyName :=
  NameIndex.exact_ofDict fun fileId => Dict.get_select _ _ _ fileId

theorem exact_activeOnly (b : IndexedSources) :
    (NameIndex.ofDict (b.activeFiles.select b.unscanned SystemFile.name)).Exact b.activeOnlyName :=
  NameIndex.exact_ofDict fun fileId => Dict.get_select _ _ _ fileId

theorem consistent_recounted (hlocal : b.localFilesByPair.Placed) (hremote : b.remoteFilesByPair.Placed) :
    b.recounted.Consistent where
  localPlaced := hlocal
  remotePlaced := hremote
  sourceNames := .tally _
  localRootNames := .tally _
  statusOnly := exact_statusOnly b
  activeOnly := exact_activeOnly b

/-! ## The steps -/

theorem Consistent.setLocalFiles (h : b.Consistent) {files : List SystemFile} (hfiles : ∀ file ∈ files, ReadBack file) :
    (b.setLocalFiles files).Consistent := by
  unfold IndexedSources.setLocalFiles
  dsimp only
  split_ifs
  · exact h
  · exact consistent_recounted (placed_bucketFiles hfiles) h.remotePlaced

theorem Consistent.setRemoteFiles (h : b.Consistent) {files : List SystemFile}
    (hfiles : ∀ file ∈ files, ReadBack file) : (b.setRemoteFiles files).Consistent := by
  unfold IndexedSources.setRemoteFiles
  dsimp only
  split_ifs
  · exact h
  · exact
      { localPlaced := h.localPlaced
        remotePlaced := placed_bucketFiles hfiles
        sourceNames := .tally _
        -- The keys of the local roots do not depend on the remote ones.
        localRootNames := h.localRootNames
        statusOnly := exact_statusOnly _
        activeOnly := exact_activeOnly _ }

theorem Consistent.setLocalRootPaths (h : b.Consistent) (paths : Dict (Option Codes) String) :
    (b.setLocalRootPaths paths).Consistent where
  localPlaced := h.localPlaced
  remotePlaced := h.remotePlaced
  sourceNames := h.sourceNames
  localRootNames := .tally _
  statusOnly := h.statusOnly
  activeOnly := h.activeOnly

/-- Other active files, when the index is brought up to date for the ids that have another name. -/
theorem Consistent.withActiveFiles (h : b.Consistent) (activeFiles : Roots) (ids : List Codes)
    (hrest : ∀ fileId, fileId ∉ ids → (b.activeFiles.get fileId).map SystemFile.name =
      (activeFiles.get fileId).map SystemFile.name) :
    (ids.foldl updateActiveOnlyNameCount { b with activeFiles := activeFiles }).Consistent := by
  rw [foldl_updateActiveOnly]
  exact
    { localPlaced := h.localPlaced
      remotePlaced := h.remotePlaced
      sourceNames := h.sourceNames
      localRootNames := h.localRootNames
      statusOnly := h.statusOnly
      activeOnly := by
        refine h.activeOnly.renameAll ids fun fileId hid => ?_
        have hname := hrest fileId hid
        unfold activeOnlyName
        rw [hname]
        rfl }

theorem name_of_sameValue {a b : Option SystemFile} (h : Dict.sameValue sameFile a b = true) :
    a.map SystemFile.name = b.map SystemFile.name := by
  cases a with
  | none =>
    cases b with
    | none => rfl
    | some b => cases h
  | some a =>
    cases b with
    | none => cases h
    | some b => exact congrArg some (attrs_of_sameFile h).1

theorem Consistent.setActiveFiles (h : b.Consistent) (files : List SystemFile) : (b.setActiveFiles files).Consistent := by
  unfold IndexedSources.setActiveFiles
  dsimp only
  split_ifs
  · exact h
  · refine h.withActiveFiles _ _ fun fileId hid => ?_
    refine name_of_sameValue (Dict.sameValue_of_not_mem hid fun hmem hne =>
      List.mem_filter.2 ⟨List.mem_union_iff.2 hmem, ?_⟩)
    rw [hne]
    rfl

theorem Consistent.evictActiveFileIds (h : b.Consistent) (fileIds : List Codes) :
    (b.evictActiveFileIds fileIds).Consistent := by
  unfold IndexedSources.evictActiveFileIds
  dsimp only
  split_ifs
  · exact h
  · refine h.withActiveFiles _ _ fun fileId hid => ?_
    cases hget : b.activeFiles.get fileId with
    | none =>
      have hgone : (b.activeFiles.filter fun fileId _ => decide (fileId ∉ fileIds)).get fileId = none := by
        rw [Option.eq_none_iff_forall_ne_some]
        intro root hroot
        rw [((Dict.get_filter_eq_some _ _ _ _).1 hroot).1] at hget
        cases hget
      rw [hgone]
    | some root =>
      have hkey : fileId ∈ b.activeFiles.keys := by
        rw [Dict.mem_keys, hget]
        simp
      have hstays : fileId ∉ fileIds := fun hmem => hid (List.mem_filter.2 ⟨hkey, decide_eq_true hmem⟩)
      rw [(Dict.get_filter_eq_some _ _ _ _).2 ⟨hget, decide_eq_true hstays⟩]

/-! ### Jobs -/

theorem name_of_sameStatus {a b : Option LftpJobStatus} (h : Dict.sameValue sameStatus a b = true) :
    a.map LftpJobStatus.name = b.map LftpJobStatus.name := by
  cases a with
  | none =>
    cases b with
    | none => rfl
    | some b => cases h
  | some a =>
    cases b with
    | none => cases h
    | some b =>
      have hname := congrArg LftpJobStatus.name (of_decide_eq_true h)
      exact congrArg some hname

theorem Consistent.setLftpStatuses (h : b.Consistent) (statuses : List LftpJobStatus) :
    (b.setLftpStatuses statuses).Consistent := by
  -- Other jobs, when the index is brought up to date for the ids that have another name.
  have hother : ∀ (next : Dict Codes LftpJobStatus) (ambiguous ids : List Codes),
      (∀ fileId, fileId ∉ ids → (b.lftpStatuses.get fileId).map LftpJobStatus.name =
        (next.get fileId).map LftpJobStatus.name) →
      (ids.foldl updateStatusOnlyNameCount
        { b with lftpStatuses := next, ambiguousLftpStatusFileIds := ambiguous }).Consistent := by
    intro next ambiguous ids hrest
    rw [foldl_updateStatusOnly]
    exact
      { localPlaced := h.localPlaced
        remotePlaced := h.remotePlaced
        sourceNames := h.sourceNames
        localRootNames := h.localRootNames
        statusOnly := by
          refine h.statusOnly.renameAll ids fun fileId hid => ?_
          unfold statusOnlyName
          rw [hrest fileId hid]
          rfl
        activeOnly := h.activeOnly }
  unfold IndexedSources.setLftpStatuses
  dsimp only
  split_ifs with hsame
  · rw [Bool.and_eq_true] at hsame
    exact hother _ _ [] fun fileId _ => (name_of_sameStatus (Dict.sameValue_of_sameBy hsame.1 fileId)).symm
  · refine hother _ _ _ fun fileId hid => name_of_sameStatus (Dict.sameValue_of_not_mem hid fun hmem hne =>
      List.mem_filter.2 ⟨List.mem_union_iff.2 (.inl (List.mem_union_iff.2 hmem)), ?_⟩)
    rw [hne]
    rfl

/-! ### Roots of a scan -/

/-- A root in the place of one with its key leaves the keys of the bucket. -/
theorem bucketKeys_set {pair : Option Codes} {roots : Roots} {fileId : Codes} {old root : SystemFile}
    (hget : roots.get fileId = some old) (hkey : b.localRootNameKey root pair = b.localRootNameKey old pair) :
    (b.bucketKeys pair (roots.set fileId root)).Perm (b.bucketKeys pair roots) := by
  have hafter := ((Dict.items_set roots fileId root).map Prod.snd).filterMap fun file => b.localRootNameKey file pair
  have hbefore := ((Dict.items_pop_of_get hget).map Prod.snd).filterMap fun file => b.localRootNameKey file pair
  rw [List.map_cons, List.filterMap_cons] at hafter hbefore
  dsimp only at hafter hbefore
  rw [hkey] at hafter
  exact hafter.trans hbefore.symm

/-- A root in the place of an equal one changes no name and no key. -/
theorem Consistent.adoptRoot (h : b.Consistent) {fileId : Codes} {root : SystemFile} (hid : rootId root = fileId)
    (hroot : ReadBack root) : (b.adoptRoot (fileId, root)).Consistent := by
  unfold IndexedSources.adoptRoot
  dsimp only
  split_ifs with hdir
  · exact h
  cases hadopted : b.localFilesByPair.file fileId with
  | none => exact h
  | some adopted =>
    dsimp only
    split_ifs with hsame
    swap
    · exact h
    obtain ⟨hname, hpair, hstaging⟩ := attrs_of_sameFile hsame
    subst hid
    have hread : fileIdPathPairId (rootId root) = pairKey root := hroot
    have hget : (b.localFilesByPair.bucket (pairKey root)).get (rootId root) = some adopted := by
      rw [← hread]
      exact hadopted
    have hplaced : (putRoot b.localFilesByPair root).Placed := placed_putRoot h.localPlaced hroot
    -- Every id has the name that it had.
    have hfile : ∀ other, (Buckets.file (putRoot b.localFilesByPair root) other).map SystemFile.name =
        (b.localFilesByPair.file other).map SystemFile.name := by
      intro other
      unfold Buckets.file putRoot
      rw [Buckets.bucket_set]
      split_ifs with hother
      swap
      · rfl
      by_cases hid : rootId root = other
      · subst hid
        rw [Dict.get_set_self, hread, hget, Option.map_some, Option.map_some, hname]
      · rw [Dict.get_set_ne _ hid, ← hother]
        rfl
    have hunscanned : ∀ other, IndexedSources.unscanned { b with localFilesByPair := putRoot b.localFilesByPair root } other =
        b.unscanned other := by
      intro other
      unfold unscanned
      rw [← Option.isNone_map (f := SystemFile.name), hfile other, Option.isNone_map]
    have hkeys : b.localRootNames.Perm
        (IndexedSources.localRootNames { b with localFilesByPair := putRoot b.localFilesByPair root }) := by
      have hbefore := @flatMap_bucket _ b.bucketKeys b.localFilesByPair (pairKey root) rfl
      have hafter := (Dict.items_set b.localFilesByPair (pairKey root)
        ((b.localFilesByPair.bucket (pairKey root)).set (rootId root) root)).flatMap_right fun item =>
          b.bucketKeys item.1 item.2
      have hkey : b.localRootNameKey root (pairKey root) = b.localRootNameKey adopted (pairKey root) := by
        unfold localRootNameKey
        rw [hname, hstaging]
      exact hbefore.trans (((bucketKeys_set hget hkey).symm.append_right _).trans hafter.symm)
    have hnameAt : ∀ other, nameAt b.localFilesByPair.flatten b.remoteFilesByPair.flatten other =
        nameAt (Buckets.flatten (putRoot b.localFilesByPair root)) b.remoteFilesByPair.flatten other := by
      intro other
      rw [nameAt, nameAt, h.localPlaced.get_flatten, hplaced.get_flatten, Option.map_or, Option.map_or, hfile other]
    change IndexedSources.Consistent { b with localFilesByPair := putRoot b.localFilesByPair root }
    exact
      { localPlaced := hplaced
        remotePlaced := h.remotePlaced
        sourceNames := h.sourceNames.perm (unionNames_congr hnameAt)
        localRootNames := h.localRootNames.perm hkeys
        statusOnly := by
          have heq : b.statusOnlyName = statusOnlyName { b with localFilesByPair := putRoot b.localFilesByPair root } := by
            funext other
            unfold statusOnlyName
            rw [hunscanned other]
          exact heq ▸ h.statusOnly
        activeOnly := by
          have heq : b.activeOnlyName = activeOnlyName { b with localFilesByPair := putRoot b.localFilesByPair root } := by
            funext other
            unfold activeOnlyName
            rw [hunscanned other]
          exact heq ▸ h.activeOnly }

theorem Consistent.adoptLocalRootScanSources (h : b.Consistent) {sources : Dict Codes (SystemFile × String × Int)}
    (hsources : ∀ root ∈ sources.items.map fun item => item.2.1, ReadBack root) :
    (b.adoptLocalRootScanSources sources).Consistent := by
  unfold IndexedSources.adoptLocalRootScanSources
  dsimp only
  -- Each accepted root stands under its own id.
  have hroots : ∀ source ∈ (sources.filter fun fileId source => decide (0 ≤ source.2.2 ∧ rootId source.1 = fileId)).items.map
      fun item => (item.1, item.2.1), rootId source.2 = source.1 ∧ ReadBack source.2 := by
    intro source hsource
    obtain ⟨item, hitem, rfl⟩ := List.mem_map.1 hsource
    obtain ⟨hmem, hkeep⟩ := List.mem_filter.1 hitem
    exact ⟨(of_decide_eq_true hkeep).2, hsources _ (List.mem_map_of_mem hmem)⟩
  generalize (sources.filter fun fileId source => decide (0 ≤ source.2.2 ∧ rootId source.1 = fileId)).items.map
    (fun item => (item.1, item.2.1)) = roots at hroots
  have hread : ∀ root ∈ (Dict.ofList ((b.localFilesByPair.files.map fun root => (rootId root, root)) ++ roots)).items.map
      Prod.snd, ReadBack root := by
    intro root hroot
    obtain ⟨⟨fileId, found⟩, hitem, rfl⟩ := List.mem_map.1 hroot
    rcases List.mem_append.1 (Dict.get_ofList_mem ((Dict.get_eq_some _ _ _).2 hitem)) with hold | hnew
    · obtain ⟨old, hmem, heq⟩ := List.mem_map.1 hold
      cases heq
      exact h.localPlaced.readBack hmem
    · exact (hroots _ hnew).2
  have hset := h.setLocalFiles hread
  generalize b.setLocalFiles _ = b' at hset
  clear hread hsources
  induction roots generalizing b' with
  | nil => exact hset
  | cons source roots ih =>
    have hself := hroots source List.mem_cons_self
    exact ih (fun other hother => hroots other (List.mem_cons_of_mem _ hother)) _ (hset.adoptRoot hself.1 hself.2)

/-! ### Pairs -/

/-- The roots of a dict stand in it as in the bucket of the pair. -/
def BucketOf (pair : Option Codes) (roots : Roots) : Prop :=
  ∀ fileId root, roots.get fileId = some root → fileId = rootId root ∧ pairKey root = pair ∧ fileIdPathPairId fileId = pair

theorem unscanned_replace {pair : Option Codes} {nextLocal nextRemote : Roots} {fileId : Codes}
    (hid : fileId ∉ ((b.localFilesByPair.bucket pair).keys ∪ (b.remoteFilesByPair.bucket pair).keys) ∪
      (nextLocal.keys ∪ nextRemote.keys)) : b.unscanned fileId =
      unscanned { b with
        localFilesByPair := b.localFilesByPair.replace pair nextLocal
        remoteFilesByPair := b.remoteFilesByPair.replace pair nextRemote } fileId := by
  unfold unscanned Buckets.file
  dsimp only
  rw [Buckets.get_bucket_replace, Buckets.get_bucket_replace]
  by_cases hpair : pair = fileIdPathPairId fileId
  · simp only [List.mem_union_iff, not_or, Dict.mem_keys, not_not] at hid
    rw [if_pos hpair, if_pos hpair, ← hpair, hid.1.1, hid.1.2, hid.2.1, hid.2.2]
  · rw [if_neg hpair, if_neg hpair]

theorem Consistent.replaceAuthoritativePairSources (h : b.Consistent) {pathPairId : Option String}
    {nextLocal nextRemote : Roots} (hlocal : BucketOf (pathPairId.map codes) nextLocal)
    (hremote : BucketOf (pathPairId.map codes) nextRemote) :
    (b.replaceAuthoritativePairSources pathPairId nextLocal nextRemote).Consistent := by
  unfold IndexedSources.replaceAuthoritativePairSources
  dsimp only
  rw [foldl_adjustLocalRootNameCount, foldl_adjustLocalRootNameCount, foldl_updateBoth]
  generalize pathPairId.map codes = pair at hlocal hremote
  have hlocalPlaced := h.localPlaced.replace hlocal
  have hremotePlaced := h.remotePlaced.replace hremote
  exact
    { localPlaced := hlocalPlaced
      remotePlaced := hremotePlaced
      sourceNames := by
        have hold := (h.sourceNames.perm (unionNames_split h.localPlaced h.remotePlaced pair)).drop
        have hnew := hold.add (fun _ _ key h => h.increment key) (unionNames nextLocal nextRemote)
        refine hnew.perm (.trans (.append ?_ ?_) (unionNames_split hlocalPlaced hremotePlaced pair).symm)
        · refine unionNames_congr fun fileId => ?_
          rw [nameAt, nameAt, Buckets.get_bucket_replace, Buckets.get_bucket_replace, if_pos rfl, if_pos rfl]
        · refine otherNames_congr h.localPlaced h.remotePlaced hlocalPlaced hremotePlaced fun other hother fileId => ?_
          rw [Buckets.get_bucket_replace, Buckets.get_bucket_replace, if_neg (Ne.symm hother), if_neg (Ne.symm hother)]
          exact ⟨rfl, rfl⟩
      localRootNames := by
        have hold := (h.localRootNames.perm (@flatMap_bucket _ b.bucketKeys b.localFilesByPair pair rfl)).drop
        have hnew := hold.add (fun _ _ key h => h.adjust_up key) (b.bucketKeys pair nextLocal)
        exact hnew.perm (flatMap_replace b.bucketKeys b.localFilesByPair rfl nextLocal).symm
      statusOnly := by
        refine h.statusOnly.renameAll _ fun fileId hid => ?_
        unfold statusOnlyName
        rw [unscanned_replace hid]
        rfl
      activeOnly := by
        refine h.activeOnly.renameAll _ fun fileId hid => ?_
        unfold activeOnlyName
        rw [unscanned_replace hid]
        rfl }

theorem bucketOf_pairRoots {pathPairId : Option String} {files : List SystemFile}
    (h : ∀ file ∈ files, PlainName file) : BucketOf (pathPairId.map codes) (pairRoots pathPairId files) := by
  intro fileId root hget
  obtain ⟨file, hmem, heq⟩ := List.mem_map.1 (Dict.get_ofList_mem hget)
  cases heq
  obtain ⟨hfile, hpair⟩ := List.mem_filter.1 hmem
  obtain rfl : root.pathPairId = pathPairId := of_decide_eq_true hpair
  exact ⟨rfl, rfl, readBack_of_plainName (h root hfile)⟩

theorem bucketOf_bucket {buckets : Buckets} (h : buckets.Placed) (pair : Option Codes) :
    BucketOf pair (buckets.bucket pair) := fun fileId root hget =>
  ⟨h.id pair fileId root hget, h.pair pair fileId root hget, h.read pair fileId root hget⟩

theorem Consistent.adoptAuthoritativePairDelta (h : b.Consistent) {build : PairBuild}
    (hbuild : ∀ file ∈ build.localFiles ++ build.remoteFiles, PlainName file) :
    (b.adoptAuthoritativePairDelta build).Consistent :=
  h.replaceAuthoritativePairSources
    (bucketOf_pairRoots fun file hfile => hbuild file (List.mem_append_left _ hfile))
    (bucketOf_pairRoots fun file hfile => hbuild file (List.mem_append_right _ hfile))

theorem Consistent.replaceCompletedPairSources (h : b.Consistent) {pathPairId : Option String}
    {localFiles remoteFiles : Option (List SystemFile)}
    (hfiles : ∀ file ∈ localFiles.getD [] ++ remoteFiles.getD [], PlainName file) :
    (b.replaceCompletedPairSourcesForFullRebuild pathPairId localFiles remoteFiles).Consistent := by
  refine h.replaceAuthoritativePairSources ?_ ?_
  · cases localFiles with
    | none => exact bucketOf_bucket h.localPlaced _
    | some files => exact bucketOf_pairRoots fun file hfile => hfiles file (List.mem_append_left _ hfile)
  · cases remoteFiles with
    | none => exact bucketOf_bucket h.remotePlaced _
    | some files => exact bucketOf_pairRoots fun file hfile => hfiles file (List.mem_append_right _ hfile)

theorem consistent_clear (b : IndexedSources) : b.clear.Consistent where
  localPlaced := .empty
  remotePlaced := .empty
  sourceNames := .empty
  localRootNames := .empty
  statusOnly := ⟨fun _ => (ite_self none).symm, .empty⟩
  activeOnly := ⟨fun _ => (ite_self none).symm, .empty⟩

/-! ### Deletions -/

/-- The roots that a deletion leaves stand where they stood. -/
theorem bucketOf_pruneRoots {fileId : Codes} {pair : Option Codes} {roots : Roots} (h : BucketOf pair roots)
    {items : List (Codes × SystemFile)} (hitems : ∀ item ∈ items, roots.get item.1 = some item.2) {after : Roots}
    (hafter : pruneRoots fileId pair roots items = some after) : BucketOf pair after := by
  induction items with
  | nil => cases hafter
  | cons item items ih =>
    obtain ⟨rootFileId, root⟩ := item
    have hrest := ih fun other hother => hitems other (List.mem_cons_of_mem _ hother)
    have hroot := h rootFileId root (hitems _ List.mem_cons_self)
    rw [pruneRoots] at hafter
    by_cases hpair : pairKey root ≠ pair
    · rw [if_pos hpair] at hafter
      exact hrest hafter
    rw [if_neg hpair] at hafter
    cases hsegments : relativeSegments fileId root pair with
    | none =>
      rw [hsegments] at hafter
      exact hrest hafter
    | some segments =>
      rw [hsegments] at hafter
      dsimp only at hafter
      split_ifs at hafter with hchanged
      swap
      · exact hrest hafter
      obtain rfl := Option.some.inj hafter
      have hid := prune_attrs root segments
      have hname : (root.pruneConfirmedLocalDescendant segments).1.name = root.name := by
        have := congrArg FileId.path hid
        simpa [SystemFile.rootFileId] using this
      have hpairId : (root.pruneConfirmedLocalDescendant segments).1.pathPairId = root.pathPairId := by
        have := congrArg FileId.pathPairId hid
        simpa [SystemFile.rootFileId] using this
      intro other found hfound
      rcases Dict.eq_or_of_get_set hfound with ⟨rfl, rfl⟩ | hfound
      · refine ⟨?_, ?_, hroot.2.2⟩
        · rw [rootId, hname, hpairId]
          exact hroot.1
        · rw [pairKey, hpairId]
          exact hroot.2.1
      · exact h other found hfound

theorem bucketOf_confirmRoots {fileId : Codes} {pair : Option Codes} {roots : Roots} (h : BucketOf pair roots)
    {after : Roots} (hafter : confirmRoots fileId pair roots = some after) : BucketOf pair after := by
  unfold confirmRoots at hafter
  cases hget : roots.get fileId with
  | some root =>
    rw [hget] at hafter
    obtain rfl := Option.some.inj hafter
    intro other found hfound
    rw [Dict.get_pop] at hfound
    split_ifs at hfound
    exact h other found hfound
  | none =>
    rw [hget] at hafter
    exact bucketOf_pruneRoots h (fun item hitem => (Dict.get_eq_some _ _ _).2 hitem) hafter

theorem placed_confirmLocalDeletion {dropsSnapshot : Codes → Bool} {fileId : Codes} {after : IndexedSources}
    (hlocal : b.localFilesByPair.Placed) (h : confirmLocalDeletion dropsSnapshot b fileId = some after) :
    after.localFilesByPair.Placed ∧ after.remoteFilesByPair = b.remoteFilesByPair := by
  unfold confirmLocalDeletion at h
  dsimp only at h
  split_ifs at h
  obtain rfl := Option.some.inj h
  refine ⟨?_, rfl⟩
  dsimp only
  cases hroots : confirmRoots fileId (fileIdPathPairId fileId) (b.localFilesByPair.bucket (fileIdPathPairId fileId)) with
  | none => exact hlocal
  | some roots => exact hlocal.replace (bucketOf_confirmRoots (bucketOf_bucket hlocal _) hroots)

theorem Consistent.confirmLocalDeletions (h : b.Consistent) (fileIds : List Codes) (dropsSnapshot : Codes → Bool) :
    (b.confirmLocalDeletions fileIds dropsSnapshot).Consistent := by
  -- Until something changes the indexes are exact; from then on the roots stand where they should.
  have hwalk : ∀ walk : IndexedSources × Bool, walk.1.localFilesByPair.Placed → walk.1.remoteFilesByPair.Placed →
      (walk.2 = false → walk.1.Consistent) →
      (fileIds.foldl (confirmNext dropsSnapshot) walk).1.localFilesByPair.Placed ∧
      (fileIds.foldl (confirmNext dropsSnapshot) walk).1.remoteFilesByPair.Placed ∧
      ((fileIds.foldl (confirmNext dropsSnapshot) walk).2 = false →
        (fileIds.foldl (confirmNext dropsSnapshot) walk).1.Consistent) := by
    induction fileIds with
    | nil => exact fun walk hlocal hremote hsame => ⟨hlocal, hremote, hsame⟩
    | cons fileId fileIds ih =>
      intro walk hlocal hremote hsame
      rw [List.foldl_cons]
      cases hstep : confirmLocalDeletion dropsSnapshot walk.1 fileId with
      | none =>
        have hnext : confirmNext dropsSnapshot walk fileId = walk := by rw [confirmNext, hstep]
        rw [hnext]
        exact ih walk hlocal hremote hsame
      | some after =>
        have hnext : confirmNext dropsSnapshot walk fileId = (after, true) := by rw [confirmNext, hstep]
        obtain ⟨hafter, hsameRemote⟩ := placed_confirmLocalDeletion hlocal hstep
        rw [hnext]
        exact ih (after, true) hafter (by rw [hsameRemote]; exact hremote) fun hfalse => nomatch hfalse
  obtain ⟨hlocal, hremote, hsame⟩ := hwalk (b, false) h.localPlaced h.remotePlaced fun _ => h
  unfold IndexedSources.confirmLocalDeletions
  dsimp only
  split_ifs with hchanged
  · exact consistent_recounted hlocal hremote
  · exact hsame (by simpa using hchanged)

/-! ## Runs -/

theorem consistent_empty : ({} : IndexedSources).Consistent := consistent_clear {}

theorem Consistent.apply (h : b.Consistent) {mutation : Mutation} (hroots : ∀ root ∈ mutation.roots, PlainName root) :
    (mutation.apply b).Consistent := by
  cases mutation with
  | setLocalFiles files => exact h.setLocalFiles fun file hfile => readBack_of_plainName (hroots file hfile)
  | setRemoteFiles files => exact h.setRemoteFiles fun file hfile => readBack_of_plainName (hroots file hfile)
  | setActiveFiles files => exact h.setActiveFiles files
  | setLftpStatuses statuses => exact h.setLftpStatuses statuses
  | setLocalRootPaths paths => exact h.setLocalRootPaths paths
  | adoptLocalRootScanSources sources =>
    exact h.adoptLocalRootScanSources fun root hroot => readBack_of_plainName (hroots root hroot)
  | evictActiveFileIds fileIds => exact h.evictActiveFileIds fileIds
  | confirmLocalDeletions fileIds dropsSnapshot => exact h.confirmLocalDeletions fileIds dropsSnapshot
  | adoptAuthoritativePairDelta build => exact h.adoptAuthoritativePairDelta hroots
  | commitAuthoritativePairSourcesForFullRebuild build sameByIdentity =>
    cases sameByIdentity with
    | false => exact h
    | true => exact h.adoptAuthoritativePairDelta hroots
  | replaceCompletedPairSourcesForFullRebuild pathPairId localFiles remoteFiles =>
    exact h.replaceCompletedPairSources hroots
  | clear => exact consistent_clear b

theorem consistent_run {mutations : List Mutation}
    (h : ∀ mutation ∈ mutations, ∀ root ∈ mutation.roots, PlainName root) : (runMutations mutations).Consistent := by
  suffices hgen : ∀ b : IndexedSources, b.Consistent → (mutations.foldl Mutation.apply b).Consistent from
    hgen {} consistent_empty
  induction mutations with
  | nil => exact fun _ hb => hb
  | cons mutation mutations ih =>
    intro b hb
    exact ih (fun other hother => h other (List.mem_cons_of_mem _ hother)) _ (hb.apply (h mutation List.mem_cons_self))

end IndexedSources

/-! ## The indexes of a run -/

/-- Two names indexes hold the same names and counts. -/
structure NamesAgree (a b : NameIndex Codes String) : Prop where
  names : ∀ fileId, a.names.get fileId = b.names.get fileId
  counts : ∀ name, a.counts.get name = b.counts.get name

/-- Every index equals that of the other state. -/
structure Agree (a b : IndexedSources) : Prop where
  sourceNameCounts : ∀ name, a.sourceNameCounts.get name = b.sourceNameCounts.get name
  localRootNameCounts : ∀ key, a.localRootNameCounts.get key = b.localRootNameCounts.get key
  statusOnly : NamesAgree a.statusOnly b.statusOnly
  activeOnly : NamesAgree a.activeOnly b.activeOnly

/-- No index holds a count of nothing or of less. -/
structure Positive (b : IndexedSources) : Prop where
  sourceNameCounts : ∀ name count, b.sourceNameCounts.get name = some count → 0 < count
  localRootNameCounts : ∀ key count, b.localRootNameCounts.get key = some count → 0 < count
  statusOnly : ∀ name count, b.statusOnly.counts.get name = some count → 0 < count
  activeOnly : ∀ name count, b.activeOnly.counts.get name = some count → 0 < count

theorem namesAgree_of_exact {a b : NameIndex Codes String} {name : Codes → Option String} (ha : a.Exact name)
    (hb : b.Exact name) : NamesAgree a b := by
  have hnames : ∀ fileId, a.names.get fileId = b.names.get fileId := fun fileId =>
    (ha.names fileId).trans (hb.names fileId).symm
  exact ⟨hnames, (ha.counts.perm ((Dict.items_perm hnames).map Prod.snd)).unique hb.counts⟩

/-- After any mutators the indexes are what a recount of the sources gives, and no count is empty. -/
theorem indexes_exact (mutations : List Mutation)
    (h : ∀ mutation ∈ mutations, ∀ root ∈ mutation.roots, PlainName root) :
    Agree (runMutations mutations) (runMutations mutations).recounted ∧ Positive (runMutations mutations) := by
  have hexact := IndexedSources.consistent_run h
  have hrecounted := @IndexedSources.consistent_recounted (runMutations mutations) hexact.localPlaced hexact.remotePlaced
  refine ⟨?_, ?_⟩
  · exact
      { sourceNameCounts := hexact.sourceNames.unique hrecounted.sourceNames
        localRootNameCounts := hexact.localRootNames.unique hrecounted.localRootNames
        statusOnly := namesAgree_of_exact hexact.statusOnly hrecounted.statusOnly
        activeOnly := namesAgree_of_exact hexact.activeOnly hrecounted.activeOnly }
  · exact
      { sourceNameCounts := fun _ _ => hexact.sourceNames.positive
        localRootNameCounts := fun _ _ => hexact.localRootNames.positive
        statusOnly := fun _ _ => hexact.statusOnly.counts.positive
        activeOnly := fun _ _ => hexact.activeOnly.counts.positive }

/-- A film of two pairs: scanned without a pair, queued in one, and then found there by that pair's build. -/
def filmOfTwoPairs : List Mutation :=
  let film (pair : Option String) : SystemFile := .mk { name := "film", size := 4, pathPairId := pair } []
  [.setLocalRootPaths (.ofList [(none, "/home/media"), (some (codes "p"), "/home/media/")]),
    .setLocalFiles [film none],
    .setLftpStatuses [{ id := 1, type := .pget, state := .running, name := "film", pathPairId := some "p" }],
    .adoptAuthoritativePairDelta ⟨some "p", [film (some "p"), film none], [film (some "p")]⟩]

theorem filmOfTwoPairs_exact : Agree (runMutations filmOfTwoPairs) (runMutations filmOfTwoPairs).recounted ∧
    Positive (runMutations filmOfTwoPairs) :=
  indexes_exact filmOfTwoPairs (by decide +kernel)

example : (runMutations filmOfTwoPairs).sourceNameCounts.get "film" = some 2 ∧
    (runMutations filmOfTwoPairs).localRootNameCounts.get ("/home/media", "film") = some 2 ∧
    (runMutations (filmOfTwoPairs.take 3)).statusOnly.counts.get "film" = some 1 ∧
    (runMutations filmOfTwoPairs).statusOnly.counts.get "film" = none := by decide +kernel

end SeedSync.Builder.Index
