import SeedSync.Builder.Sources
import SeedSync.System.Pruned

/-!
# Deletions the worker confirmed

`confirm_local_deletions` on the local and the active roots. A confirmed id takes the root that
stands under it, else the first root that holds its path. The roots that hold no confirmed path
afterwards are all of them just when every id takes the root in which nothing else removes it.
-/

namespace SeedSync

/-! ## Paths under a root -/

theorem splitSlash_eq (text : List Char) : splitSlash text = text.splitOn '/' := by
  induction text with
  | nil => rfl
  | cons c cs ih =>
    have hne : cs.splitOn '/' ≠ [] := List.splitOn_ne_nil '/' cs
    rw [splitSlash, List.splitOn_cons_eq_if_modifyHead, ih]
    by_cases hc : c = '/'
    · simp [hc]
    · cases hparts : cs.splitOn '/' with
      | nil => exact absurd hparts hne
      | cons part parts => simp [hc]

theorem not_mem_splitSlash {text part : List Char} (h : part ∈ splitSlash text) : '/' ∉ part := by
  induction text generalizing part with
  | nil => simp_all [splitSlash]
  | cons c cs ih =>
    rw [splitSlash] at h
    split_ifs at h with hc
    · rcases List.mem_cons.1 h with rfl | h
      · simp
      · exact ih h
    · cases hparts : splitSlash cs with
      | nil =>
        rw [hparts] at h
        obtain rfl := List.mem_singleton.1 h
        simpa using fun heq => hc heq.symm
      | cons first parts =>
        rw [hparts] at h ih
        rcases List.mem_cons.1 h with rfl | h
        · have hfirst := @ih first List.mem_cons_self
          simp only [List.mem_cons, not_or]
          exact ⟨fun heq => hc heq.symm, hfirst⟩
        · exact ih (List.mem_cons_of_mem _ h)

/-- The id that reads the same. -/
def FileId.spelled (id : FileId) : FileId := buildFileId id.path id.pathPairId

theorem FileId.text_spelled (id : FileId) : id.spelled.text = id.text := by
  cases id <;> rfl

namespace Builder

open SystemFile Lib

/-- `__completion_relative_path_segments` -/
def completionRelativePathSegments (fileId : FileId) (root : SystemFile) (pathPairId : Option String) :
    Option (List String) :=
  if fileId.pathPairId ≠ pathPairId then none
  else if (root.name ++ "/").toList.isPrefixOf fileId.path.toList = false then none
  else
    let segments := pathParts (String.ofList (fileId.path.toList.drop (root.name ++ "/").toList.length))
    if segments = [] ∨ segments.any (fun segment => decide (segment ∈ ["", ".", ".."])) then none else some segments

/-- The path of an id below a root of its own pair. -/
def pathUnder (fileId : FileId) (root : SystemFile) : Option (List String) :=
  if root.pathPairId ≠ fileId.pathPairId then none else completionRelativePathSegments fileId root fileId.pathPairId

/-- The id is that of the node at a path below the root. -/
structure Names (fileId : FileId) (root : SystemFile) (segments : List String) : Prop where
  pair : root.pathPairId = fileId.pathPairId
  path : fileId.path = root.name ++ "/" ++ "/".intercalate segments
  nonempty : segments ≠ []
  plain : ∀ segment ∈ segments, segment ∉ ["", ".", ".."] ∧ '/' ∉ segment.toList

theorem pathParts_intercalate {segments : List String} (hne : segments ≠ []) (h : ∀ s ∈ segments, '/' ∉ s.toList) :
    pathParts ("/".intercalate segments) = segments := by
  unfold pathParts
  rw [splitSlash_eq, String.toList_intercalate, show "/".toList = ['/'] from rfl, List.splitOn_intercalate]
  · simp
  · intro l hl
    obtain ⟨s, hs, rfl⟩ := List.mem_map.1 hl
    exact h s hs
  · simpa using hne

theorem intercalate_pathParts (text : String) : "/".intercalate (pathParts text) = text := by
  unfold pathParts
  rw [← String.toList_inj, String.toList_intercalate, splitSlash_eq, show "/".toList = ['/'] from rfl]
  simp [List.intercalate_splitOn]

theorem not_mem_pathParts {text segment : String} (h : segment ∈ pathParts text) : '/' ∉ segment.toList := by
  obtain ⟨l, hl, rfl⟩ := List.mem_map.1 h
  simpa using not_mem_splitSlash hl

/-- What the source resolves is the path that the id names. -/
theorem pathUnder_eq_some {fileId : FileId} {root : SystemFile} {segments : List String} :
    pathUnder fileId root = some segments ↔ Names fileId root segments := by
  unfold pathUnder completionRelativePathSegments
  constructor
  · intro h
    by_cases hpair : root.pathPairId = fileId.pathPairId
    swap
    · rw [if_pos hpair] at h
      cases h
    rw [if_neg (not_not.2 hpair), if_neg (by simp)] at h
    by_cases hlead : (root.name ++ "/").toList.isPrefixOf fileId.path.toList = false
    · rw [if_pos hlead] at h
      cases h
    rw [if_neg hlead] at h
    dsimp only at h
    split_ifs at h with hbad
    obtain rfl := Option.some.inj h
    rw [not_or] at hbad
    have hprefix : (root.name ++ "/").toList <+: fileId.path.toList := List.isPrefixOf_iff_prefix.1 (by simpa using hlead)
    obtain ⟨rest, hrest⟩ := hprefix
    refine ⟨hpair, ?_, hbad.1, fun s hs => ⟨fun hin => hbad.2 ?_, not_mem_pathParts hs⟩⟩
    · rw [intercalate_pathParts, ← hrest, List.drop_left, ← String.toList_inj, ← hrest]
      simp
    · exact List.any_eq_true.2 ⟨s, hs, decide_eq_true hin⟩
  · rintro ⟨hpair, hpath, hne, hplain⟩
    have hlist : fileId.path.toList = (root.name ++ "/").toList ++ ("/".intercalate segments).toList := by
      rw [hpath, String.toList_append]
    have hparts : pathParts (String.ofList (fileId.path.toList.drop (root.name ++ "/").toList.length)) = segments := by
      rw [hlist, List.drop_left, String.ofList_toList]
      exact pathParts_intercalate hne fun s hs => (hplain s hs).2
    have hlead : (root.name ++ "/").toList.isPrefixOf fileId.path.toList = true := by
      rw [hlist, List.isPrefixOf_iff_prefix]
      exact List.prefix_append _ _
    have hgood : ¬ (segments = [] ∨ segments.any (fun segment => decide (segment ∈ ["", ".", ".."])) = true) := by
      rintro (h | h)
      · exact hne h
      · obtain ⟨s, hs, hin⟩ := List.any_eq_true.1 h
        exact (hplain s hs).1 (of_decide_eq_true hin)
    rw [if_neg (not_not.2 hpair), if_neg (by simp), if_neg (by rw [hlead]; simp)]
    dsimp only
    rw [hparts, if_neg hgood]

/-- A path under a root is that of one id alone. -/
theorem Names.spelled {one two : FileId} {root : SystemFile} {segments : List String} (h : Names one root segments)
    (h' : Names two root segments) : one.spelled = two.spelled := by
  unfold FileId.spelled
  rw [h.path, h'.path, ← h.pair, ← h'.pair]

/-! ## The operation -/

abbrev Entry := FileId × SystemFile

/-- The loop over the roots of the id's pair: the first that the deletion changes is replaced. -/
def pruneFirst (fileId : FileId) : List Entry → List Entry
  | [] => []
  | (rootFileId, root) :: items =>
    match pathUnder fileId root with
    | none => (rootFileId, root) :: pruneFirst fileId items
    | some segments =>
      let pruned := pruneConfirmedLocalDescendant root segments
      if pruned.2.2 then (rootFileId, pruned.1) :: items else (rootFileId, root) :: pruneFirst fileId items

/-- What one id does to the roots of one source. -/
def confirmItems (items : List Entry) (fileId : FileId) : List Entry :=
  if fileId.spelled ∈ items.map Prod.fst then items.filter fun item => decide (item.1 ≠ fileId.spelled)
  else pruneFirst fileId items

theorem prune_attrs (root : SystemFile) (segments : List String) :
    (pruneConfirmedLocalDescendant root segments).1.rootFileId = root.rootFileId := by
  obtain ⟨a, cs⟩ := root
  cases segments with
  | nil => rfl
  | cons n rest =>
    rw [pruneConfirmedLocalDescendant]
    dsimp only
    split_ifs <;> rfl

theorem pruneFirst_entries {fileId : FileId} {items : List Entry} {item : Entry} (h : item ∈ pruneFirst fileId items) :
    ∃ before ∈ items, item.1 = before.1 ∧ item.2.rootFileId = before.2.rootFileId := by
  induction items with
  | nil => simp [pruneFirst] at h
  | cons first items ih =>
    have hself : ∀ {x : Entry}, x ∈ first :: items →
        ∃ before ∈ first :: items, x.1 = before.1 ∧ x.2.rootFileId = before.2.rootFileId := fun hx => ⟨_, hx, rfl, rfl⟩
    have hlater : item ∈ pruneFirst fileId items →
        ∃ before ∈ first :: items, item.1 = before.1 ∧ item.2.rootFileId = before.2.rootFileId := fun hx => by
      obtain ⟨before, hbefore, heq⟩ := ih hx
      exact ⟨before, List.mem_cons_of_mem _ hbefore, heq⟩
    obtain ⟨rootFileId, root⟩ := first
    rw [pruneFirst] at h
    cases hpath : pathUnder fileId root with
    | none =>
      rw [hpath] at h
      rcases List.mem_cons.1 h with rfl | h
      · exact hself List.mem_cons_self
      · exact hlater h
    | some segments =>
      rw [hpath] at h
      dsimp only at h
      split_ifs at h with hchanged
      · rcases List.mem_cons.1 h with rfl | h
        · exact ⟨_, List.mem_cons_self, rfl, prune_attrs root segments⟩
        · exact hself (List.mem_cons_of_mem _ h)
      · rcases List.mem_cons.1 h with rfl | h
        · exact hself List.mem_cons_self
        · exact hlater h

theorem pruneFirst_keys (fileId : FileId) (items : List Entry) :
    (pruneFirst fileId items).map Prod.fst = items.map Prod.fst := by
  induction items with
  | nil => rfl
  | cons first items ih =>
    obtain ⟨rootFileId, root⟩ := first
    rw [pruneFirst]
    cases pathUnder fileId root with
    | none => rw [List.map_cons, ih, List.map_cons]
    | some segments =>
      dsimp only
      split_ifs
      · rfl
      · rw [List.map_cons, ih, List.map_cons]

theorem confirmItems_nodup {items : List Entry} (h : (items.map Prod.fst).Nodup) (fileId : FileId) :
    ((confirmItems items fileId).map Prod.fst).Nodup := by
  unfold confirmItems
  split_ifs
  · exact h.sublist (List.filter_sublist.map _)
  · rwa [pruneFirst_keys]

theorem confirmItems_entries {fileId : FileId} {items : List Entry} {item : Entry} (h : item ∈ confirmItems items fileId) :
    ∃ before ∈ items, item.1 = before.1 ∧ item.2.rootFileId = before.2.rootFileId := by
  unfold confirmItems at h
  split_ifs at h
  · exact ⟨item, (List.mem_filter.1 h).1, rfl, rfl⟩
  · exact pruneFirst_entries h

/-- The loop of `confirm_local_deletions` for one id, on the roots of one source. -/
def confirmDeletion (table : RootTable) (fileId : FileId) : RootTable where
  dict := ⟨confirmItems table.dict.items fileId, confirmItems_nodup table.dict.nodup fileId⟩
  keyed := by
    intro id root h
    obtain ⟨before, hbefore, hkey, hid⟩ := confirmItems_entries ((Dict.get_eq_some _ _ _).1 h)
    dsimp only at hkey hid
    rw [hid, hkey]
    exact table.keyed before.1 before.2 ((Dict.get_eq_some _ _ _).2 hbefore)

/-- `confirm_local_deletions`: the ids in the order in which the set yields them. -/
def Sources.confirmLocalDeletions (b : Sources) (fileIds : List FileId) : Sources :=
  { b with
    localFiles := fileIds.foldl confirmDeletion b.localFiles
    activeFiles := fileIds.foldl confirmDeletion b.activeFiles }

theorem foldl_confirmDeletion (table : RootTable) (fileIds : List FileId) :
    (fileIds.foldl confirmDeletion table).dict.items = fileIds.foldl confirmItems table.dict.items := by
  induction fileIds generalizing table with
  | nil => rfl
  | cons fileId fileIds ih => exact ih (confirmDeletion table fileId)

/-! ## What an id takes -/

/-- The root of an entry is the path of the id, or holds it. -/
def holds (fileId : FileId) (item : Entry) : Bool :=
  decide (item.1 = fileId.spelled) || (pathUnder fileId item.2).any fun segments => (nodeAt item.2 segments).isSome

/-- The root under the id, else the first that holds its path. -/
def picked (items : List Entry) (fileId : FileId) : Option FileId :=
  if fileId.spelled ∈ items.map Prod.fst then some fileId.spelled else (items.find? (holds fileId)).map Prod.fst

/-- The root without what the id names below it. -/
def cut (fileId : FileId) (root : SystemFile) : SystemFile :=
  match pathUnder fileId root with
  | some segments => without root segments
  | none => root

/-- What becomes of an entry when the id takes a root. -/
def taken (fileId : FileId) (target : Option FileId) (item : Entry) : Option Entry :=
  if some item.1 = target then (if item.1 = fileId.spelled then none else some (item.1, cut fileId item.2)) else some item

/-- The trees of a source. -/
def Sound (items : List Entry) : Prop := ∀ item ∈ items, WellFormed item.2 ∧ Summed item.2

theorem pathUnder_congr {root left : SystemFile} (h : left.rootFileId = root.rootFileId) (fileId : FileId) :
    pathUnder fileId left = pathUnder fileId root := by
  have hpair : left.pathPairId = root.pathPairId := by
    rw [← buildFileId_pathPairId left.name left.pathPairId, ← buildFileId_pathPairId root.name root.pathPairId]
    exact congrArg FileId.pathPairId h
  have hname : left.name = root.name := by
    rw [← buildFileId_path left.name left.pathPairId, ← buildFileId_path root.name root.pathPairId]
    exact congrArg FileId.path h
  unfold pathUnder completionRelativePathSegments
  rw [hpair, hname]

theorem without_rootFileId (root : SystemFile) (path : List String) : (without root path).rootFileId = root.rootFileId := by
  cases path with
  | nil => rfl
  | cons n rest =>
    have hattrs := without_attrs (List.cons_ne_nil n rest) root
    have hname := congrArg FileAttrs.name hattrs
    have hpair := congrArg FileAttrs.pathPairId hattrs
    exact congrArg₂ buildFileId hname hpair

theorem withoutAll_rootFileId (root : SystemFile) (paths : List (List String)) :
    (withoutAll root paths).rootFileId = root.rootFileId := by
  induction paths generalizing root with
  | nil => rfl
  | cons path paths ih => exact (ih (without root path)).trans (without_rootFileId root path)

theorem cut_rootFileId (fileId : FileId) (root : SystemFile) : (cut fileId root).rootFileId = root.rootFileId := by
  unfold cut
  cases pathUnder fileId root with
  | none => rfl
  | some segments => exact without_rootFileId root segments

/-- An entry that is not taken stays. -/
theorem taken_ne {fileId : FileId} {target : Option FileId} {item : Entry} (h : some item.1 ≠ target) :
    taken fileId target item = some item := if_neg h

theorem filterMap_taken_ne {fileId : FileId} {target : Option FileId} {items : List Entry}
    (h : ∀ item ∈ items, some item.1 ≠ target) : items.filterMap (taken fileId target) = items := by
  induction items with
  | nil => rfl
  | cons item items ih =>
    rw [List.filterMap_cons, taken_ne (h item List.mem_cons_self)]
    dsimp only
    rw [ih fun other hother => h other (List.mem_cons_of_mem _ hother)]

theorem pruneFirst_eq {fileId : FileId} {items : List Entry} (hsound : Sound items) (hnodup : (items.map Prod.fst).Nodup)
    (hid : fileId.spelled ∉ items.map Prod.fst) :
    pruneFirst fileId items = items.filterMap (taken fileId ((items.find? (holds fileId)).map Prod.fst)) := by
  induction items with
  | nil => rfl
  | cons item items ih =>
    obtain ⟨key, root⟩ := item
    rw [List.map_cons, List.nodup_cons] at hnodup
    rw [List.map_cons, List.mem_cons, not_or] at hid
    have hrest := ih (fun other hother => hsound other (List.mem_cons_of_mem _ hother)) hnodup.2 hid.2
    have hholds : holds fileId (key, root) = (pathUnder fileId root).any fun s => (nodeAt root s).isSome := by
      unfold holds
      rw [decide_eq_false (Ne.symm hid.1), Bool.false_or]
    -- The root is passed over: the one that is taken comes later.
    have hskip : holds fileId (key, root) = false → (key, root) :: pruneFirst fileId items =
        ((key, root) :: items).filterMap (taken fileId ((((key, root) :: items).find? (holds fileId)).map Prod.fst)) := by
      intro hno
      rw [List.find?_cons, hno]
      dsimp only
      have hne : some key ≠ (items.find? (holds fileId)).map Prod.fst := by
        intro heq
        obtain ⟨found, hfound, hkey⟩ := Option.map_eq_some_iff.1 heq.symm
        exact hnodup.1 (List.mem_map.2 ⟨found, List.mem_of_find?_eq_some hfound, hkey⟩)
      rw [List.filterMap_cons, taken_ne hne, hrest]
    rw [pruneFirst]
    cases hpath : pathUnder fileId root with
    | none => exact hskip (by rw [hholds, hpath]; rfl)
    | some segments =>
      have hne := (pathUnder_eq_some.1 hpath).nonempty
      have hprune := pruneConfirmedLocalDescendant_eq hne (hsound (key, root) List.mem_cons_self).1
      dsimp only at hprune ⊢
      rw [hprune]
      dsimp only
      by_cases hnode : (nodeAt root segments).isSome = true
      · have hyes : holds fileId (key, root) = true := by
          rw [hholds, hpath]
          exact hnode
        have hcut : cut fileId root = without root segments := by
          unfold cut
          rw [hpath]
        rw [if_pos hnode, List.find?_cons, hyes]
        dsimp only
        rw [Option.map_some, List.filterMap_cons, filterMap_taken_ne]
        · unfold taken
          rw [if_pos rfl, if_neg (Ne.symm hid.1)]
          dsimp only
          rw [hcut]
        · intro other hother heq
          exact hnodup.1 (Option.some.inj heq ▸ List.mem_map_of_mem hother)
      · rw [if_neg hnode]
        exact hskip (by rw [hholds, hpath]; simpa using hnode)

/-- One id takes one root. -/
theorem confirmItems_eq {fileId : FileId} {items : List Entry} (hsound : Sound items) (hnodup : (items.map Prod.fst).Nodup) :
    confirmItems items fileId = items.filterMap (taken fileId (picked items fileId)) := by
  unfold confirmItems picked
  split_ifs with hid
  · rw [← List.filterMap_eq_filter]
    refine List.filterMap_congr fun item _ => ?_
    by_cases hkey : item.1 = fileId.spelled
    · simp [taken, hkey]
    · simp [taken, hkey, Option.guard]
  · exact pruneFirst_eq hsound hnodup hid

/-! ## What one step keeps -/

theorem taken_some {fileId : FileId} {target : Option FileId} {item left : Entry} (h : taken fileId target item = some left) :
    left = item ∨ (item.1 ≠ fileId.spelled ∧ left = (item.1, cut fileId item.2)) := by
  unfold taken at h
  split_ifs at h with htarget hkey
  · exact Or.inr ⟨hkey, (Option.some.inj h).symm⟩
  · exact Or.inl (Option.some.inj h).symm

theorem taken_key {fileId : FileId} {target : Option FileId} {item left : Entry} (h : taken fileId target item = some left) :
    left.1 = item.1 ∧ left.2.rootFileId = item.2.rootFileId := by
  rcases taken_some h with rfl | ⟨-, rfl⟩
  · exact ⟨rfl, rfl⟩
  · exact ⟨rfl, cut_rootFileId fileId item.2⟩

theorem taken_nodeAt {fileId : FileId} {target : Option FileId} {item left : Entry} (h : taken fileId target item = some left)
    (hwell : WellFormed item.2) {path : List String} (habsent : nodeAt item.2 path = none) : nodeAt left.2 path = none := by
  rcases taken_some h with rfl | ⟨-, rfl⟩
  · exact habsent
  · dsimp only
    unfold cut
    cases pathUnder fileId item.2 with
    | none => exact habsent
    | some segments => exact nodeAt_without_none hwell habsent segments

theorem holds_iff {fileId : FileId} {item : Entry} : holds fileId item = true ↔
    item.1 = fileId.spelled ∨ ∃ segments, Names fileId item.2 segments ∧ (nodeAt item.2 segments).isSome := by
  unfold holds
  rw [Bool.or_eq_true, decide_eq_true_eq]
  refine or_congr_right ?_
  cases hpath : pathUnder fileId item.2 with
  | none =>
    simp only [Option.any_none, Bool.false_eq_true, false_iff, not_exists, not_and]
    intro segments hnames
    rw [pathUnder_eq_some.2 hnames] at hpath
    cases hpath
  | some segments =>
    simp only [Option.any_some]
    constructor
    · exact fun hnode => ⟨segments, pathUnder_eq_some.1 hpath, hnode⟩
    · rintro ⟨other, hnames, hnode⟩
      rw [pathUnder_eq_some.2 hnames] at hpath
      cases hpath
      exact hnode

theorem Names.congr {root left : SystemFile} (h : left.rootFileId = root.rootFileId) {fileId : FileId} {path : List String} :
    Names fileId left path ↔ Names fileId root path := by
  rw [← pathUnder_eq_some, pathUnder_congr h, pathUnder_eq_some]

/-- What an entry holds after the step, it held before. -/
theorem taken_holds {fileId other : FileId} {target : Option FileId} {item left : Entry}
    (h : taken fileId target item = some left) (hwell : WellFormed item.2) (hholds : holds other left = true) :
    holds other item = true := by
  obtain ⟨hkey, hroot⟩ := taken_key h
  rw [holds_iff] at hholds ⊢
  rw [hkey] at hholds
  refine hholds.imp_right fun ⟨segments, hnames, hnode⟩ => ⟨segments, (Names.congr hroot).1 hnames, ?_⟩
  by_contra hno
  rw [taken_nodeAt h hwell (by simpa using hno)] at hnode
  cases hnode

theorem sound_confirm {fileId : FileId} {items : List Entry} (hsound : Sound items) (hnodup : (items.map Prod.fst).Nodup) :
    Sound (confirmItems items fileId) := by
  rw [confirmItems_eq hsound hnodup]
  intro left hleft
  obtain ⟨item, hitem, htaken⟩ := List.mem_filterMap.1 hleft
  have ⟨hwell, hsum⟩ := hsound item hitem
  rcases taken_some htaken with rfl | ⟨-, rfl⟩
  · exact ⟨hwell, hsum⟩
  · dsimp only
    unfold cut
    cases pathUnder fileId item.2 with
    | none => exact ⟨hwell, hsum⟩
    | some segments => exact ⟨hwell.sub, Summed.without hwell hsum⟩

/-! ## What is left of all the ids -/

/-- The paths of the ids below a root. -/
def pathsUnder (fileIds : List FileId) (root : SystemFile) : List (List String) := fileIds.filterMap fun id => pathUnder id root

/-- The roots less those under an id, and each less what the ids name below it. -/
def cleared (fileIds : List FileId) (items : List Entry) : List Entry :=
  items.filterMap fun item =>
    if item.1 ∈ fileIds.map FileId.spelled then none else some (item.1, withoutAll item.2 (pathsUnder fileIds item.2))

theorem mem_pathsUnder {fileIds : List FileId} {root : SystemFile} {path : List String} :
    path ∈ pathsUnder fileIds root ↔ ∃ id ∈ fileIds, Names id root path := by
  unfold pathsUnder
  rw [List.mem_filterMap]
  exact exists_congr fun id => and_congr_right fun _ => pathUnder_eq_some

theorem pathsUnder_congr {root left : SystemFile} (h : left.rootFileId = root.rootFileId) (fileIds : List FileId) :
    pathsUnder fileIds left = pathsUnder fileIds root :=
  List.filterMap_congr fun id _ => pathUnder_congr h id

/-- A step takes away nothing but what the ids do. -/
theorem cleared_confirm {fileId : FileId} {fileIds : List FileId} {items : List Entry} (hsound : Sound items)
    (hnodup : (items.map Prod.fst).Nodup) (hid : fileId ∈ fileIds) :
    cleared fileIds (confirmItems items fileId) = cleared fileIds items := by
  rw [confirmItems_eq hsound hnodup]
  unfold cleared
  rw [List.filterMap_filterMap]
  refine List.filterMap_congr fun item hitem => ?_
  have ⟨hwell, hsum⟩ := hsound item hitem
  unfold taken
  by_cases htarget : some item.1 = picked items fileId
  · rw [if_pos htarget]
    by_cases hkey : item.1 = fileId.spelled
    · rw [if_pos hkey, Option.bind_none, if_pos (hkey ▸ List.mem_map_of_mem hid)]
    · rw [if_neg hkey, Option.bind_some]
      dsimp only
      rw [pathsUnder_congr (cut_rootFileId fileId item.2)]
      unfold cut
      cases hpath : pathUnder fileId item.2 with
      | none => rfl
      | some segments =>
        dsimp only
        rw [withoutAll_without hwell hsum (mem_pathsUnder.2 ⟨fileId, hid, pathUnder_eq_some.1 hpath⟩)]
  · rw [if_neg htarget, Option.bind_some]

/-- Nothing is to be taken away any more. -/
theorem cleared_self {fileIds : List FileId} {items : List Entry} (hsound : Sound items)
    (h : ∀ id ∈ fileIds, ∀ item ∈ items, holds id item = false) : cleared fileIds items = items := by
  unfold cleared
  conv_rhs => rw [← @List.filterMap_some _ items]
  refine List.filterMap_congr fun item hitem => ?_
  have hkey : item.1 ∉ fileIds.map FileId.spelled := by
    intro hmem
    obtain ⟨id, hid, heq⟩ := List.mem_map.1 hmem
    have hholds := holds_iff.2 (Or.inl heq.symm)
    rw [h id hid item hitem] at hholds
    cases hholds
  rw [if_neg hkey, withoutAll_absent (hsound item hitem).1]
  intro path hpath
  obtain ⟨id, hid, hnames⟩ := mem_pathsUnder.1 hpath
  by_contra hnode
  have hholds := holds_iff.2 (Or.inr ⟨path, hnames, Option.isSome_iff_ne_none.2 hnode⟩)
  rw [h id hid item hitem] at hholds
  cases hholds

/-! ## A run over the ids -/

/-- The id names something in the entry that no other of the ids takes away with what lies above it. -/
def Topmost (fileIds : List FileId) (fileId : FileId) (item : Entry) : Prop :=
  item.1 = fileId.spelled ∨
    item.1 ∉ fileIds.map FileId.spelled ∧ ∃ segments, Names fileId item.2 segments ∧ (nodeAt item.2 segments).isSome ∧
      ∀ other ∈ fileIds, ∀ path, Names other item.2 path → path <+: segments → path = segments

theorem Topmost.holds {fileIds : List FileId} {fileId : FileId} {item : Entry} (h : Topmost fileIds fileId item) :
    holds fileId item = true :=
  holds_iff.2 (h.imp_right fun ⟨_, segments, hnames, hnode, _⟩ => ⟨segments, hnames, hnode⟩)

theorem nodeAt_prefix {file : SystemFile} {path other : List String} (h : path <+: other) (hnode : (nodeAt file other).isSome) :
    (nodeAt file path).isSome := by
  induction path generalizing file other with
  | nil => rfl
  | cons n rest ih =>
    obtain ⟨tail, rfl⟩ := h
    rw [List.cons_append, nodeAt_cons] at hnode
    rw [nodeAt_cons]
    cases hchild : childNamed file.children n with
    | none =>
      rw [hchild] at hnode
      cases hnode
    | some child =>
      rw [hchild, Option.bind_some] at hnode
      exact ih (List.prefix_append rest tail) hnode

/-- What an entry holds of the ids, it holds topmost of one. -/
theorem exists_topmost {fileIds : List FileId} {fileId : FileId} {item : Entry} (hid : fileId ∈ fileIds)
    (hholds : holds fileId item = true) : ∃ top ∈ fileIds, Topmost fileIds top item := by
  by_cases hkey : item.1 ∈ fileIds.map FileId.spelled
  · obtain ⟨top, htop, heq⟩ := List.mem_map.1 hkey
    exact ⟨top, htop, Or.inl heq.symm⟩
  rcases holds_iff.1 hholds with heq | ⟨segments, hnames, hnode⟩
  · exact absurd (heq ▸ List.mem_map_of_mem hid) hkey
  -- The shortest path of an id that lies on the way.
  induction hlen : segments.length using Nat.strong_induction_on generalizing fileId segments with
  | _ n ih =>
    by_cases htop : ∀ other ∈ fileIds, ∀ path, Names other item.2 path → path <+: segments → path = segments
    · exact ⟨fileId, hid, Or.inr ⟨hkey, segments, hnames, hnode, htop⟩⟩
    · push Not at htop
      obtain ⟨other, hother, path, hpath, hpre, hne⟩ := htop
      have hlt : path.length < n := hlen ▸ lt_of_le_of_ne hpre.length_le fun heq => hne (hpre.eq_of_length heq)
      have hfound := nodeAt_prefix hpre hnode
      exact ih path.length hlt hother (holds_iff.2 (Or.inr ⟨path, hpath, hfound⟩)) path hpath hfound rfl

theorem taken_topmost {fileIds : List FileId} {fileId other : FileId} {target : Option FileId} {item left : Entry}
    (h : taken fileId target item = some left) (hwell : WellFormed item.2) (htop : Topmost fileIds other left) :
    Topmost fileIds other item := by
  obtain ⟨hkey, hroot⟩ := taken_key h
  unfold Topmost at htop ⊢
  rw [hkey] at htop
  refine htop.imp_right fun ⟨hfree, segments, hnames, hnode, habove⟩ =>
    ⟨hfree, segments, (Names.congr hroot).1 hnames, ?_, fun id hid path hpath => habove id hid path ((Names.congr hroot).2 hpath)⟩
  by_contra hno
  rw [taken_nodeAt h hwell (by simpa using hno)] at hnode
  cases hnode

/-- Every id takes the roots in which it is topmost. -/
def TakesTopmost (fileIds : List FileId) (items : List Entry) (fileId : FileId) : Prop :=
  ∀ item ∈ items, Topmost fileIds fileId item → picked items fileId = some item.1

theorem find_filterMap {fileId : FileId} {items : List Entry} (hnodup : (items.map Prod.fst).Nodup)
    {f : Entry → Option Entry} (hf : ∀ item ∈ items, ∀ left, f item = some left →
      left.1 = item.1 ∧ (holds fileId left = true → holds fileId item = true)) {key : FileId}
    (hfirst : (items.find? (holds fileId)).map Prod.fst = some key) {left : Entry} (hleft : left ∈ items.filterMap f)
    (hkey : left.1 = key) (hholds : holds fileId left = true) :
    ((items.filterMap f).find? (holds fileId)).map Prod.fst = some key := by
  induction items with
  | nil => simp at hfirst
  | cons item items ih =>
    rw [List.map_cons, List.nodup_cons] at hnodup
    have hrest := ih hnodup.2 fun other hother => hf other (List.mem_cons_of_mem _ hother)
    have hitem := hf item List.mem_cons_self
    rw [List.find?_cons] at hfirst
    rw [List.mem_filterMap] at hleft
    obtain ⟨origin, horigin, heq⟩ := hleft
    have horiginKey := (hf origin horigin left heq).1
    cases hhead : holds fileId item with
    | true =>
      rw [hhead] at hfirst
      have hself : origin = item := by
        refine (List.mem_cons.1 horigin).resolve_right fun hlater => hnodup.1 ?_
        rw [Option.some.inj hfirst, ← hkey, horiginKey]
        exact List.mem_map_of_mem hlater
      rw [← hself, List.filterMap_cons, heq]
      dsimp only
      rw [List.find?_cons, hholds]
      exact congrArg some hkey
    | false =>
      rw [hhead] at hfirst
      have hlater : left ∈ items.filterMap f := by
        refine List.mem_filterMap.2 ⟨origin, (List.mem_cons.1 horigin).resolve_left fun hself => ?_, heq⟩
        have hbefore := (hf origin horigin left heq).2 hholds
        rw [hself, hhead] at hbefore
        cases hbefore
      rw [List.filterMap_cons]
      cases hnew : f item with
      | none => exact hrest hfirst hlater
      | some new =>
        have hno : holds fileId new = false := by
          by_contra hyes
          have hbefore := (hitem new hnew).2 (by simpa using hyes)
          rw [hhead] at hbefore
          cases hbefore
        dsimp only
        rw [List.find?_cons, hno]
        exact hrest hfirst hlater

/-- The root an id takes stays the one, as long as it holds the id. -/
theorem picked_confirm {fileId other : FileId} {items : List Entry} (hsound : Sound items)
    (hnodup : (items.map Prod.fst).Nodup) {left : Entry} (hpick : picked items other = some left.1)
    (hleft : left ∈ confirmItems items fileId) (hholds : holds other left = true) :
    picked (confirmItems items fileId) other = some left.1 := by
  unfold picked at hpick ⊢
  by_cases hkey : other.spelled ∈ (confirmItems items fileId).map Prod.fst
  · have hbefore : other.spelled ∈ items.map Prod.fst := by
      obtain ⟨now, hnow, heq⟩ := List.mem_map.1 hkey
      obtain ⟨before, hbefore, hsame, -⟩ := confirmItems_entries hnow
      exact List.mem_map.2 ⟨before, hbefore, hsame.symm.trans heq⟩
    rw [if_pos hbefore] at hpick
    rw [if_pos hkey, hpick]
  · rw [if_neg hkey]
    by_cases hbefore : other.spelled ∈ items.map Prod.fst
    · rw [if_pos hbefore] at hpick
      exact absurd (Option.some.inj hpick ▸ List.mem_map_of_mem hleft) hkey
    · rw [if_neg hbefore] at hpick
      rw [confirmItems_eq hsound hnodup] at hleft ⊢
      refine find_filterMap hnodup (fun item hitem new hnew => ?_) hpick hleft rfl hholds
      exact ⟨(taken_key hnew).1, taken_holds hnew (hsound item hitem).1⟩

/-- After its step the id is topmost nowhere, and the others take the roots that they took before. -/
theorem takesTopmost_confirm {fileIds : List FileId} {fileId other : FileId} {items : List Entry} (hsound : Sound items)
    (hnodup : (items.map Prod.fst).Nodup) (htakes : TakesTopmost fileIds items other) :
    TakesTopmost fileIds (confirmItems items fileId) other := by
  intro left hleft htop
  have hmem := hleft
  rw [confirmItems_eq hsound hnodup] at hmem
  obtain ⟨item, hitem, htaken⟩ := List.mem_filterMap.1 hmem
  have hpick := htakes item hitem (taken_topmost htaken (hsound item hitem).1 htop)
  rw [← (taken_key htaken).1] at hpick
  exact picked_confirm hsound hnodup hpick hleft htop.holds

theorem not_topmost_confirm {fileIds : List FileId} {fileId : FileId} {items : List Entry} (hsound : Sound items)
    (hnodup : (items.map Prod.fst).Nodup) (htakes : TakesTopmost fileIds items fileId) {left : Entry}
    (hleft : left ∈ confirmItems items fileId) : ¬ Topmost fileIds fileId left := by
  intro htop
  rw [confirmItems_eq hsound hnodup] at hleft
  obtain ⟨item, hitem, htaken⟩ := List.mem_filterMap.1 hleft
  have ⟨hwell, _⟩ := hsound item hitem
  have hpick := htakes item hitem (taken_topmost htaken hwell htop)
  have hkeys := taken_key htaken
  unfold taken at htaken
  rw [if_pos hpick.symm] at htaken
  split_ifs at htaken with hkey
  obtain rfl := Option.some.inj htaken
  rcases holds_iff.1 htop.holds with heq | ⟨segments, hnames, hnode⟩
  · exact hkey heq
  · have hbefore := (Names.congr hkeys.2).1 hnames
    dsimp only at hnode
    unfold cut at hnode
    rw [pathUnder_eq_some.2 hbefore] at hnode
    dsimp only at hnode
    rw [nodeAt_without hnames.nonempty hwell, if_pos (List.prefix_refl _)] at hnode
    cases hnode

theorem not_topmost_persists {fileIds : List FileId} {fileId other : FileId} {items : List Entry} (hsound : Sound items)
    (hnodup : (items.map Prod.fst).Nodup) (hnone : ∀ item ∈ items, ¬ Topmost fileIds other item) {left : Entry}
    (hleft : left ∈ confirmItems items fileId) : ¬ Topmost fileIds other left := by
  intro htop
  rw [confirmItems_eq hsound hnodup] at hleft
  obtain ⟨item, hitem, htaken⟩ := List.mem_filterMap.1 hleft
  exact hnone item hitem (taken_topmost htaken (hsound item hitem).1 htop)

/-- Over a run nothing is lost but what the ids name, and the ids that were done are topmost nowhere. -/
theorem confirm_run {fileIds order : List FileId} {items : List Entry} (hsound : Sound items)
    (hnodup : (items.map Prod.fst).Nodup) (horder : ∀ id ∈ order, id ∈ fileIds)
    (htakes : ∀ id ∈ order, TakesTopmost fileIds items id) :
    Sound (order.foldl confirmItems items) ∧ cleared fileIds (order.foldl confirmItems items) = cleared fileIds items ∧
      ∀ id, (id ∈ order ∨ ∀ item ∈ items, ¬ Topmost fileIds id item) →
        ∀ item ∈ order.foldl confirmItems items, ¬ Topmost fileIds id item := by
  induction order generalizing items with
  | nil => exact ⟨hsound, rfl, fun id h => h.resolve_left (by simp)⟩
  | cons fileId order ih =>
    have hnext := @sound_confirm fileId items hsound hnodup
    obtain ⟨hfinal, hcleared, hgone⟩ := ih hnext (confirmItems_nodup hnodup fileId)
      (fun id hid => horder id (List.mem_cons_of_mem _ hid))
      fun id hid => takesTopmost_confirm hsound hnodup (htakes id (List.mem_cons_of_mem _ hid))
    refine ⟨hfinal, ?_, fun id h => hgone id ?_⟩
    · exact hcleared.trans (cleared_confirm hsound hnodup (horder fileId List.mem_cons_self))
    · rcases h with h | h
      · rcases List.mem_cons.1 h with rfl | h
        · exact Or.inr fun left hleft => not_topmost_confirm hsound hnodup (htakes id List.mem_cons_self) hleft
        · exact Or.inl h
      · exact Or.inr fun left hleft => not_topmost_persists hsound hnodup h hleft

theorem confirm_cleared {fileIds order : List FileId} {items : List Entry} (hsound : Sound items)
    (hnodup : (items.map Prod.fst).Nodup) (horder : ∀ id, id ∈ order ↔ id ∈ fileIds)
    (htakes : ∀ id ∈ fileIds, TakesTopmost fileIds items id) :
    order.foldl confirmItems items = cleared fileIds items := by
  obtain ⟨hfinal, hcleared, hgone⟩ := confirm_run hsound hnodup (fun id hid => (horder id).1 hid)
    fun id hid => htakes id ((horder id).1 hid)
  rw [← hcleared]
  refine (cleared_self hfinal fun id hid item hitem => ?_).symm
  by_contra hholds
  obtain ⟨top, htop, h⟩ := exists_topmost hid (by simpa using hholds)
  exact hgone top (Or.inl ((horder top).2 htop)) item hitem h

theorem cleared_gone {fileIds : List FileId} {items : List Entry} (hsound : Sound items) {left : Entry}
    (hleft : left ∈ cleared fileIds items) :
    left.1 ∉ fileIds.map FileId.spelled ∧ ∀ id ∈ fileIds, ∀ path, Names id left.2 path → nodeAt left.2 path = none := by
  obtain ⟨item, hitem, heq⟩ := List.mem_filterMap.1 hleft
  split_ifs at heq with hkey
  obtain rfl := Option.some.inj heq
  have ⟨hwell, hsum⟩ := hsound item hitem
  refine ⟨hkey, fun id hid path hnames => ?_⟩
  have hbefore := (Names.congr (withoutAll_rootFileId item.2 _)).1 hnames
  exact withoutAll_gone hwell hsum hbefore.nonempty (mem_pathsUnder.2 ⟨id, hid, hbefore⟩)

/-! ## A root that the id did not take -/

theorem node_stays {fileId : FileId} {items : List Entry} (hsound : Sound items) (hnodup : (items.map Prod.fst).Nodup)
    {item : Entry} (hitem : item ∈ items) (hkey : item.1 ≠ fileId.spelled) {segments : List String}
    (hnode : (nodeAt item.2 segments).isSome) (happart : ∀ path, Names fileId item.2 path → ¬ path <+: segments) :
    ∃ left ∈ confirmItems items fileId, left.1 = item.1 ∧ left.2.rootFileId = item.2.rootFileId ∧
      (nodeAt left.2 segments).isSome := by
  rw [confirmItems_eq hsound hnodup]
  have hwell := (hsound item hitem).1
  by_cases htarget : some item.1 = picked items fileId
  · refine ⟨(item.1, cut fileId item.2), List.mem_filterMap.2 ⟨item, hitem, ?_⟩, rfl, cut_rootFileId fileId item.2, ?_⟩
    · unfold taken
      rw [if_pos htarget, if_neg hkey]
    · dsimp only
      unfold cut
      cases hpath : pathUnder fileId item.2 with
      | none => exact hnode
      | some path =>
        have hnames := pathUnder_eq_some.1 hpath
        dsimp only
        rw [nodeAt_without hnames.nonempty hwell, if_neg (happart path hnames)]
        split_ifs
        · rwa [Option.isSome_map]
        · exact hnode
  · exact ⟨item, List.mem_filterMap.2 ⟨item, hitem, taken_ne htarget⟩, rfl, rfl, hnode⟩

theorem node_stays_run {order : List FileId} {items : List Entry} (hsound : Sound items) (hnodup : (items.map Prod.fst).Nodup)
    {item : Entry} (hitem : item ∈ items) {segments : List String} (hnode : (nodeAt item.2 segments).isSome)
    (happart : ∀ other ∈ order, item.1 ≠ other.spelled ∧ ∀ path, Names other item.2 path → ¬ path <+: segments) :
    ∃ left ∈ order.foldl confirmItems items, left.1 = item.1 ∧ left.2.rootFileId = item.2.rootFileId ∧
      (nodeAt left.2 segments).isSome := by
  induction order generalizing items item with
  | nil => exact ⟨item, hitem, rfl, rfl, hnode⟩
  | cons fileId order ih =>
    have ⟨hkey, hpaths⟩ := happart fileId List.mem_cons_self
    obtain ⟨left, hleft, hsame, hroot, hstill⟩ := node_stays hsound hnodup hitem hkey hnode hpaths
    obtain ⟨last, hlast, hlastKey, hlastRoot, hend⟩ := ih (sound_confirm hsound hnodup) (confirmItems_nodup hnodup fileId)
      hleft hstill fun other hother => by
        have ⟨hotherKey, hotherPaths⟩ := happart other (List.mem_cons_of_mem _ hother)
        exact ⟨hsame ▸ hotherKey, fun path hpath => hotherPaths path ((Names.congr hroot).1 hpath)⟩
    exact ⟨last, hlast, hlastKey.trans hsame, hlastRoot.trans hroot, hend⟩

/-- An id that comes first and takes another root leaves what it is topmost in. -/
theorem topmost_stays {fileId : FileId} {order : List FileId} {items : List Entry} (hsound : Sound items)
    (hnodup : (items.map Prod.fst).Nodup) (hids : ((fileId :: order).map FileId.spelled).Nodup) {item : Entry}
    (hitem : item ∈ items) (htop : Topmost (fileId :: order) fileId item) (hpick : picked items fileId ≠ some item.1) :
    ∃ left ∈ (fileId :: order).foldl confirmItems items, ∃ path, Names fileId left.2 path ∧ (nodeAt left.2 path).isSome := by
  rw [List.map_cons, List.nodup_cons] at hids
  rcases htop with hkey | ⟨hfree, segments, hnames, hnode, habove⟩
  · refine absurd ?_ hpick
    unfold picked
    rw [if_pos (hkey ▸ List.mem_map_of_mem hitem), hkey]
  · have hstill : item ∈ confirmItems items fileId := by
      rw [confirmItems_eq hsound hnodup]
      exact List.mem_filterMap.2 ⟨item, hitem, taken_ne (Ne.symm hpick)⟩
    obtain ⟨left, hleft, -, hroot, hend⟩ := @node_stays_run order _ (sound_confirm hsound hnodup)
      (confirmItems_nodup hnodup fileId) item hstill segments hnode fun other hother => by
        refine ⟨fun heq => hfree (heq ▸ List.mem_map_of_mem (List.mem_cons_of_mem _ hother)), fun path hpath hpre => ?_⟩
        obtain rfl := habove other (List.mem_cons_of_mem _ hother) path hpath hpre
        exact hids.1 (hpath.spelled hnames ▸ List.mem_map_of_mem hother)
    exact ⟨left, hleft, segments, (Names.congr hroot).2 hnames, hend⟩

/-! ## Confirmed deletions -/

/-- The roots afterwards hold none of the confirmed paths, and are otherwise as they were. -/
structure Cleared (before after : RootTable) (fileIds : List FileId) : Prop where
  gone : ∀ key root, after.get key = some root → key ∉ fileIds.map FileId.spelled ∧
    ∀ id ∈ fileIds, ∀ path, Names id root path → nodeAt root path = none
  otherwise : after.dict.items = cleared fileIds before.dict.items

theorem confirmDeletions_cleared_iff {table : RootTable} (hsound : Sound table.dict.items) {fileIds : List FileId}
    (hids : (fileIds.map FileId.spelled).Nodup) :
    (∀ order : List FileId, order.Perm fileIds → Cleared table (order.foldl confirmDeletion table) fileIds) ↔
      ∀ id ∈ fileIds, TakesTopmost fileIds table.dict.items id := by
  have hnodup := table.dict.nodup
  constructor
  · intro h id hid item hitem htop
    by_contra hpick
    have hperm := List.perm_cons_erase hid
    have htop' : Topmost (id :: fileIds.erase id) id item := by
      unfold Topmost at htop ⊢
      simp only [← hperm.mem_iff, ← (hperm.map FileId.spelled).mem_iff]
      exact htop
    obtain ⟨left, hleft, path, hnames, hnode⟩ :=
      topmost_stays hsound hnodup ((hperm.map FileId.spelled).nodup_iff.1 hids) hitem htop' hpick
    rw [← foldl_confirmDeletion] at hleft
    have hgone := (h _ hperm.symm).gone left.1 left.2 ((Dict.get_eq_some _ _ _).2 hleft)
    rw [hgone.2 id hid path hnames] at hnode
    cases hnode
  · intro h order hperm
    have hitems : (order.foldl confirmDeletion table).dict.items = cleared fileIds table.dict.items := by
      rw [foldl_confirmDeletion]
      exact confirm_cleared hsound hnodup (fun id => hperm.mem_iff) h
    refine ⟨fun key root hroot => ?_, hitems⟩
    have hmem : (key, root) ∈ (order.foldl confirmDeletion table).dict.items := (Dict.get_eq_some _ _ _).1 hroot
    rw [hitems] at hmem
    exact cleared_gone hsound hmem

theorem spelled_nodup {fileIds : List FileId} (h : (fileIds.map FileId.text).Nodup) : (fileIds.map FileId.spelled).Nodup := by
  refine List.Nodup.of_map FileId.text ?_
  rw [List.map_map]
  exact (List.map_congr_left fun id _ => FileId.text_spelled id) ▸ h

/-- A deletion removes one subtree; the ids of a set remove theirs just when each takes the roots in which it is topmost. -/
theorem confirmed_deletions {b : Sources} (hlocal : Sound b.localFiles.dict.items)
    (hactive : Sound b.activeFiles.dict.items) {fileIds : List FileId} (hids : (fileIds.map FileId.text).Nodup) :
    (∀ tree, WellFormed tree → Summed tree → ∀ path ≠ [], ∃ left, pruneConfirmedLocalDeletion tree path = some left ∧
      WellFormed left ∧ Summed left ∧ pruneConfirmedLocalDeletion left path = some left ∧
      (nodeAt tree path = none → left = tree) ∧
      (∀ removed, nodeAt tree path = some removed → Removed tree path removed left) ∧
      ∀ other ≠ [], (pruneConfirmedLocalDeletion tree other).bind (pruneConfirmedLocalDeletion · path) =
        pruneConfirmedLocalDeletion left other) ∧
    ((∀ order : List FileId, order.Perm fileIds →
        Cleared b.localFiles (b.confirmLocalDeletions order).localFiles fileIds ∧
        Cleared b.activeFiles (b.confirmLocalDeletions order).activeFiles fileIds) ↔
      ∀ id ∈ fileIds, TakesTopmost fileIds b.localFiles.dict.items id ∧ TakesTopmost fileIds b.activeFiles.dict.items id) := by
  constructor
  · intro tree h hsum path hne
    refine ⟨without tree path, pruneConfirmedLocalDeletion_eq hne h, h.sub, Summed.without h hsum, ?_,
      fun habsent => without_absent h habsent, fun removed hremoved => without_removed h hsum hne hremoved, ?_⟩
    · rw [pruneConfirmedLocalDeletion_eq hne h.sub, without_twice h]
    · intro other hother
      rw [pruneConfirmedLocalDeletion_eq hother h, Option.bind_some, pruneConfirmedLocalDeletion_eq hne h.sub,
        pruneConfirmedLocalDeletion_eq hother h.sub, without_comm h hsum]
  · have hspelled := spelled_nodup hids
    have hfirst := confirmDeletions_cleared_iff hlocal hspelled
    have hsecond := confirmDeletions_cleared_iff hactive hspelled
    constructor
    · intro h id hid
      exact ⟨hfirst.1 (fun order horder => (h order horder).1) id hid,
        hsecond.1 (fun order horder => (h order horder).2) id hid⟩
    · intro h order horder
      exact ⟨hfirst.2 (fun id hid => (h id hid).1) order horder, hsecond.2 (fun id hid => (h id hid).2) order horder⟩

/-! ### A leaf that has a root of its own -/

private def episode : SystemFile := mk { name := "ep1", size := 5, pathPairId := some "p" } []
private def extra : SystemFile := mk { name := "ep2", size := 3, pathPairId := some "p" } []
private def showRoot : SystemFile := mk { name := "Show", size := 8, isDir := true, pathPairId := some "p" } [episode, extra]
/-- The leaf under the canonical name that a recovered job has for it. -/
private def leafRoot : SystemFile := mk { name := "Show/ep1", size := 5, pathPairId := some "p" } []

private def twice : Sources := { activeFiles := .ofList [showRoot, leafRoot] }
private def once : Sources := { localFiles := .ofList [showRoot], activeFiles := .ofList [showRoot] }
private def deletedLeaf : FileId := .paired "p" "Show/ep1"

private theorem episode_sound : WellFormed episode ∧ Summed episode :=
  ⟨.mk (by simp) (by simp) (by simp), .mk (by simp) (by simp)⟩

private theorem extra_sound : WellFormed extra ∧ Summed extra :=
  ⟨.mk (by simp) (by simp) (by simp), .mk (by simp) (by simp)⟩

private theorem leafRoot_sound : WellFormed leafRoot ∧ Summed leafRoot :=
  ⟨.mk (by simp) (by simp) (by simp), .mk (by simp) (by simp)⟩

private theorem showRoot_sound : WellFormed showRoot ∧ Summed showRoot := by
  constructor
  · refine .mk (by simp) (by decide) fun c hc => ?_
    rcases List.mem_cons.1 hc with rfl | hc
    · exact episode_sound.1
    · exact List.mem_singleton.1 hc ▸ extra_sound.1
  · refine .mk (by decide) fun c hc => ?_
    rcases List.mem_cons.1 hc with rfl | hc
    · exact episode_sound.2
    · exact List.mem_singleton.1 hc ▸ extra_sound.2

private theorem once_sound : Sound [((.paired "p" "Show" : FileId), showRoot)] := by
  intro item hitem
  exact List.mem_singleton.1 hitem ▸ showRoot_sound

/-- One root holds the path, and no other id of the set lies above it. -/
theorem confirmedOnce_cleared :
    Cleared once.localFiles (once.confirmLocalDeletions [deletedLeaf]).localFiles [deletedLeaf] ∧
      ∃ left, pruneConfirmedLocalDeletion showRoot ["ep1"] = some left ∧ nodeAt left ["ep1"] = none := by
  have hids : ([deletedLeaf].map FileId.text).Nodup := by simp
  have ⟨htree, hsources⟩ := @confirmed_deletions once once_sound once_sound [deletedLeaf] hids
  have htakes : ∀ item ∈ [((.paired "p" "Show" : FileId), showRoot)], Topmost [deletedLeaf] deletedLeaf item →
      picked [((.paired "p" "Show" : FileId), showRoot)] deletedLeaf = some item.1 := by
    intro item hitem _
    obtain rfl := List.mem_singleton.1 hitem
    decide +kernel
  refine ⟨(hsources.2 (fun id hid => ?_) _ (.refl _)).1, ?_⟩
  · obtain rfl := List.mem_singleton.1 hid
    exact ⟨htakes, htakes⟩
  · obtain ⟨left, hleft, -, -, -, -, hremoved, -⟩ := htree showRoot showRoot_sound.1 showRoot_sound.2 ["ep1"] (by simp)
    exact ⟨left, hleft, (hremoved episode (by decide +kernel)).gone ["ep1"] (List.prefix_refl _)⟩

/-- The root of its own is taken, and the leaf stays in the tree of the directory. -/
theorem confirmedTwice_stays :
    Sound twice.localFiles.dict.items ∧ Sound twice.activeFiles.dict.items ∧
      ¬ Cleared twice.activeFiles (twice.confirmLocalDeletions [deletedLeaf]).activeFiles [deletedLeaf] := by
  refine ⟨fun item hitem => (List.not_mem_nil hitem).elim, fun item hitem => ?_, fun h => ?_⟩
  · have hitems : twice.activeFiles.dict.items = [(.paired "p" "Show", showRoot), (.paired "p" "Show/ep1", leafRoot)] := by
      decide +kernel
    rw [hitems] at hitem
    rcases List.mem_cons.1 hitem with rfl | hitem
    · exact showRoot_sound
    · exact List.mem_singleton.1 hitem ▸ leafRoot_sound
  · have hleft : (twice.confirmLocalDeletions [deletedLeaf]).activeFiles.get (.paired "p" "Show") = some showRoot := by
      decide +kernel
    have hnames : Names deletedLeaf showRoot ["ep1"] := pathUnder_eq_some.1 (by decide +kernel)
    have hgone := (h.gone _ _ hleft).2 deletedLeaf (by simp) ["ep1"] hnames
    exact absurd hgone (by decide +kernel)

end Builder

end SeedSync
