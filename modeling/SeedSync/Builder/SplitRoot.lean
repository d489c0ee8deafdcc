import Mathlib.Data.String.Basic
import SeedSync.Builder.Downloaded
import SeedSync.System.Pruned

/-!
# The merge of a split root

What `__merge_active_split_root` makes of the scanned tree and the active tree of one root, child
by child, and what that keeps of the final leaves.
-/

namespace SeedSync

namespace SystemFile

/-! ## Lookup by name -/

theorem childNamed_eq_some {cs : List SystemFile} (h : (cs.map name).Nodup) {n : String} {c : SystemFile} :
    childNamed cs n = some c ↔ c ∈ cs ∧ c.name = n := by
  constructor
  · exact childNamed_mem
  · rintro ⟨hmem, rfl⟩
    exact childNamed_of_mem h hmem

/-- The order of the siblings does not matter. -/
theorem childNamed_perm {xs ys : List SystemFile} (hperm : xs.Perm ys) (h : (xs.map name).Nodup) (n : String) :
    childNamed xs n = childNamed ys n := by
  have h' := (hperm.map name).nodup_iff.1 h
  ext c
  rw [childNamed_eq_some h, childNamed_eq_some h', hperm.mem_iff]

theorem filterMap_names {g : SystemFile → Option SystemFile} (hg : ∀ c d, g c = some d → d.name = c.name)
    (cs : List SystemFile) : ((cs.filterMap g).map name).Sublist (cs.map name) := by
  induction cs with
  | nil => exact .slnil
  | cons c cs ih =>
    rw [List.filterMap_cons]
    cases hc : g c with
    | none => exact ih.cons _
    | some d =>
      dsimp only
      rw [List.map_cons, hg c d hc, List.map_cons]
      exact ih.cons_cons _

/-- A child that is replaced or left out under its own name. -/
theorem childNamed_filterMap {g : SystemFile → Option SystemFile} (hg : ∀ c d, g c = some d → d.name = c.name)
    {cs : List SystemFile} (h : (cs.map name).Nodup) (n : String) :
    childNamed (cs.filterMap g) n = (childNamed cs n).bind g := by
  have hnodup := h.sublist (filterMap_names hg cs)
  ext d
  rw [childNamed_eq_some hnodup, List.mem_filterMap, Option.bind_eq_some_iff]
  constructor
  · rintro ⟨⟨c, hc, hd⟩, rfl⟩
    exact ⟨c, (childNamed_eq_some h).2 ⟨hc, (hg c d hd).symm⟩, hd⟩
  · rintro ⟨c, hc, hd⟩
    obtain ⟨hmem, hname⟩ := (childNamed_eq_some h).1 hc
    exact ⟨⟨c, hmem, hd⟩, (hg c d hd).trans hname⟩

theorem nodeAt_modifyAttrs {f : FileAttrs → FileAttrs} (file : SystemFile) {path : List String} (h : path ≠ []) :
    nodeAt (file.modifyAttrs f) path = nodeAt file path := by
  cases path with
  | nil => exact absurd rfl h
  | cons n path => rw [nodeAt_cons, nodeAt_cons, modifyAttrs, children_mk]

theorem nodeAt_of_entryAt {file node : SystemFile} {path : List String} (h : entryAt file path = some node) :
    nodeAt file path = some node := by
  induction path generalizing file with
  | nil => exact h
  | cons n path ih =>
    rw [entryAt] at h
    rw [nodeAt_cons]
    cases hchild : childNamed file.children n with
    | none =>
      rw [hchild] at h
      cases h
    | some child =>
      rw [hchild] at h
      dsimp only at h
      split_ifs at h
      exact ih h

theorem WellFormed.entryAt {file node : SystemFile} (hwell : WellFormed file) {path : List String}
    (h : SystemFile.nodeAt file path = some node) : SystemFile.entryAt file path = some node := by
  induction path generalizing file with
  | nil => exact h
  | cons n path ih =>
    rw [nodeAt_cons] at h
    obtain ⟨child, hchild, hbelow⟩ := Option.bind_eq_some_iff.1 h
    rw [SystemFile.entryAt, hchild]
    dsimp only
    rw [if_pos (hwell.isDir hchild)]
    exact ih (hwell.child hchild) hbelow

end SystemFile

namespace Builder

open SystemFile Lib

/-! ## What is kept of final structure -/

theorem retainedFinalChildren_eq (cs remotes : List SystemFile) :
    retainedFinalChildren cs remotes = cs.filterMap fun c => finalSplitRootStructure c (childNamed remotes c.name) := by
  induction cs with
  | nil => rw [retainedFinalChildren, List.filterMap_nil]
  | cons c cs ih =>
    rw [retainedFinalChildren, List.filterMap_cons, ih]
    cases finalSplitRootStructure c (childNamed remotes c.name) <;> rfl

/-- A node of it is a leaf of final identity, or a directory with what is kept of its children. -/
theorem finalSplitRootStructure_cases {file kept : SystemFile} {remote : Option SystemFile}
    (h : finalSplitRootStructure file remote = some kept) : ∃ theirs, remote = some theirs ∧ file.isDir = theirs.isDir ∧
      ((file.isDir = false ∧ kept = file) ∨
        (file.isDir = true ∧ kept =
          cloneSystemFile file (some (retainedFinalChildren file.children theirs.children)) (some false))) := by
  obtain ⟨a, cs⟩ := file
  cases remote with
  | none =>
    rw [finalSplitRootStructure] at h
    cases h
  | some theirs =>
    rw [finalSplitRootStructure] at h
    dsimp only at h
    split_ifs at h with hkind hleaf _ hempty
    · exact ⟨theirs, rfl, not_not.1 hkind, Or.inl ⟨by simpa using hleaf, (Option.some.inj h).symm⟩⟩
    · exact ⟨theirs, rfl, not_not.1 hkind, Or.inr ⟨by simpa using hleaf, (Option.some.inj h).symm⟩⟩

theorem finalSplitRootStructure_name {file kept : SystemFile} {remote : Option SystemFile}
    (h : finalSplitRootStructure file remote = some kept) : kept.name = file.name := by
  obtain ⟨theirs, -, -, ⟨-, rfl⟩ | ⟨-, rfl⟩⟩ := finalSplitRootStructure_cases h
  · rfl
  · rfl

theorem finalSplitRootStructure_leaf {file theirs : SystemFile} (hfile : file.isDir = false)
    (h : leafMatchesRemoteQueueExclusionIdentity theirs file = true) :
    finalSplitRootStructure file (some theirs) = some file := by
  obtain ⟨a, cs⟩ := file
  have htheirs : theirs.isDir = false := by
    unfold leafMatchesRemoteQueueExclusionIdentity at h
    simp only [Bool.and_eq_true] at h
    simpa using h.1.1.1.1
  rw [isDir_mk] at hfile
  rw [finalSplitRootStructure, hfile, htheirs, if_neg (by simp), if_pos (by simp), if_pos h]

/-- Every file of it stands at the same path of the tree. -/
theorem finalSplitRootStructure_file {path : List String} {file kept found : SystemFile} {remote : Option SystemFile}
    (hwell : WellFormed file) (h : finalSplitRootStructure file remote = some kept) (hfound : nodeAt kept path = some found)
    (hleaf : found.isDir = false) : nodeAt file path = some found := by
  induction path generalizing file kept remote with
  | nil =>
    obtain rfl : kept = found := Option.some.inj hfound
    obtain ⟨theirs, -, -, ⟨-, rfl⟩ | ⟨hdir, rfl⟩⟩ := finalSplitRootStructure_cases h
    · rfl
    · rw [show (cloneSystemFile file _ (some false)).isDir = file.isDir from rfl, hdir] at hleaf
      cases hleaf
  | cons n path ih =>
    obtain ⟨theirs, -, -, ⟨-, rfl⟩ | ⟨hdir, rfl⟩⟩ := finalSplitRootStructure_cases h
    · exact hfound
    · rw [nodeAt_cons, show (cloneSystemFile file (some (retainedFinalChildren file.children theirs.children))
        (some false)).children = retainedFinalChildren file.children theirs.children from rfl, retainedFinalChildren_eq,
        childNamed_filterMap (fun c d hd => finalSplitRootStructure_name hd) hwell.names] at hfound
      obtain ⟨left, hleft, hbelow⟩ := Option.bind_eq_some_iff.1 hfound
      obtain ⟨child, hchild, hkept⟩ := Option.bind_eq_some_iff.1 hleft
      rw [nodeAt_cons, hchild]
      exact ih (hwell.child hchild) hkept hbelow

/-! ## The merge, case by case -/

theorem merge_conflict {file active : SystemFile} (h : file.isDir ≠ active.isDir) (remote : Option SystemFile) :
    mergeActiveSplitRoot file active remote =
      (if remote.any (fun r => r.isDir = file.isDir) then file else active).modifyAttrs
        fun x => { x with hasStagingCollision := true } := by
  obtain ⟨a, cs⟩ := file
  rw [isDir_mk] at h
  rw [mergeActiveSplitRoot.eq_def]
  dsimp only
  rw [if_pos h]
  rfl

theorem merge_final {file active theirs : SystemFile} (hfile : file.isDir = false) (hactive : active.isDir = false)
    (hstaging : file.isStaging = false) (h : leafMatchesRemoteIdentity theirs file = true) :
    mergeActiveSplitRoot file active (some theirs) = file.modifyAttrs fun x =>
      { markStagingOrigin active x with hasStagingCollision := !leafMatchesRemoteIdentity theirs active } := by
  obtain ⟨a, cs⟩ := file
  rw [isDir_mk] at hfile
  have hown : a.isStaging = false := hstaging
  rw [mergeActiveSplitRoot.eq_def]
  dsimp only
  rw [if_neg (by rw [hfile, hactive]; simp), if_neg (by simp [hfile]), if_pos (by simp [hown, h])]
  rfl

/-- Two files: one of them, with other marks. -/
theorem merge_files {file active : SystemFile} (hfile : file.isDir = false) (hactive : active.isDir = false)
    (remote : Option SystemFile) : ∃ source, (source = file ∨ source = active) ∧
      (mergeActiveSplitRoot file active remote).children = source.children ∧
      (mergeActiveSplitRoot file active remote).isDir = false ∧
      (mergeActiveSplitRoot file active remote).size = source.size := by
  obtain ⟨a, cs⟩ := file
  rw [isDir_mk] at hfile
  rw [mergeActiveSplitRoot.eq_def]
  dsimp only
  rw [if_neg (by rw [hfile, hactive]; simp), if_neg (by simp [hfile])]
  by_cases h : (!a.isStaging && remote.any fun r => leafMatchesRemoteIdentity r (mk a cs)) = true
  · rw [if_pos h]
    refine ⟨mk a cs, Or.inl rfl, rfl, ?_, ?_⟩
    · unfold modifyAttrs isDir markStagingOrigin
      split_ifs <;> exact hfile
    · unfold modifyAttrs SystemFile.size markStagingOrigin
      split_ifs <;> rfl
  · rw [if_neg h]
    exact ⟨active, Or.inr rfl, rfl, hactive, rfl⟩

/-- What becomes of an existing child. -/
def mergedChild (actives : Dict String SystemFile) (remotes : List SystemFile) (c : SystemFile) : Option SystemFile :=
  match actives.get c.name with
  | none => finalSplitRootStructure c (childNamed remotes c.name)
  | some active => some (mergeActiveSplitRoot c active (childNamed remotes c.name))

/-- The children of the merge of two directories, before they are sorted. -/
def mergedChildren (file active : SystemFile) (remotes : List SystemFile) : List SystemFile :=
  let merge := mergeSplitChildren file.children (namedChildren active.children) remotes
  merge.1 ++ merge.2.items.map Prod.snd

def remoteChildren (remote : Option SystemFile) : List SystemFile :=
  match remote with
  | some r => if r.isDir then r.children else []
  | none => []

theorem merge_dirs {file active : SystemFile} (hfile : file.isDir = true) (hactive : active.isDir = true)
    (remote : Option SystemFile) : mergeActiveSplitRoot file active remote =
      (cloneSystemFile file
        (some ((mergedChildren file active (remoteChildren remote)).insertionSort fun x y => x.name ≤ y.name))
        (some (file.isStaging && active.isStaging))).modifyAttrs fun x =>
          { markStagingOrigin active x with
            hasStagingCollision := file.hasStagingCollision || active.hasStagingCollision } := by
  obtain ⟨a, cs⟩ := file
  rw [isDir_mk] at hfile
  rw [mergeActiveSplitRoot.eq_def]
  dsimp only
  rw [if_neg (by rw [hfile, hactive]; simp), if_pos hfile]
  rfl

theorem merge_dirs_attrs {file active : SystemFile} (hfile : file.isDir = true) (hactive : active.isDir = true)
    (remote : Option SystemFile) :
    (mergeActiveSplitRoot file active remote).isDir = true ∧
      (mergeActiveSplitRoot file active remote).children =
        (mergedChildren file active (remoteChildren remote)).insertionSort (fun x y => x.name ≤ y.name) ∧
      (mergeActiveSplitRoot file active remote).size =
        ((mergeActiveSplitRoot file active remote).children.map SystemFile.size).sum := by
  rw [merge_dirs hfile hactive]
  refine ⟨?_, rfl, ?_⟩
  · unfold modifyAttrs isDir markStagingOrigin
    split_ifs <;> exact hfile
  · unfold modifyAttrs SystemFile.size markStagingOrigin
    split_ifs <;> rfl

/-! ## The children of the merge -/

theorem namedChildren_get {cs : List SystemFile} (n : String) : (namedChildren cs).get n = childNamed cs n := by
  unfold namedChildren
  induction cs using List.reverseRecOn with
  | nil => rfl
  | append_singleton cs c ih =>
    rw [List.foldl_append, List.foldl_cons, List.foldl_nil, Dict.get_set, ih, childNamed_append, childNamed, childNamed]
    by_cases hname : c.name = n
    · simp [hname]
    · simp [hname]

theorem mergedChild_name {actives : Dict String SystemFile} {remotes : List SystemFile}
    (hactives : ∀ n f, actives.get n = some f → f.name = n) {c d : SystemFile} (h : mergedChild actives remotes c = some d) :
    d.name = c.name := by
  unfold mergedChild at h
  cases hactive : actives.get c.name with
  | none =>
    rw [hactive] at h
    exact finalSplitRootStructure_name h
  | some active =>
    rw [hactive] at h
    obtain rfl := Option.some.inj h
    rcases mergeActiveSplitRoot_name c active (childNamed remotes c.name) with ⟨hname, -⟩ | ⟨hname, -⟩
    · exact hname
    · rw [hname, hactives _ _ hactive]

theorem mergeSplitChildren_eq {cs : List SystemFile} (h : (cs.map name).Nodup) (actives : Dict String SystemFile)
    (remotes : List SystemFile) :
    (mergeSplitChildren cs actives remotes).1 = cs.filterMap (mergedChild actives remotes) ∧
      ∀ n, (mergeSplitChildren cs actives remotes).2.get n = if n ∈ cs.map name then none else actives.get n := by
  induction cs generalizing actives with
  | nil => exact ⟨by rw [mergeSplitChildren]; rfl, fun n => by rw [mergeSplitChildren]; simp⟩
  | cons c cs ih =>
    rw [List.map_cons, List.nodup_cons] at h
    rw [mergeSplitChildren, List.filterMap_cons]
    cases hactive : actives.get c.name with
    | none =>
      obtain ⟨hmerged, hrest⟩ := ih h.2 actives
      have hown : mergedChild actives remotes c = finalSplitRootStructure c (childNamed remotes c.name) := by
        unfold mergedChild
        rw [hactive]
      have hleft : ∀ n, (mergeSplitChildren cs actives remotes).2.get n =
          if n ∈ (c :: cs).map name then none else actives.get n := by
        intro n
        rw [hrest]
        by_cases hn : n = c.name
        · subst hn
          simp [hactive]
        · simp [hn]
      dsimp only
      rw [hown]
      cases finalSplitRootStructure c (childNamed remotes c.name) with
      | none => exact ⟨hmerged, hleft⟩
      | some kept => exact ⟨by rw [hmerged], hleft⟩
    | some active =>
      obtain ⟨hmerged, hrest⟩ := ih h.2 (actives.pop c.name)
      have hown : mergedChild actives remotes c = some (mergeActiveSplitRoot c active (childNamed remotes c.name)) := by
        unfold mergedChild
        rw [hactive]
      have hlater : cs.filterMap (mergedChild (actives.pop c.name) remotes) = cs.filterMap (mergedChild actives remotes) := by
        refine List.filterMap_congr fun d hd => ?_
        have hne : c.name ≠ d.name := fun heq => h.1 (heq ▸ List.mem_map_of_mem hd)
        unfold mergedChild
        rw [Dict.get_pop_ne _ hne]
      dsimp only
      rw [hown, hmerged, hlater]
      refine ⟨rfl, fun n => ?_⟩
      rw [hrest, Dict.get_pop]
      by_cases hn : c.name = n
      · simp [hn]
      · simp [hn, Ne.symm hn]

/-- The values of a dict by name are named as its keys. -/
theorem values_names {d : Dict String SystemFile} (h : ∀ n f, d.get n = some f → f.name = n) :
    (d.items.map Prod.snd).map name = d.items.map Prod.fst := by
  rw [List.map_map]
  exact List.map_congr_left fun item hitem => h item.1 item.2 ((Dict.get_eq_some _ _ _).2 hitem)

theorem childNamed_values {d : Dict String SystemFile} (h : ∀ n f, d.get n = some f → f.name = n) (n : String) :
    childNamed (d.items.map Prod.snd) n = d.get n := by
  have hnodup : ((d.items.map Prod.snd).map name).Nodup := values_names h ▸ d.nodup
  ext f
  rw [childNamed_eq_some hnodup, Dict.get_eq_some]
  constructor
  · rintro ⟨hmem, rfl⟩
    obtain ⟨⟨k, g⟩, hitem, rfl⟩ := List.mem_map.1 hmem
    rwa [h k g ((Dict.get_eq_some _ _ _).2 hitem)]
  · intro hitem
    exact ⟨List.mem_map.2 ⟨(n, f), hitem, rfl⟩, h n f ((Dict.get_eq_some _ _ _).2 hitem)⟩

theorem mergedChildren_spec {file active : SystemFile} (hfile : (file.children.map name).Nodup) (remotes : List SystemFile) :
    ((mergedChildren file active remotes).map name).Nodup ∧
      ∀ n, childNamed (mergedChildren file active remotes) n =
        match childNamed file.children n with
        | some c => mergedChild (namedChildren active.children) remotes c
        | none => childNamed active.children n := by
  have hnamed : ∀ n f, (namedChildren active.children).get n = some f → f.name = n := fun n f hf => by
    rw [namedChildren_get] at hf
    exact (childNamed_mem hf).2
  obtain ⟨hmerged, hrest⟩ := mergeSplitChildren_eq hfile (namedChildren active.children) remotes
  have hleft : ∀ n f, (mergeSplitChildren file.children (namedChildren active.children) remotes).2.get n = some f →
      f.name = n ∧ n ∉ file.children.map name := by
    intro n f hf
    rw [hrest] at hf
    split_ifs at hf with hmem
    exact ⟨hnamed n f hf, hmem⟩
  have hkeyed := fun n f hf => (hleft n f hf).1
  have hgood : ∀ c d, mergedChild (namedChildren active.children) remotes c = some d → d.name = c.name :=
    fun c d hd => mergedChild_name hnamed hd
  unfold mergedChildren
  dsimp only
  constructor
  · rw [List.map_append, values_names hkeyed, List.nodup_append, hmerged]
    refine ⟨hfile.sublist (filterMap_names hgood _), Dict.nodup _, fun n hn m hm hnm => ?_⟩
    subst hnm
    obtain ⟨item, hitem, rfl⟩ := List.mem_map.1 hm
    exact (hleft item.1 item.2 ((Dict.get_eq_some _ _ _).2 hitem)).2 ((filterMap_names hgood _).subset hn)
  · intro n
    rw [childNamed_append, childNamed_values hkeyed, hmerged, childNamed_filterMap hgood hfile, hrest, namedChildren_get]
    cases hchild : childNamed file.children n with
    | none =>
      have hnot : n ∉ file.children.map name := by
        intro hmem
        obtain ⟨c, hc, hname⟩ := List.mem_map.1 hmem
        exact childNamed_none_iff.1 hchild c hc hname
      rw [if_neg hnot, Option.bind_none, Option.or_none]
    | some c =>
      have hmem := (childNamed_mem hchild).2 ▸ @List.mem_map_of_mem _ _ _ _ name (childNamed_mem hchild).1
      rw [if_pos hmem, Option.none_or, Option.bind_some]

/-! ## The nodes of the merge -/

/-- What stands under a name in the merge of two directories. -/
def mergedAt (file active : SystemFile) (remotes : List SystemFile) (n : String) : Option SystemFile :=
  match childNamed file.children n, childNamed active.children n with
  | some c, some a => some (mergeActiveSplitRoot c a (childNamed remotes n))
  | some c, none => finalSplitRootStructure c (childNamed remotes n)
  | none, a => a

theorem childNamed_merge {file active : SystemFile} (hwell : WellFormed file) (hfile : file.isDir = true)
    (hactive : active.isDir = true) (remote : Option SystemFile) (n : String) :
    childNamed (mergeActiveSplitRoot file active remote).children n = mergedAt file active (remoteChildren remote) n := by
  obtain ⟨-, hchildren, -⟩ := merge_dirs_attrs hfile hactive remote
  obtain ⟨hnodup, hspec⟩ := @mergedChildren_spec file active hwell.names (remoteChildren remote)
  rw [hchildren, ← childNamed_perm (List.perm_insertionSort _ _).symm hnodup, hspec]
  unfold mergedAt
  cases hchild : childNamed file.children n with
  | none => rfl
  | some c =>
    have hname := (childNamed_mem hchild).2
    dsimp only
    unfold mergedChild
    rw [namedChildren_get, hname]
    cases childNamed active.children n <;> rfl

theorem remoteChildren_eq {remote : SystemFile} (h : WellFormed remote) : remoteChildren (some remote) = remote.children := by
  unfold remoteChildren
  dsimp only
  split_ifs with hdir
  · rfl
  · exact (h.leaf (by simpa using hdir)).symm

/-- The merge of two shapes is one of them; nothing below is changed. -/
theorem merge_conflict_source {file active : SystemFile} (h : file.isDir ≠ active.isDir) (remote : Option SystemFile) :
    ∃ source, (source = file ∨ source = active) ∧ (mergeActiveSplitRoot file active remote).children = source.children ∧
      (mergeActiveSplitRoot file active remote).isDir = source.isDir ∧
      (mergeActiveSplitRoot file active remote).size = source.size ∧
      (mergeActiveSplitRoot file active remote).hasStagingCollision = true := by
  rw [merge_conflict h]
  split_ifs
  · exact ⟨file, Or.inl rfl, rfl, rfl, rfl, rfl⟩
  · exact ⟨active, Or.inr rfl, rfl, rfl, rfl, rfl⟩

/-- A file of the merge comes from one of the trees, with its size there. -/
theorem merge_file {path : List String} {file active found : SystemFile} {remote : Option SystemFile} (hwell : WellFormed file)
    (hactive : WellFormed active) (hfound : nodeAt (mergeActiveSplitRoot file active remote) path = some found)
    (hleaf : found.isDir = false) :
    ∃ source, (nodeAt file path = some source ∨ nodeAt active path = some source) ∧ source.isDir = false ∧
      source.size = found.size := by
  -- A tree whose children and shape the merge has.
  have hsame : ∀ source, (source = file ∨ source = active) →
      (mergeActiveSplitRoot file active remote).children = source.children →
      (mergeActiveSplitRoot file active remote).isDir = source.isDir →
      (mergeActiveSplitRoot file active remote).size = source.size →
      ∃ source, (nodeAt file path = some source ∨ nodeAt active path = some source) ∧ source.isDir = false ∧
        source.size = found.size := by
    intro source hsource hchildren hdir hsize
    cases path with
    | nil =>
      obtain rfl := Option.some.inj hfound
      refine ⟨source, ?_, hdir ▸ hleaf, hsize.symm⟩
      exact hsource.imp (fun h => congrArg some h.symm) fun h => congrArg some h.symm
    | cons n path =>
      rw [nodeAt_cons, hchildren, ← nodeAt_cons] at hfound
      refine ⟨found, ?_, hleaf, rfl⟩
      rcases hsource with rfl | rfl
      · exact Or.inl hfound
      · exact Or.inr hfound
  by_cases hkind : file.isDir = active.isDir
  swap
  · obtain ⟨source, hsource, hchildren, hdir, hsize, -⟩ := merge_conflict_source hkind remote
    exact hsame source hsource hchildren hdir hsize
  cases hdir : file.isDir with
  | false =>
    obtain ⟨source, hsource, hchildren, hshape, hsize⟩ := merge_files hdir (hkind ▸ hdir) remote
    refine hsame source hsource hchildren (hshape.trans ?_) hsize
    rcases hsource with rfl | rfl
    · exact hdir.symm
    · exact (hkind ▸ hdir).symm
  | true =>
    have hactiveDir : active.isDir = true := hkind ▸ hdir
    cases path with
    | nil =>
      obtain rfl := Option.some.inj hfound
      rw [(merge_dirs_attrs hdir hactiveDir remote).1] at hleaf
      cases hleaf
    | cons n path =>
      rw [nodeAt_cons, childNamed_merge hwell hdir hactiveDir] at hfound
      obtain ⟨left, hleft, hbelow⟩ := Option.bind_eq_some_iff.1 hfound
      unfold mergedAt at hleft
      cases hmine : childNamed file.children n with
      | none =>
        rw [hmine] at hleft
        refine ⟨found, Or.inr ?_, hleaf, rfl⟩
        rw [nodeAt_cons, show childNamed active.children n = some left from hleft]
        exact hbelow
      | some c =>
        rw [hmine] at hleft
        cases htheirs : childNamed active.children n with
        | none =>
          rw [htheirs] at hleft
          refine ⟨found, Or.inl ?_, hleaf, rfl⟩
          rw [nodeAt_cons, hmine]
          exact finalSplitRootStructure_file (hwell.child hmine) hleft hbelow hleaf
        | some a =>
          rw [htheirs] at hleft
          obtain rfl := Option.some.inj hleft
          rw [nodeAt_cons, nodeAt_cons, hmine, htheirs, Option.bind_some, Option.bind_some]
          exact merge_file (hwell.child hmine) (hactive.child htheirs) hbelow hleaf

/-- Where both trees have a directory, the merge has one, summed and sorted. -/
theorem merge_directory {path : List String} {file active mine theirs : SystemFile} {remote : Option SystemFile}
    (hwell : WellFormed file) (hactive : WellFormed active) (hmine : nodeAt file path = some mine)
    (htheirs : nodeAt active path = some theirs) (hdir : mine.isDir = true) (hdir' : theirs.isDir = true) :
    ∃ merged, nodeAt (mergeActiveSplitRoot file active remote) path = some merged ∧ merged.isDir = true ∧
      merged.size = (merged.children.map SystemFile.size).sum ∧ (merged.children.map name).Pairwise (· < ·) := by
  induction path generalizing file active remote with
  | nil =>
    obtain rfl := Option.some.inj hmine
    obtain rfl := Option.some.inj htheirs
    obtain ⟨hshape, hchildren, hsize⟩ := merge_dirs_attrs hdir hdir' remote
    refine ⟨_, rfl, hshape, hsize, ?_⟩
    have hnodup := (@mergedChildren_spec file active hwell.names (remoteChildren remote)).1
    have hperm := (List.perm_insertionSort (fun x y : SystemFile => x.name ≤ y.name)
      (mergedChildren file active (remoteChildren remote))).map name
    have hsorted : ((mergedChildren file active (remoteChildren remote)).insertionSort fun x y => x.name ≤ y.name).Pairwise
        fun x y => x.name ≤ y.name := by
      have : Std.Total fun x y : SystemFile => x.name ≤ y.name := ⟨fun x y => le_total x.name y.name⟩
      have : IsTrans SystemFile fun x y => x.name ≤ y.name := ⟨fun _ _ _ => le_trans⟩
      exact List.pairwise_insertionSort _ _
    have hboth := (List.pairwise_map.2 hsorted).and (hperm.nodup_iff.2 hnodup)
    rw [hchildren]
    exact hboth.imp fun h => lt_of_le_of_ne h.1 h.2
  | cons n path ih =>
    rw [nodeAt_cons] at hmine htheirs
    obtain ⟨c, hc, hbelow⟩ := Option.bind_eq_some_iff.1 hmine
    obtain ⟨a, ha, hbelow'⟩ := Option.bind_eq_some_iff.1 htheirs
    rw [nodeAt_cons, childNamed_merge hwell (hwell.isDir hc) (hactive.isDir ha)]
    unfold mergedAt
    rw [hc, ha]
    exact ih (hwell.child hc) (hactive.child ha) hbelow hbelow'

/-- A final leaf of exact identity stays, marked when the active node at its path is another. -/
theorem merge_keeps_final {path : List String} {file active mine theirs : SystemFile} {remote : SystemFile}
    (hwell : WellFormed file) (hactive : WellFormed active) (hremote : WellFormed remote)
    (hmine : nodeAt file path = some mine) (htheirs : nodeAt remote path = some theirs) (hfinal : mine.isStaging = false)
    (hidentity : leafMatchesRemoteIdentity theirs mine = true)
    (habove : ∀ above, above <+: path → above ≠ path → ∃ dir, nodeAt active above = some dir ∧ dir.isDir = true)
    (hclear : mine.hasStagingCollision = false ∨ nodeAt active path ≠ none) :
    ∃ kept, nodeAt (mergeActiveSplitRoot file active (some remote)) path = some kept ∧ kept.isDir = false ∧
      kept.isStaging = false ∧ kept.size = mine.size ∧
      (kept.hasStagingCollision = true ↔
        ∃ other, nodeAt active path = some other ∧ leafMatchesRemoteIdentity theirs other = false) := by
  induction path generalizing file active remote with
  | nil =>
    obtain rfl := Option.some.inj hmine
    obtain rfl := Option.some.inj htheirs
    have hleaf : file.isDir = false ∧ remote.isDir = false := by
      unfold leafMatchesRemoteIdentity at hidentity
      simp only [Bool.and_eq_true, Bool.not_eq_true'] at hidentity
      exact ⟨hidentity.1.1.1.2, hidentity.1.1.1.1⟩
    refine ⟨_, rfl, ?_⟩
    cases hdir : active.isDir with
    | true =>
      have hother : leafMatchesRemoteIdentity remote active = false := by
        unfold leafMatchesRemoteIdentity
        simp [hdir]
      rw [merge_conflict (by rw [hleaf.1, hdir]; simp), if_pos (by simp [hleaf.1, hleaf.2])]
      exact ⟨hleaf.1, hfinal, rfl, fun _ => ⟨active, rfl, hother⟩, fun _ => rfl⟩
    | false =>
      rw [merge_final hleaf.1 hdir hfinal hidentity]
      have hattrs : ∀ b : Bool, ((file.modifyAttrs fun x => { markStagingOrigin active x with hasStagingCollision := b }).isDir =
          file.isDir) ∧ ((file.modifyAttrs fun x => { markStagingOrigin active x with hasStagingCollision := b }).isStaging =
          file.isStaging) ∧ ((file.modifyAttrs fun x => { markStagingOrigin active x with hasStagingCollision := b }).size =
          file.size) := by
        intro b
        unfold modifyAttrs isDir SystemFile.isStaging SystemFile.size markStagingOrigin
        split_ifs <;> exact ⟨rfl, rfl, rfl⟩
      obtain ⟨hkind, hstaging, hsize⟩ := hattrs (!leafMatchesRemoteIdentity remote active)
      refine ⟨hkind.trans hleaf.1, hstaging.trans hfinal, hsize, ?_⟩
      change (!leafMatchesRemoteIdentity remote active) = true ↔ _
      simp [nodeAt]
  | cons n path ih =>
    rw [nodeAt_cons] at hmine htheirs
    obtain ⟨c, hc, hbelow⟩ := Option.bind_eq_some_iff.1 hmine
    obtain ⟨r, hr, hbelow'⟩ := Option.bind_eq_some_iff.1 htheirs
    obtain ⟨dir, hdir, hactiveDir⟩ := habove [] (List.nil_prefix) (List.cons_ne_nil n path).symm
    obtain rfl : active = dir := Option.some.inj hdir
    rw [nodeAt_cons, childNamed_merge hwell (hwell.isDir hc) hactiveDir, remoteChildren_eq hremote]
    unfold mergedAt
    rw [hc, hr]
    cases ha : childNamed active.children n with
    | some a =>
      have hnode : ∀ rest, nodeAt active (n :: rest) = nodeAt a rest := fun rest => by
        rw [nodeAt_cons, ha, Option.bind_some]
      rw [hnode] at hclear ⊢
      refine ih (hwell.child hc) (hactive.child ha) (hremote.child hr) hbelow hbelow' (fun above hpre hne => ?_) hclear
      rw [← hnode]
      exact habove (n :: above) (List.cons_prefix_cons.2 ⟨rfl, hpre⟩) fun heq => hne (List.cons.inj heq).2
    | none =>
      have hgone : nodeAt active (n :: path) = none := by rw [nodeAt_cons, ha, Option.bind_none]
      -- The directories above are there, so the path ends here.
      have hlast : path = [] := by
        by_contra hne
        obtain ⟨dir, hdir, -⟩ := habove [n] (List.cons_prefix_cons.2 ⟨rfl, List.nil_prefix⟩)
          fun heq => hne (List.cons.inj heq).2.symm
        rw [nodeAt_cons, ha] at hdir
        cases hdir
      subst hlast
      obtain rfl := Option.some.inj hbelow
      obtain rfl := Option.some.inj hbelow'
      have hcollision := hclear.resolve_right (not_not.2 hgone)
      have hqueue : c.isDir = false ∧ leafMatchesRemoteQueueExclusionIdentity r c = true := by
        unfold leafMatchesRemoteIdentity at hidentity
        simp only [Bool.and_eq_true, Bool.not_eq_true', beq_iff_eq] at hidentity
        obtain ⟨⟨⟨⟨hr, hc⟩, hsize⟩, hmtime⟩, hsame⟩ := hidentity
        obtain ⟨t, ht⟩ := Option.isSome_iff_exists.1 hmtime
        refine ⟨hc, ?_⟩
        unfold leafMatchesRemoteQueueExclusionIdentity isAuthoritativeLocalFile
        rw [← hsame, ht]
        simp [hr, hc, hsize, hfinal, hcollision]
      dsimp only
      rw [finalSplitRootStructure_leaf hqueue.1 hqueue.2, hgone]
      refine ⟨c, rfl, hqueue.1, hfinal, rfl, ?_⟩
      simp [hcollision]

/-- A completion that the merge proves is one of the two trees, leaf by leaf, or the staged total of an empty root. -/
theorem merge_completion {file active remote : SystemFile} (hwell : WellFormed file) (hactive : WellFormed active)
    (hremote : WellFormed remote)
    (h : effectiveLocalTreeProvesCompletion (some remote) (some (mergeActiveSplitRoot file active (some remote))) = true) :
    (∀ path leaf, nodeAt remote path = some leaf → leaf.isDir = false →
      ∃ source, (nodeAt file path = some source ∨ nodeAt active path = some source) ∧ source.isDir = false ∧
        leaf.size ≤ source.size) ∨
      (StagedTotal remote (mergeActiveSplitRoot file active (some remote)) ∧ remote.size = 0) := by
  obtain ⟨mine, heq, hcovers | htotal⟩ := effectiveLocalTreeProvesCompletion_spec h
  · obtain rfl := Option.some.inj heq
    refine Or.inl fun path leaf hleaf hfile => ?_
    obtain ⟨copy, hcopy, hcopyFile, hsize⟩ := hcovers.leaves path leaf (hremote.entryAt hleaf) hfile
    obtain ⟨source, hsource, hsourceFile, hsourceSize⟩ := merge_file hwell hactive (nodeAt_of_entryAt hcopy) hcopyFile
    exact ⟨source, hsource, hsourceFile, hsourceSize ▸ hsize⟩
  · obtain rfl := Option.some.inj heq
    refine Or.inr ⟨htotal, ?_⟩
    have hcollision : (mergeActiveSplitRoot file active (some remote)).hasStagingCollision = false := by
      simp only [effectiveLocalTreeProvesCompletion] at h
      split_ifs at h with _ hcollision <;> simpa using hcollision
    have hkind : file.isDir = active.isDir := by
      by_contra hne
      obtain ⟨-, -, -, -, -, hmarked⟩ := merge_conflict_source hne (some remote)
      rw [hmarked] at hcollision
      cases hcollision
    cases hdir : file.isDir with
    | false =>
      obtain ⟨-, -, -, hshape, -⟩ := merge_files hdir (hkind ▸ hdir) (some remote)
      rw [htotal.isDir] at hshape
      cases hshape
    | true =>
      obtain ⟨-, -, hsize⟩ := merge_dirs_attrs hdir (hkind ▸ hdir) (some remote)
      rw [htotal.unscanned] at hsize
      have hle := htotal.size
      rw [hsize] at hle
      simpa using hle

/-- Final leaves are kept, files are those of the trees, and completeness is not invented. -/
theorem split_root_merge {existing active remote : SystemFile} (hexisting : WellFormed existing) (hactive : WellFormed active)
    (hremote : WellFormed remote) :
    (∀ path mine theirs, nodeAt existing path = some mine → nodeAt remote path = some theirs → mine.isStaging = false →
      leafMatchesRemoteIdentity theirs mine = true →
      (∀ above, above <+: path → above ≠ path → ∃ dir, nodeAt active above = some dir ∧ dir.isDir = true) →
      (mine.hasStagingCollision = false ∨ nodeAt active path ≠ none) →
      ∃ kept, nodeAt (mergeActiveSplitRoot existing active (some remote)) path = some kept ∧ kept.isDir = false ∧
        kept.isStaging = false ∧ kept.size = mine.size ∧
        (kept.hasStagingCollision = true ↔
          ∃ other, nodeAt active path = some other ∧ leafMatchesRemoteIdentity theirs other = false)) ∧
    (∀ path found, nodeAt (mergeActiveSplitRoot existing active (some remote)) path = some found → found.isDir = false →
      ∃ source, (nodeAt existing path = some source ∨ nodeAt active path = some source) ∧ source.isDir = false ∧
        source.size = found.size) ∧
    (∀ path mine theirs, nodeAt existing path = some mine → nodeAt active path = some theirs → mine.isDir = true →
      theirs.isDir = true →
      ∃ merged, nodeAt (mergeActiveSplitRoot existing active (some remote)) path = some merged ∧ merged.isDir = true ∧
        merged.size = (merged.children.map SystemFile.size).sum ∧ (merged.children.map name).Pairwise (· < ·)) ∧
    (effectiveLocalTreeProvesCompletion (some remote) (some (mergeActiveSplitRoot existing active (some remote))) = true →
      (∀ path leaf, nodeAt remote path = some leaf → leaf.isDir = false →
        ∃ source, (nodeAt existing path = some source ∨ nodeAt active path = some source) ∧ source.isDir = false ∧
          leaf.size ≤ source.size) ∨
      (StagedTotal remote (mergeActiveSplitRoot existing active (some remote)) ∧ remote.size = 0)) :=
  ⟨fun _ _ _ hmine htheirs hfinal hidentity habove hclear =>
      merge_keeps_final hexisting hactive hremote hmine htheirs hfinal hidentity habove hclear,
    fun _ _ hfound hleaf => merge_file hexisting hactive hfound hleaf,
    fun _ _ _ hmine htheirs hdir hdir' => merge_directory hexisting hactive hmine htheirs hdir hdir',
    merge_completion hexisting hactive hremote⟩

/-! ### A leaf and an empty root -/

private def splitLeaf (collision : Bool) : SystemFile :=
  mk { name := "x", size := 1, mtimeNs := some 5, hasStagingCollision := collision } []

private def splitDir (staging : Bool) (leaves : List SystemFile) : SystemFile :=
  mk { name := "d", size := (leaves.map SystemFile.size).sum, isDir := true, isStaging := staging } leaves

private def emptyLeaf : SystemFile := mk { name := "x", size := 0, mtimeNs := some 5 } []

private theorem splitDir_wellFormed (staging : Bool) : WellFormed (splitDir staging []) :=
  .mk (by simp) (by simp) (by simp)

private theorem splitDir_leaf {leaf : SystemFile} (staging : Bool) (h : WellFormed leaf) : WellFormed (splitDir staging [leaf]) :=
  .mk (by simp) (by simp) (by simpa using h)

private theorem splitLeaf_wellFormed (collision : Bool) : WellFormed (splitLeaf collision) := .mk (by simp) (by simp) (by simp)

/-- The active tree has nothing at the leaf. -/
theorem finalLeaf_kept : ∃ kept,
    nodeAt (mergeActiveSplitRoot (splitDir false [splitLeaf false]) (splitDir true [])
      (some (splitDir false [splitLeaf false]))) ["x"] = some kept ∧ kept.size = 1 := by
  obtain ⟨hkeeps, -⟩ := split_root_merge (splitDir_leaf false (splitLeaf_wellFormed false)) (splitDir_wellFormed true)
    (splitDir_leaf false (splitLeaf_wellFormed false))
  obtain ⟨kept, hkept, -, -, hsize, -⟩ := hkeeps ["x"] (splitLeaf false) (splitLeaf false) rfl rfl rfl (by decide)
    (fun above hpre hne => by
      cases above with
      | nil => exact ⟨_, rfl, rfl⟩
      | cons n above =>
        obtain ⟨rfl, hrest⟩ := List.cons_prefix_cons.1 hpre
        exact absurd (by rw [List.prefix_nil.1 hrest]) hne)
    (Or.inl rfl)
  exact ⟨kept, hkept, hsize⟩

/-- A leaf that a scan marked ambiguous is dropped when the active tree has nothing there, and two
empty staging directories prove a root complete whose one leaf is empty and in neither of them. -/
theorem markedLeaf_dropped_emptyRoot_complete :
    (nodeAt (splitDir false [splitLeaf true]) ["x"] = some (splitLeaf true) ∧
      leafMatchesRemoteIdentity (splitLeaf false) (splitLeaf true) = true ∧ (splitLeaf true).isStaging = false ∧
      nodeAt (mergeActiveSplitRoot (splitDir false [splitLeaf true]) (splitDir true [])
        (some (splitDir false [splitLeaf false]))) ["x"] = none) ∧
    effectiveLocalTreeProvesCompletion (some (splitDir false [emptyLeaf]))
      (some (mergeActiveSplitRoot (splitDir true []) (splitDir true []) (some (splitDir false [emptyLeaf])))) = true ∧
    nodeAt (splitDir false [emptyLeaf]) ["x"] = some emptyLeaf ∧ nodeAt (splitDir true []) ["x"] = none := by
  decide +kernel

end Builder

end SeedSync
