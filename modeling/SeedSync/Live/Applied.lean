import SeedSync.Live.Diff
import SeedSync.Live.Idle
import SeedSync.Live.Names

/-!
# A difference applied

What the entries of `diff_models` make of the first model: in any order, and without an error,
the roots of the second, as far as equality tells two roots apart.
-/

namespace SeedSync.Live

open Lib

/-! ## Equality of trees -/

namespace FileTree

/-- Induction on a tree, with the hypothesis for every child. -/
theorem tree_induction {P : FileTree → Prop} (node : ∀ row cs, (∀ c ∈ cs, P c) → P (mk row cs)) (file : FileTree) :
    P file := by
  refine @FileTree.rec P (fun cs => ∀ c ∈ cs, P c) node (by simp) ?_ file
  intro c cs hc hcs d hd
  rcases List.mem_cons.mp hd with rfl | hd
  · exact hc
  · exact hcs d hd

/-- A later sibling of one name is the one that is found. -/
theorem childNamed_append (before : List FileTree) {after : List FileTree} {name : String} {found : FileTree}
    (h : childNamed after name = some found) : childNamed (before ++ after) name = some found := by
  induction before with
  | nil => exact h
  | cons child before ih => rw [List.cons_append, childNamed, ih]

theorem childNamed_self {children : List FileTree} {child : FileTree} (h : child ∈ children) :
    (childNamed children child.name).isSome := by
  induction children with
  | nil => cases h
  | cons first rest ih =>
    rw [childNamed]
    cases hrest : childNamed rest child.name with
    | some found => rfl
    | none =>
      rcases List.mem_cons.mp h with rfl | h
      · simp
      · have := ih h
        rw [hrest] at this
        cases this

end FileTree

/-- A comparison under which every row equals itself makes every tree equal itself. -/
theorem equalBy_self {same : Row → Row → Bool} (hsame : ∀ row, same row row = true) (file : FileTree) :
    equalBy same file file = true := by
  induction file using FileTree.tree_induction with
  | node row children ih =>
    have hchildren : ∀ before after, children = before ++ after → childrenEqualBy same after children = true := by
      intro before after
      induction after generalizing before with
      | nil => exact fun _ => by rw [childrenEqualBy]
      | cons child after ihafter =>
        intro hsplit
        rw [childrenEqualBy, Bool.and_eq_true]
        refine ⟨?_, ihafter (before ++ [child]) (by simpa using hsplit)⟩
        -- The last child of its name is compared with itself.
        cases hlater : FileTree.childNamed after child.name with
        | some later => rfl
        | none =>
          have hfound : FileTree.childNamed children child.name = some child := by
            rw [hsplit]
            refine FileTree.childNamed_append before ?_
            simp [FileTree.childNamed, hlater]
          simp [hfound, ih child (by simp [hsplit])]
    rw [equalBy, hsame, hchildren [] children rfl]
    simp only [beq_self_eq_true, Bool.and_self, Bool.and_true, Bool.true_and, List.all_eq_true]
    exact fun child hchild => FileTree.childNamed_self hchild

theorem RootFile.equals_self (forest : Forest) (file : RootFile) : file.equals forest file = true :=
  equalBy_self (fun row => by simp [sameComparisonAttributes]) _

theorem RootFile.alike_self (forest : Forest) (file : RootFile) : file.alike forest file = true :=
  equalBy_self (fun row => by simp [samePublishedAttributes, sameComparisonAttributes]) _

/-! ## The entries -/

/-- The id that an entry is about. -/
def ModelDiff.fileId : ModelDiff → String
  | added newFile => newFile.fileId
  | removed oldFile => oldFile.fileId
  | updated _ newFile => newFile.fileId

/-- `new_file` -/
def ModelDiff.newFile : ModelDiff → Option RootFile
  | added newFile => some newFile
  | removed _ => none
  | updated _ newFile => some newFile

theorem mem_getFileIds {m : Model} {fileId : String} : fileId ∈ m.getFileIds ↔ m.filesById.get fileId ≠ none :=
  Dict.mem_keys _ _

theorem mem_getFileIds_of_get {m : Model} {fileId : String} {file : RootFile} (h : m.filesById.get fileId = some file) :
    fileId ∈ m.getFileIds := by
  rw [mem_getFileIds, h]
  exact Option.some_ne_none file

/-- An id of the model is resolved to itself. -/
theorem getFile_of_mem {m : Model} {fileId : String} (h : fileId ∈ m.getFileIds) :
    m.getFile fileId = m.filesById.get fileId := by
  have hcontains : m.filesById.contains fileId = true := Option.isSome_iff_ne_none.mpr (mem_getFileIds.mp h)
  unfold Model.getFile resolveFileId
  rw [if_pos hcontains]
  rfl

theorem fileId_of_get {m : Model} {fileId : String} {file : RootFile} (h : m.filesById.get fileId = some file) :
    file.fileId = fileId := m.filesById.keyed fileId file h

/-- What the entries say of one id. -/
inductive Differs (forest : Forest) (before after : Option RootFile) : ModelDiff → Prop where
  | added {file : RootFile} (hbefore : before = none) (hafter : after = some file) : Differs forest before after (.added file)
  | removed {file : RootFile} (hbefore : before = some file) (hafter : after = none) :
    Differs forest before after (.removed file)
  | updated {old new : RootFile} (hbefore : before = some old) (hafter : after = some new)
    (hobject : old.object ≠ new.object) (hequals : old.equals forest new = false) :
    Differs forest before after (.updated old new)

variable {forest : Forest} {before after : Model}

theorem mem_updatedDiff {fileId : String} (hbefore : fileId ∈ before.getFileIds) (hafter : fileId ∈ after.getFileIds)
    {diff : ModelDiff} : diff ∈ updatedDiff forest before after fileId ↔
      ∃ old ∈ before.filesById.get fileId, ∃ new ∈ after.filesById.get fileId, old.object ≠ new.object ∧
        old.equals forest new = false ∧ diff = .updated old new := by
  obtain ⟨old, hold⟩ := Option.ne_none_iff_exists'.mp (mem_getFileIds.mp hbefore)
  obtain ⟨new, hnew⟩ := Option.ne_none_iff_exists'.mp (mem_getFileIds.mp hafter)
  unfold updatedDiff
  rw [getFile_of_mem hbefore, getFile_of_mem hafter, hold, hnew]
  simp only [Option.bind_eq_bind, Option.bind_some, Option.mem_def, Option.some.injEq, exists_eq_left']
  split_ifs with hobject hequals
  · simp [hobject]
  · simp [hequals]
  · simp [hobject, hequals, eq_comm]

/-- The entries are those of the ids on which the models differ. -/
theorem mem_diffModels {diff : ModelDiff} : diff ∈ diffModels forest before after ↔
    Differs forest (before.filesById.get diff.fileId) (after.filesById.get diff.fileId) diff := by
  unfold diffModels
  simp only [List.mem_append, List.mem_filterMap, List.mem_filter, decide_eq_true_eq]
  constructor
  · rintro ((⟨fileId, ⟨hafter, hbefore⟩, hdiff⟩ | ⟨fileId, ⟨hbefore, hafter⟩, hdiff⟩) | ⟨fileId, ⟨hbefore, hafter⟩, hdiff⟩)
    · rw [getFile_of_mem hafter] at hdiff
      obtain ⟨file, hfile, rfl⟩ := Option.map_eq_some_iff.mp hdiff
      rw [mem_getFileIds, not_not] at hbefore
      cases fileId_of_get hfile
      exact .added hbefore hfile
    · rw [getFile_of_mem hbefore] at hdiff
      obtain ⟨file, hfile, rfl⟩ := Option.map_eq_some_iff.mp hdiff
      rw [mem_getFileIds, not_not] at hafter
      cases fileId_of_get hfile
      exact .removed hfile hafter
    · obtain ⟨old, hold, new, hnew, hobject, hequals, rfl⟩ := (mem_updatedDiff hbefore hafter).mp hdiff
      cases fileId_of_get hnew
      exact .updated hold hnew hobject hequals
  · intro h
    cases h with
    | @added file hbefore hafter =>
      simp only [ModelDiff.fileId] at hbefore hafter
      have hmem := mem_getFileIds_of_get hafter
      refine Or.inl (Or.inl ⟨file.fileId, ⟨hmem, by rw [mem_getFileIds, not_not]; exact hbefore⟩, ?_⟩)
      rw [getFile_of_mem hmem]
      exact Option.map_eq_some_iff.mpr ⟨file, hafter, rfl⟩
    | @removed file hbefore hafter =>
      simp only [ModelDiff.fileId] at hbefore hafter
      have hmem := mem_getFileIds_of_get hbefore
      refine Or.inl (Or.inr ⟨file.fileId, ⟨hmem, by rw [mem_getFileIds, not_not]; exact hafter⟩, ?_⟩)
      rw [getFile_of_mem hmem]
      exact Option.map_eq_some_iff.mpr ⟨file, hbefore, rfl⟩
    | @updated old new hbefore hafter hobject hequals =>
      simp only [ModelDiff.fileId] at hbefore hafter
      have hleft := mem_getFileIds_of_get hbefore
      have hright := mem_getFileIds_of_get hafter
      refine Or.inr ⟨new.fileId, ⟨hleft, hright⟩, (mem_updatedDiff hleft hright).mpr ?_⟩
      exact ⟨old, hbefore, new, hafter, hobject, hequals, rfl⟩


/-- Entries that keep their ids are about a part of the ids that they come from. -/
theorem fileIds_filterMap {f : String → Option ModelDiff} (ids : List String)
    (h : ∀ fileId ∈ ids, ∀ diff ∈ f fileId, diff.fileId = fileId) :
    ((ids.filterMap f).map ModelDiff.fileId).Sublist ids := by
  induction ids with
  | nil => exact List.Sublist.refl _
  | cons fileId ids ih =>
    have ih := ih fun id hid => h id (List.mem_cons_of_mem _ hid)
    rw [List.filterMap_cons]
    cases hdiff : f fileId with
    | none => exact ih.cons _
    | some diff =>
      rw [List.map_cons, h fileId List.mem_cons_self diff hdiff]
      exact ih.cons_cons _

/-- No two entries are about one id. -/
theorem diffModels_nodup : ((diffModels forest before after).map ModelDiff.fileId).Nodup := by
  have hbefore : before.getFileIds.Nodup := before.filesById.dict.nodup
  have hafter : after.getFileIds.Nodup := after.filesById.dict.nodup
  have hadded := fileIds_filterMap (f := fun fileId => (after.getFile fileId).map .added)
    (after.getFileIds.filter fun fileId => decide (fileId ∉ before.getFileIds)) fun fileId hmem diff hdiff => by
      rw [getFile_of_mem (List.mem_of_mem_filter hmem)] at hdiff
      obtain ⟨file, hfile, rfl⟩ := Option.map_eq_some_iff.mp hdiff
      exact fileId_of_get hfile
  have hremoved := fileIds_filterMap (f := fun fileId => (before.getFile fileId).map .removed)
    (before.getFileIds.filter fun fileId => decide (fileId ∉ after.getFileIds)) fun fileId hmem diff hdiff => by
      rw [getFile_of_mem (List.mem_of_mem_filter hmem)] at hdiff
      obtain ⟨file, hfile, rfl⟩ := Option.map_eq_some_iff.mp hdiff
      exact fileId_of_get hfile
  have hupdated := fileIds_filterMap (f := updatedDiff forest before after)
    (before.getFileIds.filter fun fileId => decide (fileId ∈ after.getFileIds)) fun fileId hmem diff hdiff => by
      obtain ⟨hleft, hright⟩ := List.mem_filter.mp hmem
      obtain ⟨old, -, new, hnew, -, -, rfl⟩ := (mem_updatedDiff hleft (of_decide_eq_true hright)).mp hdiff
      exact fileId_of_get hnew
  unfold diffModels
  rw [List.map_append, List.map_append, List.nodup_append', List.nodup_append']
  refine ⟨⟨hadded.nodup (hafter.filter _), hremoved.nodup (hbefore.filter _), fun id hid hid' => ?_⟩,
    hupdated.nodup (hbefore.filter _), fun id hid hid' => ?_⟩
  · have hnot := (List.mem_filter.mp (hadded.subset hid)).2
    exact of_decide_eq_true hnot (List.mem_of_mem_filter (hremoved.subset hid'))
  · obtain ⟨hleft, hright⟩ := List.mem_filter.mp (hupdated.subset hid')
    rcases List.mem_append.mp hid with hid | hid
    · exact of_decide_eq_true (List.mem_filter.mp (hadded.subset hid)).2 hleft
    · exact of_decide_eq_true (List.mem_filter.mp (hremoved.subset hid)).2 (of_decide_eq_true hright)

/-! ## One entry -/

/-- The roots of an idle model, and those of them that are found under their names. -/
structure Holds (files : String → Option RootFile) (listed : String → Prop) (m : Model) : Prop where
  running : Running 0 {} m
  roots : ∀ fileId, m.filesById.get fileId = files fileId
  names : ∀ fileId, listed fileId → m.Listed fileId

/-- The same without live counters, so that every root can be shown. -/
structure Bare (files : String → Option RootFile) (listed : String → Prop) (m : Model) : Prop
    extends Holds files listed m where
  overlays : m.activeProgressOverlays = {}

variable {files : String → Option RootFile} {listed : String → Prop}

theorem Holds.frame {m m' : Model} (h : Holds files listed m) (hsame : Undisturbed m m') : Holds files listed m' := by
  refine ⟨running_frame m m' h.running hsame, fun fileId => ?_, fun fileId hlisted => ?_⟩
  · rw [hsame.roots]
    exact h.roots fileId
  · exact hsame.sameIndex.listed (h.names fileId hlisted)

theorem Bare.frame {m m' : Model} (h : Bare files listed m) (hsame : Undisturbed m m') : Bare files listed m' :=
  ⟨h.toHolds.frame hsame, hsame.overlays.trans h.overlays⟩

theorem bare_refreshPublishedFile (file : RootFile) (structural : Option JobIdentity) :
    Triple (Bare files listed) (refreshPublishedFile file structural) (fun _ => Bare files listed) (fun _ => False) := by
  intro m hm
  rw [refreshPublishedFile_run, hm.overlays]
  exact hm.frame (undisturbed_withPublished m file structural _)

theorem bare_announce (file : RootFile) :
    Triple (Bare files listed) (announce file) (fun _ => Bare files listed) (fun _ => False) :=
  Triple.modify fun m hm => hm.frame (undisturbed_announced m file)

theorem bare_publish (file : RootFile) (structural : Option JobIdentity) :
    Triple (Bare files listed) (do let _ ← refreshPublishedFile file structural; announce file)
      (fun _ => Bare files listed) (fun _ => False) :=
  Triple.bind (bare_refreshPublishedFile file structural) fun _ => bare_announce file

theorem bare_republish (ids : List String) :
    Triple (Bare files listed) (republish ids) (fun _ => Bare files listed) (fun _ => False) := by
  unfold republish
  refine Triple.forM (P := fun _ => Bare files listed) (fun fileId _ => Triple.get_bind fun m hm => ?_) ids
  cases m.filesById.get fileId with
  | none => exact Triple.pure fun _ hs => hs ▸ hm
  | some file => exact (bare_publish file none).conseq (fun _ hs => hs ▸ hm) (fun _ _ h => h) fun _ h => h

theorem bare_ensurePublished (file : RootFile) :
    Triple (Bare files listed) (ensurePublished file) (fun _ => Bare files listed) (fun _ => False) := by
  refine Triple.get_bind fun m hm => ?_
  split_ifs
  · exact Triple.bind ((bare_refreshPublishedFile file none).conseq (fun _ hs => hs ▸ hm) (fun _ _ h => h) fun _ h => h)
      fun _ => Triple.pure fun _ h => h
  · exact Triple.pure fun _ hs => hs ▸ hm

/-- An idle model lets its live counters go. -/
theorem bare_clearActiveProgressOverlays :
    Triple (Holds files listed) clearActiveProgressOverlays (fun _ => Bare files listed) (fun _ => False) := by
  unfold clearActiveProgressOverlays
  refine Triple.get_bind fun m hm => ?_
  rw [if_neg (not_not.mpr hm.running.1)]
  exact Triple.bind (Q := fun _ => Bare files listed)
    (Triple.set fun _ _ => ⟨⟨⟨hm.running.1, hm.running.2⟩, hm.roots, hm.names⟩, rfl⟩) fun _ => bare_republish _

/-- The roots after a change of one. -/
def changed (files : String → Option RootFile) (fileId : String) (file : Option RootFile) : String → Option RootFile :=
  fun id => if fileId = id then file else files id

/-- What is known of the names after a change of one root: nothing of its own. -/
def still (listed : String → Prop) (fileId : String) : String → Prop := fun id => listed id ∧ fileId ≠ id

theorem holds_addFile {file : RootFile} (structural : Option JobIdentity) (hnew : files file.fileId = none) :
    Triple (Holds files listed) (addFile file structural)
      (fun _ => Holds (changed files file.fileId (some file)) (still listed file.fileId)) (fun _ => False) := by
  unfold addFile
  refine Triple.bind bare_clearActiveProgressOverlays fun _ => Triple.get_bind fun m hm => ?_
  have hnot : ¬ m.filesById.contains file.fileId = true := by
    change ¬ (m.filesById.get file.fileId).isSome = true
    rw [hm.roots, hnew]
    decide
  rw [if_neg hnot]
  refine Triple.bind (Q := fun _ => Bare (changed files file.fileId (some file)) (still listed file.fileId))
    (Triple.set fun _ _ => ?_) fun _ =>
      (bare_publish file structural).conseq (fun _ h => h) (fun _ _ h => h.toHolds) fun _ h => h
  refine ⟨⟨⟨hm.running.1, hm.running.2⟩, fun fileId => ?_, fun id hid => (hm.names id hid.1).withRoot hid.2⟩, hm.overlays⟩
  exact (Table.get_put _ _ _).trans (by rw [hm.roots]; rfl)

/-- A root of an idle model is removed with its name, or half way where it is not found under it. -/
theorem triple_removeFile {m₀ : Model} (hm₀ : Holds files listed m₀) {fileId : String} {file : RootFile}
    (hfile : files fileId = some file) {Q E : Model → Prop}
    (hnamed : ∀ m, Bare files listed m → SameIndex m₀ m → fileId ∈ m.namedIds file.name →
      Q (((m.withoutRoot fileId).dropRoot fileId file.name).announced file))
    (hunnamed : ∀ m, Bare files listed m → SameIndex m₀ m → fileId ∉ m.namedIds file.name → E (m.withoutRoot fileId)) :
    Triple (fun m => m = m₀) (removeFile fileId) (fun _ => Q) E := by
  have hsame : ∀ m m', SameIndex m₀ m → SameIndex m m' → SameIndex m₀ m' := fun _ _ h h' => h.trans h'
  unfold removeFile
  have hclear : Triple (fun m => m = m₀) clearActiveProgressOverlays
      (fun _ m => Bare files listed m ∧ SameIndex m₀ m) E :=
    ((bare_clearActiveProgressOverlays.conseq (fun _ hs => hs ▸ hm₀) (fun _ _ h => h) fun _ h => h).and
      ((Triple.keep (index_clearActiveProgressOverlays hsame)).conseq (fun m (hs : m = m₀) => hs ▸ .refl m₀)
        (fun _ _ h => h) fun _ h => h)).conseq (fun _ h => h) (fun _ _ h => h) fun _ h => h.1.elim
  refine Triple.bind hclear fun _ => Triple.get_bind fun m hm => ?_
  have hresolved : resolveFileId m fileId = .ok fileId := by
    unfold resolveFileId
    refine if_pos ?_
    change (m.filesById.get fileId).isSome = true
    rw [hm.1.roots, hfile]
    rfl
  rw [hresolved]
  refine Triple.bind (Q := fun resolved s => resolved = fileId ∧ s = m)
    (Triple.lift (fun resolved h s hs => ?_) fun _ h => by cases h) fun resolved => Triple.of_and ?_
  · cases h
    exact ⟨rfl, hs⟩
  rintro rfl
  refine Triple.get_bind fun s hs => ?_
  subst hs
  rw [hm.1.roots, hfile]
  have hensure : Triple (fun m => m = s) (ensurePublished file) (fun _ m => Bare files listed m ∧ SameIndex m₀ m) E :=
    (((bare_ensurePublished file).conseq (fun _ hs => hs ▸ hm.1) (fun _ _ h => h) fun _ h => h).and
      ((Triple.keep (frame_ensurePublished (index_frame hsame) file)).conseq (fun m (hs : m = s) => hs ▸ hm.2)
        (fun _ _ h => h) fun _ h => h)).conseq (fun _ h => h) (fun _ _ h => h) fun _ h => h.1.elim
  refine Triple.bind hensure fun _ => ?_
  rintro m ⟨hbare, hindex⟩
  rw [run_modify_bind, run_get_bind]
  by_cases hname : resolved ∈ m.namedIds file.name
  · have hname' : resolved ∈ (m.withoutRoot resolved).namedIds file.name := hname
    rw [if_pos hname', run_modify_bind]
    exact hnamed m hbare hindex hname
  · have hname' : resolved ∉ (m.withoutRoot resolved).namedIds file.name := hname
    rw [if_neg hname']
    exact hunnamed m hbare hindex hname

theorem holds_removeFile {fileId : String} {file : RootFile} (hfile : files fileId = some file)
    (hlisted : listed fileId) :
    Triple (Holds files listed) (removeFile fileId) (fun _ => Holds (changed files fileId none) (still listed fileId))
      (fun _ => False) := by
  intro m₀ hm₀
  refine triple_removeFile hm₀ hfile (Q := Holds (changed files fileId none) (still listed fileId))
    (fun m hm _ _ => ?_) (fun m hm _ hname => hname (hm.names fileId hlisted file ((hm.roots fileId).trans hfile))) m₀ rfl
  have hdropped : Holds (changed files fileId none) (still listed fileId)
      ((m.withoutRoot fileId).dropRoot fileId file.name) := by
    refine ⟨⟨hm.running.1, hm.running.2⟩, fun id => ?_, fun id hid => ?_⟩
    · exact (Table.get_pop _ _ _).trans (by rw [hm.roots]; rfl)
    · exact ((hm.names id hid.1).withoutRoot fileId).dropRoot (Ne.symm hid.2) file.name
  exact hdropped.frame (undisturbed_announced _ file)

/-- A root that is not found under its name cannot be removed. -/
theorem removeFile_raises {m : Model} (hidle : Running 0 {} m) {fileId : String} {file : RootFile}
    (hfile : m.filesById.get fileId = some file) (hunlisted : fileId ∉ m.namedIds file.name) :
    Triple (fun s => s = m) (removeFile fileId) (fun _ _ => False) (fun _ => True) := by
  have hm : Holds m.filesById.get (fun _ => False) m := ⟨hidle, fun _ => rfl, fun _ h => h.elim⟩
  refine triple_removeFile hm hfile (fun s _ hsame hname => ?_) fun _ _ _ _ => trivial
  rw [hsame.namedIds] at hname
  exact hunlisted hname

theorem holds_updateFile {file old : RootFile} (structural : Option JobIdentity) (hold : files file.fileId = some old) :
    Triple (Holds files listed) (updateFile file structural)
      (fun _ => Holds (changed files file.fileId (some file)) (still listed file.fileId)) (fun _ => False) := by
  unfold updateFile
  refine Triple.get_bind fun m hm => ?_
  -- An idle model keeps no bytes of jobs that are gone, so the candidate goes in as it is.
  have hbase : withPhysicalBase m file = file := by
    unfold withPhysicalBase
    rw [hm.running.2]
    rfl
  rw [hbase]
  refine Triple.bind (Q := fun _ => Holds files listed) (Triple.modify fun s hs => ?_) fun _ => ?_
  · split_ifs
    · exact ⟨⟨(hs ▸ hm).running.1, (hs ▸ hm).running.2⟩, (hs ▸ hm).roots, (hs ▸ hm).names⟩
    · exact hs ▸ hm
  refine Triple.bind bare_clearActiveProgressOverlays fun _ => Triple.get_bind fun m hm => ?_
  rw [hm.roots, hold]
  refine Triple.bind ((bare_ensurePublished old).conseq (fun _ hs => hs ▸ hm) (fun _ _ h => h) fun _ h => h) fun _ => ?_
  refine Triple.bind (Q := fun _ => Bare (changed files file.fileId (some file)) (still listed file.fileId))
    (Triple.modify fun s hs => ?_) fun _ =>
      (bare_publish file structural).conseq (fun _ h => h) (fun _ _ h => h.toHolds) fun _ h => h
  refine ⟨⟨⟨hs.running.1, hs.running.2⟩, fun fileId => ?_, fun id hid => (hs.names id hid.1).put hid.2⟩, hs.overlays⟩
  rw [Table.get_put, hs.roots]
  rfl

/-- An entry changes the one root that it is about, and does not raise; a root that goes must be found under
its name. -/
theorem holds_apply {diff : ModelDiff} {wanted : Option RootFile} (h : Differs forest (files diff.fileId) wanted diff)
    (hlisted : wanted = none → listed diff.fileId) (structural : RootFile → Option JobIdentity) :
    Triple (Holds files listed) (diff.apply structural)
      (fun _ => Holds (changed files diff.fileId diff.newFile) (still listed diff.fileId)) (fun _ => False) := by
  cases h with
  | @added file hbefore _ => exact holds_addFile (structural file) hbefore
  | @removed file hbefore hafter => exact holds_removeFile hbefore (hlisted hafter)
  | @updated old new hbefore _ _ _ => exact holds_updateFile (structural new) hbefore

/-! ## All entries -/

/-- The roots after all entries. -/
def applied (files : String → Option RootFile) (diffs : List ModelDiff) : String → Option RootFile :=
  diffs.foldl (fun files diff => changed files diff.fileId diff.newFile) files

theorem changed_ne {fileId id : String} (h : fileId ≠ id) (file : Option RootFile) :
    changed files fileId file id = files id := if_neg h

theorem applied_of_not_mem {diffs : List ModelDiff} {id : String} (h : id ∉ diffs.map ModelDiff.fileId) :
    applied files diffs id = files id := by
  induction diffs generalizing files with
  | nil => rfl
  | cons diff diffs ih =>
    rw [List.map_cons, List.mem_cons, not_or] at h
    exact (ih h.2).trans (changed_ne (Ne.symm h.1) _)

theorem applied_of_mem {diffs : List ModelDiff} (hnodup : (diffs.map ModelDiff.fileId).Nodup) {diff : ModelDiff}
    (h : diff ∈ diffs) : applied files diffs diff.fileId = diff.newFile := by
  induction diffs generalizing files with
  | nil => cases h
  | cons first diffs ih =>
    rw [List.map_cons, List.nodup_cons] at hnodup
    rcases List.mem_cons.mp h with rfl | h
    · exact (applied_of_not_mem hnodup.1).trans (if_pos rfl)
    · exact ih hnodup.2 h

/-- The entries that are left still say what the model lacks, as none of them is about a root
that was changed. -/
theorem holds_applyDiffs {wanted : String → Option RootFile} (structural : RootFile → Option JobIdentity)
    (diffs : List ModelDiff) (hnodup : (diffs.map ModelDiff.fileId).Nodup)
    (h : ∀ diff ∈ diffs, Differs forest (files diff.fileId) (wanted diff.fileId) diff)
    (hlisted : ∀ diff ∈ diffs, wanted diff.fileId = none → listed diff.fileId) :
    Triple (Holds files listed) (applyDiffs structural diffs)
      (fun _ m => ∀ id, m.filesById.get id = applied files diffs id) (fun _ => False) := by
  induction diffs generalizing files listed with
  | nil => exact Triple.pure fun _ hs => hs.roots
  | cons diff diffs ih =>
    rw [List.map_cons, List.nodup_cons] at hnodup
    have hne : ∀ other ∈ diffs, diff.fileId ≠ other.fileId := fun other hother heq =>
      hnodup.1 (heq ▸ List.mem_map_of_mem hother)
    refine Triple.bind (holds_apply (h diff List.mem_cons_self) (hlisted diff List.mem_cons_self) structural) fun _ =>
      ih hnodup.2 (fun other hother => ?_) fun other hother hnone => ?_
    · rw [changed_ne (hne other hother)]
      exact h other (List.mem_cons_of_mem _ hother)
    · exact ⟨hlisted other (List.mem_cons_of_mem _ hother) hnone, hne other hother⟩

/-- What is one object has one record. -/
def OneHeap (before after : Model) : Prop :=
  ∀ id old, before.filesById.get id = some old → ∀ id' new, after.filesById.get id' = some new →
    old.object = new.object → old = new

/-- A program without an error ended with the roots of `wanted`, and nothing is left to do. -/
structure Reproduces (forest : Forest) (wanted : Model) (result : Except Error Unit × Model) : Prop where
  returns : result.1 = .ok ()
  ids : ∀ fileId, result.2.filesById.get fileId = none ↔ wanted.filesById.get fileId = none
  roots : ∀ fileId, ∀ file ∈ result.2.filesById.get fileId, ∀ new ∈ wanted.filesById.get fileId,
    file.alike forest new = true
  settled : diffModels forest result.2 wanted = []

/-- A root that no entry is about stays. -/
theorem applied_unmoved {diffs : List ModelDiff} (h : diffs.Perm (diffModels forest before after)) {fileId : String}
    (hsame : ∀ diff, ¬ Differs forest (before.filesById.get fileId) (after.filesById.get fileId) diff) :
    applied before.filesById.get diffs fileId = before.filesById.get fileId := by
  refine applied_of_not_mem fun hmem => ?_
  obtain ⟨diff, hdiff, rfl⟩ := List.mem_map.mp hmem
  exact hsame diff (mem_diffModels.mp (h.mem_iff.mp hdiff))

theorem applied_moved {diffs : List ModelDiff} (h : diffs.Perm (diffModels forest before after)) {diff : ModelDiff}
    (hdiff : Differs forest (before.filesById.get diff.fileId) (after.filesById.get diff.fileId) diff) :
    applied before.filesById.get diffs diff.fileId = diff.newFile :=
  applied_of_mem ((h.map _).nodup_iff.mpr diffModels_nodup) (h.mem_iff.mpr (mem_diffModels.mpr hdiff))

/-- After all entries a root is that of the second model, or one that equality does not tell from it. -/
theorem applied_cases {diffs : List ModelDiff} (h : diffs.Perm (diffModels forest before after))
    (hheap : OneHeap before after) (fileId : String) :
    applied before.filesById.get diffs fileId = after.filesById.get fileId ∨
      ∃ old new, before.filesById.get fileId = some old ∧ after.filesById.get fileId = some new ∧
        old.object ≠ new.object ∧ old.equals forest new = true ∧
        applied before.filesById.get diffs fileId = some old := by
  cases hold : before.filesById.get fileId with
  | none =>
    cases hnew : after.filesById.get fileId with
    | none =>
      refine Or.inl ((applied_unmoved h fun diff hdiff => ?_).trans hold)
      rw [hold, hnew] at hdiff
      cases hdiff <;> contradiction
    | some new =>
      cases fileId_of_get hnew
      exact Or.inl (@applied_moved forest before after diffs h (.added new) (.added hold hnew))
  | some old =>
    cases hnew : after.filesById.get fileId with
    | none =>
      cases fileId_of_get hold
      exact Or.inl (@applied_moved forest before after diffs h (.removed old) (.removed hold hnew))
    | some new =>
      by_cases hobject : old.object = new.object
      · cases hheap fileId old hold fileId new hnew hobject
        refine Or.inl ((applied_unmoved h fun diff hdiff => ?_).trans hold)
        rw [hold, hnew] at hdiff
        cases hdiff <;> simp_all
      · cases hequals : old.equals forest new with
        | true =>
          refine Or.inr ⟨old, new, rfl, rfl, hobject, hequals, (applied_unmoved h fun diff hdiff => ?_).trans hold⟩
          rw [hold, hnew] at hdiff
          cases hdiff <;> simp_all
        | false =>
          cases fileId_of_get hnew
          exact Or.inl (@applied_moved forest before after diffs h (.updated old new)
            (.updated hold hnew hobject hequals))

/-- Every root that the second model lacks is found under its name. -/
def RemovableUpTo (before after : Model) : Prop :=
  ∀ fileId, after.filesById.get fileId = none → before.Listed fileId

/-- The entries raise nothing and change the roots that they are about. -/
theorem run_applyDiffs {diffs : List ModelDiff} (h : diffs.Perm (diffModels forest before after))
    (hidle : Running 0 {} before) (hremovable : RemovableUpTo before after)
    (structural : RootFile → Option JobIdentity) :
    ∃ m, (applyDiffs structural diffs).run.run before = (.ok (), m) ∧
      ∀ fileId, m.filesById.get fileId = applied before.filesById.get diffs fileId := by
  have hrun := @holds_applyDiffs forest before.filesById.get before.Listed after.filesById.get structural diffs
    ((h.map _).nodup_iff.mpr diffModels_nodup) (fun diff hdiff => mem_diffModels.mp (h.mem_iff.mp hdiff))
    (fun diff _ hnone => hremovable diff.fileId hnone) before ⟨hidle, fun _ => rfl, fun _ h => h⟩
  generalize (applyDiffs structural diffs).run.run before = result at hrun ⊢
  obtain ⟨_ | _, m⟩ := result
  · exact hrun.elim
  · exact ⟨m, rfl, hrun⟩

/-- An order in which a root is removed first that is not found under its name raises. -/
theorem unlisted_raises (hidle : Running 0 {} before) {file : RootFile}
    (hbefore : before.filesById.get file.fileId = some file) (hafter : after.filesById.get file.fileId = none)
    (hunlisted : file.fileId ∉ before.namedIds file.name) (structural : RootFile → Option JobIdentity) :
    ∃ diffs : List ModelDiff, diffs.Perm (diffModels forest before after) ∧
      ((applyDiffs structural diffs).run.run before).1 ≠ .ok () := by
  have hmem : .removed file ∈ diffModels forest before after := mem_diffModels.mpr (.removed hbefore hafter)
  refine ⟨_, (List.perm_cons_erase hmem).symm, fun hok => ?_⟩
  have hraises := removeFile_raises hidle hbefore hunlisted before rfl
  change ((removeFile file.fileId >>= fun _ => applyDiffs structural _).run.run before).1 = .ok () at hok
  generalize hrun : (removeFile file.fileId).run.run before = result at hraises
  obtain ⟨_ | _, m⟩ := result
  · rw [run_bind_of_error hrun] at hok
    cases hok
  · exact hraises

/-- Between models in which equal roots are alike, the entries reproduce the second model. -/
theorem reproduces_of_alike {diffs : List ModelDiff} (h : diffs.Perm (diffModels forest before after))
    (hheap : OneHeap before after) (halike : ∀ fileId, ∀ old ∈ before.filesById.get fileId,
      ∀ new ∈ after.filesById.get fileId, old.equals forest new = true → old.alike forest new = true)
    (hidle : Running 0 {} before) (hremovable : RemovableUpTo before after)
    (structural : RootFile → Option JobIdentity) :
    Reproduces forest after ((applyDiffs structural diffs).run.run before) := by
  obtain ⟨m, hrun, hroots⟩ := run_applyDiffs h hidle hremovable structural
  rw [hrun]
  refine ⟨rfl, fun fileId => ?_, fun fileId file hfile new hnew => ?_, List.eq_nil_iff_forall_not_mem.mpr ?_⟩
  · rw [hroots]
    rcases applied_cases h hheap fileId with hsame | ⟨old, new, -, hnew, -, -, happlied⟩
    · rw [hsame]
    · simp [happlied, hnew]
  · rw [hroots] at hfile
    rcases applied_cases h hheap fileId with hsame | ⟨old, wanted, hold, hwanted, -, hequals, happlied⟩
    · cases Option.some.inj (hfile.symm.trans (hsame.trans hnew))
      exact RootFile.alike_self forest file
    · cases Option.some.inj (hwanted.symm.trans hnew)
      cases Option.some.inj (happlied.symm.trans hfile)
      exact halike fileId file hold new hnew hequals
  · intro diff hdiff
    have hdiff := mem_diffModels.mp hdiff
    rw [hroots] at hdiff
    rcases applied_cases h hheap diff.fileId with hsame | ⟨old, new, -, hnew, -, hequals, happlied⟩
    · rw [hsame] at hdiff
      generalize after.filesById.get diff.fileId = wanted at hdiff
      cases hdiff <;> simp_all
    · rw [happlied, hnew] at hdiff
      cases hdiff <;> simp_all

/-- The entries of a difference, applied in any order to a model after any calls, reproduce the
second model exactly if every root to remove is found under its name and no id has two roots in
them that are equal and not alike. -/
theorem diff_reproduces_iff (calls : List Call) (after : Model) (forest : Forest)
    (structural : RootFile → Option JobIdentity) (hheap : OneHeap (run calls) after) :
    (∀ diffs : List ModelDiff, diffs.Perm (diffModels forest (run calls) after) →
      Reproduces forest after ((applyDiffs structural diffs).run.run (run calls))) ↔
    RemovableUpTo (run calls) after ∧
      ∀ fileId, ∀ old ∈ (run calls).filesById.get fileId, ∀ new ∈ after.filesById.get fileId,
        old.object ≠ new.object → old.equals forest new = true → old.alike forest new = true := by
  constructor
  · intro hreproduces
    have hremovable : RemovableUpTo (run calls) after := by
      intro fileId hnone old hold
      cases fileId_of_get hold
      by_contra hunlisted
      obtain ⟨diffs, hperm, hraises⟩ := unlisted_raises (run_idle calls) hold hnone hunlisted structural
      exact hraises (hreproduces diffs hperm).returns
    refine ⟨hremovable, fun fileId old hold new hnew hobject hequals => ?_⟩
    have hresult := hreproduces _ (List.Perm.refl _)
    obtain ⟨m, hrun, hroots⟩ := run_applyDiffs (List.Perm.refl (diffModels forest (run calls) after)) (run_idle calls)
      hremovable structural
    rw [hrun] at hresult
    refine hresult.roots fileId old ?_ new hnew
    rw [hroots, applied_unmoved (List.Perm.refl _) fun diff hdiff => ?_]
    · exact hold
    · rw [Option.mem_def.mp hold, Option.mem_def.mp hnew] at hdiff
      cases hdiff <;> simp_all
  · rintro ⟨hremovable, halike⟩ diffs hdiffs
    refine reproduces_of_alike hdiffs hheap (fun fileId old hold new hnew hequals => ?_) (run_idle calls) hremovable
      structural
    by_cases hobject : old.object = new.object
    · cases hheap fileId old hold fileId new hnew hobject
      exact RootFile.alike_self forest old
    · exact halike fileId old hold new hnew hobject hequals

/-! ## A checkpoint that appears -/

/-- A stopped root; its second build finds the status file that it can be resumed from. -/
def stoppedRoot (object : Nat) (resumeCheckpointPresent : Bool) : RootFile where
  name := "film"
  isDir := false
  remoteSize := some 100
  localSize := some 40
  resumeCheckpointPresent := resumeCheckpointPresent
  object := object

theorem growingRoot_reproduced :
    let before := run [.addFile (stoppedRoot 1 false)]
    let after := run [.addFile { stoppedRoot 2 true with localSize := some 60 }]
    OneHeap before after ∧ ∀ diffs : List ModelDiff, diffs.Perm (diffModels (fun _ => []) before after) →
      Reproduces (fun _ => []) after ((applyDiffs (fun _ => none) diffs).run.run before) := by
  intro before after
  have hbefore : ∀ id old, before.filesById.get id = some old → old = stoppedRoot 1 false := by
    intro id old hold
    rw [show before.filesById.get id = _ from Dict.get_set _ _ _ _] at hold
    split_ifs at hold
    · exact (Option.some.inj hold).symm
    · cases hold
  have hafter : ∀ id new, after.filesById.get id = some new → new = { stoppedRoot 2 true with localSize := some 60 } := by
    intro id new hnew
    rw [show after.filesById.get id = _ from Dict.get_set _ _ _ _] at hnew
    split_ifs at hnew
    · exact (Option.some.inj hnew).symm
    · cases hnew
  have hheap : OneHeap before after := by
    intro id old hold id' new hnew hobject
    cases hbefore id old hold
    cases hafter id' new hnew
    cases hobject
  refine ⟨hheap, (diff_reproduces_iff _ after (fun _ => []) (fun _ => none) hheap).mpr
    ⟨fun id _ old hold => ?_, fun id old hold new hnew _ h => ?_⟩⟩
  · cases hbefore id old hold
    cases fileId_of_get hold
    decide +kernel
  · cases hbefore id old hold
    cases hafter id new hnew
    cases h

/-- Nothing tells the new root from the old one, and the model keeps the old one. -/
theorem newCheckpoint_lost :
    let before := run [.addFile (stoppedRoot 1 false)]
    let after := run [.addFile (stoppedRoot 2 true)]
    diffModels (fun _ => []) before after = [] ∧
      (after.publishedFile "film").map (fun row => row.resumeCheckpointPresent) = some true ∧
      (before.publishedFile "film").map (fun row => row.resumeCheckpointPresent) = some false ∧
      ¬ Reproduces (fun _ => []) after ((applyDiffs (fun _ => none) []).run.run before) := by
  intro before after
  refine ⟨by decide +kernel, by decide +kernel, by decide +kernel, fun h => ?_⟩
  have halike := h.roots "film" (stoppedRoot 1 false) (by decide +kernel) (stoppedRoot 2 true) (by decide +kernel)
  exact absurd halike (by decide)

end SeedSync.Live
