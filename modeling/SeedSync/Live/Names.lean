import SeedSync.Live.Steps

/-!
# The indexes of the live model

The order of the ids and the ids of every name, which `add_file` and `remove_file` keep beside the
roots. A root that was updated under another name is not found under it, and cannot be removed.
-/

namespace SeedSync.Live

open Lib

/-! ## What leaves the indexes alone -/

/-- The roots and their indexes are the same, and no row is gone. -/
structure SameIndex (m m' : Model) : Prop where
  roots : m'.filesById = m.filesById
  order : m'.orderedFileIds = m.orderedFileIds
  names : m'.fileIdsByName = m.fileIdsByName
  rows : ∀ fileId, m.publishedFile fileId ≠ none → m'.publishedFile fileId ≠ none

theorem SameIndex.refl (m : Model) : SameIndex m m := ⟨rfl, rfl, rfl, fun _ h => h⟩

theorem SameIndex.trans {a b c : Model} (hab : SameIndex a b) (hbc : SameIndex b c) : SameIndex a c :=
  ⟨hbc.roots.trans hab.roots, hbc.order.trans hab.order, hbc.names.trans hab.names,
    fun fileId h => hbc.rows fileId (hab.rows fileId h)⟩

theorem Undisturbed.sameIndex {m m' : Model} (h : Undisturbed m m') : SameIndex m m' :=
  ⟨h.roots, h.order, h.names, h.rows⟩

theorem SameIndex.namedIds {m m' : Model} (h : SameIndex m m') (name : String) : m'.namedIds name = m.namedIds name := by
  unfold Model.namedIds
  rw [h.names]

/-- The root of an id is found under its name. -/
def Model.Listed (m : Model) (fileId : String) : Prop :=
  ∀ file ∈ m.filesById.get fileId, fileId ∈ m.namedIds file.name

theorem SameIndex.listed {m m' : Model} (h : SameIndex m m') {fileId : String} (hlisted : m.Listed fileId) :
    m'.Listed fileId := by
  intro file hfile
  rw [h.roots] at hfile
  rw [h.namedIds]
  exact hlisted file hfile

theorem sameIndex_dropOverlay (m : Model) (fileId : String) : SameIndex m (m.dropOverlay fileId) :=
  ⟨rfl, rfl, rfl, fun _ h => h⟩

theorem sameIndex_withOverlays (m : Model) (overlays : Dict String ActiveProgressOverlay)
    (identities : Dict String JobIdentity) (epochs : Dict String Int) :
    SameIndex m (m.withOverlays overlays identities epochs) :=
  ⟨rfl, rfl, rfl, fun _ h => h⟩

theorem sameIndex_retire (m : Model) (fileId : String) : SameIndex m (m.retire fileId) :=
  ⟨rfl, rfl, rfl, fun _ h => h⟩

theorem foldl_sameIndex {step : Model → String → Model} (hstep : ∀ m id, SameIndex m (step m id)) (ids : List String)
    (m : Model) : SameIndex m (ids.foldl step m) := by
  induction ids generalizing m with
  | nil => exact .refl m
  | cons id ids ih => exact (hstep m id).trans (ih (step m id))

section Index

variable {I : Model → Prop} (hI : ∀ m m', I m → SameIndex m m' → I m')
include hI

theorem index_frame (m m' : Model) (h : I m) (hsame : Undisturbed m m') : I m' := hI m m' h hsame.sameIndex

theorem index_clearActiveProgressOverlays : Spec I clearActiveProgressOverlays (fun _ => True) := by
  unfold clearActiveProgressOverlays
  refine Spec.get_bind fun m hm => ?_
  split_ifs
  · exact Spec.pure trivial
  · exact frame_set_republish (index_frame hI) (hI m _ hm (sameIndex_withOverlays m _ _ _)) _

theorem index_clearActiveProgressOverlaysExcept (preserved : List String) :
    Spec I (clearActiveProgressOverlaysExcept preserved) (fun _ => True) := by
  unfold clearActiveProgressOverlaysExcept
  exact Spec.get_bind fun m hm =>
    frame_set_republish_return (index_frame hI) (hI m _ hm (foldl_sameIndex sameIndex_dropOverlay _ m)) _ _

theorem index_clearActiveProgressOverlayIfJobIdentityMatches (fileId : String) (identity : JobIdentity) :
    Spec I (clearActiveProgressOverlayIfJobIdentityMatches fileId identity) (fun _ => True) := by
  unfold clearActiveProgressOverlayIfJobIdentityMatches
  refine Spec.get_bind fun m hm => ?_
  split_ifs
  · exact Spec.pure trivial
  · exact frame_set_republish_return (index_frame hI) (hI m _ hm (sameIndex_dropOverlay m fileId)) _ _

theorem index_restoreActiveProgressOverlays (overlays : Dict String ActiveProgressOverlay)
    (identities : Dict String JobIdentity) :
    Spec I (restoreActiveProgressOverlays overlays identities) (fun _ => True) := by
  unfold restoreActiveProgressOverlays
  exact Spec.get_bind fun m hm =>
    frame_set_republish_return (index_frame hI) (hI m _ hm (sameIndex_withOverlays m _ _ _)) _ _

theorem index_replaceActiveProgressOverlays (overlays : Dict String ActiveProgressOverlay) (changed : List String) :
    Spec I (replaceActiveProgressOverlays overlays changed) (fun _ => True) := by
  unfold replaceActiveProgressOverlays
  exact Spec.get_bind fun m hm =>
    frame_set_republish_return (index_frame hI) (hI m _ hm (sameIndex_withOverlays m _ _ _)) _ _

theorem index_publishActiveLftpRootCounters (overlays : Dict String ActiveProgressOverlay)
    (identities : Dict String JobIdentity) (lifecycle : Lifecycle) :
    Spec I (publishActiveLftpRootCounters overlays identities lifecycle) (fun _ => True) := by
  unfold publishActiveLftpRootCounters
  refine Spec.get_bind fun m hm => ?_
  split
  · exact Spec.bind (index_clearActiveProgressOverlays hI) fun _ _ => Spec.pure trivial
  · rename_i admission _
    split_ifs
    · refine Spec.bind (Spec.forM _ fun fileId _ => ?_) fun _ _ => Spec.pure trivial
      cases admission.mismatches.get fileId with
      | none => exact Spec.pure trivial
      | some previous =>
        exact Spec.bind (index_clearActiveProgressOverlayIfJobIdentityMatches hI fileId previous) fun _ _ =>
          Spec.pure trivial
    · exact frame_set_republish_return (index_frame hI) (hI m _ hm (sameIndex_withOverlays m _ _ _)) _ _

theorem index_retireActiveProjectionForCandidate (file : RootFile) :
    Spec I (retireActiveProjectionForCandidate file) (fun _ => True) := by
  refine Spec.modify fun m hm => ?_
  split_ifs
  · exact hI _ _ hm (sameIndex_dropOverlay m file.fileId)
  · exact hm

theorem index_refreshRetained (replaced retired : List String) (statuses : Dict String LftpJobStatus)
    (entry : String × ActiveProgressOverlay) :
    Spec I (refreshRetained replaced retired statuses entry) (fun _ => True) := by
  obtain ⟨fileId, overlay⟩ := entry
  unfold refreshRetained
  dsimp only
  split_ifs
  · exact Spec.pure trivial
  refine Spec.get_bind fun m _ => ?_
  split
  · rename_i status file _ _
    split_ifs
    · refine Spec.get_bind fun m _ => ?_
      cases m.overlayJobIdentities.get fileId with
      | none => exact Spec.pure trivial
      | some identity =>
        exact Spec.bind (index_clearActiveProgressOverlayIfJobIdentityMatches hI fileId identity) fun _ _ =>
          Spec.pure trivial
    · exact Spec.bind (Spec.modify fun s hs => hI _ _ hs ⟨rfl, rfl, rfl, fun _ h => h⟩) fun _ _ =>
        frame_publish (index_frame hI) file none
    · exact Spec.pure trivial
  · exact Spec.pure trivial

/-- What the edits of an operation keep, a replacement keeps. -/
theorem index_applyWithActiveProgressRetained {operation : Operation} (hoperation : Spec I operation.run (fun _ => True))
    (retireFileIds : List String) :
    Spec I (applyWithActiveProgressRetained operation retireFileIds) (fun _ => True) := by
  unfold applyWithActiveProgressRetained
  refine Spec.bind (Spec.modify fun m hm => hI _ _ hm (foldl_sameIndex sameIndex_retire _ m)) fun _ _ => ?_
  refine Spec.bind (Spec.modify fun m hm => hI _ _ hm ⟨rfl, rfl, rfl, fun _ h => h⟩) fun _ _ => ?_
  refine spec_finallyDo hoperation ?_
  refine Spec.bind (Spec.modify fun m hm => hI _ _ hm ⟨rfl, rfl, rfl, fun _ h => h⟩) fun _ _ => ?_
  refine Spec.bind (frame_publishRetired (index_frame hI) _) fun _ _ => ?_
  exact Spec.modify fun m hm => hI _ _ hm ⟨rfl, rfl, rfl, fun _ h => h⟩

theorem index_applyAuthoritativeRootReplacement {operation : Operation} (hoperation : Spec I operation.run (fun _ => True))
    (statuses : Dict String LftpJobStatus) (epochFor : String → Option Int) :
    Spec I (applyAuthoritativeRootReplacement operation statuses epochFor) (fun _ => True) := by
  unfold applyAuthoritativeRootReplacement
  refine Spec.get_bind fun m hm => ?_
  refine Spec.bind (Spec.set (hI _ _ hm ⟨rfl, rfl, rfl, fun _ h => h⟩)) fun _ _ => ?_
  refine Spec.bind (spec_finallyDo (index_applyWithActiveProgressRetained hI hoperation _)
    (Spec.modify fun m hm => hI _ _ hm ⟨rfl, rfl, rfl, fun _ h => h⟩)) fun _ _ => ?_
  exact Spec.get_bind fun m _ => Spec.forM _ fun entry _ => index_refreshRetained hI _ _ statuses entry

theorem index_addFile {file : RootFile} (hroot : ∀ m, I m → m.filesById.get file.fileId = none → I (m.withRoot file))
    (structural : Option JobIdentity) : Spec I (addFile file structural) (fun _ => True) := by
  unfold addFile
  refine Spec.bind (index_clearActiveProgressOverlays hI) fun _ _ => Spec.get_bind fun m hm => ?_
  split_ifs with hknown
  · exact Spec.throw
  · refine Spec.bind (Spec.set (hroot m hm ?_)) fun _ _ => frame_publish (index_frame hI) file structural
    exact Option.not_isSome_iff_eq_none.mp hknown

theorem index_ensurePublished (file : RootFile) :
    Triple I (ensurePublished file) (fun _ m => I m ∧ m.publishedFile file.fileId ≠ none) I := by
  unfold ensurePublished
  refine Triple.get_bind fun m hm => ?_
  split_ifs with hrow
  · refine Triple.bind (Q := fun _ m => I m ∧ m.publishedFile file.fileId ≠ none) ?_ fun _ => Triple.pure fun _ h => h
    rintro s rfl
    rw [refreshPublishedFile_run]
    cases file.toRow.effective (s.activeProgressOverlays.get file.fileId) with
    | error e => exact hm
    | ok row =>
      refine ⟨index_frame hI _ _ hm (undisturbed_withPublished s file none row), ?_⟩
      rw [withPublished_publishedFile, if_pos rfl]
      exact Option.some_ne_none row
  · refine Triple.pure fun s hs => ⟨hs ▸ hm, ?_⟩
    rw [hs, Model.publishedFile]
    simpa [Dict.contains] using hrow

/-- A root that goes is found under its name and goes from there too, or keeps its row. -/
theorem index_removeFile
    (hlisted : ∀ m fileId, ∀ file ∈ m.filesById.get fileId, I m → fileId ∈ m.namedIds file.name →
      I ((m.withoutRoot fileId).dropRoot fileId file.name))
    (hunlisted : ∀ m fileId, ∀ file ∈ m.filesById.get fileId, I m → m.publishedFile fileId ≠ none →
      fileId ∉ m.namedIds file.name → I (m.withoutRoot fileId))
    (identifier : String) : Spec I (removeFile identifier) (fun _ => True) := by
  unfold removeFile
  refine Spec.bind (index_clearActiveProgressOverlays hI) fun _ _ => Spec.get_bind fun _ _ => ?_
  refine Spec.bind (Spec.lift (Q := fun _ => True) fun _ _ => trivial) fun fileId _ => ?_
  refine Triple.spec (Triple.get_bind fun m hm => ?_)
  cases hfile : m.filesById.get fileId with
  | none => exact Triple.throw fun s hs => hs ▸ hm
  | some file =>
    have hid : file.fileId = fileId := m.filesById.keyed fileId file hfile
    subst hid
    -- The root stays what it is while its row is made.
    have hensure := index_ensurePublished (I := fun s => I s ∧ SameIndex m s)
      (fun s s' hs hsame => ⟨hI s s' hs.1 hsame, hs.2.trans hsame⟩) file
    refine Triple.bind (hensure.conseq (fun s hs => ?_) (fun _ _ h => h) fun _ h => h.1) fun _ => ?_
    · subst hs
      exact ⟨hm, .refl s⟩
    rintro s ⟨⟨hs, hsame⟩, hrow⟩
    have hfile : s.filesById.get file.fileId = some file := by rw [hsame.roots, hfile]
    rw [run_modify_bind, run_get_bind]
    by_cases hname : file.fileId ∈ s.namedIds file.name
    · have hname' : file.fileId ∈ (s.withoutRoot file.fileId).namedIds file.name := hname
      rw [if_pos hname', run_modify_bind]
      exact ⟨index_frame hI _ _ (hlisted s file.fileId file hfile hs hname) (undisturbed_announced _ file), trivial⟩
    · have hname' : file.fileId ∉ (s.withoutRoot file.fileId).namedIds file.name := hname
      rw [if_neg hname']
      exact hunlisted s file.fileId file hfile hs hrow hname

/-- An update puts a file where a root stands that has a row. -/
theorem index_updateFile {K : Model → Prop} (hK : ∀ m m', K m → SameIndex m m' → K m') (hIK : ∀ m, I m → K m)
    {file : RootFile} (hput : ∀ m file', file'.fileId = file.fileId → file'.name = file.name →
      ∀ old ∈ m.filesById.get file.fileId, I m → m.publishedFile file.fileId ≠ none →
        K { m with filesById := m.filesById.put file' })
    (structural : Option JobIdentity) : Triple I (updateFile file structural) (fun _ => K) K := by
  unfold updateFile
  refine Triple.get_bind fun m₀ hm₀ => ?_
  have hid := withPhysicalBase_fileId m₀ file
  have hname := withPhysicalBase_name m₀ file
  generalize withPhysicalBase m₀ file = file' at hid hname ⊢
  have hI' : ∀ {α : Type} {program : Act α}, Spec I program (fun _ => True) → Triple I program (fun _ => I) K :=
    fun h => (Triple.of_spec h).conseq (fun _ hs => hs) (fun _ _ hs => hs.1) hIK
  refine Triple.bind ((hI' (index_retireActiveProjectionForCandidate hI file')).conseq (fun _ hs => hs ▸ hm₀)
    (fun _ _ hs => hs) fun _ hs => hs) fun _ => ?_
  refine Triple.bind (hI' (index_clearActiveProgressOverlays hI)) fun _ => Triple.get_bind fun m hm => ?_
  cases hold : m.filesById.get file'.fileId with
  | none => exact Triple.throw fun s hs => hs ▸ hIK m hm
  | some old =>
    have hidold : old.fileId = file'.fileId := m.filesById.keyed file'.fileId old hold
    have hensure := index_ensurePublished (I := fun s => I s ∧ SameIndex m s)
      (fun s s' hs hsame => ⟨hI s s' hs.1 hsame, hs.2.trans hsame⟩) old
    refine Triple.bind (hensure.conseq (fun s hs => ?_) (fun _ _ h => h) fun s hs => hIK s hs.1) fun _ => ?_
    · subst hs
      exact ⟨hm, .refl s⟩
    refine Triple.bind (Q := fun _ => K) (Triple.modify ?_) fun _ => ?_
    · rintro s ⟨⟨hs, hsame⟩, hrow⟩
      rw [hidold, hid] at hrow
      exact hput s file' hid hname old (by rw [hsame.roots, ← hid, hold]; rfl) hs hrow
    · exact (Triple.of_spec (frame_publish (index_frame hK) file' structural)).conseq (fun _ h => h) (fun _ _ h => h.1)
        fun _ h => h

theorem index_call (hedit : ∀ edit : Edit, Spec I edit.run (fun _ => True)) (call : Call) :
    Spec I call.run (fun _ => True) := by
  have hoperation : ∀ operation : Operation, Spec I operation.run (fun _ => True) := fun operation =>
    spec_operation fun edit _ => hedit edit
  cases call with
  | addFile file structural => exact hedit (.addFile file structural)
  | updateFile file structural => exact hedit (.updateFile file structural)
  | removeFile identifier => exact hedit (.removeFile identifier)
  | clearActiveProgressOverlays => exact hedit .clearActiveProgressOverlays
  | clearActiveProgressOverlaysExcept preserved =>
    exact Spec.bind (index_clearActiveProgressOverlaysExcept hI preserved) fun _ _ => Spec.pure trivial
  | clearActiveProgressOverlayIfJobIdentityMatches fileId identity =>
    exact Spec.bind (index_clearActiveProgressOverlayIfJobIdentityMatches hI fileId identity) fun _ _ => Spec.pure trivial
  | restoreActiveProgressOverlays overlays identities =>
    exact Spec.bind (index_restoreActiveProgressOverlays hI overlays identities) fun _ _ => Spec.pure trivial
  | replaceActiveProgressOverlays overlays changed =>
    exact Spec.bind (index_replaceActiveProgressOverlays hI overlays changed) fun _ _ => Spec.pure trivial
  | publishActiveLftpRootCounters overlays identities lifecycle =>
    exact Spec.bind (index_publishActiveLftpRootCounters hI overlays identities lifecycle) fun _ _ => Spec.pure trivial
  | applyWithActiveProgressRetained operation retire =>
    exact index_applyWithActiveProgressRetained hI (hoperation operation) retire
  | applyAuthoritativeRootReplacement operation statuses epochFor =>
    exact index_applyAuthoritativeRootReplacement hI (hoperation operation) statuses epochFor

/-- What no edit breaks holds after any calls. -/
theorem index_run (hedit : ∀ edit : Edit, Spec I edit.run (fun _ => True)) (hempty : I {}) (calls : List Call) :
    I (run calls) := by
  suffices hm : ∀ m, I m → I (calls.foldl Call.apply m) from hm {} hempty
  induction calls with
  | nil => exact fun m hm => hm
  | cons call calls ih => exact fun m hm => ih _ (index_call hI hedit call m hm).1

end Index

/-! ## Names -/

theorem namedIds_withRoot (m : Model) (file : RootFile) (name : String) :
    (m.withRoot file).namedIds name =
      if file.name = name then (m.namedIds name).insert file.fileId else m.namedIds name := by
  unfold Model.namedIds Model.withRoot
  dsimp only
  rw [Dict.get_set]
  split_ifs with hname
  · rw [hname]
    rfl
  · rfl

theorem names_dropRoot (m : Model) (fileId name other : String) :
    (m.dropRoot fileId name).fileIdsByName.get other =
      if name = other then
        if ((m.namedIds name).erase fileId).isEmpty then none else some ((m.namedIds name).erase fileId)
      else m.fileIdsByName.get other := by
  unfold Model.dropRoot
  extract_lets named
  change (if named.isEmpty then m.fileIdsByName.pop name else m.fileIdsByName.set name named).get other = _
  split_ifs with hempty hname hname
  · rw [Dict.get_pop, if_pos hname]
  · rw [Dict.get_pop, if_neg hname]
  · rw [Dict.get_set, if_pos hname]
  · rw [Dict.get_set, if_neg hname]

theorem namedIds_dropRoot (m : Model) (fileId name other : String) :
    (m.dropRoot fileId name).namedIds other =
      if name = other then (m.namedIds other).erase fileId else m.namedIds other := by
  rw [Model.namedIds, names_dropRoot]
  split_ifs with hname hempty
  · rw [← hname]
    exact (List.isEmpty_iff.mp hempty).symm
  · rw [← hname]
    rfl
  · rfl

theorem mem_namedIds_dropRoot_of_ne {m : Model} {fileId id name other : String} (hne : id ≠ fileId)
    (h : id ∈ m.namedIds other) : id ∈ (m.dropRoot fileId name).namedIds other := by
  rw [namedIds_dropRoot]
  split_ifs
  · exact (List.mem_erase_of_ne hne).mpr h
  · exact h

theorem listed_withRoot_self (m : Model) (file : RootFile) : (m.withRoot file).Listed file.fileId := by
  intro other hother
  rw [show (m.withRoot file).filesById.get file.fileId = some file from (Table.get_put _ _ _).trans (if_pos rfl)] at hother
  cases hother
  rw [namedIds_withRoot, if_pos rfl]
  exact List.mem_insert_self

theorem Model.Listed.withRoot {m : Model} {fileId : String} (h : m.Listed fileId) {file : RootFile}
    (hne : file.fileId ≠ fileId) : (m.withRoot file).Listed fileId := by
  intro other hother
  rw [show (m.withRoot file).filesById.get fileId = m.filesById.get fileId from
    (Table.get_put _ _ _).trans (if_neg hne)] at hother
  rw [namedIds_withRoot]
  split_ifs
  · exact List.mem_insert_of_mem (h other hother)
  · exact h other hother

theorem get_withoutRoot (m : Model) (fileId id : String) :
    (m.withoutRoot fileId).filesById.get id = if fileId = id then none else m.filesById.get id :=
  Table.get_pop _ _ _

theorem Model.Listed.withoutRoot {m : Model} {id : String} (h : m.Listed id) (fileId : String) :
    (m.withoutRoot fileId).Listed id := by
  intro file hfile
  rw [get_withoutRoot] at hfile
  split_ifs at hfile with hid
  · cases hfile
  · exact h file hfile

theorem Model.Listed.dropRoot {m : Model} {id : String} (h : m.Listed id) {fileId : String} (hne : id ≠ fileId)
    (name : String) : (m.dropRoot fileId name).Listed id :=
  fun file hfile => mem_namedIds_dropRoot_of_ne hne (h file hfile)

theorem Model.Listed.put {m : Model} {id : String} (h : m.Listed id) {file : RootFile} (hne : file.fileId ≠ id) :
    ({ m with filesById := m.filesById.put file } : Model).Listed id := by
  intro other hother
  rw [show (m.filesById.put file).get id = m.filesById.get id from (Table.get_put _ _ _).trans (if_neg hne)] at hother
  exact h other hother

/-! ## The rows of the roots that are not found -/

/-- A root that is not found under its name has a row. -/
def Accounted (m : Model) : Prop := ∀ fileId, m.Listed fileId ∨ m.publishedFile fileId ≠ none

theorem accounted_same (m m' : Model) (h : Accounted m) (hsame : SameIndex m m') : Accounted m' := by
  exact fun fileId => (h fileId).imp hsame.listed (hsame.rows fileId)

theorem Accounted.withRoot {m : Model} (h : Accounted m) (file : RootFile) : Accounted (m.withRoot file) := by
  intro fileId
  by_cases hid : file.fileId = fileId
  · exact Or.inl (hid ▸ listed_withRoot_self m file)
  · exact (h fileId).imp_left fun hlisted => hlisted.withRoot hid

theorem Accounted.withoutRoot {m : Model} (h : Accounted m) (fileId : String) : Accounted (m.withoutRoot fileId) :=
  fun id => (h id).imp_left fun hlisted => hlisted.withoutRoot fileId

theorem Accounted.dropRoot {m : Model} (h : Accounted m) {fileId : String} (hgone : m.filesById.get fileId = none)
    (name : String) : Accounted (m.dropRoot fileId name) := by
  intro id
  by_cases hid : fileId = id
  · subst hid
    refine Or.inl fun file hfile => ?_
    rw [show (m.dropRoot fileId name).filesById.get fileId = none from hgone] at hfile
    cases hfile
  · refine (h id).imp (fun hlisted => hlisted.dropRoot (Ne.symm hid) name) fun hrow => ?_
    rw [dropRoot_publishedFile, if_neg hid]
    exact hrow

theorem accounted_empty : Accounted {} := by
  intro fileId
  exact Or.inl fun file hfile => by cases hfile

theorem accounted_edit (edit : Edit) : Spec Accounted edit.run (fun _ => True) := by
  cases edit with
  | addFile file structural => exact index_addFile accounted_same (fun m hm _ => hm.withRoot file) structural
  | updateFile file structural =>
    refine Triple.spec ((index_updateFile accounted_same accounted_same (fun _ h => h) ?_ structural).conseq
      (fun _ h => h) (fun _ _ h => ⟨h, trivial⟩) fun _ h => h)
    intro m file' hid _ old _ hm hrow fileId
    by_cases hsame : file'.fileId = fileId
    · exact Or.inr (by rw [← hsame, hid]; exact hrow)
    · exact (hm fileId).imp_left fun hlisted => hlisted.put hsame
  | removeFile identifier =>
    refine index_removeFile accounted_same (fun m fileId file _ hm _ => ?_)
      (fun m fileId _ _ hm _ _ => hm.withoutRoot fileId) identifier
    exact (hm.withoutRoot fileId).dropRoot ((get_withoutRoot m fileId fileId).trans (if_pos rfl)) file.name
  | clearActiveProgressOverlays => exact index_clearActiveProgressOverlays accounted_same

theorem accounted_run (calls : List Call) : Accounted (run calls) :=
  index_run accounted_same accounted_edit accounted_empty calls

end SeedSync.Live
