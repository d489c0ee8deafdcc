import SeedSync.Live.Names

/-!
# The representation of the live model

The order and the names of the roots, and to which roots the live counters, their jobs and their
epochs belong. An update that gives a root another name under its id leaves the name index behind.
-/

namespace SeedSync.Live

open Lib

/-! ## The indexes -/

/-- The order and the name index are those of the roots. -/
structure Indexed (m : Model) : Prop where
  sorted : m.orderedFileIds.Pairwise (· < ·)
  ordered : ∀ fileId, fileId ∈ m.orderedFileIds ↔ m.filesById.get fileId ≠ none
  named : ∀ name fileId, fileId ∈ m.namedIds name ↔ ∃ file ∈ m.filesById.get fileId, file.name = name
  distinct : ∀ name, ∀ ids ∈ m.fileIdsByName.get name, ids ≠ [] ∧ ids.Nodup

theorem indexed_empty : Indexed {} := by
  constructor <;> simp [Model.namedIds, Table.get, Dict.get, Dict.getItem]

theorem indexed_same (m m' : Model) (h : Indexed m) (hsame : SameIndex m m') : Indexed m' where
  sorted := by rw [hsame.order]; exact h.sorted
  ordered fileId := by rw [hsame.order, hsame.roots]; exact h.ordered fileId
  named name fileId := by rw [hsame.namedIds, hsame.roots]; exact h.named name fileId
  distinct name := by rw [hsame.names]; exact h.distinct name

theorem Indexed.listed {m : Model} (h : Indexed m) (fileId : String) : m.Listed fileId :=
  fun file hfile => (h.named file.name fileId).mpr ⟨file, hfile, rfl⟩

theorem Indexed.nodup {m : Model} (h : Indexed m) (name : String) : (m.namedIds name).Nodup := by
  unfold Model.namedIds
  cases hids : m.fileIdsByName.get name with
  | none => exact List.nodup_nil
  | some ids => exact (h.distinct name ids hids).2

theorem sorted_orderedInsert {ids : List String} (h : ids.Pairwise (· < ·)) {fileId : String} (hnew : fileId ∉ ids) :
    (ids.orderedInsert (· ≤ ·) fileId).Pairwise (· < ·) := by
  have hle : (ids.orderedInsert (· ≤ ·) fileId).Pairwise (· ≤ ·) :=
    (h.imp fun hlt => Std.le_of_lt hlt).orderedInsert fileId ids
  have hnodup : (ids.orderedInsert (· ≤ ·) fileId).Nodup :=
    (ids.perm_orderedInsert (· ≤ ·) fileId).nodup_iff.mpr (List.nodup_cons.mpr ⟨hnew, h.imp fun hlt => Std.ne_of_lt hlt⟩)
  exact (hle.and hnodup).imp fun hboth => Std.lt_of_le_of_ne hboth.1 hboth.2

theorem get_withRoot (m : Model) (file : RootFile) (fileId : String) :
    (m.withRoot file).filesById.get fileId = if file.fileId = fileId then some file else m.filesById.get fileId :=
  Table.get_put _ _ _

theorem Indexed.withRoot {m : Model} (h : Indexed m) {file : RootFile} (hnew : m.filesById.get file.fileId = none) :
    Indexed (m.withRoot file) where
  sorted := sorted_orderedInsert h.sorted fun hmem => (h.ordered file.fileId).mp hmem hnew
  ordered fileId := by
    change fileId ∈ m.orderedFileIds.orderedInsert (· ≤ ·) file.fileId ↔ _
    rw [List.mem_orderedInsert, h.ordered, get_withRoot]
    split_ifs with hid
    · simp [hid]
    · simp [Ne.symm hid]
  named name fileId := by
    rw [namedIds_withRoot, get_withRoot]
    have hnamed := h.named name fileId
    by_cases hid : file.fileId = fileId
    · subst hid
      rw [hnew] at hnamed
      split_ifs <;> simp_all
    · rw [if_neg hid, ← hnamed]
      split_ifs
      · simp [List.mem_insert_iff, Ne.symm hid]
      · rfl
  distinct name ids hids := by
    rw [show (m.withRoot file).fileIdsByName.get name = _ from Dict.get_set _ _ _ _] at hids
    split_ifs at hids with hname
    · cases hids
      exact ⟨List.ne_nil_of_mem List.mem_insert_self, (h.nodup file.name).insert⟩
    · exact h.distinct name ids hids

theorem namedIds_withoutRoot (m : Model) (fileId name : String) : (m.withoutRoot fileId).namedIds name = m.namedIds name :=
  rfl

theorem get_dropRoot (m : Model) (fileId name id : String) :
    ((m.withoutRoot fileId).dropRoot fileId name).filesById.get id = if fileId = id then none else m.filesById.get id :=
  Table.get_pop _ _ _

theorem Indexed.dropRoot {m : Model} (h : Indexed m) {fileId : String} {file : RootFile}
    (hfile : m.filesById.get fileId = some file) : Indexed ((m.withoutRoot fileId).dropRoot fileId file.name) where
  sorted := h.sorted.sublist List.erase_sublist
  ordered id := by
    have hnodup : m.orderedFileIds.Nodup := h.sorted.imp fun hlt => Std.ne_of_lt hlt
    change id ∈ m.orderedFileIds.erase fileId ↔ _
    rw [hnodup.mem_erase_iff, h.ordered, get_dropRoot]
    split_ifs with hid
    · simp [hid]
    · simp [Ne.symm hid]
  named name id := by
    have hnamed := h.named name id
    rw [namedIds_dropRoot, get_dropRoot, namedIds_withoutRoot]
    by_cases hid : fileId = id
    · subst hid
      rw [if_pos rfl]
      split_ifs with hname
      · simpa using (h.nodup name).not_mem_erase
      · rw [hfile] at hnamed
        simpa [hname] using hnamed
    · rw [if_neg hid, ← hnamed]
      split_ifs
      · exact List.mem_erase_of_ne (Ne.symm hid)
      · rfl
  distinct name ids hids := by
    rw [names_dropRoot, namedIds_withoutRoot] at hids
    split_ifs at hids with hname hempty
    · cases hids
    · cases hids
      exact ⟨fun hnil => hempty (List.isEmpty_iff.mpr hnil), (h.nodup file.name).erase fileId⟩
    · exact h.distinct name ids hids

/-- A root of the same name in the place of another one. -/
theorem Indexed.put {m : Model} (h : Indexed m) {file old : RootFile} (hold : m.filesById.get file.fileId = some old)
    (hname : file.name = old.name) : Indexed { m with filesById := m.filesById.put file } where
  sorted := h.sorted
  ordered fileId := by
    rw [Table.get_put]
    have hordered := h.ordered fileId
    split_ifs with hid
    · subst hid
      rw [hold] at hordered
      simpa using hordered
    · exact hordered
  named name fileId := by
    have hnamed := h.named name fileId
    change fileId ∈ m.namedIds name ↔ _
    rw [Table.get_put]
    split_ifs with hid
    · subst hid
      rw [hold] at hnamed
      simpa [hname] using hnamed
    · exact hnamed
  distinct := h.distinct

/-! ## The owners of the live counters -/

/-- Only roots have live counters, only live counters have a job, and only jobs have an epoch. -/
structure Owned (m : Model) : Prop where
  overlays : ∀ fileId, m.activeProgressOverlays.get fileId ≠ none → m.filesById.get fileId ≠ none
  identities : ∀ fileId, m.overlayJobIdentities.get fileId ≠ none → m.activeProgressOverlays.get fileId ≠ none
  epochs : ∀ fileId, m.overlayLifecycleEpochs.get fileId ≠ none → m.overlayJobIdentities.get fileId ≠ none

theorem owned_empty : Owned {} := by
  constructor <;> simp [Dict.get, Dict.getItem]

theorem owned_frame (m m' : Model) (h : Owned m) (hsame : Undisturbed m m') : Owned m' where
  overlays fileId := by rw [hsame.overlays, hsame.roots]; exact h.overlays fileId
  identities fileId := by rw [hsame.identities, hsame.overlays]; exact h.identities fileId
  epochs fileId := by rw [hsame.epochs, hsame.identities]; exact h.epochs fileId

theorem Owned.dropOverlay {m : Model} (h : Owned m) (fileId : String) : Owned (m.dropOverlay fileId) where
  overlays id hid := h.overlays id fun hnone => hid (by
    rw [show (m.dropOverlay fileId).activeProgressOverlays.get id = _ from Dict.get_pop _ _ _, hnone, ite_self])
  identities id hid := by
    change (m.overlayJobIdentities.pop fileId).get id ≠ none at hid
    change (m.activeProgressOverlays.pop fileId).get id ≠ none
    rw [Dict.get_pop] at hid ⊢
    split_ifs at hid ⊢ with hdropped
    · exact absurd rfl hid
    · exact h.identities id hid
  epochs id hid := by
    change (m.overlayLifecycleEpochs.pop fileId).get id ≠ none at hid
    change (m.overlayJobIdentities.pop fileId).get id ≠ none
    rw [Dict.get_pop] at hid ⊢
    split_ifs at hid ⊢ with hdropped
    · exact absurd rfl hid
    · exact h.epochs id hid

theorem Owned.foldl {m : Model} (h : Owned m) {step : Model → String → Model}
    (hstep : ∀ m id, Owned m → Owned (step m id)) (ids : List String) : Owned (ids.foldl step m) := by
  induction ids generalizing m with
  | nil => exact h
  | cons id ids ih => exact ih (hstep m id h)

theorem owned_clearActiveProgressOverlays : Spec Owned clearActiveProgressOverlays (fun _ => True) := by
  unfold clearActiveProgressOverlays
  refine Spec.get_bind fun m _ => ?_
  split_ifs
  · exact Spec.pure trivial
  · refine frame_set_republish owned_frame ?_ _
    constructor <;> simp [Model.withOverlays, Dict.get, Dict.getItem]

theorem owned_clearActiveProgressOverlaysExcept (preserved : List String) :
    Spec Owned (clearActiveProgressOverlaysExcept preserved) (fun _ => True) := by
  unfold clearActiveProgressOverlaysExcept
  exact Spec.get_bind fun m hm =>
    frame_set_republish_return owned_frame (hm.foldl (fun _ id h => h.dropOverlay id) _) _ _

theorem owned_clearActiveProgressOverlayIfJobIdentityMatches (fileId : String) (identity : JobIdentity) :
    Spec Owned (clearActiveProgressOverlayIfJobIdentityMatches fileId identity) (fun _ => True) := by
  unfold clearActiveProgressOverlayIfJobIdentityMatches
  refine Spec.get_bind fun m hm => ?_
  split_ifs
  · exact Spec.pure trivial
  · exact frame_set_republish_return owned_frame (hm.dropOverlay fileId) _ _

theorem get_filter_ne_none {κ ν : Type} [DecidableEq κ] {d : Dict κ ν} {p : κ → ν → Bool} {key : κ}
    (h : (d.filter p).get key ≠ none) : ∃ value, d.get key = some value ∧ p key value = true := by
  obtain ⟨value, hvalue⟩ := Option.ne_none_iff_exists'.mp h
  exact ⟨value, (Dict.get_filter_eq_some d p key value).mp hvalue⟩

/-- Counters that are restored belong to roots that may carry them, and to a job each. -/
theorem owned_restoreActiveProgressOverlays (overlays : Dict String ActiveProgressOverlay)
    (jobIdentities : Dict String JobIdentity) :
    Spec Owned (restoreActiveProgressOverlays overlays jobIdentities) (fun _ => True) := by
  unfold restoreActiveProgressOverlays
  refine Spec.get_bind fun m _ => ?_
  extract_lets restorable normalized identities changed
  refine frame_set_republish_return owned_frame ⟨fun fileId hid => ?_, fun fileId hid => ?_, fun fileId hid => ?_⟩ _ _
  · obtain ⟨_, -, hrestorable⟩ := get_filter_ne_none hid
    have hroot := (Bool.and_eq_true_iff.mp hrestorable).2
    exact fun hnone => by simp [show m.filesById.get fileId = none from hnone] at hroot
  · obtain ⟨_, -, hnormalized⟩ := get_filter_ne_none hid
    exact Option.isSome_iff_ne_none.mp hnormalized
  · obtain ⟨_, -, hnormalized⟩ := get_filter_ne_none hid
    obtain ⟨_, -, hrestorable⟩ := get_filter_ne_none (Option.isSome_iff_ne_none.mp hnormalized)
    have hjob := (Bool.and_eq_true_iff.mp hrestorable).1
    obtain ⟨identity, hidentity⟩ := Option.ne_none_iff_exists'.mp (fun hnone => by simp [hnone] at hjob :
      jobIdentities.get fileId ≠ none)
    rw [show (m.withOverlays normalized identities _).overlayJobIdentities.get fileId = some identity from
      (Dict.get_filter_eq_some _ _ _ _).mpr ⟨hidentity, hnormalized⟩]
    exact Option.some_ne_none identity

/-! ### Counters -/

/-- The admitted counters belong to roots, and to a job each. -/
structure Admitted (m : Model) (admission : Admission) : Prop where
  roots : ∀ fileId, admission.normalized.get fileId ≠ none → m.filesById.get fileId ≠ none
  identities : ∀ fileId, admission.identities.get fileId ≠ none ↔ admission.normalized.get fileId ≠ none

theorem admitCounter_root {m : Model} {identities : Dict String JobIdentity} {lifecycle : Lifecycle}
    {admission next : Admission} {fileId : String} {overlay : ActiveProgressOverlay}
    (h : admitCounter m identities lifecycle admission (fileId, overlay) = .ok next) : m.filesById.get fileId ≠ none := by
  intro hnone
  unfold admitCounter at h
  simp only [hnone] at h
  split at h <;> simp_all

theorem Admitted.set {m : Model} {admission next : Admission} (h : Admitted m admission) {fileId : String}
    (hroot : m.filesById.get fileId ≠ none) {overlay : ActiveProgressOverlay} {identity : JobIdentity}
    (hnormalized : next.normalized = admission.normalized.set fileId overlay)
    (hidentities : next.identities = admission.identities.set fileId identity) : Admitted m next := by
  refine ⟨fun id hid => ?_, fun id => ?_⟩
  · rw [hnormalized, Dict.get_set] at hid
    split_ifs at hid with hsame
    · exact hsame ▸ hroot
    · exact h.roots id hid
  · rw [hnormalized, hidentities, Dict.get_set, Dict.get_set]
    split_ifs
    · simp
    · exact h.identities id

theorem admitted_foldlM {m : Model} {identities : Dict String JobIdentity} {lifecycle : Lifecycle}
    (entries : List (String × ActiveProgressOverlay)) {admission final : Admission} (h : Admitted m admission)
    (hrun : entries.foldlM (admitCounter m identities lifecycle) admission = .ok final) : Admitted m final := by
  induction entries generalizing admission with
  | nil => cases hrun; exact h
  | cons entry entries ih =>
    obtain ⟨fileId, overlay⟩ := entry
    rw [List.foldlM_cons] at hrun
    obtain ⟨next, hnext, hrun⟩ := ok_of_bind hrun
    refine ih ?_ hrun
    have hroot := admitCounter_root hnext
    rcases admitCounter_cases hnext with ⟨_, -, _, -, -, -, hsame, hkept, -⟩ | ⟨_, -, -, -, hset, ⟨-, hcont⟩ | ⟨-, hnew⟩⟩
    · exact ⟨hsame ▸ h.roots, by rw [hsame, hkept]; exact h.identities⟩
    · exact h.set hroot hcont hset
    · exact h.set hroot hnew hset

theorem nextEpochs_mem {lifecycle : Lifecycle} {ids : List String} {fileId : String}
    (h : (nextEpochs lifecycle ids).get fileId ≠ none) : fileId ∈ ids := by
  obtain ⟨epoch, hepoch⟩ := Option.ne_none_iff_exists'.mp h
  unfold nextEpochs at hepoch
  split at hepoch
  · cases hepoch
  · obtain ⟨id, hid, hitem⟩ := List.mem_filterMap.mp (Dict.get_ofList_mem hepoch)
    obtain ⟨_, -, heq⟩ := Option.map_eq_some_iff.mp hitem
    cases heq
    exact hid

theorem owned_publishActiveLftpRootCounters (overlays : Dict String ActiveProgressOverlay)
    (jobIdentities : Dict String JobIdentity) (lifecycle : Lifecycle) :
    Spec Owned (publishActiveLftpRootCounters overlays jobIdentities lifecycle) (fun _ => True) := by
  unfold publishActiveLftpRootCounters
  refine Spec.get_bind fun m hm => ?_
  split
  · exact Spec.bind owned_clearActiveProgressOverlays fun _ _ => Spec.pure trivial
  · rename_i admission hadmission
    split_ifs
    · refine Spec.bind (Spec.forM _ fun fileId _ => ?_) fun _ _ => Spec.pure trivial
      cases admission.mismatches.get fileId with
      | none => exact Spec.pure trivial
      | some previous =>
        exact Spec.bind (owned_clearActiveProgressOverlayIfJobIdentityMatches fileId previous) fun _ _ =>
          Spec.pure trivial
    · have hadmitted : Admitted m admission := admitted_foldlM overlays.items (by constructor <;> simp) hadmission
      refine frame_set_republish_return owned_frame ⟨hadmitted.roots, fun id hid => (hadmitted.identities id).mp hid,
        fun id hid => (hadmitted.identities id).mpr ?_⟩ _ _
      exact (Dict.mem_keys _ _).mp (nextEpochs_mem hid)

theorem Owned.setOverlay {m : Model} (h : Owned m) {fileId : String} (hroot : m.filesById.get fileId ≠ none)
    (overlay : ActiveProgressOverlay) :
    Owned { m with activeProgressOverlays := m.activeProgressOverlays.set fileId overlay } where
  overlays id hid := by
    rw [Dict.get_set] at hid
    split_ifs at hid with hsame
    · exact hsame ▸ hroot
    · exact h.overlays id hid
  identities id hid := by
    rw [Dict.get_set]
    split_ifs
    · exact Option.some_ne_none overlay
    · exact h.identities id hid
  epochs := h.epochs

theorem owned_refreshRetained (replaced retired : List String) (statuses : Dict String LftpJobStatus)
    (entry : String × ActiveProgressOverlay) :
    Spec Owned (refreshRetained replaced retired statuses entry) (fun _ => True) := by
  obtain ⟨fileId, overlay⟩ := entry
  unfold refreshRetained
  dsimp only
  split_ifs
  · exact Spec.pure trivial
  refine Triple.spec (Triple.get_bind fun m hm => ?_)
  have hkept : ∀ program : Act Unit, Spec Owned program (fun _ => True) →
      Triple (fun s => s = m) program (fun _ s => Owned s ∧ True) Owned := fun _ h =>
    (Triple.of_spec h).conseq (fun s hs => hs ▸ hm) (fun _ _ h => h) fun _ h => h
  split
  · rename_i status file _ hfile
    split_ifs
    · refine hkept _ (Spec.get_bind fun m _ => ?_)
      cases m.overlayJobIdentities.get fileId with
      | none => exact Spec.pure trivial
      | some identity =>
        exact Spec.bind (owned_clearActiveProgressOverlayIfJobIdentityMatches fileId identity) fun _ _ =>
          Spec.pure trivial
    · refine Triple.bind (Q := fun _ => Owned) (Triple.modify fun s hs => ?_) fun _ =>
        Triple.of_spec (frame_publish owned_frame file none)
      subst hs
      exact hm.setOverlay (by rw [hfile]; exact Option.some_ne_none file) _
    · exact hkept _ (Spec.pure trivial)
  · exact hkept _ (Spec.pure trivial)

/-! ### Roots -/

theorem Owned.put {m : Model} (h : Owned m) (file : RootFile) (m' : Model) (hfiles : m'.filesById = m.filesById.put file)
    (hoverlays : m'.activeProgressOverlays = m.activeProgressOverlays)
    (hidentities : m'.overlayJobIdentities = m.overlayJobIdentities)
    (hepochs : m'.overlayLifecycleEpochs = m.overlayLifecycleEpochs) : Owned m' where
  overlays fileId hid := by
    rw [hfiles, Table.get_put]
    split_ifs
    · exact Option.some_ne_none file
    · exact h.overlays fileId (hoverlays ▸ hid)
  identities fileId := by rw [hidentities, hoverlays]; exact h.identities fileId
  epochs fileId := by rw [hepochs, hidentities]; exact h.epochs fileId

theorem owned_addFile (file : RootFile) (structural : Option JobIdentity) :
    Spec Owned (addFile file structural) (fun _ => True) := by
  unfold addFile
  refine Spec.bind owned_clearActiveProgressOverlays fun _ _ => Spec.get_bind fun m hm => ?_
  split_ifs
  · exact Spec.throw
  · exact Spec.bind (Spec.set (hm.put file (m.withRoot file) rfl rfl rfl rfl)) fun _ _ =>
      frame_publish owned_frame file structural

theorem owned_updateFile (file : RootFile) (structural : Option JobIdentity) :
    Spec Owned (updateFile file structural) (fun _ => True) := by
  unfold updateFile
  refine Spec.get_bind fun m₀ _ => ?_
  generalize withPhysicalBase m₀ file = file
  refine Spec.bind (Spec.modify fun s hs => ?_) fun _ _ => Spec.bind owned_clearActiveProgressOverlays fun _ _ => ?_
  · split_ifs
    · exact hs.dropOverlay file.fileId
    · exact hs
  refine Spec.get_bind fun m _ => ?_
  cases m.filesById.get file.fileId with
  | none => exact Spec.throw
  | some oldFile =>
    refine Spec.bind (frame_ensurePublished owned_frame oldFile) fun _ _ => ?_
    exact Spec.bind (Spec.modify fun s hs => hs.put file _ (by rfl) (by rfl) (by rfl) (by rfl)) fun _ _ =>
      frame_publish owned_frame file structural

theorem Owned.dropRoot {m : Model} (h : Owned m) (fileId name : String) :
    Owned ((m.withoutRoot fileId).dropRoot fileId name) where
  overlays id hid := by
    rw [get_dropRoot]
    split_ifs with hsame
    · refine absurd ?_ hid
      exact (Dict.get_pop _ _ _).trans (if_pos hsame)
    · exact (h.dropOverlay fileId).overlays id hid
  identities := (h.dropOverlay fileId).identities
  epochs := (h.dropOverlay fileId).epochs

/-- A root that is found under its name takes its live counters along. -/
theorem removeFile_owned (identifier : String) :
    Triple (fun m => Indexed m ∧ Owned m) (removeFile identifier) (fun _ => Owned) Owned := by
  have hsame : ∀ m m', Indexed m ∧ Owned m → Undisturbed m m' → Indexed m' ∧ Owned m' := fun m m' h hsame =>
    ⟨indexed_same m m' h.1 hsame.sameIndex, owned_frame m m' h.2 hsame⟩
  unfold removeFile
  refine Triple.bind (Q := fun _ m => Indexed m ∧ Owned m) ((Triple.of_spec
    ((index_clearActiveProgressOverlays indexed_same).both owned_clearActiveProgressOverlays)).conseq
      (fun _ h => h) (fun _ _ h => h.1) fun _ h => h.2) fun _ => Triple.get_bind fun m hm => ?_
  refine Triple.bind (Q := fun _ s => s = m) (Triple.lift (fun _ _ _ hs => hs) fun _ _ s hs => hs ▸ hm.2) fun fileId => ?_
  refine Triple.get_bind fun s hs => ?_
  subst hs
  cases hfile : s.filesById.get fileId with
  | none => exact Triple.throw fun s' hs' => hs' ▸ hm.2
  | some file =>
    have hensure := Triple.of_spec (frame_ensurePublished
      (I := fun s' => (Indexed s' ∧ Owned s') ∧ s'.filesById = s.filesById) (fun m m' h hframe => ⟨hsame m m' h.1 hframe, hframe.roots.trans h.2⟩) file)
    refine Triple.bind (hensure.conseq (fun s' hs' => ?_) (fun _ _ h => h.1) fun _ h => h.1.2) fun _ => ?_
    · subst hs'
      exact ⟨hm, rfl⟩
    rintro s' ⟨⟨hindexed, howned⟩, hfiles⟩
    have hname : fileId ∈ (s'.withoutRoot fileId).namedIds file.name :=
      hindexed.listed fileId file (by rw [hfiles, hfile]; rfl)
    rw [run_modify_bind, run_get_bind, if_pos hname, run_modify_bind]
    exact owned_frame _ _ (howned.dropRoot fileId file.name) (undisturbed_announced _ file)

/-! ## Edits that keep the names -/

/-- An update gives the root of its id no other name. -/
def Edit.KeepsName (m : Model) : Edit → Prop
  | updateFile file _ => ∀ old ∈ m.filesById.get file.fileId, file.name = old.name
  | _ => True

theorem indexed_edit {m : Model} (hm : Indexed m) {edit : Edit} (h : edit.KeepsName m) :
    Indexed (edit.run.run.run m).2 := by
  cases edit with
  | addFile file structural => exact (index_addFile indexed_same (fun _ hm hnew => hm.withRoot hnew) structural m hm).1
  | updateFile file structural =>
    refine (@index_updateFile (fun s => Indexed s ∧ SameIndex m s)
      (fun s s' hs hsame => ⟨indexed_same s s' hs.1 hsame, hs.2.trans hsame⟩) Indexed indexed_same (fun _ hs => hs.1)
      file ?_ structural).run ⟨hm, .refl m⟩
    rintro s file' hid hname old hold ⟨hs, hsame⟩ -
    rw [hsame.roots] at hold
    refine hs.put ?_ (hname.trans (h old hold))
    rw [hsame.roots, hid]
    exact hold
  | removeFile identifier =>
    refine (index_removeFile indexed_same (fun m fileId file hfile hm _ => hm.dropRoot hfile) ?_ identifier m hm).1
    exact fun m fileId file hfile hm _ hunlisted => absurd (hm.listed fileId file hfile) hunlisted
  | clearActiveProgressOverlays => exact (index_clearActiveProgressOverlays indexed_same m hm).1

/-- All that the model keeps beside its roots belongs to them. -/
structure Represented (m : Model) : Prop extends Indexed m, Owned m

theorem represented_edit {m : Model} (hm : Represented m) {edit : Edit} (h : edit.KeepsName m) :
    Represented (edit.run.run.run m).2 := by
  refine ⟨indexed_edit hm.toIndexed h, ?_⟩
  cases edit with
  | addFile file structural => exact (owned_addFile file structural m hm.toOwned).1
  | updateFile file structural => exact (owned_updateFile file structural m hm.toOwned).1
  | removeFile identifier => exact (removeFile_owned identifier).run ⟨hm.toIndexed, hm.toOwned⟩
  | clearActiveProgressOverlays => exact (owned_clearActiveProgressOverlays m hm.toOwned).1

theorem represented_clearActiveProgressOverlays : Spec Represented clearActiveProgressOverlays (fun _ => True) :=
  fun m hm => ⟨@represented_edit m hm .clearActiveProgressOverlays trivial, fun _ _ => trivial⟩

/-- Every edit keeps the names of the model that it is made on. -/
def KeepNames (m : Model) : List Edit → Prop
  | [] => True
  | edit :: edits => edit.KeepsName m ∧ ∀ m', edit.run.run.run m = (.ok (), m') → KeepNames m' edits

/-- What an edit that keeps the names does not break, an operation of such edits does not break. -/
theorem operation_of_edits {I : Model → Prop} {operation : Operation}
    (hedit : ∀ edit ∈ operation.edits, ∀ m, I m → edit.KeepsName m → I (edit.run.run.run m).2) {m : Model} (hm : I m)
    (h : KeepNames m operation.edits) : I (operation.run.run.run m).2 := by
  have hedits : ∀ edits, (∀ edit ∈ edits, edit ∈ operation.edits) → ∀ m, I m → KeepNames m edits →
      I ((edits.forM Edit.run).run.run m).2 := by
    intro edits
    induction edits with
    | nil => exact fun _ m hm _ => hm
    | cons edit edits ih =>
      intro hmem m hm h
      have hone := hedit edit (hmem edit List.mem_cons_self) m hm h.1
      rcases hrun : edit.run.run.run m with ⟨e | ⟨⟩, m'⟩
      · rw [hrun] at hone
        change I ((edit.run >>= fun _ => edits.forM Edit.run).run.run m).2
        rw [run_bind_of_error hrun]
        exact hone
      · rw [hrun] at hone
        change I ((edit.run >>= fun _ => edits.forM Edit.run).run.run m).2
        rw [run_bind_of_ok hrun]
        exact ih (fun e he => hmem e (List.mem_cons_of_mem _ he)) m' hone (h.2 m' hrun)
  have hall := hedits operation.edits (fun _ h => h) m hm h
  unfold Operation.run
  rcases hrun : (operation.edits.forM Edit.run).run.run m with ⟨e | ⟨⟩, m'⟩
  · rw [hrun] at hall
    rw [run_bind_of_error hrun]
    exact hall
  · rw [hrun] at hall
    rw [run_bind_of_ok hrun]
    split_ifs <;> exact hall

/-- The state in which the operation of a replacement runs. -/
def Model.retaining (m : Model) (retireFileIds : List String) : Model :=
  let retired := retireFileIds.dedup.foldl Model.retire m
  { retired with suppressActiveProgressClear := retired.suppressActiveProgressClear + 1 }

/-- The call keeps the names of the model that it is made on. -/
def Call.KeepsNames (m : Model) : Call → Prop
  | updateFile file structural => (Edit.updateFile file structural).KeepsName m
  | applyWithActiveProgressRetained operation retireFileIds => KeepNames (m.retaining retireFileIds) operation.edits
  | applyAuthoritativeRootReplacement operation statuses epochFor =>
    let retired := retiredRoots m statuses epochFor
    KeepNames ((m.replacing (physicalBases m statuses retired)).retaining retired) operation.edits
  | _ => True

/-- Every call keeps the names of the model that it is made on. -/
def CallsKeepNames (m : Model) : List Call → Prop
  | [] => True
  | call :: calls => call.KeepsNames m ∧ CallsKeepNames (call.apply m) calls

/-! ## Replacements -/

theorem represented_same {m m' : Model} (h : Represented m) (hindex : SameIndex m m')
    (hoverlays : m'.activeProgressOverlays = m.activeProgressOverlays)
    (hidentities : m'.overlayJobIdentities = m.overlayJobIdentities)
    (hepochs : m'.overlayLifecycleEpochs = m.overlayLifecycleEpochs) : Represented m' := by
  refine ⟨indexed_same m m' h.toIndexed hindex, fun fileId => ?_, fun fileId => ?_, fun fileId => ?_⟩
  · rw [hoverlays, hindex.roots]
    exact h.overlays fileId
  · rw [hidentities, hoverlays]
    exact h.identities fileId
  · rw [hepochs, hidentities]
    exact h.epochs fileId

theorem represented_frame (m m' : Model) (h : Represented m) (hsame : Undisturbed m m') : Represented m' :=
  represented_same h hsame.sameIndex hsame.overlays hsame.identities hsame.epochs

theorem Represented.retaining {m : Model} (h : Represented m) (retireFileIds : List String) :
    Represented (m.retaining retireFileIds) := by
  have hretired : Represented (retireFileIds.dedup.foldl Model.retire m) :=
    ⟨indexed_same _ _ h.toIndexed (foldl_sameIndex sameIndex_retire _ m), @Owned.foldl m h.toOwned Model.retire
      (fun _ id hm => ⟨(hm.dropOverlay id).overlays, (hm.dropOverlay id).identities, (hm.dropOverlay id).epochs⟩) _⟩
  exact represented_same hretired ⟨rfl, rfl, rfl, fun _ h => h⟩ rfl rfl rfl

theorem represented_applyWithActiveProgressRetained {m : Model} (hm : Represented m) {operation : Operation}
    {retireFileIds : List String} (h : KeepNames (m.retaining retireFileIds) operation.edits) :
    Triple (fun s => s = m) (applyWithActiveProgressRetained operation retireFileIds) (fun _ => Represented)
      Represented := by
  unfold applyWithActiveProgressRetained
  refine Triple.bind (Q := fun _ s => s = retireFileIds.dedup.foldl Model.retire m)
    (Triple.modify fun s hs => hs ▸ rfl) fun _ => ?_
  refine Triple.bind (Q := fun _ s => s = m.retaining retireFileIds) (Triple.modify fun s hs => hs ▸ rfl) fun _ => ?_
  refine triple_finallyDo (Triple.of_run (operation_of_edits (fun _ _ m hm h => represented_edit hm h)
    (hm.retaining retireFileIds) h)) (Triple.keep ?_)
  refine Spec.bind (Spec.modify fun s hs => represented_same hs ⟨rfl, rfl, rfl, fun _ h => h⟩ rfl rfl rfl) fun _ _ => ?_
  refine Spec.bind (frame_publishRetired represented_frame _) fun _ _ => ?_
  exact Spec.modify fun s hs => represented_same hs ⟨rfl, rfl, rfl, fun _ h => h⟩ rfl rfl rfl

theorem represented_applyAuthoritativeRootReplacement {m : Model} (hm : Represented m) {operation : Operation}
    {statuses : Dict String LftpJobStatus} {epochFor : String → Option Int}
    (h : (Call.applyAuthoritativeRootReplacement operation statuses epochFor).KeepsNames m) :
    Represented ((applyAuthoritativeRootReplacement operation statuses epochFor).run.run m).2 := by
  unfold applyAuthoritativeRootReplacement
  rw [run_get_bind]
  dsimp only
  rw [run_set_bind]
  have hreplacing : ∀ fallbacks, Represented (m.replacing fallbacks) := fun fallbacks =>
    represented_same hm ⟨rfl, rfl, rfl, fun _ h => h⟩ rfl rfl rfl
  refine Triple.run (Triple.bind (triple_finallyDo (represented_applyWithActiveProgressRetained (hreplacing _) h)
    (Triple.modify fun s hs => ?_)) fun _ => Triple.keep (Spec.get_bind fun after _ => Spec.forM _ fun entry _ => ?_)) rfl
  · exact represented_same hs ⟨rfl, rfl, rfl, fun _ h => h⟩ rfl rfl rfl
  · intro s hs
    exact ⟨⟨(index_refreshRetained indexed_same _ _ statuses entry s hs.toIndexed).1,
      (owned_refreshRetained _ _ statuses entry s hs.toOwned).1⟩, fun _ _ => trivial⟩

/-! ## Edits that are refused -/

def Error.IsModelError : Error → Prop
  | modelError _ => True
  | _ => False

/-- A setter refuses a value with `ValueError`. -/
theorem effective_error {row : Row} {overlay : Option ActiveProgressOverlay} {e : Error}
    (h : row.effective overlay = .error e) : e = .valueError := by
  have hcount : ∀ value, setCount value = .error .valueError ∨ ∃ count, setCount value = .ok count := by
    intro value
    unfold setCount
    cases value with
    | none => exact Or.inr ⟨none, rfl⟩
    | some v => by_cases hv : 0 ≤ v <;> simp [hv]
  have hpercent : ∀ value, setPercent value = .error .valueError ∨ ∃ percent, setPercent value = .ok percent := by
    intro value
    unfold setPercent
    cases value with
    | none => exact Or.inr ⟨none, rfl⟩
    | some v => by_cases hv : 0 ≤ v ∧ v ≤ 100 <;> simp [hv]
  cases overlay with
  | none => cases h
  | some overlay =>
    unfold Row.effective FileRecord.withOverlay at h
    rcases hpercent overlay.downloadProgress with hp | ⟨_, hp⟩ <;>
      rcases hcount overlay.transferredSize with ht | ⟨_, ht⟩ <;>
        rcases hcount overlay.downloadingSpeed with hs | ⟨_, hs⟩ <;>
          rcases hcount overlay.eta with he | ⟨_, he⟩ <;>
            simp_all [Except.map, bind, Except.bind, pure, Except.pure]

section Refused

variable {R : Model → Model → Prop}

theorem raises_refreshPublishedFile (file : RootFile) (structural : Option JobIdentity) :
    Raises R Error.IsModelError (refreshPublishedFile file structural) := by
  intro m e h hbad
  rw [refreshPublishedFile_run] at h
  split at h
  · cases h
  · rename_i e' he
    cases h
    rw [effective_error he] at hbad
    exact hbad.elim

theorem raises_publish (file : RootFile) (structural : Option JobIdentity) :
    Raises R Error.IsModelError (do let _ ← refreshPublishedFile file structural; announce file) :=
  Raises.bind_never (raises_refreshPublishedFile file structural) fun _ => Raises.modify

theorem raises_ensurePublished (file : RootFile) : Raises R Error.IsModelError (ensurePublished file) := by
  unfold ensurePublished
  refine Raises.get_bind fun m => ?_
  split_ifs
  · exact Raises.bind_never (raises_refreshPublishedFile file none) fun _ => Raises.pure
  · exact Raises.pure

end Refused

theorem sameIndex_of_spec {α : Type} {program : Act α}
    (h : ∀ m, Spec (SameIndex m) program (fun _ => True)) (m : Model) : SameIndex m (program.run.run m).2 :=
  (h m m (.refl m)).1

theorem sameIndex_clearActiveProgressOverlays (m : Model) :
    SameIndex m (clearActiveProgressOverlays.run.run m).2 :=
  sameIndex_of_spec (fun _ => index_clearActiveProgressOverlays fun _ _ h h' => h.trans h') m

/-- An edit that the model refuses leaves the roots and their indexes as they are. -/
theorem refused_edit (edit : Edit) : Raises SameIndex Error.IsModelError edit.run := by
  have htrans : ∀ a b c : Model, SameIndex a b → SameIndex b c → SameIndex a c := fun _ _ _ h h' => h.trans h'
  have hrefused : ∀ {α : Type} (message : String),
      Raises SameIndex Error.IsModelError (throw (.modelError message) : Act α) := fun _ =>
    Raises.throw fun _ m => .refl m
  cases edit with
  | addFile file structural =>
    refine Raises.bind htrans sameIndex_clearActiveProgressOverlays fun _ => Raises.get_bind fun m => ?_
    split_ifs
    · exact hrefused _
    · exact Raises.bind_never Raises.set fun _ => raises_publish file structural
  | updateFile file structural =>
    refine Raises.get_bind fun m₀ => ?_
    generalize withPhysicalBase m₀ file = file
    refine Raises.bind htrans (sameIndex_of_spec fun _ =>
      index_retireActiveProjectionForCandidate (fun _ _ h h' => h.trans h') file) fun _ => ?_
    refine Raises.bind htrans sameIndex_clearActiveProgressOverlays fun _ => Raises.get_bind fun m => ?_
    cases m.filesById.get file.fileId with
    | none => exact hrefused _
    | some oldFile =>
      exact Raises.bind_never (raises_ensurePublished oldFile) fun _ =>
        Raises.bind_never Raises.modify fun _ => raises_publish file structural
  | removeFile identifier =>
    refine Raises.bind htrans sameIndex_clearActiveProgressOverlays fun _ => Raises.get_bind fun m => ?_
    refine Raises.bind htrans (fun _ => .refl _) fun fileId => Raises.get_bind fun m => ?_
    cases m.filesById.get fileId with
    | none => exact Raises.throw fun h => h.elim
    | some file =>
      refine Raises.bind_never (raises_ensurePublished file) fun _ => Raises.bind_never Raises.modify fun _ =>
        Raises.get_bind fun m => ?_
      split_ifs
      · exact Raises.bind_never Raises.modify fun _ => Raises.modify
      · exact Raises.throw fun h => h.elim
  | clearActiveProgressOverlays =>
    exact fun m _ _ _ => sameIndex_clearActiveProgressOverlays m

/-! ## Runs -/

/-- The calls that give live counters to roots alone. -/
def Call.OwnsCounters : Call → Prop
  | replaceActiveProgressOverlays _ _ => False
  | _ => True

theorem represented_call {m : Model} (hm : Represented m) {call : Call} (hcall : call.OwnsCounters)
    (h : call.KeepsNames m) : Represented (call.apply m) := by
  have hboth : ∀ {α : Type} (program : Act α), Spec Indexed program (fun _ => True) → Spec Owned program (fun _ => True) →
      Represented ((discard program).run.run m).2 := fun program hindexed howned => by
    rw [run_discard]
    exact ⟨(hindexed m hm.toIndexed).1, (howned m hm.toOwned).1⟩
  cases call with
  | addFile file structural => exact @represented_edit m hm (.addFile file structural) trivial
  | updateFile file structural => exact @represented_edit m hm (.updateFile file structural) h
  | removeFile identifier => exact @represented_edit m hm (.removeFile identifier) trivial
  | clearActiveProgressOverlays => exact @represented_edit m hm .clearActiveProgressOverlays trivial
  | clearActiveProgressOverlaysExcept preserved =>
    exact hboth _ (index_clearActiveProgressOverlaysExcept indexed_same preserved)
      (owned_clearActiveProgressOverlaysExcept preserved)
  | clearActiveProgressOverlayIfJobIdentityMatches fileId identity =>
    exact hboth _ (index_clearActiveProgressOverlayIfJobIdentityMatches indexed_same fileId identity)
      (owned_clearActiveProgressOverlayIfJobIdentityMatches fileId identity)
  | restoreActiveProgressOverlays overlays identities =>
    exact hboth _ (index_restoreActiveProgressOverlays indexed_same overlays identities)
      (owned_restoreActiveProgressOverlays overlays identities)
  | replaceActiveProgressOverlays overlays changed => exact hcall.elim
  | publishActiveLftpRootCounters overlays identities lifecycle =>
    exact hboth _ (index_publishActiveLftpRootCounters indexed_same overlays identities lifecycle)
      (owned_publishActiveLftpRootCounters overlays identities lifecycle)
  | applyWithActiveProgressRetained operation retire => exact (represented_applyWithActiveProgressRetained hm h).run rfl
  | applyAuthoritativeRootReplacement operation statuses epochFor =>
    exact represented_applyAuthoritativeRootReplacement hm h

theorem represented_run {calls : List Call} (hcalls : ∀ call ∈ calls, call.OwnsCounters) (h : CallsKeepNames {} calls) :
    Represented (run calls) := by
  suffices hm : ∀ m, Represented m → CallsKeepNames m calls → Represented (calls.foldl Call.apply m) from
    hm {} ⟨indexed_empty, owned_empty⟩ h
  clear h
  induction calls with
  | nil => exact fun m hm _ => hm
  | cons call calls ih =>
    intro m hm h
    exact ih (fun c hc => hcalls c (List.mem_cons_of_mem _ hc)) _
      (represented_call hm (hcalls call List.mem_cons_self) h.1) h.2

/-- In every state that such calls reach, order, names and live counters are those of the roots; and
an edit that any model refuses leaves its roots, their order and their names as they are. -/
theorem representation_kept (calls : List Call) (hcalls : ∀ call ∈ calls, call.OwnsCounters)
    (hnames : CallsKeepNames {} calls) :
    Represented (run calls) ∧ ∀ (m : Model) (edit : Edit) (message : String),
      (edit.run.run.run m).1 = .error (.modelError message) → SameIndex m (edit.run.run.run m).2 :=
  ⟨represented_run hcalls hnames, fun m edit _ h => refused_edit edit m _ h trivial⟩

/-- A root that grows. -/
def growingCalls : List Call :=
  [.addFile { name := "film", isDir := false, pathPairId := some "p", localSize := some 40 },
    .updateFile { name := "film", isDir := false, pathPairId := some "p", localSize := some 60 }]

theorem growingCalls_represented : Represented (run growingCalls) := by
  refine (representation_kept growingCalls (fun call hcall => ?_) ⟨trivial, ?_, trivial⟩).1
  · simp only [growingCalls, List.mem_cons, List.not_mem_nil, or_false] at hcall
    rcases hcall with rfl | rfl <;> trivial
  · change ∀ old ∈ _, _
    decide +kernel

/-- A root without a pair that is named as the id of a root of a pair takes its place, and is found under no name. -/
def namesakeCalls : List Call :=
  [.addFile { name := "x", isDir := false, pathPairId := some "p" },
    .updateFile { name := "[\"p\",\"x\"]", isDir := false }]

theorem namesake_unlisted :
    let m := run namesakeCalls
    let id := "[\"p\",\"x\"]"
    (m.filesById.get id).map (fun file => file.name) = some id ∧ m.namedIds id = [] ∧ m.namedIds "x" = [id] ∧
      ¬ Represented m ∧ ((removeFile id).run.run m).1.toOption = none ∧
      ((removeFile id).run.run m).2.filesById.get id = none ∧
      (((removeFile id).run.run m).2.publishedFile id).isSome := by
  refine ⟨by decide +kernel, by decide +kernel, by decide +kernel, fun h => ?_, by decide +kernel, by decide +kernel,
    by decide +kernel⟩
  have hroot : ∃ file ∈ (run namesakeCalls).filesById.get "[\"p\",\"x\"]", file.name = "x" :=
    (h.named "x" "[\"p\",\"x\"]").mp (by decide +kernel)
  exact absurd hroot (by decide +kernel)

end SeedSync.Live
