import SeedSync.Lib.Stateful
import SeedSync.Live.Model

/-!
# The steps of the live model

What the parts that all operations share do to the state.
-/

namespace SeedSync.Live

open Lib

theorem mem_sorted {ids : List String} {fileId : String} : fileId ∈ sorted ids ↔ fileId ∈ ids :=
  List.mem_insertionSort _

theorem withPublished_publishedFile (m : Model) (file : RootFile) (structural : Option JobIdentity) (row : Row)
    (fileId : String) : (m.withPublished file structural row).publishedFile fileId =
      if file.fileId = fileId then some row else m.publishedFile fileId :=
  Dict.get_set _ _ _ _

theorem dropRoot_publishedFile (m : Model) (fileId name other : String) :
    (m.dropRoot fileId name).publishedFile other = if fileId = other then none else m.publishedFile other :=
  Dict.get_pop _ _ _

theorem refreshPublishedFile_run (file : RootFile) (structural : Option JobIdentity) (m : Model) :
    (refreshPublishedFile file structural).run.run m =
      match file.toRow.effective (m.activeProgressOverlays.get file.fileId) with
      | .ok row => (.ok row, m.withPublished file structural row)
      | .error e => (.error e, m) := by
  unfold refreshPublishedFile
  rw [run_get_bind]
  cases file.toRow.effective (m.activeProgressOverlays.get file.fileId) <;> rfl

theorem finallyDo_run {α : Type} (body : Act α) (cleanup : Act Unit) (m : Model) :
    (finallyDo body cleanup).run.run m =
      match (cleanup.run.run (body.run.run m).2) with
      | (.ok _, m') => ((body.run.run m).1, m')
      | (.error e, m') => (.error e, m') := by
  change finallyDo body cleanup m = _
  unfold finallyDo
  change _ = match cleanup (body m).2 with
    | (.ok _, m') => ((body m).1, m')
    | (.error e, m') => (.error e, m')
  generalize body m = r
  obtain ⟨r, m'⟩ := r
  dsimp only
  generalize cleanup m' = c
  obtain ⟨c | c, m''⟩ := c <;> rfl

/-- What both the body and the cleanup keep is kept. -/
theorem spec_finallyDo {I : Model → Prop} {body cleanup : Act Unit} (hbody : Spec I body (fun _ => True))
    (hcleanup : Spec I cleanup (fun _ => True)) : Spec I (finallyDo body cleanup) (fun _ => True) := by
  intro m hm
  refine ⟨?_, fun _ _ => trivial⟩
  rw [finallyDo_run]
  have := (hcleanup _ (hbody m hm).1).1
  generalize cleanup.run.run (body.run.run m).2 = r at this ⊢
  obtain ⟨r | r, m'⟩ := r <;> exact this

/-- What no edit breaks, no operation of a caller breaks. -/
theorem spec_operation {I : Model → Prop} {operation : Operation}
    (hedit : ∀ edit ∈ operation.edits, Spec I edit.run (fun _ => True)) :
    Spec I operation.run (fun _ => True) := by
  unfold Operation.run
  refine Spec.bind (Spec.forM _ hedit) fun _ _ => ?_
  split_ifs
  · exact Spec.throw
  · exact Spec.pure trivial

/-- The cleanup has the last word, however the body ends. -/
theorem triple_finallyDo {P R Q : Model → Prop} {body cleanup : Act Unit} (hbody : Triple P body (fun _ => R) R)
    (hcleanup : Triple R cleanup (fun _ => Q) Q) : Triple P (finallyDo body cleanup) (fun _ => Q) Q := by
  intro m hm
  rw [finallyDo_run]
  have hQ := hcleanup.run (hbody.run hm)
  generalize body.run.run m = b at hQ ⊢
  generalize cleanup.run.run b.2 = c at hQ ⊢
  obtain ⟨c | c, m'⟩ := c
  · exact hQ
  · obtain ⟨b | b, m''⟩ := b <;> exact hQ

theorem withPhysicalBase_fileId (m : Model) (file : RootFile) : (withPhysicalBase m file).fileId = file.fileId := by
  unfold withPhysicalBase
  split
  · split_ifs <;> rfl
  · rfl

theorem withPhysicalBase_name (m : Model) (file : RootFile) : (withPhysicalBase m file).name = file.name := by
  unfold withPhysicalBase
  split
  · split_ifs <;> rfl
  · rfl

/-! ## Publication leaves the rest alone -/

/-- What a publication does not touch. -/
structure Undisturbed (m m' : Model) : Prop where
  roots : m'.filesById = m.filesById
  order : m'.orderedFileIds = m.orderedFileIds
  names : m'.fileIdsByName = m.fileIdsByName
  rows : ∀ fileId, m.publishedFile fileId ≠ none → m'.publishedFile fileId ≠ none
  overlays : m'.activeProgressOverlays = m.activeProgressOverlays
  identities : m'.overlayJobIdentities = m.overlayJobIdentities
  epochs : m'.overlayLifecycleEpochs = m.overlayLifecycleEpochs
  fallbacks : m'.physicalBaseFallbacks = m.physicalBaseFallbacks
  suppressed : m'.suppressActiveProgressClear = m.suppressActiveProgressClear

theorem Undisturbed.refl (m : Model) : Undisturbed m m := ⟨rfl, rfl, rfl, fun _ h => h, rfl, rfl, rfl, rfl, rfl⟩

theorem undisturbed_withPublished (m : Model) (file : RootFile) (structural : Option JobIdentity) (row : Row) :
    Undisturbed m (m.withPublished file structural row) := by
  refine ⟨rfl, rfl, rfl, fun fileId hrow => ?_, rfl, rfl, rfl, rfl, rfl⟩
  rw [withPublished_publishedFile]
  split_ifs
  · exact Option.some_ne_none row
  · exact hrow

theorem undisturbed_announced (m : Model) (file : RootFile) : Undisturbed m (m.announced file) :=
  ⟨rfl, rfl, rfl, fun _ hrow => hrow, rfl, rfl, rfl, rfl, rfl⟩

section Frame

variable {I : Model → Prop} (hI : ∀ m m', I m → Undisturbed m m' → I m')
include hI

theorem frame_refreshPublishedFile (file : RootFile) (structural : Option JobIdentity) :
    Spec I (refreshPublishedFile file structural) (fun _ => True) := by
  intro m hm
  rw [refreshPublishedFile_run]
  refine ⟨?_, fun _ _ => trivial⟩
  split
  · exact hI _ _ hm (undisturbed_withPublished m file structural _)
  · exact hm

theorem frame_announce (file : RootFile) : Spec I (announce file) (fun _ => True) :=
  Spec.modify fun m hm => hI _ _ hm (undisturbed_announced m file)

theorem frame_publish (file : RootFile) (structural : Option JobIdentity) :
    Spec I (do let _ ← refreshPublishedFile file structural; announce file) (fun _ => True) :=
  Spec.bind (frame_refreshPublishedFile hI file structural) fun _ _ => frame_announce hI file

theorem frame_republish (ids : List String) : Spec I (republish ids) (fun _ => True) := by
  refine Spec.forM ids fun fileId _ => Spec.get_bind fun m _ => ?_
  cases m.filesById.get fileId with
  | none => exact Spec.pure trivial
  | some file => exact frame_publish hI file none

theorem frame_set_republish {m' : Model} (h : I m') (ids : List String) :
    Spec I (do set m'; republish ids) (fun _ => True) :=
  Spec.bind (Spec.set h) fun _ _ => frame_republish hI ids

theorem frame_set_republish_return {m' : Model} (h : I m') (ids : List String) {α : Type} (a : α) :
    Spec I (do set m'; republish ids; return a) (fun _ => True) :=
  Spec.bind (Spec.set h) fun _ _ => Spec.bind (frame_republish hI ids) fun _ _ => Spec.pure trivial

theorem frame_publishRetired (ids : List String) : Spec I (publishRetired ids) (fun _ => True) := by
  refine Spec.forM ids fun fileId _ => Spec.get_bind fun m _ => ?_
  cases m.filesById.get fileId with
  | none => exact Spec.pure trivial
  | some file =>
    refine Spec.get_bind fun m _ => Spec.bind (frame_refreshPublishedFile hI file none) fun row _ => ?_
    split_ifs
    · exact frame_announce hI file
    · exact Spec.pure trivial

theorem frame_ensurePublished (file : RootFile) : Spec I (ensurePublished file) (fun _ => True) := by
  refine Spec.get_bind fun m _ => ?_
  split_ifs
  · exact Spec.bind (frame_refreshPublishedFile hI file none) fun _ _ => Spec.pure trivial
  · exact Spec.pure trivial

end Frame

/-! ## Counters -/

/-- What the loop over the counters does with one root: it stops, sets the row of another job
aside, or admits the counters, which go on from those of the same job. -/
theorem admitCounter_cases {m : Model} {identities : Dict String JobIdentity} {lifecycle : Lifecycle}
    {admission next : Admission} {fileId : String} {overlay : ActiveProgressOverlay}
    (h : admitCounter m identities lifecycle admission (fileId, overlay) = .ok next) :
    (∃ identity, identities.get fileId = some identity ∧
      ∃ previous, m.overlayJobIdentities.get fileId = some previous ∧ previous ≠ identity ∧ next.rejected = true ∧
        next.normalized = admission.normalized ∧ next.identities = admission.identities ∧
        next.mismatches =
          if previous.1 < identity.1 then admission.mismatches.set fileId previous else admission.mismatches) ∨
    (∃ identity, identities.get fileId = some identity ∧ next.rejected = admission.rejected ∧
      next.mismatches = admission.mismatches ∧
      next.identities = admission.identities.set fileId identity ∧
      ((m.overlayJobIdentities.get fileId = some identity ∧ next.normalized = admission.normalized.set fileId
          (continuedOverlay overlay (m.activeProgressOverlays.get fileId))) ∨
        (m.overlayJobIdentities.get fileId = none ∧
          next.normalized = admission.normalized.set fileId overlay))) := by
  unfold admitCounter at h
  dsimp only at h
  split at h
  · rename_i identity file hidentity hfile
    have hidentity := (Option.filter_eq_some_iff.mp hidentity).1
    -- The three fences of the lifecycle stop the loop.
    split at h
    · cases h
    split at h
    · cases h
    split at h
    · cases h
    split at h
    · rename_i previous hprevious
      split at h
      · rename_i hother
        cases h
        exact Or.inl ⟨identity, hidentity, previous, hprevious, hother, rfl, rfl, rfl, rfl⟩
      · rename_i hsame
        split at h
        · cases h
        · cases h
          rw [not_not.mp hsame] at hprevious
          exact Or.inr ⟨identity, hidentity, rfl, rfl, rfl, Or.inl ⟨hprevious, rfl⟩⟩
    · rename_i hprevious
      split at h
      · cases h
      · cases h
        exact Or.inr ⟨identity, hidentity, rfl, rfl, rfl, Or.inr ⟨hprevious, rfl⟩⟩
  · cases h

end SeedSync.Live
