import SeedSync.Live.Steps

/-!
# The model between two calls

A replacement holds back the clearing of the overlays and keeps the bytes of the jobs that are
gone. Both end with it, whether it raises or not, so a model is idle between any two calls.
-/

namespace SeedSync.Live

open Lib

/-- How many replacements run, and the bytes that the last of them keeps. -/
def Running (depth : Nat) (fallbacks : Dict String Nat) (m : Model) : Prop :=
  m.suppressActiveProgressClear = depth ∧ m.physicalBaseFallbacks = fallbacks

variable {depth : Nat} {fallbacks : Dict String Nat}

theorem running_frame (m m' : Model) (h : Running depth fallbacks m) (hsame : Undisturbed m m') :
    Running depth fallbacks m' :=
  ⟨hsame.suppressed.trans h.1, hsame.fallbacks.trans h.2⟩

theorem running_foldl {step : Model → String → Model}
    (hstep : ∀ m id, Running depth fallbacks m → Running depth fallbacks (step m id)) (ids : List String) {m : Model}
    (h : Running depth fallbacks m) : Running depth fallbacks (ids.foldl step m) := by
  induction ids generalizing m with
  | nil => exact h
  | cons id ids ih => exact ih (hstep m id h)

/-! ## Overlays -/

theorem running_clearActiveProgressOverlays :
    Spec (Running depth fallbacks) clearActiveProgressOverlays (fun _ => True) := by
  unfold clearActiveProgressOverlays
  refine Spec.get_bind fun m hm => ?_
  split_ifs
  · exact Spec.pure trivial
  · refine frame_set_republish running_frame ?_ _
    exact ⟨hm.1, hm.2⟩

theorem running_clearActiveProgressOverlaysExcept (preserved : List String) :
    Spec (Running depth fallbacks) (clearActiveProgressOverlaysExcept preserved) (fun _ => True) := by
  unfold clearActiveProgressOverlaysExcept
  refine Spec.get_bind fun m hm => frame_set_republish_return running_frame ?_ _ _
  refine running_foldl (fun _ _ h => ?_) _ hm
  exact ⟨h.1, h.2⟩

theorem running_clearActiveProgressOverlayIfJobIdentityMatches (fileId : String) (identity : JobIdentity) :
    Spec (Running depth fallbacks) (clearActiveProgressOverlayIfJobIdentityMatches fileId identity) (fun _ => True) := by
  unfold clearActiveProgressOverlayIfJobIdentityMatches
  refine Spec.get_bind fun m hm => ?_
  split_ifs
  · exact Spec.pure trivial
  · refine frame_set_republish_return running_frame ?_ _ _
    exact ⟨hm.1, hm.2⟩

theorem running_restoreActiveProgressOverlays (overlays : Dict String ActiveProgressOverlay)
    (identities : Dict String JobIdentity) :
    Spec (Running depth fallbacks) (restoreActiveProgressOverlays overlays identities) (fun _ => True) := by
  unfold restoreActiveProgressOverlays
  refine Spec.get_bind fun m hm => frame_set_republish_return running_frame ?_ _ _
  exact ⟨hm.1, hm.2⟩

theorem running_replaceActiveProgressOverlays (overlays : Dict String ActiveProgressOverlay) (changed : List String) :
    Spec (Running depth fallbacks) (replaceActiveProgressOverlays overlays changed) (fun _ => True) := by
  unfold replaceActiveProgressOverlays
  refine Spec.get_bind fun m hm => frame_set_republish_return running_frame ?_ _ _
  exact ⟨hm.1, hm.2⟩

theorem running_publishActiveLftpRootCounters (overlays : Dict String ActiveProgressOverlay)
    (identities : Dict String JobIdentity) (lifecycle : Lifecycle) :
    Spec (Running depth fallbacks) (publishActiveLftpRootCounters overlays identities lifecycle) (fun _ => True) := by
  unfold publishActiveLftpRootCounters
  refine Spec.get_bind fun m hm => ?_
  split
  · exact Spec.bind running_clearActiveProgressOverlays fun _ _ => Spec.pure trivial
  · rename_i admission _
    split_ifs
    · refine Spec.bind (Spec.forM _ fun fileId _ => ?_) fun _ _ => Spec.pure trivial
      cases admission.mismatches.get fileId with
      | none => exact Spec.pure trivial
      | some previous =>
        exact Spec.bind (running_clearActiveProgressOverlayIfJobIdentityMatches fileId previous) fun _ _ =>
          Spec.pure trivial
    · refine frame_set_republish_return running_frame ?_ _ _
      exact ⟨hm.1, hm.2⟩

/-! ## Roots -/

theorem running_addFile (file : RootFile) (structural : Option JobIdentity) :
    Spec (Running depth fallbacks) (addFile file structural) (fun _ => True) := by
  unfold addFile
  refine Spec.bind running_clearActiveProgressOverlays fun _ _ => Spec.get_bind fun m hm => ?_
  split_ifs
  · exact Spec.throw
  · exact Spec.bind (Spec.set ⟨hm.1, hm.2⟩) fun _ _ => frame_publish running_frame file structural

theorem running_removeFile (identifier : String) :
    Spec (Running depth fallbacks) (removeFile identifier) (fun _ => True) := by
  unfold removeFile
  refine Spec.bind running_clearActiveProgressOverlays fun _ _ => Spec.get_bind fun _ _ => ?_
  refine Spec.bind (Spec.lift (Q := fun _ => True) fun _ _ => trivial) fun fileId _ => Spec.get_bind fun m _ => ?_
  cases m.filesById.get fileId with
  | none => exact Spec.throw
  | some file =>
    refine Spec.bind (frame_ensurePublished running_frame file) fun _ _ => ?_
    refine Spec.bind (Spec.modify fun s hs => ⟨hs.1, hs.2⟩) fun _ _ => Spec.get_bind fun _ _ => ?_
    split_ifs
    · exact Spec.bind (Spec.modify fun s hs => ⟨hs.1, hs.2⟩) fun _ _ => frame_announce running_frame file
    · exact Spec.throw

theorem running_updateFile (file : RootFile) (structural : Option JobIdentity) :
    Spec (Running depth fallbacks) (updateFile file structural) (fun _ => True) := by
  unfold updateFile
  refine Spec.get_bind fun m₀ _ => ?_
  generalize withPhysicalBase m₀ file = file
  refine Spec.bind (Spec.modify fun s hs => ?_) fun _ _ => Spec.bind running_clearActiveProgressOverlays fun _ _ => ?_
  · split_ifs
    · exact ⟨hs.1, hs.2⟩
    · exact hs
  refine Spec.get_bind fun m _ => ?_
  cases m.filesById.get file.fileId with
  | none => exact Spec.throw
  | some oldFile =>
    refine Spec.bind (frame_ensurePublished running_frame oldFile) fun _ _ => ?_
    exact Spec.bind (Spec.modify fun s hs => ⟨hs.1, hs.2⟩) fun _ _ => frame_publish running_frame file structural

/-! ## Replacements -/

theorem running_edit (edit : Edit) : Spec (Running depth fallbacks) edit.run (fun _ => True) := by
  cases edit with
  | addFile file structural => exact running_addFile file structural
  | updateFile file structural => exact running_updateFile file structural
  | removeFile identifier => exact running_removeFile identifier
  | clearActiveProgressOverlays => exact running_clearActiveProgressOverlays

theorem running_applyWithActiveProgressRetained (operation : Operation) (retireFileIds : List String) :
    Triple (Running depth fallbacks) (applyWithActiveProgressRetained operation retireFileIds)
      (fun _ => Running depth fallbacks) (Running depth fallbacks) := by
  unfold applyWithActiveProgressRetained
  refine Triple.bind (Q := fun _ => Running depth fallbacks)
    (Triple.modify fun m hm => @running_foldl _ _ Model.retire (fun _ _ h => ⟨h.1, h.2⟩) _ _ hm) fun _ => ?_
  refine Triple.bind (Q := fun _ => Running (depth + 1) fallbacks)
    (Triple.modify fun m hm => ⟨congrArg (· + 1) hm.1, hm.2⟩) fun _ => ?_
  refine triple_finallyDo (Triple.keep (spec_operation fun edit _ => running_edit edit)) ?_
  refine Triple.bind (Q := fun _ => Running depth fallbacks)
    (Triple.modify fun m hm => ⟨congrArg (· - 1) hm.1, hm.2⟩) fun _ => ?_
  refine Triple.bind (Triple.keep (frame_publishRetired running_frame _)) fun _ => ?_
  exact Triple.modify fun m hm => ⟨hm.1, hm.2⟩

theorem running_refreshRetained (replaced retired : List String) (statuses : Dict String LftpJobStatus)
    (entry : String × ActiveProgressOverlay) :
    Spec (Running depth fallbacks) (refreshRetained replaced retired statuses entry) (fun _ => True) := by
  obtain ⟨fileId, overlay⟩ := entry
  unfold refreshRetained
  dsimp only
  split_ifs
  · exact Spec.pure trivial
  refine Spec.get_bind fun m _ => ?_
  split
  · rename_i status file _ _
    split_ifs
    · refine Spec.get_bind fun m _ => ?_
      cases m.overlayJobIdentities.get fileId with
      | none => exact Spec.pure trivial
      | some identity =>
        exact Spec.bind (running_clearActiveProgressOverlayIfJobIdentityMatches fileId identity) fun _ _ =>
          Spec.pure trivial
    · exact Spec.bind (Spec.modify fun s hs => ⟨hs.1, hs.2⟩) fun _ _ => frame_publish running_frame file none
    · exact Spec.pure trivial
  · exact Spec.pure trivial

theorem running_applyAuthoritativeRootReplacement (operation : Operation) (statuses : Dict String LftpJobStatus)
    (epochFor : String → Option Int) :
    Triple (Running depth fallbacks) (applyAuthoritativeRootReplacement operation statuses epochFor)
      (fun _ => Running depth fallbacks) (Running depth fallbacks) := by
  unfold applyAuthoritativeRootReplacement
  refine Triple.get_bind fun m hm => ?_
  dsimp only
  generalize physicalBases m statuses (retiredRoots m statuses epochFor) = kept
  refine Triple.bind (Q := fun _ => Running depth kept) (Triple.set fun _ _ => ⟨hm.1, rfl⟩) fun _ => ?_
  refine Triple.bind (triple_finallyDo (running_applyWithActiveProgressRetained operation _)
    (Triple.modify fun after hafter => ⟨hafter.1, hm.2⟩)) fun _ => ?_
  refine Triple.get_bind fun after hafter => (Triple.keep (Spec.forM _ fun entry _ =>
    running_refreshRetained _ _ statuses entry)).conseq (fun _ h => h ▸ hafter) (fun _ _ h => h) fun _ h => h

/-! ## Runs -/

theorem running_call (call : Call) (m : Model) (hm : Running depth fallbacks m) :
    Running depth fallbacks (call.apply m) := by
  have hdiscard : ∀ {α : Type} (program : Act α), Spec (Running depth fallbacks) program (fun _ => True) →
      Running depth fallbacks ((discard program).run.run m).2 := fun program h => by
    rw [run_discard]
    exact (h m hm).1
  cases call with
  | addFile file structural => exact (running_addFile file structural m hm).1
  | updateFile file structural => exact (running_updateFile file structural m hm).1
  | removeFile identifier => exact (running_removeFile identifier m hm).1
  | clearActiveProgressOverlays => exact (running_clearActiveProgressOverlays m hm).1
  | clearActiveProgressOverlaysExcept preserved => exact hdiscard _ (running_clearActiveProgressOverlaysExcept preserved)
  | clearActiveProgressOverlayIfJobIdentityMatches fileId identity =>
    exact hdiscard _ (running_clearActiveProgressOverlayIfJobIdentityMatches fileId identity)
  | restoreActiveProgressOverlays overlays identities =>
    exact hdiscard _ (running_restoreActiveProgressOverlays overlays identities)
  | replaceActiveProgressOverlays overlays changed =>
    exact hdiscard _ (running_replaceActiveProgressOverlays overlays changed)
  | publishActiveLftpRootCounters overlays identities lifecycle =>
    exact hdiscard _ (running_publishActiveLftpRootCounters overlays identities lifecycle)
  | applyWithActiveProgressRetained operation retire =>
    exact (running_applyWithActiveProgressRetained operation retire).run hm
  | applyAuthoritativeRootReplacement operation statuses epochFor =>
    exact (running_applyAuthoritativeRootReplacement operation statuses epochFor).run hm

/-- Between two calls no replacement runs. -/
theorem run_idle (calls : List Call) : Running 0 {} (run calls) := by
  suffices hm : ∀ m, Running 0 {} m → Running 0 {} (calls.foldl Call.apply m) from hm {} ⟨rfl, rfl⟩
  induction calls with
  | nil => exact fun m hm => hm
  | cons call calls ih => exact fun m hm => ih _ (running_call call m hm)

end SeedSync.Live
