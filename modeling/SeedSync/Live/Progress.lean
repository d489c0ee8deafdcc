import SeedSync.Live.Coherent

/-!
# The counters of one job

How the counters that the live model shows of a job go on from one publication to the next, and
which of them outlive a replacement of the roots.
-/

namespace SeedSync.Live

open Lib

/-- A counter that is there does not fall. -/
def NotBelow (before now : Option Int) : Prop := ∀ v ∈ before, ∃ w ∈ now, v ≤ w

theorem NotBelow.refl (value : Option Int) : NotBelow value value := fun v hv => ⟨v, hv, le_rfl⟩

theorem NotBelow.trans {a b c : Option Int} (h : NotBelow a b) (h' : NotBelow b c) : NotBelow a c := by
  intro v hv
  obtain ⟨w, hw, hvw⟩ := h v hv
  obtain ⟨x, hx, hwx⟩ := h' w hw
  exact ⟨x, hx, hvw.trans hwx⟩

theorem notBelow_raised (shown : Option Int) (candidate : Option Nat) : NotBelow shown (raised shown candidate) := by
  intro v hv
  cases hv
  unfold raised
  split
  · exact ⟨v, rfl, le_rfl⟩
  · rename_i c
    split_ifs with h
    · have hlt : v < c := by simpa using h.2
      exact ⟨c, rfl, hlt.le⟩
    · exact ⟨v, rfl, le_rfl⟩

/-- Without a positive counter there is nothing to go on with. -/
theorem notBelow_continued {new prior : Option Int} (h : ∃ n ∈ new, 0 < n) : NotBelow prior (continued new prior) := by
  intro v hv
  cases hv
  obtain ⟨n, hn, hpos⟩ := h
  cases hn
  refine ⟨max n v, ?_, le_max_right n v⟩
  simp [continued, hpos]

/-! ## Counters that stay -/

/-- Every overlay was there at the start, with counters that were not above. -/
def Carried (start m : Model) : Prop :=
  ∀ fileId, ∀ now ∈ m.activeProgressOverlays.get fileId, ∃ before ∈ start.activeProgressOverlays.get fileId,
    NotBelow before.downloadProgress now.downloadProgress ∧ NotBelow before.transferredSize now.transferredSize

theorem Carried.refl (m : Model) : Carried m m :=
  fun _ now hnow => ⟨now, hnow, .refl _, .refl _⟩

theorem Carried.trans {a b c : Model} (h : Carried a b) (h' : Carried b c) : Carried a c := by
  intro fileId now hnow
  obtain ⟨mid, hmid, hprogress, htransferred⟩ := h' fileId now hnow
  obtain ⟨before, hbefore, hprogress', htransferred'⟩ := h fileId mid hmid
  exact ⟨before, hbefore, hprogress'.trans hprogress, htransferred'.trans htransferred⟩

variable {start : Model}

/-- Overlays that stay or go are carried. -/
theorem Carried.fewer {m : Model} (h : Carried start m) (m' : Model)
    (hfewer : ∀ fileId, m'.activeProgressOverlays.get fileId = m.activeProgressOverlays.get fileId ∨
      m'.activeProgressOverlays.get fileId = none) : Carried start m' := by
  intro fileId now hnow
  rcases hfewer fileId with hsame | hnone
  · exact h fileId now (hsame ▸ hnow)
  · rw [hnone] at hnow
    cases hnow

theorem Carried.same {m m' : Model} (h : Carried start m) (hsame : m'.activeProgressOverlays = m.activeProgressOverlays) :
    Carried start m' :=
  h.fewer m' fun fileId => Or.inl (by rw [hsame])

theorem Carried.dropOverlay {m : Model} (h : Carried start m) (m' : Model) (fileId : String)
    (hpop : m'.activeProgressOverlays = m.activeProgressOverlays.pop fileId) : Carried start m' := by
  refine h.fewer m' fun other => ?_
  rw [hpop, Dict.get_pop]
  split_ifs
  · exact Or.inr rfl
  · exact Or.inl rfl

theorem carried_frame (m m' : Model) (h : Carried start m) (hsame : Undisturbed m m') : Carried start m' :=
  h.same hsame.overlays

theorem carried_clearActiveProgressOverlays : Spec (Carried start) clearActiveProgressOverlays (fun _ => True) := by
  unfold clearActiveProgressOverlays
  refine Spec.get_bind fun m hm => ?_
  split_ifs
  · exact Spec.pure trivial
  · refine Spec.bind (Spec.set (hm.fewer (m.withOverlays {} {} {}) fun _ => Or.inr rfl)) fun _ _ => ?_
    exact frame_republish carried_frame _

theorem carried_clearActiveProgressOverlayIfJobIdentityMatches (fileId : String) (identity : JobIdentity) :
    Spec (Carried start) (clearActiveProgressOverlayIfJobIdentityMatches fileId identity) (fun _ => True) := by
  unfold clearActiveProgressOverlayIfJobIdentityMatches
  refine Spec.get_bind fun m hm => ?_
  split_ifs
  · exact Spec.pure trivial
  · refine Spec.bind (Spec.set (hm.dropOverlay (m.dropOverlay fileId) fileId rfl)) fun _ _ => ?_
    exact Spec.bind (frame_republish carried_frame _) fun _ _ => Spec.pure trivial

/-! ## Replacements -/

theorem carried_addFile (file : RootFile) (structural : Option JobIdentity) :
    Spec (Carried start) (addFile file structural) (fun _ => True) := by
  unfold addFile
  refine Spec.bind carried_clearActiveProgressOverlays fun _ _ => Spec.get_bind fun m hm => ?_
  split_ifs
  · exact Spec.throw
  · exact Spec.bind (Spec.set (hm.same (by rfl))) fun _ _ => frame_publish carried_frame file structural

theorem carried_removeFile (identifier : String) : Spec (Carried start) (removeFile identifier) (fun _ => True) := by
  unfold removeFile
  refine Spec.bind carried_clearActiveProgressOverlays fun _ _ => Spec.get_bind fun _ _ => ?_
  refine Spec.bind (Spec.lift (Q := fun _ => True) fun _ _ => trivial) fun fileId _ => Spec.get_bind fun m _ => ?_
  cases m.filesById.get fileId with
  | none => exact Spec.throw
  | some file =>
    refine Spec.bind (frame_ensurePublished carried_frame file) fun _ _ => ?_
    refine Spec.bind (Spec.modify fun s hs => hs.same (by rfl)) fun _ _ => Spec.get_bind fun _ _ => ?_
    split_ifs
    · refine Spec.bind (Spec.modify fun s hs => hs.dropOverlay (s.dropRoot fileId file.name) fileId rfl) fun _ _ => ?_
      exact frame_announce carried_frame file
    · exact Spec.throw

theorem carried_updateFile (file : RootFile) (structural : Option JobIdentity) :
    Spec (Carried start) (updateFile file structural) (fun _ => True) := by
  unfold updateFile
  refine Spec.get_bind fun m₀ _ => ?_
  generalize withPhysicalBase m₀ file = file
  refine Spec.bind (Spec.modify fun s hs => ?_) fun _ _ => Spec.bind carried_clearActiveProgressOverlays fun _ _ => ?_
  · split_ifs
    · exact hs.dropOverlay (s.dropOverlay file.fileId) file.fileId rfl
    · exact hs
  refine Spec.get_bind fun m _ => ?_
  cases m.filesById.get file.fileId with
  | none => exact Spec.throw
  | some oldFile =>
    refine Spec.bind (frame_ensurePublished carried_frame oldFile) fun _ _ => ?_
    exact Spec.bind (Spec.modify fun s hs => hs.same (by rfl)) fun _ _ => frame_publish carried_frame file structural

theorem carried_edit (edit : Edit) : Spec (Carried start) edit.run (fun _ => True) := by
  cases edit with
  | addFile file structural => exact carried_addFile file structural
  | updateFile file structural => exact carried_updateFile file structural
  | removeFile identifier => exact carried_removeFile identifier
  | clearActiveProgressOverlays => exact carried_clearActiveProgressOverlays

/-- The overlays of the roots to retire are gone, and none that goes comes back. -/
theorem retained_carried (operation : Operation) (retireFileIds : List String) (m : Model) :
    Carried (retireFileIds.dedup.foldl Model.retire m)
      ((applyWithActiveProgressRetained operation retireFileIds).run.run m).2 := by
  unfold applyWithActiveProgressRetained
  rw [run_modify_bind, run_modify_bind]
  refine (spec_finallyDo (spec_operation fun edit _ => carried_edit edit) ?_ _ ((Carried.refl _).same (by rfl))).1
  refine Spec.bind (Spec.modify fun s hs => hs.same (by rfl)) fun _ _ => ?_
  refine Spec.bind (frame_publishRetired carried_frame _) fun _ _ => ?_
  exact Spec.modify fun s hs => hs.same (by rfl)

/-- The loop after a replacement raises counters, or drops them. -/
theorem carried_refreshRetained (replaced retired : List String) (statuses : Dict String LftpJobStatus)
    {entry : String × ActiveProgressOverlay} (hentry : start.activeProgressOverlays.get entry.1 = some entry.2) :
    Spec (Carried start) (refreshRetained replaced retired statuses entry) (fun _ => True) := by
  obtain ⟨fileId, overlay⟩ := entry
  unfold refreshRetained
  dsimp only
  split_ifs
  · exact Spec.pure trivial
  refine Spec.get_bind fun m _ => ?_
  split
  · rename_i status file _ _
    split_ifs
    · refine Spec.get_bind fun m _ => ?_
      cases m.overlayJobIdentities.get fileId with
      | none => exact Spec.pure trivial
      | some identity =>
        exact Spec.bind (carried_clearActiveProgressOverlayIfJobIdentityMatches fileId identity) fun _ _ =>
          Spec.pure trivial
    · refine Spec.bind (Spec.modify fun s hs other now hnow => ?_) fun _ _ => frame_publish carried_frame file none
      rcases Dict.eq_or_of_get_set hnow with ⟨rfl, rfl⟩ | hnow
      · exact ⟨overlay, hentry, notBelow_raised _ _, notBelow_raised _ _⟩
      · exact hs other now hnow
    · exact Spec.pure trivial
  · exact Spec.pure trivial

theorem authoritative_carried_retired (operation : Operation) (statuses : Dict String LftpJobStatus)
    (epochFor : String → Option Int) (m : Model) :
    let retired := retiredRoots m statuses epochFor
    Carried (retired.dedup.foldl Model.retire (m.replacing (physicalBases m statuses retired)))
      ((applyAuthoritativeRootReplacement operation statuses epochFor).run.run m).2 := by
  intro retired
  unfold applyAuthoritativeRootReplacement
  rw [run_get_bind]
  dsimp only
  rw [run_set_bind]
  have hreplaced := Triple.of_run (retained_carried operation retired (m.replacing (physicalBases m statuses retired)))
  generalize m.replacing (physicalBases m statuses retired) = m₁ at hreplaced ⊢
  have hcleanup : Triple (Carried (retired.dedup.foldl Model.retire m₁)) (modify fun after : Model => { after with
      physicalBaseFallbacks := m.physicalBaseFallbacks
      authoritativeReplacementDepth := after.authoritativeReplacementDepth - 1 } : Act Unit)
      (fun _ => Carried (retired.dedup.foldl Model.retire m₁)) (Carried (retired.dedup.foldl Model.retire m₁)) :=
    Triple.modify fun _ hs => hs.same (by rfl)
  refine Triple.run (P := fun s => s = m₁) (Triple.bind (triple_finallyDo hreplaced hcleanup) fun _ => ?_) rfl
  refine Triple.get_bind fun after hafter => ?_
  -- Every turn of the loop starts from the overlay that the list has of its root.
  have hloop : Spec (Carried after) (after.activeProgressOverlays.items.forM (refreshRetained
      (replacedRoots m.filesById.dict after.filesById.dict) retired statuses)) (fun _ => True) :=
    Spec.forM _ fun entry hentry => carried_refreshRetained _ _ _ ((Dict.get_eq_some _ _ _).mpr hentry)
  exact Triple.of_run (hafter.trans (hloop after (.refl after)).1)

theorem authoritative_carried (operation : Operation) (statuses : Dict String LftpJobStatus)
    (epochFor : String → Option Int) (m : Model) :
    let after := ((applyAuthoritativeRootReplacement operation statuses epochFor).run.run m).2
    Carried m after ∧ ∀ fileId ∈ retiredRoots m statuses epochFor, after.activeProgressOverlays.get fileId = none := by
  intro after
  have hcarried : Carried _ after := authoritative_carried_retired operation statuses epochFor m
  have hbase := (foldl_retire (retiredRoots m statuses epochFor).dedup
    (m.replacing (physicalBases m statuses (retiredRoots m statuses epochFor)))).2.2
  constructor
  · refine Carried.trans ((Carried.refl m).fewer _ fun fileId => ?_) hcarried
    rw [hbase]
    split_ifs
    · exact Or.inr rfl
    · exact Or.inl rfl
  · intro fileId hretired
    by_contra hsome
    obtain ⟨now, hnow⟩ := Option.ne_none_iff_exists'.mp hsome
    obtain ⟨before, hbefore, -⟩ := hcarried fileId now hnow
    rw [hbase, if_pos (List.mem_dedup.mpr hretired)] at hbefore
    cases hbefore

/-! ## New counters -/

/-- The counters of an admitted root are those of the row, or go on from those of its job. -/
theorem admitted_from {m : Model} (identities : Dict String JobIdentity) (lifecycle : Lifecycle)
    (entries : List (String × ActiveProgressOverlay)) {admission final : Admission}
    (h : entries.foldlM (admitCounter m identities lifecycle) admission = .ok final) {fileId : String}
    {now : ActiveProgressOverlay} (hnow : final.normalized.get fileId = some now) :
    admission.normalized.get fileId = some now ∨ ∃ new, (fileId, new) ∈ entries ∧
      ((m.overlayJobIdentities.get fileId = none ∧ now = new) ∨
        now = continuedOverlay new (m.activeProgressOverlays.get fileId)) := by
  induction entries generalizing admission with
  | nil => cases h; exact Or.inl hnow
  | cons entry entries ih =>
    obtain ⟨first, overlay⟩ := entry
    rw [List.foldlM_cons] at h
    obtain ⟨next, hnext, h⟩ := ok_of_bind h
    rcases ih h with hnow | ⟨new, hnew, hcases⟩
    · rcases admitCounter_cases hnext with ⟨_, -, _, -, -, -, hsame, -⟩ | ⟨identity, -, -, -, -, hset⟩
      · exact Or.inl (hsame ▸ hnow)
      · rcases hset with ⟨-, hset⟩ | ⟨hfirst, hset⟩
        all_goals
          rw [hset] at hnow
          rcases Dict.eq_or_of_get_set hnow with ⟨rfl, rfl⟩ | hnow
        · exact Or.inr ⟨overlay, List.mem_cons_self, Or.inr rfl⟩
        · exact Or.inl hnow
        · exact Or.inr ⟨_, List.mem_cons_self, Or.inl ⟨hfirst, rfl⟩⟩
        · exact Or.inl hnow
    · exact Or.inr ⟨new, List.mem_cons_of_mem _ hnew, hcases⟩

/-- The loop that retires the counters of replaced jobs. -/
theorem retireMismatches_spec {I : Model → Prop} (mismatches : Dict String JobIdentity)
    (h : ∀ fileId ∈ mismatches.keys, ∀ previous,
      Spec I (clearActiveProgressOverlayIfJobIdentityMatches fileId previous) (fun _ => True)) :
    Spec I ((sorted mismatches.keys).forM fun fileId => do
        match mismatches.get fileId with
        | some previous =>
          let _ ← clearActiveProgressOverlayIfJobIdentityMatches fileId previous
        | none => pure ()) (fun _ => True) := by
  refine Spec.forM _ fun fileId hmem => ?_
  cases mismatches.get fileId with
  | none => exact Spec.pure trivial
  | some previous => exact Spec.bind (h fileId (mem_sorted.mp hmem) previous) fun _ _ => Spec.pure trivial

/-- New counters replace those that are shown only if every row of the call is admitted. -/
theorem publish_cases (overlays : Dict String ActiveProgressOverlay) (identities : Dict String JobIdentity)
    (lifecycle : Lifecycle) (m : Model) :
    let after := ((publishActiveLftpRootCounters overlays identities lifecycle).run.run m).2
    Carried m after ∨ ∃ admission, overlays.items.foldlM (admitCounter m identities lifecycle) {} = .ok admission ∧
      after.activeProgressOverlays = admission.normalized := by
  unfold publishActiveLftpRootCounters
  rw [run_get_bind]
  dsimp only
  cases hfold : overlays.items.foldlM (admitCounter m identities lifecycle) {} with
  | error reason =>
    exact Or.inl (Spec.bind carried_clearActiveProgressOverlays (fun _ _ => Spec.pure (Q := fun _ => True) trivial)
      m (.refl m)).1
  | ok admission =>
    dsimp only
    split_ifs
    · exact Or.inl (Spec.bind (retireMismatches_spec admission.mismatches fun fileId _ previous =>
        carried_clearActiveProgressOverlayIfJobIdentityMatches fileId previous)
        (fun _ _ => Spec.pure (Q := fun _ => True) trivial) m (.refl m)).1
    · refine Or.inr ⟨admission, rfl, ?_⟩
      rw [run_set_bind]
      refine (Spec.bind (frame_republish (I := fun s => s.activeProgressOverlays = admission.normalized)
        (fun s s' hs hsame => hsame.overlays.trans hs) _) (fun _ _ => Spec.pure (Q := fun _ => True) trivial) _ ?_).1
      rfl

/-- What a publication leaves of the counters of a job. -/
theorem publish_continues (overlays : Dict String ActiveProgressOverlay) (identities : Dict String JobIdentity)
    (lifecycle : Lifecycle) (m : Model) {fileId : String} {job : JobIdentity}
    (hjob : m.overlayJobIdentities.get fileId = some job) {before now : ActiveProgressOverlay}
    (hbefore : m.activeProgressOverlays.get fileId = some before)
    (hnow : ((publishActiveLftpRootCounters overlays identities lifecycle).run.run m).2.activeProgressOverlays.get
      fileId = some now) :
    (NotBelow before.downloadProgress now.downloadProgress ∨
        ∃ new ∈ overlays.get fileId, ∀ n ∈ new.downloadProgress, n ≤ 0) ∧
      (NotBelow before.transferredSize now.transferredSize ∨
        ∃ new ∈ overlays.get fileId, ∀ n ∈ new.transferredSize, n ≤ 0) := by
  rcases publish_cases overlays identities lifecycle m with hcarried | ⟨admission, hfold, hafter⟩
  · obtain ⟨before', hbefore', hprogress, htransferred⟩ := hcarried fileId now hnow
    cases hbefore.symm.trans hbefore'
    exact ⟨Or.inl hprogress, Or.inl htransferred⟩
  · rw [hafter] at hnow
    rcases admitted_from identities lifecycle overlays.items hfold hnow with hnone | ⟨new, hnew, hcases⟩
    · cases hnone
    · have hnew := (Dict.get_eq_some _ _ _).mpr hnew
      rcases hcases with ⟨hnone, -⟩ | rfl
      · cases hjob.symm.trans hnone
      · rw [hbefore]
        constructor
        · by_cases hpos : ∃ n ∈ new.downloadProgress, 0 < n
          · exact Or.inl (notBelow_continued hpos)
          · exact Or.inr ⟨new, hnew, by simpa using hpos⟩
        · by_cases hpos : ∃ n ∈ new.transferredSize, 0 < n
          · exact Or.inl (notBelow_continued hpos)
          · exact Or.inr ⟨new, hnew, by simpa using hpos⟩

/-! ## Rows of older jobs -/

/-- What a row of a publication has to show; where one does not, every overlay is cleared. -/
structure RowAdmitted (m : Model) (identities : Dict String JobIdentity) (lifecycle : Lifecycle) (fileId : String) :
    Prop where
  identity : ∃ identity ∈ identities.get fileId, isValidIdentity identity = true
  root : ∃ file, m.filesById.get fileId = some file ∧ (admitsOverlay file = true ∨
    ∃ previous ∈ m.overlayJobIdentities.get fileId, identities.get fileId ≠ some previous)
  epochMatches : lifecycle.epochMatches fileId = true
  epoch : ∀ epochFor ∈ lifecycle.epochFor, ∃ epoch ∈ epochFor fileId,
    ∀ previous ∈ m.overlayLifecycleEpochs.get fileId, previous = epoch

theorem admitCounter_ok {m : Model} {identities : Dict String JobIdentity} {lifecycle : Lifecycle}
    {fileId : String} (h : RowAdmitted m identities lifecycle fileId) (admission : Admission)
    (overlay : ActiveProgressOverlay) :
    ∃ next, admitCounter m identities lifecycle admission (fileId, overlay) = .ok next := by
  obtain ⟨⟨identity, hidentity, hvalid⟩, ⟨file, hfile, hroot⟩, hmatches, hepoch⟩ := h
  have hidentity : identities.get fileId = some identity := hidentity
  have hfence : (lifecycle.epochFor.isSome &&
      (lifecycle.epochFor.bind fun epochFor => epochFor fileId).isNone) = false := by
    cases hfor : lifecycle.epochFor with
    | none => rfl
    | some epochFor =>
      obtain ⟨epoch, hep, -⟩ := hepoch epochFor hfor
      simp [Option.mem_def.mp hep]
  have hsame : ((m.overlayLifecycleEpochs.get fileId).any fun previous =>
      (lifecycle.epochFor.bind fun epochFor => epochFor fileId).any fun e => decide (previous ≠ e)) = false := by
    cases hfor : lifecycle.epochFor with
    | none => simp
    | some epochFor =>
      obtain ⟨epoch, hep, hprevious⟩ := hepoch epochFor hfor
      cases hstored : m.overlayLifecycleEpochs.get fileId with
      | none => rfl
      | some previous => simp [Option.mem_def.mp hep, hprevious previous hstored]
  unfold admitCounter
  simp only [hidentity, Option.filter_some, hvalid, if_true, hfile, hmatches, hfence, hsame, Bool.not_true,
    Bool.false_eq_true, if_false]
  cases hprevious : m.overlayJobIdentities.get fileId with
  | none =>
    have hadmits : admitsOverlay file = true := by simpa [hprevious] using hroot
    simp [hadmits]
  | some previous =>
    by_cases hne : previous = identity
    · have hadmits : admitsOverlay file = true := by simpa [hprevious, hidentity, hne] using hroot
      simp [hne, hadmits]
    · simp [hne]

theorem admitted_ok {m : Model} {identities : Dict String JobIdentity} {lifecycle : Lifecycle}
    (entries : List (String × ActiveProgressOverlay))
    (h : ∀ entry ∈ entries, RowAdmitted m identities lifecycle entry.1) (admission : Admission) :
    ∃ final, entries.foldlM (admitCounter m identities lifecycle) admission = .ok final := by
  induction entries generalizing admission with
  | nil => exact ⟨admission, rfl⟩
  | cons entry entries ih =>
    obtain ⟨next, hnext⟩ := admitCounter_ok (h entry List.mem_cons_self) admission entry.2
    obtain ⟨final, hfinal⟩ := ih (fun e he => h e (List.mem_cons_of_mem _ he)) next
    exact ⟨final, by rw [List.foldlM_cons, hnext]; exact hfinal⟩

/-- The row of an older job sets the call aside, and its root is none of those to clear. -/
theorem admitted_older {m : Model} {identities : Dict String JobIdentity} {lifecycle : Lifecycle} {fileId : String}
    {identity job : JobIdentity} (hidentity : identities.get fileId = some identity)
    (hjob : m.overlayJobIdentities.get fileId = some job) (holder : identity.1 < job.1)
    (entries : List (String × ActiveProgressOverlay)) {admission final : Admission}
    (h : entries.foldlM (admitCounter m identities lifecycle) admission = .ok final) :
    (admission.mismatches.get fileId = none → final.mismatches.get fileId = none) ∧
      (admission.rejected = true ∨ (∃ overlay, (fileId, overlay) ∈ entries) → final.rejected = true) := by
  induction entries generalizing admission with
  | nil =>
    cases h
    exact ⟨id, fun hor => hor.elim id fun ⟨_, hmem⟩ => by cases hmem⟩
  | cons entry entries ih =>
    obtain ⟨first, overlay⟩ := entry
    rw [List.foldlM_cons] at h
    obtain ⟨next, hnext, h⟩ := ok_of_bind h
    obtain ⟨hmismatches, hrejected⟩ := ih h
    have hstep : (admission.mismatches.get fileId = none → next.mismatches.get fileId = none) ∧
        (admission.rejected = true ∨ fileId = first → next.rejected = true) := by
      rcases admitCounter_cases hnext with ⟨other, hother, previous, hprevious, -, hrej, -, -, hmis⟩ |
        ⟨other, hother, hrej, hmis, -, hcases⟩
      · refine ⟨fun hnone => ?_, fun _ => hrej⟩
        rw [hmis]
        split_ifs with hnewer
        · rw [Dict.get_set, if_neg, hnone]
          rintro rfl
          cases hidentity.symm.trans hother
          cases hjob.symm.trans hprevious
          omega
        · exact hnone
      · refine ⟨fun hnone => hmis ▸ hnone, fun hor => ?_⟩
        rw [hrej]
        refine hor.resolve_right ?_
        rintro rfl
        cases hidentity.symm.trans hother
        rcases hcases with ⟨hsame, -⟩ | ⟨hnone, -⟩
        · cases hjob.symm.trans hsame
          omega
        · cases hjob.symm.trans hnone
    refine ⟨fun hnone => hmismatches (hstep.1 hnone), fun hor => hrejected ?_⟩
    rcases hor with hrej | ⟨overlay', hmem⟩
    · exact Or.inl (hstep.2 (Or.inl hrej))
    · rcases List.mem_cons.mp hmem with heq | hmem
      · cases heq
        exact Or.inl (hstep.2 (Or.inr rfl))
      · exact Or.inr ⟨overlay', hmem⟩

/-- What is known of the live counters of one root. -/
def SameCounters (m : Model) (fileId : String) (m' : Model) : Prop :=
  m'.activeProgressOverlays.get fileId = m.activeProgressOverlays.get fileId ∧
    m'.overlayJobIdentities.get fileId = m.overlayJobIdentities.get fileId

theorem sameCounters_clear_other {m : Model} {fileId other : String} (hne : other ≠ fileId) (previous : JobIdentity) :
    Spec (SameCounters m fileId) (clearActiveProgressOverlayIfJobIdentityMatches other previous) (fun _ => True) := by
  unfold clearActiveProgressOverlayIfJobIdentityMatches
  refine Spec.get_bind fun s hs => ?_
  split_ifs
  · exact Spec.pure trivial
  · have hdrop : SameCounters m fileId (s.dropOverlay other) :=
      ⟨(Dict.get_pop_ne _ hne).trans hs.1, (Dict.get_pop_ne _ hne).trans hs.2⟩
    refine Spec.bind (Spec.set hdrop) fun _ _ =>
      Spec.bind (frame_republish (fun s s' hs hsame => ?_) _) fun _ _ => Spec.pure trivial
    exact ⟨by rw [hsame.overlays]; exact hs.1, by rw [hsame.identities]; exact hs.2⟩

/-- Where every row is admitted, the row of an older job leaves the counters of its root. -/
theorem publish_older (overlays : Dict String ActiveProgressOverlay) (identities : Dict String JobIdentity)
    (lifecycle : Lifecycle) (m : Model)
    (hrows : ∀ fileId, (overlays.get fileId).isSome → RowAdmitted m identities lifecycle fileId) {fileId : String}
    (hrow : (overlays.get fileId).isSome) {identity job : JobIdentity} (hidentity : identities.get fileId = some identity)
    (hjob : m.overlayJobIdentities.get fileId = some job) (holder : identity.1 < job.1) :
    SameCounters m fileId ((publishActiveLftpRootCounters overlays identities lifecycle).run.run m).2 := by
  obtain ⟨admission, hfold⟩ := admitted_ok overlays.items
    (fun entry hentry => hrows entry.1 (by rw [(Dict.get_eq_some _ entry.1 entry.2).mpr hentry]; rfl)) {}
  obtain ⟨overlay, hoverlay⟩ := Option.isSome_iff_exists.mp hrow
  obtain ⟨hmismatches, hrejected⟩ := admitted_older hidentity hjob holder overlays.items hfold
  have hrejected : admission.rejected = true :=
    hrejected (Or.inr ⟨overlay, (Dict.get_eq_some _ _ _).mp hoverlay⟩)
  have hnot : fileId ∉ admission.mismatches.keys := by
    rw [Dict.mem_keys, not_not]
    exact hmismatches rfl
  unfold publishActiveLftpRootCounters
  rw [run_get_bind]
  dsimp only
  rw [hfold]
  dsimp only
  rw [if_pos hrejected]
  have hothers : ∀ other ∈ admission.mismatches.keys, ∀ previous, Spec (SameCounters m fileId)
      (clearActiveProgressOverlayIfJobIdentityMatches other previous) (fun _ => True) := by
    intro other hother previous
    refine sameCounters_clear_other ?_ previous
    rintro rfl
    exact hnot hother
  exact (Spec.bind (retireMismatches_spec admission.mismatches hothers)
    (fun _ _ => Spec.pure (Q := fun _ => True) trivial) m ⟨rfl, rfl⟩).1

/-! ## Runs -/

/-- The status and the epoch do not vouch for the job any more. -/
def Ended (job : JobIdentity) (status : Option LftpJobStatus) (storedEpoch epoch : Option Int) : Prop :=
  status = none ∨
    (∃ s ∈ status, statusIdentity s ≠ job ∨ s.isRunning = false ∨ (∃ v ∈ s.totalTransferState.sizeLocal, v ≤ 0) ∨
      ∃ v ∈ s.totalTransferState.percentLocal, v ≤ 0) ∨
    ∃ stored ∈ storedEpoch, epoch ≠ some stored

theorem keepsProjection_of_ended {job : JobIdentity} {status : Option LftpJobStatus} {storedEpoch epoch : Option Int}
    (h : Ended job status storedEpoch epoch) : keepsProjection job status storedEpoch epoch = false := by
  unfold keepsProjection
  rw [Bool.and_eq_false_iff]
  rcases h with rfl | ⟨s, hs, h⟩ | ⟨stored, hstored, hne⟩
  · exact Or.inl rfl
  · left
    rw [Option.mem_def.mp hs, Option.any_some]
    unfold isReset
    rcases h with h | h | ⟨v, hv, hle⟩ | ⟨v, hv, hle⟩
    · simp [h]
    · simp [h]
    · simp [Option.mem_def.mp hv, hle]
    · simp [Option.mem_def.mp hv, hle]
  · right
    rw [Option.mem_def.mp hstored]
    simp [hne]

theorem mem_retiredRoots {m : Model} {statuses : Dict String LftpJobStatus} {epochFor : String → Option Int}
    {fileId : String} {job : JobIdentity} (hjob : m.overlayJobIdentities.get fileId = some job)
    (h : Ended job (statuses.get fileId) (m.overlayLifecycleEpochs.get fileId) (epochFor fileId)) :
    fileId ∈ retiredRoots m statuses epochFor := by
  unfold retiredRoots
  refine List.mem_map.mpr ⟨(fileId, job), List.mem_filter.mpr ⟨(Dict.get_eq_some _ _ _).mp hjob, ?_⟩, rfl⟩
  rw [keepsProjection_of_ended h]
  rfl

end SeedSync.Live
