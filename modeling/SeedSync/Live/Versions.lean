import SeedSync.Live.Names

/-!
# No visible change without a version

What one operation of the live model may do to the rows that readers see: where a row changes,
appears or goes, both versions grow and a notification names the root.
-/

namespace SeedSync.Live

open Lib

/-! ## The sum of the scope versions -/

namespace Model

def scopeTotal (m : Model) : Nat := (m.scopeVersions.items.map Prod.snd).sum

end Model

@[simp] theorem announced_version (m : Model) (file : RootFile) : (m.announced file).version = m.version + 1 := rfl

theorem announced_scopeVersion (m : Model) (file : RootFile) (scope : Option String) :
    (m.announced file).scopeVersion scope =
      if file.pathPairId = scope then m.scopeVersion scope + 1 else m.scopeVersion scope := by
  unfold Model.announced Model.scopeVersion
  dsimp only
  rw [Dict.get_set]
  split_ifs with h
  · rw [← h]
    rfl
  · rfl

theorem announced_scopeTotal (m : Model) (file : RootFile) : (m.announced file).scopeTotal = m.scopeTotal + 1 := by
  have hsum := Dict.setItem_sum m.scopeVersions.items file.pathPairId (m.scopeVersion file.pathPairId + 1)
  have hget : (Dict.getItem m.scopeVersions.items file.pathPairId).getD 0 = m.scopeVersion file.pathPairId := rfl
  rw [hget] at hsum
  unfold Model.scopeTotal Model.announced
  dsimp only [Dict.set]
  omega

/-! ## Two states of one model -/

/-- What `ModelFile` equality compares of a row, where there is one. -/
def Model.recordOf (m : Model) (fileId : String) : Option FileRecord := (m.publishedFile fileId).map Row.toFileRecord

/-- The notification tells of a change of the root between the two states: it carries versions
above the old ones and not above the new ones, for the pair of a root of that id, and of the one
that is shown in the end. -/
structure Tells (m m' : Model) (fileId : String) (notice : Notice) : Prop where
  names : notice.fileId = fileId
  globalVersion : m.version < notice.globalVersion ∧ notice.globalVersion ≤ m'.version
  scopeVersion : m.scopeVersion notice.scopeId < notice.scopeVersion ∧
    notice.scopeVersion ≤ m'.scopeVersion notice.scopeId
  owner : ∃ file : RootFile, file.fileId = fileId ∧ file.pathPairId = notice.scopeId
  shown : ∀ row ∈ m'.recordOf fileId, row.pathPairId = notice.scopeId

/-- Versions grow with every visible change, and all of them are told. -/
structure Tracked (m m' : Model) : Prop where
  version : m.version ≤ m'.version
  scopeVersion : ∀ scope, m.scopeVersion scope ≤ m'.scopeVersion scope
  balanced : m.version = m.scopeTotal → m'.version = m'.scopeTotal
  told : ∃ sent, m'.notices = m.notices ++ sent ∧
    ∀ fileId, m'.recordOf fileId ≠ m.recordOf fileId → ∃ notice ∈ sent, Tells m m' fileId notice

/-- The parts of the state that readers see. -/
structure SameFace (m m' : Model) : Prop where
  version : m'.version = m.version
  scopeVersions : m'.scopeVersions = m.scopeVersions
  notices : m'.notices = m.notices
  published : m'.publishedFilesById = m.publishedFilesById

theorem SameFace.refl (m : Model) : SameFace m m := ⟨rfl, rfl, rfl, rfl⟩

theorem SameFace.trans {a b c : Model} (hab : SameFace a b) (hbc : SameFace b c) : SameFace a c :=
  ⟨hbc.version.trans hab.version, hbc.scopeVersions.trans hab.scopeVersions, hbc.notices.trans hab.notices,
    hbc.published.trans hab.published⟩

theorem SameFace.scopeVersion {m m' : Model} (h : SameFace m m') (scope : Option String) :
    m'.scopeVersion scope = m.scopeVersion scope := by
  unfold Model.scopeVersion
  rw [h.scopeVersions]

theorem SameFace.scopeTotal {m m' : Model} (h : SameFace m m') : m'.scopeTotal = m.scopeTotal := by
  unfold Model.scopeTotal
  rw [h.scopeVersions]

theorem SameFace.tracked {m m' : Model} (h : SameFace m m') : Tracked m m' where
  version := h.version.ge
  scopeVersion scope := (h.scopeVersion scope).ge
  balanced hm := by rw [h.version, h.scopeTotal, hm]
  told := by
    refine ⟨[], by rw [h.notices, List.append_nil], fun fileId hne => absurd ?_ hne⟩
    unfold Model.recordOf Model.publishedFile
    rw [h.published]

theorem Tracked.refl (m : Model) : Tracked m m := (SameFace.refl m).tracked

theorem Tells.before {a b c : Model} {fileId : String} {notice : Notice} (h : Tells b c fileId notice)
    (hab : Tracked a b) : Tells a c fileId notice where
  names := h.names
  globalVersion := ⟨hab.version.trans_lt h.globalVersion.1, h.globalVersion.2⟩
  scopeVersion := ⟨(hab.scopeVersion _).trans_lt h.scopeVersion.1, h.scopeVersion.2⟩
  owner := h.owner
  shown := h.shown

theorem Tells.after {a b c : Model} {fileId : String} {notice : Notice} (h : Tells a b fileId notice)
    (hbc : Tracked b c) (hsame : c.recordOf fileId = b.recordOf fileId) : Tells a c fileId notice where
  names := h.names
  globalVersion := ⟨h.globalVersion.1, h.globalVersion.2.trans hbc.version⟩
  scopeVersion := ⟨h.scopeVersion.1, h.scopeVersion.2.trans (hbc.scopeVersion _)⟩
  owner := h.owner
  shown := by rw [hsame]; exact h.shown

theorem Tracked.trans {a b c : Model} (hab : Tracked a b) (hbc : Tracked b c) : Tracked a c where
  version := hab.version.trans hbc.version
  scopeVersion scope := (hab.scopeVersion scope).trans (hbc.scopeVersion scope)
  balanced ha := hbc.balanced (hab.balanced ha)
  told := by
    obtain ⟨first, hfirst, htold⟩ := hab.told
    obtain ⟨second, hsecond, htold'⟩ := hbc.told
    refine ⟨first ++ second, by rw [hsecond, hfirst, List.append_assoc], fun fileId hne => ?_⟩
    by_cases hsame : c.recordOf fileId = b.recordOf fileId
    · -- The row changed in the first part and is still the one it changed to.
      obtain ⟨notice, hmem, htells⟩ := htold fileId (hsame ▸ hne)
      exact ⟨notice, List.mem_append_left _ hmem, htells.after hbc hsame⟩
    · obtain ⟨notice, hmem, htells⟩ := htold' fileId hsame
      exact ⟨notice, List.mem_append_right _ hmem, htells.before hab⟩

/-! ## One root -/

/-- Only the row of one root differs. -/
structure OnlyRow (m m' : Model) (fileId : String) : Prop where
  version : m'.version = m.version
  scopeVersions : m'.scopeVersions = m.scopeVersions
  notices : m'.notices = m.notices
  others : ∀ other, other ≠ fileId → m'.publishedFile other = m.publishedFile other

/-- The root is told of after its row has changed. -/
theorem OnlyRow.tracked {m m' : Model} {file : RootFile} (h : OnlyRow m m' file.fileId)
    (hrow : ∀ row ∈ m'.recordOf file.fileId, row.pathPairId = file.pathPairId) : Tracked m (m'.announced file) := by
  have hscope : ∀ scope, m'.scopeVersion scope = m.scopeVersion scope := by
    intro scope
    unfold Model.scopeVersion
    rw [h.scopeVersions]
  refine ⟨?_, ?_, ?_, ?_⟩
  · rw [announced_version, h.version]
    exact Nat.le_succ _
  · intro scope
    rw [announced_scopeVersion, hscope]
    split_ifs <;> omega
  · intro hm
    have htotal : m'.scopeTotal = m.scopeTotal := by
      unfold Model.scopeTotal
      rw [h.scopeVersions]
    rw [announced_version, announced_scopeTotal, htotal, h.version, hm]
  · refine ⟨_, congrArg (· ++ _) h.notices, fun fileId hne => ?_⟩
    have hid : fileId = file.fileId := by
      by_contra hother
      refine hne ?_
      change (m'.publishedFile fileId).map _ = _
      rw [h.others fileId hother]
      rfl
    subst hid
    refine ⟨_, List.mem_singleton_self _, rfl, ?_, ?_, ⟨file, rfl, rfl⟩, hrow⟩
    · rw [announced_version, h.version]
      exact ⟨Nat.lt_succ_self _, le_rfl⟩
    · dsimp only
      rw [announced_scopeVersion, if_pos rfl, hscope]
      exact ⟨Nat.lt_succ_self _, le_rfl⟩

/-! ## Operations -/

theorem withOverlay_pathPairId {file shown : FileRecord} {overlay : ActiveProgressOverlay}
    (h : file.withOverlay overlay = .ok shown) : shown.pathPairId = file.pathPairId := by
  unfold FileRecord.withOverlay at h
  obtain ⟨progress, -, h⟩ := ok_of_bind h
  obtain ⟨transferred, -, h⟩ := ok_of_bind h
  obtain ⟨speed, -, h⟩ := ok_of_bind h
  obtain ⟨eta, -, h⟩ := ok_of_bind h
  cases h
  rfl

theorem effective_pathPairId {row shown : Row} {overlay : Option ActiveProgressOverlay}
    (h : row.effective overlay = .ok shown) : shown.pathPairId = row.pathPairId := by
  cases overlay with
  | none => cases h; rfl
  | some overlay =>
    unfold Row.effective at h
    cases hw : row.materialized.withOverlay overlay with
    | error e => simp [hw, Except.map] at h
    | ok record =>
      simp only [hw, Except.map, Except.ok.injEq] at h
      subst h
      exact (withOverlay_pathPairId hw).trans rfl

/-- Whether a row can be shown depends on the overlay alone. -/
theorem effective_ok_of {row shown : Row} {overlay : Option ActiveProgressOverlay}
    (h : row.effective overlay = .ok shown) (row' : Row) : ∃ shown', row'.effective overlay = .ok shown' := by
  cases overlay with
  | none => exact ⟨_, rfl⟩
  | some overlay =>
    unfold Row.effective FileRecord.withOverlay at h ⊢
    cases hp : setPercent overlay.downloadProgress <;> cases ht : setCount overlay.transferredSize <;>
      cases hs : setCount overlay.downloadingSpeed <;> cases he : setCount overlay.eta <;>
      simp_all [Except.map, bind, Except.bind, pure, Except.pure]

theorem OnlyRow.withPublished {m m' : Model} {file : RootFile} (h : OnlyRow m m' file.fileId)
    (structural : Option JobIdentity) (row : Row) : OnlyRow m (m'.withPublished file structural row) file.fileId where
  version := h.version
  scopeVersions := h.scopeVersions
  notices := h.notices
  others other hne := by rw [withPublished_publishedFile, if_neg (Ne.symm hne), h.others other hne]

theorem SameFace.onlyRow {m m' : Model} (h : SameFace m m') (fileId : String) : OnlyRow m m' fileId where
  version := h.version
  scopeVersions := h.scopeVersions
  notices := h.notices
  others other _ := by rw [Model.publishedFile, h.published]; rfl

/-- A root is shown anew and told of. -/
theorem OnlyRow.tracked_withPublished {m m' : Model} {file : RootFile} (h : OnlyRow m m' file.fileId)
    (structural : Option JobIdentity) {row : Row} {overlay : Option ActiveProgressOverlay}
    (hrow : file.toRow.effective overlay = .ok row) :
    Tracked m ((m'.withPublished file structural row).announced file) := by
  refine (h.withPublished structural row).tracked fun shown hshown => ?_
  rw [Model.recordOf, withPublished_publishedFile, if_pos rfl] at hshown
  cases hshown
  exact effective_pathPairId hrow

section Spec

variable {start : Model}

/-- Steps that readers do not see. -/
theorem Tracked.hidden {m m' : Model} (h : Tracked start m) (hsame : SameFace m m') : Tracked start m' :=
  h.trans hsame.tracked

theorem tracked_publish (file : RootFile) (structural : Option JobIdentity) :
    Spec (Tracked start) (do let _ ← refreshPublishedFile file structural; announce file) (fun _ => True) := by
  intro m hm
  refine ⟨?_, fun _ _ => trivial⟩
  have hrun := refreshPublishedFile_run file structural m
  cases heff : file.toRow.effective (m.activeProgressOverlays.get file.fileId) with
  | error e =>
    rw [heff] at hrun
    rw [run_bind_of_error hrun]
    exact hm
  | ok row =>
    rw [heff] at hrun
    rw [run_bind_of_ok hrun]
    exact hm.trans (((SameFace.refl m).onlyRow file.fileId).tracked_withPublished structural heff)

theorem tracked_republish (ids : List String) : Spec (Tracked start) (republish ids) (fun _ => True) := by
  unfold republish
  refine Spec.forM ids fun fileId _ => Spec.get_bind fun m _ => ?_
  cases m.filesById.get fileId with
  | none => exact Spec.pure trivial
  | some file => exact tracked_publish file none

theorem tracked_clearActiveProgressOverlays :
    Spec (Tracked start) clearActiveProgressOverlays (fun _ => True) := by
  unfold clearActiveProgressOverlays
  refine Spec.get_bind fun m hm => ?_
  split_ifs
  · exact Spec.pure trivial
  · exact Spec.bind (Spec.set (hm.hidden ⟨rfl, rfl, rfl, rfl⟩)) fun _ _ => tracked_republish _

theorem foldl_dropOverlay_sameFace (ids : List String) (m : Model) : SameFace m (ids.foldl Model.dropOverlay m) := by
  induction ids generalizing m with
  | nil => exact .refl m
  | cons id ids ih =>
    have hdrop : SameFace m (m.dropOverlay id) := ⟨rfl, rfl, rfl, rfl⟩
    exact hdrop.trans (ih (m.dropOverlay id))

theorem tracked_clearActiveProgressOverlaysExcept (preserved : List String) :
    Spec (Tracked start) (clearActiveProgressOverlaysExcept preserved) (fun _ => True) := by
  unfold clearActiveProgressOverlaysExcept
  refine Spec.get_bind fun m hm => Spec.bind (Spec.set (hm.hidden (foldl_dropOverlay_sameFace _ m))) fun _ _ => ?_
  exact Spec.bind (tracked_republish _) fun _ _ => Spec.pure trivial

theorem tracked_restoreActiveProgressOverlays (overlays : Dict String ActiveProgressOverlay)
    (identities : Dict String JobIdentity) :
    Spec (Tracked start) (restoreActiveProgressOverlays overlays identities) (fun _ => True) := by
  unfold restoreActiveProgressOverlays
  refine Spec.get_bind fun m hm => Spec.bind (Spec.set (hm.hidden ⟨rfl, rfl, rfl, rfl⟩)) fun _ _ => ?_
  exact Spec.bind (tracked_republish _) fun _ _ => Spec.pure trivial

theorem tracked_clearActiveProgressOverlayIfJobIdentityMatches (fileId : String) (identity : JobIdentity) :
    Spec (Tracked start) (clearActiveProgressOverlayIfJobIdentityMatches fileId identity) (fun _ => True) := by
  unfold clearActiveProgressOverlayIfJobIdentityMatches
  refine Spec.get_bind fun m hm => ?_
  split_ifs
  · exact Spec.pure trivial
  · refine Spec.bind (Spec.set (hm.hidden ⟨rfl, rfl, rfl, rfl⟩)) fun _ _ => ?_
    exact Spec.bind (tracked_republish _) fun _ _ => Spec.pure trivial

theorem tracked_replaceActiveProgressOverlays (overlays : Dict String ActiveProgressOverlay) (changed : List String) :
    Spec (Tracked start) (replaceActiveProgressOverlays overlays changed) (fun _ => True) := by
  unfold replaceActiveProgressOverlays
  refine Spec.get_bind fun m hm => Spec.bind (Spec.set (hm.hidden ⟨rfl, rfl, rfl, rfl⟩)) fun _ _ => ?_
  exact Spec.bind (tracked_republish _) fun _ _ => Spec.pure trivial

theorem tracked_publishActiveLftpRootCounters (overlays : Dict String ActiveProgressOverlay)
    (identities : Dict String JobIdentity) (lifecycle : Lifecycle) :
    Spec (Tracked start) (publishActiveLftpRootCounters overlays identities lifecycle) (fun _ => True) := by
  unfold publishActiveLftpRootCounters
  refine Spec.get_bind fun m hm => ?_
  split
  · exact Spec.bind tracked_clearActiveProgressOverlays fun _ _ => Spec.pure trivial
  · rename_i admission _
    split_ifs
    · refine Spec.bind (Spec.forM _ fun fileId _ => ?_) fun _ _ => Spec.pure trivial
      cases admission.mismatches.get fileId with
      | none => exact Spec.pure trivial
      | some previous =>
        exact Spec.bind (tracked_clearActiveProgressOverlayIfJobIdentityMatches fileId previous) fun _ _ =>
          Spec.pure trivial
    · refine Spec.bind (Spec.set (hm.hidden ⟨rfl, rfl, rfl, rfl⟩)) fun _ _ => ?_
      exact Spec.bind (tracked_republish _) fun _ _ => Spec.pure trivial

/-! ### Roots -/

theorem tracked_addFile (file : RootFile) (structural : Option JobIdentity) :
    Spec (Tracked start) (addFile file structural) (fun _ => True) := by
  unfold addFile
  refine Spec.bind tracked_clearActiveProgressOverlays fun _ _ => Spec.get_bind fun m hm => ?_
  split_ifs
  · exact Spec.throw
  · exact Spec.bind (Spec.set (hm.hidden ⟨rfl, rfl, rfl, rfl⟩)) fun _ _ => tracked_publish file structural

/-- Where a root has no row yet, it gets one, unless its overlay cannot be shown. -/
theorem ensurePublished_run (file : RootFile) (m : Model) :
    (∃ m', (ensurePublished file).run.run m = (.ok (), m') ∧ OnlyRow m m' file.fileId ∧ Undisturbed m m' ∧
      (m' = m ∨ m.publishedFile file.fileId = none ∧
        ∃ row, file.toRow.effective (m.activeProgressOverlays.get file.fileId) = .ok row)) ∨
    ∃ e, (ensurePublished file).run.run m = (.error e, m) := by
  unfold ensurePublished
  rw [run_get_bind]
  split_ifs with hnone
  · have hnone : m.publishedFile file.fileId = none := by
      rw [Model.publishedFile]
      simpa [Dict.contains] using hnone
    have hrun := refreshPublishedFile_run file none m
    cases heff : file.toRow.effective (m.activeProgressOverlays.get file.fileId) with
    | error e =>
      rw [heff] at hrun
      exact Or.inr ⟨e, run_bind_of_error hrun _⟩
    | ok row =>
      rw [heff] at hrun
      exact Or.inl ⟨_, run_bind_of_ok hrun _, ((SameFace.refl m).onlyRow _).withPublished none row,
        undisturbed_withPublished m file none row, Or.inr ⟨hnone, row, rfl⟩⟩
  · exact Or.inl ⟨m, rfl, (SameFace.refl m).onlyRow _, .refl m, Or.inl rfl⟩

/-- A root that goes is told of. One that is not found under its name leaves its row behind. -/
theorem removeFile_tracked (identifier : String) :
    Triple (fun m => Tracked start m ∧ Accounted m) (removeFile identifier) (fun _ => Tracked start) (Tracked start) := by
  unfold removeFile
  refine Triple.bind (Q := fun _ m => Tracked start m ∧ Accounted m) ((Triple.of_spec
    (tracked_clearActiveProgressOverlays.both (index_clearActiveProgressOverlays accounted_same))).conseq
      (fun _ h => h) (fun _ _ h => h.1) fun _ h => h.1) fun _ => Triple.get_bind fun m hm => ?_
  refine Triple.bind (Q := fun _ s => s = m) (Triple.lift (fun _ _ _ hs => hs) fun _ _ s hs => hs ▸ hm.1) fun fileId => ?_
  refine Triple.get_bind fun s hs => Triple.of_run ?_
  subst hs
  obtain ⟨hm, haccounted⟩ := hm
  cases hfile : s.filesById.get fileId with
  | none => exact hm
  | some file =>
    have hid : file.fileId = fileId := s.filesById.keyed fileId file hfile
    subst hid
    dsimp only
    rcases ensurePublished_run file s with ⟨m', hrun, honly, hsame, hmade⟩ | ⟨e, hrun⟩
    · rw [run_bind_of_ok hrun, run_modify_bind, run_get_bind]
      have hbare : OnlyRow s (m'.withoutRoot file.fileId) file.fileId :=
        ⟨honly.version, honly.scopeVersions, honly.notices, honly.others⟩
      split_ifs with hname
      · have hdrop : OnlyRow s ((m'.withoutRoot file.fileId).dropRoot file.fileId file.name) file.fileId := by
          refine ⟨hbare.version, hbare.scopeVersions, hbare.notices, fun other hne => ?_⟩
          rw [dropRoot_publishedFile, if_neg (Ne.symm hne), hbare.others other hne]
        rw [run_modify_bind]
        refine hm.trans (hdrop.tracked fun row hrow => ?_)
        rw [Model.recordOf, dropRoot_publishedFile, if_pos rfl] at hrow
        cases hrow
      · have hunlisted : ¬ s.Listed file.fileId := fun hlisted =>
          hname ((hsame.sameIndex.namedIds file.name).symm ▸ hlisted file hfile)
        rcases hmade with rfl | ⟨hnone, -⟩
        · exact hm.hidden ⟨rfl, rfl, rfl, rfl⟩
        · exact absurd hnone ((haccounted file.fileId).resolve_left hunlisted)
    · rw [run_bind_of_error hrun]
      exact hm

theorem tracked_retireActiveProjectionForCandidate (file : RootFile) :
    Spec (Tracked start) (retireActiveProjectionForCandidate file) (fun _ => True) := by
  refine Spec.modify fun m hm => ?_
  split_ifs
  · exact hm.hidden ⟨rfl, rfl, rfl, rfl⟩
  · exact hm

theorem tracked_updateFile (file : RootFile) (structural : Option JobIdentity) :
    Spec (Tracked start) (updateFile file structural) (fun _ => True) := by
  unfold updateFile
  refine Spec.get_bind fun m _ => ?_
  generalize withPhysicalBase m file = file
  refine Spec.bind (tracked_retireActiveProjectionForCandidate file) fun _ _ => ?_
  refine Spec.bind tracked_clearActiveProgressOverlays fun _ _ => ?_
  intro m hm
  refine ⟨?_, fun _ _ => trivial⟩
  rw [run_get_bind]
  cases hfile : m.filesById.get file.fileId with
  | none => exact hm
  | some old =>
    have hid : old.fileId = file.fileId := m.filesById.keyed _ old hfile
    dsimp only
    rcases ensurePublished_run old m with ⟨m', hrun, honly, hsame, hmade⟩ | ⟨e, hrun⟩
    · rw [run_bind_of_ok hrun, run_modify_bind]
      have honly : OnlyRow m { m' with filesById := m'.filesById.put file } file.fileId :=
        ⟨honly.version, honly.scopeVersions, honly.notices, hid ▸ honly.others⟩
      have hpublish := refreshPublishedFile_run file structural { m' with filesById := m'.filesById.put file }
      cases heff : file.toRow.effective (m'.activeProgressOverlays.get file.fileId) with
      | ok row =>
        rw [heff] at hpublish
        rw [run_bind_of_ok hpublish]
        exact hm.trans (honly.tracked_withPublished structural heff)
      | error e =>
        rw [heff] at hpublish
        rw [run_bind_of_error hpublish]
        -- The old row cannot have been made under an overlay that cannot be shown.
        rcases hmade with rfl | ⟨-, row, hold⟩
        · exact hm.hidden ⟨rfl, rfl, rfl, rfl⟩
        · rw [hid, ← hsame.overlays] at hold
          obtain ⟨shown, hshown⟩ := effective_ok_of hold file.toRow
          rw [hshown] at heff
          cases heff
    · rw [run_bind_of_error hrun]
      exact hm

/-! ### Replacements -/

/-- What an edit keeps: the changes so far are told of, and the roots are accounted for. -/
theorem told_edit (edit : Edit) : Spec (fun m => Tracked start m ∧ Accounted m) edit.run (fun _ => True) := by
  have haccounted := accounted_edit edit
  cases edit with
  | addFile file structural => exact ((tracked_addFile file structural).both haccounted).trivial
  | updateFile file structural => exact ((tracked_updateFile file structural).both haccounted).trivial
  | removeFile identifier =>
    exact fun m hm => ⟨⟨(removeFile_tracked identifier).run hm, (haccounted m hm.2).1⟩, fun _ _ => trivial⟩
  | clearActiveProgressOverlays => exact (tracked_clearActiveProgressOverlays.both haccounted).trivial

theorem foldl_retire_sameFace (ids : List String) (m : Model) : SameFace m (ids.foldl Model.retire m) := by
  induction ids generalizing m with
  | nil => exact .refl m
  | cons id ids ih =>
    have hretire : SameFace m (m.retire id) := ⟨rfl, rfl, rfl, rfl⟩
    exact hretire.trans (ih (m.retire id))

/-- A retired root whose row stays the same is not told of. -/
theorem tracked_publishRetired (ids : List String) : Spec (Tracked start) (publishRetired ids) (fun _ => True) := by
  unfold publishRetired
  refine Spec.forM ids fun fileId _ => ?_
  intro m hm
  refine ⟨?_, fun _ _ => trivial⟩
  rw [run_get_bind]
  cases hfile : m.filesById.get fileId with
  | none => exact hm
  | some file =>
    have hid : file.fileId = fileId := m.filesById.keyed fileId file hfile
    subst hid
    dsimp only
    rw [run_get_bind]
    have hrun := refreshPublishedFile_run file none m
    cases heff : file.toRow.effective (m.activeProgressOverlays.get file.fileId) with
    | error e =>
      rw [heff] at hrun
      rw [run_bind_of_error hrun]
      exact hm
    | ok row =>
      rw [heff] at hrun
      rw [run_bind_of_ok hrun]
      split_ifs with hsame
      · exact hm.trans (((SameFace.refl m).onlyRow _).tracked_withPublished none heff)
      · change Tracked start (m.withPublished file none row)
        refine hm.trans ⟨le_rfl, fun _ => le_rfl, id, [], (List.append_nil _).symm, fun other hne => absurd ?_ hne⟩
        rw [Model.recordOf, withPublished_publishedFile]
        split_ifs with hother
        · subst hother
          simp only [Bool.not_eq_true, Bool.not_eq_false', Option.any_eq_true, beq_iff_eq] at hsame
          obtain ⟨previous, hprevious, heq⟩ := hsame
          rw [Model.recordOf, Model.publishedFile, hprevious, Option.map_some, Option.map_some, heq]
        · rfl

theorem told_hidden {m m' : Model} (h : Tracked start m ∧ Accounted m) (hface : SameFace m m')
    (hindex : SameIndex m m') : Tracked start m' ∧ Accounted m' :=
  ⟨h.1.hidden hface, accounted_same m m' h.2 hindex⟩

theorem told_applyWithActiveProgressRetained (operation : Operation) (retire : List String) :
    Spec (fun m => Tracked start m ∧ Accounted m) (applyWithActiveProgressRetained operation retire) (fun _ => True) := by
  unfold applyWithActiveProgressRetained
  refine Spec.bind (Spec.modify fun m hm => told_hidden hm (foldl_retire_sameFace _ m)
    (foldl_sameIndex sameIndex_retire _ m)) fun _ _ => ?_
  refine Spec.bind (Spec.modify fun m hm => told_hidden hm ⟨rfl, rfl, rfl, rfl⟩ ⟨rfl, rfl, rfl, fun _ h => h⟩)
    fun _ _ => ?_
  refine spec_finallyDo (spec_operation fun edit _ => told_edit edit) ?_
  refine Spec.bind (Spec.modify fun m hm => told_hidden hm ⟨rfl, rfl, rfl, rfl⟩ ⟨rfl, rfl, rfl, fun _ h => h⟩)
    fun _ _ => ?_
  refine Spec.bind ((tracked_publishRetired _).both (frame_publishRetired (index_frame accounted_same) _)).trivial
    fun _ _ => ?_
  exact Spec.modify fun m hm => told_hidden hm ⟨rfl, rfl, rfl, rfl⟩ ⟨rfl, rfl, rfl, fun _ h => h⟩

theorem tracked_refreshRetained (replaced retired : List String) (statuses : Dict String LftpJobStatus)
    (entry : String × ActiveProgressOverlay) :
    Spec (Tracked start) (refreshRetained replaced retired statuses entry) (fun _ => True) := by
  unfold refreshRetained
  dsimp only
  split_ifs
  · exact Spec.pure trivial
  refine Spec.get_bind fun m _ => ?_
  split
  · rename_i status file _ _
    split_ifs
    · refine Spec.get_bind fun m _ => ?_
      cases m.overlayJobIdentities.get entry.1 with
      | none => exact Spec.pure trivial
      | some identity =>
        exact Spec.bind (tracked_clearActiveProgressOverlayIfJobIdentityMatches _ identity) fun _ _ => Spec.pure trivial
    · refine Spec.bind (Spec.modify fun m hm => hm.hidden ⟨rfl, rfl, rfl, rfl⟩) fun _ _ => ?_
      exact tracked_publish file none
    · exact Spec.pure trivial
  · exact Spec.pure trivial

theorem told_applyAuthoritativeRootReplacement (operation : Operation) (statuses : Dict String LftpJobStatus)
    (epochFor : String → Option Int) :
    Spec (fun m => Tracked start m ∧ Accounted m) (applyAuthoritativeRootReplacement operation statuses epochFor)
      (fun _ => True) := by
  unfold applyAuthoritativeRootReplacement
  refine Spec.get_bind fun m hm => ?_
  refine Spec.bind (Spec.set (told_hidden hm ⟨rfl, rfl, rfl, rfl⟩ ⟨rfl, rfl, rfl, fun _ h => h⟩)) fun _ _ => ?_
  refine Spec.bind (spec_finallyDo (told_applyWithActiveProgressRetained operation _)
    (Spec.modify fun m hm => told_hidden hm ⟨rfl, rfl, rfl, rfl⟩ ⟨rfl, rfl, rfl, fun _ h => h⟩)) fun _ _ => ?_
  exact Spec.get_bind fun m _ => Spec.forM _ fun entry _ =>
    ((tracked_refreshRetained _ _ statuses entry).both (index_refreshRetained accounted_same _ _ statuses entry)).trivial

theorem told_of_tracked {call : Call} (h : Spec (Tracked start) call.run (fun _ => True)) :
    Spec (fun m => Tracked start m ∧ Accounted m) call.run (fun _ => True) :=
  (h.both (index_call accounted_same accounted_edit call)).trivial

theorem told_run (call : Call) : Spec (fun m => Tracked start m ∧ Accounted m) call.run (fun _ => True) := by
  cases call with
  | addFile file structural => exact told_edit (.addFile file structural)
  | updateFile file structural => exact told_edit (.updateFile file structural)
  | removeFile identifier => exact told_edit (.removeFile identifier)
  | clearActiveProgressOverlays => exact told_edit .clearActiveProgressOverlays
  | clearActiveProgressOverlaysExcept preserved =>
    exact told_of_tracked (Spec.bind (tracked_clearActiveProgressOverlaysExcept preserved)
      fun _ _ => Spec.pure trivial)
  | clearActiveProgressOverlayIfJobIdentityMatches fileId identity =>
    exact told_of_tracked (Spec.bind (tracked_clearActiveProgressOverlayIfJobIdentityMatches fileId identity)
      fun _ _ => Spec.pure trivial)
  | restoreActiveProgressOverlays overlays identities =>
    exact told_of_tracked (Spec.bind (tracked_restoreActiveProgressOverlays overlays identities)
      fun _ _ => Spec.pure trivial)
  | replaceActiveProgressOverlays overlays changed =>
    exact told_of_tracked (Spec.bind (tracked_replaceActiveProgressOverlays overlays changed)
      fun _ _ => Spec.pure trivial)
  | publishActiveLftpRootCounters overlays identities lifecycle =>
    exact told_of_tracked (Spec.bind (tracked_publishActiveLftpRootCounters overlays identities lifecycle)
      fun _ _ => Spec.pure trivial)
  | applyWithActiveProgressRetained operation retire => exact told_applyWithActiveProgressRetained operation retire
  | applyAuthoritativeRootReplacement operation statuses epochFor =>
    exact told_applyAuthoritativeRootReplacement operation statuses epochFor

end Spec

/-! ## Runs -/

theorem tracked_apply {m : Model} (hm : Accounted m) (call : Call) : Tracked m (call.apply m) :=
  (told_run call m ⟨.refl m, hm⟩).1.1

theorem run_balanced (calls : List Call) : (run calls).version = (run calls).scopeTotal := by
  suffices h : ∀ m : Model, Accounted m → m.version = m.scopeTotal →
      (calls.foldl Call.apply m).version = (calls.foldl Call.apply m).scopeTotal from h {} accounted_empty rfl
  induction calls with
  | nil => exact fun m _ hm => hm
  | cons call calls ih =>
    exact fun m haccounted hm => ih _ (index_call accounted_same accounted_edit call m haccounted).1
      ((tracked_apply haccounted call).balanced hm)

end SeedSync.Live
