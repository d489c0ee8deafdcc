import Mathlib.Data.List.Dedup
import SeedSync.Live.Indexed

/-!
# The rows that readers see

Which row the live model shows of a root, and how far every operation keeps the rows in step
with the roots and the overlays.
-/

namespace SeedSync.Live

open Lib

/-- The row has every compared value of the root, except that the counters and the rates are
those of an overlay where there is one. -/
structure Shows (file : FileRecord) (overlay : Option ActiveProgressOverlay) (row : FileRecord) : Prop where
  rest : row = { file with
    downloadProgress := row.downloadProgress
    transferredSize := row.transferredSize
    downloadingSpeed := row.downloadingSpeed
    eta := row.eta }
  plain : overlay = none → row = file
  live : ∀ o ∈ overlay, row.downloadProgress.map (fun p => (p.val : Int)) = o.downloadProgress ∧
    row.transferredSize.map Int.ofNat = o.transferredSize ∧
    row.downloadingSpeed.map Int.ofNat = o.downloadingSpeed ∧ row.eta.map Int.ofNat = o.eta

/-! ## One row -/

theorem setCount_valid {value : Option Int} (h : ∀ v ∈ value, 0 ≤ v) :
    ∃ count, setCount value = .ok count ∧ count.map Int.ofNat = value := by
  cases value with
  | none => exact ⟨none, rfl, rfl⟩
  | some v =>
    have hv := h v rfl
    refine ⟨some v.toNat, by simp [setCount, hv], ?_⟩
    simp only [Option.map_some, Option.some.injEq, Int.ofNat_eq_natCast]
    omega

theorem setPercent_valid {value : Option Int} (h : ∀ v ∈ value, 0 ≤ v ∧ v ≤ 100) :
    ∃ percent, setPercent value = .ok percent ∧ percent.map (fun p => (p.val : Int)) = value := by
  cases value with
  | none => exact ⟨none, rfl, rfl⟩
  | some v =>
    have hv := h v rfl
    refine ⟨some ⟨v.toNat, by omega⟩, by simp [setPercent, hv], ?_⟩
    simp only [Option.map_some, Option.some.injEq]
    omega

/-- Under an overlay that the setters take, every root has a row. -/
theorem effective_shows {row : Row} (hsettled : row.finalMovePending = false) {overlay : Option ActiveProgressOverlay}
    (hvalid : ∀ o ∈ overlay, Overlay.Valid o) :
    ∃ shown, row.effective overlay = .ok shown ∧ Shows row.toFileRecord overlay shown.toFileRecord := by
  have hplain : row.materialized = row := by
    unfold Row.materialized
    rw [← hsettled]
  cases overlay with
  | none => exact ⟨_, rfl, by rw [hplain], fun _ => by rw [hplain], by simp⟩
  | some o =>
    have hv := hvalid o rfl
    obtain ⟨progress, hprogress, hp⟩ := setPercent_valid hv.downloadProgress
    obtain ⟨transferred, htransferred, ht⟩ := setCount_valid hv.transferredSize
    obtain ⟨speed, hspeed, hs⟩ := setCount_valid hv.downloadingSpeed
    obtain ⟨eta, heta, he⟩ := setCount_valid hv.eta
    refine ⟨{ row with downloadProgress := progress, transferredSize := transferred, downloadingSpeed := speed, eta },
      ?_, ⟨rfl, by simp, ?_⟩⟩
    · simp only [Row.effective, FileRecord.withOverlay, hplain, hprogress, htransferred, hspeed, heta]
      rfl
    · intro o' ho
      cases ho
      exact ⟨hp, ht, hs, he⟩

/-! ## All rows -/

/-- Only roots have rows, and every root that is not `stale` has the row that shows it. -/
structure Coherent (stale : String → Prop) (m : Model) : Prop where
  owned : ∀ fileId, m.filesById.get fileId = none → m.publishedFile fileId = none
  shows : ∀ fileId, ¬ stale fileId → ∀ file ∈ m.filesById.get fileId, ∃ row, m.publishedFile fileId = some row ∧
    Shows file.toFileRecord (m.activeProgressOverlays.get fileId) row.toFileRecord
  settled : ∀ fileId, ∀ file ∈ m.filesById.get fileId, file.finalMovePending = false
  valid : ∀ fileId, ∀ o ∈ m.activeProgressOverlays.get fileId, Overlay.Valid o

theorem coherent_empty (stale : String → Prop) : Coherent stale {} := by
  constructor <;> simp [Model.publishedFile, Table.get]

variable {stale : String → Prop}

theorem Coherent.mono {stale' : String → Prop} {m : Model} (h : Coherent stale m)
    (hstale : ∀ fileId, stale fileId → stale' fileId) : Coherent stale' m :=
  ⟨h.owned, fun fileId hnot => h.shows fileId fun hs => hnot (hstale fileId hs), h.settled, h.valid⟩

/-- Roots and rows stay, and the overlays change where it is said. -/
theorem Coherent.overlays {stale' : String → Prop} {m : Model} (h : Coherent stale m) (m' : Model)
    (hfiles : m'.filesById = m.filesById) (hrows : m'.publishedFilesById = m.publishedFilesById)
    (hstale : ∀ fileId, ¬ stale' fileId → ¬ stale fileId ∧
      m'.activeProgressOverlays.get fileId = m.activeProgressOverlays.get fileId)
    (hvalid : ∀ fileId, ∀ o ∈ m'.activeProgressOverlays.get fileId, Overlay.Valid o) : Coherent stale' m' where
  owned fileId := by rw [Model.publishedFile, hrows, hfiles]; exact h.owned fileId
  shows fileId hnot file hfile := by
    rw [hfiles] at hfile
    rw [Model.publishedFile, hrows, (hstale fileId hnot).2]
    exact h.shows fileId (hstale fileId hnot).1 file hfile
  settled fileId file hfile := h.settled fileId file (hfiles ▸ hfile)
  valid := hvalid

/-- Steps that change neither roots nor rows nor overlays. -/
theorem Coherent.hidden {m m' : Model} (h : Coherent stale m) (hfiles : m'.filesById = m.filesById)
    (hrows : m'.publishedFilesById = m.publishedFilesById)
    (hoverlays : m'.activeProgressOverlays = m.activeProgressOverlays) : Coherent stale m' :=
  h.overlays m' hfiles hrows (fun _ hnot => ⟨hnot, by rw [hoverlays]⟩) (hoverlays ▸ h.valid)

/-- A root of the model gets its row. -/
theorem Coherent.withPublished {m : Model} {file : RootFile} (h : Coherent (fun id => id = file.fileId ∨ stale id) m)
    (hfile : m.filesById.get file.fileId = some file) (structural : Option JobIdentity) {row : Row}
    (hrow : Shows file.toFileRecord (m.activeProgressOverlays.get file.fileId) row.toFileRecord) :
    Coherent stale (m.withPublished file structural row) where
  owned fileId hnone := by
    rw [withPublished_publishedFile]
    split_ifs with hid
    · subst hid
      cases hfile.symm.trans hnone
    · exact h.owned fileId hnone
  shows fileId hnot other hother := by
    rw [withPublished_publishedFile]
    split_ifs with hid
    · subst hid
      cases hfile.symm.trans hother
      exact ⟨row, rfl, hrow⟩
    · exact h.shows fileId (fun hs => hs.elim (fun he => hid he.symm) hnot) other hother
  settled := h.settled
  valid := h.valid

/-- A root of the model is shown anew, which cannot fail. -/
theorem coherent_refreshPublishedFile {file : RootFile} (structural : Option JobIdentity) :
    Triple (fun m => Coherent (fun id => id = file.fileId ∨ stale id) m ∧ m.filesById.get file.fileId = some file)
      (refreshPublishedFile file structural) (fun _ => Coherent stale) (fun _ => False) := by
  rintro m ⟨hm, hfile⟩
  rw [refreshPublishedFile_run]
  obtain ⟨row, heff, hrow⟩ := effective_shows (hm.settled _ file hfile) (hm.valid file.fileId)
  rw [heff]
  exact hm.withPublished hfile structural hrow

theorem coherent_publish {file : RootFile} (structural : Option JobIdentity) :
    Triple (fun m => Coherent (fun id => id = file.fileId ∨ stale id) m ∧ m.filesById.get file.fileId = some file)
      (do let _ ← refreshPublishedFile file structural; announce file) (fun _ => Coherent stale) (fun _ => False) :=
  Triple.bind (coherent_refreshPublishedFile structural) fun _ => Triple.modify fun _ hm => hm.hidden rfl rfl rfl

/-- An id without a root has no row that could be stale. -/
theorem Coherent.drop_absent {m : Model} {fileId : String} (h : Coherent (fun id => id = fileId ∨ stale id) m)
    (habsent : m.filesById.get fileId = none) : Coherent stale m where
  owned := h.owned
  shows other hnot file hfile := by
    refine h.shows other (fun hs => hs.elim (fun he => ?_) hnot) file hfile
    rw [he, habsent] at hfile
    cases hfile
  settled := h.settled
  valid := h.valid

/-- One turn of a loop that shows roots anew. -/
theorem coherent_republish_one {fileId : String} {m : Model} (hm : Coherent (fun id => id = fileId ∨ stale id) m)
    {show' : RootFile → Act Unit}
    (hshow : ∀ file, Triple (fun m => Coherent (fun id => id = file.fileId ∨ stale id) m ∧
      m.filesById.get file.fileId = some file) (show' file) (fun _ => Coherent stale) (fun _ => False)) :
    Triple (fun m' => m' = m) (match m.filesById.get fileId with
      | none => pure ()
      | some file => show' file) (fun _ => Coherent stale) (fun _ => False) := by
  cases hfile : m.filesById.get fileId with
  | none => exact Triple.pure fun m' hm' => hm' ▸ hm.drop_absent hfile
  | some file =>
    have hid : file.fileId = fileId := m.filesById.keyed fileId file hfile
    subst hid
    exact (hshow file).conseq (fun m' hm' => hm' ▸ ⟨hm, hfile⟩) (fun _ _ h => h) fun _ h => h

theorem coherent_cons {fileId : String} {ids : List String} {m : Model}
    (h : Coherent (fun id => id ∈ fileId :: ids ∨ stale id) m) :
    Coherent (fun id => id = fileId ∨ (id ∈ ids ∨ stale id)) m :=
  h.mono fun _ hs => by simpa [or_assoc] using hs

theorem coherent_republish (ids : List String) :
    Triple (Coherent fun id => id ∈ ids ∨ stale id) (republish ids) (fun _ => Coherent stale) (fun _ => False) := by
  unfold republish
  refine (Triple.forM (P := fun ids => Coherent fun id => id ∈ ids ∨ stale id) (fun fileId ids => ?_) ids).conseq
    (fun _ h => h) (fun _ m hm => hm.mono fun _ hs => hs.resolve_left (by simp)) fun _ h => h
  exact Triple.get_bind fun m hm => coherent_republish_one (coherent_cons hm) fun file => coherent_publish none

theorem coherent_publishRetired (ids : List String) :
    Triple (Coherent fun id => id ∈ ids ∨ stale id) (publishRetired ids) (fun _ => Coherent stale)
      (fun _ => False) := by
  unfold publishRetired
  refine (Triple.forM (P := fun ids => Coherent fun id => id ∈ ids ∨ stale id) (fun fileId ids => ?_) ids).conseq
    (fun _ h => h) (fun _ m hm => hm.mono fun _ hs => hs.resolve_left (by simp)) fun _ h => h
  refine Triple.get_bind fun m hm => coherent_republish_one (coherent_cons hm) fun file => ?_
  refine Triple.get_bind fun m' hm' => Triple.bind ((coherent_refreshPublishedFile none).conseq
    (fun m'' heq => heq ▸ hm') (fun _ _ h => h) fun _ h => h) fun row => ?_
  split_ifs
  · exact Triple.modify fun _ hm => hm.hidden rfl rfl rfl
  · exact Triple.pure fun _ hm => hm

/-! ## Overlays -/

/-- The overlays become those of another state, and the roots that it concerns are shown anew. -/
theorem coherent_set_republish {m' : Model} {ids : List String} (h : Coherent (fun id => id ∈ ids ∨ stale id) m') :
    Triple (fun _ => True) (do set m'; republish (sorted ids)) (fun _ => Coherent stale) (fun _ => False) :=
  Triple.bind (Q := fun _ => Coherent fun id => id ∈ sorted ids ∨ stale id)
    (Triple.set fun _ _ => h.mono fun _ hs => hs.imp_left mem_sorted.mpr) fun _ => coherent_republish _

theorem coherent_set_republish_return {m' : Model} {ids : List String}
    (h : Coherent (fun id => id ∈ ids ∨ stale id) m') {α : Type} (a : α) :
    Spec (Coherent stale) (do set m'; republish (sorted ids); return a) (fun _ => True) := by
  have hbind : (do set m'; republish (sorted ids); return a : Act α) =
      (do set m'; republish (sorted ids)) >>= fun _ => pure a := rfl
  rw [hbind]
  exact Triple.spec (Triple.bind ((coherent_set_republish h).conseq (fun _ _ => trivial) (fun _ _ h => h)
    fun _ h => h.elim) fun _ => Triple.pure fun _ h => ⟨h, trivial⟩)

/-- Overlays that can all be shown can all be cleared. -/
theorem clearActiveProgressOverlays_returns :
    Triple (Coherent stale) clearActiveProgressOverlays (fun _ => Coherent stale) (fun _ => False) := by
  unfold clearActiveProgressOverlays
  refine Triple.get_bind fun m hm => ?_
  split_ifs
  · exact Triple.pure fun _ hs => hs ▸ hm
  · refine (coherent_set_republish (hm.overlays (m.withOverlays {} {} {}) rfl rfl (fun id hnot => ?_)
      fun _ o ho => by cases ho)).conseq (fun _ _ => trivial) (fun _ _ h => h) fun _ h => h
    have hkey : id ∉ m.activeProgressOverlays.keys := fun h => hnot (Or.inl h)
    rw [Dict.mem_keys, not_not] at hkey
    exact ⟨fun h => hnot (Or.inr h), hkey.symm⟩

theorem coherent_clearActiveProgressOverlays : Spec (Coherent stale) clearActiveProgressOverlays (fun _ => True) :=
  Triple.spec (clearActiveProgressOverlays_returns.conseq (fun _ h => h) (fun _ _ h => ⟨h, trivial⟩) fun _ h => h.elim)

theorem foldl_dropOverlay (ids : List String) (m : Model) :
    (ids.foldl Model.dropOverlay m).filesById = m.filesById ∧
      (ids.foldl Model.dropOverlay m).publishedFilesById = m.publishedFilesById ∧
      ∀ id, (ids.foldl Model.dropOverlay m).activeProgressOverlays.get id =
        if id ∈ ids then none else m.activeProgressOverlays.get id := by
  induction ids generalizing m with
  | nil => simp
  | cons first ids ih =>
    obtain ⟨hfiles, hrows, hoverlays⟩ := ih (m.dropOverlay first)
    refine ⟨hfiles, hrows, fun id => ?_⟩
    rw [List.foldl_cons, hoverlays]
    have hget : (m.dropOverlay first).activeProgressOverlays.get id =
        if first = id then none else m.activeProgressOverlays.get id := Dict.get_pop _ _ _
    rw [hget]
    simp only [List.mem_cons, eq_comm (a := id)]
    split_ifs <;> first | rfl | simp_all

/-- Overlays that go leave the rest in step. -/
theorem Coherent.without {m : Model} (h : Coherent stale m) (m' : Model) (hfiles : m'.filesById = m.filesById)
    (hrows : m'.publishedFilesById = m.publishedFilesById) {gone : String → Prop} [DecidablePred gone]
    (hoverlays : ∀ id, m'.activeProgressOverlays.get id = if gone id then none else m.activeProgressOverlays.get id) :
    Coherent (fun id => gone id ∨ stale id) m' := by
  refine h.overlays m' hfiles hrows (fun id hnot => ⟨fun hs => hnot (Or.inr hs), ?_⟩) fun id o ho => ?_
  · rw [hoverlays, if_neg fun hg => hnot (Or.inl hg)]
  · rw [hoverlays] at ho
    split_ifs at ho
    · cases ho
    · exact h.valid id o ho

theorem coherent_clearActiveProgressOverlaysExcept (preserved : List String) :
    Spec (Coherent stale) (clearActiveProgressOverlaysExcept preserved) (fun _ => True) := by
  unfold clearActiveProgressOverlaysExcept
  refine Spec.get_bind fun m hm => ?_
  obtain ⟨hfiles, hrows, hoverlays⟩ := foldl_dropOverlay
    (m.activeProgressOverlays.keys.filter fun id => decide (id ∉ preserved)) m
  exact coherent_set_republish_return (hm.without _ hfiles hrows hoverlays) _

theorem coherent_clearActiveProgressOverlayIfJobIdentityMatches (fileId : String) (identity : JobIdentity) :
    Spec (Coherent stale) (clearActiveProgressOverlayIfJobIdentityMatches fileId identity) (fun _ => True) := by
  unfold clearActiveProgressOverlayIfJobIdentityMatches
  refine Spec.get_bind fun m hm => ?_
  split_ifs
  · exact Spec.pure trivial
  · have hpop : ∀ id, (m.dropOverlay fileId).activeProgressOverlays.get id =
        if fileId = id then none else m.activeProgressOverlays.get id := fun id => Dict.get_pop _ _ _
    have hone : Coherent (fun id => id ∈ [fileId] ∨ stale id) (m.dropOverlay fileId) :=
      (hm.without (m.dropOverlay fileId) rfl rfl hpop).mono fun id hs =>
        hs.imp_left fun h : fileId = id => h ▸ List.mem_singleton_self _
    exact coherent_set_republish_return hone true

/-- Where nothing changed, the overlays agree. -/
theorem changedOverlays_not_mem {m : Model} {overlays : Dict String ActiveProgressOverlay}
    {identities : Dict String JobIdentity} {fileId : String} (h : fileId ∉ changedOverlays m overlays identities) :
    overlays.get fileId = m.activeProgressOverlays.get fileId := by
  unfold changedOverlays at h
  rw [List.mem_filter, List.mem_dedup, List.mem_append, not_and_or, decide_eq_true_eq] at h
  rcases h with h | h
  · rw [not_or, Dict.mem_keys, Dict.mem_keys, not_not, not_not] at h
    rw [h.1, h.2]
  · rw [not_or, not_not] at h
    exact h.1.symm

/-- The overlays are replaced, and those that changed are shown anew. -/
theorem coherent_changedOverlays {m : Model} (hm : Coherent stale m) (m' : Model) (hfiles : m'.filesById = m.filesById)
    (hrows : m'.publishedFilesById = m.publishedFilesById)
    (hvalid : ∀ fileId, ∀ o ∈ m'.activeProgressOverlays.get fileId, Overlay.Valid o)
    (identities : Dict String JobIdentity) :
    Coherent (fun id => id ∈ changedOverlays m m'.activeProgressOverlays identities ∨ stale id) m' :=
  hm.overlays m' hfiles hrows (fun _ hnot => ⟨fun hs => hnot (Or.inr hs),
    changedOverlays_not_mem fun hs => hnot (Or.inl hs)⟩) hvalid

theorem coherent_restoreActiveProgressOverlays {overlays : Dict String ActiveProgressOverlay}
    (hvalid : ∀ fileId, ∀ o ∈ overlays.get fileId, Overlay.Valid o) (identities : Dict String JobIdentity) :
    Spec (Coherent stale) (restoreActiveProgressOverlays overlays identities) (fun _ => True) := by
  unfold restoreActiveProgressOverlays
  refine Spec.get_bind fun m hm => ?_
  extract_lets restorable normalized kept changed
  refine coherent_set_republish_return (coherent_changedOverlays hm (m.withOverlays normalized kept _) rfl rfl
    (fun fileId o ho => ?_) kept) changed
  exact hvalid fileId o ((Dict.get_filter_eq_some _ _ _ _).mp ho).1

theorem continued_le {new prior : Option Int} {bound : Int} (hnew : ∀ v ∈ new, 0 ≤ v ∧ v ≤ bound)
    (hprior : ∀ v ∈ prior, 0 ≤ v ∧ v ≤ bound) : ∀ v ∈ continued new prior, 0 ≤ v ∧ v ≤ bound := by
  intro v hv
  cases new with
  | none => cases hv
  | some n =>
    cases prior with
    | none => exact hnew v hv
    | some p =>
      have hn := hnew n rfl
      have hp := hprior p rfl
      unfold continued at hv
      dsimp only at hv
      split_ifs at hv <;> cases hv <;> omega

theorem continued_nonneg {new prior : Option Int} (hnew : ∀ v ∈ new, 0 ≤ v) : ∀ v ∈ continued new prior, 0 ≤ v := by
  intro v hv
  cases new with
  | none => cases hv
  | some n =>
    have hn := hnew n rfl
    cases prior with
    | none => cases hv; exact hn
    | some p =>
      unfold continued at hv
      dsimp only at hv
      split_ifs at hv <;> cases hv <;> omega

theorem continuedOverlay_valid {overlay : ActiveProgressOverlay} {prior : Option ActiveProgressOverlay}
    (h : Overlay.Valid overlay) (hprior : ∀ o ∈ prior, Overlay.Valid o) :
    Overlay.Valid (continuedOverlay overlay prior) := by
  cases prior with
  | none => exact h
  | some p =>
    exact ⟨continued_le h.downloadProgress (hprior p rfl).downloadProgress, continued_nonneg h.transferredSize,
      h.downloadingSpeed, h.eta⟩

/-- Counters that are admitted can be shown. -/
theorem admitted_valid {m : Model} (hm : ∀ fileId, ∀ o ∈ m.activeProgressOverlays.get fileId, Overlay.Valid o)
    (identities : Dict String JobIdentity) (lifecycle : Lifecycle) (entries : List (String × ActiveProgressOverlay))
    (hentries : ∀ entry ∈ entries, Overlay.Valid entry.2) {admission final : Admission}
    (hadmission : ∀ fileId, ∀ o ∈ admission.normalized.get fileId, Overlay.Valid o)
    (h : entries.foldlM (admitCounter m identities lifecycle) admission = .ok final) :
    ∀ fileId, ∀ o ∈ final.normalized.get fileId, Overlay.Valid o := by
  induction entries generalizing admission with
  | nil => cases h; exact hadmission
  | cons entry entries ih =>
    obtain ⟨fileId, overlay⟩ := entry
    rw [List.foldlM_cons] at h
    obtain ⟨next, hnext, h⟩ := ok_of_bind h
    have hoverlay : Overlay.Valid overlay := hentries (fileId, overlay) List.mem_cons_self
    refine ih (fun e he => hentries e (List.mem_cons_of_mem _ he)) ?_ h
    have hset : ∀ new, Overlay.Valid new → next.normalized = admission.normalized.set fileId new →
        ∀ other, ∀ o ∈ next.normalized.get other, Overlay.Valid o := by
      intro new hnew hnext other o ho
      rw [hnext] at ho
      rcases Dict.eq_or_of_get_set ho with ⟨-, rfl⟩ | ho
      · exact hnew
      · exact hadmission other o ho
    rcases admitCounter_cases hnext with ⟨_, -, _, -, -, -, hsame, -⟩ | ⟨identity, -, -, -, -, ⟨-, hcont⟩ | ⟨-, hnew⟩⟩
    · rw [hsame]
      exact hadmission
    · exact hset _ (continuedOverlay_valid hoverlay (hm fileId)) hcont
    · exact hset _ hoverlay hnew

theorem coherent_publishActiveLftpRootCounters {overlays : Dict String ActiveProgressOverlay}
    (hvalid : ∀ fileId, ∀ o ∈ overlays.get fileId, Overlay.Valid o) (identities : Dict String JobIdentity)
    (lifecycle : Lifecycle) :
    Spec (Coherent stale) (publishActiveLftpRootCounters overlays identities lifecycle) (fun _ => True) := by
  unfold publishActiveLftpRootCounters
  refine Spec.get_bind fun m hm => ?_
  split
  · exact Spec.bind coherent_clearActiveProgressOverlays fun _ _ => Spec.pure trivial
  · rename_i admission hadmission
    split_ifs
    · refine Spec.bind (Spec.forM _ fun fileId _ => ?_) fun _ _ => Spec.pure trivial
      cases admission.mismatches.get fileId with
      | none => exact Spec.pure trivial
      | some previous =>
        exact Spec.bind (coherent_clearActiveProgressOverlayIfJobIdentityMatches fileId previous) fun _ _ =>
          Spec.pure trivial
    · have hentries : ∀ entry ∈ overlays.items, Overlay.Valid entry.2 := fun entry hentry =>
        hvalid entry.1 entry.2 ((Dict.get_eq_some _ _ _).mpr hentry)
      have hadmitted := admitted_valid hm.valid identities lifecycle overlays.items hentries (by simp) hadmission
      exact coherent_set_republish_return (coherent_changedOverlays hm
        (m.withOverlays admission.normalized admission.identities _) rfl rfl hadmitted admission.identities) _

/-! ## Roots -/

/-- A root is put under its id, where its row is stale until it is shown anew. -/
theorem Coherent.put {m : Model} {file : RootFile} (h : Coherent (fun id => id = file.fileId ∨ stale id) m)
    (hsettled : file.finalMovePending = false) (m' : Model) (hfiles : m'.filesById = m.filesById.put file)
    (hrows : m'.publishedFilesById = m.publishedFilesById)
    (hoverlays : m'.activeProgressOverlays = m.activeProgressOverlays) :
    Coherent (fun id => id = file.fileId ∨ stale id) m' where
  owned fileId hnone := by
    rw [hfiles, Table.get_put] at hnone
    split_ifs at hnone
    rw [Model.publishedFile, hrows]
    exact h.owned fileId hnone
  shows fileId hnot other hother := by
    rw [hfiles, Table.get_put, if_neg fun he => hnot (Or.inl he.symm)] at hother
    rw [Model.publishedFile, hrows, hoverlays]
    exact h.shows fileId hnot other hother
  settled fileId other hother := by
    rw [hfiles, Table.get_put] at hother
    split_ifs at hother with hid
    · cases hother
      exact hsettled
    · exact h.settled fileId other hother
  valid := hoverlays ▸ h.valid

/-- The root is there, and is shown anew. -/
theorem coherent_put_publish {m : Model} {file : RootFile} (h : Coherent (fun id => id = file.fileId ∨ stale id) m)
    (hsettled : file.finalMovePending = false) (structural : Option JobIdentity) (m' : Model)
    (hfiles : m'.filesById = m.filesById.put file) (hrows : m'.publishedFilesById = m.publishedFilesById)
    (hoverlays : m'.activeProgressOverlays = m.activeProgressOverlays) :
    Triple (fun s => s = m') (do let _ ← refreshPublishedFile file structural; announce file)
      (fun _ s => Coherent stale s ∧ True) (Coherent stale) := by
  refine (coherent_publish structural).conseq ?_ (fun _ _ h => ⟨h, trivial⟩) fun _ h => h.elim
  rintro s rfl
  exact ⟨h.put hsettled s hfiles hrows hoverlays, by rw [hfiles, Table.get_put, if_pos rfl]⟩

theorem coherent_addFile {file : RootFile} (hsettled : file.finalMovePending = false)
    (structural : Option JobIdentity) : Spec (Coherent stale) (addFile file structural) (fun _ => True) := by
  unfold addFile
  refine Spec.bind coherent_clearActiveProgressOverlays fun _ _ => Spec.get_bind fun m hm => ?_
  split_ifs
  · exact Spec.throw
  · have hm : Coherent (fun id => id = file.fileId ∨ stale id) m := hm.mono fun _ => Or.inr
    exact Triple.spec (Triple.set_bind (coherent_put_publish hm hsettled structural _ rfl rfl rfl))

/-- A root that has no row gets one; the rest stays. -/
theorem coherent_ensurePublished {file : RootFile} :
    Triple (fun m => Coherent stale m ∧ m.filesById.get file.fileId = some file) (ensurePublished file)
      (fun _ m => Coherent stale m ∧ m.filesById.get file.fileId = some file) (fun _ => False) := by
  unfold ensurePublished
  refine Triple.get_bind fun m hm => ?_
  split_ifs
  · refine Triple.bind (Q := fun _ m => Coherent stale m ∧ m.filesById.get file.fileId = some file) ?_
      fun _ => Triple.pure fun _ h => h
    rintro s rfl
    have hpublish : Triple _ (refreshPublishedFile file none) (fun _ => Coherent stale) (fun _ => False) :=
      coherent_refreshPublishedFile none
    have hcoherent := hpublish s ⟨hm.1.mono fun _ => Or.inr, hm.2⟩
    rw [refreshPublishedFile_run] at hcoherent ⊢
    generalize file.toRow.effective (s.activeProgressOverlays.get file.fileId) = shown at hcoherent ⊢
    cases shown with
    | error e => exact hcoherent
    | ok row => exact ⟨hcoherent, hm.2⟩
  · exact Triple.pure fun s hs => hs ▸ hm

theorem Coherent.dropRoot {m : Model} (h : Coherent stale m) (fileId name : String) :
    Coherent stale ((m.withoutRoot fileId).dropRoot fileId name) where
  owned other hnone := by
    rw [dropRoot_publishedFile]
    split_ifs with hid
    · rfl
    · rw [get_dropRoot, if_neg hid] at hnone
      exact h.owned other hnone
  shows other hnot file hfile := by
    rw [get_dropRoot, Option.mem_def] at hfile
    split_ifs at hfile with hid
    have hoverlay : ((m.withoutRoot fileId).dropRoot fileId name).activeProgressOverlays.get other =
        m.activeProgressOverlays.get other := Dict.get_pop_ne _ hid
    rw [dropRoot_publishedFile, if_neg hid, hoverlay]
    exact h.shows other hnot file hfile
  settled other file hfile := by
    rw [get_dropRoot, Option.mem_def] at hfile
    split_ifs at hfile
    exact h.settled other file hfile
  valid other o ho := by
    change (m.activeProgressOverlays.pop fileId).get other = some o at ho
    rw [Dict.get_pop] at ho
    split_ifs at ho
    exact h.valid other o ho

/-- A root that is found under its name goes with its row. -/
theorem removeFile_coherent (identifier : String) :
    Triple (fun m => Coherent stale m ∧ Represented m) (removeFile identifier) (fun _ => Coherent stale)
      (Coherent stale) := by
  unfold removeFile
  refine Triple.bind (Q := fun _ m => Coherent stale m ∧ Represented m) ((Triple.of_spec
    (coherent_clearActiveProgressOverlays.both represented_clearActiveProgressOverlays)).conseq
      (fun _ h => h) (fun _ _ h => h.1) fun _ h => h.1) fun _ => Triple.get_bind fun m hm => ?_
  refine Triple.bind (Q := fun _ s => s = m) (Triple.lift (fun _ _ _ hs => hs) fun _ _ s hs => hs ▸ hm.1) fun fileId => ?_
  refine Triple.get_bind fun s hs => ?_
  subst hs
  cases hfile : s.filesById.get fileId with
  | none => exact Triple.throw fun s' hs' => hs' ▸ hm.1
  | some file =>
    have hid : file.fileId = fileId := s.filesById.keyed fileId file hfile
    subst hid
    have hrows : Triple (fun s' => s' = s) (ensurePublished file) (fun _ => Coherent stale) (Coherent stale) :=
      coherent_ensurePublished.conseq (fun s' hs' => hs' ▸ ⟨hm.1, hfile⟩) (fun _ _ h => h.1) fun _ h => h.elim
    have hroots : Triple (fun s' => s' = s) (ensurePublished file) (fun _ s' => Represented s' ∧ SameIndex s s')
        (fun s' => Represented s' ∧ SameIndex s s') :=
      (Triple.keep (frame_ensurePublished (fun _ _ h hsame => ⟨represented_frame _ _ h.1 hsame,
        h.2.trans hsame.sameIndex⟩) file)).conseq (by rintro _ rfl; exact ⟨hm.2, .refl _⟩) (fun _ _ h => h) fun _ h => h
    refine Triple.bind ((hrows.and hroots).conseq (fun _ h => h) (fun _ _ h => h) fun _ h => h.1) fun _ => ?_
    rintro s' ⟨hs', hrepresented, hsame⟩
    have hname : file.fileId ∈ (s'.withoutRoot file.fileId).namedIds file.name :=
      hrepresented.listed file.fileId file (by rw [hsame.roots]; exact hfile)
    rw [run_modify_bind, run_get_bind, if_pos hname, run_modify_bind]
    exact (hs'.dropRoot file.fileId file.name).hidden rfl rfl rfl

theorem withPhysicalBase_finalMovePending (m : Model) (file : RootFile) :
    (withPhysicalBase m file).finalMovePending = file.finalMovePending := by
  unfold withPhysicalBase
  split
  · split_ifs <;> rfl
  · rfl

/-- A candidate that ends the live counters of its root leaves the row stale. -/
theorem coherent_retireActiveProjectionForCandidate (file : RootFile) :
    Triple (Coherent stale) (retireActiveProjectionForCandidate file)
      (fun _ => Coherent fun id => id = file.fileId ∨ stale id) (Coherent stale) := by
  refine Triple.modify fun m hm => ?_
  split_ifs
  · have hpop : ∀ id, (m.dropOverlay file.fileId).activeProgressOverlays.get id =
        if file.fileId = id then none else m.activeProgressOverlays.get id := fun id => Dict.get_pop _ _ _
    exact (hm.without (m.dropOverlay file.fileId) rfl rfl hpop).mono fun id hs => hs.imp_left Eq.symm
  · exact hm.mono fun _ => Or.inr

theorem coherent_updateFile {file : RootFile} (hsettled : file.finalMovePending = false)
    (structural : Option JobIdentity) : Spec (Coherent stale) (updateFile file structural) (fun _ => True) := by
  unfold updateFile
  refine Spec.get_bind fun m₀ _ => ?_
  have hsettled : (withPhysicalBase m₀ file).finalMovePending = false :=
    (withPhysicalBase_finalMovePending m₀ file).trans hsettled
  generalize withPhysicalBase m₀ file = file at hsettled ⊢
  refine Triple.spec (Triple.bind (coherent_retireActiveProjectionForCandidate file) fun _ => ?_)
  refine Triple.bind (clearActiveProgressOverlays_returns.conseq (fun _ h => h) (fun _ _ h => h) fun _ h => h.elim)
    fun _ => Triple.get_bind fun m hm => ?_
  cases hfile : m.filesById.get file.fileId with
  | none => exact Triple.throw fun s hs => hs ▸ hm.drop_absent hfile
  | some oldFile =>
    have hid : oldFile.fileId = file.fileId := m.filesById.keyed file.fileId oldFile hfile
    rw [← hid] at hfile
    have hensure : Triple (fun s => s = m) (ensurePublished oldFile)
        (fun _ => Coherent fun id => id = file.fileId ∨ stale id) (Coherent stale) :=
      coherent_ensurePublished.conseq (fun s hs => hs ▸ ⟨hm, hfile⟩) (fun _ _ h => h.1) fun _ h => h.elim
    refine Triple.bind hensure fun _ s hs => ?_
    rw [run_modify_bind]
    exact coherent_put_publish hs hsettled structural _ (by rfl) (by rfl) (by rfl) _ rfl

/-! ## Replacements -/

/-- The roots of the edit have no final move pending. -/
def Edit.Settled : Edit → Prop
  | addFile file _ => file.finalMovePending = false
  | updateFile file _ => file.finalMovePending = false
  | removeFile _ => True
  | clearActiveProgressOverlays => True

def Operation.Settled (operation : Operation) : Prop := ∀ edit ∈ operation.edits, edit.Settled

theorem coherent_edit {edit : Edit} (h : edit.Settled) {m : Model} (hm : Coherent stale m ∧ Represented m)
    (hname : edit.KeepsName m) : Coherent stale (edit.run.run.run m).2 ∧ Represented (edit.run.run.run m).2 := by
  refine ⟨?_, represented_edit hm.2 hname⟩
  cases edit with
  | addFile file structural => exact (coherent_addFile h structural m hm.1).1
  | updateFile file structural => exact (coherent_updateFile h structural m hm.1).1
  | removeFile identifier => exact (removeFile_coherent identifier).run hm
  | clearActiveProgressOverlays => exact (coherent_clearActiveProgressOverlays m hm.1).1

theorem foldl_retire (ids : List String) (m : Model) :
    (ids.foldl Model.retire m).filesById = m.filesById ∧
      (ids.foldl Model.retire m).publishedFilesById = m.publishedFilesById ∧
      ∀ id, (ids.foldl Model.retire m).activeProgressOverlays.get id =
        if id ∈ ids then none else m.activeProgressOverlays.get id := by
  induction ids generalizing m with
  | nil => simp
  | cons first ids ih =>
    obtain ⟨hfiles, hrows, hoverlays⟩ := ih (m.retire first)
    refine ⟨hfiles, hrows, fun id => ?_⟩
    rw [List.foldl_cons, hoverlays]
    have hget : (m.retire first).activeProgressOverlays.get id =
        if first = id then none else m.activeProgressOverlays.get id := Dict.get_pop _ _ _
    rw [hget]
    simp only [List.mem_cons, eq_comm (a := id)]
    split_ifs <;> first | rfl | simp_all

theorem Coherent.retaining {m : Model} (h : Coherent stale m) (retireFileIds : List String) :
    Coherent (fun id => id ∈ retireFileIds.dedup ∨ stale id) (m.retaining retireFileIds) := by
  obtain ⟨hfiles, hrows, hoverlays⟩ := foldl_retire retireFileIds.dedup m
  exact (h.without _ hfiles hrows hoverlays).hidden rfl rfl rfl

/-- The roots that are retired stay stale through the operation, which may raise, and are then
shown anew. -/
theorem coherent_applyWithActiveProgressRetained {m : Model} (hm : Coherent stale m ∧ Represented m)
    {operation : Operation} (h : operation.Settled) {retireFileIds : List String}
    (hnames : KeepNames (m.retaining retireFileIds) operation.edits) :
    Triple (fun s => s = m) (applyWithActiveProgressRetained operation retireFileIds) (fun _ => Coherent stale)
      (Coherent stale) := by
  unfold applyWithActiveProgressRetained
  refine Triple.bind (Q := fun _ s => s = retireFileIds.dedup.foldl Model.retire m)
    (Triple.modify fun s hs => hs ▸ rfl) fun _ => ?_
  refine Triple.bind (Q := fun _ s => s = m.retaining retireFileIds) (Triple.modify fun s hs => hs ▸ rfl) fun _ => ?_
  refine triple_finallyDo (Triple.of_run (operation_of_edits (fun edit hedit s hs hname =>
    coherent_edit (h edit hedit) hs hname) ⟨hm.1.retaining retireFileIds, hm.2.retaining retireFileIds⟩ hnames).1) ?_
  refine Triple.bind (Q := fun _ => Coherent fun id => id ∈ sorted retireFileIds.dedup ∨ stale id)
    (Triple.modify fun s hs => ?_) fun _ => Triple.bind ((coherent_publishRetired (sorted retireFileIds.dedup)).conseq
      (fun _ h => h) (fun _ _ h => h) fun _ h => h.elim) fun _ => ?_
  · exact (hs.hidden (by rfl) (by rfl) (by rfl)).mono fun id hs => hs.imp_left mem_sorted.mpr
  · exact Triple.modify fun m hm => hm.hidden (by rfl) (by rfl) (by rfl)

/-- The rates of every status can be shown. -/
def RatesValid (statuses : Dict String LftpJobStatus) : Prop :=
  ∀ fileId, ∀ status ∈ statuses.get fileId, (∀ v ∈ status.totalTransferState.speed, 0 ≤ v) ∧
    ∀ v ∈ status.totalTransferState.eta, 0 ≤ v

theorem raised_nonneg {shown : Option Int} (hshown : ∀ v ∈ shown, 0 ≤ v) (candidate : Option Nat) :
    ∀ v ∈ raised shown candidate, 0 ≤ v := by
  intro v hv
  unfold raised at hv
  split at hv
  · exact hshown v hv
  · split_ifs at hv
    · cases hv
      omega
    · exact hshown v hv

theorem raised_le {shown : Option Int} {bound : Int} (hshown : ∀ v ∈ shown, 0 ≤ v ∧ v ≤ bound)
    {candidate : Option Nat} (hcandidate : ∀ c ∈ candidate, (c : Int) ≤ bound) :
    ∀ v ∈ raised shown candidate, 0 ≤ v ∧ v ≤ bound := by
  intro v hv
  unfold raised at hv
  split at hv
  · exact hshown v hv
  · rename_i c
    have hc := hcandidate c rfl
    split_ifs at hv
    · cases hv
      omega
    · exact hshown v hv

theorem rate_nonneg (own : Option Nat) {other : Option Int} (hother : ∀ v ∈ other, 0 ≤ v) :
    ∀ v ∈ (own.map Int.ofNat).or other, 0 ≤ v := by
  intro v hv
  cases own with
  | none => exact hother v hv
  | some n =>
    cases hv
    exact Int.natCast_nonneg n

theorem refreshedOverlay_valid {overlay : ActiveProgressOverlay} (h : Overlay.Valid overlay) (file : RootFile)
    {transfer : TransferState} (hspeed : ∀ v ∈ transfer.speed, 0 ≤ v) (heta : ∀ v ∈ transfer.eta, 0 ≤ v) :
    Overlay.Valid (refreshedOverlay overlay file transfer) where
  downloadProgress := by
    refine raised_le h.downloadProgress fun c hc => ?_
    obtain ⟨p, -, rfl⟩ := Option.map_eq_some_iff.mp hc
    omega
  transferredSize := raised_nonneg h.transferredSize _
  downloadingSpeed := rate_nonneg _ hspeed
  eta := rate_nonneg _ heta

/-- A valid overlay of one root is put in place of another, and the row is stale. -/
theorem Coherent.setOverlay {m : Model} (h : Coherent stale m) {fileId : String} {overlay : ActiveProgressOverlay}
    (hvalid : Overlay.Valid overlay) (m' : Model) (hfiles : m'.filesById = m.filesById)
    (hrows : m'.publishedFilesById = m.publishedFilesById)
    (hoverlays : m'.activeProgressOverlays = m.activeProgressOverlays.set fileId overlay) :
    Coherent (fun id => id = fileId ∨ stale id) m' := by
  refine h.overlays m' hfiles hrows (fun id hnot => ⟨fun hs => hnot (Or.inr hs), ?_⟩) fun id o ho => ?_
  · rw [hoverlays, Dict.get_set, if_neg fun he => hnot (Or.inl he.symm)]
  · rw [hoverlays] at ho
    rcases Dict.eq_or_of_get_set ho with ⟨-, rfl⟩ | ho
    · exact hvalid
    · exact h.valid id o ho

/-- The overlay of a root is refreshed and shown. -/
theorem coherent_refresh {m : Model} (hm : Coherent stale m) {file : RootFile}
    (hfile : m.filesById.get file.fileId = some file) {overlay : ActiveProgressOverlay} (hvalid : Overlay.Valid overlay) :
    Triple (fun s => s = m) (do
        modify fun m : Model => { m with activeProgressOverlays := m.activeProgressOverlays.set file.fileId overlay }
        let _ ← refreshPublishedFile file
        announce file : Act Unit) (fun _ => Coherent stale) (fun _ => False) := by
  refine Triple.bind (Q := fun _ s => Coherent (fun id => id = file.fileId ∨ stale id) s ∧
    s.filesById.get file.fileId = some file) (Triple.modify fun s hs => ?_) fun _ => coherent_publish none
  subst hs
  exact ⟨hm.setOverlay hvalid _ (by rfl) (by rfl) (by rfl), hfile⟩

theorem coherent_refreshRetained (replaced retired : List String) {statuses : Dict String LftpJobStatus}
    (hrates : RatesValid statuses) {entry : String × ActiveProgressOverlay} (hentry : Overlay.Valid entry.2) :
    Spec (Coherent stale) (refreshRetained replaced retired statuses entry) (fun _ => True) := by
  obtain ⟨fileId, overlay⟩ := entry
  unfold refreshRetained
  dsimp only
  split_ifs
  · exact Spec.pure trivial
  refine Triple.spec (Triple.get_bind fun m hm => ?_)
  have hpure : Triple (fun s => s = m) (pure () : Act Unit) (fun _ s => Coherent stale s ∧ True) (Coherent stale) :=
    Triple.pure fun s hs => hs ▸ ⟨hm, trivial⟩
  split
  · rename_i status file hstatus hfile
    have hid : file.fileId = fileId := m.filesById.keyed fileId file hfile
    subst hid
    split_ifs
    · refine (Triple.of_spec (Spec.get_bind fun m _ => ?_)).conseq (fun s hs => hs ▸ hm) (fun _ _ h => h) fun _ h => h
      cases m.overlayJobIdentities.get file.fileId with
      | none => exact Spec.pure trivial
      | some identity =>
        exact Spec.bind (coherent_clearActiveProgressOverlayIfJobIdentityMatches file.fileId identity) fun _ _ =>
          Spec.pure trivial
    · obtain ⟨hspeed, heta⟩ := hrates file.fileId status hstatus
      exact (coherent_refresh hm hfile (refreshedOverlay_valid hentry file hspeed heta)).conseq (fun _ h => h)
        (fun _ _ h => ⟨h, trivial⟩) fun _ h => h.elim
    · exact hpure
  · exact hpure

theorem coherent_applyAuthoritativeRootReplacement {m : Model} (hm : Coherent stale m ∧ Represented m)
    {operation : Operation} (h : operation.Settled) {statuses : Dict String LftpJobStatus} (hrates : RatesValid statuses)
    {epochFor : String → Option Int}
    (hnames : (Call.applyAuthoritativeRootReplacement operation statuses epochFor).KeepsNames m) :
    Coherent stale ((applyAuthoritativeRootReplacement operation statuses epochFor).run.run m).2 := by
  unfold applyAuthoritativeRootReplacement
  rw [run_get_bind]
  dsimp only
  rw [run_set_bind]
  have hreplacing : ∀ fallbacks, Coherent stale (m.replacing fallbacks) ∧ Represented (m.replacing fallbacks) :=
    fun fallbacks => ⟨hm.1.hidden rfl rfl rfl, represented_same hm.2 ⟨rfl, rfl, rfl, fun _ h => h⟩ rfl rfl rfl⟩
  refine Triple.run (Triple.bind (triple_finallyDo
    (coherent_applyWithActiveProgressRetained (hreplacing _) h hnames) (Triple.modify fun s hs => ?_)) fun _ =>
      Triple.keep (Spec.get_bind fun after hafter => Spec.forM _ fun entry hentry => ?_)) rfl
  · exact hs.hidden (by rfl) (by rfl) (by rfl)
  · exact coherent_refreshRetained _ _ hrates (hafter.valid entry.1 entry.2 ((Dict.get_eq_some _ _ _).mpr hentry))

/-! ## Runs -/

def OverlaysValid (overlays : Dict String ActiveProgressOverlay) : Prop :=
  ∀ fileId, ∀ overlay ∈ overlays.get fileId, Overlay.Valid overlay

/-- The call is one of those that keep the rows in step: no root it hands over has a final move
pending, and the setters take the counters and the rates that it brings. -/
def Call.Presentable : Call → Prop
  | addFile file _ => file.finalMovePending = false
  | updateFile file _ => file.finalMovePending = false
  | removeFile _ => True
  | clearActiveProgressOverlays => True
  | clearActiveProgressOverlaysExcept _ => True
  | clearActiveProgressOverlayIfJobIdentityMatches _ _ => True
  | restoreActiveProgressOverlays overlays _ => OverlaysValid overlays
  | replaceActiveProgressOverlays _ _ => False
  | publishActiveLftpRootCounters overlays _ _ => OverlaysValid overlays
  | applyWithActiveProgressRetained operation _ => operation.Settled
  | applyAuthoritativeRootReplacement operation statuses _ => operation.Settled ∧ RatesValid statuses

theorem Call.Presentable.ownsCounters {call : Call} (h : call.Presentable) : call.OwnsCounters := by
  cases call <;> trivial

theorem coherent_call {call : Call} (h : call.Presentable) {m : Model} (hm : Coherent stale m ∧ Represented m)
    (hnames : call.KeepsNames m) : Coherent stale (call.apply m) ∧ Represented (call.apply m) := by
  refine ⟨?_, represented_call hm.2 h.ownsCounters hnames⟩
  have hdiscard : ∀ {α : Type} (program : Act α), Spec (Coherent stale) program (fun _ => True) →
      Coherent stale ((discard program).run.run m).2 := fun program h => by
    rw [run_discard]
    exact (h m hm.1).1
  cases call with
  | addFile file structural => exact (@coherent_edit _ (.addFile file structural) h _ hm trivial).1
  | updateFile file structural => exact (@coherent_edit _ (.updateFile file structural) h _ hm hnames).1
  | removeFile identifier => exact (@coherent_edit _ (.removeFile identifier) trivial _ hm trivial).1
  | clearActiveProgressOverlays => exact (coherent_clearActiveProgressOverlays m hm.1).1
  | clearActiveProgressOverlaysExcept preserved =>
    exact hdiscard _ (coherent_clearActiveProgressOverlaysExcept preserved)
  | clearActiveProgressOverlayIfJobIdentityMatches fileId identity =>
    exact hdiscard _ (coherent_clearActiveProgressOverlayIfJobIdentityMatches fileId identity)
  | restoreActiveProgressOverlays overlays identities =>
    exact hdiscard _ (coherent_restoreActiveProgressOverlays h identities)
  | replaceActiveProgressOverlays overlays changed => exact h.elim
  | publishActiveLftpRootCounters overlays identities lifecycle =>
    exact hdiscard _ (coherent_publishActiveLftpRootCounters h identities lifecycle)
  | applyWithActiveProgressRetained operation retire =>
    exact (coherent_applyWithActiveProgressRetained hm h hnames).run rfl
  | applyAuthoritativeRootReplacement operation statuses epochFor =>
    exact coherent_applyAuthoritativeRootReplacement hm h.1 h.2 hnames

theorem coherent_run {calls : List Call} (h : ∀ call ∈ calls, call.Presentable) (hnames : CallsKeepNames {} calls) :
    Coherent (fun _ => False) (run calls) := by
  suffices hm : ∀ m, Coherent (fun _ => False) m ∧ Represented m → CallsKeepNames m calls →
      Coherent (fun _ => False) (calls.foldl Call.apply m) from
    hm {} ⟨coherent_empty _, indexed_empty, owned_empty⟩ hnames
  clear hnames
  induction calls with
  | nil => exact fun m hm _ => hm.1
  | cons call calls ih =>
    intro m hm hnames
    exact ih (fun c hc => h c (List.mem_cons_of_mem _ hc)) _ (coherent_call (h call List.mem_cons_self) hm hnames.1)
      hnames.2

/-- In every state that presentable calls reach that keep the names, exactly the roots have rows, and every row shows
its root under its overlay. -/
theorem published_rows_show_the_roots (calls : List Call) (hcalls : ∀ call ∈ calls, call.Presentable)
    (hnames : CallsKeepNames {} calls) :
    let m := run calls
    ∀ fileId, ((m.publishedFile fileId).isSome ↔ (m.filesById.get fileId).isSome) ∧
      ∀ file ∈ m.filesById.get fileId, ∃ row, m.publishedFile fileId = some row ∧
        Shows file.toFileRecord (m.activeProgressOverlays.get fileId) row.toFileRecord := by
  intro m fileId
  have hm : Coherent (fun _ => False) m := coherent_run hcalls hnames
  have hshows := hm.shows fileId id
  refine ⟨⟨fun hrow => ?_, fun hroot => ?_⟩, hshows⟩
  · by_contra hnone
    rw [Option.not_isSome_iff_eq_none] at hnone
    rw [hm.owned fileId hnone] at hrow
    cases hrow
  · obtain ⟨file, hfile⟩ := Option.isSome_iff_exists.mp hroot
    obtain ⟨row, hrow, -⟩ := hshows file hfile
    rw [hrow]
    rfl

/-- A root that is downloaded, with the counters of its job. -/
def downloadCalls : List Call :=
  [.addFile { name := "film", isDir := false, state := .downloading, isStoppable := true, remoteSize := some 100 },
    .publishActiveLftpRootCounters (.ofList [("film", ⟨some 40, some 40, some 5, some 12⟩)])
      (.ofList [("film", (3, "pget"))]) ⟨fun _ => true, none⟩]

theorem downloadCalls_presentable : ∀ call ∈ downloadCalls, call.Presentable := by
  intro call hcall
  simp only [downloadCalls, List.mem_cons, List.not_mem_nil, or_false] at hcall
  rcases hcall with rfl | rfl
  · rfl
  · intro fileId overlay hoverlay
    have hmem := Dict.get_ofList_mem hoverlay
    simp only [List.mem_singleton, Prod.mk.injEq] at hmem
    obtain ⟨-, rfl⟩ := hmem
    constructor <;> simp

theorem downloadCalls_row_shows_the_root :
    ((run downloadCalls).publishedFile "film").map (fun row => row.transferredSize) = some (some 40) ∧
      ∃ file ∈ (run downloadCalls).filesById.get "film", ∃ row, (run downloadCalls).publishedFile "film" = some row ∧
        Shows file.toFileRecord ((run downloadCalls).activeProgressOverlays.get "film") row.toFileRecord := by
  refine ⟨by decide +kernel, ?_⟩
  obtain ⟨-, hshows⟩ := published_rows_show_the_roots downloadCalls downloadCalls_presentable
    ⟨trivial, trivial, trivial⟩ "film"
  obtain ⟨file, hfile⟩ : ∃ file, (run downloadCalls).filesById.get "film" = some file :=
    Option.isSome_iff_exists.mp (by decide +kernel)
  exact ⟨file, hfile, hshows file hfile⟩

/-- The row of a root that waits for its final move says that it does not. -/
theorem pending_final_move_is_not_shown :
    let m := run [.addFile { name := "film", isDir := false, finalMovePending := true }]
    ∃ file ∈ m.filesById.get "film", ∃ row, m.publishedFile "film" = some row ∧
      m.activeProgressOverlays.get "film" = none ∧ file.finalMovePending = true ∧ row.finalMovePending = false ∧
        ¬ Shows file.toFileRecord (m.activeProgressOverlays.get "film") row.toFileRecord := by
  refine ⟨{ name := "film", isDir := false, finalMovePending := true }, by decide +kernel,
    { name := "film", isDir := false }, by decide +kernel, by decide +kernel, rfl, rfl, fun h => ?_⟩
  exact absurd (congrArg FileRecord.finalMovePending h.rest) (by decide)

end SeedSync.Live
