import SeedSync.Progressive.Pair
import SeedSync.Lib.Fold

/-!
# What one event does to one pair

One lemma per phase, then `stepPair` by disposition. Later modules cite these and do not
unfold the phases.
-/

open SeedSync.Lib

namespace SeedSync.Progressive

variable {sha256 : List StreamRecord → Digest} {e : PairEvent} {s : PairState}

/-! ## Phases that leave the committed side alone -/

/-- The committed tree, its fingerprints, the fences and the generation are unchanged. -/
structure SameCore (s s' : PairState) : Prop where
  committed : s'.committed = s.committed
  fingerprints : s'.committedRootFingerprints = s.committedRootFingerprints
  fences : s'.moveInvalidations = s.moveInvalidations
  generation : s'.activeGeneration = s.activeGeneration
  failedAt : s'.failedAt = s.failedAt

theorem SameCore.refl (s : PairState) : SameCore s s := ⟨rfl, rfl, rfl, rfl, rfl⟩

theorem SameCore.trans {a b c : PairState} (h : SameCore a b) (h' : SameCore b c) : SameCore a c :=
  ⟨h'.committed.trans h.committed, h'.fingerprints.trans h.fingerprints, h'.fences.trans h.fences,
    h'.generation.trans h.generation, h'.failedAt.trans h.failedAt⟩

theorem admitOutcomes_core (e : PairEvent) (s : PairState) : SameCore s (admitOutcomes e s) := by
  unfold admitOutcomes
  split_ifs
  · exact SameCore.refl s
  · exact ⟨rfl, rfl, rfl, rfl, rfl⟩

@[simp] theorem admitOutcomes_working (e : PairEvent) (s : PairState) :
    (admitOutcomes e s).working = s.working := by
  unfold admitOutcomes; split_ifs <;> rfl

@[simp] theorem admitOutcomes_authoritative (e : PairEvent) (s : PairState) :
    (admitOutcomes e s).authoritative = s.authoritative := by
  unfold admitOutcomes; split_ifs <;> rfl

theorem rebuildWorking_core (e : PairEvent) (prot : String → Bool) (s : PairState) :
    SameCore s (rebuildWorking e prot s) := by
  unfold rebuildWorking
  split_ifs
  · exact ⟨rfl, rfl, rfl, rfl, rfl⟩
  · exact SameCore.refl s

theorem admitManifest_core (e : PairEvent) (prot : String → Bool) (s : PairState) :
    SameCore s (admitManifest e prot s) := by
  unfold admitManifest
  split
  · exact SameCore.refl s
  · exact ⟨rfl, rfl, rfl, rfl, rfl⟩

@[simp] theorem admitManifest_working (e : PairEvent) (prot : String → Bool) (s : PairState) :
    (admitManifest e prot s).working = s.working := by
  unfold admitManifest; split <;> rfl

theorem admitMarker_core (g : Int) (w : MarkerWalk) (m : String × Digest) :
    SameCore w.state (admitMarker g w m).state := by
  unfold admitMarker
  split
  · exact SameCore.refl _
  · split_ifs
    · exact ⟨rfl, rfl, rfl, rfl, rfl⟩
    · exact SameCore.refl _

theorem admitMarkers_core (e : PairEvent) (s : PairState) : SameCore s (admitMarkers e s).state := by
  unfold admitMarkers
  split_ifs
  · exact foldl_invariant (fun w : MarkerWalk => SameCore s w.state) e.markers _
      (fun w m _ h => h.trans (admitMarker_core _ w m)) (SameCore.refl s)
  · exact SameCore.refl s

theorem forgetStart_core (e : PairEvent) (name : String) (s : PairState) :
    SameCore s (forgetStart e name s) ∧ (forgetStart e name s).working = s.working ∧
      (forgetStart e name s).authoritative = s.authoritative := by
  unfold forgetStart
  split
  · split
    · split_ifs
      · exact ⟨⟨rfl, rfl, rfl, rfl, rfl⟩, rfl, rfl⟩
      · exact ⟨SameCore.refl s, rfl, rfl⟩
    · exact ⟨SameCore.refl s, rfl, rfl⟩
  · exact ⟨SameCore.refl s, rfl, rfl⟩

theorem admitRoot_protected (e : PairEvent) (prot : String → Bool) (s : PairState) (f : SystemFile)
    (h : prot f.name = true) : admitRoot e prot s f = s := by
  rw [admitRoot, if_pos h]

theorem admitRoot_fields (e : PairEvent) (prot : String → Bool) (s : PairState) (f : SystemFile)
    (h : prot f.name = false) :
    SameCore s (admitRoot e prot s f) ∧
      (admitRoot e prot s f).working = (s.setWorking e.generation f.name f).working ∧
      (admitRoot e prot s f).authoritative = Function.update s.authoritative f.name
        (if (s.outcomesAt e.generation f.name).any (fun o => decide (o.1 ≠ (true, true))) then none
          else some (some f)) := by
  obtain ⟨hcore, hworking, hauth⟩ := forgetStart_core e f.name (s.setWorking e.generation f.name f)
  rw [admitRoot, if_neg (by simp [h])]
  refine ⟨⟨hcore.committed, hcore.fingerprints, hcore.fences, hcore.generation, hcore.failedAt⟩, hworking, ?_⟩
  simp only [PairState.setAuthority, hauth]
  rfl

theorem admitRoot_core (e : PairEvent) (prot : String → Bool) (s : PairState) (f : SystemFile) :
    SameCore s (admitRoot e prot s f) := by
  cases h : prot f.name with
  | true => rw [admitRoot_protected e prot s f h]; exact SameCore.refl s
  | false => exact (admitRoot_fields e prot s f h).1

theorem admitRoots_core (e : PairEvent) (prot : String → Bool) (files : List SystemFile) (s : PairState) :
    SameCore s (files.foldl (admitRoot e prot) s) :=
  foldl_relation SameCore SameCore.refl (fun _ _ _ => SameCore.trans) files s
    (fun t f _ => admitRoot_core e prot t f)

theorem sealManifest_core (e : PairEvent) (s : PairState) : SameCore s (sealManifest e s) := by
  unfold sealManifest
  split_ifs
  · exact ⟨rfl, rfl, rfl, rfl, rfl⟩
  · exact SameCore.refl s

@[simp] theorem sealManifest_working (e : PairEvent) (s : PairState) :
    (sealManifest e s).working = s.working := by
  unfold sealManifest; split_ifs <;> rfl

@[simp] theorem sealManifest_authoritative (e : PairEvent) (s : PairState) :
    (sealManifest e s).authoritative = s.authoritative := by
  unfold sealManifest; split_ifs <;> rfl

/-! ## Generations -/

/-- A stale event releases nothing. -/
theorem releaseFences_stale (h : e.generation < s.previousGeneration) : releaseFences e s = s := by
  have hd : ∀ name inv, releasesDeletion e s.previousGeneration name inv = false := by
    intro name inv
    simp [releasesDeletion, Int.not_le.mpr h]
  have hm : ∀ name inv, releasesMove e s.previousGeneration name inv = false := by
    intro name inv
    simp [releasesMove, Int.not_le.mpr h]
  simp [releaseFences, hd, hm]

theorem acceptGeneration_generation (h : ¬ e.generation < s.previousGeneration) :
    (acceptGeneration e s).previousGeneration = e.generation := by
  have hg : (acceptGeneration e s).activeGeneration = _ := (admitOutcomes_core _ _).generation
  rw [PairState.previousGeneration, hg]
  split_ifs with hlt
  · rfl
  · have heq : s.previousGeneration = e.generation := by omega
    exact heq

theorem acceptGeneration_committed (e : PairEvent) (s : PairState) :
    (acceptGeneration e s).committed = s.committed := by
  unfold acceptGeneration
  rw [(admitOutcomes_core _ _).committed]
  split_ifs <;> rfl

theorem acceptGeneration_fingerprints (e : PairEvent) (s : PairState) :
    (acceptGeneration e s).committedRootFingerprints = s.committedRootFingerprints := by
  unfold acceptGeneration
  rw [(admitOutcomes_core _ _).fingerprints]
  split_ifs <;> rfl

theorem acceptGeneration_fences (e : PairEvent) (s : PairState) :
    (acceptGeneration e s).moveInvalidations = (releaseFences e s).moveInvalidations := by
  unfold acceptGeneration
  rw [(admitOutcomes_core _ _).fences]
  split_ifs <;> rfl

/-! ## Markers -/

/-- The marker names a committed root and carries the digest held for it. -/
def MarkerHolds (s : PairState) (m : String × Digest) : Prop :=
  (s.committed m.1).isSome ∧ s.committedRootFingerprints m.1 = some m.2

instance (s : PairState) (m : String × Digest) : Decidable (MarkerHolds s m) :=
  inferInstanceAs (Decidable (_ ∧ _))

theorem markerHolds_congr {a b : PairState} (h : SameCore a b) (m : String × Digest) :
    MarkerHolds b m ↔ MarkerHolds a m := by
  unfold MarkerHolds; rw [h.committed, h.fingerprints]

theorem admitMarker_invalid (g : Int) (w : MarkerWalk) (m : String × Digest) :
    (admitMarker g w m).invalidMarker = true ↔ w.invalidMarker = true ∨ ¬ MarkerHolds w.state m := by
  unfold admitMarker MarkerHolds
  cases hc : w.state.committed m.1 with
  | none => simp
  | some root => by_cases hf : w.state.committedRootFingerprints m.1 = some m.2 <;> simp [hf]

theorem foldl_admitMarker_invalid (g : Int) (ms : List (String × Digest)) (w : MarkerWalk) :
    (ms.foldl (admitMarker g) w).invalidMarker = true ↔
      w.invalidMarker = true ∨ ∃ m ∈ ms, ¬ MarkerHolds w.state m := by
  induction ms generalizing w with
  | nil => simp
  | cons m ms ih =>
    rw [List.foldl_cons, ih, admitMarker_invalid]
    simp only [markerHolds_congr (admitMarker_core g w m), List.mem_cons, exists_eq_or_imp, or_assoc]

theorem admitMarkers_invalid (e : PairEvent) (s : PairState) :
    (admitMarkers e s).invalidMarker = true ↔ e.fullSnapshot = true ∧ ∃ m ∈ e.markers, ¬ MarkerHolds s m := by
  unfold admitMarkers
  split_ifs with hf
  · rw [foldl_admitMarker_invalid]; simp [hf]
  · simp [hf]

/-- When every marker holds, the marked roots are the committed ones and keep their digests. -/
theorem foldl_admitMarker_holds (g : Int) (ms : List (String × Digest)) (w : MarkerWalk)
    (h : ∀ m ∈ ms, MarkerHolds w.state m) (name : String) :
    (ms.foldl (admitMarker g) w).state.working g name =
        (if name ∈ ms.map Prod.fst then w.state.committed name else w.state.working g name) ∧
      (ms.foldl (admitMarker g) w).state.authoritative name =
        (if name ∈ ms.map Prod.fst then some (w.state.committed name) else w.state.authoritative name) ∧
      (ms.foldl (admitMarker g) w).retained name =
        (if name ∈ ms.map Prod.fst then w.state.committedRootFingerprints name else w.retained name) := by
  induction ms generalizing w with
  | nil => simp
  | cons m ms ih =>
    obtain ⟨hsome, hfp⟩ := h m List.mem_cons_self
    obtain ⟨root, hroot⟩ := Option.isSome_iff_exists.mp hsome
    have hcore := admitMarker_core g w m
    have hstep : admitMarker g w m =
        { w with
          state := (w.state.setWorking g m.1 root).setAuthority m.1 (some (some root))
          retained := Function.update w.retained m.1 (some m.2) } := by
      unfold admitMarker; rw [hroot]; simp [hfp]
    rw [List.foldl_cons]
    obtain ⟨hw, ha, hr⟩ := ih (admitMarker g w m)
      (fun m' hm' => (markerHolds_congr hcore m').mpr (h m' (List.mem_cons_of_mem _ hm')))
    rw [hw, ha, hr, hcore.committed, hcore.fingerprints, hstep]
    simp only [PairState.setWorking, PairState.setAuthority, List.map_cons, List.mem_cons]
    by_cases hn : name = m.1
    · subst hn
      simp [hroot, hfp]
    · by_cases hmem : name ∈ ms.map Prod.fst <;> simp only [hn, hmem] <;> simp [hn]

/-! ## Roots -/

theorem admitRoot_working (e : PairEvent) (prot : String → Bool) (s : PairState) (f : SystemFile)
    (name : String) :
    (admitRoot e prot s f).working e.generation name =
      if f.name = name ∧ prot name = false then some f else s.working e.generation name := by
  cases hp : prot f.name with
  | true =>
    rw [admitRoot_protected e prot s f hp, if_neg]
    rintro ⟨rfl, h⟩
    simp [hp] at h
  | false =>
    rw [(admitRoot_fields e prot s f hp).2.1]
    by_cases hn : f.name = name
    · subst hn
      simp [PairState.setWorking, hp]
    · simp [PairState.setWorking, hn, Function.update_of_ne (Ne.symm hn)]

/-- The root loop: an unprotected root is the last file of its name. -/
theorem admitRoots_working (e : PairEvent) (prot : String → Bool) (files : List SystemFile) (s : PairState)
    (name : String) :
    (files.foldl (admitRoot e prot) s).working e.generation name =
      if prot name then s.working e.generation name
      else (SystemFile.childNamed files name).or (s.working e.generation name) := by
  induction files generalizing s with
  | nil => simp [SystemFile.childNamed]
  | cons f files ih =>
    rw [List.foldl_cons, ih, admitRoot_working]
    by_cases hp : prot name = true
    · simp [hp]
    · simp only [hp, SystemFile.childNamed]
      cases SystemFile.childNamed files name with
      | some g => simp
      | none => by_cases hn : f.name = name <;> simp [hn]

/-- Roots of other generations are not written. -/
theorem admitRoots_working_ne (e : PairEvent) (prot : String → Bool) (files : List SystemFile) (s : PairState)
    (g : Int) (hg : g ≠ e.generation) :
    (files.foldl (admitRoot e prot) s).working g = s.working g := by
  apply foldl_invariant (fun t : PairState => t.working g = s.working g) files s _ rfl
  intro t f _ ht
  rw [← ht]
  cases hp : prot f.name with
  | true => rw [admitRoot_protected e prot t f hp]
  | false =>
    rw [(admitRoot_fields e prot t f hp).2.1]
    simp [PairState.setWorking, hg]

/-! ## The whole step -/

theorem stepPair_stale (h : e.generation < s.previousGeneration) : stepPair sha256 e s = (s, .stale) := by
  simp [stepPair, h, releaseFences_stale h]

theorem stepPair_failed (h : ¬ e.generation < s.previousGeneration) (hf : e.failed = true) :
    stepPair sha256 e s =
      (failGeneration e (protectedRoot e (releaseFences e s)) (acceptGeneration e s), .failed) := by
  simp [stepPair, h, hf]

theorem stepPair_admitted (h : ¬ e.generation < s.previousGeneration) (hf : e.failed = false) :
    stepPair sha256 e s =
      admitSnapshot sha256 e (protectedRoot e (releaseFences e s)) (acceptGeneration e s) := by
  simp [stepPair, h, hf]

/-- What a completion commits: protected roots stay, the others come from the snapshot. -/
def snapshotRoots (e : PairEvent) (prot : String → Bool) (s : PairState) : Roots := fun name =>
  if prot name then s.committed name
  else (SystemFile.childNamed e.files name).or
    (if name ∈ e.markers.map Prod.fst then s.committed name else none)

/-- The state before the commit of a snapshot with matching markers. -/
def beforeCommit (e : PairEvent) (prot : String → Bool) (s : PairState) : PairState :=
  sealManifest e (e.files.foldl (admitRoot e prot)
    (admitMarkers e (admitManifest e prot (rebuildWorking e prot s))).state)

theorem beforeCommit_core (e : PairEvent) (prot : String → Bool) (s : PairState) :
    SameCore s (beforeCommit e prot s) :=
  ((((rebuildWorking_core e prot s).trans (admitManifest_core e prot _)).trans (admitMarkers_core e _)).trans
    (admitRoots_core e prot e.files _)).trans (sealManifest_core e _)

/-- The markers are checked against the pair as it was before the event. -/
theorem markers_core (e : PairEvent) (prot : String → Bool) (s : PairState) :
    SameCore s (admitManifest e prot (rebuildWorking e prot s)) :=
  (rebuildWorking_core e prot s).trans (admitManifest_core e prot _)

theorem beforeCommit_working (prot : String → Bool) (hfull : e.fullSnapshot = true)
    (hm : ∀ m ∈ e.markers, MarkerHolds s m) :
    (beforeCommit e prot s).working e.generation = snapshotRoots e prot s := by
  funext name
  have hcore := markers_core e prot s
  have hm' : ∀ m ∈ e.markers, MarkerHolds (admitManifest e prot (rebuildWorking e prot s)) m :=
    fun m h => (markerHolds_congr hcore m).mpr (hm m h)
  have hrebuilt : (rebuildWorking e prot s).working e.generation name =
      if prot name then s.committed name else none := by simp [rebuildWorking, hfull]
  have hmarked : (admitMarkers e (admitManifest e prot (rebuildWorking e prot s))).state.working e.generation name =
      if name ∈ e.markers.map Prod.fst then s.committed name
      else if prot name then s.committed name else none := by
    unfold admitMarkers
    rw [if_pos hfull, (foldl_admitMarker_holds e.generation e.markers _ hm' name).1, hcore.committed,
      admitManifest_working, hrebuilt]
  rw [beforeCommit, sealManifest_working, admitRoots_working, hmarked, snapshotRoots]
  by_cases hp : prot name = true
  · simp [hp]
  · simp [hp]

theorem beforeCommit_manifest (prot : String → Bool) (hfull : e.fullSnapshot = true)
    (hm : ∀ m ∈ e.markers, MarkerHolds s m) :
    (beforeCommit e prot s).manifests e.generation = some (fun name => (snapshotRoots e prot s name).isSome) := by
  rw [← beforeCommit_working prot hfull hm]
  simp [beforeCommit, sealManifest, hfull]

theorem admitMarkers_retained (prot : String → Bool) (hfull : e.fullSnapshot = true)
    (hm : ∀ m ∈ e.markers, MarkerHolds s m) (name : String) :
    (admitMarkers e (admitManifest e prot (rebuildWorking e prot s))).retained name =
      if name ∈ e.markers.map Prod.fst then s.committedRootFingerprints name else none := by
  have hcore := markers_core e prot s
  have hm' : ∀ m ∈ e.markers, MarkerHolds (admitManifest e prot (rebuildWorking e prot s)) m :=
    fun m h => (markerHolds_congr hcore m).mpr (hm m h)
  unfold admitMarkers
  rw [if_pos hfull, (foldl_admitMarker_holds e.generation e.markers _ hm' name).2.2, hcore.fingerprints]

theorem admitSnapshot_rejected (prot : String → Bool) (hfull : e.fullSnapshot = true)
    (hm : ∃ m ∈ e.markers, ¬ MarkerHolds s m) :
    admitSnapshot sha256 e prot s =
      (rejectMarkers e (admitMarkers e (admitManifest e prot (rebuildWorking e prot s))).state, .rejected) := by
  unfold admitSnapshot
  have hcore := markers_core e prot s
  simp only
  rw [if_pos]
  rw [admitMarkers_invalid]
  obtain ⟨m, hmem, hbad⟩ := hm
  exact ⟨hfull, m, hmem, fun h => hbad ((markerHolds_congr hcore m).mp h)⟩

theorem admitSnapshot_admitted (prot : String → Bool)
    (hm : e.fullSnapshot = true → ∀ m ∈ e.markers, MarkerHolds s m) :
    admitSnapshot sha256 e prot s =
      if e.healthy then
        (commitSnapshot sha256 e
          (admitMarkers e (admitManifest e prot (rebuildWorking e prot s))).retained (beforeCommit e prot s),
          .completed)
      else (beforeCommit e prot s, .progressed) := by
  unfold admitSnapshot
  have hcore := markers_core e prot s
  simp only
  rw [if_neg]
  · rfl
  · rw [admitMarkers_invalid]
    rintro ⟨hfull, m, hmem, hbad⟩
    exact hbad ((markerHolds_congr hcore m).mpr (hm hfull m hmem))

/-- The three ways an accepted event that did not fail can end. -/
theorem admitSnapshot_cases (sha256 : List StreamRecord → Digest) (e : PairEvent) (prot : String → Bool)
    (s : PairState) :
    (e.fullSnapshot = true ∧ (∃ m ∈ e.markers, ¬ MarkerHolds s m) ∧
      (admitSnapshot sha256 e prot s).2 = .rejected) ∨
    ((e.fullSnapshot = true → ∀ m ∈ e.markers, MarkerHolds s m) ∧ e.healthy = false ∧
      admitSnapshot sha256 e prot s = (beforeCommit e prot s, .progressed)) ∨
    ((∀ m ∈ e.markers, MarkerHolds s m) ∧ e.healthy = true ∧
      (admitSnapshot sha256 e prot s).2 = .completed) := by
  by_cases hbad : e.fullSnapshot = true ∧ ∃ m ∈ e.markers, ¬ MarkerHolds s m
  · exact Or.inl ⟨hbad.1, hbad.2, by rw [admitSnapshot_rejected prot hbad.1 hbad.2]⟩
  · have hm : e.fullSnapshot = true → ∀ m ∈ e.markers, MarkerHolds s m := by
      intro hfull m hmem
      by_contra h
      exact hbad ⟨hfull, m, hmem, h⟩
    rw [admitSnapshot_admitted prot hm]
    cases hh : e.healthy with
    | false => exact Or.inr (Or.inl ⟨hm, rfl, by simp⟩)
    | true => exact Or.inr (Or.inr ⟨hm (e.healthy_full hh).1, rfl, by simp⟩)

/-- The state after the commit, field by field. -/
theorem commitSnapshot_committed (prot : String → Bool) (retained : String → Option Digest)
    (hfull : e.fullSnapshot = true) (hm : ∀ m ∈ e.markers, MarkerHolds s m) :
    (commitSnapshot sha256 e retained (beforeCommit e prot s)).committed = snapshotRoots e prot s := by
  funext name
  simp only [commitSnapshot, beforeCommit_manifest prot hfull hm, beforeCommit_working prot hfull hm,
    Option.all_some]
  cases snapshotRoots e prot s name <;> simp

theorem commitSnapshot_fingerprints (prot : String → Bool)
    (hfull : e.fullSnapshot = true) (hm : ∀ m ∈ e.markers, MarkerHolds s m) (name : String) :
    (commitSnapshot sha256 e (admitMarkers e (admitManifest e prot (rebuildWorking e prot s))).retained
        (beforeCommit e prot s)).committedRootFingerprints name =
      (snapshotRoots e prot s name).bind (fun file =>
        if name ∈ e.markers.map Prod.fst then s.committedRootFingerprints name
        else some (streamRootFingerprint sha256 file)) := by
  simp only [commitSnapshot, beforeCommit_manifest prot hfull hm, beforeCommit_working prot hfull hm,
    Option.all_some, admitMarkers_retained prot hfull hm]
  cases hr : snapshotRoots e prot s name with
  | none => simp
  | some file =>
    by_cases hmem : name ∈ e.markers.map Prod.fst
    · obtain ⟨m, hm1, rfl⟩ := List.mem_map.mp hmem
      simp only [if_pos hmem, (hm m hm1).2]
      simp
    · simp [if_neg hmem]

theorem commitSnapshot_working (prot : String → Bool) (retained : String → Option Digest)
    (hfull : e.fullSnapshot = true) (hm : ∀ m ∈ e.markers, MarkerHolds s m) :
    (commitSnapshot sha256 e retained (beforeCommit e prot s)).working e.generation = snapshotRoots e prot s := by
  funext name
  simp only [commitSnapshot, beforeCommit_manifest prot hfull hm, beforeCommit_working prot hfull hm,
    Option.all_some, Function.update_self]
  cases snapshotRoots e prot s name <;> simp

end SeedSync.Progressive
