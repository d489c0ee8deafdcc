import SeedSync.Progressive.Protected
import SeedSync.Progressive.Run

/-!
# Move and delete fences

A pending move keeps every event away from its root, a finished move those up to its
generation, and a confirmed deletion everything until newer evidence supersedes it.
-/

open SeedSync.Lib

namespace SeedSync.Progressive

variable {sha256 : List StreamRecord → Digest} {e : PairEvent} {s : PairState} {r : String}
  {t : Nat × Invalidation}

/-! ## How a fence ends -/

/-- The evidence that ends a fence. -/
def Ends (e : PairEvent) (r : String) (inv : Invalidation) : Prop :=
  inv.generation < e.generation ∧
    ((inv.status = .confirmedDelete ∧ (e.hasCurrentRoot r = true ∨ e.healthy = true)) ∨ inv.status = .committed)

theorem releaseFences_kept (h : t ∈ s.moveInvalidations r) :
    t ∈ (releaseFences e s).moveInvalidations r ∨ (s.previousGeneration ≤ e.generation ∧ Ends e r t.2) := by
  by_cases hd : releasesDeletion e s.previousGeneration r t.2 = true
  · right
    simp only [releasesDeletion, Bool.and_eq_true, Bool.or_eq_true, decide_eq_true_eq] at hd
    exact ⟨hd.1.2, hd.1.1.2, Or.inl ⟨hd.1.1.1, hd.2⟩⟩
  by_cases hm : releasesMove e s.previousGeneration r t.2 = true
  · right
    simp only [releasesMove, Bool.and_eq_true, decide_eq_true_eq] at hm
    exact ⟨hm.1.1.1.1.2, hm.1.2, Or.inr hm.1.1.2⟩
  · left
    simp only [releaseFences, List.mem_filter]
    simp only [Bool.not_eq_true] at hd hm
    exact ⟨⟨h, by rw [hd]; rfl⟩, by rw [hm]; rfl⟩

variable (sha256) in
theorem admitSnapshot_fences (prot : String → Bool) (h : t ∈ s.moveInvalidations r) :
    t ∈ (admitSnapshot sha256 e prot s).1.moveInvalidations r ∨
      (t.2.generation < e.generation ∧ t.2.status = .committed) := by
  have hcore := beforeCommit_core e prot s
  by_cases hbad : e.fullSnapshot = true ∧ ∃ m ∈ e.markers, ¬ MarkerHolds s m
  · left
    rw [admitSnapshot_rejected prot hbad.1 hbad.2]
    have hcore' := (markers_core e prot s).trans (admitMarkers_core e _)
    exact (congrFun hcore'.fences r) ▸ h
  · rw [admitSnapshot_admitted prot (fun hfull m hm => by
      by_contra hn
      exact hbad ⟨hfull, m, hm, hn⟩)]
    split_ifs
    · by_cases hend : t.2.generation < e.generation ∧ t.2.status = .committed
      · exact Or.inr hend
      · left
        simp only [commitSnapshot, hcore.fences, List.mem_filter]
        refine ⟨h, ?_⟩
        simp only [Bool.not_eq_true', Bool.and_eq_false_iff, decide_eq_false_iff_not]
        tauto
    · left; simpa only [hcore.fences] using h

variable (sha256) in
/-- A fence stays until an event that is not stale ends it. -/
theorem stepPair_fences (h : t ∈ s.moveInvalidations r) :
    t ∈ (stepPair sha256 e s).1.moveInvalidations r ∨ (s.previousGeneration ≤ e.generation ∧ Ends e r t.2) := by
  by_cases hs : e.generation < s.previousGeneration
  · rw [stepPair_stale hs]; exact Or.inl h
  rcases releaseFences_kept (e := e) h with hrel | hend
  · rw [← acceptGeneration_fences] at hrel
    cases hf : e.failed with
    | true => rw [stepPair_failed hs hf]; exact Or.inl hrel
    | false =>
      rw [stepPair_admitted hs hf]
      rcases admitSnapshot_fences sha256 (protectedRoot e (releaseFences e s)) hrel with hk | ⟨hg, hc⟩
      · exact Or.inl hk
      · exact Or.inr ⟨Int.not_lt.mp hs, hg, Or.inr hc⟩
  · exact Or.inr hend

theorem stepPair_previousGeneration (h : ¬ e.generation < s.previousGeneration) :
    (stepPair sha256 e s).1.previousGeneration = e.generation := by
  rw [← acceptGeneration_generation h]
  unfold PairState.previousGeneration
  cases hf : e.failed with
  | true => rw [stepPair_failed h hf]; rfl
  | false => rw [stepPair_admitted h hf, admitSnapshot_generation]

theorem protectedRoot_of_fence (h : t ∈ (releaseFences e s).moveInvalidations r) (hp : protects e t.2 = true) :
    protectedRoot e (releaseFences e s) r = true :=
  List.any_eq_true.mpr ⟨t, h, hp⟩

/-! ## One event -/

/-- The committed root stays, and the snapshot shows the old root or the committed one. -/
structure Shielded (r : String) (old new : PairState) : Prop where
  committed : new.committed r = old.committed r
  visible : new.visible r = old.visible r ∨ new.visible r = old.committed r

theorem Shielded.refl (s : PairState) : Shielded r s s := ⟨rfl, Or.inl rfl⟩

theorem Shielded.trans {a b c : PairState} (h : Shielded r a b) (h' : Shielded r b c) : Shielded r a c := by
  refine ⟨h'.committed.trans h.committed, ?_⟩
  rcases h'.visible with hv | hv
  · rw [hv]; exact h.visible
  · rw [hv]; exact Or.inr h.committed

theorem Shielded.of_stored {a b : PairState} (h : Stored a b) : Shielded r a b := by
  rw [h.eq_with]; exact ⟨rfl, Or.inl rfl⟩

theorem stepPair_shielded (h : protectedRoot e (releaseFences e s) r = true) :
    Shielded r s (stepPair sha256 e s).1 :=
  ⟨stepPair_protected_committed h, stepPair_protected_visible h⟩

/-- A pending move is there after every event, and shields its root. -/
theorem stepPair_pending (h : t ∈ s.moveInvalidations r) (hp : t.2.status = .pending) :
    t ∈ (stepPair sha256 e s).1.moveInvalidations r ∧ Shielded r s (stepPair sha256 e s).1 := by
  have hends : ¬ Ends e r t.2 := by
    rintro ⟨-, ⟨hd, -⟩ | hc⟩
    · rw [hp] at hd; cases hd
    · rw [hp] at hc; cases hc
  have hrel := (releaseFences_kept (e := e) h).resolve_right (fun hr => hends hr.2)
  refine ⟨(stepPair_fences sha256 h).resolve_right (fun hr => hends hr.2), stepPair_shielded ?_⟩
  exact protectedRoot_of_fence hrel (by simp [protects, hp])

/-- The move of this generation is still fenced, or the pair has moved past it. -/
def FencedOrPast (s : PairState) (r : String) (t : Nat × Invalidation) : Prop :=
  t ∈ s.moveInvalidations r ∨ t.2.generation < s.previousGeneration

theorem stepPair_past (h : FencedOrPast s r t) : FencedOrPast (stepPair sha256 e s).1 r t := by
  by_cases hs : e.generation < s.previousGeneration
  · rw [stepPair_stale hs]; exact h
  · rcases h with h | h
    · rcases stepPair_fences sha256 (e := e) h with hk | ⟨-, hend⟩
      · exact Or.inl hk
      · right; rw [stepPair_previousGeneration hs]; exact hend.1
    · right; rw [stepPair_previousGeneration hs]; omega

theorem stepPair_finished (h : FencedOrPast s r t) (hg : e.generation ≤ t.2.generation) :
    Shielded r s (stepPair sha256 e s).1 := by
  by_cases hs : e.generation < s.previousGeneration
  · rw [stepPair_stale hs]; exact Shielded.refl s
  · rcases h with h | h
    · have hrel := (releaseFences_kept (e := e) h).resolve_right (fun hr => by
        have := hr.2.1
        omega)
      exact stepPair_shielded (protectedRoot_of_fence hrel (by simp [protects, hg]))
    · omega

/-- A deletion confirmed in generation `g` or later is fenced. -/
def DeletionFenced (s : PairState) (r : String) (g : Int) : Prop :=
  ∃ t ∈ s.moveInvalidations r, t.2.status = .confirmedDelete ∧ g ≤ t.2.generation

theorem stepPair_deleted {g : Int} (h : DeletionFenced s r g)
    (hq : g < e.generation → e.hasCurrentRoot r = false ∧ e.healthy = false) :
    DeletionFenced (stepPair sha256 e s).1 r g ∧
      (stepPair sha256 e s).1.storedTrees r ⊆ s.storedTrees r := by
  obtain ⟨t, ht, hstatus, hg⟩ := h
  have hends : ¬ Ends e r t.2 := by
    rintro ⟨hlt, ⟨-, hroot⟩ | hc⟩
    · obtain ⟨h1, h2⟩ := hq (by omega)
      rw [h1, h2] at hroot
      simp at hroot
    · rw [hstatus] at hc; cases hc
  have hrel := (releaseFences_kept (e := e) ht).resolve_right (fun hr => hends hr.2)
  refine ⟨⟨t, (stepPair_fences sha256 ht).resolve_right (fun hr => hends hr.2), hstatus, hg⟩, ?_⟩
  exact stepPair_protected_trees (protectedRoot_of_fence hrel (by simp [protects, hstatus]))

/-! ## The other calls -/

/-- The call is not the one that finishes the move of this token. -/
def LeavesMove (p : PairId) (r : String) (token : Nat) : Call → Prop
  | .finishRootInvalidation p' r' token' _ _ => ¬ (p' = p ∧ r' = r ∧ token' = token)
  | _ => True

/-- An entry is still there; a deletion may have been raised to a later generation. -/
def Persists (t : Nat × Invalidation) (s : PairState) (r : String) : Prop :=
  ∃ t' ∈ s.moveInvalidations r, t'.2.status = t.2.status ∧ t.2.generation ≤ t'.2.generation ∧
    (t.2.status ≠ .confirmedDelete → t' = t)

theorem Persists.of_mem (h : t ∈ s.moveInvalidations r) : Persists t s r :=
  ⟨t, h, rfl, Int.le_refl _, fun _ => rfl⟩

theorem Persists.of_stored {a b : PairState} (h : Stored a b) (hp : Persists t a r) : Persists t b r := by
  rw [h.eq_with]; exact hp

theorem fenceDeletion_persists (token : Nat) (g : Int) (entries : List (Nat × Invalidation)) (h : t ∈ entries) :
    ∃ t' ∈ (fenceDeletion token g entries).1, t'.2.status = t.2.status ∧
      t.2.generation ≤ t'.2.generation ∧ (t.2.status ≠ .confirmedDelete → t' = t) := by
  induction entries with
  | nil => cases h
  | cons u rest ih =>
    rw [fenceDeletion]
    split_ifs with hu
    · rcases List.mem_cons.mp h with rfl | hmem
      · exact ⟨_, List.mem_cons_self, hu.symm, Int.le_max_left _ _, fun hne => absurd hu hne⟩
      · exact ⟨t, List.mem_cons_of_mem _ hmem, rfl, Int.le_refl _, fun _ => rfl⟩
    · rcases List.mem_cons.mp h with rfl | hmem
      · exact ⟨t, List.mem_cons_self, rfl, Int.le_refl _, fun _ => rfl⟩
      · obtain ⟨t', ht', hrest⟩ := ih hmem
        exact ⟨t', List.mem_cons_of_mem _ ht', hrest⟩

theorem fenceDeletion_fenced (token : Nat) (g : Int) (entries : List (Nat × Invalidation)) :
    ∃ t ∈ (fenceDeletion token g entries).1, t.2.status = .confirmedDelete ∧ g ≤ t.2.generation := by
  induction entries with
  | nil => exact ⟨_, List.mem_cons_self, rfl, Int.le_refl _⟩
  | cons u rest ih =>
    rw [fenceDeletion]
    split_ifs with hu
    · exact ⟨_, List.mem_cons_self, rfl, Int.le_max_right _ _⟩
    · obtain ⟨t, ht, hrest⟩ := ih
      exact ⟨t, List.mem_cons_of_mem _ ht, hrest⟩

/-- Finishing another move keeps the entry. -/
theorem finish_mem {entries : List (Nat × Invalidation)} {token : Nat} (mutated : Bool)
    (completedAt : Option Instant) (h : t ∈ entries) (ht : t.1 ≠ token) :
    t ∈ (if mutated then entries.map (fun u =>
          if u.1 = token then (u.1, { u.2 with status := .committed, completedAt }) else u)
        else entries.filter (fun u => decide (u.1 ≠ token))) := by
  cases mutated with
  | true => exact List.mem_map.mpr ⟨t, h, if_neg ht⟩
  | false => exact List.mem_filter.mpr ⟨h, by simpa using ht⟩

theorem run_persists {acc : ScanAccumulator} {call : Call} {p : PairId} (hk : KeepsSession acc call)
    (hl : LeavesMove p r t.1 call) (happly : ∀ events configured, call ≠ .apply events configured)
    (h : t ∈ (acc.pairs p).moveInvalidations r) : Persists t ((call.run sha256 acc).pairs p) r := by
  cases call with
  | apply events configured => exact absurd rfl (happly events configured)
  | setSessionToken token =>
    rw [Call.run, setSessionToken_pairs hk]
    exact Persists.of_mem h
  | beginRootInvalidation pair root g =>
    rw [Call.run, beginRootInvalidation]
    split_ifs
    · exact Persists.of_mem h
    · dsimp only
      rw [modifyPair_pairs]
      split_ifs
      · apply Persists.of_mem
        by_cases hr : r = root
        · subst hr; simp [h]
        · simpa [hr] using h
      · exact Persists.of_mem h
  | finishRootInvalidation pair root token mutated completedAt =>
    rw [Call.run, finishRootInvalidation, modifyPair_pairs]
    by_cases hp : p = pair
    · rw [if_pos hp]
      apply Persists.of_mem
      by_cases hr : r = root
      · subst hr hp
        have hkept := finish_mem mutated completedAt h (fun ht => hl ⟨rfl, rfl, ht.symm⟩)
        dsimp only
        rw [Function.update_self]
        exact hkept
      · dsimp only
        rw [Function.update_of_ne hr]
        exact h
    · rw [if_neg hp]; exact Persists.of_mem h
  | confirmLocalDeletion pair root segments g session =>
    rw [Call.run]
    have hbound := @setSessionToken_pairs acc (some session) (fun t ht => by cases ht; exact hk)
    rcases confirm_pairs acc pair root segments g session p with (heq | heq) | ⟨-, heq⟩
    · rw [heq]; exact Persists.of_mem h
    · rw [heq, hbound]; exact Persists.of_mem h
    · rw [heq, hbound]
      by_cases hr : r = root
      · subst hr
        obtain ⟨t', ht', hrest⟩ := fenceDeletion_persists
          ((setSessionToken acc (some session)).nextMoveInvalidationToken + 1) g _ h
        exact ⟨t', by simpa [prunePair] using ht', hrest⟩
      · exact Persists.of_mem (by simpa [prunePair, hr] using h)
  | pruneConfirmedLocalDeletion pair root segments =>
    rw [Call.run, pruneConfirmedLocalDeletion]
    split_ifs
    · exact Persists.of_mem h
    · rw [modifyPair_pairs]
      split_ifs <;> exact Persists.of_mem h

/-! ## Runs -/

variable {acc : ScanAccumulator} {p : PairId}

theorem run_previousGeneration {call : Call} (hk : KeepsSession acc call)
    (happly : ∀ events configured, call ≠ .apply events configured) :
    ((call.run sha256 acc).pairs p).previousGeneration = (acc.pairs p).previousGeneration := by
  obtain ⟨base, fences, rfl | ⟨hnk, -⟩, heq | ⟨root, segments, -, heq⟩⟩ :=
    run_pair_cases sha256 acc call happly p
  · rw [heq]; rfl
  · rw [heq]; rfl
  all_goals exact absurd hk hnk

/-- The calls of one session that do not finish the move of this token. -/
def DuringMove (p : PairId) (r : String) (token : Nat) (acc : ScanAccumulator) (call : Call) : Prop :=
  KeepsSession acc call ∧ LeavesMove p r token call

variable (sha256) in
theorem stepPairs_pending (scope : DrainScope) (pairs : PairId → PairState) (event : ScannerResult)
    (h : t ∈ (pairs p).moveInvalidations r) (hp : t.2.status = .pending) :
    t ∈ (scope.stepPairs sha256 pairs event p).moveInvalidations r ∧
      Shielded r (pairs p) (scope.stepPairs sha256 pairs event p) := by
  rcases @stepPairs_cases sha256 scope pairs event p with ⟨-, heq⟩ | ⟨-, heq⟩ | ⟨-, heq⟩
  · rw [heq]; exact stepPair_pending h hp
  · rw [heq]; exact ⟨h, rfl, Or.inl rfl⟩
  · rw [heq]; exact ⟨h, Shielded.refl _⟩

variable (sha256) in
theorem stepPairs_past (scope : DrainScope) (pairs : PairId → PairState) (event : ScannerResult)
    (h : FencedOrPast (pairs p) r t) :
    FencedOrPast (scope.stepPairs sha256 pairs event p) r t ∧ (event.generation ≤ t.2.generation →
      Shielded r (pairs p) (scope.stepPairs sha256 pairs event p)) := by
  rcases @stepPairs_cases sha256 scope pairs event p with ⟨-, heq⟩ | ⟨-, heq⟩ | ⟨-, heq⟩
  · rw [heq]; exact ⟨stepPair_past h, fun hg => stepPair_finished h hg⟩
  · rw [heq]; exact ⟨h, fun _ => ⟨rfl, Or.inl rfl⟩⟩
  · rw [heq]; exact ⟨h, fun _ => Shielded.refl _⟩

theorem pairsAfter_pending (acc : ScanAccumulator) (events : List ScannerResult) (configured : List String)
    (before : List ScannerResult) (h : t ∈ (acc.pairs p).moveInvalidations r) (hp : t.2.status = .pending) :
    t ∈ (pairsAfter sha256 acc events configured before p).moveInvalidations r ∧
      Shielded r (acc.pairs p) (pairsAfter sha256 acc events configured before p) := by
  apply pairsAfter_invariant (fun s => t ∈ s.moveInvalidations r ∧ Shielded r (acc.pairs p) s)
  · rintro a b hab ⟨hm, hs⟩
    exact ⟨by rw [hab.eq_with]; exact hm, hs.trans (Shielded.of_stored hab)⟩
  · exact ⟨h, Shielded.refl _⟩
  · rintro pairs event - ⟨hm, hs⟩
    obtain ⟨hm', hs'⟩ := stepPairs_pending sha256 (scopeOf acc events configured) pairs event hm hp
    exact ⟨hm', hs.trans hs'⟩

theorem pairsAfter_past (acc : ScanAccumulator) (events : List ScannerResult) (configured : List String)
    (before : List ScannerResult) (h : FencedOrPast (acc.pairs p) r t) :
    FencedOrPast (pairsAfter sha256 acc events configured before p) r t := by
  apply pairsAfter_invariant (fun s => FencedOrPast s r t)
  · intro a b hab hm
    rw [hab.eq_with]; exact hm
  · exact h
  · intro pairs event _ hm
    exact (stepPairs_past sha256 (scopeOf acc events configured) pairs event hm).1

theorem run_pending {acc' : ScanAccumulator} (hrun : RunsTo sha256 (DuringMove p r t.1) acc acc')
    (h : t ∈ (acc.pairs p).moveInvalidations r) (hp : t.2.status = .pending) :
    t ∈ (acc'.pairs p).moveInvalidations r := by
  apply hrun.invariant (fun acc => t ∈ (acc.pairs p).moveInvalidations r) h
  rintro acc call ⟨hk, hl⟩ hm
  rcases call.drain_or_not with ⟨events, configured, rfl⟩ | happly
  · have hafter : t ∈ (pairsAfter sha256 acc events configured (drainAccepted acc events) p).moveInvalidations r :=
      (pairsAfter_pending acc events configured _ hm hp).1
    rw [Call.run, (apply_stored acc events configured p).symm.eq_with]
    exact hafter
  · obtain ⟨t', ht', -, -, heq⟩ : Persists t ((call.run sha256 acc).pairs p) r := run_persists hk hl happly hm
    rwa [heq (by rw [hp]; decide)] at ht'

theorem run_past {acc' : ScanAccumulator} (hrun : RunsTo sha256 (DuringMove p r t.1) acc acc')
    (h : FencedOrPast (acc.pairs p) r t) (hp : t.2.status = .committed) : FencedOrPast (acc'.pairs p) r t := by
  apply hrun.invariant (fun acc => FencedOrPast (acc.pairs p) r t) h
  rintro acc call ⟨hk, hl⟩ hm
  rcases call.drain_or_not with ⟨events, configured, rfl⟩ | happly
  · have hafter : FencedOrPast (pairsAfter sha256 acc events configured (drainAccepted acc events) p) r t :=
      pairsAfter_past acc events configured _ hm
    rw [Call.run, (apply_stored acc events configured p).symm.eq_with]
    exact hafter
  · rcases hm with hm | hm
    · obtain ⟨t', ht', -, -, heq⟩ : Persists t ((call.run sha256 acc).pairs p) r := run_persists hk hl happly hm
      left
      rwa [heq (by rw [hp]; decide)] at ht'
    · right
      rw [run_previousGeneration hk happly]
      exact hm

/-- An event above the generation of a deletion that completes the pair or carries the root complete. -/
def Supersedes (g : Int) (p : PairId) (r : String) (event : ScannerResult) : Prop :=
  g < event.generation ∧ (event.isAuthoritativeCompletion p = true ∨
    ((event.outcomesFor p).lookup r = some (true, true) ∧ r ∈ event.rootNamesFor p))

/-- The calls of one session that bring no newer evidence about the root and do not prune it. A
token that `begin_root_invalidation` returned is not the one of a deletion. -/
def DuringDeletion (g : Int) (p : PairId) (r : String) (acc : ScanAccumulator) (call : Call) : Prop :=
  KeepsSession acc call ∧ ¬ call.Prunes p r ∧
    match call with
    | .apply events _ => ∀ event ∈ drainAccepted acc events, ¬ Supersedes g p r event
    | .finishRootInvalidation _ _ token _ _ =>
      ∀ inv, (token, inv) ∈ (acc.pairs p).moveInvalidations r → inv.status ≠ .confirmedDelete
    | _ => True

/-- The deletion is fenced, and the root has only trees from `trees`. -/
def DeletionHeld (s : PairState) (r : String) (g : Int) (trees : Set SystemFile) : Prop :=
  DeletionFenced s r g ∧ s.storedTrees r ⊆ trees

theorem pairsAfter_deleted {g : Int} {trees : Set SystemFile} (acc : ScanAccumulator) (events : List ScannerResult)
    (configured : List String) (before : List ScannerResult) (h : DeletionHeld (acc.pairs p) r g trees)
    (hq : ∀ event ∈ before, ¬ Supersedes g p r event) :
    DeletionHeld (pairsAfter sha256 acc events configured before p) r g trees := by
  apply pairsAfter_invariant (fun s => DeletionHeld s r g trees)
  · intro a b hab hm
    rw [hab.eq_with]; exact hm
  · exact h
  · intro pairs event hmem hm
    rcases @stepPairs_cases sha256 (scopeOf acc events configured) pairs event p with
      ⟨-, heq⟩ | ⟨-, heq⟩ | ⟨-, heq⟩
    · rw [heq]
      obtain ⟨hf, ht⟩ := @stepPair_deleted sha256 (event.forPair ((scopeOf acc events configured).pairIds event) p) _ _ _ hm.1 (fun hlt => by
        have hns := hq event hmem
        simp only [Supersedes, not_and, not_or] at hns
        obtain ⟨hh, hr⟩ := hns hlt
        refine ⟨?_, Bool.eq_false_iff.mpr hh⟩
        simp only [PairEvent.hasCurrentRoot, Bool.and_eq_false_iff, decide_eq_false_iff_not]
        by_cases ho : (event.outcomesFor p).lookup r = some (true, true)
        · exact Or.inr (hr ho)
        · exact Or.inl ho)
      exact ⟨hf, ht.trans hm.2⟩
    · rw [heq]; exact hm
    · rw [heq]; exact hm

theorem run_deleted {g : Int} {trees : Set SystemFile} {acc' : ScanAccumulator}
    (hrun : RunsTo sha256 (DuringDeletion g p r) acc acc') (h : DeletionHeld (acc.pairs p) r g trees) :
    DeletionHeld (acc'.pairs p) r g trees := by
  apply hrun.invariant (fun acc => DeletionHeld (acc.pairs p) r g trees) h
  rintro acc call ⟨hk, hprune, hcall⟩ hm
  rcases call.drain_or_not with ⟨events, configured, rfl⟩ | happly
  · have hafter : DeletionHeld (pairsAfter sha256 acc events configured (drainAccepted acc events) p) r g trees :=
      pairsAfter_deleted acc events configured _ hm hcall
    rw [Call.run, (apply_stored acc events configured p).symm.eq_with]
    exact hafter
  · obtain ⟨⟨t, ht, hstatus, hg⟩, htrees⟩ := hm
    have hl : LeavesMove p r t.1 call := by
      cases call with
      | finishRootInvalidation pair root token mutated completedAt =>
        rintro ⟨-, -, htok⟩
        exact hcall t.2 (by rw [htok]; exact ht) hstatus
      | _ => trivial
    obtain ⟨t', ht', hst, hle, -⟩ : Persists t ((call.run sha256 acc).pairs p) r := run_persists hk hl happly ht
    refine ⟨⟨t', ht', hst.trans hstatus, Int.le_trans hg hle⟩, ?_⟩
    obtain ⟨base, fences, rfl | ⟨hnk, -⟩, heq | ⟨root, segments, hpr, heq⟩⟩ :=
      run_pair_cases sha256 acc call happly p
    · rw [heq]; exact htrees
    · have hne : r ≠ root := fun h => hprune (h ▸ hpr)
      rw [heq]
      intro u hu
      apply htrees
      simpa [PairState.storedTrees, prunePair, pruneRoots, hne] using hu
    all_goals exact absurd hk hnk

/-! ## The three fences -/

theorem begin_fenced {g : Int} {token : Nat} (h : (beginRootInvalidation acc p r g).2 = some token) :
    (token, { generation := g, status := .pending, completedAt := none }) ∈
      ((beginRootInvalidation acc p r g).1.pairs p).moveInvalidations r := by
  unfold beginRootInvalidation at h ⊢
  split_ifs at h ⊢
  · cases h
    simp [modifyPair_pairs]

theorem finish_fenced {g : Int} {token : Nat} {completedAt : Option Instant}
    (h : (token, { generation := g, status := .pending, completedAt := none }) ∈
      (acc.pairs p).moveInvalidations r) :
    (token, { generation := g, status := .committed, completedAt }) ∈
      ((finishRootInvalidation acc p r token true completedAt).pairs p).moveInvalidations r := by
  simp only [finishRootInvalidation, modifyPair_pairs, if_true, Function.update_self]
  exact List.mem_map.mpr ⟨_, h, by simp⟩

theorem storedTrees_prunePair {segments : List String} {u : SystemFile}
    (h : u ∈ (prunePair r segments s).storedTrees r) :
    ∃ source ∈ s.storedTrees r, source.pruneConfirmedLocalDeletion segments = some u := by
  rcases h with hc | ⟨g, hg⟩ | ha
  · obtain ⟨source, hs, hp⟩ := Option.bind_eq_some_iff.mp (by simpa [prunePair, pruneRoots] using hc)
    exact ⟨source, Or.inl hs, hp⟩
  · obtain ⟨source, hs, hp⟩ := Option.bind_eq_some_iff.mp (by simpa [prunePair, pruneRoots] using hg)
    exact ⟨source, Or.inr (Or.inl ⟨g, hs⟩), hp⟩
  · simp only [prunePair, Function.update_self] at ha
    split at ha
    · rename_i source hs
      exact ⟨source, Or.inr (Or.inr hs), by simpa using ha⟩
    · rename_i hne
      exact absurd ha (hne u)

/-- Right after the call, the fence is up and nothing is left at the path. -/
theorem confirm_fenced {g : Int} {segments : List String} {session : String}
    (h : (confirmLocalDeletion acc p r segments g session).2 = true) :
    let new := (confirmLocalDeletion acc p r segments g session).1.pairs p
    DeletionFenced new r g ∧ ((∀ u ∈ (acc.pairs p).storedTrees r, u.WellFormed) →
      ∀ u ∈ new.storedTrees r, u.nodeAt segments = none) := by
  have hnew : (confirmLocalDeletion acc p r segments g session).1.pairs p =
      prunePair r segments { (setSessionToken acc (some session)).pairs p with
        moveInvalidations := Function.update
          ((setSessionToken acc (some session)).pairs p).moveInvalidations r
          (fenceDeletion ((setSessionToken acc (some session)).nextMoveInvalidationToken + 1) g
            (((setSessionToken acc (some session)).pairs p).moveInvalidations r)).1 } := by
    unfold confirmLocalDeletion at h ⊢
    split_ifs at h ⊢ with hbad
    · have hv : ¬ (r = "" ∨ validSegments segments = false) := by tauto
      dsimp only
      rw [pruneConfirmedLocalDeletion, if_neg hv]
      simp only [modifyPair_pairs, if_true]
  dsimp only
  rw [hnew]
  constructor
  · obtain ⟨t, ht, hrest⟩ := fenceDeletion_fenced
      ((setSessionToken acc (some session)).nextMoveInvalidationToken + 1) g
      (((setSessionToken acc (some session)).pairs p).moveInvalidations r)
    exact ⟨t, by simpa [prunePair] using ht, hrest⟩
  · intro hwf u hu
    obtain ⟨source, hs, hprune⟩ := storedTrees_prunePair hu
    refine SystemFile.nodeAt_pruneConfirmedLocalDeletion (hwf source ?_) hprune
    rcases setSessionToken_cases acc (some session) with heq | ⟨-, heq⟩
    · rwa [heq] at hs
    · rw [heq] at hs
      -- A new session has no trees at all.
      rcases hs with hs | ⟨_, hs⟩ | hs <;> cases hs

theorem currentRootScanSources_fenced {g : Int} (h : DeletionFenced (acc.pairs p) r g) :
    currentRootScanSources acc p r = none := by
  obtain ⟨t, ht, hstatus, -⟩ := h
  have hall : ((acc.pairs p).moveInvalidations r).all (fun t => decide (t.2.status ≠ .confirmedDelete)) ≠ true := by
    intro hall
    have := List.all_eq_true.mp hall t ht
    simp [hstatus] at this
  unfold currentRootScanSources
  dsimp only
  split
  · rw [if_neg (fun hc => hall hc.2.1)]
  · rfl

end SeedSync.Progressive
