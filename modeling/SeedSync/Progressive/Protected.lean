import SeedSync.Progressive.Step
import SeedSync.Progressive.Model
import Mathlib.Data.Set.Basic

/-!
# Protected roots

What one event does to a root behind a fence: the committed entry stays, and no tree of the
event is stored for the root.
-/

open SeedSync.Lib

namespace SeedSync.Progressive

variable {sha256 : List StreamRecord → Digest} {e : PairEvent} {s : PairState} {r : String}

/-- The trees that a pair stores for one root. -/
def PairState.storedTrees (s : PairState) (r : String) : Set SystemFile :=
  { t | s.committed r = some t ∨ (∃ g, s.working g r = some t) ∨ s.authoritative r = some (some t) }

/-- Nothing new is stored for the root. -/
structure RootKept (r : String) (s s' : PairState) : Prop where
  committed : s'.committed r = s.committed r
  working : ∀ g, s'.working g r = s.working g r ∨ s'.working g r = s.committed r
  authoritative : ∀ t, s'.authoritative r = some (some t) →
    s.authoritative r = some (some t) ∨ s.committed r = some t

theorem RootKept.refl (s : PairState) : RootKept r s s := ⟨rfl, fun _ => Or.inl rfl, fun _ h => Or.inl h⟩

theorem RootKept.trans {a b c : PairState} (h : RootKept r a b) (h' : RootKept r b c) : RootKept r a c := by
  refine ⟨h'.committed.trans h.committed, ?_, ?_⟩
  · intro g
    rcases h'.working g with hw | hw
    · rw [hw]; exact h.working g
    · rw [hw]; exact Or.inr h.committed
  · intro t ht
    rcases h'.authoritative t ht with ha | hc
    · exact h.authoritative t ha
    · rw [h.committed] at hc; exact Or.inr hc

theorem RootKept.storedTrees {a b : PairState} (h : RootKept r a b) : b.storedTrees r ⊆ a.storedTrees r := by
  rintro t (hc | ⟨g, hg⟩ | ha)
  · rw [h.committed] at hc; exact Or.inl hc
  · rcases h.working g with hw | hw
    · rw [hw] at hg; exact Or.inr (Or.inl ⟨g, hg⟩)
    · rw [hw] at hg; exact Or.inl hg
  · rcases h.authoritative t ha with h' | h'
    · exact Or.inr (Or.inr h')
    · exact Or.inl h'

/-! ## The phases -/

theorem rebuildWorking_kept {prot : String → Bool} (hp : prot r = true) :
    RootKept r s (rebuildWorking e prot s) := by
  unfold rebuildWorking
  split_ifs
  · refine ⟨rfl, ?_, ?_⟩
    · intro g
      by_cases hg : g = e.generation
      · subst hg; right; simp [hp]
      · left; simp [hg]
    · intro t ht
      simp only [hp, Bool.true_and] at ht
      split_ifs at ht
      · right; simpa using ht
      · left; exact ht
  · exact RootKept.refl s

theorem admitManifest_kept {prot : String → Bool} (hp : prot r = true) :
    RootKept r s (admitManifest e prot s) := by
  refine ⟨congrFun (admitManifest_core e prot s).committed r, ?_, ?_⟩
  · intro g; left; rw [admitManifest_working]
  · intro t ht
    left
    unfold admitManifest at ht
    split at ht
    · exact ht
    · simpa [hp] using ht

theorem admitMarker_kept (g : Int) (w : MarkerWalk) (m : String × Digest) :
    RootKept r w.state (admitMarker g w m).state := by
  unfold admitMarker
  cases hc : w.state.committed m.1 with
  | none => exact RootKept.refl _
  | some root =>
    dsimp only
    split_ifs
    · refine ⟨rfl, ?_, ?_⟩
      · intro g'
        simp only [PairState.setWorking, PairState.setAuthority]
        by_cases hr : r = m.1
        · by_cases hg : g' = g
          · right; subst hr hg; simp [hc]
          · left; simp [hg]
        · left
          by_cases hg : g' = g
          · subst hg; simp [hr]
          · simp [hg]
      · intro t ht
        simp only [PairState.setWorking, PairState.setAuthority] at ht
        by_cases hr : r = m.1
        · right; subst hr; rw [hc]; simpa using ht
        · left; simpa [hr] using ht
    · exact RootKept.refl _

theorem admitMarkers_kept : RootKept r s (admitMarkers e s).state := by
  unfold admitMarkers
  split_ifs
  · exact foldl_invariant (fun w : MarkerWalk => RootKept r s w.state) e.markers _
      (fun w m _ h => h.trans (admitMarker_kept _ w m)) (RootKept.refl s)
  · exact RootKept.refl s

theorem admitRoot_kept {prot : String → Bool} (hp : prot r = true) (f : SystemFile) :
    RootKept r s (admitRoot e prot s f) := by
  cases hf : prot f.name with
  | true => rw [admitRoot_protected e prot s f hf]; exact RootKept.refl s
  | false =>
    obtain ⟨hcore, hw, ha⟩ := admitRoot_fields e prot s f hf
    have hne : r ≠ f.name := by
      intro h
      rw [h, hf] at hp
      cases hp
    refine ⟨congrFun hcore.committed r, ?_, ?_⟩
    · intro g
      left
      rw [hw]
      by_cases hg : g = e.generation
      · subst hg; simp [PairState.setWorking, hne]
      · simp [PairState.setWorking, hg]
    · intro t ht
      left
      rw [ha] at ht
      simpa [hne] using ht

theorem beforeCommit_kept {prot : String → Bool} (hp : prot r = true) :
    RootKept r s (beforeCommit e prot s) := by
  have hroots : ∀ t, RootKept r t (e.files.foldl (admitRoot e prot) t) := fun t =>
    foldl_relation (RootKept r) RootKept.refl (fun _ _ _ => RootKept.trans) e.files t
      (fun _ f _ => admitRoot_kept hp f)
  have hseal : ∀ t, RootKept r t (sealManifest e t) := fun t =>
    ⟨congrFun (sealManifest_core e t).committed r, fun g => Or.inl (by rw [sealManifest_working]),
      fun u hu => Or.inl (by rwa [sealManifest_authoritative] at hu)⟩
  exact (((rebuildWorking_kept hp).trans (admitManifest_kept hp)).trans admitMarkers_kept).trans
    ((hroots _).trans (hseal _))

theorem admitSnapshot_kept {prot : String → Bool} (hp : prot r = true) :
    RootKept r s (admitSnapshot sha256 e prot s).1 := by
  by_cases hbad : e.fullSnapshot = true ∧ ∃ m ∈ e.markers, ¬ MarkerHolds s m
  · rw [admitSnapshot_rejected prot hbad.1 hbad.2]
    have h := ((rebuildWorking_kept hp).trans (admitManifest_kept hp)).trans
      (admitMarkers_kept (e := e) (s := admitManifest e prot (rebuildWorking e prot s)) (r := r))
    exact ⟨h.committed, h.working, h.authoritative⟩
  · have hm : e.fullSnapshot = true → ∀ m ∈ e.markers, MarkerHolds s m := fun hfull m hmem => by
      by_contra h
      exact hbad ⟨hfull, m, hmem, h⟩
    have hbefore : RootKept r s (beforeCommit e prot s) := beforeCommit_kept hp
    rw [admitSnapshot_admitted prot hm]
    split_ifs with hh
    · obtain ⟨hfull, -⟩ := e.healthy_full hh
      have hroot : snapshotRoots e prot s r = s.committed r := by simp [snapshotRoots, hp]
      refine ⟨?_, ?_, ?_⟩
      · rw [commitSnapshot_committed prot _ hfull (hm hfull), hroot]
      · intro g
        by_cases hg : g = e.generation
        · subst hg
          right
          rw [commitSnapshot_working prot _ hfull (hm hfull), hroot]
        · simp only [commitSnapshot, Function.update_of_ne hg]
          exact hbefore.working g
      · intro t ht
        apply hbefore.authoritative t
        simp only [commitSnapshot] at ht
        split_ifs at ht
        all_goals first | exact ht | cases ht
    · exact hbefore

/-! ## The whole step -/

theorem failGeneration_trees {prot : String → Bool} : (failGeneration e prot s).storedTrees r ⊆ s.storedTrees r := by
  have hcommitted : ∀ t, (if prot r = true then (s.committed r).map some else none) = some (some t) →
      s.committed r = some t := by
    intro t ht
    split_ifs at ht
    simpa using ht
  rintro t (hc | ⟨g, hg⟩ | ha)
  · exact Or.inl hc
  · exact Or.inr (Or.inl ⟨g, hg⟩)
  · simp only [failGeneration] at ha
    cases hw : s.working e.generation r with
    | none => rw [hw] at ha; exact Or.inl (hcommitted t ha)
    | some file =>
      rw [hw] at ha
      dsimp only at ha
      split_ifs at ha with hcomp hprot
      · cases ha; exact Or.inr (Or.inl ⟨_, hw⟩)
      · exact Or.inl (hcommitted t (by rw [if_pos hprot]; exact ha))

theorem acceptGeneration_trees (h : protectedRoot e (releaseFences e s) r = true) :
    (acceptGeneration e s).storedTrees r ⊆ s.storedTrees r := by
  unfold acceptGeneration
  rintro t (hc | ⟨g, hg⟩ | ha)
  · rw [(admitOutcomes_core _ _).committed] at hc
    split_ifs at hc <;> exact Or.inl hc
  · rw [admitOutcomes_working] at hg
    split_ifs at hg with hlt
    · simp only [advanceGeneration] at hg
      split_ifs at hg
      · exact Or.inl hg
      · exact Or.inr (Or.inl ⟨g, hg⟩)
    · exact Or.inr (Or.inl ⟨g, hg⟩)
  · rw [admitOutcomes_authoritative] at ha
    split_ifs at ha with hlt
    · simp only [advanceGeneration, h, if_true] at ha
      exact Or.inl (by simpa [releaseFences] using ha)
    · exact Or.inr (Or.inr ha)

theorem stepPair_protected_trees (h : protectedRoot e (releaseFences e s) r = true) :
    (stepPair sha256 e s).1.storedTrees r ⊆ s.storedTrees r := by
  by_cases hs : e.generation < s.previousGeneration
  · rw [stepPair_stale hs]
  · cases hf : e.failed with
    | true => rw [stepPair_failed hs hf]; exact failGeneration_trees.trans (acceptGeneration_trees h)
    | false => rw [stepPair_admitted hs hf]; exact (admitSnapshot_kept h).storedTrees.trans (acceptGeneration_trees h)

theorem stepPair_protected_committed (h : protectedRoot e (releaseFences e s) r = true) :
    (stepPair sha256 e s).1.committed r = s.committed r := by
  by_cases hs : e.generation < s.previousGeneration
  · rw [stepPair_stale hs]
  · rw [← acceptGeneration_committed e s]
    cases hf : e.failed with
    | true => rw [stepPair_failed hs hf]; rfl
    | false => rw [stepPair_admitted hs hf]; exact (admitSnapshot_kept h).committed

/-- A snapshot shows the old root or falls back to the committed one. -/
theorem visible_kept {a b : PairState} (h : RootKept r a b) (hg : b.activeGeneration = a.activeGeneration)
    (hfail : ∀ g, a.failedAt g = true → b.failedAt g = true) :
    b.visible r = a.visible r ∨ b.visible r = a.committed r := by
  unfold PairState.visible
  rw [hg]
  cases a.activeGeneration with
  | none => exact Or.inl h.committed
  | some g =>
    dsimp only
    cases hb : b.failedAt g with
    | true => right; simpa using h.committed
    | false =>
      have ha : a.failedAt g = false := by
        cases ha : a.failedAt g with
        | false => rfl
        | true => rw [hfail g ha] at hb; cases hb
      simp only [ha, Bool.false_eq_true, if_false, h.committed]
      rcases h.working g with hw | hw
      · left; rw [hw]
      · right; rw [hw]; cases a.committed r <;> rfl

theorem admitSnapshot_generation (prot : String → Bool) :
    (admitSnapshot sha256 e prot s).1.activeGeneration = s.activeGeneration := by
  by_cases hbad : e.fullSnapshot = true ∧ ∃ m ∈ e.markers, ¬ MarkerHolds s m
  · rw [admitSnapshot_rejected _ hbad.1 hbad.2]
    exact ((admitMarkers_core e _).generation).trans (markers_core e prot s).generation
  · rw [admitSnapshot_admitted _ (fun hfull m hm => by
      by_contra hn
      exact hbad ⟨hfull, m, hm, hn⟩)]
    split_ifs <;> exact (beforeCommit_core e _ _).generation

theorem admitSnapshot_failedAt (prot : String → Bool) {g : Int} (h : s.failedAt g = true) :
    (admitSnapshot sha256 e prot s).1.failedAt g = true := by
  by_cases hbad : e.fullSnapshot = true ∧ ∃ m ∈ e.markers, ¬ MarkerHolds s m
  · rw [admitSnapshot_rejected _ hbad.1 hbad.2]
    have hcore := (markers_core e prot s).trans (admitMarkers_core e _)
    simp only [rejectMarkers, hcore.failedAt, Function.update_apply]
    split_ifs <;> trivial
  · rw [admitSnapshot_admitted _ (fun hfull m hm => by
      by_contra hn
      exact hbad ⟨hfull, m, hm, hn⟩)]
    split_ifs <;> exact (congrFun (beforeCommit_core e prot s).failedAt g).trans h

theorem acceptGeneration_visible (e : PairEvent) (s : PairState) :
    (acceptGeneration e s).visible r = s.visible r ∨ (acceptGeneration e s).visible r = s.committed r := by
  have hcore := admitOutcomes_core e (if s.previousGeneration < e.generation
    then advanceGeneration e.generation (protectedRoot e (releaseFences e s)) (releaseFences e s)
    else releaseFences e s)
  have hvis : (acceptGeneration e s).visible r = (if s.previousGeneration < e.generation
      then advanceGeneration e.generation (protectedRoot e (releaseFences e s)) (releaseFences e s)
      else releaseFences e s).visible r := by
    unfold acceptGeneration PairState.visible
    simp only [hcore.generation, hcore.failedAt, hcore.committed, admitOutcomes_working]
  rw [hvis]
  split_ifs
  · right
    simp only [PairState.visible, advanceGeneration, releaseFences]
    cases hc : s.committed r <;> simp [hc]
  · left; rfl

theorem stepPair_protected_visible (h : protectedRoot e (releaseFences e s) r = true) :
    (stepPair sha256 e s).1.visible r = s.visible r ∨ (stepPair sha256 e s).1.visible r = s.committed r := by
  by_cases hs : e.generation < s.previousGeneration
  · rw [stepPair_stale hs]; exact Or.inl rfl
  have haccept : (acceptGeneration e s).visible r = s.visible r ∨
      (acceptGeneration e s).visible r = s.committed r := acceptGeneration_visible e s
  cases hf : e.failed with
  | true =>
    right
    rw [stepPair_failed hs hf, ← acceptGeneration_committed e s]
    have hgen := acceptGeneration_generation hs
    unfold PairState.visible
    unfold PairState.previousGeneration at hgen
    simp only [failGeneration]
    cases ha : (acceptGeneration e s).activeGeneration with
    | none => rfl
    | some g =>
      rw [ha] at hgen
      simp only [Option.getD_some] at hgen
      simp [hgen]
  | false =>
    rw [stepPair_admitted hs hf]
    have hkept : RootKept r (acceptGeneration e s)
        (admitSnapshot sha256 e (protectedRoot e (releaseFences e s)) (acceptGeneration e s)).1 :=
      admitSnapshot_kept h
    rcases visible_kept hkept (admitSnapshot_generation _) (fun g hg => admitSnapshot_failedAt _ hg) with hv | hv
    · rw [hv]; exact haccept
    · rw [hv, acceptGeneration_committed]; exact Or.inr rfl

end SeedSync.Progressive
