import SeedSync.Progressive.Run

/-!
# Absence needs authority

A committed root leaves the inventory only through an authoritative completion of its own
pair. Everything else that a lossy queue can deliver (manifests, batches, markers, failures,
old generations) keeps it.
-/

open SeedSync.Lib

namespace SeedSync.Progressive

variable {sha256 : List StreamRecord → Digest} {e : PairEvent} {s : PairState}

/-! ## One step -/

theorem stepPair_committed (h : (stepPair sha256 e s).1.committed ≠ s.committed) :
    e.healthy = true ∧ ¬ e.generation < s.previousGeneration := by
  by_cases hs : e.generation < s.previousGeneration
  · rw [stepPair_stale hs] at h; exact absurd rfl h
  refine ⟨?_, hs⟩
  by_contra hh
  apply h
  cases hf : e.failed with
  | true => rw [stepPair_failed hs hf]; exact acceptGeneration_committed e s
  | false =>
    rw [stepPair_admitted hs hf]
    have hcore := markers_core e (protectedRoot e (releaseFences e s)) (acceptGeneration e s)
    rw [← acceptGeneration_committed e s]
    by_cases hbad : e.fullSnapshot = true ∧ ∃ m ∈ e.markers, ¬ MarkerHolds (acceptGeneration e s) m
    · rw [admitSnapshot_rejected _ hbad.1 hbad.2]
      exact ((admitMarkers_core e _).committed).trans hcore.committed
    · rw [admitSnapshot_admitted _ (fun hfull m hm => by
        by_contra hn
        exact hbad ⟨hfull, m, hm, hn⟩), if_neg hh]
      exact (beforeCommit_core e _ _).committed

theorem stepPair_generation (hs : ¬ e.generation < s.previousGeneration) :
    (stepPair sha256 e s).1.activeGeneration = (acceptGeneration e s).activeGeneration := by
  cases hf : e.failed with
  | true => rw [stepPair_failed hs hf]; rfl
  | false =>
    rw [stepPair_admitted hs hf]
    have hcore := markers_core e (protectedRoot e (releaseFences e s)) (acceptGeneration e s)
    by_cases hbad : e.fullSnapshot = true ∧ ∃ m ∈ e.markers, ¬ MarkerHolds (acceptGeneration e s) m
    · rw [admitSnapshot_rejected _ hbad.1 hbad.2]
      exact ((admitMarkers_core e _).generation).trans hcore.generation
    · rw [admitSnapshot_admitted _ (fun hfull m hm => by
        by_contra hn
        exact hbad ⟨hfull, m, hm, hn⟩)]
      split_ifs <;> exact (beforeCommit_core e _ _).generation

theorem acceptGeneration_mono {g : Int} (h : s.activeGeneration = some g)
    (hs : ¬ e.generation < s.previousGeneration) :
    ∃ g', (acceptGeneration e s).activeGeneration = some g' ∧ g ≤ g' := by
  have hg : (acceptGeneration e s).activeGeneration = _ := (admitOutcomes_core _ _).generation
  rw [hg]
  simp only [PairState.previousGeneration, h, Option.getD_some] at hs ⊢
  split_ifs with hlt
  · exact ⟨e.generation, rfl, by omega⟩
  · exact ⟨g, h, Int.le_refl g⟩

/-! ## One event -/

/-- The generation is below the one that the pair is at. -/
def BelowActive (s : PairState) (generation : Int) : Prop :=
  ∃ g, s.activeGeneration = some g ∧ generation < g

theorem belowActive_stale (h : BelowActive s e.generation) : e.generation < s.previousGeneration := by
  obtain ⟨g, hg, hlt⟩ := h
  rwa [PairState.previousGeneration, hg]

theorem stepPairs_committed (scope : DrainScope) (pairs : PairId → PairState) (event : ScannerResult) (p : PairId)
    (h : (scope.stepPairs sha256 pairs event p).committed ≠ (pairs p).committed) :
    event.isAuthoritativeCompletion p = true ∧ ¬ BelowActive (pairs p) event.generation := by
  unfold DrainScope.stepPairs at h
  split_ifs at h with hmem
  · obtain ⟨hh, hs⟩ := stepPair_committed h
    exact ⟨hh, fun hb => hs (belowActive_stale hb)⟩
  all_goals exact absurd rfl h

theorem stepPairs_below (scope : DrainScope) (pairs : PairId → PairState) (event : ScannerResult) (p : PairId)
    (h : BelowActive (pairs p) event.generation) :
    scope.stepPairs sha256 pairs event p =
      if anonymousFailure sha256 scope pairs event ∧ p ≠ none then
        { pairs p with committedRootFingerprints := fun _ => none }
      else pairs p := by
  unfold DrainScope.stepPairs
  by_cases hmem : p ∈ scope.pairIds event
  · have hne : ¬ (anonymousFailure sha256 scope pairs event = true ∧ p ≠ none) := by
      rintro ⟨ha, hp⟩
      simp only [anonymousFailure, Bool.and_eq_true, decide_eq_true_eq] at ha
      rw [ha.1.1] at hmem
      simp at hmem
      exact hp hmem
    rw [if_pos hmem, if_neg hne, stepPair_stale (belowActive_stale h)]
  · rw [if_neg hmem]
    by_cases ha : anonymousFailure sha256 scope pairs event = true
    · have hp : p ≠ none := by
        intro hp
        subst hp
        simp only [anonymousFailure, Bool.and_eq_true, decide_eq_true_eq] at ha
        rw [ha.1.1] at hmem
        simp at hmem
      rw [if_pos ha, if_pos ⟨ha, hp⟩]
    · rw [if_neg ha, if_neg (fun hc => ha hc.1)]

theorem stepPairs_generation (scope : DrainScope) (pairs : PairId → PairState) (event : ScannerResult)
    (p : PairId) {g : Int} (h : (pairs p).activeGeneration = some g) :
    ∃ g', (scope.stepPairs sha256 pairs event p).activeGeneration = some g' ∧ g ≤ g' := by
  unfold DrainScope.stepPairs
  split_ifs with hmem
  · by_cases hs : (event.forPair (scope.pairIds event) p).generation < (pairs p).previousGeneration
    · rw [stepPair_stale hs]; exact ⟨g, h, Int.le_refl g⟩
    · rw [stepPair_generation hs]; exact acceptGeneration_mono h hs
  all_goals exact ⟨g, h, Int.le_refl g⟩

/-! ## A whole drain -/

theorem Stored.committed {a b : PairState} (h : Stored a b) : a.committed = b.committed := by
  have hu : a.unmark.committed = b.unmark.committed := by rw [show a.unmark = b.unmark from h]
  exact hu

theorem visible_none_iff_committed {name : String} (h : s.visible name = none) : s.committed name = none := by
  unfold PairState.visible at h
  split at h
  · exact h
  · split_ifs at h
    · exact h
    · exact (Option.or_eq_none_iff.mp h).2

theorem drainAccepted_from {acc : ScanAccumulator} {events : List ScannerResult} {event : ScannerResult}
    (h : event ∈ drainAccepted acc events) : ∃ raw ∈ events, raw.admitted = some event := by
  unfold drainAccepted acceptedEvents at h
  obtain ⟨raw, hraw, hadm⟩ := List.mem_filterMap.mp h
  exact ⟨raw, (List.mem_filter.mp hraw).1, hadm⟩

/-- A committed root disappears only through an accepted authoritative completion of its pair.
An event below the active generation of a pair changes nothing stored for it, except that a
failure without any pair identity, in a drain without configured pairs, drops the held
fingerprints of every pair. Generations never go down, and an event leaves alone the roots
of the pairs that it does not name. -/
theorem absence_needs_authority (sha256 : List StreamRecord → Digest) (acc : ScanAccumulator)
    (events : List ScannerResult) (configured : List String) (p : PairId) :
    (∀ name, (acc.pairs p).committed name ≠ none →
      (((apply sha256 acc events configured).1.pairs p).committed name = none ∨
        snapshot (apply sha256 acc events configured).1 p name = none) →
      ∃ before event after, drainAccepted acc events = before ++ event :: after ∧
        (∃ raw ∈ events, raw.admitted = some event) ∧ event.isAuthoritativeCompletion p = true ∧
        ¬ BelowActive (pairsAfter sha256 acc events configured before p) event.generation) ∧
    (∀ before event after, drainAccepted acc events = before ++ event :: after →
      let old := pairsAfter sha256 acc events configured before p
      let new := pairsAfter sha256 acc events configured (before ++ [event]) p
      (BelowActive old event.generation → new = old ∨
        (event.failed = true ∧ (scopeOf acc events configured).pairIds event = [none] ∧ configured = [] ∧
          new = { old with committedRootFingerprints := fun _ => none })) ∧
      (∀ g, old.activeGeneration = some g → ∃ g', new.activeGeneration = some g' ∧ g ≤ g') ∧
      (p ∉ (scopeOf acc events configured).pairIds event →
        new.committed = old.committed ∧ new.working = old.working ∧
          new.activeGeneration = old.activeGeneration)) := by
  constructor
  · intro name hname hgone
    have hstored := @apply_stored sha256 acc events configured p
    have hfinal : (pairsAfter sha256 acc events configured (drainAccepted acc events) p).committed name = none := by
      rw [← hstored.committed]
      rcases hgone with h | h
      · exact h
      · exact visible_none_iff_committed h
    have hstart : ((openDrain acc events).pairs p).committed name ≠ none := by
      rw [(openDrain_stored acc events p).committed]; exact hname
    -- The root is lost at one event of the run.
    obtain ⟨before, event, after, hsplit, hhad, hlost⟩ :=
      foldl_lost (f := (scopeOf acc events configured).stepPairs sha256)
        (fun pairs : PairId → PairState => (pairs p).committed name ≠ none)
        (drainAccepted acc events) (openDrain acc events).pairs hstart (by
          intro h; exact h hfinal)
    refine ⟨before, event, after, hsplit, drainAccepted_from (by rw [hsplit]; simp), ?_⟩
    refine @stepPairs_committed sha256 (scopeOf acc events configured) _ event p ?_
    intro heq
    apply hlost
    intro hnone
    exact hhad ((congrFun heq name).symm.trans hnone)
  · intro before event after hsplit
    simp only [pairsAfter_concat]
    refine ⟨?_, ?_, ?_⟩
    · intro hb
      rw [stepPairs_below _ _ _ _ hb]
      split_ifs with ha
      · right
        have hanon := ha.1
        simp only [anonymousFailure, Bool.and_eq_true, decide_eq_true_eq] at hanon
        exact ⟨anonymousFailure_failed ha.1, hanon.1.1, hanon.1.2, rfl⟩
      · left; rfl
    · intro g hg
      exact stepPairs_generation _ _ _ _ hg
    · intro hmem
      unfold DrainScope.stepPairs
      rw [if_neg hmem]
      split_ifs <;> exact ⟨rfl, rfl, rfl⟩

/-! ## The exception is real -/

/-- A full snapshot of the pair `a` in generation 5, with one root. -/
def snapshotOfA : ScannerResult :=
  { files := [.mk { name := "root", size := 1, pathPairId := some "a" } []]
    scannedPathPairIds := [some "a"]
    generation := 5
    isProgress := true
    completedPathPairIds := [some "a"]
    sessionToken := some "session"
    isFullSnapshot := true
    fullSnapshotPathPairIds := [some "a"] }

/-- A transport failure before any manifest, still in generation 0. -/
def transportFailure : ScannerResult :=
  { files := [], failed := true, generation := 0, isProgress := true, sessionToken := some "session" }

/-- The failure is five generations old for `a`, does not name it, and still drops its fingerprint. -/
theorem old_failure_drops_fingerprint :
    let acc := (apply (fun _ => "digest") {} [snapshotOfA] []).1
    BelowActive (acc.pairs (some "a")) transportFailure.generation ∧
      (acc.pairs (some "a")).committedRootFingerprints "root" = some "digest" ∧
      ((apply (fun _ => "digest") acc [transportFailure] []).1.pairs (some "a")).committedRootFingerprints
        "root" = none := by
  refine ⟨⟨5, rfl, by decide⟩, rfl, rfl⟩

end SeedSync.Progressive
