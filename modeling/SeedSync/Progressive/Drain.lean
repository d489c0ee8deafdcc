import SeedSync.Progressive.Model
import SeedSync.Progressive.Step

/-!
# A drain, pair by pair

The pairs of an event do not see each other, so a drain is a run of `stepPairs` over the
accepted events. `apply_unmark` reduces `apply` to that run, up to the marks that only
describe the last drain.
-/

open SeedSync.Lib

namespace SeedSync.Progressive

variable {sha256 : List StreamRecord → Digest}

/-! ## Marks -/

/-- The state without what only the reader of the last drain looks at. -/
def PairState.unmark (s : PairState) : PairState :=
  { s with recoverableIncomplete := false, lastTouched := fun _ => false, lastFinalComparisonProven := false }

/-- The two states store the same. -/
def Stored (a b : PairState) : Prop := a.unmark = b.unmark

theorem Stored.refl (s : PairState) : Stored s s := rfl

theorem Stored.symm {a b : PairState} (h : Stored a b) : Stored b a := Eq.symm h

theorem Stored.trans {a b c : PairState} (h : Stored a b) (h' : Stored b c) : Stored a c := Eq.trans h h'

theorem stored_unmark (s : PairState) : Stored s.unmark s := rfl

/-- Two states that store the same differ in the marks only. -/
theorem Stored.eq_with {a b : PairState} (h : Stored a b) :
    b = { a with recoverableIncomplete := b.recoverableIncomplete, lastTouched := b.lastTouched,
                 lastFinalComparisonProven := b.lastFinalComparisonProven } := by
  cases a; cases b
  simp only [Stored, PairState.unmark, PairState.mk.injEq] at h ⊢
  simp [h]

/-- `f` reads nothing from the marks. -/
def Markless (f : PairState → PairState) : Prop := ∀ a b, Stored a b → Stored (f a) (f b)

theorem Markless.comp {f g : PairState → PairState} (hg : Markless g) (hf : Markless f) :
    Markless (fun s => g (f s)) := fun a b h => hg _ _ (hf a b h)

theorem Markless.foldl {ι : Type} {f : PairState → ι → PairState} (l : List ι)
    (hf : ∀ i ∈ l, Markless (fun s => f s i)) : Markless (fun s => l.foldl f s) := by
  induction l with
  | nil => exact fun a b h => h
  | cons i l ih =>
    intro a b h
    exact ih (fun j hj => hf j (List.mem_cons_of_mem _ hj)) _ _ (hf i List.mem_cons_self a b h)

theorem markless_releaseFences (e : PairEvent) : Markless (releaseFences e) := by
  intro a b h
  rw [h.eq_with]; rfl

theorem protectedRoot_stored (e : PairEvent) {a b : PairState} (h : Stored a b) :
    protectedRoot e a = protectedRoot e b := by
  rw [h.eq_with]; rfl

theorem previousGeneration_stored {a b : PairState} (h : Stored a b) :
    a.previousGeneration = b.previousGeneration := by
  rw [h.eq_with]; rfl

theorem markless_advance (g : Int) (prot : String → Bool) : Markless (advanceGeneration g prot) := by
  intro a b h
  rw [h.eq_with]; rfl

theorem markless_admitOutcomes (e : PairEvent) : Markless (admitOutcomes e) := by
  intro a b h
  rw [h.eq_with]
  unfold admitOutcomes
  split_ifs <;> rfl

theorem markless_failGeneration (e : PairEvent) (prot : String → Bool) : Markless (failGeneration e prot) := by
  intro a b h
  rw [h.eq_with]; rfl

theorem markless_rebuildWorking (e : PairEvent) (prot : String → Bool) : Markless (rebuildWorking e prot) := by
  intro a b h
  rw [h.eq_with]
  unfold rebuildWorking
  split_ifs <;> rfl

theorem markless_admitManifest (e : PairEvent) (prot : String → Bool) : Markless (admitManifest e prot) := by
  intro a b h
  rw [h.eq_with]
  unfold admitManifest
  split <;> rfl

theorem markless_forgetStart (e : PairEvent) (name : String) : Markless (forgetStart e name) := by
  intro a b h
  rw [h.eq_with]
  unfold forgetStart
  dsimp only
  split
  · split
    · split_ifs <;> rfl
    · rfl
  · rfl

theorem markless_admitRoot (e : PairEvent) (prot : String → Bool) (f : SystemFile) :
    Markless (fun s => admitRoot e prot s f) := by
  intro a b h
  cases hp : prot f.name with
  | true =>
    show Stored (admitRoot e prot a f) (admitRoot e prot b f)
    rwa [admitRoot_protected e prot a f hp, admitRoot_protected e prot b f hp]
  | false =>
    show Stored (admitRoot e prot a f) (admitRoot e prot b f)
    have hset : Stored (a.setWorking e.generation f.name f) (b.setWorking e.generation f.name f) := by
      rw [h.eq_with]; rfl
    have hforget := markless_forgetStart e f.name _ _ hset
    have hout : a.outcomesAt e.generation f.name = b.outcomesAt e.generation f.name := by
      rw [h.eq_with]; rfl
    simp only [admitRoot, hp, Bool.false_eq_true, if_false, hout]
    rw [hforget.eq_with]
    rfl

theorem markless_sealManifest (e : PairEvent) : Markless (sealManifest e) := by
  intro a b h
  rw [h.eq_with]
  unfold sealManifest
  split_ifs <;> rfl

theorem markless_rejectMarkers (e : PairEvent) : Markless (rejectMarkers e) := by
  intro a b h
  rw [h.eq_with]; rfl

theorem markless_commitSnapshot (e : PairEvent) (retained : String → Option Digest) :
    Markless (commitSnapshot sha256 e retained) := by
  intro a b h
  rw [h.eq_with]; rfl

theorem admitMarker_stored (g : Int) (m : String × Digest) {v w : MarkerWalk} (h : Stored v.state w.state)
    (hr : v.retained = w.retained) (hi : v.invalidMarker = w.invalidMarker) :
    Stored (admitMarker g v m).state (admitMarker g w m).state ∧
      (admitMarker g v m).retained = (admitMarker g w m).retained ∧
      (admitMarker g v m).invalidMarker = (admitMarker g w m).invalidMarker := by
  have hc : w.state.committed = v.state.committed := by rw [h.eq_with]
  have hf : w.state.committedRootFingerprints = v.state.committedRootFingerprints := by rw [h.eq_with]
  unfold admitMarker
  rw [hc]
  cases v.state.committed m.1 with
  | none => exact ⟨h, hr, rfl⟩
  | some root =>
    simp only [hf]
    split_ifs
    · refine ⟨?_, by simp only [hr], hi⟩
      rw [h.eq_with]; rfl
    · exact ⟨h, hr, rfl⟩

theorem admitMarkers_stored (e : PairEvent) {a b : PairState} (h : Stored a b) :
    Stored (admitMarkers e a).state (admitMarkers e b).state ∧
      (admitMarkers e a).retained = (admitMarkers e b).retained ∧
      (admitMarkers e a).invalidMarker = (admitMarkers e b).invalidMarker := by
  unfold admitMarkers
  split_ifs
  · have walk : ∀ (ms : List (String × Digest)) (v w : MarkerWalk), Stored v.state w.state →
        v.retained = w.retained → v.invalidMarker = w.invalidMarker →
        Stored (ms.foldl (admitMarker e.generation) v).state (ms.foldl (admitMarker e.generation) w).state ∧
          (ms.foldl (admitMarker e.generation) v).retained = (ms.foldl (admitMarker e.generation) w).retained ∧
          (ms.foldl (admitMarker e.generation) v).invalidMarker =
            (ms.foldl (admitMarker e.generation) w).invalidMarker := by
      intro ms
      induction ms with
      | nil => intro v w h1 h2 h3; exact ⟨h1, h2, h3⟩
      | cons m ms ih =>
        intro v w h1 h2 h3
        obtain ⟨g1, g2, g3⟩ := admitMarker_stored e.generation m h1 h2 h3
        exact ih _ _ g1 g2 g3
    exact walk e.markers _ _ h rfl rfl
  · exact ⟨h, rfl, rfl⟩

/-- A step stores the same, and ends the same way, whatever the marks are. -/
theorem stepPair_stored (e : PairEvent) {a b : PairState} (h : Stored a b) :
    Stored (stepPair sha256 e a).1 (stepPair sha256 e b).1 ∧
      (stepPair sha256 e a).2 = (stepPair sha256 e b).2 := by
  have hgen := previousGeneration_stored h
  have hrel := markless_releaseFences e a b h
  have hprot := protectedRoot_stored e hrel
  have hacc : Stored (acceptGeneration e a) (acceptGeneration e b) := by
    unfold acceptGeneration
    rw [hgen]
    apply markless_admitOutcomes
    split_ifs
    · rw [hprot]; exact markless_advance _ _ _ _ hrel
    · exact hrel
  unfold stepPair
  simp only [hgen, hprot]
  split_ifs
  · exact ⟨hrel, rfl⟩
  · exact ⟨markless_failGeneration _ _ _ _ hacc, rfl⟩
  · have hman := markless_admitManifest e (protectedRoot e (releaseFences e b)) _ _
      (markless_rebuildWorking e (protectedRoot e (releaseFences e b)) _ _ hacc)
    obtain ⟨hs, hr, hi⟩ := admitMarkers_stored e hman
    unfold admitSnapshot
    simp only [hr, hi]
    split_ifs
    · exact ⟨markless_rejectMarkers _ _ _ hs, rfl⟩
    · exact ⟨markless_commitSnapshot _ _ _ _ (markless_sealManifest _ _ _
        (Markless.foldl _ (fun f _ => markless_admitRoot _ _ f) _ _ hs)), rfl⟩
    · exact ⟨markless_sealManifest _ _ _
        (Markless.foldl _ (fun f _ => markless_admitRoot _ _ f) _ _ hs), rfl⟩

/-! ## The pairs of one event -/

theorem pairIds_nodup (scope : DrainScope) (event : ScannerResult) : (scope.pairIds event).Nodup := by
  unfold DrainScope.pairIds
  dsimp only
  split_ifs
  · exact List.nodup_singleton none
  · exact List.nodup_dedup _
  · exact List.nodup_singleton none
  · exact List.nodup_dedup _

/-- The event has no pair identity at all, and its failure is not stale. -/
def anonymousFailure (sha256 : List StreamRecord → Digest) (scope : DrainScope) (pairs : PairId → PairState)
    (event : ScannerResult) : Bool :=
  decide (scope.pairIds event = [none]) && decide (scope.configured = []) &&
    decide ((stepPair sha256 (event.forPair [none] none) (pairs none)).2 = .failed)

/-- What one event does to every pair. -/
def DrainScope.stepPairs (sha256 : List StreamRecord → Digest) (scope : DrainScope) (pairs : PairId → PairState)
    (event : ScannerResult) : PairId → PairState := fun p =>
  if p ∈ scope.pairIds event then (stepPair sha256 (event.forPair (scope.pairIds event) p) (pairs p)).1
  else if anonymousFailure sha256 scope pairs event then
    { pairs p with committedRootFingerprints := fun _ => none }
  else pairs p

/-- Only a failed event ends in the failed branch. -/
theorem stepPair_failed_of {e : PairEvent} {s : PairState} (h : (stepPair sha256 e s).2 = .failed) :
    ¬ e.generation < s.previousGeneration ∧ e.failed = true := by
  by_cases hs : e.generation < s.previousGeneration
  · rw [stepPair_stale hs] at h; cases h
  refine ⟨hs, ?_⟩
  by_contra hf
  rw [stepPair_admitted hs (Bool.eq_false_iff.mpr hf)] at h
  rcases admitSnapshot_cases sha256 e (protectedRoot e (releaseFences e s)) (acceptGeneration e s) with
    ⟨-, -, hc⟩ | ⟨-, -, hc⟩ | ⟨-, -, hc⟩
  · rw [h] at hc; cases hc
  · rw [hc] at h; cases h
  · rw [h] at hc; cases hc

theorem stepPair_failed_fingerprints {e : PairEvent} {s : PairState}
    (h : (stepPair sha256 e s).2 = .failed) : (stepPair sha256 e s).1.committedRootFingerprints = fun _ => none := by
  obtain ⟨hs, hf⟩ := stepPair_failed_of h
  rw [stepPair_failed hs hf]; rfl

theorem anonymousFailure_failed {scope : DrainScope} {pairs : PairId → PairState} {event : ScannerResult}
    (h : anonymousFailure sha256 scope pairs event = true) : event.failed = true := by
  simp only [anonymousFailure, Bool.and_eq_true, decide_eq_true_eq] at h
  exact (stepPair_failed_of h.2).2

theorem applyPairs_pairs (scope : DrainScope) (event : ScannerResult) (ids : List PairId)
    (hids : ids ≠ [none]) (l : List PairId) (hl : l.Nodup) (acc : ScanAccumulator) (p : PairId) :
    (l.foldl (scope.applyPair sha256 event ids) acc).pairs p =
      if p ∈ l then (stepPair sha256 (event.forPair ids p) (acc.pairs p)).1 else acc.pairs p := by
  have hdrop : ∀ d, dropsAllHints scope ids d = false := by
    intro d; simp [dropsAllHints, hids]
  induction l generalizing acc with
  | nil => simp
  | cons q l ih =>
    obtain ⟨hq, hl⟩ := List.nodup_cons.mp hl
    have hpairs : (scope.applyPair sha256 event ids acc q).pairs =
        Function.update acc.pairs q (stepPair sha256 (event.forPair ids q) (acc.pairs q)).1 := by
      simp [DrainScope.applyPair, hdrop]
    rw [List.foldl_cons, ih hl, hpairs]
    by_cases hpq : p = q
    · subst hpq
      simp [hq]
    · simp [hpq]

theorem applyEvent_pairs (scope : DrainScope) (acc : ScanAccumulator) (event : ScannerResult) :
    (scope.applyEvent sha256 acc event).pairs = scope.stepPairs sha256 acc.pairs event := by
  funext p
  unfold DrainScope.applyEvent DrainScope.stepPairs
  by_cases hids : scope.pairIds event = [none]
  · -- The only pair is the anonymous one, and only here can a failure reach the other pairs.
    simp only [hids, List.foldl_cons, List.foldl_nil, List.mem_singleton]
    unfold DrainScope.applyPair anonymousFailure dropsAllHints
    simp only [hids, decide_true, Bool.and_true, Bool.true_and]
    by_cases hp : p = none
    · subst hp
      simp only [if_true]
      split_ifs with hd
      · have hf : (stepPair sha256 (event.forPair [none] none) (acc.pairs none)).2 = .failed := by
          simp only [Bool.and_eq_true, decide_eq_true_eq] at hd
          exact hd.1
        have hfp := stepPair_failed_fingerprints hf
        simp only [Function.update_self]
        rw [← hfp]
      · simp
    · simp only [hp, if_false, Bool.and_comm (decide (scope.configured = []))]
      split_ifs <;> simp [hp]
  · rw [applyPairs_pairs scope event _ hids _ (pairIds_nodup scope event)]
    have hanon : anonymousFailure sha256 scope acc.pairs event = false := by simp [anonymousFailure, hids]
    simp [hanon]

theorem foldl_applyEvent_pairs (scope : DrainScope) (events : List ScannerResult) (acc : ScanAccumulator) :
    (events.foldl (scope.applyEvent sha256) acc).pairs = events.foldl (scope.stepPairs sha256) acc.pairs :=
  foldl_view ScanAccumulator.pairs events acc (fun a event _ => applyEvent_pairs scope a event)

/-! ## The whole drain -/

theorem drainEvent_fst (scope : DrainScope) (st : ScanAccumulator × DrainLocals) (event : ScannerResult) :
    (scope.drainEvent sha256 st event).1 = scope.applyEvent sha256 st.1 event :=
  foldl_view Prod.fst _ st (fun _ _ _ => rfl)

theorem foldl_drainEvent_fst (scope : DrainScope) (events : List ScannerResult)
    (st : ScanAccumulator × DrainLocals) :
    (events.foldl (scope.drainEvent sha256) st).1 = events.foldl (scope.applyEvent sha256) st.1 :=
  foldl_view Prod.fst events st (fun st event _ => drainEvent_fst scope st event)

/-- The events that the loop of a drain sees. -/
def drainAccepted (acc : ScanAccumulator) (events : List ScannerResult) : List ScannerResult :=
  acceptedEvents (openDrain acc events).sessionToken events

/-- What the drain fixes before its loop. -/
def scopeOf (acc : ScanAccumulator) (events : List ScannerResult) (configured : List String) : DrainScope :=
  drainScope (openDrain acc events) (drainAccepted acc events) configured

/-- The pairs after the first events of a drain. -/
def pairsAfter (sha256 : List StreamRecord → Digest) (acc : ScanAccumulator) (events : List ScannerResult)
    (configured : List String) (before : List ScannerResult) : PairId → PairState :=
  before.foldl ((scopeOf acc events configured).stepPairs sha256) (openDrain acc events).pairs

theorem applyDrainFailureTruth_stored (recoverable terminal : List PairId) (acc : ScanAccumulator) (p : PairId) :
    Stored ((applyDrainFailureTruth recoverable terminal acc).pairs p) (acc.pairs p) := rfl

theorem openDrain_stored (acc : ScanAccumulator) (events : List ScannerResult) (p : PairId) :
    Stored ((openDrain acc events).pairs p) (acc.pairs p) := by
  unfold openDrain setSessionToken
  cases hs : acc.sessionToken with
  | some t => simp only [reduceCtorEq, if_false]; rfl
  | none =>
    cases firstToken events with
    | none => rfl
    | some t => dsimp only; split_ifs <;> rfl

/-- `apply` stores what the run of the accepted events stores. -/
theorem apply_stored (acc : ScanAccumulator) (events : List ScannerResult) (configured : List String)
    (p : PairId) :
    Stored (((apply sha256 acc events configured).1).pairs p)
      (pairsAfter sha256 acc events configured (drainAccepted acc events) p) := by
  unfold apply
  dsimp only
  split_ifs with h1 h2
  · have hnil : drainAccepted acc events = [] := h1
    rw [pairsAfter, hnil]
    exact Stored.refl _
  · rw [foldl_drainEvent_fst, foldl_applyEvent_pairs]
    exact Stored.refl _
  · refine (applyDrainFailureTruth_stored _ _ _ p).trans ?_
    rw [foldl_drainEvent_fst, foldl_applyEvent_pairs]
    exact Stored.refl _

end SeedSync.Progressive
