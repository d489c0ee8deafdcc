import SeedSync.Progressive.Hints

/-!
# Lossy queues and drain boundaries

The bounded queue regroups events and drops ordinary progress. Regrouping changes nothing
that is stored. Dropping changes neither the committed roots nor the digests, as long as
no older event of the pair stands between the dropped event and the snapshot that repeats it.
-/

open SeedSync.Lib

namespace SeedSync.Progressive

variable {sha256 : List StreamRecord → Digest} {p : PairId}

/-! ## Events with concrete pairs -/

/-- The pairs that the event itself names. -/
def namedPairs (event : ScannerResult) : List PairId :=
  (if event.failed then event.scannedPathPairIds ++ event.unknownPathPairIds ++ event.recoverableFailurePathPairIds
    else event.scannedPathPairIds).dedup

/-- The event names pairs, and all of them by a string. -/
def Concrete (event : ScannerResult) : Prop := namedPairs event ≠ [] ∧ none ∉ namedPairs event

theorem pairIds_concrete {event : ScannerResult} (h : Concrete event) (scope : DrainScope) :
    scope.pairIds event = namedPairs event := by
  obtain ⟨hne, hnone⟩ := h
  have hraw : ∀ raw : List PairId, none ∉ raw.dedup →
      resolveFailurePathPairIds raw scope.configured scope.explicitlyCompleted scope.incompleteBeforeDrain = raw := by
    intro raw hr
    rw [resolveFailurePathPairIds, if_pos (Or.inl (fun hm => hr (List.mem_dedup.mpr hm)))]
  unfold DrainScope.pairIds
  dsimp only
  rw [hraw _ hnone]
  exact if_neg hne

/-- What a concrete event does to every pair, without the drain around it. -/
def stepNamed (sha256 : List StreamRecord → Digest) (pairs : PairId → PairState) (event : ScannerResult) :
    PairId → PairState := fun p =>
  if p ∈ namedPairs event then (stepPair sha256 (event.forPair (namedPairs event) p) (pairs p)).1 else pairs p

theorem stepPairs_concrete {event : ScannerResult} (h : Concrete event) (scope : DrainScope)
    (pairs : PairId → PairState) : scope.stepPairs sha256 pairs event = stepNamed sha256 pairs event := by
  funext p
  have hanon : anonymousFailure sha256 scope pairs event = false := by
    unfold anonymousFailure
    rw [pairIds_concrete h]
    have hids : namedPairs event ≠ [none] := fun heq => h.2 (by simp [heq])
    simp [hids]
  unfold DrainScope.stepPairs stepNamed
  rw [hanon, pairIds_concrete h]
  simp

theorem foldl_stepPairs_concrete {events : List ScannerResult} (h : ∀ event ∈ events, Concrete event)
    (scope : DrainScope) (pairs : PairId → PairState) :
    events.foldl (scope.stepPairs sha256) pairs = events.foldl (stepNamed sha256) pairs :=
  foldl_view id events pairs (fun s event hmem => stepPairs_concrete (h event hmem) scope s)

theorem foldl_stepNamed_stored (events : List ScannerResult) {a b : PairId → PairState}
    (h : ∀ p, Stored (a p) (b p)) (p : PairId) :
    Stored (events.foldl (stepNamed sha256) a p) (events.foldl (stepNamed sha256) b p) := by
  induction events generalizing a b with
  | nil => exact h p
  | cons event events ih =>
    apply ih
    intro q
    unfold stepNamed
    split_ifs
    · exact (stepPair_stored _ (h q)).1
    · exact h q

/-! ## Cuts -/

/-- The events as the loop reads them. -/
def explicitEvents (events : List ScannerResult) : List ScannerResult := events.filterMap ScannerResult.admitted

/-- The events of one bound session, with concrete pairs. -/
structure OfSession (token : String) (events : List ScannerResult) : Prop where
  session : ∀ event ∈ events, event.sessionToken = some token
  concrete : ∀ event ∈ explicitEvents events, Concrete event

theorem openDrain_token {acc : ScanAccumulator} {token : String} (h : acc.sessionToken = some token)
    (events : List ScannerResult) : (openDrain acc events).sessionToken = some token := by
  simp [openDrain, h]

theorem drainAccepted_session {acc : ScanAccumulator} {token : String} (h : acc.sessionToken = some token)
    {events : List ScannerResult} (hs : ∀ event ∈ events, event.sessionToken = some token) :
    drainAccepted acc events = explicitEvents events := by
  unfold drainAccepted acceptedEvents explicitEvents
  rw [openDrain_token h, List.filter_eq_self.mpr]
  intro event hmem
  simp [hs event hmem]

theorem foldl_applyEvent_token (scope : DrainScope) (events : List ScannerResult) (acc : ScanAccumulator) :
    (events.foldl (scope.applyEvent sha256) acc).sessionToken = acc.sessionToken := by
  apply foldl_invariant (fun a : ScanAccumulator => a.sessionToken = acc.sessionToken) events acc _ rfl
  intro a event _ ha
  rw [← ha]
  exact foldl_invariant (fun b : ScanAccumulator => b.sessionToken = a.sessionToken) _ a (fun b q _ hb => hb) rfl

theorem apply_token (acc : ScanAccumulator) (events : List ScannerResult) (configured : List String) :
    (apply sha256 acc events configured).1.sessionToken = (openDrain acc events).sessionToken := by
  unfold apply
  dsimp only
  split_ifs
  · rfl
  · rw [foldl_drainEvent_fst, foldl_applyEvent_token]
  · show (_ : ScanAccumulator).sessionToken = _
    simp only [applyDrainFailureTruth]
    rw [foldl_drainEvent_fst, foldl_applyEvent_token]

/-- In a bound session a drain stores what the run of its events stores. -/
theorem apply_run {acc : ScanAccumulator} {token : String} (h : acc.sessionToken = some token)
    {events : List ScannerResult} (hs : OfSession token events) (configured : List String) (p : PairId) :
    Stored ((apply sha256 acc events configured).1.pairs p)
      ((explicitEvents events).foldl (stepNamed sha256) acc.pairs p) := by
  refine (apply_stored acc events configured p).trans ?_
  rw [drainAccepted_session h hs.session, pairsAfter, foldl_stepPairs_concrete hs.concrete]
  exact foldl_stepNamed_stored _ (openDrain_stored acc events) p

/-- Consecutive drains. -/
def applyAll (sha256 : List StreamRecord → Digest) (configured : List String) (acc : ScanAccumulator)
    (cuts : List (List ScannerResult)) : ScanAccumulator :=
  cuts.foldl (fun acc events => (apply sha256 acc events configured).1) acc

theorem applyAll_run {acc : ScanAccumulator} {token : String} (h : acc.sessionToken = some token)
    (cuts : List (List ScannerResult)) (hs : ∀ events ∈ cuts, OfSession token events) (configured : List String)
    (p : PairId) :
    Stored ((applyAll sha256 configured acc cuts).pairs p)
      ((explicitEvents cuts.flatten).foldl (stepNamed sha256) acc.pairs p) := by
  induction cuts generalizing acc with
  | nil => exact Stored.refl _
  | cons events cuts ih =>
    have htoken : (apply sha256 acc events configured).1.sessionToken = some token :=
      (apply_token acc events configured).trans (openDrain_token h events)
    have hrest := ih htoken (fun l hl => hs l (List.mem_cons_of_mem _ hl))
    refine hrest.trans ?_
    have happend : explicitEvents (events ++ cuts.flatten) = explicitEvents events ++ explicitEvents cuts.flatten :=
      List.filterMap_append
    rw [List.flatten_cons, happend, List.foldl_append]
    exact foldl_stepNamed_stored _ (fun q => apply_run h (hs events List.mem_cons_self) configured q) p

/-! ## What a later completion still sees of a pair -/

/-- A fence that an event of generation `g` or later respects. -/
def relevant (g : Int) (t : Nat × Invalidation) : Bool :=
  decide (t.2.status = .pending) || decide (g ≤ t.2.generation)

theorem relevant_mono {g g' : Int} (h : g ≤ g') {t : Nat × Invalidation} (ht : relevant g' t = true) :
    relevant g t = true := by
  simp only [relevant, Bool.or_eq_true, decide_eq_true_eq] at ht ⊢
  rcases ht with hp | hg
  · exact Or.inl hp
  · exact Or.inr (by omega)

section
variable {e : PairEvent} {s s' : PairState}

theorem releaseFences_relevant (e : PairEvent) (s : PairState) (r : String) :
    ((releaseFences e s).moveInvalidations r).filter (relevant e.generation) =
      (s.moveInvalidations r).filter (relevant e.generation) := by
  simp only [releaseFences, List.filter_filter]
  apply List.filter_congr
  intro t _
  simp only [relevant, releasesDeletion, releasesMove]
  cases t.2.status <;> by_cases hg : e.generation ≤ t.2.generation <;>
    simp [hg, Int.not_lt.mpr, Int.not_le] <;> omega

theorem admitSnapshot_relevant (prot : String → Bool) (r : String) :
    ((admitSnapshot sha256 e prot s).1.moveInvalidations r).filter (relevant e.generation) =
      (s.moveInvalidations r).filter (relevant e.generation) := by
  by_cases hbad : e.fullSnapshot = true ∧ ∃ m ∈ e.markers, ¬ MarkerHolds s m
  · have hcore := (markers_core e prot s).trans (admitMarkers_core e _)
    rw [admitSnapshot_rejected prot hbad.1 hbad.2]
    simp only [rejectMarkers, hcore.fences]
  · have hcore := beforeCommit_core e prot s
    rw [admitSnapshot_admitted prot (fun hfull m hm => by
      by_contra hn
      exact hbad ⟨hfull, m, hm, hn⟩)]
    split_ifs
    · simp only [commitSnapshot, hcore.fences, List.filter_filter]
      apply List.filter_congr
      intro t _
      simp only [relevant]
      cases t.2.status <;> by_cases hg : e.generation ≤ t.2.generation <;> simp [hg, Int.not_lt.mpr]
    · rw [hcore.fences]

/-- An event that is not stale removes only fences below its generation. -/
theorem stepPair_relevant (hs : ¬ e.generation < s.previousGeneration) (r : String) :
    ((stepPair sha256 e s).1.moveInvalidations r).filter (relevant e.generation) =
      (s.moveInvalidations r).filter (relevant e.generation) := by
  have haccept : ((acceptGeneration e s).moveInvalidations r).filter (relevant e.generation) =
      (s.moveInvalidations r).filter (relevant e.generation) := by
    rw [acceptGeneration_fences]; exact releaseFences_relevant e s r
  cases hf : e.failed with
  | true => rw [stepPair_failed hs hf]; exact haccept
  | false => rw [stepPair_admitted hs hf, admitSnapshot_relevant]; exact haccept

/-- A completion respects exactly the fences that are relevant to it. -/
theorem protectedRoot_relevant (hs : ¬ e.generation < s.previousGeneration) (hh : e.healthy = true) (r : String) :
    protectedRoot e (releaseFences e s) r = (s.moveInvalidations r).any (relevant e.generation) := by
  unfold protectedRoot releaseFences
  simp only [List.any_filter]
  congr 1
  funext t
  have hle : s.previousGeneration ≤ e.generation := Int.not_lt.mp hs
  simp only [relevant, releasesDeletion, releasesMove, protects, hh, hle]
  cases t.2.status <;> by_cases hg : e.generation ≤ t.2.generation <;> simp [hg, Int.not_lt.mpr] <;> omega

theorem any_of_filter {l l' : List (Nat × Invalidation)} {q : Nat × Invalidation → Bool}
    (h : l'.filter q = l.filter q) : l'.any q = l.any q := by
  have hself : ∀ xs : List (Nat × Invalidation), (xs.filter q).any q = xs.any q := by
    intro xs
    rw [List.any_filter]
    simp only [Bool.and_self]
  rw [← hself l', ← hself l, h]

/-- The second run has seen less: it may be behind in its generation and keep fences that the first released. -/
structure Behind (s s' : PairState) : Prop where
  committed : s'.committed = s.committed
  fingerprints : s'.committedRootFingerprints = s.committedRootFingerprints
  generation : s'.previousGeneration ≤ s.previousGeneration
  fences : ∀ r, (s'.moveInvalidations r).filter (relevant s.previousGeneration) =
    (s.moveInvalidations r).filter (relevant s.previousGeneration)

theorem Behind.refl (s : PairState) : Behind s s := ⟨rfl, rfl, Int.le_refl _, fun _ => rfl⟩

/-- Fences that agree from one generation on agree from every later one. -/
theorem filter_relevant_mono {g g' : Int} (h : g ≤ g') {l l' : List (Nat × Invalidation)}
    (heq : l'.filter (relevant g) = l.filter (relevant g)) :
    l'.filter (relevant g') = l.filter (relevant g') := by
  have hsub : ∀ xs : List (Nat × Invalidation), (xs.filter (relevant g)).filter (relevant g') =
      xs.filter (relevant g') := by
    intro xs
    rw [List.filter_filter]
    apply List.filter_congr
    intro t _
    cases ht : relevant g' t with
    | true => simp [relevant_mono h ht]
    | false => simp
  rw [← hsub l', ← hsub l, heq]

/-- An event that does not fail and completes nothing leaves the committed roots and the digests. -/
theorem stepPair_quiet (hs : ¬ e.generation < s.previousGeneration) (hf : e.failed = false)
    (hh : e.healthy = false) (hm : e.fullSnapshot = true → ∀ m ∈ e.markers, MarkerHolds s m) :
    (stepPair sha256 e s).1.committed = s.committed ∧
      (stepPair sha256 e s).1.committedRootFingerprints = s.committedRootFingerprints := by
  have hm' : e.fullSnapshot = true → ∀ m ∈ e.markers, MarkerHolds (acceptGeneration e s) m := by
    intro hfull m hmem
    unfold MarkerHolds
    rw [acceptGeneration_committed, acceptGeneration_fingerprints]
    exact hm hfull m hmem
  have hcore := beforeCommit_core e (protectedRoot e (releaseFences e s)) (acceptGeneration e s)
  rw [stepPair_admitted hs hf, admitSnapshot_admitted _ hm', if_neg (by rw [hh]; simp)]
  exact ⟨hcore.committed.trans (acceptGeneration_committed e s),
    hcore.fingerprints.trans (acceptGeneration_fingerprints e s)⟩

/-- An event that both runs accept brings them level. -/
theorem Behind.step (h : Behind s s') (hs : ¬ e.generation < s.previousGeneration) :
    Behind (stepPair sha256 e s).1 (stepPair sha256 e s').1 ∧
      (stepPair sha256 e s').1.previousGeneration = (stepPair sha256 e s).1.previousGeneration := by
  have hs' : ¬ e.generation < s'.previousGeneration := fun hlt => hs (Int.lt_of_lt_of_le hlt h.generation)
  have hgen : (stepPair sha256 e s).1.previousGeneration = e.generation := stepPair_previousGeneration hs
  have hgen' : (stepPair sha256 e s').1.previousGeneration = e.generation := stepPair_previousGeneration hs'
  have hfences : ∀ r, (s'.moveInvalidations r).filter (relevant e.generation) =
      (s.moveInvalidations r).filter (relevant e.generation) :=
    fun r => filter_relevant_mono (Int.not_lt.mp hs) (h.fences r)
  have hholds : ∀ m, MarkerHolds s' m ↔ MarkerHolds s m := by
    intro m; unfold MarkerHolds; rw [h.committed, h.fingerprints]
  refine ⟨?_, by rw [hgen, hgen']⟩
  suffices hcore : (stepPair sha256 e s').1.committed = (stepPair sha256 e s).1.committed ∧
      (stepPair sha256 e s').1.committedRootFingerprints = (stepPair sha256 e s).1.committedRootFingerprints by
    refine ⟨hcore.1, hcore.2, by rw [hgen, hgen'], ?_⟩
    intro r
    rw [hgen, stepPair_relevant hs, stepPair_relevant hs']
    exact hfences r
  cases hf : e.failed with
  | true =>
    rw [stepPair_failed hs hf, stepPair_failed hs' hf]
    refine ⟨?_, rfl⟩
    exact (acceptGeneration_committed e s').trans (h.committed.trans (acceptGeneration_committed e s).symm)
  | false =>
    by_cases hbad : e.fullSnapshot = true ∧ ∃ m ∈ e.markers, ¬ MarkerHolds s m
    · obtain ⟨hfull, m, hmem, hn⟩ := hbad
      obtain ⟨hc, hfp⟩ := @stepPair_mismatch sha256 e s (Int.not_lt.mp hs) hfull hf ⟨m, hmem, hn⟩
      obtain ⟨hc', hfp'⟩ := @stepPair_mismatch sha256 e s' (Int.not_lt.mp hs') hfull hf
        ⟨m, hmem, fun hm => hn ((hholds m).mp hm)⟩
      rw [hc, hc', hfp, hfp']
      exact ⟨h.committed, rfl⟩
    · have hm : e.fullSnapshot = true → ∀ m ∈ e.markers, MarkerHolds s m := fun hfull m hmem => by
        by_contra hn
        exact hbad ⟨hfull, m, hmem, hn⟩
      have hm' : e.fullSnapshot = true → ∀ m ∈ e.markers, MarkerHolds s' m := fun hfull m hmem =>
        (hholds m).mpr (hm hfull m hmem)
      cases hh : e.healthy with
      | false =>
        obtain ⟨hc, hfp⟩ := @stepPair_quiet sha256 e s hs hf hh hm
        obtain ⟨hc', hfp'⟩ := @stepPair_quiet sha256 e s' hs' hf hh hm'
        rw [hc, hc', hfp, hfp']
        exact ⟨h.committed, h.fingerprints⟩
      | true =>
        have hfull := (e.healthy_full hh).1
        obtain ⟨hc, -, hfp⟩ := @stepPair_completion sha256 e s hs hh (hm hfull)
        obtain ⟨hc', -, hfp'⟩ := @stepPair_completion sha256 e s' hs' hh (hm' hfull)
        have hprot : protectedRoot e (releaseFences e s') = protectedRoot e (releaseFences e s) := by
          funext r
          rw [protectedRoot_relevant hs hh, protectedRoot_relevant hs' hh]
          exact any_of_filter (hfences r)
        have hroots : snapshotRoots e (protectedRoot e (releaseFences e s')) s' =
            snapshotRoots e (protectedRoot e (releaseFences e s)) s := by
          funext name; simp only [snapshotRoots, h.committed, hprot]
        refine ⟨by rw [hc, hc', hroots], ?_⟩
        funext name
        rw [hfp, hfp', hroots, h.fingerprints]

/-- An accepted ordinary event that only the first run sees. -/
theorem Behind.lost (h : Behind s s') (hs : ¬ e.generation < s.previousGeneration) (hf : e.failed = false)
    (hfull : e.fullSnapshot = false) : Behind (stepPair sha256 e s).1 s' := by
  have hh : e.healthy = false := by
    by_contra hne
    rw [(e.healthy_full (by simpa using hne)).1] at hfull
    cases hfull
  obtain ⟨hc, hfp⟩ := @stepPair_quiet sha256 e s hs hf hh (by rw [hfull]; simp)
  have hgen : (stepPair sha256 e s).1.previousGeneration = e.generation := stepPair_previousGeneration hs
  have hle : s.previousGeneration ≤ e.generation := Int.not_lt.mp hs
  refine ⟨by rw [hc, h.committed], by rw [hfp, h.fingerprints], ?_, ?_⟩
  · rw [hgen]; exact Int.le_trans h.generation hle
  · intro r
    rw [hgen, stepPair_relevant hs]
    exact filter_relevant_mono hle (h.fences r)

end

/-! ## Lost progress -/

/-- Neither a failure nor a full snapshot. -/
def Ordinary (event : ScannerResult) : Prop := event.failed = false ∧ event.isFullSnapshot = false

/-- A full snapshot of the pair in this generation comes, and no older event of the pair before it. -/
def Answered (p : PairId) (g : Int) (events : List ScannerResult) : Prop :=
  ∃ before snap after, events = before ++ snap :: after ∧ snap.isAuthoritativeCompletion p = true ∧
    p ∈ namedPairs snap ∧ snap.generation = g ∧
    ∀ event ∈ before, p ∈ namedPairs event → g ≤ event.generation

/-- The second list lacks some ordinary events; those of the pair are answered later in the first. -/
inductive Thins (p : PairId) : List ScannerResult → List ScannerResult → Prop
  | nil : Thins p [] []
  | keep {events kept : List ScannerResult} (event : ScannerResult) (rest : Thins p events kept) :
      Thins p (event :: events) (event :: kept)
  | drop {events kept : List ScannerResult} {event : ScannerResult} (ordinary : Ordinary event)
      (answered : p ∈ namedPairs event → Answered p event.generation events) (rest : Thins p events kept) :
      Thins p (event :: events) kept

/-- The head of an answered list is the snapshot itself or leaves the rest answered. -/
theorem Answered.cons {g : Int} {event : ScannerResult} {events : List ScannerResult}
    (h : Answered p g (event :: events)) :
    (event.isAuthoritativeCompletion p = true ∧ p ∈ namedPairs event ∧ event.generation = g) ∨
      ((p ∈ namedPairs event → g ≤ event.generation) ∧ Answered p g events) := by
  obtain ⟨before, snap, after, hsplit, hauth, hnames, hgen, hbefore⟩ := h
  cases before with
  | nil =>
    simp only [List.nil_append, List.cons.injEq] at hsplit
    rw [hsplit.1]
    exact Or.inl ⟨hauth, hnames, hgen⟩
  | cons b before =>
    simp only [List.cons_append, List.cons.injEq] at hsplit
    refine Or.inr ⟨?_, before, snap, after, hsplit.2, hauth, hnames, hgen, ?_⟩
    · rw [hsplit.1]; exact hbefore b List.mem_cons_self
    · exact fun event hmem => hbefore event (List.mem_cons_of_mem _ hmem)

/-- The two runs are level, or the generation that the first is ahead by is answered. -/
def Settled (p : PairId) (pairs pairs' : PairId → PairState) (events : List ScannerResult) : Prop :=
  (pairs' p).previousGeneration = (pairs p).previousGeneration ∨ Answered p (pairs p).previousGeneration events

theorem Thins.behind {events kept : List ScannerResult} (h : Thins p events kept)
    {pairs pairs' : PairId → PairState} (hb : Behind (pairs p) (pairs' p)) (hs : Settled p pairs pairs' events) :
    Behind (events.foldl (stepNamed sha256) pairs p) (kept.foldl (stepNamed sha256) pairs' p) := by
  induction h generalizing pairs pairs' with
  | nil => exact hb
  | @keep events kept event rest ih =>
    by_cases hname : p ∈ namedPairs event
    · have hnew : stepNamed sha256 pairs event p = (stepPair sha256 (event.forPair (namedPairs event) p) (pairs p)).1 :=
        if_pos hname
      have hnew' : stepNamed sha256 pairs' event p =
          (stepPair sha256 (event.forPair (namedPairs event) p) (pairs' p)).1 := if_pos hname
      by_cases hstale : event.generation < (pairs p).previousGeneration
      · -- A stale event is stale in both runs, for an answered generation has no older event next.
        have hlevel : (pairs' p).previousGeneration = (pairs p).previousGeneration := by
          rcases hs with hl | ha
          · exact hl
          · rcases ha.cons with ⟨-, -, hgen⟩ | ⟨hle, -⟩
            · omega
            · have := hle hname
              omega
        have hsame := @stepPair_stale sha256 (event.forPair (namedPairs event) p) (pairs p) hstale
        have hsame' := @stepPair_stale sha256 (event.forPair (namedPairs event) p) (pairs' p)
          (by rw [hlevel]; exact hstale)
        apply ih
        · rw [hnew, hnew', hsame, hsame']; exact hb
        · left; rw [hnew, hnew', hsame, hsame']; exact hlevel
      · obtain ⟨hb', hlevel⟩ := @Behind.step sha256 (event.forPair (namedPairs event) p) _ _ hb hstale
        apply ih
        · rw [hnew, hnew']; exact hb'
        · left; rw [hnew, hnew']; exact hlevel
    · have hnew : stepNamed sha256 pairs event p = pairs p := if_neg hname
      have hnew' : stepNamed sha256 pairs' event p = pairs' p := if_neg hname
      apply ih
      · rw [hnew, hnew']; exact hb
      · unfold Settled
        rw [hnew, hnew']
        rcases hs with hl | ha
        · exact Or.inl hl
        · rcases ha.cons with ⟨-, hn, -⟩ | ⟨-, hrest⟩
          · exact absurd hn hname
          · exact Or.inr hrest
  | @drop events kept event ordinary answered rest ih =>
    obtain ⟨hfail, hfull⟩ := ordinary
    have hnot : event.isAuthoritativeCompletion p ≠ true := by
      simp [ScannerResult.isAuthoritativeCompletion, hfull]
    have hrest : Answered p (pairs p).previousGeneration (event :: events) →
        (p ∈ namedPairs event → (pairs p).previousGeneration ≤ event.generation) ∧
          Answered p (pairs p).previousGeneration events := by
      intro ha
      rcases ha.cons with ⟨hauth, -, -⟩ | hr
      · exact absurd hauth hnot
      · exact hr
    by_cases hname : p ∈ namedPairs event
    · have hnew : stepNamed sha256 pairs event p = (stepPair sha256 (event.forPair (namedPairs event) p) (pairs p)).1 :=
        if_pos hname
      by_cases hstale : event.generation < (pairs p).previousGeneration
      · apply ih
        · rw [hnew, stepPair_stale hstale]; exact hb
        · unfold Settled
          rw [hnew, stepPair_stale hstale]
          exact hs.imp id (fun ha => (hrest ha).2)
      · apply ih
        · rw [hnew]
          exact hb.lost hstale hfail (by simp [ScannerResult.forPair, ScannerResult.fullSnapshotFor, hfull])
        · right
          rw [hnew, stepPair_previousGeneration (e := event.forPair (namedPairs event) p) hstale]
          exact answered hname
    · have hnew : stepNamed sha256 pairs event p = pairs p := if_neg hname
      apply ih
      · rw [hnew]; exact hb
      · unfold Settled
        rw [hnew]
        exact hs.imp id (fun ha => (hrest ha).2)

/-- In a bound session, with concrete pairs: however a list of events is cut into drains, the same
is stored. A list without some ordinary progress of a pair leaves the committed roots and the
digests of the pair as they would be, when each lost event is answered by a later full
snapshot of its generation with no older event of the pair between them. -/
theorem cuts_and_losses_do_not_matter (sha256 : List StreamRecord → Digest) (configured : List String) :
    (∀ acc token, acc.sessionToken = some token → ∀ cuts, (∀ events ∈ cuts, OfSession token events) → ∀ p,
      let cut := (applyAll sha256 configured acc cuts).pairs p
      let whole := (apply sha256 acc cuts.flatten configured).1.pairs p
      cut.committed = whole.committed ∧ cut.working = whole.working ∧
        cut.activeGeneration = whole.activeGeneration ∧ cut.moveInvalidations = whole.moveInvalidations ∧
        cut.committedRootFingerprints = whole.committedRootFingerprints) ∧
    (∀ acc token, acc.sessionToken = some token → ∀ p events kept, OfSession token events →
      OfSession token kept → Thins p (explicitEvents events) (explicitEvents kept) →
      let all := (apply sha256 acc events configured).1.pairs p
      let thinned := (apply sha256 acc kept configured).1.pairs p
      thinned.committed = all.committed ∧
        thinned.committedRootFingerprints = all.committedRootFingerprints) := by
  constructor
  · intro acc token htoken cuts hs p
    have hflat : OfSession token cuts.flatten := by
      constructor
      · intro event hmem
        obtain ⟨events, he, hmem⟩ := List.mem_flatten.mp hmem
        exact (hs events he).session event hmem
      · intro event hmem
        obtain ⟨raw, hraw, hadm⟩ := List.mem_filterMap.mp hmem
        obtain ⟨events, he, hraw⟩ := List.mem_flatten.mp hraw
        exact (hs events he).concrete event (List.mem_filterMap.mpr ⟨raw, hraw, hadm⟩)
    have hstored := (@applyAll_run sha256 acc token htoken cuts hs configured p).trans
      (apply_run htoken hflat configured p).symm
    dsimp only
    rw [hstored.eq_with]
    exact ⟨rfl, rfl, rfl, rfl, rfl⟩
  · intro acc token htoken p events kept hs hk hthin
    have hall := @apply_run sha256 acc token htoken events hs configured p
    have hless := @apply_run sha256 acc token htoken kept hk configured p
    have hb := @Thins.behind sha256 p _ _ hthin acc.pairs acc.pairs (Behind.refl _) (Or.inl rfl)
    dsimp only
    rw [hall.symm.eq_with, hless.symm.eq_with]
    exact ⟨hb.committed, hb.fingerprints⟩

/-! ## An older event in between -/

/-- Events of the pair `a` in one session. -/
def eventOfA (generation : Int) (failed complete : Bool) (files : List SystemFile)
    (markers : List (String × Digest)) : ScannerResult :=
  { files
    scannedPathPairIds := [some "a"]
    failed
    generation
    isProgress := true
    completedPathPairIds := if complete then [some "a"] else []
    sessionToken := some "session"
    isFullSnapshot := complete
    fullSnapshotPathPairIds := if complete then [some "a"] else []
    unchangedRootFingerprintsByPair := [(some "a", markers)] }

/-- The progress of generation 5 makes the older failure stale. Without it, the failure drops the
digest, and the snapshot of generation 5 can no longer use its marker. -/
theorem older_failure_in_between :
    let root := SystemFile.mk { name := "root", size := 1, pathPairId := some "a" } []
    let acc := (apply (fun _ => "digest") {} [eventOfA 3 false true [root] []] []).1
    let progress := eventOfA 5 false false [] []
    let rest := [eventOfA 4 true false [] [], eventOfA 5 false true [] [("root", "digest")]]
    Ordinary progress ∧
      (∃ snap ∈ rest, snap.isAuthoritativeCompletion (some "a") = true ∧ snap.generation = progress.generation) ∧
      acc.sessionToken = some "session" ∧ OfSession "session" (progress :: rest) ∧
      ((apply (fun _ => "digest") acc (progress :: rest) []).1.pairs (some "a")).committedRootFingerprints "root" =
        some "digest" ∧
      ((apply (fun _ => "digest") acc rest []).1.pairs (some "a")).committedRootFingerprints "root" = none := by
  refine ⟨⟨rfl, rfl⟩, ⟨_, List.mem_cons_of_mem _ List.mem_cons_self, rfl, rfl⟩, rfl, ⟨by decide, ?_⟩, rfl, rfl⟩
  intro event hmem
  simp only [explicitEvents, eventOfA, ScannerResult.admitted, List.filterMap_cons, List.filterMap_nil, if_true,
    List.mem_cons, List.not_mem_nil, or_false] at hmem
  rcases hmem with rfl | rfl | rfl <;> exact ⟨by decide, by decide⟩

end SeedSync.Progressive
