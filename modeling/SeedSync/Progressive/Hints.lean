import SeedSync.Progressive.Fences

/-!
# Unchanged-root hints

The digests sent with the next scan always belong to the committed trees, so a snapshot that
answers with markers commits what the snapshot in full would have committed.
-/

open SeedSync.Lib

namespace SeedSync.Progressive

variable {sha256 : List StreamRecord → Digest} {e : PairEvent} {s : PairState} {p : PairId}

/-! ## Held digests are those of the committed trees -/

/-- Every held digest is the fingerprint of the committed root. -/
def HintsCurrent (sha256 : List StreamRecord → Digest) (s : PairState) : Prop :=
  ∀ name digest, s.committedRootFingerprints name = some digest →
    ∃ root, s.committed name = some root ∧ streamRootFingerprint sha256 root = digest

/-- No root comes both as a marker and in full. -/
def PairEvent.MarkersApart (e : PairEvent) : Prop :=
  ∀ m ∈ e.markers, ∀ f ∈ e.files, f.name ≠ m.1

theorem HintsCurrent.of_core {s' : PairState} (h : HintsCurrent sha256 s)
    (hc : s'.committed = s.committed) (hf : s'.committedRootFingerprints = s.committedRootFingerprints) :
    HintsCurrent sha256 s' := by
  intro name digest hd
  rw [hf] at hd
  rw [hc]
  exact h name digest hd

theorem HintsCurrent.of_dropped (h : s.committedRootFingerprints = fun _ => none) : HintsCurrent sha256 s := by
  intro name digest hd
  rw [h] at hd
  cases hd

/-- A marked root keeps its tree. -/
theorem snapshotRoots_marked {prot : String → Bool} {m : String × Digest} (hm : m ∈ e.markers)
    (hapart : e.MarkersApart) : snapshotRoots e prot s m.1 = s.committed m.1 := by
  have hnone : SystemFile.childNamed e.files m.1 = none :=
    SystemFile.childNamed_eq_none (fun f hf => hapart m hm f hf)
  have hmem : m.1 ∈ e.markers.map Prod.fst := List.mem_map_of_mem hm
  simp only [snapshotRoots, hnone, if_pos hmem]
  split_ifs <;> simp

theorem commit_hintsCurrent {prot : String → Bool} (h : HintsCurrent sha256 s) (hapart : e.MarkersApart)
    (hfull : e.fullSnapshot = true) (hm : ∀ m ∈ e.markers, MarkerHolds s m) :
    HintsCurrent sha256 (commitSnapshot sha256 e
      (admitMarkers e (admitManifest e prot (rebuildWorking e prot s))).retained (beforeCommit e prot s)) := by
  intro name digest hd
  rw [commitSnapshot_fingerprints prot hfull hm name] at hd
  rw [commitSnapshot_committed prot _ hfull hm]
  obtain ⟨file, hfile, hd⟩ := Option.bind_eq_some_iff.mp hd
  split_ifs at hd with hmem
  · obtain ⟨m, hm1, rfl⟩ := List.mem_map.mp hmem
    rw [snapshotRoots_marked hm1 hapart]
    exact h m.1 digest hd
  · exact ⟨file, hfile, by simpa using hd⟩

theorem stepPair_hintsCurrent (h : HintsCurrent sha256 s) (hapart : e.MarkersApart) :
    HintsCurrent sha256 (stepPair sha256 e s).1 := by
  by_cases hs : e.generation < s.previousGeneration
  · rw [stepPair_stale hs]; exact h
  have haccept : HintsCurrent sha256 (acceptGeneration e s) :=
    h.of_core (acceptGeneration_committed e s) (acceptGeneration_fingerprints e s)
  cases hf : e.failed with
  | true => rw [stepPair_failed hs hf]; exact HintsCurrent.of_dropped rfl
  | false =>
    rw [stepPair_admitted hs hf]
    by_cases hbad : e.fullSnapshot = true ∧ ∃ m ∈ e.markers, ¬ MarkerHolds (acceptGeneration e s) m
    · rw [admitSnapshot_rejected _ hbad.1 hbad.2]; exact HintsCurrent.of_dropped rfl
    · have hm : e.fullSnapshot = true → ∀ m ∈ e.markers, MarkerHolds (acceptGeneration e s) m :=
        fun hfull m hmem => by
          by_contra hn
          exact hbad ⟨hfull, m, hmem, hn⟩
      rw [admitSnapshot_admitted _ hm]
      split_ifs with hh
      · obtain ⟨hfull, -⟩ := e.healthy_full hh
        exact commit_hintsCurrent haccept hapart hfull (hm hfull)
      · have hcore := beforeCommit_core e (protectedRoot e (releaseFences e s)) (acceptGeneration e s)
        exact haccept.of_core hcore.committed hcore.fingerprints

/-- The drains whose events send no root both as a marker and in full, as the stream decoder ensures. -/
def SendsApart (acc : ScanAccumulator) : Call → Prop
  | .apply events configured => ∀ event ∈ drainAccepted acc events,
      ∀ p ∈ (scopeOf acc events configured).pairIds event,
        (event.forPair ((scopeOf acc events configured).pairIds event) p).MarkersApart
  | _ => True

theorem run_hintsCurrent {acc acc' : ScanAccumulator} (hrun : RunsTo sha256 SendsApart acc acc')
    (h : HintsCurrent sha256 (acc.pairs p)) : HintsCurrent sha256 (acc'.pairs p) := by
  apply hrun.invariant (fun acc => HintsCurrent sha256 (acc.pairs p)) h
  intro acc call hcall hm
  rcases call.drain_or_not with ⟨events, configured, rfl⟩ | happly
  · apply apply_invariant (fun s => HintsCurrent sha256 s)
    · intro a b hab ha
      rw [hab.eq_with]; exact ha
    · exact hm
    · intro pairs event hmem hpair
      rcases @stepPairs_cases sha256 (scopeOf acc events configured) pairs event p with
        ⟨hp, heq⟩ | ⟨-, heq⟩ | ⟨-, heq⟩
      · rw [heq]; exact stepPair_hintsCurrent hpair (hcall event hmem p hp)
      · rw [heq]; exact HintsCurrent.of_dropped rfl
      · rw [heq]; exact hpair
  · obtain ⟨base, fences, hbase, hnew⟩ := run_pair_cases sha256 acc call happly p
    have hb : HintsCurrent sha256 { base with moveInvalidations := fences } := by
      rcases hbase with rfl | ⟨-, rfl⟩
      · exact hm
      · exact HintsCurrent.of_dropped rfl
    rcases hnew with heq | ⟨root, segments, -, heq⟩
    · rw [heq]; exact hb
    · -- A prune drops the digest of its root and leaves the other roots alone.
      rw [heq]
      intro name digest hd
      by_cases hn : name = root
      · subst hn; simp [prunePair] at hd
      · simp only [prunePair, pruneRoots, Function.update_of_ne hn] at hd ⊢
        exact hb name digest hd

/-! ## A completion, by what it commits -/

theorem releaseFences_healthy {f h : PairEvent} (hg : h.generation = f.generation) (hf : f.healthy = true)
    (hh : h.healthy = true) (s : PairState) : releaseFences h s = releaseFences f s := by
  unfold releaseFences releasesDeletion releasesMove
  simp [hg, hf, hh]

theorem protectedRoot_healthy {f h : PairEvent} (hg : h.generation = f.generation) (hf : f.healthy = true)
    (hh : h.healthy = true) (s : PairState) :
    protectedRoot h (releaseFences h s) = protectedRoot f (releaseFences f s) := by
  funext name
  rw [releaseFences_healthy hg hf hh]
  unfold protectedRoot protects
  simp [hg, hf, hh]

/-- A completion with matching markers: the committed roots, their digests and the snapshot. -/
theorem stepPair_completion (hs : ¬ e.generation < s.previousGeneration) (hh : e.healthy = true)
    (hm : ∀ m ∈ e.markers, MarkerHolds s m) :
    let prot := protectedRoot e (releaseFences e s)
    let new := (stepPair sha256 e s).1
    new.committed = snapshotRoots e prot s ∧ new.visible = snapshotRoots e prot s ∧
      ∀ name, new.committedRootFingerprints name = (snapshotRoots e prot s name).bind (fun file =>
        if name ∈ e.markers.map Prod.fst then s.committedRootFingerprints name
        else some (streamRootFingerprint sha256 file)) := by
  obtain ⟨hfull, hfail⟩ := e.healthy_full hh
  have hc := acceptGeneration_committed e s
  have hfp := acceptGeneration_fingerprints e s
  have hm' : ∀ m ∈ e.markers, MarkerHolds (acceptGeneration e s) m := by
    intro m hmem
    unfold MarkerHolds
    rw [hc, hfp]
    exact hm m hmem
  have hroots : snapshotRoots e (protectedRoot e (releaseFences e s)) (acceptGeneration e s) =
      snapshotRoots e (protectedRoot e (releaseFences e s)) s := by
    funext name; simp only [snapshotRoots, hc]
  dsimp only
  rw [stepPair_admitted hs hfail, admitSnapshot_admitted _ (fun _ => hm'), if_pos hh]
  refine ⟨?_, ?_, ?_⟩
  · rw [commitSnapshot_committed _ _ hfull hm', hroots]
  · -- The working roots of the new generation are the committed ones.
    funext name
    have hgen := acceptGeneration_generation hs
    have hactive := (beforeCommit_core e (protectedRoot e (releaseFences e s)) (acceptGeneration e s)).generation
    unfold PairState.visible
    rw [commitSnapshot_committed _ _ hfull hm', hroots]
    simp only [PairState.previousGeneration] at hgen
    simp only [commitSnapshot, hactive]
    cases ha : (acceptGeneration e s).activeGeneration with
    | none => rfl
    | some g =>
      rw [ha] at hgen
      simp only [Option.getD_some] at hgen
      subst hgen
      have hw := congrFun (@commitSnapshot_working sha256 e _ (protectedRoot e (releaseFences e s))
        (admitMarkers e (admitManifest e (protectedRoot e (releaseFences e s))
          (rebuildWorking e (protectedRoot e (releaseFences e s)) (acceptGeneration e s)))).retained hfull hm') name
      rw [hroots] at hw
      simp only [commitSnapshot] at hw
      dsimp only
      rw [hw]
      split_ifs
      · rfl
      · cases snapshotRoots e (protectedRoot e (releaseFences e s)) s name <;> rfl
  · intro name
    rw [commitSnapshot_fingerprints _ hfull hm' name, hroots, hfp]

/-! ## The hinted form of a snapshot -/

/-- The root has the digest that is held for it, so the stream sends a marker in its place. -/
def rootUnchanged (sha256 : List StreamRecord → Digest) (held : String → Option Digest) (root : SystemFile) : Bool :=
  decide (held root.name = some (streamRootFingerprint sha256 root))

/-- Two completions for the same roots: one sends all of them, the other markers where it can. -/
structure HintedPair (sha256 : List StreamRecord → Digest) (held : String → Option Digest) (roots : List SystemFile)
    (full hinted : PairEvent) : Prop where
  generation : hinted.generation = full.generation
  full_healthy : full.healthy = true
  hinted_healthy : hinted.healthy = true
  full_files : full.files = roots
  full_markers : full.markers = []
  hinted_files : hinted.files = roots.filter (fun root => !rootUnchanged sha256 held root)
  hinted_markers : hinted.markers = (roots.filter (rootUnchanged sha256 held)).map
    (fun root => (root.name, streamRootFingerprint sha256 root))

namespace HintedPair

variable {roots : List SystemFile} {full hinted : PairEvent}
  (hp : HintedPair sha256 s.committedRootFingerprints roots full hinted)

include hp in
theorem markers_hold (h : HintsCurrent sha256 s) : ∀ m ∈ hinted.markers, MarkerHolds s m := by
  intro m hm
  rw [hp.hinted_markers] at hm
  obtain ⟨root, hroot, rfl⟩ := List.mem_map.mp hm
  have hheld : s.committedRootFingerprints root.name = some (streamRootFingerprint sha256 root) := by
    simpa [rootUnchanged] using (List.mem_filter.mp hroot).2
  obtain ⟨old, hold, -⟩ := h _ _ hheld
  exact ⟨by rw [hold]; rfl, hheld⟩

include hp in
theorem marked_iff (name : String) : name ∈ hinted.markers.map Prod.fst ↔
    ∃ root ∈ roots, root.name = name ∧ rootUnchanged sha256 s.committedRootFingerprints root = true := by
  rw [hp.hinted_markers, List.map_map]
  simp only [List.mem_map, List.mem_filter, Function.comp]
  constructor
  · rintro ⟨root, ⟨hr, hu⟩, rfl⟩; exact ⟨root, hr, rfl, hu⟩
  · rintro ⟨root, hr, rfl, hu⟩; exact ⟨root, ⟨hr, hu⟩, rfl⟩

include hp in
theorem markersApart (hnodup : (roots.map (·.name)).Nodup) : hinted.MarkersApart := by
  intro m hm f hf hn
  obtain ⟨root, hr, hname, hu⟩ := (hp.marked_iff m.1).mp (List.mem_map_of_mem hm)
  rw [hp.hinted_files] at hf
  obtain ⟨hmem, hnot⟩ := List.mem_filter.mp hf
  rw [List.inj_on_of_nodup_map hnodup hmem hr (hn.trans hname.symm), hu] at hnot
  cases hnot

include hp in
/-- Both forms commit a tree of the same digest, or none. -/
theorem roots_related (h : HintsCurrent sha256 s) (hnodup : (roots.map (·.name)).Nodup) (prot : String → Bool)
    (name : String) :
    (snapshotRoots hinted prot s name).map (streamRootFingerprint sha256) =
      (snapshotRoots full prot s name).map (streamRootFingerprint sha256) := by
  by_cases hprot : prot name = true
  · simp [snapshotRoots, hprot]
  simp only [snapshotRoots, if_neg hprot, hp.full_files, hp.full_markers, List.map_nil, List.not_mem_nil, if_false,
    Option.or_none]
  by_cases hroot : ∃ root ∈ roots, root.name = name
  · obtain ⟨root, hr, rfl⟩ := hroot
    rw [SystemFile.childNamed_of_mem hnodup hr]
    by_cases hu : rootUnchanged sha256 s.committedRootFingerprints root = true
    · -- The root is marked, and its committed tree has the digest of the new one.
      have hmem : root.name ∈ hinted.markers.map Prod.fst := (hp.marked_iff _).mpr ⟨root, hr, rfl, hu⟩
      obtain ⟨m, hm, hmn⟩ := List.mem_map.mp hmem
      have hnone : SystemFile.childNamed hinted.files root.name = none :=
        SystemFile.childNamed_eq_none (fun f hf => hmn ▸ hp.markersApart hnodup m hm f hf)
      obtain ⟨old, hold, hdigest⟩ := h root.name (streamRootFingerprint sha256 root) (by simpa [rootUnchanged] using hu)
      simp [hnone, hmem, hold, hdigest]
    · have hfile : SystemFile.childNamed hinted.files root.name = some root := by
        rw [hp.hinted_files]
        apply SystemFile.childNamed_of_mem (hnodup.sublist (List.filter_sublist.map _))
        exact List.mem_filter.mpr ⟨hr, by simp [hu]⟩
      simp [hfile]
  · have habs : ∀ root ∈ roots, root.name ≠ name := fun root hr hn => hroot ⟨root, hr, hn⟩
    have hunmarked : name ∉ hinted.markers.map Prod.fst := fun hmem => by
      obtain ⟨root, hr, hn, -⟩ := (hp.marked_iff name).mp hmem
      exact habs root hr hn
    have hnone : SystemFile.childNamed hinted.files name = none := by
      rw [hp.hinted_files]
      exact SystemFile.childNamed_eq_none (fun f hf => habs f (List.mem_filter.mp hf).1)
    simp [hnone, hunmarked, SystemFile.childNamed_eq_none habs]

include hp in
/-- The digests that the hinted form leaves are those of the trees that it commits. -/
theorem digests_current (h : HintsCurrent sha256 s) (hnodup : (roots.map (·.name)).Nodup) (prot : String → Bool)
    (name : String) :
    (snapshotRoots hinted prot s name).bind (fun file =>
        if name ∈ hinted.markers.map Prod.fst then s.committedRootFingerprints name
        else some (streamRootFingerprint sha256 file)) =
      (snapshotRoots hinted prot s name).map (streamRootFingerprint sha256) := by
  by_cases hmem : name ∈ hinted.markers.map Prod.fst
  · obtain ⟨m, hm, rfl⟩ := List.mem_map.mp hmem
    have hheld := (hp.markers_hold h m hm).2
    obtain ⟨old, hold, hdigest⟩ := h _ _ hheld
    rw [snapshotRoots_marked hm (hp.markersApart hnodup), hold]
    simp [hmem, hheld, hdigest]
  · cases snapshotRoots hinted prot s name <;> simp [hmem]

include hp in
/-- The two forms commit the same trees, up to the fields that are not streamed, and hold the same digests. -/
theorem stepPair_same (hinj : ∀ a b, streamRootFingerprint sha256 a = streamRootFingerprint sha256 b →
      streamRecords a = streamRecords b)
    (h : HintsCurrent sha256 s) (hnodup : (roots.map (·.name)).Nodup) (name : String) :
    let f := (stepPair sha256 full s).1
    let g := (stepPair sha256 hinted s).1
    (g.committed name).map SystemFile.streamed = (f.committed name).map SystemFile.streamed ∧
      (g.visible name).map SystemFile.streamed = (f.visible name).map SystemFile.streamed ∧
      g.committedRootFingerprints name = f.committedRootFingerprints name := by
  dsimp only
  by_cases hs : full.generation < s.previousGeneration
  · rw [stepPair_stale hs, stepPair_stale (by rw [hp.generation]; exact hs)]
    exact ⟨rfl, rfl, rfl⟩
  have hs' : ¬ hinted.generation < s.previousGeneration := by rw [hp.generation]; exact hs
  obtain ⟨fc, fv, ff⟩ := @stepPair_completion sha256 full s hs hp.full_healthy (by rw [hp.full_markers]; simp)
  obtain ⟨gc, gv, gf⟩ := @stepPair_completion sha256 hinted s hs' hp.hinted_healthy (hp.markers_hold h)
  rw [protectedRoot_healthy hp.generation hp.full_healthy hp.hinted_healthy] at gc gv gf
  rw [fc, fv, ff, gc, gv, gf, hp.digests_current h hnodup]
  have hsame := hp.roots_related h hnodup (protectedRoot full (releaseFences full s)) name
  have htrees : (snapshotRoots hinted (protectedRoot full (releaseFences full s)) s name).map SystemFile.streamed =
      (snapshotRoots full (protectedRoot full (releaseFences full s)) s name).map SystemFile.streamed := by
    revert hsame
    cases snapshotRoots hinted (protectedRoot full (releaseFences full s)) s name <;>
      cases snapshotRoots full (protectedRoot full (releaseFences full s)) s name <;> simp
    exact fun hd => streamRecords_injective _ _ (hinj _ _ hd)
  refine ⟨htrees, htrees, ?_⟩
  rw [hsame, hp.full_markers]
  cases snapshotRoots full (protectedRoot full (releaseFences full s)) s name <;> simp

end HintedPair

/-! ## Whole events -/

/-- A full snapshot of the pair, in full and with markers. Markers travel on the progress path only. -/
structure HintedForm (sha256 : List StreamRecord → Digest) (held : String → Option Digest) (scope : DrainScope)
    (p : PairId) (roots : List SystemFile) (full hinted : ScannerResult) : Prop where
  header : hinted = { full with
    files := hinted.files
    unchangedRootFingerprintsByPair := hinted.unchangedRootFingerprintsByPair }
  isProgress : full.isProgress = true
  completes : full.isAuthoritativeCompletion p = true
  full_files : (full.forPair (scope.pairIds full) p).files = roots
  full_markers : full.markersFor p = []
  hinted_files : (hinted.forPair (scope.pairIds hinted) p).files =
    roots.filter (fun root => !rootUnchanged sha256 held root)
  hinted_markers : hinted.markersFor p = (roots.filter (rootUnchanged sha256 held)).map
    (fun root => (root.name, streamRootFingerprint sha256 root))

theorem HintedForm.pair {held : String → Option Digest} {scope : DrainScope} {roots : List SystemFile}
    {full hinted : ScannerResult} (h : HintedForm sha256 held scope p roots full hinted) :
    HintedPair sha256 held roots (full.forPair (scope.pairIds full) p) (hinted.forPair (scope.pairIds hinted) p) where
  generation := by rw [h.header]; rfl
  full_healthy := h.completes
  hinted_healthy := by rw [h.header]; exact h.completes
  full_files := h.full_files
  full_markers := h.full_markers
  hinted_files := h.hinted_files
  hinted_markers := h.hinted_markers

/-- One event that completes a pair touches no other pair. -/
theorem stepPairs_not_failed {scope : DrainScope} {pairs : PairId → PairState} {event : ScannerResult}
    (hf : event.failed = false) :
    scope.stepPairs sha256 pairs event p = if p ∈ scope.pairIds event
      then (stepPair sha256 (event.forPair (scope.pairIds event) p) (pairs p)).1 else pairs p := by
  unfold DrainScope.stepPairs
  have hanon : anonymousFailure sha256 scope pairs event ≠ true := fun h => by
    rw [anonymousFailure_failed h] at hf
    cases hf
  rw [if_neg hanon]

theorem drainAccepted_single (acc : ScanAccumulator) {event : ScannerResult} (h : event.isProgress = true) :
    drainAccepted acc [event] = if (openDrain acc [event]).sessionToken = none ∨
      event.sessionToken = (openDrain acc [event]).sessionToken then [event] else [] := by
  unfold drainAccepted acceptedEvents
  by_cases hs : (openDrain acc [event]).sessionToken = none ∨
      event.sessionToken = (openDrain acc [event]).sessionToken
  · simp [hs, ScannerResult.admitted, h]
  · simp [hs]

/-- The three things that the claim compares. -/
def SameStreamed (a b : PairState) (name : String) : Prop :=
  (a.committed name).map SystemFile.streamed = (b.committed name).map SystemFile.streamed ∧
    (a.visible name).map SystemFile.streamed = (b.visible name).map SystemFile.streamed ∧
    a.committedRootFingerprints name = b.committedRootFingerprints name

theorem SameStreamed.of_stored {a b c d : PairState} {name : String} (hac : Stored a c) (hbd : Stored b d)
    (h : SameStreamed c d name) : SameStreamed a b name := by
  rw [hac.eq_with, hbd.eq_with] at h; exact h

theorem HintedForm.apply_same {acc : ScanAccumulator} {configured : List String} {roots : List SystemFile}
    {full hinted : ScannerResult}
    (hinj : ∀ a b, streamRootFingerprint sha256 a = streamRootFingerprint sha256 b → streamRecords a = streamRecords b)
    (hcur : HintsCurrent sha256 (acc.pairs p)) (hnodup : (roots.map (·.name)).Nodup)
    (h : HintedForm sha256 (acc.pairs p).committedRootFingerprints (scopeOf acc [full] configured) p roots full hinted)
    (name : String) :
    SameStreamed ((apply sha256 acc [hinted] configured).1.pairs p) ((apply sha256 acc [full] configured).1.pairs p)
      name := by
  have hprogress : hinted.isProgress = true := by rw [h.header]; exact h.isProgress
  have hopen : openDrain acc [hinted] = openDrain acc [full] := by rw [h.header]; rfl
  have htoken : hinted.sessionToken = full.sessionToken := by rw [h.header]
  have hfail : full.failed = false := by
    have hc := h.completes
    simp only [ScannerResult.isAuthoritativeCompletion, Bool.and_eq_true, Bool.not_eq_true'] at hc
    exact hc.1.1.1.1
  have hfail' : hinted.failed = false := by rw [h.header]; exact hfail
  refine SameStreamed.of_stored (apply_stored acc [hinted] configured p) (apply_stored acc [full] configured p) ?_
  have hfull := drainAccepted_single acc h.isProgress
  have hhint := drainAccepted_single acc hprogress
  rw [hopen, htoken] at hhint
  by_cases hs : (openDrain acc [full]).sessionToken = none ∨
      full.sessionToken = (openDrain acc [full]).sessionToken
  · rw [if_pos hs] at hfull hhint
    have hscope : scopeOf acc [hinted] configured = scopeOf acc [full] configured := by
      unfold scopeOf
      rw [hfull, hhint, hopen, h.header]
      rfl
    have hids : (scopeOf acc [full] configured).pairIds hinted = (scopeOf acc [full] configured).pairIds full := by
      rw [h.header]; rfl
    rw [hfull, hhint]
    unfold pairsAfter
    rw [hscope, hopen]
    simp only [List.foldl_cons, List.foldl_nil]
    rw [stepPairs_not_failed hfail, stepPairs_not_failed hfail', hids]
    split_ifs
    · have hst := openDrain_stored acc [full] p
      have hfp : ((openDrain acc [full]).pairs p).committedRootFingerprints =
          (acc.pairs p).committedRootFingerprints := by rw [hst.symm.eq_with]
      have hpair := h.pair
      rw [← hfp, hids] at hpair
      exact hpair.stepPair_same hinj (by rw [hst.symm.eq_with]; exact hcur) hnodup name
    · exact ⟨rfl, rfl, rfl⟩
  · rw [if_neg hs] at hfull hhint
    rw [hfull, hhint]
    unfold pairsAfter
    rw [hopen]
    exact ⟨rfl, rfl, rfl⟩

/-- A marker that does not hold: the committed roots stay and the digests of the pair are dropped. -/
theorem stepPair_mismatch (hs : s.previousGeneration ≤ e.generation) (hfull : e.fullSnapshot = true)
    (hfail : e.failed = false) (hbad : ∃ m ∈ e.markers, ¬ MarkerHolds s m) :
    (stepPair sha256 e s).1.committed = s.committed ∧
      (stepPair sha256 e s).1.committedRootFingerprints = fun _ => none := by
  have hbad' : ∃ m ∈ e.markers, ¬ MarkerHolds (acceptGeneration e s) m := by
    obtain ⟨m, hm, hn⟩ := hbad
    refine ⟨m, hm, ?_⟩
    unfold MarkerHolds at hn ⊢
    rwa [acceptGeneration_committed, acceptGeneration_fingerprints]
  have hcore := (markers_core e (protectedRoot e (releaseFences e s)) (acceptGeneration e s)).trans
    (admitMarkers_core e _)
  rw [stepPair_admitted (Int.not_lt.mpr hs) hfail, admitSnapshot_rejected _ hfull hbad']
  exact ⟨hcore.committed.trans (acceptGeneration_committed e s), rfl⟩

/-- A full snapshot of the pair `a` in generation 5, with one root. -/
def rootSnapshot : ScannerResult :=
  { files := [.mk { name := "root", size := 1, pathPairId := some "a" } []]
    scannedPathPairIds := [some "a"]
    generation := 5
    isProgress := true
    completedPathPairIds := [some "a"]
    sessionToken := some "session"
    isFullSnapshot := true
    fullSnapshotPathPairIds := [some "a"] }

/-- An older snapshot of `a` with a marker that no digest matches. -/
def staleMarkers : ScannerResult :=
  { files := []
    scannedPathPairIds := [some "a"]
    generation := 4
    isProgress := true
    completedPathPairIds := [some "a"]
    sessionToken := some "session"
    isFullSnapshot := true
    fullSnapshotPathPairIds := [some "a"]
    unchangedRootFingerprintsByPair := [(some "a", [("other", "unknown")])] }

end SeedSync.Progressive
