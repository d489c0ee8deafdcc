import SeedSync.Progressive.Cuts
import SeedSync.Scan.Publication
import SeedSync.Scan.Worker

/-!
# From a scan to the committed inventory

The results of one scan go through the bounded queue into the accumulator, in whatever
interleaving. Once the queue is empty the committed roots of a scanned pair are those of the scan.
-/

open SeedSync.Lib SeedSync.Lib.Dict

namespace SeedSync.Progressive

variable {sha256 : List StreamRecord → Digest}

/-! ## Fences do not grow -/

section
variable {e : PairEvent} {s : PairState} {r : String}

theorem releaseFences_subset {t : Nat × Invalidation} (h : t ∈ (releaseFences e s).moveInvalidations r) :
    t ∈ s.moveInvalidations r :=
  List.mem_of_mem_filter (List.mem_of_mem_filter h)

theorem stepPair_fences_subset {t : Nat × Invalidation} (h : t ∈ (stepPair sha256 e s).1.moveInvalidations r) :
    t ∈ s.moveInvalidations r := by
  by_cases hs : e.generation < s.previousGeneration
  · rwa [stepPair_stale hs] at h
  · have haccept : ∀ t', t' ∈ (acceptGeneration e s).moveInvalidations r → t' ∈ s.moveInvalidations r := by
      intro t' ht
      rw [acceptGeneration_fences] at ht
      exact releaseFences_subset ht
    cases hf : e.failed with
    | true =>
      rw [stepPair_failed hs hf] at h
      exact haccept t h
    | false =>
      rw [stepPair_admitted hs hf] at h
      apply haccept
      generalize acceptGeneration e s = accepted at h
      generalize protectedRoot e (releaseFences e s) = prot at h
      by_cases hbad : e.fullSnapshot = true ∧ ∃ m ∈ e.markers, ¬ MarkerHolds accepted m
      · rw [admitSnapshot_rejected prot hbad.1 hbad.2] at h
        have hcore := (markers_core e prot accepted).trans (admitMarkers_core e _)
        rwa [rejectMarkers, hcore.fences] at h
      · rw [admitSnapshot_admitted prot (fun hfull m hm => by
          by_contra hn
          exact hbad ⟨hfull, m, hm, hn⟩)] at h
        have hcore := beforeCommit_core e prot accepted
        split_ifs at h
        · simp only [commitSnapshot, hcore.fences] at h
          exact List.mem_of_mem_filter h
        · rwa [hcore.fences] at h

end

/-! ## One pair through the run -/

section
variable (p : PairId) (g : Int) (files : List SystemFile) (markers : List (String × Digest))

/-- The event completes the pair with these roots and markers. -/
structure Completes (e : PairEvent) : Prop where
  generation : e.generation = g
  healthy : e.healthy = true
  files : ∀ name, SystemFile.childNamed e.files name = SystemFile.childNamed files name
  markers : e.markers = markers

/-- Progress that neither fails nor completes anything. -/
def Quiet (e : PairEvent) : Prop := e.failed = false ∧ e.fullSnapshot = false

/-- What may come before the pair is complete, and again after it: progress, the completion itself,
and anything of an older scan unless markers rest on what is committed. -/
def Expected (e : PairEvent) : Prop :=
  (e.generation ≤ g ∧ Quiet e) ∨ Completes g files markers e ∨ (e.generation < g ∧ markers = [])

/-- The roots that the markers stand for are still the old ones. -/
structure Awaiting (old : Roots) (name : String) (s : PairState) : Prop where
  generation : s.previousGeneration ≤ g
  unfenced : s.moveInvalidations name = []
  holds : ∀ m ∈ markers, MarkerHolds s m
  old : ∀ m ∈ markers, s.committed m.1 = old m.1

/-- The root of that name is the one of the scan. -/
def Arrived (old : Roots) (name : String) (s : PairState) : Prop :=
  s.previousGeneration = g ∧ s.committed name =
    (SystemFile.childNamed files name).or (if name ∈ markers.map Prod.fst then old name else none)

variable {p g files markers} {old : Roots} {name : String} {e : PairEvent} {s : PairState}

theorem unfenced_step (h : s.moveInvalidations name = []) : (stepPair sha256 e s).1.moveInvalidations name = [] :=
  List.eq_nil_iff_forall_not_mem.mpr (fun t ht => by
    have := stepPair_fences_subset ht
    rw [h] at this
    cases this)

theorem protectedRoot_unfenced (h : s.moveInvalidations name = []) : protectedRoot e (releaseFences e s) name = false := by
  simp [protectedRoot, releaseFences, h]

variable (sha256 files) in
/-- Progress changes neither what the markers rest on nor what has arrived. -/
theorem Awaiting.quiet (hw : Awaiting g markers old name s) (hq : Quiet e) (hg : e.generation ≤ g)
    (hs : ¬ e.generation < s.previousGeneration) :
    Awaiting g markers old name (stepPair sha256 e s).1 ∧
      (Arrived g files markers old name s → Arrived g files markers old name (stepPair sha256 e s).1) := by
  have hh : e.healthy = false := by
    by_contra hne
    have := (e.healthy_full (by simpa using hne)).1
    rw [hq.2] at this
    cases this
  obtain ⟨hc, hfp⟩ := @stepPair_quiet sha256 e s hs hq.1 hh (by rw [hq.2]; simp)
  have hgen := @stepPair_previousGeneration sha256 e s hs
  refine ⟨⟨by rw [hgen]; exact hg, unfenced_step hw.unfenced, ?_, ?_⟩, ?_⟩
  · intro m hm
    unfold MarkerHolds
    rw [hc, hfp]
    exact hw.holds m hm
  · intro m hm
    rw [hc]
    exact hw.old m hm
  · rintro ⟨hprev, hcommitted⟩
    exact ⟨by rw [hgen]; omega, by rw [hc]; exact hcommitted⟩

variable (sha256) in
/-- The completion brings the roots of the scan and leaves the marked ones. -/
theorem Awaiting.completes (hw : Awaiting g markers old name s) (he : Completes g files markers e)
    (hmarked : ∀ m ∈ markers, SystemFile.childNamed files m.1 = none) :
    Awaiting g markers old name (stepPair sha256 e s).1 ∧ Arrived g files markers old name (stepPair sha256 e s).1 := by
  have hs : ¬ e.generation < s.previousGeneration := by
    have := hw.generation
    rw [he.generation]
    omega
  obtain ⟨hc, -, hfp⟩ := @stepPair_completion sha256 e s hs he.healthy
    (by rw [he.markers]; exact hw.holds)
  have hgen := @stepPair_previousGeneration sha256 e s hs
  have hkept : ∀ m ∈ markers, (stepPair sha256 e s).1.committed m.1 = s.committed m.1 := by
    intro m hm
    rw [hc, snapshotRoots, he.files, hmarked m hm, he.markers, if_pos (List.mem_map_of_mem hm)]
    split_ifs <;> rfl
  refine ⟨⟨by rw [hgen, he.generation], unfenced_step hw.unfenced, ?_, ?_⟩, by rw [hgen, he.generation], ?_⟩
  · intro m hm
    obtain ⟨hsome, hdigest⟩ := hw.holds m hm
    have hroots : snapshotRoots e (protectedRoot e (releaseFences e s)) s m.1 = s.committed m.1 := by
      rw [← hc]
      exact hkept m hm
    obtain ⟨root, hroot⟩ := Option.isSome_iff_exists.mp hsome
    refine ⟨by rw [hkept m hm]; exact hsome, ?_⟩
    rw [hfp, hroots, hroot, Option.bind_some, he.markers, if_pos (List.mem_map_of_mem hm)]
    exact hdigest
  · intro m hm
    rw [hkept m hm]
    exact hw.old m hm
  · rw [hc, snapshotRoots, protectedRoot_unfenced hw.unfenced, he.files, he.markers]
    simp only [Bool.false_eq_true, if_false]
    split_ifs with hmem
    · obtain ⟨m, hm, rfl⟩ := List.mem_map.mp hmem
      rw [hw.old m hm]
    · rfl

variable (sha256) in
theorem Awaiting.step (hw : Awaiting g markers old name s) (he : Expected g files markers e)
    (hmarked : ∀ m ∈ markers, SystemFile.childNamed files m.1 = none) :
    Awaiting g markers old name (stepPair sha256 e s).1 ∧
      (Arrived g files markers old name s ∨ Completes g files markers e →
        Arrived g files markers old name (stepPair sha256 e s).1) := by
  by_cases hcomplete : Completes g files markers e
  · obtain ⟨hw', ha⟩ := hw.completes sha256 hcomplete hmarked
    exact ⟨hw', fun _ => ha⟩
  by_cases hs : e.generation < s.previousGeneration
  · rw [stepPair_stale hs]
    exact ⟨hw, fun h => h.resolve_right hcomplete⟩
  rcases he with ⟨hg, hq⟩ | he | ⟨hg, rfl⟩
  · obtain ⟨hw', ha⟩ := hw.quiet sha256 files hq hg hs
    exact ⟨hw', fun h => ha (h.resolve_right hcomplete)⟩
  · exact absurd he hcomplete
  · have hgen := @stepPair_previousGeneration sha256 e s hs
    refine ⟨⟨by rw [hgen]; omega, unfenced_step hw.unfenced, by simp, by simp⟩, ?_⟩
    rintro (⟨hprev, -⟩ | h)
    · omega
    · exact absurd h hcomplete

variable (sha256 files) in
/-- In any order, once the completion is among the events the roots have arrived. -/
theorem Awaiting.run {events : List ScannerResult} {pairs : PairId → PairState}
    (hw : Awaiting g markers old name (pairs p))
    (hmarked : ∀ m ∈ markers, SystemFile.childNamed files m.1 = none)
    (he : ∀ event ∈ events, p ∈ namedPairs event → Expected g files markers (event.forPair (namedPairs event) p)) :
    Awaiting g markers old name (events.foldl (stepNamed sha256) pairs p) ∧
      ((Arrived g files markers old name (pairs p) ∨ ∃ event ∈ events, p ∈ namedPairs event ∧
          Completes g files markers (event.forPair (namedPairs event) p)) →
        Arrived g files markers old name (events.foldl (stepNamed sha256) pairs p)) := by
  induction events generalizing pairs with
  | nil => exact ⟨hw, by simp⟩
  | cons event events ih =>
    have hrest := fun event' hmem => he event' (List.mem_cons_of_mem event hmem)
    by_cases hname : p ∈ namedPairs event
    · have hnew : stepNamed sha256 pairs event p = (stepPair sha256 (event.forPair (namedPairs event) p) (pairs p)).1 :=
        if_pos hname
      obtain ⟨hw', ha⟩ := hw.step sha256 (he event List.mem_cons_self hname) hmarked
      rw [← hnew] at hw' ha
      obtain ⟨hw'', hlast⟩ := ih hw' hrest
      refine ⟨hw'', fun h => hlast ?_⟩
      rcases h with h | ⟨event', hmem, hnamed, hc⟩
      · exact Or.inl (ha (Or.inl h))
      · rcases List.mem_cons.mp hmem with rfl | hmem
        · exact Or.inl (ha (Or.inr hc))
        · exact Or.inr ⟨event', hmem, hnamed, hc⟩
    · have hnew : stepNamed sha256 pairs event p = pairs p := if_neg hname
      rw [← hnew] at hw
      obtain ⟨hw'', hlast⟩ := ih hw hrest
      refine ⟨hw'', fun h => hlast ?_⟩
      rcases h with h | ⟨event', hmem, hnamed, hc⟩
      · rw [hnew]
        exact Or.inl h
      · rcases List.mem_cons.mp hmem with rfl | hmem
        · exact absurd hnamed hname
        · exact Or.inr ⟨event', hmem, hnamed, hc⟩

end

/-! ## The results of one scan -/

/-- The roots that a scan returns for the pair. -/
def rootsOf (p : PairId) (roots : List SystemFile) : List SystemFile :=
  roots.filter (fun root => decide (root.pathPairId = p))

/-- What a scanner keeps to: the ids that it names, a completion as the last call of its pair, and roots
that it returns as it streamed them, or marks as unchanged instead. -/
structure Orderly (p : PairId) (calls : List ProgressCall) (roots : List SystemFile) (ids : List PairId) : Prop where
  named : none ∉ ids
  scanned : p ∈ ids
  concrete : ∀ call ∈ calls, call.pathPairId ≠ none
  last : ∀ before call after, calls = before ++ call :: after → call.pathPairId = p → call.complete = true →
    ∀ later ∈ after, later.pathPairId ≠ p
  tagged : ∀ root ∈ roots, root.pathPairId ∈ ids
  returned : ∀ call ∈ calls, call.pathPairId = p → call.complete = true → ∀ name,
    SystemFile.childNamed (streamed p calls) name = SystemFile.childNamed (rootsOf p roots) name
  unmarked : ∀ m ∈ marked p calls, SystemFile.childNamed (rootsOf p roots) m.1 = none

section
variable {p : PairId} {run : ScanRun} {calls : List ProgressCall} {roots : List SystemFile} {ids : List PairId}
  {malformed managed : List String}

theorem namedPairs_single {event : ScannerResult} {pair : PairId} (hf : event.failed = false)
    (hp : event.scannedPathPairIds = [pair]) : namedPairs event = [pair] := by
  simp [namedPairs, hf, hp]

theorem progress_expected {call : ProgressCall} (g : Int) (hg : run.generation = g) (files : List SystemFile)
    (markers : List (String × Digest)) :
    Expected g files markers ((run.progressResult call).forPair (namedPairs (run.progressResult call)) p) :=
  Or.inl ⟨Int.le_of_eq hg, rfl, by simp [ScannerResult.forPair, ScannerResult.fullSnapshotFor, ScanRun.progressResult]⟩

/-- The snapshot that the last call of a pair sends is that of the whole scan. -/
theorem snapshot_completes (h : Orderly p calls roots ids) {before after : List ProgressCall} {call : ProgressCall}
    (hsplit : calls = before ++ call :: after) (hp : call.pathPairId = p) (hc : call.complete = true) :
    let event := run.pairSnapshot ((before ++ [call]).foldl ScanLocals.record {}) p
    Completes run.generation (rootsOf p roots) (marked p calls) (event.forPair (namedPairs event) p) := by
  have hlater := h.last before call after hsplit hp hc
  have hsplit' : calls = (before ++ [call]) ++ after := by rw [hsplit]; simp
  intro event
  have hnamed : namedPairs event = [p] := namedPairs_single rfl rfl
  refine ⟨rfl, ?_, ?_, ?_⟩
  · simp [ScannerResult.forPair, ScannerResult.isAuthoritativeCompletion, event, ScanRun.pairSnapshot]
  · intro name
    rw [← h.returned call (by rw [hsplit]; simp) hp hc name, hsplit', streamed_append, streamed_none hlater, List.append_nil]
    rw [hnamed]
    show SystemFile.childNamed ((((before ++ [call]).foldl ScanLocals.record {}).progressFilesByPair.lookup p).getD []) name = _
    rw [foldl_record_files]
    rfl
  · show (((before ++ [call]).foldl ScanLocals.record {}).unchangedRootFingerprintsByPair.lookup p).getD [] = _
    conv_rhs => rw [marked, hsplit', List.foldl_append, foldl_record_markers _ hlater]

/-- A full snapshot of all scanned pairs completes each of them with its roots. -/
theorem whole_completes (h : Orderly p calls roots ids) {event : ScannerResult} (hf : event.failed = false)
    (hfiles : event.files = roots) (hscanned : event.scannedPathPairIds = ids) (hfull : event.isFullSnapshot = true)
    (hcomplete : event.completedPathPairIds = ids) (hpairs : event.fullSnapshotPathPairIds = ids)
    (hknown : event.unknownPathPairIds = []) (hmarkers : event.markersFor p = marked p calls) :
    namedPairs event = ids.dedup ∧
      Completes event.generation (rootsOf p roots) (marked p calls) (event.forPair (namedPairs event) p) := by
  have hnamed : namedPairs event = ids.dedup := by simp [namedPairs, hf, hscanned]
  refine ⟨hnamed, rfl, ?_, ?_, hmarkers⟩
  · simp [ScannerResult.forPair, ScannerResult.isAuthoritativeCompletion, hf, hfull, hcomplete, hpairs, hknown, h.scanned]
  · intro name
    have hroots : (event.forPair (namedPairs event) p).files =
        if 1 < ids.dedup.length then rootsOf p roots else roots := by
      rw [← hnamed, ← hfiles]
      rfl
    rw [hroots]
    split_ifs with hmany
    · rfl
    · -- One scanned pair: every root is its own.
      rw [rootsOf, List.filter_eq_self.mpr]
      intro root hroot
      have hp := List.mem_dedup.mpr h.scanned
      have hq := List.mem_dedup.mpr (h.tagged root hroot)
      rcases hd : ids.dedup with _ | ⟨q, rest⟩
      · rw [hd] at hp
        cases hp
      · rw [hd, List.length_cons] at hmany
        have hnil : rest = [] := List.eq_nil_of_length_eq_zero (by omega)
        rw [hd, hnil, List.mem_singleton] at hp hq
        rw [decide_eq_true_eq, hp, hq]

/-- The last result, as the accumulator reads it. -/
theorem final_admitted (h : Orderly p calls roots ids) {last : ScannerResult}
    (hlast : run.finalResult (calls.foldl ScanLocals.record {}) (.returned roots malformed managed ids) = some last) :
    ∃ event, last.admitted = some event ∧ event.sessionToken = some run.sessionToken ∧ namedPairs event = ids.dedup ∧
      Completes run.generation (rootsOf p roots) (marked p calls) (event.forPair (namedPairs event) p) := by
  obtain rfl := (Option.some.inj hlast).symm
  have hemitted := foldl_record_emitted {} calls
  by_cases hcalls : calls = []
  · subst hcalls
    have hne : ids ≠ [] := List.ne_nil_of_mem h.scanned
    refine ⟨_, by simp only [ScannerResult.admitted, ScannerResult.legacyResultAsProgressSnapshot, hne]; rfl, rfl, ?_⟩
    exact whole_completes h rfl rfl (by simp [hne]) rfl (by simp [hne]) (by simp [hne]) rfl rfl
  · have htrue : (calls.foldl ScanLocals.record {}).progressEmitted = true := by rw [hemitted]; simp [hcalls]
    refine ⟨_, by simp only [ScannerResult.admitted, htrue, if_true]; rfl, rfl, ?_⟩
    exact whole_completes h rfl rfl rfl rfl rfl rfl rfl rfl

theorem results_token {outcome : ScanOutcome} {r : ScannerResult} (hr : r ∈ run.results calls outcome) :
    r.sessionToken = some run.sessionToken := by
  rcases List.mem_append.mp hr with hr | hr
  · obtain ⟨_, _, _, _, rfl | ⟨_, rfl⟩⟩ := mem_progressResults hr <;> rfl
  · cases outcome with
    | fatal => cases hr
    | returned | recoverable => rw [← Option.some.inj (Option.mem_toList.mp hr)]

/-- Every event of the scan is one that the run of the pair expects. -/
theorem results_expected (h : Orderly p calls roots ids) {r event : ScannerResult}
    (hr : r ∈ run.results calls (.returned roots malformed managed ids)) (he : r.admitted = some event) :
    event.sessionToken = some run.sessionToken ∧ Concrete event ∧
      (p ∈ namedPairs event →
        Expected run.generation (rootsOf p roots) (marked p calls) (event.forPair (namedPairs event) p)) := by
  have hpairs : ∀ call ∈ calls, none ∉ [call.pathPairId] := by
    intro call hmem hnone
    exact h.concrete call hmem (List.mem_singleton.mp hnone).symm
  rcases List.mem_append.mp hr with hr | hr
  · obtain ⟨before, call, after, hsplit, rfl | ⟨hc, rfl⟩⟩ := mem_progressResults hr
    · obtain rfl : event = run.progressResult call := by simpa [ScannerResult.admitted, ScanRun.progressResult] using he.symm
      have hnamed : namedPairs (run.progressResult call) = [call.pathPairId] := namedPairs_single rfl rfl
      refine ⟨rfl, ⟨by simp [hnamed], ?_⟩, fun _ => progress_expected run.generation rfl _ _⟩
      rw [hnamed]
      exact hpairs call (by rw [hsplit]; simp)
    · have hnamed : namedPairs (run.pairSnapshot ((before ++ [call]).foldl ScanLocals.record {}) call.pathPairId) =
          [call.pathPairId] := namedPairs_single rfl rfl
      obtain rfl : event = run.pairSnapshot ((before ++ [call]).foldl ScanLocals.record {}) call.pathPairId := by
        simpa [ScannerResult.admitted, ScanRun.pairSnapshot] using he.symm
      refine ⟨rfl, ⟨by rw [hnamed]; exact List.cons_ne_nil _ _, ?_⟩, fun hp => ?_⟩
      · rw [hnamed]
        exact hpairs call (by rw [hsplit]; simp)
      · rw [hnamed, List.mem_singleton] at hp
        subst hp
        exact Or.inr (Or.inl (snapshot_completes h hsplit rfl hc))
  · obtain ⟨event', hadmitted, htoken, hnamed, hcompletes⟩ := final_admitted h (Option.mem_toList.mp hr)
    obtain rfl := Option.some.inj (he.symm.trans hadmitted)
    refine ⟨htoken, ⟨?_, ?_⟩, fun _ => Or.inr (Or.inl hcompletes)⟩
    · rw [hnamed]
      exact List.ne_nil_of_mem (List.mem_dedup.mpr h.scanned)
    · rw [hnamed, List.mem_dedup]
      exact h.named

end

/-! ## Delivery -/

/-- Results of earlier scans that are still under way. The markers of the new scan rest on what is
committed, so with markers none of them may complete or fail the pair. -/
structure Backlog (token : String) (g : Int) (p : PairId) (markers : List (String × Digest))
    (results : List ScannerResult) : Prop where
  session : OfSession token results
  older : ∀ event ∈ explicitEvents results, event.generation < g
  quiet : markers = [] ∨ ∀ event ∈ explicitEvents results, p ∈ namedPairs event → Ordinary event

theorem published_last {moves : List Move} {results : List ScannerResult} {last : ScannerResult}
    (h : published moves = results ++ [last]) :
    ∃ before after, moves = before ++ .publish last :: after ∧ published after = [] := by
  obtain ⟨early, late, rfl, -, hlate⟩ := List.filterMap_eq_append_iff.mp h
  obtain ⟨skipped, move, after, rfl, -, hmove, hafter⟩ := List.filterMap_eq_cons_iff.mp hlate
  cases move with
  | publish r =>
    obtain rfl := Option.some.inj hmove
    exact ⟨early ++ skipped, after, by simp, hafter⟩
  | produce | pop _ | consume => cases hmove

/-- The last result reaches the updater. -/
theorem last_delivered {start ch : Channel} {moves : List Move} {results : List ScannerResult} {last : ScannerResult}
    (hstart : start.producer = .idle) (hrun : start.run moves = some ch)
    (hend : ch.producer = .idle ∧ ch.consumer = none ∧ ch.queue.items = []) (hlast : (QueueItem.result last).isAuthoritative)
    (hpublished : published moves = results ++ [last]) :
    last ∈ ch.returned.flatten ∧ ∀ r ∈ ch.returned.flatten, r ∈ start.content ∨ r ∈ published moves := by
  have hcontent : ch.content = ch.returned.flatten := by
    simp [Channel.content, Channel.taken, hend.1, hend.2.1, hend.2.2, Producer.held]
  have hf : Fits start.queue start.producer := by rw [hstart]; trivial
  constructor
  · obtain ⟨before, after, rfl, hafter⟩ := published_last hpublished
    obtain ⟨mid, hmid, -, hrest⟩ := run_publish hrun hf
    rw [← hcontent]
    refine (run_safe hrest (by rw [hmid]; trivial) hlast (by rw [hafter]; simp) ⟨?_, ?_⟩).1
    · rw [mem_content, hmid]
      exact Or.inr (by simp [Producer.held])
    · rw [hmid]
      rintro incoming h
      exact Or.inl (Option.some.inj h).symm
  · intro r hr
    obtain ⟨lost, hperm⟩ := run_content hrun
    rw [← List.mem_append, ← hperm.mem_iff, hcontent]
    exact List.mem_append_left _ hr

/-- A scan of the pair `a` with one root, streamed and completed by one call. -/
def rootOfA : SystemFile := .mk { name := "root", size := 1, pathPairId := some "a" } []

def callOfA : ProgressCall := { files := [rootOfA], pathPairId := some "a", complete := true }

def scanOfA : ScanRun := { generation := 1, sessionToken := "session" }

/-- A queue of one slot, which the consumer empties under the producer's hands. The snapshot of the pair
then gives way to the last result. -/
def crowded : List Move :=
  let result := fun index => ((scanOfA.results [callOfA] (.returned [rootOfA] [] [] [some "a"]))[index]?).getD { files := [] }
  [.publish (result 0), .produce, .publish (result 1), .produce, .pop 128, .consume, .produce, .produce,
    .publish (result 2), .produce, .produce, .produce, .produce, .produce, .consume, .consume, .pop 1, .consume]

end SeedSync.Progressive
