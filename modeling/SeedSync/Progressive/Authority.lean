import SeedSync.Progressive.Fences

/-!
# Authority after a completion

`authority` should give the joint reconciler the committed roots of a completed pair. It
does when the completing snapshot carries no root with an incomplete outcome and leaves out
no root that an earlier batch of the generation recorded.
-/

open SeedSync.Lib

namespace SeedSync.Progressive

variable {sha256 : List StreamRecord → Digest} {e : PairEvent} {s : PairState} {p : PairId}

/-- The authority maps a name to a root exactly when the root is committed. -/
def Agree (s : PairState) : Prop :=
  ∀ name root, s.authoritative name = some (some root) ↔ s.committed name = some root

/-! ## Outcomes -/

/-- The outcome that counts for a root: that of the event, else the one recorded in the generation. -/
def effectiveOutcome (e : PairEvent) (s : PairState) (name : String) : Option RoleOutcomes :=
  match (e.outcomes.filter (fun o => decide (o.1 ∈ e.rootNames) && decide (o.1 = name))).getLast? with
  | some o => some o.2
  | none => if s.previousGeneration < e.generation then none else (s.outcomesAt e.generation name).map Prod.fst

theorem foldl_outcomes (start : Option Instant) (l : List (String × RoleOutcomes))
    (f : String → Option (RoleOutcomes × Option Instant)) (name : String) :
    ((l.foldl (fun (outcomes : String → Option (RoleOutcomes × Option Instant)) o =>
        Function.update outcomes o.1 (some (o.2, start))) f) name).map Prod.fst =
      match (l.filter (fun o => decide (o.1 = name))).getLast? with
      | some o => some o.2
      | none => (f name).map Prod.fst := by
  induction l generalizing f with
  | nil => rfl
  | cons o l ih =>
    rw [List.foldl_cons, ih, List.filter_cons]
    by_cases ho : o.1 = name
    · subst ho
      simp only [decide_true, if_true, List.getLast?_cons, Function.update_self, Option.map_some]
      cases (l.filter (fun o' => decide (o'.1 = o.1))).getLast? <;> rfl
    · simp [ho, Function.update_of_ne (Ne.symm ho)]

theorem acceptGeneration_outcome (e : PairEvent) (s : PairState) (name : String) :
    ((acceptGeneration e s).outcomesAt e.generation name).map Prod.fst = effectiveOutcome e s name := by
  have hbase : ((if s.previousGeneration < e.generation
      then advanceGeneration e.generation (protectedRoot e (releaseFences e s)) (releaseFences e s)
      else releaseFences e s).outcomesAt e.generation name).map Prod.fst =
      if s.previousGeneration < e.generation then none else (s.outcomesAt e.generation name).map Prod.fst := by
    split_ifs <;> rfl
  unfold acceptGeneration effectiveOutcome
  dsimp only
  unfold admitOutcomes
  by_cases hout : e.outcomes = []
  · rw [if_pos hout, hbase, hout]; rfl
  · rw [if_neg hout]
    simp only [PairState.outcomesAt, if_true]
    rw [foldl_outcomes, List.filter_filter]
    simp only [Bool.and_comm]
    split
    · rfl
    · exact hbase

/-- Recording a root does not change the outcomes, only their starts. -/
theorem admitRoot_outcome (e : PairEvent) (prot : String → Bool) (s : PairState) (f : SystemFile) (g : Int)
    (name : String) :
    ((admitRoot e prot s f).outcomesAt g name).map Prod.fst = (s.outcomesAt g name).map Prod.fst := by
  cases hp : prot f.name with
  | true => rw [admitRoot_protected e prot s f hp]
  | false =>
    rw [admitRoot, if_neg (by simp [hp])]
    show ((forgetStart e f.name (s.setWorking e.generation f.name f)).outcomesAt g name).map Prod.fst = _
    unfold forgetStart
    cases hout : s.rootScanOutcomes with
    | none => simp [PairState.setWorking, PairState.outcomesAt, hout]
    | some found =>
      obtain ⟨g', outcomes⟩ := found
      simp only [PairState.setWorking, hout]
      split
      · rename_i roles start hroles
        split_ifs
        · simp only [PairState.outcomesAt, hout]
          split_ifs
          · by_cases hn : name = f.name
            · subst hn; simp [hroles]
            · simp [hn]
          · rfl
        · simp [PairState.outcomesAt, hout]
      · simp [PairState.outcomesAt, hout]

/-! ## The authority before the commit -/

/-- A recorded outcome that is not complete on both sides. -/
def incompleteOutcome (outcome : Option RoleOutcomes) : Bool := outcome.any (fun o => decide (o ≠ (true, true)))

theorem incompleteOutcome_map (outcome : Option (RoleOutcomes × Option Instant)) :
    outcome.any (fun o => decide (o.1 ≠ (true, true))) = incompleteOutcome (outcome.map Prod.fst) := by
  cases outcome <;> rfl

theorem admitRoot_authoritative (e : PairEvent) (prot : String → Bool) (s : PairState) (f : SystemFile)
    (name : String) :
    (admitRoot e prot s f).authoritative name =
      if f.name = name ∧ prot name = false then
        (if incompleteOutcome ((s.outcomesAt e.generation name).map Prod.fst) then none else some (some f))
      else s.authoritative name := by
  cases hp : prot f.name with
  | true =>
    rw [admitRoot_protected e prot s f hp, if_neg]
    rintro ⟨rfl, h⟩
    rw [hp] at h
    cases h
  | false =>
    rw [(admitRoot_fields e prot s f hp).2.2, incompleteOutcome_map]
    by_cases hn : f.name = name
    · subst hn; simp [hp]
    · simp [hn, Function.update_of_ne (Ne.symm hn)]

theorem admitRoots_authoritative (e : PairEvent) (prot : String → Bool) (files : List SystemFile) (s : PairState)
    (name : String) :
    (files.foldl (admitRoot e prot) s).authoritative name =
      if prot name then s.authoritative name
      else match SystemFile.childNamed files name with
        | some f => if incompleteOutcome ((s.outcomesAt e.generation name).map Prod.fst) then none else some (some f)
        | none => s.authoritative name := by
  induction files generalizing s with
  | nil => simp [SystemFile.childNamed]
  | cons f files ih =>
    rw [List.foldl_cons, ih, admitRoot_outcome, admitRoot_authoritative]
    by_cases hp : prot name = true
    · simp [hp]
    · simp only [Bool.not_eq_true] at hp
      simp only [hp, SystemFile.childNamed]
      cases SystemFile.childNamed files name with
      | some g => simp
      | none => by_cases hn : f.name = name <;> simp [hn]

/-- The authority of a snapshot with matching markers before the roots are read. -/
theorem markedAuthority (prot : String → Bool) (hfull : e.fullSnapshot = true)
    (hm : ∀ m ∈ e.markers, MarkerHolds s m) (name : String) :
    (admitMarkers e (admitManifest e prot (rebuildWorking e prot s))).state.authoritative name =
      if name ∈ e.markers.map Prod.fst then some (s.committed name)
      else (admitManifest e prot (rebuildWorking e prot s)).authoritative name := by
  have hcore := markers_core e prot s
  have hm' : ∀ m ∈ e.markers, MarkerHolds (admitManifest e prot (rebuildWorking e prot s)) m :=
    fun m h => (markerHolds_congr hcore m).mpr (hm m h)
  unfold admitMarkers
  rw [if_pos hfull, (foldl_admitMarker_holds e.generation e.markers _ hm' name).2.1, hcore.committed]

/-- A protected root has its committed tree; an uncommitted one keeps what it had. -/
theorem manifestAuthority (prot : String → Bool) (hfull : e.fullSnapshot = true) (name : String) :
    (s.committed name = none →
      (admitManifest e prot (rebuildWorking e prot s)).authoritative name = s.authoritative name) ∧
    (∀ root, s.committed name = some root → prot name = true →
      (admitManifest e prot (rebuildWorking e prot s)).authoritative name = some (some root)) := by
  constructor
  · intro hc
    unfold admitManifest
    split
    · simp [rebuildWorking, hfull, hc]
    · simp [rebuildWorking, hfull, hc]
  · intro root hc hp
    unfold admitManifest
    split
    · simp [rebuildWorking, hfull, hc, hp]
    · simp [rebuildWorking, hfull, hc, hp]

theorem markers_outcomes (e : PairEvent) (prot : String → Bool) (s : PairState) :
    (admitMarkers e (admitManifest e prot (rebuildWorking e prot s))).state.rootScanOutcomes = s.rootScanOutcomes := by
  have hbase : (admitManifest e prot (rebuildWorking e prot s)).rootScanOutcomes = s.rootScanOutcomes := by
    unfold admitManifest rebuildWorking
    split <;> split_ifs <;> rfl
  unfold admitMarkers
  split_ifs
  · rw [← hbase]
    apply foldl_invariant (fun w : MarkerWalk => w.state.rootScanOutcomes = _) e.markers _ _ rfl
    intro w m _ hw
    rw [← hw]
    unfold admitMarker
    split
    · rfl
    · split_ifs <;> rfl
  · exact hbase

theorem childNamed_none_of {files : List SystemFile} {name : String}
    (h : SystemFile.childNamed files name = none) : ∀ f ∈ files, f.name ≠ name := by
  induction files with
  | nil => simp
  | cons f files ih =>
    rw [SystemFile.childNamed] at h
    split at h
    · cases h
    · rename_i hrest
      split_ifs at h with hn
      intro g hg
      rcases List.mem_cons.mp hg with rfl | hg
      · exact hn
      · exact ih hrest g hg

/-! ## The commit -/

/-- The completing event carries no incomplete root, and no root of an earlier batch is missing from it. -/
def CompletesCleanly (e : PairEvent) (s : PairState) : Prop :=
  let prot := protectedRoot e (releaseFences e s)
  (∀ f ∈ e.files, prot f.name = false → incompleteOutcome (effectiveOutcome e s f.name) = false) ∧
    (e.generation = s.previousGeneration → ∀ name root, s.authoritative name = some (some root) →
      s.committed name = none → prot name = false ∧ ∃ f ∈ e.files, f.name = name)

/-- The roots that an earlier event of the generation left in the authority. -/
theorem acceptGeneration_authority {name : String} {root : SystemFile} (hc : s.committed name = none)
    (hs : ¬ e.generation < s.previousGeneration)
    (h : (acceptGeneration e s).authoritative name = some (some root)) :
    e.generation = s.previousGeneration ∧ s.authoritative name = some (some root) := by
  unfold acceptGeneration at h
  rw [admitOutcomes_authoritative] at h
  split_ifs at h with hlt
  · simp only [advanceGeneration, releaseFences, hc, Option.map_none, ite_self] at h
    cases h
  · exact ⟨by omega, h⟩

theorem commitSnapshot_authoritative (prot : String → Bool) (retained : String → Option Digest)
    (hfull : e.fullSnapshot = true) (hm : ∀ m ∈ e.markers, MarkerHolds s m) (name : String) :
    (commitSnapshot sha256 e retained (beforeCommit e prot s)).authoritative name =
      match snapshotRoots e prot s name with
      | none => if (s.committed name).isSome then none else (beforeCommit e prot s).authoritative name
      | some _ => if ((beforeCommit e prot s).authoritative name).isNone then some none
          else (beforeCommit e prot s).authoritative name := by
  simp only [commitSnapshot, beforeCommit_manifest prot hfull hm, beforeCommit_working prot hfull hm,
    Option.all_some, Option.any_some, (beforeCommit_core e prot s).committed]
  cases snapshotRoots e prot s name <;> cases s.committed name <;> simp

/-- The authority right before the commit. -/
theorem beforeCommit_authoritative (hfull : e.fullSnapshot = true)
    (hm : ∀ m ∈ e.markers, MarkerHolds (acceptGeneration e s) m) (prot : String → Bool) (name : String) :
    (beforeCommit e prot (acceptGeneration e s)).authoritative name =
      let marked := if name ∈ e.markers.map Prod.fst then some (s.committed name)
        else (admitManifest e prot (rebuildWorking e prot (acceptGeneration e s))).authoritative name
      if prot name then marked
      else match SystemFile.childNamed e.files name with
        | some f => if incompleteOutcome (effectiveOutcome e s name) then none else some (some f)
        | none => marked := by
  unfold beforeCommit
  rw [sealManifest_authoritative, admitRoots_authoritative, markedAuthority prot hfull hm,
    acceptGeneration_committed, ← acceptGeneration_outcome]
  have hout : (admitMarkers e (admitManifest e prot (rebuildWorking e prot (acceptGeneration e s)))).state.outcomesAt
      e.generation name = (acceptGeneration e s).outcomesAt e.generation name := by
    unfold PairState.outcomesAt
    rw [markers_outcomes]
  rw [hout]

theorem commit_agree (hs : ¬ e.generation < s.previousGeneration) (hh : e.healthy = true)
    (hm : ∀ m ∈ e.markers, MarkerHolds (acceptGeneration e s) m) (hclean : CompletesCleanly e s)
    (retained : String → Option Digest) :
    Agree (commitSnapshot sha256 e retained
      (beforeCommit e (protectedRoot e (releaseFences e s)) (acceptGeneration e s))) := by
  obtain ⟨hfull, -⟩ := e.healthy_full hh
  obtain ⟨houtcomes, hmissing⟩ := hclean
  have haccept := acceptGeneration_committed e s
  revert houtcomes hmissing
  generalize protectedRoot e (releaseFences e s) = prot
  intro houtcomes hmissing name root
  obtain ⟨huncommitted, hprotected⟩ := manifestAuthority (s := acceptGeneration e s) prot hfull name
  rw [haccept] at huncommitted hprotected
  rw [commitSnapshot_committed _ _ hfull hm, commitSnapshot_authoritative _ _ hfull hm,
    beforeCommit_authoritative hfull hm, haccept]
  simp only [snapshotRoots, haccept]
  -- A marked root is a committed one.
  have hmarked : name ∈ e.markers.map Prod.fst → s.committed name ≠ none := by
    intro hmem
    obtain ⟨m, hm1, rfl⟩ := List.mem_map.mp hmem
    have hsome := (hm m hm1).1
    rw [haccept] at hsome
    exact Option.isSome_iff_ne_none.mp hsome
  -- What an earlier event left for an uncommitted root is in the snapshot.
  have hleft : ∀ root', s.committed name = none → (acceptGeneration e s).authoritative name = some (some root') →
      prot name = false ∧ ∃ f ∈ e.files, f.name = name := by
    intro root' hc ha
    obtain ⟨hg, ha⟩ := acceptGeneration_authority hc hs ha
    exact hmissing hg name root' ha hc
  by_cases hprot : prot name = true
  · simp only [hprot, if_true]
    cases hc : s.committed name with
    | some c =>
      rw [hprotected c hc hprot]
      simp
    | none =>
      have hnm : name ∉ e.markers.map Prod.fst := fun hmem => hmarked hmem hc
      simp only [hnm, if_false, huncommitted hc]
      simp only [Option.isSome_none, Bool.false_eq_true, if_false, reduceCtorEq, iff_false]
      intro ha
      obtain ⟨hfalse, -⟩ := hleft root hc ha
      rw [hfalse] at hprot
      cases hprot
  · simp only [Bool.not_eq_true] at hprot
    simp only [hprot, Bool.false_eq_true, if_false]
    cases hfile : SystemFile.childNamed e.files name with
    | some f =>
      obtain ⟨hf, hn⟩ := SystemFile.childNamed_mem hfile
      have hcomplete := houtcomes f hf (by rw [hn]; exact hprot)
      rw [hn] at hcomplete
      simp [hcomplete]
    | none =>
      by_cases hmem : name ∈ e.markers.map Prod.fst
      · obtain ⟨c, hc⟩ := Option.ne_none_iff_exists'.mp (hmarked hmem)
        simp [hmem, hc]
      · simp only [hmem, if_false, Option.or_none, reduceCtorEq, iff_false]
        cases hc : s.committed name with
        | some c => simp
        | none =>
          rw [huncommitted hc]
          simp only [Option.isSome_none, Bool.false_eq_true, if_false]
          intro ha
          obtain ⟨-, f, hf, hn⟩ := hleft root hc ha
          exact childNamed_none_of hfile f hf hn

theorem stepPair_agree (h : (stepPair sha256 e s).2 = .completed) (hclean : CompletesCleanly e s) :
    Agree (stepPair sha256 e s).1 := by
  by_cases hs : e.generation < s.previousGeneration
  · rw [stepPair_stale hs] at h; cases h
  cases hf : e.failed with
  | true => rw [stepPair_failed hs hf] at h; cases h
  | false =>
    rw [stepPair_admitted hs hf] at h ⊢
    rcases admitSnapshot_cases sha256 e (protectedRoot e (releaseFences e s)) (acceptGeneration e s) with
      ⟨-, -, hc⟩ | ⟨-, -, hc⟩ | ⟨hm, hh, -⟩
    · rw [h] at hc; cases hc
    · rw [hc] at h; cases h
    · rw [admitSnapshot_admitted _ (fun _ => hm), if_pos hh]
      exact commit_agree hs hh hm hclean _

theorem prunePair_agree (h : Agree s) (root : String) (segments : List String) : Agree (prunePair root segments s) := by
  intro name file
  by_cases hn : name = root
  · subst hn
    simp only [prunePair, pruneRoots, Function.update_self]
    cases ha : s.authoritative name with
    | none =>
      have hc : s.committed name = none := by
        cases hc : s.committed name with
        | none => rfl
        | some c => rw [(h name c).mpr hc] at ha; cases ha
      simp [hc]
    | some entry =>
      cases entry with
      | none =>
        have hc : s.committed name = none := by
          cases hc : s.committed name with
          | none => rfl
          | some c => rw [(h name c).mpr hc] at ha; cases ha
        simp [hc]
      | some c => simp [(h name c).mp ha]
  · simp only [prunePair, pruneRoots, Function.update_of_ne hn]
    exact h name file

/-! ## Runs -/

/-- How the last accepted event for the pair ended, after the events of a drain. -/
def lastAccepted (sha256 : List StreamRecord → Digest) (scope : DrainScope) (p : PairId) :
    (PairId → PairState) → Option Disposition → List ScannerResult → Option Disposition
  | _, last, [] => last
  | pairs, last, event :: rest =>
    lastAccepted sha256 scope p (scope.stepPairs sha256 pairs event)
      (if p ∈ scope.pairIds event then
        match (stepPair sha256 (event.forPair (scope.pairIds event) p) (pairs p)).2 with
        | .stale => last
        | disposition => some disposition
      else last) rest

/-- Every completion of the pair among the events is clean. -/
def CleanEvents (sha256 : List StreamRecord → Digest) (scope : DrainScope) (p : PairId) :
    (PairId → PairState) → List ScannerResult → Prop
  | _, [] => True
  | pairs, event :: rest =>
    (p ∈ scope.pairIds event → event.isAuthoritativeCompletion p = true →
      CompletesCleanly (event.forPair (scope.pairIds event) p) (pairs p)) ∧
    CleanEvents sha256 scope p (scope.stepPairs sha256 pairs event) rest

/-- The runs whose completions of the pair are clean, with how its last accepted event ended. -/
inductive CleanRun (sha256 : List StreamRecord → Digest) (p : PairId) :
    ScanAccumulator → Option Disposition → Prop
  | start : CleanRun sha256 p {} none
  | drain {acc : ScanAccumulator} {last : Option Disposition} (run : CleanRun sha256 p acc last)
      (events : List ScannerResult) (configured : List String)
      (clean : CleanEvents sha256 (scopeOf acc events configured) p (openDrain acc events).pairs
        (drainAccepted acc events)) :
      CleanRun sha256 p (apply sha256 acc events configured).1
        (lastAccepted sha256 (scopeOf acc events configured) p (openDrain acc events).pairs last
          (drainAccepted acc events))
  | call {acc : ScanAccumulator} {last : Option Disposition} (run : CleanRun sha256 p acc last) (call : Call)
      (noDrain : ∀ events configured, call ≠ .apply events configured) :
      CleanRun sha256 p (call.run sha256 acc) last

theorem Agree.of_stored {a b : PairState} (h : Stored a b) (ha : Agree a) : Agree b := by
  rw [h.eq_with]; exact ha

theorem completed_healthy (h : (stepPair sha256 e s).2 = .completed) : e.healthy = true := by
  by_cases hs : e.generation < s.previousGeneration
  · rw [stepPair_stale hs] at h; cases h
  cases hf : e.failed with
  | true => rw [stepPair_failed hs hf] at h; cases h
  | false =>
    rw [stepPair_admitted hs hf] at h
    rcases admitSnapshot_cases sha256 e (protectedRoot e (releaseFences e s)) (acceptGeneration e s) with
      ⟨-, -, hc⟩ | ⟨-, -, hc⟩ | ⟨-, hh, -⟩
    · rw [h] at hc; cases hc
    · rw [hc] at h; cases h
    · exact hh

theorem stepPair_not_stale (hs : ¬ e.generation < s.previousGeneration) : (stepPair sha256 e s).2 ≠ .stale := by
  intro h
  cases hf : e.failed with
  | true => rw [stepPair_failed hs hf] at h; cases h
  | false =>
    rw [stepPair_admitted hs hf] at h
    rcases admitSnapshot_cases sha256 e (protectedRoot e (releaseFences e s)) (acceptGeneration e s) with
      ⟨-, -, hc⟩ | ⟨-, -, hc⟩ | ⟨-, -, hc⟩
    · rw [h] at hc; cases hc
    · rw [hc] at h; cases h
    · rw [h] at hc; cases hc

theorem drain_agree (scope : DrainScope) (events : List ScannerResult) (pairs : PairId → PairState)
    (last : Option Disposition) (hclean : CleanEvents sha256 scope p pairs events)
    (h : last = some .completed → Agree (pairs p)) :
    lastAccepted sha256 scope p pairs last events = some .completed →
      Agree (events.foldl (scope.stepPairs sha256) pairs p) := by
  induction events generalizing pairs last with
  | nil => exact h
  | cons event events ih =>
    obtain ⟨hevent, hrest⟩ := hclean
    apply ih _ _ hrest
    intro hlast
    rcases @stepPairs_cases sha256 scope pairs event p with ⟨hp, heq⟩ | ⟨hp, heq⟩ | ⟨hp, heq⟩
    · rw [heq]
      rw [if_pos hp] at hlast
      by_cases hc : (stepPair sha256 (event.forPair (scope.pairIds event) p) (pairs p)).2 = .completed
      · exact stepPair_agree hc (hevent hp (completed_healthy hc))
      · -- Otherwise the event was stale and left the pair as it was.
        by_cases hs : (event.forPair (scope.pairIds event) p).generation < (pairs p).previousGeneration
        · rw [stepPair_stale hs] at hlast ⊢
          exact h hlast
        · have hne := @stepPair_not_stale sha256 _ _ hs
          split at hlast
          · rename_i hstale; exact absurd hstale hne
          · exact absurd (Option.some.inj hlast) hc
    · rw [heq]
      rw [if_neg hp] at hlast
      exact h hlast
    · rw [heq]
      rw [if_neg hp] at hlast
      exact h hlast

/-- In every run whose completions of the pair are clean: whenever the last accepted event for the pair
was an authoritative completion, its authority has exactly the committed roots, and so no
committed root is reported absent. -/
theorem authority_after_clean_completions (sha256 : List StreamRecord → Digest) (p : PairId) (acc : ScanAccumulator)
    (last : Option Disposition) (run : CleanRun sha256 p acc last) (hlast : last = some .completed) :
    (∀ name root, authority acc p name = some (some root) ↔ (acc.pairs p).committed name = some root) ∧
      ∀ name, (acc.pairs p).committed name ≠ none → authority acc p name ≠ some none := by
  have hagree : Agree (acc.pairs p) := by
    induction run with
    | start => cases hlast
    | @drain acc last run events configured clean ih =>
      apply Agree.of_stored (apply_stored acc events configured p).symm
      refine drain_agree (scopeOf acc events configured) (drainAccepted acc events) _ last clean ?_ hlast
      intro hl
      exact (ih hl).of_stored (openDrain_stored acc events p).symm
    | @call acc last run call noDrain ih =>
      obtain ⟨base, fences, hbase, hnew⟩ := run_pair_cases sha256 acc call noDrain p
      have hb : Agree { base with moveInvalidations := fences } := by
        rcases hbase with rfl | ⟨-, rfl⟩
        · exact ih hlast
        · intro name root; simp
      rcases hnew with heq | ⟨root, segments, -, heq⟩
      · rw [heq]; exact hb
      · rw [heq]; exact prunePair_agree hb root segments
  refine ⟨hagree, ?_⟩
  intro name hc hnone
  obtain ⟨root, hroot⟩ := Option.ne_none_iff_exists'.mp hc
  rw [authority, (hagree name root).mpr hroot] at hnone
  cases hnone

/-! ## A root with an incomplete outcome -/

/-- A full snapshot whose only root was not read completely on the staging side. -/
def incompleteSnapshot (outcome : RoleOutcomes) : ScannerResult :=
  { files := [.mk { name := "root", size := 1, pathPairId := some "a" } []]
    scannedPathPairIds := [some "a"]
    generation := 1
    isProgress := true
    completedPathPairIds := [some "a"]
    sessionToken := some "session"
    isFullSnapshot := true
    fullSnapshotPathPairIds := [some "a"]
    rootScanOutcomesByPair := [(some "a", [("root", outcome)])] }

/-- The root is committed and reported absent. -/
theorem incomplete_root_reported_absent :
    let acc := (apply (fun _ => "digest") {} [incompleteSnapshot (true, false)] ["a"]).1
    (incompleteSnapshot (true, false)).isAuthoritativeCompletion (some "a") = true ∧
      lastAccepted (fun _ => "digest") (scopeOf {} [incompleteSnapshot (true, false)] ["a"]) (some "a")
        (openDrain {} [incompleteSnapshot (true, false)]).pairs none
        (drainAccepted {} [incompleteSnapshot (true, false)]) = some .completed ∧
      ((acc.pairs (some "a")).committed "root").isSome = true ∧ authority acc (some "a") "root" = some none := by
  refine ⟨rfl, rfl, rfl, rfl⟩

/-- With both sides read the same snapshot is a clean run, and the authority has the root. -/
theorem complete_root_reported_present :
    let acc := (apply (fun _ => "digest") {} [incompleteSnapshot (true, true)] ["a"]).1
    (acc.pairs (some "a")).committed "root" ≠ none ∧ authority acc (some "a") "root" ≠ some none := by
  refine ⟨by decide, ?_⟩
  refine (authority_after_clean_completions (fun _ => "digest") (some "a") _ (some .completed)
    (CleanRun.drain .start [incompleteSnapshot (true, true)] ["a"] ⟨fun _ _ => ⟨?_, ?_⟩, trivial⟩) rfl).2 "root"
    (by decide)
  · intro f hf _
    rw [List.mem_singleton.mp hf]
    decide
  · intro hg
    exact absurd hg (by decide)

end SeedSync.Progressive
