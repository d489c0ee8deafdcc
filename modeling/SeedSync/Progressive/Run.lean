import SeedSync.Progressive.Drain
import Mathlib.Logic.Relation

/-!
# Runs of the accumulator

The calls that the model updater makes, and the rules that carry a fact about one pair
through a drain.
-/

open SeedSync.Lib

namespace SeedSync.Progressive

/-- The calls that change the accumulator. -/
inductive Call where
  | setSessionToken (token : Option String)
  | apply (events : List ScannerResult) (configured : List String)
  | beginRootInvalidation (pair : PairId) (rootName : String) (generation : Int)
  | finishRootInvalidation (pair : PairId) (rootName : String) (token : Nat) (mutated : Bool)
      (completedAt : Option Instant)
  | confirmLocalDeletion (pair : PairId) (rootName : String) (segments : List String) (generation : Int)
      (sessionToken : String)
  | pruneConfirmedLocalDeletion (pair : PairId) (rootName : String) (segments : List String)

section
variable (sha256 : List StreamRecord → Digest)

def Call.run (acc : ScanAccumulator) : Call → ScanAccumulator
  | .setSessionToken token => Progressive.setSessionToken acc token
  | .apply events configured => (Progressive.apply sha256 acc events configured).1
  | .beginRootInvalidation pair root generation =>
    (Progressive.beginRootInvalidation acc pair root generation).1
  | .finishRootInvalidation pair root token mutated completedAt =>
    Progressive.finishRootInvalidation acc pair root token mutated completedAt
  | .confirmLocalDeletion pair root segments generation sessionToken =>
    (Progressive.confirmLocalDeletion acc pair root segments generation sessionToken).1
  | .pruneConfirmedLocalDeletion pair root segments =>
    Progressive.pruneConfirmedLocalDeletion acc pair root segments

/-- The states reached by calls that are allowed where they are made. -/
def RunsTo (allowed : ScanAccumulator → Call → Prop) : ScanAccumulator → ScanAccumulator → Prop :=
  Relation.ReflTransGen (fun a b => ∃ call, allowed a call ∧ call.run sha256 a = b)

/-- The states of an accumulator that any calls lead to. -/
def Reachable (acc : ScanAccumulator) : Prop := RunsTo sha256 (fun _ _ => True) {} acc

end

variable {sha256 : List StreamRecord → Digest}

theorem RunsTo.invariant {allowed : ScanAccumulator → Call → Prop} (P : ScanAccumulator → Prop)
    {a b : ScanAccumulator} (h : RunsTo sha256 allowed a b) (init : P a)
    (step : ∀ acc call, allowed acc call → P acc → P (call.run sha256 acc)) : P b := by
  induction h with
  | refl => exact init
  | tail _ hstep ih =>
    obtain ⟨call, hok, rfl⟩ := hstep
    exact step _ call hok ih

/-! ## Sessions -/

/-- The token names another session than the bound one. -/
def ReplacesSession (acc : ScanAccumulator) (token : String) : Prop :=
  token ≠ "" ∧ acc.sessionToken ≠ none ∧ acc.sessionToken ≠ some token

instance (acc : ScanAccumulator) (token : String) : Decidable (ReplacesSession acc token) :=
  inferInstanceAs (Decidable (_ ∧ _ ∧ _))

theorem setSessionToken_pairs {acc : ScanAccumulator} {token : Option String}
    (h : ∀ t, token = some t → ¬ ReplacesSession acc t) : (setSessionToken acc token).pairs = acc.pairs := by
  cases token with
  | none => rfl
  | some t =>
    have ht := h t rfl
    simp only [setSessionToken]
    split_ifs with h1 h2
    · rfl
    · rfl
    · exact absurd ⟨fun h => h1 (Or.inl h), h2, fun h => h1 (Or.inr h)⟩ ht

/-- The call stays in the session that is bound. -/
def KeepsSession (acc : ScanAccumulator) : Call → Prop
  | .setSessionToken token => ∀ t, token = some t → ¬ ReplacesSession acc t
  | .confirmLocalDeletion _ _ _ _ t => ¬ ReplacesSession acc t
  | _ => True

/-! ## The calls that are not drains -/

theorem Call.drain_or_not (call : Call) :
    (∃ events configured, call = .apply events configured) ∨
      ∀ events configured, call ≠ .apply events configured := by
  cases call <;> simp

theorem modifyPair_pairs (acc : ScanAccumulator) (pair p : PairId) (f : PairState → PairState) :
    (acc.modifyPair pair f).pairs p = if p = pair then f (acc.pairs p) else acc.pairs p := by
  unfold ScanAccumulator.modifyPair
  by_cases h : p = pair
  · subst h; simp
  · simp [h]

theorem setSessionToken_cases (acc : ScanAccumulator) (token : Option String) :
    (setSessionToken acc token).pairs = acc.pairs ∨
      ((∃ t, token = some t ∧ ReplacesSession acc t) ∧ (setSessionToken acc token).pairs = fun _ => {}) := by
  by_cases h : ∃ t, token = some t ∧ ReplacesSession acc t
  · right
    refine ⟨h, ?_⟩
    obtain ⟨t, rfl, hne, hbound, hother⟩ := h
    simp [setSessionToken, hne, hbound, hother]
  · left
    exact setSessionToken_pairs (fun t ht hr => h ⟨t, ht, hr⟩)

/-- A confirmed deletion raises the fence of its root and prunes the trees of the root. -/
theorem confirm_pairs (acc : ScanAccumulator) (pair : PairId) (root : String) (segments : List String) (g : Int)
    (session : String) (p : PairId) :
    let bound := setSessionToken acc (some session)
    ((confirmLocalDeletion acc pair root segments g session).1.pairs p = acc.pairs p ∨
      (confirmLocalDeletion acc pair root segments g session).1.pairs p = bound.pairs p) ∨
    (p = pair ∧ (confirmLocalDeletion acc pair root segments g session).1.pairs p =
      prunePair root segments { bound.pairs p with
        moveInvalidations := Function.update (bound.pairs p).moveInvalidations root
          (fenceDeletion (bound.nextMoveInvalidationToken + 1) g ((bound.pairs p).moveInvalidations root)).1 }) := by
  unfold confirmLocalDeletion
  split_ifs with h
  · exact Or.inl (Or.inl rfl)
  · have hv : ¬ (root = "" ∨ validSegments segments = false) := by tauto
    dsimp only
    rw [pruneConfirmedLocalDeletion, if_neg hv, modifyPair_pairs]
    by_cases hp : p = pair
    · subst hp
      right
      refine ⟨rfl, ?_⟩
      simp only [if_true, modifyPair_pairs]
    · left; right
      simp only [hp, if_false, modifyPair_pairs]

/-- The call prunes the trees of the root. -/
def Call.Prunes (p : PairId) (r : String) : Call → Prop
  | .confirmLocalDeletion p' r' _ _ _ => p' = p ∧ r' = r
  | .pruneConfirmedLocalDeletion p' r' _ => p' = p ∧ r' = r
  | _ => False

variable (sha256) in
/-- A call that is no drain sets fences and prunes, from the pair as it was or from a new session. -/
theorem run_pair_cases (acc : ScanAccumulator) (call : Call)
    (happly : ∀ events configured, call ≠ .apply events configured) (p : PairId) :
    ∃ base fences, (base = acc.pairs p ∨ (¬ KeepsSession acc call ∧ base = {})) ∧
      ((call.run sha256 acc).pairs p = { base with moveInvalidations := fences } ∨
        ∃ root segments, call.Prunes p root ∧
          (call.run sha256 acc).pairs p = prunePair root segments { base with moveInvalidations := fences }) := by
  cases call with
  | apply events configured => exact absurd rfl (happly events configured)
  | setSessionToken token =>
    rw [Call.run]
    rcases setSessionToken_cases acc token with heq | ⟨⟨t, rfl, hr⟩, heq⟩
    · rw [heq]; exact ⟨acc.pairs p, _, Or.inl rfl, Or.inl rfl⟩
    · rw [heq]; exact ⟨{}, _, Or.inr ⟨fun hk => hk t rfl hr, rfl⟩, Or.inl rfl⟩
  | beginRootInvalidation pair root g =>
    rw [Call.run, beginRootInvalidation]
    split_ifs
    · exact ⟨acc.pairs p, _, Or.inl rfl, Or.inl rfl⟩
    · dsimp only
      rw [modifyPair_pairs]
      split_ifs <;> exact ⟨acc.pairs p, _, Or.inl rfl, Or.inl rfl⟩
  | finishRootInvalidation pair root token mutated completedAt =>
    rw [Call.run, finishRootInvalidation, modifyPair_pairs]
    by_cases hp : p = pair
    · rw [if_pos hp]; exact ⟨acc.pairs p, _, Or.inl rfl, Or.inl rfl⟩
    · rw [if_neg hp]; exact ⟨acc.pairs p, _, Or.inl rfl, Or.inl rfl⟩
  | confirmLocalDeletion pair root segments g session =>
    rw [Call.run]
    rcases confirm_pairs acc pair root segments g session p with (heq | heq) | ⟨hp, heq⟩
    · rw [heq]; exact ⟨acc.pairs p, _, Or.inl rfl, Or.inl rfl⟩
    · rcases setSessionToken_cases acc (some session) with hs | ⟨⟨t, ht, hr⟩, hs⟩
      · rw [heq, hs]; exact ⟨acc.pairs p, _, Or.inl rfl, Or.inl rfl⟩
      · cases ht
        rw [heq, hs]; exact ⟨{}, _, Or.inr ⟨fun hk => hk hr, rfl⟩, Or.inl rfl⟩
    · rcases setSessionToken_cases acc (some session) with hs | ⟨⟨t, ht, hr⟩, hs⟩
      · rw [heq, hs]; exact ⟨acc.pairs p, _, Or.inl rfl, Or.inr ⟨root, segments, ⟨hp.symm, rfl⟩, rfl⟩⟩
      · cases ht
        rw [heq, hs]
        exact ⟨{}, _, Or.inr ⟨fun hk => hk hr, rfl⟩, Or.inr ⟨root, segments, ⟨hp.symm, rfl⟩, rfl⟩⟩
  | pruneConfirmedLocalDeletion pair root segments =>
    rw [Call.run, pruneConfirmedLocalDeletion]
    split_ifs
    · exact ⟨acc.pairs p, _, Or.inl rfl, Or.inl rfl⟩
    · rw [modifyPair_pairs]
      split_ifs with hp
      · exact ⟨acc.pairs p, _, Or.inl rfl, Or.inr ⟨root, segments, ⟨hp.symm, rfl⟩, rfl⟩⟩
      · exact ⟨acc.pairs p, _, Or.inl rfl, Or.inl rfl⟩

/-! ## One pair of a drain -/

/-- The three things that an event can do to a pair. -/
theorem stepPairs_cases (scope : DrainScope) (pairs : PairId → PairState) (event : ScannerResult) (p : PairId) :
    (p ∈ scope.pairIds event ∧ scope.stepPairs sha256 pairs event p =
      (stepPair sha256 (event.forPair (scope.pairIds event) p) (pairs p)).1) ∨
    (p ∉ scope.pairIds event ∧ scope.stepPairs sha256 pairs event p =
      { pairs p with committedRootFingerprints := fun _ => none }) ∨
    (p ∉ scope.pairIds event ∧ scope.stepPairs sha256 pairs event p = pairs p) := by
  unfold DrainScope.stepPairs
  by_cases hmem : p ∈ scope.pairIds event
  · exact Or.inl ⟨hmem, if_pos hmem⟩
  · rw [if_neg hmem]
    split_ifs
    · exact Or.inr (Or.inl ⟨hmem, rfl⟩)
    · exact Or.inr (Or.inr ⟨hmem, rfl⟩)

theorem pairsAfter_concat (acc : ScanAccumulator) (events : List ScannerResult) (configured : List String)
    (before : List ScannerResult) (event : ScannerResult) :
    pairsAfter sha256 acc events configured (before ++ [event]) =
      (scopeOf acc events configured).stepPairs sha256
        (pairsAfter sha256 acc events configured before) event := by
  rw [pairsAfter, List.foldl_append]; rfl

/-- What the marks do not show and every event keeps, holds after the first events of a drain. -/
theorem pairsAfter_invariant (P : PairState → Prop) (marks : ∀ a b, Stored a b → P a → P b)
    (acc : ScanAccumulator) (events : List ScannerResult) (configured : List String) (p : PairId)
    (before : List ScannerResult) (init : P (acc.pairs p))
    (step : ∀ pairs, ∀ event ∈ before, P (pairs p) →
      P ((scopeOf acc events configured).stepPairs sha256 pairs event p)) :
    P (pairsAfter sha256 acc events configured before p) := by
  apply foldl_invariant (fun pairs : PairId → PairState => P (pairs p)) before _ step
  exact marks _ _ (openDrain_stored acc events p).symm init

/-- The same for the whole drain. -/
theorem apply_invariant (P : PairState → Prop) (marks : ∀ a b, Stored a b → P a → P b)
    (acc : ScanAccumulator) (events : List ScannerResult) (configured : List String) (p : PairId)
    (init : P (acc.pairs p))
    (step : ∀ pairs, ∀ event ∈ drainAccepted acc events, P (pairs p) →
      P ((scopeOf acc events configured).stepPairs sha256 pairs event p)) :
    P ((apply sha256 acc events configured).1.pairs p) :=
  marks _ _ (apply_stored acc events configured p).symm
    (pairsAfter_invariant P marks acc events configured p _ init step)

end SeedSync.Progressive
