import SeedSync.Lib.Dict
import SeedSync.Lib.Fold
import SeedSync.Scan.Result
import Mathlib.Data.List.Dedup

/-!
# The joint reconciler

`_JointProgressiveReconciler`: a root is published when both sides know it. Every key of a
call is handled on its own, so a call is described by `reconcileKey` at each key.
-/

open SeedSync.Lib

namespace SeedSync.Progressive

/-- A root of a pair. -/
abbrev RootKey := PairId × String

/-- The local and the remote half of a published root. -/
abbrev Halves := Option SystemFile × Option SystemFile

/-- `__published_by_pair`, by pair and name. -/
abbrev Published := Dict RootKey Halves

structure JointInputs where
  localSnapshot : Dict RootKey SystemFile := {}
  localAuthority : Dict RootKey (Option SystemFile) := {}
  localIncomplete : List PairId := []
  localCompleted : List PairId := []
  remoteSnapshot : Dict RootKey SystemFile := {}
  remoteAuthority : Dict RootKey (Option SystemFile) := {}
  remoteIncomplete : List PairId := []
  remoteCompleted : List PairId := []
  enabledPairIds : List PairId := []
  remoteExcludedKeys : List RootKey := []

namespace JointInputs

def localKnown (x : JointInputs) (key : RootKey) : Bool :=
  x.localAuthority.contains key || decide (key.1 ∈ x.localCompleted)

def remoteKnown (x : JointInputs) (key : RootKey) : Bool :=
  x.remoteAuthority.contains key || decide (key.1 ∈ x.remoteCompleted)

/-- `local_authority.get(key)`: a missing key and a `None` read the same. -/
def localFile (x : JointInputs) (key : RootKey) : Option SystemFile := (x.localAuthority.get key).join

def remoteFile (x : JointInputs) (key : RootKey) : Option SystemFile := (x.remoteAuthority.get key).join

/-- `local_authority.get(key, local_snapshot.get(key))`. -/
def excludedLocalFile (x : JointInputs) (key : RootKey) : Option SystemFile :=
  (x.localAuthority.get key).getD (x.localSnapshot.get key)

def keys (x : JointInputs) : List RootKey :=
  x.localSnapshot.keys ++ x.remoteSnapshot.keys ++ x.localAuthority.keys ++ x.remoteAuthority.keys

end JointInputs

/-- One key of the loop of `__reconcile`. -/
def reconcileKey (x : JointInputs) (published : Published) (key : RootKey) : Published :=
  if key.1 ∉ x.enabledPairIds then published
  else if key ∈ x.remoteExcludedKeys then
    match x.excludedLocalFile key with
    | none => published.pop key
    | some file => published.set key (some file, none)
  else if x.localKnown key && x.remoteKnown key then
    match x.localFile key, x.remoteFile key with
    | none, none => published.pop key
    | localHalf, remoteHalf => published.set key (localHalf, remoteHalf)
  else if x.localKnown key then
    match x.localFile key, published.get key with
    | some file, some halves => published.set key (some file, halves.2)
    | _, _ => published
  else published

/-- What a call returns: the local files, the remote files and the pairs that are not settled. -/
structure JointResult where
  localFiles : List SystemFile
  remoteFiles : List SystemFile
  unknownLocalPairs : List PairId

/-- `__reconcile` over the keys of the call. -/
def reconcileKeys (x : JointInputs) (published : Published) (keys : List RootKey) : Published × JointResult :=
  let new := keys.foldl (reconcileKey x) published
  let shown := (keys.filter (fun key => decide (key.1 ∈ x.enabledPairIds))).filterMap new.get
  (new,
    { localFiles := shown.filterMap Prod.fst
      remoteFiles := shown.filterMap Prod.snd
      unknownLocalPairs := (x.localIncomplete ++ x.remoteIncomplete ++
        x.enabledPairIds.filter (fun p => decide (p ∉ x.localCompleted)) ++
        x.enabledPairIds.filter (fun p => decide (p ∉ x.remoteCompleted))).dedup })

def reconcile (x : JointInputs) (published : Published) : Published × JointResult :=
  reconcileKeys x published (published.keys ++ x.keys).dedup

def reconcileDelta (x : JointInputs) (candidateKeys : List RootKey) (published : Published) : Published × JointResult :=
  reconcileKeys x published candidateKeys.dedup

def reconcilePairs (x : JointInputs) (pairIds : List PairId) (published : Published) : Published × JointResult :=
  reconcileDelta x ((published.keys.filter (fun key => decide (key.1 ∈ pairIds))) ++ x.keys) published

/-- `prune_confirmed_local_deletion` of the reconciler. -/
def prunePublished (pair : PairId) (rootName : String) (segments : List String) (published : Published) : Published :=
  match published.get (pair, rootName) with
  | some (some file, remoteHalf) =>
    match file.pruneConfirmedLocalDeletion segments, remoteHalf with
    | none, none => published.pop (pair, rootName)
    | updated, remoteHalf => published.set (pair, rootName) (updated, remoteHalf)
  | _ => published

/-! ## Key by key -/

variable {x : JointInputs} {published : Published} {key other : RootKey}

theorem reconcileKey_ne (h : key ≠ other) : (reconcileKey x published key).get other = published.get other := by
  unfold reconcileKey
  split_ifs
  · split <;> simp [h]
  · split <;> simp [h]
  · split <;> simp [h]
  · rfl
  · rfl

/-- The new entry of a key, from its old one. -/
def reconcileEntry (x : JointInputs) (key : RootKey) (entry : Option Halves) : Option Halves :=
  if key.1 ∉ x.enabledPairIds then entry
  else if key ∈ x.remoteExcludedKeys then (x.excludedLocalFile key).map (fun file => (some file, none))
  else if x.localKnown key && x.remoteKnown key then
    if x.localFile key = none ∧ x.remoteFile key = none then none else some (x.localFile key, x.remoteFile key)
  else if x.localKnown key then
    entry.map (fun halves => ((x.localFile key).or halves.1, halves.2))
  else entry

theorem reconcileKey_self (x : JointInputs) (published : Published) (key : RootKey) :
    (reconcileKey x published key).get key = reconcileEntry x key (published.get key) := by
  unfold reconcileKey reconcileEntry
  split_ifs with h1 h2 h3 h4 h5 h6
  · cases x.excludedLocalFile key <;> simp
  · simp [h4.1, h4.2]
  · cases hl : x.localFile key <;> cases hr : x.remoteFile key <;> simp_all
  · cases hl : x.localFile key <;> cases hp : published.get key <;> simp [hp]
  · rfl
  · rfl

theorem foldl_reconcileKey_not_mem (keys : List RootKey) (published : Published) (h : key ∉ keys) :
    (keys.foldl (reconcileKey x) published).get key = published.get key := by
  apply foldl_invariant (fun d : Published => d.get key = published.get key) keys published _ rfl
  intro d other hmem hd
  rw [← hd]
  exact reconcileKey_ne (fun heq => h (heq ▸ hmem))

theorem foldl_reconcileKey_mem (keys : List RootKey) (hnodup : keys.Nodup) (published : Published) (h : key ∈ keys) :
    (keys.foldl (reconcileKey x) published).get key = reconcileEntry x key (published.get key) := by
  induction keys generalizing published with
  | nil => cases h
  | cons first keys ih =>
    obtain ⟨hfirst, hnodup⟩ := List.nodup_cons.mp hnodup
    rw [List.foldl_cons]
    rcases List.mem_cons.mp h with rfl | hmem
    · rw [foldl_reconcileKey_not_mem keys _ hfirst, reconcileKey_self]
    · have hne : first ≠ key := fun heq => hfirst (heq ▸ hmem)
      rw [ih hnodup _ hmem, reconcileKey_ne hne]

/-- A call, seen at one key. -/
theorem reconcileKeys_get (keys : List RootKey) (key : RootKey) :
    (reconcileKeys x published keys.dedup).1.get key =
      if key ∈ keys then reconcileEntry x key (published.get key) else published.get key := by
  unfold reconcileKeys
  split_ifs with h
  · exact foldl_reconcileKey_mem _ (List.nodup_dedup _) _ (List.mem_dedup.mpr h)
  · exact foldl_reconcileKey_not_mem _ _ (fun hm => h (List.mem_dedup.mp hm))

/-! ## Calls -/

inductive JointCall where
  | reconcile (x : JointInputs)
  | reconcileDelta (x : JointInputs) (candidateKeys : List RootKey)
  | reconcilePairs (x : JointInputs) (pairIds : List PairId)
  | pruneConfirmedLocalDeletion (pair : PairId) (rootName : String) (segments : List String)

namespace JointCall

def run (published : Published) : JointCall → Published
  | .reconcile x => (Progressive.reconcile x published).1
  | .reconcileDelta x candidateKeys => (Progressive.reconcileDelta x candidateKeys published).1
  | .reconcilePairs x pairIds => (Progressive.reconcilePairs x pairIds published).1
  | .pruneConfirmedLocalDeletion pair rootName segments => prunePublished pair rootName segments published

def inputs : JointCall → Option JointInputs
  | .reconcile x | .reconcileDelta x _ | .reconcilePairs x _ => some x
  | .pruneConfirmedLocalDeletion _ _ _ => none

/-- A call with inputs leaves a key alone or replaces its entry. -/
theorem run_get {call : JointCall} (h : call.inputs = some x) (published : Published) (key : RootKey) :
    (call.run published).get key = published.get key ∨
      (call.run published).get key = reconcileEntry x key (published.get key) := by
  have hkeys : ∀ keys : List RootKey, (reconcileKeys x published keys.dedup).1.get key = published.get key ∨
      (reconcileKeys x published keys.dedup).1.get key = reconcileEntry x key (published.get key) := by
    intro keys
    rw [reconcileKeys_get]
    split_ifs
    · exact Or.inr rfl
    · exact Or.inl rfl
  cases call with
  | reconcile x' => cases h; exact hkeys _
  | reconcileDelta x' candidateKeys => cases h; exact hkeys _
  | reconcilePairs x' pairIds => cases h; exact hkeys _
  | pruneConfirmedLocalDeletion pair rootName segments => cases h

end JointCall

theorem prunePublished_get (pair : PairId) (rootName : String) (segments : List String) (published : Published)
    (key : RootKey) :
    (prunePublished pair rootName segments published).get key = published.get key ∨
      ∃ file remoteHalf, key = (pair, rootName) ∧ published.get key = some (some file, remoteHalf) ∧
        (prunePublished pair rootName segments published).get key =
          if file.pruneConfirmedLocalDeletion segments = none ∧ remoteHalf = none then none
          else some (file.pruneConfirmedLocalDeletion segments, remoteHalf) := by
  unfold prunePublished
  split
  · rename_i file remoteHalf hget
    by_cases hkey : (pair, rootName) = key
    · right
      subst hkey
      refine ⟨file, remoteHalf, rfl, hget, ?_⟩
      cases file.pruneConfirmedLocalDeletion segments <;> cases remoteHalf <;> simp
    · left
      cases file.pruneConfirmedLocalDeletion segments <;> cases remoteHalf <;> simp [hkey]
  · exact Or.inl rfl

/-! ## The gate -/

theorem reconcileEntry_appears {entry : Halves} (h : reconcileEntry x key none = some entry) :
    key.1 ∈ x.enabledPairIds ∧
      ((x.localKnown key = true ∧ x.remoteKnown key = true) ∨ key ∈ x.remoteExcludedKeys) := by
  unfold reconcileEntry at h
  split_ifs at h with h1 h2 h3 h4 h5
  · exact ⟨by simpa using h1, Or.inr h2⟩
  · exact ⟨by simpa using h1, Or.inl (by simpa using h3)⟩
  · simp at h

theorem reconcileEntry_disappears {entry : Halves} (h : reconcileEntry x key (some entry) = none) :
    (x.localKnown key = true ∧ x.remoteKnown key = true ∧ x.localFile key = none ∧ x.remoteFile key = none) ∨
      (key ∈ x.remoteExcludedKeys ∧ x.excludedLocalFile key = none) := by
  unfold reconcileEntry at h
  split_ifs at h with h1 h2 h3 h4 h5
  · exact Or.inr ⟨h2, by simpa using h⟩
  · simp only [Bool.and_eq_true] at h3
    exact Or.inl ⟨h3.1, h3.2, h4.1, h4.2⟩
  · simp at h

theorem reconcileEntry_remote (h : x.remoteKnown key = false) (he : key ∉ x.remoteExcludedKeys)
    (entry : Option Halves) : (reconcileEntry x key entry).map Prod.snd = entry.map Prod.snd := by
  unfold reconcileEntry
  simp only [h, Bool.and_false, Bool.false_eq_true, if_false, if_neg he]
  split_ifs
  · cases entry <;> rfl
  · rfl
  · rfl

/-- At every call of every sequence of calls: a root becomes published only for an enabled pair whose two
sides know it, or when its key is excluded; it disappears only when both sides know it absent,
or it is excluded and locally absent, or a confirmed deletion removes its only half; its remote
half stays while the remote side is unknown and the key is not excluded; pairs that are not
enabled are untouched. A call for some pairs leaves the others and does to its own what the
full call does. -/
theorem joint_gate (calls : List JointCall) (call : JointCall) (key : RootKey) :
    let old := calls.foldl JointCall.run {}
    let new := call.run old
    (old.get key = none → new.get key ≠ none → ∃ x, call.inputs = some x ∧ key.1 ∈ x.enabledPairIds ∧
      ((x.localKnown key = true ∧ x.remoteKnown key = true) ∨ key ∈ x.remoteExcludedKeys)) ∧
    (old.get key ≠ none → new.get key = none →
      (∃ x, call.inputs = some x ∧
        ((x.localKnown key = true ∧ x.remoteKnown key = true ∧ x.localFile key = none ∧ x.remoteFile key = none) ∨
          (key ∈ x.remoteExcludedKeys ∧ x.excludedLocalFile key = none))) ∨
      ∃ segments file, call = .pruneConfirmedLocalDeletion key.1 key.2 segments ∧
        old.get key = some (some file, none) ∧ file.pruneConfirmedLocalDeletion segments = none) ∧
    (∀ x, call.inputs = some x → x.remoteKnown key = false → key ∉ x.remoteExcludedKeys →
      (new.get key).map Prod.snd = (old.get key).map Prod.snd) ∧
    (call.inputs = none → ∀ halves, new.get key = some halves → (old.get key).map Prod.snd = some halves.2) ∧
    (∀ x, call.inputs = some x → key.1 ∉ x.enabledPairIds → new.get key = old.get key) ∧
    (∀ x pairIds, (∀ other ∈ x.keys, other.1 ∈ pairIds) →
      (key.1 ∉ pairIds → (reconcilePairs x pairIds old).1.get key = old.get key) ∧
      (key.1 ∈ pairIds → (reconcilePairs x pairIds old).1.get key = (reconcile x old).1.get key)) := by
  dsimp only
  generalize calls.foldl JointCall.run {} = old
  refine ⟨?_, ?_, ?_, ?_, ?_, ?_⟩
  · intro hnone hsome
    cases hin : call.inputs with
    | some x =>
      rcases call.run_get hin old key with heq | heq
      · exact absurd (heq.trans hnone) hsome
      · rw [hnone] at heq
        obtain ⟨halves, hh⟩ := Option.ne_none_iff_exists'.mp hsome
        exact ⟨x, rfl, reconcileEntry_appears (heq.symm.trans hh)⟩
    | none =>
      cases call with
      | pruneConfirmedLocalDeletion pair rootName segments =>
        rcases prunePublished_get pair rootName segments old key with heq | ⟨file, remoteHalf, -, hold, -⟩
        · exact absurd (heq.trans hnone) hsome
        · rw [hnone] at hold; cases hold
      | _ => cases hin
  · intro hsome hnone
    cases hin : call.inputs with
    | some x =>
      left
      obtain ⟨halves, hh⟩ := Option.ne_none_iff_exists'.mp hsome
      rcases call.run_get hin old key with heq | heq
      · exact absurd (heq.symm.trans hnone) hsome
      · rw [hh, hnone] at heq
        exact ⟨x, rfl, reconcileEntry_disappears heq.symm⟩
    | none =>
      right
      cases call with
      | pruneConfirmedLocalDeletion pair rootName segments =>
        rcases prunePublished_get pair rootName segments old key with heq | ⟨file, remoteHalf, rfl, hold, hnew⟩
        · exact absurd (heq.symm.trans hnone) hsome
        · rw [JointCall.run, hnew] at hnone
          split_ifs at hnone with hboth
          rw [hboth.2] at hold
          exact ⟨segments, file, rfl, hold, hboth.1⟩
      | _ => cases hin
  · intro x hin hremote hexcluded
    rcases call.run_get hin old key with heq | heq
    · rw [heq]
    · rw [heq]; exact reconcileEntry_remote hremote hexcluded _
  · intro hin halves hnew
    cases call with
    | pruneConfirmedLocalDeletion pair rootName segments =>
      rw [JointCall.run] at hnew
      rcases prunePublished_get pair rootName segments old key with heq | ⟨file, remoteHalf, rfl, hold, hpruned⟩
      · rw [← heq, hnew]; rfl
      · rw [hpruned] at hnew
        split_ifs at hnew
        rw [hold, ← Option.some.inj hnew]
        rfl
    | _ => cases hin
  · intro x hin hdisabled
    rcases call.run_get hin old key with heq | heq
    · exact heq
    · rw [heq, reconcileEntry, if_pos hdisabled]
  · intro x pairIds hx
    unfold reconcilePairs reconcileDelta reconcile
    rw [reconcileKeys_get, reconcileKeys_get]
    simp only [List.mem_append, List.mem_filter, decide_eq_true_eq]
    constructor
    · intro hout
      rw [if_neg]
      rintro (⟨-, hin⟩ | hin)
      · exact hout hin
      · exact hout (hx key hin)
    · intro hin
      simp [hin]

/-! ## Exclusion takes the remote half -/

/-- The remote half of an excluded root goes although the remote side does not know the root. -/
theorem excluded_root_loses_remote_half :
    let root := SystemFile.mk { name := "root", size := 1, pathPairId := some "a" } []
    let key : RootKey := (some "a", "root")
    let known : JointInputs :=
      { localAuthority := .ofList [(key, some root)]
        remoteAuthority := .ofList [(key, some root)]
        enabledPairIds := [some "a"] }
    let excluding : JointInputs :=
      { localAuthority := .ofList [(key, some root)]
        enabledPairIds := [some "a"]
        remoteExcludedKeys := [key] }
    let old := [JointCall.reconcile known].foldl JointCall.run {}
    old.get key = some (some root, some root) ∧ excluding.remoteKnown key = false ∧
      ((JointCall.reconcile excluding).run old).get key = some (some root, none) := by
  decide

end SeedSync.Progressive
