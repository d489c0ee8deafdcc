import Mathlib.Data.List.Induction
import SeedSync.Summary.Model

/-!
# The counts add up

The loop over the roots counts each root once, under its scope, its state and its visible state, and
adds no more bytes to what is there than to what is to be there.
-/

namespace SeedSync.Summary

open Lib Live

/-! ## Counters -/

def total {κ : Type} (counts : Dict κ Nat) : Nat := (counts.items.map Prod.snd).sum

theorem total_countIn {κ : Type} [DecidableEq κ] (counts : Dict κ Nat) (key : κ) : total (countIn counts key) = total counts + 1 := by
  have hsum := Dict.setItem_sum counts.items key ((counts.get key).getD 0 + 1)
  have hget : (Dict.getItem counts.items key).getD 0 = (counts.get key).getD 0 := rfl
  rw [hget] at hsum
  unfold total countIn
  dsimp only [Dict.set]
  omega

/-! ## One path pair -/

/-- The roots of a scope. -/
def rootsIn (scope : String) (roots : List Root) : List Root :=
  roots.filter fun root => decide (modelScopeId root.file.pathPairId = scope)

/-- The summary of a scope counts its roots. -/
structure Adds (scope : String) (roots : List Root) (summary : PairSummary) : Prop where
  pathPairId : summary.pathPairId = scope
  rootCount : summary.rootCount = (rootsIn scope roots).length
  stateCounts : total summary.stateCounts = summary.rootCount
  visibleStateCounts : total summary.visibleStateCounts = summary.rootCount
  transferred : 0 ≤ summary.transferredSize ∧ summary.transferredSize ≤ summary.remoteSize

theorem rootBytes_le {root : Root} {size completed : Int} (h : rootBytes root = some (size, completed)) :
    0 ≤ completed ∧ completed ≤ size := by
  obtain ⟨total, htotal, hpair⟩ := Option.map_eq_some_iff.1 h
  obtain ⟨rfl, rfl⟩ := Prod.mk.inj hpair
  have hpositive : 0 < total := by simpa using (Option.filter_eq_some_iff.1 htotal).2
  omega

/-- What the bytes of a root change, and what they leave. -/
theorem addBytes_spec (root : Root) (summary : PairSummary) :
    ∃ size completed : Int, 0 ≤ completed ∧ completed ≤ size ∧
      addBytes root summary = { summary with
        remoteSize := summary.remoteSize + size
        transferredSize := summary.transferredSize + completed
        localSize := summary.localSize + completed } := by
  unfold addBytes
  cases hbytes : rootBytes root with
  | none => exact ⟨0, 0, Int.le_refl _, Int.le_refl _, by simp⟩
  | some bytes =>
    obtain ⟨hnonneg, hle⟩ := rootBytes_le hbytes
    exact ⟨bytes.1, bytes.2, hnonneg, hle, rfl⟩

/-- The activity of a root leaves the counts and the sizes. -/
theorem addActivity_spec (root : Root) (summary : PairSummary) :
    (addActivity root summary).pathPairId = summary.pathPairId ∧
      (addActivity root summary).rootCount = summary.rootCount ∧
      (addActivity root summary).stateCounts = summary.stateCounts ∧
      (addActivity root summary).visibleStateCounts = summary.visibleStateCounts ∧
      (addActivity root summary).transferredSize = summary.transferredSize ∧
      (addActivity root summary).remoteSize = summary.remoteSize := by
  unfold addActivity addDownloading
  dsimp only
  split_ifs <;> exact ⟨rfl, rfl, rfl, rfl, rfl, rfl⟩

theorem Adds.addRoot {roots : List Root} {root : Root} {summary : PairSummary}
    (h : Adds (modelScopeId root.file.pathPairId) roots summary) :
    Adds (modelScopeId root.file.pathPairId) (roots ++ [root]) (addRoot root summary) := by
  unfold Summary.addRoot
  obtain ⟨size, completed, hnonneg, hle, hbytes⟩ := addBytes_spec root
    { summary with
      pathPairName := summary.pathPairName.or root.file.pathPairName
      rootCount := summary.rootCount + 1 }
  rw [hbytes]
  obtain ⟨hid, hcount, hstates, hvisible, htransferred, hremote⟩ := addActivity_spec root (addStates root
    { summary with
      pathPairName := summary.pathPairName.or root.file.pathPairName
      rootCount := summary.rootCount + 1
      remoteSize := summary.remoteSize + size
      transferredSize := summary.transferredSize + completed
      localSize := summary.localSize + completed })
  have hbelow := h.transferred
  exact {
    pathPairId := hid.trans h.pathPairId
    rootCount := by
      rw [hcount, rootsIn, List.filter_append, List.length_append, ← rootsIn, ← h.rootCount]
      simp [addStates]
    stateCounts := by
      rw [hstates, hcount]
      simp [addStates, total_countIn, h.stateCounts]
    visibleStateCounts := by
      rw [hvisible, hcount]
      simp [addStates, total_countIn, h.visibleStateCounts]
    transferred := by
      rw [htransferred, hremote]
      simp only [addStates]
      omega }

theorem Adds.other {scope : String} {roots : List Root} {root : Root} {summary : PairSummary} (h : Adds scope roots summary)
    (hother : modelScopeId root.file.pathPairId ≠ scope) : Adds scope (roots ++ [root]) summary :=
  { h with rootCount := by rw [h.rootCount, rootsIn, rootsIn, List.filter_append]; simp [hother] }

/-! ## All path pairs -/

/-- Every scope is counted, and one that has no summary has no roots. -/
def AddsAll (roots : List Root) (summaries : Dict String PairSummary) : Prop :=
  ∀ scope, (∀ summary, summaries.get scope = some summary → Adds scope roots summary) ∧
    (summaries.get scope = none → rootsIn scope roots = [])

theorem adds_summaryFor (inputs : Inputs) (scope : String) {roots : List Root} (h : rootsIn scope roots = []) :
    Adds scope roots (summaryFor inputs scope) where
  pathPairId := rfl
  rootCount := by rw [h]; rfl
  stateCounts := rfl
  visibleStateCounts := rfl
  transferred := ⟨Int.le_refl _, Int.le_refl _⟩

theorem AddsAll.summaryOf {roots : List Root} {summaries : Dict String PairSummary} (h : AddsAll roots summaries)
    (inputs : Inputs) (scope : String) : Adds scope roots (summaryOf inputs summaries scope) := by
  unfold Summary.summaryOf
  cases hget : summaries.get scope with
  | some summary => exact (h scope).1 summary hget
  | none => exact adds_summaryFor inputs scope ((h scope).2 hget)

theorem addsAll_inventory (inputs : Inputs) (pairs : List (Option String)) :
    AddsAll [] (pairs.foldl (addInventory inputs) {}) := by
  induction pairs using List.reverseRecOn with
  | nil => exact fun scope => ⟨by simp, fun _ => rfl⟩
  | append_singleton pairs pair ih =>
    rw [List.foldl_append, List.foldl_cons, List.foldl_nil]
    intro scope
    refine ⟨fun summary hget => ?_, fun _ => rfl⟩
    rcases Dict.eq_or_of_get_set hget with ⟨rfl, rfl⟩ | hold
    · exact ih.summaryOf inputs _
    · exact (ih scope).1 summary hold

theorem AddsAll.addToScope {roots : List Root} {summaries : Dict String PairSummary} (h : AddsAll roots summaries)
    (inputs : Inputs) (root : Root) : AddsAll (roots ++ [root]) (addToScope inputs summaries root) := by
  intro scope
  unfold Summary.addToScope
  dsimp only
  by_cases hscope : modelScopeId root.file.pathPairId = scope
  · subst hscope
    rw [Dict.get_set_self]
    refine ⟨fun summary hsummary => ?_, by simp⟩
    exact Option.some.inj hsummary ▸ (h.summaryOf inputs _).addRoot
  · rw [Dict.get_set_ne _ hscope]
    refine ⟨fun summary hget => ((h scope).1 summary hget).other hscope, fun hget => ?_⟩
    rw [rootsIn, List.filter_append, ← rootsIn, (h scope).2 hget]
    simp [hscope]

theorem addsAll_roots (inputs : Inputs) (roots : List Root) :
    AddsAll roots (roots.foldl (addToScope inputs) (inputs.inventory.value.keys.foldl (addInventory inputs) {})) := by
  induction roots using List.reverseRecOn with
  | nil => exact addsAll_inventory inputs _
  | append_singleton roots root ih =>
    rw [List.foldl_append, List.foldl_cons, List.foldl_nil]
    exact ih.addToScope inputs root

/-- Every path pair of a summary counts its roots. -/
theorem freshSummary_adds (inputs : Inputs) :
    ∀ summary ∈ (freshSummary inputs).pathPairs, Adds summary.pathPairId (rootsOf inputs) summary := by
  intro summary hsummary
  obtain ⟨scope, -, hget⟩ := List.mem_filterMap.1 hsummary
  have hadds := (addsAll_roots inputs (rootsOf inputs) scope).1 summary hget
  rw [hadds.pathPairId]
  exact hadds

end SeedSync.Summary
