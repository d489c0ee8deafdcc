import SeedSync.Lib.Fold
import SeedSync.Summary.Cache
import SeedSync.Summary.Counts

/-!
# What the cache may serve

The key of the cache is the model version, the inventory revision, the unknown pairs and the scan
authority; the reconciliation state and the path pairs are not in it. Where these change only behind
a new version or a new revision, a cached summary is the one that would be built now, and a stream
that has nothing left to send has sent it.
-/

namespace SeedSync.Summary

open Lib Live

/-! ## What is outside the key -/

/-- The reconciliation state and the path pairs look the same. -/
structure SameStanding (a b : Inputs) : Prop where
  reconciledLocal : ∀ scope, scope ∈ a.reconciledLocal.map modelScopeId ↔ scope ∈ b.reconciledLocal.map modelScopeId
  reconciledRemote : ∀ scope, scope ∈ a.reconciledRemote.map modelScopeId ↔ scope ∈ b.reconciledRemote.map modelScopeId
  pathPairs : ∀ scope, a.pathPairs.get scope = b.pathPairs.get scope

theorem SameStanding.of_eq {a b : Inputs} (hlocal : a.reconciledLocal = b.reconciledLocal)
    (hremote : a.reconciledRemote = b.reconciledRemote) (hpairs : a.pathPairs = b.pathPairs) : SameStanding a b where
  reconciledLocal scope := by rw [hlocal]
  reconciledRemote scope := by rw [hremote]
  pathPairs scope := by rw [hpairs]

theorem SameStanding.trans {a b c : Inputs} (hab : SameStanding a b) (hbc : SameStanding b c) : SameStanding a c where
  reconciledLocal scope := (hab.reconciledLocal scope).trans (hbc.reconciledLocal scope)
  reconciledRemote scope := (hab.reconciledRemote scope).trans (hbc.reconciledRemote scope)
  pathPairs scope := (hab.pathPairs scope).trans (hbc.pathPairs scope)

theorem sameSet_iff {α : Type} [DecidableEq α] {a b : List α} : sameSet a b = true ↔ ∀ x, x ∈ a ↔ x ∈ b := by
  simp only [sameSet, Bool.and_eq_true, List.all_eq_true, decide_eq_true_eq]
  exact ⟨fun h x => ⟨h.1 x, h.2 x⟩, fun h => ⟨fun x => (h x).1, fun x => (h x).2⟩⟩

theorem summaryFor_congr {a b : Inputs} (hinventory : a.inventory.value = b.inventory.value)
    (hunknown : ∀ pair, pair ∈ a.unknownLocal ↔ pair ∈ b.unknownLocal) (hstanding : SameStanding a b) :
    summaryFor a = summaryFor b := by
  funext scope
  have hmarked : scope ∈ a.unknownLocal.map modelScopeId ↔ scope ∈ b.unknownLocal.map modelScopeId := by
    simp only [List.mem_map, hunknown]
  unfold summaryFor effectivelyReconciledLocal
  simp only [hinventory, hstanding.reconciledLocal scope, hstanding.reconciledRemote scope, hstanding.pathPairs scope, hmarked]

theorem summariesOf_congr {a b : Inputs} (hmodel : a.model.value = b.model.value)
    (hinventory : a.inventory.value = b.inventory.value) (hfor : summaryFor a = summaryFor b) :
    summariesOf a = summariesOf b := by
  have hof : summaryOf a = summaryOf b := by
    funext summaries scope
    rw [summaryOf, hfor]
    rfl
  have haddInventory : addInventory a = addInventory b := by
    funext summaries pair
    rw [addInventory, hof]
    rfl
  have haddToScope : addToScope a = addToScope b := by
    funext summaries root
    unfold addToScope
    rw [hof]
  unfold summariesOf rootsOf
  rw [hmodel, hinventory, haddInventory, haddToScope]

/-! ## The cache -/

/-- The summary of the inputs at its time, and what became of them since. -/
structure BuiltFrom (cache : Cache) (basis now : Inputs) : Prop where
  modelVersion : cache.summary.modelVersion = basis.model.stamp
  pathPairs : cache.summary.pathPairs = (freshSummary basis).pathPairs
  inventoryRevision : cache.inventoryRevision = basis.inventory.stamp
  unknownLocal : cache.unknownLocal = basis.unknownLocal
  model : basis.model.Leads now.model
  inventory : basis.inventory.Leads now.inventory
  standing : basis.model.stamp = now.model.stamp → basis.inventory.stamp = now.inventory.stamp → SameStanding basis now

def Controller.Sound (c : Controller) : Prop := ∀ cache, c.cache = some cache → ∃ basis, BuiltFrom cache basis c.inputs

/-- The cache is of an older model version or inventory revision. -/
def Controller.Outdated (c : Controller) : Prop :=
  ∀ cache, c.cache = some cache →
    cache.summary.modelVersion ≠ c.inputs.model.stamp ∨ cache.inventoryRevision ≠ c.inputs.inventory.stamp

/-- A summary that is served is the one that would be built. -/
theorem Controller.Sound.transparent {c : Controller} (h : c.Sound) (maxAge now : Rat) :
    (c.getModelSummary maxAge now).1 = freshSummary c.inputs := by
  unfold Controller.getModelSummary
  cases hserved : c.served maxAge now with
  | none => rfl
  | some cache =>
    obtain ⟨hcache, hkey⟩ := Option.filter_eq_some_iff.1 hserved
    obtain ⟨basis, hbuilt⟩ := h cache hcache
    simp only [Bool.and_eq_true, decide_eq_true_eq] at hkey
    obtain ⟨⟨⟨⟨⟨-, hversion⟩, hrevision⟩, hunknown⟩, -⟩, -⟩ := hkey
    have hmodel := hbuilt.model.value (hbuilt.modelVersion.symm.trans hversion)
    have hinventory := hbuilt.inventory.value (hbuilt.inventoryRevision.symm.trans hrevision)
    have hstanding := hbuilt.standing (hbuilt.modelVersion.symm.trans hversion) (hbuilt.inventoryRevision.symm.trans hrevision)
    rw [hbuilt.unknownLocal, sameSet_iff] at hunknown
    have hsummaries := summariesOf_congr hmodel hinventory (summaryFor_congr hinventory hunknown hstanding)
    have hpairs : cache.summary.pathPairs = (freshSummary c.inputs).pathPairs := by
      rw [hbuilt.pathPairs]
      simp only [freshSummary, hsummaries]
    simp only [hversion, hpairs, freshSummary]

theorem Controller.Sound.read {c : Controller} (h : c.Sound) (maxAge now : Rat) :
    (c.getModelSummary maxAge now).2.Sound ∧ (c.getModelSummary maxAge now).2.inputs = c.inputs := by
  unfold Controller.getModelSummary
  cases hserved : c.served maxAge now with
  | none =>
    refine ⟨fun cache hcache => ⟨c.inputs, ?_⟩, rfl⟩
    obtain rfl := Option.some.inj hcache
    exact ⟨rfl, rfl, rfl, rfl, .refl _, .refl _, fun _ _ => .of_eq rfl rfl rfl⟩
  | some old =>
    refine ⟨fun cache hcache => ?_, rfl⟩
    obtain ⟨basis, hbuilt⟩ := h old (Option.filter_eq_some_iff.1 hserved).1
    obtain rfl := Option.some.inj hcache
    exact ⟨basis, { hbuilt with }⟩

/-- What a summary reads changes. -/
theorem Controller.Sound.become {c : Controller} (h : c.Sound) (inputs : Inputs) (hmodel : c.inputs.model.Leads inputs.model)
    (hinventory : c.inputs.inventory.Leads inputs.inventory) (hstanding : SameStanding c.inputs inputs ∨ c.Outdated)
    (publicationId : Nat) : Controller.Sound { c with inputs, scanAuthorityPublicationId := publicationId } := by
  intro cache hcache
  obtain ⟨basis, hbuilt⟩ := h cache hcache
  refine ⟨basis, { hbuilt with
    model := hbuilt.model.trans hmodel, inventory := hbuilt.inventory.trans hinventory, standing := ?_ }⟩
  intro hversion hrevision
  -- Stamps only grow, so the cache was up to date before the change too.
  have hversion : basis.model.stamp = c.inputs.model.stamp :=
    Nat.le_antisymm hbuilt.model.stamp (hmodel.stamp.trans_eq hversion.symm)
  have hrevision : basis.inventory.stamp = c.inputs.inventory.stamp :=
    Nat.le_antisymm hbuilt.inventory.stamp (hinventory.stamp.trans_eq hrevision.symm)
  rcases hstanding with hsame | houtdated
  · exact (hbuilt.standing hversion hrevision).trans hsame
  · rcases houtdated cache hcache with hne | hne
    · exact absurd (hbuilt.modelVersion.trans hversion) hne
    · exact absurd (hbuilt.inventoryRevision.trans hrevision) hne

/-! ## The streams -/

/-- Nothing is left to be sent. -/
def Stream.Idle (stream : Stream) : Prop := stream.pending = none ∧ stream.listener.takeNextEvent.1 = none

theorem takeNextEvent_versionChanged (l : Listener) (version : Nat) (pathPairId : Option String) :
    (l.modelVersionChanged version pathPairId).takeNextEvent.1 ≠ none := by
  unfold Listener.modelVersionChanged
  dsimp only
  generalize hscopes : (l.scopes.pop (modelScopeId pathPairId)).set (modelScopeId pathPairId) version = scopes
  have hget : scopes.get (modelScopeId pathPairId) = some version := by rw [← hscopes, Dict.get_set_self]
  split_ifs with hreset hmany
  · simp [Listener.takeNextEvent, hreset]
  · simp [Listener.takeNextEvent]
  · cases hitems : scopes.items with
    | nil => simp [Dict.get, hitems, Dict.getItem] at hget
    | cons => simp [Listener.takeNextEvent, hreset, hitems]

theorem takeNextEvent_summaryChanged (l : Listener) : l.modelSummaryChanged.takeNextEvent.1 ≠ none := by
  simp [Listener.takeNextEvent, Listener.modelSummaryChanged]

/-- What is taken is pending then. -/
theorem take_pending {stream : Stream} (h : stream.take.pending = none) :
    stream.Idle ∧ stream.take.emitted = stream.emitted := by
  unfold Stream.take at h ⊢
  unfold Stream.Idle
  cases htaken : stream.listener.takeNextEvent.1 with
  | none => simpa [htaken] using h
  | some event => simp [htaken] at h

/-! ## Runs -/

/-- The reconciliation state and the path pairs change only while the cache is outdated. -/
def Step.Admitted (s : System) (event : Step) : Prop :=
  SameStanding s.controller.inputs (step s event).controller.inputs ∨ s.controller.Outdated

/-- Every step is admitted where it is made. -/
def Admitted (s : System) : List Step → Prop
  | [] => True
  | event :: events => event.Admitted s ∧ Admitted (step s event) events

structure Sound (s : System) : Prop where
  cache : s.controller.Sound
  streams : s.unannounced = false → ∀ stream ∈ s.streams, stream.Idle → stream.emitted = freshSummary s.controller.inputs

theorem Sound.mutate {s : System} (h : Sound s) (value : Table fun root : Root => root.file.fileId) (pathPairId : Option String) :
    Sound (s.mutate (s.controller.inputs.model.next value) pathPairId) where
  cache := h.cache.become { s.controller.inputs with model := s.controller.inputs.model.next value } (Stamped.leads_next _ _)
    (.refl _) (.inl (.of_eq rfl rfl rfl)) _
  streams := by
    rintro - stream hstream ⟨-, hidle⟩
    obtain ⟨old, -, rfl⟩ := List.mem_map.1 hstream
    exact absurd hidle (takeNextEvent_versionChanged _ _ _)

theorem Sound.become {s : System} (h : Sound s) {inputs : Inputs} (hmodel : s.controller.inputs.model.Leads inputs.model)
    (hinventory : s.controller.inputs.inventory.Leads inputs.inventory)
    (hstanding : SameStanding s.controller.inputs inputs ∨ s.controller.Outdated) : Sound (s.become inputs) where
  cache := h.cache.become inputs hmodel hinventory hstanding _
  streams hannounced := absurd hannounced (by simp [System.become])

theorem Sound.notify {s : System} (h : Sound s) : Sound (step s .notify) where
  cache := h.cache
  streams := by
    rintro - stream hstream ⟨-, hidle⟩
    obtain ⟨old, -, rfl⟩ := List.mem_map.1 hstream
    exact absurd hidle (takeNextEvent_summaryChanged _)

theorem Sound.read {s : System} (h : Sound s) (maxAge now : Rat) : Sound (step s (.read maxAge now)) where
  cache := (h.cache.read maxAge now).1
  streams := by
    have hinputs := (h.cache.read maxAge now).2
    simp only [step, hinputs]
    exact h.streams

theorem Sound.open {s : System} (h : Sound s) (clock : Clock) : Sound (step s (.open clock)) where
  cache := (h.cache.read 0 clock.readAt).1
  streams := by
    have hinputs := (h.cache.read 0 clock.readAt).2
    have hfresh := h.cache.transparent 0 clock.readAt
    intro hannounced stream hstream hidle
    simp only [step] at hstream ⊢
    rw [hinputs]
    rcases List.mem_append.1 hstream with hold | hnew
    · exact h.streams hannounced stream hold hidle
    · rw [List.mem_singleton.1 hnew]
      exact hfresh

theorem Sound.turn {s : System} (h : Sound s) (index : Nat) (clock : Clock) : Sound (step s (.turn index clock)) := by
  cases hstream : s.streams[index]? with
  | none => simpa only [Summary.step, hstream] using h
  | some stream =>
    have hmem : stream ∈ s.streams := List.mem_of_getElem? hstream
    simp only [Summary.step, hstream, Stream.turn]
    split_ifs with hsend
    · -- The summary that is sent is the one that would be built.
      obtain ⟨hsound, hinputs⟩ := h.cache.read summaryMinInterval clock.readAt
      have hfresh := h.cache.transparent summaryMinInterval clock.readAt
      refine ⟨hsound, fun hannounced other hother hidle => ?_⟩
      dsimp only at hother ⊢
      rw [hinputs]
      rcases List.mem_or_eq_of_mem_set hother with hold | rfl
      · exact h.streams hannounced other hold hidle
      · exact hfresh
    · refine ⟨h.cache, fun hannounced other hother hidle => ?_⟩
      rcases List.mem_or_eq_of_mem_set hother with hold | rfl
      · exact h.streams hannounced other hold hidle
      · obtain ⟨hbefore, hsame⟩ := take_pending hidle.1
        exact hsame.trans (h.streams hannounced stream hmem hbefore)

theorem Sound.step {s : System} (h : Sound s) {event : Step} (hevent : event.Admitted s) : Sound (step s event) := by
  cases event with
  | put root => exact h.mutate _ _
  | remove fileId =>
    simp only [Summary.step]
    split
    · exact h
    · exact h.mutate _ _
  | publish fileId progress =>
    simp only [Summary.step]
    split
    · exact h
    · exact h.mutate _ _
  | reconcile onLocal onRemote => exact h.become (.refl _) (.refl _) hevent
  | refresh pathPairs => exact h.become (.refl _) (.refl _) hevent
  | inventory updated =>
    simp only [Summary.step]
    split
    · exact h
    · exact h.become (.refl _) (Stamped.leads_next _ _) (.inl (.of_eq rfl rfl rfl))
  | unknown pathPairIds => exact h.become (.refl _) (.refl _) (.inl (.of_eq rfl rfl rfl))
  | publishScanAuthority snapshot =>
    exact ⟨h.cache.become (s.controller.publishScanAuthority snapshot).inputs (.refl _) (.refl _)
        (.inl (.of_eq rfl rfl rfl)) _,
      fun hannounced => absurd hannounced (by simp [Summary.step])⟩
  | notify => exact h.notify
  | read maxAge now => exact h.read maxAge now
  | «open» clock => exact h.open clock
  | turn index clock => exact h.turn index clock

theorem Sound.run {s : System} (h : Sound s) {events : List Step} (hevents : Admitted s events) : Sound (run s events) := by
  induction events generalizing s with
  | nil => exact h
  | cons event events ih => exact ih (h.step hevents.1) hevents.2

/-- In every run whose steps are admitted, a summary is served as it would be built, a stream with
nothing left to send has sent the one that would be built now, and every path pair counts its roots. -/
theorem summary_cache_transparent (inputs : Inputs) (events : List Step)
    (hevents : Admitted { controller := { inputs } } events) :
    let s := run { controller := { inputs } } events
    (∀ maxAge now, (s.controller.getModelSummary maxAge now).1 = freshSummary s.controller.inputs) ∧
      (s.unannounced = false → ∀ stream ∈ s.streams, stream.Idle →
        stream.emitted = freshSummary s.controller.inputs) ∧
      ∀ summary ∈ (freshSummary s.controller.inputs).pathPairs,
        Adds summary.pathPairId (rootsOf s.controller.inputs) summary := by
  have hstart : Sound { controller := { inputs } } := ⟨fun cache hcache => by simp at hcache, by simp⟩
  have hsound := hstart.run hevents
  exact ⟨hsound.cache.transparent, hsound.streams, freshSummary_adds _⟩

def sampleRoot : Root where
  file := { name := "film", isDir := false, remoteSize := some 5, pathPairId := some "p" }

/-- The remote side is reconciled before anything is cached. -/
theorem reconciled_before_the_first_read :
    let s := run {} [.reconcile none (some [some "p"]), .put sampleRoot, .open ⟨0, 0, 0⟩, .notify]
    (s.controller.getModelSummary (1 / 2) (1 / 4)).1 = freshSummary s.controller.inputs ∧
      (freshSummary s.controller.inputs).pathPairs.map (fun pair => (pair.rootCount, pair.reconciledRemote)) = [(1, true)] := by
  refine ⟨(summary_cache_transparent {} [.reconcile none (some [some "p"]), .put sampleRoot, .open ⟨0, 0, 0⟩, .notify]
    ⟨.inr (fun cache hcache => absurd hcache (by simp)), .inl (.of_eq rfl rfl rfl), .inl (.of_eq rfl rfl rfl),
      .inl (.of_eq rfl rfl rfl), trivial⟩).1 _ _, ?_⟩
  decide +kernel

/-- The remote side is reconciled while a summary is cached that another reader just had built: the
stream sends that summary and has nothing left to send. -/
theorem stale_summary_is_the_last :
    let s := run {} [.put sampleRoot, .open ⟨0, 0, 0⟩, .read 0 (2 / 5), .reconcile none (some [some "p"]), .notify,
      .turn 0 ⟨1 / 2, 1 / 2, 1 / 2⟩]
    s.unannounced = false ∧
      s.streams.map (fun stream => (stream.pending, stream.listener.takeNextEvent.1,
        stream.emitted.pathPairs.map (·.reconciledRemote))) = [(none, none, [false])] ∧
      (s.controller.getModelSummary (1 / 2) (3 / 4)).1.pathPairs.map (·.reconciledRemote) = [false] ∧
      (freshSummary s.controller.inputs).pathPairs.map (·.reconciledRemote) = [true] := by
  decide +kernel

end SeedSync.Summary
