import Mathlib.Data.List.Dedup
import SeedSync.Builder.Inventory

/-!
# How fresh an inventory is

What one operation does to the inventory of a pair, and what follows for runs: the counts are those of
the last completion, the revision follows the map, and a failed inventory stays stale but where an
observation calls it recoverable or unknown.
-/

namespace SeedSync.Builder.Library

open SystemFile Lib

variable {heap : Address → SystemFile} {s : Library} {pair : Pair}

/-! ## What one operation does -/

section Operations

theorem get_replaceLocalLibraryInventory (updated : Dict Pair LocalLibraryInventory) (pair : Pair) :
    (s.replaceLocalLibraryInventory updated).inventoryByPair.get pair = updated.get pair := by
  unfold replaceLocalLibraryInventory
  split_ifs with hsame
  · exact (Dict.same_iff.1 hsame pair).symm
  · rfl

theorem localBucket_replaceLocalLibraryInventory (updated : Dict Pair LocalLibraryInventory) (pair : Pair) :
    (s.replaceLocalLibraryInventory updated).localBucket pair = s.localBucket pair := by
  unfold replaceLocalLibraryInventory
  split_ifs <;> rfl

/-- The revision counts the changes of the map. -/
def Counts (s s' : Library) : Prop :=
  s'.revision = s.revision ∧ (∀ pair, s'.inventoryByPair.get pair = s.inventoryByPair.get pair) ∨
    s'.revision = s.revision + 1 ∧ ∃ pair, s'.inventoryByPair.get pair ≠ s.inventoryByPair.get pair

theorem counts_replaceLocalLibraryInventory (updated : Dict Pair LocalLibraryInventory) :
    Counts s (s.replaceLocalLibraryInventory updated) := by
  unfold replaceLocalLibraryInventory
  split_ifs with hsame
  · exact Or.inl ⟨rfl, fun _ => rfl⟩
  · refine Or.inr ⟨rfl, ?_⟩
    by_contra hall
    push Not at hall
    exact hsame (Dict.same_iff.2 hall)

theorem get_begin (enabled : List Pair) (pair : Pair) :
    (s.beginLocalInventoryRuntimeGeneration enabled).inventoryByPair.get pair =
      if pair ∈ enabled then (s.inventoryByPair.get pair).map begun else none := by
  unfold beginLocalInventoryRuntimeGeneration
  rw [get_replaceLocalLibraryInventory, Dict.get_mapValues]
  by_cases henabled : pair ∈ enabled
  · rw [if_pos henabled]
    congr 1
    ext value
    rw [Dict.get_filter_eq_some]
    simp [henabled]
  · rw [if_neg henabled]
    cases hget : (s.inventoryByPair.filter fun pathPairId _ => decide (pathPairId ∈ enabled)).get pair with
    | none => rfl
    | some value =>
      rw [Dict.get_filter_eq_some] at hget
      exact absurd (by simpa using hget.2) henabled

theorem affected_nodup (o : Observation) : o.affected.Nodup := by
  unfold Observation.affected
  dsimp only
  split_ifs
  · exact List.nodup_singleton none
  · exact List.nodup_dedup _

theorem get_observe (o : Observation) (pair : Pair) :
    (s.observeLocalScanResult o).inventoryByPair.get pair =
      if pair ∈ o.affected then some (o.inventory pair (s.inventoryByPair.get pair)) else s.inventoryByPair.get pair := by
  unfold observeLocalScanResult
  rw [get_replaceLocalLibraryInventory, Dict.get_foldl_update o.inventory _ (affected_nodup o)]
  by_cases hmem : pair ∈ o.affected
  · rw [if_pos hmem, if_pos hmem]
  · rw [if_neg hmem, if_neg hmem]

theorem get_record (pathPairIds : List Pair) (pair : Pair) :
    (s.recordLocalInventoryCompletion heap pathPairIds).inventoryByPair.get pair =
      if pair ∈ pathPairIds then some (s.counted heap pair) else s.inventoryByPair.get pair := by
  unfold recordLocalInventoryCompletion
  rw [get_replaceLocalLibraryInventory,
    Dict.get_foldl_update (fun pathPairId _ => s.counted heap pathPairId) _ (List.nodup_dedup pathPairIds)]
  by_cases hmem : pair ∈ pathPairIds
  · rw [if_pos (List.mem_dedup.2 hmem), if_pos hmem]
  · rw [if_neg fun h => hmem (List.mem_dedup.1 h), if_neg hmem]

theorem get_putBucket (buckets : Dict Pair Bucket) (pathPairId : Pair) (files : Bucket) (pair : Pair) :
    ((putBucket buckets pathPairId files).get pair).getD {} =
      if pair = pathPairId then files else (buckets.get pair).getD {} := by
  unfold putBucket
  split_ifs with hempty hpair hpair
  · subst hpair
    rw [Dict.get_pop_self]
    exact Dict.eq_of_items hempty.symm
  · rw [Dict.get_pop_ne _ (Ne.symm hpair)]
  · subst hpair
    rw [Dict.get_set_self]
    rfl
  · rw [Dict.get_set_ne _ (Ne.symm hpair)]

theorem localBucket_replaceAuthoritativePairSources (build : PairBuild) (pair : Pair) :
    (s.replaceAuthoritativePairSources build).2.localBucket pair =
      if pair = build.pathPairId then build.localFiles else s.localBucket pair :=
  get_putBucket _ _ _ _

theorem counted_congr {s' : Library} (h : ∀ fileId, (s.localBucket pair).get fileId = (s'.localBucket pair).get fileId) :
    s.counted heap pair = s'.counted heap pair := by
  have hperm : (s.localTrees heap pair).Perm (s'.localTrees heap pair) := (Dict.items_perm h).map _
  unfold counted
  rw [localRegularFileInventory_eq, localRegularFileInventory_eq, numberAndSize_perm hperm]

/-- Sources whose objects are the same on the local side. -/
theorem get_localFiles_of_unchanged {build : PairBuild} (h : (s.replaceAuthoritativePairSources build).1 = false)
    (fileId : FileId) : (s.localBucket build.pathPairId).get fileId = build.localFiles.get fileId := by
  unfold replaceAuthoritativePairSources at h
  rw [List.any_eq_false] at h
  by_contra hne
  by_cases hold : fileId ∈ (s.localBucket build.pathPairId).keys
  · exact h fileId (by simp [hold]) (by simpa using hne)
  by_cases hnew : fileId ∈ build.localFiles.keys
  · exact h fileId (by simp [hnew]) (by simpa using hne)
  rw [Dict.mem_keys, not_not] at hold hnew
  exact hne (hold.trans hnew.symm)

/-- An inventory that is up to date is that of the trees. -/
def Current (heap : Address → SystemFile) (s : Library) : Prop :=
  ∀ pair inventory, s.inventoryByPair.get pair = some inventory → inventory.state = .upToDate →
    inventory = s.counted heap pair

/-- A commit that supplies the local side leaves the inventory of its trees, counted now or before. -/
theorem get_adopt (hcurrent : Current heap s) (build : PairBuild) (pair : Pair) :
    (s.adoptAuthoritativePairDelta heap build).inventoryByPair.get pair =
      if pair = build.pathPairId then some ((s.adoptAuthoritativePairDelta heap build).counted heap pair)
      else s.inventoryByPair.get pair := by
  unfold adoptAuthoritativePairDelta recordAfterPairSourceCommit
  dsimp only
  have hinventory : (s.replaceAuthoritativePairSources build).2.inventoryByPair = s.inventoryByPair := rfl
  split_ifs with hrecount hpair hpair
  · rw [get_record, if_pos (by simp [hpair])]
    refine congrArg some (counted_congr fun fileId => ?_)
    unfold recordLocalInventoryCompletion
    rw [localBucket_replaceLocalLibraryInventory]
  · rw [get_record, if_neg (by simpa using hpair), hinventory]
  · rw [not_or, Bool.not_eq_true, not_not, hinventory] at hrecount
    obtain ⟨inventory, hget, hstate⟩ := Option.map_eq_some_iff.1 hrecount.2
    rw [hinventory, hpair, hget, hcurrent _ _ hget hstate]
    refine congrArg some (counted_congr fun fileId => ?_)
    rw [localBucket_replaceAuthoritativePairSources, if_pos rfl]
    exact get_localFiles_of_unchanged hrecount.1 fileId
  · rw [hinventory]

theorem counts_adopt (build : PairBuild) : Counts s (s.adoptAuthoritativePairDelta heap build) := by
  unfold adoptAuthoritativePairDelta recordAfterPairSourceCommit
  dsimp only
  split_ifs
  · exact counts_replaceLocalLibraryInventory (s := (s.replaceAuthoritativePairSources build).2) _
  · exact Or.inl ⟨rfl, fun _ => rfl⟩

theorem localBucket_adopt (build : PairBuild) (pair : Pair) :
    (s.adoptAuthoritativePairDelta heap build).localBucket pair =
      if pair = build.pathPairId then build.localFiles else s.localBucket pair := by
  unfold adoptAuthoritativePairDelta recordAfterPairSourceCommit
  dsimp only
  rw [← localBucket_replaceAuthoritativePairSources]
  split_ifs
  · unfold recordLocalInventoryCompletion
    rw [localBucket_replaceLocalLibraryInventory]
  · rfl

end Operations

/-! ## The law of one operation -/

/-- The pair's last scan has failed. -/
def Stale (s : Library) (pair : Pair) : Prop :=
  (s.inventoryByPair.get pair).map LocalLibraryInventory.state = some .stale

instance : Decidable (s.Stale pair) := inferInstanceAs (Decidable (_ = some LibraryState.stale))

def fileCount (s : Library) (pair : Pair) : Option Nat := (s.inventoryByPair.get pair).bind LocalLibraryInventory.fileCount

def librarySize (s : Library) (pair : Pair) : Option Nat := (s.inventoryByPair.get pair).bind LocalLibraryInventory.size

/-- The commit is one of the sources that it was staged on. -/
def Accepted (s : Library) (build : PairBuild) : Prop :=
  sameSourceBucketByIdentity (s.localBucket build.pathPairId) build.previousLocalFiles = true ∧
    sameSourceBucketByIdentity (s.remoteBucket build.pathPairId) build.previousRemoteFiles = true

/-- The operation records the pair as complete, or commits a local side for it. -/
def Completes (s : Library) : Operation → Pair → Prop
  | .begin _ _, _ => False
  | .observe _, _ => False
  | .record pathPairIds, pair => pair ∈ pathPairIds
  | .adopt build, pair => pair = build.pathPairId
  | .commit build, pair => s.Accepted build ∧ pair = build.pathPairId
  | .replace pathPairId localFiles _, pair => localFiles.isSome = true ∧ pair = pathPairId

/-- The pair is no longer enabled. -/
def Drops : Operation → Pair → Prop
  | .begin enabled _, pair => pair ∉ enabled
  | _, _ => False

/-- What every operation keeps. -/
structure Law (heap : Address → SystemFile) (s : Library) (op : Operation) : Prop where
  counts : ∀ pair, (s.step heap op).fileCount pair ≠ s.fileCount pair ∨
    (s.step heap op).librarySize pair ≠ s.librarySize pair → s.Completes op pair ∨ Drops op pair
  completed : ∀ pair, s.Completes op pair → ∃ inventory, (s.step heap op).inventoryByPair.get pair = some inventory ∧
    inventory.state = .upToDate ∧
    (inventory.fileCount, inventory.size) =
      (some (numberAndSize (regularFilesOf ((s.step heap op).localTrees heap pair))).1,
        some (numberAndSize (regularFilesOf ((s.step heap op).localTrees heap pair))).2)
  dropped : ∀ pair, Drops op pair → (s.step heap op).inventoryByPair.get pair = none
  revision : Counts s (s.step heap op)

/-- An observation calls the failed scan of a pair recoverable, or the pair unknown, and no failure for good. -/
def Softens (s : Library) : Operation → Prop
  | .observe o => ∃ pair ∈ o.affected, s.Stale pair ∧ o.terminal pair = false ∧ (o.failed = true ∨ pair ∈ o.unknown)
  | _ => False

section Law

theorem commit_of_accepted {build : PairBuild} (h : s.Accepted build) :
    s.commitAuthoritativePairSourcesForFullRebuild heap build = s.adoptAuthoritativePairDelta heap build := by
  unfold commitAuthoritativePairSourcesForFullRebuild
  rw [h.1, h.2]
  rfl

theorem commit_of_refused {build : PairBuild} (h : ¬ s.Accepted build) :
    s.commitAuthoritativePairSourcesForFullRebuild heap build = s := by
  unfold commitAuthoritativePairSourcesForFullRebuild
  rw [if_pos]
  unfold Accepted at h
  rw [not_and_or] at h
  simpa using h

/-- The build that a full replacement makes of its files. -/
def replacement (s : Library) (heap : Address → SystemFile) (pathPairId : Pair) (localFiles remoteFiles : Option (List Address)) :
    PairBuild where
  pathPairId
  previousLocalFiles := s.localBucket pathPairId
  previousRemoteFiles := s.remoteBucket pathPairId
  localFiles := match localFiles with
    | none => s.localBucket pathPairId
    | some files => bucketOf heap pathPairId files
  remoteFiles := match remoteFiles with
    | none => s.remoteBucket pathPairId
    | some files => bucketOf heap pathPairId files

theorem replace_local (pathPairId : Pair) (files : List Address) (remoteFiles : Option (List Address)) :
    s.replaceCompletedPairSourcesForFullRebuild heap pathPairId (some files) remoteFiles =
      s.adoptAuthoritativePairDelta heap (s.replacement heap pathPairId (some files) remoteFiles) := rfl

/-- A replacement of the remote side alone changes neither the inventory nor a local tree. -/
theorem replace_remote (pathPairId : Pair) (remoteFiles : Option (List Address)) (pair : Pair) :
    (s.replaceCompletedPairSourcesForFullRebuild heap pathPairId none remoteFiles).inventoryByPair = s.inventoryByPair ∧
      (s.replaceCompletedPairSourcesForFullRebuild heap pathPairId none remoteFiles).revision = s.revision ∧
      (s.replaceCompletedPairSourcesForFullRebuild heap pathPairId none remoteFiles).localBucket pair = s.localBucket pair := by
  refine ⟨rfl, rfl, ?_⟩
  have hbucket := localBucket_replaceAuthoritativePairSources (s := s)
    (s.replacement heap pathPairId none remoteFiles) pair
  rw [show (s.replaceCompletedPairSourcesForFullRebuild heap pathPairId none remoteFiles) =
    (s.replaceAuthoritativePairSources (s.replacement heap pathPairId none remoteFiles)).2 from rfl, hbucket]
  split_ifs with hpair
  · rw [hpair]
    rfl
  · rfl

/-- What an operation does to a pair's inventory. -/
theorem get_step (hcurrent : Current heap s) (op : Operation) (pair : Pair) :
    (s.Completes op pair ∧ (s.step heap op).inventoryByPair.get pair = some ((s.step heap op).counted heap pair)) ∨
    (¬ s.Completes op pair ∧ (s.step heap op).inventoryByPair.get pair = match op with
      | .begin enabled _ => if pair ∈ enabled then (s.inventoryByPair.get pair).map begun else none
      | .observe o =>
        if pair ∈ o.affected then some (o.inventory pair (s.inventoryByPair.get pair)) else s.inventoryByPair.get pair
      | _ => s.inventoryByPair.get pair) := by
  have hadopt : ∀ build : PairBuild,
      (pair = build.pathPairId ∧ (s.adoptAuthoritativePairDelta heap build).inventoryByPair.get pair =
        some ((s.adoptAuthoritativePairDelta heap build).counted heap pair)) ∨
      (pair ≠ build.pathPairId ∧
        (s.adoptAuthoritativePairDelta heap build).inventoryByPair.get pair = s.inventoryByPair.get pair) := by
    intro build
    rw [get_adopt hcurrent]
    by_cases hpair : pair = build.pathPairId
    · exact Or.inl ⟨hpair, if_pos hpair⟩
    · exact Or.inr ⟨hpair, if_neg hpair⟩
  cases op with
  | begin enabled changed => exact Or.inr ⟨id, get_begin enabled pair⟩
  | observe o => exact Or.inr ⟨id, get_observe o pair⟩
  | record pathPairIds =>
    change (pair ∈ pathPairIds ∧ (s.recordLocalInventoryCompletion heap pathPairIds).inventoryByPair.get pair =
      some ((s.recordLocalInventoryCompletion heap pathPairIds).counted heap pair)) ∨ (pair ∉ pathPairIds ∧
      (s.recordLocalInventoryCompletion heap pathPairIds).inventoryByPair.get pair = s.inventoryByPair.get pair)
    rw [get_record]
    by_cases hpair : pair ∈ pathPairIds
    · refine Or.inl ⟨hpair, ?_⟩
      rw [if_pos hpair]
      refine congrArg some (counted_congr fun fileId => ?_)
      unfold recordLocalInventoryCompletion
      rw [localBucket_replaceLocalLibraryInventory]
    · exact Or.inr ⟨hpair, if_neg hpair⟩
  | adopt build => exact hadopt build
  | commit build =>
    change (s.Completes (.commit build) pair ∧
      (s.commitAuthoritativePairSourcesForFullRebuild heap build).inventoryByPair.get pair =
        some ((s.commitAuthoritativePairSourcesForFullRebuild heap build).counted heap pair)) ∨
      (¬ s.Completes (.commit build) pair ∧
        (s.commitAuthoritativePairSourcesForFullRebuild heap build).inventoryByPair.get pair = s.inventoryByPair.get pair)
    by_cases haccepted : s.Accepted build
    · rw [commit_of_accepted haccepted]
      rcases hadopt build with ⟨hpair, hget⟩ | ⟨hpair, hget⟩
      · exact Or.inl ⟨⟨haccepted, hpair⟩, hget⟩
      · exact Or.inr ⟨fun h => hpair h.2, hget⟩
    · rw [commit_of_refused haccepted]
      exact Or.inr ⟨fun h => haccepted h.1, rfl⟩
  | replace pathPairId localFiles remoteFiles =>
    cases localFiles with
    | none => exact Or.inr ⟨fun h => absurd h.1 (by simp), rfl⟩
    | some files =>
      rcases hadopt (s.replacement heap pathPairId (some files) remoteFiles) with ⟨hpair, hget⟩ | ⟨hpair, hget⟩
      · exact Or.inl ⟨⟨rfl, hpair⟩, hget⟩
      · exact Or.inr ⟨fun h => hpair h.2, hget⟩

/-- A pair that is not completed keeps its local trees. -/
theorem localBucket_step {op : Operation} (h : ¬ s.Completes op pair) : (s.step heap op).localBucket pair = s.localBucket pair := by
  cases op with
  | begin enabled changed => exact localBucket_replaceLocalLibraryInventory _ _
  | observe o => exact localBucket_replaceLocalLibraryInventory _ _
  | record pathPairIds => exact localBucket_replaceLocalLibraryInventory _ _
  | adopt build =>
    exact (localBucket_adopt build pair).trans (if_neg h)
  | commit build =>
    change (s.commitAuthoritativePairSourcesForFullRebuild heap build).localBucket pair = _
    by_cases haccepted : s.Accepted build
    · rw [commit_of_accepted haccepted, localBucket_adopt, if_neg fun hpair => h ⟨haccepted, hpair⟩]
    · rw [commit_of_refused haccepted]
  | replace pathPairId localFiles remoteFiles =>
    cases localFiles with
    | none => exact (replace_remote pathPairId remoteFiles pair).2.2
    | some files =>
      refine (localBucket_adopt (s.replacement heap pathPairId (some files) remoteFiles) pair).trans (if_neg ?_)
      exact fun hpair => h ⟨rfl, hpair⟩

theorem begun_state (existing : LocalLibraryInventory) : (begun existing).state ≠ .upToDate := by
  unfold begun
  dsimp only
  split_ifs <;> simp

theorem observed_state (o : Observation) (pair : Pair) (existing : Option LocalLibraryInventory) :
    (o.inventory pair existing).state ≠ .upToDate := by
  unfold Observation.inventory
  dsimp only
  split_ifs <;> simp

/-- What is up to date stays so. -/
theorem Current.step (h : Current heap s) (op : Operation) : Current heap (s.step heap op) := by
  intro pair inventory hget hstate
  rcases get_step h op pair with ⟨-, hnew⟩ | ⟨hkept, hnew⟩
  · exact Option.some.inj (hget.symm.trans hnew)
  · have hcounted : s.counted heap pair = (s.step heap op).counted heap pair :=
      counted_congr fun fileId => by rw [localBucket_step hkept]
    have hold : s.inventoryByPair.get pair = some inventory → inventory = (s.step heap op).counted heap pair :=
      fun hold => (h _ _ hold hstate).trans hcounted
    rw [hget] at hnew
    cases op with
    | begin enabled changed =>
      dsimp only at hnew
      split_ifs at hnew with henabled
      obtain ⟨existing, -, rfl⟩ := Option.map_eq_some_iff.1 hnew.symm
      exact absurd hstate (begun_state existing)
    | observe o =>
      dsimp only at hnew
      split_ifs at hnew
      · rw [Option.some.inj hnew] at hstate
        exact absurd hstate (observed_state o pair _)
      · exact hold hnew.symm
    | record pathPairIds => exact hold hnew.symm
    | adopt build => exact hold hnew.symm
    | commit build => exact hold hnew.symm
    | replace pathPairId localFiles remoteFiles => exact hold hnew.symm

theorem counts_step (op : Operation) : Counts s (s.step heap op) := by
  cases op with
  | begin enabled changed => exact counts_replaceLocalLibraryInventory _
  | observe o => exact counts_replaceLocalLibraryInventory _
  | record pathPairIds => exact counts_replaceLocalLibraryInventory _
  | adopt build => exact counts_adopt build
  | commit build =>
    change Counts s (s.commitAuthoritativePairSourcesForFullRebuild heap build)
    by_cases haccepted : s.Accepted build
    · rw [commit_of_accepted haccepted]
      exact counts_adopt build
    · rw [commit_of_refused haccepted]
      exact Or.inl ⟨rfl, fun _ => rfl⟩
  | replace pathPairId localFiles remoteFiles =>
    cases localFiles with
    | none => exact Or.inl ⟨rfl, fun _ => rfl⟩
    | some files => exact counts_adopt _

/-- An observation and a new generation keep the numbers. -/
theorem numbers_step (h : Current heap s) {op : Operation} (hcompletes : ¬ s.Completes op pair) (hdrops : ¬ Drops op pair) :
    (s.step heap op).fileCount pair = s.fileCount pair ∧ (s.step heap op).librarySize pair = s.librarySize pair := by
  have hnew := ((get_step h op pair).resolve_left fun hdone => hcompletes hdone.1).2
  unfold fileCount librarySize
  rw [hnew]
  cases op with
  | begin enabled changed =>
    dsimp only
    rw [if_pos (not_not.1 hdrops)]
    cases s.inventoryByPair.get pair <;> exact ⟨rfl, rfl⟩
  | observe o =>
    dsimp only
    split_ifs
    · unfold Observation.inventory
      dsimp only
      split_ifs <;> exact ⟨rfl, rfl⟩
    · exact ⟨rfl, rfl⟩
  | record pathPairIds => exact ⟨rfl, rfl⟩
  | adopt build => exact ⟨rfl, rfl⟩
  | commit build => exact ⟨rfl, rfl⟩
  | replace pathPairId localFiles remoteFiles => exact ⟨rfl, rfl⟩

theorem observed_stale {o : Observation} {existing : Option LocalLibraryInventory}
    (hstale : existing.map LocalLibraryInventory.state = some .stale) :
    (o.inventory pair existing).state = .stale ↔ o.terminal pair = true ∨ ¬ (o.failed = true ∨ pair ∈ o.unknown) := by
  obtain ⟨inventory, rfl, hstate⟩ := Option.map_eq_some_iff.1 hstale
  unfold Observation.inventory
  dsimp only
  cases hterminal : o.terminal pair with
  | true => simp
  | false =>
    rw [if_neg (by simp)]
    by_cases hsoft : o.failed = true ∨ pair ∈ o.unknown
    · rw [if_pos (by simpa using hsoft)]
      simp [hsoft]
    · rw [if_neg (by simpa using hsoft)]
      simp [hsoft, hstate]

/-- A failed inventory stays so just where no observation softens it. -/
theorem stale_step_iff (h : Current heap s) (op : Operation) :
    (∀ pair, s.Stale pair → ¬ s.Completes op pair → ¬ Drops op pair → (s.step heap op).Stale pair) ↔ ¬ s.Softens op := by
  constructor
  · intro hstale hsoftens
    cases op with
    | observe o =>
      obtain ⟨pair, hmem, hpair, hterminal, hsoft⟩ := hsoftens
      have hnew := hstale pair hpair id id
      unfold Stale at hnew
      rw [show (s.step heap (.observe o)).inventoryByPair.get pair = _ from get_observe o pair, if_pos hmem] at hnew
      rcases (observed_stale hpair).1 (Option.some.inj hnew) with hfailed | hclear
      · rw [hterminal] at hfailed
        cases hfailed
      · exact hclear hsoft
    | begin enabled changed => exact hsoftens
    | record pathPairIds => exact hsoftens
    | adopt build => exact hsoftens
    | commit build => exact hsoftens
    | replace pathPairId localFiles remoteFiles => exact hsoftens
  · intro hfirm pair hstale hcompletes hdrops
    have hnew := ((get_step h op pair).resolve_left fun hdone => hcompletes hdone.1).2
    unfold Stale
    rw [hnew]
    cases op with
    | observe o =>
      dsimp only
      split_ifs with hmem
      · refine congrArg some ((observed_stale hstale).2 ?_)
        by_contra hboth
        rw [not_or, not_not, Bool.not_eq_true] at hboth
        exact hfirm ⟨pair, hmem, hstale, hboth⟩
      · exact hstale
    | begin enabled changed =>
      dsimp only
      rw [if_pos (not_not.1 hdrops)]
      obtain ⟨inventory, hget, hstate⟩ := Option.map_eq_some_iff.1 hstale
      rw [hget]
      simp [begun, hstate]
    | record pathPairIds => exact hstale
    | adopt build => exact hstale
    | commit build => exact hstale
    | replace pathPairId localFiles remoteFiles => exact hstale

theorem law_step (h : Current heap s) (op : Operation) : Law heap s op := by
  constructor
  · intro pair hchanged
    by_contra hneither
    rw [not_or] at hneither
    obtain ⟨hcount, hsize⟩ := numbers_step h hneither.1 hneither.2
    exact hchanged.elim (fun hne => hne hcount) fun hne => hne hsize
  · intro pair hcompletes
    rcases get_step h op pair with ⟨-, hnew⟩ | ⟨hkept, -⟩
    · refine ⟨_, hnew, rfl, ?_⟩
      unfold counted
      rw [localRegularFileInventory_eq]
    · exact absurd hcompletes hkept
  · intro pair hdrops
    cases op with
    | begin enabled changed => exact (get_begin enabled pair).trans (if_neg hdrops)
    | observe o => cases hdrops
    | record pathPairIds => cases hdrops
    | adopt build => cases hdrops
    | commit build => cases hdrops
    | replace pathPairId localFiles remoteFiles => cases hdrops
  · exact counts_step op

/-! ## Runs -/

theorem run_append (heap : Address → SystemFile) (s : Library) (before ops : List Operation) :
    run heap s (before ++ ops) = run heap (run heap s before) ops := by
  induction before generalizing s with
  | nil => rfl
  | cons op before ih => exact ih (s.step heap op)

theorem Current.run (h : Current heap s) (ops : List Operation) : Current heap (run heap s ops) := by
  induction ops generalizing s with
  | nil => exact h
  | cons op ops ih => exact ih (h.step op)

/-- No operation completes the pair or disables it. -/
def Untouched (heap : Address → SystemFile) : Library → List Operation → Pair → Prop
  | _, [], _ => True
  | s, op :: ops, pair => ¬ s.Completes op pair ∧ ¬ Drops op pair ∧ Untouched heap (s.step heap op) ops pair

/-- A failed inventory stays so until its pair is completed or disabled. -/
def StaysStale (heap : Address → SystemFile) (s : Library) (ops : List Operation) : Prop :=
  ∀ before between after pair, ops = before ++ between ++ after → (run heap s before).Stale pair →
    Untouched heap (run heap s before) between pair → (run heap s (before ++ between)).Stale pair

/-- Some operation of the run softens a failed inventory. -/
def SoftensIn (heap : Address → SystemFile) (s : Library) (ops : List Operation) : Prop :=
  ∃ before op after, ops = before ++ op :: after ∧ (run heap s before).Softens op

theorem stale_run {ops : List Operation} (h : Current heap s) (hfirm : ¬ SoftensIn heap s ops) (hstale : s.Stale pair)
    (huntouched : Untouched heap s ops pair) : (run heap s ops).Stale pair := by
  induction ops generalizing s with
  | nil => exact hstale
  | cons op ops ih =>
    obtain ⟨hcompletes, hdrops, hrest⟩ := huntouched
    have hstep := (stale_step_iff h op).2 (fun hsoftens => hfirm ⟨[], op, ops, rfl, hsoftens⟩) pair hstale hcompletes hdrops
    refine ih (h.step op) (fun ⟨before, other, after, hops, hsoftens⟩ => ?_) hstep hrest
    exact hfirm ⟨op :: before, other, after, by rw [hops]; rfl, hsoftens⟩

theorem staysStale_iff (h : Current heap s) (ops : List Operation) : StaysStale heap s ops ↔ ¬ SoftensIn heap s ops := by
  constructor
  · rintro hstays ⟨before, op, after, hops, hsoftens⟩
    refine (stale_step_iff (h.run before) op).1 (fun pair hstale hcompletes hdrops => ?_) hsoftens
    have hnew := hstays before [op] after pair (by rw [hops]; simp) hstale ⟨hcompletes, hdrops, trivial⟩
    rwa [run_append] at hnew
  · intro hfirm before between after pair hops hstale huntouched
    rw [run_append]
    refine stale_run (h.run before) (fun ⟨front, op, rest, hbetween, hsoftens⟩ => hfirm ?_) hstale huntouched
    refine ⟨before ++ front, op, rest ++ after, by rw [hops, hbetween]; simp, ?_⟩
    rwa [run_append]

/-- Runs keep the law, and failed inventories stale just where no observation softens one. -/
theorem run_lawful (heap : Address → SystemFile) (localFiles remoteFiles : Dict Pair Bucket) (revision : Nat)
    (ops : List Operation) :
    (StaysStale heap ⟨localFiles, remoteFiles, {}, revision⟩ ops ∧
      ∀ before op after, ops = before ++ op :: after → Law heap (run heap ⟨localFiles, remoteFiles, {}, revision⟩ before) op) ↔
      ¬ SoftensIn heap ⟨localFiles, remoteFiles, {}, revision⟩ ops := by
  have hstart : Current heap ⟨localFiles, remoteFiles, {}, revision⟩ := fun _ _ hget _ => by cases hget
  rw [staysStale_iff hstart, and_iff_left]
  exact fun before op after _ => law_step (hstart.run before) op

/-- A failed scan, and then one that is to be tried again. -/
def retriedOps : List Operation :=
  [.record [some "a"], .observe ⟨[some "a"], [], [some "a"], true, none, some [some "a"]⟩,
    .observe ⟨[some "a"], [], [some "a"], true, some [some "a"], none⟩]

/-- The inventory of the failed scan is told to be scanning. -/
theorem retriedOps_scanning : (run (fun _ => .mk { name := "x", size := 7 } []) {} (retriedOps.take 2)).Stale (some "a") ∧
    (run (fun _ => .mk { name := "x", size := 7 } []) {} retriedOps).inventoryByPair.get (some "a") =
      some ⟨some 0, some 0, .scanning⟩ ∧
    ¬ StaysStale (fun _ => .mk { name := "x", size := 7 } []) {} retriedOps := by
  have hstale : (run (fun _ => .mk { name := "x", size := 7 } []) {} (retriedOps.take 2)).Stale (some "a") := by
    decide +kernel
  refine ⟨hstale, by decide +kernel, fun hstays => ?_⟩
  have hnew := hstays (retriedOps.take 2) (retriedOps.drop 2) [] (some "a") (by simp) hstale ⟨id, id, trivial⟩
  revert hnew
  decide +kernel

end Law

end SeedSync.Builder.Library
