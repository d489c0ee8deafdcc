import Mathlib.Data.List.Dedup
import SeedSync.Builder.Downloaded
import SeedSync.Builder.Nodes

/-!
# Snapshots stay with their nodes

Every function of a build keeps the stores clean, and with it every run of calls.
-/

namespace SeedSync.Builder

open SystemFile Lib FileId

/-! ## Recording and eviction -/

theorem Clean.evict {t : Transfers} (h : Clean t) (p q : FileId → Snapshot → Bool) :
    Clean { t with recent := t.recent.filter p, retained := t.retained.filter q } :=
  h.step rfl fun hkept => hkept.mono (fun _ _ hs => ((Dict.get_filter_eq_some _ _ _ _).mp hs).1)
    (fun _ _ hs => ((Dict.get_filter_eq_some _ _ _ _).mp hs).1) le_rfl

theorem Clean.evictRecent {t : Transfers} (h : Clean t) (p : FileId → Snapshot → Bool) :
    Clean { t with recent := t.recent.filter p } :=
  h.step rfl fun hkept => hkept.mono (fun _ _ hs => ((Dict.get_filter_eq_some _ _ _ _).mp hs).1)
    (fun _ _ hs => hs) le_rfl

theorem Clean.floors {t : Transfers} (h : Clean t) (floors : Dict FileId DisplayFloor) :
    Clean { t with persistedDisplayProgressFloors := floors } :=
  h.step rfl fun hkept => hkept.mono (fun _ _ hs => hs) (fun _ _ hs => hs) le_rfl

theorem clean_popSnapshot (which : StoreName) (fileId : FileId) :
    Spec Clean (popSnapshot which fileId) (fun _ => True) := by
  refine Spec.modify fun t ht => ?_
  cases which with
  | recent => exact ht.evictRecent _
  | retained =>
    exact ht.step rfl fun hkept => hkept.mono (fun _ _ hs => hs)
      (fun _ _ hs => ((Dict.get_filter_eq_some _ _ _ _).mp hs).1) le_rfl

theorem clean_evictTransferCompletionSnapshots {fileId root : FileId} (hnode : fileId.node = root.node) :
    Spec Clean (evictTransferCompletionSnapshots fileId (some root)) (fun _ => True) := by
  unfold evictTransferCompletionSnapshots
  refine Spec.bind (clean_resolveAndPromote .recent (fun _ => .of_node hnode) (by simp)) fun recent _ => ?_
  have hrest : Spec Clean (do
      if (← resolveRetainedStoppedTransferSnapshot fileId (some root)).isSome then popSnapshot .retained fileId)
      (fun _ => True) := by
    refine Spec.bind (clean_resolveAndPromote .retained (by simp) fun _ => hnode) fun retained _ => ?_
    split_ifs
    · exact clean_popSnapshot _ _
    · exact Spec.pure trivial
  split_ifs
  · exact Spec.bind (clean_popSnapshot _ _) fun _ _ => hrest
  · exact hrest

theorem clean_evictRecentLiveTransferSnapshots (root : FileId) :
    Spec Clean (evictRecentLiveTransferSnapshots root) (fun _ => True) :=
  Spec.modify fun _ ht => ht.evictRecent _

theorem Clean.sweep {t : Transfers} (h : Clean t) (b : Sources) (seen : Option (List FileId)) :
    Clean (sweepRecentLiveTransferSnapshots b seen t) := h.evictRecent _

theorem clean_promoteRecentLivePgetSnapshotToDisplayFloor (b : Sources) (fileId root : FileId) (snapshot : Snapshot)
    (raw : Option TransferState) :
    Spec Clean (promoteRecentLivePgetSnapshotToDisplayFloor b fileId root snapshot raw) (fun _ => True) := by
  have hmodify : ∀ f : Transfers → Dict FileId DisplayFloor,
      Spec Clean (modify fun t => { t with persistedDisplayProgressFloors := f t } : Build PUnit) (fun _ => True) :=
    fun f => Spec.modify fun t ht => ht.floors (f t)
  unfold promoteRecentLivePgetSnapshotToDisplayFloor
  split
  · exact Spec.pure trivial
  · dsimp only
    split_ifs
    · exact Spec.pure trivial
    · exact hmodify _
    · split
      · split
        · exact Spec.pure trivial
        · split_ifs
          · exact Spec.pure trivial
          · exact hmodify _
          · exact Spec.pure trivial
      · exact Spec.pure trivial

theorem clean_recordedSubset {fileId root : FileId} (hroot : Rooted fileId root) (raw : Option TransferState)
    (jobId : Option Int) (jobType : Option JobType) (merge resolveAlias : Bool) :
    Spec Clean (recordedSubset fileId root raw jobId jobType merge resolveAlias) (fun _ => True) := by
  unfold recordedSubset
  split
  · exact Spec.pure trivial
  · split_ifs
    · exact Spec.bind (clean_resolveAndPromote .recent (fun _ => hroot) (by simp)) fun _ _ => Spec.pure trivial
    · exact Spec.bind (clean_getSnapshot .recent fileId) fun _ _ => Spec.pure trivial
    · exact Spec.pure trivial

theorem clean_storeRecentLiveTransferSnapshot (rt : Runtime) (b : Sources) {fileId root : FileId}
    (hroot : Rooted fileId root) (state : TransferState) (raw : Option TransferState) (jobId : Option Int)
    (jobType : Option JobType) (merge resolveAlias : Bool) :
    Spec Clean (storeRecentLiveTransferSnapshot rt b fileId root state raw jobId jobType merge resolveAlias)
      (fun _ => True) := by
  unfold storeRecentLiveTransferSnapshot
  refine Spec.bind (clean_recordedSubset hroot raw jobId jobType merge resolveAlias) fun subset _ => ?_
  split_ifs
  · exact Spec.pure trivial
  · refine Spec.get_bind fun t ht => ?_
    refine Spec.bind (Spec.set ?_) fun _ _ => clean_promoteRecentLivePgetSnapshotToDisplayFloor b fileId root _ raw
    refine ht.step rfl fun hkept => hkept.record fileId
      (makeSnapshot rt t fileId root state subset (raw.bind (·.sizeRemote)) jobId jobType) rfl rfl rfl ?_
      fun _ _ hs => Or.inr hs
    intro key s hs
    exact (Dict.eq_or_of_get_set hs).imp_left fun h => ⟨h.1, h.2, hroot⟩

theorem clean_storeRetainedStoppedTransferSnapshot (rt : Runtime) (b : Sources) (fileId root : FileId)
    (state : TransferState) (raw : Option TransferState) (jobId : Option Int) (jobType : Option JobType) :
    Spec Clean (storeRetainedStoppedTransferSnapshot rt b fileId root state raw jobId jobType) (fun _ => True) := by
  unfold storeRetainedStoppedTransferSnapshot
  split_ifs
  · exact Spec.pure trivial
  · refine Spec.get_bind fun t ht => Spec.set ?_
    exact ht.step rfl fun hkept => hkept.record fileId
      (makeSnapshot rt t fileId root state (raw.bind (·.sizeLocal)) (raw.bind (·.sizeRemote)) jobId jobType)
      rfl rfl rfl (fun _ _ hs => Or.inr hs) fun _ _ hs => Dict.eq_or_of_get_set hs

/-- The stopped store takes over the object that the recent one answers with. -/
theorem clean_promoteRecentLiveTransferSnapshotToStoppedFloor {fileId root : FileId} (hroot : Rooted fileId root) :
    Spec Clean (promoteRecentLiveTransferSnapshotToStoppedFloor fileId (some root)) (fun _ => True) := by
  intro t ht
  refine ⟨?_, fun _ _ => trivial⟩
  have hclean := (clean_resolveAndPromote .recent (fun _ => hroot) (by simp) t ht).1
  have hrun := resolveAndPromote_run .recent fileId root t
  unfold promoteRecentLiveTransferSnapshotToStoppedFloor resolveRecentLiveTransferSnapshot
  cases hfound : resolveTransferSnapshot (t.store .recent) fileId (some root) with
  | none =>
    rw [hfound] at hrun
    rw [hrun] at hclean
    rw [run_bind_of_ok hrun]
    exact hclean
  | some found =>
    rw [hfound] at hrun
    rw [hrun] at hclean
    rw [run_bind_of_ok hrun]
    refine hclean.step rfl fun hkept => hkept.of_stems ?_ le_rfl hkept.unique hkept.rooted
    rintro key s (hs | hs)
    · exact Transfers.Holds.stems (Or.inl hs)
    · rcases Dict.eq_or_of_get_set hs with ⟨rfl, rfl⟩ | hs
      · exact Transfers.Holds.stems (Or.inl (promoteState_get_node .recent (resolveTransferSnapshot_get hfound)))
      · exact Transfers.Holds.stems (Or.inr hs)

/-! ## What the stores supply -/

theorem clean_resolveTransferCheckpointSnapshot (b : Sources) {fileId : FileId} (hown : fileId.node = fileId)
    (jobId : Int) (jobType : JobType) (raw : Option Int) :
    Spec Clean (resolveTransferCheckpointSnapshot b fileId fileId jobId jobType raw) (fun _ => True) := by
  unfold resolveTransferCheckpointSnapshot
  refine Spec.bind (clean_resolveRecentLiveTransferSnapshotForJob b hown jobId jobType) fun snapshot _ => ?_
  split_ifs
  · exact clean_resolveAndPromote .retained (by simp) fun _ => rfl
  · exact Spec.pure trivial

/-- A snapshot goes, and nothing is supplied. -/
theorem clean_popSnapshot_return {α : Type} (which : StoreName) (fileId : FileId) (a : α) :
    Spec Clean (popSnapshot which fileId >>= fun _ => pure a) (fun _ => True) :=
  Spec.bind (clean_popSnapshot which fileId) fun _ _ => Spec.pure trivial

theorem clean_supplyRecentLiveTransferState (b : Sources) (fileId : FileId)
    (remote local' rootRemote rootLocal : Option SystemFile) (matchingJob : Option (Int × JobType))
    (snapshot : Snapshot) :
    Spec Clean (supplyRecentLiveTransferState b fileId remote local' rootRemote rootLocal matchingJob snapshot)
      (fun _ => True) := by
  unfold supplyRecentLiveTransferState
  dsimp only
  split
  · exact clean_popSnapshot_return _ _ _
  split
  · exact Spec.pure trivial
  split
  · exact clean_popSnapshot_return _ _ _
  split
  · split
    · exact clean_popSnapshot_return _ _ _
    · exact Spec.pure trivial
  · exact clean_popSnapshot_return _ _ _

theorem clean_getRecentLiveTransferState (b : Sources) {fileId : FileId}
    (remote local' rootRemote rootLocal : Option SystemFile) (matchingJob : Option (Int × JobType))
    (hroot : Rooted fileId (resolveRootFileId fileId rootRemote rootLocal))
    (hjob : matchingJob.isSome → resolveRootFileId fileId rootRemote rootLocal = fileId ∧ fileId.node = fileId) :
    Spec Clean (getRecentLiveTransferState b fileId remote local' rootRemote rootLocal matchingJob)
      (fun _ => True) := by
  unfold getRecentLiveTransferState
  refine Spec.bind (Q := fun _ => True) ?_ fun found _ => ?_
  · cases matchingJob with
    | some job =>
      obtain ⟨hself, hown⟩ := hjob rfl
      rw [hself]
      exact clean_resolveRecentLiveTransferSnapshotForJob b hown job.1 job.2
    | none => exact clean_resolveAndPromote .recent (fun _ => hroot) (by simp)
  · cases found with
    | none => exact Spec.pure trivial
    | some snapshot => exact clean_supplyRecentLiveTransferState _ _ _ _ _ _ _ _

theorem clean_coalesceRetainedStoppedTransferState {fileId root : FileId} (hnode : fileId.node = root.node)
    (remote : Option SystemFile) (current : TransferState) (raw : Option TransferState) (jobId : Option Int)
    (jobType : Option JobType) :
    Spec Clean (coalesceRetainedStoppedTransferState fileId (some root) remote current raw jobId jobType)
      (fun _ => True) := by
  unfold coalesceRetainedStoppedTransferState
  refine Spec.bind (clean_resolveAndPromote .retained (by simp) fun _ => hnode) fun found _ => ?_
  cases found with
  | none => exact Spec.pure trivial
  | some retained =>
    dsimp only
    split
    · exact Spec.pure trivial
    · split_ifs
      · exact clean_popSnapshot_return _ _ _
      all_goals exact Spec.pure trivial

theorem clean_getRetainedStoppedTransferStateWithoutLiveProgress {fileId root : FileId}
    (hnode : fileId.node = root.node) (remote local' : Option SystemFile) (preserve : Bool)
    (job : Option (Int × JobType)) :
    Spec Clean (getRetainedStoppedTransferStateWithoutLiveProgress fileId (some root) remote local' preserve job)
      (fun _ => True) := by
  unfold getRetainedStoppedTransferStateWithoutLiveProgress
  refine Spec.bind (clean_resolveAndPromote .retained (by simp) fun _ => hnode) fun found _ => ?_
  cases found with
  | none => exact Spec.pure trivial
  | some retained =>
    dsimp only
    split
    · exact Spec.pure trivial
    · split_ifs
      · exact clean_popSnapshot_return _ _ _
      · exact Spec.bind (clean_evictTransferCompletionSnapshots hnode) fun _ _ => Spec.pure trivial
      · exact clean_popSnapshot_return _ _ _
      all_goals exact Spec.pure trivial

theorem clean_getRetainedRecentTransferState {fileId : FileId} (remote local' rootRemote rootLocal : Option SystemFile)
    (hroot : resolveRootFileId fileId rootRemote rootLocal = fileId) :
    Spec Clean (getRetainedRecentTransferState fileId remote local' rootRemote rootLocal) (fun _ => True) := by
  unfold getRetainedRecentTransferState
  dsimp only
  rw [hroot]
  refine Spec.bind (clean_resolveAndPromote .recent (fun _ => .refl fileId) (by simp)) fun found _ => ?_
  cases found with
  | none => exact Spec.pure trivial
  | some snapshot =>
    dsimp only
    split_ifs
    · exact clean_popSnapshot_return _ _ _
    · exact Spec.bind (clean_evictTransferCompletionSnapshots rfl) fun _ _ => Spec.pure trivial
    · exact Spec.pure trivial

/-! ## The transfer state of a root -/

section Root

variable {b : Sources} {fileId modelFileId : FileId} {remote local' : Option SystemFile} {isStopped : Bool}
  (rt : Runtime) (hown : fileId.node = fileId) (hmodel : modelFileId.node = fileId)
include hown

theorem clean_combinedCurrentState {row : LftpJobStatus} (hrow : row.fileId = fileId) :
    Spec Clean (combinedCurrentState b fileId remote local' row) (fun _ => True) := by
  unfold combinedCurrentState
  rw [hrow]
  refine Spec.bind (clean_resolveTransferCheckpointSnapshot b hown _ _ _) fun _ _ => ?_
  exact Spec.get_bind fun _ _ => Spec.pure trivial

omit hown in
theorem clean_statusWithoutLiveProgress {row : LftpJobStatus} (hrow : row.fileId = fileId) :
    Spec Clean (statusWithoutLiveProgress fileId remote local' isStopped row) (fun _ => True) := by
  unfold statusWithoutLiveProgress
  rw [hrow]
  exact clean_getRetainedStoppedTransferStateWithoutLiveProgress rfl _ _ _ _

include hmodel in
theorem clean_resolveStatusTransferState {row : LftpJobStatus} (hrow : row.fileId = fileId) :
    Spec Clean (resolveStatusTransferState rt b fileId modelFileId remote local' isStopped row) (fun _ => True) := by
  have hroot : Rooted modelFileId row.fileId := .of_node (by rw [hrow, hmodel, hown])
  unfold resolveStatusTransferState
  split_ifs
  · refine Spec.bind (clean_combinedCurrentState hown hrow) fun raw _ => ?_
    refine Spec.bind (clean_storeRecentLiveTransferSnapshot rt b hroot _ _ _ _ _ _) fun _ _ => ?_
    exact Spec.bind (clean_storeRetainedStoppedTransferSnapshot rt b _ _ _ _ _ _) fun _ _ => Spec.pure trivial
  · refine Spec.bind (clean_combinedCurrentState hown hrow) fun raw _ => ?_
    split_ifs
    · exact Spec.bind (clean_statusWithoutLiveProgress hrow) fun _ _ => Spec.pure trivial
    · rw [hrow]
      exact Spec.bind (clean_coalesceRetainedStoppedTransferState rfl _ _ _ _ _) fun _ _ => Spec.pure trivial
  · exact Spec.bind (clean_statusWithoutLiveProgress hrow) fun _ _ => Spec.pure trivial

theorem clean_resolveCounterlessTransferState {row : LftpJobStatus} (hrow : row.fileId = fileId)
    (counterless : TransferState) (found : RootTransfer) :
    Spec Clean (resolveCounterlessTransferState b fileId remote local' row counterless found) (fun _ => True) := by
  unfold resolveCounterlessTransferState
  refine Spec.bind (clean_getRecentLiveTransferState b _ _ _ _ _ (.refl fileId) fun _ => ⟨rfl, hown⟩) fun recent _ => ?_
  cases recent with
  | none => exact Spec.pure trivial
  | some recent =>
    dsimp only
    rw [hrow]
    refine Spec.bind (clean_resolveAndPromote .recent (fun _ => .refl fileId) (by simp)) fun snapshot _ => ?_
    cases snapshot <;> exact Spec.pure trivial

include hmodel in
theorem clean_resolveStoppedTransferState (hroot : resolveRootFileId fileId remote local' = fileId) :
    Spec Clean (resolveStoppedTransferState fileId modelFileId remote local') (fun _ => True) := by
  have hnode : fileId.node = modelFileId.node := by rw [hown, hmodel]
  unfold resolveStoppedTransferState
  refine Spec.bind (clean_getRetainedStoppedTransferStateWithoutLiveProgress hnode _ _ _ _) fun retained _ => ?_
  cases retained with
  | some retained => exact Spec.pure trivial
  | none =>
    refine Spec.bind (clean_getRetainedRecentTransferState _ _ _ _ hroot) fun retained _ => ?_
    cases retained with
    | some retained =>
      exact Spec.bind (clean_promoteRecentLiveTransferSnapshotToStoppedFloor (.of_node hnode)) fun _ _ =>
        Spec.pure trivial
    | none => exact Spec.pure trivial

include hmodel in
theorem clean_resolveRootTransferState {status : Option LftpJobStatus} (hstatus : ∀ row ∈ status, row.fileId = fileId)
    (hroot : resolveRootFileId fileId remote local' = fileId) :
    Spec Clean (resolveRootTransferState rt b fileId modelFileId remote local' status isStopped) (fun _ => True) := by
  unfold resolveRootTransferState
  cases status with
  | some row =>
    have hrow := hstatus row rfl
    refine Spec.bind (clean_resolveStatusTransferState rt hown hmodel hrow) ?_
    rintro ⟨found, counterless⟩ -
    have hretire : ∀ found : RootTransfer, Spec Clean (do
        if !isStopped && !row.isRunning then evictRecentLiveTransferSnapshots row.fileId
        return { found with state := transferModelState (some row) isStopped found.recent }) (fun _ => True) := by
      intro found
      split_ifs
      · exact Spec.bind (clean_evictRecentLiveTransferSnapshots _) fun _ _ => Spec.pure trivial
      · exact Spec.pure trivial
    cases counterless with
    | none => exact Spec.bind (Spec.pure (Q := fun _ => True) trivial) fun found _ => hretire found
    | some counterless =>
      exact Spec.bind (clean_resolveCounterlessTransferState hown hrow counterless found) fun found _ => hretire found
  | none =>
    dsimp only
    split_ifs
    · exact Spec.bind (clean_resolveStoppedTransferState hown hmodel hroot) fun _ _ => Spec.pure trivial
    · exact Spec.bind (clean_getRecentLiveTransferState b _ _ _ _ _ (.refl fileId) (by simp)) fun _ _ =>
        Spec.pure trivial

end Root

/-! ## Descendants -/

theorem clean_fillModelFile (rt : Runtime) (b : Sources) (row : ModelFile) (remote local' : Option SystemFile)
    (transfer : Option TransferState) (storeRecentSnapshot : Bool) {job : Option JobRef} (raw : Option TransferState)
    {fileId : FileId} (ancestors : List FileId) (scratch : Scratch)
    (hjob : Rooted fileId ((job.map (·.rootFileId)).getD fileId)) :
    Spec Clean (fillModelFile rt b row remote local' transfer storeRecentSnapshot job raw fileId ancestors scratch)
      (fun _ => True) := by
  have hrecord : ∀ state, Spec Clean (recordTransfer rt b state storeRecentSnapshot job raw fileId ancestors)
      (fun _ => True) := by
    intro state
    unfold recordTransfer
    have hcheck : Spec Clean (liftM (checkTransferState state) : Build Unit) (fun _ => True) :=
      Spec.lift fun _ _ => trivial
    split_ifs
    · exact Spec.bind (clean_storeRecentLiveTransferSnapshot rt b hjob _ _ _ _ _ _) fun _ _ => hcheck
    · exact hcheck
  unfold fillModelFile
  cases transfer with
  | none => exact Spec.pure trivial
  | some state => exact Spec.bind (hrecord state) fun _ _ => Spec.pure trivial

/-- The sources of a root, as a build hands them to its descendants. -/
structure RootContext.Legal (root : RootContext) (rootId : FileId) : Prop where
  own : rootId.node = rootId
  remote : ∀ file ∈ root.remote, file.rootFileId = rootId
  local' : ∀ file ∈ root.local', file.rootFileId = rootId
  status : ∀ row ∈ root.status, row.fileId = rootId

/-- A node at or below the root, in the trees of the root's pair. -/
structure Frontier.Legal (node : Frontier) (rootId : FileId) : Prop where
  named : node.remote.isSome ∨ node.local'.isSome →
    node.pathPairId = rootId.pathPairId ∧ node.fullPath ≠ "" ∧
      (node.fullPath = rootId.path ∨ nestedPath node.fullPath rootId.path = true)
  remote : ∀ file ∈ node.remote, ProperNames file
  local' : ∀ file ∈ node.local', ProperNames file

section Walk

variable {b : Sources} {root : RootContext} {rootId : FileId} {node : Frontier} {childName : String}

theorem properChild_of_childNames (hnode : node.Legal rootId) (hchild : childName ∈ childNames node) :
    (node.remote.isSome ∨ node.local'.isSome) ∧ childName.toList.head? ≠ some '/' := by
  unfold childNames at hchild
  rw [List.mem_dedup, List.mem_append, List.mem_map, List.mem_map] at hchild
  rcases hchild with ⟨c, hc, rfl⟩ | ⟨c, hc, rfl⟩
  · cases hremote : node.remote with
    | none => simp [hremote] at hc
    | some r =>
      rw [hremote] at hc
      exact ⟨Or.inl rfl, ((properNames_iff r).mp (hnode.remote r hremote) c hc).1⟩
  · cases hlocal : node.local' with
    | none => simp [hlocal] at hc
    | some l =>
      rw [hlocal] at hc
      exact ⟨Or.inr rfl, ((properNames_iff l).mp (hnode.local' l hlocal) c hc).1⟩

/-- The id of a child lies below the root. -/
theorem rooted_child (hnode : node.Legal rootId) (hchild : childName ∈ childNames node) :
    Rooted (buildFileId (osPathJoin node.fullPath childName) node.pathPairId) rootId := by
  obtain ⟨hsome, hname⟩ := properChild_of_childNames hnode hchild
  obtain ⟨hpair, hne, hpath⟩ := hnode.named hsome
  refine ⟨Or.inr ⟨buildFileId_node _ _, ?_⟩, Or.inr (Or.inr ?_)⟩
  · rw [buildFileId_path]
    exact (nestedPath_osPathJoin hne hpath hname).2
  · rw [buildFileId_pathPairId, hpair]

theorem inRoot_status (hroot : root.Legal rootId) (fullPath : String) (stopped : LftpJobStatus → Bool) :
    ∀ row ∈ (childLive.inRoot fullPath stopped root.status).status, row.fileId = rootId := by
  unfold childLive.inRoot
  cases hstatus : root.status with
  | none => simp
  | some status =>
    dsimp only
    split_ifs
    · split
      · rintro row hrow
        cases hrow
        exact hroot.status _ hstatus
      · simp
    · simp

/-- The job of a child is the child's own or the root's. -/
theorem childLive_status (hroot : root.Legal rootId) (childId : FileId) (fullPath : String) :
    ∀ row ∈ (childLive b root childId fullPath).status, row.fileId = childId ∨ row.fileId = rootId := by
  unfold childLive
  dsimp only
  split
  · rename_i status hown
    have hself : status.fileId = childId := b.lftpStatuses.keyed childId status (Option.filter_eq_some_iff.mp hown).1
    split_ifs
    · rintro row hrow
      cases hrow
      exact Or.inl hself
    · rintro row hrow
      cases hrow
      exact Or.inl hself
    · exact fun row hrow => Or.inr (inRoot_status hroot fullPath _ row hrow)
  · exact fun row hrow => Or.inr (inRoot_status hroot fullPath _ row hrow)

theorem rooted_resolveRootFileId (hroot : root.Legal rootId) {childId : FileId} (hchild : Rooted childId rootId) :
    Rooted childId (resolveRootFileId childId root.remote root.local') := by
  unfold resolveRootFileId
  cases hremote : root.remote with
  | some r =>
    have hself : ((some r).map rootFileId).or (root.local'.map rootFileId) = some rootId :=
      congrArg some (hroot.remote r hremote)
    rwa [hself]
  | none =>
    cases hlocal : root.local' with
    | some l =>
      have hself : ((none : Option SystemFile).map rootFileId).or ((some l).map rootFileId) = some rootId :=
        congrArg some (hroot.local' l hlocal)
      rwa [hself]
    | none => exact .refl childId

theorem rooted_jobRef (hroot : root.Legal rootId) {childId : FileId} (hchild : Rooted childId rootId)
    (fullPath : String) :
    Rooted childId ((((childLive b root childId fullPath).status.map jobRef).map (·.rootFileId)).getD childId) := by
  cases hstatus : (childLive b root childId fullPath).status with
  | none => exact .refl childId
  | some row =>
    change Rooted childId row.fileId
    rcases childLive_status hroot childId fullPath row hstatus with h | h
    · rw [h]
      exact .refl childId
    · rwa [h]

theorem clean_combinedChildState (childId : FileId) (remote local' : Option SystemFile) (collided isDir : Bool)
    (live : ChildLive) : Spec Clean (combinedChildState b childId remote local' collided isDir live) (fun _ => True) := by
  unfold combinedChildState
  split
  · exact Spec.pure trivial
  · split_ifs
    · exact Spec.pure trivial
    · refine Spec.bind (clean_getSnapshot .recent childId) fun recent _ => ?_
      cases recent with
      | some snapshot => exact Spec.pure trivial
      | none => exact Spec.bind (clean_getSnapshot .retained childId) fun _ _ => Spec.pure trivial

theorem properNames_childNamed {file child : SystemFile} {n : String} (h : ProperNames file)
    (hchild : childNamed file.children n = some child) : ProperNames child :=
  ((properNames_iff file).mp h child (childNamed_mem hchild).1).2

/-- One turn of the inner loop: the stores stay clean, and the new node is legal. -/
theorem clean_buildChild (rt : Runtime) (hb : b.ProperTrees) (hroot : root.Legal rootId) (hnode : node.Legal rootId)
    (hchild : childName ∈ childNames node) {acc : List Frontier × Walk} (hacc : ∀ n ∈ acc.1, n.Legal rootId) :
    Spec Clean (buildChild rt b root node acc childName) (fun built => ∀ n ∈ built.1, n.Legal rootId) := by
  have hrooted := rooted_child hnode hchild
  unfold buildChild
  extract_lets remote scanned fullPath childId local' live childIsStopped
  refine Spec.bind (Spec.lift (Q := fun _ => True) fun _ _ => trivial) fun isDir _ => ?_
  extract_lets next
  have hnext : next.Legal rootId := by
    obtain ⟨hsome, hname⟩ := properChild_of_childNames hnode hchild
    obtain ⟨hpair, hne, hpath⟩ := hnode.named hsome
    obtain ⟨hne', hnested⟩ := nestedPath_osPathJoin hne hpath hname
    refine ⟨fun _ => ⟨hpair, hne', Or.inr hnested⟩, ?_, ?_⟩
    · intro file hfile
      obtain ⟨r, hr, hfile⟩ := Option.bind_eq_some_iff.mp hfile
      exact properNames_childNamed (hnode.remote r hr) hfile
    · intro file hfile
      rcases Option.or_eq_some_iff.mp hfile with hfile | ⟨-, hfile⟩
      · obtain ⟨l, hl, hfile⟩ := Option.bind_eq_some_iff.mp hfile
        exact properNames_childNamed (hnode.local' l hl) hfile
      · exact (hb.activeFiles childId file hfile).2
  refine Spec.bind (Q := fun _ => True) ?_ fun recent _ => ?_
  · split_ifs
    · exact clean_getRecentLiveTransferState b _ _ _ _ _ (rooted_resolveRootFileId hroot hrooted) (by simp)
    · exact Spec.pure trivial
  refine Spec.bind (clean_combinedChildState _ _ _ _ _ _) fun current _ => ?_
  refine Spec.bind (clean_fillModelFile rt b _ _ _ _ _ _ _ _ (rooted_jobRef hroot hrooted fullPath)) ?_
  rintro ⟨filled, scratch⟩ -
  refine Spec.pure fun n hn => ?_
  rcases List.mem_append.mp hn with hn | hn
  · exact hacc n hn
  · exact List.mem_singleton.mp hn ▸ hnext

theorem clean_buildLevel (rt : Runtime) (hb : b.ProperTrees) (hroot : root.Legal rootId) {level : List Frontier}
    (hlevel : ∀ n ∈ level, n.Legal rootId) (walk : Walk) :
    Spec Clean (buildLevel rt b root level walk) (fun built => ∀ n ∈ built.1, n.Legal rootId) := by
  unfold buildLevel
  refine Spec.foldlM (P := fun (built : List Frontier × Walk) => ∀ n ∈ built.1, n.Legal rootId) level ?_ (by simp)
  intro acc node hnode hacc
  refine Spec.foldlM _ (fun acc childName hchild hacc => ?_) hacc
  exact clean_buildChild rt hb hroot (hlevel node hnode) ((rt.names_perm _).mem_iff.mp hchild) hacc

theorem clean_buildLevels (rt : Runtime) (hb : b.ProperTrees) (hroot : root.Legal rootId) (fuel : Nat)
    {level : List Frontier} (hlevel : ∀ n ∈ level, n.Legal rootId) (walk : Walk) :
    Spec Clean (buildLevels rt b root fuel level walk) (fun _ => True) := by
  induction fuel generalizing level walk with
  | zero => exact Spec.pure trivial
  | succ fuel ih =>
    unfold buildLevels
    split_ifs
    · exact Spec.pure trivial
    · refine Spec.bind (clean_buildLevel rt hb hroot hlevel walk) ?_
      rintro ⟨next, walk'⟩ hnext
      exact ih hnext walk'

end Walk

/-! ## Roots -/

theorem clean_finishDownloading {fileId : FileId} {row : ModelFile} {status : Option LftpJobStatus}
    (remote local' : Option SystemFile) (isStopped : Bool) (descendants : List ModelFile)
    (hnode : fileId.node = ((status.map LftpJobStatus.fileId).getD row.fileId).node) :
    Spec Clean (finishDownloading fileId row remote local' status isStopped descendants) (fun _ => True) := by
  unfold finishDownloading
  dsimp only
  split_ifs
  · exact Spec.bind (clean_evictTransferCompletionSnapshots hnode) fun _ _ => Spec.pure trivial
  · refine Spec.bind (clean_resolveAndPromote .recent (fun _ => .of_node hnode) (by simp)) fun found _ => ?_
    split_ifs
    · exact Spec.bind (clean_evictTransferCompletionSnapshots hnode) fun _ _ => Spec.pure trivial
    · exact Spec.pure trivial
  · exact Spec.pure trivial

theorem clean_checkRootDownloaded (b : Sources) {fileId : FileId} {row : ModelFile} {status : Option LftpJobStatus}
    (remote local' : Option SystemFile) (isStopped : Bool) (retained : Option TransferState)
    (descendants : List ModelFile) (hnode : fileId.node = ((status.map LftpJobStatus.fileId).getD row.fileId).node) :
    Spec Clean (checkRootDownloaded b fileId row remote local' status isStopped retained descendants)
      (fun _ => True) := by
  unfold checkRootDownloaded
  refine Spec.bind (clean_finishDownloading remote local' isStopped descendants hnode) fun file _ => ?_
  split_ifs <;> exact Spec.pure trivial

section Sources

variable {fileId : FileId} {remote local' : Option SystemFile} {status : Option LftpJobStatus}
  (hremote : ∀ file ∈ remote, file.rootFileId = fileId) (hlocal : ∀ file ∈ local', file.rootFileId = fileId)
  (hstatus : ∀ row ∈ status, row.fileId = fileId)

theorem rootFileId_pathPairId (file : SystemFile) : file.rootFileId.pathPairId = file.pathPairId :=
  buildFileId_pathPairId _ _

include hremote hlocal hstatus in
/-- The pair of a row is that of its id, where a scan knows the root. -/
theorem rootPathPair_eq (hsome : remote.isSome ∨ local'.isSome) :
    rootPathPair remote local' status pathPairId LftpJobStatus.pathPairId = fileId.pathPairId := by
  have hpair : ∀ file : SystemFile, file.rootFileId = fileId → file.pathPairId = fileId.pathPairId := by
    rintro file rfl
    exact (rootFileId_pathPairId file).symm
  have hrow : ∀ row ∈ status, row.pathPairId = fileId.pathPairId := by
    intro row hrow
    rw [← hstatus row hrow]
    exact (buildFileId_pathPairId _ _).symm
  unfold rootPathPair
  cases hr : remote with
  | none =>
    cases hl : local' with
    | none => simp [hr, hl] at hsome
    | some l => exact hpair l (hlocal l hl)
  | some r =>
    have hr := hpair r (hremote r hr)
    cases hp : fileId.pathPairId with
    | some pair => simp [hr, hp]
    | none =>
      rw [hp] at hr hrow
      cases hl : local' with
      | some l => simp [hr, hpair l (hlocal l hl), hp]
      | none =>
        cases hs : status with
        | none => simp [hr]
        | some row => simp [hr, hrow row hs]

include hremote hlocal hstatus in
/-- The row of a root that a scan knows is named as its id. -/
theorem bareRoot_known (hown : fileId.node = fileId) (hsome : remote.isSome ∨ local'.isSome) (isDir isStopped : Bool) :
    let bare := bareRoot fileId remote local' status isDir isStopped
    bare.fileId = fileId ∧ bare.name = fileId.path ∧ bare.pathPairId = fileId.pathPairId := by
  have hpair := rootPathPair_eq hremote hlocal hstatus hsome
  have hknown : (remote.map name).or (local'.map name) = some fileId.path := by
    cases hr : remote with
    | some r => exact congrArg some (by rw [← hremote r hr, rootFileId_path])
    | none =>
      cases hl : local' with
      | none => simp [hr, hl] at hsome
      | some l => exact congrArg some (by rw [← hlocal l hl, rootFileId_path])
  unfold bareRoot
  dsimp only
  rw [hknown, hpair]
  exact ⟨(FileId.eq_of_pathPairId hown).symm, rfl, rfl⟩

include hremote hlocal hstatus in
theorem bareRoot_node (hown : fileId.node = fileId) (isDir isStopped : Bool) :
    (bareRoot fileId remote local' status isDir isStopped).fileId.node = fileId := by
  by_cases hsome : remote.isSome ∨ local'.isSome
  · rw [(bareRoot_known hremote hlocal hstatus hown hsome isDir isStopped).1, hown]
  · simp only [not_or, Option.not_isSome_iff_eq_none] at hsome
    simp only [bareRoot, hsome.1, hsome.2]
    cases fileId with
    | bare => rfl
    | paired => rfl
    | statusOnly => cases hown

include hremote hlocal in
theorem resolveRootFileId_eq : resolveRootFileId fileId remote local' = fileId := by
  unfold resolveRootFileId
  cases hr : remote with
  | some r => exact hremote r hr
  | none =>
    cases hl : local' with
    | some l => exact hlocal l hl
    | none => rfl

include hstatus in
theorem rooted_status : Rooted fileId (((status.map jobRef).map (·.rootFileId)).getD fileId) := by
  cases hs : status with
  | none => exact .refl fileId
  | some row =>
    change Rooted fileId row.fileId
    rw [hstatus row hs]
    exact .refl fileId

end Sources

theorem clean_buildChildren (rt : Runtime) {b : Sources} (hb : b.ProperTrees) {root : RootContext} {rootId : FileId}
    (hroot : root.Legal rootId) {row : ModelFile} (fileId : FileId) (scratch : Scratch)
    (hremote : ∀ file ∈ root.remote, ProperNames file) (hlocal : ∀ file ∈ root.local', ProperNames file)
    (hnamed : root.remote.isSome ∨ root.local'.isSome →
      row.pathPairId = rootId.pathPairId ∧ row.name = rootId.path ∧ rootId.path ≠ "") :
    Spec Clean (buildChildren rt b root row fileId scratch) (fun _ => True) := by
  unfold buildChildren
  refine clean_buildLevels rt hb hroot _ (fun n hn => ?_) _
  rw [List.mem_singleton] at hn
  subst hn
  refine ⟨fun hsome => ?_, hremote, hlocal⟩
  obtain ⟨hpair, hname, hne⟩ := hnamed hsome
  exact ⟨hpair, hname ▸ hne, Or.inl hname⟩

/-- The ids of a build come from its sources. -/
structure SourceId (b : Sources) (effective : Dict FileId SystemFile) (fileId : FileId) : Prop where
  own : fileId.node = fileId
  effective : ∀ file ∈ effective.get fileId, file.rootFileId = fileId ∧ fileId.path ≠ "" ∧ ProperNames file

theorem clean_buildRoot (rt : Runtime) {b : Sources} (hb : b.ProperTrees) {effective : Dict FileId SystemFile}
    (suppressed : List String) (live : List FileId) {fileId : FileId} (hid : SourceId b effective fileId) :
    Spec Clean (buildRoot rt b effective suppressed live fileId) (fun _ => True) := by
  obtain ⟨hown, heffective⟩ := hid
  unfold buildRoot
  extract_lets remote local' status isStopped
  have hremote : ∀ file ∈ remote, file.rootFileId = fileId := fun file hfile => b.remoteFiles.keyed fileId file hfile
  have hlocal : ∀ file ∈ local', file.rootFileId = fileId := fun file hfile => (heffective file hfile).1
  have hstatus : ∀ row ∈ status, row.fileId = fileId := fun row hrow => b.lftpStatuses.keyed fileId row hrow
  have hcontext : ∀ state, RootContext.Legal { remote, local', status, state } fileId := fun state =>
    ⟨hown, hremote, hlocal, hstatus⟩
  have hpath : remote.isSome ∨ local'.isSome → fileId.path ≠ "" := by
    rintro (h | h)
    · obtain ⟨r, hr⟩ := Option.isSome_iff_exists.mp h
      rw [← hremote r hr, rootFileId_path]
      exact (hb.remoteFiles fileId r hr).1
    · obtain ⟨l, hl⟩ := Option.isSome_iff_exists.mp h
      exact (heffective l hl).2.1
  refine Spec.bind (Spec.lift (Q := fun _ => True) fun _ _ => trivial) fun isDir _ => ?_
  extract_lets bare
  have hmodel : bare.fileId.node = fileId := bareRoot_node hremote hlocal hstatus hown isDir isStopped
  refine Spec.bind (clean_resolveRootTransferState rt hown hmodel hstatus (resolveRootFileId_eq hremote hlocal))
    fun transfer _ => ?_
  refine Spec.bind ((clean_fillModelFile rt b _ _ _ _ _ _ _ _ (rooted_status hstatus)).and_any
    (fillModelFile_row _ _ _ _ _ _ _ _ _ _ _ _)) ?_
  rintro ⟨filled, scratch⟩ ⟨-, rfl⟩
  refine Spec.bind (clean_buildChildren rt hb (hcontext _) fileId scratch
    (fun file hfile => (hb.remoteFiles fileId file hfile).2) (fun file hfile => (heffective file hfile).2.2) ?_)
    fun walk _ => ?_
  · intro hsome
    obtain ⟨-, hname, hpair⟩ := bareRoot_known hremote hlocal hstatus hown hsome isDir isStopped
    exact ⟨hpair, hname, hpath hsome⟩
  extract_lets descendants shown
  have hshown : shown.fileId.node = fileId := by
    rw [show shown.fileId = bare.fileId from (estimateEta_sameRow _).1.fileId, hmodel]
  have hnode : fileId.node = ((status.map LftpJobStatus.fileId).getD shown.fileId).node := by
    cases hs : status with
    | none => exact hown.trans hshown.symm
    | some row => exact congrArg FileId.node (hstatus row hs).symm
  refine Spec.bind (clean_checkRootDownloaded b _ _ _ _ _ hnode) ?_
  rintro ⟨checked, incomplete⟩ -
  refine Spec.bind (Spec.lift (Q := fun _ => True) fun _ _ => trivial) fun file _ => ?_
  extract_lets file'
  split_ifs <;> exact Spec.pure trivial

theorem clean_buildRoots (rt : Runtime) {b : Sources} (hb : b.ProperTrees) {effective : Dict FileId SystemFile}
    {ids : List FileId} (hids : ∀ id ∈ ids, SourceId b effective id) :
    Spec Clean (buildRoots rt b effective ids) (fun _ => True) := by
  unfold buildRoots
  refine Spec.bind (Spec.foldlM (P := fun _ => True) ids (fun acc id hid _ => ?_) trivial) fun _ _ => Spec.pure trivial
  exact Spec.bind (clean_buildRoot rt hb _ _ (hids id hid)) fun _ _ => Spec.pure trivial

theorem sourceId_of_mem {b : Sources} (hb : b.ProperTrees) {authority : Option LocalScanAuthority} {id : FileId}
    (h : id ∈ allFileIds b (b.buildEffectiveLocalFiles authority)) :
    SourceId b (b.buildEffectiveLocalFiles authority) id := by
  have heffective : ∀ file ∈ (b.buildEffectiveLocalFiles authority).get id,
      file.rootFileId = id ∧ id.path ≠ "" ∧ ProperNames file := by
    intro file hfile
    have hchosen := chosen_of_effective hfile
    exact ⟨chosen_rootFileId hchosen, chosen_proper hb hchosen⟩
  refine ⟨?_, heffective⟩
  -- Every source stands under an id that is built of a path and a pair.
  have hbuilt : ∀ path pair, buildFileId path pair = id → id.node = id := by
    rintro path pair rfl
    exact buildFileId_node path pair
  rcases List.mem_append.mp h with h | h
  · rcases List.mem_append.mp (List.mem_dedup.mp h) with h | h
    · obtain ⟨file, hfile⟩ := Option.ne_none_iff_exists'.mp ((Dict.mem_keys _ _).mp h)
      exact hbuilt _ _ (heffective file hfile).1
    · obtain ⟨file, hfile⟩ := Option.ne_none_iff_exists'.mp ((Dict.mem_keys _ _).mp h)
      exact hbuilt _ _ (b.remoteFiles.keyed id file hfile)
  · obtain ⟨⟨id', row⟩, hitem, rfl⟩ := List.mem_map.mp h
    exact hbuilt _ _ (b.lftpStatuses.keyed id' row ((Dict.get_eq_some _ _ _).mpr (List.mem_filter.mp hitem).1))

theorem clean_buildModel (rt : Runtime) {b : Sources} (hb : b.ProperTrees) (authority : Option LocalScanAuthority) :
    Spec Clean (buildModel rt b authority) (fun _ => True) := by
  unfold buildModel
  refine Spec.bind (clean_buildRoots rt hb fun id hid => sourceId_of_mem hb ((rt.ids_perm _).mem_iff.mp hid))
    fun built _ => ?_
  refine Spec.bind (Spec.lift (Q := fun _ => True) fun _ _ => trivial) fun visible _ => ?_
  exact Spec.bind (Spec.modify fun t ht => ht.sweep b _) fun _ _ => Spec.pure trivial

/-! ## Overlays -/

theorem clean_overlayState {b : Sources} {fileId : FileId} {row : LftpJobStatus} (hown : fileId.node = fileId)
    (hrow : row.fileId = fileId) : Spec Clean (overlayState b fileId row) (fun _ => True) := by
  unfold overlayState
  dsimp only
  rw [hrow]
  refine Spec.bind (clean_resolveTransferCheckpointSnapshot b hown _ _ _) fun previous _ => ?_
  refine Spec.bind (clean_coalesceRetainedStoppedTransferState rfl _ _ _ _ _) fun current _ => ?_
  exact Spec.get_bind fun _ _ => Spec.pure trivial

theorem overlayStatus_fileId {b : Sources} {fileId : FileId} {row : LftpJobStatus}
    (h : overlayStatus b fileId = some row) : row.fileId = fileId :=
  b.lftpStatuses.keyed fileId row (Option.filter_eq_some_iff.mp h).1

theorem fileId_node_of_status {row : LftpJobStatus} {fileId : FileId} (h : row.fileId = fileId) :
    fileId.node = fileId := h ▸ buildFileId_node _ _

theorem clean_overlaysOf {b : Sources} (safe : FileId → Bool)
    {record : FileId → LftpJobStatus → TransferState → Build Unit}
    (hrecord : ∀ fileId row current, row.fileId = fileId → Spec Clean (record fileId row current) (fun _ => True))
    (ids : List FileId) : Spec Clean (overlaysOf (overlayOf b safe record) ids) (fun _ => True) := by
  have hone : ∀ fileId, Spec Clean (overlayOf b safe record fileId) (fun _ => True) := by
    intro fileId
    unfold overlayOf
    split_ifs
    · exact Spec.pure trivial
    · cases hstatus : overlayStatus b fileId with
      | none => exact Spec.pure trivial
      | some row =>
        have hrow := overlayStatus_fileId hstatus
        refine Spec.bind (clean_overlayState (fileId_node_of_status hrow) hrow) fun current _ => ?_
        split_ifs
        · exact Spec.pure trivial
        · exact Spec.bind (hrecord fileId row current hrow) fun _ _ => Spec.pure trivial
  induction ids with
  | nil => exact Spec.pure trivial
  | cons fileId ids ih =>
    refine Spec.bind (hone fileId) fun shown _ => ?_
    cases shown with
    | none => exact Spec.pure trivial
    | some shown => exact Spec.bind ih fun _ _ => Spec.pure trivial

theorem clean_recordReadOnlyLftpRootCounterOverlays (rt : Runtime) (b : Sources)
    (overlays : List (FileId × ActiveProgressOverlay)) :
    Spec Clean (recordReadOnlyLftpRootCounterOverlays rt b overlays) (fun _ => True) := by
  unfold recordReadOnlyLftpRootCounterOverlays
  extract_lets pending
  split_ifs
  · exact Spec.pure trivial
  · refine Spec.bind (Spec.forM pending ?_) fun _ _ => Spec.pure trivial
    rintro ⟨fileId, overlay, row⟩ hmem
    obtain ⟨item, -, hitem⟩ := List.mem_filterMap.mp hmem
    obtain ⟨row', hrow, heq⟩ := Option.map_eq_some_iff.mp hitem
    cases heq
    have hrow := overlayStatus_fileId (Option.filter_eq_some_iff.mp hrow).1
    exact clean_storeRecentLiveTransferSnapshot rt b (by rw [hrow]; exact .refl _) _ _ _ _ _ _

theorem clean_recentLiveTransferSnapshotIdentities (ids : List FileId) :
    Spec Clean (recentLiveTransferSnapshotIdentities ids) (fun _ => True) := by
  unfold recentLiveTransferSnapshotIdentities
  refine Spec.foldlM (P := fun _ => True) ids (fun found id _ _ => ?_) trivial
  refine Spec.bind (clean_resolveAndPromote .recent (fun _ => .refl id) (by simp)) fun snapshot _ => ?_
  cases snapshot with
  | none => exact Spec.pure trivial
  | some snapshot =>
    dsimp only
    split <;> exact Spec.pure trivial

/-! ## Runs -/

/-- The setters are called with trees that a scan may return. -/
def Call.Legal : Call → Prop
  | setMaps sources => sources.ProperTrees
  | _ => True

/-- What a run of calls keeps. -/
def ModelBuilder.Sound (m : ModelBuilder) : Prop := m.sources.ProperTrees ∧ Clean m.transfers

theorem sound_empty : ModelBuilder.Sound {} :=
  ⟨⟨by simp [Keyed.get], by simp [Keyed.get], by simp [Keyed.get]⟩, clean_empty⟩

theorem ModelBuilder.Sound.perform {m : ModelBuilder} (h : m.Sound) {α : Type} {program : Build α}
    (hprogram : Spec Clean program (fun _ => True)) : (m.perform program).Sound :=
  ⟨h.1, (hprogram m.transfers h.2).1⟩

/-- One call keeps a builder sound. -/
theorem sound_apply {m : ModelBuilder} (h : m.Sound) {call : Call} (hlegal : call.Legal) : (call.apply m).Sound := by
  obtain ⟨htrees, hclean⟩ := h
  have h : m.Sound := ⟨htrees, hclean⟩
  cases call with
  | setMaps sources => exact ⟨hlegal, hclean⟩
  | setLftpStatuses statuses =>
    exact ⟨⟨htrees.localFiles, htrees.remoteFiles, htrees.activeFiles⟩, hclean.evict _ _⟩
  | setStoppedFiles ids =>
    exact ⟨⟨htrees.localFiles, htrees.remoteFiles, htrees.activeFiles⟩, (hclean.floors _).sweep _ none⟩
  | setPersistedDisplayProgressFloors floors => exact ⟨htrees, hclean.floors _⟩
  | evictTransferProgressForLifecycle ids =>
    exact ⟨⟨htrees.localFiles, htrees.remoteFiles, htrees.activeFiles⟩, Clean.floors (hclean.evict _ _) _⟩
  | evictAmbiguousLftpStatusSnapshots ids => exact ⟨htrees, hclean.evict _ _⟩
  | evictRecentLiveTransferSnapshotsMissingRoots active => exact ⟨htrees, hclean.evictRecent _⟩
  | evict kept => exact ⟨htrees, hclean.evict _ _⟩
  | clear =>
    refine ⟨⟨sound_empty.1.localFiles, sound_empty.1.remoteFiles, sound_empty.1.activeFiles⟩,
      hclean.step rfl fun hkept => hkept.mono ?_ ?_ le_rfl⟩ <;> intro key s hs <;> cases hs
  | recentLiveTransferSnapshotIdentities ids => exact h.perform (clean_recentLiveTransferSnapshotIdentities ids)
  | buildReadOnlyLftpRootCounterOverlays safe ids =>
    exact h.perform (clean_overlaysOf safe (fun _ _ _ _ => Spec.pure trivial) ids)
  | buildActiveProgressOverlays rt safe ids =>
    refine h.perform (clean_overlaysOf safe (fun fileId row current hrow => ?_) ids)
    exact clean_storeRecentLiveTransferSnapshot rt _ (by rw [hrow]; exact .refl _) _ _ _ _ _ _
  | recordReadOnlyLftpRootCounterOverlays rt overlays =>
    exact h.perform (clean_recordReadOnlyLftpRootCounterOverlays rt _ overlays)
  | buildModel rt authority => exact h.perform (clean_buildModel rt htrees authority)

theorem sound_run {calls : List Call} (hlegal : ∀ call ∈ calls, call.Legal) : (run calls).Sound := by
  suffices h : ∀ m : ModelBuilder, m.Sound → (calls.foldl Call.apply m).Sound from h {} sound_empty
  induction calls with
  | nil => exact fun m hm => hm
  | cons call calls ih =>
    intro m hm
    exact ih (fun c hc => hlegal c (List.mem_cons_of_mem _ hc)) _ (sound_apply hm (hlegal call List.mem_cons_self))

instance (l : Lookup) : Decidable l.Own :=
  inferInstanceAs (Decidable (∀ found ∈ l.answer, _))

instance (node key : FileId) : Decidable (NoOtherPair node key) := inferInstanceAs (Decidable (_ ∨ _))

instance (l : Lookup) : Decidable l.Safe :=
  inferInstanceAs (Decidable (l.kind = .alias → ∀ found ∈ resolveTransferSnapshot l.asked l.node l.root,
    SameNode l.node found.1 ∧ (l.which = .retained → ∀ item ∈ l.recent.items, item.2.object = found.2.object →
      NoOtherPair l.node item.1)))

/-- A film of which a tenth is here, as a pair or no pair scans it. -/
def film (pair : Option String) : Sources :=
  let scanned (size : Nat) : SystemFile := .mk { name := "film", size, pathPairId := pair } []
  { localFiles := .ofList [scanned 10], remoteFiles := .ofList [scanned 100] }

/-- The job of a root that has half of it. -/
def halfDone (type : JobType) (name : String) : LftpJobStatus :=
  { id := 7, type, state := .running, name
    totalTransferState := { sizeLocal := some 50, sizeRemote := some 100, percentLocal := some 50 } }

/-- The film is built without a pair while its job runs, and then as a root of a pair. -/
def pairAdded : List Call :=
  [.setMaps (film none), .setLftpStatuses [halfDone .pget "film"], .buildModel .insertionOrder none,
    .setMaps (film (some "tv")), .buildModel .insertionOrder none]

theorem properTrees_ofList {mine theirs : List SystemFile}
    (h : ∀ file ∈ mine ++ theirs, file.name ≠ "" ∧ ProperNames file) :
    Sources.ProperTrees { localFiles := .ofList mine, remoteFiles := .ofList theirs } where
  localFiles _ file hfile := h file (List.mem_append_left _ (Keyed.mem_of_get_ofList hfile))
  remoteFiles _ file hfile := h file (List.mem_append_right _ (Keyed.mem_of_get_ofList hfile))
  activeFiles _ file hfile := by cases hfile

theorem properNames_leaf (a : FileAttrs) : ProperNames (.mk a []) := .mk (by simp) (by simp)

theorem film_proper (pair : Option String) : (film pair).ProperTrees := by
  refine properTrees_ofList fun file hfile => ?_
  simp only [List.cons_append, List.nil_append, List.mem_cons, List.not_mem_nil, or_false] at hfile
  rcases hfile with rfl | rfl <;> exact ⟨by simp [name], properNames_leaf _⟩

/-- A season of one episode, of which a tenth is here. -/
def season : Sources :=
  let scanned (size : Nat) : SystemFile :=
    .mk { name := "season", size, isDir := true } [.mk { name := "pilot", size } []]
  { localFiles := .ofList [scanned 10], remoteFiles := .ofList [scanned 100] }

/-- The season is built while its job runs; then the job's status is gone. -/
def statusLost : List Call :=
  [.setMaps season, .setLftpStatuses [halfDone .mirror "season"], .buildModel .insertionOrder none,
    .setLftpStatuses []]

/-- The bytes that a build shows on the descendants of the roots. -/
def shownOnDescendants (m : ModelBuilder) : Option (List (FileId × Option Int)) :=
  ((buildModel .insertionOrder m.sources none).run.run m.transfers).1.toOption.map fun roots =>
    roots.flatMap fun root => root.descendants.map fun file => (file.fileId, file.transferredSize)

theorem season_proper : season.ProperTrees := by
  refine properTrees_ofList fun file hfile => ?_
  simp only [List.cons_append, List.nil_append, List.mem_cons, List.not_mem_nil, or_false] at hfile
  rcases hfile with rfl | rfl <;> refine ⟨by simp [name], .mk ?_ ?_⟩ <;>
    simp [name, properNames_leaf]

end SeedSync.Builder
