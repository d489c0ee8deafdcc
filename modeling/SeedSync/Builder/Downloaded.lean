import SeedSync.Builder.Effective
import SeedSync.Builder.Model
import SeedSync.Lib.Stateful

/-!
# Downloaded needs proof

A root that the remote side has is shown as Downloaded or Extracted only on the proof of a complete
copy, and as Deleted only when its local absence is known.
-/

namespace SeedSync

/-! ## What a complete copy is -/

namespace SystemFile

/-- The node at a path that leads through directories. -/
def entryAt : SystemFile → List String → Option SystemFile
  | file, [] => some file
  | file, n :: path =>
    match childNamed file.children n with
    | some child => if file.isDir then entryAt child path else none
    | none => none

/-- The first is the second or lies below it. -/
inductive Within : SystemFile → SystemFile → Prop
  | self (file : SystemFile) : Within file file
  | deeper {part child file : SystemFile} (hmem : child ∈ file.children) (hpart : Within part child) :
      Within part file

/-- Every remote leaf has a local leaf of at least its size, no matched node is ambiguous, and
nothing ambiguous or staged stands beside the matched nodes. -/
structure Covers (remote mine : SystemFile) : Prop where
  leaves : ∀ path leaf, remote.entryAt path = some leaf → leaf.isDir = false →
    ∃ copy, mine.entryAt path = some copy ∧ copy.isDir = false ∧ leaf.size ≤ copy.size
  matched : ∀ path theirs ours, remote.entryAt path = some theirs → mine.entryAt path = some ours →
    ours.hasStagingCollision = false
  extras : ∀ path theirs ours, remote.entryAt path = some theirs → mine.entryAt path = some ours →
    theirs.isDir = true → ∀ n extra, childNamed ours.children n = some extra → childNamed theirs.children n = none →
      extra.hasStagingCollision = false ∧ ∀ part, Within part extra → part.isStaging = false

/-- The staged root total alone proves the copy: no child of the root was scanned. -/
structure StagedTotal (remote mine : SystemFile) : Prop where
  remoteIsDir : remote.isDir = true
  isDir : mine.isDir = true
  isStaging : mine.isStaging = true
  unscanned : mine.children = []
  size : remote.size ≤ mine.size

end SystemFile

namespace Builder

open SystemFile Lib

/-! ## The completion predicate -/

theorem anyStagingDescendant_mem {cs : List SystemFile} (h : anyStagingDescendant cs = false) :
    ∀ c ∈ cs, hasStagingDescendant c = false := by
  induction cs with
  | nil => simp
  | cons c cs ih =>
    simp only [anyStagingDescendant, Bool.or_eq_false_iff] at h
    intro d hd
    rcases List.mem_cons.mp hd with rfl | hd
    · exact h.1
    · exact ih h.2 d hd

/-- No staging descendant: nothing within is staged. -/
theorem hasStagingDescendant_within {part file : SystemFile} (hin : Within part file)
    (h : hasStagingDescendant file = false) : part.isStaging = false := by
  induction hin with
  | self =>
    obtain ⟨a, cs⟩ := part
    simp only [hasStagingDescendant, Bool.or_eq_false_iff] at h
    exact h.1
  | @deeper child file hmem _ ih =>
    obtain ⟨a, cs⟩ := file
    simp only [hasStagingDescendant, Bool.or_eq_false_iff] at h
    exact ih (anyStagingDescendant_mem h.2 child hmem)

theorem childNamed_mem_childDict {cs : List SystemFile} {n : String} {c : SystemFile}
    (h : childNamed cs n = some c) : c ∈ childDict cs := by
  induction cs with
  | nil => simp [childNamed] at h
  | cons d cs ih =>
    rw [childNamed] at h
    rw [childDict]
    cases hlater : childNamed cs n with
    | some e =>
      rw [hlater] at h
      cases h
      split
      · exact ih hlater
      · exact List.mem_cons_of_mem _ (ih hlater)
    | none =>
      simp only [hlater] at h
      split_ifs at h with hname
      cases h
      have hshadow : shadowed c cs = false := by simp [shadowed, hname, hlater]
      simp [hshadow]

theorem childrenCoverRemote_child {cs mine : List SystemFile} (h : childrenCoverRemote cs mine = true)
    {n : String} {c : SystemFile} (hc : childNamed cs n = some c) :
    directoryLeavesCoverRemote c (childNamed mine n) = true := by
  induction cs with
  | nil => simp [childNamed] at hc
  | cons d cs ih =>
    rw [childrenCoverRemote, Bool.and_eq_true] at h
    rw [childNamed] at hc
    cases hlater : childNamed cs n with
    | some e =>
      rw [hlater] at hc
      cases hc
      exact ih h.2 hlater
    | none =>
      simp only [hlater] at hc
      split_ifs at hc with hname
      cases hc
      have hshadow : shadowed c cs = false := by simp [shadowed, hname, hlater]
      rw [hshadow, Bool.false_or, hname] at h
      exact h.1

/-- One step of the walk: what the predicate says of a matched pair of nodes. -/
theorem directoryLeavesCoverRemote_step {remote mine : SystemFile}
    (h : directoryLeavesCoverRemote remote (some mine) = true) :
    remote.isDir = mine.isDir ∧ mine.hasStagingCollision = false ∧
      (remote.isDir = false → remote.size ≤ mine.size) ∧
      (remote.isDir = true →
        (∀ n extra, childNamed mine.children n = some extra → childNamed remote.children n = none →
          extra.hasStagingCollision = false ∧ hasStagingDescendant extra = false) ∧
        ∀ n child, childNamed remote.children n = some child →
          ∃ copy, childNamed mine.children n = some copy ∧ directoryLeavesCoverRemote child (some copy) = true) := by
  obtain ⟨a, cs⟩ := remote
  rw [directoryLeavesCoverRemote] at h
  split_ifs at h with hkind hcollision hleaf hextra
  · have hkind : a.isDir = mine.isDir := not_not.mp hkind
    simp only [Bool.not_eq_true'] at hleaf
    exact ⟨hkind, by simpa using hcollision, fun _ => of_decide_eq_true h, fun hdir => by
      rw [show (mk a cs).isDir = a.isDir from rfl, hleaf] at hdir
      cases hdir⟩
  · have hkind : a.isDir = mine.isDir := not_not.mp hkind
    refine ⟨hkind, by simpa using hcollision, fun hfile => absurd hfile (by simpa using hleaf), fun _ => ⟨?_, ?_⟩⟩
    · intro n extra hmine hremote
      have hall := List.any_eq_false.mp (by simpa using hextra) extra (childNamed_mem_childDict hmine)
      have hname := (childNamed_mem hmine).2
      simpa [blockingExtra, hname, show childNamed cs n = none from hremote] using hall
    · intro n child hchild
      have hcover := childrenCoverRemote_child h hchild
      cases hcopy : childNamed mine.children n with
      | none =>
        obtain ⟨a', cs'⟩ := child
        rw [hcopy, directoryLeavesCoverRemote] at hcover
        cases hcover
      | some copy =>
        rw [hcopy] at hcover
        exact ⟨copy, rfl, hcover⟩

/-- A covered pair of nodes stays covered along every path of the remote tree. -/
theorem directoryLeavesCoverRemote_entryAt {remote mine : SystemFile}
    (h : directoryLeavesCoverRemote remote (some mine) = true) (path : List String) {theirs : SystemFile}
    (hpath : remote.entryAt path = some theirs) :
    ∃ ours, mine.entryAt path = some ours ∧ directoryLeavesCoverRemote theirs (some ours) = true := by
  induction path generalizing remote mine with
  | nil =>
    cases hpath
    exact ⟨mine, rfl, h⟩
  | cons n path ih =>
    obtain ⟨hkind, -, -, hdir⟩ := directoryLeavesCoverRemote_step h
    rw [entryAt] at hpath
    cases hchild : childNamed remote.children n with
    | none => simp [hchild] at hpath
    | some child =>
      simp only [hchild] at hpath
      split_ifs at hpath with hremoteDir
      obtain ⟨copy, hcopy, hcover⟩ := (hdir hremoteDir).2 n child hchild
      obtain ⟨ours, hours, hcovered⟩ := ih hcover hpath
      exact ⟨ours, by simp [entryAt, hcopy, ← hkind, hremoteDir, hours], hcovered⟩

theorem covers_of_directoryLeavesCoverRemote {remote mine : SystemFile}
    (h : directoryLeavesCoverRemote remote (some mine) = true) : Covers remote mine := by
  have hstep : ∀ path theirs ours, remote.entryAt path = some theirs → mine.entryAt path = some ours →
      directoryLeavesCoverRemote theirs (some ours) = true := by
    intro path theirs ours htheirs hours
    obtain ⟨ours', hours', hcover⟩ := directoryLeavesCoverRemote_entryAt h path htheirs
    rw [hours] at hours'
    cases hours'
    exact hcover
  constructor
  · intro path leaf hleaf hfile
    obtain ⟨copy, hcopy, hcover⟩ := directoryLeavesCoverRemote_entryAt h path hleaf
    obtain ⟨hkind, -, hsize, -⟩ := directoryLeavesCoverRemote_step hcover
    exact ⟨copy, hcopy, hkind ▸ hfile, hsize hfile⟩
  · intro path theirs ours htheirs hours
    exact (directoryLeavesCoverRemote_step (hstep path theirs ours htheirs hours)).2.1
  · intro path theirs ours htheirs hours hdir n extra hextra hunmatched
    obtain ⟨-, -, -, hdirs⟩ := directoryLeavesCoverRemote_step (hstep path theirs ours htheirs hours)
    obtain ⟨hcollision, hstaging⟩ := (hdirs hdir).1 n extra hextra hunmatched
    exact ⟨hcollision, fun part hpart => hasStagingDescendant_within hpart hstaging⟩

/-- What the completion predicate proves of the effective tree. -/
theorem effectiveLocalTreeProvesCompletion_spec {remote : SystemFile} {local' : Option SystemFile}
    (h : effectiveLocalTreeProvesCompletion (some remote) local' = true) :
    ∃ mine, local' = some mine ∧ (Covers remote mine ∨ StagedTotal remote mine) := by
  cases local' with
  | none => cases h
  | some mine =>
    refine ⟨mine, rfl, ?_⟩
    simp only [effectiveLocalTreeProvesCompletion] at h
    split_ifs at h with hkind hcollision hdir
    · rw [Bool.or_eq_true] at h
      rcases h with h | h
      · exact Or.inl (covers_of_directoryLeavesCoverRemote h)
      · simp only [Bool.and_eq_true, List.isEmpty_iff, decide_eq_true_eq] at h
        exact Or.inr ⟨hdir, by rw [← not_not.mp hkind, hdir], h.1.1, h.1.2, h.2⟩
    · left
      apply covers_of_directoryLeavesCoverRemote
      obtain ⟨a, cs⟩ := remote
      have hkind : a.isDir = mine.isDir := not_not.mp hkind
      have hfile : a.isDir = false := by simpa using hdir
      have hclean : mine.hasStagingCollision = false := by simpa using hcollision
      have hmine : mine.isDir = false := hkind ▸ hfile
      simpa [directoryLeavesCoverRemote, hfile, hmine, hclean] using of_decide_eq_true h

/-! ## The states of a root, step by step -/

/-- The states that statuses and snapshots give. -/
def InTransfer (state : ModelState) : Prop := state = .default ∨ state = .queued ∨ state = .downloading

theorem inTransfer_transferModelState (status : Option LftpJobStatus) (isStopped : Bool)
    (recent : Option TransferState) : InTransfer (transferModelState status isStopped recent) := by
  unfold transferModelState InTransfer
  split <;> split_ifs <;> simp

theorem resolveRootTransferState_state (rt : Runtime) (b : Sources) (fileId modelFileId : FileId)
    (remote local' : Option SystemFile) (status : Option LftpJobStatus) (isStopped : Bool) :
    Spec (fun _ => True) (resolveRootTransferState rt b fileId modelFileId remote local' status isStopped)
      (fun transfer => InTransfer transfer.state) := by
  unfold resolveRootTransferState
  cases status with
  | some row =>
    refine Spec.bind (Spec.any _) ?_
    rintro ⟨found, counterless⟩ -
    cases counterless <;> refine Spec.bind (Spec.any _) fun found _ => ?_ <;> dsimp only <;> split_ifs
    · exact Spec.bind (Spec.any _) fun _ _ => Spec.pure (inTransfer_transferModelState _ _ _)
    · exact Spec.pure (inTransfer_transferModelState _ _ _)
    · exact Spec.bind (Spec.any _) fun _ _ => Spec.pure (inTransfer_transferModelState _ _ _)
    · exact Spec.pure (inTransfer_transferModelState _ _ _)
  | none =>
    split_ifs
    · exact Spec.bind (Spec.any _) fun _ _ => Spec.pure (Or.inl rfl)
    · exact Spec.bind (Spec.any _) fun recent _ => Spec.pure (inTransfer_transferModelState none false recent)

theorem fillModelFile_row (rt : Runtime) (b : Sources) (row : ModelFile) (remote local' : Option SystemFile)
    (transfer : Option TransferState) (storeRecentSnapshot : Bool) (job : Option JobRef) (raw : Option TransferState)
    (fileId : FileId) (ancestors : List FileId) (scratch : Scratch) :
    Spec (fun _ => True)
      (fillModelFile rt b row remote local' transfer storeRecentSnapshot job raw fileId ancestors scratch)
      (fun filled => filled.1 = filledRow row remote local' transfer) := by
  unfold fillModelFile
  cases transfer with
  | none => exact Spec.pure rfl
  | some state => exact Spec.bind (Spec.any _) fun _ _ => Spec.pure rfl

/-- What stays of a row from its fill on. -/
structure SameRow (row file : ModelFile) : Prop where
  fileId : file.fileId = row.fileId
  isDir : file.isDir = row.isDir
  pathPairId : file.pathPairId = row.pathPairId
  remoteSize : file.remoteSize = row.remoteSize
  localSize : file.localSize = row.localSize

theorem SameRow.refl (row : ModelFile) : SameRow row row := ⟨rfl, rfl, rfl, rfl, rfl⟩

theorem SameRow.trans {a b c : ModelFile} (h : SameRow a b) (h' : SameRow b c) : SameRow a c :=
  ⟨h'.fileId.trans h.fileId, h'.isDir.trans h.isDir, h'.pathPairId.trans h.pathPairId,
    h'.remoteSize.trans h.remoteSize, h'.localSize.trans h.localSize⟩

/-- A step of the completion check: the row stays, or it is downloaded for a reason. -/
def StaysOr (reason : Prop) (row file : ModelFile) : Prop :=
  SameRow row file ∧ (file.state = row.state ∨ (file.state = .downloaded ∧ reason))

theorem StaysOr.weaken {reason reason' : Prop} {row file : ModelFile} (h : StaysOr reason row file)
    (himp : reason → reason') : StaysOr reason' row file :=
  ⟨h.1, h.2.imp id (And.imp_right himp)⟩

theorem StaysOr.trans {reason : Prop} {row file last : ModelFile} (h : StaysOr reason row file)
    (h' : StaysOr reason file last) : StaysOr reason row last := by
  refine ⟨h.1.trans h'.1, ?_⟩
  rcases h'.2 with hstate | hdone
  · rw [hstate]
    exact h.2
  · exact Or.inr hdone

theorem finishDownloading_staysOr (fileId : FileId) (row : ModelFile) (remote local' : Option SystemFile)
    (status : Option LftpJobStatus) (isStopped : Bool) (descendants : List ModelFile) :
    Spec (fun _ => True) (finishDownloading fileId row remote local' status isStopped descendants)
      (StaysOr (effectiveLocalTreeProvesCompletion remote local' = true) row) := by
  unfold finishDownloading
  dsimp only
  split_ifs with hfirst hsecond
  · exact Spec.bind (Spec.any _) fun _ _ =>
      Spec.pure ⟨⟨rfl, rfl, rfl, rfl, rfl⟩, Or.inr ⟨rfl, hfirst.2.2⟩⟩
  · refine Spec.bind (Spec.any _) fun found _ => ?_
    split_ifs
    · exact Spec.bind (Spec.any _) fun _ _ =>
        Spec.pure ⟨⟨rfl, rfl, rfl, rfl, rfl⟩, Or.inr ⟨rfl, hsecond.2.2.2.2.2.1⟩⟩
    · exact Spec.pure ⟨.refl row, Or.inl rfl⟩
  · exact Spec.pure ⟨.refl row, Or.inl rfl⟩

theorem finishDefaultFile_staysOr (b : Sources) (row : ModelFile) (remote local' : Option SystemFile)
    (statusIsNone isStopped : Bool) (retained : Option TransferState) :
    StaysOr (effectiveLocalTreeProvesCompletion remote local' = true ∨ row.remoteSize = none) row
      (finishDefaultFile b row remote local' statusIsNone isStopped retained) := by
  unfold finishDefaultFile
  dsimp only
  split_ifs with h₁ h₂ h₃
  · simp only [Bool.and_eq_true] at h₁
    exact ⟨⟨rfl, rfl, rfl, rfl, rfl⟩, Or.inr ⟨rfl, Or.inl h₁.1.2⟩⟩
  · simp only [Bool.and_eq_true] at h₂
    exact ⟨⟨rfl, rfl, rfl, rfl, rfl⟩, Or.inr ⟨rfl, Or.inl h₂.1.2⟩⟩
  · simp only [Bool.and_eq_true, Option.isNone_iff_eq_none] at h₃
    exact ⟨⟨rfl, rfl, rfl, rfl, rfl⟩, Or.inr ⟨rfl, Or.inr h₃.1.1.2⟩⟩
  · exact ⟨.refl row, Or.inl rfl⟩

theorem finishDefaultDirectory_staysOr (row : ModelFile) (remote local' : Option SystemFile)
    (statusIsNone isStopped : Bool) (descendants : List ModelFile) :
    StaysOr (effectiveLocalTreeProvesCompletion remote local' = true) row
      (finishDefaultDirectory row remote local' statusIsNone isStopped descendants).1 := by
  unfold finishDefaultDirectory
  split_ifs with h₁ h₂ h₃
  · exact ⟨.refl row, Or.inl rfl⟩
  · simp only [Bool.and_eq_true] at h₁
    exact ⟨⟨rfl, rfl, rfl, rfl, rfl⟩, Or.inr ⟨rfl, h₁.1.2⟩⟩
  · simp only [Bool.and_eq_true] at h₃
    exact ⟨⟨rfl, rfl, rfl, rfl, rfl⟩, Or.inr ⟨rfl, h₃.2⟩⟩
  · exact ⟨.refl row, Or.inl rfl⟩

theorem terminalCounters_sameRow (row : ModelFile) (remote : Option SystemFile) :
    SameRow row (terminalCounters row remote) ∧ (terminalCounters row remote).state = row.state := by
  unfold terminalCounters
  split
  · split_ifs
    · exact ⟨⟨rfl, rfl, rfl, rfl, rfl⟩, rfl⟩
    · exact ⟨.refl row, rfl⟩
  · exact ⟨.refl row, rfl⟩

theorem StaysOr.counters {reason : Prop} {row file : ModelFile} (h : StaysOr reason row file)
    (remote : Option SystemFile) : StaysOr reason row (terminalCounters file remote) := by
  obtain ⟨hsame, hstate⟩ := terminalCounters_sameRow file remote
  exact h.trans ⟨hsame, Or.inl hstate⟩

/-- The completion check makes a row downloaded on proof alone, or where nothing is remote. -/
theorem checkRootDownloaded_staysOr (b : Sources) (fileId : FileId) (row : ModelFile)
    (remote local' : Option SystemFile) (status : Option LftpJobStatus) (isStopped : Bool)
    (retained : Option TransferState) (descendants : List ModelFile) :
    Spec (fun _ => True)
      (checkRootDownloaded b fileId row remote local' status isStopped retained descendants)
      (fun checked => StaysOr (effectiveLocalTreeProvesCompletion remote local' = true ∨ row.remoteSize = none) row
        checked.1) := by
  unfold checkRootDownloaded
  refine Spec.bind (finishDownloading_staysOr fileId row remote local' status isStopped descendants) ?_
  rintro file ⟨hsame, hfile⟩
  have hstays : StaysOr (effectiveLocalTreeProvesCompletion remote local' = true ∨ row.remoteSize = none) row file :=
    ⟨hsame, hfile.imp id fun h => ⟨h.1, Or.inl h.2⟩⟩
  split_ifs
  · exact Spec.pure (hstays.counters remote)
  · refine Spec.pure (StaysOr.counters (hstays.trans ?_) remote)
    exact hsame.remoteSize ▸ finishDefaultFile_staysOr b file remote local' _ isStopped retained
  · refine Spec.pure (StaysOr.counters (hstays.trans ?_) remote)
    exact (finishDefaultDirectory_staysOr file remote local' _ isStopped descendants).weaken Or.inl
  · exact Spec.pure (hstays.counters remote)

/-! ## Lifecycle markers -/

/-- What a deletion rests on: the pair is known, nothing is local, and the row has its marker. -/
def Sources.Absent (b : Sources) (row : ModelFile) : Prop :=
  row.pathPairId ∉ b.unknownLocalPathPairIds ∧ row.localSize = none ∧
    ∃ downloaded, b.downloadedFiles = some downloaded ∧ row.fileId ∈ downloaded

theorem checkPersistAuthority_sameRow (b : Sources) (row : ModelFile) :
    SameRow row (checkPersistAuthority b row) ∧
      ((checkPersistAuthority b row).state = row.state ∨
        ((checkPersistAuthority b row).state = .deleted ∧ b.Absent row)) := by
  unfold checkPersistAuthority
  cases hmarks : b.downloadedFiles with
  | none => exact ⟨.refl row, Or.inl rfl⟩
  | some downloaded =>
    dsimp only
    split_ifs with hunknown habsent
    · exact ⟨.refl row, Or.inl rfl⟩
    · exact ⟨⟨rfl, rfl, rfl, rfl, rfl⟩, Or.inr ⟨rfl, hunknown, habsent.2.1, downloaded, hmarks, habsent.2.2⟩⟩
    · exact ⟨.refl row, Or.inl rfl⟩

theorem checkExtracting_sameRow {b : Sources} {row file : ModelFile} (h : checkExtracting b row = .ok file) :
    SameRow row file ∧ (file.state = row.state ∨ file.state = .extracting) := by
  unfold checkExtracting at h
  split at h
  · cases h
    exact ⟨.refl row, Or.inl rfl⟩
  · split_ifs at h <;> cases h
    · exact ⟨⟨rfl, rfl, rfl, rfl, rfl⟩, Or.inr rfl⟩
    · exact ⟨.refl row, Or.inl rfl⟩

theorem checkExtracted_sameRow (b : Sources) (suppressed : List String) (local' : Option SystemFile)
    (row : ModelFile) :
    SameRow row (checkExtracted b suppressed local' row) ∧
      ((checkExtracted b suppressed local' row).state = row.state ∨
        ((checkExtracted b suppressed local' row).state = .extracted ∧ row.state = .downloaded)) := by
  unfold checkExtracted
  split_ifs with h
  · exact ⟨⟨rfl, rfl, rfl, rfl, rfl⟩, Or.inr ⟨rfl, h.2.1⟩⟩
  · exact ⟨.refl row, Or.inl rfl⟩

theorem checkValidating_sameRow {b : Sources} {row file : ModelFile} (h : checkValidating b row = .ok file) :
    SameRow row file ∧
      (file.state = row.state ∨ ∃ status, b.validationStatuses.get row.fileId = some status ∧
        file.state = status.state) := by
  unfold checkValidating at h
  split at h
  · cases h
    exact ⟨.refl row, Or.inl rfl⟩
  · rename_i status hstatus
    split_ifs at h <;> cases h
    · exact ⟨⟨rfl, rfl, rfl, rfl, rfl⟩, Or.inr ⟨status, hstatus, rfl⟩⟩
    · exact ⟨.refl row, Or.inl rfl⟩

/-- The validation statuses carry the states of a validation alone. -/
def Sources.ValidationStates (b : Sources) : Prop :=
  ∀ id status, b.validationStatuses.get id = some status →
    status.state = .validating ∨ status.state = .validated ∨ status.state = .corrupt

/-- The chain of the markers before the validation, by their states alone. -/
theorem shown_of_markers {absent : Prop} {row s₁ s₂ s₃ : ModelState}
    (hrow : InTransfer row ∨ row = .downloaded) (hpersist : s₁ = row ∨ (s₁ = .deleted ∧ absent))
    (hextracting : s₂ = s₁ ∨ s₂ = .extracting) (hextracted : s₃ = s₂ ∨ (s₃ = .extracted ∧ s₂ = .downloaded)) :
    (s₃ = .downloaded ∨ s₃ = .extracted → row = .downloaded) ∧ (s₃ = .deleted → absent) := by
  unfold InTransfer at hrow
  rcases hextracted with rfl | ⟨rfl, rfl⟩
  · rcases hextracting with rfl | rfl
    · rcases hpersist with rfl | ⟨rfl, habsent⟩
      · rcases hrow with (rfl | rfl | rfl) | rfl <;> simp
      · exact ⟨by simp, fun _ => habsent⟩
    · simp
  · rcases hextracting with rfl | h
    · rcases hpersist with rfl | ⟨h, -⟩
      · simp
      · cases h
    · cases h

/-- The markers show a row as downloaded or extracted only if it was downloaded before them. -/
theorem determineState_spec {b : Sources} (hval : b.ValidationStates) {suppressed : List String}
    {row file : ModelFile} {local' : Option SystemFile} (hrow : InTransfer row.state ∨ row.state = .downloaded)
    (h : determineState b suppressed row local' = .ok file) :
    SameRow row file ∧ (file.state = .downloaded ∨ file.state = .extracted → row.state = .downloaded) ∧
      (file.state = .deleted → b.Absent row) := by
  unfold determineState at h
  set entry : ModelFile := { row with finalMoveSucceeded := decide (row.fileId ∈ b.finalMoveSucceededFiles) }
  have hentry : SameRow row entry := ⟨rfl, rfl, rfl, rfl, rfl⟩
  obtain ⟨extracting, hextracting, h⟩ := ok_of_bind h
  obtain ⟨validated, hvalidating, h⟩ := ok_of_bind h
  obtain ⟨hsame₁, hstate₁⟩ := checkPersistAuthority_sameRow b entry
  obtain ⟨hsame₂, hstate₂⟩ := checkExtracting_sameRow hextracting
  obtain ⟨hsame₃, hstate₃⟩ := checkExtracted_sameRow b suppressed local' extracting
  obtain ⟨hsame₄, hstate₄⟩ := checkValidating_sameRow hvalidating
  have hsame : SameRow row validated := (((hentry.trans hsame₁).trans hsame₂).trans hsame₃).trans hsame₄
  have hstates : (validated.state = .downloaded ∨ validated.state = .extracted → row.state = .downloaded) ∧
      (validated.state = .deleted → b.Absent row) := by
    rcases hstate₄ with h₄ | ⟨status, hstatus, h₄⟩
    · rw [h₄]
      exact shown_of_markers hrow hstate₁ hstate₂ hstate₃
    · rw [h₄]
      rcases hval _ status hstatus with h | h | h <;> simp [h]
  split_ifs at h <;> cases h
  · exact ⟨⟨hsame.fileId, hsame.isDir, hsame.pathPairId, hsame.remoteSize, hsame.localSize⟩, by simp, by simp⟩
  · exact ⟨hsame, hstates⟩

/-! ## The rows of a build -/

theorem estimateEta_sameRow (row : ModelFile) :
    SameRow row (estimateEta row) ∧ (estimateEta row).state = row.state := by
  unfold estimateEta
  split
  · split_ifs
    · exact ⟨⟨rfl, rfl, rfl, rfl, rfl⟩, rfl⟩
    · exact ⟨.refl row, rfl⟩
  · exact ⟨.refl row, rfl⟩

/-- A copy of the remote root that the effective tree proves. -/
def ProvenCopy (effective : Dict FileId SystemFile) (fileId : FileId) (remote : SystemFile) : Prop :=
  ∃ mine, effective.get fileId = some mine ∧ (Covers remote mine ∨ StagedTotal remote mine)

/-- What the state of a shown root rests on. -/
structure Grounded (b : Sources) (effective : Dict FileId SystemFile) (root : BuiltRoot) : Prop where
  downloaded : ∀ remote, b.remoteFiles.get root.fileId = some remote →
    root.file.state = .downloaded ∨ root.file.state = .extracted → ProvenCopy effective root.fileId remote
  deleted : root.file.state = .deleted → effective.get root.fileId = none ∧ b.Absent root.file

/-- From the filled row through the completion check and the markers. -/
theorem shown_of_chain {b : Sources} (hval : b.ValidationStates) {suppressed : List String}
    {remote local' : Option SystemFile} {shown checked file : ModelFile} (hshown : InTransfer shown.state)
    (hremote : shown.remoteSize = remote.map size) (hlocal : shown.localSize = local'.map size)
    (hchecked : StaysOr (effectiveLocalTreeProvesCompletion remote local' = true ∨ shown.remoteSize = none) shown
      checked)
    (hfile : determineState b suppressed checked local' = .ok file) :
    (∀ r, remote = some r → file.state = .downloaded ∨ file.state = .extracted →
      ∃ mine, local' = some mine ∧ (Covers r mine ∨ StagedTotal r mine)) ∧
    (file.state = .deleted → local' = none ∧ b.Absent file) := by
  obtain ⟨hsame, hstate⟩ := hchecked
  have hstates : InTransfer checked.state ∨ checked.state = .downloaded := by
    rcases hstate with h | h
    · exact Or.inl (h ▸ hshown)
    · exact Or.inr h.1
  obtain ⟨hfixed, hdone, hdeleted⟩ := determineState_spec hval hstates hfile
  constructor
  · rintro r rfl hshows
    rcases hstate with h | ⟨-, hproof | hnone⟩
    · rw [hdone hshows] at h
      rw [← h] at hshown
      rcases hshown with h | h | h <;> cases h
    · exact effectiveLocalTreeProvesCompletion_spec hproof
    · rw [hremote] at hnone
      cases hnone
  · intro hshows
    obtain ⟨hpair, hsize, hmark⟩ := hdeleted hshows
    have hnone : local' = none := by
      rw [hsame.localSize, hlocal] at hsize
      exact Option.map_eq_none_iff.mp hsize
    exact ⟨hnone, by rwa [hfixed.pathPairId], by rwa [hfixed.localSize], by rwa [hfixed.fileId]⟩

/-- One root: the state it leaves the chain with is grounded. -/
theorem buildRoot_grounded (rt : Runtime) {b : Sources} (hval : b.ValidationStates)
    (effective : Dict FileId SystemFile) (suppressed : List String) (live : List FileId) (fileId : FileId) :
    Spec (fun _ => True) (buildRoot rt b effective suppressed live fileId)
      (fun built => ∀ root, built.1 = some root → Grounded b effective root) := by
  unfold buildRoot
  extract_lets remote local' status isStopped
  refine Spec.bind (Spec.any _) fun isDir _ => ?_
  extract_lets bare
  refine Spec.bind (resolveRootTransferState_state _ _ _ _ _ _ _ _) fun transfer htransfer => ?_
  refine Spec.bind (fillModelFile_row _ _ _ _ _ _ _ _ _ _ _ _) ?_
  rintro ⟨filled, scratch⟩ rfl
  refine Spec.bind (Spec.any _) fun walk _ => ?_
  extract_lets descendants shown
  refine Spec.bind (checkRootDownloaded_staysOr _ _ _ _ _ _ _ _ _) ?_
  rintro ⟨checked, incomplete⟩ hchecked
  refine Spec.bind (Spec.lift fun file hfile => hfile) fun file hfile => ?_
  extract_lets file'
  split_ifs
  · exact Spec.pure (by simp)
  · refine Spec.pure ?_
    rintro root hroot
    cases hroot
    have hstate : shown.state = transfer.state := (estimateEta_sameRow _).2
    have hremote : shown.remoteSize = remote.map size := (estimateEta_sameRow _).1.remoteSize
    have hlocal : shown.localSize = local'.map size := (estimateEta_sameRow _).1.localSize
    obtain ⟨hdone, hdeleted⟩ := shown_of_chain hval (hstate ▸ htransfer) hremote hlocal hchecked hfile
    exact ⟨hdone, hdeleted⟩

theorem buildRoots_grounded (rt : Runtime) {b : Sources} (hval : b.ValidationStates)
    (effective : Dict FileId SystemFile) (ids : List FileId) :
    Spec (fun _ => True) (buildRoots rt b effective ids) (fun roots => ∀ root ∈ roots, Grounded b effective root) := by
  unfold buildRoots
  refine Spec.bind (Q := fun acc => ∀ root ∈ acc.1, Grounded b effective root) (Spec.foldlM ids ?_ (by simp)) ?_
  · rintro ⟨built, live⟩ id - hacc
    refine Spec.bind (buildRoot_grounded rt hval effective _ live id) ?_
    rintro ⟨root, live'⟩ hroot
    refine Spec.pure fun r hr => ?_
    rcases List.mem_append.mp hr with hr | hr
    · exact hacc r hr
    · exact hroot r (Option.mem_toList.mp hr)
  · rintro ⟨roots, live⟩ hroots
    exact Spec.pure hroots

theorem publish_sublist {roots visible : List BuiltRoot} (h : publish roots = .ok visible) :
    visible.Sublist roots := by
  unfold publish at h
  dsimp only at h
  split_ifs at h
  cases h
  exact List.filter_sublist

/-- Every root that a build shows is grounded in the effective tree chosen for it. -/
theorem downloaded_needs_proof (rt : Runtime) (b : Sources) (hval : b.ValidationStates)
    (authority : Option LocalScanAuthority) (t t' : Transfers) (roots : List BuiltRoot)
    (hbuild : (buildModel rt b authority).run.run t = (.ok roots, t')) :
    ∀ root ∈ roots,
      (∀ remote, b.remoteFiles.get root.fileId = some remote →
        root.file.state = .downloaded ∨ root.file.state = .extracted →
        ∃ mine, (b.buildEffectiveLocalFiles authority).get root.fileId = some mine ∧ b.Chosen root.fileId mine ∧
          (Covers remote mine ∨ StagedTotal remote mine)) ∧
      (root.file.state = .deleted →
        root.file.pathPairId ∉ b.unknownLocalPathPairIds ∧
        (b.buildEffectiveLocalFiles authority).get root.fileId = none ∧
        ∃ downloaded, b.downloadedFiles = some downloaded ∧ root.file.fileId ∈ downloaded) := by
  have hspec : Spec (fun _ => True) (buildModel rt b authority)
      (fun roots => ∀ root ∈ roots, Grounded b (b.buildEffectiveLocalFiles authority) root) := by
    unfold buildModel
    refine Spec.bind (buildRoots_grounded rt hval _ _) fun built hbuilt => ?_
    refine Spec.bind (Spec.lift fun visible hvisible => hvisible) fun visible hvisible => ?_
    refine Spec.bind (Spec.any _) fun _ _ => Spec.pure fun root hroot => ?_
    exact hbuilt root ((publish_sublist hvisible).mem hroot)
  intro root hroot
  obtain ⟨hdone, hdeleted⟩ := (hspec t trivial).2 roots (by rw [hbuild]) root hroot
  constructor
  · intro remote hremote hshows
    obtain ⟨mine, hmine, hproof⟩ := hdone remote hremote hshows
    exact ⟨mine, hmine, chosen_of_effective hmine, hproof⟩
  · intro hshows
    obtain ⟨hnone, hpair, -, hmark⟩ := hdeleted hshows
    exact ⟨hpair, hnone, hmark⟩

/-- A pair with one root that was copied and one that was downloaded once and is gone. -/
def copiedAndGone : Sources :=
  let copied : SystemFile :=
    .mk { name := "season", size := 100, isDir := true, pathPairId := some "tv" }
      [.mk { name := "pilot", size := 100, pathPairId := some "tv" } []]
  { localFiles := .ofList [copied]
    remoteFiles := .ofList [copied, .mk { name := "old", size := 7, pathPairId := some "tv" } []]
    downloadedFiles := some [buildFileId "season" (some "tv"), buildFileId "old" (some "tv")] }

set_option maxRecDepth 10000 in
theorem copied_root_is_proven :
    ∃ roots t', (buildModel .insertionOrder copiedAndGone none).run.run {} = (.ok roots, t') ∧
      roots.map (·.file.state) = [.downloaded, .deleted] ∧
      ∀ root ∈ roots, ∀ remote, copiedAndGone.remoteFiles.get root.fileId = some remote →
        root.file.state = .downloaded →
        ∃ mine, (copiedAndGone.buildEffectiveLocalFiles none).get root.fileId = some mine ∧
          (Covers remote mine ∨ StagedTotal remote mine) := by
  have hstates : ((buildModel .insertionOrder copiedAndGone none).run.run {}).1.toOption.map
      (List.map (·.file.state)) = some [ModelState.downloaded, .deleted] := by decide +kernel
  obtain ⟨roots, hroots, hstates⟩ := Option.map_eq_some_iff.mp hstates
  have hrun : (buildModel .insertionOrder copiedAndGone none).run.run {} =
      (.ok roots, ((buildModel .insertionOrder copiedAndGone none).run.run {}).2) :=
    Prod.ext (ok_of_toOption hroots) rfl
  refine ⟨roots, _, hrun, hstates, fun root hroot remote hremote hstate => ?_⟩
  have hval : copiedAndGone.ValidationStates := fun _ _ h => by cases h
  obtain ⟨mine, hmine, -, hproof⟩ :=
    (downloaded_needs_proof _ _ hval _ _ _ _ hrun root hroot).1 remote hremote (Or.inl hstate)
  exact ⟨mine, hmine, hproof⟩

end Builder

end SeedSync
