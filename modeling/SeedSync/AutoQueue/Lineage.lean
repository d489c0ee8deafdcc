import SeedSync.AutoQueue.Model

/-!
# Remote deletes follow completions

On what grounds a cycle deletes a remote file, and that an id which was seen before its path pair
was reconciled is deleted only on proof of a transfer by this process, however late.
-/

namespace SeedSync.AutoQueue

open Lib

section Sets

theorem mem_addId {ids : List String} {id other : String} : other ∈ addId ids id ↔ other ∈ ids ∨ other = id := by
  rw [addId]
  split_ifs with h
  · constructor
    · exact .inl
    · rintro (hmem | rfl)
      · exact hmem
      · exact h
  · simp

theorem mem_dropId {ids : List String} {id other : String} : other ∈ dropId ids id ↔ other ∈ ids ∧ other ≠ id := by
  simp [dropId]

end Sets

theorem currentFiles_get {w : World} {id : String} {file : File} (h : w.currentFiles.get id = some file) :
    file ∈ w.roots ∧ file.fileId = id := by
  obtain ⟨root, hroot, heq⟩ := List.mem_map.1 (Dict.get_ofList_mem h)
  obtain ⟨hid, hfile⟩ := Prod.mk.inj heq
  rw [← hfile]
  exact ⟨hroot, hid⟩

/-! ## Grounds -/

/-- The event is a completion, as the model root shows it now. -/
def IsCompletion (old file : File) : Prop :=
  file.info.state = .extracted ∧ old.info.state = .extracting ∨
    file.info.state = .downloaded ∧ file.info.isExtractable = false ∧ old.info.state ≠ .downloaded ∧
      old.info.state ≠ .extracted ∧ old.info.state ≠ .extracting

/-- On what a cycle deletes the remote file of an id. -/
structure DeleteGrounds (config : Config) (w : World) (id : String) (event : File × File) (file : File) : Prop where
  enabled : config.enabled = true
  autoDelete : config.autoDeleteRemoteEnabled = true
  ofId : event.2.fileId = id
  root : file ∈ w.roots ∧ file.fileId = id
  autoQueue : w.isAutoQueueEnabledForFile file = true
  reconciled : w.isPathPairReconciled file.pathPairId = true
  eligible : w.isRemoteDeleteEligible file = true
  content : file.info.remoteHasTransferableContent = true
  completion : IsCompletion event.1 file

/-- Proof of a transfer by this process. -/
def ProvesTransfer (w : World) (old file : File) : Prop :=
  old.info.state = .queued ∨ old.info.state = .downloading ∨ w.hasCurrentProcessFinalPublication file = true

theorem isCompletion_of_transition {old file : File} (h : isRemoteDeleteTransition old file = true) :
    file.info.remoteHasTransferableContent = true ∧ IsCompletion old file := by
  unfold isRemoteDeleteTransition at h
  split_ifs at h with hcontent hsame hextracted hdownloaded hextractable
  · exact ⟨by simpa using hcontent, .inl ⟨hextracted, by simpa using h⟩⟩
  · refine ⟨by simpa using hcontent, .inr ⟨hdownloaded, by simpa using hextractable, ?_⟩⟩
    simpa using h

/-! ## The lineage -/

/-- The id is remembered. -/
def Marked (lineage : Lineage) (id : String) : Prop :=
  id ∈ lineage.deferredRemoteDelete ∨ id ∈ lineage.initialReconciliation

theorem leaveLineage_eq_none {w : World} {ids : List String} {old file : File} (h : file.fileId ∈ ids)
    (hproof : ¬ProvesTransfer w old file) : leaveLineage w ids old file = none := by
  have hstate : isActiveTransferState old.info.state = false := by
    refine decide_eq_false fun hactive => hproof ?_
    rcases hactive with hqueued | hdownloading
    · exact .inl hqueued
    · exact .inr (.inl hdownloading)
  have hpublished : w.hasCurrentProcessFinalPublication file = false := by
    cases hvalue : w.hasCurrentProcessFinalPublication file with
    | false => rfl
    | true => exact absurd (.inr (.inr hvalue)) hproof
  rw [leaveLineage, if_pos h, hstate, hpublished]
  rfl

theorem mem_leaveLineage {w : World} {ids ids' : List String} {old file : File} {id : String}
    (h : leaveLineage w ids old file = some ids') (hne : file.fileId ≠ id) : id ∈ ids' ↔ id ∈ ids := by
  unfold leaveLineage at h
  split_ifs at h
  · rw [← Option.some.inj h, mem_dropId]
    exact ⟨And.left, fun hid => ⟨hid, hne.symm⟩⟩
  · rw [← Option.some.inj h]

theorem marked_markNewFiles {w : World} {lineage : Lineage} {id : String} (h : Marked lineage id) (newFiles : List File) :
    Marked (markNewFiles w lineage newFiles) id := by
  unfold markNewFiles
  induction newFiles generalizing lineage with
  | nil => exact h
  | cons newFile newFiles ih =>
    refine ih ?_
    unfold markNewFile
    split
    · exact h
    · split_ifs
      · exact h
      · exact h.imp (fun hin => hin) fun hin => mem_addId.2 (.inl hin)

/-- A new file of a pair that is not reconciled is remembered. -/
theorem marked_of_newFile {w : World} (lineage : Lineage) {id : String} {file : File} {newFiles : List File}
    (hfile : w.currentFiles.get id = some file) (hready : w.isReconciliationReady file = false)
    (hnew : ∃ newFile ∈ newFiles, newFile.fileId = id) : Marked (markNewFiles w lineage newFiles) id := by
  obtain ⟨newFile, hmem, hid⟩ := hnew
  obtain ⟨before, after, rfl⟩ := List.append_of_mem hmem
  have hstep : markNewFiles w lineage (before ++ newFile :: after) =
      markNewFiles w (markNewFiles w (markNewFiles w lineage before) [newFile]) after := by
    simp [markNewFiles, List.foldl_append]
  rw [hstep]
  refine marked_markNewFiles ?_ after
  rw [markNewFiles, List.foldl_cons, List.foldl_nil, markNewFile, hid, hfile]
  simp only [hready, Bool.false_eq_true, if_false]
  exact .inr (mem_addId.2 (.inr (currentFiles_get hfile).2.symm))

section Evaluation

variable {config : Config} {matchesPattern : String → File → Bool} {w : World} {lineage : Lineage} {id : String}

/-- One event: what it selects has its grounds. -/
theorem evaluateEvent_grounds {event : File × File} {candidate : CandidateMatch}
    (henabled : config.enabled = true) (hdelete : config.autoDeleteRemoteEnabled = true)
    (h : (evaluateEvent config matchesPattern w lineage event).2 = some candidate) :
    DeleteGrounds config w candidate.1.fileId event candidate.1 := by
  unfold evaluateEvent at h
  split at h
  · simp at h
  · next file hfile =>
    have hroot := currentFiles_get hfile
    cases hready : w.isReconciliationReady file with
    | false => simp [hready] at h
    | true =>
      simp only [hready, Bool.not_true, Bool.false_eq_true, if_false] at h
      split at h
      · simp at h
      · split at h
        · simp at h
        · split_ifs at h with hgrounds
          obtain ⟨pattern, -, hcandidate⟩ := Option.map_eq_some_iff.1 h
          simp only [Bool.and_eq_true] at hgrounds
          obtain ⟨⟨hauto, heligible⟩, htransition⟩ := hgrounds
          obtain ⟨hcontent, hcompletion⟩ := isCompletion_of_transition htransition
          rw [← hcandidate]
          exact {
            enabled := henabled
            autoDelete := hdelete
            ofId := hroot.2.symm
            root := ⟨hroot.1, rfl⟩
            autoQueue := hauto
            reconciled := hready
            eligible := heligible
            content := hcontent
            completion := hcompletion }

/-- One event: a remembered id stays remembered and is not selected, unless the event proves a
transfer of it in a pair that is reconciled. -/
theorem evaluateEvent_marked (config : Config) (matchesPattern : String → File → Bool) {event : File × File} (h : Marked lineage id)
    (hkeeps : ∀ file, event.2.fileId = id → w.currentFiles.get id = some file → w.isReconciliationReady file = true →
      ¬ProvesTransfer w event.1 file) :
    Marked (evaluateEvent config matchesPattern w lineage event).1 id ∧
      ∀ candidate, (evaluateEvent config matchesPattern w lineage event).2 = some candidate → candidate.1.fileId ≠ id := by
  unfold evaluateEvent
  split
  · exact ⟨h, by simp⟩
  · next file hfile =>
    have hroot := (currentFiles_get hfile).2
    cases hready : w.isReconciliationReady file with
    | false =>
      exact ⟨h.imp (fun hin => mem_addId.2 (.inl hin)) fun hin => hin, by simp⟩
    | true =>
      simp only [Bool.not_true, Bool.false_eq_true, if_false]
      by_cases hid : event.2.fileId = id
      · -- The event is of this id and proves nothing: one of the sets holds it back.
        have hproof := hkeeps file hid (hid ▸ hfile) hready
        rw [hid] at hroot
        rcases h with hdeferred | hinitial
        · rw [leaveLineage_eq_none (hroot.symm ▸ hdeferred) hproof]
          exact ⟨.inl hdeferred, by simp⟩
        · split
          · exact ⟨.inr hinitial, by simp⟩
          · next deferred _ =>
            rw [leaveLineage_eq_none (hroot.symm ▸ hinitial) hproof]
            exact ⟨.inr hinitial, by simp⟩
      · have hne : file.fileId ≠ id := hroot ▸ hid
        split
        · exact ⟨h, by simp⟩
        · next deferred hdeferred =>
          split
          · exact ⟨h.imp (mem_leaveLineage hdeferred hne).2 fun hin => hin, by simp⟩
          · next initial hinitial =>
            refine ⟨h.imp (mem_leaveLineage hdeferred hne).2 (mem_leaveLineage hinitial hne).2, ?_⟩
            intro candidate hcandidate
            split_ifs at hcandidate
            obtain ⟨pattern, -, rfl⟩ := Option.map_eq_some_iff.1 hcandidate
            exact hne

theorem evaluateEvents_concat (lineage : Lineage) (events : List (File × File)) (event : File × File) :
    let before := evaluateEvents config matchesPattern w lineage events
    evaluateEvents config matchesPattern w lineage (events ++ [event]) =
      ((evaluateEvent config matchesPattern w before.1 event).1,
        match (evaluateEvent config matchesPattern w before.1 event).2 with
        | some candidate => before.2.set candidate.1.fileId candidate
        | none => before.2) := by
  intro before
  simp only [before, evaluateEvents]
  rw [List.foldl_append]
  rfl

/-- What the loop selects has its grounds in one of the events. -/
theorem evaluateEvents_grounds (henabled : config.enabled = true) (hdelete : config.autoDeleteRemoteEnabled = true)
    (events : List (File × File)) {candidate : CandidateMatch}
    (h : (evaluateEvents config matchesPattern w lineage events).2.get id = some candidate) :
    candidate.1.fileId = id ∧ ∃ event ∈ events, DeleteGrounds config w id event candidate.1 := by
  induction events using List.reverseRecOn with
  | nil => exact absurd h (by simp [evaluateEvents])
  | append_singleton events event ih =>
    have hbefore : (evaluateEvents config matchesPattern w lineage events).2.get id = some candidate →
        candidate.1.fileId = id ∧ ∃ event' ∈ events ++ [event], DeleteGrounds config w id event' candidate.1 := by
      intro hget
      obtain ⟨hid, event', hmem, hgrounds⟩ := ih hget
      exact ⟨hid, event', List.mem_append_left _ hmem, hgrounds⟩
    rw [evaluateEvents_concat] at h
    cases hfound : (evaluateEvent config matchesPattern w (evaluateEvents config matchesPattern w lineage events).1
        event).2 with
    | none =>
      simp only [hfound] at h
      exact hbefore h
    | some found =>
      simp only [hfound] at h
      rcases Dict.eq_or_of_get_set h with ⟨rfl, rfl⟩ | hold
      · exact ⟨rfl, event, by simp, evaluateEvent_grounds henabled hdelete hfound⟩
      · exact hbefore hold

/-- A remembered id comes through the loop, unless an event of it proves a transfer. -/
theorem evaluateEvents_marked (h : Marked lineage id) (events : List (File × File))
    (hkeeps : ∀ event ∈ events, ∀ file, event.2.fileId = id → w.currentFiles.get id = some file →
      w.isReconciliationReady file = true → ¬ProvesTransfer w event.1 file) :
    Marked (evaluateEvents config matchesPattern w lineage events).1 id ∧
      (evaluateEvents config matchesPattern w lineage events).2.get id = none := by
  induction events using List.reverseRecOn with
  | nil => exact ⟨h, rfl⟩
  | append_singleton events event ih =>
    obtain ⟨hmarked, hget⟩ := ih fun event' hmem => hkeeps event' (List.mem_append_left _ hmem)
    obtain ⟨hstays, hother⟩ := evaluateEvent_marked config matchesPattern hmarked (hkeeps event (by simp))
    rw [evaluateEvents_concat]
    refine ⟨hstays, ?_⟩
    split
    · next candidate hcandidate =>
      rw [Dict.get_set, if_neg (hother candidate hcandidate)]
      exact hget
    · exact hget

/-- An event of a pair that is not reconciled makes its id remembered. -/
theorem evaluateEvents_marks {file : File} (hfile : w.currentFiles.get id = some file)
    (hready : w.isReconciliationReady file = false) (events : List (File × File))
    (h : Marked lineage id ∨ ∃ event ∈ events, event.2.fileId = id) :
    Marked (evaluateEvents config matchesPattern w lineage events).1 id := by
  have hkeeps : ∀ event : File × File, ∀ file', event.2.fileId = id → w.currentFiles.get id = some file' →
      w.isReconciliationReady file' = true → ¬ProvesTransfer w event.1 file' := by
    intro event file' _ hfile' hready'
    rw [hfile] at hfile'
    rw [← Option.some.inj hfile', hready] at hready'
    exact absurd hready' (by simp)
  rcases h with h | ⟨event, hmem, hid⟩
  · exact (evaluateEvents_marked h events fun event _ => hkeeps event).1
  · obtain ⟨before, after, rfl⟩ := List.append_of_mem hmem
    induction after using List.reverseRecOn with
    | nil =>
      rw [evaluateEvents_concat]
      simp only [evaluateEvent, hid, hfile, hready, Bool.not_false, if_true]
      exact .inl (mem_addId.2 (.inr (currentFiles_get hfile).2.symm))
    | append_singleton after last ih =>
      rw [← List.cons_append, ← List.append_assoc, evaluateEvents_concat]
      exact (evaluateEvent_marked config matchesPattern (ih (by simp)) (hkeeps last)).1

end Evaluation

/-! ## Cycles -/

section Cycles

variable {config : Config} {matchesPattern : String → File → Bool} {w : World} {taken : Option Nat} {s : State} {id : String}

theorem mem_cycleCommands {queued extracted deleted : List CandidateMatch}
    (h : (⟨.deleteRemote, id⟩ : Command) ∈ cycleCommands queued extracted deleted) :
    ∃ candidate ∈ deleted, candidate.1.fileId = id := by
  simpa [cycleCommands] using h

/-- A cycle that deletes has found the id in the loop over the events. -/
theorem processOnce_delete (h : (⟨.deleteRemote, id⟩ : Command) ∈ (processOnce config matchesPattern w taken s).2) :
    config.enabled = true ∧ config.autoDeleteRemoteEnabled = true ∧
      ∃ candidate, (evaluateEvents config matchesPattern w (markNewFiles w s.forgetRemoved.lineage s.newFiles)
        s.modifiedFiles).2.get id = some candidate := by
  have hcommands : (⟨.deleteRemote, id⟩ : Command) ∈ cycleCommands (filesToQueue config matchesPattern w s.forgetRemoved
      s.forgetRemoved.newPatterns) (filesToExtract config matchesPattern w s.forgetRemoved s.forgetRemoved.newPatterns)
      (filterDeleteRemoteCandidates config matchesPattern w s.forgetRemoved).2 := by
    unfold processOnce at h
    dsimp only at h
    split at h
    · simp at h
    · split at h
      · simp at h
      · unfold activeCycle at h
        dsimp only at h
        split at h
        · split at h
          · exact List.mem_of_mem_take h
          · exact h
        · exact h
  obtain ⟨candidate, hmem, hid⟩ := mem_cycleCommands hcommands
  unfold filterDeleteRemoteCandidates at hmem
  split_ifs at hmem with henabled
  · rw [Bool.and_eq_true] at henabled
    obtain ⟨item, hitem, rfl⟩ := List.mem_map.1 hmem
    have hget := (Dict.get_eq_some _ item.1 item.2).2 hitem
    have hkey := (evaluateEvents_grounds henabled.1 henabled.2 s.modifiedFiles hget).1
    rw [← hkey, hid] at hget
    exact ⟨henabled.1, henabled.2, item.2, hget⟩
  · simp at hmem

/-- What takes an id out of the lineage in a cycle: it was reported removed, it is in the model no
more, or an event of it proves a transfer while its pair is reconciled. -/
def Clears (w : World) (s : State) (id : String) : Prop :=
  id ∈ s.removedFileIds ∨ w.currentFiles.get id = none ∨
    ∃ event ∈ s.modifiedFiles, ∃ file, event.2.fileId = id ∧ w.currentFiles.get id = some file ∧
      w.isReconciliationReady file = true ∧ ProvesTransfer w event.1 file

/-- The cycle holds an event of the id, and finds its pair not reconciled. -/
def SeesUnreconciled (config : Config) (w : World) (s : State) (id : String) : Prop :=
  config.enabled = true ∧ config.autoDeleteRemoteEnabled = true ∧
    ∃ file, w.currentFiles.get id = some file ∧ w.isReconciliationReady file = false ∧
      ((∃ newFile ∈ s.newFiles, newFile.fileId = id) ∨ ∃ event ∈ s.modifiedFiles, event.2.fileId = id)

theorem marked_forgetRemoved (h : Marked s.lineage id) (hstays : id ∉ s.removedFileIds) :
    Marked s.forgetRemoved.lineage id :=
  h.imp (fun hin => List.mem_filter.2 ⟨hin, decide_eq_true hstays⟩) fun hin => List.mem_filter.2 ⟨hin, decide_eq_true hstays⟩

/-- The lineage behind the loops outlives the cycle for an id of the model. -/
theorem marked_activeCycle (h : Marked (filterDeleteRemoteCandidates config matchesPattern w s).1 id)
    (hpresent : w.currentFiles.get id ≠ none) : Marked (activeCycle config matchesPattern w taken s).1.lineage id := by
  have hcontains : w.currentFiles.contains id = true := Option.isSome_iff_ne_none.2 hpresent
  have hretained : ∀ queued, Marked (s.retained config matchesPattern w
      (filterDeleteRemoteCandidates config matchesPattern w s).1 queued).lineage id := fun queued =>
    h.imp (fun hin => List.mem_filter.2 ⟨hin, hcontains⟩) fun hin => List.mem_filter.2 ⟨hin, hcontains⟩
  unfold activeCycle
  dsimp only
  split
  · split
    · exact h
    · exact hretained _
  · exact hretained _

theorem processOnce_marked (h : Marked s.lineage id) (hclears : ¬Clears w s id) :
    Marked (processOnce config matchesPattern w taken s).1.lineage id := by
  have hstays : id ∉ s.removedFileIds := fun hin => hclears (.inl hin)
  have hpresent : w.currentFiles.get id ≠ none := fun hnone => hclears (.inr (.inl hnone))
  have hmarked := marked_forgetRemoved h hstays
  unfold processOnce
  dsimp only
  split
  · exact hmarked
  · split
    · exact hmarked
    · refine marked_activeCycle ?_ hpresent
      unfold filterDeleteRemoteCandidates
      split_ifs
      · refine (evaluateEvents_marked (marked_markNewFiles hmarked _) _ ?_).1
        intro event hevent file hid hfile hready hproof
        exact hclears (.inr (.inr ⟨event, hevent, file, hid, hfile, hready, hproof⟩))
      · exact hmarked

theorem processOnce_marks (h : SeesUnreconciled config w s id) :
    Marked (processOnce config matchesPattern w taken s).1.lineage id := by
  obtain ⟨henabled, hdelete, file, hfile, hready, hbuffered⟩ := h
  have hbusy : (s.newPatterns.isEmpty && s.newFiles.isEmpty && s.modifiedFiles.isEmpty) = false := by
    rcases hbuffered with ⟨newFile, hmem, -⟩ | ⟨event, hmem, -⟩
    · simp [List.ne_nil_of_mem hmem]
    · simp [List.ne_nil_of_mem hmem]
  unfold processOnce
  simp only [henabled, Bool.not_true, Bool.false_and, Bool.false_eq_true, if_false]
  rw [if_neg (by simpa [State.forgetRemoved] using hbusy)]
  refine marked_activeCycle ?_ (by simp [hfile])
  unfold filterDeleteRemoteCandidates
  rw [if_pos (by simp [henabled, hdelete])]
  refine evaluateEvents_marks hfile hready _ ?_
  rcases hbuffered with hnew | hmodified
  · exact .inl (marked_of_newFile _ hfile hready hnew)
  · exact .inr hmodified

/-- A remembered id is deleted only in a cycle that has proof of a transfer. -/
theorem processOnce_delete_marked (h : Marked s.lineage id) (hstays : id ∉ s.removedFileIds)
    (hdeleted : (⟨.deleteRemote, id⟩ : Command) ∈ (processOnce config matchesPattern w taken s).2) :
    ∃ event ∈ s.modifiedFiles, ∃ file, event.2.fileId = id ∧ w.currentFiles.get id = some file ∧
      ProvesTransfer w event.1 file := by
  obtain ⟨-, -, candidate, hget⟩ := processOnce_delete hdeleted
  by_contra hnone
  have hkept : (evaluateEvents config matchesPattern w (markNewFiles w s.forgetRemoved.lineage s.newFiles)
      s.modifiedFiles).2.get id = none := by
    refine (evaluateEvents_marked (marked_markNewFiles (marked_forgetRemoved h hstays) s.newFiles) s.modifiedFiles ?_).2
    intro event hevent file hid hfile _ hproof
    exact hnone ⟨event, hevent, file, hid, hfile, hproof⟩
  rw [hkept] at hget
  exact absurd hget (by simp)

end Cycles

/-! ## Runs -/

section Runs

variable (config : Config) (matchesPattern : String → File → Bool)

/-- No cycle of the events takes the id out of the lineage. -/
def Undisturbed (id : String) : State → List Event → Prop
  | _, [] => True
  | s, event :: events =>
    (match event with
      | .process w _ => ¬Clears w s id
      | _ => True) ∧ Undisturbed id (step config matchesPattern s event) events

variable {config matchesPattern}

theorem run_marked {id : String} {s : State} {events : List Event} (h : Marked s.lineage id)
    (hundisturbed : Undisturbed config matchesPattern id s events) : Marked (run config matchesPattern s events).lineage id := by
  induction events generalizing s with
  | nil => exact h
  | cons event events ih =>
    refine ih ?_ hundisturbed.2
    cases event with
    | process w taken => exact processOnce_marked h hundisturbed.1
    | fileAdded file => exact h
    | fileUpdated old new => exact h
    | fileRemoved file => exact h
    | patternAdded pattern => exact h
    | patternRemoved pattern => exact h

/-- Every remote delete has its grounds, in every run; and an id that a cycle saw before its pair was
reconciled is deleted, however many cycles later, only on proof of a transfer by this process. -/
theorem remote_deletes_follow_completions (config : Config) (matchesPattern : String → File → Bool) (past : List Event) :
    let s := run config matchesPattern {} past
    (∀ (w : World) (taken : Option Nat) (id : String),
      (⟨.deleteRemote, id⟩ : Command) ∈ (processOnce config matchesPattern w taken s).2 →
        ∃ event ∈ s.modifiedFiles, ∃ file, DeleteGrounds config w id event file) ∧
    ∀ (w : World) (taken : Option Nat) (id : String) (later : List Event),
      let seen := (processOnce config matchesPattern w taken s).1
      let t := run config matchesPattern seen later
      SeesUnreconciled config w s id → Undisturbed config matchesPattern id seen later →
      ∀ (w' : World) (taken' : Option Nat), id ∉ t.removedFileIds →
        (⟨.deleteRemote, id⟩ : Command) ∈ (processOnce config matchesPattern w' taken' t).2 →
          ∃ event ∈ t.modifiedFiles, ∃ file, event.2.fileId = id ∧ w'.currentFiles.get id = some file ∧
            ProvesTransfer w' event.1 file := by
  intro s
  refine ⟨?_, ?_⟩
  · intro w taken id hdeleted
    obtain ⟨henabled, hdelete, candidate, hget⟩ := processOnce_delete hdeleted
    obtain ⟨-, event, hevent, hgrounds⟩ := evaluateEvents_grounds henabled hdelete s.modifiedFiles hget
    exact ⟨event, hevent, candidate.1, hgrounds⟩
  · intro w taken id later seen t hseen hundisturbed w' taken' hstays hdeleted
    exact processOnce_delete_marked (run_marked (processOnce_marks hseen) hundisturbed) hstays hdeleted

end Runs

/-! ## A transfer that is extracted -/

def archiveInfo (state : ModelState) : Info where
  name := "f"
  state := state
  remotePresent := true
  remoteHasTransferableContent := true
  isExtractable := true

/-- An archive in a state. -/
def archive (state : ModelState) : File := ⟨"f", none, .node (archiveInfo state) []⟩

def deletesRemote : Config := ⟨true, false, true, true⟩

/-- The archive is first seen while its pair is not reconciled, then queued, downloaded and extracted. -/
def transferred : List Event :=
  [.fileAdded (archive .default), .process { roots := [archive .default], isPathPairReconciled := fun _ => false } none,
    .fileUpdated (archive .queued) (archive .downloading), .process { roots := [archive .downloading] } none,
    .fileUpdated (archive .extracting) (archive .extracted)]

/-- The transfer clears the lineage, and the end of the extraction deletes the remote archive though
no final publication is known. -/
theorem extraction_after_transfer_deletes :
    SeesUnreconciled deletesRemote { roots := [archive .default], isPathPairReconciled := fun _ => false }
        (run deletesRemote (fun _ _ => true) {} (transferred.take 1)) "f" ∧
      (run deletesRemote (fun _ _ => true) {} transferred).modifiedFiles.map (fun event => event.1.info.state) =
        [.extracting] ∧
      (⟨.deleteRemote, "f"⟩ : Command) ∈ (processOnce deletesRemote (fun _ _ => true)
        { roots := [archive .extracted], hasCurrentProcessFinalPublication := fun _ => false } none
        (run deletesRemote (fun _ _ => true) {} transferred)).2 := by
  refine ⟨⟨rfl, rfl, archive .default, rfl, rfl, .inl ⟨archive .default, .head _, rfl⟩⟩, by decide +kernel, by decide +kernel⟩

end SeedSync.AutoQueue
