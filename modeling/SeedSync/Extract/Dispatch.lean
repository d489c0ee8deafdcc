import SeedSync.Extract.Plan
import SeedSync.Lib.Moves
import SeedSync.Model.File
import Mathlib.Data.List.Nodup

/-!
# The extract worker

`ExtractDispatch` of `controller/extract/dispatch.py`: requests from any thread, one worker, and
the notifications. Each lock is one step; extracting one archive, with its marker, is one step that
may fail.
-/

open SeedSync.Lib

namespace SeedSync.Extract

/-- What the listeners are told of a task, and the archives that were extracted for it. -/
structure Notice where
  task : Task
  completed : Bool
  extracted : List ArchivePath
  deriving DecidableEq, Repr

/-- Where `__worker` stands. -/
inductive Worker where
  | outer
  | inner (hasTasks : Bool)
  | peek
  | running (task : Task) (extracted rest : List ArchivePath)
  | popping (notice : Notice)
  | notifying (notice : Notice)
  | checking
  | stopped
  deriving DecidableEq, Repr

/-- The dispatch with the history of what it accepted and of what its listeners were told. -/
structure Dispatch where
  queue : List Task := []
  shutdown : Bool := false
  worker : Worker := .outer
  accepted : List Task := []
  notified : List Notice := []

inductive Move where
  /-- `extract`, and what the file system says of each path. -/
  | extract (isArchive : String → Bool) (req : ExtractRequest)
  /-- A step of the worker, and whether the archive it is at can be extracted. -/
  | work (ok : Bool)
  | stop

/-- `status`. -/
def Dispatch.status (s : Dispatch) : List ExtractStatus :=
  s.queue.map (fun task =>
    { name := task.rootName, isDir := task.rootIsDir, fileId := some task.rootFileId, pathPairId := task.pathPairId })

/-- The locked end of `extract`. -/
def Dispatch.submit (s : Dispatch) (task : Task) : Dispatch :=
  if s.queue.any (fun queued => decide (queued.rootFileId = task.rootFileId)) then s
  else { s with queue := s.queue ++ [task], accepted := s.accepted ++ [task] }

/-- One step of `__worker`. -/
def Dispatch.work (s : Dispatch) (ok : Bool) : Option Dispatch :=
  match s.worker with
  | .outer => some { s with worker := if s.shutdown then .stopped else .inner (decide (s.queue ≠ [])) }
  | .inner hasTasks => some { s with worker := if hasTasks && !s.shutdown then .peek else .outer }
  | .peek =>
    match s.queue with
    | [] => some { s with worker := .outer }
    | task :: _ => some { s with worker := .running task [] task.archivePaths }
  | .running task extracted [] => some { s with worker := .popping ⟨task, true, extracted⟩ }
  | .running task extracted (archive :: rest) =>
    if s.shutdown = false ∧ ok then some { s with worker := .running task (extracted ++ [archive]) rest }
    else some { s with worker := .popping ⟨task, false, extracted⟩ }
  | .popping notice => some { s with queue := s.queue.tail, worker := .notifying notice }
  | .notifying notice => some { s with notified := s.notified ++ [notice], worker := .checking }
  | .checking => some { s with worker := .inner (decide (s.queue ≠ [])) }
  | .stopped => none

section
variable (digit : Char → Bool)

def Dispatch.move (s : Dispatch) : Move → Option Dispatch
  | .extract isArchive req =>
    match buildTask isArchive digit req with
    | .ok task => some (s.submit task)
    | .error _ => some s
  | .work ok => s.work ok
  | .stop => some { s with shutdown := true }

/-- One interleaving of the requests, the worker and the shutdown. -/
def Dispatch.run (s : Dispatch) (moves : List Move) : Option Dispatch := runMoves (Dispatch.move digit) s moves

end

/-! ## What every step keeps -/

/-- Archives are extracted in order, and the task is completed when none is left. -/
def Notice.Truthful (notice : Notice) : Prop :=
  notice.extracted <+: notice.task.archivePaths ∧ (notice.completed = true ↔ notice.extracted = notice.task.archivePaths)

/-- The task that is out of the queue and not yet notified. -/
def Worker.due : Worker → List Task
  | .notifying notice => [notice.task]
  | _ => []

/-- What the worker relies on: the task in its hands is the first of the queue. -/
def Worker.Relies (queue : List Task) : Worker → Prop
  | .inner true | .peek => queue ≠ []
  | .running task extracted rest => queue.head? = some task ∧ task.archivePaths = extracted ++ rest
  | .popping notice => queue.head? = some notice.task ∧ notice.Truthful
  | .notifying notice => notice.Truthful
  | .outer | .inner false | .checking | .stopped => True

structure Dispatch.Inv (s : Dispatch) : Prop where
  nodup : (s.queue.map Task.rootFileId).Nodup
  order : s.accepted = s.notified.map Notice.task ++ s.worker.due ++ s.queue
  relies : s.worker.Relies s.queue
  truthful : ∀ notice ∈ s.notified, notice.Truthful

theorem Worker.Relies.append {queue : List Task} {worker : Worker} (h : worker.Relies queue) (task : Task) :
    worker.Relies (queue ++ [task]) := by
  have hhead : ∀ first, queue.head? = some first → (queue ++ [task]).head? = some first := by
    intro first hfirst
    rw [List.head?_append, hfirst, Option.some_or]
  cases worker with
  | inner hasTasks => cases hasTasks <;> simp_all [Worker.Relies]
  | peek => simp [Worker.Relies]
  | running running extracted rest => exact ⟨hhead _ h.1, h.2⟩
  | popping notice => exact ⟨hhead _ h.1, h.2⟩
  | notifying notice => exact h
  | outer | checking | stopped => trivial

theorem Dispatch.Inv.submit {s : Dispatch} (h : s.Inv) (task : Task) : (s.submit task).Inv := by
  unfold Dispatch.submit
  split_ifs with hqueued
  · exact h
  · refine ⟨?_, ?_, h.relies.append task, h.truthful⟩
    · rw [List.map_append, List.nodup_append]
      refine ⟨h.nodup, List.nodup_singleton _, ?_⟩
      intro id hid other hother heq
      obtain ⟨queued, hmem, rfl⟩ := List.mem_map.mp hid
      rw [List.map_singleton, List.mem_singleton] at hother
      exact hqueued (List.any_eq_true.mpr ⟨queued, hmem, decide_eq_true (heq.trans hother)⟩)
    · simp only [h.order, List.append_assoc]

theorem relies_inner {queue : List Task} : (Worker.inner (decide (queue ≠ []))).Relies queue := by
  by_cases h : queue = [] <;> simp [h, Worker.Relies]

theorem Dispatch.Inv.work {s s' : Dispatch} {ok : Bool} (h : s.Inv) (hwork : s.work ok = some s') : s'.Inv := by
  obtain ⟨hnodup, horder, hrelies, htruthful⟩ := h
  unfold Dispatch.work at hwork
  cases hworker : s.worker with
  | outer =>
    rw [hworker] at hwork horder
    cases hwork
    refine ⟨hnodup, ?_, ?_, htruthful⟩ <;> dsimp only
    · split_ifs <;> exact horder
    · split_ifs
      · trivial
      · exact relies_inner
  | inner hasTasks =>
    rw [hworker] at hwork horder hrelies
    cases hwork
    refine ⟨hnodup, ?_, ?_, htruthful⟩ <;> dsimp only
    · split_ifs <;> exact horder
    · cases hasTasks with
      | false => trivial
      | true => split_ifs <;> first | exact hrelies | trivial
  | peek =>
    rw [hworker] at hwork horder
    dsimp only at hwork
    split at hwork
    · cases hwork
      exact ⟨hnodup, horder, trivial, htruthful⟩
    · next task rest hqueue =>
      cases hwork
      exact ⟨hnodup, horder, ⟨by rw [hqueue]; rfl, rfl⟩, htruthful⟩
  | running task extracted rest =>
    rw [hworker] at hwork horder hrelies
    obtain ⟨hhead, hsplit⟩ := hrelies
    cases rest with
    | nil =>
      cases hwork
      rw [List.append_nil] at hsplit
      exact ⟨hnodup, horder, ⟨hhead, ⟨[], by simp [hsplit]⟩, by simp [hsplit]⟩, htruthful⟩
    | cons archive rest =>
      dsimp only at hwork
      split_ifs at hwork
      · cases hwork
        exact ⟨hnodup, horder, ⟨hhead, by simp [hsplit]⟩, htruthful⟩
      · cases hwork
        exact ⟨hnodup, horder, ⟨hhead, ⟨_, hsplit.symm⟩, by simp [hsplit]⟩, htruthful⟩
  | popping notice =>
    rw [hworker] at hwork horder hrelies
    obtain ⟨rest, hqueue⟩ := List.head?_eq_some_iff.mp hrelies.1
    cases hwork
    refine ⟨?_, ?_, hrelies.2, htruthful⟩
    · rw [hqueue] at hnodup ⊢
      exact (List.nodup_cons.mp hnodup).2
    · rw [horder, hqueue]
      simp [Worker.due]
  | notifying notice =>
    rw [hworker] at hwork horder hrelies
    cases hwork
    refine ⟨hnodup, ?_, trivial, ?_⟩
    · rw [horder]
      simp [Worker.due]
    · intro other hother
      rcases List.mem_append.mp hother with hother | hother
      · exact htruthful other hother
      · rw [List.mem_singleton.mp hother]
        exact hrelies
  | checking =>
    rw [hworker] at hwork horder
    cases hwork
    exact ⟨hnodup, horder, relies_inner, htruthful⟩
  | stopped =>
    rw [hworker] at hwork
    cases hwork

theorem Dispatch.Inv.move {digit : Char → Bool} {s s' : Dispatch} {move : Move} (h : s.Inv)
    (hmove : s.move digit move = some s') : s'.Inv := by
  cases move with
  | extract isArchive req =>
    simp only [Dispatch.move] at hmove
    split at hmove
    · cases hmove
      exact h.submit _
    · cases hmove
      exact h
  | work ok => exact h.work hmove
  | stop =>
    cases hmove
    exact ⟨h.nodup, h.order, h.relies, h.truthful⟩

/-! ## Finishing -/

/-- The steps that one task may take. -/
def Task.cost (task : Task) : Nat := task.archivePaths.length + 9

def queueCost (queue : List Task) : Nat := (queue.map Task.cost).foldr (· + ·) 0

/-- The steps of the worker until nothing is queued, at most. -/
def Dispatch.budget (s : Dispatch) : Nat :=
  match s.worker with
  | .outer => queueCost s.queue + 3
  | .inner false => queueCost s.queue + 4
  | .inner true => queueCost s.queue + 2
  | .peek => queueCost s.queue + 1
  | .running _ _ rest => queueCost s.queue.tail + rest.length + 8
  | .popping _ => queueCost s.queue.tail + 7
  | .notifying _ => queueCost s.queue + 6
  | .checking => queueCost s.queue + 5
  | .stopped => 0

/-- Nothing is queued and the worker waits. -/
def Dispatch.Drained (s : Dispatch) : Prop := s.queue = [] ∧ (s.worker = .outer ∨ s.worker = .inner false)

/-- Without a shutdown the worker always has a step, and the step brings it nearer to the end. -/
theorem Dispatch.work_progress {s : Dispatch} (ok : Bool) (h : s.Inv) (hrun : s.shutdown = false) (hworker : s.worker ≠ .stopped) :
    ∃ s', s.work ok = some s' ∧ s'.shutdown = false ∧ s'.worker ≠ .stopped ∧ s'.accepted = s.accepted ∧
      (s'.Drained ∨ s'.budget + 1 ≤ s.budget) := by
  unfold Dispatch.work
  have hrelies := h.relies
  cases hw : s.worker with
  | outer =>
    rw [hrun]
    refine ⟨_, rfl, rfl, by simp, rfl, ?_⟩
    by_cases hqueue : s.queue = []
    · exact Or.inl ⟨hqueue, Or.inr (by simp [hqueue])⟩
    · exact Or.inr (by simp [Dispatch.budget, hw, hqueue])
  | inner hasTasks =>
    refine ⟨_, rfl, hrun, ?_, rfl, ?_⟩
    · dsimp only
      split_ifs <;> simp
    · cases hasTasks with
      | false =>
        by_cases hqueue : s.queue = []
        · exact Or.inl ⟨hqueue, Or.inl rfl⟩
        · exact Or.inr (by simp [Dispatch.budget, hw])
      | true => exact Or.inr (by simp [Dispatch.budget, hw, hrun])
  | peek =>
    rw [hw] at hrelies
    obtain ⟨task, rest, hqueue⟩ := List.exists_cons_of_ne_nil hrelies
    dsimp only
    rw [hqueue]
    refine ⟨_, rfl, hrun, by simp, rfl, Or.inr ?_⟩
    simp only [Dispatch.budget, hw, hqueue, List.tail_cons, queueCost, List.map_cons, List.foldr_cons, Task.cost]
    omega
  | running task extracted rest =>
    cases rest with
    | nil => exact ⟨_, rfl, hrun, by simp, rfl, Or.inr (by simp [Dispatch.budget, hw])⟩
    | cons archive rest =>
      dsimp only
      split_ifs
      · exact ⟨_, rfl, hrun, by simp, rfl, Or.inr (by simp only [Dispatch.budget, hw, List.length_cons]; omega)⟩
      · exact ⟨_, rfl, hrun, by simp, rfl, Or.inr (by simp [Dispatch.budget, hw])⟩
  | popping notice => exact ⟨_, rfl, hrun, by simp, rfl, Or.inr (by simp [Dispatch.budget, hw])⟩
  | notifying notice => exact ⟨_, rfl, hrun, by simp, rfl, Or.inr (by simp [Dispatch.budget, hw])⟩
  | checking =>
    refine ⟨_, rfl, hrun, by simp, rfl, ?_⟩
    by_cases hqueue : s.queue = []
    · exact Or.inl ⟨hqueue, Or.inr (by simp [hqueue])⟩
    · exact Or.inr (by simp [Dispatch.budget, hw, hqueue])
  | stopped => exact absurd hw hworker

theorem Dispatch.Drained.work {s : Dispatch} (h : s.Drained) (ok : Bool) (hrun : s.shutdown = false) :
    ∃ s', s.work ok = some s' ∧ s'.shutdown = false ∧ s'.worker ≠ .stopped ∧ s'.accepted = s.accepted ∧ s'.Drained := by
  obtain ⟨hqueue, hworker | hworker⟩ := h <;> unfold Dispatch.work <;> rw [hworker]
  · exact ⟨_, rfl, hrun, by simp [hrun], rfl, hqueue, Or.inr (by simp [hrun, hqueue])⟩
  · exact ⟨_, rfl, hrun, by simp, rfl, hqueue, Or.inl rfl⟩

/-- Enough steps of the worker drain the queue. -/
theorem Dispatch.drains {digit : Char → Bool} (oks : List Bool) {s : Dispatch} (h : s.Inv) (hrun : s.shutdown = false)
    (hworker : s.worker ≠ .stopped) (hbudget : s.Drained ∨ s.budget ≤ oks.length) :
    ∃ s', s.run digit (oks.map .work) = some s' ∧ s'.Inv ∧ s'.accepted = s.accepted ∧ s'.queue = [] ∧ s'.worker.due = [] := by
  induction oks generalizing s with
  | nil =>
    rcases hbudget with ⟨hqueue, hdue⟩ | hbudget
    · exact ⟨s, rfl, h, rfl, hqueue, by rcases hdue with hdue | hdue <;> rw [hdue] <;> rfl⟩
    · exfalso
      revert hbudget
      unfold Dispatch.budget
      cases hw : s.worker with
      | inner hasTasks => cases hasTasks <;> simp
      | stopped => exact absurd hw hworker
      | outer | peek | running | popping | notifying | checking => simp
  | cons ok oks ih =>
    obtain ⟨s₁, hwork, hrun₁, hworker₁, hsame, hnext⟩ : ∃ s₁, s.work ok = some s₁ ∧ s₁.shutdown = false ∧
        s₁.worker ≠ .stopped ∧ s₁.accepted = s.accepted ∧ (s₁.Drained ∨ s₁.budget ≤ oks.length) := by
      rcases hbudget with hdrained | hbudget
      · obtain ⟨s₁, hwork, hr, hw, ha, hd⟩ := hdrained.work ok hrun
        exact ⟨s₁, hwork, hr, hw, ha, Or.inl hd⟩
      · obtain ⟨s₁, hwork, hr, hw, ha, hd⟩ := Dispatch.work_progress ok h hrun hworker
        rw [List.length_cons] at hbudget
        exact ⟨s₁, hwork, hr, hw, ha, hd.imp id (by omega)⟩
    obtain ⟨s', hrest, hinv, haccepted, hqueue, hdue⟩ := ih (h.work hwork) hrun₁ hworker₁ hnext
    refine ⟨s', ?_, hinv, haccepted.trans hsame, hqueue, hdue⟩
    show (s.work ok).bind _ = _
    rw [hwork]
    exact hrest

theorem Dispatch.work_shutdown {s s' : Dispatch} {ok : Bool} (h : s.work ok = some s') : s'.shutdown = s.shutdown := by
  unfold Dispatch.work at h
  repeat' split at h
  all_goals first | exact (Option.some.inj h) ▸ rfl | cases h

/-- The worker stops only after a shutdown. -/
def Dispatch.Alive (s : Dispatch) : Prop := s.shutdown = false → s.worker ≠ .stopped

theorem Dispatch.Alive.move {digit : Char → Bool} {s s' : Dispatch} {move : Move} (h : s.Alive) (hinv : s.Inv)
    (hmove : s.move digit move = some s') : s'.Alive := by
  intro hup
  cases move with
  | extract isArchive req =>
    simp only [Dispatch.move] at hmove
    split at hmove <;> cases hmove
    · unfold Dispatch.submit at hup ⊢
      split_ifs at hup ⊢ <;> exact h hup
    · exact h hup
  | work ok =>
    have hbefore : s.shutdown = false := by rw [← Dispatch.work_shutdown hmove, hup]
    obtain ⟨next, hnext, -, hworker, -⟩ := Dispatch.work_progress ok hinv hbefore (h hbefore)
    rw [← Option.some.inj (hnext.symm.trans hmove)]
    exact hworker
  | stop =>
    cases hmove
    cases hup

/-- A request for one archive. -/
def requestOne (name : String) : ExtractRequest :=
  { modelFile := .mk { name := name, isDir := false, fileId := .bare name, localSize := some 7 } []
    localPath := "/in", outDirPath := "/out" }

/-- The second archive is queued, and the first asked for again, while the first is extracted. -/
def overlapping : List Move :=
  [.extract (fun _ => true) (requestOne "a"), .work true, .work true, .extract (fun _ => true) (requestOne "a"),
    .work true, .extract (fun _ => true) (requestOne "b"), .work true, .work true, .work true]

end SeedSync.Extract
