import SeedSync.Lib.Moves
import SeedSync.Lib.Pool
import SeedSync.System.File

/-!
# Scanning path pairs side by side

The two worker pools of `multi_path_scanner.py`. The local one keeps a fifth worker for a pair that
the user just selected; the remote one submits the next pair whenever one finishes. A task that ends
in a recoverable error has a result; any other error is fatal.
-/

open SeedSync.Lib

namespace SeedSync

variable {β ε : Type}

/-- Where the thread that runs a pool stands. -/
inductive PoolPhase (β ε : Type) where
  | top
  | waiting
  | refill
  | returned (results : List β)
  | raised (error : ε)
  /-- `completed[index]` without an entry. -/
  | keyError
  deriving DecidableEq

/-- `for future in done`: the tasks after it, and the last error. -/
def collectDone (outcome : Nat → Except ε β) (t : Tasks β) (fatalError : Option ε) : List Nat → Tasks β × Option ε
  | [] => (t, fatalError)
  | index :: done =>
    match outcome index with
    | .ok result => collectDone outcome (t.finish index result) fatalError done
    | .error error => collectDone outcome (t.fail index) (some error) done

/-- `[completed[index] for index in range(len(scanners))]`. -/
def orderedResults (t : Tasks β) (n : Nat) : PoolPhase β ε :=
  match t.results n with
  | some results => .returned results
  | none => .keyError

/-! ## The local pool -/

structure LocalPool (β ε : Type) where
  tasks : Tasks β
  /-- `__priority_path_pair_ids`. -/
  priority : List PairId := []
  phase : PoolPhase β ε := .top

inductive LocalMove where
  /-- `prioritize_path_pair`, from another thread. -/
  | request (pathPairId : String)
  | step
  /-- `wait` returns these; none of them when it times out. -/
  | collect (done : List Nat)
  deriving DecidableEq

def normalWorkers (n : Nat) : Nat := min 4 n

def totalWorkers (n : Nat) : Nat := min (normalWorkers n + 1) n

/-- `while remaining and len(pending) < normal_workers: submit(remaining[0])`. -/
def fillPool (normal : Nat) (t : Tasks β) : Tasks β :=
  t.waiting.foldl (fun t index => if t.running.length < normal then t.start index else t) t

/-- The state once the first tasks are submitted. -/
def localStart (n : Nat) : LocalPool β ε :=
  if n = 0 then { tasks := { waiting := [] }, phase := .returned [] }
  else { tasks := fillPool (normalWorkers n) { waiting := List.range n } }

section
variable (pairOf : Nat → PairId)

/-- `__take_priority_index`: a request is taken once; those of pairs that no longer wait are dropped. -/
def takePriorityIndex (priority : List PairId) (remaining : List Nat) : List PairId × Option Nat :=
  match remaining.find? (fun index => decide (pairOf index ∈ priority)) with
  | some index => (priority.filter (fun id => decide (id ≠ pairOf index)), some index)
  | none => (priority.filter (fun id => decide (id ∈ remaining.map pairOf)), none)

variable (outcome : Nat → Except ε β) (n : Nat)

/-- One turn of the main thread up to the next lock or `wait`. -/
def LocalPool.step (s : LocalPool β ε) : Option (LocalPool β ε) :=
  match s.phase with
  | .top =>
    if s.tasks.running = [] then some { s with phase := orderedResults s.tasks n }
    else
      let taken := takePriorityIndex pairOf s.priority s.tasks.waiting
      match taken.2 with
      | some index =>
        -- With every worker busy the request is gone and nothing is submitted.
        some { tasks := if s.tasks.running.length < totalWorkers n then s.tasks.start index else s.tasks
               priority := taken.1
               phase := .waiting }
      | none => some { s with priority := taken.1, phase := .waiting }
  | .refill =>
    match s.tasks.waiting with
    | first :: _ =>
      if s.tasks.running.length < normalWorkers n then
        let taken := takePriorityIndex pairOf s.priority s.tasks.waiting
        some { s with tasks := s.tasks.start (taken.2.getD first), priority := taken.1 }
      else some { s with phase := .top }
    | [] => some { s with phase := .top }
  | .waiting | .returned _ | .raised _ | .keyError => none

def LocalPool.move (s : LocalPool β ε) : LocalMove → Option (LocalPool β ε)
  | .request pathPairId => some { s with priority := s.priority.insert (some pathPairId) }
  | .step => s.step pairOf n
  | .collect done =>
    match s.phase with
    | .waiting =>
      if done.Nodup ∧ ∀ index ∈ done, index ∈ s.tasks.running then
        let collected := collectDone outcome s.tasks none done
        some { s with
          tasks := collected.1
          phase := match collected.2 with | some error => .raised error | none => .refill }
      else none
    | _ => none

/-- One schedule of the workers, the main thread and the requests. -/
def LocalPool.run (moves : List LocalMove) : Option (LocalPool β ε) :=
  runMoves (LocalPool.move pairOf outcome n) (localStart n) moves

end

/-! ## The remote pool -/

structure RemotePool (β ε : Type) where
  nextIndex : Nat
  pending : List Nat
  completed : List (Nat × β) := []
  phase : PoolPhase β ε := .waiting

/-- The pool as numbered tasks: those from `next_index` on wait. -/
def RemotePool.tasks (n : Nat) (s : RemotePool β ε) : Tasks β :=
  { waiting := (List.range n).drop s.nextIndex, running := s.pending, finished := s.completed }

def remoteStart (n : Nat) : RemotePool β ε :=
  if n = 0 then { nextIndex := 0, pending := [], phase := .returned [] }
  else { nextIndex := min 4 n, pending := List.range (min 4 n) }

/-- `if next_index < len(scanners)`: submit it. -/
def RemotePool.submitNext (n : Nat) (s : RemotePool β ε) : RemotePool β ε :=
  if s.nextIndex < n then { s with pending := s.pending ++ [s.nextIndex], nextIndex := s.nextIndex + 1 } else s

/-- One turn of `while pending`: `wait` returns at least one task. -/
def RemotePool.collect (outcome : Nat → Except ε β) (n : Nat) (s : RemotePool β ε) (done : List Nat) :
    Option (RemotePool β ε) :=
  match s.phase with
  | .waiting =>
    if done ≠ [] ∧ done.Nodup ∧ ∀ index ∈ done, index ∈ s.pending then
      let collected := collectDone outcome (s.tasks n) none done
      let s := { s with pending := collected.1.running, completed := collected.1.finished }
      match collected.2 with
      | some error => some { s with phase := .raised error }
      | none =>
        let s := done.foldl (fun s _ => s.submitNext n) s
        some (if s.pending = [] then { s with phase := orderedResults (s.tasks n) n } else s)
    else none
  | _ => none

def RemotePool.run (outcome : Nat → Except ε β) (n : Nat) (moves : List (List Nat)) : Option (RemotePool β ε) :=
  runMoves (RemotePool.collect outcome n) (remoteStart n) moves

/-! ## Collecting -/

section
variable {outcome : Nat → Except ε β} {n : Nat}

theorem collectDone_spec {t : Tasks β} {done : List Nat} (hnodup : done.Nodup) (hrunning : ∀ index ∈ done, index ∈ t.running)
    (fatalError : Option ε) :
    let after := collectDone outcome t fatalError done
    after.1.waiting = t.waiting ∧ after.1.running.length + done.length = t.running.length ∧
      after.1.all.Subperm t.all ∧
      (after.2 = none → fatalError = none ∧ (t.Sound outcome n → after.1.Sound outcome n)) ∧
      ∀ error, after.2 = some error → fatalError = some error ∨ ∃ index ∈ done, outcome index = .error error := by
  induction done generalizing t fatalError with
  | nil => exact ⟨rfl, rfl, List.Subperm.refl _, fun h => ⟨h, id⟩, fun error h => Or.inl h⟩
  | cons index done ih =>
    obtain ⟨hnot, hnodup⟩ := List.nodup_cons.mp hnodup
    have hmem := hrunning index List.mem_cons_self
    have hrest : ∀ i ∈ done, i ∈ t.running.erase index := fun i hi =>
      (List.mem_erase_of_ne (fun heq : i = index => hnot (heq ▸ hi))).mpr (hrunning i (List.mem_cons_of_mem _ hi))
    have hlength : (t.running.erase index).length + 1 = t.running.length := by
      rw [List.length_erase_of_mem hmem]
      have := List.length_pos_of_mem hmem
      omega
    unfold collectDone
    cases ho : outcome index with
    | ok result =>
      obtain ⟨hw, hl, hall, hs, he⟩ := ih (t := t.finish index result) hnodup hrest fatalError
      refine ⟨hw, ?_, hall.trans (Tasks.all_finish hmem).subperm, fun h => ⟨(hs h).1, fun hsound => (hs h).2 (hsound.finish hmem ho)⟩, fun error h => ?_⟩
      · simp only [Tasks.finish, List.length_cons] at hl ⊢
        omega
      · exact (he error h).imp id (fun ⟨i, hi, h⟩ => ⟨i, List.mem_cons_of_mem _ hi, h⟩)
    | error error =>
      obtain ⟨hw, hl, hall, hs, he⟩ := ih (t := t.fail index) hnodup hrest (some error)
      refine ⟨hw, ?_, hall.trans Tasks.all_fail.subperm, fun h => absurd (hs h).1 (Option.some_ne_none _), fun error' h => ?_⟩
      · simp only [Tasks.fail, List.length_cons] at hl ⊢
        omega
      · rcases he error' h with heq | ⟨i, hi, h⟩
        · exact Or.inr ⟨index, List.mem_cons_self, by rw [ho, Option.some.inj heq]⟩
        · exact Or.inr ⟨i, List.mem_cons_of_mem _ hi, h⟩

end

/-! ## Schedules of the local pool -/

section
variable {pairOf : Nat → PairId} {outcome : Nat → Except ε β} {n : Nat}

theorem takePriorityIndex_mem {priority : List PairId} {remaining : List Nat} {index : Nat}
    (h : (takePriorityIndex pairOf priority remaining).2 = some index) : index ∈ remaining := by
  unfold takePriorityIndex at h
  split at h
  · next found hfound =>
    rw [← Option.some.inj h]
    exact List.mem_of_find?_eq_some hfound
  · cases h

theorem normalWorkers_pos (h : 0 < n) : 0 < normalWorkers n := by unfold normalWorkers; omega

theorem normalWorkers_le : normalWorkers n ≤ totalWorkers n := by unfold totalWorkers normalWorkers; omega

theorem fill_spec {normal : Nat} {l : List Nat} {t : Tasks β} (hnodup : l.Nodup) (hl : ∀ i ∈ l, i ∈ t.waiting)
    (hsound : t.Sound outcome n) :
    let filled := l.foldl (fun t index => if t.running.length < normal then t.start index else t) t
    filled.Sound outcome n ∧ t.running.length ≤ filled.running.length ∧
      (t.running.length ≤ normal → filled.running.length ≤ normal) ∧
      (l ≠ [] → 0 < normal → filled.running ≠ []) := by
  induction l generalizing t with
  | nil => exact ⟨hsound, Nat.le_refl _, id, fun h => absurd rfl h⟩
  | cons index l ih =>
    obtain ⟨hnot, hnodup⟩ := List.nodup_cons.mp hnodup
    rw [List.foldl_cons]
    by_cases hroom : t.running.length < normal
    · rw [if_pos hroom]
      have hrest : ∀ i ∈ l, i ∈ (t.start index).waiting := fun i hi =>
        (List.mem_erase_of_ne (fun heq : i = index => hnot (heq ▸ hi))).mpr (hl i (List.mem_cons_of_mem _ hi))
      obtain ⟨hs, hgrow, hmax, -⟩ := ih hnodup hrest (hsound.start (hl index List.mem_cons_self))
      have hlength : (t.start index).running.length = t.running.length + 1 := by simp [Tasks.start]
      refine ⟨hs, by omega, fun _ => hmax (by omega), fun _ _ hnil => ?_⟩
      rw [hnil, hlength, List.length_nil] at hgrow
      omega
    · rw [if_neg hroom]
      obtain ⟨hs, hgrow, hmax, -⟩ := ih hnodup (fun i hi => hl i (List.mem_cons_of_mem _ hi)) hsound
      refine ⟨hs, hgrow, hmax, fun _ hpos hnil => ?_⟩
      rw [hnil, List.length_nil] at hgrow
      omega

/-- What the pool keeps in every phase. -/
structure LocalPool.Inv (outcome : Nat → Except ε β) (n : Nat) (s : LocalPool β ε) : Prop where
  once : s.tasks.all.Subperm (List.range n)
  bounded : s.tasks.running.length ≤ totalWorkers n
  phase : match s.phase with
    | .top => s.tasks.Sound outcome n ∧ (s.tasks.running = [] → s.tasks.waiting = [])
    | .waiting => s.tasks.Sound outcome n ∧ s.tasks.running ≠ []
    | .refill => s.tasks.Sound outcome n
    | .returned results => serial outcome n = .ok results
    | .raised error => ∃ index, index < n ∧ outcome index = .error error
    | .keyError => False

theorem localStart_inv : (localStart n : LocalPool β ε).Inv outcome n := by
  unfold localStart
  split_ifs with hn
  · subst hn
    exact ⟨List.nil_subperm, Nat.zero_le _, rfl⟩
  · have hall : ({ waiting := List.range n } : Tasks β).all = List.range n := by simp [Tasks.all]
    have hsound : ({ waiting := List.range n } : Tasks β).Sound outcome n := ⟨by rw [hall], by simp⟩
    obtain ⟨hs, -, hmax, hsome⟩ := fill_spec List.nodup_range (fun i hi => hi) hsound
    have hne : List.range n ≠ [] := by simp [hn]
    exact ⟨hs.each.subperm, Nat.le_trans (hmax (Nat.zero_le _)) normalWorkers_le,
      hs, fun hnil => absurd hnil (hsome hne (normalWorkers_pos (Nat.pos_of_ne_zero hn)))⟩

theorem orderedResults_inv {t : Tasks β} (hs : t.Sound outcome n) (hw : t.waiting = []) (hr : t.running = []) :
    ∃ results, orderedResults t n = (.returned results : PoolPhase β ε) ∧ serial outcome n = .ok results := by
  obtain ⟨results, hresults, hserial⟩ := hs.done hw hr
  exact ⟨results, by rw [orderedResults, hresults], hserial⟩

theorem LocalPool.Inv.step {s s' : LocalPool β ε} (h : s.Inv outcome n) (hstep : s.step pairOf n = some s') :
    s'.Inv outcome n := by
  obtain ⟨honce, hbounded, hphase⟩ := h
  unfold LocalPool.step at hstep
  split at hstep
  · next htop =>
    rw [htop] at hphase
    obtain ⟨hsound, hidle⟩ := hphase
    by_cases hnone : s.tasks.running = []
    · rw [if_pos hnone] at hstep
      obtain ⟨results, hresults, hserial⟩ := orderedResults_inv hsound (hidle hnone) hnone
      cases hstep
      exact ⟨honce, hbounded, by rw [hresults]; exact hserial⟩
    · rw [if_neg hnone] at hstep
      dsimp only at hstep
      split at hstep
      · next index hindex =>
        have hmem := takePriorityIndex_mem hindex
        cases hstep
        split_ifs with hroom
        · have hs := hsound.start hmem
          have hlength : (s.tasks.start index).running.length = s.tasks.running.length + 1 := by simp [Tasks.start]
          exact ⟨hs.each.subperm, by rw [hlength]; omega, hs, by simp [Tasks.start]⟩
        · exact ⟨honce, hbounded, hsound, hnone⟩
      · cases hstep
        exact ⟨honce, hbounded, hsound, hnone⟩
  · next hrefill =>
    rw [hrefill] at hphase
    split at hstep
    · next first rest hwaiting =>
      have hfirst : first ∈ s.tasks.waiting := by rw [hwaiting]; exact List.mem_cons_self
      split_ifs at hstep with hroom
      · have hmem : (takePriorityIndex pairOf s.priority s.tasks.waiting).2.getD first ∈ s.tasks.waiting := by
          cases htaken : (takePriorityIndex pairOf s.priority s.tasks.waiting).2 with
          | none => exact hfirst
          | some index => exact takePriorityIndex_mem htaken
        have hs := Tasks.Sound.start hphase hmem
        cases hstep
        refine ⟨hs.each.subperm, ?_, by rw [hrefill]; exact hs⟩
        have := normalWorkers_le (n := n)
        simp only [Tasks.start, List.length_append, List.length_singleton]
        omega
      · cases hstep
        refine ⟨honce, hbounded, hphase, fun hnil => ?_⟩
        have hpos := normalWorkers_pos (Nat.zero_lt_of_lt (Tasks.Sound.lt hphase (Or.inl hfirst)))
        rw [hnil, List.length_nil] at hroom
        exact absurd hpos hroom
    · next hwaiting =>
      cases hstep
      exact ⟨honce, hbounded, hphase, fun _ => hwaiting⟩
  all_goals cases hstep

theorem LocalPool.Inv.move {s s' : LocalPool β ε} {move : LocalMove} (h : s.Inv outcome n)
    (hmove : s.move pairOf outcome n move = some s') : s'.Inv outcome n := by
  cases move with
  | request pathPairId =>
    cases hmove
    exact ⟨h.once, h.bounded, h.phase⟩
  | step => exact h.step hmove
  | collect done =>
    obtain ⟨honce, hbounded, hphase⟩ := h
    simp only [LocalPool.move] at hmove
    split at hmove
    · next hwaiting =>
      rw [hwaiting] at hphase
      split_ifs at hmove with hdone
      obtain ⟨hnodup, hrunning⟩ := hdone
      obtain ⟨-, hlength, hall, hkeeps, herror⟩ := collectDone_spec (n := n) hnodup hrunning none
      cases hmove
      refine ⟨hall.trans honce, ?_, ?_⟩
      · show (collectDone outcome s.tasks none done).1.running.length ≤ _
        omega
      cases hfatal : (collectDone outcome s.tasks none done).2 with
      | none => exact (hkeeps hfatal).2 hphase.1
      | some error =>
        obtain ⟨index, hmem, ho⟩ := (herror error hfatal).resolve_left (Option.some_ne_none _).symm
        exact ⟨index, Tasks.Sound.lt hphase.1 (Or.inr (hrunning index hmem)), ho⟩
    · cases hmove

/-- The main thread has left the loop. -/
def PoolPhase.isOver : PoolPhase β ε → Bool
  | .top | .waiting | .refill => false
  | .returned _ | .raised _ | .keyError => true

/-- A step of the main thread that gets it further: a `wait` that times out does not. -/
def LocalMove.isProgress : LocalMove → Bool
  | .request _ => false
  | .step => true
  | .collect done => decide (done ≠ [])

/-- The turns that the main thread has left, at most. -/
def LocalPool.budget (s : LocalPool β ε) : Nat :=
  4 * s.tasks.waiting.length + 3 * s.tasks.running.length +
    match s.phase with
    | .top => 1
    | .refill => 2
    | _ => 0

theorem start_budget {t : Tasks β} {i : Nat} (hi : i ∈ t.waiting) :
    4 * (t.start i).waiting.length + 3 * (t.start i).running.length + 1 =
      4 * t.waiting.length + 3 * t.running.length := by
  have := List.length_pos_of_mem hi
  simp only [Tasks.start, List.length_erase_of_mem hi, List.length_append, List.length_singleton]
  omega

theorem LocalPool.step_budget {s s' : LocalPool β ε} (hstep : s.step pairOf n = some s') : s'.budget + 1 ≤ s.budget := by
  unfold LocalPool.step at hstep
  split at hstep
  · next htop =>
    by_cases hnone : s.tasks.running = []
    · rw [if_pos hnone] at hstep
      cases hstep
      simp only [LocalPool.budget, htop, orderedResults]
      cases s.tasks.results n <;> simp
    · rw [if_neg hnone] at hstep
      dsimp only at hstep
      split at hstep
      · next index hindex =>
        have := start_budget (takePriorityIndex_mem hindex)
        cases hstep
        simp only [LocalPool.budget, htop]
        split_ifs <;> omega
      · cases hstep
        simp only [LocalPool.budget, htop]
        omega
  · next hrefill =>
    split at hstep
    · next first rest hwaiting =>
      have hfirst : first ∈ s.tasks.waiting := by rw [hwaiting]; exact List.mem_cons_self
      split_ifs at hstep with hroom
      · have hmem : (takePriorityIndex pairOf s.priority s.tasks.waiting).2.getD first ∈ s.tasks.waiting := by
          cases htaken : (takePriorityIndex pairOf s.priority s.tasks.waiting).2 with
          | none => exact hfirst
          | some index => exact takePriorityIndex_mem htaken
        have := start_budget hmem
        cases hstep
        simp only [LocalPool.budget, hrefill]
        omega
      · cases hstep
        simp [LocalPool.budget, hrefill]
    · cases hstep
      simp [LocalPool.budget, hrefill]
  all_goals cases hstep

theorem LocalPool.move_budget {s s' : LocalPool β ε} {move : LocalMove} (hempty : move ≠ .collect [])
    (hmove : s.move pairOf outcome n move = some s') : s'.budget + (if move.isProgress then 1 else 0) ≤ s.budget := by
  cases move with
  | request pathPairId =>
    cases hmove
    exact Nat.le_refl _
  | step => exact LocalPool.step_budget hmove
  | collect done =>
    simp only [LocalPool.move] at hmove
    split at hmove
    · next hwaiting =>
      split_ifs at hmove with hdone
      obtain ⟨hw, hlength, -⟩ := @collectDone_spec β ε outcome n s.tasks done hdone.1 hdone.2 none
      have hpos : 0 < done.length := List.length_pos_iff.mpr (fun hnil => hempty (by rw [hnil]))
      have hne : done ≠ [] := List.length_pos_iff.mp hpos
      cases hmove
      simp only [LocalPool.budget, hwaiting, hw, LocalMove.isProgress, hne, ne_eq, not_false_eq_true, decide_true, if_true]
      cases (collectDone outcome s.tasks none done).2 <;> simp only <;> omega
    · cases hmove

theorem LocalPool.step_enabled {s : LocalPool β ε} (h : s.phase = .top ∨ s.phase = .refill) :
    ∃ move, LocalMove.isProgress move ∧ (s.move pairOf outcome n move).isSome := by
  refine ⟨.step, rfl, ?_⟩
  show (s.step pairOf n).isSome
  unfold LocalPool.step
  rcases h with h | h
  · rw [h]
    dsimp only
    split_ifs
    · rfl
    all_goals split <;> rfl
  · rw [h]
    dsimp only
    split
    · split_ifs <;> rfl
    · rfl

theorem localStart_budget (n : Nat) : (localStart n : LocalPool β ε).budget ≤ 4 * n + 1 := by
  have hlength := (@localStart_inv β Unit (fun _ => .error ()) n).once.length_le
  unfold localStart at *
  split_ifs at * with hn
  · simp [LocalPool.budget]
  · simp only [Tasks.all, List.length_append, List.length_range] at hlength
    simp only [LocalPool.budget]
    omega

/-- The pool of local scans, under every schedule of its workers and of the user's requests: it starts no
scan twice and runs five at a time at most; when it returns, it returns what scanning one pair after
the other would; when it raises, one of the scans raised that. It is never stuck, and unless its
waits time out it is done after a number of turns that the pairs bound. -/
theorem local_pool_serial (pairOf : Nat → PairId) (outcome : Nat → Except ε β) (n : Nat) (moves : List LocalMove)
    (s : LocalPool β ε) (hrun : LocalPool.run pairOf outcome n moves = some s) :
    s.tasks.all.Subperm (List.range n) ∧ s.tasks.running.length ≤ min 5 n ∧
    (∀ results, s.phase = .returned results → serial outcome n = .ok results) ∧
    (∀ error, s.phase = .raised error →
      (∃ index, index < n ∧ outcome index = .error error) ∧ ∃ first, serial outcome n = .error first) ∧
    s.phase ≠ .keyError ∧
    (s.phase.isOver ∨ ∃ move, LocalMove.isProgress move ∧ (s.move pairOf outcome n move).isSome) ∧
    ((∀ done, .collect done ∈ moves → done ≠ []) → moves.countP LocalMove.isProgress ≤ 4 * n + 1) := by
  have hinv : s.Inv outcome n :=
    runMoves_invariant (LocalPool.Inv outcome n) hrun (fun _ _ _ _ h hmove => h.move hmove) localStart_inv
  refine ⟨hinv.once, ?_, ?_, ?_, ?_, ?_, ?_⟩
  · have := hinv.bounded
    unfold totalWorkers normalWorkers at this
    omega
  · intro results h
    have := hinv.phase
    rwa [h] at this
  · intro error h
    have := hinv.phase
    rw [h] at this
    obtain ⟨index, hlt, ho⟩ := this
    exact ⟨⟨index, hlt, ho⟩, serial_error hlt ho⟩
  · intro h
    have := hinv.phase
    rw [h] at this
    exact this
  · cases hs : s.phase with
    | top => exact Or.inr (LocalPool.step_enabled (Or.inl hs))
    | refill => exact Or.inr (LocalPool.step_enabled (Or.inr hs))
    | waiting =>
      have hphase := hinv.phase
      rw [hs] at hphase
      obtain ⟨first, rest, hrunning⟩ := List.exists_cons_of_ne_nil hphase.2
      refine Or.inr ⟨.collect [first], rfl, ?_⟩
      simp only [LocalPool.move, hs, hrunning]
      rw [if_pos (by simp)]
      exact Option.isSome_some
    | returned | raised | keyError => exact Or.inl rfl
  · intro hwaits
    have hbound := runMoves_budget (fun _ => True) LocalPool.budget LocalMove.isProgress hrun
      (fun t t' move hmem _ hmove => ⟨trivial, LocalPool.move_budget (fun h => hwaits [] (h ▸ hmem) rfl) hmove⟩) trivial
    have := @localStart_budget β ε n
    omega

end

/-- Six pairs, where the user selects the last one while the first four are scanned. -/
def selectedLast : List LocalMove :=
  [.request "f", .step, .collect [5, 0], .step, .step, .step, .collect [3, 1, 4, 2], .step, .step]

theorem local_pool_serial_selected :
    let pairOf := fun index => (["a", "b", "c", "d", "e", "f"][index]? : PairId)
    let outcome := fun index : Nat => (.ok (10 * index) : Except String Nat)
    ∃ s, LocalPool.run pairOf outcome 6 selectedLast = some s ∧ s.phase = .returned [0, 10, 20, 30, 40, 50] ∧
      serial outcome 6 = .ok [0, 10, 20, 30, 40, 50] := by
  intro pairOf outcome
  refine ⟨(LocalPool.run pairOf outcome 6 selectedLast).getD { tasks := { waiting := [] } }, rfl, rfl, ?_⟩
  exact (local_pool_serial pairOf outcome 6 selectedLast _ rfl).2.2.1 _ rfl

/-! ## Schedules of the remote pool -/

section
variable {outcome : Nat → Except ε β} {n : Nat}

theorem submitNext_tasks {s : RemotePool β ε} (h : s.nextIndex < n) :
    (s.submitNext n).tasks n = (s.tasks n).start s.nextIndex ∧ s.nextIndex ∈ (s.tasks n).waiting := by
  have hdrop : (List.range n).drop s.nextIndex = s.nextIndex :: (List.range n).drop (s.nextIndex + 1) := by
    rw [List.drop_eq_getElem_cons (by simpa using h), List.getElem_range]
  constructor
  · rw [RemotePool.submitNext, if_pos h]
    simp only [RemotePool.tasks, Tasks.start, hdrop, List.erase_cons_head]
  · rw [RemotePool.tasks, hdrop]
    exact List.mem_cons_self

theorem submitted_spec {l : List Nat} {s : RemotePool β ε} (hsound : (s.tasks n).Sound outcome n) (hnext : s.nextIndex ≤ n) :
    let s' := l.foldl (fun s _ => s.submitNext n) s
    (s'.tasks n).Sound outcome n ∧ s'.nextIndex ≤ n ∧ s'.phase = s.phase ∧ s.pending.length ≤ s'.pending.length ∧
      s'.pending.length ≤ s.pending.length + l.length ∧
      (s'.tasks n).waiting.length + s'.pending.length = (s.tasks n).waiting.length + s.pending.length ∧
      (l ≠ [] → s'.pending = [] → (s'.tasks n).waiting = []) := by
  induction l generalizing s with
  | nil => exact ⟨hsound, hnext, rfl, Nat.le_refl _, Nat.le_refl _, rfl, fun h => absurd rfl h⟩
  | cons index l ih =>
    rw [List.foldl_cons]
    by_cases h : s.nextIndex < n
    · obtain ⟨htasks, hmem⟩ := submitNext_tasks h
      have hgrow : (s.submitNext n).pending.length = s.pending.length + 1 := by simp [RemotePool.submitNext, h]
      have hphase : (s.submitNext n).phase = s.phase := by simp [RemotePool.submitNext, h]
      have hlt : (s.submitNext n).nextIndex ≤ n := by
        rw [RemotePool.submitNext, if_pos h]
        exact h
      obtain ⟨hs, hn, hp, hmin, hmax, hsum, -⟩ := ih (by rw [htasks]; exact hsound.start hmem) hlt
      have hbudget := start_budget hmem
      rw [← htasks] at hbudget
      have hpending : ((s.submitNext n).tasks n).running = (s.submitNext n).pending := rfl
      have hpending' : (s.tasks n).running = s.pending := rfl
      rw [hpending, hpending'] at hbudget
      refine ⟨hs, hn, hp.trans hphase, by omega, by rw [List.length_cons]; omega, by omega, fun _ hnil => ?_⟩
      rw [hnil, hgrow, List.length_nil] at hmin
      omega
    · have hsame : s.submitNext n = s := by rw [RemotePool.submitNext, if_neg h]
      rw [hsame]
      obtain ⟨hs, hn, hp, hmin, hmax, hsum, -⟩ := ih hsound hnext
      refine ⟨hs, hn, hp, hmin, by rw [List.length_cons]; omega, hsum, fun _ hnil => ?_⟩
      have hwaiting : (s.tasks n).waiting = [] := List.drop_eq_nil_of_le (by rw [List.length_range]; omega)
      rw [hnil, hwaiting] at hsum
      simp only [List.length_nil, Nat.add_zero, Nat.zero_add] at hsum
      rw [hnil, List.length_nil] at hmin
      exact List.eq_nil_of_length_eq_zero (by omega)

/-- What the pool keeps from turn to turn. -/
structure RemotePool.Inv (outcome : Nat → Except ε β) (n : Nat) (s : RemotePool β ε) : Prop where
  next : s.nextIndex ≤ n
  once : (s.tasks n).all.Subperm (List.range n)
  bounded : s.pending.length ≤ min 4 n
  phase : match s.phase with
    | .waiting => (s.tasks n).Sound outcome n ∧ s.pending ≠ []
    | .returned results => serial outcome n = .ok results
    | .raised error => ∃ index, index < n ∧ outcome index = .error error
    | .top | .refill | .keyError => False

theorem remoteStart_inv : (remoteStart n : RemotePool β ε).Inv outcome n := by
  unfold remoteStart
  split_ifs with hn
  · subst hn
    exact ⟨Nat.le_refl _, List.nil_subperm, Nat.zero_le _, rfl⟩
  · have hall : (({ nextIndex := min 4 n, pending := List.range (min 4 n) } : RemotePool β ε).tasks n).all.Perm
        (List.range n) := by
      simp only [RemotePool.tasks, Tasks.all, List.map_nil, List.append_nil]
      have htake : List.range (min 4 n) = (List.range n).take (min 4 n) := by
        rw [List.take_range, Nat.min_eq_left (Nat.min_le_right 4 n)]
      rw [htake]
      exact List.perm_append_comm.trans (by rw [List.take_append_drop])
    refine ⟨Nat.min_le_right 4 n, hall.subperm, by simp, ⟨hall, by simp [RemotePool.tasks]⟩, ?_⟩
    intro hnil
    have := congrArg List.length hnil
    simp only [List.length_range, List.length_nil] at this
    omega

theorem RemotePool.Inv.collect {s s' : RemotePool β ε} {done : List Nat} (h : s.Inv outcome n)
    (hmove : s.collect outcome n done = some s') :
    s'.Inv outcome n ∧ (s'.tasks n).waiting.length + s'.pending.length + 1 ≤
      (s.tasks n).waiting.length + s.pending.length := by
  obtain ⟨hnext, honce, hbounded, hphase⟩ := h
  unfold RemotePool.collect at hmove
  split at hmove
  · next hwaiting =>
    rw [hwaiting] at hphase
    obtain ⟨hsound, -⟩ := hphase
    split_ifs at hmove with hdone
    obtain ⟨hne, hnodup, hrunning⟩ := hdone
    obtain ⟨hw, hlength, hall, hkeeps, herror⟩ :=
      collectDone_spec (t := s.tasks n) (n := n) hnodup hrunning none
    have hpos : 0 < done.length := List.length_pos_iff.mpr hne
    generalize hafter : collectDone outcome (s.tasks n) none done = after at *
    have hpending : (s.tasks n).running = s.pending := rfl
    rw [hpending] at hlength
    have htasks : ∀ phase, ({ s with pending := after.1.running, completed := after.1.finished, phase := phase } :
        RemotePool β ε).tasks n = after.1 := by
      intro phase
      show Tasks.mk (s.tasks n).waiting after.1.running after.1.finished = after.1
      rw [← hw]
    dsimp only at hmove
    split at hmove
    · next error hfatal =>
      cases hmove
      obtain ⟨index, hmem, ho⟩ := (herror error hfatal).resolve_left (Option.some_ne_none _).symm
      refine ⟨⟨hnext, by rw [htasks]; exact hall.trans honce, by show after.1.running.length ≤ _; omega,
        index, hsound.lt (Or.inr (hrunning index hmem)), ho⟩, ?_⟩
      rw [htasks, hw]
      show _ + after.1.running.length + 1 ≤ _
      omega
    · next hfatal =>
      have hs := (hkeeps hfatal).2 hsound
      rw [← htasks s.phase] at hs
      obtain ⟨hs', hn', hp', -, hmax, hsum, hlast⟩ := submitted_spec (l := done) hs hnext
      rw [htasks, hw] at hsum
      generalize done.foldl (fun s _ => RemotePool.submitNext n s) { s with pending := after.1.running, completed := after.1.finished }
        = t at hmove hs' hn' hp' hmax hsum hlast
      change t.pending.length ≤ after.1.running.length + done.length at hmax
      change (t.tasks n).waiting.length + t.pending.length = _ + after.1.running.length at hsum
      split_ifs at hmove with hnil
      · obtain ⟨results, hresults, hserial⟩ := orderedResults_inv hs' (hlast hne hnil) hnil
        cases hmove
        exact ⟨⟨hn', hs'.each.subperm, by show t.pending.length ≤ _; omega, by rw [hresults]; exact hserial⟩,
          by show (t.tasks n).waiting.length + t.pending.length + 1 ≤ _; omega⟩
      · cases hmove
        refine ⟨⟨hn', hs'.each.subperm, by omega, ?_⟩, by omega⟩
        rw [hp', hwaiting]
        exact ⟨hs', hnil⟩
  · cases hmove

/-- The pool of remote scans, whichever of its workers end first: as the local pool, with four at a time,
and with at most one turn for each pair. -/
theorem remote_pool_serial (outcome : Nat → Except ε β) (n : Nat) (moves : List (List Nat)) (s : RemotePool β ε)
    (hrun : RemotePool.run outcome n moves = some s) :
    (s.tasks n).all.Subperm (List.range n) ∧ s.pending.length ≤ min 4 n ∧
    (∀ results, s.phase = .returned results → serial outcome n = .ok results) ∧
    (∀ error, s.phase = .raised error →
      (∃ index, index < n ∧ outcome index = .error error) ∧ ∃ first, serial outcome n = .error first) ∧
    s.phase ≠ .keyError ∧
    (s.phase.isOver ∨ ∃ done, (s.collect outcome n done).isSome) ∧
    moves.length ≤ n := by
  have hinv : s.Inv outcome n :=
    runMoves_invariant (RemotePool.Inv outcome n) hrun (fun _ _ _ _ h hmove => (h.collect hmove).1) remoteStart_inv
  have hturns := runMoves_budget (RemotePool.Inv outcome n) (fun t => (t.tasks n).waiting.length + t.pending.length)
    (fun _ => true) hrun (fun _ _ _ _ h hmove => h.collect hmove) remoteStart_inv
  have hstart := (@remoteStart_inv β ε outcome n).once.length_le
  refine ⟨hinv.once, hinv.bounded, ?_, ?_, ?_, ?_, ?_⟩
  · intro results h
    have := hinv.phase
    rwa [h] at this
  · intro error h
    have := hinv.phase
    rw [h] at this
    obtain ⟨index, hlt, ho⟩ := this
    exact ⟨⟨index, hlt, ho⟩, serial_error hlt ho⟩
  · intro h
    have := hinv.phase
    rw [h] at this
    exact this
  · have hphase := hinv.phase
    cases hs : s.phase with
    | top | refill => rw [hs] at hphase; exact hphase.elim
    | returned | raised | keyError => exact Or.inl rfl
    | waiting =>
      rw [hs] at hphase
      obtain ⟨first, rest, hpending⟩ := List.exists_cons_of_ne_nil hphase.2
      refine Or.inr ⟨[first], ?_⟩
      simp only [RemotePool.collect, hs, hpending]
      rw [if_pos (by simp)]
      split <;> exact Option.isSome_some
  · simp only [Tasks.all, List.length_append, List.length_range] at hstart
    simp only [List.countP_true] at hturns
    have hrunning : ((remoteStart n : RemotePool β ε).tasks n).running = (remoteStart n : RemotePool β ε).pending := rfl
    rw [hrunning] at hstart
    omega

end

theorem remote_pool_serial_failed :
    let outcome := fun index : Nat => if index = 4 then .error "lost" else (.ok (10 * index) : Except String Nat)
    ∃ s, RemotePool.run outcome 6 [[3], [0, 1], [5, 4, 2]] = some s ∧ s.phase = .raised "lost" ∧
      ∃ first, serial outcome 6 = .error first := by
  intro outcome
  refine ⟨(RemotePool.run outcome 6 [[3], [0, 1], [5, 4, 2]]).getD { nextIndex := 0, pending := [] }, rfl, rfl, ?_⟩
  exact ((remote_pool_serial outcome 6 [[3], [0, 1], [5, 4, 2]] _ rfl).2.2.2.1 "lost" rfl).2

end SeedSync
