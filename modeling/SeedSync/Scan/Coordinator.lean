import Mathlib.Data.List.Basic

/-!
# The scan coordinator

`ScannerProcess` as its threads see it: calls of `force_scan` and `prioritize_scan` that are under
way, and the coordinator thread with a recycled worker or with scans of its own. A step is one
access to what the threads share. Only runs in which no scan ends the coordinator are modelled.
-/

namespace SeedSync.Scan

/-- What a scan covers: the pairs of a targeted scan, or everything. -/
abbrev Scope (π : Type) := Option (List π)

inductive Call (π : Type) where
  /-- `force_scan(path_pair_id)` -/
  | forceScan (target : Option π)
  /-- `prioritize_scan(path_pair_id, require_successor=…)` -/
  | prioritizeScan (pair : π) (requireSuccessor : Bool)

/-- A request that has taken effect, with the generation of that moment. -/
structure Request (π : Type) where
  call : Call π
  generation : Nat
  /-- The active targeted scan that the request was left to. -/
  coalescedActive : Option (List π) := none

/-- The pair of a request, or everything. -/
def Request.target {π : Type} (request : Request π) : Option π :=
  match request.call with
  | .forceScan target => target
  | .prioritizeScan pair _ => some pair

/-- Where a call stands. -/
inductive Caller (π : Type) where
  | merge (target : Option π)
  | readActive (pair : π) (requireSuccessor : Bool)
  | readTargets (pair : π)
  | add (pair : π) (requireSuccessor : Bool)
  | readGeneration
  | raiseFollowup
  | interrupt
  | wakeUp

/-- Where the coordinator stands. -/
inductive Place (π : Type) where
  /-- No scan is under way. -/
  | top
  /-- In the loop of `__drain_scan_target_path_pair_ids`. -/
  | draining (targets : List π) (full : Bool)
  | drained (scope : Scope π) (clearInterrupt : Bool)
  | admitted (scope : Scope π)
  | starting (scope : Scope π)
  | scanning (scope : Scope π)
  | interrupting
  | exited (scope : Scope π)
  | completed (scope : Scope π)
  | checking
  | clearing
  | scheduling
  | resting (followupPending : Bool)

structure State (π : Type) where
  /-- `__scan_target_queue`; `none` asks for everything. -/
  targetQueue : List (Option π) := []
  priorityTargets : List π := []
  requiresFullFollowup : Bool := false
  interruptEvent : Bool := false
  wakeEvent : Bool := false
  forcePending : Bool := false
  scanGeneration : Nat := 0
  /-- `__scan_worker_target_path_pair_ids`, or `__inline_scan_target_path_pair_ids` -/
  activeTargets : Scope π := none
  inlineScanActive : Bool := false
  place : Place π := .top
  callers : List (Caller π) := []
  /-- Ghost: the requests so far. -/
  requests : List (Request π) := []
  /-- Ghost: every admitted generation with its scope. -/
  admissions : List (Nat × Scope π) := []
  /-- Ghost: the generations of the full scans that gave way to a priority. -/
  interrupted : List Nat := []

section Steps

variable {π : Type} [DecidableEq π]

/-! ## Callers -/

/-- The merge of `force_scan` under the mutex of the queue. -/
def mergeTarget (queue : List (Option π)) (target : Option π) : List (Option π) :=
  match target with
  | none => if none ∈ queue then queue else [none]
  | some pair => if none ∉ queue ∧ some pair ∉ queue then queue ++ [some pair] else queue

/-- `set.add` -/
def addTarget (targets : List π) (pair : π) : List π := if pair ∈ targets then targets else targets ++ [pair]

variable (recycle : Bool)

def Call.start : Call π → Caller π
  | .forceScan target => .merge target
  | .prioritizeScan pair requireSuccessor => if recycle then .add pair requireSuccessor else .readActive pair requireSuccessor

def State.request (s : State π) (call : Call π) (coalescedActive : Option (List π)) : State π :=
  { s with requests := s.requests ++ [⟨call, s.scanGeneration, coalescedActive⟩] }

/-- The active targeted scan of the pair. -/
def State.activeFor (s : State π) (pair : π) : Option (List π) := s.activeTargets.filter fun targets => decide (pair ∈ targets)

/-- Behind the flag, only a recycled worker is interrupted. -/
def afterFollowup : Caller π := if recycle then .interrupt else .wakeUp

def callerStep (s : State π) : Caller π → State π × Option (Caller π)
  | .merge target =>
    ({ s.request (.forceScan target) none with targetQueue := mergeTarget s.targetQueue target }, some .wakeUp)
  | .readActive pair requireSuccessor =>
    (s, if !requireSuccessor && s.inlineScanActive then some (.readTargets pair) else some (.add pair requireSuccessor))
  | .readTargets pair =>
    match s.activeFor pair with
    | some targets => (s.request (.prioritizeScan pair false) (some targets), none)
    | none => (s, some (.add pair false))
  | .add pair requireSuccessor =>
    match if recycle && !requireSuccessor then s.activeFor pair else none with
    | some targets => (s.request (.prioritizeScan pair requireSuccessor) (some targets), none)
    | none =>
      ({ s.request (.prioritizeScan pair requireSuccessor) none with
          priorityTargets := addTarget s.priorityTargets pair }, some .readGeneration)
  | .readGeneration => (s, if s.scanGeneration = 0 then some .raiseFollowup else some (afterFollowup recycle))
  | .raiseFollowup => ({ s with requiresFullFollowup := true }, some (afterFollowup recycle))
  | .interrupt => ({ s with interruptEvent := true }, some .wakeUp)
  | .wakeUp => ({ s with wakeEvent := true }, none)

/-! ## The coordinator -/

/-- What the coordinator finds. -/
inductive Choice where
  /-- The worker lives, and the wait for the wake event ends. -/
  | poll
  /-- The worker lives, and the interrupt event is looked at. -/
  | interrupt
  /-- The worker is gone, or the scan of the thread has ended. -/
  | exit
  /-- The interval is over before the sleep. -/
  | late

/-- A wake event that is consumed is kept as the pending flag. -/
def State.consumeWake (s : State π) : State π :=
  { s with wakeEvent := false, forcePending := s.forcePending || s.wakeEvent }

def scanningStep (s : State π) (scope : Scope π) : Choice → State π
  | .interrupt =>
    if recycle && s.interruptEvent then
      { s with interruptEvent := false, place := if scope.isNone then .interrupting else .scanning scope }
    else s
  | .exit =>
    if recycle then { s.consumeWake with place := .exited scope }
    else { s with inlineScanActive := false, place := .exited scope }
  | _ => if recycle then s.consumeWake else s

/-- The sleep until the next scan. -/
def restingStep (s : State π) (followupPending : Bool) (choice : Choice) : State π :=
  let sleeps := !(if recycle then s.forcePending else followupPending) && !(choice matches .late)
  { s with wakeEvent := s.wakeEvent && !sleeps, forcePending := false, place := .top }

def coordinatorStep (s : State π) (choice : Choice) : State π :=
  match s.place with
  | .top =>
    if s.priorityTargets = [] then { s with place := .draining [] false }
    else { s with priorityTargets := [], place := .drained (some s.priorityTargets) recycle }
  | .draining targets full =>
    match s.targetQueue with
    | [] => { s with place := .drained (if full ∨ targets = [] then none else some targets) false }
    | none :: rest => { s with targetQueue := rest, place := .draining targets true }
    | some pair :: rest =>
      { s with targetQueue := rest, place := .draining (if full then targets else addTarget targets pair) full }
  | .drained scope true => { s with interruptEvent := false, place := .drained scope false }
  | .drained scope false =>
    { s with
      scanGeneration := s.scanGeneration + 1
      admissions := s.admissions ++ [(s.scanGeneration + 1, scope)]
      place := .admitted scope }
  | .admitted scope => { s with activeTargets := scope, place := .starting scope }
  | .starting scope => { s with inlineScanActive := !recycle, place := .scanning scope }
  | .scanning scope => scanningStep recycle s scope choice
  | .interrupting =>
    { s with
      requiresFullFollowup := true
      forcePending := true
      activeTargets := none
      interrupted := s.interrupted ++ [s.scanGeneration]
      place := .top }
  | .exited scope => { s with activeTargets := none, place := .completed scope }
  | .completed scope =>
    { s with place := if s.requiresFullFollowup && scope.isSome then .checking else .resting false }
  | .checking =>
    if s.priorityTargets = [] then { s with place := .clearing }
    else { s with forcePending := s.forcePending || recycle, place := .resting true }
  | .clearing => { s with requiresFullFollowup := false, place := .scheduling }
  | .scheduling =>
    { s with
      targetQueue := s.targetQueue ++ [none]
      forcePending := s.forcePending || recycle
      place := .resting true }
  | .resting followupPending => restingStep recycle s followupPending choice

/-! ## Runs -/

inductive Event (π : Type) where
  | call (call : Call π)
  /-- The call at this place among those under way goes on. -/
  | caller (index : Nat)
  | coordinator (choice : Choice)

def step (s : State π) : Event π → State π
  | .call call => { s with callers := s.callers ++ [call.start recycle] }
  | .caller index =>
    match s.callers[index]? with
    | none => s
    | some caller =>
      let (s', next) := callerStep recycle s caller
      { s' with callers := s.callers.take index ++ next.toList ++ s.callers.drop (index + 1) }
  | .coordinator choice => coordinatorStep recycle s choice

def run (events : List (Event π)) : State π := events.foldl (step recycle) {}

end Steps

end SeedSync.Scan
