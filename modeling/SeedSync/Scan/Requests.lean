import SeedSync.Scan.Coordinator

/-!
# No scan request is lost

Where a request is after every step: among the pending targets, in the hands of the coordinator, or
with an admitted scan. The invariant is kept by every step of a caller and of the coordinator.
-/

namespace SeedSync.Scan

variable {π : Type}

/-! ## Where a request is -/

/-- The scan covers the pair, or everything when everything was asked for. -/
def Covers (scope : Scope π) (target : Option π) : Prop :=
  match scope with
  | none => True
  | some targets => ∃ pair ∈ targets, target = some pair

/-- The request stands among the pending targets or in the priority set. -/
def Pending (s : State π) (target : Option π) : Prop :=
  none ∈ s.targetQueue ∨ target ∈ s.targetQueue ∨ ∃ pair ∈ s.priorityTargets, target = some pair

/-- The coordinator has taken the request for the scan that it admits next. -/
def InHand (place : Place π) (target : Option π) : Prop :=
  match place with
  | .draining targets full => full = true ∨ ∃ pair ∈ targets, target = some pair
  | .drained scope _ => Covers scope target
  | _ => False

/-- A scan that covers it was admitted above the generation. -/
def Admitted (s : State π) (target : Option π) (generation : Nat) : Prop :=
  ∃ admission ∈ s.admissions, generation < admission.1 ∧ Covers admission.2 target

def Held (s : State π) (target : Option π) (generation : Nat) : Prop :=
  (Pending s target ∨ InHand s.place target) ∨ Admitted s target generation

/-- The coordinator is about to ask for everything, or has taken such a request. -/
def FullInHand : Place π → Prop
  | .scheduling => True
  | .draining _ full => full = true
  | .drained scope _ => scope = none
  | _ => False

/-- A full scan is asked for. -/
def AsksFull (s : State π) : Prop := s.requiresFullFollowup = true ∨ none ∈ s.targetQueue ∨ FullInHand s.place

/-- A full scan is asked for, or one was admitted above the generation. -/
def OwesFull (s : State π) (generation : Nat) : Prop :=
  AsksFull s ∨ ∃ admission ∈ s.admissions, generation < admission.1 ∧ admission.2 = none

/-! ## The invariant -/

/-- The scope of the scan that is under way. -/
def scopeOf : Place π → Option (Scope π)
  | .admitted scope => some scope
  | .starting scope => some scope
  | .scanning scope => some scope
  | .interrupting => some none
  | .exited scope => some scope
  | _ => none

/-- What the threads see of it. -/
def publishedScope : Place π → Scope π
  | .starting scope => scope
  | .scanning scope => scope
  | .exited scope => scope
  | _ => none

structure Safe (s : State π) : Prop where
  made : ∀ request ∈ s.requests, request.generation ≤ s.scanGeneration
  held : ∀ request ∈ s.requests, request.coalescedActive = none → Held s request.target request.generation
  /-- Only a priority request that asks for no successor is left to an active scan. -/
  coalesced : ∀ request ∈ s.requests, ∀ targets, request.coalescedActive = some targets →
    ∃ pair ∈ targets, request.call = .prioritizeScan pair false ∧ (request.generation, some targets) ∈ s.admissions
  yielded : ∀ generation ∈ s.interrupted, generation ≤ s.scanGeneration ∧ (generation, none) ∈ s.admissions
  owed : ∀ generation ∈ s.interrupted, OwesFull s generation
  active : s.activeTargets = publishedScope s.place
  current : ∀ scope, scopeOf s.place = some scope → (s.scanGeneration, scope) ∈ s.admissions

theorem safe_init : Safe ({} : State π) where
  made := by simp
  held := by simp
  coalesced := by simp
  yielded := by simp
  owed := by simp
  active := rfl
  current := by simp [scopeOf]

theorem mem_published {s : State π} (h : Safe s) {targets : List π} (htargets : s.activeTargets = some targets) :
    (s.scanGeneration, some targets) ∈ s.admissions := by
  refine h.current (some targets) ?_
  have hactive := h.active
  rw [htargets] at hactive
  cases hplace : s.place <;> simp_all [publishedScope, scopeOf]

/-! ## Callers -/

/-- What a caller may do to the rest of the state. -/
structure Frame (s s' : State π) : Prop where
  place : s'.place = s.place
  generation : s'.scanGeneration = s.scanGeneration
  admissions : s'.admissions = s.admissions
  interrupted : s'.interrupted = s.interrupted
  active : s'.activeTargets = s.activeTargets
  followup : s.requiresFullFollowup = true → s'.requiresFullFollowup = true
  full : none ∈ s.targetQueue → none ∈ s'.targetQueue
  pending : ∀ target, Pending s target → Pending s' target

section Callers

variable {s s' : State π}

theorem Frame.held (h : Frame s s') {target : Option π} {generation : Nat} (hheld : Held s target generation) :
    Held s' target generation := by
  rcases hheld with (hpending | hhand) | hadmitted
  · exact .inl (.inl (h.pending target hpending))
  · exact .inl (.inr (h.place ▸ hhand))
  · exact .inr (by rwa [Admitted, h.admissions])

theorem Frame.owesFull (h : Frame s s') {generation : Nat} (howes : OwesFull s generation) : OwesFull s' generation := by
  rcases howes with (hflag | hqueue | hhand) | hadmitted
  · exact .inl (.inl (h.followup hflag))
  · exact .inl (.inr (.inl (h.full hqueue)))
  · exact .inl (.inr (.inr (h.place ▸ hhand)))
  · exact .inr (by rwa [h.admissions])

/-- A caller keeps the invariant when the requests that it adds are held or left to an active scan. -/
theorem Safe.of_frame (h : Safe s) (hframe : Frame s s') (added : List (Request π))
    (hrequests : s'.requests = s.requests ++ added)
    (hadded : ∀ request ∈ added, request.generation = s.scanGeneration ∧
      (request.coalescedActive = none → Held s' request.target s.scanGeneration) ∧
      ∀ targets, request.coalescedActive = some targets → s.activeTargets = some targets ∧
        ∃ pair ∈ targets, request.call = .prioritizeScan pair false) : Safe s' where
  made := by
    intro request hrequest
    rw [hframe.generation]
    rcases List.mem_append.1 (hrequests ▸ hrequest) with hold | hnew
    · exact h.made request hold
    · exact Nat.le_of_eq (hadded request hnew).1
  held := by
    intro request hrequest hcoalesced
    rcases List.mem_append.1 (hrequests ▸ hrequest) with hold | hnew
    · exact hframe.held (h.held request hold hcoalesced)
    · rw [(hadded request hnew).1]
      exact (hadded request hnew).2.1 hcoalesced
  coalesced := by
    intro request hrequest targets hcoalesced
    rw [hframe.admissions]
    rcases List.mem_append.1 (hrequests ▸ hrequest) with hold | hnew
    · exact h.coalesced request hold targets hcoalesced
    · obtain ⟨hactive, pair, hpair, hcall⟩ := (hadded request hnew).2.2 targets hcoalesced
      rw [(hadded request hnew).1]
      exact ⟨pair, hpair, hcall, mem_published h hactive⟩
  yielded := by
    rw [hframe.interrupted, hframe.generation, hframe.admissions]
    exact h.yielded
  owed := by
    rw [hframe.interrupted]
    exact fun generation hmem => hframe.owesFull (h.owed generation hmem)
  active := by rw [hframe.active, hframe.place, h.active]
  current := by
    rw [hframe.place, hframe.generation, hframe.admissions]
    exact h.current

/-- A state that differs in what nothing here reads. -/
theorem Safe.of_same (h : Safe s) (hframe : Frame s s') (hrequests : s'.requests = s.requests) : Safe s' :=
  h.of_frame hframe [] (by simpa using hrequests) (by simp)

variable [DecidableEq π]

theorem mergeTarget_full {queue : List (Option π)} (target : Option π) (h : none ∈ queue) : none ∈ mergeTarget queue target := by
  cases target with
  | none => simp [mergeTarget, h]
  | some pair => simp [mergeTarget, h]

/-- What was asked for stays asked for, and so is the new target. -/
theorem mergeTarget_pending (queue : List (Option π)) (target other : Option π)
    (h : none ∈ queue ∨ other ∈ queue ∨ other = target) :
    none ∈ mergeTarget queue target ∨ other ∈ mergeTarget queue target := by
  cases target with
  | none =>
    rw [mergeTarget]
    split_ifs with hfull
    · exact .inl hfull
    · exact .inl (by simp)
  | some pair =>
    rw [mergeTarget]
    split_ifs with hnew
    · rcases h with h | h | h
      · exact .inl (by simp [h])
      · exact .inr (by simp [h])
      · exact .inr (by simp [h])
    · rcases h with h | h | rfl
      · exact .inl h
      · exact .inr h
      · by_cases hfull : none ∈ queue
        · exact .inl hfull
        · exact .inr (by simpa [hfull] using hnew)

theorem mem_addTarget {targets : List π} {pair other : π} : other ∈ addTarget targets pair ↔ other ∈ targets ∨ other = pair := by
  rw [addTarget]
  split_ifs with h
  · constructor
    · exact .inl
    · rintro (hmem | rfl)
      · exact hmem
      · exact h
  · simp

theorem activeFor_eq_some {pair : π} {targets : List π} (h : s.activeFor pair = some targets) :
    s.activeTargets = some targets ∧ pair ∈ targets := by
  obtain ⟨hactive, hpair⟩ := Option.filter_eq_some_iff.1 h
  exact ⟨hactive, by simpa using hpair⟩

theorem Safe.merge (h : Safe s) (target : Option π) :
    Safe { s.request (.forceScan target) none with targetQueue := mergeTarget s.targetQueue target } := by
  have hframe : Frame s { s.request (.forceScan target) none with targetQueue := mergeTarget s.targetQueue target } := {
    place := rfl
    generation := rfl
    admissions := rfl
    interrupted := rfl
    active := rfl
    followup := id
    full := mergeTarget_full target
    pending := by
      rintro other (hfull | hqueue | hpriority)
      · exact .inl (mergeTarget_full target hfull)
      · rcases mergeTarget_pending s.targetQueue target other (.inr (.inl hqueue)) with h | h
        · exact .inl h
        · exact .inr (.inl h)
      · exact .inr (.inr hpriority) }
  refine h.of_frame hframe _ rfl ?_
  intro request hrequest
  rw [List.mem_singleton.1 hrequest]
  refine ⟨rfl, fun _ => .inl (.inl ?_), by simp⟩
  rcases mergeTarget_pending s.targetQueue target target (.inr (.inr rfl)) with h | h
  · exact .inl h
  · exact .inr (.inl h)

theorem Safe.add (h : Safe s) (pair : π) (requireSuccessor : Bool) :
    Safe { s.request (.prioritizeScan pair requireSuccessor) none with
      priorityTargets := addTarget s.priorityTargets pair } := by
  have hframe : Frame s { s.request (.prioritizeScan pair requireSuccessor) none with
      priorityTargets := addTarget s.priorityTargets pair } := {
    place := rfl
    generation := rfl
    admissions := rfl
    interrupted := rfl
    active := rfl
    followup := id
    full := id
    pending := by
      rintro other (hfull | hqueue | ⟨kept, hkept, hother⟩)
      · exact .inl hfull
      · exact .inr (.inl hqueue)
      · exact .inr (.inr ⟨kept, mem_addTarget.2 (.inl hkept), hother⟩) }
  refine h.of_frame hframe _ rfl ?_
  intro request hrequest
  rw [List.mem_singleton.1 hrequest]
  exact ⟨rfl, fun _ => .inl (.inl (.inr (.inr ⟨pair, mem_addTarget.2 (.inr rfl), rfl⟩))), by simp⟩

theorem Safe.coalesce (h : Safe s) {pair : π} {targets : List π} (hactive : s.activeFor pair = some targets) :
    Safe (s.request (.prioritizeScan pair false) (some targets)) := by
  have hframe : Frame s (s.request (.prioritizeScan pair false) (some targets)) :=
    ⟨rfl, rfl, rfl, rfl, rfl, id, id, fun _ => id⟩
  refine h.of_frame hframe _ rfl ?_
  intro request hrequest
  rw [List.mem_singleton.1 hrequest]
  refine ⟨rfl, by simp, ?_⟩
  intro other hother
  rw [← Option.some.inj hother]
  obtain ⟨htargets, hpair⟩ := activeFor_eq_some hactive
  exact ⟨htargets, pair, hpair, rfl⟩

theorem Safe.callerStep (h : Safe s) (recycle : Bool) (caller : Caller π) : Safe (callerStep recycle s caller).1 := by
  cases caller with
  | merge target => exact h.merge target
  | readActive pair requireSuccessor => exact h
  | readTargets pair =>
    rw [Scan.callerStep]
    split
    · next targets hactive => exact h.coalesce hactive
    · exact h
  | add pair requireSuccessor =>
    rw [Scan.callerStep]
    split
    · next targets hactive =>
      split_ifs at hactive with hcoalesces
      obtain ⟨-, hsuccessor⟩ := (Bool.and_eq_true _ _).mp hcoalesces
      rw [Bool.not_eq_true'] at hsuccessor
      rw [hsuccessor]
      exact h.coalesce hactive
    · exact h.add pair requireSuccessor
  | readGeneration => exact h
  | raiseFollowup => exact h.of_same ⟨rfl, rfl, rfl, rfl, rfl, fun _ => rfl, id, fun _ => id⟩ rfl
  | interrupt => exact h.of_same ⟨rfl, rfl, rfl, rfl, rfl, id, id, fun _ => id⟩ rfl
  | wakeUp => exact h.of_same ⟨rfl, rfl, rfl, rfl, rfl, id, id, fun _ => id⟩ rfl

end Callers

/-! ## The coordinator -/

section Coordinator

variable {s s' : State π}

/-- A step of the coordinator keeps the invariant when it keeps every request and every follow-up
that is owed, and admits nothing. -/
theorem Safe.of_move (h : Safe s) (hrequests : s'.requests = s.requests) (hgeneration : s'.scanGeneration = s.scanGeneration)
    (hadmissions : s'.admissions = s.admissions) (hinterrupted : s'.interrupted = s.interrupted)
    (hheld : ∀ target, Pending s target ∨ InHand s.place target → Pending s' target ∨ InHand s'.place target)
    (howed : AsksFull s → AsksFull s')
    (hactive : s'.activeTargets = publishedScope s'.place)
    (hcurrent : ∀ scope, scopeOf s'.place = some scope → scopeOf s.place = some scope) : Safe s' where
  made := by
    rw [hrequests, hgeneration]
    exact h.made
  held := by
    rw [hrequests]
    intro request hrequest hcoalesced
    rcases h.held request hrequest hcoalesced with hhere | hadmitted
    · exact .inl (hheld _ hhere)
    · exact .inr (by rwa [Admitted, hadmissions])
  coalesced := by
    rw [hrequests, hadmissions]
    exact h.coalesced
  yielded := by
    rw [hinterrupted, hgeneration, hadmissions]
    exact h.yielded
  owed := by
    rw [hinterrupted]
    intro generation hmem
    rcases h.owed generation hmem with hasks | hadmitted
    · exact .inl (howed hasks)
    · exact .inr (by rwa [hadmissions])
  active := hactive
  current := by
    rw [hgeneration, hadmissions]
    exact fun scope hscope => h.current scope (hcurrent scope hscope)

/-- The step that only moves on, from a place where nothing is in hand to another. -/
theorem Safe.go (h : Safe s) (hframe : Frame s { s' with place := s.place }) (hrequests : s'.requests = s.requests)
    (hhand : ∀ target, InHand s.place target → InHand s'.place target)
    (hfull : FullInHand s.place → FullInHand s'.place) (hactive : publishedScope s'.place = publishedScope s.place)
    (hcurrent : ∀ scope, scopeOf s'.place = some scope → scopeOf s.place = some scope) : Safe s' := by
  refine h.of_move hrequests hframe.generation hframe.admissions hframe.interrupted ?_ ?_ ?_ hcurrent
  · rintro target (hpending | hplace)
    · exact .inl (hframe.pending target hpending)
    · exact .inr (hhand target hplace)
  · rintro (hflag | hqueue | hplace)
    · exact .inl (hframe.followup hflag)
    · exact .inr (.inl (hframe.full hqueue))
    · exact .inr (.inr (hfull hplace))
  · rw [hactive, ← h.active]
    exact hframe.active

theorem Safe.top (h : Safe s) (recycle : Bool) (hplace : s.place = .top) :
    Safe (if s.priorityTargets = [] then { s with place := .draining [] false }
      else { s with priorityTargets := [], place := .drained (some s.priorityTargets) recycle }) := by
  have hactive := h.active
  have hnone : ∀ target, ¬InHand s.place target := by simp [hplace, InHand]
  have hfull : ¬FullInHand s.place := by simp [hplace, FullInHand]
  rw [hplace] at hactive
  split_ifs with hempty
  · refine h.of_move rfl rfl rfl rfl ?_ ?_ hactive (by simp [scopeOf])
    · rintro target (hpending | hhand)
      · exact .inl hpending
      · exact absurd hhand (hnone target)
    · rintro (hflag | hqueue | hhand)
      · exact .inl hflag
      · exact .inr (.inl hqueue)
      · exact absurd hhand hfull
  · refine h.of_move rfl rfl rfl rfl ?_ ?_ hactive (by simp [scopeOf])
    · rintro target ((hqueue | hqueue | hpriority) | hhand)
      · exact .inl (.inl hqueue)
      · exact .inl (.inr (.inl hqueue))
      · exact .inr hpriority
      · exact absurd hhand (hnone target)
    · rintro (hflag | hqueue | hhand)
      · exact .inl hflag
      · exact .inr (.inl hqueue)
      · exact absurd hhand hfull

/-- The scan that is admitted covers what the coordinator had taken. -/
theorem Safe.admit (h : Safe s) {scope : Scope π} {clears : Bool} (hplace : s.place = .drained scope clears) :
    Safe { s with
      scanGeneration := s.scanGeneration + 1
      admissions := s.admissions ++ [(s.scanGeneration + 1, scope)]
      place := .admitted scope } where
  made request hrequest := Nat.le_succ_of_le (h.made request hrequest)
  held := by
    intro request hrequest hcoalesced
    have hmade := h.made request hrequest
    rcases h.held request hrequest hcoalesced with (hpending | hhand) | ⟨admission, hmem, habove⟩
    · exact .inl (.inl hpending)
    · rw [hplace] at hhand
      exact .inr ⟨(s.scanGeneration + 1, scope), by simp, Nat.lt_succ_of_le hmade, hhand⟩
    · exact .inr ⟨admission, List.mem_append_left _ hmem, habove⟩
  coalesced := by
    intro request hrequest targets hcoalesced
    obtain ⟨pair, hpair, hcall, hmem⟩ := h.coalesced request hrequest targets hcoalesced
    exact ⟨pair, hpair, hcall, List.mem_append_left _ hmem⟩
  yielded generation hmem := ⟨Nat.le_succ_of_le (h.yielded generation hmem).1,
    List.mem_append_left _ (h.yielded generation hmem).2⟩
  owed := by
    intro generation hmem
    have hbefore := (h.yielded generation hmem).1
    rcases h.owed generation hmem with (hflag | hqueue | hhand) | ⟨admission, hin, habove⟩
    · exact .inl (.inl hflag)
    · exact .inl (.inr (.inl hqueue))
    · rw [hplace] at hhand
      exact .inr ⟨(s.scanGeneration + 1, scope), by simp, Nat.lt_succ_of_le hbefore, hhand⟩
    · exact .inr ⟨admission, List.mem_append_left _ hin, habove⟩
  active := by
    have hactive := h.active
    rw [hplace] at hactive
    exact hactive
  current := by
    intro other hother
    rw [← Option.some.inj hother]
    simp

/-- A full scan that gives way leaves the flag. -/
theorem Safe.interrupt (h : Safe s) (hplace : s.place = .interrupting) :
    Safe { s with
      requiresFullFollowup := true
      forcePending := true
      activeTargets := none
      interrupted := s.interrupted ++ [s.scanGeneration]
      place := .top } where
  made := h.made
  held := by
    intro request hrequest hcoalesced
    rcases h.held request hrequest hcoalesced with (hpending | hhand) | hadmitted
    · exact .inl (.inl hpending)
    · rw [hplace] at hhand
      exact absurd hhand id
    · exact .inr hadmitted
  coalesced := h.coalesced
  yielded := by
    intro generation hmem
    rcases List.mem_append.1 hmem with hold | hnew
    · exact h.yielded generation hold
    · rw [List.mem_singleton.1 hnew]
      exact ⟨Nat.le_refl _, h.current none (by rw [hplace]; rfl)⟩
  owed := fun _ _ => .inl (.inl rfl)
  active := rfl
  current := by simp [scopeOf]

theorem Safe.scanning (h : Safe s) (recycle : Bool) {scope : Scope π} (hplace : s.place = .scanning scope)
    (choice : Choice) : Safe (scanningStep recycle s scope choice) := by
  have hwake : Safe s.consumeWake := h.of_same ⟨rfl, rfl, rfl, rfl, rfl, id, id, fun _ => id⟩ rfl
  have hidle : Safe { s with inlineScanActive := false } :=
    h.of_same ⟨rfl, rfl, rfl, rfl, rfl, id, id, fun _ => id⟩ rfl
  have hexit : ∀ {t : State π}, Safe t → t.place = .scanning scope → Safe { t with place := .exited scope } := by
    intro t ht htplace
    refine ht.go ⟨rfl, rfl, rfl, rfl, rfl, id, id, fun _ => id⟩ rfl ?_ ?_ ?_ ?_ <;>
      simp [htplace, InHand, FullInHand, publishedScope, scopeOf]
  cases choice with
  | poll =>
    rw [scanningStep]
    · split_ifs
      · exact hwake
      · exact h
    · simp
    · simp
  | late =>
    rw [scanningStep]
    · split_ifs
      · exact hwake
      · exact h
    · simp
    · simp
  | interrupt =>
    rw [scanningStep]
    split_ifs with hset hfull
    · rw [Option.isNone_iff_eq_none.1 hfull] at hplace
      refine h.go ⟨rfl, rfl, rfl, rfl, rfl, id, id, fun _ => id⟩ rfl ?_ ?_ ?_ ?_ <;>
        simp [hplace, InHand, FullInHand, publishedScope, scopeOf]
    · exact h.go ⟨rfl, rfl, rfl, rfl, rfl, id, id, fun _ => id⟩ rfl (by simp [hplace]) (by simp [hplace])
        (by simp [hplace]) (by simp [hplace])
    · exact h
  | exit =>
    rw [scanningStep]
    split_ifs
    · exact hexit hwake hplace
    · exact hexit hidle hplace

variable [DecidableEq π]

theorem Safe.draining (h : Safe s) {targets : List π} {full : Bool} (hplace : s.place = .draining targets full) :
    Safe (match s.targetQueue with
      | [] => { s with place := .drained (if full ∨ targets = [] then none else some targets) false }
      | none :: rest => { s with targetQueue := rest, place := .draining targets true }
      | some pair :: rest =>
        { s with targetQueue := rest, place := .draining (if full then targets else addTarget targets pair) full }) := by
  have hactive := h.active
  rw [hplace] at hactive
  split
  · next hqueue =>
    refine h.of_move rfl rfl rfl rfl ?_ ?_ hactive (by simp [scopeOf])
    · rintro target (hpending | hhand)
      · exact .inl hpending
      · rw [hplace] at hhand
        refine .inr ?_
        change Covers (if full ∨ targets = [] then none else some targets) target
        split_ifs with hall
        · trivial
        · rcases hhand with hfull | hmem
          · exact absurd (.inl hfull) hall
          · exact hmem
    · rintro (hflag | hmem | hhand)
      · exact .inl hflag
      · exact .inr (.inl hmem)
      · rw [hplace] at hhand
        have hall : full = true ∨ targets = [] := .inl hhand
        exact .inr (.inr (if_pos hall))
  · next rest hqueue =>
    refine h.of_move rfl rfl rfl rfl ?_ ?_ hactive (by simp [scopeOf])
    · exact fun _ _ => .inr (.inl rfl)
    · exact fun _ => .inr (.inr rfl)
  · next pair rest hqueue =>
    refine h.of_move rfl rfl rfl rfl ?_ ?_ hactive (by simp [scopeOf])
    · have hkeep : ∀ other, other ∈ targets ∨ other = pair → full = true ∨
          other ∈ (if full then targets else addTarget targets pair) := by
        intro other hother
        cases full with
        | true => exact .inl rfl
        | false => exact .inr (mem_addTarget.2 hother)
      rintro target ((hall | hmem | hpriority) | hhand)
      · rw [hqueue] at hall
        exact .inl (.inl (by simpa using hall))
      · rw [hqueue] at hmem
        rcases List.mem_cons.1 hmem with rfl | hmem
        · rcases hkeep pair (.inr rfl) with hfull | hin
          · exact .inr (.inl hfull)
          · exact .inr (.inr ⟨pair, hin, rfl⟩)
        · exact .inl (.inr (.inl hmem))
      · exact .inl (.inr (.inr hpriority))
      · rw [hplace] at hhand
        rcases hhand with hfull | ⟨other, hother, rfl⟩
        · exact .inr (.inl hfull)
        · rcases hkeep other (.inl hother) with hfull | hin
          · exact .inr (.inl hfull)
          · exact .inr (.inr ⟨other, hin, rfl⟩)
    · rintro (hflag | hmem | hhand)
      · exact .inl hflag
      · rw [hqueue] at hmem
        exact .inr (.inl (by simpa using hmem))
      · rw [hplace] at hhand
        exact .inr (.inr hhand)

theorem Safe.coordinatorStep (h : Safe s) (recycle : Bool) (choice : Choice) :
    Safe (coordinatorStep recycle s choice) := by
  have hactive := h.active
  cases hplace : s.place with
  | top =>
    simp only [Scan.coordinatorStep, hplace]
    exact h.top recycle hplace
  | draining targets full =>
    simp only [Scan.coordinatorStep, hplace]
    exact h.draining hplace
  | drained scope clears =>
    cases clears with
    | true =>
      simp only [Scan.coordinatorStep, hplace]
      refine h.go ⟨rfl, rfl, rfl, rfl, rfl, id, id, fun _ => id⟩ rfl ?_ ?_ ?_ ?_ <;>
        simp [hplace, InHand, FullInHand, publishedScope, scopeOf]
    | false =>
      simp only [Scan.coordinatorStep, hplace]
      exact h.admit hplace
  | admitted scope =>
    simp only [Scan.coordinatorStep, hplace]
    refine h.of_move rfl rfl rfl rfl ?_ ?_ rfl ?_ <;> simp [hplace, InHand, AsksFull, FullInHand, scopeOf, Pending]
  | starting scope =>
    simp only [Scan.coordinatorStep, hplace]
    refine h.go ⟨rfl, rfl, rfl, rfl, rfl, id, id, fun _ => id⟩ rfl ?_ ?_ ?_ ?_ <;>
      simp [hplace, InHand, FullInHand, publishedScope, scopeOf]
  | scanning scope =>
    simp only [Scan.coordinatorStep, hplace]
    exact h.scanning recycle hplace choice
  | interrupting =>
    simp only [Scan.coordinatorStep, hplace]
    exact h.interrupt hplace
  | exited scope =>
    simp only [Scan.coordinatorStep, hplace]
    refine h.of_move rfl rfl rfl rfl ?_ ?_ rfl ?_ <;> simp [hplace, InHand, AsksFull, FullInHand, scopeOf, Pending]
  | completed scope =>
    simp only [Scan.coordinatorStep, hplace]
    split_ifs
    all_goals
      refine h.go ⟨rfl, rfl, rfl, rfl, rfl, id, id, fun _ => id⟩ rfl ?_ ?_ ?_ ?_ <;>
        simp [hplace, InHand, FullInHand, publishedScope, scopeOf]
  | checking =>
    simp only [Scan.coordinatorStep, hplace]
    split_ifs
    all_goals
      refine h.go ⟨rfl, rfl, rfl, rfl, rfl, id, id, fun _ => id⟩ rfl ?_ ?_ ?_ ?_ <;>
        simp [hplace, InHand, FullInHand, publishedScope, scopeOf]
  | clearing =>
    -- The flag falls, and the request that takes its place is the next step.
    simp only [Scan.coordinatorStep, hplace]
    rw [hplace] at hactive
    refine h.of_move rfl rfl rfl rfl ?_ (fun _ => .inr (.inr trivial)) hactive (by simp [scopeOf])
    simp [hplace, InHand, Pending]
  | scheduling =>
    simp only [Scan.coordinatorStep, hplace]
    rw [hplace] at hactive
    exact h.of_move rfl rfl rfl rfl (fun _ _ => .inl (.inl (by simp))) (fun _ => .inr (.inl (by simp))) hactive
      (by simp [scopeOf])
  | resting followupPending =>
    simp only [Scan.coordinatorStep, hplace, restingStep]
    refine h.go ⟨rfl, rfl, rfl, rfl, rfl, id, id, fun _ => id⟩ rfl ?_ ?_ ?_ ?_ <;>
      simp [hplace, InHand, FullInHand, publishedScope, scopeOf]

/-! ## Runs -/

theorem Safe.step (h : Safe s) (recycle : Bool) (event : Event π) : Safe (step recycle s event) := by
  have hcallers : ∀ {t : State π} (callers : List (Caller π)), Safe t → Safe { t with callers := callers } :=
    fun callers ht => ht.of_same ⟨rfl, rfl, rfl, rfl, rfl, id, id, fun _ => id⟩ rfl
  cases event with
  | call call => exact hcallers _ h
  | caller index =>
    rw [Scan.step]
    split
    · exact h
    · next caller _ => exact hcallers _ (h.callerStep recycle caller)
  | coordinator choice => exact h.coordinatorStep recycle choice

theorem safe_run (recycle : Bool) (events : List (Event π)) : Safe (run recycle events) := by
  have hrun : ∀ {s : State π}, Safe s → Safe (events.foldl (Scan.step recycle) s) := by
    induction events with
    | nil => exact id
    | cons event events ih => exact fun h => ih (h.step recycle event)
  exact hrun safe_init

/-- After every step of the callers and of the coordinator a request is pending, taken for the next
scan, or covered by a scan above its generation; only a priority request that asks for no successor
is left to an active scan of its pair; and a full scan that gave way is asked for again. -/
theorem scan_requests_kept (recycle : Bool) (events : List (Event π)) :
    let s := run recycle events
    (∀ request ∈ s.requests, request.coalescedActive = none →
      Pending s request.target ∨ InHand s.place request.target ∨ Admitted s request.target request.generation) ∧
    (∀ request ∈ s.requests, ∀ targets, request.coalescedActive = some targets →
      ∃ pair ∈ targets, request.call = .prioritizeScan pair false ∧ (request.generation, some targets) ∈ s.admissions) ∧
    ∀ generation ∈ s.interrupted, (generation, none) ∈ s.admissions ∧ OwesFull s generation := by
  intro s
  have hsafe : Safe s := safe_run recycle events
  refine ⟨fun request hrequest hcoalesced => or_assoc.1 (hsafe.held request hrequest hcoalesced), hsafe.coalesced, ?_⟩
  exact fun generation hmem => ⟨(hsafe.yielded generation hmem).2, hsafe.owed generation hmem⟩

end Coordinator

/-- Between the drain and the admission the request is with the coordinator alone. -/
theorem drained_request_in_hand :
    ¬∀ (events : List (Event String)), ∀ request ∈ (run true events).requests, request.coalescedActive = none →
      Pending (run true events) request.target ∨ (run true events).requiresFullFollowup = true ∨
        Admitted (run true events) request.target request.generation := by
  intro h
  have hrun := h [.call (.forceScan (some "p")), .caller 0, .coordinator .poll, .coordinator .poll]
    ⟨.forceScan (some "p"), 0, none⟩ (List.mem_singleton.2 rfl) rfl
  simp [run, step, callerStep, Call.start, coordinatorStep, State.request, mergeTarget, Pending, Admitted] at hrun

end SeedSync.Scan
