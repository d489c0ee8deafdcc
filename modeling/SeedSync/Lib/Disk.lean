import Mathlib.Logic.Function.Basic
import SeedSync.Lib.Stateful

/-!
# Programs whose steps may fail

A program does steps on a world, each on one of several targets. How every step ends is fixed by a
list for its target: a step may raise, with or without its effect, and the process may die in it. A
death passes every handler.
-/

namespace SeedSync.Lib

inductive Outcome where
  | done
  /-- It raises and changes nothing. -/
  | fails
  /-- It takes effect and raises all the same. -/
  | late
  /-- The process dies; of a step that is no single replacement some part is done. -/
  | dies (part : Nat)
  deriving DecidableEq, Repr

inductive Stop (ε : Type) where
  | raised (error : ε)
  | died
  deriving DecidableEq, Repr

def Stop.map {ε ε' : Type} (f : ε → ε') : Stop ε → Stop ε'
  | .raised error => .raised (f error)
  | .died => .died

/-- A world and how the steps to come will end; past the end of a list they are all done. -/
structure Machine (τ σ : Type) where
  world : σ
  outcomes : τ → List Outcome

abbrev Program (τ σ ε α : Type) := ExceptT (Stop ε) (StateM (Machine τ σ)) α

variable {τ σ ε α β : Type}

namespace Machine

variable [DecidableEq τ]

/-- How the next step on the target ends. -/
def next (m : Machine τ σ) (target : τ) : Outcome := (m.outcomes target).headD .done

/-- Past that step. -/
def advance (m : Machine τ σ) (target : τ) : Machine τ σ :=
  { m with outcomes := Function.update m.outcomes target (m.outcomes target).tail }

@[simp] theorem advance_world (m : Machine τ σ) (target : τ) : (m.advance target).world = m.world := rfl

theorem advance_of_nil {m : Machine τ σ} {target : τ} (h : m.outcomes target = []) : m.advance target = m := by
  unfold advance
  rw [h, List.tail_nil, ← h, Function.update_eq_self]

theorem advance_outcomes_of_nil {m : Machine τ σ} {target other : τ} (h : m.outcomes other = []) :
    (m.advance target).outcomes other = [] := by
  unfold advance
  by_cases heq : other = target
  · subst heq
    simp [h]
  · simp [heq, h]

theorem advance_outcomes_ne {m : Machine τ σ} {target other : τ} (h : other ≠ target) :
    (m.advance target).outcomes other = m.outcomes other := by
  simp [advance, h]

/-- Every step to come is done. -/
def Calm (m : Machine τ σ) : Prop := ∀ target, m.outcomes target = []

theorem Calm.next {m : Machine τ σ} (h : m.Calm) (target : τ) : m.next target = .done := by
  simp [Machine.next, h target]

theorem Calm.advance {m : Machine τ σ} (h : m.Calm) (target : τ) : (m.advance target).Calm := by
  rw [advance_of_nil (h target)]
  exact h

end Machine

namespace Program

/-- The world as it is. -/
def read (f : σ → α) : Program τ σ ε α := do return f (← get).world

/-- A change that cannot fail. -/
def update (f : σ → σ) : Program τ σ ε Unit := modify fun m => { m with world := f m.world }

def raise (error : ε) : Program τ σ ε α := throw (.raised error)

theorem run_read_bind (f : σ → α) (g : α → Program τ σ ε β) (m : Machine τ σ) :
    (read f >>= g).run.run m = (g (f m.world)).run.run m := rfl

theorem run_update_bind (f : σ → σ) (g : Unit → Program τ σ ε β) (m : Machine τ σ) :
    (update f >>= g).run.run m = (g ()).run.run { m with world := f m.world } := rfl

/-- `except`: a death is not caught. -/
def rescue (m : Program τ σ ε α) (handler : ε → Program τ σ ε α) : Program τ σ ε α :=
  fun s => match m.run.run s with
    | (.error (.raised error), s') => (handler error).run.run s'
    | r => r

theorem run_rescue (m : Program τ σ ε α) (handler : ε → Program τ σ ε α) (s : Machine τ σ) :
    (rescue m handler).run.run s = match m.run.run s with
      | (.error (.raised error), s') => (handler error).run.run s'
      | r => r := rfl

/-- `try`: what is raised becomes the result. -/
def attempt (m : Program τ σ ε α) : Program τ σ ε (Except ε α) :=
  rescue (do return .ok (← m)) fun error => return .error error

/-- `finally`: not for a process that died. -/
def ensure (m : Program τ σ ε α) (cleanup : Program τ σ ε Unit) : Program τ σ ε α := do
  let result ← attempt m
  cleanup
  match result with
  | .ok a => return a
  | .error error => raise error

def ofExcept (result : Except ε α) : Program τ σ ε α :=
  match result with
  | .ok a => return a
  | .error error => raise error

/-- A program of a part of the world, whose targets are some of those of the world. -/
def within {τ' σ' ε' : Type} (view : σ → σ') (put : σ' → σ → σ) (into : τ' → τ) (back : τ → Option τ') (wrap : ε' → ε)
    (m : Program τ' σ' ε' α) : Program τ σ ε α := fun s =>
  match m.run.run ⟨view s.world, fun target => s.outcomes (into target)⟩ with
  | (result, s') =>
    (result.mapError (Stop.map wrap),
      { world := put s'.world s.world
        outcomes := fun target => match back target with
          | some t => s'.outcomes t
          | none => s.outcomes target })

theorem run_within {τ' σ' ε' : Type} (view : σ → σ') (put : σ' → σ → σ) (into : τ' → τ) (back : τ → Option τ')
    (wrap : ε' → ε) (m : Program τ' σ' ε' α) (s : Machine τ σ) :
    (within view put into back wrap m).run.run s =
      match m.run.run ⟨view s.world, fun target => s.outcomes (into target)⟩ with
      | (result, s') =>
        (result.mapError (Stop.map wrap),
          { world := put s'.world s.world
            outcomes := fun target => match back target with
              | some t => s'.outcomes t
              | none => s.outcomes target }) := rfl

section Act

variable [DecidableEq τ]

def finish (outcome : Outcome) (error : ε) (run : σ → σ) (part : Nat → σ → σ) : Program τ σ ε Unit :=
  match outcome with
  | .done => update run
  | .fails => raise error
  | .late => update run >>= fun _ => raise error
  | .dies n => update (part n) >>= fun _ => throw .died

/-- One step on a target: what it does, and what is done of it when the process dies in it. -/
def act (target : τ) (error : ε) (run : σ → σ) (part : Nat → σ → σ) : Program τ σ ε Unit := do
  let m ← get
  set (m.advance target)
  finish (m.next target) error run part

/-- A replacement that is done at once or not at all. -/
def replace (target : τ) (error : ε) (run : σ → σ) : Program τ σ ε Unit := act target error run fun _ s => s

theorem run_act (target : τ) (error : ε) (run : σ → σ) (part : Nat → σ → σ) (m : Machine τ σ) :
    (act target error run part).run.run m = (finish (m.next target) error run part).run.run (m.advance target) := rfl

/-- A step with no failure before it is done. -/
theorem run_act_of_nil {m : Machine τ σ} {target : τ} (h : m.outcomes target = []) (error : ε) (run : σ → σ)
    (part : Nat → σ → σ) : (act target error run part).run.run m = (.ok (), { m with world := run m.world }) := by
  have hdone : m.next target = .done := by simp [Machine.next, h]
  rw [run_act, hdone, Machine.advance_of_nil h]
  rfl

end Act

end Program

/-! ## Rules -/

namespace Triple

variable {P E : Machine τ σ → Prop} {Q : α → Machine τ σ → Prop}

theorem read {f : σ → α} (h : ∀ m, P m → Q (f m.world) m) : Triple P (Program.read f : Program τ σ ε α) Q E :=
  fun m hm => h m hm

theorem update {f : σ → σ} {R : Unit → Machine τ σ → Prop} (h : ∀ m, P m → R () { m with world := f m.world }) :
    Triple P (Program.update f : Program τ σ ε Unit) R E :=
  fun m hm => h m hm

theorem raise {error : ε} (h : ∀ m, P m → E m) : Triple P (Program.raise error : Program τ σ ε α) Q E :=
  fun m hm => h m hm

/-- What holds when the body raises is what the handler starts from; a death ends the program. -/
theorem rescue {m : Program τ σ ε α} {handler : ε → Program τ σ ε α} {F : Machine τ σ → Prop}
    (hm : Triple P m Q F) (hhandler : ∀ error, Triple F (handler error) Q E) (hdied : ∀ s, F s → E s) :
    Triple P (Program.rescue m handler) Q E := by
  intro s hs
  have hrun := hm s hs
  rw [Program.run_rescue]
  generalize m.run.run s = r at hrun ⊢
  obtain ⟨(error | _) | a, s'⟩ := r
  · exact hhandler error s' hrun
  · exact hdied s' hrun
  · exact hrun

theorem attempt {m : Program τ σ ε α} {F : Machine τ σ → Prop} (hm : Triple P m Q F) :
    Triple P (Program.attempt m) (fun result s => match result with
      | .ok a => Q a s
      | .error _ => F s) F :=
  rescue (F := F) (bind hm fun _ => pure fun _ h => h) (fun _ => pure fun _ h => h) fun _ h => h

/-- What is kept before the cleanup and after it. -/
theorem ensure {m : Program τ σ ε α} {cleanup : Program τ σ ε Unit} {F : Machine τ σ → Prop} (hm : Triple P m Q F)
    (hdone : ∀ a, Triple (Q a) cleanup (fun _ => Q a) E) (hraised : Triple F cleanup (fun _ => E) E)
    (hdied : ∀ s, F s → E s) : Triple P (Program.ensure m cleanup) Q E := by
  refine bind (conseq (attempt hm) (fun _ h => h) (fun _ _ h => h) hdied) fun result => ?_
  cases result with
  | ok a => exact bind (hdone a) fun _ => pure fun _ h => h
  | error error => exact bind hraised fun _ => fun _ h => h

theorem ofExcept {result : Except ε α} (hok : ∀ a, result = .ok a → ∀ m, P m → Q a m)
    (herror : ∀ error, result = .error error → ∀ m, P m → E m) :
    Triple P (Program.ofExcept result : Program τ σ ε α) Q E := by
  cases result with
  | ok a => exact pure (hok a rfl)
  | error error => exact raise (herror error rfl)

/-- Whatever the part becomes. -/
theorem within_any {τ' σ' ε' : Type} {view : σ → σ'} {put : σ' → σ → σ} {into : τ' → τ} {back : τ → Option τ'}
    {wrap : ε' → ε} {m : Program τ' σ' ε' α} {Q : Machine τ σ → Prop}
    (h : ∀ s part outcomes, P s → Q { world := put part s.world, outcomes := outcomes }) :
    Triple P (Program.within view put into back wrap m) (fun _ => Q) Q := by
  intro s hs
  rw [Program.run_within]
  generalize m.run.run ⟨view s.world, fun target => s.outcomes (into target)⟩ = r
  obtain ⟨r | a, s'⟩ := r
  · exact h s _ _ hs
  · exact h s _ _ hs

variable [DecidableEq τ]

/-- A step, by how it may end. -/
theorem act {target : τ} {error : ε} {run : σ → σ} {part : Nat → σ → σ} {R : Unit → Machine τ σ → Prop}
    (hdone : ∀ m, P m → R () { m.advance target with world := run m.world })
    (hfails : ∀ m, P m → m.next target = .fails → E (m.advance target))
    (hlate : ∀ m, P m → m.next target = .late → E { m.advance target with world := run m.world })
    (hdies : ∀ m n, P m → m.next target = .dies n → E { m.advance target with world := part n m.world }) :
    Triple P (Program.act target error run part) R E := by
  intro m hm
  rw [Program.run_act]
  cases ho : m.next target with
  | done => exact hdone m hm
  | fails => exact hfails m hm ho
  | late => exact hlate m hm ho
  | dies n => exact hdies m n hm ho

end Triple

namespace Triple

variable {P E : Machine τ σ → Prop} {R : β → Machine τ σ → Prop}

/-- What is read is that of the state that goes on. -/
theorem read_bind {f : σ → α} {g : α → Program τ σ ε β}
    (h : ∀ m, P m → Triple (fun m' => m' = m) (g (f m.world)) R E) : Triple P (Program.read f >>= g) R E := by
  intro m hm
  rw [Program.run_read_bind]
  exact h m hm m rfl

theorem update_bind {f : σ → σ} {g : Unit → Program τ σ ε β} {Q : Machine τ σ → Prop}
    (h : ∀ m, P m → Q { m with world := f m.world }) (hg : Triple Q (g ()) R E) :
    Triple P (Program.update f >>= g) R E := by
  intro m hm
  rw [Program.run_update_bind]
  exact hg _ (h m hm)

theorem raise_bind {error : ε} {g : α → Program τ σ ε β} (h : ∀ m, P m → E m) :
    Triple P (Program.raise error >>= g) R E :=
  fun m hm => h m hm

/-- A check that raises. -/
theorem check {c : Prop} [Decidable c] {error : ε} {g : α → Program τ σ ε β} {rest : Program τ σ ε β}
    (herror : ∀ m, P m → E m) (hrest : ¬ c → Triple P rest R E) :
    Triple P (if c then Program.raise error >>= g else rest) R E := by
  split_ifs with hc
  · exact raise_bind herror
  · exact hrest hc

/-- A precondition that holds of the one state at hand. -/
theorem of_eq {m : Machine τ σ} {program : Program τ σ ε β} (hm : P m) (h : Triple P program R E) :
    Triple (fun m' => m' = m) program R E := by
  rintro m' rfl
  exact h m' hm

end Triple

/-- No step to come lets the process die. -/
def Machine.Lives (m : Machine τ σ) : Prop := ∀ target, ∀ outcome ∈ m.outcomes target, ∀ part, outcome ≠ .dies part

/-- The world meets `I`, and the process will not die. -/
def Living (I : σ → Prop) (m : Machine τ σ) : Prop := I m.world ∧ m.Lives

namespace Living

variable {I : σ → Prop}

theorem advance [DecidableEq τ] {m : Machine τ σ} (h : m.Lives) (target : τ) : (m.advance target).Lives := by
  intro other outcome hmem
  unfold Machine.advance at hmem
  dsimp only at hmem
  by_cases heq : other = target
  · subst heq
    rw [Function.update_self] at hmem
    exact h other outcome (List.mem_of_mem_tail hmem)
  · rw [Function.update_of_ne heq] at hmem
    exact h other outcome hmem

theorem act [DecidableEq τ] {target : τ} {error : ε} {run : σ → σ} {part : Nat → σ → σ} {J : σ → Prop}
    (hrun : ∀ s, I s → J (run s)) (hfail : ∀ s, I s → J s) :
    Triple (Living I) (Program.act target error run part) (fun _ => Living J) (Living J) := by
  refine Triple.act ?_ ?_ ?_ ?_
  · exact fun m hm => ⟨hrun _ hm.1, advance hm.2 target⟩
  · exact fun m hm _ => ⟨hfail _ hm.1, advance hm.2 target⟩
  · exact fun m hm _ => ⟨hrun _ hm.1, advance hm.2 target⟩
  · intro m n hm hdies
    have hmem : Outcome.dies n ∈ m.outcomes target := by
      unfold Machine.next at hdies
      cases houtcomes : m.outcomes target with
      | nil => simp [houtcomes] at hdies
      | cons outcome rest =>
        rw [houtcomes, List.headD_cons] at hdies
        rw [hdies]
        exact List.mem_cons_self
    exact absurd rfl (hm.2 target _ hmem n)

end Living

/-- The world of a machine. -/
def On (I : σ → Prop) (m : Machine τ σ) : Prop := I m.world

namespace Spec

variable {I : σ → Prop} {Q : α → Prop}

theorem update {f : σ → σ} (h : ∀ s, I s → I (f s)) :
    Spec (On I) (Program.update f : Program τ σ ε Unit) (fun _ => True) :=
  fun m hm => ⟨h m.world hm, fun _ _ => True.intro⟩

theorem raise {error : ε} : Spec (On I) (Program.raise error : Program τ σ ε α) Q := throw

theorem rescue {m : Program τ σ ε α} {handler : ε → Program τ σ ε α} (hm : Spec (On I) m Q)
    (hhandler : ∀ error, Spec (On I) (handler error) Q) : Spec (On I) (Program.rescue m handler) Q := by
  have hbody : Triple (On I) m (fun a s => On I s ∧ Q a) (On I) := Triple.of_spec hm
  exact Triple.spec (Triple.rescue hbody (fun error => Triple.of_spec (hhandler error)) fun _ h => h)

variable [DecidableEq τ]

/-- A step keeps what its effect and every part of it keep. -/
theorem act {target : τ} {error : ε} {run : σ → σ} {part : Nat → σ → σ} (hrun : ∀ s, I s → I (run s))
    (hpart : ∀ n s, I s → I (part n s)) :
    Spec (On I) (Program.act target error run part) (fun _ => True) := by
  refine Triple.spec (Triple.act ?_ ?_ ?_ ?_)
  · exact fun m hm => ⟨hrun m.world hm, True.intro⟩
  · exact fun m hm _ => hm
  · exact fun m hm _ => hrun m.world hm
  · exact fun m n hm _ => hpart n m.world hm

theorem replace {target : τ} {error : ε} {run : σ → σ} (hrun : ∀ s, I s → I (run s)) :
    Spec (On I) (Program.replace target error run) (fun _ => True) :=
  act hrun fun _ _ h => h

end Spec

end SeedSync.Lib
