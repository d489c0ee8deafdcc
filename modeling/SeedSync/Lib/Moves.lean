import Mathlib.Data.List.Count

/-!
# Machines with guarded moves

Several parties take turns on one state. A move that is not enabled is `none`, so a run is a list
of moves that were all enabled: one interleaving. These rules take one move to a whole run.
-/

namespace SeedSync.Lib

variable {σ ι : Type}

/-- The state after the moves, if each was enabled in its turn. -/
def runMoves (move : σ → ι → Option σ) : σ → List ι → Option σ
  | s, [] => some s
  | s, i :: l => (move s i).bind (fun t => runMoves move t l)

variable {move : σ → ι → Option σ}

theorem runMoves_cons {s t : σ} {i : ι} {l : List ι} (h : runMoves move s (i :: l) = some t) :
    ∃ mid, move s i = some mid ∧ runMoves move mid l = some t := by
  rw [runMoves] at h
  exact Option.bind_eq_some_iff.mp h

theorem runMoves_append {s t : σ} {l l' : List ι} (h : runMoves move s (l ++ l') = some t) :
    ∃ mid, runMoves move s l = some mid ∧ runMoves move mid l' = some t := by
  induction l generalizing s with
  | nil => exact ⟨s, rfl, h⟩
  | cons i l ih =>
    obtain ⟨next, hmove, hrest⟩ := runMoves_cons h
    obtain ⟨mid, hl, hl'⟩ := ih hrest
    exact ⟨mid, by rw [runMoves, hmove]; exact hl, hl'⟩

/-- What every enabled move keeps, the run keeps. -/
theorem runMoves_invariant (P : σ → Prop) {s t : σ} {l : List ι} (h : runMoves move s l = some t)
    (step : ∀ s t i, i ∈ l → P s → move s i = some t → P t) (init : P s) : P t := by
  induction l generalizing s with
  | nil => cases h; exact init
  | cons i l ih =>
    obtain ⟨mid, hmove, hrest⟩ := runMoves_cons h
    exact ih hrest (fun s t j hj => step s t j (List.mem_cons_of_mem _ hj))
      (step s mid i List.mem_cons_self init hmove)

/-- Moves that use up a budget which the other moves do not refill are no more than the budget. -/
theorem runMoves_budget (P : σ → Prop) (budget : σ → Nat) (q : ι → Bool) {s t : σ} {l : List ι}
    (h : runMoves move s l = some t)
    (step : ∀ s t i, i ∈ l → P s → move s i = some t →
      P t ∧ budget t + (if q i then 1 else 0) ≤ budget s) (init : P s) :
    budget t + l.countP q ≤ budget s := by
  induction l generalizing s with
  | nil => cases h; simp
  | cons i l ih =>
    obtain ⟨mid, hmove, hrest⟩ := runMoves_cons h
    obtain ⟨hP, hspent⟩ := step s mid i List.mem_cons_self init hmove
    have := ih hrest (fun s t j hj => step s t j (List.mem_cons_of_mem _ hj)) hP
    rw [List.countP_cons]
    omega

end SeedSync.Lib
