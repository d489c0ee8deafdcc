import Mathlib.Data.List.Basic

/-!
# Folds as runs

A fold over a list of inputs is a run of a machine. These are the rules by which a fact
about one step becomes a fact about a whole run.
-/

namespace SeedSync.Lib

variable {σ τ ι : Type}

/-- What every step keeps, the run keeps. -/
theorem foldl_invariant {f : σ → ι → σ} (P : σ → Prop) (l : List ι) (s : σ)
    (step : ∀ s, ∀ i ∈ l, P s → P (f s i)) (init : P s) : P (l.foldl f s) := by
  induction l generalizing s with
  | nil => exact init
  | cons i l ih =>
    rw [List.foldl_cons]
    exact ih _ (fun s j hj => step s j (List.mem_cons_of_mem _ hj)) (step s i List.mem_cons_self init)

/-- A relation that every step refines, seen from the start of the run. -/
theorem foldl_relation {f : σ → ι → σ} (R : σ → σ → Prop) (refl : ∀ s, R s s)
    (trans : ∀ a b c, R a b → R b c → R a c) (l : List ι) (s : σ)
    (step : ∀ s, ∀ i ∈ l, R s (f s i)) : R s (l.foldl f s) :=
  foldl_invariant (R s) l s (fun t i hi ht => trans _ _ _ ht (step t i hi)) (refl s)

/-- Two machines that agree under a view agree on it after every run. -/
theorem foldl_view {f : σ → ι → σ} {g : τ → ι → τ} (view : σ → τ) (l : List ι) (s : σ)
    (step : ∀ s, ∀ i ∈ l, view (f s i) = g (view s) i) : view (l.foldl f s) = l.foldl g (view s) := by
  induction l generalizing s with
  | nil => rfl
  | cons i l ih =>
    rw [List.foldl_cons, List.foldl_cons, ih _ (fun s j hj => step s j (List.mem_cons_of_mem _ hj)),
      step s i List.mem_cons_self]

/-- A fact that holds at the start and not at the end is lost at some step. -/
theorem foldl_lost {f : σ → ι → σ} (P : σ → Prop) (l : List ι) (s : σ) (init : P s)
    (lost : ¬ P (l.foldl f s)) :
    ∃ before i after, l = before ++ i :: after ∧ P (before.foldl f s) ∧ ¬ P (f (before.foldl f s) i) := by
  induction l generalizing s with
  | nil => exact absurd init lost
  | cons i l ih =>
    by_cases h : P (f s i)
    · obtain ⟨before, j, after, rfl, hb, hj⟩ := ih (f s i) h lost
      exact ⟨i :: before, j, after, rfl, hb, hj⟩
    · exact ⟨[], i, l, rfl, init, h⟩

end SeedSync.Lib
