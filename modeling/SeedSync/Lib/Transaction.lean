import Mathlib.Data.List.Basic

/-!
# Edits that are taken back

A transaction makes edits of one state one after the other. When an edit fails, what those before it did
stays, until other edits take it back.
-/

namespace SeedSync.Lib

variable {σ ε : Type}

/-- The state after the edits up to the first that fails, with its failure. -/
def attempt (s : σ) : List (σ → Except ε σ) → σ × Option ε
  | [] => (s, none)
  | edit :: edits =>
    match edit s with
    | .ok t => attempt t edits
    | .error e => (s, some e)

inductive Ended (ε : Type) where
  | committed
  | undone (failure : ε)
  /-- Taking the edits back failed. -/
  | raised (failure : ε)
  deriving DecidableEq, Repr

/-- Edits, and those that take them back when one fails. -/
def transact (s : σ) (edits undo : List (σ → Except ε σ)) : σ × Ended ε :=
  match attempt s edits with
  | (t, none) => (t, .committed)
  | (t, some e) =>
    match attempt t undo with
    | (u, none) => (u, .undone e)
    | (u, some failure) => (u, .raised failure)

variable {s t u : σ} {edit : σ → Except ε σ} {edits undo : List (σ → Except ε σ)} {P R : σ → Prop}

theorem attempt_ok (h : edit s = .ok t) : attempt s (edit :: edits) = attempt t edits := by rw [attempt, h]

theorem attempt_error {e : ε} (h : edit s = .error e) : attempt s (edit :: edits) = (s, some e) := by rw [attempt, h]

/-- What the edits keep holds at the end, whether one of them failed or not. -/
theorem attempt_inv (h : ∀ edit ∈ edits, ∀ s t, P s → edit s = .ok t → P t) (hs : P s) : P (attempt s edits).1 := by
  induction edits generalizing s with
  | nil => exact hs
  | cons edit edits ih =>
    cases hedit : edit s with
    | ok t =>
      rw [attempt_ok hedit]
      exact ih (fun other hmem => h other (List.mem_cons_of_mem _ hmem)) (h edit List.mem_cons_self s t hs hedit)
    | error e =>
      rw [attempt_error hedit]
      exact hs

theorem attempt_append (s : σ) (edits more : List (σ → Except ε σ)) :
    attempt s (edits ++ more) =
      match attempt s edits with
      | (t, none) => attempt t more
      | (t, some e) => (t, some e) := by
  induction edits generalizing s with
  | nil => rfl
  | cons edit edits ih =>
    cases hedit : edit s with
    | ok t => rw [List.cons_append, attempt_ok hedit, attempt_ok hedit, ih]
    | error e => rw [List.cons_append, attempt_error hedit, attempt_error hedit]

/-- Edits that keep what taking back needs, and a last one that ends the transaction: it is made as a
whole, or taken back. -/
theorem transact_last {last : σ → Except ε σ} (hs : P s) (hedits : ∀ edit ∈ edits, ∀ s t, P s → edit s = .ok t → P t)
    (hundo : ∀ t, P t → ∃ u, attempt t undo = (u, none) ∧ R u) :
    (∃ t u, P t ∧ attempt s edits = (t, none) ∧ last t = .ok u ∧ transact s (edits ++ [last]) undo = (u, .committed)) ∨
      ∃ u e, R u ∧ transact s (edits ++ [last]) undo = (u, .undone e) := by
  have hinv := attempt_inv hedits hs
  have hback : ∀ t e, P t → attempt s (edits ++ [last]) = (t, some e) →
      ∃ u e, R u ∧ transact s (edits ++ [last]) undo = (u, .undone e) := by
    intro t e ht hattempt
    obtain ⟨u, hu, hR⟩ := hundo t ht
    exact ⟨u, e, hR, by rw [transact, hattempt]; dsimp only; rw [hu]⟩
  rcases hattempt : attempt s edits with ⟨t, failure⟩
  rw [hattempt] at hinv
  have happend := attempt_append s edits [last]
  rw [hattempt] at happend
  cases failure with
  | some e => exact Or.inr (hback t e hinv happend)
  | none =>
    cases hlast : last t with
    | ok u =>
      have happend := happend.trans (attempt_ok hlast)
      exact Or.inl ⟨t, u, hinv, rfl, hlast, by rw [transact, happend]; rfl⟩
    | error e => exact Or.inr (hback t e hinv (happend.trans (attempt_error hlast)))

end SeedSync.Lib
