import Mathlib.Data.List.Basic

/-!
# Entries that stand for lines

A list of entries read off a list of lines: each entry is shown by a line of its own, in order, and
no line is passed over that has to have an entry. Which lines have to may depend on those before.
-/

namespace SeedSync.Lib

variable {α β γ : Type}

/-- The entries of `lines` that follow `before`. -/
inductive Covers (must : List α → α → Prop) (entry : α → β → Prop) : List α → List α → List β → Prop where
  | nil {before : List α} : Covers must entry before [] []
  | take {before lines : List α} {x : α} {entries : List β} {y : β} (h : entry x y)
    (rest : Covers must entry (before ++ [x]) lines entries) : Covers must entry before (x :: lines) (y :: entries)
  | leave {before lines : List α} {x : α} {entries : List β} (h : ¬ must before x)
    (rest : Covers must entry (before ++ [x]) lines entries) : Covers must entry before (x :: lines) entries

namespace Covers

variable {must : List α → α → Prop} {entry : α → β → Prop} {before lines more : List α} {entries others : List β}

theorem append (h : Covers must entry before lines entries) (h' : Covers must entry (before ++ lines) more others) :
    Covers must entry before (lines ++ more) (entries ++ others) := by
  induction h with
  | nil => simpa using h'
  | take h rest ih => exact .take h (ih (by simpa using h'))
  | leave h rest ih => exact .leave h (ih (by simpa using h'))

/-- Lines of which none has to have an entry. -/
theorem none_of_forall (h : ∀ front x back, lines = front ++ x :: back → ¬ must (before ++ front) x) :
    Covers must entry before lines [] := by
  induction lines generalizing before with
  | nil => exact .nil
  | cons x lines ih =>
    refine .leave (by simpa using h [] x lines rfl) (ih fun front y back hsplit => ?_)
    simpa using h (x :: front) y back (by rw [hsplit]; rfl)

/-- Entries that carry more than the lines show. -/
theorem of_map {f : γ → β} {entries : List γ} (h : Covers must entry before lines (entries.map f)) :
    Covers must (fun x y => entry x (f y)) before lines entries := by
  generalize hmap : entries.map f = images at h
  induction h generalizing entries with
  | nil =>
    rw [List.map_eq_nil_iff] at hmap
    subst hmap
    exact .nil
  | take h rest ih =>
    cases entries with
    | nil => cases hmap
    | cons y entries =>
      rw [List.map_cons, List.cons.injEq] at hmap
      exact .take (hmap.1 ▸ h) (ih hmap.2)
  | leave h rest ih => exact .leave h (ih hmap)

end Covers

end SeedSync.Lib
