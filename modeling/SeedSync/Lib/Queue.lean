import Mathlib.Data.List.Basic

/-!
# Bounded queues

A first-in first-out queue with a capacity and calls that never block: a full queue refuses an
item, an empty one has none to give.
-/

namespace SeedSync

/-- A `Queue(maxsize)` with a positive `maxsize`, oldest item first. -/
structure BoundedQueue (α : Type*) where
  maxsize : Nat
  items : List α
  positive : 0 < maxsize
  bounded : items.length ≤ maxsize

namespace BoundedQueue

variable {α : Type*}

/-- `put_nowait`: `none` is `queue.Full`. -/
def putNowait (q : BoundedQueue α) (item : α) : Option (BoundedQueue α) :=
  if h : q.items.length < q.maxsize then
    some { q with items := q.items ++ [item], bounded := by rw [List.length_append, List.length_singleton]; exact h }
  else none

/-- `get_nowait`: `none` is `queue.Empty`. -/
def getNowait (q : BoundedQueue α) : Option (α × BoundedQueue α) :=
  match h : q.items with
  | [] => none
  | item :: rest =>
    some (item, { q with
      items := rest
      bounded := by have := q.bounded; rw [h] at this; exact Nat.le_of_succ_le this })

theorem putNowait_room {q : BoundedQueue α} (item : α) (h : q.items.length < q.maxsize) :
    ∃ next, q.putNowait item = some next ∧ next.maxsize = q.maxsize ∧ next.items = q.items ++ [item] := by
  refine ⟨_, dif_pos h, rfl, rfl⟩

theorem putNowait_full {q : BoundedQueue α} {item : α} (h : ¬ q.items.length < q.maxsize) :
    q.putNowait item = none :=
  dif_neg h

theorem getNowait_items {q next : BoundedQueue α} {item : α} (h : q.getNowait = some (item, next)) :
    q.items = item :: next.items ∧ next.maxsize = q.maxsize := by
  unfold getNowait at h
  split at h
  · simp at h
  · obtain ⟨rfl, rfl⟩ := Prod.mk.inj (Option.some.inj h)
    exact ⟨by assumption, rfl⟩

theorem getNowait_empty {q : BoundedQueue α} (h : q.getNowait = none) : q.items = [] := by
  unfold getNowait at h
  split at h
  · assumption
  · simp at h

/-- Take items until the queue is empty. -/
def drain (q : BoundedQueue α) : List α × BoundedQueue α :=
  match _h : q.getNowait with
  | none => ([], q)
  | some (item, rest) => (item :: rest.drain.1, rest.drain.2)
termination_by q.items.length
decreasing_by all_goals (rw [(getNowait_items _h).1]; simp)

/-- Put the items back in order. The flag is false once one was refused; the rest is then lost. -/
def putAll (q : BoundedQueue α) : List α → BoundedQueue α × Bool
  | [] => (q, true)
  | item :: rest =>
    match q.putNowait item with
    | none => (q, false)
    | some next => next.putAll rest

theorem drain_spec (q : BoundedQueue α) :
    q.drain.1 = q.items ∧ q.drain.2.items = [] ∧ q.drain.2.maxsize = q.maxsize := by
  fun_induction drain q with
  | case1 q h => exact ⟨(getNowait_empty h).symm, getNowait_empty h, rfl⟩
  | case2 q item rest h ih =>
    obtain ⟨hitems, hsize⟩ := getNowait_items h
    obtain ⟨hall, hempty, hmax⟩ := ih
    exact ⟨by rw [hitems, hall], hempty, hmax.trans hsize⟩

theorem putAll_fits (q : BoundedQueue α) (items : List α) (h : q.items.length + items.length ≤ q.maxsize) :
    (q.putAll items).2 = true ∧ (q.putAll items).1.items = q.items ++ items ∧
      (q.putAll items).1.maxsize = q.maxsize := by
  induction items generalizing q with
  | nil => simp [putAll]
  | cons item rest ih =>
    simp only [List.length_cons] at h
    obtain ⟨next, hput, hsize, hitems⟩ := putNowait_room item (show q.items.length < q.maxsize by omega)
    have hnext := ih next (by rw [hitems, hsize]; simp; omega)
    simp only [putAll, hput]
    refine ⟨hnext.1, ?_, hnext.2.2.trans hsize⟩
    rw [hnext.2.1, hitems, List.append_assoc, List.singleton_append]

end BoundedQueue

end SeedSync
