import Mathlib.Data.List.Nodup
import Mathlib.Data.List.Perm.Basic

/-!
# Worker pools

Numbered tasks that wait, run and finish in any order. Whatever the order was, the results put
back into the order of the numbers are those of running one task after the other.
-/

namespace SeedSync.Lib

variable {β ε : Type}

/-- Numbered tasks: not started, running, and finished with their results. -/
structure Tasks (β : Type) where
  waiting : List Nat
  running : List Nat := []
  finished : List (Nat × β) := []

/-- One task after the other: the first failure ends it. -/
def serial (outcome : Nat → Except ε β) (n : Nat) : Except ε (List β) := (List.range n).mapM outcome

namespace Tasks

def start (t : Tasks β) (i : Nat) : Tasks β :=
  { t with waiting := t.waiting.erase i, running := t.running ++ [i] }

def finish (t : Tasks β) (i : Nat) (result : β) : Tasks β :=
  { t with running := t.running.erase i, finished := t.finished ++ [(i, result)] }

/-- A task that failed leaves no result. -/
def fail (t : Tasks β) (i : Nat) : Tasks β := { t with running := t.running.erase i }

/-- The results in the order of the numbers; `none` if one is missing. -/
def results (t : Tasks β) (n : Nat) : Option (List β) := (List.range n).mapM (fun i => t.finished.lookup i)

/-- The numbers of the tasks, wherever they are. -/
def all (t : Tasks β) : List Nat := t.waiting ++ t.running ++ t.finished.map Prod.fst

/-- Every task is in one place, and every result is that of its task. -/
structure Sound (outcome : Nat → Except ε β) (n : Nat) (t : Tasks β) : Prop where
  each : t.all.Perm (List.range n)
  correct : ∀ r ∈ t.finished, outcome r.1 = .ok r.2

variable {outcome : Nat → Except ε β} {n : Nat} {t : Tasks β} {i : Nat}

theorem all_start (hi : i ∈ t.waiting) : (t.start i).all.Perm t.all := by
  have hwaiting : t.waiting.Perm (i :: t.waiting.erase i) := List.perm_cons_erase hi
  refine List.Perm.append_right _ (List.Perm.trans ?_ (hwaiting.symm.append_right t.running))
  show (t.waiting.erase i ++ (t.running ++ [i])).Perm (i :: (t.waiting.erase i ++ t.running))
  rw [← List.append_assoc]
  exact List.perm_append_singleton i _

theorem all_finish {result : β} (hi : i ∈ t.running) : (t.finish i result).all.Perm t.all := by
  have hrunning : t.running.Perm (i :: t.running.erase i) := List.perm_cons_erase hi
  show (t.waiting ++ t.running.erase i ++ (t.finished ++ [(i, result)]).map Prod.fst).Perm
    (t.waiting ++ t.running ++ t.finished.map Prod.fst)
  rw [List.map_append, List.append_assoc, List.append_assoc]
  refine List.Perm.append_left _ (List.Perm.trans ?_ (hrunning.symm.append_right _))
  rw [← List.append_assoc]
  exact List.perm_append_singleton i _

theorem all_fail : (t.fail i).all.Sublist t.all :=
  ((List.Sublist.refl t.waiting).append List.erase_sublist).append_right _

theorem Sound.start (h : Sound outcome n t) (hi : i ∈ t.waiting) : Sound outcome n (t.start i) :=
  ⟨(all_start hi).trans h.each, h.correct⟩

theorem Sound.finish {result : β} (h : Sound outcome n t) (hi : i ∈ t.running) (ho : outcome i = .ok result) :
    Sound outcome n (t.finish i result) := by
  refine ⟨(all_finish hi).trans h.each, fun r hr => ?_⟩
  rcases List.mem_append.mp hr with hr | hr
  · exact h.correct r hr
  · rw [List.mem_singleton.mp hr]
    exact ho

theorem Sound.lt (h : Sound outcome n t) (hi : i ∈ t.waiting ∨ i ∈ t.running) : i < n := by
  rw [← List.mem_range, ← h.each.mem_iff, all, List.mem_append, List.mem_append]
  exact Or.inl hi

theorem lookup_of_mem {finished : List (Nat × β)} (h : (finished.map Prod.fst).Nodup) {r : Nat × β} (hr : r ∈ finished) :
    finished.lookup r.1 = some r.2 := by
  induction finished with
  | nil => cases hr
  | cons first rest ih =>
    rw [List.map_cons, List.nodup_cons] at h
    rcases List.mem_cons.mp hr with rfl | hr
    · rw [List.lookup_cons, beq_self_eq_true]
    · have hne : (r.1 == first.1) = false :=
        beq_false_of_ne (fun heq => h.1 (heq ▸ List.mem_map_of_mem hr))
      rw [List.lookup_cons, hne]
      exact ih h.2 hr

/-- Once nothing waits and nothing runs, the results are those of the serial run. -/
theorem Sound.done (h : Sound outcome n t) (hwaiting : t.waiting = []) (hrunning : t.running = []) :
    ∃ results, t.results n = some results ∧ serial outcome n = .ok results := by
  have hperm : (t.finished.map Prod.fst).Perm (List.range n) := by
    simpa [all, hwaiting, hrunning] using h.each
  have hnodup : (t.finished.map Prod.fst).Nodup := hperm.nodup_iff.mpr List.nodup_range
  have heach : ∀ i ∈ List.range n, ∃ b, t.finished.lookup i = some b ∧ outcome i = .ok b := by
    intro i hi
    obtain ⟨r, hr, rfl⟩ := List.mem_map.mp (hperm.mem_iff.mpr hi)
    exact ⟨r.2, lookup_of_mem hnodup hr, h.correct r hr⟩
  unfold results serial
  revert heach
  generalize List.range n = indices
  intro heach
  induction indices with
  | nil => exact ⟨[], rfl, rfl⟩
  | cons i indices ih =>
    obtain ⟨b, hb, ho⟩ := heach i List.mem_cons_self
    obtain ⟨bs, hbs, hos⟩ := ih (fun j hj => heach j (List.mem_cons_of_mem _ hj))
    exact ⟨b :: bs, by rw [List.mapM_cons, hb, hbs]; rfl, by rw [List.mapM_cons, ho, hos]; rfl⟩

end Tasks

/-- A task that fails makes the serial run fail. -/
theorem serial_error {outcome : Nat → Except ε β} {n i : Nat} {error : ε} (hi : i < n) (ho : outcome i = .error error) :
    ∃ error', serial outcome n = .error error' := by
  have hmem := List.mem_range.mpr hi
  unfold serial
  revert hmem
  generalize List.range n = indices
  intro hmem
  induction indices with
  | nil => cases hmem
  | cons j indices ih =>
    rw [List.mapM_cons]
    cases hj : outcome j with
    | error e => exact ⟨e, rfl⟩
    | ok b =>
      rcases List.mem_cons.mp hmem with rfl | hmem
      · rw [hj] at ho
        cases ho
      · obtain ⟨e, he⟩ := ih hmem
        exact ⟨e, by rw [he]; rfl⟩

end SeedSync.Lib
