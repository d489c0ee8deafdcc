import Mathlib.Data.List.Perm.Basic
import Mathlib.Data.List.Forall2
import Mathlib.Data.List.ReduceOption

/-!
# Collecting results

A function that may raise, on every item of a list: all its results, in whatever order the items
come, or none.
-/

namespace SeedSync.Lib

variable {α β ε : Type}

theorem mapM_eq_ok_iff {f : α → Except ε β} {items : List α} {results : List β} :
    items.mapM f = .ok results ↔ List.Forall₂ (fun item result => f item = .ok result) items results := by
  induction items generalizing results with
  | nil =>
    rw [List.mapM_nil, List.forall₂_nil_left_iff]
    constructor
    · rintro ⟨⟩
      rfl
    · rintro rfl
      rfl
  | cons item items ih =>
    rw [List.mapM_cons, List.forall₂_cons_left_iff]
    rcases hitem : f item with e | result
    · constructor
      · rintro ⟨⟩
      · rintro ⟨result, _, ⟨⟩, _⟩
    · rcases hrest : items.mapM f with e | rest
      · constructor
        · rintro ⟨⟩
        · rintro ⟨_, rest, _, hall, _⟩
          cases hrest.symm.trans (ih.mpr hall)
      · constructor
        · rintro ⟨⟩
          exact ⟨result, rest, rfl, ih.mp hrest, rfl⟩
        · rintro ⟨_, rest', ⟨⟩, hall, rfl⟩
          cases hrest.symm.trans (ih.mpr hall)
          rfl

/-- Another order of the items gives another order of the results. -/
theorem mapM_perm {f : α → Except ε β} {items items' : List α} (h : items.Perm items') {results : List β}
    (hresults : items'.mapM f = .ok results) : ∃ results', items.mapM f = .ok results' ∧ results'.Perm results := by
  obtain ⟨results', hall, hperm⟩ := List.perm_comp_forall₂ h (mapM_eq_ok_iff.mp hresults)
  exact ⟨results', mapM_eq_ok_iff.mpr hall, hperm⟩

/-- What is there of the results. -/
def collect (f : α → Except ε (Option β)) (items : List α) : Except ε (List β) :=
  (items.mapM f).map List.reduceOption

theorem collect_eq_ok_iff {f : α → Except ε (Option β)} {items : List α} {results : List β} :
    collect f items = .ok results ↔ ∃ found, items.mapM f = .ok found ∧ found.reduceOption = results := by
  unfold collect
  rcases items.mapM f with e | found
  · simp [Except.map]
  · simp [Except.map]

theorem collect_nil (f : α → Except ε (Option β)) : collect f [] = .ok [] := rfl

theorem collect_cons (f : α → Except ε (Option β)) (item : α) (items : List α) :
    collect f (item :: items) = (do
      let result ← f item
      let results ← collect f items
      return result.toList ++ results) := by
  unfold collect
  rw [List.mapM_cons]
  rcases f item with e | result
  · rfl
  · rcases items.mapM f with e | results
    · rfl
    · cases result <;> rfl

theorem collect_cons_eq_ok {f : α → Except ε (Option β)} {item : α} {items : List α} {results : List β}
    (h : collect f (item :: items) = .ok results) :
    ∃ result rest, f item = .ok result ∧ collect f items = .ok rest ∧ results = result.toList ++ rest := by
  rw [collect_cons] at h
  rcases hitem : f item with e | result
  · rw [hitem] at h
    cases h
  · rcases hrest : collect f items with e | rest
    · rw [hitem, hrest] at h
      cases h
    · rw [hitem, hrest] at h
      cases h
      exact ⟨result, rest, rfl, rfl, rfl⟩

theorem collect_perm {f : α → Except ε (Option β)} {items items' : List α} (h : items.Perm items') {results : List β}
    (hresults : collect f items' = .ok results) : ∃ results', collect f items = .ok results' ∧ results'.Perm results := by
  obtain ⟨found, hfound, rfl⟩ := collect_eq_ok_iff.mp hresults
  obtain ⟨found', hfound', hperm⟩ := mapM_perm h hfound
  exact ⟨_, collect_eq_ok_iff.mpr ⟨found', hfound', rfl⟩, hperm.filterMap _⟩

/-- Nothing is collected where one item raises. -/
theorem collect_ok {f : α → Except ε (Option β)} {items : List α} {results : List β} (h : collect f items = .ok results) :
    ∀ item ∈ items, ∃ result, f item = .ok result ∧ ∀ value ∈ result, value ∈ results := by
  induction items generalizing results with
  | nil => simp
  | cons item items ih =>
    obtain ⟨result, rest, hitem, hrest, rfl⟩ := collect_cons_eq_ok h
    rintro a (_ | ⟨_, ha⟩)
    · exact ⟨result, hitem, fun value hvalue => List.mem_append_left _ (Option.mem_toList.mpr hvalue)⟩
    · obtain ⟨other, hother, hin⟩ := ih hrest a ha
      exact ⟨other, hother, fun value hvalue => List.mem_append_right _ (hin value hvalue)⟩

/-- Every result is that of an item. -/
theorem mem_of_collect {f : α → Except ε (Option β)} {items : List α} {results : List β}
    (h : collect f items = .ok results) {value : β} (hvalue : value ∈ results) :
    ∃ item ∈ items, f item = .ok (some value) := by
  induction items generalizing results with
  | nil =>
    cases h
    cases hvalue
  | cons item items ih =>
    obtain ⟨result, rest, hitem, hrest, rfl⟩ := collect_cons_eq_ok h
    rcases List.mem_append.mp hvalue with hvalue | hvalue
    · exact ⟨item, List.mem_cons_self, by rw [hitem, Option.mem_toList.mp hvalue]⟩
    · obtain ⟨other, hother, hf⟩ := ih hrest hvalue
      exact ⟨other, List.mem_cons_of_mem _ hother, hf⟩

theorem collect_congr {f g : α → Except ε (Option β)} {items : List α} (h : ∀ item ∈ items, f item = g item) :
    collect f items = collect g items := by
  induction items with
  | nil => rfl
  | cons item items ih =>
    rw [collect_cons, collect_cons, h item List.mem_cons_self, ih fun a ha => h a (List.mem_cons_of_mem _ ha)]

theorem collect_map {γ : Type} (f : β → Except ε (Option γ)) (g : α → β) (items : List α) :
    collect f (items.map g) = collect (fun item => f (g item)) items := by
  induction items with
  | nil => rfl
  | cons item items ih => rw [List.map_cons, collect_cons, collect_cons, ih]

theorem collect_pure {f : α → Except ε (Option β)} {g : α → Option β} {items : List α}
    (h : ∀ item ∈ items, f item = .ok (g item)) : collect f items = .ok (items.filterMap g) := by
  induction items with
  | nil => rfl
  | cons item items ih =>
    rw [collect_cons, h item List.mem_cons_self, ih fun a ha => h a (List.mem_cons_of_mem _ ha), List.filterMap_cons]
    cases g item <;> rfl

theorem exists_error_of_collect {f : α → Except ε (Option β)} {items : List α} {e : ε} (h : collect f items = .error e) :
    ∃ item ∈ items, ∃ e, f item = .error e := by
  induction items generalizing e with
  | nil => cases h
  | cons item items ih =>
    rcases hitem : f item with e' | result
    · exact ⟨item, List.mem_cons_self, e', hitem⟩
    · rcases hrest : collect f items with e' | rest
      · obtain ⟨other, hother, hfails⟩ := ih hrest
        exact ⟨other, List.mem_cons_of_mem _ hother, hfails⟩
      · rw [collect_cons, hitem, hrest] at h
        cases h

theorem collect_error {f : α → Except ε (Option β)} {items : List α} {item : α} (hitem : item ∈ items) {e : ε}
    (h : f item = .error e) : ∃ e, collect f items = .error e := by
  rcases hcollect : collect f items with e' | results
  · exact ⟨e', rfl⟩
  · obtain ⟨result, hresult, -⟩ := collect_ok hcollect item hitem
    cases h.symm.trans hresult

/-- An order of the values is an order of the items. -/
theorem exists_perm_of_map_perm {f : α → β} {items : List α} {values : List β} (h : values.Perm (items.map f)) :
    ∃ items' : List α, items'.Perm items ∧ items'.map f = values := by
  have hall : List.Forall₂ (fun value item => value = f item) (items.map f) items := by
    rw [List.forall₂_map_left_iff]
    rw [List.forall₂_same]
    exact fun _ _ => rfl
  obtain ⟨items', hitems', hperm⟩ := List.perm_comp_forall₂ h hall
  refine ⟨items', hperm, ?_⟩
  clear hperm hall h
  induction hitems' with
  | nil => rfl
  | cons hvalue _ ih => rw [List.map_cons, ih, ← hvalue]

end SeedSync.Lib
