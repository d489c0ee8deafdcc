import Mathlib.Algebra.Ring.Nat
import Mathlib.Data.List.Basic
import Mathlib.Data.List.Nodup
import Mathlib.Data.List.Perm.Basic
import Mathlib.Tactic.SplitIfs

/-!
# Dicts

A dict as the list of its items in insertion order, read and written by key. No key stands twice.
-/

namespace SeedSync.Lib

structure Dict (κ ν : Type) where
  items : List (κ × ν) := []
  nodup : (items.map Prod.fst).Nodup := by first | exact List.nodup_nil | simp
  deriving DecidableEq, Repr

namespace Dict

variable {κ ν : Type} [DecidableEq κ]

def getItem : List (κ × ν) → κ → Option ν
  | [], _ => none
  | (k, v) :: items, key => if k = key then some v else getItem items key

def setItem : List (κ × ν) → κ → ν → List (κ × ν)
  | [], key, value => [(key, value)]
  | (k, v) :: items, key, value => if k = key then (k, value) :: items else (k, v) :: setItem items key value

theorem setItem_keys (items : List (κ × ν)) (key : κ) (value : ν) (k : κ)
    (h : k ∈ (setItem items key value).map Prod.fst) : k = key ∨ k ∈ items.map Prod.fst := by
  induction items with
  | nil => simpa [setItem] using h
  | cons item items ih =>
    obtain ⟨k', v⟩ := item
    rw [setItem] at h
    split_ifs at h with hk
    · exact Or.inr h
    · rcases List.mem_cons.mp h with rfl | h
      · exact Or.inr List.mem_cons_self
      · rcases ih h with h | h
        · exact Or.inl h
        · exact Or.inr (List.mem_cons_of_mem _ h)

theorem setItem_nodup {items : List (κ × ν)} (h : (items.map Prod.fst).Nodup) (key : κ) (value : ν) :
    ((setItem items key value).map Prod.fst).Nodup := by
  induction items with
  | nil => simp [setItem]
  | cons item items ih =>
    obtain ⟨k, v⟩ := item
    rw [List.map_cons, List.nodup_cons] at h
    rw [setItem]
    split_ifs with hk
    · simpa using h
    · rw [List.map_cons, List.nodup_cons]
      refine ⟨fun hmem => ?_, ih h.2⟩
      rcases setItem_keys items key value k hmem with h' | h'
      · exact hk h'
      · exact h.1 h'

def get (d : Dict κ ν) (key : κ) : Option ν := getItem d.items key

/-- `d[key] = value`: a present key keeps its place. -/
def set (d : Dict κ ν) (key : κ) (value : ν) : Dict κ ν := ⟨setItem d.items key value, setItem_nodup d.nodup key value⟩

/-- `{k: v for k, v in d.items() if p(k, v)}`. -/
def filter (d : Dict κ ν) (p : κ → ν → Bool) : Dict κ ν :=
  ⟨d.items.filter (fun item => p item.1 item.2), d.nodup.sublist (List.filter_sublist.map _)⟩

def pop (d : Dict κ ν) (key : κ) : Dict κ ν := d.filter fun k _ => decide (k ≠ key)

def keys (d : Dict κ ν) : List κ := d.items.map Prod.fst

def contains (d : Dict κ ν) (key : κ) : Bool := (d.get key).isSome

/-- Replace every value. -/
def mapValues (d : Dict κ ν) (f : ν → ν) : Dict κ ν :=
  ⟨d.items.map (fun item => (item.1, f item.2)), by simpa [Function.comp_def] using d.nodup⟩

/-- A dict comprehension: a later item of a key replaces the earlier one. -/
def ofList (items : List (κ × ν)) : Dict κ ν := items.foldl (fun d item => d.set item.1 item.2) {}

theorem eq_of_items {d e : Dict κ ν} (h : d.items = e.items) : d = e := by
  cases d
  cases e
  simpa using h

@[simp] theorem get_empty (key : κ) : ({} : Dict κ ν).get key = none := rfl

theorem getItem_eq_some {items : List (κ × ν)} (h : (items.map Prod.fst).Nodup) (key : κ) (value : ν) :
    getItem items key = some value ↔ (key, value) ∈ items := by
  induction items with
  | nil => simp [getItem]
  | cons item items ih =>
    obtain ⟨k, v⟩ := item
    rw [List.map_cons, List.nodup_cons] at h
    rw [getItem, List.mem_cons]
    split_ifs with hk
    · subst hk
      constructor
      · intro hv
        exact Or.inl (by simp_all)
      · rintro (hv | hmem)
        · simp_all
        · exact absurd (List.mem_map_of_mem hmem) h.1
    · rw [ih h.2]
      constructor
      · exact Or.inr
      · rintro (hv | hmem)
        · simp_all
        · exact hmem

theorem mem_of_getItem {items : List (κ × ν)} {key : κ} {value : ν} (h : getItem items key = some value) :
    (key, value) ∈ items := by
  induction items with
  | nil => simp [getItem] at h
  | cons item items ih =>
    obtain ⟨k, v⟩ := item
    rw [getItem] at h
    split_ifs at h with hk
    · simp_all
    · exact List.mem_cons_of_mem _ (ih h)

theorem getItem_concat {items : List (κ × ν)} {key : κ} (hnew : key ∉ items.map Prod.fst) (value : ν) (other : κ) :
    getItem (items ++ [(key, value)]) other = if key = other then some value else getItem items other := by
  induction items with
  | nil => rfl
  | cons item items ih =>
    obtain ⟨k, v⟩ := item
    rw [List.map_cons, List.mem_cons, not_or] at hnew
    rw [List.cons_append, getItem, ih hnew.2, getItem]
    split_ifs with hk hkey
    · exact absurd (hkey.trans hk.symm) hnew.1
    · rfl
    · rfl
    · rfl

/-- What is found is an item, and an item is found. -/
theorem get_eq_some (d : Dict κ ν) (key : κ) (value : ν) : d.get key = some value ↔ (key, value) ∈ d.items :=
  getItem_eq_some d.nodup key value

theorem getItem_perm {items items' : List (κ × ν)} (h : items'.Perm items) (hnodup : (items.map Prod.fst).Nodup) (key : κ) :
    getItem items' key = getItem items key := by
  ext value
  rw [getItem_eq_some hnodup, getItem_eq_some ((h.map Prod.fst).nodup_iff.mpr hnodup), h.mem_iff]

theorem setItem_sum (items : List (κ × Nat)) (key : κ) (value : Nat) :
    ((setItem items key value).map Prod.snd).sum + (getItem items key).getD 0 = (items.map Prod.snd).sum + value := by
  induction items with
  | nil => simp [setItem, getItem]
  | cons item items ih =>
    obtain ⟨k, v⟩ := item
    rw [setItem, getItem]
    split_ifs with hk
    · simp only [List.map_cons, List.sum_cons, Option.getD_some]
      omega
    · simp only [List.map_cons, List.sum_cons]
      omega

theorem getItem_setItem (items : List (κ × ν)) (key other : κ) (value : ν) :
    getItem (setItem items key value) other = if key = other then some value else getItem items other := by
  induction items with
  | nil => simp [setItem, getItem]
  | cons item items ih =>
    obtain ⟨k, v⟩ := item
    rw [setItem]
    split_ifs <;> simp_all [getItem]

theorem get_set (d : Dict κ ν) (key other : κ) (value : ν) :
    (d.set key value).get other = if key = other then some value else d.get other :=
  getItem_setItem d.items key other value

theorem eq_or_of_get_set {d : Dict κ ν} {key other : κ} {value v : ν} (h : (d.set key value).get other = some v) :
    (other = key ∧ v = value) ∨ d.get other = some v := by
  rw [get_set] at h
  split_ifs at h with hkey
  · cases h
    exact Or.inl ⟨hkey.symm, rfl⟩
  · exact Or.inr h

@[simp] theorem get_set_self (d : Dict κ ν) (key : κ) (value : ν) : (d.set key value).get key = some value := by
  simp [get_set]

@[simp] theorem get_set_ne (d : Dict κ ν) {key other : κ} (h : key ≠ other) (value : ν) :
    (d.set key value).get other = d.get other := by simp [get_set, h]

theorem get_filter_eq_some (d : Dict κ ν) (p : κ → ν → Bool) (key : κ) (value : ν) :
    (d.filter p).get key = some value ↔ d.get key = some value ∧ p key value := by
  rw [get_eq_some, get_eq_some]
  exact List.mem_filter

theorem get_pop (d : Dict κ ν) (key other : κ) :
    (d.pop key).get other = if key = other then none else d.get other := by
  ext value
  rw [pop, get_filter_eq_some]
  split_ifs with h
  · simp [h]
  · simp [Ne.symm h]

@[simp] theorem get_pop_self (d : Dict κ ν) (key : κ) : (d.pop key).get key = none := by simp [get_pop]

@[simp] theorem get_pop_ne (d : Dict κ ν) {key other : κ} (h : key ≠ other) :
    (d.pop key).get other = d.get other := by simp [get_pop, h]

theorem getItem_map (items : List (κ × ν)) (f : ν → ν) (key : κ) :
    getItem (items.map fun item => (item.1, f item.2)) key = (getItem items key).map f := by
  induction items with
  | nil => rfl
  | cons item items ih =>
    simp only [List.map_cons, getItem]
    split_ifs
    · rfl
    · exact ih

theorem get_mapValues (d : Dict κ ν) (f : ν → ν) (key : κ) : (d.mapValues f).get key = (d.get key).map f :=
  getItem_map d.items f key

theorem mem_keys (d : Dict κ ν) (key : κ) : key ∈ d.keys ↔ d.get key ≠ none := by
  rw [Option.ne_none_iff_exists', keys, List.mem_map]
  constructor
  · rintro ⟨⟨k, v⟩, hmem, rfl⟩
    exact ⟨v, (d.get_eq_some k v).mpr hmem⟩
  · rintro ⟨v, hv⟩
    exact ⟨(key, v), (d.get_eq_some key v).mp hv, rfl⟩

theorem get_ofList_mem {items : List (κ × ν)} {key : κ} {value : ν} (h : (ofList items).get key = some value) :
    (key, value) ∈ items := by
  suffices hgen : ∀ d : Dict κ ν, (items.foldl (fun d item => d.set item.1 item.2) d).get key = some value →
      (key, value) ∈ items ∨ d.get key = some value by
    rcases hgen {} h with h | h
    · exact h
    · simp at h
  clear h
  intro d h
  induction items generalizing d with
  | nil => exact Or.inr h
  | cons item items ih =>
    rcases ih _ h with h | h
    · exact Or.inl (List.mem_cons_of_mem _ h)
    · rw [get_set] at h
      split_ifs at h with hk
      · cases h
        subst hk
        exact Or.inl List.mem_cons_self
      · exact Or.inr h

theorem get_ofList_of_mem {items : List (κ × ν)} {key : κ} (h : key ∈ items.map Prod.fst) :
    (ofList items).get key ≠ none := by
  suffices hgen : ∀ d : Dict κ ν, (key ∈ items.map Prod.fst ∨ d.get key ≠ none) →
      (items.foldl (fun d item => d.set item.1 item.2) d).get key ≠ none from hgen {} (Or.inl h)
  clear h
  induction items with
  | nil => simp
  | cons item items ih =>
    intro d h
    refine ih _ ?_
    rw [List.map_cons, List.mem_cons] at h
    rcases h with (rfl | h) | h
    · exact Or.inr (by simp)
    · exact Or.inl h
    · refine Or.inr ?_
      rw [get_set]
      split_ifs
      · simp
      · exact h

/-! ### Merging -/

/-- One value of two sources, merged where both have one. -/
def combine (merge : ν → ν → ν) : Option ν → Option ν → Option ν
  | some a, some b => some (merge a b)
  | some a, none => some a
  | none, b => b

/-- The items of another source one after the other, each merged with what stands under its key. -/
def mergeAll (merge : ν → ν → ν) (d : Dict κ ν) (items : List (κ × ν)) : Dict κ ν :=
  items.foldl (fun d item => d.set item.1 ((combine merge (d.get item.1) (some item.2)).getD item.2)) d

theorem get_mergeAll (merge : ν → ν → ν) (d : Dict κ ν) {items : List (κ × ν)} (h : (items.map Prod.fst).Nodup) (key : κ) :
    (d.mergeAll merge items).get key = combine merge (d.get key) (getItem items key) := by
  induction items generalizing d with
  | nil =>
    change d.get key = combine merge (d.get key) none
    cases d.get key <;> rfl
  | cons item items ih =>
    obtain ⟨k, v⟩ := item
    rw [List.map_cons, List.nodup_cons] at h
    change (Dict.mergeAll merge (d.set k _) items).get key = _
    rw [ih _ h.2, getItem, get_set]
    split_ifs with hk
    · subst hk
      have hlater : getItem items k = none := by
        rw [Option.eq_none_iff_forall_ne_some]
        intro w hw
        exact h.1 (List.mem_map.mpr ⟨(k, w), (getItem_eq_some h.2 k w).mp hw, rfl⟩)
      rw [hlater]
      cases d.get k <;> rfl
    · rfl

/-- The items of another source one after the other, each put in place of what stands under its key. -/
theorem get_foldl_set (g : Option ν → ν → ν) (d : Dict κ ν) {items : List (κ × ν)} (h : (items.map Prod.fst).Nodup)
    (key : κ) :
    (items.foldl (fun d item => d.set item.1 (g (d.get item.1) item.2)) d).get key =
      match getItem items key with
      | none => d.get key
      | some value => some (g (d.get key) value) := by
  induction items generalizing d with
  | nil => rfl
  | cons item items ih =>
    obtain ⟨k, v⟩ := item
    rw [List.map_cons, List.nodup_cons] at h
    rw [List.foldl_cons, ih _ h.2, getItem]
    split_ifs with hk
    · subst hk
      have hlater : getItem items k = none := by
        rw [Option.eq_none_iff_forall_ne_some]
        intro w hw
        exact h.1 (List.mem_map.mpr ⟨(k, w), (getItem_eq_some h.2 k w).mp hw, rfl⟩)
      rw [hlater, get_set_self]
    · rw [get_set_ne _ hk]

/-- A key that is there keeps its place. -/
theorem setItem_at {items : List (κ × ν)} (h : (items.map Prod.fst).Nodup) {index : Nat} {key : κ}
    (hkey : (items.map Prod.fst)[index]? = some key) (f : ν → ν) :
    ∃ value, getItem items key = some value ∧ (setItem items key (f value)).map Prod.fst = items.map Prod.fst ∧
      (setItem items key (f value)).map Prod.snd = (items.map Prod.snd).modify index f := by
  induction items generalizing index with
  | nil => simp at hkey
  | cons item items ih =>
    obtain ⟨k, v⟩ := item
    rw [List.map_cons, List.nodup_cons] at h
    cases index with
    | zero =>
      simp only [List.map_cons, List.getElem?_cons_zero, Option.some.injEq] at hkey
      refine ⟨v, ?_, ?_, ?_⟩
      · rw [getItem, if_pos hkey]
      · rw [setItem, if_pos hkey]
        rfl
      · rw [setItem, if_pos hkey]
        rfl
    | succ index =>
      simp only [List.map_cons, List.getElem?_cons_succ] at hkey
      have hne : k ≠ key := fun heq => h.1 (heq ▸ List.mem_of_getElem? hkey)
      obtain ⟨value, hget, hkeys, hvalues⟩ := ih h.2 hkey
      refine ⟨value, ?_, ?_, ?_⟩
      · rw [getItem, if_neg hne, hget]
      · rw [setItem, if_neg hne, List.map_cons, hkeys, List.map_cons]
      · rw [setItem, if_neg hne, List.map_cons, hvalues, List.map_cons, List.modify_succ_cons]

theorem setItem_new {items : List (κ × ν)} {key : κ} (h : key ∉ items.map Prod.fst) (value : ν) :
    getItem items key = none ∧ setItem items key value = items ++ [(key, value)] := by
  induction items with
  | nil => exact ⟨rfl, rfl⟩
  | cons item items ih =>
    obtain ⟨k, v⟩ := item
    rw [List.map_cons, List.mem_cons, not_or] at h
    obtain ⟨hget, hset⟩ := ih h.2
    rw [getItem, setItem, if_neg (Ne.symm h.1), if_neg (Ne.symm h.1), hget, hset]
    exact ⟨rfl, rfl⟩

theorem foldl_set_items (d : Dict κ ν) {items : List (κ × ν)} (h : ((d.items ++ items).map Prod.fst).Nodup) :
    (items.foldl (fun d item => d.set item.1 item.2) d).items = d.items ++ items := by
  induction items generalizing d with
  | nil => simp
  | cons item items ih =>
    have hnew : item.1 ∉ d.items.map Prod.fst := by
      rw [List.map_append, List.map_cons, List.nodup_append] at h
      intro hmem
      exact h.2.2 item.1 hmem item.1 (by simp) rfl
    have hset : (d.set item.1 item.2).items = d.items ++ [item] := (setItem_new hnew item.2).2
    rw [List.foldl_cons, ih _ (by rw [hset]; simpa using h), hset, List.append_assoc, List.singleton_append]

theorem ofList_items {items : List (κ × ν)} (h : (items.map Prod.fst).Nodup) : (ofList items).items = items :=
  foldl_set_items {} h

theorem ofList_self (d : Dict κ ν) : ofList d.items = d := eq_of_items (ofList_items d.nodup)

/-- What `d[key] = f(key, d.get(key))` does for one key after the other. -/
theorem get_foldl_update (f : κ → Option ν → ν) (d : Dict κ ν) {keys : List κ} (h : keys.Nodup) (key : κ) :
    (keys.foldl (fun d key => d.set key (f key (d.get key))) d).get key =
      if key ∈ keys then some (f key (d.get key)) else d.get key := by
  induction keys generalizing d with
  | nil => simp
  | cons k keys ih =>
    obtain ⟨hnew, hrest⟩ := List.nodup_cons.1 h
    rw [List.foldl_cons, ih _ hrest, get_set]
    by_cases hk : k = key
    · subst hk
      rw [if_neg hnew, if_pos rfl, if_pos List.mem_cons_self]
    · rw [if_neg hk]
      simp [Ne.symm hk]

theorem items_perm {a b : Dict κ ν} (h : ∀ key, a.get key = b.get key) : a.items.Perm b.items := by
  rw [List.perm_ext_iff_of_nodup (.of_map Prod.fst a.nodup) (.of_map Prod.fst b.nodup)]
  rintro ⟨key, value⟩
  rw [← a.get_eq_some, ← b.get_eq_some, h]

/-- `a == b`, whatever the order of the items. -/
def same [DecidableEq ν] (a b : Dict κ ν) : Bool :=
  decide (a.items.length = b.items.length) && a.items.all fun item => decide (b.get item.1 = some item.2)

theorem same_iff [DecidableEq ν] {a b : Dict κ ν} : a.same b = true ↔ ∀ key, a.get key = b.get key := by
  unfold same
  rw [Bool.and_eq_true, decide_eq_true_eq, List.all_eq_true]
  constructor
  · rintro ⟨hlength, hall⟩ key
    have hsubset : a.items ⊆ b.items := fun item hitem =>
      (b.get_eq_some item.1 item.2).1 (by simpa using hall item hitem)
    have hperm : a.items.Perm b.items :=
      (List.subperm_of_subset (.of_map Prod.fst a.nodup) hsubset).perm_of_length_le (Nat.le_of_eq hlength.symm)
    exact getItem_perm hperm b.nodup key
  · intro h
    refine ⟨(items_perm h).length_eq, fun item hitem => ?_⟩
    rw [decide_eq_true_eq, ← h, a.get_eq_some]
    exact hitem

/-- The values of a dict are what its keys lead to, in whatever order these come. -/
theorem values_perm (d : Dict κ ν) {keys : List κ} (hnodup : keys.Nodup) (hkeys : ∀ key, d.get key ≠ none → key ∈ keys) :
    (d.items.map Prod.snd).Perm (keys.filterMap d.get) := by
  have hitems : d.items.Perm (keys.filterMap fun key => (d.get key).map fun value => (key, value)) := by
    have hfirst : d.items.Nodup := List.Nodup.of_map Prod.fst d.nodup
    have hsecond : (keys.filterMap fun key => (d.get key).map fun value => (key, value)).Nodup := by
      refine List.Nodup.filterMap ?_ hnodup
      intro a b item ha hb
      obtain ⟨_, -, rfl⟩ := Option.map_eq_some_iff.mp ha
      obtain ⟨_, -, heq⟩ := Option.map_eq_some_iff.mp hb
      exact (congrArg Prod.fst heq).symm
    rw [List.perm_ext_iff_of_nodup hfirst hsecond]
    rintro ⟨key, value⟩
    rw [← d.get_eq_some, List.mem_filterMap]
    constructor
    · intro hget
      exact ⟨key, hkeys key (by rw [hget]; simp), by rw [hget]; rfl⟩
    · rintro ⟨other, -, hother⟩
      obtain ⟨v, hv, heq⟩ := Option.map_eq_some_iff.mp hother
      cases heq
      exact hv
  have hvalues := hitems.map Prod.snd
  rw [List.map_filterMap] at hvalues
  refine hvalues.trans (List.Perm.of_eq (List.filterMap_congr fun key _ => ?_))
  cases d.get key <;> rfl

end Dict

/-! ## Tables -/

/-- A dict in which every value stands under its own key. -/
structure Table {κ ν : Type} [DecidableEq κ] (key : ν → κ) where
  dict : Dict κ ν := {}
  keyed : ∀ k v, dict.get k = some v → key v = k := by simp

namespace Table

variable {κ ν : Type} [DecidableEq κ] {key : ν → κ}

def get (t : Table key) (k : κ) : Option ν := t.dict.get k

def contains (t : Table key) (k : κ) : Bool := t.dict.contains k

/-- `d[key(v)] = v`. -/
def put (t : Table key) (v : ν) : Table key :=
  ⟨t.dict.set (key v) v, by
    intro k w h
    rcases Dict.eq_or_of_get_set h with ⟨rfl, rfl⟩ | h
    · rfl
    · exact t.keyed k w h⟩

def pop (t : Table key) (k : κ) : Table key :=
  ⟨t.dict.pop k, by
    intro j w h
    rw [Dict.get_pop] at h
    split_ifs at h
    exact t.keyed j w h⟩

theorem get_put (t : Table key) (v : ν) (k : κ) : (t.put v).get k = if key v = k then some v else t.get k :=
  Dict.get_set _ _ _ _

theorem get_pop (t : Table key) (j k : κ) : (t.pop j).get k = if j = k then none else t.get k :=
  Dict.get_pop _ _ _

end Table

end SeedSync.Lib
