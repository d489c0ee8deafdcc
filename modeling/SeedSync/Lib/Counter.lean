import SeedSync.Lib.Dict
import Mathlib.Logic.Function.Basic

/-!
# Counts kept by key

A dict that says how often each key stands in a list, kept by adding and taking away one key at a
time, and a dict of names with the counts of the names in it.
-/

namespace SeedSync.Lib

variable {ι κ : Type} [DecidableEq ι] [DecidableEq κ]

/-! ## Lists over the support of a function -/

/-- What a function gives over a list is what it gives over another list of the same keys. -/
theorem filterMap_perm {α β : Type} {f g : α → Option β} {l l' : List α} (hl : l.Nodup) (hl' : l'.Nodup)
    (hf : ∀ a ∈ l, f a = g a) (h : ∀ a, g a ≠ none → (a ∈ l ↔ a ∈ l')) : (l.filterMap f).Perm (l'.filterMap g) := by
  have hsome : ∀ l : List α, l.filterMap g = (l.filter fun a => (g a).isSome).filterMap g := by
    intro l
    rw [List.filterMap_filter]
    refine List.filterMap_congr fun a _ => ?_
    cases g a <;> rfl
  rw [List.filterMap_congr hf, hsome l, hsome l']
  refine List.Perm.filterMap g ?_
  rw [List.perm_ext_iff_of_nodup (hl.filter _) (hl'.filter _)]
  intro a
  rw [List.mem_filter, List.mem_filter]
  constructor
  · rintro ⟨hmem, hsome⟩
    exact ⟨(h a (Option.isSome_iff_ne_none.1 hsome)).1 hmem, hsome⟩
  · rintro ⟨hmem, hsome⟩
    exact ⟨(h a (Option.isSome_iff_ne_none.1 hsome)).2 hmem, hsome⟩

namespace Dict

variable {ν : Type}

omit [DecidableEq κ] in
theorem nodup_items (d : Dict κ ν) : d.items.Nodup := .of_map Prod.fst d.nodup

theorem items_pop_of_get {d : Dict κ ν} {key : κ} {value : ν} (h : d.get key = some value) :
    d.items.Perm ((key, value) :: (d.pop key).items) := by
  have hnot : (key, value) ∉ (d.pop key).items := by
    rw [← get_eq_some, get_pop_self]
    simp
  rw [List.perm_ext_iff_of_nodup d.nodup_items (List.nodup_cons.2 ⟨hnot, (d.pop key).nodup_items⟩)]
  rintro ⟨k, v⟩
  rw [List.mem_cons, ← get_eq_some, ← get_eq_some, get_pop, Prod.mk.injEq]
  by_cases hk : key = k
  · subst hk
    rw [h]
    simp [eq_comm]
  · simp [hk, Ne.symm hk]

theorem items_set (d : Dict κ ν) (key : κ) (value : ν) :
    (d.set key value).items.Perm ((key, value) :: (d.pop key).items) := by
  refine (items_pop_of_get (d.get_set_self key value)).trans (List.Perm.cons _ (items_perm fun k => ?_))
  rw [get_pop, get_pop, get_set]
  split_ifs <;> rfl

/-- A value that stands there already is set. -/
theorem set_of_get {d : Dict κ ν} {key : κ} {value : ν} (h : d.get key = some value) : d.set key value = d := by
  have hitems : ∀ items : List (κ × ν), getItem items key = some value → setItem items key value = items := by
    intro items hget
    induction items with
    | nil => cases hget
    | cons item items ih =>
      obtain ⟨k, v⟩ := item
      rw [getItem] at hget
      rw [setItem]
      split_ifs with hk
      · rw [if_pos hk] at hget
        rw [Option.some.inj hget]
      · rw [if_neg hk] at hget
        rw [ih hget]
  exact eq_of_items (hitems d.items h)

/-- `{key: f(value) for key, value in d.items() if p(key)}` -/
def select {β : Type} (d : Dict κ ν) (p : κ → Bool) (f : ν → β) : Dict κ β :=
  .ofList ((d.filter fun key _ => p key).items.map fun item => (item.1, f item.2))

theorem get_select {β : Type} (d : Dict κ ν) (p : κ → Bool) (f : ν → β) (key : κ) :
    (d.select p f).get key = if p key then (d.get key).map f else none := by
  have hitems : (d.select p f).items = (d.filter fun key _ => p key).items.map fun item => (item.1, f item.2) := by
    refine ofList_items ?_
    rw [List.map_map]
    exact (d.filter fun key _ => p key).nodup
  ext value
  rw [get_eq_some, hitems, List.mem_map]
  constructor
  · rintro ⟨⟨k, v⟩, hmem, heq⟩
    cases heq
    obtain ⟨hget, hp⟩ := (get_filter_eq_some d _ k v).1 ((get_eq_some _ k v).2 hmem)
    rw [if_pos hp, hget]
    rfl
  · intro h
    split_ifs at h with hp
    obtain ⟨v, hget, rfl⟩ := Option.map_eq_some_iff.1 h
    exact ⟨(key, v), (get_eq_some _ key v).1 ((get_filter_eq_some d _ key v).2 ⟨hget, hp⟩), rfl⟩

/-- A dict equals another one: the same keys, with equal values. -/
def sameBy (eq : ν → ν → Bool) (a b : Dict κ ν) : Bool :=
  decide (a.items.length = b.items.length) && a.items.all fun item => (b.get item.1).any (eq item.2)

/-- `a == b` of what two dicts hold under a key. -/
def sameValue (eq : ν → ν → Bool) : Option ν → Option ν → Bool
  | none, none => true
  | some a, some b => eq a b
  | _, _ => false

theorem sameValue_of_sameBy {eq : ν → ν → Bool} {a b : Dict κ ν} (h : a.sameBy eq b = true) (key : κ) :
    sameValue eq (a.get key) (b.get key) = true := by
  unfold sameBy at h
  rw [Bool.and_eq_true, decide_eq_true_eq, List.all_eq_true] at h
  obtain ⟨hlength, hall⟩ := h
  have hkeys : a.keys ⊆ b.keys := by
    intro k hk
    obtain ⟨item, hitem, rfl⟩ := List.mem_map.1 hk
    rw [mem_keys]
    intro hnone
    have := hall item hitem
    rw [hnone] at this
    cases this
  have hperm : a.keys.Perm b.keys :=
    (List.subperm_of_subset a.nodup hkeys).perm_of_length_le (by simp [keys, hlength])
  cases ha : a.get key with
  | none =>
    have hb : b.get key = none := by
      by_contra hb
      exact (a.mem_keys key).1 (hperm.mem_iff.2 ((b.mem_keys key).2 hb)) ha
    rw [hb]
    rfl
  | some value =>
    have hany := hall (key, value) ((a.get_eq_some key value).1 ha)
    dsimp only at hany
    cases hb : b.get key with
    | none =>
      rw [hb] at hany
      cases hany
    | some other =>
      rw [hb] at hany
      exact hany

/-- A key that is not among those with other values has none in either dict, or two equal ones. -/
theorem sameValue_of_not_mem {eq : ν → ν → Bool} {a b : Dict κ ν} {touched : List κ} {key : κ} (hkey : key ∉ touched)
    (h : key ∈ a.keys ∨ key ∈ b.keys → sameValue eq (a.get key) (b.get key) = false → key ∈ touched) :
    sameValue eq (a.get key) (b.get key) = true := by
  by_contra hne
  rw [Bool.not_eq_true] at hne
  have hnone : ¬ (key ∈ a.keys ∨ key ∈ b.keys) := fun hmem => hkey (h hmem hne)
  rw [not_or, mem_keys, mem_keys, not_not, not_not] at hnone
  rw [hnone.1, hnone.2] at hne
  cases hne

/-! ## Counts -/

/-- `counts[key] = counts.get(key, 0) + 1` -/
def increment (counts : Dict κ Int) (key : κ) : Dict κ Int := counts.set key ((counts.get key).getD 0 + 1)

/-- `counts.get(key, 0) + delta`, which stands only when something is left. -/
def adjust (counts : Dict κ Int) (key : κ) (delta : Int) : Dict κ Int :=
  let count := (counts.get key).getD 0 + delta
  if 0 < count then counts.set key count else counts.pop key

def tally (keys : List κ) : Dict κ Int := keys.foldl increment {}

/-- The dict says of each key how often it stands in the list, and of no other key. -/
def Counts (counts : Dict κ Int) (keys : List κ) : Prop :=
  ∀ key, counts.get key = if key ∈ keys then some (keys.count key : Int) else none

namespace Counts

variable {counts : Dict κ Int} {keys : List κ}

theorem empty : Counts ({} : Dict κ Int) [] := by simp [Counts]

theorem getD (h : Counts counts keys) (key : κ) : (counts.get key).getD 0 = keys.count key := by
  rw [h key]
  split_ifs with hmem
  · rfl
  · rw [List.count_eq_zero_of_not_mem hmem]
    rfl

theorem perm (h : Counts counts keys) {keys' : List κ} (hperm : keys.Perm keys') : Counts counts keys' := by
  intro key
  rw [h key]
  simp only [hperm.mem_iff, hperm.count_eq key]

theorem positive (h : Counts counts keys) {key : κ} {count : Int} (hget : counts.get key = some count) : 0 < count := by
  rw [h key] at hget
  split_ifs at hget with hmem
  obtain rfl := Option.some.inj hget
  have := List.count_pos_iff.2 hmem
  omega

theorem unique {counts' : Dict κ Int} (h : Counts counts keys) (h' : Counts counts' keys) (key : κ) :
    counts.get key = counts'.get key := (h key).trans (h' key).symm

theorem increment (h : Counts counts keys) (key : κ) : Counts (counts.increment key) (key :: keys) := by
  intro other
  rw [Dict.increment, get_set, h.getD, h other, List.count_cons]
  by_cases hk : key = other
  · subst hk
    simp
  · simp [hk, Ne.symm hk]

theorem adjust_up (h : Counts counts keys) (key : κ) : Counts (counts.adjust key 1) (key :: keys) := by
  have hpos : 0 < (counts.get key).getD 0 + 1 := by
    rw [h.getD]
    omega
  have heq : counts.adjust key 1 = counts.increment key := if_pos hpos
  rw [heq]
  exact h.increment key

theorem adjust_down {key : κ} (h : Counts counts (key :: keys)) : Counts (counts.adjust key (-1)) keys := by
  have hcount : (counts.get key).getD 0 + -1 = keys.count key := by
    rw [h.getD, List.count_cons_self]
    omega
  intro other
  have hother := h other
  rw [Dict.adjust, hcount]
  by_cases hk : key = other
  · subst hk
    by_cases hmem : key ∈ keys
    · have := List.count_pos_iff.2 hmem
      rw [if_pos (by omega), get_set_self, if_pos hmem]
    · rw [List.count_eq_zero_of_not_mem hmem, if_neg (by simp), get_pop_self, if_neg hmem]
  · have hrest : counts.get other = if other ∈ keys then some (keys.count other : Int) else none := by
      rw [hother, List.count_cons_of_ne hk]
      simp [Ne.symm hk]
    rw [← hrest]
    by_cases hpos : 0 < (keys.count key : Int)
    · rw [if_pos hpos, get_set_ne _ hk]
    · rw [if_neg hpos, get_pop_ne _ hk]

/-- Adding keys one after the other. -/
theorem add {step : Dict κ Int → κ → Dict κ Int}
    (hstep : ∀ counts keys key, Counts counts keys → Counts (step counts key) (key :: keys)) (h : Counts counts keys)
    (more : List κ) : Counts (more.foldl step counts) (more ++ keys) := by
  induction more generalizing counts keys with
  | nil => exact h
  | cons key more ih => exact (ih (hstep _ _ key h)).perm List.perm_middle

/-- Taking away keys one after the other. -/
theorem drop {gone : List κ} (h : Counts counts (gone ++ keys)) :
    Counts (gone.foldl (fun counts key => counts.adjust key (-1)) counts) keys := by
  induction gone generalizing counts with
  | nil => exact h
  | cons key gone ih => exact ih h.adjust_down

theorem tally (keys : List κ) : Counts (tally keys) keys := by
  have h := add (fun _ _ key h => Counts.increment h key) empty keys
  rwa [List.append_nil] at h

end Counts

end Dict

/-! ## Names -/

/-- The names of some ids, and how many ids have each name. -/
structure NameIndex (ι κ : Type) where
  names : Dict ι κ := {}
  counts : Dict κ Int := {}

namespace NameIndex

/-- The previous name of the id is taken away, then its name, if it has one, is added. -/
def rename (index : NameIndex ι κ) (id : ι) (name : Option κ) : NameIndex ι κ :=
  let index := match index.names.get id with
    | none => index
    | some previous => ⟨index.names.pop id, index.counts.adjust previous (-1)⟩
  match name with
  | none => index
  | some name => ⟨index.names.set id name, index.counts.increment name⟩

/-- The names of a dict, counted. -/
def ofDict (names : Dict ι κ) : NameIndex ι κ := ⟨names, Dict.tally (names.items.map Prod.snd)⟩

/-- The ids have the names that the function gives them, and these are counted. -/
structure Exact (index : NameIndex ι κ) (name : ι → Option κ) : Prop where
  names : ∀ id, index.names.get id = name id
  counts : Dict.Counts index.counts (index.names.items.map Prod.snd)

theorem exact_ofDict {names : Dict ι κ} {name : ι → Option κ} (h : ∀ id, names.get id = name id) :
    Exact (ofDict names) name := ⟨h, .tally _⟩

theorem Exact.rename {index : NameIndex ι κ} {name : ι → Option κ} (h : Exact index name) (id : ι) (new : Option κ) :
    Exact (index.rename id new) (Function.update name id new) := by
  -- Without its previous name the id has none.
  have hgone : ∀ gone : NameIndex ι κ, gone = (match index.names.get id with
      | none => index
      | some previous => ⟨index.names.pop id, index.counts.adjust previous (-1)⟩) →
      Exact gone (Function.update name id none) := by
    rintro gone rfl
    cases hget : index.names.get id with
    | none =>
      have hsame : Function.update name id none = name := by
        rw [Function.update_eq_self_iff, ← h.names, hget]
      rw [hsame]
      exact h
    | some previous =>
      refine ⟨fun other => ?_, ?_⟩
      · rw [Dict.get_pop, Function.update_apply]
        by_cases hid : id = other
        · rw [if_pos hid, if_pos hid.symm]
        · rw [if_neg hid, if_neg (Ne.symm hid), h.names]
      · exact (h.counts.perm ((Dict.items_pop_of_get hget).map Prod.snd)).adjust_down
  have hgone := hgone _ rfl
  unfold NameIndex.rename
  cases new with
  | none => exact hgone
  | some new =>
    refine ⟨fun other => ?_, ?_⟩
    · rw [Dict.get_set, Function.update_apply, hgone.names, Function.update_apply]
      by_cases hid : id = other
      · rw [if_pos hid, if_pos hid.symm]
      · rw [if_neg hid, if_neg (Ne.symm hid), if_neg (Ne.symm hid)]
    · refine (hgone.counts.increment new).perm (.trans ?_ ((Dict.items_set _ id new).map Prod.snd).symm)
      refine List.Perm.cons _ ((Dict.items_perm fun other => ?_).map Prod.snd)
      rw [Dict.get_pop, hgone.names]
      by_cases hid : id = other
      · subst hid
        rw [if_pos rfl, Function.update_self]
      · rw [if_neg hid]

/-- Renaming every id whose name changed. -/
theorem Exact.renameAll {index : NameIndex ι κ} {name new : ι → Option κ} (h : Exact index name) (ids : List ι)
    (hrest : ∀ id, id ∉ ids → name id = new id) :
    Exact (ids.foldl (fun index id => index.rename id (new id)) index) new := by
  induction ids generalizing index name with
  | nil =>
    have heq : name = new := funext fun id => hrest id List.not_mem_nil
    rw [← heq]
    exact h
  | cons id ids ih =>
    refine ih (h.rename id (new id)) fun other hother => ?_
    rw [Function.update_apply]
    split_ifs with hid
    · rw [hid]
    · exact hrest other (by simp [hid, hother])

end NameIndex

end SeedSync.Lib
