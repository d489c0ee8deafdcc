import Mathlib.Order.Bounds.Basic
import SeedSync.Persist.Reload

/-!
# The migration of the markers

Two calls of `canonicalize_file_identities` leave the per-key canonicalisation of the state they
started from, whether or not the state was written and read back on the way.
-/

namespace SeedSync.Persist

open Lib Identity

section

variable (isUuid : Str → Bool) (defaultPathPairId : Option Str)

/-! ## The canonical collections -/

theorem mem_canonicalizeSet (keys : NameSet) (id : Str) :
    id ∈ canonicalizeSet isUuid defaultPathPairId keys ↔
      ∃ key ∈ keys, canonicalFileId isUuid key defaultPathPairId = some id := by
  rw [canonicalizeSet, NameSet.mem_ofList, List.mem_filterMap]
  rfl

/-- Canonicalising the union with the canonical keys adds nothing. -/
theorem mem_canonicalizeSet_update (keys : NameSet) (id : Str) :
    id ∈ canonicalizeSet isUuid defaultPathPairId (keys.update (canonicalizeSet isUuid defaultPathPairId keys)) ↔
      id ∈ canonicalizeSet isUuid defaultPathPairId keys := by
  simp only [mem_canonicalizeSet, NameSet.mem_update]
  constructor
  · rintro ⟨key, hkey | ⟨origin, horigin, hcanonical⟩, hid⟩
    · exact ⟨key, hkey, hid⟩
    · rw [canonicalFileId_idem isUuid hcanonical] at hid
      exact ⟨origin, horigin, hcanonical.trans hid⟩
  · rintro ⟨key, hkey, hid⟩
    exact ⟨key, .inl hkey, hid⟩

/-- The counts of the items whose key canonicalises to the id. -/
def countsOf (items : List (Str × Int)) (id : Str) : Set Int :=
  {count | ∃ key, canonicalFileId isUuid key defaultPathPairId = some id ∧ (key, count) ∈ items}

theorem countsOf_append (items : List (Str × Int)) (key : Str) (count : Int) (id : Str) :
    countsOf isUuid defaultPathPairId (items ++ [(key, count)]) id =
      if canonicalFileId isUuid key defaultPathPairId = some id then
        insert count (countsOf isUuid defaultPathPairId items id)
      else countsOf isUuid defaultPathPairId items id := by
  ext c
  simp only [countsOf, List.mem_append, List.mem_singleton, Prod.mk.injEq]
  split_ifs with hid
  · simp only [Set.mem_setOf_eq, Set.mem_insert_iff]
    constructor
    · rintro ⟨k, hk, hmem | ⟨rfl, rfl⟩⟩
      · exact .inr ⟨k, hk, hmem⟩
      · exact .inl rfl
    · rintro (rfl | ⟨k, hk, hmem⟩)
      · exact ⟨key, hid, .inr ⟨rfl, rfl⟩⟩
      · exact ⟨k, hk, .inl hmem⟩
  · simp only [Set.mem_setOf_eq]
    constructor
    · rintro ⟨k, hk, hmem | ⟨rfl, rfl⟩⟩
      · exact ⟨k, hk, hmem⟩
      · exact absurd hk hid
    · rintro ⟨k, hk, hmem⟩
      exact ⟨k, hk, .inl hmem⟩

/-- The loop of `_canonicalize_counts` keeps the greatest count of every id. -/
theorem foldl_counts {items : List (Str × Int)} (hnonneg : ∀ item ∈ items, 0 ≤ item.2) (id : Str) :
    let canonical := items.foldl (fun canonical (item : Str × Int) =>
      match canonicalFileId isUuid item.1 defaultPathPairId with
      | some normalized => canonical.set normalized (max ((canonical.get normalized).getD 0) item.2)
      | none => canonical) ({} : Dict Str Int)
    match canonical.get id with
    | none => countsOf isUuid defaultPathPairId items id = ∅
    | some count => IsGreatest (countsOf isUuid defaultPathPairId items id) count := by
  intro canonical
  induction items using List.reverseRecOn with
  | nil => exact Set.eq_empty_of_forall_notMem fun c hc => by simp [countsOf] at hc
  | append_singleton items item ih =>
    obtain ⟨key, count⟩ := item
    have hcount : 0 ≤ count := hnonneg (key, count) (by simp)
    have hbefore := ih fun item hitem => hnonneg item (by simp [hitem])
    rw [countsOf_append]
    simp only [canonical, List.foldl_append, List.foldl_cons, List.foldl_nil] at hbefore ⊢
    generalize items.foldl _ ({} : Dict Str Int) = before at hbefore ⊢
    cases hkey : canonicalFileId isUuid key defaultPathPairId with
    | none => simpa using hbefore
    | some normalized =>
      simp only [Option.some.injEq, Dict.get_set]
      split_ifs with hid
      · subst hid
        cases hget : before.get normalized with
        | none =>
          rw [hget] at hbefore
          simp only [Option.getD_none, max_eq_right hcount]
          rw [hbefore]
          simp
        | some old =>
          rw [hget] at hbefore
          rw [max_comm]
          exact hbefore.insert count
      · exact hbefore

/-- An id has a count when one of its keys has, and it is the greatest of them. -/
theorem canonicalizeCounts_get {counts : Dict Str Int} (hnonneg : ∀ item ∈ counts.items, 0 ≤ item.2) (id : Str)
    (count : Int) :
    (canonicalizeCounts isUuid defaultPathPairId counts).get id = some count ↔
      IsGreatest (countsOf isUuid defaultPathPairId counts.items id) count := by
  have hfold := foldl_counts isUuid defaultPathPairId hnonneg id
  change match (canonicalizeCounts isUuid defaultPathPairId counts).get id with
    | none => countsOf isUuid defaultPathPairId counts.items id = ∅
    | some count => IsGreatest (countsOf isUuid defaultPathPairId counts.items id) count at hfold
  constructor
  · intro hget
    rwa [hget] at hfold
  · intro hgreatest
    cases hget : (canonicalizeCounts isUuid defaultPathPairId counts).get id with
    | none =>
      rw [hget] at hfold
      exact absurd (hfold ▸ hgreatest.1) (Set.notMem_empty _)
    | some other =>
      rw [hget] at hfold
      rw [hfold.unique hgreatest]

theorem raiseCounts_get (self other : Dict Str Int) (key : Str) :
    (raiseCounts self other).get key =
      match other.get key with
      | none => self.get key
      | some count => some (max ((self.get key).getD 0) count) := by
  have hget := Dict.get_foldl_set (fun old count => max (old.getD 0) count) self other.nodup key
  rw [raiseCounts, hget]
  simp only [Dict.get]
  cases Dict.getItem other.items key <;> rfl

/-- An id of a canonical collection stands for itself. -/
theorem canonical_of_get {counts : Dict Str Int} (hnonneg : ∀ item ∈ counts.items, 0 ≤ item.2) {id : Str} {count : Int}
    (h : (canonicalizeCounts isUuid defaultPathPairId counts).get id = some count) :
    canonicalFileId isUuid id defaultPathPairId = some id := by
  obtain ⟨⟨key, hkey, -⟩, -⟩ := (canonicalizeCounts_get isUuid defaultPathPairId hnonneg id count).1 h
  exact canonicalFileId_idem isUuid hkey defaultPathPairId

/-- Canonicalising the counts raised by the canonical ones raises nothing further. -/
theorem countsOf_raiseCounts {counts : Dict Str Int} (hnonneg : ∀ item ∈ counts.items, 0 ≤ item.2) (id : Str)
    (count : Int) :
    IsGreatest (countsOf isUuid defaultPathPairId
        (raiseCounts counts (canonicalizeCounts isUuid defaultPathPairId counts)).items id) count ↔
      IsGreatest (countsOf isUuid defaultPathPairId counts.items id) count := by
  -- A raised count is that of the key itself, or the canonical count of the id.
  have hraised : ∀ {key c}, canonicalFileId isUuid key defaultPathPairId = some id →
      (key, c) ∈ (raiseCounts counts (canonicalizeCounts isUuid defaultPathPairId counts)).items →
      (key, c) ∈ counts.items ∨
        key = id ∧ ∃ m, (canonicalizeCounts isUuid defaultPathPairId counts).get id = some m ∧
          c = max ((counts.get id).getD 0) m := by
    intro key c hkey hmem
    rw [← Dict.get_eq_some, raiseCounts_get] at hmem
    split at hmem
    · exact .inl ((Dict.get_eq_some _ _ _).1 hmem)
    · next m hm =>
      have hself := canonical_of_get isUuid defaultPathPairId hnonneg hm
      obtain rfl : key = id := Option.some.inj (hself.symm.trans hkey)
      exact .inr ⟨rfl, m, hm, (Option.some.inj hmem).symm⟩
  cases hget : (canonicalizeCounts isUuid defaultPathPairId counts).get id with
  | none =>
    have hsame : countsOf isUuid defaultPathPairId
        (raiseCounts counts (canonicalizeCounts isUuid defaultPathPairId counts)).items id =
        countsOf isUuid defaultPathPairId counts.items id := by
      ext c
      constructor
      · rintro ⟨key, hkey, hmem⟩
        rcases hraised hkey hmem with hold | ⟨-, m, hm, -⟩
        · exact ⟨key, hkey, hold⟩
        · rw [hget] at hm
          cases hm
      · rintro ⟨key, hkey, hmem⟩
        refine ⟨key, hkey, (Dict.get_eq_some _ _ _).1 ?_⟩
        rw [raiseCounts_get]
        cases hm : (canonicalizeCounts isUuid defaultPathPairId counts).get key with
        | none => exact (Dict.get_eq_some _ _ _).2 hmem
        | some m =>
          have hself := canonical_of_get isUuid defaultPathPairId hnonneg hm
          rw [Option.some.inj (hself.symm.trans hkey), hget] at hm
          cases hm
    rw [hsame]
  | some greatest =>
    have hgreatest := (canonicalizeCounts_get isUuid defaultPathPairId hnonneg id greatest).1 hget
    obtain ⟨⟨origin, horigin, hmem⟩, hupper⟩ := hgreatest
    have hself := canonicalFileId_idem isUuid horigin defaultPathPairId
    have hold : (counts.get id).getD 0 ≤ greatest := by
      cases hid : counts.get id with
      | none => exact hnonneg _ hmem
      | some c => exact hupper ⟨id, hself, (Dict.get_eq_some _ _ _).1 hid⟩
    have hnew : IsGreatest (countsOf isUuid defaultPathPairId
        (raiseCounts counts (canonicalizeCounts isUuid defaultPathPairId counts)).items id) greatest := by
      constructor
      · refine ⟨id, hself, (Dict.get_eq_some _ _ _).1 ?_⟩
        simp only [raiseCounts_get, hget, max_eq_right hold]
      · rintro c ⟨key, hkey, hc⟩
        rcases hraised hkey hc with hc | ⟨-, m, hm, rfl⟩
        · exact hupper ⟨key, hkey, hc⟩
        · rw [hget] at hm
          obtain rfl := Option.some.inj hm
          exact max_le hold le_rfl
    constructor
    · intro h
      rw [h.unique hnew]
      exact ⟨⟨origin, horigin, hmem⟩, hupper⟩
    · intro h
      rwa [h.unique ⟨⟨origin, horigin, hmem⟩, hupper⟩]

/-! ## Timestamps -/

/-- The timestamp of an id: its own, or that of the first key that canonicalises to it. -/
def timestampOf (items : List (Str × JsonFloat)) (id : Str) : Option JsonFloat :=
  (items.find? fun item => canonicalFileId isUuid item.1 defaultPathPairId = some id).map fun item =>
    (Dict.getItem items id).getD item.2

theorem timestampOf_none {items : List (Str × JsonFloat)} {id : Str} :
    timestampOf isUuid defaultPathPairId items id = none ↔
      ∀ item ∈ items, canonicalFileId isUuid item.1 defaultPathPairId ≠ some id := by
  simp [timestampOf]

/-- One more item counts when it is the first of its id or stands under the id itself. -/
theorem timestampOf_append {items : List (Str × JsonFloat)} {key : Str} {value : JsonFloat} (id : Str)
    (hnew : key ∉ items.map Prod.fst) :
    timestampOf isUuid defaultPathPairId (items ++ [(key, value)]) id =
      if canonicalFileId isUuid key defaultPathPairId = some id ∧
          (timestampOf isUuid defaultPathPairId items id = none ∨ key = id) then some value
      else timestampOf isUuid defaultPathPairId items id := by
  unfold timestampOf
  rw [List.find?_append, List.find?_singleton, Dict.getItem_concat hnew]
  cases hfind : items.find? fun item => canonicalFileId isUuid item.1 defaultPathPairId = some id with
  | none =>
    by_cases hkey : canonicalFileId isUuid key defaultPathPairId = some id
    · -- The id is canonical, so no item before stands under it.
      have habsent : Dict.getItem items id = none := by
        rw [Option.eq_none_iff_forall_ne_some]
        intro v hv
        have hmem : (id, v) ∈ items := Dict.mem_of_getItem hv
        have := List.find?_eq_none.1 hfind (id, v) hmem
        exact this (by simpa using canonicalFileId_idem isUuid hkey defaultPathPairId)
      simp only [hkey, decide_true, Option.none_or, if_true, Option.map_some, Option.map_none, true_or, and_self, habsent]
      split_ifs <;> rfl
    · simp [hkey]
  | some first =>
    have hself : canonicalFileId isUuid id defaultPathPairId = some id := by
      have := List.find?_some hfind
      exact canonicalFileId_idem isUuid (by simpa using this) defaultPathPairId
    simp only [Option.some_or, Option.map_some, reduceCtorEq, false_or]
    by_cases hkey : key = id
    · subst hkey
      have habsent : Dict.getItem items key = none := by
        rw [Option.eq_none_iff_forall_ne_some]
        intro v hv
        exact hnew (List.mem_map_of_mem (Dict.mem_of_getItem hv))
      simp [hself, habsent]
    · simp [hkey]

/-- The loop of `_canonicalize_timestamps` keeps that timestamp. -/
theorem canonicalizeTimestamps_get (timestamps : Dict Str JsonFloat) (id : Str) :
    (canonicalizeTimestamps isUuid defaultPathPairId timestamps).get id =
      timestampOf isUuid defaultPathPairId timestamps.items id := by
  obtain ⟨items, hnodup⟩ := timestamps
  unfold canonicalizeTimestamps
  simp only
  induction items using List.reverseRecOn with
  | nil => rfl
  | append_singleton items item ih =>
    obtain ⟨key, value⟩ := item
    rw [List.map_append, List.map_singleton, List.nodup_append] at hnodup
    have hnew : key ∉ items.map Prod.fst := fun hmem => hnodup.2.2 key hmem key (by simp) rfl
    have hitems := ih hnodup.1
    rw [timestampOf_append isUuid defaultPathPairId id hnew, ← hitems]
    simp only [List.foldl_append, List.foldl_cons, List.foldl_nil]
    generalize items.foldl _ ({} : Dict Str JsonFloat) = before
    cases hkey : canonicalFileId isUuid key defaultPathPairId with
    | none => simp
    | some normalized =>
      by_cases hid : normalized = id
      · subst hid
        simp only [true_and]
        split_ifs
        · exact Dict.get_set_self _ _ _
        · rfl
      · have hne : ¬ some normalized = some id := by simpa using hid
        simp only [hne, false_and, if_false]
        split_ifs
        · exact Dict.get_set_ne _ hid _
        · rfl

theorem updateTimestamps_get (self other : Dict Str JsonFloat) (key : Str) :
    (updateTimestamps self other).get key = (other.get key).or (self.get key) := by
  have hget := Dict.get_foldl_set (fun _ value => value) self other.nodup key
  rw [updateTimestamps, hget]
  simp only [Dict.get]
  cases Dict.getItem other.items key <;> rfl

theorem canonical_of_timestampOf {items : List (Str × JsonFloat)} {id : Str} {value : JsonFloat}
    (h : timestampOf isUuid defaultPathPairId items id = some value) :
    canonicalFileId isUuid id defaultPathPairId = some id := by
  obtain ⟨item, hfind, -⟩ := Option.map_eq_some_iff.1 h
  have := List.find?_some hfind
  exact canonicalFileId_idem isUuid (by simpa using this) defaultPathPairId

/-- Canonicalising the union with the canonical timestamps changes none of them. -/
theorem timestampOf_updateTimestamps (timestamps : Dict Str JsonFloat) (id : Str) :
    timestampOf isUuid defaultPathPairId
        (updateTimestamps timestamps (canonicalizeTimestamps isUuid defaultPathPairId timestamps)).items id =
      timestampOf isUuid defaultPathPairId timestamps.items id := by
  cases hid : timestampOf isUuid defaultPathPairId timestamps.items id with
  | none =>
    rw [timestampOf_none]
    rintro ⟨key, value⟩ hmem hkey
    rw [← Dict.get_eq_some, updateTimestamps_get, canonicalizeTimestamps_get] at hmem
    cases hcanonical : timestampOf isUuid defaultPathPairId timestamps.items key with
    | some v =>
      have hself := canonical_of_timestampOf isUuid defaultPathPairId hcanonical
      rw [Option.some.inj (hself.symm.trans hkey), hid] at hcanonical
      cases hcanonical
    | none =>
      rw [hcanonical, Option.none_or, Dict.get_eq_some] at hmem
      exact (timestampOf_none isUuid defaultPathPairId).1 hid (key, value) hmem hkey
  | some value =>
    have hget : (updateTimestamps timestamps (canonicalizeTimestamps isUuid defaultPathPairId timestamps)).get id =
        some value := by
      rw [updateTimestamps_get, canonicalizeTimestamps_get, hid, Option.some_or]
    have hself := canonical_of_timestampOf isUuid defaultPathPairId hid
    unfold timestampOf
    cases hfind : (updateTimestamps timestamps
        (canonicalizeTimestamps isUuid defaultPathPairId timestamps)).items.find?
          fun item => canonicalFileId isUuid item.1 defaultPathPairId = some id with
    | none =>
      have hmem := (Dict.get_eq_some _ _ _).1 hget
      exact absurd (by simpa using hself) (List.find?_eq_none.1 hfind _ hmem)
    | some first =>
      rw [Dict.get] at hget
      rw [Option.map_some, hget, Option.getD_some]

end

/-! ## Reloading -/

section

variable {env : PersistEnv} {p : ControllerPersist} (defaultPathPairId : Option Str)

theorem joined_canonicalizeSet {keys : NameSet} :
    ∀ name ∈ (canonicalizeSet env.isUuid defaultPathPairId keys).names, name.Joined := by
  intro name hname
  obtain ⟨key, -, hkey⟩ := (mem_canonicalizeSet env.isUuid defaultPathPairId keys name).1 hname
  exact canonicalFileId_joined env.isUuid hkey

theorem joined_update {keys : NameSet} (h : ∀ name ∈ keys.names, name.Joined) :
    ∀ name ∈ (keys.update (canonicalizeSet env.isUuid defaultPathPairId keys)).names, name.Joined := by
  intro name hname
  rcases (NameSet.mem_update name keys _).1 hname with hname | hname
  · exact h name hname
  · exact joined_canonicalizeSet defaultPathPairId name hname

theorem canonicalizeTimestamps_kept {timestamps : Dict Str JsonFloat}
    (h : ∀ item ∈ timestamps.items, item.1.Joined ∧ IsTimestamp item.2) :
    ∀ item ∈ (canonicalizeTimestamps env.isUuid defaultPathPairId timestamps).items,
      item.1.Joined ∧ IsTimestamp item.2 := by
  rintro ⟨id, value⟩ hmem
  rw [← Dict.get_eq_some, canonicalizeTimestamps_get] at hmem
  refine ⟨canonicalFileId_joined env.isUuid (canonical_of_timestampOf env.isUuid defaultPathPairId hmem), ?_⟩
  obtain ⟨first, hfind, rfl⟩ := Option.map_eq_some_iff.1 hmem
  cases hown : Dict.getItem timestamps.items id with
  | none => exact (h first (List.mem_of_find?_eq_some hfind)).2
  | some value => exact (h (id, value) (Dict.mem_of_getItem hown)).2

theorem updateTimestamps_kept {timestamps : Dict Str JsonFloat}
    (h : ∀ item ∈ timestamps.items, item.1.Joined ∧ IsTimestamp item.2) :
    ∀ item ∈ (updateTimestamps timestamps (canonicalizeTimestamps env.isUuid defaultPathPairId timestamps)).items,
      item.1.Joined ∧ IsTimestamp item.2 := by
  rintro ⟨key, value⟩ hmem
  rw [← Dict.get_eq_some, updateTimestamps_get] at hmem
  rcases Option.or_eq_some_iff.1 hmem with hmem | ⟨-, hmem⟩
  · exact canonicalizeTimestamps_kept defaultPathPairId h (key, value) ((Dict.get_eq_some _ _ _).1 hmem)
  · exact h (key, value) ((Dict.get_eq_some _ _ _).1 hmem)

/-- A count that `from_str` keeps, under a key that it keeps. -/
def CountKept (item : Str × Int) : Prop := item.1.Joined ∧ item.1.codes ≠ [] ∧ 0 ≤ item.2 ∧ item.2 ≤ 4

theorem canonicalizeCounts_kept {counts : Dict Str Int} (h : ∀ item ∈ counts.items, CountKept item) :
    ∀ item ∈ (canonicalizeCounts env.isUuid defaultPathPairId counts).items, CountKept item := by
  rintro ⟨id, count⟩ hmem
  rw [← Dict.get_eq_some, canonicalizeCounts_get env.isUuid defaultPathPairId fun item hitem => (h item hitem).2.2.1]
    at hmem
  obtain ⟨⟨key, hkey, hitem⟩, -⟩ := hmem
  have hself := canonicalFileId_idem env.isUuid hkey defaultPathPairId
  exact ⟨canonicalFileId_joined env.isUuid hself, canonicalFileId_ne_nil env.isUuid hself, (h _ hitem).2.2⟩

theorem raiseCounts_kept {counts : Dict Str Int} (h : ∀ item ∈ counts.items, CountKept item) :
    ∀ item ∈ (raiseCounts counts (canonicalizeCounts env.isUuid defaultPathPairId counts)).items, CountKept item := by
  rintro ⟨key, count⟩ hmem
  rw [← Dict.get_eq_some, raiseCounts_get] at hmem
  cases hcanonical : (canonicalizeCounts env.isUuid defaultPathPairId counts).get key with
  | none =>
    rw [hcanonical] at hmem
    exact h (key, count) ((Dict.get_eq_some _ _ _).1 hmem)
  | some greatest =>
    rw [hcanonical] at hmem
    obtain rfl := Option.some.inj hmem
    obtain ⟨hjoined, hne, hlow, hhigh⟩ :=
      canonicalizeCounts_kept defaultPathPairId h (key, greatest) ((Dict.get_eq_some _ _ _).1 hcanonical)
    refine ⟨hjoined, hne, le_max_of_le_right hlow, max_le ?_ hhigh⟩
    cases hold : counts.get key with
    | none => decide
    | some old => exact (h (key, old) ((Dict.get_eq_some _ _ _).1 hold)).2.2.2

/-- A call of `canonicalize_file_identities` leaves a state that is read back as it is. -/
theorem Reloadable.canonicalize (h : Reloadable env p) :
    Reloadable env (canonicalizeFileIdentities env.isUuid defaultPathPairId p).2 := by
  unfold canonicalizeFileIdentities
  split_ifs
  · exact h
  · exact {
      downloaded := joined_update defaultPathPairId h.downloaded
      extracted := joined_update defaultPathPairId h.extracted
      stopped := joined_update defaultPathPairId h.stopped
      finalMoveSucceeded := joined_update defaultPathPairId h.finalMoveSucceeded
      timestamps := updateTimestamps_kept defaultPathPairId h.timestamps
      counts := raiseCounts_kept defaultPathPairId h.counts
      resumeSources := h.resumeSources
      floors := h.floors
      phase := .inr (.inl rfl) }
  · exact {
      downloaded := joined_canonicalizeSet defaultPathPairId
      extracted := joined_canonicalizeSet defaultPathPairId
      stopped := joined_canonicalizeSet defaultPathPairId
      finalMoveSucceeded := joined_canonicalizeSet defaultPathPairId
      timestamps := canonicalizeTimestamps_kept defaultPathPairId h.timestamps
      counts := canonicalizeCounts_kept defaultPathPairId h.counts
      resumeSources := h.resumeSources
      floors := h.floors
      phase := .inr (.inr rfl) }

end

/-! ## Two calls -/

/-- The state as it is, or written with `to_str` and read back. -/
def reloadIf (env : PersistEnv) (reload : Bool) (p : ControllerPersist) : Except String ControllerPersist :=
  if reload then ControllerPersist.fromStr env p.toStr else .ok p

/-- Two calls of `canonicalize_file_identities`, with a reload before, between and after them. -/
def migrate (env : PersistEnv) (defaultPathPairId : Option Str) (before between after : Bool) (p : ControllerPersist) :
    Except String ControllerPersist := do
  let p ← reloadIf env before p
  let p ← reloadIf env between (canonicalizeFileIdentities env.isUuid defaultPathPairId p).2
  reloadIf env after (canonicalizeFileIdentities env.isUuid defaultPathPairId p).2

/-- The per-key canonicalisation of the markers: sets by union, counts by maximum, and a timestamp
of a key that is canonical before that of any other spelling. -/
structure PerKey (isUuid : Str → Bool) (defaultPathPairId : Option Str) (p final : ControllerPersist) : Prop where
  downloaded : ∀ id, id ∈ final.downloadedFileNames ↔
    ∃ key ∈ p.downloadedFileNames, canonicalFileId isUuid key defaultPathPairId = some id
  extracted : ∀ id, id ∈ final.extractedFileNames ↔
    ∃ key ∈ p.extractedFileNames, canonicalFileId isUuid key defaultPathPairId = some id
  stopped : ∀ id, id ∈ final.stoppedFileNames ↔
    ∃ key ∈ p.stoppedFileNames, canonicalFileId isUuid key defaultPathPairId = some id
  finalMoveSucceeded : ∀ id, id ∈ final.finalMoveSucceededFileNames ↔
    ∃ key ∈ p.finalMoveSucceededFileNames, canonicalFileId isUuid key defaultPathPairId = some id
  counts : ∀ id count, final.moveFailureCounts.get id = some count ↔
    IsGreatest {n | ∃ key, canonicalFileId isUuid key defaultPathPairId = some id ∧ (key, n) ∈ p.moveFailureCounts.items}
      count
  timestamps : ∀ id, final.downloadedTimestamps.get id =
    (p.downloadedTimestamps.items.find? fun item => canonicalFileId isUuid item.1 defaultPathPairId = some id).map
      fun item => (p.downloadedTimestamps.get id).getD item.2
  resumeSources : final.resumeSourceIdentities = p.resumeSourceIdentities
  floors : final.displayProgressFloors = p.displayProgressFloors

section

variable {env : PersistEnv} {p : ControllerPersist} (defaultPathPairId : Option Str)

theorem reloadIf_run (h : Reloadable env p) (reload : Bool) : reloadIf env reload p = .ok p := by
  unfold reloadIf
  split_ifs
  · exact fromStr_toStr h
  · rfl

theorem migrate_run (h : Reloadable env p) (before between after : Bool) :
    migrate env defaultPathPairId before between after p =
      .ok (canonicalizeFileIdentities env.isUuid defaultPathPairId
        (canonicalizeFileIdentities env.isUuid defaultPathPairId p).2).2 := by
  have hfirst := h.canonicalize defaultPathPairId
  have hsecond := hfirst.canonicalize defaultPathPairId
  simp only [migrate, reloadIf_run h, bind, Except.bind, reloadIf_run hfirst, reloadIf_run hsecond]

/-- The second phase alone, from a state of the first. -/
theorem perKey_of_phaseOne (h : Reloadable env p) (hphase : p.markerIdentityMigration = 1) :
    PerKey env.isUuid defaultPathPairId p (canonicalizeFileIdentities env.isUuid defaultPathPairId p).2 := by
  unfold canonicalizeFileIdentities
  rw [if_neg (by omega), if_neg (by omega)]
  exact {
    downloaded := mem_canonicalizeSet env.isUuid defaultPathPairId _
    extracted := mem_canonicalizeSet env.isUuid defaultPathPairId _
    stopped := mem_canonicalizeSet env.isUuid defaultPathPairId _
    finalMoveSucceeded := mem_canonicalizeSet env.isUuid defaultPathPairId _
    counts := canonicalizeCounts_get env.isUuid defaultPathPairId fun item hitem => (h.counts item hitem).2.2.1
    timestamps := canonicalizeTimestamps_get env.isUuid defaultPathPairId _
    resumeSources := rfl
    floors := rfl }

/-- Both phases: the second sees the mixture that the first left. -/
theorem perKey_of_phaseZero (h : Reloadable env p) (hphase : p.markerIdentityMigration = 0) :
    PerKey env.isUuid defaultPathPairId p (canonicalizeFileIdentities env.isUuid defaultPathPairId
      (canonicalizeFileIdentities env.isUuid defaultPathPairId p).2).2 := by
  have hmixed : (canonicalizeFileIdentities env.isUuid defaultPathPairId p).2.markerIdentityMigration = 1 := by
    unfold canonicalizeFileIdentities
    rw [if_neg (by omega), if_pos hphase]
  have hsecond := perKey_of_phaseOne defaultPathPairId (h.canonicalize defaultPathPairId) hmixed
  have hnonneg : ∀ item ∈ p.moveFailureCounts.items, 0 ≤ item.2 := fun item hitem => (h.counts item hitem).2.2.1
  have hset : ∀ keys : NameSet, ∀ id, (∃ key ∈ keys.update (canonicalizeSet env.isUuid defaultPathPairId keys),
      canonicalFileId env.isUuid key defaultPathPairId = some id) ↔
        ∃ key ∈ keys, canonicalFileId env.isUuid key defaultPathPairId = some id := by
    intro keys id
    rw [← mem_canonicalizeSet, ← mem_canonicalizeSet]
    exact mem_canonicalizeSet_update env.isUuid defaultPathPairId keys id
  have hstate : (canonicalizeFileIdentities env.isUuid defaultPathPairId p).2 =
      { p with
        downloadedFileNames := p.downloadedFileNames.update (canonicalizeSet env.isUuid defaultPathPairId p.downloadedFileNames)
        downloadedTimestamps := updateTimestamps p.downloadedTimestamps
          (canonicalizeTimestamps env.isUuid defaultPathPairId p.downloadedTimestamps)
        extractedFileNames := p.extractedFileNames.update (canonicalizeSet env.isUuid defaultPathPairId p.extractedFileNames)
        stoppedFileNames := p.stoppedFileNames.update (canonicalizeSet env.isUuid defaultPathPairId p.stoppedFileNames)
        finalMoveSucceededFileNames := p.finalMoveSucceededFileNames.update
          (canonicalizeSet env.isUuid defaultPathPairId p.finalMoveSucceededFileNames)
        moveFailureCounts := raiseCounts p.moveFailureCounts
          (canonicalizeCounts env.isUuid defaultPathPairId p.moveFailureCounts)
        markerIdentityMigration := 1 } := by
    unfold canonicalizeFileIdentities
    rw [if_neg (by omega), if_pos hphase]
  rw [hstate] at hsecond ⊢
  exact {
    downloaded := fun id => (hsecond.downloaded id).trans (hset _ id)
    extracted := fun id => (hsecond.extracted id).trans (hset _ id)
    stopped := fun id => (hsecond.stopped id).trans (hset _ id)
    finalMoveSucceeded := fun id => (hsecond.finalMoveSucceeded id).trans (hset _ id)
    counts := fun id count => (hsecond.counts id count).trans
      (countsOf_raiseCounts env.isUuid defaultPathPairId hnonneg id count)
    timestamps := fun id => (hsecond.timestamps id).trans
      (timestampOf_updateTimestamps env.isUuid defaultPathPairId p.downloadedTimestamps id)
    resumeSources := hsecond.resumeSources
    floors := hsecond.floors }

theorem canonicalize_phase (p : ControllerPersist) :
    (canonicalizeFileIdentities env.isUuid defaultPathPairId p).2.markerIdentityMigration =
      if 2 ≤ p.markerIdentityMigration then p.markerIdentityMigration
      else if p.markerIdentityMigration = 0 then 1 else 2 := by
  unfold canonicalizeFileIdentities
  split_ifs <;> rfl

theorem canonicalize_done (h : 2 ≤ p.markerIdentityMigration) :
    canonicalizeFileIdentities env.isUuid defaultPathPairId p = (false, p) := by
  unfold canonicalizeFileIdentities
  rw [if_pos h]

end

/-- Two calls reach one final state, whatever is reloaded on the way: the per-key canonicalisation.
A further call, with any default, changes nothing. -/
theorem migration_is_restart_safe (env : PersistEnv) (defaultPathPairId : Option Str) (p : ControllerPersist)
    (h : Reloadable env p) (hphase : p.markerIdentityMigration ≠ 2) :
    (∃ final : ControllerPersist,
      (∀ before between after, migrate env defaultPathPairId before between after p = .ok final) ∧
      PerKey env.isUuid defaultPathPairId p final ∧
      ∀ other, canonicalizeFileIdentities env.isUuid other final = (false, final)) ∧
    ∀ (key id : Str) (default other : Option Str),
      canonicalFileId env.isUuid key default = some id → canonicalFileId env.isUuid id other = some id := by
  refine ⟨⟨_, migrate_run defaultPathPairId h, ?_, ?_⟩, fun key id default other hid => canonicalFileId_idem env.isUuid hid other⟩
  · rcases h.phase with hzero | hone | htwo
    · exact perKey_of_phaseZero defaultPathPairId h hzero
    · have hdone : 2 ≤ (canonicalizeFileIdentities env.isUuid defaultPathPairId p).2.markerIdentityMigration := by
        rw [canonicalize_phase, if_neg (by omega), if_neg (by omega)]
      rw [canonicalize_done _ hdone]
      exact perKey_of_phaseOne defaultPathPairId h hone
    · exact absurd htwo hphase
  · intro other
    apply canonicalize_done
    rw [canonicalize_phase, canonicalize_phase]
    rcases h.phase with hzero | hone | htwo
    · simp [hzero]
    · simp [hone]
    · exact absurd htwo hphase

/-- A pair id of 36 characters that the sample takes for a UUID. -/
def sampleUuid : String := "00000000-0000-0000-0000-000000000001"

def sampleName (text : String) : Str := ⟨codes text, isText_codes text⟩

def sampleEnv : PersistEnv where
  isUuid text := decide (text.codes = codes sampleUuid)
  toFloat n := .decimal n 0
  percentOf bytes size := bytes * 100 / size
  decodeError _ := "Expecting value: line 1 column 1 (char 0)"

/-- A reload drops a negative timestamp that two calls in memory keep, and two calls leave a bare
key alone once the state says that the migration is done. -/
theorem reload_drops_and_done_keeps :
    let film := Identity.buildFileId (sampleName "film") (some (sampleName "p"))
    let negative : ControllerPersist := { downloadedTimestamps := .ofList [(film, .decimal (-1) 0)] }
    let done : ControllerPersist :=
      { downloadedFileNames := .ofList [sampleName "film"], markerIdentityMigration := 2 }
    let timestamps := fun answer : Except String ControllerPersist =>
      answer.toOption.map fun final => final.downloadedTimestamps.items
    let downloaded := fun answer : Except String ControllerPersist =>
      answer.toOption.map fun final => final.downloadedFileNames.names
    (timestamps (migrate sampleEnv none false false false negative) = some [(film, .decimal (-1) 0)] ∧
      timestamps (migrate sampleEnv none true false false negative) = some []) ∧
    (downloaded (migrate sampleEnv (some (sampleName "p")) false false false done) = some [sampleName "film"] ∧
      canonicalFileId sampleEnv.isUuid (sampleName "film") (some (sampleName "p")) = some film) := by
  decide +kernel

/-- One file under four spellings of its key. -/
def spelledFourWays : ControllerPersist where
  downloadedFileNames := .ofList [sampleName "film", sampleName (sampleUuid ++ ":film")]
  extractedFileNames := .ofList [sampleName (sampleUuid ++ "\x1ffilm")]
  moveFailureCounts := .ofList [(sampleName (sampleUuid ++ ":film"), 3), (sampleName "film", 1)]
  downloadedTimestamps := .ofList [(sampleName "film", .decimal 5 0),
    (Identity.buildFileId (sampleName "film") (some (sampleName sampleUuid)), .decimal 7 0)]

theorem spelledFourWays_reloadable : Reloadable sampleEnv spelledFourWays where
  downloaded := by decide +kernel
  extracted := by decide +kernel
  stopped := by decide +kernel
  finalMoveSucceeded := by decide +kernel
  timestamps := by decide +kernel
  counts := by decide +kernel
  resumeSources := by decide +kernel
  floors := by
    intro item hitem
    simp [spelledFourWays] at hitem
  phase := .inl rfl

theorem spelledFourWays_migrated :
    ∃ final : ControllerPersist,
      (∀ before between after,
        migrate sampleEnv (some (sampleName sampleUuid)) before between after spelledFourWays = .ok final) ∧
      PerKey sampleEnv.isUuid (some (sampleName sampleUuid)) spelledFourWays final :=
  have h := migration_is_restart_safe sampleEnv (some (sampleName sampleUuid)) spelledFourWays
    spelledFourWays_reloadable (by decide)
  let ⟨final, hrun, hkeys, _⟩ := h.1
  ⟨final, hrun, hkeys⟩

end SeedSync.Persist
