import Mathlib.Data.List.Lex
import Mathlib.Data.List.Sort
import Mathlib.Data.List.DropRight
import SeedSync.Lib.Collect
import SeedSync.Lib.Text
import SeedSync.Model.Identity

/-!
# The collection of path pairs

`PathPairCollection` of `path_pair.py`. An id or a name that is there already is refused by
`add_pair` and `update_pair`; `reorder_pairs` takes for granted that no id is there twice.
-/

namespace SeedSync.PathPairs

open Lib Identity

structure PathPair where
  remotePath : Str
  localPath : Str
  name : Str
  id : Str
  enabled : Bool
  autoQueue : Bool
  deriving DecidableEq

/-- What the operations raise. -/
inductive PathPairError where
  | invalid (message : Codes)
  | conflict (message : Codes)
  | persist (message : Codes)
  | key (id : Str)

/-- `str(exc)` -/
def PathPairError.text : PathPairError → Codes
  | .invalid message | .conflict message | .persist message => message
  | .key id => id.codes

/-- `"Path pair '{}': …".format(name)` -/
def pairMessage (name : Str) (complaint : String) : Codes := codes "Path pair '" ++ name.codes ++ codes ("': " ++ complaint)

/-- `"Path pair with id '{}' …".format(value)` -/
def withMessage (field : String) (value : Str) (complaint : String) : Codes :=
  codes ("Path pair with " ++ field ++ " '") ++ value.codes ++ codes ("' " ++ complaint)

namespace PathPair

/-- `os.path.basename(path.rstrip("/"))` -/
def baseName (path : Codes) : Codes := (path.rdropWhile (· == 47)).rtakeWhile (· != 47)

theorem isText_baseName {path : Codes} (h : IsText path) : IsText (baseName path) := fun c hc =>
  h c ((List.rdropWhile_prefix (· == 47) path).subset ((List.rtakeWhile_suffix (· != 47) _).subset hc))

/-- `os.path.basename(self.remote_path.rstrip("/")) or "Default"` -/
def defaultName (remotePath : Str) : Str :=
  if baseName remotePath.codes = [] then ⟨codes "Default", isText_codes _⟩
  else ⟨baseName remotePath.codes, isText_baseName remotePath.valid⟩

/-- `__post_init__` -/
def postInit (self : PathPair) : PathPair :=
  if self.name.codes = [] then { self with name := defaultName self.remotePath } else self

/-- `validate`: the warnings, of which there are none. -/
def validate (self : PathPair) : Except PathPairError (List Codes) :=
  if strip self.remotePath.codes = [] then .error (.invalid (pairMessage self.name "remote_path cannot be empty"))
  else if strip self.localPath.codes = [] then .error (.invalid (pairMessage self.name "local_path cannot be empty"))
  else if self.id.codes = [] then .error (.invalid (pairMessage self.name "id cannot be empty"))
  else .ok []

theorem defaultName_ne (remotePath : Str) : (defaultName remotePath).codes ≠ [] := by
  unfold defaultName
  split_ifs with h
  · decide
  · exact h

theorem postInit_name (self : PathPair) : self.postInit.name.codes ≠ [] := by
  unfold postInit
  split_ifs with h
  · exact defaultName_ne self.remotePath
  · exact h

theorem postInit_eq {self : PathPair} (h : self.name.codes ≠ []) : self.postInit = self := if_neg h

theorem validate_ok {self : PathPair} {warnings : List Codes} (h : self.validate = .ok warnings) : warnings = [] := by
  unfold validate at h
  split_ifs at h
  cases h
  rfl

end PathPair

/-- A version is an integer, and a boolean is one. -/
inductive Version where
  | int (value : Int)
  | bool (value : Bool)
  deriving DecidableEq

structure PathPairCollection where
  pathPairs : List PathPair := []
  version : Version := .int 1
  deriving DecidableEq

namespace PathPairCollection

/-- `get_pair_by_id` -/
def getPairById (self : PathPairCollection) (pairId : Str) : Option PathPair :=
  self.pathPairs.find? fun pair => decide (pair.id = pairId)

/-- `get_pair_by_name` -/
def getPairByName (self : PathPairCollection) (name : Str) : Option PathPair :=
  self.pathPairs.find? fun pair => decide (pair.name = name)

/-- What an operation returns or raises, and the collection it leaves. -/
abbrev Mutation (α : Type) := PathPairCollection → Except PathPairError α × PathPairCollection

/-- `add_pair` -/
def addPair (pair : PathPair) : Mutation (List Codes) := fun self =>
  match pair.validate with
  | .error e => (.error e, self)
  | .ok warnings =>
    if (self.getPairById pair.id).isSome then (.error (.invalid (withMessage "id" pair.id "already exists")), self)
    else if (self.getPairByName pair.name).isSome then
      (.error (.conflict (withMessage "name" pair.name "already exists")), self)
    else (.ok warnings, { self with pathPairs := self.pathPairs ++ [pair] })

/-- `self.path_pairs[index] = pair` at the first of that id. -/
def replaceFirst (pair : PathPair) : List PathPair → List PathPair
  | [] => []
  | existing :: pairs => if existing.id = pair.id then pair :: pairs else existing :: replaceFirst pair pairs

/-- `update_pair` -/
def updatePair (pair : PathPair) : Mutation (List Codes) := fun self =>
  match pair.validate with
  | .error e => (.error e, self)
  | .ok warnings =>
    match self.getPairById pair.id with
    | none => (.error (.invalid (withMessage "id" pair.id "not found")), self)
    | some existing =>
      if existing.name ≠ pair.name ∧ (self.getPairByName pair.name).isSome then
        (.error (.conflict (withMessage "name" pair.name "already exists")), self)
      else (.ok warnings, { self with pathPairs := replaceFirst pair self.pathPairs })

/-- `remove_pair` -/
def removePair (pairId : Str) : Mutation Unit := fun self =>
  if (self.getPairById pairId).isSome then
    (.ok (), { self with pathPairs := self.pathPairs.eraseP fun pair => decide (pair.id = pairId) })
  else (.error (.invalid (withMessage "id" pairId "not found")), self)

/-- `sorted(ids)` -/
def sortedIds (ids : List Str) : List Codes := (ids.map Str.codes).insertionSort (· ≤ ·)

/-- `pairs_by_id[pair_id]`, of the pairs by their ids. -/
def pairNamed (self : PathPairCollection) (pairId : Str) : Except PathPairError PathPair :=
  match (Dict.ofList (self.pathPairs.map fun pair => (pair.id, pair))).get pairId with
  | none => .error (.key pairId)
  | some pair => .ok pair

/-- `reorder_pairs` -/
def reorderPairs (pairIds : List Str) : Mutation Unit := fun self =>
  if sortedIds pairIds ≠ sortedIds (self.pathPairs.map PathPair.id) then
    (.error (.invalid (codes "Reorder list must contain all existing path pair IDs")), self)
  else
    match pairIds.mapM self.pairNamed with
    | .error e => (.error e, self)
    | .ok pairs => (.ok (), { self with pathPairs := pairs })

/-! ## No id and no name twice -/

/-- No two pairs share an id, and no two a name. -/
structure WellFormed (collection : PathPairCollection) : Prop where
  ids : (collection.pathPairs.map PathPair.id).Nodup
  names : (collection.pathPairs.map PathPair.name).Nodup

section Operations

variable {self : PathPairCollection} {pair : PathPair}

theorem addPair_ok {warnings : List Codes} (h : (addPair pair self).1 = .ok warnings) :
    pair.validate = .ok [] ∧ pair.id ∉ self.pathPairs.map PathPair.id ∧ pair.name ∉ self.pathPairs.map PathPair.name ∧
      (addPair pair self).2 = { self with pathPairs := self.pathPairs ++ [pair] } := by
  unfold addPair at h ⊢
  cases hvalid : pair.validate with
  | error e =>
    rw [hvalid] at h
    cases h
  | ok found =>
    rw [hvalid] at h
    dsimp only at h ⊢
    split_ifs at h ⊢ with hid hname
    · refine ⟨congrArg _ (PathPair.validate_ok hvalid), fun hmem => hid ?_, fun hmem => hname ?_, rfl⟩
      · obtain ⟨other, hother, heq⟩ := List.mem_map.1 hmem
        exact List.find?_isSome.2 ⟨other, hother, by simpa using heq⟩
      · obtain ⟨other, hother, heq⟩ := List.mem_map.1 hmem
        exact List.find?_isSome.2 ⟨other, hother, by simpa using heq⟩

theorem wellFormed_addPair {warnings : List Codes} (hself : self.WellFormed) (h : (addPair pair self).1 = .ok warnings) :
    (addPair pair self).2.WellFormed := by
  obtain ⟨-, hid, hname, hnew⟩ := addPair_ok h
  rw [hnew]
  constructor
  · simpa [List.nodup_append, hself.ids] using hid
  · simpa [List.nodup_append, hself.names] using hname

theorem replaceFirst_append {before after : List PathPair} {existing : PathPair} (h : existing.id = pair.id)
    (hbefore : ∀ other ∈ before, other.id ≠ pair.id) :
    replaceFirst pair (before ++ existing :: after) = before ++ pair :: after := by
  induction before with
  | nil => rw [List.nil_append, List.nil_append, replaceFirst, if_pos h]
  | cons other before ih =>
    rw [List.cons_append, replaceFirst, if_neg (hbefore other List.mem_cons_self),
      ih fun each heach => hbefore each (List.mem_cons_of_mem other heach), List.cons_append]

/-- The first pair of the id is the one that is replaced. -/
theorem updatePair_ok {warnings : List Codes} (h : (updatePair pair self).1 = .ok warnings) :
    pair.validate = .ok [] ∧ ∃ before existing after, self.pathPairs = before ++ existing :: after ∧
      existing.id = pair.id ∧ (existing.name = pair.name ∨ pair.name ∉ self.pathPairs.map PathPair.name) ∧
      (updatePair pair self).2 = { self with pathPairs := before ++ pair :: after } := by
  unfold updatePair at h ⊢
  cases hvalid : pair.validate with
  | error e =>
    rw [hvalid] at h
    cases h
  | ok found =>
    rw [hvalid] at h
    dsimp only at h ⊢
    cases hfound : self.getPairById pair.id with
    | none =>
      rw [hfound] at h
      cases h
    | some existing =>
      rw [hfound] at h
      dsimp only at h ⊢
      obtain ⟨hid, before, after, hsplit, hbefore⟩ := List.find?_eq_some_iff_append.1 hfound
      split_ifs at h ⊢ with hname
      · refine ⟨congrArg _ (PathPair.validate_ok hvalid), before, existing, after, hsplit, by simpa using hid, ?_, ?_⟩
        · by_contra hboth
          rw [not_or, not_not] at hboth
          obtain ⟨other, hother, heq⟩ := List.mem_map.1 hboth.2
          exact hname ⟨hboth.1, List.find?_isSome.2 ⟨other, hother, by simpa using heq⟩⟩
        · rw [hsplit, replaceFirst_append (by simpa using hid) fun other hother => by simpa using hbefore other hother]

theorem wellFormed_updatePair {warnings : List Codes} (hself : self.WellFormed)
    (h : (updatePair pair self).1 = .ok warnings) : (updatePair pair self).2.WellFormed := by
  obtain ⟨-, before, existing, after, hsplit, hid, hname, hnew⟩ := updatePair_ok h
  obtain ⟨hids, hnames⟩ := hself
  rw [hnew]
  rw [hsplit] at hids hnames hname
  simp only [List.map_append, List.map_cons] at hids hnames hname
  constructor
  · simpa only [List.map_append, List.map_cons, ← hid] using hids
  · simp only [List.map_append, List.map_cons]
    rcases hname with hsame | hnew
    · rwa [← hsame]
    · rw [List.nodup_middle] at hnames ⊢
      refine List.nodup_cons.2 ⟨fun hmem => hnew ?_, (List.nodup_cons.1 hnames).2⟩
      rcases List.mem_append.1 hmem with hmem | hmem
      · exact List.mem_append_left _ hmem
      · exact List.mem_append_right _ (List.mem_cons_of_mem _ hmem)

theorem removePair_ok {pairId : Str} (h : (removePair pairId self).1 = .ok ()) :
    (removePair pairId self).2 =
      { self with pathPairs := self.pathPairs.eraseP fun pair => decide (pair.id = pairId) } := by
  unfold removePair at h ⊢
  split_ifs at h ⊢
  rfl

theorem wellFormed_removePair {pairId : Str} (hself : self.WellFormed) (h : (removePair pairId self).1 = .ok ()) :
    (removePair pairId self).2.WellFormed := by
  rw [removePair_ok h]
  have hsub := List.eraseP_sublist (l := self.pathPairs) (p := fun pair => decide (pair.id = pairId))
  exact ⟨hself.ids.sublist (hsub.map _), hself.names.sublist (hsub.map _)⟩

theorem sortedIds_eq_iff {xs ys : List Str} : sortedIds xs = sortedIds ys ↔ xs.Perm ys := by
  have hinjective : Function.Injective Str.codes := fun a b h => by
    cases a
    cases b
    simp_all
  unfold sortedIds
  rw [← List.map_perm_map_iff hinjective]
  constructor
  · intro h
    have hleft := List.perm_insertionSort (· ≤ ·) (xs.map Str.codes)
    rw [h] at hleft
    exact hleft.symm.trans (List.perm_insertionSort _ _)
  · intro h
    refine List.Perm.eq_of_pairwise' (List.pairwise_insertionSort _ _) (List.pairwise_insertionSort _ _) ?_
    exact ((List.perm_insertionSort _ _).trans h).trans (List.perm_insertionSort _ _).symm

/-- With no id twice every id gives its pair. -/
theorem mapM_pairNamed (hself : self.WellFormed) : (self.pathPairs.map PathPair.id).mapM self.pairNamed = .ok self.pathPairs := by
  rw [mapM_eq_ok_iff, List.forall₂_map_left_iff]
  refine List.forall₂_same.2 fun pair hpair => ?_
  have hkeys : ((self.pathPairs.map fun pair => (pair.id, pair)).map Prod.fst).Nodup := by
    rw [List.map_map]
    exact hself.ids
  unfold pairNamed
  rw [(Dict.get_eq_some _ _ _).2 (by rw [Dict.ofList_items hkeys]; exact List.mem_map.2 ⟨pair, hpair, rfl⟩)]

/-- A reordering keeps every pair once. -/
theorem reorderPairs_ok (hself : self.WellFormed) {pairIds : List Str} (h : (reorderPairs pairIds self).1 = .ok ()) :
    ∃ pairs, pairs.Perm self.pathPairs ∧ (reorderPairs pairIds self).2 = { self with pathPairs := pairs } := by
  unfold reorderPairs at h ⊢
  split_ifs at h ⊢ with hsorted
  · obtain ⟨pairs, hpairs, hperm⟩ := mapM_perm (sortedIds_eq_iff.1 (not_not.1 hsorted)) (mapM_pairNamed hself)
    rw [hpairs]
    exact ⟨pairs, hperm, rfl⟩

theorem wellFormed_reorderPairs (hself : self.WellFormed) {pairIds : List Str}
    (h : (reorderPairs pairIds self).1 = .ok ()) : (reorderPairs pairIds self).2.WellFormed := by
  obtain ⟨pairs, hperm, hnew⟩ := reorderPairs_ok hself h
  rw [hnew]
  exact ⟨(hperm.map _).nodup_iff.2 hself.ids, (hperm.map _).nodup_iff.2 hself.names⟩

end Operations

end PathPairCollection

end SeedSync.PathPairs
