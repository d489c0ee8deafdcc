import Mathlib.Algebra.Ring.Nat
import Mathlib.Data.List.Basic
import Mathlib.Data.List.Nodup

/-!
# The trees a scan returns

`SystemFile` of `system/file.py`, and the tree walks of the model builder that the
scan accumulator calls. A tree is a value here: no code path of the source writes to
a tree after it was handed over.
-/

namespace SeedSync

/-- A path pair id. `none` is the pair of an installation without path pairs. -/
abbrev PairId := Option String

instance lawfulPairId : LawfulBEq PairId := Option.instLawfulBEq String

/-- A wall clock reading in microseconds, and the offset it was taken at when it has one. -/
structure Timestamp where
  wall : Int
  utcoffset : Option Int
  deriving DecidableEq, Repr

/-- `datetime.__eq__`: readings with an offset are equal at one instant, and to none without. -/
def Timestamp.compared (time : Timestamp) : Timestamp :=
  match time.utcoffset with
  | none => time
  | some offset => ⟨time.wall - offset, some 0⟩

/-- What `SystemFile` keeps for one node, less its children. -/
structure FileAttrs where
  name : String
  size : Nat
  isDir : Bool := false
  timestampCreated : Option Timestamp := none
  timestampModified : Option Timestamp := none
  mtimeNs : Option Int := none
  pathPairId : Option String := none
  pathPairName : Option String := none
  isStaging : Bool := false
  hasStagingOrigin : Option Bool := none
  hasStagingCollision : Bool := false
  statusSidecarReady : Bool := false
  deriving DecidableEq, Repr

inductive SystemFile where
  | mk (attrs : FileAttrs) (children : List SystemFile)
  deriving Repr

namespace SystemFile

def attrs : SystemFile → FileAttrs
  | mk attrs _ => attrs

def children : SystemFile → List SystemFile
  | mk _ children => children

def name (file : SystemFile) : String := file.attrs.name
def size (file : SystemFile) : Nat := file.attrs.size
def isDir (file : SystemFile) : Bool := file.attrs.isDir
def pathPairId (file : SystemFile) : Option String := file.attrs.pathPairId
def isStaging (file : SystemFile) : Bool := file.attrs.isStaging
def hasStagingCollision (file : SystemFile) : Bool := file.attrs.hasStagingCollision

@[simp] theorem attrs_mk (a : FileAttrs) (cs : List SystemFile) : (mk a cs).attrs = a := rfl
@[simp] theorem children_mk (a : FileAttrs) (cs : List SystemFile) : (mk a cs).children = cs := rfl
@[simp] theorem mk_attrs_children (f : SystemFile) : mk f.attrs f.children = f := by cases f; rfl

/-! ## Equality and induction -/

mutual
def decEq : (a b : SystemFile) → Decidable (a = b)
  | mk x xs, mk y ys =>
    match instDecidableEqFileAttrs x y, decEqList xs ys with
    | isTrue h, isTrue hs => isTrue (by rw [h, hs])
    | isFalse h, _ => isFalse (by simp [h])
    | _, isFalse h => isFalse (by simp [h])

def decEqList : (a b : List SystemFile) → Decidable (a = b)
  | [], [] => isTrue rfl
  | [], _ :: _ => isFalse (by simp)
  | _ :: _, [] => isFalse (by simp)
  | x :: xs, y :: ys =>
    match decEq x y, decEqList xs ys with
    | isTrue h, isTrue hs => isTrue (by rw [h, hs])
    | isFalse h, _ => isFalse (by simp [h])
    | _, isFalse h => isFalse (by simp [h])
end

instance : DecidableEq SystemFile := decEq

/-- Induction on a tree, with the hypothesis for every child. -/
theorem tree_induction {P : SystemFile → Prop}
    (node : ∀ a cs, (∀ c ∈ cs, P c) → P (mk a cs)) (f : SystemFile) : P f := by
  refine @SystemFile.rec P (fun cs => ∀ c ∈ cs, P c) node (by simp) ?_ f
  intro c cs hc hcs d hd
  rcases List.mem_cons.mp hd with rfl | hd
  · exact hc
  · exact hcs d hd

/-! ## Children by name -/

/-- `{child.name: child for child in children}.get(name)`: the last sibling of a name wins. -/
def childNamed : List SystemFile → String → Option SystemFile
  | [], _ => none
  | c :: cs, n =>
    match childNamed cs n with
    | some f => some f
    | none => if c.name = n then some c else none

/-- The node that a path of names leads to. -/
def nodeAt : SystemFile → List String → Option SystemFile
  | file, [] => some file
  | file, n :: path =>
    match childNamed file.children n with
    | some child => nodeAt child path
    | none => none

/-- Only directories have children, and no two siblings share a name. -/
inductive WellFormed : SystemFile → Prop
  | mk {a : FileAttrs} {cs : List SystemFile} (leaf : a.isDir = false → cs = [])
      (here : (cs.map name).Nodup) (below : ∀ c ∈ cs, WellFormed c) : WellFormed (mk a cs)

theorem childNamed_mem {cs : List SystemFile} {n : String} {f : SystemFile}
    (h : childNamed cs n = some f) : f ∈ cs ∧ f.name = n := by
  induction cs with
  | nil => simp [childNamed] at h
  | cons c cs ih =>
    rw [childNamed] at h
    split at h
    · obtain ⟨hm, hn⟩ := ih (by simp_all)
      exact ⟨List.mem_cons_of_mem _ hm, hn⟩
    · split_ifs at h with hc
      cases h
      exact ⟨List.mem_cons_self, hc⟩

theorem childNamed_eq_none {cs : List SystemFile} {n : String} (h : ∀ c ∈ cs, c.name ≠ n) :
    childNamed cs n = none := by
  induction cs with
  | nil => rfl
  | cons c cs ih =>
    rw [childNamed, ih (fun d hd => h d (List.mem_cons_of_mem _ hd))]
    simp [h c List.mem_cons_self]

/-- With distinct names, a child is found under its name. -/
theorem childNamed_of_mem {cs : List SystemFile} (hnodup : (cs.map name).Nodup) {f : SystemFile} (h : f ∈ cs) :
    childNamed cs f.name = some f := by
  induction cs with
  | nil => cases h
  | cons c cs ih =>
    rw [List.map_cons, List.nodup_cons] at hnodup
    rcases List.mem_cons.mp h with rfl | hmem
    · have habs : childNamed cs f.name = none := childNamed_eq_none (fun d hd he =>
        hnodup.1 (he ▸ List.mem_map_of_mem hd))
      simp [childNamed, habs]
    · simp [childNamed, ih hnodup.2 hmem]

theorem childNamed_append (xs ys : List SystemFile) (n : String) :
    childNamed (xs ++ ys) n = (childNamed ys n).or (childNamed xs n) := by
  induction xs with
  | nil => simp [childNamed]
  | cons x xs ih =>
    rw [List.cons_append, childNamed, ih, childNamed]
    cases childNamed ys n <;> cases childNamed xs n <;> simp

theorem childNamed_none_iff {cs : List SystemFile} {n : String} : childNamed cs n = none ↔ ∀ c ∈ cs, c.name ≠ n := by
  refine ⟨fun h c hc hn => ?_, childNamed_eq_none⟩
  induction cs with
  | nil => simp at hc
  | cons d ds ih =>
    rw [childNamed] at h
    split at h
    · simp at h
    · next hrest =>
      split_ifs at h with hd
      rcases List.mem_cons.1 hc with rfl | hc
      · exact hd hn
      · exact ih hrest hc

theorem nodeAt_cons (file : SystemFile) (n : String) (path : List String) :
    file.nodeAt (n :: path) = (childNamed file.children n).bind fun child => child.nodeAt path := by
  rw [nodeAt]
  cases childNamed file.children n <;> rfl

theorem nodeAt_of_leaf {file : SystemFile} (h : file.children = []) (n : String) (path : List String) :
    file.nodeAt (n :: path) = none := by
  simp [nodeAt_cons, h, childNamed]

theorem WellFormed.leaf {file : SystemFile} (h : WellFormed file) (hfile : file.isDir = false) : file.children = [] := by
  cases h with
  | mk leaf _ _ => exact leaf hfile

theorem WellFormed.names {file : SystemFile} (h : WellFormed file) : (file.children.map name).Nodup := by
  cases h with
  | mk _ here _ => exact here

theorem WellFormed.child {file child : SystemFile} {n : String} (h : WellFormed file)
    (hchild : childNamed file.children n = some child) : WellFormed child := by
  cases h with
  | mk _ _ below => exact below child (childNamed_mem hchild).1

theorem WellFormed.nodeAt {file found : SystemFile} (h : WellFormed file) {path : List String}
    (hfound : SystemFile.nodeAt file path = some found) : WellFormed found := by
  induction path generalizing file with
  | nil => exact Option.some.inj hfound ▸ h
  | cons n path ih =>
    rw [nodeAt_cons] at hfound
    obtain ⟨child, hchild, hbelow⟩ := Option.bind_eq_some_iff.1 hfound
    exact ih (h.child hchild) hbelow

/-! ## Cloning and pruning -/

/-- `ModelBuilder.__clone_system_file`: every attribute but the ones given is copied. -/
def cloneSystemFile (file : SystemFile) (newChildren : Option (List SystemFile) := none)
    (staging : Option Bool := none) (aggregateSize : Option Nat := none) : SystemFile :=
  let kept := newChildren.getD file.children
  mk { file.attrs with
    size := aggregateSize.getD (if newChildren.isSome then (kept.map size).sum else file.size)
    isStaging := staging.getD file.isStaging } kept

/-- The locals of the loop over the children in `__prune_confirmed_local_descendant`. -/
structure PruneWalk where
  matched : Nat := 0
  changed : Bool := false
  removedSize : Nat := 0
  kept : List SystemFile := []

mutual
/-- `ModelBuilder.__prune_confirmed_local_descendant`: the tree, the bytes removed, whether it changed. -/
def pruneConfirmedLocalDescendant : SystemFile → List String → SystemFile × Nat × Bool
  | mk a cs, [] => (mk a cs, 0, false)
  | mk a cs, target :: rest =>
    if a.isDir = false then (mk a cs, 0, false)
    else
      let walk := pruneChildren cs target rest
      -- An ambiguous name (two siblings) is left alone.
      if walk.matched ≠ 1 ∨ walk.changed = false then (mk a cs, 0, false)
      else
        (cloneSystemFile (mk a cs) (some walk.kept) none (some (a.size - walk.removedSize)),
          walk.removedSize, true)

def pruneChildren : List SystemFile → String → List String → PruneWalk
  | [], _, _ => {}
  | c :: cs, target, rest =>
    let walk := pruneChildren cs target rest
    if c.name ≠ target then { walk with kept := c :: walk.kept }
    else
      match rest with
      | [] =>
        { matched := walk.matched + 1, changed := true, removedSize := c.size + walk.removedSize
          kept := walk.kept }
      | _ :: _ =>
        let pruned := pruneConfirmedLocalDescendant c rest
        { matched := walk.matched + 1
          changed := pruned.2.2 || walk.changed
          removedSize := (if pruned.2.2 then pruned.2.1 else 0) + walk.removedSize
          kept := pruned.1 :: walk.kept }
end

/-- `ModelBuilder.prune_confirmed_local_deletion`: `none` when the root itself was deleted. -/
def pruneConfirmedLocalDeletion (source : SystemFile) (segments : List String) : Option SystemFile :=
  match segments with
  | [] => none
  | _ :: _ =>
    let pruned := pruneConfirmedLocalDescendant source segments
    some (if pruned.2.2 then pruned.1 else source)

theorem pruneChildren_skip {c : SystemFile} {target : String} (cs : List SystemFile) (rest : List String)
    (h : c.name ≠ target) :
    pruneChildren (c :: cs) target rest =
      { pruneChildren cs target rest with kept := c :: (pruneChildren cs target rest).kept } := by
  cases rest <;> simp [pruneChildren, h]

theorem pruneChildren_absent {cs : List SystemFile} {target : String} (rest : List String)
    (h : ∀ c ∈ cs, c.name ≠ target) : pruneChildren cs target rest = { kept := cs } := by
  induction cs with
  | nil => rfl
  | cons c cs ih =>
    rw [pruneChildren_skip cs rest (h c List.mem_cons_self), ih (fun d hd => h d (List.mem_cons_of_mem _ hd))]

theorem pruneChildren_single {xs ys : List SystemFile} {c : SystemFile} (rest : List String)
    (hx : ∀ x ∈ xs, x.name ≠ c.name) (hy : ∀ y ∈ ys, y.name ≠ c.name) :
    (pruneChildren (xs ++ c :: ys) c.name rest).matched = 1 ∧
      (pruneChildren (xs ++ c :: ys) c.name rest).changed =
        (decide (rest = []) || (pruneConfirmedLocalDescendant c rest).2.2) ∧
      (pruneChildren (xs ++ c :: ys) c.name rest).kept =
        xs ++ (if rest = [] then ys else (pruneConfirmedLocalDescendant c rest).1 :: ys) := by
  induction xs with
  | nil =>
    rw [List.nil_append]
    cases rest <;> simp [pruneChildren, pruneChildren_absent _ hy]
  | cons x xs ih =>
    obtain ⟨hm, hc, hk⟩ := ih (fun d hd => hx d (List.mem_cons_of_mem _ hd))
    rw [List.cons_append, pruneChildren_skip _ rest (hx x List.mem_cons_self)]
    exact ⟨hm, hc, by rw [hk, List.cons_append]⟩

theorem prune_name (file : SystemFile) (segments : List String) :
    (pruneConfirmedLocalDescendant file segments).1.name = file.name := by
  cases file with
  | mk a cs =>
    cases segments with
    | nil => rfl
    | cons target rest =>
      rw [pruneConfirmedLocalDescendant]
      split_ifs
      · rfl
      · dsimp only
        split_ifs <;> rfl

theorem prune_unchanged {file : SystemFile} {segments : List String}
    (h : (pruneConfirmedLocalDescendant file segments).2.2 = false) :
    (pruneConfirmedLocalDescendant file segments).1 = file := by
  cases file with
  | mk a cs =>
    cases segments with
    | nil => rfl
    | cons target rest =>
      rw [pruneConfirmedLocalDescendant] at h ⊢
      split_ifs at h ⊢
      · rfl
      · dsimp only at h ⊢
        split_ifs at h ⊢
        · rfl

/-- Nothing is left at the path of the deletion. -/
theorem nodeAt_prune {segments : List String} (hne : segments ≠ []) {file : SystemFile}
    (h : WellFormed file) : nodeAt (pruneConfirmedLocalDescendant file segments).1 segments = none := by
  induction segments generalizing file with
  | nil => exact absurd rfl hne
  | cons target rest ih =>
    obtain @⟨a, cs, hleaf, hnodup, hbelow⟩ := h
    rw [pruneConfirmedLocalDescendant]
    split_ifs with hdir
    · simp [nodeAt, hleaf hdir, childNamed]
    by_cases hmem : ∃ c ∈ cs, c.name = target
    · -- Exactly one child has the name.
      obtain ⟨c, hc, rfl⟩ := hmem
      obtain ⟨xs, ys, rfl⟩ := List.append_of_mem hc
      simp only [List.map_append, List.map_cons] at hnodup
      have hmid := List.nodup_middle.mp hnodup
      have hnot := (List.nodup_cons.mp hmid).1
      have hx : ∀ x ∈ xs, x.name ≠ c.name := fun x hx he =>
        hnot (List.mem_append_left _ (List.mem_map.mpr ⟨x, hx, he⟩))
      have hy : ∀ y ∈ ys, y.name ≠ c.name := fun y hy he =>
        hnot (List.mem_append_right _ (List.mem_map.mpr ⟨y, hy, he⟩))
      obtain ⟨hm, hch, hk⟩ := pruneChildren_single rest hx hy
      simp only [hm, hch, hk, ne_eq, not_true_eq_false, false_or]
      by_cases hrest : rest = []
      · subst hrest
        have hgone : childNamed (xs ++ ys) c.name = none := childNamed_eq_none (fun d hd =>
          (List.mem_append.mp hd).elim (hx d) (hy d))
        simp [cloneSystemFile, nodeAt, hgone]
      · have hstep := ih hrest (hbelow c hc)
        have hname := prune_name c rest
        by_cases hchanged : (pruneConfirmedLocalDescendant c rest).2.2 = true
        · have hnew : childNamed (xs ++ (pruneConfirmedLocalDescendant c rest).1 :: ys) c.name =
              some (pruneConfirmedLocalDescendant c rest).1 := by
            rw [childNamed_append, childNamed, childNamed_eq_none hy, hname]
            simp
          simp [hchanged, hrest, cloneSystemFile, nodeAt, hnew, hstep]
        · have hold : childNamed (xs ++ c :: ys) c.name = some c := by
            rw [childNamed_append, childNamed, childNamed_eq_none hy]
            simp
          have hsame : (pruneConfirmedLocalDescendant c rest).1 = c := prune_unchanged (by simpa using hchanged)
          rw [hsame] at hstep
          simp [hchanged, hrest, nodeAt, hold, hstep]
    · have habs : ∀ c ∈ cs, c.name ≠ target := fun c hc he => hmem ⟨c, hc, he⟩
      simp [pruneChildren_absent rest habs, nodeAt, childNamed_eq_none habs]

theorem nodeAt_pruneConfirmedLocalDeletion {source file : SystemFile} {segments : List String}
    (hw : WellFormed source) (h : source.pruneConfirmedLocalDeletion segments = some file) :
    file.nodeAt segments = none := by
  cases segments with
  | nil => cases h
  | cons target rest =>
    have hgone := nodeAt_prune (List.cons_ne_nil target rest) hw
    simp only [pruneConfirmedLocalDeletion, Option.some.injEq] at h
    subst h
    split_ifs with hchanged
    · exact hgone
    · rwa [prune_unchanged (Bool.eq_false_iff.mpr hchanged)] at hgone

end SystemFile

end SeedSync
