import SeedSync.Builder.SplitRoot
import SeedSync.Builder.Transfer
import SeedSync.Lib.Memo

/-!
# Completion, from the strict proof to the shown coverage

The predicates that ask whether a local tree completes a remote one, each of which accepts no more
than the next, the memo of the shown coverage, and the bytes that a root is credited with.
-/

namespace SeedSync.Builder

open SystemFile Lib

/-! ## Coverage that allows collisions -/

/-- A local child without a remote counterpart that is staged. -/
def stagedExtra (remotes : List SystemFile) (child : SystemFile) : Bool :=
  (childNamed remotes child.name).isNone && (child.isStaging || hasStagingDescendant child)

mutual
/-- `__effective_local_tree_covers_remote_leaves_allowing_collision`, less its observer. -/
def effectiveLocalTreeCoversRemoteLeavesAllowingCollision : SystemFile → Option SystemFile → Bool
  | .mk _ _, none => false
  | .mk a cs, some mine =>
    if a.isDir ≠ mine.isDir then false
    else if !a.isDir then decide (a.size ≤ mine.size)
    else if (childDict mine.children).any (stagedExtra cs) then false
    else childrenCoverAllowingCollision cs mine.children

def childrenCoverAllowingCollision : List SystemFile → List SystemFile → Bool
  | [], _ => true
  | c :: cs, mine =>
    (shadowed c cs || effectiveLocalTreeCoversRemoteLeavesAllowingCollision c (childNamed mine c.name)) &&
      childrenCoverAllowingCollision cs mine
end

/-! ## The loops over distinct names -/

theorem shadowed_false {c : SystemFile} {cs : List SystemFile} (h : ((c :: cs).map name).Nodup) : shadowed c cs = false := by
  rw [List.map_cons, List.nodup_cons] at h
  have hnone : childNamed cs c.name = none := childNamed_eq_none fun d hd heq => h.1 (heq ▸ List.mem_map_of_mem hd)
  unfold shadowed
  rw [hnone]
  rfl

theorem childrenCoverRemote_iff {cs mine : List SystemFile} (h : (cs.map name).Nodup) :
    childrenCoverRemote cs mine = true ↔ ∀ c ∈ cs, directoryLeavesCoverRemote c (childNamed mine c.name) = true := by
  induction cs with
  | nil => simp [childrenCoverRemote]
  | cons c cs ih =>
    rw [childrenCoverRemote, shadowed_false h, Bool.false_or, Bool.and_eq_true, ih (List.nodup_cons.1 h).2,
      List.forall_mem_cons]

theorem childrenCoverRemoteForPresentation_iff {cs mine : List SystemFile} :
    childrenCoverRemoteForPresentation cs mine = true ↔
      ∀ c ∈ cs, directoryLeavesCoverRemoteForPresentation c (childNamed mine c.name) = true := by
  induction cs with
  | nil => simp [childrenCoverRemoteForPresentation]
  | cons c cs ih => rw [childrenCoverRemoteForPresentation, Bool.and_eq_true, ih, List.forall_mem_cons]

theorem childrenCoverAllowingCollision_iff {cs mine : List SystemFile} (h : (cs.map name).Nodup) :
    childrenCoverAllowingCollision cs mine = true ↔
      ∀ c ∈ cs, effectiveLocalTreeCoversRemoteLeavesAllowingCollision c (childNamed mine c.name) = true := by
  induction cs with
  | nil => simp [childrenCoverAllowingCollision]
  | cons c cs ih =>
    rw [childrenCoverAllowingCollision, shadowed_false h, Bool.false_or, Bool.and_eq_true, ih (List.nodup_cons.1 h).2,
      List.forall_mem_cons]

theorem visitStagingChildren_some {cs mine : List SystemFile} (h : (cs.map name).Nodup) {sawLeaf : Bool}
    (hvisit : visitStagingChildren cs mine = some sawLeaf) :
    ∀ c ∈ cs, (visitStagingIdentity c (childNamed mine c.name)).isSome = true := by
  induction cs generalizing sawLeaf with
  | nil => simp
  | cons c cs ih =>
    rw [visitStagingChildren, shadowed_false h, if_neg (by simp)] at hvisit
    cases hhere : visitStagingIdentity c (childNamed mine c.name) with
    | none => simp [hhere] at hvisit
    | some here =>
      cases hrest : visitStagingChildren cs mine with
      | none => simp [hhere, hrest] at hvisit
      | some rest =>
        refine List.forall_mem_cons.2 ⟨by rw [hhere]; rfl, ih (List.nodup_cons.1 h).2 hrest⟩

/-! ## The chain -/

theorem hasStagingDescendant_of_ambiguity {file : SystemFile} (h : hasStagingAmbiguityDescendant file = false) :
    file.hasStagingCollision = false ∧ hasStagingDescendant file = false := by
  induction file using tree_induction with
  | node a cs ih =>
    rw [hasStagingAmbiguityDescendant] at h
    simp only [Bool.or_eq_false_iff] at h
    obtain ⟨⟨⟨⟨hstaging, -⟩, hcollision⟩, -⟩, hbelow⟩ := h
    refine ⟨hcollision, ?_⟩
    rw [hasStagingDescendant, hstaging, Bool.false_or]
    clear hstaging hcollision
    induction cs with
    | nil => rfl
    | cons c cs ihs =>
      rw [anyStagingAmbiguityDescendant, Bool.or_eq_false_iff] at hbelow
      rw [anyStagingDescendant, (ih c List.mem_cons_self hbelow.1).2, Bool.false_or]
      exact ihs (fun d hd => ih d (List.mem_cons_of_mem _ hd)) hbelow.2

theorem blockingExtra_of_ambiguous {remotes : List SystemFile} {child : SystemFile}
    (h : ambiguousExtra remotes child = false) : blockingExtra remotes child = false := by
  unfold ambiguousExtra at h
  unfold blockingExtra
  cases hnone : (childNamed remotes child.name).isNone with
  | false => rfl
  | true =>
    rw [hnone, Bool.true_and, Bool.or_eq_false_iff] at h
    obtain ⟨hcollision, hstaging⟩ := hasStagingDescendant_of_ambiguity h.2
    rw [hcollision, hstaging]
    rfl

theorem hasStagingDescendant_self {file : SystemFile} (h : hasStagingDescendant file = false) : file.isStaging = false := by
  obtain ⟨a, cs⟩ := file
  rw [hasStagingDescendant, Bool.or_eq_false_iff] at h
  exact h.1

theorem stagedExtra_of_blocking {remotes : List SystemFile} {child : SystemFile}
    (h : blockingExtra remotes child = false) : stagedExtra remotes child = false := by
  unfold blockingExtra at h
  unfold stagedExtra
  cases hnone : (childNamed remotes child.name).isNone with
  | false => rfl
  | true =>
    rw [hnone, Bool.true_and, Bool.or_eq_false_iff] at h
    rw [hasStagingDescendant_self h.2, h.2]
    rfl

theorem any_false_of_imp {p q : SystemFile → Bool} (h : ∀ c, p c = false → q c = false) {cs : List SystemFile}
    (hall : cs.any p = false) : cs.any q = false := by
  rw [List.any_eq_false] at hall ⊢
  intro c hc
  rw [h c (by simpa using hall c hc)]
  simp

/-- A matched leaf has at least the remote size. -/
theorem size_le_of_identity {remote mine : SystemFile} (h : leafMatchesRemoteCollisionIdentity remote mine = true ∨
    leafMatchesRemoteQueueExclusionIdentity remote mine = true) : remote.size ≤ mine.size := by
  unfold leafMatchesRemoteCollisionIdentity leafMatchesRemoteQueueExclusionIdentity at h
  simp only [Bool.and_eq_true, beq_iff_eq] at h
  rcases h with h | h
  · exact Nat.le_of_eq h.1.2.symm
  · exact Nat.le_of_eq h.1.2.symm

/-- The verified identity of every leaf is coverage of every leaf. -/
theorem covers_of_stagingIdentity {remote mine : SystemFile} (hremote : WellFormed remote)
    (h : (visitStagingIdentity remote (some mine)).isSome = true) : directoryLeavesCoverRemote remote (some mine) = true := by
  induction remote using tree_induction generalizing mine with
  | node a cs ih =>
    rw [visitStagingIdentity] at h
    rw [directoryLeavesCoverRemote]
    by_cases hkind : a.isDir ≠ mine.isDir ∨ mine.hasStagingCollision = true
    · rw [if_pos hkind] at h
      cases h
    rw [if_neg hkind] at h
    rw [not_or] at hkind
    rw [if_neg hkind.1, if_neg hkind.2]
    by_cases hleaf : (!a.isDir) = true
    · rw [if_pos hleaf] at h ⊢
      apply decide_eq_true
      apply @size_le_of_identity (mk a cs)
      by_contra hno
      rw [not_or, Bool.not_eq_true, Bool.not_eq_true] at hno
      rw [hno.1, hno.2] at h
      split_ifs at h <;> simp_all
    · rw [if_neg hleaf] at h ⊢
      by_cases hextra : (childDict mine.children).any (ambiguousExtra cs) = true
      · rw [if_pos hextra] at h
        cases h
      rw [if_neg hextra] at h
      have hblocking := any_false_of_imp (fun _ => blockingExtra_of_ambiguous) (by simpa using hextra)
      rw [hblocking, if_neg (by simp)]
      obtain ⟨sawLeaf, hvisit⟩ := Option.isSome_iff_exists.1 h
      refine (childrenCoverRemote_iff hremote.names).2 fun c hc => ?_
      have hchild := visitStagingChildren_some hremote.names hvisit c hc
      cases hcopy : childNamed mine.children c.name with
      | none =>
        obtain ⟨b, ds⟩ := c
        rw [hcopy, visitStagingIdentity] at hchild
        cases hchild
      | some copy =>
        rw [hcopy] at hchild
        exact ih c hc (hremote.child (childNamed_of_mem hremote.names hc)) hchild

theorem presentation_of_covers {remote : SystemFile} {mine : Option SystemFile} (hremote : WellFormed remote)
    (h : directoryLeavesCoverRemote remote mine = true) : directoryLeavesCoverRemoteForPresentation remote mine = true := by
  induction remote using tree_induction generalizing mine with
  | node a cs ih =>
    cases mine with
    | none =>
      rw [directoryLeavesCoverRemote] at h
      cases h
    | some mine =>
      rw [directoryLeavesCoverRemote] at h
      rw [directoryLeavesCoverRemoteForPresentation]
      split_ifs at h ⊢ with hkind hcollision hleaf hextra
      · exact h
      · refine childrenCoverRemoteForPresentation_iff.2 fun c hc => ?_
        exact ih c hc (hremote.child (childNamed_of_mem hremote.names hc)) ((childrenCoverRemote_iff hremote.names).1 h c hc)

theorem allowingCollision_of_covers {remote : SystemFile} {mine : Option SystemFile} (hremote : WellFormed remote)
    (h : directoryLeavesCoverRemote remote mine = true) :
    effectiveLocalTreeCoversRemoteLeavesAllowingCollision remote mine = true := by
  induction remote using tree_induction generalizing mine with
  | node a cs ih =>
    cases mine with
    | none =>
      rw [directoryLeavesCoverRemote] at h
      cases h
    | some mine =>
      rw [directoryLeavesCoverRemote] at h
      rw [effectiveLocalTreeCoversRemoteLeavesAllowingCollision]
      split_ifs at h with hkind hcollision hleaf hextra
      · rw [if_neg hkind, if_pos hleaf]
        exact h
      · have hstaged := any_false_of_imp (fun _ => stagedExtra_of_blocking) (by simpa using hextra)
        rw [if_neg hkind, if_neg hleaf, hstaged, if_neg (by simp)]
        refine (childrenCoverAllowingCollision_iff hremote.names).2 fun c hc => ?_
        exact ih c hc (hremote.child (childNamed_of_mem hremote.names hc)) ((childrenCoverRemote_iff hremote.names).1 h c hc)

/-- The strict proof is coverage, and coverage is that of each weaker predicate but for the staged root total. -/
theorem completion_of_identity {remote mine : SystemFile} (hremote : WellFormed remote)
    (h : treesHaveVerifiedCompleteStagingRemoteIdentity (some remote) (some mine) = true) :
    effectiveLocalTreeProvesCompletion (some remote) (some mine) = true := by
  simp only [treesHaveVerifiedCompleteStagingRemoteIdentity, beq_iff_eq] at h
  have hcover := covers_of_stagingIdentity hremote (by rw [h]; rfl)
  obtain ⟨hkind, hcollision, hsize, -⟩ := directoryLeavesCoverRemote_step hcover
  simp only [effectiveLocalTreeProvesCompletion]
  rw [if_neg (not_not.2 hkind), if_neg (by rw [hcollision]; simp)]
  by_cases hdir : remote.isDir = true
  · rw [if_pos hdir, hcover, Bool.true_or]
  · rw [if_neg hdir]
    exact decide_eq_true (hsize (by simpa using hdir))

theorem covers_of_completion {remote mine : SystemFile}
    (h : effectiveLocalTreeProvesCompletion (some remote) (some mine) = true) :
    directoryLeavesCoverRemote remote (some mine) = true ∨ StagedTotal remote mine := by
  simp only [effectiveLocalTreeProvesCompletion] at h
  split_ifs at h with hkind hcollision hdir
  · rw [Bool.or_eq_true] at h
    refine h.imp_right fun h => ?_
    simp only [Bool.and_eq_true, List.isEmpty_iff, decide_eq_true_eq] at h
    exact ⟨hdir, by rw [← not_not.1 hkind, hdir], h.1.1, h.1.2, h.2⟩
  · left
    obtain ⟨a, cs⟩ := remote
    rw [isDir_mk] at hkind hdir
    rw [directoryLeavesCoverRemote, if_neg hkind, if_neg hcollision, if_pos (by simpa using hdir)]
    exact h

/-! ## The memo of a build -/

/-- A node as an object: its identity, its attributes, its children. -/
inductive Held where
  | mk (ident : Nat) (attrs : FileAttrs) (children : List Held)

namespace Held

def ident : Held → Nat
  | mk ident _ _ => ident

def attrs : Held → FileAttrs
  | mk _ attrs _ => attrs

def children : Held → List Held
  | mk _ _ children => children

def name (node : Held) : String := node.attrs.name

mutual
/-- The tree that hangs from an object. -/
def file : Held → SystemFile
  | mk _ attrs children => .mk attrs (files children)

def files : List Held → List SystemFile
  | [] => []
  | c :: cs => file c :: files cs
end

/-- `{child.name: child for child in children}.get(name)` -/
def childNamed : List Held → String → Option Held
  | [], _ => none
  | c :: cs, n =>
    match childNamed cs n with
    | some found => some found
    | none => if c.name = n then some c else none

end Held

/-- One of the two states of `__build_local_predicate_key`. -/
structure NodeKey where
  ident : Nat
  isDir : Bool
  size : Nat
  isStaging : Bool
  hasStagingCollision : Bool
  deriving DecidableEq

structure PredicateKey where
  predicate : String
  remote : Option NodeKey
  local' : Option NodeKey
  deriving DecidableEq

def nodeKey (node : Held) : NodeKey where
  ident := node.ident
  isDir := node.attrs.isDir
  size := node.attrs.size
  isStaging := node.attrs.isStaging
  hasStagingCollision := node.attrs.hasStagingCollision

/-- `__build_local_predicate_key` -/
def buildLocalPredicateKey (predicate : String) (remote local' : Option Held) : PredicateKey :=
  ⟨predicate, remote.map nodeKey, local'.map nodeKey⟩

abbrev PredicateCache := Dict PredicateKey Bool

mutual
/-- `__build_local_presentation_coverage` of a remote node. -/
def coverageOf : Held → Option Held → PredicateCache → Bool × PredicateCache
  | .mk ident a cs, local', cache =>
    remembered (buildLocalPredicateKey "presentation_coverage" (some (.mk ident a cs)) local') (fun cache =>
      match local' with
      | none => (false, cache)
      | some mine =>
        if a.isDir ≠ mine.attrs.isDir then (false, cache)
        else if mine.attrs.hasStagingCollision then (false, cache)
        else if !a.isDir then (decide (a.size ≤ mine.attrs.size), cache)
        else coverageOfAll cs mine.children cache) cache

/-- `all(...)` over the remote children: the first that is not covered ends it. -/
def coverageOfAll : List Held → List Held → PredicateCache → Bool × PredicateCache
  | [], _, cache => (true, cache)
  | c :: cs, mine, cache =>
    let result := coverageOf c (Held.childNamed mine c.name) cache
    if result.1 then coverageOfAll cs mine result.2 else (false, result.2)
end

/-- `__build_local_presentation_coverage` -/
def buildLocalPresentationCoverage (remote local' : Option Held) (cache : PredicateCache) : Bool × PredicateCache :=
  match remote with
  | some remote => coverageOf remote local' cache
  | none => remembered (buildLocalPredicateKey "presentation_coverage" none local') (fun cache => (false, cache)) cache

/-- `__directory_leaves_cover_remote_for_presentation`, also of a missing remote node. -/
def presentationCoverage (remote local' : Option SystemFile) : Bool :=
  remote.any fun remote => directoryLeavesCoverRemoteForPresentation remote local'

/-- The objects of a build: with a node its children, and no two nodes of one identity. -/
structure Owned (objects : Held → Prop) : Prop where
  children : ∀ node, objects node → ∀ c ∈ node.children, objects c
  ident : ∀ x y, objects x → objects y → x.ident = y.ident → x = y

/-- An object of the build, where there is one. -/
def HeldIn (objects : Held → Prop) (node : Option Held) : Prop := ∀ x, node = some x → objects x

/-- What a key of the coverage remembers is the coverage of the objects that have the key. -/
def CoverageAnswer (objects : Held → Prop) (key : PredicateKey) (value : Bool) : Prop :=
  ∀ remote local', HeldIn objects remote → HeldIn objects local' →
    key = buildLocalPredicateKey "presentation_coverage" remote local' →
    value = presentationCoverage (remote.map Held.file) (local'.map Held.file)

theorem Held.childNamed_mem {cs : List Held} {n : String} {c : Held} (h : Held.childNamed cs n = some c) : c ∈ cs := by
  induction cs with
  | nil => cases h
  | cons d cs ih =>
    rw [Held.childNamed] at h
    cases hlater : Held.childNamed cs n with
    | some found =>
      rw [hlater] at h
      cases h
      exact List.mem_cons_of_mem _ (ih hlater)
    | none =>
      rw [hlater] at h
      dsimp only at h
      split_ifs at h
      cases h
      exact List.mem_cons_self

theorem Held.file_name (node : Held) : node.file.name = node.name := by
  obtain ⟨ident, a, cs⟩ := node
  rw [Held.file]
  rfl

theorem Held.childNamed_files (cs : List Held) (n : String) :
    SystemFile.childNamed (Held.files cs) n = (Held.childNamed cs n).map Held.file := by
  induction cs with
  | nil =>
    rw [Held.files]
    rfl
  | cons c cs ih =>
    rw [Held.files, SystemFile.childNamed, ih, Held.childNamed, Held.file_name]
    cases Held.childNamed cs n with
    | some found => rfl
    | none =>
      dsimp only [Option.map_none]
      split_ifs <;> rfl

theorem Held.file_attrs (node : Held) : node.file.attrs = node.attrs ∧ node.file.children = Held.files node.children := by
  obtain ⟨ident, a, cs⟩ := node
  rw [Held.file]
  exact ⟨rfl, rfl⟩

/-- Objects of one key are one object. -/
theorem eq_of_key {objects : Held → Prop} (howned : Owned objects) {x y : Option Held} (hx : HeldIn objects x)
    (hy : HeldIn objects y) (h : x.map nodeKey = y.map nodeKey) : x = y := by
  cases x with
  | none =>
    cases y with
    | none => rfl
    | some y => cases h
  | some x =>
    cases y with
    | none => cases h
    | some y =>
      have hident := congrArg NodeKey.ident (Option.some.inj h)
      exact congrArg some (howned.ident x y (hx x rfl) (hy y rfl) hident)

/-- The coverage of these objects, under their key. -/
theorem coverageAnswer_self {objects : Held → Prop} (howned : Owned objects) {remote local' : Option Held}
    (hremote : HeldIn objects remote) (hlocal : HeldIn objects local') {value : Bool} :
    CoverageAnswer objects (buildLocalPredicateKey "presentation_coverage" remote local') value ↔
      value = presentationCoverage (remote.map Held.file) (local'.map Held.file) := by
  constructor
  · exact fun h => h remote local' hremote hlocal rfl
  · rintro h remote' mine hremote' hmine heq
    have hsame := eq_of_key howned hremote hremote' (congrArg PredicateKey.remote heq)
    have hsame' := eq_of_key howned hlocal hmine (congrArg PredicateKey.local' heq)
    rw [← hsame, ← hsame']
    exact h

mutual
/-- The remembered coverage of a node is its coverage, and what is kept of it stays true. -/
theorem coverageOf_spec {objects : Held → Prop} (howned : Owned objects) : (remote : Held) → (local' : Option Held) →
    (cache : PredicateCache) → objects remote → HeldIn objects local' → Truthful (CoverageAnswer objects) cache →
    (coverageOf remote local' cache).1 = directoryLeavesCoverRemoteForPresentation remote.file (local'.map Held.file) ∧
      Truthful (CoverageAnswer objects) (coverageOf remote local' cache).2
  | .mk ident a cs, local', cache, hremote, hlocal, hcache => by
    have hheld : HeldIn objects (some (.mk ident a cs)) := fun x hx => Option.some.inj hx ▸ hremote
    have hanswer := fun value => @coverageAnswer_self objects howned (some (.mk ident a cs)) local' hheld hlocal value
    have hplain : presentationCoverage (Option.map Held.file (some (.mk ident a cs))) (local'.map Held.file) =
        directoryLeavesCoverRemoteForPresentation (Held.mk ident a cs).file (local'.map Held.file) := rfl
    rw [coverageOf]
    rw [← hplain, ← hanswer]
    refine remembered_spec hcache ?_
    rw [hanswer, hplain, Held.file]
    cases local' with
    | none =>
      rw [Option.map_none, directoryLeavesCoverRemoteForPresentation]
      exact ⟨rfl, hcache⟩
    | some mine =>
      obtain ⟨hattrs, hchildren⟩ := mine.file_attrs
      have hdir : mine.file.isDir = mine.attrs.isDir := congrArg FileAttrs.isDir hattrs
      have hcollision : mine.file.hasStagingCollision = mine.attrs.hasStagingCollision :=
        congrArg FileAttrs.hasStagingCollision hattrs
      have hsize : mine.file.size = mine.attrs.size := congrArg FileAttrs.size hattrs
      rw [Option.map_some, directoryLeavesCoverRemoteForPresentation, hdir, hcollision, hsize, hchildren]
      dsimp only
      split_ifs
      · exact ⟨rfl, hcache⟩
      · exact ⟨rfl, hcache⟩
      · exact ⟨rfl, hcache⟩
      · exact coverageOfAll_spec howned cs mine.children cache (howned.children _ hremote)
          (howned.children _ (hlocal mine rfl)) hcache

theorem coverageOfAll_spec {objects : Held → Prop} (howned : Owned objects) : (cs mine : List Held) →
    (cache : PredicateCache) → (∀ c ∈ cs, objects c) → (∀ c ∈ mine, objects c) → Truthful (CoverageAnswer objects) cache →
    (coverageOfAll cs mine cache).1 = childrenCoverRemoteForPresentation (Held.files cs) (Held.files mine) ∧
      Truthful (CoverageAnswer objects) (coverageOfAll cs mine cache).2
  | [], mine, cache, _, _, hcache => by
    rw [coverageOfAll, Held.files, childrenCoverRemoteForPresentation]
    exact ⟨rfl, hcache⟩
  | c :: cs, mine, cache, hcs, hmine, hcache => by
    have hchild : HeldIn objects (Held.childNamed mine c.name) := fun x hx => hmine x (Held.childNamed_mem hx)
    obtain ⟨hvalue, hnext⟩ := coverageOf_spec howned c (Held.childNamed mine c.name) cache
      (hcs c List.mem_cons_self) hchild hcache
    rw [coverageOfAll, Held.files, childrenCoverRemoteForPresentation, Held.childNamed_files, Held.file_name, ← hvalue]
    cases hfirst : (coverageOf c (Held.childNamed mine c.name) cache).1 with
    | false => exact ⟨rfl, hnext⟩
    | true => exact coverageOfAll_spec howned cs mine _ (fun d hd => hcs d (List.mem_cons_of_mem _ hd)) hmine hnext
end

theorem buildLocalPresentationCoverage_spec {objects : Held → Prop} (howned : Owned objects) {remote local' : Option Held}
    {cache : PredicateCache} (hremote : HeldIn objects remote) (hlocal : HeldIn objects local')
    (hcache : Truthful (CoverageAnswer objects) cache) :
    (buildLocalPresentationCoverage remote local' cache).1 =
        presentationCoverage (remote.map Held.file) (local'.map Held.file) ∧
      Truthful (CoverageAnswer objects) (buildLocalPresentationCoverage remote local' cache).2 := by
  cases remote with
  | some remote => exact coverageOf_spec howned remote local' cache (hremote remote rfl) hlocal hcache
  | none =>
    have hanswer := fun value => @coverageAnswer_self objects howned none local' hremote hlocal value
    rw [← hanswer]
    refine remembered_spec hcache ?_
    rw [hanswer]
    exact ⟨rfl, hcache⟩

mutual
/-- `__build_local_remote_transferable_content` of a node, in the same memo. -/
def transferableOf : Held → PredicateCache → Bool × PredicateCache
  | .mk ident a cs, cache =>
    remembered (buildLocalPredicateKey "remote_transferable" (some (.mk ident a cs)) none)
      (fun cache => if !a.isDir then (true, cache) else transferableOfAny cs cache) cache

/-- `any(...)` over the children: the first with content ends it. -/
def transferableOfAny : List Held → PredicateCache → Bool × PredicateCache
  | [], cache => (false, cache)
  | c :: cs, cache =>
    let result := transferableOf c cache
    if result.1 then (true, result.2) else transferableOfAny cs result.2
end

/-- Another predicate answers nothing about the coverage. -/
theorem remembered_other {objects : Held → Prop} {predicate : String} (hother : predicate ≠ "presentation_coverage")
    {remote local' : Option Held} {compute : PredicateCache → Bool × PredicateCache} {cache : PredicateCache}
    (hcache : Truthful (CoverageAnswer objects) cache) (hcompute : Truthful (CoverageAnswer objects) (compute cache).2) :
    Truthful (CoverageAnswer objects) (remembered (buildLocalPredicateKey predicate remote local') compute cache).2 :=
  (remembered_spec hcache
    ⟨fun _ _ _ _ heq => absurd (congrArg PredicateKey.predicate heq) hother, hcompute⟩).2

mutual
theorem transferableOf_keeps {objects : Held → Prop} : (remote : Held) → (cache : PredicateCache) →
    Truthful (CoverageAnswer objects) cache → Truthful (CoverageAnswer objects) (transferableOf remote cache).2
  | .mk ident a cs, cache, hcache => by
    rw [transferableOf]
    refine remembered_other (by decide) hcache ?_
    split_ifs
    · exact hcache
    · exact transferableOfAny_keeps cs cache hcache

theorem transferableOfAny_keeps {objects : Held → Prop} : (cs : List Held) → (cache : PredicateCache) →
    Truthful (CoverageAnswer objects) cache → Truthful (CoverageAnswer objects) (transferableOfAny cs cache).2
  | [], cache, hcache => by rwa [transferableOfAny]
  | c :: cs, cache, hcache => by
    have hnext := transferableOf_keeps c cache hcache
    rw [transferableOfAny]
    split_ifs
    · exact hnext
    · exact transferableOfAny_keeps cs _ hnext
end

/-- A question that a build asks of its memo. -/
inductive Question where
  | coverage (remote local' : Option Held)
  | transferable (remote : Held)

def Question.Held (objects : Held → Prop) : Question → Prop
  | coverage remote local' => HeldIn objects remote ∧ HeldIn objects local'
  | transferable remote => objects remote

def ask (cache : PredicateCache) : Question → Bool × PredicateCache
  | .coverage remote local' => buildLocalPresentationCoverage remote local' cache
  | .transferable remote => transferableOf remote cache

/-- The questions of one build, asked one after the other, with their answers. -/
def askAll (cache : PredicateCache) : List Question → List (Question × Bool)
  | [] => []
  | question :: questions => (question, (ask cache question).1) :: askAll (ask cache question).2 questions

theorem askAll_spec {objects : Held → Prop} (howned : Owned objects) {questions : List Question}
    (hheld : ∀ question ∈ questions, question.Held objects) {cache : PredicateCache}
    (hcache : Truthful (CoverageAnswer objects) cache) {remote local' : Option Held} {value : Bool}
    (hanswer : (Question.coverage remote local', value) ∈ askAll cache questions) :
    value = presentationCoverage (remote.map Held.file) (local'.map Held.file) := by
  induction questions generalizing cache with
  | nil => cases hanswer
  | cons question questions ih =>
    have hlater := fun other hother => hheld other (List.mem_cons_of_mem _ hother)
    have hthis := hheld question List.mem_cons_self
    rw [askAll] at hanswer
    cases question with
    | coverage theirs mine =>
      obtain ⟨hvalue, hnext⟩ := buildLocalPresentationCoverage_spec howned hthis.1 hthis.2 hcache
      rcases List.mem_cons.1 hanswer with heq | hanswer
      · cases heq
        exact hvalue
      · exact ih hlater hnext hanswer
    | transferable theirs =>
      rcases List.mem_cons.1 hanswer with heq | hanswer
      · cases heq
      · exact ih hlater (transferableOf_keeps theirs cache hcache) hanswer

/-! ## Bytes credited once -/

/-- The final bytes of a root, child by child of the remote tree. -/
theorem sumTrustedFinalLeafBytes_eq {remotes mine : List SystemFile} (hremotes : (remotes.map name).Nodup)
    (hmine : (mine.map name).Nodup) (collided : Bool) :
    sumTrustedFinalLeafBytes remotes mine collided =
      (remotes.map fun r => ((childNamed mine r.name).map fun m => trustedFinalLeafBytes (some r) m collided).getD 0).sum := by
  induction mine with
  | nil =>
    rw [sumTrustedFinalLeafBytes]
    simp [childNamed]
  | cons m mine ih =>
    rw [sumTrustedFinalLeafBytes, ih (List.nodup_cons.1 hmine).2]
    have hlater : childNamed mine m.name = none := childNamed_eq_none fun d hd heq =>
      (List.nodup_cons.1 hmine).1 (heq ▸ List.mem_map_of_mem hd)
    -- The local child counts at the remote child of its name, and at no other.
    have hsplit : ∀ r : SystemFile,
        ((childNamed (m :: mine) r.name).map fun m => trustedFinalLeafBytes (some r) m collided).getD 0 =
          (if r.name = m.name then trustedFinalLeafBytes (some r) m collided else 0) +
            ((childNamed mine r.name).map fun m => trustedFinalLeafBytes (some r) m collided).getD 0 := by
      intro r
      rw [childNamed]
      by_cases hname : r.name = m.name
      · rw [if_pos hname, hname, hlater]
        simp
      · rw [if_neg hname, Nat.zero_add, if_neg (Ne.symm hname)]
        cases childNamed mine r.name <;> rfl
    rw [List.map_congr_left fun r _ => hsplit r, List.sum_map_add]
    congr 1
    clear hsplit ih
    induction remotes with
    | nil =>
      obtain ⟨b, ms⟩ := m
      rw [show childNamed [] (mk b ms).name = none from rfl, trustedFinalLeafBytes]
      rfl
    | cons r remotes ih =>
      rw [List.map_cons, List.sum_cons]
      rw [List.map_cons, List.nodup_cons] at hremotes
      by_cases hname : r.name = m.name
      · have hnone : childNamed remotes m.name = none := childNamed_eq_none fun d hd heq =>
          hremotes.1 (hname ▸ heq ▸ List.mem_map_of_mem hd)
        have hzero : (remotes.map fun r => if r.name = m.name then trustedFinalLeafBytes (some r) m collided else 0).sum = 0 := by
          refine List.sum_eq_zero fun x hx => ?_
          obtain ⟨d, hd, rfl⟩ := List.mem_map.1 hx
          rw [if_neg fun heq => childNamed_none_iff.1 hnone d hd heq]
        rw [childNamed, hnone, if_pos hname, if_pos hname, hzero]
        rfl
      · rw [if_neg hname, Nat.zero_add, ← ih hremotes.2, childNamed]
        cases childNamed remotes m.name with
        | none => rw [if_neg hname]
        | some c => rfl

theorem sumStagedRemoteLeafBytes_eq (selected : Option (List FileId)) (remotes mine : List SystemFile) (fileId : FileId) :
    sumStagedRemoteLeafBytes selected remotes mine fileId = (remotes.map fun r =>
      stagedRemoteLeafBytes selected r (childNamed mine r.name)
        (buildFileId (fileId.path ++ "/" ++ r.name) fileId.pathPairId)).sum := by
  induction remotes with
  | nil => rw [sumStagedRemoteLeafBytes, List.map_nil, List.sum_nil]
  | cons r remotes ih => rw [sumStagedRemoteLeafBytes, ih, List.map_cons, List.sum_cons]

/-- A leaf is final or staged, and is credited as one of the two. -/
theorem credited_bytes_le {remote mine : SystemFile} (hremote : WellFormed remote) (hsum : Summed remote) (hmine : WellFormed mine)
    (selected : Option (List FileId)) (fileId : FileId) (collided : Bool) :
    trustedFinalLeafBytes (some remote) mine collided + stagedRemoteLeafBytes selected remote (some mine) fileId ≤ remote.size := by
  induction remote using tree_induction generalizing mine fileId collided with
  | node a cs ih =>
    obtain ⟨b, ms⟩ := mine
    rw [trustedFinalLeafBytes, stagedRemoteLeafBytes]
    by_cases hkind : (mk a cs).isDir ≠ b.isDir
    · have hboth : a.isDir ≠ (mk b ms).isDir ∨ (mk b ms).hasStagingCollision = true := Or.inl hkind
      rw [if_pos hkind, if_pos hboth]
      exact Nat.zero_le _
    rw [if_neg hkind]
    dsimp only
    by_cases hleaf : (!a.isDir) = true
    · rw [if_pos (show (!(mk a cs).isDir) = true from hleaf), if_pos hleaf]
      have hsize : (mk a cs).size = a.size := rfl
      by_cases hfinal : (leafMatchesRemoteQueueExclusionIdentity (mk a cs) (mk b ms) &&
          !(collided || b.hasStagingCollision)) = true
      · -- A final leaf is not staging.
        have hstaging : b.isStaging = false := by
          unfold leafMatchesRemoteQueueExclusionIdentity isAuthoritativeLocalFile at hfinal
          simp only [Bool.and_eq_true, Bool.not_eq_true'] at hfinal
          exact hfinal.1.1.1.2.1
        rw [if_pos hfinal, show (mk b ms).isStaging = false from hstaging, hsize]
        split_ifs <;> simp_all
      · rw [if_neg hfinal, Nat.zero_add, hsize]
        split_ifs
        · exact Nat.zero_le _
        · exact Nat.zero_le _
        · exact Nat.zero_le _
        · exact Nat.min_le_right _ _
    · have hdir : (mk a cs).isDir = true := by simpa using hleaf
      rw [if_neg (show ¬ (!(mk a cs).isDir) = true by rw [hdir]; simp), if_neg hleaf, children_mk,
        sumTrustedFinalLeafBytes_eq (show (cs.map name).Nodup from hremote.names) (show (ms.map name).Nodup from hmine.names), hsum.size hdir, children_mk]
      by_cases hcollision : a.isDir ≠ (mk b ms).isDir ∨ (mk b ms).hasStagingCollision = true
      · rw [if_pos hcollision, Nat.add_zero]
        refine List.sum_le_sum fun c hc => ?_
        cases hcopy : childNamed ms c.name with
        | none => exact Nat.zero_le _
        | some copy =>
          have hchild := childNamed_of_mem hremote.names hc
          exact Nat.le_trans (Nat.le_add_right _ _)
            (ih c hc (hremote.child hchild) (hsum.child hchild) (hmine.child (n := c.name) hcopy) fileId _)
      · rw [if_neg hcollision, sumStagedRemoteLeafBytes_eq, ← List.sum_map_add]
        refine List.sum_le_sum fun c hc => ?_
        have hchild := childNamed_of_mem hremote.names hc
        cases hcopy : childNamed ms c.name with
        | none =>
          obtain ⟨d, ds⟩ := c
          rw [stagedRemoteLeafBytes]
          exact Nat.zero_le _
        | some copy => exact ih c hc (hremote.child hchild) (hsum.child hchild) (hmine.child (n := c.name) hcopy) _ _

/-! ## The chain -/

/-- Each predicate accepts no more than the next, the memo answers as the recursion, and no leaf is credited twice. -/
theorem completion_chain :
    (∀ remote mine, WellFormed remote → WellFormed mine →
      (treesHaveVerifiedCompleteStagingRemoteIdentity (some remote) (some mine) = true →
        effectiveLocalTreeProvesCompletion (some remote) (some mine) = true) ∧
      (effectiveLocalTreeProvesCompletion (some remote) (some mine) = true →
        (directoryLeavesCoverRemoteForPresentation remote (some mine) = true ∧
          effectiveLocalTreeCoversRemoteLeavesAllowingCollision remote (some mine) = true) ∨
        StagedTotal remote mine)) ∧
    (∀ objects, Owned objects → ∀ questions, (∀ question ∈ questions, Question.Held objects question) →
      ∀ remote local' value, (Question.coverage remote local', value) ∈ askAll {} questions →
        value = presentationCoverage (remote.map Held.file) (local'.map Held.file)) ∧
    ∀ remote mine, WellFormed remote → Summed remote → WellFormed mine → ∀ selected fileId,
      trustedFinalLeafBytes (some remote) mine false + stagedRemoteLeafBytes selected remote (some mine) fileId ≤
        remote.size := by
  refine ⟨fun remote mine hremote _ => ⟨completion_of_identity hremote, fun h => ?_⟩, ?_, ?_⟩
  · exact (covers_of_completion h).imp_left fun hcover =>
      ⟨presentation_of_covers hremote hcover, allowingCollision_of_covers hremote hcover⟩
  · intro objects howned questions hheld remote local' value hanswer
    exact askAll_spec howned hheld (truthful_empty _) hanswer
  · intro remote mine hremote hsum hmine selected fileId
    exact credited_bytes_le hremote hsum hmine selected fileId false

private def stagedCopy (staging : Bool) : SystemFile :=
  .mk { name := "f", size := 4, mtimeNs := some 7, isStaging := staging, statusSidecarReady := false } []

private theorem stagedCopy_wellFormed (staging : Bool) : WellFormed (stagedCopy staging) := .mk (by simp) (by simp) (by simp)

private def stagedNode : Held := .mk 1 (stagedCopy true).attrs []

/-- A staged copy of a file is complete, a final one is credited once, and one node is asked for twice. -/
theorem stagedCopy_complete :
    effectiveLocalTreeProvesCompletion (some (stagedCopy false)) (some (stagedCopy true)) = true ∧
      trustedFinalLeafBytes (some (stagedCopy false)) (stagedCopy false) false +
        stagedRemoteLeafBytes none (stagedCopy false) (some (stagedCopy false)) (.bare "f") ≤ 4 ∧
      ∀ value, (Question.coverage (some stagedNode) (some stagedNode), value) ∈
        askAll {} [.coverage (some stagedNode) (some stagedNode), .coverage (some stagedNode) (some stagedNode)] →
        value = true := by
  obtain ⟨hchain, hmemo, hbytes⟩ := completion_chain
  have hfile := stagedCopy_wellFormed false
  refine ⟨(hchain _ _ hfile (stagedCopy_wellFormed true)).1 (by decide +kernel),
    hbytes _ _ hfile (.mk (by simp) (by simp)) hfile none (.bare "f"), fun value h => ?_⟩
  have howned : Owned fun node => node = stagedNode := by
    refine ⟨fun node hnode c hc => ?_, fun x y hx hy _ => hx.trans hy.symm⟩
    rw [hnode] at hc
    cases hc
  have hheld : HeldIn (fun node => node = stagedNode) (some stagedNode) := fun x hx => (Option.some.inj hx).symm
  have hquestions : ∀ question ∈ [Question.coverage (some stagedNode) (some stagedNode),
      .coverage (some stagedNode) (some stagedNode)], question.Held fun node => node = stagedNode := by
    intro question hquestion
    have heq : question = .coverage (some stagedNode) (some stagedNode) := by simpa using hquestion
    rw [heq]
    exact ⟨hheld, hheld⟩
  rw [hmemo _ howned _ hquestions _ _ value h]
  decide +kernel

end SeedSync.Builder
