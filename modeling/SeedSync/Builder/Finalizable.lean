import SeedSync.Builder.Deletions
import SeedSync.Builder.Exclusions

/-!
# Staging leaves that may be published

The provider of the leaves that a finalisation may move, and the function that explains one of them.
The provider walks all trees; the explanation walks one path, and tells that a path is blocked by a
local file before it has looked whether the remote tree has the rest of the path.
-/

namespace SeedSync.Builder

open SystemFile Lib Exclude

/-! ## The provider -/

mutual
/-- `visit` of `get_finalizable_staging_leaf_candidates`: the paths that it appends. -/
def visitFinalizable : SystemFile → Option SystemFile → String → Bool → List String
  | .mk _ _, none, _, _ => []
  | .mk a cs, some mine, relative, collisionAncestor =>
    if a.isDir ≠ mine.isDir then []
    else
      let collision := collisionAncestor || mine.hasStagingCollision
      if !a.isDir then
        if relative ≠ "" ∧ '\\' ∉ relative.toList ∧ collision = false ∧ mine.isStaging = true ∧
            mine.statusSidecarReady = false ∧ leafMatchesRemoteCollisionIdentity (.mk a cs) mine = true then
          [relative]
        else []
      else visitFinalizableChildren cs mine.children relative collision

def visitFinalizableChildren : List SystemFile → List SystemFile → String → Bool → List String
  | [], _, _, _ => []
  | c :: cs, mine, relative, collision =>
    visitFinalizable c (childNamed mine c.name) (childRelative relative c.name) collision ++
      visitFinalizableChildren cs mine relative collision
end

/-- The order of `(root_file_id, relative)`. -/
def candidateLe (x y : FileId × String) : Prop := x.1.text < y.1.text ∨ (x.1.text = y.1.text ∧ x.2 ≤ y.2)

instance : DecidableRel candidateLe := fun _ _ => inferInstanceAs (Decidable (_ ∨ _))

/-- `get_finalizable_staging_leaf_candidates` -/
def Sources.getFinalizableStagingLeafCandidates (b : Sources) : List (FileId × String) :=
  (b.remoteFiles.dict.items.flatMap fun root =>
    if !root.2.isDir then []
    else
      match b.localFiles.get root.1 with
      | none => []
      | some mine => (visitFinalizable root.2 (some mine) "" false).map fun relative => (root.1, relative)).insertionSort
    candidateLe

/-! ## The explanation -/

/-- What `get_finalizable_staging_leaf_candidate_reason` may return beside `None`. -/
inductive LeafReason where
  | type
  | missing
  | collision
  | notStaging
  | sidecar
  | size
  | mtime
  | isMatch
  deriving DecidableEq

/-- What is asked of the leaf that the loop ends at. -/
def leafReason (remote : SystemFile) (mine : Option SystemFile) (collision : Bool) : Option LeafReason :=
  if remote.isDir then none
  else
    match mine with
    | none => some .missing
    | some mine =>
      if mine.isDir ≠ remote.isDir then some .type
      else if collision || mine.hasStagingCollision then some .collision
      else if !mine.isStaging then some .notStaging
      else if mine.statusSidecarReady then some .sidecar
      else if mine.size ≠ remote.size then some .size
      else
        match mine.mtimeNs, remote.mtimeNs with
        | some ours, some theirs => if ours / 1000000000 ≠ theirs / 1000000000 then some .mtime else some .isMatch
        | _, _ => some .mtime

/-- `next((child for child in children if child.name == part), None)` -/
def firstNamed (children : List SystemFile) (part : String) : Option SystemFile :=
  children.find? fun child => decide (child.name = part)

/-- The loop over the parts of the path. -/
def walkReason : List String → SystemFile → Option SystemFile → Bool → Option LeafReason
  | [], remote, mine, collision => leafReason remote mine collision
  | part :: parts, remote, mine, collision =>
    if !remote.isDir then none
    else
      match firstNamed remote.children part with
      | none => none
      | some child =>
        match mine with
        | none => walkReason parts child none collision
        | some mine =>
          if mine.isDir ≠ remote.isDir then some .type
          else walkReason parts child (firstNamed mine.children part) (collision || mine.hasStagingCollision)

/-- `get_finalizable_staging_leaf_candidate_reason` -/
def Sources.getFinalizableStagingLeafCandidateReason (b : Sources) (rootFileId : FileId) (relativePath : String) :
    Option LeafReason :=
  if relativePath = "" ∨ '\\' ∈ relativePath.toList then none
  else
    let parts := pathParts relativePath
    if "" ∈ parts then none
    else
      match b.remoteFiles.get rootFileId with
      | none => none
      | some remote => if !remote.isDir then none else walkReason parts remote (b.localFiles.get rootFileId) false

/-! ## What may be published -/

/-- A staged leaf without a sidecar that has the remote size and the remote second. -/
structure CollisionIdentity (theirs ours : SystemFile) : Prop where
  staged : ours.isStaging = true
  sidecar : ours.statusSidecarReady = false
  size : ours.size = theirs.size
  mtime : ∃ t s, ours.mtimeNs = some t ∧ theirs.mtimeNs = some s ∧ t / 1000000000 = s / 1000000000

/-- A leaf that both scans have, staged here and of the remote identity. -/
abbrev StagedAt : SystemFile → SystemFile → List String → Prop := MatchedAt CollisionIdentity

theorem collisionIdentity_iff {remote mine : SystemFile} :
    (mine.isStaging = true ∧ mine.statusSidecarReady = false ∧ leafMatchesRemoteCollisionIdentity remote mine = true) ↔
      remote.isDir = false ∧ mine.isDir = false ∧ CollisionIdentity remote mine := by
  have hidentity : CollisionIdentity remote mine ↔ mine.isStaging = true ∧ mine.statusSidecarReady = false ∧
      mine.size = remote.size ∧
        ∃ t s, mine.mtimeNs = some t ∧ remote.mtimeNs = some s ∧ t / 1000000000 = s / 1000000000 :=
    ⟨fun h => ⟨h.staged, h.sidecar, h.size, h.mtime⟩, fun h => ⟨h.1, h.2.1, h.2.2.1, h.2.2.2⟩⟩
  rw [hidentity]
  unfold leafMatchesRemoteCollisionIdentity
  cases mine.mtimeNs <;> cases remote.mtimeNs <;> simp
  tauto

/-! ## The provider finds them -/

theorem mem_visitFinalizableChildren {cs mine : List SystemFile} {relative : String} {collision : Bool} {found : String} :
    found ∈ visitFinalizableChildren cs mine relative collision ↔
      ∃ c ∈ cs, found ∈ visitFinalizable c (childNamed mine c.name) (childRelative relative c.name) collision := by
  induction cs with
  | nil =>
    rw [visitFinalizableChildren]
    simp
  | cons c cs ih =>
    rw [visitFinalizableChildren]
    simp [ih]

theorem visitFinalizable_none (remote : SystemFile) (relative : String) (collision : Bool) :
    visitFinalizable remote none relative collision = [] := by
  obtain ⟨a, cs⟩ := remote
  rw [visitFinalizable]

/-- A path that may be named: not empty, and without a backslash. -/
def Nameable (relative : String) : Prop := relative ≠ "" ∧ '\\' ∉ relative.toList

theorem mem_visitFinalizable {remote mine : SystemFile} (hremote : WellFormed remote) (hmine : WellFormed mine)
    {relative : String} {collision : Bool} {found : String} :
    found ∈ visitFinalizable remote (some mine) relative collision ↔
      Nameable found ∧ Finds CollisionIdentity remote mine relative collision found := by
  induction remote using tree_induction generalizing mine relative collision with
  | node a cs ih =>
    rw [visitFinalizable]
    by_cases hkind : a.isDir ≠ mine.isDir
    · rw [if_pos hkind]
      exact iff_of_false (by simp) fun h => not_finds hremote hmine hkind relative collision found h.2
    rw [if_neg hkind]
    dsimp only
    cases hdir : a.isDir with
    | false =>
      rw [finds_leaf hremote hmine fun h => by rw [isDir_mk, hdir] at h; cases h.1]
      rw [if_pos (show (!false) = true from rfl)]
      have hidentity := @collisionIdentity_iff (mk a cs) mine
      unfold Nameable
      constructor
      · intro h
        split_ifs at h with hall
        · obtain rfl := List.mem_singleton.1 h
          obtain ⟨hne, hplain, hclear, hleaf⟩ := hall
          rw [Bool.or_eq_false_iff] at hclear
          obtain ⟨hfile, hcopy, hrelated⟩ := hidentity.1 hleaf
          exact ⟨⟨hne, hplain⟩, hclear.1, rfl, hfile, hcopy, hclear.2, hrelated⟩
        · cases h
      · rintro ⟨hname, hclear, rfl, hfile, hcopy, hcollision, hrelated⟩
        rw [if_pos ⟨hname.1, hname.2, by rw [hclear, hcollision]; rfl, hidentity.2 ⟨hfile, hcopy, hrelated⟩⟩]
        exact List.mem_singleton_self found
    | true =>
      rw [if_neg (by simp), finds_dirs (show (mk a cs).isDir = true from hdir), mem_visitFinalizableChildren, children_mk]
      constructor
      · rintro ⟨c, hc, hfound⟩
        have hchild := childNamed_of_mem hremote.names hc
        cases hcopy : childNamed mine.children c.name with
        | none =>
          rw [hcopy, visitFinalizable_none] at hfound
          cases hfound
        | some copy =>
          rw [hcopy] at hfound
          obtain ⟨hname, hfinds⟩ := (ih c hc (hremote.child hchild) (hmine.child hcopy)).1 hfound
          exact ⟨hname, c.name, c, copy, hchild, hcopy, hfinds⟩
      · rintro ⟨hname, n, theirs, ours, htheirs, hours, hfinds⟩
        obtain ⟨hmem, rfl⟩ := childNamed_mem htheirs
        refine ⟨theirs, hmem, ?_⟩
        rw [hours]
        exact (ih theirs hmem (hremote.child htheirs) (hmine.child hours)).2 ⟨hname, hfinds⟩

/-- The roots are trees of distinct names, and no name has a slash. -/
inductive SlashFree : SystemFile → Prop
  | mk {a : FileAttrs} {cs : List SystemFile} (here : ∀ c ∈ cs, '/' ∉ c.name.toList) (below : ∀ c ∈ cs, SlashFree c) :
      SlashFree (.mk a cs)

theorem SlashFree.path {file : SystemFile} (h : SlashFree file) {path : List String} (hnode : nodeAt file path ≠ none) :
    ∀ n ∈ path, '/' ∉ n.toList := by
  induction path generalizing file with
  | nil => simp
  | cons n path ih =>
    rw [nodeAt_cons] at hnode
    cases hchild : childNamed file.children n with
    | none =>
      rw [hchild] at hnode
      exact absurd rfl hnode
    | some child =>
      rw [hchild, Option.bind_some] at hnode
      obtain ⟨hmem, rfl⟩ := childNamed_mem hchild
      cases h with
      | mk here below => exact List.forall_mem_cons.2 ⟨here child hmem, ih (below child hmem) hnode⟩

structure Sources.PlainTrees (b : Sources) : Prop where
  remote : ∀ id file, b.remoteFiles.get id = some file → WellFormed file ∧ SlashFree file
  mine : ∀ id file, b.localFiles.get id = some file → WellFormed file ∧ SlashFree file

/-- A candidate is a staged leaf of one root, under the path that its names spell. -/
theorem mem_candidates {b : Sources} (hplain : b.PlainTrees) {rootFileId : FileId} {relative : String} :
    (rootFileId, relative) ∈ b.getFinalizableStagingLeafCandidates ↔
      Nameable relative ∧ ∃ remote mine, b.remoteFiles.get rootFileId = some remote ∧
        b.localFiles.get rootFileId = some mine ∧ remote.isDir = true ∧
        ∃ path, relative = relativePath path ∧ StagedAt remote mine path := by
  unfold Sources.getFinalizableStagingLeafCandidates
  rw [List.mem_insertionSort, List.mem_flatMap]
  constructor
  · rintro ⟨⟨id, remote⟩, hitem, hmem⟩
    have hremote : b.remoteFiles.get id = some remote := (Dict.get_eq_some _ _ _).2 hitem
    dsimp only at hmem
    split_ifs at hmem with hdir
    · cases hmem
    · cases hmine : b.localFiles.get id with
      | none =>
        rw [hmine] at hmem
        cases hmem
      | some mine =>
        rw [hmine] at hmem
        obtain ⟨found, hfound, heq⟩ := List.mem_map.1 hmem
        obtain ⟨rfl, rfl⟩ := Prod.mk.inj heq
        obtain ⟨hname, -, path, hpath, hstaged⟩ :=
          (mem_visitFinalizable (hplain.remote _ _ hremote).1 (hplain.mine _ _ hmine).1).1 hfound
        exact ⟨hname, remote, mine, hremote, hmine, by simpa using hdir, path, hpath.trans (joinFrom_eq path), hstaged⟩
  · rintro ⟨hname, remote, mine, hremote, hmine, hdir, path, rfl, hstaged⟩
    refine ⟨(rootFileId, remote), (Dict.get_eq_some _ _ _).1 hremote, ?_⟩
    dsimp only
    rw [if_neg (by simp [hdir]), hmine]
    refine List.mem_map.2 ⟨relativePath path, ?_, rfl⟩
    refine (mem_visitFinalizable (hplain.remote _ _ hremote).1 (hplain.mine _ _ hmine).1).2 ⟨hname, rfl, path, ?_, hstaged⟩
    exact (joinFrom_eq path).symm

/-! ## What the explanation says -/

theorem firstNamed_eq {cs : List SystemFile} (h : (cs.map name).Nodup) (n : String) : firstNamed cs n = childNamed cs n := by
  unfold firstNamed
  ext c
  rw [childNamed_eq_some h]
  constructor
  · intro hfound
    exact ⟨List.mem_of_find?_eq_some hfound, by simpa using List.find?_some hfound⟩
  · rintro ⟨hmem, rfl⟩
    cases hfirst : cs.find? fun child => decide (child.name = c.name) with
    | none => exact absurd (List.find?_eq_none.1 hfirst c hmem) (by simp)
    | some d =>
      have hd := childNamed_of_mem h (List.mem_of_find?_eq_some hfirst)
      rw [show d.name = c.name by simpa using List.find?_some hfirst, childNamed_of_mem h hmem] at hd
      exact hd.symm

theorem leafReason_match {remote mine : SystemFile} {collision : Bool} :
    leafReason remote (some mine) collision = some .isMatch ↔ collision = false ∧ StagedAt remote mine [] := by
  unfold StagedAt leafReason
  rw [matchedAt_nil]
  constructor
  · intro h
    dsimp only at h
    split_ifs at h with hdir hkind hcollision hstaging hsidecar hsize <;> try cases h
    cases hours : mine.mtimeNs with
    | none =>
      rw [hours] at h
      cases h
    | some t =>
      cases htheirs : remote.mtimeNs with
      | none =>
        rw [hours, htheirs] at h
        cases h
      | some u =>
        rw [hours, htheirs] at h
        dsimp only at h
        split_ifs at h with hmtime
        · cases h
        have hremote : remote.isDir = false := by simpa using hdir
        simp only [Bool.or_eq_true, not_or, Bool.not_eq_true] at hcollision
        refine ⟨hcollision.1, hremote, (not_not.1 hkind).trans hremote, hcollision.2, ?_⟩
        exact ⟨by simpa using hstaging, by simpa using hsidecar, not_not.1 hsize, t, u, hours, htheirs, not_not.1 hmtime⟩
  · rintro ⟨hclear, hremote, hmine, hcollision, hstaged, hsidecar, hsize, t, u, ht, hu, hmtime⟩
    simp [hremote, hmine, hclear, hcollision, hstaged, hsidecar, hsize, ht, hu, hmtime]

theorem walkReason_missing (parts : List String) (remote : SystemFile) (collision : Bool) :
    walkReason parts remote none collision ≠ some .isMatch := by
  induction parts generalizing remote with
  | nil =>
    rw [walkReason]
    unfold leafReason
    split_ifs <;> simp
  | cons part parts ih =>
    rw [walkReason]
    split_ifs
    · simp
    · cases firstNamed remote.children part with
      | none => simp
      | some child => exact ih child

/-- It says match just where the path leads to a staged leaf of the remote identity. -/
theorem walkReason_match {parts : List String} {remote mine : SystemFile} (hremote : WellFormed remote)
    (hmine : WellFormed mine) {collision : Bool} :
    walkReason parts remote (some mine) collision = some .isMatch ↔ collision = false ∧ StagedAt remote mine parts := by
  induction parts generalizing remote mine collision with
  | nil => exact leafReason_match
  | cons n parts ih =>
    unfold StagedAt
    rw [walkReason, matchedAt_cons, firstNamed_eq hremote.names]
    by_cases hdir : remote.isDir = true
    swap
    · rw [if_pos (by simpa using hdir)]
      refine iff_of_false (by simp) ?_
      rintro ⟨-, -, theirs, ours, htheirs, -⟩
      exact hdir (hremote.isDir htheirs)
    rw [if_neg (by simp [hdir])]
    cases hchild : childNamed remote.children n with
    | none => exact iff_of_false (by simp) fun ⟨_, _, _, _, h, _⟩ => by cases h
    | some child =>
      dsimp only
      by_cases hkind : mine.isDir ≠ remote.isDir
      · rw [if_pos hkind]
        refine iff_of_false (by simp) ?_
        rintro ⟨-, -, theirs, ours, -, hours, -⟩
        exact hkind ((hmine.isDir hours).trans hdir.symm)
      rw [if_neg hkind, firstNamed_eq hmine.names]
      cases hcopy : childNamed mine.children n with
      | none =>
        exact iff_of_false (walkReason_missing parts child _) fun ⟨_, _, _, _, _, h, _⟩ => by cases h
      | some copy =>
        rw [ih (hremote.child hchild) (hmine.child hcopy), Bool.or_eq_false_iff]
        constructor
        · rintro ⟨⟨hclear, hcollision⟩, hstaged⟩
          exact ⟨hclear, hcollision, child, copy, rfl, rfl, hstaged⟩
        · rintro ⟨hclear, hcollision, theirs, ours, htheirs, hours, hstaged⟩
          obtain rfl := Option.some.inj htheirs
          obtain rfl := Option.some.inj hours
          exact ⟨⟨hclear, hcollision⟩, hstaged⟩

/-- The path leads to a file of the tree. -/
def Regular (remote : SystemFile) (parts : List String) : Prop := ∃ leaf, nodeAt remote parts = some leaf ∧ leaf.isDir = false

/-- A local file stands above a part that the remote tree has. -/
def Blocked (remote : SystemFile) (mine : Option SystemFile) (parts : List String) : Prop :=
  ∃ above n rest, parts = above ++ n :: rest ∧ nodeAt remote (above ++ [n]) ≠ none ∧
    ∃ file, (mine.bind fun root => nodeAt root above) = some file ∧ file.isDir = false

theorem regular_cons {remote child : SystemFile} {n : String} (hchild : childNamed remote.children n = some child)
    (parts : List String) : Regular remote (n :: parts) ↔ Regular child parts := by
  unfold Regular
  rw [nodeAt_cons, hchild, Option.bind_some]

theorem not_regular_cons {remote : SystemFile} {n : String} (hchild : childNamed remote.children n = none)
    (parts : List String) : ¬ Regular remote (n :: parts) := by
  rintro ⟨leaf, hleaf, -⟩
  rw [nodeAt_cons, hchild] at hleaf
  cases hleaf

theorem not_blocked_cons {remote : SystemFile} {n : String} (hchild : childNamed remote.children n = none)
    (mine : Option SystemFile) (parts : List String) : ¬ Blocked remote mine (n :: parts) := by
  rintro ⟨above, k, rest, heq, hnode, -⟩
  cases above with
  | nil =>
    obtain ⟨rfl, -⟩ := List.cons.inj heq
    rw [List.nil_append, nodeAt_cons, hchild] at hnode
    exact hnode rfl
  | cons m above =>
    obtain ⟨rfl, -⟩ := List.cons.inj heq
    rw [List.cons_append, nodeAt_cons, hchild] at hnode
    exact hnode rfl

theorem blocked_cons {remote child mine : SystemFile} {n : String} (hchild : childNamed remote.children n = some child)
    (parts : List String) : Blocked remote (some mine) (n :: parts) ↔
      mine.isDir = false ∨ Blocked child (childNamed mine.children n) parts := by
  constructor
  · rintro ⟨above, k, rest, heq, hnode, file, hfile, hleaf⟩
    cases above with
    | nil =>
      obtain rfl : mine = file := Option.some.inj hfile
      exact Or.inl hleaf
    | cons m above =>
      obtain ⟨rfl, hrest⟩ := List.cons.inj heq
      rw [List.cons_append, nodeAt_cons, hchild, Option.bind_some] at hnode
      rw [Option.bind_some, nodeAt_cons] at hfile
      exact Or.inr ⟨above, k, rest, hrest, hnode, file, hfile, hleaf⟩
  · rintro (hleaf | ⟨above, k, rest, rfl, hnode, file, hfile, hleaf⟩)
    · refine ⟨[], n, parts, rfl, ?_, mine, rfl, hleaf⟩
      rw [List.nil_append, nodeAt_cons, hchild]
      exact Option.some_ne_none child
    · refine ⟨n :: above, k, rest, rfl, ?_, file, ?_, hleaf⟩
      · rwa [List.cons_append, nodeAt_cons, hchild]
      · rwa [Option.bind_some, nodeAt_cons]

theorem not_blocked_missing (remote : SystemFile) (parts : List String) : ¬ Blocked remote none parts := by
  rintro ⟨above, n, rest, -, -, file, hfile, -⟩
  cases hfile

theorem leafReason_some {remote : SystemFile} (h : remote.isDir = false) (mine : Option SystemFile) (collision : Bool) :
    leafReason remote mine collision ≠ none := by
  unfold leafReason
  rw [if_neg (by simp [h])]
  cases mine with
  | none => simp
  | some mine =>
    dsimp only
    have hmtime : (match mine.mtimeNs, remote.mtimeNs with
        | some ours, some theirs =>
          if ours / 1000000000 ≠ theirs / 1000000000 then some LeafReason.mtime else some LeafReason.isMatch
        | _, _ => some LeafReason.mtime) ≠ none := by
      cases mine.mtimeNs with
      | none => simp
      | some ours =>
        cases remote.mtimeNs with
        | none => simp
        | some theirs =>
          dsimp only
          split_ifs <;> simp
    split_ifs <;> first | exact hmtime | simp

/-- It says nothing just where the path leads to no remote file and no local file stands in the way. -/
theorem walkReason_none {parts : List String} {remote : SystemFile} {mine : Option SystemFile} (hremote : WellFormed remote)
    (hmine : ∀ root, mine = some root → WellFormed root) {collision : Bool} :
    walkReason parts remote mine collision = none ↔ ¬ Regular remote parts ∧ ¬ Blocked remote mine parts := by
  induction parts generalizing remote mine collision with
  | nil =>
    have hblocked : ¬ Blocked remote mine [] := fun ⟨_, _, _, heq, _⟩ => by simp at heq
    have hregular : Regular remote [] ↔ remote.isDir = false := by
      unfold Regular
      simp [nodeAt]
    rw [walkReason, hregular, and_iff_left hblocked]
    cases hdir : remote.isDir with
    | true =>
      unfold leafReason
      simp [hdir]
    | false => exact iff_of_false (leafReason_some hdir mine collision) (by simp)
  | cons n parts ih =>
    rw [walkReason, firstNamed_eq hremote.names]
    cases hchild : childNamed remote.children n with
    | none =>
      refine iff_of_true ?_ ⟨not_regular_cons hchild parts, not_blocked_cons hchild mine parts⟩
      split_ifs <;> rfl
    | some child =>
      have hdir := hremote.isDir hchild
      rw [if_neg (by simp [hdir]), regular_cons hchild]
      cases mine with
      | none =>
        rw [and_iff_left (not_blocked_missing remote (n :: parts))]
        dsimp only
        rw [ih (hremote.child hchild) (fun _ h => by cases h), and_iff_left (not_blocked_missing child parts)]
      | some mine =>
        have hwell := hmine mine rfl
        dsimp only
        rw [blocked_cons hchild, not_or, hdir]
        cases hkind : mine.isDir with
        | false =>
          rw [if_pos (by simp)]
          exact iff_of_false (by simp) fun h => h.2.1 rfl
        | true =>
          rw [if_neg (by simp), firstNamed_eq hwell.names,
            ih (hremote.child hchild) fun root hroot => hwell.child hroot]
          simp

/-! ## Both together -/

theorem relativePath_of_named {path : List String} (h : "" ∉ path) : relativePath path = "/".intercalate path := by
  unfold relativePath
  cases path with
  | nil => rfl
  | cons n path =>
    rw [List.dropWhile_cons_of_neg]
    intro hn
    exact h (by simp [String.isEmpty_iff.1 hn])

theorem pathParts_relativePath {path : List String} (hne : path ≠ []) (h : "" ∉ path)
    (hslash : ∀ n ∈ path, '/' ∉ n.toList) : pathParts (relativePath path) = path := by
  rw [relativePath_of_named h]
  exact pathParts_intercalate hne hslash

theorem relativePath_pathParts {text : String} (h : "" ∉ pathParts text) : relativePath (pathParts text) = text := by
  rw [relativePath_of_named h]
  exact intercalate_pathParts text

/-- The path names a file of the remote directory of that root. -/
def Sources.NamesRegular (b : Sources) (rootFileId : FileId) (relative : String) : Prop :=
  ∃ remote, b.remoteFiles.get rootFileId = some remote ∧ remote.isDir = true ∧ Regular remote (pathParts relative)

/-- A staged leaf of the root that both scans have. -/
def Sources.StagedLeaf (b : Sources) (rootFileId : FileId) (path : List String) : Prop :=
  ∃ remote mine, b.remoteFiles.get rootFileId = some remote ∧ b.localFiles.get rootFileId = some mine ∧
    remote.isDir = true ∧ StagedAt remote mine path

/-- The explanation mirrors the provider. -/
structure Sources.Mirrors (b : Sources) (rootFileId : FileId) (relative : String) : Prop where
  candidate : (rootFileId, relative) ∈ b.getFinalizableStagingLeafCandidates ↔
    b.getFinalizableStagingLeafCandidateReason rootFileId relative = some .isMatch
  staged : b.getFinalizableStagingLeafCandidateReason rootFileId relative = some .isMatch →
    b.StagedLeaf rootFileId (pathParts relative)
  silent : b.getFinalizableStagingLeafCandidateReason rootFileId relative = none ↔
    ¬ b.NamesRegular rootFileId relative ∨ '\\' ∈ relative.toList ∨ "" ∈ pathParts relative

/-- No local file stands above a remote node that is no file, and no leaf below an empty name is spelled alone. -/
structure Sources.Unblocked (b : Sources) (rootFileId : FileId) (relative : String) : Prop where
  clear : '\\' ∉ relative.toList → "" ∉ pathParts relative → ¬ b.NamesRegular rootFileId relative →
    ∀ remote, b.remoteFiles.get rootFileId = some remote → remote.isDir = true →
      ¬ Blocked remote (b.localFiles.get rootFileId) (pathParts relative)
  named : '\\' ∉ relative.toList → ∀ path, b.StagedLeaf rootFileId path → relative = relativePath path → "" ∈ path →
    "" ∉ pathParts relative ∧ b.StagedLeaf rootFileId (pathParts relative)

section Mirror

variable {b : Sources} {rootFileId : FileId} {relative : String}

theorem reason_match (hplain : b.PlainTrees) (hne : relative ≠ "") :
    b.getFinalizableStagingLeafCandidateReason rootFileId relative = some .isMatch ↔
      '\\' ∉ relative.toList ∧ "" ∉ pathParts relative ∧ b.StagedLeaf rootFileId (pathParts relative) := by
  unfold Sources.getFinalizableStagingLeafCandidateReason Sources.StagedLeaf
  dsimp only
  by_cases hslash : '\\' ∈ relative.toList
  · rw [if_pos (Or.inr hslash)]
    exact iff_of_false (by simp) fun h => h.1 hslash
  rw [if_neg (by simp [hne, hslash])]
  by_cases hempty : "" ∈ pathParts relative
  · rw [if_pos hempty]
    exact iff_of_false (by simp) fun h => h.2.1 hempty
  rw [if_neg hempty]
  cases hremote : b.remoteFiles.get rootFileId with
  | none => exact iff_of_false (by simp) fun ⟨_, _, _, _, h, _⟩ => by cases h
  | some remote =>
    dsimp only
    cases hdir : remote.isDir with
    | false =>
      rw [if_pos (by simp)]
      refine iff_of_false (by simp) ?_
      rintro ⟨-, -, theirs, ours, htheirs, -, hdir', -⟩
      obtain rfl := Option.some.inj htheirs
      rw [hdir] at hdir'
      cases hdir'
    | true =>
      rw [if_neg (by simp)]
      cases hmine : b.localFiles.get rootFileId with
      | none =>
        exact iff_of_false (walkReason_missing _ _ _) fun ⟨_, _, _, _, _, h, _⟩ => by cases h
      | some mine =>
        rw [walkReason_match (hplain.remote _ _ hremote).1 (hplain.mine _ _ hmine).1, and_iff_right rfl]
        constructor
        · intro hstaged
          exact ⟨hslash, hempty, remote, mine, rfl, rfl, hdir, hstaged⟩
        · rintro ⟨-, -, theirs, ours, htheirs, hours, -, hstaged⟩
          obtain rfl := Option.some.inj htheirs
          obtain rfl := Option.some.inj hours
          exact hstaged

theorem reason_none (hplain : b.PlainTrees) (hne : relative ≠ "") :
    b.getFinalizableStagingLeafCandidateReason rootFileId relative = none ↔
      '\\' ∈ relative.toList ∨ "" ∈ pathParts relative ∨
        (¬ b.NamesRegular rootFileId relative ∧ ∀ remote, b.remoteFiles.get rootFileId = some remote → remote.isDir = true →
          ¬ Blocked remote (b.localFiles.get rootFileId) (pathParts relative)) := by
  unfold Sources.getFinalizableStagingLeafCandidateReason Sources.NamesRegular
  dsimp only
  by_cases hslash : '\\' ∈ relative.toList
  · rw [if_pos (Or.inr hslash)]
    exact iff_of_true rfl (Or.inl hslash)
  rw [if_neg (by simp [hne, hslash])]
  by_cases hempty : "" ∈ pathParts relative
  · rw [if_pos hempty]
    exact iff_of_true rfl (Or.inr (Or.inl hempty))
  rw [if_neg hempty, or_iff_right hslash, or_iff_right hempty]
  cases hremote : b.remoteFiles.get rootFileId with
  | none => simp
  | some remote =>
    dsimp only
    cases hdir : remote.isDir with
    | false =>
      rw [if_pos (by simp)]
      refine iff_of_true rfl ⟨?_, ?_⟩
      · rintro ⟨theirs, htheirs, hdir', -⟩
        obtain rfl := Option.some.inj htheirs
        rw [hdir] at hdir'
        cases hdir'
      · intro theirs htheirs hdir'
        obtain rfl := Option.some.inj htheirs
        rw [hdir] at hdir'
        cases hdir'
    | true =>
      rw [if_neg (by simp), walkReason_none (hplain.remote _ _ hremote).1 fun root hroot => (hplain.mine _ _ hroot).1]
      simp [hdir]

theorem candidate_iff (hplain : b.PlainTrees) :
    (rootFileId, relative) ∈ b.getFinalizableStagingLeafCandidates ↔
      Nameable relative ∧ ∃ path, relative = relativePath path ∧ b.StagedLeaf rootFileId path := by
  rw [mem_candidates hplain]
  constructor
  · rintro ⟨hname, remote, mine, hremote, hmine, hdir, path, hpath, hstaged⟩
    exact ⟨hname, path, hpath, remote, mine, hremote, hmine, hdir, hstaged⟩
  · rintro ⟨hname, path, hpath, remote, mine, hremote, hmine, hdir, hstaged⟩
    exact ⟨hname, remote, mine, hremote, hmine, hdir, path, hpath, hstaged⟩

theorem stagedLeaf_slashFree (hplain : b.PlainTrees) {path : List String} (h : b.StagedLeaf rootFileId path) :
    ∀ n ∈ path, '/' ∉ n.toList := by
  obtain ⟨remote, mine, hremote, -, -, hstaged⟩ := h
  obtain ⟨leaf, -, hleaf, -⟩ := hstaged.leaf
  exact (hplain.remote _ _ hremote).2.path (by rw [hleaf]; exact Option.some_ne_none leaf)

/-- They agree just where no local file blocks and no empty name misleads. -/
theorem mirrors_iff (hplain : b.PlainTrees) (hne : relative ≠ "") :
    b.Mirrors rootFileId relative ↔ b.Unblocked rootFileId relative := by
  constructor
  · intro h
    constructor
    · intro hslash hempty hregular
      have hsilent := (reason_none hplain hne).1 (h.silent.2 (Or.inl hregular))
      rw [or_iff_right hslash, or_iff_right hempty] at hsilent
      exact hsilent.2
    · intro hslash path hleaf hpath _
      exact ((reason_match hplain hne).1
        (h.candidate.1 ((candidate_iff hplain).2 ⟨⟨hne, hslash⟩, path, hpath, hleaf⟩))).2
  · intro h
    constructor
    · rw [reason_match hplain hne, candidate_iff hplain]
      constructor
      · rintro ⟨hname, path, hpath, hleaf⟩
        by_cases hempty : "" ∈ path
        · exact ⟨hname.2, h.named hname.2 path hleaf hpath hempty⟩
        · have hparts : pathParts relative = path := by
            rw [hpath]
            refine pathParts_relativePath ?_ hempty (stagedLeaf_slashFree hplain hleaf)
            rintro rfl
            exact hname.1 hpath
          rw [hparts]
          exact ⟨hname.2, hempty, hleaf⟩
      · rintro ⟨hslash, hempty, hleaf⟩
        exact ⟨⟨hne, hslash⟩, pathParts relative, (relativePath_pathParts hempty).symm, hleaf⟩
    · intro hmatch
      exact ((reason_match hplain hne).1 hmatch).2.2
    · rw [reason_none hplain hne]
      constructor
      · rintro (hslash | hempty | ⟨hregular, -⟩)
        · exact Or.inr (Or.inl hslash)
        · exact Or.inr (Or.inr hempty)
        · exact Or.inl hregular
      · rintro (hregular | hslash | hempty)
        · by_cases hslash : '\\' ∈ relative.toList
          · exact Or.inl hslash
          by_cases hempty : "" ∈ pathParts relative
          · exact Or.inr (Or.inl hempty)
          exact Or.inr (Or.inr ⟨hregular, h.clear hslash hempty hregular⟩)
        · exact Or.inl hslash
        · exact Or.inr (Or.inl hempty)

end Mirror

private def Plain (file : SystemFile) : Prop := WellFormed file ∧ SlashFree file

private theorem plain_leaf (a : FileAttrs) : Plain (mk a []) := ⟨.mk (by simp) (by simp) (by simp), .mk (by simp) (by simp)⟩

private theorem plain_only {a : FileAttrs} {c : SystemFile} (hdir : a.isDir = true) (hname : '/' ∉ c.name.toList)
    (h : Plain c) : Plain (mk a [c]) :=
  ⟨.mk (by simp [hdir]) (by simp) (by simpa using h.1), .mk (by simpa using hname) (by simpa using h.2)⟩

private theorem only_get {table : RootTable} {id key : FileId} {file root : SystemFile}
    (h : table.dict.items = [(key, root)]) (hfile : table.get id = some file) : file = root := by
  have hmem := (Dict.get_eq_some _ _ _).1 hfile
  rw [h, List.mem_singleton] at hmem
  exact (Prod.mk.inj hmem).2

private def readyLeaf : SystemFile := mk { name := "x", size := 1, mtimeNs := some 2000000000, isStaging := true } []
private def readyRoot : SystemFile := mk { name := "d", size := 1, isDir := true } [readyLeaf]
private def readySources : Sources := { localFiles := .ofList [readyRoot], remoteFiles := .ofList [readyRoot] }

/-- The staged leaf is offered, and its explanation says so. -/
theorem readyLeaf_mirrored : readySources.Mirrors (.bare "d") "x" := by
  have hitems : readySources.localFiles.dict.items = [(.bare "d", readyRoot)] := by decide +kernel
  have honly : ∀ id file, readySources.localFiles.get id = some file → file = readyRoot := fun _ _ => only_get hitems
  have hroot : Plain readyRoot := plain_only rfl (by decide) (plain_leaf _)
  have hplain : readySources.PlainTrees :=
    ⟨fun id file h => honly id file h ▸ hroot, fun id file h => honly id file h ▸ hroot⟩
  refine (mirrors_iff hplain (by decide)).2 ⟨fun _ _ hregular => ?_, fun _ path hleaf hpath hempty => ?_⟩
  · exact absurd ⟨readyRoot, by decide +kernel, rfl, readyLeaf, by decide +kernel, rfl⟩ hregular
  · obtain ⟨remote, mine, hremote, -, -, hstaged⟩ := hleaf
    obtain rfl := honly _ _ hremote
    cases path with
    | nil => cases hempty
    | cons n path =>
      obtain ⟨-, theirs, ours, htheirs, -, hbelow⟩ := matchedAt_cons.1 hstaged
      obtain ⟨hmem, rfl⟩ := childNamed_mem htheirs
      obtain rfl := List.mem_singleton.1 hmem
      cases path with
      | nil => exact absurd hempty (by decide)
      | cons k path =>
        obtain ⟨-, theirs, ours, htheirs, -⟩ := matchedAt_cons.1 hbelow
        cases htheirs

private def innerFolder : SystemFile := mk { name := "b", size := 0, isDir := true } []
private def outerFolder : SystemFile := mk { name := "a", size := 0, isDir := true } [innerFolder]
private def takenName : SystemFile := mk { name := "a", size := 0 } []
private def takenSources : Sources where
  localFiles := .ofList [mk { name := "d", size := 0, isDir := true } [takenName]]
  remoteFiles := .ofList [mk { name := "d", size := 0, isDir := true } [outerFolder]]

/-- A local file where the remote tree has a directory: the directory below is told to be of the other type. -/
theorem takenFolder_type : takenSources.PlainTrees ∧ ¬ takenSources.NamesRegular (.bare "d") "a/b" ∧
    takenSources.getFinalizableStagingLeafCandidateReason (.bare "d") "a/b" = some .type ∧
    ¬ takenSources.Mirrors (.bare "d") "a/b" := by
  have hremotes : takenSources.remoteFiles.dict.items = [(.bare "d", mk { name := "d", size := 0, isDir := true } [outerFolder])] := by
    decide +kernel
  have hlocals : takenSources.localFiles.dict.items = [(.bare "d", mk { name := "d", size := 0, isDir := true } [takenName])] := by
    decide +kernel
  have hplain : takenSources.PlainTrees := by
    constructor
    · intro id file hfile
      rw [only_get hremotes hfile]
      exact plain_only rfl (by decide) (plain_only rfl (by decide) (plain_leaf _))
    · intro id file hfile
      rw [only_get hlocals hfile]
      exact plain_only rfl (by decide) (plain_leaf _)
  have hregular : ¬ takenSources.NamesRegular (.bare "d") "a/b" := by
    rintro ⟨remote, hfile, -, leaf, hleaf, hkind⟩
    have hnode : nodeAt (mk { name := "d", size := 0, isDir := true } [outerFolder]) (pathParts "a/b") = some innerFolder := by
      decide +kernel
    rw [only_get hremotes hfile, hnode] at hleaf
    obtain rfl := Option.some.inj hleaf
    cases hkind
  have htype : takenSources.getFinalizableStagingLeafCandidateReason (.bare "d") "a/b" = some .type := by decide +kernel
  refine ⟨hplain, hregular, htype, fun h => ?_⟩
  have hnone := h.silent.2 (Or.inl hregular)
  rw [htype] at hnone
  cases hnone

end SeedSync.Builder
