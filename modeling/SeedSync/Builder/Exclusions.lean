import SeedSync.Builder.SplitRoot
import SeedSync.Exclude.Kept

/-!
# Leaves that a queue may leave out

`get_trusted_final_leaf_paths` with its trace and without it: two walks over the same two trees, one
over the remote children and one over the local ones, that return the same paths.
-/

namespace SeedSync.Builder

open SystemFile Lib Exclude

/-! ## The plain walk -/

/-- `child.name if not relative else relative + "/" + child.name` -/
def childRelative (relative name : String) : String := childRelativePath (some relative) name

mutual
/-- `visit` of `__get_trusted_final_leaf_paths_without_trace`: the paths that it appends. -/
def visitLocal : SystemFile → SystemFile → String → Bool → List String
  | .mk a cs, remote, relative, ancestorHasStagingCollision =>
    if remote.isDir ≠ a.isDir then []
    else
      let collided := ancestorHasStagingCollision || a.hasStagingCollision
      if !remote.isDir then
        if leafMatchesRemoteQueueExclusionIdentity remote (.mk a cs) && !collided then [relative] else []
      else visitLocalChildren cs remote.children relative collided

def visitLocalChildren : List SystemFile → List SystemFile → String → Bool → List String
  | [], _, _, _ => []
  | c :: cs, remotes, relative, collided =>
    match childNamed remotes c.name with
    | none => visitLocalChildren cs remotes relative collided
    | some remote =>
      visitLocal c remote (childRelative relative c.name) collided ++ visitLocalChildren cs remotes relative collided
end

/-- `sorted(set(paths))` -/
def sortedSet (paths : List String) : List String := paths.dedup.insertionSort (· ≤ ·)

/-- `__get_trusted_final_leaf_paths_without_trace` -/
def Sources.trustedFinalLeafPathsWithoutTrace (b : Sources) (fileId : FileId) (allowUnknownPair : Bool) : List String :=
  match b.remoteFiles.get fileId, b.localFiles.get fileId with
  | some remote, some mine =>
    if !remote.isDir || !mine.isDir then []
    else if decide (fileId.pathPairId ∈ b.unknownLocalPathPairIds) && !allowUnknownPair then []
    else sortedSet (visitLocal mine remote "" false)
  | _, _ => []

/-! ## The counters of the trace -/

inductive Counter where
  | counts
  | mtime
  | readiness
  | rejection
  deriving DecidableEq

/-- The keys that the function gives each counter. -/
def Counter.keys : Counter → List String
  | counts =>
    ["remote_leaf_count", "local_leaf_count", "remote_only_leaf_count", "local_only_leaf_count",
      "staging_sibling_leaf_count", "staging_candidate_leaf_count", "excluded_leaf_count", "rejected_leaf_count",
      "collision_rejected_leaf_count", "size_mismatch_leaf_count", "type_mismatch_leaf_count",
      "status_sidecar_leaf_count"]
  | mtime => ["exact", "raw_mismatch", "portable_second_match", "missing"]
  | readiness => ["local", "remote", "unknown"]
  | rejection =>
    ["remote_only", "local_only", "type_mismatch", "staging", "collision", "status_sidecar", "size_mismatch",
      "mtime_raw_mismatch", "mtime_missing", "not_ready"]

/-- The locals of the traced function: its counters and the paths so far. -/
structure Traced where
  counters : Counter → Dict String Nat
  paths : List String

/-- `counter[key] += 1`, a `KeyError` where the key is not there. -/
def traceIncrement (counter : Counter) (key : String) (t : Traced) : Except String Traced :=
  match (t.counters counter).get key with
  | none => .error key
  | some n =>
    .ok { t with counters := fun other => if other = counter then (t.counters other).set key (n + 1) else t.counters other }

/-- One increment after the other. -/
def traceAll : List (Counter × String) → Traced → Except String Traced
  | [], t => .ok t
  | mark :: marks, t => (traceIncrement mark.1 mark.2 t).bind (traceAll marks)

mutual
/-- A recursion that counts every leaf: `count_remote_leaves`, `count_remote_type_mismatch`, `count_remote_only`. -/
def countLeaves (marks : List (Counter × String)) : SystemFile → Traced → Except String Traced
  | .mk a cs, t => if a.isDir then countLeavesOf marks cs t else traceAll marks t

def countLeavesOf (marks : List (Counter × String)) : List SystemFile → Traced → Except String Traced
  | [], t => .ok t
  | c :: cs, t => (countLeaves marks c t).bind (countLeavesOf marks cs)
end

def remoteLeafMarks : List (Counter × String) :=
  [(.counts, "remote_leaf_count"), (.counts, "remote_only_leaf_count"), (.mtime, "missing"), (.readiness, "unknown"),
    (.rejection, "not_ready")]

def typeMismatchMarks : List (Counter × String) :=
  [(.counts, "remote_leaf_count"), (.counts, "type_mismatch_leaf_count"), (.counts, "rejected_leaf_count"),
    (.mtime, "missing"), (.readiness, "unknown"), (.rejection, "type_mismatch")]

def remoteOnlyMarks : List (Counter × String) :=
  [(.counts, "remote_leaf_count"), (.counts, "remote_only_leaf_count"), (.mtime, "missing"), (.readiness, "remote"),
    (.rejection, "remote_only"), (.counts, "rejected_leaf_count")]

mutual
/-- `count_local_only` -/
def countLocalOnly : SystemFile → Bool → Traced → Except String Traced
  | .mk a cs, ancestorStaging, t =>
    let hasStaging := ancestorStaging || a.isStaging
    if a.isDir then countLocalOnlyOf cs hasStaging t
    else
      traceAll ([(.counts, "local_leaf_count"), (.counts, "local_only_leaf_count")] ++
        (if hasStaging then [(.counts, "staging_sibling_leaf_count")] else []) ++ [(.rejection, "local_only")]) t

def countLocalOnlyOf : List SystemFile → Bool → Traced → Except String Traced
  | [], _, t => .ok t
  | c :: cs, hasStaging, t => (countLocalOnly c hasStaging t).bind (countLocalOnlyOf cs hasStaging)
end

/-- `__queue_exclusion_mtime_category` -/
def queueExclusionMtimeCategory (remote : SystemFile) (local' : Option SystemFile) : String :=
  match local' with
  | none => "missing"
  | some mine =>
    if remote.isDir ≠ mine.isDir then "missing"
    else
      match mine.mtimeNs, remote.mtimeNs with
      | some ours, some theirs =>
        if ours = theirs then "exact"
        else if ours % 1000000000 = 0 ∧ ours / 1000000000 = theirs / 1000000000 then "portable_second_match"
        else "raw_mismatch"
      | _, _ => "missing"

/-- The increments at a leaf that both trees have, less the last. -/
def leafMarks (remote mine : SystemFile) (collided : Bool) : List (Counter × String) :=
  let category := queueExclusionMtimeCategory remote (some mine)
  let sizeMatches := decide (mine.size = remote.size)
  [(.counts, "remote_leaf_count"), (.counts, "local_leaf_count")] ++
    (if mine.isStaging then [(.counts, "staging_candidate_leaf_count")] else []) ++
    [(.mtime, category), (.readiness, if category = "missing" then "unknown" else "local")] ++
    (if !sizeMatches then [(.counts, "size_mismatch_leaf_count")] else []) ++
    (if mine.statusSidecarReady then [(.counts, "status_sidecar_leaf_count")] else []) ++
    (if collided then [(.counts, "collision_rejected_leaf_count"), (.rejection, "collision")]
     else if mine.isStaging then [(.rejection, "staging")]
     else if mine.statusSidecarReady then [(.rejection, "status_sidecar")]
     else if !sizeMatches then [(.rejection, "size_mismatch")]
     else if category = "missing" then [(.rejection, "mtime_missing")]
     else if category = "raw_mismatch" then [(.rejection, "mtime_raw_mismatch")]
     else [])

/-! ## The traced walk -/

mutual
/-- `visit` of `get_trusted_final_leaf_paths` -/
def visitRemote : SystemFile → SystemFile → String → Bool → Traced → Except String Traced
  | .mk a cs, mine, relative, ancestorHasStagingCollision, t =>
    if a.isDir ≠ mine.isDir then countLeaves typeMismatchMarks (.mk a cs) t
    else
      let collided := ancestorHasStagingCollision || mine.hasStagingCollision
      if !a.isDir then
        (traceAll (leafMarks (.mk a cs) mine collided) t).bind fun t =>
          if leafMatchesRemoteQueueExclusionIdentity (.mk a cs) mine && !collided then
            traceIncrement .counts "excluded_leaf_count" { t with paths := t.paths ++ [relative] }
          else traceIncrement .counts "rejected_leaf_count" t
      else
        (visitRemoteChildren cs mine.children relative collided t).bind
          (countLocalOnlyOf ((childDict mine.children).filter fun c => (childNamed cs c.name).isNone) collided)

def visitRemoteChildren : List SystemFile → List SystemFile → String → Bool → Traced → Except String Traced
  | [], _, _, _, t => .ok t
  | c :: cs, mine, relative, collided, t =>
    match childNamed mine c.name with
    | none => (countLeaves remoteOnlyMarks c t).bind (visitRemoteChildren cs mine relative collided)
    | some child =>
      (visitRemote c child (childRelative relative child.name) collided t).bind
        (visitRemoteChildren cs mine relative collided)
end

/-- `root_proof_current`; `is` tells whether two nodes are one object. The session and the generation are
given where they are a string and an integer. -/
def Sources.rootProofCurrent (b : Sources) (is : SystemFile → SystemFile → Bool) (fileId : FileId)
    (localScanSession : Option String) (localScanGeneration : Option Int) (remotePathPairReady : Bool) : Bool :=
  decide (fileId.pathPairId ∈ b.unknownLocalPathPairIds) && remotePathPairReady &&
    match localScanSession, localScanGeneration, b.localRootScanProofs.get fileId, b.localFiles.get fileId with
    | some session, some generation, some (token, proven, source), some mine =>
      decide (0 ≤ generation ∧ token = session ∧ proven = generation) && is mine source
    | _, _, _, _ => false

/-- `get_trusted_final_leaf_paths`, less the record of its trace. -/
def Sources.getTrustedFinalLeafPaths (b : Sources) (is : SystemFile → SystemFile → Bool) (traceEnabled : Bool)
    (fileId : FileId) (localScanSession : Option String) (localScanGeneration : Option Int) (remotePathPairReady : Bool) :
    Except String (List String) :=
  let rootProofCurrent := b.rootProofCurrent is fileId localScanSession localScanGeneration remotePathPairReady
  if !traceEnabled then .ok (b.trustedFinalLeafPathsWithoutTrace fileId rootProofCurrent)
  else
    let unknownLocal := decide (fileId.pathPairId ∈ b.unknownLocalPathPairIds) && !rootProofCurrent
    let empty : Traced := ⟨fun counter => .ofList (counter.keys.map fun key => (key, 0)), []⟩
    match b.remoteFiles.get fileId, b.localFiles.get fileId with
    | some remote, some mine =>
      if !remote.isDir || !mine.isDir then .ok []
      else if unknownLocal then (countLeaves remoteLeafMarks remote empty).map fun _ => []
      else (visitRemote remote mine "" false empty).map fun t => sortedSet t.paths
    | _, _ => .ok []

/-! ## The paths that may be left out -/

/-- The path below a path. -/
def joinFrom (relative : String) (path : List String) : String := path.foldl childRelative relative

theorem joinFrom_eq (path : List String) : joinFrom "" path = relativePath path := by
  induction path using List.reverseRecOn with
  | nil => rfl
  | append_singleton path name ih =>
    unfold joinFrom at ih ⊢
    rw [List.foldl_append, ih, List.foldl_cons, List.foldl_nil]
    exact childRelativePath_relativePath path name

/-- A path at which both trees have a file, the two related, with no collision of the local tree on the way. -/
structure MatchedAt (related : SystemFile → SystemFile → Prop) (remote mine : SystemFile) (path : List String) : Prop where
  leaf : ∃ theirs ours, nodeAt remote path = some theirs ∧ nodeAt mine path = some ours ∧ theirs.isDir = false ∧
    ours.isDir = false ∧ related theirs ours
  clear : ∀ above node, above <+: path → nodeAt mine above = some node → node.hasStagingCollision = false

section Matched

variable {related : SystemFile → SystemFile → Prop} {remote mine : SystemFile}

theorem matchedAt_nil : MatchedAt related remote mine [] ↔
    remote.isDir = false ∧ mine.isDir = false ∧ mine.hasStagingCollision = false ∧ related remote mine := by
  constructor
  · rintro ⟨⟨theirs, ours, htheirs, hours, hremote, hmine, hrelated⟩, hclear⟩
    obtain rfl := Option.some.inj htheirs
    obtain rfl := Option.some.inj hours
    exact ⟨hremote, hmine, hclear [] _ (List.prefix_refl _) rfl, hrelated⟩
  · rintro ⟨hremote, hmine, hcollision, hrelated⟩
    refine ⟨⟨remote, mine, rfl, rfl, hremote, hmine, hrelated⟩, fun above node habove hnode => ?_⟩
    rw [List.prefix_nil.1 habove] at hnode
    exact Option.some.inj hnode ▸ hcollision

theorem matchedAt_cons {n : String} {path : List String} :
    MatchedAt related remote mine (n :: path) ↔ mine.hasStagingCollision = false ∧
      ∃ theirs ours, childNamed remote.children n = some theirs ∧ childNamed mine.children n = some ours ∧
        MatchedAt related theirs ours path := by
  constructor
  · rintro ⟨⟨theirs, ours, htheirs, hours, hleaf⟩, hclear⟩
    rw [nodeAt_cons] at htheirs hours
    obtain ⟨r, hr, hbelow⟩ := Option.bind_eq_some_iff.1 htheirs
    obtain ⟨m, hm, hbelow'⟩ := Option.bind_eq_some_iff.1 hours
    refine ⟨hclear [] mine List.nil_prefix rfl, r, m, hr, hm, ⟨theirs, ours, hbelow, hbelow', hleaf⟩,
      fun above node habove hnode => ?_⟩
    exact hclear (n :: above) node (List.cons_prefix_cons.2 ⟨rfl, habove⟩) (by rw [nodeAt_cons, hm]; exact hnode)
  · rintro ⟨hcollision, r, m, hr, hm, ⟨theirs, ours, htheirs, hours, hleaf⟩, hclear⟩
    refine ⟨⟨theirs, ours, by rw [nodeAt_cons, hr]; exact htheirs, by rw [nodeAt_cons, hm]; exact hours, hleaf⟩,
      fun above node habove hnode => ?_⟩
    cases above with
    | nil => exact Option.some.inj hnode ▸ hcollision
    | cons k above =>
      obtain ⟨rfl, hbelow⟩ := List.cons_prefix_cons.1 habove
      rw [nodeAt_cons, hm] at hnode
      exact hclear above node hbelow hnode

/-- What a walk finds: the matched paths below `relative`, none where a collision lies above. -/
def Finds (related : SystemFile → SystemFile → Prop) (remote mine : SystemFile) (relative : String) (collided : Bool)
    (found : String) : Prop :=
  collided = false ∧ ∃ path, found = joinFrom relative path ∧ MatchedAt related remote mine path

/-- Where one of the two has no children, only the node itself may be found. -/
theorem finds_leaf (hremote : WellFormed remote) (hmine : WellFormed mine)
    (h : ¬ (remote.isDir = true ∧ mine.isDir = true)) (relative : String) (collided : Bool) (found : String) :
    Finds related remote mine relative collided found ↔ collided = false ∧ found = relative ∧
      remote.isDir = false ∧ mine.isDir = false ∧ mine.hasStagingCollision = false ∧ related remote mine := by
  unfold Finds
  refine and_congr_right fun _ => ?_
  constructor
  · rintro ⟨path, rfl, hmatched⟩
    cases path with
    | nil => exact ⟨rfl, matchedAt_nil.1 hmatched⟩
    | cons n path =>
      obtain ⟨-, theirs, ours, htheirs, hours, -⟩ := matchedAt_cons.1 hmatched
      exact absurd ⟨hremote.isDir htheirs, hmine.isDir hours⟩ h
  · rintro ⟨rfl, hleaf⟩
    exact ⟨[], rfl, matchedAt_nil.2 hleaf⟩

/-- Nothing is found where the shapes differ. -/
theorem not_finds (hremote : WellFormed remote) (hmine : WellFormed mine) (hkind : remote.isDir ≠ mine.isDir)
    (relative : String) (collided : Bool) (found : String) : ¬ Finds related remote mine relative collided found := by
  rw [finds_leaf hremote hmine fun h => hkind (h.1.trans h.2.symm)]
  exact fun h => hkind (h.2.2.1.trans h.2.2.2.1.symm)

theorem finds_dirs (hdir : remote.isDir = true) (relative : String) (collided : Bool) (found : String) :
    Finds related remote mine relative collided found ↔
      ∃ n theirs ours, childNamed remote.children n = some theirs ∧ childNamed mine.children n = some ours ∧
        Finds related theirs ours (childRelative relative n) (collided || mine.hasStagingCollision) found := by
  unfold Finds
  constructor
  · rintro ⟨rfl, path, rfl, hmatched⟩
    cases path with
    | nil =>
      have hleaf := (matchedAt_nil.1 hmatched).1
      rw [hdir] at hleaf
      cases hleaf
    | cons n path =>
      obtain ⟨hcollision, theirs, ours, htheirs, hours, hbelow⟩ := matchedAt_cons.1 hmatched
      exact ⟨n, theirs, ours, htheirs, hours, by rw [hcollision]; rfl, path, rfl, hbelow⟩
  · rintro ⟨n, theirs, ours, htheirs, hours, hclear, path, rfl, hbelow⟩
    rw [Bool.or_eq_false_iff] at hclear
    exact ⟨hclear.1, n :: path, rfl, matchedAt_cons.2 ⟨hclear.2, theirs, ours, htheirs, hours, hbelow⟩⟩

end Matched

/-- The identity of a final leaf: one size, and raw mtimes that are equal, or the local one a whole second and that of the remote. -/
structure QueueIdentity (theirs ours : SystemFile) : Prop where
  final : ours.isStaging = false
  size : ours.size = theirs.size
  mtime : ∃ t s, ours.mtimeNs = some t ∧ theirs.mtimeNs = some s ∧
    (t = s ∨ (t % 1000000000 = 0 ∧ t / 1000000000 = s / 1000000000))

theorem leafMatchesRemoteQueueExclusionIdentity_iff {remote mine : SystemFile} :
    leafMatchesRemoteQueueExclusionIdentity remote mine = true ↔
      remote.isDir = false ∧ mine.isDir = false ∧ mine.hasStagingCollision = false ∧ QueueIdentity remote mine := by
  have hidentity : QueueIdentity remote mine ↔ mine.isStaging = false ∧ mine.size = remote.size ∧
      ∃ t s, mine.mtimeNs = some t ∧ remote.mtimeNs = some s ∧
        (t = s ∨ (t % 1000000000 = 0 ∧ t / 1000000000 = s / 1000000000)) :=
    ⟨fun h => ⟨h.final, h.size, h.mtime⟩, fun h => ⟨h.1, h.2.1, h.2.2⟩⟩
  rw [hidentity]
  unfold leafMatchesRemoteQueueExclusionIdentity isAuthoritativeLocalFile
  cases mine.mtimeNs <;> cases remote.mtimeNs <;> simp
  tauto

/-- A leaf that both scans have, final here and of the remote identity. -/
abbrev TrustedAt : SystemFile → SystemFile → List String → Prop := MatchedAt QueueIdentity

/-! ## The plain walk finds them -/

theorem mem_visitLocalChildren {cs remotes : List SystemFile} {relative : String} {collided : Bool} {found : String} :
    found ∈ visitLocalChildren cs remotes relative collided ↔
      ∃ c ∈ cs, ∃ remote, childNamed remotes c.name = some remote ∧
        found ∈ visitLocal c remote (childRelative relative c.name) collided := by
  induction cs with
  | nil =>
    rw [visitLocalChildren]
    simp
  | cons c cs ih =>
    rw [visitLocalChildren]
    cases hremote : childNamed remotes c.name with
    | none => simp [ih, hremote]
    | some remote => simp [ih, hremote]

theorem mem_visitLocal {mine remote : SystemFile} (hmine : WellFormed mine) (hremote : WellFormed remote) {relative : String}
    {collided : Bool} {found : String} :
    found ∈ visitLocal mine remote relative collided ↔ Finds QueueIdentity remote mine relative collided found := by
  induction mine using tree_induction generalizing remote relative collided with
  | node a cs ih =>
    rw [visitLocal]
    by_cases hkind : remote.isDir ≠ a.isDir
    · rw [if_pos hkind]
      exact iff_of_false (by simp) (not_finds hremote hmine hkind relative collided found)
    rw [if_neg hkind]
    dsimp only
    cases hdir : remote.isDir with
    | false =>
      rw [finds_leaf hremote hmine (fun h => by rw [hdir] at h; cases h.1), ← leafMatchesRemoteQueueExclusionIdentity_iff]
      by_cases hidentity : leafMatchesRemoteQueueExclusionIdentity remote (mk a cs) = true
      · have hcollision : a.hasStagingCollision = false :=
          (leafMatchesRemoteQueueExclusionIdentity_iff.1 hidentity).2.2.1
        rw [hidentity, hcollision]
        cases collided <;> simp
      · simp [hidentity]
    | true =>
      rw [finds_dirs hdir, if_neg (by simp), mem_visitLocalChildren, children_mk]
      constructor
      · rintro ⟨c, hc, theirs, htheirs, hfound⟩
        have hchild := childNamed_of_mem hmine.names hc
        exact ⟨c.name, theirs, c, htheirs, hchild, (ih c hc (hmine.child hchild) (hremote.child htheirs)).1 hfound⟩
      · rintro ⟨n, theirs, ours, htheirs, hours, hfound⟩
        obtain ⟨hmem, rfl⟩ := childNamed_mem hours
        exact ⟨ours, hmem, theirs, htheirs, (ih ours hmem (hmine.child hours) (hremote.child htheirs)).2 hfound⟩

/-! ## The counters never miss a key -/

def Complete (t : Traced) : Prop := ∀ counter : Counter, ∀ key ∈ counter.keys, (t.counters counter).get key ≠ none

/-- A step of the trace that ends, with its paths behind the others. -/
def Keeps (step : Traced → Except String Traced) (added : List String) : Prop :=
  ∀ t, Complete t → ∃ t', step t = .ok t' ∧ Complete t' ∧ t'.paths = t.paths ++ added

theorem keeps_ok : Keeps .ok [] := fun t h => ⟨t, rfl, h, (List.append_nil _).symm⟩

theorem Keeps.bind {f g : Traced → Except String Traced} {a b : List String} (hf : Keeps f a) (hg : Keeps g b) :
    Keeps (fun t => (f t).bind g) (a ++ b) := by
  intro t h
  obtain ⟨t', ht', hcomplete, hpaths⟩ := hf t h
  obtain ⟨t'', ht'', hcomplete', hpaths'⟩ := hg t' hcomplete
  refine ⟨t'', ?_, hcomplete', ?_⟩
  · dsimp only
    rw [ht']
    exact ht''
  · rw [hpaths', hpaths, List.append_assoc]

theorem keeps_increment {counter : Counter} {key : String} (h : key ∈ counter.keys) : Keeps (traceIncrement counter key) [] := by
  intro t hcomplete
  obtain ⟨n, hn⟩ := Option.ne_none_iff_exists'.1 (hcomplete counter key h)
  unfold traceIncrement
  rw [hn]
  refine ⟨_, rfl, fun other k hk => ?_, (List.append_nil _).symm⟩
  dsimp only
  split_ifs
  · rw [Dict.get_set]
    split_ifs
    · simp
    · exact hcomplete other k hk
  · exact hcomplete other k hk

/-- The keys are there. -/
def Marked (marks : List (Counter × String)) : Prop := ∀ mark ∈ marks, mark.2 ∈ mark.1.keys

theorem keeps_all {marks : List (Counter × String)} (h : Marked marks) : Keeps (traceAll marks) [] := by
  induction marks with
  | nil => exact keeps_ok
  | cons mark marks ih =>
    exact (keeps_increment (h mark List.mem_cons_self)).bind (ih fun other hother => h other (List.mem_cons_of_mem _ hother))

mutual
theorem keeps_countLeaves {marks : List (Counter × String)} (h : Marked marks) : (file : SystemFile) →
    Keeps (countLeaves marks file) []
  | .mk a cs => by
    intro t hcomplete
    rw [countLeaves]
    split_ifs
    · exact keeps_countLeavesOf h cs t hcomplete
    · exact keeps_all h t hcomplete

theorem keeps_countLeavesOf {marks : List (Counter × String)} (h : Marked marks) : (cs : List SystemFile) →
    Keeps (countLeavesOf marks cs) []
  | [] => by
    intro t hcomplete
    rw [countLeavesOf]
    exact keeps_ok t hcomplete
  | c :: cs => by
    intro t hcomplete
    rw [countLeavesOf]
    exact ((keeps_countLeaves h c).bind (keeps_countLeavesOf h cs)) t hcomplete
end

mutual
theorem keeps_countLocalOnly : (file : SystemFile) → (staging : Bool) → Keeps (countLocalOnly file staging) []
  | .mk a cs, staging => by
    intro t hcomplete
    rw [countLocalOnly]
    split_ifs with hdir hstaging
    · exact keeps_countLocalOnlyOf cs _ t hcomplete
    · exact keeps_all (by unfold Marked; decide) t hcomplete
    · exact keeps_all (by unfold Marked; decide) t hcomplete

theorem keeps_countLocalOnlyOf : (cs : List SystemFile) → (staging : Bool) → Keeps (countLocalOnlyOf cs staging) []
  | [], staging => by
    intro t hcomplete
    rw [countLocalOnlyOf]
    exact keeps_ok t hcomplete
  | c :: cs, staging => by
    intro t hcomplete
    rw [countLocalOnlyOf]
    exact ((keeps_countLocalOnly c staging).bind (keeps_countLocalOnlyOf cs staging)) t hcomplete
end

theorem queueExclusionMtimeCategory_mem (remote : SystemFile) (mine : Option SystemFile) :
    queueExclusionMtimeCategory remote mine ∈ Counter.mtime.keys := by
  have hmissing : "missing" ∈ Counter.mtime.keys := by decide
  unfold queueExclusionMtimeCategory
  cases mine with
  | none => exact hmissing
  | some mine =>
    dsimp only
    split_ifs
    · exact hmissing
    · split
      · split_ifs <;> decide
      · exact hmissing

theorem leafMarks_marked (remote mine : SystemFile) (collided : Bool) : Marked (leafMarks remote mine collided) := by
  have hcategory := queueExclusionMtimeCategory_mem remote (some mine)
  have hone : ∀ {p : Prop} [Decidable p] {mark : Counter × String}, mark.2 ∈ mark.1.keys →
      Marked (if p then [mark] else []) := by
    intro p _ mark h
    split_ifs
    · simpa [Marked] using h
    · simp [Marked]
  have happend : ∀ {xs ys : List (Counter × String)}, Marked xs → Marked ys → Marked (xs ++ ys) := fun hx hy mark hmark =>
    (List.mem_append.1 hmark).elim (hx mark) (hy mark)
  unfold leafMarks
  refine happend (happend (happend (happend (happend ?_ ?_) ?_) ?_) ?_) ?_
  · unfold Marked
    decide
  · exact hone (by decide)
  · refine List.forall_mem_cons.2 ⟨hcategory, List.forall_mem_singleton.2 ?_⟩
    dsimp only
    split_ifs <;> decide
  · exact hone (by decide)
  · exact hone (by decide)
  · split_ifs <;> (unfold Marked; decide)

/-! ## The traced walk finds them too -/

/-- What the traced walk appends at a pair of nodes. -/
def Walks (remote mine : SystemFile) (relative : String) (collided : Bool) : Prop :=
  ∃ added, Keeps (visitRemote remote mine relative collided) added ∧
    ∀ found, found ∈ added ↔ Finds QueueIdentity remote mine relative collided found

theorem visitRemoteChildren_keeps {cs mine : List SystemFile} {relative : String} {collided : Bool}
    (h : ∀ c ∈ cs, ∀ child, childNamed mine c.name = some child → Walks c child (childRelative relative c.name) collided) :
    ∃ added, Keeps (visitRemoteChildren cs mine relative collided) added ∧ ∀ found, found ∈ added ↔
      ∃ c ∈ cs, ∃ child, childNamed mine c.name = some child ∧
        Finds QueueIdentity c child (childRelative relative c.name) collided found := by
  induction cs with
  | nil =>
    refine ⟨[], fun t hcomplete => ?_, by simp⟩
    rw [visitRemoteChildren]
    exact keeps_ok t hcomplete
  | cons c cs ih =>
    obtain ⟨rest, hrest, hfound⟩ := ih fun d hd => h d (List.mem_cons_of_mem _ hd)
    cases hchild : childNamed mine c.name with
    | none =>
      refine ⟨rest, fun t hcomplete => ?_, fun found => by simp [hfound, hchild]⟩
      rw [visitRemoteChildren, hchild]
      exact ((keeps_countLeaves (by unfold Marked; decide) c).bind hrest) t hcomplete
    | some child =>
      obtain ⟨here, hhere, hfinds⟩ := h c List.mem_cons_self child hchild
      refine ⟨here ++ rest, fun t hcomplete => ?_, fun found => by simp [hfound, hfinds, hchild]⟩
      rw [visitRemoteChildren, hchild]
      dsimp only
      rw [(childNamed_mem hchild).2]
      exact (hhere.bind hrest) t hcomplete

theorem walks {remote mine : SystemFile} (hremote : WellFormed remote) (hmine : WellFormed mine) (relative : String)
    (collided : Bool) : Walks remote mine relative collided := by
  induction remote using tree_induction generalizing mine relative collided with
  | node a cs ih =>
    unfold Walks
    by_cases hkind : a.isDir ≠ mine.isDir
    · refine ⟨[], fun t hcomplete => ?_, fun found => ?_⟩
      · rw [visitRemote, if_pos hkind]
        exact keeps_countLeaves (by unfold Marked; decide) _ t hcomplete
      · exact iff_of_false (by simp) (not_finds hremote hmine hkind relative collided found)
    cases hdir : a.isDir with
    | false =>
      -- The mark that is left is that of the path appended, or of the leaf refused.
      have hleaf : ∀ found, Finds QueueIdentity (mk a cs) mine relative collided found ↔
          collided = false ∧ found = relative ∧ leafMatchesRemoteQueueExclusionIdentity (mk a cs) mine = true := by
        intro found
        rw [finds_leaf hremote hmine (fun h => by rw [isDir_mk, hdir] at h; cases h.1), leafMatchesRemoteQueueExclusionIdentity_iff]
      have hmarks := keeps_all (leafMarks_marked (mk a cs) mine (collided || mine.hasStagingCollision))
      by_cases htrusted : (leafMatchesRemoteQueueExclusionIdentity (mk a cs) mine &&
          !(collided || mine.hasStagingCollision)) = true
      · refine ⟨[relative], fun t hcomplete => ?_, fun found => ?_⟩
        · rw [visitRemote, if_neg hkind]
          dsimp only
          rw [if_pos (by rw [hdir]; rfl), htrusted]
          have happend : Keeps (fun t => traceIncrement .counts "excluded_leaf_count" { t with paths := t.paths ++ [relative] })
              [relative] := by
            intro t hcomplete
            obtain ⟨t', ht', hcomplete', hpaths⟩ := @keeps_increment .counts "excluded_leaf_count" (by decide)
              { t with paths := t.paths ++ [relative] } hcomplete
            exact ⟨t', ht', hcomplete', by rw [hpaths, List.append_nil]⟩
          exact (hmarks.bind happend) t hcomplete
        · rw [hleaf, List.mem_singleton]
          simp only [Bool.and_eq_true, Bool.not_eq_true', Bool.or_eq_false_iff] at htrusted
          exact ⟨fun h => ⟨htrusted.2.1, h, htrusted.1⟩, fun h => h.2.1⟩
      · refine ⟨[], fun t hcomplete => ?_, fun found => ?_⟩
        · rw [visitRemote, if_neg hkind]
          dsimp only
          rw [if_pos (by rw [hdir]; rfl), Bool.eq_false_iff.2 htrusted]
          exact (hmarks.bind (keeps_increment (by decide))) t hcomplete
        · rw [hleaf]
          refine iff_of_false (by simp) fun h => htrusted ?_
          rw [h.2.2, h.1, (leafMatchesRemoteQueueExclusionIdentity_iff.1 h.2.2).2.2.1]
          rfl
    | true =>
      obtain ⟨added, hadded, hfound⟩ := @visitRemoteChildren_keeps cs mine.children relative
        (collided || mine.hasStagingCollision) fun c hc child hchild =>
          ih c hc (hremote.child (childNamed_of_mem hremote.names hc)) (hmine.child hchild) _ _
      refine ⟨added ++ [], fun t hcomplete => ?_, fun found => ?_⟩
      · rw [visitRemote, if_neg hkind]
        dsimp only
        rw [if_neg (by rw [hdir]; simp)]
        exact (hadded.bind (keeps_countLocalOnlyOf _ _)) t hcomplete
      · rw [List.append_nil, hfound, finds_dirs (show (mk a cs).isDir = true from hdir), children_mk]
        constructor
        · rintro ⟨c, hc, child, hchild, hfinds⟩
          exact ⟨c.name, c, child, childNamed_of_mem hremote.names hc, hchild, hfinds⟩
        · rintro ⟨n, theirs, ours, htheirs, hours, hfinds⟩
          obtain ⟨hmem, rfl⟩ := childNamed_mem htheirs
          exact ⟨theirs, hmem, ours, hours, hfinds⟩

/-! ## Queue exclusions -/

theorem mem_sortedSet {paths : List String} {found : String} : found ∈ sortedSet paths ↔ found ∈ paths := by
  unfold sortedSet
  rw [List.mem_insertionSort, List.mem_dedup]

theorem sortedSet_sorted (paths : List String) : (sortedSet paths).Pairwise (· < ·) := by
  have hsorted : (sortedSet paths).Pairwise (· ≤ ·) := List.pairwise_insertionSort _ _
  have hnodup : (sortedSet paths).Nodup := (List.perm_insertionSort _ _).nodup_iff.2 (List.nodup_dedup paths)
  exact (hsorted.and hnodup).imp fun h => lt_of_le_of_ne h.1 h.2

/-- Lists of the same paths are the same tuple. -/
theorem sortedSet_congr {xs ys : List String} (h : ∀ found, found ∈ xs ↔ found ∈ ys) : sortedSet xs = sortedSet ys :=
  List.Pairwise.eq_of_mem_iff (sortedSet_sorted xs) (sortedSet_sorted ys) fun found => by
    rw [mem_sortedSet, mem_sortedSet, h]

theorem empty_complete : Complete ⟨fun counter => .ofList (counter.keys.map fun key => (key, 0)), []⟩ := by
  intro counter key hkey
  refine Dict.get_ofList_of_mem ?_
  rw [List.map_map]
  exact List.mem_map.2 ⟨key, hkey, rfl⟩

/-- The roots of an id are trees of distinct names. -/
def Sources.RootsWellFormed (b : Sources) (fileId : FileId) : Prop :=
  (∀ remote, b.remoteFiles.get fileId = some remote → WellFormed remote) ∧
    ∀ mine, b.localFiles.get fileId = some mine → WellFormed mine

theorem traced_eq {b : Sources} {fileId : FileId} (hwell : b.RootsWellFormed fileId) (is : SystemFile → SystemFile → Bool)
    (session : Option String) (generation : Option Int) (ready traceEnabled : Bool) :
    b.getTrustedFinalLeafPaths is traceEnabled fileId session generation ready =
      .ok (b.trustedFinalLeafPathsWithoutTrace fileId (b.rootProofCurrent is fileId session generation ready)) := by
  cases traceEnabled with
  | false => rfl
  | true =>
    unfold Sources.getTrustedFinalLeafPaths Sources.trustedFinalLeafPathsWithoutTrace
    rw [if_neg (by simp)]
    dsimp only
    cases hremote : b.remoteFiles.get fileId with
    | none => rfl
    | some remote =>
      cases hmine : b.localFiles.get fileId with
      | none => rfl
      | some mine =>
        dsimp only
        split_ifs
        · rfl
        · obtain ⟨t, ht, -⟩ := @keeps_countLeaves remoteLeafMarks (by unfold Marked; decide) remote _ empty_complete
          rw [show countLeaves remoteLeafMarks remote _ = _ from ht]
          rfl
        · have hremoteWell := hwell.1 remote hremote
          have hmineWell := hwell.2 mine hmine
          obtain ⟨added, hadded, hfound⟩ := walks hremoteWell hmineWell "" false
          obtain ⟨t, ht, -, hpaths⟩ := hadded _ empty_complete
          rw [ht]
          refine congrArg Except.ok (sortedSet_congr fun found => ?_)
          rw [hpaths, List.nil_append, hfound, mem_visitLocal hmineWell hremoteWell]

/-- The exclusions with the trace are those without it: sorted, and the final leaves that both trees have. -/
theorem queue_exclusions {b : Sources} {fileId : FileId} (hwell : b.RootsWellFormed fileId)
    (is : SystemFile → SystemFile → Bool) (session : Option String) (generation : Option Int) (ready : Bool) :
    ∃ paths, (∀ traceEnabled, b.getTrustedFinalLeafPaths is traceEnabled fileId session generation ready = .ok paths) ∧
      paths.Pairwise (· < ·) ∧
      (fileId.pathPairId ∈ b.unknownLocalPathPairIds → b.rootProofCurrent is fileId session generation ready = false →
        paths = []) ∧
      ((fileId.pathPairId ∈ b.unknownLocalPathPairIds → b.rootProofCurrent is fileId session generation ready = true) →
        ∀ found, found ∈ paths ↔ ∃ remote mine, b.remoteFiles.get fileId = some remote ∧
          b.localFiles.get fileId = some mine ∧ remote.isDir = true ∧ mine.isDir = true ∧
          ∃ path, found = relativePath path ∧ TrustedAt remote mine path) := by
  refine ⟨_, traced_eq hwell is session generation ready, ?_, ?_, ?_⟩
  · unfold Sources.trustedFinalLeafPathsWithoutTrace
    split
    · split_ifs
      · exact List.Pairwise.nil
      · exact List.Pairwise.nil
      · exact sortedSet_sorted _
    · exact List.Pairwise.nil
  · intro hunknown hproof
    unfold Sources.trustedFinalLeafPathsWithoutTrace
    rw [hproof]
    split
    · split_ifs with hdirs hknown
      · rfl
      · rfl
      · exact absurd (by simpa using hunknown) hknown
    · rfl
  · intro hauthority found
    unfold Sources.trustedFinalLeafPathsWithoutTrace
    cases hremote : b.remoteFiles.get fileId with
    | none => simp
    | some remote =>
      cases hmine : b.localFiles.get fileId with
      | none => simp
      | some mine =>
        dsimp only
        have hknown : ¬ (decide (fileId.pathPairId ∈ b.unknownLocalPathPairIds) &&
            !b.rootProofCurrent is fileId session generation ready) = true := by
          intro h
          rw [Bool.and_eq_true, decide_eq_true_eq, Bool.not_eq_true'] at h
          rw [hauthority h.1] at h
          cases h.2
        by_cases hdirs : (!remote.isDir || !mine.isDir) = true
        · rw [if_pos hdirs]
          refine iff_of_false (by simp) ?_
          rintro ⟨remote', mine', hr, hm, hremoteDir, hmineDir, -⟩
          obtain rfl := Option.some.inj hr
          obtain rfl := Option.some.inj hm
          rw [hremoteDir, hmineDir] at hdirs
          cases hdirs
        · rw [if_neg hdirs, if_neg hknown, mem_sortedSet, mem_visitLocal (hwell.2 mine hmine) (hwell.1 remote hremote)]
          simp only [Bool.or_eq_true, Bool.not_eq_true', not_or, Bool.not_eq_false] at hdirs
          unfold Finds
          simp only [joinFrom_eq, true_and]
          constructor
          · rintro ⟨path, rfl, htrusted⟩
            exact ⟨remote, mine, rfl, rfl, hdirs.1, hdirs.2, path, rfl, htrusted⟩
          · rintro ⟨remote', mine', hr, hm, -, -, path, rfl, htrusted⟩
            obtain rfl := Option.some.inj hr
            obtain rfl := Option.some.inj hm
            exact ⟨path, rfl, htrusted⟩

private def queuedLeaf : SystemFile := mk { name := "x", size := 1, mtimeNs := some 2000000000 } []
private def queuedRoot : SystemFile := mk { name := "d", size := 1, isDir := true } [queuedLeaf]
private def queuedSources : Sources := { localFiles := .ofList [queuedRoot], remoteFiles := .ofList [queuedRoot] }

private theorem queuedRoot_wellFormed : WellFormed queuedRoot := by
  refine .mk (by simp) (by simp) fun c hc => ?_
  obtain rfl := List.mem_singleton.1 hc
  exact .mk (by simp) (by simp) (by simp)

/-- The leaf that both scans have is left out of the transfer. -/
theorem queuedLeaf_excluded :
    ∃ paths, queuedSources.getTrustedFinalLeafPaths (fun _ _ => true) true (.bare "d") none none false = .ok paths ∧
      "x" ∈ paths := by
  have hfiles : queuedSources.remoteFiles.get (.bare "d") = some queuedRoot ∧
      queuedSources.localFiles.get (.bare "d") = some queuedRoot := by
    decide +kernel
  have hwell : queuedSources.RootsWellFormed (.bare "d") := by
    constructor
    · intro remote h
      exact Option.some.inj (hfiles.1.symm.trans h) ▸ queuedRoot_wellFormed
    · intro mine h
      exact Option.some.inj (hfiles.2.symm.trans h) ▸ queuedRoot_wellFormed
  obtain ⟨paths, hpaths, -, -, hmem⟩ := queue_exclusions hwell (fun _ _ => true) none none false
  refine ⟨paths, hpaths true, (hmem (fun h => absurd h (by decide)) "x").2 ?_⟩
  refine ⟨queuedRoot, queuedRoot, hfiles.1, hfiles.2, rfl, rfl, ["x"], by decide +kernel, ?_⟩
  exact matchedAt_cons.2 ⟨rfl, queuedLeaf, queuedLeaf, by decide +kernel, by decide +kernel,
    matchedAt_nil.2 (leafMatchesRemoteQueueExclusionIdentity_iff.1 (by decide +kernel))⟩

end SeedSync.Builder
