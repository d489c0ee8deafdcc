import SeedSync.Local.Files
import SeedSync.System.Roots

/-!
# Final content wins

What `__merge_duplicate_local_entries` has at each path, for two trees of one root: where both sides
have a directory it is rebuilt, where both have a node and one is a file the final node stays, and
elsewhere the one subtree there is is taken over as it is.
-/

namespace SeedSync.Local

open SystemFile Lib

/-! ## Children by name -/

theorem childNamed_perm {xs ys : List SystemFile} (h : xs.Perm ys) (hnodup : (xs.map name).Nodup) (n : String) :
    childNamed xs n = childNamed ys n := by
  have hnodup' : (ys.map name).Nodup := (h.map name).nodup_iff.1 hnodup
  refine Option.ext fun f => ?_
  constructor
  · intro hf
    obtain ⟨hmem, rfl⟩ := childNamed_mem hf
    exact childNamed_of_mem hnodup' (h.mem_iff.1 hmem)
  · intro hf
    obtain ⟨hmem, rfl⟩ := childNamed_mem hf
    exact childNamed_of_mem hnodup (h.mem_iff.2 hmem)

/-- A child of the final directory that staging does not have. -/
def finalOnly (child : SystemFile) : SystemFile := .mk { child.attrs with hasStagingOrigin := some false } child.children

/-- What the merge has under one name. -/
def mergedChild : Option SystemFile → Option SystemFile → Option SystemFile
  | some final, some staging => some (mergeDuplicateLocalEntries final staging)
  | some final, none => some (finalOnly final)
  | none, staging => staging

theorem mergeDuplicateLocalEntries_name (final staging : SystemFile) :
    (mergeDuplicateLocalEntries final staging).name = final.name := by
  cases final with
  | mk attrs children =>
    rw [mergeDuplicateLocalEntries]
    split_ifs <;> rfl

theorem mergeLocalChildren_names (children staging : List SystemFile) :
    (mergeLocalChildren children staging).map name = children.map name := by
  induction children with
  | nil => rfl
  | cons child children ih =>
    rw [mergeLocalChildren, List.map_cons, List.map_cons, ih]
    congr 1
    split
    · rfl
    · exact mergeDuplicateLocalEntries_name _ _

theorem childNamed_mergeLocalChildren (children staging : List SystemFile) (n : String) :
    childNamed (mergeLocalChildren children staging) n =
      (childNamed children n).bind fun child => mergedChild (some child) (childNamed staging n) := by
  induction children with
  | nil => rfl
  | cons child children ih =>
    rw [mergeLocalChildren, childNamed, ih, childNamed]
    cases hrest : childNamed children n with
    | some found => cases hother : childNamed staging n <;> rfl
    | none =>
      simp only [Option.bind_none]
      by_cases hn : child.name = n
      · subst hn
        rw [if_pos rfl]
        cases hother : childNamed staging child.name with
        | none => exact if_pos rfl
        | some other => exact if_pos (mergeDuplicateLocalEntries_name _ _)
      · rw [if_neg hn]
        refine if_neg ?_
        cases hother : childNamed staging child.name with
        | none => exact hn
        | some other => exact fun h => hn ((mergeDuplicateLocalEntries_name _ _).symm.trans h)

/-- The children that the staging directory has alone. -/
def stagingOnly (children staging : List SystemFile) : List SystemFile :=
  staging.filter fun child => !children.any fun other => other.name == child.name

theorem mem_stagingOnly {children staging : List SystemFile} {child : SystemFile} :
    child ∈ stagingOnly children staging ↔ child ∈ staging ∧ ∀ other ∈ children, other.name ≠ child.name := by
  simp [stagingOnly]

/-- The children of a merged directory. -/
def mergedChildren (children staging : List SystemFile) : List SystemFile :=
  sortByName (mergeLocalChildren children staging ++ stagingOnly children staging)

section Children

variable {children staging : List SystemFile} (hfinal : (children.map name).Nodup) (hstaging : (staging.map name).Nodup)
include hfinal hstaging

theorem mergedChildren_nodup : ((mergedChildren children staging).map name).Nodup := by
  have hperm := (sortByName_perm (mergeLocalChildren children staging ++ stagingOnly children staging)).map name
  rw [mergedChildren, hperm.nodup_iff, List.map_append, mergeLocalChildren_names, List.nodup_append]
  refine ⟨hfinal, hstaging.sublist (List.filter_sublist.map _), ?_⟩
  rintro n hn m hm rfl
  obtain ⟨other, hother, rfl⟩ := List.mem_map.1 hn
  obtain ⟨child, hchild, hname⟩ := List.mem_map.1 hm
  exact (mem_stagingOnly.1 hchild).2 other hother hname.symm

theorem childNamed_mergedChildren (n : String) :
    childNamed (mergedChildren children staging) n = mergedChild (childNamed children n) (childNamed staging n) := by
  rw [mergedChildren, childNamed_perm (sortByName_perm _) (mergedChildren_nodup hfinal hstaging), childNamed_append,
    childNamed_mergeLocalChildren]
  cases hchild : childNamed children n with
  | some child =>
    have hnone : childNamed (stagingOnly children staging) n = none := by
      obtain ⟨hmem, rfl⟩ := childNamed_mem hchild
      refine childNamed_eq_none fun other hother hname => ?_
      exact (mem_stagingOnly.1 hother).2 child hmem hname.symm
    rw [hnone, Option.none_or, Option.bind_some]
  | none =>
    rw [Option.bind_none, Option.or_none]
    cases hother : childNamed staging n with
    | none =>
      refine childNamed_eq_none fun other hmem => ?_
      exact childNamed_none_iff.1 hother other (mem_stagingOnly.1 hmem).1
    | some other =>
      obtain ⟨hmem, rfl⟩ := childNamed_mem hother
      refine childNamed_of_mem (hstaging.sublist (List.filter_sublist.map _)) (mem_stagingOnly.2 ⟨hmem, ?_⟩)
      exact fun child hin => childNamed_none_iff.1 hchild child hin

end Children

/-! ## The node at a path -/

theorem merge_files {final staging : SystemFile} (h : ¬(final.isDir = true ∧ staging.isDir = true)) :
    mergeDuplicateLocalEntries final staging = keepFinal final := by
  cases final with
  | mk attrs children =>
    rw [mergeDuplicateLocalEntries]
    exact if_neg fun hboth => h (Bool.and_eq_true_iff.1 hboth)

/-- The rebuilt directory: its own attributes are those of the final one. -/
theorem merge_dirs {final staging : SystemFile} (h : final.isDir = true ∧ staging.isDir = true) :
    mergeDuplicateLocalEntries final staging = .mk {
      name := final.name, size := ((mergedChildren final.children staging.children).map size).sum, isDir := true
      timestampCreated := final.attrs.timestampCreated, timestampModified := final.attrs.timestampModified
      mtimeNs := final.attrs.mtimeNs, pathPairId := final.attrs.pathPairId, pathPairName := final.attrs.pathPairName
      hasStagingOrigin := some true } (mergedChildren final.children staging.children) := by
  cases final with
  | mk attrs children =>
    rw [mergeDuplicateLocalEntries]
    exact if_pos (Bool.and_eq_true_iff.2 h)

/-- How the node at a path comes about, from the nodes of both sides at the path. -/
inductive Comes (final staging : Option SystemFile) : SystemFile → Prop
  | merged {a b : SystemFile} (hfinal : final = some a) (hstaging : staging = some b)
      (hdirs : a.isDir = true ∧ b.isDir = true) : Comes final staging (mergeDuplicateLocalEntries a b)
  | kept {a b : SystemFile} (hfinal : final = some a) (hstaging : staging = some b)
      (hfile : ¬(a.isDir = true ∧ b.isDir = true)) : Comes final staging (keepFinal a)
  | final {a : SystemFile} (hfinal : final = some a) (hstaging : staging = none) : Comes final staging a
  | finalOnly {a : SystemFile} (hfinal : final = some a) (hstaging : staging = none) : Comes final staging (finalOnly a)
  | staging {b : SystemFile} (hfinal : final = none) (hstaging : staging = some b) : Comes final staging b

theorem merge_comes {final staging : SystemFile} (hfinal : WellFormed final) (hstaging : WellFormed staging)
    {path : List String} {found : SystemFile} (h : (mergeDuplicateLocalEntries final staging).nodeAt path = some found) :
    Comes (final.nodeAt path) (staging.nodeAt path) found := by
  induction path generalizing final staging with
  | nil =>
    obtain rfl := Option.some.inj h
    by_cases hdirs : final.isDir = true ∧ staging.isDir = true
    · exact .merged rfl rfl hdirs
    · rw [merge_files hdirs]
      exact .kept rfl rfl hdirs
  | cons n path ih =>
    by_cases hdirs : final.isDir = true ∧ staging.isDir = true
    · rw [merge_dirs hdirs, nodeAt_cons, children_mk,
        childNamed_mergedChildren hfinal.names hstaging.names] at h
      rw [nodeAt_cons, nodeAt_cons]
      cases hchild : childNamed final.children n with
      | some child =>
        rw [hchild] at h
        cases hother : childNamed staging.children n with
        | some other =>
          rw [hother] at h
          exact ih (hfinal.child hchild) (hstaging.child hother) h
        | none =>
          -- The subtree is final-only: only its top is touched.
          rw [hother] at h
          cases path with
          | nil =>
            obtain rfl := Option.some.inj h
            exact .finalOnly rfl rfl
          | cons m path => exact .final h rfl
      | none =>
        rw [hchild] at h
        exact .staging rfl h
    · rw [merge_files hdirs] at h
      have hat : final.nodeAt (n :: path) = some found := h
      have hdir : final.isDir = true := by
        by_contra hfile
        rw [nodeAt_of_leaf (hfinal.leaf (by simpa using hfile))] at hat
        simp at hat
      have hfile : staging.isDir = false := by simpa [hdir] using hdirs
      exact .final hat (nodeAt_of_leaf (hstaging.leaf hfile) n path)

/-- Above the path one side has a file and the other a directory. -/
def Blocked (final staging : SystemFile) (path : List String) : Prop :=
  ∃ before after : List String, path = before ++ after ∧ after ≠ [] ∧
    ∃ a b, final.nodeAt before = some a ∧ staging.nodeAt before = some b ∧ a.isDir ≠ b.isDir

theorem blocked_cons {final staging : SystemFile} (hdirs : final.isDir = true ∧ staging.isDir = true) (n : String)
    (path : List String) : Blocked final staging (n :: path) ↔
      ∃ a b, childNamed final.children n = some a ∧ childNamed staging.children n = some b ∧ Blocked a b path := by
  constructor
  · rintro ⟨before, after, hpath, hafter, a, b, ha, hb, hne⟩
    cases before with
    | nil =>
      obtain rfl := Option.some.inj ha
      obtain rfl := Option.some.inj hb
      exact absurd (hdirs.1.trans hdirs.2.symm) hne
    | cons m before =>
      obtain ⟨rfl, rfl⟩ := List.cons.inj hpath
      rw [nodeAt_cons] at ha hb
      obtain ⟨child, hchild, ha⟩ := Option.bind_eq_some_iff.1 ha
      obtain ⟨other, hother, hb⟩ := Option.bind_eq_some_iff.1 hb
      exact ⟨child, other, hchild, hother, before, after, rfl, hafter, a, b, ha, hb, hne⟩
  · rintro ⟨child, other, hchild, hother, before, after, rfl, hafter, a, b, ha, hb, hne⟩
    refine ⟨n :: before, after, rfl, hafter, a, b, ?_, ?_, hne⟩
    · simpa [nodeAt_cons, hchild] using ha
    · simpa [nodeAt_cons, hother] using hb

theorem merge_isSome {final staging : SystemFile} (hfinal : WellFormed final) (hstaging : WellFormed staging) (path : List String) :
    ((mergeDuplicateLocalEntries final staging).nodeAt path).isSome ↔
      (final.nodeAt path).isSome ∨ (staging.nodeAt path).isSome ∧ ¬Blocked final staging path := by
  induction path generalizing final staging with
  | nil => simp [nodeAt]
  | cons n path ih =>
    by_cases hdirs : final.isDir = true ∧ staging.isDir = true
    · rw [merge_dirs hdirs, nodeAt_cons, children_mk,
        childNamed_mergedChildren hfinal.names hstaging.names, blocked_cons hdirs, nodeAt_cons,
        nodeAt_cons]
      cases hchild : childNamed final.children n with
      | some child =>
        cases hother : childNamed staging.children n with
        | some other => simpa [mergedChild] using ih (hfinal.child hchild) (hstaging.child hother)
        | none => cases path <;> simp [mergedChild, finalOnly, nodeAt]
      | none => simp [mergedChild]
    · rw [merge_files hdirs]
      change (final.nodeAt (n :: path)).isSome ↔ _
      by_cases hdir : final.isDir = true
      · have hfile : staging.isDir = false := by simpa [hdir] using hdirs
        simp [nodeAt_of_leaf (hstaging.leaf hfile)]
      · have hfile : final.isDir = false := by simpa using hdir
        rw [nodeAt_of_leaf (hfinal.leaf hfile)]
        by_cases hother : staging.isDir = true
        · have hblocked : Blocked final staging (n :: path) :=
            ⟨[], n :: path, rfl, by simp, final, staging, rfl, rfl, by simp [hfile, hother]⟩
          simp [hblocked]
        · simp [nodeAt_of_leaf (hstaging.leaf (by simpa using hother))]

/-! ## The trees of a scan -/

/-- What holds of every node of a tree. -/
inductive Everywhere (P : SystemFile → Prop) : SystemFile → Prop
  | mk {a : FileAttrs} {cs : List SystemFile} (here : P (.mk a cs)) (below : ∀ c ∈ cs, Everywhere P c) :
      Everywhere P (.mk a cs)

theorem Everywhere.nodeAt {P : SystemFile → Prop} {file found : SystemFile} (h : Everywhere P file) {path : List String}
    (hfound : file.nodeAt path = some found) : P found := by
  induction path generalizing file with
  | nil =>
    obtain rfl := Option.some.inj hfound
    cases h with
    | mk here _ => exact here
  | cons n path ih =>
    rw [nodeAt_cons] at hfound
    obtain ⟨child, hchild, hbelow⟩ := Option.bind_eq_some_iff.1 hfound
    cases h with
    | mk _ below => exact ih (below child (childNamed_mem hchild).1) hbelow

/-- The children are sorted by name, and distinct. -/
def Sorted (file : SystemFile) : Prop := file.children.Pairwise fun a b => codes a.name < codes b.name

instance (file : SystemFile) : Decidable (Sorted file) :=
  inferInstanceAs (Decidable (file.children.Pairwise fun a b => codes a.name < codes b.name))

/-- A node of the final tree as it is scanned. -/
structure FinalScanned (file : SystemFile) : Prop where
  sorted : Sorted file
  collision : file.hasStagingCollision = false
  origin : file.attrs.hasStagingOrigin ≠ some true

/-- A node of the staging tree as it is scanned, and marked. -/
structure StagingScanned (file : SystemFile) : Prop where
  sorted : Sorted file
  collision : file.hasStagingCollision = false
  origin : file.attrs.hasStagingOrigin = some true

theorem mergedChildren_sorted {children staging : List SystemFile} (hfinal : (children.map name).Nodup)
    (hstaging : (staging.map name).Nodup) :
    (mergedChildren children staging).Pairwise fun a b => codes a.name < codes b.name := by
  have htotal : Std.Total nameLe := ⟨fun a b => le_total (codes a.name) (codes b.name)⟩
  have htrans : IsTrans SystemFile nameLe := ⟨fun _ _ _ hab hbc => le_trans hab hbc⟩
  have hle : (mergedChildren children staging).Pairwise nameLe := List.pairwise_insertionSort nameLe _
  have hne := List.pairwise_map.1 (mergedChildren_nodup hfinal hstaging)
  exact (hle.and hne).imp fun h => lt_of_le_of_ne h.1 fun hsame => h.2 (codes_injective hsame)

/-- Content of the final side wins in the merged tree. -/
structure FinalWins (final staging merged : SystemFile) : Prop where
  paths : ∀ path, (merged.nodeAt path).isSome ↔
    (final.nodeAt path).isSome ∨ (staging.nodeAt path).isSome ∧ ¬Blocked final staging path
  content : ∀ path node found, final.nodeAt path = some node → merged.nodeAt path = some found →
    found.isDir = node.isDir ∧ (node.isDir = false → found.size = node.size ∧ found.attrs.mtimeNs = node.attrs.mtimeNs ∧
      found.attrs.timestampCreated = node.attrs.timestampCreated ∧ found.attrs.timestampModified = node.attrs.timestampModified)
  sorted : ∀ path found, merged.nodeAt path = some found → Sorted found
  sizes : ∀ path a b found, final.nodeAt path = some a → staging.nodeAt path = some b → a.isDir = true → b.isDir = true →
    merged.nodeAt path = some found → found.size = (found.children.map size).sum
  collision : ∀ path found, merged.nodeAt path = some found → (found.hasStagingCollision = true ↔
    ∃ a b, final.nodeAt path = some a ∧ staging.nodeAt path = some b ∧ (a.isDir = false ∨ b.isDir = false))
  origin : ∀ path found, merged.nodeAt path = some found →
    (found.attrs.hasStagingOrigin = some true ↔ (staging.nodeAt path).isSome)

/-- Final content wins the merge of a final tree and a staging tree as they are scanned. -/
theorem final_content_wins (final staging : SystemFile) (hfinal : WellFormed final) (hstaging : WellFormed staging)
    (hfinals : Everywhere FinalScanned final) (hstagings : Everywhere StagingScanned staging) :
    FinalWins final staging (mergeDuplicateLocalEntries final staging) where
  paths := merge_isSome hfinal hstaging
  content := by
    intro path node found hnode hfound
    have hcomes := merge_comes hfinal hstaging hfound
    rw [hnode] at hcomes
    cases hcomes with
    | merged ha _ hdirs =>
      obtain rfl := Option.some.inj ha
      rw [merge_dirs hdirs]
      exact ⟨hdirs.1.symm, fun hfile => absurd (hdirs.1.symm.trans hfile) (by simp)⟩
    | kept ha _ _ | final ha _ | finalOnly ha _ =>
      obtain rfl := Option.some.inj ha
      exact ⟨rfl, fun _ => ⟨rfl, rfl, rfl, rfl⟩⟩
    | staging ha _ => simp at ha
  sorted := by
    intro path found hfound
    cases merge_comes hfinal hstaging hfound with
    | merged ha hb hdirs =>
      rw [merge_dirs hdirs]
      exact mergedChildren_sorted (hfinal.nodeAt ha).names (hstaging.nodeAt hb).names
    | kept ha _ _ | finalOnly ha _ =>
      have hsorted := (hfinals.nodeAt ha).sorted
      exact hsorted
    | final ha _ => exact (hfinals.nodeAt ha).sorted
    | staging _ hb => exact (hstagings.nodeAt hb).sorted
  sizes := by
    intro path a b found hnode hother hdir hdir' hfound
    have hcomes := merge_comes hfinal hstaging hfound
    rw [hnode, hother] at hcomes
    cases hcomes with
    | merged _ _ hdirs =>
      rw [merge_dirs hdirs]
      rfl
    | kept ha hb hfile =>
      obtain rfl := Option.some.inj ha
      obtain rfl := Option.some.inj hb
      exact absurd ⟨hdir, hdir'⟩ hfile
    | final _ hb | finalOnly _ hb => simp at hb
    | staging ha _ => simp at ha
  collision := by
    intro path found hfound
    cases merge_comes hfinal hstaging hfound with
    | merged ha hb hdirs =>
      rw [merge_dirs hdirs, ha, hb]
      simp [hasStagingCollision, hdirs.1, hdirs.2]
    | kept ha hb hfile =>
      rw [ha, hb]
      simpa [hasStagingCollision, keepFinal, ← Bool.not_eq_true, imp_iff_not_or] using hfile
    | final ha hb => simp [ha, hb, (hfinals.nodeAt ha).collision]
    | finalOnly ha hb => simpa [ha, hb, finalOnly, hasStagingCollision] using (hfinals.nodeAt ha).collision
    | staging ha hb => simp [ha, (hstagings.nodeAt hb).collision]
  origin := by
    intro path found hfound
    cases merge_comes hfinal hstaging hfound with
    | merged _ hb hdirs =>
      rw [merge_dirs hdirs, hb]
      simp
    | kept _ hb _ => simp [hb, keepFinal]
    | final ha hb => simp [hb, (hfinals.nodeAt ha).origin]
    | finalOnly _ hb => simp [hb, finalOnly]
    | staging _ hb => simp [hb, (hstagings.nodeAt hb).origin]

def leafNamed (name : String) (size : Nat) (origin : Option Bool) : SystemFile := .mk { name, size, hasStagingOrigin := origin } []

def sampleFinal : SystemFile := .mk { name := "show", size := 7, isDir := true } [leafNamed "a" 3 none, leafNamed "b" 4 none]

def sampleStaging : SystemFile :=
  .mk { name := "show", size := 14, isDir := true, hasStagingOrigin := some true }
    [leafNamed "b" 9 (some true), leafNamed "c" 5 (some true)]

/-- The final leaf `b` stays beside the staging leaf of its name. -/
theorem sample_merge :
    FinalWins sampleFinal sampleStaging (mergeDuplicateLocalEntries sampleFinal sampleStaging) ∧
      (mergeDuplicateLocalEntries sampleFinal sampleStaging).children.map (fun child => (child.name, child.size)) =
        [("a", 3), ("b", 4), ("c", 5)] := by
  have hleaf : ∀ (name : String) (size : Nat) (origin : Option Bool), WellFormed (leafNamed name size origin) :=
    fun _ _ _ => .mk (fun _ => rfl) (by simp) (by simp)
  refine ⟨final_content_wins sampleFinal sampleStaging (.mk (by simp) (by decide) ?_) (.mk (by simp) (by decide) ?_)
    (.mk ⟨by decide +kernel, rfl, by decide⟩ ?_) (.mk ⟨by decide +kernel, rfl, rfl⟩ ?_), by decide +kernel⟩
  · simp [hleaf]
  · simp [hleaf]
  · simp only [List.mem_cons, List.not_mem_nil, or_false, forall_eq_or_imp, forall_eq]
    exact ⟨.mk ⟨.nil, rfl, by decide⟩ (by simp), .mk ⟨.nil, rfl, by decide⟩ (by simp)⟩
  · simp only [List.mem_cons, List.not_mem_nil, or_false, forall_eq_or_imp, forall_eq]
    exact ⟨.mk ⟨.nil, rfl, rfl⟩ (by simp), .mk ⟨.nil, rfl, rfl⟩ (by simp)⟩

/-- A final directory with children out of order. -/
def outOfOrder : SystemFile :=
  .mk { name := "show", size := 7, isDir := true }
    [.mk { name := "extras", size := 7, isDir := true } [leafNamed "b" 4 none, leafNamed "a" 3 none]]

/-- A staging directory that is not marked. -/
def unmarked : SystemFile := .mk { name := "show", size := 5, isDir := true } [leafNamed "c" 5 none]

/-- A subtree of one side alone is taken over as it is: its order and its marks are those that it had. -/
theorem subtrees_are_taken_over :
    WellFormed outOfOrder ∧ WellFormed unmarked ∧
      ((mergeDuplicateLocalEntries outOfOrder unmarked).nodeAt ["extras"]).map (fun node => node.children.map name) =
        some ["b", "a"] ∧
      (unmarked.nodeAt ["c"]).isSome ∧
      ((mergeDuplicateLocalEntries outOfOrder unmarked).nodeAt ["c"]).map (·.attrs.hasStagingOrigin) = some none := by
  have hleaf : ∀ (name : String) (size : Nat) (origin : Option Bool), WellFormed (leafNamed name size origin) :=
    fun _ _ _ => .mk (fun _ => rfl) (by simp) (by simp)
  refine ⟨.mk (by simp) (by decide) ?_, .mk (by simp) (by decide) ?_, by decide +kernel, by decide +kernel, by decide +kernel⟩
  · simp only [List.mem_singleton, forall_eq]
    exact .mk (by simp) (by decide) (by simp [hleaf])
  · simp [hleaf]

end SeedSync.Local
