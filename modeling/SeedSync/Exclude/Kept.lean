import Mathlib.Data.List.Infix
import SeedSync.Exclude.Filter

/-!
# What an exclusion keeps

The nodes of a list of trees in preorder, each with the names that lead to it, before and after the
filter.
-/

namespace SeedSync.Exclude

open SystemFile

/-! ## Nodes and their paths -/

/-- The names from the root down to a node, each with its `is_dir`, and the node's own attributes. -/
structure Row where
  trail : List (String × Bool)
  attrs : FileAttrs
  deriving DecidableEq

/-- Less the size of a directory. -/
def Row.shape (row : Row) : Row := { row with attrs.size := if row.attrs.isDir then 0 else row.attrs.size }

/-- Less the mark that the clone leaves out, too. -/
def Row.cloned (row : Row) : Row := { row.shape with attrs.hasStagingOrigin := none }

mutual
def rows (above : List (String × Bool)) : SystemFile → List Row
  | .mk attrs children =>
    ⟨above ++ [(attrs.name, attrs.isDir)], attrs⟩ :: rowsOf (above ++ [(attrs.name, attrs.isDir)]) children

def rowsOf (above : List (String × Bool)) : List SystemFile → List Row
  | [] => []
  | file :: files => rows above file ++ rowsOf above files
end

/-- A path below the root; an empty name adds nothing in front. -/
def relativePath (names : List String) : String := "/".intercalate (names.dropWhile String.isEmpty)

/-- Files have no children, and a directory is as large as its children together. -/
inductive Sized : SystemFile → Prop
  | mk {a : FileAttrs} {cs : List SystemFile} (leaf : a.isDir = false → cs = [])
      (here : a.isDir = true → a.size = (cs.map size).sum) (below : ∀ c ∈ cs, Sized c) : Sized (mk a cs)

section Kept

variable (fnmatchcase : String → String → Bool) (patterns : List ExcludePattern)

/-- A root is tested by its name, the nodes below it by their path from it. -/
def isMatched : List (String × Bool) → Bool
  | [] => false
  | [(name, isDir)] => matchesExclude fnmatchcase patterns name isDir
  | _ :: below => matchesExclude fnmatchcase patterns (relativePath (below.map Prod.fst)) (below.getLast?.any Prod.snd)

/-- A node is out when it or one above it is matched. -/
def excluded (trail : List (String × Bool)) : Bool := trail.inits.any (isMatched fnmatchcase patterns)

def keptRows (files : List SystemFile) : List Row :=
  (rowsOf [] files).filter fun row => !excluded fnmatchcase patterns row.trail

end Kept

/-- What is promised of a filter's result `out`. -/
structure Filters (fnmatchcase : String → String → Bool) (files : List SystemFile) (excludePatterns : Patterns)
    (out : List SystemFile) : Prop where
  rows : (rowsOf [] out).map Row.shape =
    (keptRows fnmatchcase (compileExcludePatterns excludePatterns) files).map Row.shape
  sized : ∀ file ∈ out, Sized file
  again : filterExcludedFiles fnmatchcase out excludePatterns = out

/-! ## Paths -/

theorem intercalate_eq_empty {names : List String} (h : "/".intercalate (names.dropWhile String.isEmpty) = "") :
    names.dropWhile String.isEmpty = [] := by
  by_contra hne
  obtain ⟨name, rest, hcons⟩ := List.exists_cons_of_ne_nil hne
  have hname : ¬ name.isEmpty := by
    have := List.head_dropWhile_not (p := String.isEmpty) hne
    simpa [hcons] using this
  rw [hcons] at h
  cases rest with
  | nil => simp_all
  | cons next rest =>
    rw [String.intercalate_cons_cons] at h
    simp_all

/-- A step of `_child_relative_path` adds one name to the path. -/
theorem childRelativePath_relativePath (names : List String) (name : String) :
    childRelativePath (some (relativePath names)) name = relativePath (names ++ [name]) := by
  unfold childRelativePath relativePath
  by_cases hnone : names.dropWhile String.isEmpty = []
  · rw [hnone, List.dropWhile_append, hnone]
    by_cases hname : name.isEmpty <;> simp_all
  · have hne : ¬ ("/".intercalate (names.dropWhile String.isEmpty)).isEmpty := by
      intro h
      exact hnone (intercalate_eq_empty (by simpa using h))
    rw [List.dropWhile_append]
    simp only [hne, Bool.false_eq_true, if_false]
    rw [if_neg (by simpa using hnone), String.intercalate_append_of_ne_nil hnone (by simp)]
    simp

/-! ## Matches along a trail -/

section Kept

variable (fnmatchcase : String → String → Bool) (patterns : List ExcludePattern)

/-- The path that the children's paths start with: none below a root. -/
def parentPath (below : List (String × Bool)) : Option String :=
  if below.isEmpty then none else some (relativePath (below.map Prod.fst))

theorem childRelativePath_parentPath (below : List (String × Bool)) (name : String) (isDir : Bool) :
    childRelativePath (parentPath below) name = relativePath ((below ++ [(name, isDir)]).map Prod.fst) := by
  rw [List.map_append, List.map_singleton, ← childRelativePath_relativePath]
  cases below with
  | nil => rfl
  | cons parent rest => rfl

theorem isMatched_below (root : String × Bool) (below : List (String × Bool)) (name : String) (isDir : Bool) :
    isMatched fnmatchcase patterns (root :: (below ++ [(name, isDir)])) =
      matchesExclude fnmatchcase patterns (childRelativePath (parentPath below) name) isDir := by
  rw [childRelativePath_parentPath below name isDir]
  cases hrest : below ++ [(name, isDir)] with
  | nil => simp at hrest
  | cons next rest =>
    rw [isMatched, ← hrest]
    · simp
    · simp

theorem excluded_append (above : List (String × Bool)) (entry : String × Bool) :
    excluded fnmatchcase patterns (above ++ [entry]) =
      (excluded fnmatchcase patterns above || isMatched fnmatchcase patterns (above ++ [entry])) := by
  unfold excluded
  simp [List.inits_append]

mutual
/-- Below a node that is out everything is out. -/
theorem rows_excluded {above : List (String × Bool)} (h : excluded fnmatchcase patterns above = true) :
    ∀ (file : SystemFile), ∀ row ∈ rows above file, excluded fnmatchcase patterns row.trail = true
  | .mk attrs children => by
    have hhere : excluded fnmatchcase patterns (above ++ [(attrs.name, attrs.isDir)]) = true := by
      rw [excluded_append, h, Bool.true_or]
    intro row hrow
    rw [rows, List.mem_cons] at hrow
    rcases hrow with rfl | hrow
    · exact hhere
    · exact rowsOf_excluded hhere children row hrow

theorem rowsOf_excluded {above : List (String × Bool)} (h : excluded fnmatchcase patterns above = true) :
    ∀ (files : List SystemFile), ∀ row ∈ rowsOf above files, excluded fnmatchcase patterns row.trail = true
  | [] => by simp [rowsOf]
  | file :: files => by
    intro row hrow
    rw [rowsOf, List.mem_append] at hrow
    rcases hrow with hrow | hrow
    · exact rows_excluded h file row hrow
    · exact rowsOf_excluded h files row hrow
end

/-- The kept ones among the nodes of a tree whose root is matched. -/
theorem filter_rows_matched {above : List (String × Bool)} {file : SystemFile}
    (h : isMatched fnmatchcase patterns (above ++ [(file.name, file.isDir)]) = true) :
    (rows above file).filter (fun row => !excluded fnmatchcase patterns row.trail) = [] := by
  cases file with
  | mk attrs children =>
    have hhere : excluded fnmatchcase patterns (above ++ [(attrs.name, attrs.isDir)]) = true := by
      rw [excluded_append]
      simp only [SystemFile.name, SystemFile.isDir, attrs_mk] at h
      rw [h, Bool.or_true]
    rw [List.filter_eq_nil_iff]
    intro row hrow
    rw [rows, List.mem_cons] at hrow
    rcases hrow with rfl | hrow
    · simp [hhere]
    · simp [rowsOf_excluded fnmatchcase patterns hhere children row hrow]

/-! ## The nodes of a filtered tree -/

theorem rowsOf_append (above : List (String × Bool)) (xs ys : List SystemFile) :
    rowsOf above (xs ++ ys) = rowsOf above xs ++ rowsOf above ys := by
  induction xs with
  | nil => rfl
  | cons x xs ih => rw [List.cons_append, rowsOf, rowsOf, ih, List.append_assoc]

/-- A clone with the children that are left, as nodes. -/
theorem rows_clone (above : List (String × Bool)) (attrs : FileAttrs) {children left : List SystemFile}
    (hkept : excluded fnmatchcase patterns (above ++ [(attrs.name, attrs.isDir)]) = false)
    (hdir : attrs.isDir = true)
    (hleft : (rowsOf (above ++ [(attrs.name, attrs.isDir)]) left).map Row.shape =
      ((rowsOf (above ++ [(attrs.name, attrs.isDir)]) children).filter
        fun row => !excluded fnmatchcase patterns row.trail).map Row.cloned) :
    (rows above (cloneSystemFile (.mk attrs children) (some left))).map Row.shape =
      ((rows above (.mk attrs children)).filter
        fun row => !excluded fnmatchcase patterns row.trail).map Row.cloned := by
  simp only [cloneSystemFile, Option.getD_some, attrs_mk, rows, List.map_cons, List.filter_cons, hkept, Bool.not_false,
    if_true, hleft]
  simp [Row.shape, Row.cloned, hdir]

theorem rows_clone_leaf (above : List (String × Bool)) (attrs : FileAttrs)
    (hkept : excluded fnmatchcase patterns (above ++ [(attrs.name, attrs.isDir)]) = false) :
    (rows above (cloneSystemFile (.mk attrs []) none)).map Row.shape =
      ((rows above (.mk attrs [])).filter fun row => !excluded fnmatchcase patterns row.trail).map Row.cloned := by
  simp [cloneSystemFile, rows, rowsOf, hkept, Row.shape, Row.cloned, SystemFile.size]

/-- One node below a root: out when its path is matched, else a clone. -/
theorem filterExcludedTree_below (path : String) (attrs : FileAttrs) (children : List SystemFile) :
    filterExcludedTree fnmatchcase patterns (some path) (.mk attrs children) =
      if matchesExclude fnmatchcase patterns path attrs.isDir then none
      else if !attrs.isDir then some (cloneSystemFile (.mk attrs children) none)
      else some (cloneSystemFile (.mk attrs children)
        (some (filterExcludedChildren fnmatchcase patterns (some path) children))) := by
  rw [filterExcludedTree]
  rfl

mutual
theorem rows_filterExcludedTree {root : String × Bool} {below : List (String × Bool)}
    (hkept : excluded fnmatchcase patterns (root :: below) = false) : ∀ (file : SystemFile), Sized file →
      (rowsOf (root :: below) (filterExcludedTree fnmatchcase patterns
        (some (childRelativePath (parentPath below) file.name)) file).toList).map Row.shape =
      ((rows (root :: below) file).filter fun row => !excluded fnmatchcase patterns row.trail).map Row.cloned
  | .mk attrs children, hsized => by
    have hmatch := isMatched_below fnmatchcase patterns root below attrs.name attrs.isDir
    have hnext : excluded fnmatchcase patterns (root :: (below ++ [(attrs.name, attrs.isDir)])) =
        matchesExclude fnmatchcase patterns (childRelativePath (parentPath below) attrs.name) attrs.isDir := by
      have happend := excluded_append fnmatchcase patterns (root :: below) (attrs.name, attrs.isDir)
      rw [List.cons_append] at happend
      rw [happend, hkept, Bool.false_or, hmatch]
    have hname : (SystemFile.mk attrs children).name = attrs.name := rfl
    rw [hname, filterExcludedTree_below]
    by_cases hout : matchesExclude fnmatchcase patterns (childRelativePath (parentPath below) attrs.name) attrs.isDir = true
    · rw [if_pos hout, filter_rows_matched fnmatchcase patterns (by exact hmatch.trans hout)]
      rfl
    have hin : excluded fnmatchcase patterns (root :: (below ++ [(attrs.name, attrs.isDir)])) = false := by
      rw [hnext]
      simpa using hout
    rw [if_neg hout]
    cases hdir : attrs.isDir with
    | false =>
      obtain ⟨leaf, -, -⟩ := hsized
      cases leaf hdir
      simpa [rowsOf, hdir] using rows_clone_leaf fnmatchcase patterns (root :: below) attrs hin
    | true =>
      obtain ⟨-, -, hbelow⟩ := hsized
      have hchildren := rowsOf_filterExcludedChildren hin children hbelow
      have hpath : parentPath (below ++ [(attrs.name, attrs.isDir)]) =
          some (childRelativePath (parentPath below) attrs.name) := by
        rw [childRelativePath_parentPath below attrs.name attrs.isDir]
        simp [parentPath]
      rw [hpath] at hchildren
      have hclone := rows_clone fnmatchcase patterns (root :: below) attrs hin hdir hchildren
      simpa [rowsOf] using hclone

theorem rowsOf_filterExcludedChildren {root : String × Bool} {below : List (String × Bool)}
    (hkept : excluded fnmatchcase patterns (root :: below) = false) : ∀ (files : List SystemFile),
      (∀ file ∈ files, Sized file) →
      (rowsOf (root :: below) (filterExcludedChildren fnmatchcase patterns (parentPath below) files)).map Row.shape =
      ((rowsOf (root :: below) files).filter fun row => !excluded fnmatchcase patterns row.trail).map Row.cloned
  | [], _ => by simp [filterExcludedChildren, rowsOf]
  | file :: files, hsized => by
    rw [filterExcludedChildren, rowsOf_append, List.map_append,
      rows_filterExcludedTree hkept file (hsized file List.mem_cons_self),
      rowsOf_filterExcludedChildren hkept files fun other hmem => hsized other (List.mem_cons_of_mem _ hmem),
      rowsOf, List.filter_append, List.map_append]
end

theorem rows_filterExcludedRoot {file : SystemFile} (hsized : Sized file) :
    (rowsOf [] (filterExcludedRoot fnmatchcase patterns file).toList).map Row.shape =
      ((rows [] file).filter fun row => !excluded fnmatchcase patterns row.trail).map Row.cloned := by
  cases file with
  | mk attrs children =>
    have hname : (SystemFile.mk attrs children).name = attrs.name := rfl
    have hisDir : (SystemFile.mk attrs children).isDir = attrs.isDir := rfl
    have hnext : excluded fnmatchcase patterns [(attrs.name, attrs.isDir)] =
        matchesExclude fnmatchcase patterns attrs.name attrs.isDir := by
      simp [excluded, isMatched]
    unfold filterExcludedRoot
    rw [hname, hisDir]
    by_cases hout : matchesExclude fnmatchcase patterns attrs.name attrs.isDir = true
    · rw [if_pos hout, filter_rows_matched fnmatchcase patterns (by exact hout)]
      rfl
    have hin : excluded fnmatchcase patterns [(attrs.name, attrs.isDir)] = false := by
      rw [hnext]
      simpa using hout
    rw [if_neg hout]
    obtain ⟨leaf, -, hbelow⟩ := hsized
    cases hdir : attrs.isDir with
    | false =>
      cases leaf hdir
      simpa [rowsOf] using rows_clone_leaf fnmatchcase patterns [] attrs hin
    | true =>
      have hchildren := rowsOf_filterExcludedChildren fnmatchcase patterns hin children hbelow
      have hclone := rows_clone fnmatchcase patterns [] attrs hin hdir hchildren
      simpa [rowsOf, filterExcludedTree, hisDir, hdir, parentPath] using hclone

theorem rowsOf_filterMap {files : List SystemFile} (hsized : ∀ file ∈ files, Sized file) :
    (rowsOf [] (files.filterMap (filterExcludedRoot fnmatchcase patterns))).map Row.shape =
      (keptRows fnmatchcase patterns files).map Row.cloned := by
  unfold keptRows
  induction files with
  | nil => rfl
  | cons file files ih =>
    have hrest := ih fun other hmem => hsized other (List.mem_cons_of_mem _ hmem)
    have hfirst := rows_filterExcludedRoot fnmatchcase patterns (hsized file List.mem_cons_self)
    rw [rowsOf, List.filter_append, List.map_append, ← hrest, ← hfirst, ← List.map_append, ← rowsOf_append]
    cases h : filterExcludedRoot fnmatchcase patterns file with
    | none => rw [List.filterMap_cons_none h]; rfl
    | some kept => rw [List.filterMap_cons_some h]; rfl

/-! ## Sizes -/

theorem Sized.clone_leaf {attrs : FileAttrs} (hdir : attrs.isDir = false) :
    Sized (cloneSystemFile (.mk attrs []) none) :=
  .mk (fun _ => rfl) (fun h => by simp [hdir] at h) (by simp)

theorem Sized.clone {attrs : FileAttrs} {children left : List SystemFile} (hdir : attrs.isDir = true)
    (hleft : ∀ file ∈ left, Sized file) : Sized (cloneSystemFile (.mk attrs children) (some left)) :=
  .mk (fun h => by simp [hdir] at h) (fun _ => rfl) hleft

mutual
theorem sized_filterExcludedTree (path : Option String) : ∀ (file : SystemFile), Sized file →
    ∀ kept ∈ filterExcludedTree fnmatchcase patterns path file, Sized kept
  | .mk attrs children, hsized, kept, hkept => by
    obtain ⟨leaf, -, hbelow⟩ := hsized
    unfold filterExcludedTree at hkept
    split_ifs at hkept with hout hdir
    · simp at hkept
    · have hfile : attrs.isDir = false := by simpa using hdir
      cases leaf hfile
      cases hkept
      exact Sized.clone_leaf hfile
    · cases hkept
      exact Sized.clone (by simpa using hdir) (sized_filterExcludedChildren path children hbelow)

theorem sized_filterExcludedChildren (path : Option String) : ∀ (files : List SystemFile),
    (∀ file ∈ files, Sized file) → ∀ kept ∈ filterExcludedChildren fnmatchcase patterns path files, Sized kept
  | [], _, kept, hkept => by simp [filterExcludedChildren] at hkept
  | file :: files, hsized, kept, hkept => by
    rw [filterExcludedChildren, List.mem_append] at hkept
    rcases hkept with hkept | hkept
    · exact sized_filterExcludedTree _ file (hsized file List.mem_cons_self) kept (Option.mem_toList.1 hkept)
    · exact sized_filterExcludedChildren path files (fun other hmem => hsized other (List.mem_cons_of_mem _ hmem))
        kept hkept
end

theorem sized_filterExcludedRoot {file kept : SystemFile} (hsized : Sized file)
    (hkept : filterExcludedRoot fnmatchcase patterns file = some kept) : Sized kept := by
  unfold filterExcludedRoot at hkept
  split_ifs at hkept with hout hdir
  · exact sized_filterExcludedTree fnmatchcase patterns none file hsized kept hkept
  · cases hkept
    obtain ⟨leaf, -, -⟩ := hsized
    rw [Bool.not_eq_true] at hdir
    cases leaf hdir
    exact Sized.clone_leaf hdir

/-! ## The filter once more -/

theorem cloneSystemFile_again (attrs : FileAttrs) (children left : List SystemFile) :
    cloneSystemFile (cloneSystemFile (.mk attrs children) (some left)) (some left) =
      cloneSystemFile (.mk attrs children) (some left) := rfl

mutual
theorem filterExcludedTree_again (path : Option String) : ∀ (file kept : SystemFile),
    filterExcludedTree fnmatchcase patterns path file = some kept →
      kept.name = file.name ∧ filterExcludedTree fnmatchcase patterns path kept = some kept
  | .mk attrs children, kept, h => by
    unfold filterExcludedTree at h
    split_ifs at h with hout hdir
    · cases h
      refine ⟨rfl, ?_⟩
      simp only [cloneSystemFile, filterExcludedTree]
      rw [if_neg (by exact hout), if_pos (by exact hdir)]
      rfl
    · cases h
      refine ⟨rfl, ?_⟩
      have hchildren := filterExcludedChildren_again path children
      simp only [cloneSystemFile, filterExcludedTree, Option.getD_some]
      rw [if_neg (by exact hout), if_neg (by exact hdir), hchildren]
      rfl

theorem filterExcludedChildren_again (path : Option String) : ∀ (files : List SystemFile),
    filterExcludedChildren fnmatchcase patterns path (filterExcludedChildren fnmatchcase patterns path files) =
      filterExcludedChildren fnmatchcase patterns path files
  | [] => rfl
  | file :: files => by
    have hrest := filterExcludedChildren_again path files
    rw [filterExcludedChildren]
    cases h : filterExcludedTree fnmatchcase patterns (some (childRelativePath path file.name)) file with
    | none => exact hrest
    | some kept =>
      obtain ⟨hname, hkept⟩ := filterExcludedTree_again _ file kept h
      rw [Option.toList_some, List.singleton_append, filterExcludedChildren, hname, hkept, hrest]
      rfl
end

theorem filterExcludedRoot_again {file kept : SystemFile}
    (h : filterExcludedRoot fnmatchcase patterns file = some kept) :
    filterExcludedRoot fnmatchcase patterns kept = some kept := by
  unfold filterExcludedRoot at h
  split_ifs at h with hout hdir
  · obtain ⟨hname, hkept⟩ := filterExcludedTree_again fnmatchcase patterns none file kept h
    have hisDir : kept.isDir = file.isDir := by
      cases file with
      | mk attrs children =>
        unfold filterExcludedTree at h
        split_ifs at h <;> · cases h; rfl
    rw [filterExcludedRoot, hname, hisDir, if_neg hout, if_pos hdir, hkept]
  · cases h
    rw [filterExcludedRoot, if_neg (by exact hout), if_neg (by exact hdir)]
    rfl

theorem filterMap_again {files : List SystemFile} :
    (files.filterMap (filterExcludedRoot fnmatchcase patterns)).filterMap (filterExcludedRoot fnmatchcase patterns) =
      files.filterMap (filterExcludedRoot fnmatchcase patterns) := by
  rw [List.filterMap_filterMap]
  refine List.filterMap_congr fun file _ => ?_
  cases h : filterExcludedRoot fnmatchcase patterns file with
  | none => rfl
  | some kept => exact filterExcludedRoot_again fnmatchcase patterns h

/-! ## Without patterns -/

theorem keptRows_nil (files : List SystemFile) : keptRows fnmatchcase [] files = rowsOf [] files := by
  unfold keptRows
  rw [List.filter_eq_self]
  intro row _
  have hnone : ∀ trail, isMatched fnmatchcase [] trail = false
    | [] => rfl
    | [_] => rfl
    | _ :: _ :: _ => rfl
  simp [excluded, hnone]

end Kept

theorem Row.cloned_eq_shape {row : Row} : row.cloned = row.shape ↔ row.attrs.hasStagingOrigin = none := by
  cases row
  simp only [Row.cloned, Row.shape, Row.mk.injEq, FileAttrs.mk.injEq, true_and, and_true]
  exact eq_comm

/-! ## The filter keeps what no pattern matches -/

/-- The promise holds unless a kept node has a mark of its staging origin: the clone drops that mark. -/
theorem filter_keeps_exactly (fnmatchcase : String → String → Bool) (files : List SystemFile)
    (excludePatterns : Patterns) (hsized : ∀ file ∈ files, Sized file) :
    Filters fnmatchcase files excludePatterns (filterExcludedFiles fnmatchcase files excludePatterns) ↔
      compileExcludePatterns excludePatterns = [] ∨
        ∀ row ∈ keptRows fnmatchcase (compileExcludePatterns excludePatterns) files,
          row.attrs.hasStagingOrigin = none := by
  by_cases hempty : compileExcludePatterns excludePatterns = []
  · have hout : filterExcludedFiles fnmatchcase files excludePatterns = files := by
      simp [filterExcludedFiles, hempty]
    simp only [hempty, true_or, iff_true, hout]
    exact ⟨by rw [hempty, keptRows_nil], hsized, hout⟩
  · have hrun : ∀ given, filterExcludedFiles fnmatchcase given excludePatterns =
        given.filterMap (filterExcludedRoot fnmatchcase (compileExcludePatterns excludePatterns)) := by
      intro given
      simp [filterExcludedFiles, hempty]
    have hrows := rowsOf_filterMap fnmatchcase (compileExcludePatterns excludePatterns) hsized
    rw [or_iff_right hempty, hrun]
    constructor
    · intro h row hrow
      have hmap := hrows.symm.trans h.rows
      exact Row.cloned_eq_shape.1 (List.map_inj_left.1 hmap row hrow)
    · intro h
      refine ⟨hrows.trans (List.map_inj_left.2 fun row hrow => Row.cloned_eq_shape.2 (h row hrow)), ?_, ?_⟩
      · intro file hfile
        obtain ⟨source, hmem, hkept⟩ := List.mem_filterMap.1 hfile
        exact sized_filterExcludedRoot fnmatchcase _ (hsized source hmem) hkept
      · rw [hrun, filterMap_again]

/-- A directory with one file that the pattern matches and one that it does not. -/
def season (origin : Option Bool) : SystemFile :=
  .mk { name := "season", size := 5, isDir := true }
    [.mk { name := "one.mkv", size := 3, hasStagingOrigin := origin } [], .mk { name := "one.nfo", size := 2 } []]

theorem sized_season (origin : Option Bool) : ∀ file ∈ [season origin], Sized file := by
  intro file hfile
  rw [List.mem_singleton] at hfile
  subst hfile
  refine .mk (by simp) (fun _ => rfl) fun child hchild => ?_
  simp only [List.mem_cons, List.not_mem_nil, or_false] at hchild
  rcases hchild with rfl | rfl <;> exact .mk (fun _ => rfl) (by simp) (by simp)

/-- Without a mark, what is left is the directory with its first file. -/
theorem season_kept : Filters (fun path pattern => path == pattern) [season none] (.text "x/, one.nfo")
    (filterExcludedFiles (fun path pattern => path == pattern) [season none] (.text "x/, one.nfo")) :=
  (filter_keeps_exactly _ _ _ (sized_season none)).2 (.inr (by decide +kernel))

/-- The mark of the staging origin does not survive. -/
theorem origin_is_lost : ¬ Filters (fun path pattern => path == pattern) [season (some false)] (.text "one.nfo")
    (filterExcludedFiles (fun path pattern => path == pattern) [season (some false)] (.text "one.nfo")) := by
  intro h
  have hrows := h.rows
  revert hrows
  decide +kernel

end SeedSync.Exclude
