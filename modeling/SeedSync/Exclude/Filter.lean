import SeedSync.Lib.Text
import SeedSync.System.File

/-!
# Exclusion patterns

`common/exclude_patterns.py`: the patterns as they are parsed, and the trees without what they match.
`fnmatch.fnmatchcase` is a parameter.
-/

namespace SeedSync.Exclude

open Lib (isSpace)

/-! ## Patterns -/

def strip (s : String) : String :=
  .ofList ((s.toList.dropWhile fun c => isSpace c.toNat).rdropWhile fun c => isSpace c.toNat)

inductive Patterns where
  | none
  | text (patterns : String)
  | list (patterns : List (Option String))

/-- `parse_exclude_patterns` -/
def parseExcludePatterns (patterns : Patterns) : List String :=
  let raw := match patterns with
    | .none => []
    | .text s => (s.toList.splitOn ',').map fun part => some (String.ofList part)
    | .list ps => ps
  (raw.filterMap fun pattern => pattern.map strip).foldl
    (fun parsed normalized => if normalized.isEmpty || parsed.contains normalized then parsed else parsed ++ [normalized]) []

structure ExcludePattern where
  pattern : String
  dirOnly : Bool
  deriving DecidableEq, Repr

/-- `compile_exclude_patterns` -/
def compileExcludePatterns (patterns : Patterns) : List ExcludePattern :=
  (parseExcludePatterns patterns).map fun pattern =>
    ⟨.ofList (pattern.toList.rdropWhile (· = '/')), decide (pattern.toList.getLast? = some '/')⟩

/-! ## The filter -/

/-- `_clone_system_file`; a mark of the staging origin is not copied. -/
def cloneSystemFile (file : SystemFile) (children : Option (List SystemFile)) : SystemFile :=
  let kept := children.getD file.children
  .mk { file.attrs with
    size := if children.isSome then (kept.map SystemFile.size).sum else file.size
    hasStagingOrigin := none } kept

/-- `_child_relative_path` -/
def childRelativePath (parent : Option String) (name : String) : String :=
  match parent with
  | none => name
  | some path => if path.isEmpty then name else path ++ "/" ++ name

section Filter

variable (fnmatchcase : String → String → Bool) (patterns : List ExcludePattern)

/-- `_matches_exclude` -/
def matchesExclude (relativePath : String) (isDir : Bool) : Bool :=
  patterns.any fun p => fnmatchcase relativePath p.pattern && (!p.dirOnly || isDir)

mutual
/-- `_filter_excluded_tree` -/
def filterExcludedTree (relativePath : Option String) : SystemFile → Option SystemFile
  | .mk attrs children =>
    if relativePath.any fun path => matchesExclude fnmatchcase patterns path attrs.isDir then none
    else if !attrs.isDir then some (cloneSystemFile (.mk attrs children) none)
    else some (cloneSystemFile (.mk attrs children) (some (filterExcludedChildren relativePath children)))

/-- The loop over the children. -/
def filterExcludedChildren (relativePath : Option String) : List SystemFile → List SystemFile
  | [] => []
  | child :: children =>
    (filterExcludedTree (some (childRelativePath relativePath child.name)) child).toList ++
      filterExcludedChildren relativePath children
end

/-- One root of `filter_excluded_files` -/
def filterExcludedRoot (file : SystemFile) : Option SystemFile :=
  if matchesExclude fnmatchcase patterns file.name file.isDir then none
  else if file.isDir then filterExcludedTree fnmatchcase patterns none file
  else some (cloneSystemFile file none)

end Filter

/-- `filter_excluded_files` -/
def filterExcludedFiles (fnmatchcase : String → String → Bool) (files : List SystemFile) (excludePatterns : Patterns) :
    List SystemFile :=
  let patterns := compileExcludePatterns excludePatterns
  if patterns.isEmpty then files else files.filterMap (filterExcludedRoot fnmatchcase patterns)

end SeedSync.Exclude
