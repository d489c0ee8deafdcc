import SeedSync.Model.FileId
import Mathlib.Data.List.Perm.Basic

/-!
# What an extract request extracts

`ExtractDispatch.extract` of `controller/extract/dispatch.py` up to the queue: the walk over a
directory for its archives, and the errors. Whether a path is an archive is asked of the file system.
-/

namespace SeedSync.Extract

/-- What the walk reads of a model file. -/
structure FileAttrs where
  name : String
  isDir : Bool
  fileId : FileId
  localSize : Option Nat := none
  pathPairId : Option String := none
  deriving DecidableEq, Repr

inductive ModelTree where
  | mk (attrs : FileAttrs) (children : List ModelTree)
  deriving Repr

namespace ModelTree

def attrs : ModelTree → FileAttrs
  | mk attrs _ => attrs

mutual
/-- The number of nodes. -/
def count : ModelTree → Nat
  | mk _ children => countAll children + 1

def countAll : List ModelTree → Nat
  | [] => 0
  | c :: cs => count c + countAll cs
end

end ModelTree

/-- A file with its `full_path`. -/
abbrev Located := String × ModelTree

/-- `get_children` of a file, each with its `full_path`. -/
def childrenOf (path : String) (children : List ModelTree) : List Located :=
  children.map (fun c => (osPathJoin path c.attrs.name, c))

def countLocated (frontier : List Located) : Nat := (frontier.map (fun file => file.2.count)).foldr (· + ·) 0

/-- `ExtractRequest`, whose fallback for the output is never absent. -/
structure ExtractRequest where
  modelFile : ModelTree
  localPath : String
  outDirPath : String
  localPathFallback : Option String := none
  outDirPathFallback : String := outDirPath

/-- One entry of `archive_paths`. -/
structure ArchivePath where
  archivePath : String
  outDirPath : String
  archiveName : String
  archiveFileId : FileId
  pathPairId : Option String
  deriving DecidableEq, Repr

/-- `_Task`. -/
structure Task where
  rootName : String
  rootIsDir : Bool
  rootFileId : FileId
  pathPairId : Option String
  archivePaths : List ArchivePath
  deriving DecidableEq, Repr

/-! ## Paths -/

/-- `os.path.dirname` on POSIX. -/
def osPathDirname (path : String) : String :=
  let head := path.toList.rdropWhile (· ≠ '/')
  String.ofList (if head.all (· = '/') then head else head.rdropWhile (· = '/'))

/-- `os.path.splitext(os.path.basename(path))[1]`: leading dots start no extension. -/
def extensionOf (path : String) : List Char :=
  let base := path.toList.rtakeWhile (· ≠ '/')
  let stem := (base.rdropWhile (· ≠ '.')).dropLast
  if '.' ∈ base ∧ stem.any (· ≠ '.') then '.' :: base.rtakeWhile (· ≠ '.') else []

/-- `re.match(r"^\.r\d{2,}$", file_ext)`; the `$` also matches before a last line feed. -/
def isLaterVolume (digit : Char → Bool) (path : String) : Bool :=
  match extensionOf path with
  | '.' :: 'r' :: rest =>
    let digits := if rest.getLast? = some '\n' then rest.dropLast else rest
    decide (2 ≤ digits.length) && digits.all digit
  | _ => false

/-! ## The walk -/

section
variable (isArchive : String → Bool) (digit : Char → Bool)

/-- `__resolve_archive_path`: the path of the archive and whether it is the fallback. -/
def resolveArchivePath (localPath : String) (localPathFallback : Option String) (relativePath : String) :
    Option String × Bool :=
  let primary := osPathJoin localPath relativePath
  if isArchive primary then (some primary, false)
  else
    match localPathFallback with
    | some other =>
      if other ≠ "" ∧ other ≠ localPath ∧ isArchive (osPathJoin other relativePath) then
        (some (osPathJoin other relativePath), true)
      else (none, false)
    | none => (none, false)

/-- What the walk adds for one file that is not a directory. -/
def archiveAt (req : ExtractRequest) (file : Located) : Option ArchivePath :=
  let a := file.2.attrs
  match resolveArchivePath isArchive req.localPath req.localPathFallback file.1 with
  | (some path, usesFallback) =>
    if 0 < a.localSize.getD 0 then
      let out := if usesFallback ∧ req.outDirPathFallback ≠ req.outDirPath then req.outDirPathFallback
        else req.outDirPath
      some { archivePath := path
             outDirPath := osPathJoin out (osPathDirname file.1)
             archiveName := a.name
             archiveFileId := a.fileId
             pathPairId := a.pathPairId }
    else none
  | (none, _) => none

theorem countLocated_append (a b : List Located) : countLocated (a ++ b) = countLocated a + countLocated b := by
  induction a with
  | nil => simp [countLocated]
  | cons x a ih =>
    simp only [countLocated, List.cons_append, List.map_cons, List.foldr_cons] at ih ⊢
    omega

theorem countLocated_children (path : String) (children : List ModelTree) :
    countLocated (childrenOf path children) = ModelTree.countAll children := by
  induction children with
  | nil => rfl
  | cons c cs ih =>
    simp only [childrenOf, countLocated, List.map_cons, List.foldr_cons, ModelTree.countAll] at ih ⊢
    omega

/-- `while frontier`, with `full_path` beside each file. -/
def walk (req : ExtractRequest) : List Located → List ArchivePath
  | [] => []
  | (path, .mk a children) :: frontier =>
    if a.isDir then walk req (frontier ++ childrenOf path children)
    else (archiveAt isArchive req (path, .mk a children)).toList ++ walk req frontier
termination_by frontier => countLocated frontier
decreasing_by
  · rw [countLocated_append, countLocated_children]
    simp only [countLocated, List.map_cons, List.foldr_cons, ModelTree.count]
    omega
  · simp only [countLocated, List.map_cons, List.foldr_cons, ModelTree.count]
    omega

/-- `__coalesce_extractions`: the later volumes of a split archive are left out. -/
def coalesceExtractions (archives : List ArchivePath) : List ArchivePath :=
  archives.filter (fun archive => !isLaterVolume digit archive.archivePath)

inductive ExtractError where
  | noArchives (name : String)
  | notLocal (name : String)
  | notAnArchive (name : String)
  deriving DecidableEq, Repr

/-- The text of `ExtractDispatchError`. -/
def ExtractError.message : ExtractError → String
  | .noArchives name => "Directory does not contain any archives: " ++ name
  | .notLocal name => "File does not exist locally: " ++ name
  | .notAnArchive name => "File is not an archive: " ++ name

/-- The task that `extract` builds. -/
def buildTask (req : ExtractRequest) : Except ExtractError Task :=
  let a := req.modelFile.attrs
  let task (archives : List ArchivePath) : Task :=
    { rootName := a.name, rootIsDir := a.isDir, rootFileId := a.fileId, pathPairId := a.pathPairId,
      archivePaths := archives }
  if a.isDir then
    let archives := coalesceExtractions digit (walk isArchive req [(a.name, req.modelFile)])
    if archives = [] then .error (.noArchives a.name) else .ok (task archives)
  else if a.localSize.getD 0 = 0 then .error (.notLocal a.name)
  else
    match resolveArchivePath isArchive req.localPath req.localPathFallback a.name with
    | (some path, usesFallback) =>
      .ok (task [{ archivePath := path
                   outDirPath := if usesFallback ∧ req.outDirPathFallback ≠ req.outDirPath then req.outDirPathFallback
                     else req.outDirPath
                   archiveName := a.name
                   archiveFileId := a.fileId
                   pathPairId := a.pathPairId }])
    | (none, _) => .error (.notAnArchive a.name)

end

/-! ## What the walk finds -/

mutual
/-- The files below a node that are not directories, one subtree after the other. -/
def leaves (path : String) : ModelTree → List Located
  | .mk a children => if a.isDir then leavesAll path children else [(path, .mk a children)]

def leavesAll (path : String) : List ModelTree → List Located
  | [] => []
  | c :: cs => leaves (osPathJoin path c.attrs.name) c ++ leavesAll path cs
end

theorem leavesAll_eq (path : String) (children : List ModelTree) :
    leavesAll path children = (childrenOf path children).flatMap (fun file => leaves file.1 file.2) := by
  induction children with
  | nil => simp [leavesAll, childrenOf]
  | cons c cs ih =>
    rw [leavesAll, ih]
    rfl

section
variable {isArchive : String → Bool} {digit : Char → Bool} {req : ExtractRequest}

/-- Level by level the walk finds what lies below its frontier, each file once. -/
theorem walk_perm (frontier : List Located) :
    (walk isArchive req frontier).Perm
      ((frontier.flatMap (fun file => leaves file.1 file.2)).filterMap (archiveAt isArchive req)) := by
  fun_induction walk isArchive req frontier with
  | case1 => exact List.Perm.refl _
  | case2 path a children frontier hdir ih =>
    refine ih.trans (List.Perm.filterMap _ ?_)
    rw [List.flatMap_append, List.flatMap_cons, leaves, if_pos hdir, leavesAll_eq]
    exact List.perm_append_comm
  | case3 path a children frontier hfile ih =>
    rw [List.flatMap_cons, leaves, if_neg hfile, List.singleton_append, List.filterMap_cons]
    cases archiveAt isArchive req (path, .mk a children) with
    | none => exact ih
    | some archive => exact ih.cons archive

/-- The archive of a file stands on its own path, or on the fallback when there is none on its own. -/
def StandsFor (isArchive : String → Bool) (req : ExtractRequest) (file : Located) (archive : ArchivePath) : Prop :=
  isArchive archive.archivePath = true ∧ 0 < file.2.attrs.localSize.getD 0 ∧ archive.archiveFileId = file.2.attrs.fileId ∧
    (archive.archivePath = osPathJoin req.localPath file.1 ∨
      ∃ other, req.localPathFallback = some other ∧ isArchive (osPathJoin req.localPath file.1) = false ∧
        archive.archivePath = osPathJoin other file.1)

theorem archiveAt_stands {file : Located} {archive : ArchivePath} (h : archiveAt isArchive req file = some archive) :
    StandsFor isArchive req file archive := by
  unfold archiveAt resolveArchivePath at h
  dsimp only at h
  by_cases hprimary : isArchive (osPathJoin req.localPath file.1) = true
  · rw [if_pos hprimary] at h
    dsimp only at h
    split_ifs at h with hsize
    all_goals cases h; exact ⟨hprimary, hsize, rfl, Or.inl rfl⟩
  · rw [if_neg hprimary] at h
    cases hother : req.localPathFallback with
    | none => rw [hother] at h; cases h
    | some other =>
      rw [hother] at h
      dsimp only at h
      by_cases hfallback : other ≠ "" ∧ other ≠ req.localPath ∧ isArchive (osPathJoin other file.1) = true
      · rw [if_pos hfallback] at h
        dsimp only at h
        by_cases hsize : 0 < file.2.attrs.localSize.getD 0
        · rw [if_pos hsize] at h
          cases h
          exact ⟨hfallback.2.2, hsize, rfl, Or.inr ⟨other, hother, by simpa using hprimary, rfl⟩⟩
        · rw [if_neg hsize] at h
          cases h
      · rw [if_neg hfallback] at h
        cases h

/-- A directory of a directory with one archive. -/
def nestedRequest : ExtractRequest :=
  { modelFile := .mk { name := "a", isDir := true, fileId := .bare "a" }
      [.mk { name := "b", isDir := true, fileId := .bare "a/b" }
        [.mk { name := "c.rar", isDir := false, fileId := .bare "a/b/c.rar", localSize := some 1 } []]]
    localPath := "/in", outDirPath := "/out" }

end

end SeedSync.Extract
