import SeedSync.Live.Model

/-!
# The difference of two models

`ModelDiffUtil` of `model/diff.py`, and the equality of model files that it rests on
(`model/file.py`). The children of a root are those of the object that it is; a root of both
models that is one object is not compared.
-/

namespace SeedSync

namespace Live

open Lib

/-- A model file with its children. -/
inductive FileTree where
  | mk (row : Row) (children : List FileTree)
  deriving Repr

namespace FileTree

def row : FileTree → Row
  | mk row _ => row

def children : FileTree → List FileTree
  | mk _ children => children

def name (file : FileTree) : String := file.row.name

/-- `{f.name: f for f in children}.get(name)` -/
def childNamed : List FileTree → String → Option FileTree
  | [], _ => none
  | child :: rest, name =>
    match childNamed rest name with
    | some found => some found
    | none => if child.name = name then some child else none

end FileTree

/-! ## Equality -/

/-- `__comparison_attributes`, as `!=` sees them. -/
def FileRecord.comparisonAttributes (file : FileRecord) : FileRecord :=
  { file with
    localCreatedTimestamp := file.localCreatedTimestamp.map Timestamp.compared
    localModifiedTimestamp := file.localModifiedTimestamp.map Timestamp.compared
    remoteCreatedTimestamp := file.remoteCreatedTimestamp.map Timestamp.compared
    remoteModifiedTimestamp := file.remoteModifiedTimestamp.map Timestamp.compared
    downloadedTimestamp := file.downloadedTimestamp.map Timestamp.compared }

def sameComparisonAttributes (a b : Row) : Bool := a.comparisonAttributes == b.comparisonAttributes

/-- Every attribute that `__refresh_published_file` and the legacy records take over. -/
def samePublishedAttributes (a b : Row) : Bool :=
  sameComparisonAttributes a b && a.resumeCheckpointPresent == b.resumeCheckpointPresent

mutual

/-- `ModelFile.__eq__`, with a comparison of the attributes. -/
def equalBy (same : Row → Row → Bool) : FileTree → FileTree → Bool
  | .mk row children, .mk otherRow otherChildren =>
    same row otherRow && children.length == otherChildren.length &&
      otherChildren.all (fun other => (FileTree.childNamed children other.name).isSome) &&
      childrenEqualBy same children otherChildren

/-- Every child that its name leads to equals the one that the name leads to on the other side. -/
def childrenEqualBy (same : Row → Row → Bool) : List FileTree → List FileTree → Bool
  | [], _ => true
  | child :: rest, others =>
    ((FileTree.childNamed rest child.name).isSome ||
      (FileTree.childNamed others child.name).any fun other => equalBy same child other) &&
      childrenEqualBy same rest others

end

/-- The children of the root objects, by object. -/
abbrev Forest := Nat → List FileTree

def RootFile.tree (forest : Forest) (file : RootFile) : FileTree := .mk file.toRow (forest file.object)

/-- `ModelFile.__eq__` of two roots -/
def RootFile.equals (forest : Forest) (a b : RootFile) : Bool :=
  equalBy sameComparisonAttributes (a.tree forest) (b.tree forest)

/-- Two roots that agree on all that is published of them and of their children. -/
def RootFile.alike (forest : Forest) (a b : RootFile) : Bool :=
  equalBy samePublishedAttributes (a.tree forest) (b.tree forest)

/-! ## `ModelDiffUtil.diff_models` -/

/-- `ModelDiff`, by its change. -/
inductive ModelDiff where
  | added (newFile : RootFile)
  | removed (oldFile : RootFile)
  | updated (oldFile newFile : RootFile)
  deriving DecidableEq

namespace Model

/-- `get_file_ids` -/
def getFileIds (m : Model) : List String := m.filesById.dict.keys

/-- `get_file` -/
def getFile (m : Model) (name : String) : Option RootFile := do
  let fileId ← (resolveFileId m name).toOption
  m.filesById.get fileId

end Model

/-- One turn of the loop over the ids that both models have. -/
def updatedDiff (forest : Forest) (before after : Model) (fileId : String) : Option ModelDiff := do
  let fileBefore ← before.getFile fileId
  let fileAfter ← after.getFile fileId
  if fileBefore.object = fileAfter.object then none
  else if fileBefore.equals forest fileAfter then none
  else some (.updated fileBefore fileAfter)

/-- `diff_models` -/
def diffModels (forest : Forest) (modelBefore modelAfter : Model) : List ModelDiff :=
  let fileIdsBefore := modelBefore.getFileIds
  let fileIdsAfter := modelAfter.getFileIds
  let fileIdsAdded := fileIdsAfter.filter fun fileId => decide (fileId ∉ fileIdsBefore)
  let fileIdsRemoved := fileIdsBefore.filter fun fileId => decide (fileId ∉ fileIdsAfter)
  let fileIdsUpdated := fileIdsBefore.filter fun fileId => decide (fileId ∈ fileIdsAfter)
  fileIdsAdded.filterMap (fun fileId => (modelAfter.getFile fileId).map .added) ++
    fileIdsRemoved.filterMap (fun fileId => (modelBefore.getFile fileId).map .removed) ++
    fileIdsUpdated.filterMap (updatedDiff forest modelBefore modelAfter)

/-! ## Application -/

/-- What the updater does with one entry; `structural` is `structural_identity_for`. -/
def ModelDiff.apply (structural : RootFile → Option JobIdentity) : ModelDiff → Act Unit
  | added newFile => addFile newFile (structural newFile)
  | removed oldFile => removeFile oldFile.fileId
  | updated _ newFile => updateFile newFile (structural newFile)

def applyDiffs (structural : RootFile → Option JobIdentity) (diffs : List ModelDiff) : Act Unit :=
  diffs.forM (ModelDiff.apply structural)

end Live

end SeedSync
