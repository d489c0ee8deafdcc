import SeedSync.System.Scanner

/-!
# The files of a local scan

What `LocalScanner` does to the trees of its two roots: managed extract folders are pruned, what is
in the staging root is marked, and a staging tree is merged into the final tree of the same name.
Whether the marker file at a path is that of a managed extract folder is a parameter.
-/

namespace SeedSync.Local

/-- `__clone_system_file` -/
def cloneSystemFile (file : SystemFile) : Option (List SystemFile) → SystemFile
  | none => .mk file.attrs file.children
  | some children => .mk { file.attrs with size := (children.map SystemFile.size).sum } children

mutual
/-- `__mark_staging_file_tree` -/
def markStagingFileTree : SystemFile → SystemFile
  | .mk attrs children => .mk { attrs with isStaging := true, hasStagingOrigin := some true } (markStagingFileTrees children)

def markStagingFileTrees : List SystemFile → List SystemFile
  | [] => []
  | child :: children => markStagingFileTree child :: markStagingFileTrees children
end

/-! ## Managed extract folders -/

def managedExtractMarkerFileName : String := ".seedsync-extract.json"

def isManagedExtractMarkerName (name : String) : Bool := name == managedExtractMarkerFileName

section

variable (isMarker : List String → Bool)

mutual
/-- `__prune_managed_extract_tree`; `path` is that of the file. -/
def pruneManagedExtractTree (path : List String) : SystemFile → Option SystemFile
  | .mk attrs children =>
    if isManagedExtractMarkerName attrs.name then none
    else if !attrs.isDir then some (cloneSystemFile (.mk attrs children) none)
    else if (children.any fun child => isManagedExtractMarkerName child.name) &&
        isMarker (path ++ [managedExtractMarkerFileName]) then none
    else some (cloneSystemFile (.mk attrs children) (some (pruneManagedExtractChildren path children)))

/-- A child of the marker's name is left out in any case. -/
def pruneManagedExtractChildren (path : List String) : List SystemFile → List SystemFile
  | [] => []
  | .mk attrs grandchildren :: children =>
    (pruneManagedExtractTree (path ++ [attrs.name]) (.mk attrs grandchildren)).toList ++
      pruneManagedExtractChildren path children
end

/-- `__prune_managed_extract_entries` -/
def pruneManagedExtractEntries (files : List SystemFile) : List SystemFile :=
  sortByName (files.filterMap fun file => pruneManagedExtractTree isMarker [file.name] file)

end

/-! ## The merge of two trees -/

/-- The final node stays as it is, beside a staging node of its name. -/
def keepFinal (final : SystemFile) : SystemFile :=
  .mk { final.attrs with hasStagingCollision := true, hasStagingOrigin := some true } final.children

mutual
/-- `__merge_duplicate_local_entries` -/
def mergeDuplicateLocalEntries : SystemFile → SystemFile → SystemFile
  | .mk attrs children, staging =>
    if attrs.isDir && staging.isDir then
      -- `__build_merged_directory`
      let merged := sortByName (mergeLocalChildren children staging.children ++
        staging.children.filter fun child => !children.any fun other => other.name == child.name)
      .mk {
        name := attrs.name, size := (merged.map SystemFile.size).sum, isDir := true
        timestampCreated := attrs.timestampCreated, timestampModified := attrs.timestampModified
        mtimeNs := attrs.mtimeNs, pathPairId := attrs.pathPairId, pathPairName := attrs.pathPairName
        hasStagingOrigin := some true } merged
    else keepFinal (.mk attrs children)

/-- The loop over the children of the final directory. -/
def mergeLocalChildren : List SystemFile → List SystemFile → List SystemFile
  | [], _ => []
  | child :: children, staging =>
    (match SystemFile.childNamed staging child.name with
    | none => .mk { child.attrs with hasStagingOrigin := some false } child.children
    | some other => mergeDuplicateLocalEntries child other) :: mergeLocalChildren children staging
end

/-! ## Names -/

theorem pruneManagedExtractTree_name {isMarker : List String → Bool} {path : List String} {file pruned : SystemFile}
    (h : pruneManagedExtractTree isMarker path file = some pruned) : pruned.name = file.name := by
  cases file with
  | mk attrs children =>
    rw [pruneManagedExtractTree] at h
    split_ifs at h
    · cases h
      rfl
    · cases h
      rfl

theorem markStagingFileTree_name (file : SystemFile) : (markStagingFileTree file).name = file.name := by
  cases file
  rw [markStagingFileTree]
  rfl

end SeedSync.Local
