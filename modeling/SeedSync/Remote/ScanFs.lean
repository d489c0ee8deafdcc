import SeedSync.Remote.RoundTrip
import SeedSync.System.Roots

/-!
# The two modes of `scan_fs.py`

With `--stream` and no known fingerprints the roots are written one by one, without it all of them
as one JSON list. A scanner of `scan_fs.py` knows no suffix of temporary files.
-/

namespace SeedSync.Remote

open Lib

section

variable (isoformat : Timestamp → String)

/-! ## One list -/

def childrenField : List Json → List (Codes × Json)
  | [] => []
  | item :: items => [(codes "children", .list (item :: items))]

mutual
/-- `SystemFile.to_dict` -/
def toDict : SystemFile → Json
  | .mk attrs children => .obj (streamShallowFileData isoformat attrs ++ childrenField (toDicts children))

def toDicts : List SystemFile → List Json
  | [] => []
  | file :: files => toDict file :: toDicts files
end

/-- The text that is printed without `--stream`. -/
def printList (scanner : Scanner) (disk : Option (List Entry)) : Except ScanFailure (List Char) := do
  let roots ← scanner.scan disk
  return (Json.list (toDicts isoformat roots)).dumpsSpaced

/-- `[SystemFile.from_dict(data) for data in json.loads(text)]` -/
def decodeList (env : Environment) (text : List Char) : Option (List WireFile) :=
  match env.loads text with
  | some (.list items) => (items.mapM (fromDict env.fromisoformat)).toOption
  | _ => none

/-- The trees that a scan without `--stream` comes to. -/
def plainTrees (env : Environment) (scanner : Scanner) (disk : Option (List Entry)) : Option (List WireFile) :=
  match printList isoformat scanner disk with
  | .ok text => decodeList env text
  | .error _ => none

/-! ## A stream -/

def liftScan {α : Type} : Except ScanFailure α → Write α
  | .ok value => pure value
  | .error failure => throw (.scan failure)

/-- `for root_name in root_names` -/
def streamRoots (scanner : Scanner) (entries : List Entry) (nodeBatchSize : Nat) : Nat → List Codes → Write Unit
  | _, [] => pure ()
  | emittedRootId, rootName :: rootNames => do
    match ← liftScan (scanner.scanSingleIfPresent entries rootName) with
    | none => streamRoots scanner entries nodeBatchSize emittedRootId rootNames
    | some rootFile =>
      writeStreamRoot isoformat emittedRootId rootFile nodeBatchSize
      streamRoots scanner entries nodeBatchSize (emittedRootId + 1) rootNames

/-- What `--stream` writes. -/
def streamScan (scanner : Scanner) (disk : Option (List Entry)) (nodeBatchSize : Nat) : Write Unit := do
  let rootNames ← liftScan (scanner.rootNames disk)
  writeStreamManifest isoformat rootNames
  streamRoots isoformat scanner (disk.getD []) nodeBatchSize 0 rootNames
  writeStreamRecord isoformat .complete

/-- The transport raises where the program exits with an error. -/
def transportOf (result : Except ScanError Unit) (chunks : List (List UInt8)) (out : List UInt8) : Transport :=
  match result with
  | .ok _ => .returned chunks out
  | .error _ => .raised chunks

/-- The trees that a scan with `--stream` comes to, when its output arrives in the given chunks. -/
def streamTrees (env : Environment) (scanner : Scanner) (disk : Option (List Entry)) (nodeBatchSize : Nat)
    (chunks : List (List UInt8)) (out : List UInt8) : Option (List WireFile) :=
  (scan env (transportOf ((streamScan isoformat scanner disk nodeBatchSize).run.run []).1 chunks out)).2.toOption

end

/-! ## The list is read back -/

section

variable {isoformat : Timestamp → String} {fromisoformat : Codes → Option Timestamp}

theorem lookup_childrenField {k : String} (hk : k ≠ "children") (items : List Json) :
    (childrenField items).lookup (codes k) = none := by
  cases items with
  | nil => rfl
  | cons item items => rw [childrenField, lookup_codes, if_neg hk, List.lookup_nil]

theorem readAttrs_children (fields : List (Codes × Json)) (items : List Json) :
    readAttrs fromisoformat (fields ++ childrenField items) = readAttrs fromisoformat fields := by
  have hlookup : ∀ k : String, k ≠ "children" →
      (fields ++ childrenField items).lookup (codes k) = fields.lookup (codes k) := fun k hk => by
    rw [List.lookup_append, lookup_childrenField hk, Option.or_none]
  unfold readAttrs Json.get required
  simp only [hlookup "time_created" (by decide), hlookup "time_modified" (by decide), hlookup "name" (by decide),
    hlookup "size" (by decide), hlookup "path_pair_id" (by decide), hlookup "path_pair_name" (by decide),
    hlookup "has_staging_origin" (by decide), hlookup "has_staging_collision" (by decide), hlookup "is_dir" (by decide),
    hlookup "mtime_ns" (by decide), hlookup "is_staging" (by decide)]

theorem fromChildren_eq (isDir : Bool) (fields : List (Codes × Json)) : fromChildren fromisoformat isDir fields =
    match fields.lookup (codes "children") with
    | some value => fromIterable fromisoformat isDir value
    | none => .ok [] := by
  induction fields with
  | nil =>
    rw [fromChildren]
    rfl
  | cons field fields ih =>
    obtain ⟨key, value⟩ := field
    rw [fromChildren, List.lookup_cons]
    by_cases hkey : key = codes "children"
    · rw [if_pos hkey, hkey, beq_self_eq_true]
    · rw [if_neg hkey, ih, beq_false_of_ne (Ne.symm hkey)]

theorem toDicts_eq_nil {files : List SystemFile} (h : toDicts isoformat files = []) : files = [] := by
  cases files with
  | nil => rfl
  | cons file files => cases h

theorem wireFile_mk (attrs : FileAttrs) (children : List SystemFile) :
    wireFile (.mk attrs children) = .node (wireAttrs attrs) (children.map wireFile) := by
  have hchildren : ∀ files : List SystemFile, Rose.mapAll wireAttrs (fileTrees files) = files.map wireFile := by
    intro files
    induction files with
    | nil => rw [fileTrees, Rose.mapAll, List.map_nil]
    | cons file files ih =>
      rw [fileTrees, Rose.mapAll, ih]
      rfl
  rw [wireFile, fileTree, Rose.map, hchildren]

/-- The timestamps of every file in a tree are read back. -/
def AllTimesReadBack (isoformat : Timestamp → String) (fromisoformat : Codes → Option Timestamp)
    (values : List FileAttrs) : Prop :=
  ∀ file ∈ values, TimesReadBack isoformat fromisoformat file

theorem AllTimesReadBack.of_tree {root : SystemFile} (h : TreeTimesReadBack isoformat fromisoformat root) :
    AllTimesReadBack isoformat fromisoformat (fileTree root).values := by
  intro file hfile
  rw [← Rose.map_value_items (fileTree root) none 0] at hfile
  obtain ⟨node, hnode, rfl⟩ := List.mem_map.mp hfile
  exact h node hnode

mutual
/-- A tree is read back from its dictionary. -/
theorem fromDict_toDict (file : SystemFile) (hdirs : OnlyDirsHaveChildren file)
    (htimes : AllTimesReadBack isoformat fromisoformat (fileTree file).values) :
    fromDict fromisoformat (toDict isoformat file) = .ok (wireFile file) := by
  match file with
  | .mk attrs children =>
    unfold OnlyDirsHaveChildren at hdirs
    rw [fileTree, Rose.ParentsOnly] at hdirs
    rw [fileTree, Rose.values] at htimes
    have hattrs : readAttrs fromisoformat (streamShallowFileData isoformat attrs) = .ok (wireAttrs attrs) :=
      readAttrs_shallow (htimes attrs List.mem_cons_self)
    have hlookup : (streamShallowFileData isoformat attrs ++ childrenField (toDicts isoformat children)).lookup
        (codes "children") = (childrenField (toDicts isoformat children)).lookup (codes "children") := by
      rw [List.lookup_append, lookup_children, Option.none_or]
    have hdicts : fromChildren fromisoformat (wireAttrs attrs).isDir
        (streamShallowFileData isoformat attrs ++ childrenField (toDicts isoformat children)) =
          .ok (children.map wireFile) := by
      rw [fromChildren_eq, hlookup]
      cases hchildren : toDicts isoformat children with
      | nil =>
        cases toDicts_eq_nil hchildren
        rfl
      | cons item items =>
        have hne : children ≠ [] := by
          rintro rfl
          rw [toDicts] at hchildren
          cases hchildren
        have hdir : attrs.isDir = true := hdirs.1 (by cases children <;> simp_all [fileTrees])
        rw [childrenField, lookup_codes, if_pos rfl, ← hchildren]
        change fromIterable fromisoformat attrs.isDir _ = _
        rw [hdir, fromIterable]
        exact fromDicts_toDicts children hdirs.2 fun a ha => htimes a (List.mem_cons_of_mem _ ha)
    rw [toDict, fromDict, readAttrs_children, hattrs]
    change (fromChildren fromisoformat (wireAttrs attrs).isDir _ >>= fun children => _) = _
    rw [hdicts, wireFile_mk]
    rfl

theorem fromDicts_toDicts (files : List SystemFile)
    (hdirs : Rose.AllParentsOnly (fun file : FileAttrs => file.isDir = true) (fileTrees files))
    (htimes : AllTimesReadBack isoformat fromisoformat (Rose.valuesAll (fileTrees files))) :
    fromDicts fromisoformat true (toDicts isoformat files) = .ok (files.map wireFile) := by
  match files with
  | [] => rw [toDicts, fromDicts, List.map_nil]
  | file :: files =>
    rw [fileTrees, Rose.AllParentsOnly] at hdirs
    rw [fileTrees, Rose.valuesAll] at htimes
    rw [toDicts, fromDicts, fromDict_toDict file hdirs.1 fun a ha => htimes a (List.mem_append_left _ ha),
      fromDicts_toDicts files hdirs.2 fun a ha => htimes a (List.mem_append_right _ ha)]
    rfl
end

end

/-! ## Scanned trees -/

section

theorem allParentsOnly_fileTrees {files : List SystemFile} :
    Rose.AllParentsOnly (fun file : FileAttrs => file.isDir = true) (fileTrees files) ↔
      ∀ file ∈ files, OnlyDirsHaveChildren file := by
  induction files with
  | nil => simp [fileTrees, Rose.AllParentsOnly]
  | cons file files ih => simp [fileTrees, Rose.AllParentsOnly, ih, OnlyDirsHaveChildren]

theorem createFile_dirs {scanner : Scanner} {siblings : List Entry} {name onDisk : Codes} {stat : Stat}
    {file : SystemFile} (h : scanner.createFile siblings name onDisk stat = .ok file) : OnlyDirsHaveChildren file := by
  unfold Scanner.createFile at h
  dsimp only at h
  split at h
  · cases h
  · cases h
    simp [OnlyDirsHaveChildren, fileTree, fileTrees, Rose.ParentsOnly, Rose.AllParentsOnly]

theorem createDirectory_dirs {name : Codes} {stat : Stat} {children : List SystemFile} {file : SystemFile}
    (h : createDirectory name stat children = .ok file) (hchildren : ∀ child ∈ children, OnlyDirsHaveChildren child) :
    OnlyDirsHaveChildren file := by
  unfold createDirectory at h
  split at h
  · cases h
  · cases h
    unfold OnlyDirsHaveChildren
    rw [fileTree, Rose.ParentsOnly]
    exact ⟨fun _ => rfl, allParentsOnly_fileTrees.mpr hchildren⟩

variable (scanner : Scanner)

mutual
theorem createSystemFile_dirs (siblings : List Entry) (name : Codes) (entry : Entry) {file : SystemFile}
    (h : scanner.createSystemFile siblings name entry = .ok (some file)) : OnlyDirsHaveChildren file := by
  match entry with
  | .dir onDisk stat entries =>
    rw [Scanner.createSystemFile] at h
    obtain ⟨children, hchildren, h⟩ := ok_of_bind h
    obtain ⟨made, hmade, h⟩ := ok_of_bind h
    cases h
    refine createDirectory_dirs hmade fun child hchild => ?_
    exact createChildren_dirs entries entries hchildren child ((sortByName_perm children).mem_iff.mp hchild)
  | .file onDisk disk =>
    rw [Scanner.createSystemFile] at h
    obtain ⟨made, hmade, h⟩ := ok_of_bind h
    cases h
    exact createFile_dirs hmade
  | .link onDisk (.file disk) =>
    rw [Scanner.createSystemFile] at h
    obtain ⟨made, hmade, h⟩ := ok_of_bind h
    cases h
    exact createFile_dirs hmade
  | .link onDisk (.dir stat) =>
    rw [Scanner.createSystemFile] at h
    obtain ⟨made, hmade, h⟩ := ok_of_bind h
    cases h
    exact createFile_dirs hmade
  | .link onDisk .missing =>
    rw [Scanner.createSystemFile] at h
    cases h
  | .link onDisk .broken =>
    rw [Scanner.createSystemFile] at h
    cases h

theorem createChildren_dirs (siblings entries : List Entry) {files : List SystemFile}
    (h : scanner.createChildren siblings entries = .ok files) : ∀ file ∈ files, OnlyDirsHaveChildren file := by
  match entries with
  | [] =>
    rw [Scanner.createChildren] at h
    cases h
    simp
  | entry :: entries =>
    obtain ⟨-, child, rest, hrest, rfl, hchild⟩ := createChildren_cons_ok scanner siblings h
    intro file hfile
    rcases List.mem_append.mp hfile with hfile | hfile
    · rw [Option.mem_toList] at hfile
      subst hfile
      exact createSystemFile_dirs siblings entry.name entry (hchild.resolve_left (by simp))
    · exact createChildren_dirs siblings entries hrest file hfile
end

end

end SeedSync.Remote
