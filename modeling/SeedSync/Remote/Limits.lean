import Mathlib.Algebra.Order.BigOperators.Group.List
import SeedSync.Remote.ScanFs

/-!
# What an operating system allows fits the wire

The nodes of a directory whose names, sizes and times are such as an operating system allows: each
fits a record of its own.
-/

namespace SeedSync.Remote

open Lib

/-! ## Directories -/

/-- `NAME_MAX` -/
def NameAllowed (name : Codes) : Prop := (name.flatMap encodeSurrogateescape).length ≤ 255

/-- Sizes and times are machine words. -/
def StatAllowed (stat : Stat) : Prop := stat.size < 2 ^ 64 ∧ ∀ ns ∈ stat.mtimeNs, ns.natAbs < 2 ^ 128

/-- `int()` reads no more digits. -/
def statusDigits : Nat := 4300

def statusLimit : Nat := 10 ^ statusDigits

theorem word_le_statusLimit : 2 ^ 64 ≤ statusLimit := by
  have hword : 2 ^ 64 ≤ 10 ^ 20 := by norm_num
  exact hword.trans (Nat.pow_le_pow_right (by decide) (by decide))

def FileAllowed (file : DiskFile) : Prop := StatAllowed file.stat ∧ ∀ size ∈ file.status, size < statusLimit

def TargetAllowed : Target → Prop
  | .file file => FileAllowed file
  | .dir stat => StatAllowed stat
  | .missing => True
  | .broken => True

mutual
def Allowed : Entry → Prop
  | .file name file => NameAllowed name ∧ FileAllowed file
  | .dir name stat entries => NameAllowed name ∧ StatAllowed stat ∧ AllAllowed entries
  | .link name target => NameAllowed name ∧ TargetAllowed target

def AllAllowed : List Entry → Prop
  | [] => True
  | entry :: entries => Allowed entry ∧ AllAllowed entries
end

mutual
/-- The number of entries, with all that is below them. -/
def entryCount : Entry → Nat
  | .dir _ _ entries => entriesCount entries + 1
  | .file _ _ => 1
  | .link _ _ => 1

def entriesCount : List Entry → Nat
  | [] => 0
  | entry :: entries => entryCount entry + entriesCount entries
end

/-- A directory as an operating system keeps it. -/
structure Directory where
  entries : List Entry
  distinct : (entries.map Entry.name).Nodup
  allowed : AllAllowed entries
  bounded : entriesCount entries < 10 ^ 20

theorem AllAllowed.mem {entries : List Entry} (h : AllAllowed entries) : ∀ entry ∈ entries, Allowed entry := by
  induction entries with
  | nil => simp
  | cons entry entries ih =>
    rw [AllAllowed] at h
    rintro e (_ | ⟨_, he⟩)
    · exact h.1
    · exact ih h.2 e he

theorem Allowed.name {entry : Entry} (h : Allowed entry) : NameAllowed entry.name := by
  cases entry with
  | file name file =>
    rw [Allowed] at h
    exact h.1
  | dir name stat entries =>
    rw [Allowed] at h
    exact h.1
  | link name target =>
    rw [Allowed] at h
    exact h.1

theorem Allowed.regularFile {entry : Entry} (h : Allowed entry) : ∀ file ∈ entry.regularFile, FileAllowed file := by
  have hregular : ∀ file other : DiskFile, FileAllowed file →
      (if file.regular then some file else none) = some other → FileAllowed other := by
    intro file other hfile hother
    split_ifs at hother
    cases hother
    exact hfile
  intro file hfile
  cases entry with
  | file name disk =>
    rw [Allowed] at h
    exact hregular disk file h.2 hfile
  | dir name stat entries => cases hfile
  | link name target =>
    rw [Allowed] at h
    cases target with
    | file disk => exact hregular disk file h.2 hfile
    | dir stat => cases hfile
    | missing => cases hfile
    | broken => cases hfile

theorem parsedSize_lt {siblings : List Entry} (h : AllAllowed siblings) {name : Codes} {size : Nat}
    (hsize : parsedSize siblings name = some size) : size < statusLimit := by
  unfold parsedSize at hsize
  split at hsize
  · rename_i entry hfind
    obtain ⟨file, hfile, hstatus⟩ := Option.bind_eq_some_iff.mp hsize
    exact ((h.mem entry (List.mem_of_find?_eq_some hfind)).regularFile file hfile).2 size hstatus
  · cases hsize

/-! ## Trees -/

/-- What a scan has of a file, but for its size. -/
structure SmallAttrs (file : FileAttrs) : Prop where
  name : (codes file.name).length ≤ 255
  mtimeNs : ∀ ns ∈ file.mtimeNs, ns.natAbs < 2 ^ 128
  pathPairId : file.pathPairId = none
  pathPairName : file.pathPairName = none

/-- No file is larger than as many as there are in its tree. -/
def SmallTree (tree : Rose FileAttrs) : Prop :=
  ∀ file ∈ tree.values, SmallAttrs file ∧ file.size ≤ tree.count * statusLimit

theorem fileName_eq {scanner : Scanner} (htemp : scanner.useTempFile = false) (name : Codes) :
    scanner.fileName name = normalizeName name := by
  have hchars : ((normalizeName name).toList.map Char.toNat).map Char.ofNat = (normalizeName name).toList := by
    rw [List.map_map]
    conv_rhs => rw [← List.map_id (normalizeName name).toList]
    exact List.map_congr_left fun c _ => Char.ofNat_toNat c
  unfold Scanner.fileName Scanner.strip codes
  rw [htemp]
  simp only [Bool.false_eq_true, if_false]
  rw [hchars, String.ofList_toList]

theorem createFile_small {scanner : Scanner} (htemp : scanner.useTempFile = false) {siblings : List Entry}
    (hsiblings : AllAllowed siblings) {name onDisk : Codes} (hname : NameAllowed name) {stat : Stat}
    (hstat : StatAllowed stat) {file : SystemFile} (h : scanner.createFile siblings name onDisk stat = .ok file) :
    SmallTree (fileTree file) ∧ (fileTree file).count = 1 := by
  have hsize : ∀ size, parsedSize siblings onDisk = some size → size < statusLimit := fun size => parsedSize_lt hsiblings
  have hword : stat.size ≤ statusLimit := (Nat.le_of_lt hstat.1).trans word_le_statusLimit
  unfold Scanner.createFile at h
  dsimp only at h
  split at h
  · cases h
  · cases h
    refine ⟨?_, rfl⟩
    intro attrs hattrs
    rw [fileTree, fileTrees, Rose.values, Rose.valuesAll, List.mem_singleton] at hattrs
    subst hattrs
    refine ⟨⟨?_, hstat.2, rfl, rfl⟩, ?_⟩
    · rw [fileName_eq htemp]
      exact (length_normalizeName_le name).trans hname
    · rw [fileTree, fileTrees, Rose.count, Rose.countAll, Nat.zero_add, Nat.one_mul, htemp]
      dsimp only
      split
      · rename_i size hparsed
        exact Nat.le_of_lt (hsize size hparsed)
      · simpa using hword

theorem values_fileTrees {files : List SystemFile} {attrs : FileAttrs} (h : attrs ∈ Rose.valuesAll (fileTrees files)) :
    ∃ file ∈ files, attrs ∈ (fileTree file).values := by
  induction files with
  | nil => cases h
  | cons file files ih =>
    rw [fileTrees, Rose.valuesAll] at h
    rcases List.mem_append.mp h with h | h
    · exact ⟨file, List.mem_cons_self, h⟩
    · obtain ⟨other, hother, h⟩ := ih h
      exact ⟨other, List.mem_cons_of_mem _ hother, h⟩

theorem countAll_fileTrees (files : List SystemFile) :
    Rose.countAll (fileTrees files) = (files.map fun file => (fileTree file).count).sum := by
  induction files with
  | nil => rw [fileTrees, Rose.countAll, List.map_nil, List.sum_nil]
  | cons file files ih => rw [fileTrees, Rose.countAll, ih, List.map_cons, List.sum_cons]

theorem root_size_le {file : SystemFile} (h : SmallTree (fileTree file)) :
    file.size ≤ (fileTree file).count * statusLimit := by
  cases file with
  | mk attrs children =>
    refine (h attrs ?_).2
    rw [fileTree, Rose.values]
    exact List.mem_cons_self

theorem sizes_le {files : List SystemFile} (h : ∀ file ∈ files, SmallTree (fileTree file)) :
    (files.map SystemFile.size).sum ≤ Rose.countAll (fileTrees files) * statusLimit := by
  induction files with
  | nil => exact Nat.zero_le _
  | cons file files ih =>
    have hfirst := root_size_le (h file List.mem_cons_self)
    have hrest := ih fun f hf => h f (List.mem_cons_of_mem _ hf)
    rw [List.map_cons, List.sum_cons, fileTrees, Rose.countAll, Nat.add_mul]
    exact Nat.add_le_add hfirst hrest

theorem count_le_countAll {files : List SystemFile} {file : SystemFile} (h : file ∈ files) :
    (fileTree file).count ≤ Rose.countAll (fileTrees files) := by
  rw [countAll_fileTrees]
  exact List.le_sum_of_mem (List.mem_map_of_mem h)

theorem createDirectory_small {name : Codes} (hname : NameAllowed name) {stat : Stat} (hstat : StatAllowed stat)
    {children : List SystemFile} (hchildren : ∀ child ∈ children, SmallTree (fileTree child)) {file : SystemFile}
    (h : createDirectory name stat children = .ok file) :
    SmallTree (fileTree file) ∧ (fileTree file).count = Rose.countAll (fileTrees children) + 1 := by
  unfold createDirectory at h
  split at h
  · cases h
  · cases h
    rw [fileTree, Rose.count]
    refine ⟨?_, rfl⟩
    intro attrs hattrs
    rw [Rose.values] at hattrs
    rw [Rose.count, Nat.add_mul]
    rcases List.mem_cons.mp hattrs with rfl | hattrs
    · refine ⟨⟨(length_normalizeName_le name).trans hname, hstat.2, rfl, rfl⟩, ?_⟩
      exact (sizes_le hchildren).trans (Nat.le_add_right _ _)
    · obtain ⟨child, hchild, hattrs⟩ := values_fileTrees hattrs
      obtain ⟨hsmall, hsize⟩ := hchildren child hchild attrs hattrs
      refine ⟨hsmall, hsize.trans ?_⟩
      exact (Nat.mul_le_mul_right _ (count_le_countAll hchild)).trans (Nat.le_add_right _ _)

section

variable {scanner : Scanner}

mutual
theorem createSystemFile_small (htemp : scanner.useTempFile = false) {siblings : List Entry} (hsiblings : AllAllowed siblings) {name : Codes}
    (hname : NameAllowed name) (entry : Entry) (hentry : Allowed entry) {file : SystemFile}
    (h : scanner.createSystemFile siblings name entry = .ok (some file)) :
    SmallTree (fileTree file) ∧ (fileTree file).count ≤ entryCount entry := by
  match entry with
  | .dir onDisk stat entries =>
    rw [Allowed] at hentry
    rw [Scanner.createSystemFile] at h
    obtain ⟨children, hchildren, h⟩ := ok_of_bind h
    obtain ⟨made, hmade, h⟩ := ok_of_bind h
    cases h
    obtain ⟨hsmall, hcount⟩ := createChildren_small htemp hentry.2.2 entries hentry.2.2 hchildren
    have hperm := sortByName_perm children
    obtain ⟨hmade, hmadeCount⟩ := createDirectory_small hname hentry.2.1
      (fun child hchild => hsmall child (hperm.mem_iff.mp hchild)) hmade
    refine ⟨hmade, ?_⟩
    rw [hmadeCount, countAll_fileTrees, (hperm.map _).sum_eq, ← countAll_fileTrees, entryCount]
    exact Nat.add_le_add_right hcount 1
  | .file onDisk disk =>
    rw [Allowed] at hentry
    rw [Scanner.createSystemFile] at h
    obtain ⟨made, hmade, h⟩ := ok_of_bind h
    cases h
    rw [entryCount]
    obtain ⟨hsmall, hcount⟩ := createFile_small htemp hsiblings hname hentry.2.1 hmade
    exact ⟨hsmall, hcount.le⟩
  | .link onDisk (.file disk) =>
    rw [Allowed, TargetAllowed] at hentry
    rw [Scanner.createSystemFile] at h
    obtain ⟨made, hmade, h⟩ := ok_of_bind h
    cases h
    rw [entryCount]
    obtain ⟨hsmall, hcount⟩ := createFile_small htemp hsiblings hname hentry.2.1 hmade
    exact ⟨hsmall, hcount.le⟩
  | .link onDisk (.dir stat) =>
    rw [Allowed, TargetAllowed] at hentry
    rw [Scanner.createSystemFile] at h
    obtain ⟨made, hmade, h⟩ := ok_of_bind h
    cases h
    rw [entryCount]
    obtain ⟨hsmall, hcount⟩ := createFile_small htemp hsiblings hname hentry.2 hmade
    exact ⟨hsmall, hcount.le⟩
  | .link onDisk .missing =>
    rw [Scanner.createSystemFile] at h
    cases h
  | .link onDisk .broken =>
    rw [Scanner.createSystemFile] at h
    cases h

theorem createChildren_small (htemp : scanner.useTempFile = false) {siblings : List Entry} (hsiblings : AllAllowed siblings) (entries : List Entry)
    (hentries : AllAllowed entries) {files : List SystemFile}
    (h : scanner.createChildren siblings entries = .ok files) :
    (∀ file ∈ files, SmallTree (fileTree file)) ∧ Rose.countAll (fileTrees files) ≤ entriesCount entries := by
  match entries with
  | [] =>
    rw [Scanner.createChildren] at h
    cases h
    exact ⟨by simp, Nat.zero_le _⟩
  | entry :: entries =>
    rw [AllAllowed] at hentries
    obtain ⟨-, child, rest, hrest, rfl, hchild⟩ := createChildren_cons_ok scanner siblings h
    obtain ⟨hsmall, hcount⟩ := createChildren_small htemp hsiblings entries hentries.2 hrest
    rw [entriesCount]
    cases child with
    | none => exact ⟨hsmall, hcount.trans (Nat.le_add_left _ _)⟩
    | some file =>
      obtain ⟨hfile, hfileCount⟩ := createSystemFile_small htemp hsiblings hentries.1.name entry hentries.1
        (hchild.resolve_left (by simp))
      refine ⟨?_, ?_⟩
      · rintro f (_ | ⟨_, hf⟩)
        · exact hfile
        · exact hsmall f hf
      · change Rose.countAll (fileTrees (file :: rest)) ≤ _
        rw [fileTrees, Rose.countAll]
        exact Nat.add_le_add hfileCount hcount
end

end

/-! ## Records -/

theorem length_dumpsFields_le {bound : Nat} {fields : List (Codes × Json)}
    (h : ∀ field ∈ fields, (quoted field.1).length + field.2.dumps.length ≤ bound) :
    (Json.dumpsFields fields).length ≤ fields.length * (bound + 2) := by
  match fields with
  | [] => exact Nat.zero_le _
  | [(key, value)] =>
    have hfirst : (quoted key).length + value.dumps.length ≤ bound := h (key, value) List.mem_cons_self
    simp [Json.dumpsFields]
    omega
  | (key, value) :: next :: rest =>
    have hfirst : (quoted key).length + value.dumps.length ≤ bound := h (key, value) List.mem_cons_self
    have hrest := length_dumpsFields_le fun field hfield => h field (List.mem_cons_of_mem _ hfield)
    rw [List.length_cons, Nat.succ_mul]
    simp [Json.dumpsFields] at hrest ⊢
    omega

section

variable {isoformat : Timestamp → String}

theorem mem_optionalField {key : String} {value : Option Json} {field : Codes × Json}
    (h : field ∈ optionalField key value) : ∃ v, value = some v ∧ field = (codes key, v) := by
  cases value with
  | none => cases h
  | some v => exact ⟨v, rfl, List.mem_singleton.mp h⟩

theorem length_shallow_le (isoformat : Timestamp → String) (file : FileAttrs) : (streamShallowFileData isoformat file).length ≤ 10 := by
  have hoptional : ∀ (key : String) (value : Option Json), (optionalField key value).length ≤ 1 := by
    intro key value
    cases value <;> simp [optionalField]
  have hflag : ∀ (key : String) (flag : Bool), (flagField key flag).length ≤ 1 := by
    intro key flag
    cases flag <;> simp [flagField]
  unfold streamShallowFileData
  simp only [List.length_append, List.length_cons, List.length_nil]
  have := hoptional "time_created" (file.timestampCreated.map fun t => .str (codes (isoformat t)))
  have := hoptional "time_modified" (file.timestampModified.map fun t => .str (codes (isoformat t)))
  have := hoptional "mtime_ns" (file.mtimeNs.map .int)
  have := hoptional "path_pair_id" (file.pathPairId.map fun s => .str (codes s))
  have := hoptional "path_pair_name" (file.pathPairName.map fun s => .str (codes s))
  have := hflag "is_staging" file.isStaging
  have := hflag "has_staging_collision" file.hasStagingCollision
  omega

/-- `isoformat` writes few characters. -/
def TimesShort (isoformat : Timestamp → String) (file : FileAttrs) : Prop :=
  ∀ t, t ∈ file.timestampCreated ∨ t ∈ file.timestampModified → (isoformat t).length ≤ 64

/-- What is known of a file in a directory that an operating system allows. -/
structure SmallFile (isoformat : Timestamp → String) (file : FileAttrs) : Prop extends SmallAttrs file where
  size : file.size < 10 ^ (20 + statusDigits)
  times : TimesShort isoformat file

/-- No field of a node is long. -/
theorem shallow_field_le {file : FileAttrs} (h : SmallFile isoformat file) :
    ∀ field ∈ streamShallowFileData isoformat file, (quoted field.1).length + field.2.dumps.length ≤ 4400 := by
  obtain ⟨⟨hname, hmtime, hpairId, hpairName⟩, hsize, hiso⟩ := h
  have htime : ∀ t, t ∈ file.timestampCreated ∨ t ∈ file.timestampModified →
      (quoted (codes (isoformat t))).length ≤ 770 := by
    intro t ht
    have hquoted := length_quoted_le (codes (isoformat t))
    have hlength := hiso t ht
    simp only [codes, List.length_map, String.length_toList] at hquoted
    unfold codes
    omega
  have hflag : ∀ (key : String) (flag : Bool), (quoted (codes key)).length ≤ 30 → ∀ field ∈ flagField key flag,
      (quoted field.1).length + field.2.dumps.length ≤ 4400 := by
    intro key flag hkey field hfield
    have htrue : (Json.bool true).dumps.length = 4 := rfl
    cases flag with
    | false => cases hfield
    | true =>
      rw [flagField, if_pos rfl, List.mem_singleton] at hfield
      subst hfield
      simp only [htrue]
      omega
  unfold streamShallowFileData
  rw [hpairId, hpairName]
  simp only [List.mem_append, List.mem_cons, List.not_mem_nil, or_false, Option.map_none, optionalField]
  rintro field (((((((rfl | rfl | rfl) | hfield) | hfield) | hfield)) | hfield) | hfield)
  · have hquoted := length_quoted_le (codes file.name)
    have hkey : (quoted (codes "name")).length = 6 := by decide
    simp only [length_dumps_str, hkey]
    omega
  · have hdigits : (decimal file.size).length ≤ 20 + statusDigits := length_decimal_le hsize (by omega)
    have hkey : (quoted (codes "size")).length = 6 := by decide
    have hlimit : statusDigits = 4300 := rfl
    simp only [length_dumps_nat, hkey]
    omega
  · have hkey : (quoted (codes "is_dir")).length = 8 := by decide
    have hvalue : ∀ flag : Bool, (Json.bool flag).dumps.length ≤ 5 := by decide
    have := hvalue file.isDir
    simp only [hkey]
    omega
  · obtain ⟨v, hv, rfl⟩ := mem_optionalField hfield
    obtain ⟨t, ht, rfl⟩ := Option.map_eq_some_iff.mp hv
    have hkey : (quoted (codes "time_created")).length = 14 := by decide
    have := htime t (Or.inl ht)
    simp only [length_dumps_str, hkey]
    omega
  · obtain ⟨v, hv, rfl⟩ := mem_optionalField hfield
    obtain ⟨t, ht, rfl⟩ := Option.map_eq_some_iff.mp hv
    have hkey : (quoted (codes "time_modified")).length = 15 := by decide
    have := htime t (Or.inr ht)
    simp only [length_dumps_str, hkey]
    omega
  · obtain ⟨v, hv, rfl⟩ := mem_optionalField hfield
    obtain ⟨ns, hns, rfl⟩ := Option.map_eq_some_iff.mp hv
    have hkey : (quoted (codes "mtime_ns")).length = 10 := by decide
    have hword : (2 : Nat) ^ 128 < 10 ^ 39 := by norm_num
    have hdigits := length_decimalInt_le ((hmtime ns hns).trans hword) (by decide)
    simp only [Json.dumps, hkey]
    omega
  · exact hflag _ _ (by decide) field hfield
  · exact hflag _ _ (by decide) field hfield

theorem length_nodeJson_le {node : Item FileAttrs} (hid : node.id < 10 ^ 20)
    (hparent : ∀ parent ∈ node.parent, parent < 10 ^ 20) (h : SmallFile isoformat node.value) :
    (nodeJson isoformat node).dumps.length ≤ 45000 := by
  have hfields := length_dumpsFields_le (shallow_field_le h)
  have hcount := length_shallow_le isoformat node.value
  have hnumber := length_decimal_le hid (by decide)
  have hparentLength : (parentJson node.parent).dumps.length ≤ 20 := by
    cases hnone : node.parent with
    | none => decide
    | some parent =>
      rw [parentJson, length_dumps_nat]
      exact length_decimal_le (hparent parent hnone) (by decide)
  have hid' : (quoted (codes "id")).length = 4 := by decide
  have hparentKey : (quoted (codes "parent")).length = 8 := by decide
  have hfileKey : (quoted (codes "file")).length = 6 := by decide
  have hobj : (Json.obj (streamShallowFileData isoformat node.value)).dumps.length =
      (Json.dumpsFields (streamShallowFileData isoformat node.value)).length + 2 := by
    simp [Json.dumps]
  rw [nodeJson, length_dumps_obj_three, length_dumps_nat, hobj, hid', hparentKey, hfileKey]
  have hbound : (streamShallowFileData isoformat node.value).length * 4402 ≤ 44020 :=
    Nat.mul_le_mul_right 4402 hcount
  omega

theorem mul_pow_lt {n : Nat} (h : n < 10 ^ 20) (k : Nat) : n * 10 ^ k < 10 ^ (20 + k) := by
  rw [pow_add]
  exact Nat.mul_lt_mul_of_pos_right h (Nat.pow_pos (by decide))

theorem nodesFit_of_small {rootId : Nat} (hroot : rootId < 10 ^ 20) {root : SystemFile}
    (htimes : ∀ file ∈ (fileTree root).values, TimesShort isoformat file) (hsmall : SmallTree (fileTree root))
    (hcount : (fileTree root).count < 10 ^ 20) :
    NodesFit isoformat rootId root := by
  intro node hnode
  have hvalue : node.value ∈ (fileTree root).values :=
    Rose.map_value_items (fileTree root) none 0 ▸ List.mem_map_of_mem hnode
  have hid : node.id < 0 + (fileTree root).count :=
    (List.mem_range'_1.mp (Rose.ids_items (fileTree root) none 0 ▸ List.mem_map_of_mem hnode)).2
  have hparent : ∀ parent ∈ node.parent, parent < 10 ^ 20 := by
    intro parent hparent
    rcases Rose.parent_items (fileTree root) none 0 node hnode with hnone | ⟨p, hp, hlt⟩
    · rw [hnone] at hparent
      cases hparent
    · rw [hp] at hparent
      cases hparent
      omega
  obtain ⟨hattrs, hsize⟩ := hsmall node.value hvalue
  have hfile : SmallFile isoformat node.value := by
    refine ⟨hattrs, lt_of_le_of_lt hsize ?_, htimes node.value hvalue⟩
    unfold statusLimit
    exact mul_pow_lt hcount statusDigits
  have hnodeLength := length_nodeJson_le (by omega) hparent hfile
  have hrootLength := length_decimal_le hroot (by decide)
  have htype : (quoted (codes "type")).length = 6 := by decide
  have hnodes : (quoted (codes "root_nodes")).length = 12 := by decide
  have hrootKey : (quoted (codes "root")).length = 6 := by decide
  have hkey : (quoted (codes "nodes")).length = 7 := by decide
  unfold Record.fits maxStreamRecordBytes
  rw [decide_eq_true_eq, length_line, Record.json, typeField, length_dumps_obj_three, List.map_singleton,
    length_dumps_singleton, length_dumps_nat, length_dumps_str, htype, hnodes, hrootKey, hkey]
  omega

theorem rootsFit_of_small {roots : List SystemFile} {rootId : Nat} (hlength : rootId + roots.length < 10 ^ 20)
    (htimes : ∀ root ∈ roots, ∀ file ∈ (fileTree root).values, TimesShort isoformat file)
    (hsmall : ∀ root ∈ roots, SmallTree (fileTree root))
    (hcount : ∀ root ∈ roots, (fileTree root).count < 10 ^ 20) : RootsFit isoformat rootId roots := by
  induction roots generalizing rootId with
  | nil => exact True.intro
  | cons root roots ih =>
    rw [List.length_cons] at hlength
    refine ⟨nodesFit_of_small (by omega) (htimes root List.mem_cons_self) (hsmall root List.mem_cons_self)
      (hcount root List.mem_cons_self), ?_⟩
    exact ih (by omega) (fun r hr => htimes r (List.mem_cons_of_mem _ hr)) (fun r hr => hsmall r (List.mem_cons_of_mem _ hr)) fun r hr =>
      hcount r (List.mem_cons_of_mem _ hr)

theorem manifestName_fits_of_allowed {name : Codes} (h : NameAllowed name) :
    (Record.manifestNames [name]).fits isoformat = true := by
  have hlength := (length_name_le name).trans h
  have hquoted := length_quoted_le name
  have htype : (quoted (codes "type")).length = 6 := by decide
  have hnames : (quoted (codes "manifest_names")).length = 16 := by decide
  have hkey : (quoted (codes "names")).length = 7 := by decide
  unfold Record.fits maxStreamRecordBytes
  rw [decide_eq_true_eq, length_line, Record.json, typeField, length_dumps_obj_two, List.map_singleton,
    length_dumps_singleton, length_dumps_str, length_dumps_str, htype, hnames, hkey]
  omega

theorem manifestBegin_fits_of_lt {count : Nat} (h : count < 10 ^ 20) :
    (Record.manifestBegin count).fits isoformat = true := by
  have hlength := length_decimal_le h (by decide)
  have htype : (quoted (codes "type")).length = 6 := by decide
  have hbegin : (quoted (codes "manifest_begin")).length = 16 := by decide
  have hkey : (quoted (codes "count")).length = 7 := by decide
  unfold Record.fits maxStreamRecordBytes
  rw [decide_eq_true_eq, length_line, Record.json, typeField, length_dumps_obj_two, length_dumps_nat, length_dumps_str,
    htype, hbegin, hkey]
  omega

end

end SeedSync.Remote
