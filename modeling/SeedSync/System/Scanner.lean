import Mathlib.Data.List.Sort
import SeedSync.Lib.Utf8
import SeedSync.System.File

/-!
# The scanner of a directory

`SystemScanner` of `system/scanner.py` and of `scan_fs.py`, on a directory whose content stays as
it is and may be read. Of a status file only the size matters that it stands for.
-/

namespace SeedSync

open Lib

/-! ## The disk -/

/-- What `os.stat` returns; `modified` is none where `datetime.fromtimestamp` raises. -/
structure Stat where
  size : Nat
  created : Option Timestamp := none
  modified : Option Timestamp
  mtimeNs : Option Int := none
  deriving DecidableEq, Repr

/-- A file, which is regular or not; `status` is the size it stands for as a status file. -/
structure DiskFile where
  stat : Stat
  regular : Bool := true
  status : Option Nat := none
  deriving DecidableEq, Repr

/-- Where a symbolic link leads. -/
inductive Target where
  | file (file : DiskFile)
  | dir (stat : Stat)
  | missing
  /-- A loop, or a path through a file: `os.stat` raises an `OSError`. -/
  | broken
  deriving DecidableEq, Repr

/-- An entry of a directory. Its name is a Python string, where bytes that are no UTF-8 stand as
lone surrogates. -/
inductive Entry where
  | file (name : Codes) (file : DiskFile)
  | dir (name : Codes) (stat : Stat) (entries : List Entry)
  | link (name : Codes) (target : Target)

namespace Entry

def name : Entry → Codes
  | file name _ => name
  | dir name _ _ => name
  | link name _ => name

/-- `entry.is_symlink() and entry.is_dir()` -/
def isLinkedDir : Entry → Bool
  | link _ (.dir _) => true
  | _ => false

/-- `entry.is_dir()` raises. -/
def isBroken : Entry → Bool
  | link _ .broken => true
  | _ => false

/-- `os.path.exists` -/
def exists' : Entry → Bool
  | link _ .missing => false
  | link _ .broken => false
  | _ => true

/-- The file that `os.path.isfile` finds. -/
def regularFile : Entry → Option DiskFile
  | file _ f => if f.regular then some f else none
  | link _ (.file f) => if f.regular then some f else none
  | _ => none

end Entry

/-! ## Files -/

inductive ScanFailure where
  /-- `SystemScannerError`: the path is no directory. -/
  | notADirectory
  | osError
  /-- `datetime.fromtimestamp` raises. -/
  | badTime
  deriving DecidableEq, Repr

structure Scanner where
  excludePrefixes : List Codes := []
  useTempFile : Bool := false

def lftpStatusFileSuffix : Codes := codes ".lftp-pget-status"

def lftpTempFileSuffix : Codes := codes ".lftp"

/-- `__excluded`; no suffix but that of status files is ever added. -/
def Scanner.excluded (scanner : Scanner) (name : Codes) : Bool :=
  scanner.excludePrefixes.any (fun start => start.isPrefixOf name) || lftpStatusFileSuffix.isSuffixOf name

/-- `name[:-len(suffix)]` for a name that ends in the suffix of temporary files and is more than it. -/
def stripTempSuffix (name : Codes) : Codes :=
  if name ≠ lftpTempFileSuffix ∧ lftpTempFileSuffix <:+ name then name.take (name.length - lftpTempFileSuffix.length)
  else name

def Scanner.strip (scanner : Scanner) (name : Codes) : Codes :=
  if scanner.useTempFile then stripTempSuffix name else name

/-- The name of a file, less the suffix of temporary files. -/
def Scanner.fileName (scanner : Scanner) (name : Codes) : String :=
  String.ofList ((scanner.strip (codes (normalizeName name))).map Char.ofNat)

/-- The size that the status file beside a file gives. -/
def parsedSize (siblings : List Entry) (name : Codes) : Option Nat :=
  match siblings.find? fun entry => entry.name = name ++ lftpStatusFileSuffix with
  | some entry => entry.regularFile.bind DiskFile.status
  | none => none

/-- `__create_system_file` for what is no directory: `name` is that of the entry, `onDisk` that of
its path. -/
def Scanner.createFile (scanner : Scanner) (siblings : List Entry) (name onDisk : Codes) (stat : Stat) :
    Except ScanFailure SystemFile :=
  let parsed := parsedSize siblings onDisk
  let size := match parsed with
    | some size => size
    | none => if scanner.useTempFile && lftpTempFileSuffix.isSuffixOf onDisk then 0 else stat.size
  match stat.modified with
  | none => .error .badTime
  | some modified => .ok (.mk {
      name := scanner.fileName name, size, timestampCreated := stat.created, timestampModified := some modified
      mtimeNs := stat.mtimeNs, statusSidecarReady := parsed.isSome } [])

def nameLe (a b : SystemFile) : Prop := codes a.name ≤ codes b.name

instance : DecidableRel nameLe := fun a b => inferInstanceAs (Decidable (codes a.name ≤ codes b.name))

/-- `children.sort(key=lambda fl: fl.name)` -/
def sortByName (files : List SystemFile) : List SystemFile := files.insertionSort nameLe

/-- `__create_system_file` for a directory whose children were created. -/
def createDirectory (name : Codes) (stat : Stat) (children : List SystemFile) : Except ScanFailure SystemFile :=
  match stat.modified with
  | none => .error .badTime
  | some modified => .ok (.mk {
      name := normalizeName name, size := (children.map SystemFile.size).sum, isDir := true
      timestampCreated := stat.created, timestampModified := some modified, mtimeNs := stat.mtimeNs } children)

mutual
/-- `__create_system_file`, with none for a `FileNotFoundError`. -/
def Scanner.createSystemFile (scanner : Scanner) (siblings : List Entry) (name : Codes) :
    Entry → Except ScanFailure (Option SystemFile)
  | .dir _ stat entries => do
    let children ← scanner.createChildren entries entries
    return some (← createDirectory name stat (sortByName children))
  | .file onDisk file => do return some (← scanner.createFile siblings name onDisk file.stat)
  | .link onDisk (.file file) => do return some (← scanner.createFile siblings name onDisk file.stat)
  | .link onDisk (.dir stat) => do return some (← scanner.createFile siblings name onDisk stat)
  | .link _ .missing => .ok none
  | .link _ .broken => .error .osError

/-- The loop of `__create_children`, in the order in which `os.scandir` lists the entries. -/
def Scanner.createChildren (scanner : Scanner) (siblings : List Entry) : List Entry → Except ScanFailure (List SystemFile)
  | [] => .ok []
  | entry :: entries => do
    if entry.isBroken then throw .osError
    if entry.isLinkedDir || scanner.excluded entry.name then scanner.createChildren siblings entries
    else
      let child ← scanner.createSystemFile siblings entry.name entry
      let children ← scanner.createChildren siblings entries
      return child.toList ++ children
end

/-! ## A whole directory -/

/-- `scan`; none is a path that is no directory. -/
def Scanner.scan (scanner : Scanner) : Option (List Entry) → Except ScanFailure (List SystemFile)
  | none => .error .notADirectory
  | some entries => do return sortByName (← scanner.createChildren entries entries)

/-- The entries whose names are those of roots. -/
def Scanner.listed (scanner : Scanner) (entries : List Entry) : List Entry :=
  entries.filter fun entry => !entry.isLinkedDir && !scanner.excluded entry.name

/-- `sorted(names)` of a set -/
def sortNames (names : List Codes) : List Codes := names.dedup.insertionSort (· ≤ ·)

/-- `root_names` -/
def Scanner.rootNames (scanner : Scanner) : Option (List Entry) → Except ScanFailure (List Codes)
  | none => .error .notADirectory
  | some entries =>
    if entries.any Entry.isBroken then .error .osError
    else .ok (sortNames ((scanner.listed entries).map fun entry => scanner.strip entry.name))

/-- The entry that `scan_single_if_present` scans under a name. -/
def Scanner.present (scanner : Scanner) (entries : List Entry) (name : Codes) : Option Entry :=
  let temp := if scanner.useTempFile then
      (entries.find? fun entry => entry.name = name ++ lftpTempFileSuffix).filter fun entry => entry.regularFile.isSome
    else none
  ((entries.find? fun entry => entry.name = name).filter Entry.exists').or temp

/-- `scan_single_if_present` -/
def Scanner.scanSingleIfPresent (scanner : Scanner) (entries : List Entry) (name : Codes) :
    Except ScanFailure (Option SystemFile) :=
  match scanner.present entries name with
  | some entry => scanner.createSystemFile entries name entry
  | none => .ok none

end SeedSync
