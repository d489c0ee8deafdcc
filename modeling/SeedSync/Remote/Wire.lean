import SeedSync.Lib.Json
import SeedSync.Lib.Preorder
import SeedSync.System.Scanner

/-!
# The records that `scan_fs.py` writes

`_write_stream_manifest` and `_write_stream_root`: the bounded records of one streamed scan. What
`isoformat` writes of a timestamp is a parameter.
-/

namespace SeedSync.Remote

open Lib

inductive ScanError where
  /-- The `SystemScannerError` of a record that is too long. -/
  | recordExceeded
  | scan (failure : ScanFailure)
  deriving DecidableEq, Repr

def streamPrefix : List Char := "SEEDSYNC_SCAN_V2\t".toList

def maxStreamRecordBytes : Nat := 64 * 1024

mutual
/-- The tree of a scanned file, as a plain tree. -/
def fileTree : SystemFile → Rose FileAttrs
  | .mk attrs children => .node attrs (fileTrees children)

def fileTrees : List SystemFile → List (Rose FileAttrs)
  | [] => []
  | file :: files => fileTree file :: fileTrees files
end

section

variable (isoformat : Timestamp → String)

def optionalField (key : String) : Option Json → List (Codes × Json)
  | none => []
  | some value => [(codes key, value)]

def flagField (key : String) (flag : Bool) : List (Codes × Json) := if flag then [(codes key, .bool true)] else []

/-- `_stream_shallow_file_data` -/
def streamShallowFileData (file : FileAttrs) : List (Codes × Json) :=
  [(codes "name", .str (codes file.name)), (codes "size", .int file.size), (codes "is_dir", .bool file.isDir)] ++
    optionalField "time_created" (file.timestampCreated.map fun t => .str (codes (isoformat t))) ++
    optionalField "time_modified" (file.timestampModified.map fun t => .str (codes (isoformat t))) ++
    optionalField "mtime_ns" (file.mtimeNs.map .int) ++
    optionalField "path_pair_id" (file.pathPairId.map fun s => .str (codes s)) ++
    optionalField "path_pair_name" (file.pathPairName.map fun s => .str (codes s)) ++
    flagField "is_staging" file.isStaging ++ flagField "has_staging_collision" file.hasStagingCollision

/-- A record of the stream. -/
inductive Record where
  | manifestBegin (count : Nat)
  | manifestNames (names : List Codes)
  | manifestEnd
  | rootBegin (id : Nat) (name : Codes)
  | rootNodes (root : Nat) (nodes : List (Item FileAttrs))
  | rootEnd (id nodes : Nat)
  | rootUnchanged (name fingerprint : Codes)
  | complete
  deriving DecidableEq

def parentJson : Option Nat → Json
  | none => .null
  | some id => .int id

def nodeJson (node : Item FileAttrs) : Json :=
  .obj [(codes "id", .int node.id), (codes "parent", parentJson node.parent),
    (codes "file", .obj (streamShallowFileData isoformat node.value))]

def typeField (type : String) : Codes × Json := (codes "type", .str (codes type))

def Record.json : Record → Json
  | manifestBegin count => .obj [typeField "manifest_begin", (codes "count", .int count)]
  | manifestNames names => .obj [typeField "manifest_names", (codes "names", .list (names.map .str))]
  | manifestEnd => .obj [typeField "manifest_end"]
  | rootBegin id name => .obj [typeField "root_begin", (codes "id", .int id), (codes "name", .str name)]
  | rootNodes root nodes =>
    .obj [typeField "root_nodes", (codes "root", .int root), (codes "nodes", .list (nodes.map (nodeJson isoformat)))]
  | rootEnd id nodes => .obj [typeField "root_end", (codes "id", .int id), (codes "nodes", .int nodes)]
  | rootUnchanged name fingerprint =>
    .obj [typeField "root_unchanged", (codes "name", .str name), (codes "fingerprint", .str fingerprint)]
  | complete => .obj [typeField "complete"]

/-- `_encode_stream_record`, less its bound -/
def Record.line (record : Record) : List Char := streamPrefix ++ (record.json isoformat).dumps ++ ['\n']

/-- The line is ASCII, so that its characters are its bytes. -/
def Record.fits (record : Record) : Bool := decide ((record.line isoformat).length ≤ maxStreamRecordBytes)

/-! ## Writing -/

/-- A program that writes records, and may raise after some of them. -/
abbrev Write := ExceptT ScanError (StateM (List Record))

/-- `_write_stream_record` -/
def writeStreamRecord (record : Record) : Write Unit := do
  if record.fits isoformat then modify fun written => written ++ [record] else throw .recordExceeded

/-- One more item in a batch; a batch that it would make too large is written before. -/
def addToBatch {α : Type} (record : List α → Record) (batch : List α) (item : α) : Write (List α) := do
  if (record (batch ++ [item])).fits isoformat then return batch ++ [item]
  if batch.isEmpty then throw .recordExceeded
  writeStreamRecord isoformat (record batch)
  if (record [item]).fits isoformat then return [item] else throw .recordExceeded

/-- `_write_stream_manifest` -/
def writeStreamManifest (rootNames : List Codes) : Write Unit := do
  writeStreamRecord isoformat (.manifestBegin rootNames.length)
  let batch ← rootNames.foldlM (addToBatch isoformat .manifestNames) []
  if !batch.isEmpty then writeStreamRecord isoformat (.manifestNames batch)
  writeStreamRecord isoformat .manifestEnd

/-- `flush_node_batch` -/
def flushNodeBatch (rootId : Nat) (batch : List (Item FileAttrs)) : Write Unit := do
  if !batch.isEmpty then writeStreamRecord isoformat (.rootNodes rootId batch)

/-- One node of the loop over the pending nodes: the batch that is kept after it. -/
def writeNode (rootId nodeBatchSize : Nat) (batch : List (Item FileAttrs)) (node : Item FileAttrs) :
    Write (List (Item FileAttrs)) := do
  if nodeBatchSize ≤ batch.length then
    flushNodeBatch isoformat rootId batch
    addToBatch isoformat (.rootNodes rootId) [] node
  else addToBatch isoformat (.rootNodes rootId) batch node

/-- `while pending_nodes`, which returns the last batch and the next number. -/
def writeNodes (rootId nodeBatchSize : Nat) : Pending FileAttrs → Nat → List (Item FileAttrs) →
    Write (List (Item FileAttrs) × Nat)
  | [], nextNodeId, batch => pure (batch, nextNodeId)
  | (.node value children, parent) :: rest, nextNodeId, batch => do
    let batch ← writeNode isoformat rootId nodeBatchSize batch ⟨nextNodeId, parent, value⟩
    writeNodes rootId nodeBatchSize (Pending.push children nextNodeId rest) (nextNodeId + 1) batch
termination_by pending => Pending.count pending
decreasing_by
  rw [Pending.count_push]
  simp [Pending.count, Rose.count]

/-- `_write_stream_root` -/
def writeStreamRoot (rootId : Nat) (root : SystemFile) (nodeBatchSize : Nat) : Write Unit := do
  writeStreamRecord isoformat (.rootBegin rootId (codes root.name))
  let (batch, nodes) ← writeNodes isoformat rootId nodeBatchSize [(fileTree root, none)] 0 []
  flushNodeBatch isoformat rootId batch
  writeStreamRecord isoformat (.rootEnd rootId nodes)

/-- The roots one after the other. -/
def writeStreamRoots (nodeBatchSize : Nat) : Nat → List SystemFile → Write Unit
  | _, [] => pure ()
  | rootId, root :: roots => do
    writeStreamRoot isoformat rootId root nodeBatchSize
    writeStreamRoots nodeBatchSize (rootId + 1) roots

/-- A streamed scan of roots that are all there and new. -/
def writeStream (rootNames : List Codes) (roots : List SystemFile) (nodeBatchSize : Nat) : Write Unit := do
  writeStreamManifest isoformat rootNames
  writeStreamRoots isoformat nodeBatchSize 0 roots
  writeStreamRecord isoformat .complete

end

end SeedSync.Remote
