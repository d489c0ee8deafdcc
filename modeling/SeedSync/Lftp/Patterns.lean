import SeedSync.Lib.Dict
import SeedSync.Lib.Text
import SeedSync.Model.File
import SeedSync.System.Sidecar

/-!
# What the status parser reads with

The regular expressions of `LftpJobStatusParser` (`lftp/job_status_parser.py`) are given matchers:
each is a function from a line to the groups that are read of it, with the few facts that its text
shows at once. The two prefixes that a row and a job line begin with are spelled out. The sizes
are given too, as they are computed with floats.
-/

namespace SeedSync.Lftp

open Lib Sidecar

/-! ## Texts -/

/-- `needle in text` -/
def hasText (needle text : Codes) : Bool := text.tails.any fun rest => needle.isPrefixOf rest

/-- `text.startswith(start)` -/
def startsWith (start : String) (text : Codes) : Bool := (codes start).isPrefixOf text

/-- One component in `os.path.normpath`. -/
def normStep (absolute : Bool) (kept : List Codes) (component : Codes) : List Codes :=
  if component = [] ∨ component = [46] then kept
  else if component ≠ [46, 46] ∨ (absolute = false ∧ kept = []) ∨ kept.getLast? = some [46, 46] then kept ++ [component]
  else kept.dropLast

/-- `os.path.basename(os.path.normpath(path))` -/
def baseName (path : Codes) : Codes :=
  let absolute := path.head? == some 47
  match ((path.splitOn 47).foldl (normStep absolute) []).getLast? with
  | some component => component
  | none => if absolute then [] else [46]

/-! ## Errors -/

/-- What the parser raises. -/
inductive Raised where
  /-- `_LftpKnownOptionsMirrorHeaderError`, a `ValueError` -/
  | knownOptions (message : Codes)
  | valueError (message : Codes)
  /-- The `ValueError` of `int`. -/
  | intError
  /-- `LftpJobStatusParserError` -/
  | parserError (message : Codes)
  | assertionError
  /-- What a size raises that is too great for an integer. -/
  | overflowError
  deriving DecidableEq, Repr

def Raised.isValueError : Raised → Bool
  | knownOptions _ | valueError _ | intError => true
  | parserError _ | assertionError | overflowError => false

/-! ## Statuses -/

inductive RecordShape where
  | none | atPosition | got
  deriving DecidableEq, Repr

/-- `record_field_presence` -/
structure FieldPresence where
  bytes : Bool := false
  percent : Bool := false
  speed : Bool := false
  eta : Bool := false
  deriving DecidableEq, Repr

/-- `LftpJobStatus` as the parser makes it, before it is bound to a path pair. -/
structure JobStatus where
  id : Nat
  type : JobType
  state : JobState
  name : Codes
  flags : Codes
  remotePath : Codes
  localPath : Codes
  totalTransferState : TransferState := {}
  activeFilesState : Dict Codes TransferState := {}
  recordShape : RecordShape := .none
  recordFieldPresence : FieldPresence := {}

/-- `LftpJobStatus(…)` -/
def newStatus (id : Nat) (type : JobType) (state : JobState) (name flags remotePath localPath : Codes) : JobStatus where
  id := id
  type := type
  state := state
  name := name
  flags := flags
  remotePath := strip remotePath
  localPath := strip localPath

/-- `__set_record_provenance` and `total_transfer_state` of a running job -/
def JobStatus.withTransfer (status : JobStatus) (shape : RecordShape) (transferState : TransferState) : JobStatus :=
  { status with
    totalTransferState := transferState
    recordShape := shape
    recordFieldPresence :=
      { bytes := shape == .got && transferState.sizeLocal.isSome
        percent := shape == .got && transferState.percentLocal.isSome
        speed := transferState.speed.isSome
        eta := transferState.eta.isSome } }

/-! ## Prefixes -/

section

variable (py : Decimals)

/-- `^\[(\d+)\]`, with what follows. -/
def matchBracket : Codes → Option (Codes × Codes)
  | 91 :: rest =>
    match rest.dropWhile (isDigit py) with
    | 93 :: tail => if rest.takeWhile (isDigit py) = [] then none else some (rest.takeWhile (isDigit py), tail)
    | _ => none
  | _ => none

/-- `^(\d+)\.`, with what follows. -/
def matchNumber (line : Codes) : Option (Codes × Codes) :=
  match line.dropWhile (isDigit py) with
  | 46 :: tail => if line.takeWhile (isDigit py) = [] then none else some (line.takeWhile (isDigit py), tail)
  | _ => none

/-- `re.match(r"^\[\d+\]", line)` -/
def isBracketed (line : Codes) : Bool := (matchBracket py line).isSome

/-- `re.match(r"^\d+\.", line)` -/
def isNumbered (line : Codes) : Bool := (matchNumber py line).isSome

/-- `re.match(r"^-\[\d+\]", line)` -/
def isExecuting : Codes → Bool
  | 45 :: rest => isBracketed py rest
  | _ => false

/-- `int(text)` of a group of digits, which may be empty -/
def int (text : Codes) : Except Raised Nat :=
  if text = [] then .error .intError
  else match parseDecimal py text with
    | some value => .ok value
    | none => .error .intError

end

/-- `re.match(r"^cd\s.*$", line)`; a line has no line break. -/
def isCd : Codes → Bool
  | 99 :: 100 :: blank :: _ => isSpace blank
  | _ => false

/-- `re.match("Queue is stopped.", line)`: any character may follow. -/
def isStopped (line : Codes) : Bool :=
  startsWith "Queue is stopped" line && decide ((codes "Queue is stopped").length < line.length)

/-! ## Groups -/

/-- A header with the paths of a transfer. -/
structure PathsMatch where
  id : Codes
  flags : Codes
  remote : Codes
  localPath : Codes

structure PgetMatch extends PathsMatch where
  command : Codes

/-- The progress of a mirror. -/
structure ProgressMatch where
  szlocal : Codes
  szremote : Codes
  pctlocal : Codes
  speed : Option Codes

structure MirrorMatch extends PathsMatch where
  progress : ProgressMatch

/-- The data line of a chunk with its position. -/
structure ChunkAtMatch where
  name : Codes
  speed : Option Codes
  eta : Option Codes

/-- The data line of a chunk with its bytes. -/
structure ChunkGotMatch where
  name : Codes
  szlocal : Codes
  szremote : Codes
  pctlocal : Codes
  speed : Option Codes
  eta : Option Codes

structure TimeMatch where
  days : Option Codes
  hours : Option Codes
  minutes : Option Codes
  seconds : Option Codes

/-- The expressions, under their names in the source. -/
structure Patterns where
  py : Decimals
  queueCommandEcho : Codes → Bool
  statusCommandEchoBracketedLine : Codes → Bool
  statusCommandEchoStructuredLine : Codes → Bool
  /-- A match at a position of the line. -/
  statusCommandEchoToken : Codes → Nat → Bool
  /-- The id and where the match ends, as in the next. -/
  mirrorHeaderPrefix : Codes → Option (Codes × Nat)
  mirrorQueueHeaderPrefix : Codes → Option (Codes × Nat)
  mirrorProgressSuffix : Codes → Option ProgressMatch
  logLine : Codes → Bool
  header1 : Codes → Bool
  header2 : Codes → Bool
  queueDone : Codes → Bool
  queuePget : Codes → Option PgetMatch
  queueMirror : Codes → Option PathsMatch
  pgetHeader : Codes → Option PgetMatch
  mirrorHeader : Codes → Option MirrorMatch
  mirrorFlHeader : Codes → Option PathsMatch
  filename : Codes → Option Codes
  chunkAt : Codes → Option ChunkAtMatch
  /-- The name alone, as in the next. -/
  chunkAt2 : Codes → Option Codes
  chunkGot : Codes → Option ChunkGotMatch
  chunkHeader : Codes → Bool
  chmodHeader : Codes → Option Codes
  chmod : Codes → Option Codes
  mirror : Codes → Bool
  mirrorEmpty : Codes → Option Codes
  orphanProgress : Codes → Bool
  partialProgress : Codes → Bool
  chunkWrap : Codes → Bool
  timeUnits : Codes → Option TimeMatch
  /-- `_size_to_bytes` -/
  sizeToBytes : Codes → Except Raised Nat
  /-- `_mirror_size_to_bytes` -/
  mirrorSizeToBytes : Codes → Except Raised Nat
  -- Each header begins with its id.
  queuePget_id : ∀ line m, queuePget line = some m → (matchNumber py line).map Prod.fst = some m.id
  queueMirror_id : ∀ line m, queueMirror line = some m → (matchNumber py line).map Prod.fst = some m.id
  mirrorQueueHeaderPrefix_id : ∀ line m, mirrorQueueHeaderPrefix line = some m →
    (matchNumber py line).map Prod.fst = some m.1
  pgetHeader_id : ∀ line m, pgetHeader line = some m → (matchBracket py line).map Prod.fst = some m.id
  mirrorHeader_id : ∀ line m, mirrorHeader line = some m → (matchBracket py line).map Prod.fst = some m.id
  mirrorFlHeader_id : ∀ line m, mirrorFlHeader line = some m → (matchBracket py line).map Prod.fst = some m.id
  mirrorHeaderPrefix_id : ∀ line m, mirrorHeaderPrefix line = some m →
    (matchBracket py line).map Prod.fst = some m.1
  -- Each data line of a chunk begins with a quoted name.
  chunkAt_quoted : ∀ line, (chunkAt line).isSome → line.head? = some 96
  chunkAt2_quoted : ∀ line, (chunkAt2 line).isSome → line.head? = some 96
  chunkGot_quoted : ∀ line, (chunkGot line).isSome → line.head? = some 96
  -- After the id, a `Done` line has another word than a header.
  queueDone_other : ∀ line, queueDone line = true → pgetHeader line = none ∧ mirrorHeader line = none ∧
    mirrorFlHeader line = none ∧ mirrorHeaderPrefix line = none ∧ isBracketed py line = true

end SeedSync.Lftp
