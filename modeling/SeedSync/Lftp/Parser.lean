import SeedSync.Lftp.Patterns

/-!
# The status parser

`LftpJobStatusParser.parse` of `lftp/job_status_parser.py`. What the source pops from the front of
its deque is here the number of lines that the loop passes over. Log lines are left out.
-/

namespace SeedSync.Lftp

open Lib Sidecar

variable (p : Patterns)

/-! ## Command echoes -/

/-- Where the quote that opened at the character before ends. -/
def closingQuote : Nat → Bool → Codes → Option Nat
  | _, _, [] => none
  | index, escaped, c :: rest =>
    if escaped then closingQuote (index + 1) false rest
    else if c = 92 then closingQuote (index + 1) true rest
    else if c = 34 then some index
    else closingQuote (index + 1) false rest

/-- `text.find("'")`, counted from `index` on -/
def findApostrophe : Nat → Codes → Option Nat
  | _, [] => none
  | index, c :: rest => if c = 39 then some index else findApostrophe (index + 1) rest

/-- `text.rfind("'")` -/
def rfindApostrophe : Nat → Codes → Option Nat
  | _, [] => none
  | index, c :: rest => (rfindApostrophe (index + 1) rest).or (if c = 39 then some index else none)

/-- The end of the span that opens here, if one does. -/
def spanEnd (line : Codes) (index : Nat) (previous : Option Nat) (c : Nat) (rest : Codes) : Option Nat :=
  if c = 34 then closingQuote (index + 1) false rest
  else if c = 96 then (rfindApostrophe 0 line).filter fun last => decide (index < last)
  else if c = 39 ∧ previous.all isSpace then findApostrophe (index + 1) rest
  else none

/-- The loop of `__quoted_spans`; the characters in front of `resume` lie in a span. -/
def spansFrom (line : Codes) : Nat → Nat → Option Nat → Codes → List (Nat × Nat)
  | _, _, _, [] => []
  | resume, index, previous, c :: rest =>
    if index < resume then spansFrom line resume (index + 1) (some c) rest
    else match spanEnd line index previous c rest with
      | some last => (index, last + 1) :: spansFrom line (last + 1) (index + 1) (some c) rest
      | none => spansFrom line resume (index + 1) (some c) rest

/-- `__quoted_spans` -/
def quotedSpans (line : Codes) : List (Nat × Nat) := spansFrom line 0 0 none line

/-- `__STATUS_COMMAND_ECHO_MARKER` -/
def marker : Codes := codes "jobs -v"

/-- Where the marker stands; no two of its places overlap. -/
def occurrences : Nat → Codes → List Nat
  | _, [] => []
  | index, c :: rest =>
    if marker.isPrefixOf (c :: rest) then index :: occurrences (index + 1) rest else occurrences (index + 1) rest

/-- `__has_status_command_echo` -/
def hasStatusCommandEcho (line : Codes) : Bool :=
  if !hasText marker line || line == marker then false
  else if !p.statusCommandEchoStructuredLine line then false
  else
    (occurrences 0 line).any fun start =>
      !(quotedSpans line).any (fun span => decide (span.1 ≤ start) && decide (start < span.2)) &&
        (p.statusCommandEchoToken line start ||
          ["\\mirror ", "\\chunk ", "\\transfer ", "`"].any fun lead => startsWith lead line)

/-! ## Mirrors with known options -/

/-- A word of a rendered command, with its place. -/
structure Word where
  text : Codes
  start : Nat
  stop : Nat
  deriving DecidableEq, Repr

/-- A word that is being read, the last character first. -/
structure OpenWord where
  start : Nat
  quote : Option Nat := none
  value : Codes := []

/-- `__split_rendered_command_words`, from a place on. -/
def splitWords (words : List Word) : Nat → Option OpenWord → Codes → Except Raised (List Word)
  | _, none, [] => .ok words
  | index, some word, [] =>
    if word.quote.isSome then .error (.knownOptions (codes "Unterminated quoted mirror argument"))
    else .ok (words ++ [⟨word.value.reverse, word.start, index⟩])
  | index, current, c :: rest =>
    match current with
    | none =>
      if isSpace c then splitWords words (index + 1) none rest
      else if c = 39 ∨ c = 34 then splitWords words (index + 1) (some { start := index, quote := some c }) rest
      else if c = 92 then match rest with
        | d :: rest => splitWords words (index + 2) (some { start := index, value := [d, c] }) rest
        | [] => splitWords words (index + 1) (some { start := index, value := [c] }) []
      else splitWords words (index + 1) (some { start := index, value := [c] }) rest
    | some word =>
      if word.quote = some c ∧ (c = 39 ∨ c = 34) then
        splitWords words (index + 1) (some { word with quote := none }) rest
      else if c = 92 then match rest with
        | d :: rest => splitWords words (index + 2) (some { word with value := d :: c :: word.value }) rest
        | [] => splitWords words (index + 1) (some { word with value := c :: word.value }) []
      else if word.quote = none ∧ isSpace c then
        splitWords (words ++ [⟨word.value.reverse, word.start, index⟩]) (index + 1) none rest
      else splitWords words (index + 1) (some { word with value := c :: word.value }) rest

/-- `known_options` -/
def isKnownOption (text : Codes) : Bool := text == codes "--exclude" || text == codes "--exclude-glob"

/-- The argument that was rendered with a trailing backslash, and stands for a path. -/
def isLegacyPath (candidate : Word) (following : List Word) : Bool :=
  hasText (codes "\\ ") candidate.text &&
    match following.take 2 with
    | [_] => true
    | [first, second] => first.text != codes "--" && second.text == codes "--"
    | _ => false

/-- The loop over the words: the positional paths, and the word that separates the progress. -/
def readPositionals (positionals : List Word) : List Word → Except Raised (List Word × Option Word)
  | [] => .ok (positionals, none)
  | word :: rest =>
    if positionals ≠ [] ∧ (word.text = codes "-c" ∨ isKnownOption word.text) then
      .error (.knownOptions (codes "Mirror options must precede positional paths"))
    else if word.text = codes "-c" then readPositionals positionals rest
    else if isKnownOption word.text then
      match rest with
      | [] => .error (.knownOptions (codes "Mirror option is missing its argument"))
      | candidate :: following =>
        if isLegacyPath candidate following then readPositionals (positionals ++ [candidate]) following
        else readPositionals positionals following
    else if word.text = codes "--" ∧ 2 ≤ positionals.length then .ok (positionals, some word)
    else if startsWith "-" word.text then
      if positionals ≠ [] then readPositionals (positionals ++ [word]) rest
      else .error (.knownOptions (codes "Unsupported mirror option in known-option status header"))
    else readPositionals (positionals ++ [word]) rest

/-- `" ".join(…)` of words, with the place of the first -/
def joinWords : List Word → Word
  | [] => ⟨[], 0, 0⟩
  | first :: rest => ⟨[32].intercalate ((first :: rest).map (·.text)), first.start, ((first :: rest).getLastD first).stop⟩

/-- The two paths, of which each begins at an absolute word if there are more than two. -/
def twoPaths (positionals : List Word) : Except Raised (Word × Word) :=
  if 2 < positionals.length then
    let starts := positionals.zipIdx.filterMap fun (word, offset) =>
      if startsWith "/" word.text then some offset else none
    if starts.length < 2 ∨ starts.head? ≠ some 0 then
      .error (.knownOptions (codes "Known-option mirror header has ambiguous positional paths"))
    else
      let localStart := starts.getLastD 0
      .ok (joinWords (positionals.take localStart), joinWords (positionals.drop localStart))
  else match positionals with
    | [remote, localPath] => .ok (remote, localPath)
    | _ => .error (.knownOptions (codes "Known-option mirror header is missing positional paths"))

/-- What `__parse_known_options_mirror_header` returns. -/
structure KnownHeader where
  id : Nat
  flags : Codes
  remote : Codes
  localPath : Codes
  progress : Option ProgressMatch

/-- `__parse_known_options_mirror_header` -/
def parseKnownOptionsMirrorHeader (prefixPattern : Codes → Option (Codes × Nat)) (line : Codes) :
    Except Raised (Option KnownHeader) :=
  match prefixPattern line with
  | none => .ok none
  | some (id, stop) =>
    let remainder := line.drop stop
    if !hasText (codes "--exclude") remainder then .ok none
    else do
      let words ← splitWords [] 0 none remainder
      if !words.any (fun word => isKnownOption word.text) then return none
      let (positionals, separator) ← readPositionals [] words
      let (remote, localPath) ← twoPaths positionals
      let progress ← match separator with
        | none => pure none
        | some word =>
          match p.mirrorProgressSuffix (line.drop (stop + word.stop)) with
          | none => throw (.knownOptions (codes "Malformed mirror progress suffix"))
          | some progress => pure (some progress)
      let id ← int p.py id
      return some ⟨id, strip (remainder.take remote.start), remote.text, localPath.text, progress⟩

/-! ## The queue -/

/-- The status of a row that an expression reads. -/
def queuedStatus (type : JobType) (m : PathsMatch) : Except Raised JobStatus := do
  let id ← int p.py m.id
  return newStatus id type .queued (baseName m.remote) m.flags m.remote m.localPath

def commandType (command : Codes) : JobType := if command = codes "get" then .get else .pget

/-- The status of a row of the queue; `none` for a row that is passed over. -/
def readRow (line : Codes) : Except Raised (Option JobStatus) :=
  if hasText marker line then .ok none
  else do
    match ← parseKnownOptionsMirrorHeader p p.mirrorQueueHeaderPrefix line with
    | some header =>
      return some (newStatus header.id .mirror .queued (baseName header.remote) header.flags header.remote
        header.localPath)
    | none =>
      match p.queuePget line, p.queueMirror line with
      | some m, _ => some <$> queuedStatus p (commandType m.command) m.toPathsMatch
      | none, some m => some <$> queuedStatus p .mirror m
      | none, none => return none

/-- A line that ends the lines of a row that was passed over. -/
def endsSkipped (line : Codes) : Bool :=
  isNumbered p.py line || isCd line || isBracketed p.py line || p.queueDone line

/-- The loop over the queued commands, and the lines that it leaves. In the lines of a row that was
passed over it is `skipping`. -/
def queueLoop : Bool → List Codes → Except Raised (List JobStatus × List Codes)
  | _, [] => .ok ([], [])
  | skipping, line :: rest =>
    if skipping && !endsSkipped p line then queueLoop true rest
    else if isNumbered p.py line then do
      match ← readRow p line with
      | none => queueLoop true rest
      | some status =>
        let (queue, lines) ← queueLoop false rest
        return (status :: queue, lines)
    else if isCd line then queueLoop false rest
    else .ok ([], line :: rest)

/-- The lines after those of the jobs that are executed now. -/
def dropExecuting (status : Codes) (lines : List Codes) : List Codes :=
  if isStopped status then lines
  else if startsWith "Now executing:" status then lines.dropWhile (isExecuting p.py)
  else lines

def dropDone : List Codes → List Codes
  | [] => []
  | line :: rest => if p.queueDone line then rest else line :: rest

/-- `__parse_queue`, and the lines that it leaves -/
def parseQueue : List Codes → Except Raised (List JobStatus × List Codes)
  | [] => .ok ([], [])
  | [line] =>
    if p.queueDone line then .ok ([], [])
    else .error (.valueError (codes "Unrecognized line '" ++ line ++ codes "'"))
  | first :: second :: rest =>
    if !p.header1 first then .error (.valueError (codes "Missing queue header line 1: " ++ first))
    else if !p.header2 second then .error (.valueError (codes "Missing queue header line 2: " ++ second))
    else match rest with
      | [] => .error (.valueError (codes "Missing queue status"))
      | status :: rest =>
        match dropExecuting p status rest with
        | [] => .ok ([], [])
        | line :: rest =>
          if startsWith "Commands queued:" line then
            match rest with
            | [] => .error (.valueError (codes "Missing queued commands"))
            | _ => do
              let (queue, lines) ← queueLoop p false rest
              return (queue, dropDone p lines)
          else .ok ([], dropDone p (line :: rest))

/-! ## The jobs -/

/-- A group that took part in the match and is not empty. -/
def present (group : Option Codes) : Option Codes := group.filter fun text => decide (text ≠ [])

/-- One group of a time, without its unit. -/
def timePart (group : Option Codes) (zero : String) : Except Raised Nat :=
  int p.py ((present group).getD (codes zero)).dropLast

/-- `_eta_to_seconds` -/
def etaToSeconds (eta : Codes) : Except Raised Nat :=
  match p.timeUnits eta with
  | none => .error (.valueError (codes "String '" ++ eta ++ codes "' does not match the eta pattern"))
  | some m => do
    let days ← timePart p m.days "0d"
    let hours ← timePart p m.hours "0h"
    let minutes ← timePart p m.minutes "0m"
    let seconds ← timePart p m.seconds "0s"
    return days * 24 * 3600 + hours * 3600 + minutes * 60 + seconds

/-- The speed and the time that a data line has. -/
def readRates (speed eta : Option Codes) : Except Raised (Option Int × Option Int) := do
  let speed ← (present speed).mapM p.sizeToBytes
  let eta ← (present eta).mapM (etaToSeconds p)
  return (speed.map Int.ofNat, eta.map Int.ofNat)

def atTransferState (m : ChunkAtMatch) : Except Raised TransferState := do
  let (speed, eta) ← readRates p m.speed m.eta
  return { speed, eta }

def gotTransferState (m : ChunkGotMatch) : Except Raised TransferState := do
  let sizeLocal ← int p.py m.szlocal
  let sizeRemote ← int p.py m.szremote
  let percentLocal ← int p.py m.pctlocal
  let (speed, eta) ← readRates p m.speed m.eta
  return { sizeLocal := some sizeLocal, sizeRemote := some sizeRemote, percentLocal := some percentLocal, speed, eta }

def progressTransferState (m : ProgressMatch) : Except Raised TransferState := do
  let sizeLocal ← p.mirrorSizeToBytes m.szlocal
  let sizeRemote ← p.mirrorSizeToBytes m.szremote
  let percentLocal ← int p.py m.pctlocal
  let speed ← (present m.speed).mapM p.sizeToBytes
  return { sizeLocal := some sizeLocal, sizeRemote := some sizeRemote, percentLocal := some percentLocal
           speed := speed.map Int.ofNat }

def mismatch (name other : Codes) : Raised :=
  .valueError (codes "Mismatch: filename '" ++ name ++ codes "' but chunk data for '" ++ other ++ codes "'")

def pgetMismatch (remote name : Codes) : Raised :=
  .valueError (codes "Mismatch between pget names '" ++ remote ++ codes "' vs '" ++ name ++ codes "'")

/-- What the data line of a `pget` says of it. -/
def readPgetData (m : PgetMatch) (status : JobStatus) (data : Codes) : Except Raised JobStatus :=
  match p.chunkAt data, p.chunkAt2 data, p.chunkGot data with
  | some at_, _, _ => do
    if m.remote ≠ at_.name then throw (pgetMismatch m.remote at_.name)
    return status.withTransfer .atPosition (← atTransferState p at_)
  | none, some name, _ => do
    if m.remote ≠ name then throw (pgetMismatch m.remote name)
    return status.withTransfer .atPosition {}
  | none, none, some got => do
    if baseName got.name ≠ status.name then throw (mismatch status.name (baseName got.name))
    return status.withTransfer .got (← gotTransferState p got)
  | none, none, none => return status.withTransfer .none {}

/-- A line that is a data line of a chunk. -/
def isChunkData (line : Codes) : Bool := (p.chunkAt line).isSome || (p.chunkAt2 line).isSome || (p.chunkGot line).isSome

/-- A `pget` header: its status, and the number of lines it takes after it. -/
def readPget (m : PgetMatch) (line : Codes) (rest : List Codes) : Except Raised (JobStatus × Nat) :=
  match rest with
  | [] => .error (.valueError (codes "Missing the 'sftp' line for pget header '" ++ line ++ codes "'"))
  | sftp :: rest =>
    if !hasText (codes "sftp") sftp then
      .error (.valueError (codes "Missing the 'sftp' line for pget header '" ++ line ++ codes "'"))
    else do
      let id ← int p.py m.id
      let status := newStatus id (commandType m.command) .running (baseName m.remote) m.flags m.remote m.localPath
      match rest.head?.filter (isChunkData p) with
      | some data => return (← readPgetData p m status data, 2)
      | none => return (status.withTransfer .none {}, 1)

/-- A mirror header with known options. -/
def readKnown (header : KnownHeader) : Except Raised JobStatus := do
  let status := newStatus header.id .mirror .running (baseName header.remote) header.flags header.remote header.localPath
  match header.progress with
  | some progress => return status.withTransfer .got (← progressTransferState p progress)
  | none => return status.withTransfer .none {}

/-- A mirror header with its progress. -/
def readMirror (m : MirrorMatch) : Except Raised JobStatus := do
  let id ← int p.py m.id
  return (newStatus id .mirror .running (baseName m.remote) m.flags m.remote m.localPath).withTransfer .got
    (← progressTransferState p m.progress)

/-- A mirror header of a job that connects or lists. -/
def readMirrorFl (m : PathsMatch) : Except Raised JobStatus := do
  let id ← int p.py m.id
  return (newStatus id .mirror .running (baseName m.remote) m.flags m.remote m.localPath).withTransfer .none {}

/-- `prev_job.add_active_file_transfer_state(name, …)`; the newest job stands first. -/
def addActiveFile (jobs : List JobStatus) (name : Codes) (transferState : TransferState) : Except Raised (List JobStatus) :=
  match jobs with
  | [] => .error .assertionError
  | job :: jobs => .ok ({ job with activeFilesState := job.activeFilesState.set name transferState } :: jobs)

/-- A `\transfer` line and its chunk data. -/
def readTransfer (jobs : List JobStatus) (name data : Codes) : Except Raised (List JobStatus) :=
  if jobs.isEmpty then .error .assertionError
  else
    match p.chunkAt data, p.chunkAt2 data, p.chunkGot data with
    | some at_, _, _ => do
      if at_.name ≠ baseName name then throw (mismatch name at_.name)
      addActiveFile jobs name (← atTransferState p at_)
    | none, some chunk, _ => do
      if chunk ≠ baseName name then throw (mismatch name chunk)
      addActiveFile jobs name {}
    | none, none, some got => do
      if got.name ≠ baseName name then throw (mismatch name got.name)
      addActiveFile jobs name (← gotTransferState p got)
    | none, none, none => throw (.valueError (codes "Missing chunk data for filename '" ++ name ++ codes "'"))

/-- A line that may follow a `\mirror` line without progress. -/
def followsMirror (name line : Codes) : Bool :=
  hasText (codes "Getting file list") line || startsWith "cd " line || line == name ++ codes ":" || startsWith "mkdir " line

def isListing (line : Codes) : Bool := startsWith "Getting file list" line || startsWith "cd " line

/-- The lines after a `chmod` line that belong to it. -/
def readChmod (name : Codes) (rest : List Codes) : Except Raised Nat :=
  match rest with
  | [] => .error (.valueError (codes "Missing 'file:' line for chmod '" ++ name ++ codes "'"))
  | file :: rest =>
    if !startsWith "file:" file then .error (.valueError (codes "Missing 'file:' line for chmod '" ++ name ++ codes "'"))
    else match rest.head?.bind p.chmod with
      | some nameChmod =>
        if name ≠ nameChmod then .error (.valueError (codes "Mismatch in names chmod '" ++ name ++ codes "'"))
        else .ok 2
      | none => .ok 1

/-- `__is_wrong_type_failure_line` -/
def isWrongTypeFailureLine (line : Codes) : Bool :=
  ["get: Access failed: Wrong type", "pget: Access failed: Wrong type", "pget-chunk: Access failed: Wrong type",
    "mirror: Access failed: Wrong type"].any fun start => startsWith start (line.dropWhile isSpace)

def isOrphan (line : Codes) : Bool := p.orphanProgress line || p.partialProgress line || p.chunkWrap line

/-- A line that is no header: the jobs after it, and the number of lines it takes after it. -/
def readDetail (jobs : List JobStatus) (line : Codes) (rest : List Codes) : Except Raised (List JobStatus × Nat) :=
  match p.filename line with
  | some name =>
    match rest.head?.filter (startsWith "`") with
    | some data => do return (← readTransfer p jobs name data, 1)
    | none => .ok (jobs, 0)
  | none =>
    if p.mirror line then .ok (jobs, 0)
    else match p.mirrorEmpty line with
    | some name => .ok (jobs, if rest.head?.any (followsMirror name) then 1 else 0)
    | none =>
      if !jobs.isEmpty && isListing line then .ok (jobs, 0)
      else if p.chunkHeader line then .ok (jobs, if rest.head?.any (startsWith "`") then 1 else 0)
      else match p.chmodHeader line with
      | some name => do return (jobs, ← readChmod p name rest)
      | none =>
        if p.queueDone line then
          if rest ≠ [] then .error (.valueError (codes "There are more lines after the 'Done' line"))
          else .ok (jobs, 0)
        else if !jobs.isEmpty || isOrphan p line then .ok (jobs, 0)
        else .error (.valueError (codes "Unable to parse line '" ++ line ++ codes "'"))

/-- One turn of the loop of `__parse_jobs`; the newest job stands first. -/
def jobStep (jobs : List JobStatus) (line : Codes) (rest : List Codes) : Except Raised (List JobStatus × Nat) := do
  let known ← parseKnownOptionsMirrorHeader p p.mirrorHeaderPrefix line
  if isWrongTypeFailureLine line || startsWith "mirror: Access failed:" line then return (jobs, 0)
  else if jobs.isEmpty && (p.pgetHeader line).isNone && known.isNone && (p.mirrorHeader line).isNone &&
      (p.mirrorFlHeader line).isNone then
    if isOrphan p line then return (jobs, 0)
    else throw (.valueError (codes "First line is not a matching header '" ++ line ++ codes "'"))
  else match p.pgetHeader line, known, p.mirrorHeader line, p.mirrorFlHeader line with
    | some m, _, _, _ =>
      let (status, taken) ← readPget p m line rest
      return (status :: jobs, taken)
    | none, some header, _, _ => return ((← readKnown p header) :: jobs, 0)
    | none, none, some m, _ => return ((← readMirror p m) :: jobs, 0)
    | none, none, none, some m =>
      return ((← readMirrorFl p m) :: jobs, if rest.head?.any isListing then 1 else 0)
    | none, none, none, none => readDetail p jobs line rest

/-- The loop, which still has to pass over `taken` lines. -/
def jobLoop : List JobStatus → Nat → List Codes → Except Raised (List JobStatus)
  | jobs, _, [] => .ok jobs.reverse
  | jobs, taken + 1, _ :: rest => jobLoop jobs taken rest
  | jobs, 0, line :: rest => do
    let (jobs, taken) ← jobStep p jobs line rest
    jobLoop jobs taken rest

/-- `__parse_jobs` -/
def parseJobs (lines : List Codes) : Except Raised (List JobStatus) := jobLoop p [] 0 lines

/-! ## The snapshot -/

/-- `last_parse_outcome` after an attempt -/
inductive ParseOutcome where
  | completeSuccess | blankEmpty | partialQueue | hardError
  deriving DecidableEq, Repr

/-- The lines with text, without the lines that a terminal puts in. -/
def outputLines (output : Codes) : List Codes :=
  (((splitlines output).map strip).filter fun line => line ≠ []).filter fun line =>
    line ≠ 27 :: codes "[?2004h" ∧ line ≠ 27 :: codes "[?2004l"

/-- The lines after the status command. -/
def afterMarker (lines : List Codes) : List Codes := if marker ∈ lines then (lines.dropWhile (· ≠ marker)).tail else lines

/-- The lines that are read as the queue and the jobs. -/
def snapshotLines (output : Codes) : List Codes :=
  ((afterMarker (outputLines output)).filter fun line => line ≠ marker).filter fun line => !p.logLine line

/-- The echoes that make the output no snapshot. -/
def checkEchoes (lines : List Codes) : Except Raised Unit :=
  if lines.any p.statusCommandEchoBracketedLine then
    .error (.parserError (codes "Lftp status output contained a bracketed status command echo"))
  else if (lines.takeWhile (· ≠ marker)).any p.queueCommandEcho then
    .error (.parserError (codes "Lftp status output contained a queue command echo before the snapshot"))
  else if (afterMarker lines).any p.queueCommandEcho then
    .error (.parserError (codes "Lftp status output contained a queue command echo instead of a complete snapshot"))
  else if (afterMarker lines).any (hasStatusCommandEcho p) then
    .error (.parserError (codes "Lftp status command echo was interleaved with transfer progress"))
  else .ok ()

/-- `__parse` -/
def parseOutput (output : Codes) : Except Raised (List JobStatus × ParseOutcome) := do
  checkEchoes p (outputLines output)
  let lines := snapshotLines p output
  match parseQueue p lines with
  | .error (.knownOptions _) => throw (.parserError (codes "Lftp status output had incomplete queue membership"))
  | .error e => if e.isValueError then return ([], .partialQueue) else throw e
  | .ok (queue, rest) =>
    match parseJobs p rest with
    | .error e =>
      if e.isValueError then throw (.parserError (codes "Lftp status output had incomplete job membership")) else throw e
    | .ok jobs =>
      let statuses := queue ++ jobs
      if lines.any isWrongTypeFailureLine && !statuses.isEmpty && !statuses.any (fun status => status.state = .running) then
        return ([], .hardError)
      return (statuses, if statuses.isEmpty then .blankEmpty else .completeSuccess)

/-- `parse`, and the outcome that it leaves -/
def parse (output : Codes) : Except Raised (List JobStatus) × ParseOutcome :=
  match parseOutput p output with
  | .ok (statuses, outcome) => (.ok statuses, outcome)
  | .error e => (.error e, .hardError)

end SeedSync.Lftp
