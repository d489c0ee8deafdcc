import Mathlib.Data.List.DropRight
import SeedSync.Lib.Lines
import SeedSync.Lib.Utf8
import SeedSync.Remote.Decoder

/-!
# The consumer of a scan stream

The streaming part of `RemoteScanner.__scan`: bytes come in chunks, are classified, decoded as
UTF-8 and cut into lines, and what the decoder has collected becomes the scan when the transport
returns. A helper of an older version answers with one JSON list instead.
-/

namespace SeedSync.Remote

open Lib

/-! ## Lines -/

def isNewline (byte : UInt8) : Bool := byte == 10

/-- `line.rstrip("\r")` -/
def stripCarriageReturns (line : List Char) : List Char := line.rdropWhile (· == '\r')

/-! ## The protocol -/

inductive Mode where
  | unknown | v2 | legacy
  deriving DecidableEq, Repr

def streamPrefixBytes : List UInt8 := streamLinePrefix.map fun c => UInt8.ofNat c.toNat

/-- `stream_line_whitespace` -/
def isLineWhitespace (byte : UInt8) : Bool := byte == 32 || byte == 9 || byte == 13 || byte == 11 || byte == 12

/-- `stream_json_whitespace` -/
def isJsonWhitespace (byte : UInt8) : Bool := isLineWhitespace byte || byte == 10

/-- `first_item[:1] in set`, which an empty text is. -/
def startsWithin (set : String) (bytes : List UInt8) : Bool :=
  bytes.head?.all fun byte => set.toList.any fun c => c.toNat == byte.toNat

def looksLikeLegacyJson (candidate : List UInt8) (lineComplete : Bool) : Bool :=
  match candidate.dropWhile isJsonWhitespace with
  | 91 :: rest =>
    let item := rest.dropWhile isJsonWhitespace
    if item.isEmpty then lineComplete else startsWithin "[\x7b\"-0123456789tfn]" item
  | 123 :: rest =>
    let item := rest.dropWhile isJsonWhitespace
    if item.isEmpty then lineComplete else startsWithin "\"\x7d" item
  | _ => false

/-- What the probe turns out to be, with the bytes of the older format. -/
inductive Classified where
  | v2
  | legacy (output : List UInt8)
  | unknown

/-- `classify_stream_probe` -/
def classifyLines (tail : List UInt8) : List (List UInt8) → Classified
  | [] =>
    let candidate := tail.dropWhile isLineWhitespace
    if streamPrefixBytes <+: candidate then .v2
    else if looksLikeLegacyJson candidate false then .legacy candidate
    else .unknown
  | line :: lines =>
    let candidate := (line ++ [10]).dropWhile isLineWhitespace
    if streamPrefixBytes <+: candidate then .v2
    else if looksLikeLegacyJson candidate true then
      .legacy (candidate ++ (lines.flatMap (· ++ [10])) ++ tail)
    else classifyLines tail lines

def classify (probe : List UInt8) : Classified :=
  let (lines, tail) := cutLines isNewline probe
  classifyLines tail lines

/-! ## Chunks -/

structure Consumer where
  stream : StreamState := {}
  buffer : List Char := []
  decoder : Utf8Decoder := {}
  /-- `stream_error[0]` -/
  error : Option StreamError := none
  mode : Mode := .unknown
  probe : List UInt8 := []
  legacyOutput : List UInt8 := []

def Consumer.fail (c : Consumer) (error : StreamError) : Consumer := { c with error := c.error.or (some error) }

def streamProbeLimit : Nat := 64 * 1024

def maxV2StreamRecordBytes : Nat := 64 * 1024

def Consumer.classifyProbe (c : Consumer) : Consumer :=
  match classify c.probe with
  | .v2 => { c with mode := .v2, probe := [] }
  | .legacy output => { c with mode := .legacy, probe := [], legacyOutput := c.legacyOutput ++ output }
  | .unknown => c

/-- `retain_legacy_chunk` -/
def Consumer.retainLegacyChunk (c : Consumer) (chunk : List UInt8) : Consumer :=
  if chunk.isEmpty then c
  else
    match c.mode with
    | .v2 => c
    | .legacy => { c with legacyOutput := c.legacyOutput ++ chunk }
    | .unknown =>
      let probeRoom := streamProbeLimit - c.probe.length
      if probeRoom < chunk.length then
        let c := if 0 < probeRoom then { c with probe := c.probe ++ chunk.take probeRoom }.classifyProbe else c
        match c.mode with
        | .unknown => c.fail (.valueError "scan stream protocol probe exceeded limit")
        | .legacy => { c with legacyOutput := c.legacyOutput ++ chunk.drop probeRoom }
        | .v2 => c
      else { c with probe := c.probe ++ chunk }.classifyProbe

/-- `validate_v2_chunk_size` raises. -/
def oversized (tail : List UInt8) : Nat → List (List UInt8) → Bool
  | partialSize, [] => decide (maxV2StreamRecordBytes < partialSize + tail.length)
  | partialSize, line :: lines =>
    decide (maxV2StreamRecordBytes < partialSize + line.length + 1) || oversized tail 0 lines

/-- The lines of one chunk, up to the first that raises. -/
def Consumer.decodeLines (env : Environment) (c : Consumer) (lines : List (List Char)) : Consumer :=
  match (lines.forM fun line => decodeStreamRecord env (stripCarriageReturns line)).run.run c.stream with
  | (.ok _, stream) => { c with stream }
  | (.error e, stream) => { c with stream }.fail e

/-- `consume_stream_chunk` -/
def consumeStreamChunk (env : Environment) (c : Consumer) (chunk : List UInt8) : Consumer :=
  if c.error.isSome then c
  else
    let c := c.retainLegacyChunk chunk
    let (lines, tail) := cutLines isNewline chunk
    if c.mode = .v2 ∧ oversized tail (utf8Length c.buffer + c.decoder.held) lines then
      c.fail (.valueError "scan stream V2 record exceeded limit")
    else
      match c.decoder.decode chunk with
      | none => c.fail .unicodeDecode
      | some (decoder, text) =>
        let (lines, buffer) := cutLines (· == '\n') (c.buffer ++ text)
        { c with decoder, buffer }.decodeLines env lines

def consumeStream (env : Environment) (chunks : List (List UInt8)) : Consumer := chunks.foldl (consumeStreamChunk env) {}

/-! ## The end of the transport -/

/-- How `invoke_stream` ends after some chunks. -/
inductive Transport where
  | returned (chunks : List (List UInt8)) (out : List UInt8)
  /-- The helper does not know `--stream`; the command without it returns or raises. -/
  | unsupported (chunks : List (List UInt8)) (out : Option (List UInt8))
  | raised (chunks : List (List UInt8))

/-- What the scan raises. -/
inductive Failure where
  | transport
  | stream (error : StreamError)
  deriving DecidableEq, Repr

/-- The last line may lack its end. -/
def Consumer.finish (env : Environment) (c : Consumer) : Consumer :=
  let c := match c.mode with
    | .unknown => { c with mode := .legacy, legacyOutput := c.legacyOutput ++ c.probe, probe := [] }
    | _ => c
  let c := if c.error.isNone ∧ c.decoder.owed ≠ 0 then c.fail .unicodeDecode else c
  if !c.buffer.isEmpty ∧ c.error.isNone then consumeStreamChunk env c [10] else c

def isHashable : Json → Bool
  | .list _ => false
  | .obj _ => false
  | _ => true

/-- The one list of an older helper. -/
def decodeAggregate (env : Environment) (aggregate : List UInt8) : Except StreamError (List WireFile) := do
  match decodeUtf8 aggregate with
  | none => throw .unicodeDecode
  | some text =>
    match env.loads text with
    | none => throw .jsonDecode
    | some (.list items) =>
      let files ← items.mapM (fromDict env.fromisoformat)
      if files.all fun file => isHashable file.value.name then return files
      else throw (.typeError "unhashable type")
    | some _ => throw (.typeError "scan data must be a list")

def publishAll (progress : List Progress) : Decode Unit := progress.forM publish

/-- The calls that make an older list a scan. -/
def aggregateProgress (files : List WireFile) : List Progress :=
  [{ manifestNames := some (files.map fun file => file.value.name) }, { files }, { complete := true }]

/-- What is still to be published of a complete stream, and that it is complete. -/
def publishCompletion : Decode Unit := do
  flushPendingRootProgress
  flushPendingUnchangedProgress
  publish { complete := true }

/-- What happens when the transport has returned. -/
def completeScan (env : Environment) (c : Consumer) (out : List UInt8) : StreamState × Except Failure (List WireFile) :=
  let c := c.finish env
  match c.error with
  | some e => (c.stream, .error (.stream e))
  | none =>
    if c.stream.sawPrefix then
      if !c.stream.manifest ∨ !c.stream.complete then
        (c.stream, .error (.stream (.typeError "incomplete scan stream")))
      else
        ((publishCompletion.run.run c.stream).2, .ok c.stream.files)
    else
      match decodeAggregate env (if c.legacyOutput.isEmpty then out else c.legacyOutput) with
      | .error e => (c.stream, .error (.stream e))
      | .ok files => (((publishAll (aggregateProgress files)).run.run c.stream).2, .ok files)

/-- `__scan` with a progress callback and a transport that streams. -/
def scan (env : Environment) : Transport → StreamState × Except Failure (List WireFile)
  | .returned chunks out => completeScan env (consumeStream env chunks) out
  | .unsupported chunks out =>
    let published := (consumeStream env chunks).stream.published
    match out with
    | none => ({ published }, .error .transport)
    | some out => completeScan env { stream := { published } } out
  | .raised chunks => ((consumeStream env chunks).stream, .error .transport)

end SeedSync.Remote
