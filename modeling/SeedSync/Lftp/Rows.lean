import SeedSync.Lftp.Membership
import SeedSync.Lib.Regex

/-!
# The expressions for a queued command

What `__parse_queue` and `__MIRROR_QUEUE_HEADER_PREFIX_REGEX` of `lftp/job_status_parser.py` match a
row with, part by part, in place of the given matchers.
-/

namespace SeedSync.Lftp

open Lib Sidecar Matcher

/-! ## Expressions -/

/-- `.` -/
def inLine (c : Nat) : Bool := c != 10

/-- `$`, which also holds in front of a last line break. -/
def lineEnd : Matcher Nat Unit := ahead fun text => text == [] || text == [10]

def blanks : Matcher Nat Codes := some1 isSpace

/-- `(['"]|)` -/
def quoteMark : Matcher Nat Codes :=
  orElse
    (do
      let mark ← one fun c => c == 39 || c == 34
      return [mark])
    (pure [])

/-- `(?P<q>['"]|)(?P<path>.+)(?P=q)` -/
def quotedPath : Matcher Nat Codes := do
  let mark ← quoteMark
  let path ← some1 inLine
  lit mark
  return path

section

variable (py : Decimals)

/-- `^(?P<id>\d+)\.\s+` -/
def rowId : Matcher Nat Codes := do
  let id ← some1 (isDigit py)
  lit (codes ".")
  let _ ← blanks
  return id

/-- `\s+(?:-o\s+)(?P<rq>['"]|)(?P<local>.+)(?P=rq)$` -/
def pgetOutput : Matcher Nat Codes := do
  let _ ← blanks
  lit (codes "-o")
  let _ ← blanks
  let localPath ← quotedPath
  lineEnd
  return localPath

/-- The paths of a file, with the groups in front of them. -/
def pgetPaths (id command flags : Codes) : Matcher Nat PgetMatch := do
  let remote ← quotedPath
  let localPath ← pgetOutput
  return { id, flags, remote, localPath, command }

/-- `queue_pget_pattern` -/
def queuePgetRow : Matcher Nat PgetMatch := do
  let id ← rowId py
  let command ← orElse (do lit (codes "pget"); return codes "pget") (do lit (codes "get"); return codes "get")
  let _ ← blanks
  let flags ← reluctant inLine
  let _ ← blanks
  pgetPaths id command flags

/-- `\s+(?P<rq>['"]|)(?P<local>.+)(?P=rq)$` -/
def mirrorTarget : Matcher Nat Codes := do
  let _ ← blanks
  let localPath ← quotedPath
  lineEnd
  return localPath

/-- The paths of a folder, with the groups in front of them. -/
def mirrorPaths (id flags : Codes) : Matcher Nat PathsMatch := do
  let remote ← quotedPath
  let localPath ← mirrorTarget
  return { id, flags, remote, localPath }

/-- `__MIRROR_QUEUE_HEADER_PREFIX_REGEX` -/
def mirrorQueuePrefix : Matcher Nat Codes := do
  let id ← rowId py
  lit (codes "mirror")
  let _ ← blanks
  return id

/-- `queue_mirror_pattern` -/
def queueMirrorRow : Matcher Nat PathsMatch := do
  let id ← mirrorQueuePrefix py
  let flags ← reluctant inLine
  let _ ← blanks
  mirrorPaths id flags

end

/-! ## The id in front -/

variable {py : Decimals} {line : Codes}

theorem matchNumber_of_digits {digits rest : Codes} (hne : digits ≠ []) (hdigits : ∀ c ∈ digits, isDigit py c = true) :
    (matchNumber py (digits ++ 46 :: rest)).map Prod.fst = some digits := by
  have hdot : isDigit py 46 = false := not_digit (by decide)
  unfold matchNumber
  rw [List.dropWhile_append_of_pos hdigits, List.takeWhile_append_of_pos hdigits]
  simp [hdot, hne]

theorem rowId_id {read : Codes × Codes} (h : read ∈ rowId py line) :
    (matchNumber py line).map Prod.fst = some read.1 := by
  obtain ⟨digits, hdigits, h⟩ := mem_bind h
  obtain ⟨hsplit, hne, hall⟩ := mem_some1 hdigits
  obtain ⟨dot, hdot, h⟩ := mem_bind h
  obtain ⟨gap, -, h⟩ := mem_bind h
  obtain rfl := List.mem_singleton.1 h
  rw [hsplit, mem_lit hdot]
  exact matchNumber_of_digits hne hall

theorem mirrorQueuePrefix_id {read : Codes × Codes} (h : read ∈ mirrorQueuePrefix py line) :
    (matchNumber py line).map Prod.fst = some read.1 := by
  obtain ⟨id, hid, h⟩ := mem_bind h
  obtain ⟨word, -, h⟩ := mem_bind h
  obtain ⟨gap, -, h⟩ := mem_bind h
  rw [List.mem_singleton.1 h]
  exact @rowId_id _ _ id hid

theorem queuePgetRow_id {read : PgetMatch × Codes} (h : read ∈ queuePgetRow py line) :
    (matchNumber py line).map Prod.fst = some read.1.id := by
  obtain ⟨id, hid, h⟩ := mem_bind h
  obtain ⟨command, -, h⟩ := mem_bind h
  obtain ⟨gap, -, h⟩ := mem_bind h
  obtain ⟨flags, -, h⟩ := mem_bind h
  obtain ⟨gap', -, h⟩ := mem_bind h
  obtain ⟨remote, -, h⟩ := mem_bind h
  obtain ⟨localPath, -, h⟩ := mem_bind h
  obtain rfl := List.mem_singleton.1 h
  exact rowId_id hid

theorem queueMirrorRow_id {read : PathsMatch × Codes} (h : read ∈ queueMirrorRow py line) :
    (matchNumber py line).map Prod.fst = some read.1.id := by
  obtain ⟨id, hid, h⟩ := mem_bind h
  obtain ⟨flags, -, h⟩ := mem_bind h
  obtain ⟨gap, -, h⟩ := mem_bind h
  obtain ⟨remote, -, h⟩ := mem_bind h
  obtain ⟨localPath, -, h⟩ := mem_bind h
  obtain rfl := List.mem_singleton.1 h
  exact mirrorQueuePrefix_id hid

/-- The first match, with what it reads. -/
def matched {α : Type} (m : Matcher Nat α) (line : Codes) : Option α := (find m line).map Prod.fst

theorem mem_of_matched {α : Type} {m : Matcher Nat α} {a : α} (h : matched m line = some a) :
    ∃ rest, (a, rest) ∈ m line := by
  obtain ⟨⟨b, rest⟩, hfind, rfl⟩ := Option.map_eq_some_iff.1 h
  exact ⟨rest, mem_of_find hfind⟩

/-- The matchers with the expressions for a queued command. -/
def Patterns.withQueue (p : Patterns) : Patterns :=
  { p with
    queuePget := matched (queuePgetRow p.py)
    queueMirror := matched (queueMirrorRow p.py)
    mirrorQueueHeaderPrefix := fun line =>
      (find (mirrorQueuePrefix p.py) line).map fun read => (read.1, line.length - read.2.length)
    queuePget_id := fun _ _ h => by
      obtain ⟨_, hmem⟩ := mem_of_matched h
      exact queuePgetRow_id hmem
    queueMirror_id := fun _ _ h => by
      obtain ⟨_, hmem⟩ := mem_of_matched h
      exact queueMirrorRow_id hmem
    mirrorQueueHeaderPrefix_id := fun _ _ h => by
      obtain ⟨read, hfind, rfl⟩ := Option.map_eq_some_iff.1 h
      exact mirrorQueuePrefix_id (mem_of_find hfind) }

end SeedSync.Lftp
