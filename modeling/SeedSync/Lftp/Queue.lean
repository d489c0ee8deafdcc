import SeedSync.Lftp.Parser
import SeedSync.Lib.Stateful

/-!
# The queue command

The text that `Lftp.queue` of `lftp/lftp.py` sends for a download, with the exclusions of
`common/exclude_patterns.py`. What it asks of the local directory is given.
-/

namespace SeedSync.Lftp

open Lib

/-! ## Arguments -/

/-- `ord(character) < 32 or ord(character) == 127` -/
def isControl (c : Nat) : Bool := c < 32 || c == 127

def escapeArgument (value : Codes) : Codes :=
  value.flatMap fun c => if c = 92 then [92, 92] else if c = 34 then [92, 34] else [c]

/-- An argument as it stands in a command. -/
def quotedArgument (value : Codes) : Codes := 34 :: (escapeArgument value ++ [34])

/-- `__quote_command_argument`; an error is the text of an `LftpError`. -/
def quoteCommandArgument (value : Codes) : Except Codes Codes :=
  if value.any isControl then .error (codes "LFTP command arguments cannot contain control characters")
  else .ok (quotedArgument value)

/-- `re.escape` -/
def reEscape (text : Codes) : Codes :=
  text.flatMap fun c => if c ∈ codes "()[]\x7b\x7d?*+-|^$\\.&~# \t\n\r\x0b\x0c" then [92, c] else [c]

/-- `os.path.join(path, *parts)` -/
def osPathJoin (path : Codes) (parts : List Codes) : Codes :=
  parts.foldl (fun path part =>
    if part.head? = some 47 then part
    else if path = [] ∨ path.getLast? = some 47 then path ++ part
    else path ++ 47 :: part) path

/-! ## Exclusions -/

/-- `ExactPathExclusion`, with what `__post_init__` checks. -/
structure ExactPathExclusion where
  relativePath : Codes
  nonempty : relativePath ≠ []
  relative : relativePath.head? ≠ some 47
  contained : ∀ part ∈ relativePath.splitOn 47, part ≠ [] ∧ part ≠ [46] ∧ part ≠ [46, 46]
  plain : relativePath.any isControl = false

theorem ExactPathExclusion.relativePath_injective : Function.Injective ExactPathExclusion.relativePath := by
  rintro ⟨⟩ ⟨⟩ rfl
  rfl

instance : DecidableEq ExactPathExclusion := ExactPathExclusion.relativePath_injective.decidableEq

inductive Exclusion where
  | pattern (text : Codes)
  | missing
  | exact (path : ExactPathExclusion)

/-- The `exclude_patterns` of a call. -/
inductive ExcludePatterns where
  | none
  | text (patterns : Codes)
  | list (patterns : List Exclusion)

def Exclusion.user : Exclusion → Option (Option Codes)
  | .pattern text => some (some text)
  | .missing => some none
  | .exact _ => none

def Exclusion.exact? : Exclusion → Option ExactPathExclusion
  | .exact path => some path
  | .pattern _ | .missing => none

/-- `parse_exclude_patterns` of patterns that are separated already -/
def parseExcludePatterns (raw : List (Option Codes)) : List Codes :=
  (raw.filterMap fun pattern => pattern.map strip).foldl
    (fun parsed normalized => if normalized = [] ∨ normalized ∈ parsed then parsed else parsed ++ [normalized]) []

/-- `partition_transfer_exclusions` -/
def partitionTransferExclusions : ExcludePatterns → List Codes × List ExactPathExclusion
  | .none => ([], [])
  | .text patterns => (parseExcludePatterns ((patterns.splitOn 44).map some), [])
  | .list patterns =>
    (parseExcludePatterns (patterns.filterMap Exclusion.user),
      (patterns.filterMap Exclusion.exact?).foldl (fun kept path => if path ∈ kept then kept else kept ++ [path]) [])

/-- The exclusions of a folder: each option with its argument. -/
def exclusionOptions (patterns : ExcludePatterns) : List (Codes × Codes) :=
  let (user, exact) := partitionTransferExclusions patterns
  user.map (fun pattern => (codes "--exclude-glob", pattern)) ++
    exact.map fun path => (codes "--exclude", codes "^" ++ reEscape path.relativePath ++ codes "$")

/-! ## The call -/

/-- The arguments of `queue`, other than those of its traces. -/
structure QueueCall where
  name : Codes
  isDir : Bool
  remoteBaseDirPath : Option Codes := none
  localBaseDirPath : Option Codes := none
  excludePatterns : ExcludePatterns := .none
  allowResume : Bool := true
  allowLegacyGetResume : Bool := false
  expectedSize : Option Nat := none

/-- The base directories that the connection has. -/
structure BaseDirs where
  remote : Codes
  localPath : Codes

/-- What is asked of the local directory. -/
structure LocalAnswers where
  /-- `__file_resume_artifacts(local_dir, name, expected_size)`: whether the target exists, and
  whether it has a valid map. -/
  fileResumeArtifacts : Codes → Codes → Option Nat → Except Codes (Bool × Bool)
  /-- `__allow_legacy_get_resume(local_dir, name, expected_size)` -/
  allowLegacyGetResume : Codes → Codes → Option Nat → Except Codes Bool
  /-- `__is_lexically_and_really_contained(path, root)` -/
  isContained : Codes → Codes → Bool
  /-- The directory of a destination can be made. -/
  makesDirectory : Codes → Bool

def QueueCall.remoteDir (call : QueueCall) (bases : BaseDirs) : Codes := call.remoteBaseDirPath.getD bases.remote

def QueueCall.localDir (call : QueueCall) (bases : BaseDirs) : Codes := call.localBaseDirPath.getD bases.localPath

def QueueCall.remotePath (call : QueueCall) (bases : BaseDirs) : Codes := call.remoteDir bases ++ 47 :: call.name

/-- The local path of the command. -/
def QueueCall.destination (call : QueueCall) (bases : BaseDirs) : Codes :=
  if call.isDir = false ∧ 47 ∈ call.name then osPathJoin (call.localDir bases) (call.name.splitOn 47)
  else call.localDir bases ++ [47]

def validName (name : Codes) : Bool :=
  name != [] && name.head? != some 47 && !name.contains 92 &&
    (name.splitOn 47).all fun part => part != [] && part != [46] && part != [46, 46]

/-- `__validate_queue_name` -/
def validateQueueName (name : Codes) : Except Codes Unit :=
  if validName name then .ok () else .error (codes "LFTP queue name must be a safe relative path")

/-- Whether the target of a file exists, and whether it has a valid map. -/
def resumeArtifacts (answers : LocalAnswers) (bases : BaseDirs) (call : QueueCall) : Except Codes (Bool × Bool) :=
  if call.isDir then .ok (false, false)
  else answers.fileResumeArtifacts (call.localDir bases) call.name (if call.allowResume then call.expectedSize else none)

def legacyGetResume (answers : LocalAnswers) (bases : BaseDirs) (call : QueueCall) (hasExistingTarget : Bool) :
    Except Codes Bool :=
  if !call.allowLegacyGetResume then .ok false
  else if call.isDir || call.allowResume then
    .error (codes "Legacy resume is only valid for a changed file without a source binding")
  else if hasExistingTarget then answers.allowLegacyGetResume (call.localDir bases) call.name call.expectedSize
  else .ok false

/-- A changed file is not restarted over what there is of it. -/
def checkRestart (call : QueueCall) (hasExistingTarget legacy : Bool) : Except Codes Unit :=
  if !call.isDir && !call.allowResume && hasExistingTarget && !legacy then
    .error (codes "Cannot safely restart a changed remote file while a local partial exists; use Delete Local before Queue")
  else .ok ()

def optionParts (options : List (Codes × Codes)) : Except Codes (List Codes) :=
  options.mapM fun option => do
    let argument ← quoteCommandArgument option.2
    return option.1 ++ 32 :: argument

/-- The exclusions as they stand in the command. -/
def exclusionParts (call : QueueCall) : Except Codes (List Codes) :=
  if call.isDir then optionParts (exclusionOptions call.excludePatterns) else .ok []

/-- The local path of a file: a nested one has to lie in the local directory. -/
def fileDestination (answers : LocalAnswers) (bases : BaseDirs) (call : QueueCall) : Except Codes Codes :=
  if 47 ∈ call.name then
    let destination := osPathJoin (call.localDir bases) (call.name.splitOn 47)
    if !answers.isContained destination (call.localDir bases) then
      .error (codes "LFTP queue target is outside the local directory")
    else if !answers.makesDirectory destination then .error (codes "LFTP queue target directory is unsafe")
    else .ok destination
  else .ok (call.localDir bases ++ [47])

/-- The local path as it stands in the command. -/
def targetParts (answers : LocalAnswers) (bases : BaseDirs) (call : QueueCall) : Except Codes (List Codes) :=
  if call.isDir then do
    let destination ← quoteCommandArgument (call.localDir bases ++ [47])
    return [destination]
  else do
    let path ← fileDestination answers bases call
    let destination ← quoteCommandArgument path
    return [codes "-o", destination]

/-- The command that `queue` runs. -/
def queueCommand (answers : LocalAnswers) (bases : BaseDirs) (call : QueueCall) : Except Codes Codes := do
  validateQueueName call.name
  let artifacts ← resumeArtifacts answers bases call
  let legacy ← legacyGetResume answers bases call artifacts.1
  checkRestart call artifacts.1 legacy
  let useGet := !call.isDir && (legacy || (artifacts.1 && !artifacts.2))
  let word := if call.isDir then codes "mirror" else if useGet then codes "get" else codes "pget"
  let resume := if call.isDir || call.allowResume || !artifacts.1 || legacy then [codes "-c"] else []
  let exclusions ← exclusionParts call
  let remote ← quoteCommandArgument (call.remotePath bases)
  let target ← targetParts answers bases call
  return [32].intercalate ([codes "queue", word] ++ resume ++ exclusions ++ [remote] ++ target)

/-! ## What is sent -/

def isPlain (value : Codes) : Prop := value.any isControl = false

/-- An accepted command, after its first word. -/
def QueueCall.rendered (call : QueueCall) (bases : BaseDirs) (useGet : Bool) : Codes :=
  if call.isDir then
    codes "mirror -c" ++
      ((exclusionOptions call.excludePatterns).flatMap fun option => 32 :: (option.1 ++ 32 :: quotedArgument option.2)) ++
      32 :: (quotedArgument (call.remotePath bases) ++ 32 :: quotedArgument (call.destination bases))
  else
    (if useGet then codes "get" else codes "pget") ++ codes " -c " ++ quotedArgument (call.remotePath bases) ++
      codes " -o " ++ quotedArgument (call.destination bases)

variable {answers : LocalAnswers} {bases : BaseDirs} {call : QueueCall}

theorem quoteCommandArgument_ok {value argument : Codes} (h : quoteCommandArgument value = .ok argument) :
    isPlain value ∧ argument = quotedArgument value := by
  unfold quoteCommandArgument at h
  split at h
  · cases h
  · next hplain => exact ⟨by simpa [isPlain] using hplain, (Except.ok.inj h).symm⟩

/-- Every accepted command resumes. -/
theorem checkRestart_ok {hasExistingTarget legacy : Bool} (h : checkRestart call hasExistingTarget legacy = .ok ()) :
    (call.isDir || call.allowResume || !hasExistingTarget || legacy) = true := by
  unfold checkRestart at h
  split at h
  · cases h
  · next hrefused =>
    cases hdir : call.isDir <;> cases hresume : call.allowResume <;> cases hasExistingTarget <;> cases legacy <;>
      simp_all

theorem fileDestination_ok {destination : Codes} (hfile : call.isDir = false)
    (h : fileDestination answers bases call = .ok destination) : destination = call.destination bases := by
  unfold fileDestination at h
  unfold QueueCall.destination
  split at h
  · next hnested =>
    rw [if_pos ⟨hfile, hnested⟩]
    dsimp only at h
    split at h
    · cases h
    · split at h
      · cases h
      · exact (Except.ok.inj h).symm
  · next hflat =>
    rw [if_neg fun hcase => hflat hcase.2]
    exact (Except.ok.inj h).symm

theorem optionParts_ok {options : List (Codes × Codes)} {parts : List Codes} (h : optionParts options = .ok parts) :
    (∀ option ∈ options, isPlain option.2) ∧
      parts = options.map fun option => option.1 ++ 32 :: quotedArgument option.2 := by
  unfold optionParts at h
  induction options generalizing parts with
  | nil =>
    cases h
    simp
  | cons option options ih =>
    rw [List.mapM_cons] at h
    obtain ⟨part, hpart, h⟩ := ok_of_bind h
    obtain ⟨rest, hrest, h⟩ := ok_of_bind h
    obtain ⟨argument, hargument, hpart⟩ := ok_of_bind hpart
    obtain ⟨hplain, rfl⟩ := quoteCommandArgument_ok hargument
    obtain ⟨hall, rfl⟩ := ih hrest
    cases hpart
    cases h
    exact ⟨by simpa [hplain] using hall, by simp⟩

theorem targetParts_ok {target : List Codes} (h : targetParts answers bases call = .ok target) :
    isPlain (call.destination bases) ∧
      target = (if call.isDir then [] else [codes "-o"]) ++ [quotedArgument (call.destination bases)] := by
  unfold targetParts at h
  split at h
  · next hdir =>
    obtain ⟨destination, hdestination, h⟩ := ok_of_bind h
    obtain ⟨hplain, rfl⟩ := quoteCommandArgument_ok hdestination
    cases h
    have heq : call.destination bases = call.localDir bases ++ [47] := by simp [QueueCall.destination, hdir]
    exact ⟨heq ▸ hplain, by simp [hdir, heq]⟩
  · next hfile =>
    obtain ⟨path, hpath, h⟩ := ok_of_bind h
    obtain rfl := fileDestination_ok (by simpa using hfile) hpath
    obtain ⟨destination, hdestination, h⟩ := ok_of_bind h
    obtain ⟨hplain, rfl⟩ := quoteCommandArgument_ok hdestination
    cases h
    exact ⟨hplain, by simp [hfile]⟩

theorem intercalate_first (separator : Nat) (first : Codes) (parts : List Codes) :
    [separator].intercalate (first :: parts) = first ++ parts.flatMap fun part => separator :: part := by
  induction parts generalizing first with
  | nil => simp
  | cons part parts ih => rw [List.intercalate_cons_cons, ih, List.flatMap_cons]; simp

/-- What an accepted command is made of. -/
theorem queueCommand_ok {command : Codes} (h : queueCommand answers bases call = .ok command) :
    (∃ useGet, command = codes "queue " ++ call.rendered bases useGet) ∧ validName call.name = true ∧
      isPlain (call.remotePath bases) ∧ isPlain (call.destination bases) ∧
      (call.isDir = true → ∀ option ∈ exclusionOptions call.excludePatterns, isPlain option.2) := by
  unfold queueCommand at h
  obtain ⟨⟨⟩, hname, h⟩ := ok_of_bind h
  obtain ⟨artifacts, -, h⟩ := ok_of_bind h
  obtain ⟨legacy, -, h⟩ := ok_of_bind h
  obtain ⟨⟨⟩, hrestart, h⟩ := ok_of_bind h
  obtain ⟨exclusions, hexclusions, h⟩ := ok_of_bind h
  obtain ⟨remote, hremote, h⟩ := ok_of_bind h
  obtain ⟨target, htarget, h⟩ := ok_of_bind h
  obtain ⟨hplain, rfl⟩ := quoteCommandArgument_ok hremote
  obtain ⟨hdestination, rfl⟩ := targetParts_ok htarget
  have hvalid : validName call.name = true := by
    unfold validateQueueName at hname
    split at hname
    · next hvalid => exact hvalid
    · cases hname
  obtain rfl := Except.ok.inj h
  rw [if_pos (checkRestart_ok hrestart)]
  refine ⟨⟨!call.isDir && (legacy || (artifacts.1 && !artifacts.2)), ?_⟩, hvalid, hplain, hdestination, ?_⟩
  · cases hdir : call.isDir with
    | true =>
      rw [exclusionParts, if_pos hdir] at hexclusions
      obtain ⟨-, rfl⟩ := optionParts_ok hexclusions
      simp [intercalate_first, QueueCall.rendered, hdir, List.flatMap_map]
      rfl
    | false =>
      rw [exclusionParts, hdir] at hexclusions
      cases hexclusions
      simp [QueueCall.rendered, hdir]
      rfl
  · intro hdir
    rw [exclusionParts, if_pos hdir] at hexclusions
    exact (optionParts_ok hexclusions).1

end SeedSync.Lftp
