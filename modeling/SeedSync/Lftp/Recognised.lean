import Mathlib.Data.List.ReduceOption
import SeedSync.Lftp.Annotation
import SeedSync.Lftp.Words

/-!
# Queued commands in the status

Which of the commands that `queue` accepts the status shows as what they were queued as: with their
paths, their name and the pair that they were queued for. A quote or a backslash in a remote path is
read with the backslash that it was quoted with, and is not the path then.
-/

namespace SeedSync.Lftp

open Lib Sidecar

/-! ## Commands -/

/-- An accepted command as it is listed, behind a number that is read. -/
structure Listed (p : Patterns) where
  answers : LocalAnswers
  bases : BaseDirs
  call : QueueCall
  command : Codes
  accepted : queueCommand answers bases call = .ok command
  number : RowNumber p.py
  id : Nat
  numbered : int p.py number.digits = .ok id

namespace Listed

variable {p : Patterns} (c : Listed p)

/-- The row of the command, which is listed without its first word. -/
def row : Codes := c.number.text ++ c.command.drop (codes "queue ").length

/-- The directory that the command was queued for. -/
def remoteDir : Codes := c.call.remoteDir c.bases

def remotePath : Codes := c.call.remotePath c.bases

def destination : Codes := c.call.destination c.bases

def options : List (Codes × Codes) := exclusionOptions c.call.excludePatterns

/-- The last component of the name. -/
def lastName : Codes := (c.call.name.splitOn 47).getLastD []

/-- The local path as a status has it: with the backslashes of its quotes, and without blanks at its
ends. -/
def shownLocalPath : Codes := strip (escapeArgument c.destination)

/-! ## What is claimed of a status -/

/-- A queued status of the command. -/
structure Recognised (status : JobStatus) : Prop where
  state : status.state = .queued
  kind : status.type = .mirror ↔ c.call.isDir = true
  remotePath : status.remotePath = c.remotePath
  name : status.name = c.lastName

/-- The path lies in the root: its components go on from those of the root, and not up again. -/
def Under (root path : Codes) : Prop :=
  isAbsolute path = isAbsolute root ∧ ∃ rest, components path = components root ++ rest ∧ [46, 46] ∉ rest

/-- The one pair in whose remote root the remote path lies, where the local path lies in no other
pair's local root. -/
structure Only (pairs : Dict Codes PairPaths) (pair : Codes × PairPaths) : Prop where
  mem : pair ∈ pairs.items
  under : Under pair.2.remotePath c.remotePath
  alone : ∀ other ∈ pairs.items, other ≠ pair →
    ¬ Under other.2.remotePath c.remotePath ∧ ¬ Under other.2.localPath c.destination

/-- The status has the one pair and the name in it, and no other pair than it was queued for. -/
structure Annotated (pairs : Dict Codes PairPaths) (status : ScopedStatus) : Prop where
  bound : ∀ pair, c.Only pairs pair → status.pathPairId = some pair.1 ∧ status.pathPairName = some pair.2.name ∧
    status.name = relativeName pair.2.remotePath c.remotePath c.lastName
  own : ∀ pair ∈ pairs.items, pair.2.remotePath = c.remoteDir → ∀ id, status.pathPairId = some id → id = pair.1

/-! ## When it holds -/

/-- The row is read as the command it is. -/
structure Readable : Prop where
  unmarked : hasText marker c.row = false
  /-- The remote path has neither a quote nor a backslash. -/
  plain : marks c.remotePath = 0
  trimmed : strip c.remotePath = c.remotePath
  file : c.call.isDir = false → ¬ Reopens IsOutput c.destination
  folder : c.call.isDir = true → c.options = [] → ¬ Reopens IsTarget c.destination
  excluding : c.call.isDir = true → c.options ≠ [] → misread c.options = false ∧ startsWith "-" c.remotePath = false

/-- The paths select the pair that they should. -/
structure Placed (pairs : Dict Codes PairPaths) : Prop where
  bound : ∀ pair, c.Only pairs pair → Regular pair.2.remotePath ∧
    ∀ other ∈ pairs.items, other ≠ pair →
      ¬ Within other.2.remotePath c.remotePath ∧ ¬ Within other.2.localPath c.shownLocalPath
  own : ∀ pair ∈ pairs.items, pair.2.remotePath = c.remoteDir → Regular pair.2.remotePath ∨
    ∀ other, ¬ Owns pairs c.remotePath c.shownLocalPath other

/-! ## Paths of a command -/

theorem remotePath_eq : c.remotePath = c.remoteDir ++ 47 :: c.call.name := rfl

theorem mem_remotePath : 47 ∈ c.remotePath := by simp [remotePath_eq]

theorem name_parts : ∀ part ∈ c.call.name.splitOn 47, IsComponent part ∧ part ≠ [46, 46] := by
  intro part hpart
  have hvalid := (queueCommand_ok c.accepted).2.1
  simp only [validName, Bool.and_eq_true, List.all_eq_true, bne_iff_ne] at hvalid
  have hok := hvalid.2 part hpart
  exact ⟨⟨hok.1.1, hok.1.2, splitOn_slashFree _ part hpart⟩, hok.2⟩

theorem components_remotePath : ∃ front, components c.remotePath = front ++ c.call.name.splitOn 47 ∧
    (c.remoteDir ≠ [] → isAbsolute c.remotePath = isAbsolute c.remoteDir ∧ front = components c.remoteDir) := by
  refine ⟨(c.remoteDir.splitOn 47).foldl (normStep (isAbsolute c.remotePath)) [], ?_, fun hne => ?_⟩
  · rw [components, remotePath_eq, List.splitOn_append_cons_self, List.foldl_append,
      foldl_normStep_of_components c.name_parts]
  · have hkind : isAbsolute c.remotePath = isAbsolute c.remoteDir := by
      obtain ⟨first, rest, hcons⟩ := List.exists_cons_of_ne_nil hne
      rw [remotePath_eq, hcons]
      rfl
    exact ⟨hkind, by rw [hkind]; rfl⟩

theorem baseName_remotePath : baseName c.remotePath = c.lastName := by
  obtain ⟨front, hcomponents, -⟩ := c.components_remotePath
  have hne := List.splitOn_ne_nil 47 c.call.name
  have hlast : (components c.remotePath).getLast? = some c.lastName := by
    rw [hcomponents, List.getLast?_append_of_ne_nil _ hne, List.getLast?_eq_some_getLast hne, lastName]
    simp [List.getLastD_eq_getLast?, List.getLast?_eq_some_getLast hne]
  unfold components isAbsolute at hlast
  simp only [baseName, hlast]

theorem destination_ne_nil : c.destination ≠ [] := by
  unfold destination QueueCall.destination
  split
  · have hparts := fun part hpart => (c.name_parts part hpart).1.1
    have hne := List.splitOn_ne_nil 47 c.call.name
    generalize c.call.name.splitOn 47 = parts at hparts hne
    unfold osPathJoin
    induction parts using List.reverseRecOn with
    | nil => exact absurd rfl hne
    | append_singleton parts part ih =>
      have hpart : part ≠ [] := hparts part (by simp)
      rw [List.foldl_append, List.foldl_cons, List.foldl_nil]
      split_ifs <;> simp [hpart]
  · simp

/-! ## Rows of a command -/

section

variable {q : Patterns} {line : Codes}

/-- A row without exclusions is read by the queue's own expressions. -/
theorem readRow_get (hmark : hasText marker line = false)
    (hheader : parseKnownOptionsMirrorHeader q q.mirrorQueueHeaderPrefix line = .ok none) {m : PgetMatch}
    (hpget : q.queuePget line = some m) :
    readRow q line = some <$> queuedStatus q (commandType m.command) m.toPathsMatch := by
  rw [readRow, if_neg (by simp [hmark]), hheader, hpget]
  rfl

theorem readRow_mirror (hmark : hasText marker line = false)
    (hheader : parseKnownOptionsMirrorHeader q q.mirrorQueueHeaderPrefix line = .ok none) {m : PathsMatch}
    (hpget : q.queuePget line = none) (hmirror : q.queueMirror line = some m) :
    readRow q line = some <$> queuedStatus q .mirror m := by
  rw [readRow, if_neg (by simp [hmark]), hheader, hpget, hmirror]
  rfl

end

theorem plain_remotePath : isPlain c.remotePath := (queueCommand_ok c.accepted).2.2.1

theorem plain_destination : isPlain c.destination := (queueCommand_ok c.accepted).2.2.2.1

theorem remotePath_ne_nil : c.remotePath ≠ [] := List.ne_nil_of_mem c.mem_remotePath

theorem row_eq : ∃ useGet, c.row = c.number.text ++ c.call.rendered c.bases useGet := by
  obtain ⟨⟨useGet, hcommand⟩, -⟩ := queueCommand_ok c.accepted
  exact ⟨useGet, by rw [row, hcommand, List.drop_left]⟩

theorem row_file (h : c.call.isDir = false) : ∃ useGet, c.row =
    c.number.text ++ (getWord useGet ++ (codes " -c " ++
      (quotedArgument c.remotePath ++ (codes " -o " ++ quotedArgument c.destination)))) := by
  obtain ⟨useGet, hrow⟩ := c.row_eq
  refine ⟨useGet, ?_⟩
  rw [hrow, QueueCall.rendered, h, if_neg (by simp)]
  simp only [List.append_assoc]
  rfl

theorem row_folder (h : c.call.isDir = true) : c.row = folderRow c.number c.options c.remotePath c.destination := by
  obtain ⟨useGet, hrow⟩ := c.row_eq
  rw [hrow, QueueCall.rendered, if_pos h, folderRow, folderRest, folderWords,
    show codes "mirror -c" = codes "mirror" ++ ([32] ++ codes "-c") from rfl]
  simp [List.flatMap_append, List.flatMap_assoc, Written.text, options, remotePath, destination]

theorem known_options : ∀ option ∈ c.options, isKnownOption option.1 = true := by
  intro option hoption
  unfold options exclusionOptions at hoption
  rcases List.mem_append.1 hoption with hoption | hoption
  · obtain ⟨pattern, -, rfl⟩ := List.mem_map.1 hoption
    rfl
  · obtain ⟨path, -, rfl⟩ := List.mem_map.1 hoption
    rfl

theorem mem_destination (h : c.call.isDir = true) : 47 ∈ c.destination := by
  simp [destination, QueueCall.destination, h]

/-! ## What is read of a row -/

theorem numbered_row : isNumbered p.withQueue.py c.row = true := by
  have hmatch := matchNumber_text c.number (c.command.drop (codes "queue ").length)
  obtain ⟨read, hread, -⟩ := Option.map_eq_some_iff.1 hmatch
  unfold isNumbered
  exact Option.isSome_of_eq_some hread

theorem readRow_marked (h : hasText marker c.row = true) : readRow p.withQueue c.row = .ok none := by
  rw [readRow, if_pos h]

/-- The status of a row that is read. -/
def shown (type : JobType) (m : PathsMatch) : JobStatus :=
  newStatus c.id type .queued (baseName m.remote) m.flags m.remote m.localPath

theorem queuedStatus_ok {type : JobType} {m : PathsMatch} (h : m.id = c.number.digits) :
    queuedStatus p.withQueue type m = .ok (c.shown type m) := by
  unfold queuedStatus
  rw [h, show p.withQueue.py = p.py from rfl, c.numbered]
  rfl

theorem readRow_file (hmark : hasText marker c.row = false) (hfile : c.call.isDir = false) :
    ∃ type m, type ≠ .mirror ∧ readRow p.withQueue c.row = .ok (some (c.shown type m)) ∧
      RowRead IsOutput c.number.digits c.remotePath c.destination m := by
  obtain ⟨useGet, hrow⟩ := c.row_file hfile
  obtain ⟨m, hmatched, hcommand, hread⟩ := queuePget_row c.number useGet c.plain_remotePath
    c.plain_destination c.remotePath_ne_nil c.destination_ne_nil
  have hstart : p.withQueue.mirrorQueueHeaderPrefix c.row = none := by
    rw [hrow]
    exact congrArg (Option.map _) (find_mirrorQueuePrefix_none c.number useGet)
  have hpget : p.withQueue.queuePget c.row = some m := hrow ▸ hmatched
  refine ⟨commandType m.command, m.toPathsMatch, ?_, ?_, hread⟩
  · rw [hcommand]
    cases useGet <;> decide
  · have hheader : parseKnownOptionsMirrorHeader p.withQueue p.withQueue.mirrorQueueHeaderPrefix c.row = .ok none := by
      rw [parseKnownOptionsMirrorHeader, hstart]
    rw [readRow_get hmark hheader hpget, c.queuedStatus_ok hread.id]
    rfl

theorem readRow_folder (hmark : hasText marker c.row = false) (hdir : c.call.isDir = true) (hnone : c.options = []) :
    ∃ m, readRow p.withQueue c.row = .ok (some (c.shown .mirror m)) ∧
      RowRead IsTarget c.number.digits c.remotePath c.destination m := by
  have hrow := c.row_folder hdir
  rw [hnone] at hrow
  have hparsed := @parseKnown_plain p _ _ c.number c.mem_remotePath (c.mem_destination hdir)
  have hrow' : c.row = c.number.text ++ (codes "mirror" ++ (codes " -c " ++
      (quotedArgument c.remotePath ++ ([32] ++ quotedArgument c.destination)))) := by
    rw [hrow, folderRow, folderRest, folderWords]
    simp [Written.text]
    rfl
  obtain ⟨m, hmatched, hread⟩ := @queueMirror_row p.py _ _ c.number c.plain_remotePath
    c.plain_destination c.remotePath_ne_nil c.destination_ne_nil
  have hpget : p.withQueue.queuePget c.row = none := by
    rw [hrow']
    exact matched_queuePgetRow_none c.number
  have hmirror : p.withQueue.queueMirror c.row = some m := by
    rw [hrow']
    exact hmatched
  refine ⟨m, ?_, hread⟩
  rw [readRow_mirror hmark (hrow ▸ hparsed) hpget hmirror, c.queuedStatus_ok hread.id]
  rfl

theorem readRow_excluding (hmark : hasText marker c.row = false) (hdir : c.call.isDir = true) (hsome : c.options ≠ []) :
    if misread c.options || startsWith "-" c.remotePath then ∃ e, readRow p.withQueue c.row = .error e
    else ∃ m : PathsMatch, readRow p.withQueue c.row = .ok (some (c.shown .mirror m)) ∧
      m.remote = escapeArgument c.remotePath ∧ m.localPath = escapeArgument c.destination := by
  have hparsed := parseKnown_options c.number c.numbered hsome c.known_options c.mem_remotePath
    (c.mem_destination hdir)
  rw [← c.row_folder hdir] at hparsed
  split at hparsed
  · next hwrong =>
    obtain ⟨e, he⟩ := hparsed
    rw [if_pos hwrong, readRow, if_neg (by simp [hmark]), he]
    exact ⟨e, rfl⟩
  · next hright =>
    obtain ⟨header, hheader, hid, hremote, hlocal⟩ := hparsed
    rw [if_neg hright, readRow, if_neg (by simp [hmark]), hheader]
    refine ⟨{ id := c.number.digits, flags := header.flags, remote := header.remote, localPath := header.localPath }, ?_,
      hremote, hlocal⟩
    simp only [shown, ← hid]
    rfl

/-! ## Recognised commands -/

theorem exact_of_read {Ends : Codes → Prop} {m : PathsMatch} (h : RowRead Ends c.number.digits c.remotePath c.destination m)
    (hpath : strip m.remote = c.remotePath) :
    marks c.remotePath = 0 ∧ strip c.remotePath = c.remotePath ∧ ¬ Reopens Ends c.destination := by
  have hexact : ¬ Reopens Ends c.destination := by
    intro hreopens
    obtain ⟨more, hmore⟩ := h.longer hreopens
    rw [hmore] at hpath
    exact strip_longer_ne _ _ hpath
  rw [(h.exact hexact).1] at hpath
  obtain ⟨hstrip, hmarks⟩ := strip_escape_iff.1 hpath
  exact ⟨hmarks, hstrip, hexact⟩

theorem recognised_shown {type : JobType} {m : PathsMatch} (hkind : type = .mirror ↔ c.call.isDir = true)
    (hplain : marks c.remotePath = 0) (htrimmed : strip c.remotePath = c.remotePath)
    (hremote : m.remote = escapeArgument c.remotePath) (hlocal : m.localPath = escapeArgument c.destination) :
    c.Recognised (c.shown type m) ∧ (c.shown type m).localPath = c.shownLocalPath := by
  rw [escape_of_no_marks hplain] at hremote
  have hname : (c.shown type m).name = c.lastName := by
    change baseName m.remote = _
    rw [hremote, baseName_remotePath]
  have hpath : (c.shown type m).remotePath = c.remotePath := by
    change strip m.remote = _
    rw [hremote, htrimmed]
  refine ⟨{ state := rfl, kind := hkind, remotePath := hpath, name := hname }, ?_⟩
  change strip m.localPath = _
  rw [hlocal, shownLocalPath]

/-- A command that is recognised is readable. -/
theorem readable_of_recognised {status : JobStatus} (hread : readRow p.withQueue c.row = .ok (some status))
    (h : c.Recognised status) : c.Readable := by
  have hmark : hasText marker c.row = false := by
    cases hmark : hasText marker c.row with
    | false => rfl
    | true =>
      rw [c.readRow_marked hmark] at hread
      cases hread
  have hpath := h.remotePath
  cases hdir : c.call.isDir with
  | false =>
    obtain ⟨type, m, -, hshown, hrow⟩ := c.readRow_file hmark hdir
    obtain rfl : c.shown type m = status := by
      rw [hshown] at hread
      cases hread
      rfl
    obtain ⟨hplain, htrimmed, hexact⟩ := c.exact_of_read hrow hpath
    exact ⟨hmark, hplain, htrimmed, fun _ => hexact, fun hd => by simp [hdir] at hd, fun hd => by simp [hdir] at hd⟩
  | true =>
    by_cases hnone : c.options = []
    · obtain ⟨m, hshown, hrow⟩ := c.readRow_folder hmark hdir hnone
      obtain rfl : c.shown .mirror m = status := by
        rw [hshown] at hread
        cases hread
        rfl
      obtain ⟨hplain, htrimmed, hexact⟩ := c.exact_of_read hrow hpath
      exact ⟨hmark, hplain, htrimmed, fun hd => by simp [hdir] at hd, fun _ _ => hexact, fun _ hne => absurd hnone hne⟩
    · have hrow := c.readRow_excluding hmark hdir hnone
      split at hrow
      · obtain ⟨e, he⟩ := hrow
        rw [he] at hread
        cases hread
      · next hright =>
        obtain ⟨m, hshown, hremote, -⟩ := hrow
        obtain rfl : c.shown .mirror m = status := by
          rw [hshown] at hread
          cases hread
          rfl
        have hstrip : strip (escapeArgument c.remotePath) = c.remotePath := hremote ▸ hpath
        obtain ⟨htrimmed, hplain⟩ := strip_escape_iff.1 hstrip
        exact ⟨hmark, hplain, htrimmed, fun hd => by simp [hdir] at hd, fun _ h => absurd h hnone,
          fun _ _ => by simpa using hright⟩

/-- A readable command is recognised. -/
theorem recognised_of_readable (h : c.Readable) : ∃ status, readRow p.withQueue c.row = .ok (some status) ∧
    c.Recognised status ∧ status.localPath = c.shownLocalPath := by
  cases hdir : c.call.isDir with
  | false =>
    obtain ⟨type, m, htype, hshown, hrow⟩ := c.readRow_file h.unmarked hdir
    obtain ⟨hremote, hlocal⟩ := hrow.exact (h.file hdir)
    exact ⟨_, hshown, c.recognised_shown (by simp [htype, hdir]) h.plain h.trimmed hremote hlocal⟩
  | true =>
    by_cases hnone : c.options = []
    · obtain ⟨m, hshown, hrow⟩ := c.readRow_folder h.unmarked hdir hnone
      obtain ⟨hremote, hlocal⟩ := hrow.exact (h.folder hdir hnone)
      exact ⟨_, hshown, c.recognised_shown (by simp [hdir]) h.plain h.trimmed hremote hlocal⟩
    · have hrow := c.readRow_excluding h.unmarked hdir hnone
      obtain ⟨hmisread, hdash⟩ := h.excluding hdir hnone
      rw [hmisread, hdash] at hrow
      obtain ⟨m, hshown, hremote, hlocal⟩ := hrow
      exact ⟨_, hshown, c.recognised_shown (by simp [hdir]) h.plain h.trimmed hremote hlocal⟩

/-! ## Pairs -/

variable {cwd : WorkingDirectory} {pairs : Dict Codes PairPaths} {status : JobStatus}

theorem covers_of_under {root path : Codes} (h : Under root path) : Covers root path := by
  obtain ⟨hkind, rest, hrest, -⟩ := h
  exact ⟨hkind, rest, hrest.symm⟩

/-- What a command is queued for lies in a regular root. -/
theorem within_remoteDir (h : Regular c.remoteDir) : Within c.remoteDir c.remotePath := by
  have hne : c.remoteDir ≠ [] := by
    intro hnil
    rw [hnil] at h
    exact absurd h (by decide)
  obtain ⟨front, hcomponents, hfront⟩ := c.components_remotePath
  obtain ⟨hkind, rfl⟩ := hfront hne
  exact ⟨h, hkind, _, hcomponents.symm⟩

theorem pair_of_id {a b : Codes × PairPaths} (ha : a ∈ pairs.items) (hb : b ∈ pairs.items) (h : a.1 = b.1) : a = b :=
  List.inj_on_of_nodup_map pairs.nodup ha hb h

/-- The pair of a recognised status is the one that it should have just if the paths are placed. -/
theorem annotated_iff (hremote : status.remotePath = c.remotePath) (hlocal : status.localPath = c.shownLocalPath)
    (hname : status.name = c.lastName) : c.Annotated pairs (annotate cwd pairs status) ↔ c.Placed pairs := by
  have hid := @pathPairId_annotate cwd pairs status
  rw [hremote, hlocal] at hid
  constructor
  · intro h
    refine ⟨fun pair honly => ?_, fun pair hpair hqueued => ?_⟩
    · obtain ⟨other, howns, heq⟩ := hid.1 (h.bound pair honly).1
      obtain rfl := pair_of_id howns.mem honly.mem heq
      exact ⟨howns.within.1, howns.alone⟩
    · by_cases howns : ∃ other, Owns pairs c.remotePath c.shownLocalPath other
      · obtain ⟨other, howns⟩ := howns
        have hsame := h.own pair hpair hqueued other.1 (hid.2 ⟨other, howns, rfl⟩)
        obtain rfl := pair_of_id howns.mem hpair hsame
        exact Or.inl howns.within.1
      · exact Or.inr fun other hother => howns ⟨other, hother⟩
  · intro h
    refine ⟨fun pair honly => ?_, fun pair hpair hqueued id hselected => ?_⟩
    · obtain ⟨hregular, hothers⟩ := h.bound pair honly
      have howns : Owns pairs status.remotePath status.localPath pair := by
        rw [hremote, hlocal]
        exact ⟨honly.mem, ⟨hregular, covers_of_under honly.under⟩, hothers⟩
      obtain ⟨hkind, rest, hrest, hup⟩ := honly.under
      rw [annotate_of_owns howns]
      refine ⟨rfl, rfl, ?_⟩
      rw [← hremote] at hkind hrest
      rw [selectPair_name hkind hrest hup, hremote, hname]
    · obtain ⟨other, howns, rfl⟩ := hid.1 hselected
      rcases h.own pair hpair hqueued with hregular | hnone
      · by_contra hne
        have hwithin : Within pair.2.remotePath c.remotePath := hqueued ▸ c.within_remoteDir (hqueued ▸ hregular)
        exact (howns.alone pair hpair fun heq => hne (heq ▸ rfl)).1 hwithin
      · exact absurd howns (hnone other)

theorem row_recognised_iff :
    (∃ status, readRow p.withQueue c.row = .ok (some status) ∧ c.Recognised status ∧
      c.Annotated pairs (annotate cwd pairs status)) ↔ c.Readable ∧ c.Placed pairs := by
  constructor
  · rintro ⟨status, hread, hrecognised, hannotated⟩
    have hreadable := c.readable_of_recognised hread hrecognised
    obtain ⟨status', hread', -, hlocal⟩ := c.recognised_of_readable hreadable
    rw [hread] at hread'
    cases hread'
    exact ⟨hreadable, (c.annotated_iff hrecognised.remotePath hlocal hrecognised.name).1 hannotated⟩
  · rintro ⟨hreadable, hplaced⟩
    obtain ⟨status, hread, hrecognised, hlocal⟩ := c.recognised_of_readable hreadable
    exact ⟨status, hread, hrecognised, (c.annotated_iff hrecognised.remotePath hlocal hrecognised.name).2 hplaced⟩

end Listed

/-! ## The queue -/

/-- The lines around the queued commands: after them the jobs follow, or nothing. -/
structure Listing (p : Patterns) where
  first : Codes
  second : Codes
  status : Codes
  executing : List Codes
  heading : Codes
  after : List Codes
  header1 : p.header1 first = true
  header2 : p.header2 second = true
  running : executing ≠ [] → isStopped status = false ∧ startsWith "Now executing:" status = true ∧
    ∀ line ∈ executing, isExecuting p.py line = true
  queued : startsWith "Commands queued:" heading = true
  jobs : ∀ line ∈ after.head?, isBracketed p.py line = true

namespace Listing

variable {p : Patterns} (listing : Listing p)

/-- The output of the status command, line by line. -/
def lines (rows : List Codes) : List Codes :=
  listing.first :: listing.second :: listing.status ::
    (listing.executing ++ listing.heading :: (rows ++ listing.after))

theorem not_executing_heading : isExecuting p.py listing.heading = false := by
  have hqueued := listing.queued
  rw [startsWith, List.isPrefixOf_iff_prefix] at hqueued
  obtain ⟨rest, hrest⟩ := hqueued
  rw [← hrest]
  rfl

theorem dropExecuting_lines (rest : List Codes) :
    dropExecuting p listing.status (listing.executing ++ listing.heading :: rest) = listing.heading :: rest := by
  by_cases hnone : listing.executing = []
  · rw [hnone, List.nil_append, dropExecuting]
    split
    · rfl
    · split
      · rw [List.dropWhile_cons_of_neg (by simp [listing.not_executing_heading])]
      · rfl
  · obtain ⟨hstopped, hexecuting, hall⟩ := listing.running hnone
    rw [dropExecuting, if_neg (by simp [hstopped]), if_pos hexecuting, List.dropWhile_append_of_pos hall,
      List.dropWhile_cons_of_neg (by simp [listing.not_executing_heading])]

end Listing

variable {p : Patterns}

theorem queueLoop_after {after : List Codes} (h : ∀ line ∈ after.head?, isBracketed p.py line = true) (skipping : Bool) :
    queueLoop p skipping after = .ok ([], after) := by
  cases after with
  | nil => rfl
  | cons line rest =>
    have hbracketed := h line rfl
    rw [queueLoop, if_neg (by simp [endsSkipped, hbracketed]), if_neg (by simp [not_numbered_of_bracketed hbracketed]),
      if_neg (by simp [not_cd_of_bracketed hbracketed])]

/-- Each row is read by itself. -/
theorem queueLoop_rows {rows after : List Codes} (hrows : ∀ row ∈ rows, isNumbered p.py row = true)
    (hafter : ∀ line ∈ after.head?, isBracketed p.py line = true) (skipping : Bool) :
    queueLoop p skipping (rows ++ after) = (fun found => (found.reduceOption, after)) <$> rows.mapM (readRow p) := by
  induction rows generalizing skipping with
  | nil => exact queueLoop_after hafter skipping
  | cons row rows ih =>
    have hnumbered := hrows row (by simp)
    have hrest := fun skipping => ih (fun other hother => hrows other (by simp [hother])) skipping
    rw [List.cons_append, queueLoop, if_neg (by simp [endsSkipped, hnumbered]), if_pos hnumbered, List.mapM_cons]
    cases hread : readRow p row with
    | error e => rfl
    | ok found =>
      cases found with
      | none =>
        change queueLoop p true (rows ++ after) = _
        rw [hrest]
        cases rows.mapM (readRow p) <;> rfl
      | some status =>
        change (queueLoop p false (rows ++ after) >>= fun read => pure (status :: read.1, read.2)) = _
        rw [hrest]
        cases rows.mapM (readRow p) <;> rfl

/-- Every row has its status just if each is read by itself to one. -/
theorem mapM_all_iff {α β γ : Type} {f : α → Except Raised (Option β)} {R : γ → β → Prop} (g : γ → α) (l : List γ) :
    (∃ found, (l.map g).mapM f = .ok found ∧ List.Forall₂ R l found.reduceOption) ↔
      ∀ c ∈ l, ∃ b, f (g c) = .ok (some b) ∧ R c b := by
  have hlength : ∀ {l : List γ} {found}, (l.map g).mapM f = .ok found → found.length = l.length := by
    intro l
    induction l with
    | nil =>
      intro found h
      cases h
      rfl
    | cons c l ih =>
      intro found h
      rw [List.map_cons, List.mapM_cons] at h
      obtain ⟨first, -, h⟩ := ok_of_bind h
      obtain ⟨rest, hrest, h⟩ := ok_of_bind h
      cases h
      simp [ih hrest]
  induction l with
  | nil =>
    constructor
    · intro _ c hc
      cases hc
    · intro _
      exact ⟨[], rfl, List.Forall₂.nil⟩
  | cons c l ih =>
    refine Iff.trans ?_ ((and_congr_right' ih).trans List.forall_mem_cons.symm)
    rw [List.map_cons, List.mapM_cons]
    constructor
    · rintro ⟨found, hfound, hall⟩
      obtain ⟨first, hfirst, hfound⟩ := ok_of_bind hfound
      obtain ⟨rest, hrest, hfound⟩ := ok_of_bind hfound
      cases hfound
      cases first with
      | none =>
        -- One status is missing, and no row has two.
        have hless := List.reduceOption_length_le rest
        have hsame := hall.length_eq
        rw [List.reduceOption_cons_of_none] at hsame
        rw [List.length_cons, ← hlength hrest] at hsame
        omega
      | some b =>
        rw [List.reduceOption_cons_of_some] at hall
        obtain ⟨hb, hall⟩ := List.forall₂_cons.1 hall
        exact ⟨⟨b, hfirst, hb⟩, rest, hrest, hall⟩
    · rintro ⟨⟨b, hfirst, hb⟩, rest, hrest, hall⟩
      refine ⟨some b :: rest, ?_, ?_⟩
      · rw [hfirst, hrest]
        rfl
      · rw [List.reduceOption_cons_of_some]
        exact List.Forall₂.cons hb hall

theorem parseQueue_rows (listing : Listing p) {first : Codes} {more : List Codes}
    (hrows : ∀ row ∈ first :: more, isNumbered p.py row = true) :
    parseQueue p.withQueue (listing.lines (first :: more)) =
      (fun found => (found.reduceOption, dropDone p listing.after)) <$> (first :: more).mapM (readRow p.withQueue) := by
  have hloop := @queueLoop_rows p.withQueue (first :: more) listing.after hrows listing.jobs false
  have hdrop : dropExecuting p.withQueue listing.status (listing.executing ++ listing.heading ::
      (first :: more ++ listing.after)) = listing.heading :: (first :: more ++ listing.after) :=
    listing.dropExecuting_lines _
  unfold Listing.lines parseQueue
  dsimp only
  rw [show p.withQueue.header1 = p.header1 from rfl, show p.withQueue.header2 = p.header2 from rfl, listing.header1,
    listing.header2, if_neg (by simp), if_neg (by simp), hdrop]
  dsimp only
  rw [if_pos listing.queued, List.cons_append]
  dsimp only
  rw [← List.cons_append, hloop]
  cases (first :: more).mapM (readRow p.withQueue) <;> rfl

/-- The status shows every queued command as what it is, with the pair and the name that it should
have, just if each can be read and its paths are placed. -/
theorem queued_commands (cwd : WorkingDirectory) (pairs : Dict Codes PairPaths) (listing : Listing p) (first : Listed p)
    (more : List (Listed p)) :
    (∃ statuses after,
      parseQueue p.withQueue (listing.lines ((first :: more).map Listed.row)) = .ok (statuses, after) ∧
      List.Forall₂ (fun c status => c.Recognised status ∧ c.Annotated pairs (annotate cwd pairs status))
        (first :: more) statuses) ↔
      ∀ c ∈ first :: more, c.Readable ∧ c.Placed pairs := by
  have hrows : ∀ row ∈ (first :: more).map Listed.row, isNumbered p.py row = true := by
    intro row hrow
    obtain ⟨c, -, rfl⟩ := List.mem_map.1 hrow
    exact c.numbered_row
  have hparse : parseQueue p.withQueue (listing.lines ((first :: more).map Listed.row)) =
      (fun found => (found.reduceOption, dropDone p listing.after)) <$>
        ((first :: more).map Listed.row).mapM (readRow p.withQueue) := parseQueue_rows listing hrows
  have hall := mapM_all_iff (f := readRow p.withQueue)
    (R := fun c status => c.Recognised status ∧ c.Annotated pairs (annotate cwd pairs status)) Listed.row (first :: more)
  have heach : (∀ c ∈ first :: more, ∃ status, readRow p.withQueue c.row = .ok (some status) ∧
      c.Recognised status ∧ c.Annotated pairs (annotate cwd pairs status)) ↔
      ∀ c ∈ first :: more, c.Readable ∧ c.Placed pairs :=
    forall₂_congr fun c _ => c.row_recognised_iff
  rw [← heach, ← hall, hparse]
  constructor
  · rintro ⟨statuses, after, hstatuses, hforall⟩
    obtain ⟨found, hfound, heq⟩ := ok_of_map hstatuses
    cases heq
    exact ⟨found, hfound, hforall⟩
  · rintro ⟨found, hfound, hforall⟩
    exact ⟨_, _, by rw [hfound]; rfl, hforall⟩

/-- A command for a pair without a root that is passed over gets the name that it was queued with. -/
theorem Listed.relativeName_queued (c : Listed p) (h : c.remoteDir ≠ []) :
    relativeName c.remoteDir c.remotePath c.lastName = c.call.name := by
  obtain ⟨front, hcomponents, hfront⟩ := c.components_remotePath
  obtain ⟨-, rfl⟩ := hfront h
  unfold relativeName
  rw [hcomponents, List.drop_left]
  have hjoin : joined (c.call.name.splitOn 47) = c.call.name := List.intercalate_splitOn 47
  cases hsplit : c.call.name.splitOn 47 with
  | nil => exact absurd hsplit (List.splitOn_ne_nil 47 _)
  | cons first rest =>
    rw [hsplit] at hjoin
    exact hjoin

/-! ## Usual commands -/

theorem not_reopens {Ends : Codes → Prop} {destination : Codes} (hplain : marks destination = 0)
    (hhead : destination.head?.any isSpace = false) (hends : ∀ text, Ends text → text.head?.any isSpace = true) :
    ¬ Reopens Ends destination := by
  have hquote : 34 ∉ destination := by
    intro hmem
    have hpos : 0 < marks destination := List.countP_pos_iff.2 ⟨34, hmem, rfl⟩
    omega
  rintro ⟨u, v, hsplit, hv⟩
  rw [quotedArgument, escape_of_no_marks hplain] at hsplit
  have hspace := hends v hv
  cases u with
  | nil =>
    obtain ⟨-, rfl⟩ := List.cons.inj hsplit
    cases destination with
    | nil => cases hspace
    | cons c rest =>
      rw [List.cons_append] at hspace
      rw [List.head?_cons] at hspace hhead
      rw [hspace] at hhead
      cases hhead
  | cons c u =>
    obtain ⟨-, hsplit⟩ := List.cons.inj hsplit
    obtain ⟨u', hlast⟩ := split_after hquote hsplit
    cases u' with
    | nil =>
      obtain ⟨-, rfl⟩ := List.cons.inj hlast
      cases hspace
    | cons d u' => simp at hlast

/-- A command whose paths have no quote, no backslash and no blank at an end is readable. -/
theorem Listed.readable_of_usual (c : Listed p) (hmark : hasText marker c.row = false) (hremote : marks c.remotePath = 0)
    (htrimmed : strip c.remotePath = c.remotePath) (hlocal : marks c.destination = 0)
    (hhead : c.destination.head?.any isSpace = false) (hdash : startsWith "-" c.remotePath = false)
    (hmisread : misread c.options = false) : c.Readable where
  unmarked := hmark
  plain := hremote
  trimmed := htrimmed
  file _ := not_reopens hlocal hhead fun text ⟨gap, _, _, htext, hne, _, hgap, _⟩ => by
    obtain ⟨d, gap, rfl⟩ := List.exists_cons_of_ne_nil hne
    rw [htext]
    exact hgap d (by simp)
  folder _ _ := not_reopens hlocal hhead fun text ⟨d, rest, htext, hd⟩ => by
    rw [htext]
    exact hd
  excluding _ _ := ⟨hmisread, hdash⟩

def sampleAnswers : LocalAnswers where
  fileResumeArtifacts _ _ _ := .ok (false, false)
  allowLegacyGetResume _ _ _ := .ok false
  isContained _ _ := true
  makesDirectory _ := true

def sampleCall (name : String) : QueueCall where
  name := codes name
  isDir := false

def sampleNumber : RowNumber asciiDecimals where
  digits := codes "1"
  gap := [32]
  nonempty := by decide
  digit := by decide
  spaced := by decide
  blank := by decide

def filmCommand : Listed snapshotPatterns where
  answers := sampleAnswers
  bases := ⟨codes "/remote", codes "/local"⟩
  call := sampleCall "film"
  command := codes "queue pget -c \"/remote/film\" -o \"/local/\""
  accepted := by decide +kernel
  number := sampleNumber
  id := 1
  numbered := by decide

/-- Its name has a quote. -/
def cutCommand : Listed snapshotPatterns where
  answers := sampleAnswers
  bases := ⟨codes "/remote", codes "/local"⟩
  call := sampleCall "7\" cut"
  command := codes "queue pget -c \"/remote/7\\\" cut\" -o \"/local/\""
  accepted := by decide +kernel
  number := sampleNumber
  id := 1
  numbered := by decide

def sampleListing : Listing snapshotPatterns where
  first := queueLine
  second := serverLine
  status := stoppedLine
  executing := []
  heading := commandsLine
  after := []
  header1 := by decide
  header2 := by decide
  running := by simp
  queued := by decide +kernel
  jobs := by simp

def samplePairs : Dict Codes PairPaths where
  items := [(codes "films", ⟨codes "Films", codes "/remote", codes "/local"⟩)]

def rootDirectory : WorkingDirectory where
  path := codes "/"
  absolute := by decide

theorem filmCommand_shown :
    ∃ statuses after,
      parseQueue snapshotPatterns.withQueue (sampleListing.lines ([filmCommand].map Listed.row)) = .ok (statuses, after) ∧
      List.Forall₂ (fun c status => c.Recognised status ∧
        c.Annotated samplePairs (annotate rootDirectory samplePairs status)) [filmCommand] statuses := by
  rw [queued_commands rootDirectory samplePairs sampleListing filmCommand []]
  have hregular : Regular (codes "/remote") := by decide +kernel
  intro c hc
  rw [List.mem_singleton.1 hc]
  refine ⟨filmCommand.readable_of_usual (by decide +kernel) (by decide +kernel) (by decide +kernel) (by decide +kernel)
    (by decide +kernel) (by decide +kernel) (by decide +kernel), ?_, ?_⟩
  · intro pair honly
    obtain rfl := List.mem_singleton.1 honly.mem
    exact ⟨hregular, fun other hother hne => absurd (List.mem_singleton.1 hother) hne⟩
  · intro pair hpair _
    rw [List.mem_singleton.1 hpair]
    exact Or.inl hregular

/-- The remote path of a command whose name has a quote is read with a backslash. -/
theorem cutCommand_misread :
    ¬ ∃ statuses after,
      parseQueue snapshotPatterns.withQueue (sampleListing.lines ([cutCommand].map Listed.row)) = .ok (statuses, after) ∧
      List.Forall₂ (fun c status => c.Recognised status ∧
        c.Annotated samplePairs (annotate rootDirectory samplePairs status)) [cutCommand] statuses := by
  have hread : (parseQueue snapshotPatterns.withQueue (sampleListing.lines ([cutCommand].map Listed.row))).map
      (fun read => read.1.map (·.remotePath)) = .ok [codes "/remote/7\\\" cut"] := by decide +kernel
  rintro ⟨statuses, after, hparse, hall⟩
  rw [hparse] at hread
  obtain ⟨status, hstatus, rfl⟩ : ∃ status, status.remotePath = codes "/remote/7\\\" cut" ∧ statuses = [status] := by
    have hmap : statuses.map (·.remotePath) = [codes "/remote/7\\\" cut"] := Except.ok.inj hread
    cases statuses with
    | nil => cases hmap
    | cons status statuses =>
      obtain ⟨hstatus, hnone⟩ := List.cons.inj hmap
      exact ⟨status, hstatus, by rw [List.map_eq_nil_iff.1 hnone]⟩
  obtain ⟨⟨hrecognised, -⟩, -⟩ := List.forall₂_cons.1 hall
  have hpath := hstatus.symm.trans hrecognised.remotePath
  exact absurd hpath (by decide +kernel)

end SeedSync.Lftp
