import SeedSync.Lftp.Parser
import SeedSync.Lib.Covers
import SeedSync.Lib.Stateful

/-!
# The jobs of a snapshot

Which lines of a snapshot a successful parse has a status for, and that no status comes from
elsewhere: the rows of the queue that an expression reads, and the headers of jobs, other than those
that the line in front of them takes for its own.
-/

namespace SeedSync.Lftp

open Lib Sidecar

variable (p : Patterns)

/-! ## Rows and headers -/

/-- A row of the queue that is read, and does not look like an echo of the status command. -/
def isCommand (line : Codes) : Bool :=
  !hasText marker line &&
    match parseKnownOptionsMirrorHeader p p.mirrorQueueHeaderPrefix line with
    | .ok (some _) => true
    | .ok none => (p.queuePget line).isSome || (p.queueMirror line).isSome
    | .error _ => false

/-- The lines go on with the queued commands: rows, their `cd` lines, and what follows a row that
was passed over. -/
def inSection : Bool → List Codes → Bool
  | _, [] => true
  | skipping, line :: rest =>
    if skipping && !endsSkipped p line then inSection true rest
    else if isNumbered p.py line then inSection (!isCommand p line) rest
    else if isCd line then inSection false rest
    else false

/-- The lines after the header of the queued commands. -/
def sectionLines : List Codes → Option (List Codes)
  | _ :: _ :: status :: rest =>
    match dropExecuting p status rest with
    | line :: rest => if startsWith "Commands queued:" line then some rest else none
    | [] => none
  | _ => none

/-- A row of the queued commands. -/
structure QueuedRow (before : List Codes) (line : Codes) : Prop where
  place : ∃ rows, sectionLines p before = some rows ∧ inSection p false rows = true
  numbered : isNumbered p.py line = true
  command : isCommand p line = true

/-- A header of a job that is executed. -/
def isHeader (line : Codes) : Bool :=
  (p.pgetHeader line).isSome || (p.mirrorHeader line).isSome || (p.mirrorFlHeader line).isSome ||
    match parseKnownOptionsMirrorHeader p p.mirrorHeaderPrefix line with
    | .ok (some _) => true
    | _ => false

/-- The line is one that the line in front of it may be followed by: the connection of a `pget`,
the listing of a mirror, or the second line of a `chmod`. -/
def takes (previous line : Codes) : Bool :=
  (p.pgetHeader previous).isSome || (p.mirrorEmpty previous).any (fun name => followsMirror name line) ||
    (startsWith "file:" previous && (p.chmod line).isSome)

/-- A header after the three lines of the queue, that is not taken by the line in front of it. -/
structure JobRow (before : List Codes) (line : Codes) : Prop where
  place : 3 ≤ before.length
  header : isHeader p line = true
  free : ∀ previous ∈ before.getLast?, takes p previous line = false

def Row (before : List Codes) (line : Codes) : Prop := QueuedRow p before line ∨ JobRow p before line

/-- The id that a line begins with, and the state that it shows. -/
def Shows (line : Codes) (key : Nat × JobState) : Prop :=
  ∃ text, int p.py text = .ok key.1 ∧
    ((key.2 = .queued ∧ (matchNumber p.py line).map Prod.fst = some text) ∨
      (key.2 = .running ∧ (matchBracket p.py line).map Prod.fst = some text))

/-- What a status is known by. -/
def JobStatus.key (status : JobStatus) : Nat × JobState := (status.id, status.state)

variable {p}

/-! ## Lines are of one kind -/

theorem head_of_bracketed {py : Decimals} {line : Codes} (h : isBracketed py line = true) : ∃ rest, line = 91 :: rest := by
  unfold isBracketed matchBracket at h
  split at h
  · exact ⟨_, rfl⟩
  · cases h

theorem digit_of_numbered {py : Decimals} {line : Codes} (h : isNumbered py line = true) :
    ∃ c rest, line = c :: rest ∧ isDigit py c = true := by
  unfold isNumbered matchNumber at h
  cases line with
  | nil => cases h
  | cons c rest =>
    refine ⟨c, rest, rfl, ?_⟩
    by_contra hdigit
    rw [List.takeWhile_cons_of_neg hdigit] at h
    split at h <;> simp at h

theorem not_digit {py : Decimals} {c : Nat} (h : c < 48) : isDigit py c = false := by
  unfold isDigit
  rw [py.ascii c (by omega), if_neg (by omega)]
  rfl

theorem not_digit_of_gt {py : Decimals} {c : Nat} (h : 57 < c) (h' : c < 128) : isDigit py c = false := by
  unfold isDigit
  rw [py.ascii c h', if_neg (by omega)]
  rfl

theorem not_numbered_of_bracketed {py : Decimals} {line : Codes} (h : isBracketed py line = true) :
    isNumbered py line = false := by
  by_contra hnumbered
  obtain ⟨rest, rfl⟩ := head_of_bracketed h
  obtain ⟨c, _, heq, hdigit⟩ := digit_of_numbered (Bool.eq_true_of_not_eq_false hnumbered)
  cases heq
  rw [not_digit_of_gt (by decide) (by decide)] at hdigit
  cases hdigit

theorem not_cd_of_bracketed {py : Decimals} {line : Codes} (h : isBracketed py line = true) : isCd line = false := by
  obtain ⟨rest, rfl⟩ := head_of_bracketed h
  rfl

theorem not_numbered_of_cd {py : Decimals} {line : Codes} (h : isCd line = true) : isNumbered py line = false := by
  by_contra hnumbered
  obtain ⟨c, rest, rfl, hdigit⟩ := digit_of_numbered (Bool.eq_true_of_not_eq_false hnumbered)
  unfold isCd at h
  split at h
  · rename_i heq
    cases heq
    rw [not_digit_of_gt (by decide) (by decide)] at hdigit
    cases hdigit
  · cases h

theorem parseKnown_some {prefixPattern : Codes → Option (Codes × Nat)} {line : Codes} {header : KnownHeader}
    (h : parseKnownOptionsMirrorHeader p prefixPattern line = .ok (some header)) :
    ∃ m, prefixPattern line = some m ∧ int p.py m.1 = .ok header.id := by
  unfold parseKnownOptionsMirrorHeader at h
  split at h
  · cases h
  · rename_i id stop hprefix
    refine ⟨_, hprefix, ?_⟩
    dsimp only at h
    split at h
    · cases h
    obtain ⟨words, -, h⟩ := ok_of_bind h
    split at h
    · cases h
    obtain ⟨⟨positionals, separator⟩, -, h⟩ := ok_of_bind h
    obtain ⟨⟨remote, localPath⟩, -, h⟩ := ok_of_bind h
    have hid : ∀ {suffix : Except Raised (Option ProgressMatch)} {f : Option ProgressMatch → Nat → KnownHeader},
        (∀ progress number, (f progress number).id = number) → (do
          let progress ← suffix
          let number ← int p.py id
          return some (f progress number)) = .ok (some header) → int p.py id = .ok header.id := by
      intro suffix f hf h
      obtain ⟨progress, -, h⟩ := ok_of_bind h
      obtain ⟨number, hnumber, h⟩ := ok_of_bind h
      cases h
      rw [hf]
      exact hnumber
    dsimp only at h
    cases separator with
    | none => exact hid (fun _ _ => rfl) h
    | some word =>
      dsimp only at h
      split at h
      · cases h
      · exact hid (fun _ _ => rfl) h

theorem bracketed_of_id {py : Decimals} {line text : Codes} (h : (matchBracket py line).map Prod.fst = some text) :
    isBracketed py line = true := by
  unfold isBracketed
  cases hmatch : matchBracket py line with
  | none => simp [hmatch] at h
  | some m => rfl

theorem isHeader_bracketed {line : Codes} (h : isHeader p line = true) : isBracketed p.py line = true := by
  unfold isHeader at h
  simp only [Bool.or_eq_true, Option.isSome_iff_exists] at h
  rcases h with ((⟨m, hm⟩ | ⟨m, hm⟩) | ⟨m, hm⟩) | hknown
  · exact bracketed_of_id (p.pgetHeader_id line m hm)
  · exact bracketed_of_id (p.mirrorHeader_id line m hm)
  · exact bracketed_of_id (p.mirrorFlHeader_id line m hm)
  · split at hknown
    · rename_i header hheader
      obtain ⟨m, hm, -⟩ := parseKnown_some hheader
      exact bracketed_of_id (p.mirrorHeaderPrefix_id line m hm)
    · cases hknown

theorem not_header_of_numbered {line : Codes} (h : isNumbered p.py line = true) : isHeader p line = false := by
  by_contra hheader
  rw [not_numbered_of_bracketed (isHeader_bracketed (Bool.eq_true_of_not_eq_false hheader))] at h
  cases h

/-- A line of another kind than rows and headers. -/
theorem not_row {before : List Codes} {line : Codes} (hnumbered : isNumbered p.py line = false)
    (hbracketed : isBracketed p.py line = false) : ¬ Row p before line := by
  rintro (hrow | hrow)
  · have := hrow.numbered
    rw [hnumbered] at this
    cases this
  · have := isHeader_bracketed hrow.header
    rw [hbracketed] at this
    cases this

/-! ## One row of the queue -/

theorem queuedStatus_shows {type : JobType} {m : PathsMatch} {status : JobStatus} {line : Codes}
    (h : queuedStatus p type m = .ok status) (hid : (matchNumber p.py line).map Prod.fst = some m.id) :
    Shows p line status.key := by
  unfold queuedStatus at h
  obtain ⟨id, hint, h⟩ := ok_of_bind h
  cases h
  exact ⟨m.id, hint, Or.inl ⟨rfl, hid⟩⟩

theorem readRow_none {line : Codes} (h : readRow p line = .ok none) : isCommand p line = false := by
  unfold readRow at h
  unfold isCommand
  split at h
  · rename_i hmarker
    rw [hmarker]
    rfl
  · obtain ⟨known, hknown, h⟩ := ok_of_bind h
    rw [hknown]
    cases known with
    | some header => cases h
    | none =>
      dsimp only at h ⊢
      cases hpget : p.queuePget line with
      | some m =>
        rw [hpget] at h
        obtain ⟨_, -, hsome⟩ := ok_of_map h
        cases hsome
      | none =>
        cases hmirror : p.queueMirror line with
        | some m =>
          rw [hpget, hmirror] at h
          obtain ⟨_, -, hsome⟩ := ok_of_map h
          cases hsome
        | none => simp

theorem readRow_some {line : Codes} {status : JobStatus} (h : readRow p line = .ok (some status)) :
    isCommand p line = true ∧ Shows p line status.key := by
  unfold readRow at h
  unfold isCommand
  split at h
  · cases h
  rename_i hmarker
  obtain ⟨known, hknown, h⟩ := ok_of_bind h
  rw [hknown]
  cases known with
  | some header =>
    cases h
    obtain ⟨m, hm, hint⟩ := parseKnown_some hknown
    refine ⟨by simp [hmarker], m.1, hint, Or.inl ⟨rfl, p.mirrorQueueHeaderPrefix_id line m hm⟩⟩
  | none =>
    dsimp only at h ⊢
    cases hpget : p.queuePget line with
    | some m =>
      rw [hpget] at h
      obtain ⟨status', hstatus, hmap⟩ := ok_of_map h
      cases hmap
      exact ⟨by simp [hmarker], queuedStatus_shows hstatus (p.queuePget_id line m hpget)⟩
    | none =>
      cases hmirror : p.queueMirror line with
      | some m =>
        rw [hpget, hmirror] at h
        obtain ⟨status', hstatus, hmap⟩ := ok_of_map h
        cases hmap
        exact ⟨by simp [hmarker], queuedStatus_shows hstatus (p.queueMirror_id line m hmirror)⟩
      | none =>
        rw [hpget, hmirror] at h
        cases h

/-! ## The queued commands -/

/-- The loop has a status for every row that is a command, and stops at a line that no longer
belongs to the commands. -/
theorem queueLoop_covers (before : List Codes) (skipping : Bool) (lines : List Codes) {queue : List JobStatus}
    {rest : List Codes} (h : queueLoop p skipping lines = .ok (queue, rest)) :
    ∃ rows, lines = rows ++ rest ∧ Covers (Row p) (Shows p) before rows (queue.map JobStatus.key) ∧
      ∀ line ∈ rest.head?, ∀ more, inSection p skipping (rows ++ line :: more) = false := by
  induction lines generalizing before skipping queue with
  | nil =>
    cases h
    exact ⟨[], rfl, .nil, by simp⟩
  | cons line lines ih =>
    -- A line that has no status, after which the loop goes on.
    have hpass : ∀ {skipping' : Bool}, queueLoop p skipping' lines = .ok (queue, rest) → ¬ Row p before line →
        (∀ tail, inSection p skipping (line :: tail) = inSection p skipping' tail) →
        ∃ rows, line :: lines = rows ++ rest ∧ Covers (Row p) (Shows p) before rows (queue.map JobStatus.key) ∧
          ∀ line ∈ rest.head?, ∀ more, inSection p skipping (rows ++ line :: more) = false := by
      intro skipping' h hnot hsection
      obtain ⟨rows, hlines, hcovers, hstop⟩ := ih (before ++ [line]) skipping' h
      refine ⟨line :: rows, by rw [hlines]; rfl, .leave hnot hcovers, fun next hnext more => ?_⟩
      rw [List.cons_append, hsection]
      exact hstop next hnext more
    rw [queueLoop] at h
    split at h
    · rename_i hskip
      have hends := (Bool.and_eq_true_iff.mp hskip).2
      simp only [endsSkipped, Bool.not_eq_true', Bool.or_eq_false_iff] at hends
      exact hpass h (not_row hends.1.1.1 hends.1.2) fun tail => by rw [inSection, if_pos hskip]
    rename_i hskip
    split at h
    · rename_i hnumbered
      obtain ⟨read, hread, h⟩ := ok_of_bind h
      cases read with
      | none =>
        refine hpass h ?_ fun tail => by rw [inSection, if_neg hskip, if_pos hnumbered, readRow_none hread]; rfl
        rintro (hrow | hrow)
        · have := hrow.command
          rw [readRow_none hread] at this
          cases this
        · have := hrow.header
          rw [not_header_of_numbered hnumbered] at this
          cases this
      | some status =>
        obtain ⟨⟨queue', rest'⟩, hloop, h⟩ := ok_of_bind h
        cases h
        obtain ⟨hcommand, hshows⟩ := readRow_some hread
        obtain ⟨rows, hlines, hcovers, hstop⟩ := ih (before ++ [line]) false hloop
        refine ⟨line :: rows, by rw [hlines]; rfl, .take hshows hcovers, fun next hnext more => ?_⟩
        rw [List.cons_append, inSection, if_neg hskip, if_pos hnumbered, hcommand]
        exact hstop next hnext more
    rename_i hnumbered
    split at h
    · rename_i hcd
      refine hpass h ?_ fun tail => by rw [inSection, if_neg hskip, if_neg hnumbered, if_pos hcd]
      refine not_row (Bool.eq_false_of_not_eq_true hnumbered) ?_
      by_contra hbracketed
      rw [not_cd_of_bracketed (Bool.eq_true_of_not_eq_false hbracketed)] at hcd
      cases hcd
    · rename_i hcd
      cases h
      refine ⟨[], rfl, .nil, fun next hnext more => ?_⟩
      cases hnext
      rw [List.nil_append, inSection, if_neg hskip, if_neg hnumbered, if_neg hcd]

/-! ## The parts of the queue -/

theorem isHeader_head {line : Codes} (h : isHeader p line = true) : ∃ rest, line = 91 :: rest :=
  head_of_bracketed (isHeader_bracketed h)

theorem not_executing {line : Codes} (h : isExecuting p.py line = true) :
    isNumbered p.py line = false ∧ isBracketed p.py line = false := by
  unfold isExecuting at h
  split at h
  · rename_i rest
    refine ⟨?_, rfl⟩
    by_contra hnumbered
    obtain ⟨c, _, heq, hdigit⟩ := digit_of_numbered (Bool.eq_true_of_not_eq_false hnumbered)
    cases heq
    rw [not_digit (by decide)] at hdigit
    cases hdigit
  · cases h

theorem commands_line {line : Codes} (h : startsWith "Commands queued:" line = true) :
    isNumbered p.py line = false ∧ isBracketed p.py line = false ∧ isExecuting p.py line = false ∧
      p.queueDone line = false := by
  obtain ⟨rest, rfl⟩ : ∃ rest, line = 67 :: rest := by
    obtain ⟨rest, rfl⟩ := List.isPrefixOf_iff_prefix.mp h
    exact ⟨_, rfl⟩
  refine ⟨?_, rfl, rfl, ?_⟩
  · by_contra hnumbered
    obtain ⟨c, _, heq, hdigit⟩ := digit_of_numbered (Bool.eq_true_of_not_eq_false hnumbered)
    cases heq
    rw [not_digit_of_gt (by decide) (by decide)] at hdigit
    cases hdigit
  · by_contra hdone
    have := (p.queueDone_other _ (Bool.eq_true_of_not_eq_false hdone)).2.2.2.2
    cases this

/-- A `Done` line is no header, though it begins like one. -/
theorem not_row_of_done {before : List Codes} {line : Codes} (h : p.queueDone line = true) : ¬ Row p before line := by
  obtain ⟨hpget, hmirror, hmirrorFl, hprefix, hbracketed⟩ := p.queueDone_other line h
  rintro (hrow | hrow)
  · have := hrow.numbered
    rw [not_numbered_of_bracketed hbracketed] at this
    cases this
  · have := hrow.header
    unfold isHeader parseKnownOptionsMirrorHeader at this
    rw [hpget, hmirror, hmirrorFl, hprefix] at this
    cases this

/-- The first three lines have no status. -/
theorem not_row_early {before : List Codes} (h : before.length < 3) (line : Codes) : ¬ Row p before line := by
  rintro (hrow | hrow)
  · obtain ⟨rows, hrows, -⟩ := hrow.place
    unfold sectionLines at hrows
    split at hrows
    · simp only [List.length_cons] at h
      omega
    · cases hrows
  · have := hrow.place
    omega

theorem dropExecuting_split (status : Codes) (lines : List Codes) :
    ∃ executing, lines = executing ++ dropExecuting p status lines ∧
      (∀ line ∈ executing, isExecuting p.py line = true) ∧ dropExecuting p status executing = [] ∧
      ∀ line ∈ (dropExecuting p status lines).head?, ∀ tail,
        dropExecuting p status (executing ++ line :: tail) = line :: tail := by
  unfold dropExecuting
  split_ifs
  · exact ⟨[], rfl, by simp, rfl, fun _ _ _ => rfl⟩
  · refine ⟨lines.takeWhile (isExecuting p.py), List.takeWhile_append_dropWhile.symm,
      fun line hline => List.mem_takeWhile_imp hline, ?_, fun line hline tail => ?_⟩
    · rw [List.dropWhile_eq_nil_iff]
      exact fun line hline => List.mem_takeWhile_imp hline
    · rw [List.dropWhile_append_of_pos fun line hline => List.mem_takeWhile_imp hline]
      refine List.dropWhile_cons_of_neg ?_
      have := List.head?_dropWhile_not (isExecuting p.py) lines
      rw [Option.mem_def.mp hline] at this
      simpa using this
  · exact ⟨[], rfl, by simp, rfl, fun _ _ _ => rfl⟩

theorem dropDone_split (lines : List Codes) :
    ∃ done, lines = done ++ dropDone p lines ∧ ∀ line ∈ done, p.queueDone line = true := by
  cases lines with
  | nil => exact ⟨[], rfl, by simp⟩
  | cons line rest =>
    rw [dropDone]
    split_ifs with hdone
    · exact ⟨[line], rfl, by simpa using hdone⟩
    · exact ⟨[], rfl, by simp⟩

/-- A row goes on with the commands, whatever line is in front of it. -/
theorem inSection_concat {skipping : Bool} {rows : List Codes} {line : Codes} (h : inSection p skipping rows = true)
    (hnumbered : isNumbered p.py line = true) : inSection p skipping (rows ++ [line]) = true := by
  induction rows generalizing skipping with
  | nil =>
    simp [inSection, hnumbered]
  | cons first rows ih =>
    rw [inSection] at h
    rw [List.cons_append, inSection]
    split_ifs at h ⊢ <;> exact ih h

/-- A line that passes over the queue leaves no row behind it. -/
theorem covers_none {before lines : List Codes} (h : ∀ line ∈ lines, ∀ front, ¬ Row p front line) :
    Covers (Row p) (Shows p) before lines [] :=
  Covers.none_of_forall fun front line back hsplit => h line (by simp [hsplit]) _

/-- The queue has a status for every row among its lines, and no row comes after them. -/
theorem parseQueue_covers {lines : List Codes} {queue : List JobStatus} {rest : List Codes}
    (h : parseQueue p lines = .ok (queue, rest)) :
    ∃ front, lines = front ++ rest ∧ Covers (Row p) (Shows p) [] front (queue.map JobStatus.key) ∧
      (rest ≠ [] → 3 ≤ front.length) ∧
      ∀ more line back, rest = more ++ line :: back → ¬ QueuedRow p (front ++ more) line := by
  unfold parseQueue at h
  split at h
  · cases h
    exact ⟨[], rfl, .nil, by simp, by simp⟩
  · rename_i line
    split at h
    · cases h
      refine ⟨[line], rfl, .leave (not_row_early (by simp) line) .nil, by simp, by simp⟩
    · cases h
  rename_i first second lines
  split at h
  · cases h
  split at h
  · cases h
  cases lines with
  | nil => cases h
  | cons status lines =>
    dsimp only at h
    obtain ⟨executing, hlines, hexecuting, hnone, hdrop⟩ := dropExecuting_split (p := p) status lines
    have hhead : Covers (Row p) (Shows p) [] (first :: second :: status :: executing) [] := by
      refine .leave (not_row_early (by simp) _) (.leave (not_row_early (by simp) _)
        (.leave (not_row_early (by simp) _) (covers_none fun line hline front => ?_)))
      obtain ⟨hnumbered, hbracketed⟩ := not_executing (hexecuting line hline)
      exact not_row hnumbered hbracketed
    generalize hdropped : dropExecuting p status lines = dropped at h hlines hdrop
    cases dropped with
    | nil =>
      cases h
      exact ⟨first :: second :: status :: executing, by rw [hlines]; simp, hhead, by simp, by simp⟩
    | cons line rows =>
      have hsection : ∀ tail, sectionLines p (first :: second :: status :: (executing ++ line :: tail)) =
          if startsWith "Commands queued:" line then some tail else none := fun tail => by
        rw [sectionLines, hdrop line rfl tail]
      dsimp only at h
      split at h
      · rename_i hcommands
        cases rows with
        | nil => cases h
        | cons row rows =>
          obtain ⟨⟨queue', left⟩, hloop, h⟩ := ok_of_bind h
          cases h
          obtain ⟨read, hread, hcovers, hstop⟩ := queueLoop_covers
            ([] ++ (first :: second :: status :: executing) ++ [line]) false (row :: rows) hloop
          obtain ⟨done, hdone, hdoneRow⟩ := dropDone_split (p := p) left
          obtain ⟨hnumbered, hbracketed, -, -⟩ := commands_line (p := p) hcommands
          refine ⟨first :: second :: status :: executing ++ line :: (read ++ done), ?_, ?_, by simp, ?_⟩
          · rw [hlines, hread]
            conv_lhs => rw [hdone]
            simp
          · have := hhead.append (.leave (not_row hnumbered hbracketed) (hcovers.append
              (covers_none fun line hline front => not_row_of_done (hdoneRow line hline))))
            simpa using this
          · rintro more next back hrest hrow
            obtain ⟨found, hfound, hin⟩ := hrow.place
            have hbefore : first :: second :: status :: executing ++ line :: (read ++ done) ++ more =
                first :: second :: status :: (executing ++ line :: (read ++ done ++ more)) := by simp
            rw [hbefore, hsection, if_pos hcommands] at hfound
            cases hfound
            have hin := inSection_concat hin hrow.numbered
            -- The loop stopped in front of the first of these lines.
            cases hnext : done ++ more ++ [next] with
            | nil => simp at hnext
            | cons stop tail =>
              have hleft : left.head? = some stop := by
                rw [hdone, hrest, show done ++ (more ++ next :: back) = done ++ more ++ [next] ++ back by simp, hnext]
                rfl
              have := hstop stop hleft tail
              rw [← hnext, show read ++ (done ++ more ++ [next]) = read ++ done ++ more ++ [next] by simp, hin] at this
              cases this
      · rename_i hcommands
        cases h
        obtain ⟨done, hdone, hdoneRow⟩ := dropDone_split (p := p) (line :: rows)
        refine ⟨first :: second :: status :: executing ++ done, ?_,
          hhead.append (covers_none fun line hline front => not_row_of_done (hdoneRow line hline)), by simp, ?_⟩
        · rw [hlines, hdone]
          simp [← hdone]
        · rintro more next back hrest hrow
          obtain ⟨found, hfound, -⟩ := hrow.place
          cases hmore : done ++ more with
          | nil =>
            rw [List.append_assoc, hmore, List.append_nil, sectionLines, hnone] at hfound
            cases hfound
          | cons other tail =>
            have hother : other = line := by
              have hsplit : line :: rows = done ++ more ++ next :: back := by
                rw [List.append_assoc, ← hrest]
                exact hdone
              rw [hmore] at hsplit
              cases hsplit
              rfl
            rw [List.append_assoc, hmore, hother, List.cons_append, List.cons_append, List.cons_append, hsection,
              if_neg hcommands] at hfound
            cases hfound

/-! ## One line of the jobs -/

variable (p) in
/-- None of the next lines is a header, unless the line in front of it takes it. -/
def Unowed : Codes → Nat → List Codes → Prop
  | previous, taken + 1, line :: rest => (isHeader p line = true → takes p previous line = true) ∧ Unowed line taken rest
  | _, _, _ => True

theorem not_header_of_head {line : Codes} {c : Nat} (h : line.head? = some c) (hc : c ≠ 91) : isHeader p line = false := by
  by_contra hheader
  obtain ⟨rest, rfl⟩ := isHeader_head (Bool.eq_true_of_not_eq_false hheader)
  cases h
  exact hc rfl

theorem not_header_of_start {start : String} {line : Codes} {c : Nat} {cs : Codes} (hstart : codes start = c :: cs)
    (hc : c ≠ 91) (h : startsWith start line = true) : isHeader p line = false := by
  unfold startsWith at h
  rw [hstart] at h
  obtain ⟨rest, rfl⟩ := List.isPrefixOf_iff_prefix.mp h
  exact not_header_of_head rfl hc

theorem unowed_of_not_header {previous line : Codes} (h : isHeader p line = false) (rest : List Codes) :
    Unowed p previous 1 (line :: rest) := by
  refine ⟨fun hheader => ?_, trivial⟩
  rw [h] at hheader
  cases hheader

/-- A line that is passed over if it passes a test that no header passes. -/
theorem unowed_of_test {test : Codes → Bool} (htest : ∀ line, test line = true → isHeader p line = false)
    (previous : Codes) (rest : List Codes) : Unowed p previous (if rest.head?.any test then 1 else 0) rest := by
  cases rest with
  | nil => trivial
  | cons line rest =>
    split_ifs with h
    · exact unowed_of_not_header (htest line (by simpa using h)) rest
    · trivial

theorem not_header_of_quote {line : Codes} (h : startsWith "`" line = true) : isHeader p line = false :=
  @not_header_of_start p "`" line 96 [] rfl (by decide) h

theorem not_header_of_listing {line : Codes} (h : isListing line = true) : isHeader p line = false := by
  rcases Bool.or_eq_true_iff.mp h with h | h
  · exact not_header_of_start (c := 71) rfl (by decide) h
  · exact not_header_of_start (c := 99) rfl (by decide) h

theorem not_header_of_data {line : Codes} (h : isChunkData p line = true) : isHeader p line = false := by
  have hhead : line.head? = some 96 := by
    simp only [isChunkData, Bool.or_eq_true] at h
    rcases h with (h | h) | h
    · exact p.chunkAt_quoted line h
    · exact p.chunkAt2_quoted line h
    · exact p.chunkGot_quoted line h
  exact not_header_of_head hhead (by decide)

theorem not_header_of_failure {line : Codes}
    (h : (isWrongTypeFailureLine line || startsWith "mirror: Access failed:" line) = true) : isHeader p line = false := by
  by_contra hheader
  obtain ⟨rest, rfl⟩ := isHeader_head (Bool.eq_true_of_not_eq_false hheader)
  unfold isWrongTypeFailureLine at h
  rw [List.dropWhile_cons_of_neg (by decide)] at h
  cases h

@[simp] theorem withTransfer_key (status : JobStatus) (shape : RecordShape) (transferState : TransferState) :
    (status.withTransfer shape transferState).key = status.key := rfl

theorem readPgetData_key {m : PgetMatch} {status read : JobStatus} {data : Codes}
    (h : readPgetData p m status data = .ok read) : read.key = status.key := by
  unfold readPgetData at h
  split at h
  · split at h
    · cases h
    · obtain ⟨transferState, -, h⟩ := ok_of_bind h
      cases h
      rfl
  · split at h
    · cases h
    · cases h
      rfl
  · split at h
    · cases h
    · obtain ⟨transferState, -, h⟩ := ok_of_bind h
      cases h
      rfl
  · cases h
    rfl

/-- A `pget` header has a status, and takes its connection and its data line. -/
theorem readPget_spec {m : PgetMatch} {line : Codes} {rest : List Codes} {status : JobStatus} {taken : Nat}
    (hm : p.pgetHeader line = some m) (h : readPget p m line rest = .ok (status, taken)) :
    Shows p line status.key ∧ Unowed p line taken rest := by
  have htakes : ∀ sftp, takes p line sftp = true := fun sftp => by simp [takes, hm]
  unfold readPget at h
  cases rest with
  | nil => cases h
  | cons sftp rest =>
    dsimp only at h
    split at h
    · cases h
    obtain ⟨id, hid, h⟩ := ok_of_bind h
    have hshows : Shows p line (id, .running) := ⟨m.id, hid, Or.inr ⟨rfl, p.pgetHeader_id line m hm⟩⟩
    split at h
    · rename_i data hdata
      obtain ⟨read, hread, h⟩ := ok_of_bind h
      cases h
      obtain ⟨hhead, hchunk⟩ := Option.filter_eq_some_iff.mp hdata
      obtain ⟨rest, rfl⟩ := List.head?_eq_some_iff.mp hhead
      refine ⟨?_, fun _ => htakes sftp, unowed_of_not_header (not_header_of_data hchunk) rest⟩
      rw [readPgetData_key hread]
      exact hshows
    · cases h
      exact ⟨hshows, fun _ => htakes sftp, trivial⟩

theorem readKnown_key {header : KnownHeader} {status : JobStatus} (h : readKnown p header = .ok status) :
    status.key = (header.id, .running) := by
  unfold readKnown at h
  dsimp only at h
  split at h
  · obtain ⟨transferState, -, h⟩ := ok_of_bind h
    cases h
    rfl
  · cases h
    rfl

theorem addActiveFile_keys {jobs jobs' : List JobStatus} {name : Codes} {transferState : TransferState}
    (h : addActiveFile jobs name transferState = .ok jobs') : jobs'.map JobStatus.key = jobs.map JobStatus.key := by
  unfold addActiveFile at h
  split at h
  · cases h
  · cases h
    rfl

theorem readTransfer_keys {jobs jobs' : List JobStatus} {name data : Codes}
    (h : readTransfer p jobs name data = .ok jobs') : jobs'.map JobStatus.key = jobs.map JobStatus.key := by
  unfold readTransfer at h
  split at h
  · cases h
  split at h
  · split at h
    · cases h
    · obtain ⟨transferState, -, h⟩ := ok_of_bind h
      exact addActiveFile_keys h
  · split at h
    · cases h
    · exact addActiveFile_keys h
  · split at h
    · cases h
    · obtain ⟨transferState, -, h⟩ := ok_of_bind h
      exact addActiveFile_keys h
  · cases h

theorem readChmod_unowed {name line : Codes} {rest : List Codes} {taken : Nat} (h : readChmod p name rest = .ok taken) :
    Unowed p line taken rest := by
  unfold readChmod at h
  cases rest with
  | nil => cases h
  | cons file rest =>
    dsimp only at h
    split at h
    · cases h
    rename_i hfile
    have hfile : startsWith "file:" file = true := by simpa using hfile
    have hnot : isHeader p file = false := not_header_of_start (c := 102) rfl (by decide) hfile
    split at h
    · rename_i nameChmod hchmod
      split at h
      · cases h
      cases h
      obtain ⟨second, hsecond, hname⟩ := Option.bind_eq_some_iff.mp hchmod
      obtain ⟨rest, rfl⟩ := List.head?_eq_some_iff.mp hsecond
      refine ⟨(unowed_of_not_header hnot (second :: rest)).1, fun _ => ?_, trivial⟩
      simp [takes, hfile, hname]
    · cases h
      exact unowed_of_not_header hnot rest

/-- A line that is no header changes no id and no state. -/
theorem readDetail_spec {jobs jobs' : List JobStatus} {line : Codes} {rest : List Codes} {taken : Nat}
    (h : readDetail p jobs line rest = .ok (jobs', taken)) :
    jobs'.map JobStatus.key = jobs.map JobStatus.key ∧ Unowed p line taken rest := by
  unfold readDetail at h
  split at h
  · split at h
    · rename_i data hdata
      obtain ⟨read, hread, h⟩ := ok_of_bind h
      cases h
      obtain ⟨hhead, hquote⟩ := Option.filter_eq_some_iff.mp hdata
      obtain ⟨rest, rfl⟩ := List.head?_eq_some_iff.mp hhead
      exact ⟨readTransfer_keys hread, unowed_of_not_header (not_header_of_quote hquote) rest⟩
    · cases h
      exact ⟨rfl, trivial⟩
  split at h
  · cases h
    exact ⟨rfl, trivial⟩
  split at h
  · rename_i name hname
    cases h
    refine ⟨rfl, ?_⟩
    cases rest with
    | nil => trivial
    | cons next rest =>
      split_ifs with hfollows
      · refine ⟨fun _ => ?_, trivial⟩
        have hfollows : followsMirror name next = true := by simpa using hfollows
        simp [takes, hname, hfollows]
      · trivial
  split at h
  · cases h
    exact ⟨rfl, trivial⟩
  split at h
  · cases h
    exact ⟨rfl, unowed_of_test (fun _ => not_header_of_quote) line rest⟩
  split at h
  · obtain ⟨read, hread, h⟩ := ok_of_bind h
    cases h
    exact ⟨rfl, readChmod_unowed hread⟩
  split at h
  · split at h
    · cases h
    · cases h
      exact ⟨rfl, trivial⟩
  split at h
  · cases h
    exact ⟨rfl, trivial⟩
  · cases h

theorem isHeader_eq {line : Codes} {known : Option KnownHeader}
    (h : parseKnownOptionsMirrorHeader p p.mirrorHeaderPrefix line = .ok known) :
    isHeader p line = ((p.pgetHeader line).isSome || (p.mirrorHeader line).isSome || (p.mirrorFlHeader line).isSome ||
      known.isSome) := by
  unfold isHeader
  rw [h]
  cases known <;> rfl

/-- A header has a status of its own, and no other line has one. -/
theorem jobStep_spec {jobs jobs' : List JobStatus} {line : Codes} {rest : List Codes} {taken : Nat}
    (h : jobStep p jobs line rest = .ok (jobs', taken)) :
    Unowed p line taken rest ∧
      ((isHeader p line = false ∧ jobs'.map JobStatus.key = jobs.map JobStatus.key) ∨
        ∃ status, jobs' = status :: jobs ∧ Shows p line status.key) := by
  unfold jobStep at h
  obtain ⟨known, hknown, h⟩ := ok_of_bind h
  have hheader := isHeader_eq hknown
  split at h
  · rename_i hfailure
    cases h
    exact ⟨trivial, Or.inl ⟨not_header_of_failure hfailure, rfl⟩⟩
  split at h
  · rename_i hfirst
    split at h
    · cases h
      simp only [Bool.and_eq_true, Option.isNone_iff_eq_none] at hfirst
      obtain ⟨⟨⟨⟨-, hpget⟩, hknownNone⟩, hmirror⟩, hmirrorFl⟩ := hfirst
      refine ⟨trivial, Or.inl ⟨?_, rfl⟩⟩
      rw [hheader, hpget, hmirror, hmirrorFl, hknownNone]
      rfl
    · cases h
  rename_i hfirst
  clear hfirst
  split at h
  · rename_i m hm
    obtain ⟨⟨status, taken'⟩, hread, h⟩ := ok_of_bind h
    cases h
    obtain ⟨hshows, hunowed⟩ := readPget_spec hm hread
    exact ⟨hunowed, Or.inr ⟨status, rfl, hshows⟩⟩
  · rename_i header _
    obtain ⟨status, hread, h⟩ := ok_of_bind h
    cases h
    obtain ⟨m, hm, hid⟩ := parseKnown_some hknown
    refine ⟨trivial, Or.inr ⟨status, rfl, ?_⟩⟩
    rw [readKnown_key hread]
    exact ⟨m.1, hid, Or.inr ⟨rfl, p.mirrorHeaderPrefix_id line m hm⟩⟩
  · rename_i m _ hm
    obtain ⟨status, hread, h⟩ := ok_of_bind h
    cases h
    obtain ⟨id, hid, hread⟩ := ok_of_bind hread
    obtain ⟨transferState, -, hread⟩ := ok_of_bind hread
    cases hread
    exact ⟨trivial, Or.inr ⟨_, rfl, m.id, hid, Or.inr ⟨rfl, p.mirrorHeader_id line m hm⟩⟩⟩
  · rename_i m _ _ hm
    obtain ⟨status, hread, h⟩ := ok_of_bind h
    cases h
    obtain ⟨id, hid, hread⟩ := ok_of_bind hread
    cases hread
    exact ⟨unowed_of_test (fun _ => not_header_of_listing) line rest,
      Or.inr ⟨_, rfl, m.id, hid, Or.inr ⟨rfl, p.mirrorFlHeader_id line m hm⟩⟩⟩
  · rename_i hpget hmirror hmirrorFl
    obtain ⟨hkeys, hunowed⟩ := readDetail_spec h
    refine ⟨hunowed, Or.inl ⟨?_, hkeys⟩⟩
    rw [hheader]
    simp_all

/-! ## The jobs -/

/-- The loop has a status for every header that it does not pass over. -/
theorem jobLoop_covers {jobs result : List JobStatus} {taken : Nat} {before lines : List Codes}
    (hplace : 3 ≤ before.length)
    (hqueue : ∀ more line back, lines = more ++ line :: back → ¬ QueuedRow p (before ++ more) line)
    (hunowed : ∀ previous ∈ before.getLast?, Unowed p previous taken lines)
    (h : jobLoop p jobs taken lines = .ok result) :
    ∃ keys, result.map JobStatus.key = (jobs.map JobStatus.key).reverse ++ keys ∧
      Covers (Row p) (Shows p) before lines keys := by
  induction lines generalizing before jobs taken with
  | nil =>
    rw [jobLoop] at h
    cases h
    exact ⟨[], by simp, .nil⟩
  | cons line lines ih =>
    have hplace' : 3 ≤ (before ++ [line]).length := by
      rw [List.length_append]
      omega
    have hqueue' : ∀ more next back, lines = more ++ next :: back → ¬ QueuedRow p (before ++ [line] ++ more) next := by
      intro more next back hlines
      have := hqueue (line :: more) next back (by rw [hlines]; rfl)
      simpa using this
    have hnotQueued : ¬ QueuedRow p before line := by simpa using hqueue [] line lines rfl
    cases taken with
    | succ taken =>
      rw [jobLoop] at h
      obtain ⟨previous, hprevious⟩ : ∃ previous, before.getLast? = some previous := by
        cases hlast : before.getLast? with
        | none =>
          rw [List.getLast?_eq_none_iff.mp hlast] at hplace
          cases hplace
        | some previous => exact ⟨previous, rfl⟩
      obtain ⟨htaken, hunowed⟩ := hunowed previous hprevious
      obtain ⟨keys, hkeys, hcovers⟩ := ih hplace' hqueue' (by simpa using hunowed) h
      refine ⟨keys, hkeys, .leave ?_ hcovers⟩
      rintro (hrow | hrow)
      · exact hnotQueued hrow
      · have := hrow.free previous hprevious
        rw [htaken hrow.header] at this
        cases this
    | zero =>
      rw [jobLoop] at h
      obtain ⟨⟨jobs', taken⟩, hstep, h⟩ := ok_of_bind h
      obtain ⟨hunowed, hcases⟩ := jobStep_spec hstep
      obtain ⟨keys, hkeys, hcovers⟩ := ih hplace' hqueue' (by simpa using hunowed) h
      rcases hcases with ⟨hheader, hsame⟩ | ⟨status, rfl, hshows⟩
      · refine ⟨keys, by rw [hkeys, hsame], .leave ?_ hcovers⟩
        rintro (hrow | hrow)
        · exact hnotQueued hrow
        · have := hrow.header
          rw [hheader] at this
          cases this
      · exact ⟨status.key :: keys, by rw [hkeys]; simp, .take hshows hcovers⟩

/-! ## The snapshot -/

theorem parse_ok {output : Codes} {statuses : List JobStatus} {outcome : ParseOutcome}
    (h : parse p output = (.ok statuses, outcome)) (houtcome : outcome = .completeSuccess ∨ outcome = .blankEmpty) :
    ∃ queue rest jobs, parseQueue p (snapshotLines p output) = .ok (queue, rest) ∧ parseJobs p rest = .ok jobs ∧
      statuses = queue ++ jobs := by
  unfold parse at h
  split at h
  · rename_i read outcome' hread
    cases h
    obtain ⟨_, -, hread⟩ := ok_of_bind hread
    dsimp only at hread
    split at hread
    · cases hread
    · split at hread
      · cases hread
        simp at houtcome
      · cases hread
    · rename_i queue rest hqueue
      split at hread
      · split at hread <;> cases hread
      · rename_i jobs hjobs
        split at hread
        · cases hread
          simp at houtcome
        · cases hread
          exact ⟨queue, rest, jobs, hqueue, hjobs, rfl⟩
  · cases h

/-- A parse that calls its snapshot complete has, in order, exactly one status for every row of the
queue that is read and every header of a job that no line takes, with the id of the line; all other
attempts end with another outcome, and those that raise with a hard error. -/
theorem complete_parse_covers (p : Patterns) (output : Codes) :
    (∀ statuses outcome, parse p output = (.ok statuses, outcome) →
      outcome = .completeSuccess ∨ outcome = .blankEmpty →
        Covers (Row p) (fun line status => Shows p line status.key) [] (snapshotLines p output) statuses) ∧
    ∀ e outcome, parse p output = (.error e, outcome) → outcome = .hardError := by
  constructor
  · intro statuses outcome h houtcome
    obtain ⟨queue, rest, jobs, hqueue, hjobs, rfl⟩ := parse_ok h houtcome
    obtain ⟨front, hlines, hfront, hplace, hnone⟩ := parseQueue_covers hqueue
    refine Covers.of_map ?_
    rw [hlines, List.map_append]
    refine hfront.append ?_
    cases rest with
    | nil =>
      cases hjobs
      exact .nil
    | cons line rest =>
      obtain ⟨keys, hkeys, hcovers⟩ := @jobLoop_covers p [] jobs 0 ([] ++ front) (line :: rest) (hplace (by simp)) hnone
        (fun _ _ => trivial) hjobs
      rw [hkeys]
      exact hcovers
  · intro e outcome h
    unfold parse at h
    split at h <;> cases h
    rfl

/-! ## Lines without a status -/

def showRow : Codes := codes "1. mirror -c /remote/show /local/"
/-- Its quoted path has the text of the status command. -/
def sampleRow : Codes := codes "2. mirror -c \"/remote/sample jobs -v\" \"/local/\""
/-- No expression reads it. -/
def cutRow : Codes := codes "4. mirror /remote/cut"
def filmJob : Codes := codes "[3] mirror -c /remote/film /local/"
/-- No expression reads it. -/
def cutJob : Codes := codes "[5] pget -c /remote/cut"
def bookJob : Codes := codes "[6] pget -c /remote/book -o /local/book"
/-- It is taken for the connection of the job in front of it. -/
def takenJob : Codes := codes "[7] mirror -c /remote/sftp /local/"

def queueLine : Codes := codes "[0] queue (sftp://someone:@localhost)"
def serverLine : Codes := codes "sftp://someone:@localhost/home/someone"
def stoppedLine : Codes := codes "Queue is stopped."
def commandsLine : Codes := codes "Commands queued:"

def snapshot : Codes :=
  [10].intercalate [marker, queueLine, serverLine, stoppedLine, commandsLine, showRow, sampleRow, cutRow, filmJob, cutJob,
    bookJob, takenJob]

/-- What the expressions make of these lines. -/
def snapshotPatterns : Patterns where
  py := asciiDecimals
  queueCommandEcho _ := false
  statusCommandEchoBracketedLine _ := false
  statusCommandEchoStructuredLine line := line != marker
  statusCommandEchoToken _ _ := true
  mirrorHeaderPrefix line :=
    if line = filmJob then some (codes "3", 11) else if line = takenJob then some (codes "7", 11) else none
  mirrorQueueHeaderPrefix line :=
    if line = showRow then some (codes "1", 10) else if line = sampleRow then some (codes "2", 10)
    else if line = cutRow then some (codes "4", 10) else none
  mirrorProgressSuffix _ := none
  logLine _ := false
  header1 line := line == queueLine
  header2 line := line == serverLine
  queueDone _ := false
  queuePget _ := none
  queueMirror line :=
    if line = showRow then some ⟨codes "1", codes "-c", codes "/remote/show", codes "/local/"⟩
    else if line = sampleRow then some ⟨codes "2", codes "-c", codes "/remote/sample jobs -v", codes "/local/"⟩
    else none
  pgetHeader line :=
    if line = bookJob then some ⟨⟨codes "6", codes "-c", codes "/remote/book", codes "/local/book"⟩, codes "pget"⟩ else none
  mirrorHeader _ := none
  mirrorFlHeader line :=
    if line = filmJob then some ⟨codes "3", codes "-c", codes "/remote/film", codes "/local/"⟩
    else if line = takenJob then some ⟨codes "7", codes "-c", codes "/remote/sftp", codes "/local/"⟩
    else none
  filename _ := none
  chunkAt _ := none
  chunkAt2 _ := none
  chunkGot _ := none
  chunkHeader _ := false
  chmodHeader _ := none
  chmod _ := none
  mirror _ := false
  mirrorEmpty _ := none
  orphanProgress _ := false
  partialProgress _ := false
  chunkWrap _ := false
  timeUnits _ := some ⟨none, none, none, none⟩
  sizeToBytes _ := .error .intError
  mirrorSizeToBytes _ := .error .intError
  queuePget_id := by simp
  queueMirror_id line m h := by
    split_ifs at h with h₁ h₂
    · cases h; subst h₁; decide +kernel
    · cases h; subst h₂; decide +kernel
  mirrorQueueHeaderPrefix_id line m h := by
    split_ifs at h with h₁ h₂ h₃
    · cases h; subst h₁; decide +kernel
    · cases h; subst h₂; decide +kernel
    · cases h; subst h₃; decide +kernel
  pgetHeader_id line m h := by
    split_ifs at h with h₁
    cases h; subst h₁; decide +kernel
  mirrorHeader_id := by simp
  mirrorFlHeader_id line m h := by
    split_ifs at h with h₁ h₂
    · cases h; subst h₁; decide +kernel
    · cases h; subst h₂; decide +kernel
  mirrorHeaderPrefix_id line m h := by
    split_ifs at h with h₁ h₂
    · cases h; subst h₁; decide +kernel
    · cases h; subst h₂; decide +kernel
  chunkAt_quoted := by simp
  chunkAt2_quoted := by simp
  chunkGot_quoted := by simp
  queueDone_other := by simp

theorem snapshot_parsed : ∃ statuses, parse snapshotPatterns snapshot = (.ok statuses, .completeSuccess) ∧
    statuses.map JobStatus.key = [(1, .queued), (3, .running), (6, .running)] := by
  have hread : (parse snapshotPatterns snapshot).1.toOption.map (fun statuses => statuses.map JobStatus.key) =
      some [(1, .queued), (3, .running), (6, .running)] := by decide +kernel
  have houtcome : (parse snapshotPatterns snapshot).2 = .completeSuccess := by decide +kernel
  rcases hparse : parse snapshotPatterns snapshot with ⟨result, outcome⟩
  rw [hparse] at hread houtcome
  cases houtcome
  cases result with
  | error e => cases hread
  | ok statuses => exact ⟨statuses, rfl, Option.some_inj.1 hread⟩

theorem snapshot_covered :
    ∃ statuses, parse snapshotPatterns snapshot = (.ok statuses, .completeSuccess) ∧
      Covers (Row snapshotPatterns) (fun line status => Shows snapshotPatterns line status.key) []
        (snapshotLines snapshotPatterns snapshot) statuses := by
  obtain ⟨statuses, hparse, -⟩ := snapshot_parsed
  exact ⟨statuses, hparse, (complete_parse_covers snapshotPatterns snapshot).1 statuses _ hparse (Or.inl rfl)⟩

/-- A complete parse has no status for two rows of the queue and two headers, which have the ids 2,
4, 5 and 7. -/
theorem lines_without_status :
    (∃ statuses, parse snapshotPatterns snapshot = (.ok statuses, .completeSuccess) ∧
      ∀ status ∈ statuses, status.id ∉ [2, 4, 5, 7]) ∧
      snapshotLines snapshotPatterns snapshot =
        [queueLine, serverLine, stoppedLine, commandsLine, showRow, sampleRow, cutRow, filmJob, cutJob, bookJob, takenJob] ∧
      [sampleRow, cutRow].map (fun line => (matchNumber asciiDecimals line).map Prod.fst) =
        [some (codes "2"), some (codes "4")] ∧
      [cutJob, takenJob].map (fun line => (matchBracket asciiDecimals line).map Prod.fst) =
        [some (codes "5"), some (codes "7")] := by
  obtain ⟨statuses, hparse, hkeys⟩ := snapshot_parsed
  refine ⟨⟨statuses, hparse, fun status hstatus hid => ?_⟩, by decide +kernel, by decide +kernel, by decide +kernel⟩
  have hkey : status.key ∈ statuses.map JobStatus.key := List.mem_map_of_mem hstatus
  rw [hkeys] at hkey
  have hids : ∀ key ∈ [((1 : Nat), JobState.queued), (3, .running), (6, .running)], key.1 ∉ [2, 4, 5, 7] := by decide
  exact hids _ hkey hid

end SeedSync.Lftp
