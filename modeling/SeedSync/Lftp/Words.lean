import SeedSync.Lftp.Reading

/-!
# The row of a folder with exclusions

It is split into words, which are read option by option. A pattern with a backslash in front of a
blank stands for a path if the pattern `--` is next.
-/

namespace SeedSync.Lftp

open Lib Sidecar Matcher

/-! ## Words -/

theorem hasText_iff {needle text : Codes} : hasText needle text = true ↔ needle <:+: text := by
  simp [hasText, List.infix_iff_prefix_suffix, and_comm]

/-- A word of a command, as it stands there. -/
inductive Written where
  | bare (text : Codes)
  | quoted (value : Codes)

namespace Written

def text : Written → Codes
  | .bare text => text
  | .quoted value => quotedArgument value

/-- What is read of it. -/
def read : Written → Codes
  | .bare text => text
  | .quoted value => escapeArgument value

/-- A word without quotes has no blank and no character with a meaning of its own. -/
def Proper : Written → Prop
  | .bare text => text ≠ [] ∧ ∀ c ∈ text, isSpace c = false ∧ c ≠ 34 ∧ c ≠ 39 ∧ c ≠ 92
  | .quoted _ => True

end Written

section

variable {words : List Word} {index start : Nat} {value rest : Codes}

theorem splitWords_escape (argument : Codes) :
    splitWords words index (some ⟨start, some 34, value⟩) (escapeArgument argument ++ 34 :: rest) =
      splitWords words (index + (escapeArgument argument).length + 1)
        (some ⟨start, none, (escapeArgument argument).reverse ++ value⟩) rest := by
  induction argument generalizing index value with
  | nil =>
    rw [show escapeArgument [] = [] from rfl, List.nil_append, splitWords.eq_def]
    simp
  | cons c argument ih =>
    cases hc : isMark c with
    | true =>
      rw [escape_mark hc, List.cons_append, List.cons_append, splitWords]
      simp [ih]
      congr 1
      omega
    | false =>
      have hplain : c ≠ 34 ∧ c ≠ 92 := by simpa [isMark] using hc
      rw [escape_plain hc, List.cons_append, splitWords.eq_def]
      simp [hplain.1.symm, hplain.2, ih]
      congr 1
      omega

theorem splitWords_bare {text : Codes} (hall : ∀ c ∈ text, isSpace c = false ∧ c ≠ 34 ∧ c ≠ 39 ∧ c ≠ 92) :
    splitWords words index (some ⟨start, none, value⟩) (text ++ rest) =
      splitWords words (index + text.length) (some ⟨start, none, text.reverse ++ value⟩) rest := by
  induction text generalizing index value with
  | nil => rfl
  | cons c text ih =>
    obtain ⟨hspace, -, -, hslash⟩ := hall c (by simp)
    rw [List.cons_append, splitWords.eq_def]
    simp [hspace, hslash]
    rw [ih fun d hd => hall d (by simp [hd])]
    congr 1
    · omega

theorem splitWords_written {word : Written} (h : word.Proper) :
    splitWords words index none (word.text ++ rest) =
      splitWords words (index + word.text.length) (some ⟨index, none, word.read.reverse⟩) rest := by
  cases word with
  | bare text =>
    obtain ⟨hne, hall⟩ := h
    obtain ⟨c, text, rfl⟩ := List.exists_cons_of_ne_nil hne
    obtain ⟨hspace, hquote, hquote', hslash⟩ := hall c (by simp)
    simp only [Written.text, Written.read]
    rw [List.cons_append, splitWords.eq_def]
    simp [hspace, hquote, hquote', hslash]
    rw [splitWords_bare fun d hd => hall d (by simp [hd])]
    congr 1
    omega
  | quoted argument =>
    simp only [Written.text, Written.read, quotedArgument]
    rw [List.cons_append, splitWords.eq_def, List.append_assoc]
    simp [splitWords_escape, show isSpace 34 = false from rfl]
    congr 1
    omega

/-- The words behind an open one. -/
theorem splitWords_more {parts : List Written} (hall : ∀ part ∈ parts, part.Proper) :
    ∃ more, splitWords words index (some ⟨start, none, value⟩) (parts.flatMap fun part => 32 :: part.text) =
      .ok (words ++ ⟨value.reverse, start, index⟩ :: more) ∧ more.map (·.text) = parts.map Written.read := by
  induction parts generalizing words index start value with
  | nil => exact ⟨[], by simp [splitWords], rfl⟩
  | cons part parts ih =>
    have hrest : ∀ part ∈ parts, part.Proper := fun other hother => hall other (by simp [hother])
    obtain ⟨more, hmore, htexts⟩ := @ih (words ++ [⟨value.reverse, start, index⟩]) (index + 1 + part.text.length)
      (index + 1) part.read.reverse hrest
    refine ⟨⟨part.read, index + 1, index + 1 + part.text.length⟩ :: more, ?_, by simp [htexts]⟩
    rw [List.flatMap_cons, List.cons_append, splitWords.eq_def]
    simp only [reduceCtorEq, false_and, if_false, Nat.reduceEqDiff, show isSpace 32 = true from rfl, and_self, if_true]
    rw [splitWords_written (hall part (by simp)), hmore]
    simp

theorem splitWords_all {first : Written} {parts : List Written} (hfirst : first.Proper)
    (hall : ∀ part ∈ parts, part.Proper) :
    ∃ words, splitWords [] 0 none (first.text ++ parts.flatMap fun part => 32 :: part.text) = .ok words ∧
      words.map (·.text) = first.read :: parts.map Written.read := by
  obtain ⟨more, hmore, htexts⟩ := @splitWords_more [] (0 + first.text.length) 0 first.read.reverse parts hall
  refine ⟨⟨first.read, 0, 0 + first.text.length⟩ :: more, ?_, by simp [htexts]⟩
  rw [splitWords_written hfirst, hmore]
  simp

end

/-! ## Options -/

/-- An argument with a backslash in front of a blank, and the argument `--` next. -/
def misread : List (Codes × Codes) → Bool
  | option :: next :: rest => (hasText (codes "\\ ") option.2 && next.2 == codes "--") || misread (next :: rest)
  | _ => false

/-- What stands behind the `-c` of a folder, as it is read. -/
def optionTexts (options : List (Codes × Codes)) (remote localPath : Codes) : List Codes :=
  options.flatMap (fun option => [option.1, option.2]) ++ [remote, localPath]

theorem readPositionals_paths {remote localPath : Word} (hremote : remote.text ≠ codes "-c" ∧ isKnownOption remote.text = false)
    (hlocal : localPath.text ≠ codes "-c" ∧ isKnownOption localPath.text = false) :
    readPositionals [] [remote, localPath] =
      if startsWith "-" remote.text then
        .error (.knownOptions (codes "Unsupported mirror option in known-option status header"))
      else .ok ([remote, localPath], none) := by
  unfold readPositionals
  split <;> simp_all [readPositionals]

theorem exists_option {option : Codes × Codes} {options : List (Codes × Codes)} {words : List Word}
    (h : words.map (·.text) = (option :: options).flatMap fun option => [option.1, option.2]) :
    ∃ word argument more, words = word :: argument :: more ∧ word.text = option.1 ∧ argument.text = option.2 ∧
      more.map (·.text) = options.flatMap fun option => [option.1, option.2] := by
  cases words with
  | nil => simp at h
  | cons word words =>
    cases words with
    | nil => simp at h
    | cons argument more => exact ⟨word, argument, more, rfl, by simpa using h⟩

/-- The options are read to the paths, unless one is misread. -/
theorem readPositionals_options {options : List (Codes × Codes)} {words : List Word} {remote localPath : Word}
    (hwords : words.map (·.text) = options.flatMap fun option => [option.1, option.2])
    (hknown : ∀ option ∈ options, isKnownOption option.1 = true) (hdash : localPath.text ≠ codes "--") :
    if misread options then ∃ e, readPositionals [] (words ++ [remote, localPath]) = .error (.knownOptions e)
    else readPositionals [] (words ++ [remote, localPath]) = readPositionals [] [remote, localPath] := by
  induction options generalizing words with
  | nil =>
    obtain rfl : words = [] := by simpa using hwords
    rfl
  | cons option options ih =>
    obtain ⟨word, argument, words, rfl, hword, hargument, hwords⟩ := exists_option hwords
    have hoption : isKnownOption word.text = true := hword ▸ hknown option (by simp)
    have hresume : word.text ≠ codes "-c" := by
      intro h
      rw [h] at hoption
      exact absurd hoption (by decide)
    -- One turn: the argument is passed over, unless it is taken for a path.
    have hturn : readPositionals [] (word :: argument :: (words ++ [remote, localPath])) =
        if isLegacyPath argument (words ++ [remote, localPath]) then
          readPositionals [argument] (words ++ [remote, localPath])
        else readPositionals [] (words ++ [remote, localPath]) := by
      rw [readPositionals]
      simp [hoption, hresume]
    have hrest := ih hwords fun other hother => hknown other (by simp [hother])
    rw [List.cons_append, List.cons_append, hturn]
    cases options with
    | nil =>
      obtain rfl : words = [] := by simpa using hwords
      have hlegacy : isLegacyPath argument ([] ++ [remote, localPath]) = false := by simp [isLegacyPath, hdash]
      rw [hlegacy]
      simp [misread]
    | cons next options =>
      obtain ⟨word', argument', words, rfl, hword', hargument', -⟩ := exists_option hwords
      have hoption' : isKnownOption word'.text = true := hword' ▸ hknown next (by simp)
      have hdash' : (word'.text != codes "--") = true := by
        rw [bne_iff_ne]
        intro h
        rw [h] at hoption'
        exact absurd hoption' (by decide)
      have hlegacy : isLegacyPath argument (word' :: argument' :: words ++ [remote, localPath]) =
          (hasText (codes "\\ ") option.2 && next.2 == codes "--") := by
        simp [isLegacyPath, hdash', hargument, hargument']
      rw [hlegacy, misread]
      cases hmisread : hasText (codes "\\ ") option.2 && next.2 == codes "--" with
      | true =>
        simp only [Bool.true_or, if_true]
        refine ⟨codes "Mirror options must precede positional paths", ?_⟩
        rw [List.cons_append, readPositionals.eq_def]
        simp [hoption']
      | false =>
        simpa only [Bool.false_or, Bool.false_eq_true, if_false] using hrest

/-! ## Arguments -/

theorem escape_eq_dashes {value : Codes} (h : escapeArgument value = codes "--") : value = codes "--" := by
  have hmarks : marks value = 0 := by
    have := congrArg marks h
    rw [marks_escape, show marks (codes "--") = 0 from rfl] at this
    omega
  rwa [escape_of_no_marks hmarks] at h

/-- A backslash stands in front of a blank in the quoted text just if it does in the argument. -/
theorem hasText_escape (value : Codes) :
    hasText (codes "\\ ") (escapeArgument value) = hasText (codes "\\ ") value := by
  rw [Bool.eq_iff_iff, hasText_iff, hasText_iff, show codes "\\ " = [92, 32] from rfl]
  induction value with
  | nil => rfl
  | cons c rest ih =>
    have hhead : ∀ text : Codes, [32] <+: text ↔ text.head? = some 32 := by
      intro text
      cases text <;> simp [List.cons_prefix_cons, eq_comm]
    have hescape : (escapeArgument rest).head? = some 32 ↔ rest.head? = some 32 := by
      cases rest with
      | nil => rfl
      | cons d rest =>
        cases hd : isMark d with
        | true =>
          rw [escape_mark hd]
          simp
          rintro rfl
          exact absurd hd (by decide)
        | false => rw [escape_plain hd]; simp
    cases hc : isMark c with
    | true =>
      have hne : c ≠ 32 := by
        rintro rfl
        exact absurd hc (by decide)
      rw [escape_mark hc, List.infix_cons_iff, List.infix_cons_iff, @List.infix_cons_iff _ _ c rest, ih]
      simp only [List.cons_prefix_cons, hhead, hescape]
      simp [hne]
    | false =>
      have hne : c ≠ 92 := by
        rintro rfl
        exact absurd hc (by decide)
      rw [escape_plain hc, List.infix_cons_iff, @List.infix_cons_iff _ _ c rest, ih]
      simp [List.cons_prefix_cons, hne.symm]

def quotedOptions (options : List (Codes × Codes)) : List (Codes × Codes) :=
  options.map fun option => (option.1, escapeArgument option.2)

theorem misread_quoted (options : List (Codes × Codes)) : misread (quotedOptions options) = misread options := by
  have hdashes : ∀ value, (escapeArgument value == codes "--") = (value == codes "--") := by
    intro value
    rw [Bool.eq_iff_iff, beq_iff_eq, beq_iff_eq]
    exact ⟨escape_eq_dashes, fun h => by rw [h]; rfl⟩
  induction options with
  | nil => rfl
  | cons option options ih =>
    cases options with
    | nil => rfl
    | cons next options =>
      rw [misread, ← ih]
      simp [quotedOptions, misread, hasText_escape, hdashes]

/-! ## The header -/

/-- What stands behind the `-c` of a folder. -/
def folderWords (options : List (Codes × Codes)) (path destination : Codes) : List Written :=
  options.flatMap (fun option => [.bare option.1, .quoted option.2]) ++ [.quoted path, .quoted destination]

/-- The text behind the word `mirror`. -/
def folderRest (options : List (Codes × Codes)) (path destination : Codes) : Codes :=
  codes "-c" ++ (folderWords options path destination).flatMap fun word => 32 :: word.text

def folderRow {py : Decimals} (n : RowNumber py) (options : List (Codes × Codes)) (path destination : Codes) : Codes :=
  n.text ++ (codes "mirror" ++ ([32] ++ folderRest options path destination))

theorem mem_escape {c : Nat} {value : Codes} (h : c ∈ value) : c ∈ escapeArgument value := by
  refine List.mem_flatMap.2 ⟨c, h, ?_⟩
  split_ifs with hslash hquote <;> simp [*]

/-- A path is no option. -/
theorem path_not_option {text : Codes} (h : 47 ∈ text) :
    text ≠ codes "-c" ∧ isKnownOption text = false ∧ text ≠ codes "--" := by
  refine ⟨?_, ?_, ?_⟩
  · rintro rfl
    exact absurd h (by decide)
  · unfold isKnownOption
    rw [Bool.or_eq_false_iff, beq_eq_false_iff_ne, beq_eq_false_iff_ne]
    constructor
    · rintro rfl
      exact absurd h (by decide)
    · rintro rfl
      exact absurd h (by decide)
  · rintro rfl
    exact absurd h (by decide)

theorem known_cases {text : Codes} (h : isKnownOption text = true) :
    text = codes "--exclude" ∨ text = codes "--exclude-glob" := by
  simpa [isKnownOption] using h

theorem folderWords_proper {options : List (Codes × Codes)} {path destination : Codes}
    (hknown : ∀ option ∈ options, isKnownOption option.1 = true) :
    ∀ word ∈ folderWords options path destination, word.Proper := by
  intro word hword
  rcases List.mem_append.1 hword with hword | hword
  · obtain ⟨option, hoption, hword⟩ := List.mem_flatMap.1 hword
    simp at hword
    rcases hword with rfl | rfl
    · have hbare : ∀ text ∈ [codes "--exclude", codes "--exclude-glob"],
          text ≠ [] ∧ ∀ c ∈ text, isSpace c = false ∧ c ≠ 34 ∧ c ≠ 39 ∧ c ≠ 92 := by decide
      apply hbare
      rcases known_cases (hknown option hoption) with h | h <;> simp [h]
    · trivial
  · simp at hword
    rcases hword with rfl | rfl <;> trivial

theorem folderWords_texts (options : List (Codes × Codes)) (path destination : Codes) :
    (folderWords options path destination).map Written.read =
      (quotedOptions options).flatMap (fun option => [option.1, option.2]) ++
        [escapeArgument path, escapeArgument destination] := by
  simp [folderWords, quotedOptions, List.map_flatMap, List.flatMap_map, Written.read]

section

variable {p : Patterns} {path destination : Codes} {options : List (Codes × Codes)}

theorem splitWords_folder (hknown : ∀ option ∈ options, isKnownOption option.1 = true) :
    ∃ first words remote localPath,
      splitWords [] 0 none (folderRest options path destination) = .ok (first :: (words ++ [remote, localPath])) ∧
      first.text = codes "-c" ∧
      words.map (·.text) = (quotedOptions options).flatMap (fun option => [option.1, option.2]) ∧
      remote.text = escapeArgument path ∧ localPath.text = escapeArgument destination := by
  obtain ⟨words, hsplit, htexts⟩ :=
    @splitWords_all (.bare (codes "-c")) _ (by unfold Written.Proper; decide)
      (@folderWords_proper options path destination hknown)
  rw [folderWords_texts] at htexts
  cases words with
  | nil => simp at htexts
  | cons first words =>
    obtain ⟨hfirst, htexts⟩ := List.cons.inj htexts
    obtain ⟨front, last, rfl, hfront, hlast⟩ := List.map_eq_append_iff.1 htexts
    cases last with
    | nil => simp at hlast
    | cons remote last =>
      cases last with
      | nil => simp at hlast
      | cons localPath last =>
        obtain ⟨hremote, hlocal, rfl⟩ : remote.text = escapeArgument path ∧ localPath.text = escapeArgument destination ∧
            last = [] := by simpa using hlast
        exact ⟨first, front, remote, localPath, hsplit, hfirst, hfront, hremote, hlocal⟩

theorem mirrorQueueHeaderPrefix_folder (n : RowNumber p.py) :
    ∃ stop, p.withQueue.mirrorQueueHeaderPrefix (folderRow n options path destination) = some (n.digits, stop) ∧
      (folderRow n options path destination).drop stop = folderRest options path destination := by
  have hfind := @find_mirrorQueuePrefix p.py (folderRest options path destination) n (head_stop rfl)
  refine ⟨_, congrArg (Option.map _) hfind, ?_⟩
  have hrow : folderRow n options path destination =
      (n.text ++ codes "mirror ") ++ folderRest options path destination := by
    simp [folderRow, folderRest, List.append_assoc]
    rfl
  rw [hrow, List.length_append, Nat.add_sub_cancel, List.drop_left]

theorem hasText_exclude {option : Codes × Codes} (hknown : isKnownOption option.1 = true) :
    hasText (codes "--exclude") (folderRest (option :: options) path destination) = true := by
  rw [hasText_iff]
  have hstart : codes "--exclude" <+: option.1 := by
    rcases known_cases hknown with h | h
    · rw [h]
    · rw [h]
      decide
  obtain ⟨more, hmore⟩ := hstart
  refine ⟨codes "-c" ++ [32], more ++ 32 :: (quotedArgument option.2 ++
    (folderWords options path destination).flatMap fun word => 32 :: word.text), ?_⟩
  simp [folderRest, folderWords, Written.text, ← hmore]

/-- The words are read from their option on. -/
theorem readPositionals_folder {first : Word} {words : List Word} (hfirst : first.text = codes "-c") :
    readPositionals [] (first :: words) = readPositionals [] words := by
  rw [readPositionals.eq_def]
  simp [hfirst]

/-- Without options the header is left to the expressions. -/
theorem parseKnown_plain (n : RowNumber p.py) (hpath : 47 ∈ path) (hdestination : 47 ∈ destination) :
    parseKnownOptionsMirrorHeader p.withQueue p.withQueue.mirrorQueueHeaderPrefix (folderRow n [] path destination) =
      .ok none := by
  obtain ⟨stop, hstart, hrest⟩ := @mirrorQueueHeaderPrefix_folder p path destination [] n
  unfold parseKnownOptionsMirrorHeader
  rw [hstart]
  simp only [hrest]
  split
  · rfl
  · obtain ⟨first, words, remote, localPath, hsplit, hfirst, hwords, hremote, hlocal⟩ :=
      @splitWords_folder path destination [] (by simp)
    obtain rfl : words = [] := by simpa [quotedOptions] using hwords
    have hnone : ∀ word ∈ [first, remote, localPath], isKnownOption word.text = false := by
      intro word hword
      simp at hword
      rcases hword with rfl | rfl | rfl
      · rw [hfirst]
        decide
      · exact hremote ▸ (path_not_option (mem_escape hpath)).2.1
      · exact hlocal ▸ (path_not_option (mem_escape hdestination)).2.1
    rw [hsplit]
    change (if (!([first, remote, localPath].any fun word => isKnownOption word.text)) = true then _ else _) = _
    rw [if_pos (by simpa using hnone)]
    rfl

theorem startsWith_dash_escape (value : Codes) : startsWith "-" (escapeArgument value) = startsWith "-" value := by
  cases value with
  | nil => rfl
  | cons c rest =>
    cases hc : isMark c with
    | true =>
      obtain rfl | rfl : c = 34 ∨ c = 92 := by simpa [isMark] using hc
      · rfl
      · rfl
    | false =>
      rw [escape_plain hc, show startsWith "-" = fun text => [45].isPrefixOf text from rfl]
      simp [List.isPrefixOf]

/-- A row that is split into words, an option of the table among them. -/
structure HasOptions (q : Patterns) (line id : Codes) (stop : Nat) (words : List Word) : Prop where
  start : q.mirrorQueueHeaderPrefix line = some (id, stop)
  excludes : hasText (codes "--exclude") (line.drop stop) = true
  split : splitWords [] 0 none (line.drop stop) = .ok words
  known : (words.any fun word => isKnownOption word.text) = true

section

variable {q : Patterns} {line digits : Codes} {stop : Nat} {words : List Word}

theorem HasOptions.error (h : HasOptions q line digits stop words) {e : Raised}
    (he : readPositionals [] words = .error e) :
    parseKnownOptionsMirrorHeader q q.mirrorQueueHeaderPrefix line = .error e := by
  unfold parseKnownOptionsMirrorHeader
  rw [h.start]
  simp only [h.excludes, h.split, Bool.not_true, Bool.false_eq_true, if_false]
  change (if (!(words.any fun word => isKnownOption word.text)) = true then _ else _) = _
  rw [h.known, if_neg (by simp), he]
  rfl

theorem HasOptions.header (h : HasOptions q line digits stop words) {positionals : List Word} {remote localPath : Word}
    {id : Nat} (hread : readPositionals [] words = .ok (positionals, none))
    (hpaths : twoPaths positionals = .ok (remote, localPath)) (hid : int q.py digits = .ok id) :
    parseKnownOptionsMirrorHeader q q.mirrorQueueHeaderPrefix line =
      .ok (some ⟨id, strip ((line.drop stop).take remote.start), remote.text, localPath.text, none⟩) := by
  unfold parseKnownOptionsMirrorHeader
  rw [h.start]
  simp only [h.excludes, h.split, Bool.not_true, Bool.false_eq_true, if_false]
  change (if (!(words.any fun word => isKnownOption word.text)) = true then _ else _) = _
  rw [h.known, if_neg (by simp), hread]
  change (twoPaths positionals >>= _) = _
  rw [hpaths]
  change (int q.py digits >>= _) = _
  rw [hid]
  rfl

end

/-- With options the header is read word by word. -/
theorem parseKnown_options {id : Nat} (n : RowNumber p.py) (hid : int p.py n.digits = .ok id) (hne : options ≠ [])
    (hknown : ∀ option ∈ options, isKnownOption option.1 = true) (hpath : 47 ∈ path) (hdestination : 47 ∈ destination) :
    if misread options || startsWith "-" path then
      ∃ e, parseKnownOptionsMirrorHeader p.withQueue p.withQueue.mirrorQueueHeaderPrefix
        (folderRow n options path destination) = .error e
    else
      ∃ header, parseKnownOptionsMirrorHeader p.withQueue p.withQueue.mirrorQueueHeaderPrefix
          (folderRow n options path destination) = .ok (some header) ∧
        header.id = id ∧ header.remote = escapeArgument path ∧ header.localPath = escapeArgument destination := by
  obtain ⟨stop, hstart, hrest⟩ := @mirrorQueueHeaderPrefix_folder p path destination options n
  obtain ⟨first, words, remote, localPath, hsplit, hfirst, hwords, hremote, hlocal⟩ :=
    @splitWords_folder path destination options hknown
  obtain ⟨option, options', rfl⟩ := List.exists_cons_of_ne_nil hne
  have hoption := hknown option (by simp)
  have hany : ((first :: (words ++ [remote, localPath])).any fun word => isKnownOption word.text) = true := by
    obtain ⟨word, argument, more, rfl, hword, -, -⟩ := @exists_option _ (quotedOptions options') _ hwords
    rw [List.any_eq_true]
    exact ⟨word, by simp, by rw [hword]; exact hoption⟩
  have hoptions : HasOptions p.withQueue (folderRow n (option :: options') path destination) n.digits stop
      (first :: (words ++ [remote, localPath])) :=
    ⟨hstart, hrest ▸ hasText_exclude hoption, hrest ▸ hsplit, hany⟩
  have hlocalPath := path_not_option (hlocal ▸ mem_escape hdestination : 47 ∈ localPath.text)
  have hremotePath := path_not_option (hremote ▸ mem_escape hpath : 47 ∈ remote.text)
  have hquoted : ∀ other ∈ quotedOptions (option :: options'), isKnownOption other.1 = true := by
    intro other hother
    obtain ⟨source, hsource, rfl⟩ := List.mem_map.1 hother
    exact hknown source hsource
  have hpositionals := @readPositionals_options _ _ remote _ hwords hquoted hlocalPath.2.2
  rw [misread_quoted] at hpositionals
  cases hmisread : misread (option :: options') with
  | true =>
    rw [hmisread, if_pos rfl] at hpositionals
    obtain ⟨e, he⟩ := hpositionals
    exact ⟨_, hoptions.error ((readPositionals_folder hfirst).trans he)⟩
  | false =>
    rw [hmisread, if_neg (by simp)] at hpositionals
    rw [readPositionals_paths ⟨hremotePath.1, hremotePath.2.1⟩ ⟨hlocalPath.1, hlocalPath.2.1⟩, hremote,
      startsWith_dash_escape] at hpositionals
    rw [← readPositionals_folder hfirst] at hpositionals
    split at hpositionals
    · next hdash =>
      rw [Bool.false_or, if_pos hdash]
      exact ⟨_, hoptions.error hpositionals⟩
    · next hdash =>
      rw [Bool.false_or, if_neg hdash]
      exact ⟨_, hoptions.header hpositionals rfl hid, rfl, hremote, hlocal⟩

end

end SeedSync.Lftp
