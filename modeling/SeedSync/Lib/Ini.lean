import SeedSync.Lib.Dict
import SeedSync.Lib.Lines
import SeedSync.Lib.Text

/-!
# Files of sections and options

`configparser` as it reads and writes such files: comments, values of several lines, and the section
whose options stand for every other. The lower case of an option's name is a parameter.
-/

namespace SeedSync.Lib.Ini

abbrev Options := List (Codes × Codes)

/-- What was read; `defaults` are the options of the default section. -/
structure Parsed where
  defaults : Options := []
  sections : List (Codes × Options) := []
  deriving DecidableEq, Repr

def defaultSection : Codes := codes "DEFAULT"

inductive ReadError where
  | missingHeader
  | duplicateSection (section_ : Codes)
  | duplicateOption (section_ option : Codes)
  | parsing
  deriving DecidableEq, Repr

/-! ## Writing -/

/-- `value.replace("\n", "\n\t")`. -/
def indented (value : Codes) : Codes := value.flatMap fun c => if c = 10 then [10, 9] else [c]

def writeOption (option : Codes × Codes) : Codes := option.1 ++ codes " = " ++ indented option.2 ++ [10]

def writeSection (name : Codes) (options : Options) : Codes := 91 :: name ++ [93, 10] ++ options.flatMap writeOption ++ [10]

def write (p : Parsed) : Codes :=
  (if p.defaults = [] then [] else writeSection defaultSection p.defaults) ++
    p.sections.flatMap fun item => writeSection item.1 item.2

/-! ## Reading -/

/-- The options of a section with the lines of each. -/
abbrev Lines := List (Codes × List Codes)

/-- What `_read` holds between two lines. -/
structure Reader where
  defaults : Lines := []
  sections : List (Codes × Lines) := []
  seen : List (Codes × Option Codes) := []
  current : Option Codes := none
  option : Codes := []
  indent : Nat := 0
  failed : Bool := false

/-- The lines of a file. -/
def fileLines (text : Codes) : List Codes :=
  (cutLines (· == 10) text).1 ++ if (cutLines (· == 10) text).2 = [] then [] else [(cutLines (· == 10) text).2]

/-- A line that starts, after its blanks, with `#` or `;`. -/
def isComment (line : Codes) : Bool := (strip line).head?.any fun c => c == 35 || c == 59

/-- `SECTCRE.match`: up to the last bracket. -/
def matchHeader : Codes → Option Codes
  | 91 :: rest =>
    let upTo := rest.rdropWhile (· ≠ 93)
    if upTo.dropLast = [] then none else some upTo.dropLast
  | _ => none

def isDelimiter (c : Nat) : Bool := c == 61 || c == 58

/-- `OPTCRE.match`: the name before the first delimiter and the value after it. -/
def matchOption (value : Codes) : Option (Codes × Codes) :=
  match value.dropWhile (fun c => !isDelimiter c) with
  | [] => none
  | _ :: rest => some ((value.takeWhile (fun c => !isDelimiter c)).rdropWhile isSpace, strip rest)

def Reader.options (r : Reader) (name : Codes) : Lines :=
  if name = defaultSection then r.defaults else (Dict.getItem r.sections name).getD []

/-- `cursect[option] = lines`. -/
def Reader.setOption (r : Reader) (name option : Codes) (lines : List Codes) : Reader :=
  if name = defaultSection then { r with defaults := Dict.setItem r.defaults option lines }
  else { r with sections := Dict.setItem r.sections name (Dict.setItem (r.options name) option lines) }

/-- `cursect[optname].append(value)`. -/
def Reader.append (r : Reader) (name value : Codes) : Reader :=
  r.setOption name r.option ((Dict.getItem (r.options name) r.option).getD [] ++ [value])

def Reader.saw (r : Reader) (name : Codes) (option : Option Codes) : Bool :=
  r.seen.any fun other => decide (other = (name, option))

def Reader.openSection (r : Reader) (name : Codes) : Except ReadError Reader :=
  if (Dict.getItem r.sections name).isSome then
    if r.saw name none then .error (.duplicateSection name)
    else .ok { r with current := some name, option := [], seen := (name, none) :: r.seen }
  else if name = defaultSection then .ok { r with current := some name, option := [] }
  else
    .ok { r with sections := r.sections ++ [(name, [])], current := some name, option := [], seen := (name, none) :: r.seen }

section
variable (lower : Codes → Codes)

def Reader.openOption (r : Reader) (name value : Codes) : Except ReadError Reader :=
  match matchOption value with
  | none => .ok { r with failed := true }
  | some (option, text) =>
    if r.saw name (some (lower option)) then .error (.duplicateOption name (lower option))
    else
      .ok (({ r with option := lower option, seen := (name, some (lower option)) :: r.seen,
                     failed := r.failed || option.isEmpty }).setOption name (lower option) [text])

/-- A header or an option. -/
def Reader.opening (r : Reader) (value : Codes) : Except ReadError Reader :=
  match matchHeader value, r.current with
  | some name, _ => r.openSection name
  | none, none => .error .missingHeader
  | none, some name => r.openOption lower name value

/-- One turn of the loop of `_read`. -/
def Reader.line (r : Reader) (line : Codes) : Except ReadError Reader :=
  if isComment line then .ok r
  else
    match strip line, r.current with
    | [], some name => .ok (if r.option = [] then r else r.append name [])
    | [], none => .ok r
    | c :: value, some name =>
      if r.option ≠ [] ∧ r.indent < (line.takeWhile isSpace).length then .ok (r.append name (c :: value))
      else { r with indent := (line.takeWhile isSpace).length }.opening lower (c :: value)
    | c :: value, none => { r with indent := (line.takeWhile isSpace).length }.opening lower (c :: value)

/-- `"\n".join(lines).rstrip()`. -/
def joinLines (lines : List Codes) : Codes := ([10].intercalate lines).rdropWhile isSpace

def joined (options : Lines) : Options := options.map fun item => (item.1, joinLines item.2)

def Reader.parsed (r : Reader) : Parsed where
  defaults := joined r.defaults
  sections := r.sections.map fun item => (item.1, joined item.2)

/-- `read_string`. -/
def read (text : Codes) : Except ReadError Parsed :=
  ((fileLines text).foldlM (Reader.line lower) {}).bind fun r => if r.failed then .error .parsing else .ok r.parsed

end

/-- `options` with `get`: a section's own options, then those of the default section that it lacks. -/
def Parsed.options (p : Parsed) (options : Options) : Options :=
  options ++ p.defaults.filter fun item => (Dict.getItem options item.1).isNone

/-! ## What becomes of a value -/

def rereadLines : List Codes → List Codes
  | [] => []
  | first :: rest => strip first :: (rest.filter fun line => !isComment line).map strip

/-- What is read of a value that was written. -/
def reread (value : Codes) : Codes := joinLines (rereadLines (value.splitOn 10))

section
variable {P : Nat → Prop}

/-- The lines that reading collects for an option, of characters with a property. -/
structure Collected (P : Nat → Prop) (lines : List Codes) : Prop where
  ne_nil : lines ≠ []
  stripped : ∀ line ∈ lines, strip line = line
  chars : ∀ line ∈ lines, ∀ c ∈ line, P c
  noComment : ∀ line ∈ lines.tail, isComment line = false

theorem strip_subset {text : Codes} {c : Nat} (h : c ∈ strip text) : c ∈ text :=
  List.dropWhile_subset _ ((List.rdropWhile_prefix _ _).subset h)

theorem isComment_strip (line : Codes) : isComment (strip line) = isComment line := by
  unfold isComment
  rw [strip_strip]

theorem isSpace_newline : isSpace 10 = true := by decide

theorem joinLines_concat_nil {lines : List Codes} (h : lines ≠ []) : joinLines (lines ++ [[]]) = joinLines lines := by
  have hjoin : [10].intercalate (lines ++ [[]]) = [10].intercalate lines ++ [10] := by
    induction lines with
    | nil => exact absurd rfl h
    | cons line lines ih =>
      by_cases hnil : lines = []
      · simp [hnil]
      · rw [List.cons_append, List.intercalate_cons_of_ne_nil (by simp), ih hnil, List.intercalate_cons_of_ne_nil hnil]
        simp only [List.append_assoc]
  rw [joinLines, hjoin, List.rdropWhile_concat_pos _ _ _ isSpace_newline, joinLines]

/-- A last line that is not empty ends the value. -/
theorem joinLines_concat {lines : List Codes} {last : Codes} (hstripped : strip last = last) (hlast : last ≠ []) :
    joinLines (lines ++ [last]) = [10].intercalate (lines ++ [last]) := by
  obtain ⟨init, c, rfl⟩ : ∃ init c, last = init ++ [c] := ⟨_, _, (List.dropLast_append_getLast hlast).symm⟩
  have hc : ¬isSpace c = true := by
    have h := List.rdropWhile_last_not isSpace ((init ++ [c]).dropWhile isSpace) (by change strip _ ≠ []; rw [hstripped]; simp)
    change ¬isSpace ((strip (init ++ [c])).getLast _) = true at h
    simpa only [hstripped, List.getLast_concat] using h
  obtain ⟨front, hfront⟩ : ∃ front, [10].intercalate (lines ++ [init ++ [c]]) = front ++ [c] := by
    induction lines with
    | nil => exact ⟨init, by simp⟩
    | cons line lines ih =>
      obtain ⟨front, hfront⟩ := ih
      refine ⟨line ++ [10] ++ front, ?_⟩
      rw [List.cons_append, List.intercalate_cons_of_ne_nil (by simp), hfront]
      simp only [List.append_assoc]
  rw [joinLines, hfront, List.rdropWhile_concat_neg _ _ _ hc]

/-- The empty lines at the end are not part of the value. -/
theorem Collected.trimmed {lines : List Codes} (h : Collected P lines) :
    ∃ kept, Collected P kept ∧ joinLines lines = [10].intercalate kept ∧ joinLines kept = [10].intercalate kept := by
  induction lines using List.reverseRecOn with
  | nil => exact absurd rfl h.ne_nil
  | append_singleton lines last ih =>
    by_cases hlast : last = []
    · subst hlast
      by_cases hlines : lines = []
      · exact ⟨[[]], by simpa [hlines] using h, by simp [hlines, joinLines], by simp [joinLines]⟩
      · rw [joinLines_concat_nil hlines]
        refine ih ⟨hlines, fun l hl => h.stripped l (List.mem_append_left _ hl),
          fun l hl => h.chars l (List.mem_append_left _ hl), fun l hl => h.noComment l ?_⟩
        rw [List.tail_append_of_ne_nil hlines]
        exact List.mem_append_left _ hl
    · have hjoin := @joinLines_concat lines last (h.stripped last (by simp)) hlast
      exact ⟨lines ++ [last], h, hjoin, hjoin⟩

theorem Collected.rereadLines {lines : List Codes} (h : Collected P lines) : rereadLines lines = lines := by
  cases lines with
  | nil => rfl
  | cons first rest =>
    have hrest : (rest.filter fun line => !isComment line) = rest :=
      List.filter_eq_self.mpr fun line hline => by rw [h.noComment line hline]; rfl
    have hmap : rest.map strip = rest := by
      rw [List.map_congr_left fun line hline => h.stripped line (List.mem_cons_of_mem _ hline), List.map_id']
    rw [Ini.rereadLines, h.stripped first List.mem_cons_self, hrest, hmap]

/-- A value that was read is read again when it is written. -/
theorem Collected.reread {lines : List Codes} (h : Collected P lines) (hP : ¬P 10) : reread (joinLines lines) = joinLines lines := by
  obtain ⟨kept, hkept, hjoin, htrimmed⟩ := h.trimmed
  rw [Ini.reread, hjoin, List.splitOn_intercalate 10 (fun line hline hmem => hP (hkept.chars line hline 10 hmem)) hkept.ne_nil, hkept.rereadLines, htrimmed]

theorem splitOn_oneLine (value : Codes) : ∀ line ∈ value.splitOn 10, 10 ∉ line := fun line hline hmem =>
  (splitOn_chars 10 value line hline 10 hmem).1 rfl

theorem rereadLines_ne_nil (value : Codes) : rereadLines (value.splitOn 10) ≠ [] := by
  obtain ⟨first, rest, hsplit⟩ := List.exists_cons_of_ne_nil (List.splitOn_ne_nil 10 value)
  rw [hsplit]
  simp [rereadLines]

theorem rereadLines_collected (value : Codes) :
    Collected (fun c => c ≠ 10 ∧ c ∈ value) (rereadLines (value.splitOn 10)) := by
  refine ⟨rereadLines_ne_nil value, ?_, ?_, ?_⟩ <;> have hchars := splitOn_chars 10 value <;>
    obtain ⟨first, rest, hsplit⟩ := List.exists_cons_of_ne_nil (List.splitOn_ne_nil 10 value) <;> rw [hsplit] at hchars ⊢
  · intro line hline
    rcases List.mem_cons.mp hline with rfl | hline
    · exact strip_strip first
    · obtain ⟨source, -, rfl⟩ := List.mem_map.mp hline
      exact strip_strip source
  · intro line hline c hc
    rcases List.mem_cons.mp hline with rfl | hline
    · exact hchars first List.mem_cons_self c (strip_subset hc)
    · obtain ⟨source, hsource, rfl⟩ := List.mem_map.mp hline
      exact hchars source (List.mem_cons_of_mem _ (List.mem_of_mem_filter hsource)) c (strip_subset hc)
  · intro line hline
    obtain ⟨source, hsource, rfl⟩ := List.mem_map.mp hline
    rw [isComment_strip]
    simpa using (List.mem_filter.mp hsource).2

theorem strip_cons_space {c : Nat} (hc : isSpace c = true) (text : Codes) : strip (c :: text) = strip text := by
  rw [strip, List.dropWhile_cons_of_pos hc, strip]

theorem length_strip_le (text : Codes) : (strip text).length ≤ text.length :=
  ((List.rdropWhile_prefix _ _).length_le).trans (List.dropWhile_sublist _).length_le

/-- A value that is read again is read again when the blanks around it go. -/
theorem Collected.strip_join {lines : List Codes} (h : Collected P lines) :
    ∃ kept, Collected P kept ∧ strip ([10].intercalate lines) = joinLines kept := by
  induction lines with
  | nil => exact absurd rfl h.ne_nil
  | cons first rest ih =>
    cases first with
    | cons c first =>
      have hc : isSpace c = false := by
        by_contra hc
        have hstrip := h.stripped (c :: first) List.mem_cons_self
        rw [strip_cons_space (by simpa using hc)] at hstrip
        have hlength := length_strip_le first
        rw [hstrip, List.length_cons] at hlength
        omega
      exact ⟨(c :: first) :: rest, h, by
        rw [strip, List.intercalate_cons_cons_left, List.dropWhile_cons_of_neg (by simp [hc]), joinLines,
          List.intercalate_cons_cons_left]⟩
    | nil =>
      by_cases hrest : rest = []
      · subst hrest
        exact ⟨[[]], h, rfl⟩
      · obtain ⟨kept, hkept, hstrip⟩ := ih ⟨hrest, fun l hl => h.stripped l (List.mem_cons_of_mem _ hl),
          fun l hl => h.chars l (List.mem_cons_of_mem _ hl), fun l hl => h.noComment l (List.mem_of_mem_tail hl)⟩
        refine ⟨kept, hkept, ?_⟩
        rw [List.intercalate_cons_of_ne_nil hrest, List.nil_append, List.singleton_append, strip_cons_space isSpace_newline]
        exact hstrip

theorem reread_strip {value : Codes} (h : reread value = value) : reread (strip value) = strip value := by
  obtain ⟨kept, hkept, hjoin, -⟩ := (rereadLines_collected value).trimmed
  obtain ⟨front, hfront, hstrip⟩ := hkept.strip_join
  have hvalue : value = [10].intercalate kept := h.symm.trans hjoin
  rw [hvalue, hstrip]
  exact hfront.reread (by simp)

/-- A value of one line loses the blanks around it. -/
theorem reread_of_oneLine {value : Codes} (h : 10 ∉ value) : reread value = strip value := by
  rw [reread, List.splitOn_eq_singleton h]
  change ([10].intercalate [strip value]).rdropWhile isSpace = strip value
  rw [List.intercalate_singleton, strip, List.rdropWhile_idempotent]

/-! ## What reading collects -/

theorem mem_setItem {ν : Type} {items : List (Codes × ν)} {key : Codes} {value : ν} {item : Codes × ν}
    (h : item ∈ Dict.setItem items key value) : item = (key, value) ∨ item ∈ items := by
  induction items with
  | nil => simpa [Dict.setItem] using h
  | cons first items ih =>
    obtain ⟨k, v⟩ := first
    rw [Dict.setItem] at h
    split_ifs at h with hk
    · subst hk
      rcases List.mem_cons.mp h with h | h
      · exact Or.inl h
      · exact Or.inr (List.mem_cons_of_mem _ h)
    · rcases List.mem_cons.mp h with rfl | h
      · exact Or.inr List.mem_cons_self
      · exact (ih h).imp id (List.mem_cons_of_mem _)

/-- The lines of every option are such that its value is read again. -/
structure Reader.Sound (P : Nat → Prop) (r : Reader) : Prop where
  defaults : ∀ item ∈ r.defaults, Collected P item.2
  sections : ∀ entry ∈ r.sections, ∀ item ∈ entry.2, Collected P item.2

theorem Reader.Sound.options {r : Reader} (h : r.Sound P) (name : Codes) : ∀ item ∈ r.options name, Collected P item.2 := by
  unfold Reader.options
  split_ifs
  · exact h.defaults
  · intro item hitem
    cases hget : Dict.getItem r.sections name with
    | none => rw [hget] at hitem; exact absurd hitem (List.not_mem_nil)
    | some options =>
      rw [hget] at hitem
      exact h.sections _ (Dict.mem_of_getItem hget) item hitem

theorem Reader.Sound.setOption {r : Reader} (h : r.Sound P) (name option : Codes) {lines : List Codes} (hlines : Collected P lines) :
    (r.setOption name option lines).Sound P := by
  unfold Reader.setOption
  split_ifs
  · refine ⟨fun item hitem => ?_, h.sections⟩
    rcases mem_setItem hitem with rfl | hitem
    · exact hlines
    · exact h.defaults item hitem
  · refine ⟨h.defaults, fun entry hentry item hitem => ?_⟩
    rcases mem_setItem hentry with rfl | hentry
    · rcases mem_setItem hitem with rfl | hitem
      · exact hlines
      · exact h.options name item hitem
    · exact h.sections entry hentry item hitem

theorem Reader.Sound.append {r : Reader} (h : r.Sound P) (name : Codes) {value : Codes} (hstripped : strip value = value)
    (hline : ∀ c ∈ value, P c) (hcomment : isComment value = false) : (r.append name value).Sound P := by
  apply h.setOption
  cases hget : Dict.getItem (r.options name) r.option with
  | none => exact ⟨by simp, by simpa using hstripped, by simpa using hline, by simp⟩
  | some lines =>
    obtain ⟨hne, hs, hchars, hc⟩ := h.options name _ (Dict.mem_of_getItem hget)
    rw [Option.getD_some]
    refine ⟨by simp, ?_, ?_, ?_⟩
    · simpa [or_imp, forall_and, hstripped] using hs
    · simpa [or_imp, forall_and] using ⟨hchars, hline⟩
    · rw [List.tail_append_of_ne_nil hne]
      simpa [or_imp, forall_and, hcomment] using hc

theorem Reader.Sound.openSection {r r' : Reader} (h : r.Sound P) {name : Codes} (hopen : r.openSection name = .ok r') : r'.Sound P := by
  unfold Reader.openSection at hopen
  split_ifs at hopen <;> cases hopen
  · exact ⟨h.defaults, h.sections⟩
  · exact ⟨h.defaults, h.sections⟩
  · refine ⟨h.defaults, fun entry hentry => ?_⟩
    rcases List.mem_append.mp hentry with hentry | hentry
    · exact h.sections entry hentry
    · rw [List.mem_singleton.mp hentry]
      simp

theorem matchOption_value {value name text : Codes} (h : matchOption value = some (name, text)) :
    strip text = text ∧ ∀ c ∈ text, c ∈ value := by
  unfold matchOption at h
  split at h
  · cases h
  · next rest hrest =>
    cases h
    refine ⟨strip_strip _, fun c hc => ?_⟩
    exact List.dropWhile_subset _ (hrest ▸ List.mem_cons_of_mem _ (strip_subset hc))

section
variable {lower : Codes → Codes}

theorem Reader.Sound.openOption {r r' : Reader} (h : r.Sound P) {name value : Codes} (hline : ∀ c ∈ value, P c)
    (hopen : r.openOption lower name value = .ok r') : r'.Sound P := by
  unfold Reader.openOption at hopen
  split at hopen
  · cases hopen
    exact ⟨h.defaults, h.sections⟩
  · next option text hmatch =>
    obtain ⟨hstripped, hsub⟩ := matchOption_value hmatch
    split_ifs at hopen
    cases hopen
    have hlines : Collected P [text] :=
      ⟨by simp, by simpa using hstripped, by simpa using fun c hc => hline c (hsub c hc), by simp⟩
    refine Reader.Sound.setOption ?_ name (lower option) hlines
    exact ⟨h.defaults, h.sections⟩

theorem Reader.Sound.opening {r r' : Reader} (h : r.Sound P) {value : Codes} (hline : ∀ c ∈ value, P c)
    (hopen : r.opening lower value = .ok r') : r'.Sound P := by
  unfold Reader.opening at hopen
  split at hopen
  · exact h.openSection hopen
  · cases hopen
  · exact h.openOption hline hopen

theorem Reader.Sound.line {r r' : Reader} (h : r.Sound P) {line : Codes} (hline : ∀ c ∈ line, P c)
    (hread : r.line lower line = .ok r') : r'.Sound P := by
  unfold Reader.line at hread
  by_cases hcomment : isComment line = true
  · rw [if_pos hcomment] at hread
    cases hread
    exact h
  · rw [if_neg hcomment] at hread
    have hvalue : ∀ c ∈ strip line, P c := fun c hc => hline c (strip_subset hc)
    have hplain : isComment (strip line) = false := by rw [isComment_strip]; simpa using hcomment
    have hstripped := strip_strip line
    have hindented : Reader.Sound P { r with indent := (line.takeWhile isSpace).length } := ⟨h.defaults, h.sections⟩
    split at hread
    · cases hread
      by_cases hoption : r.option = []
      · rw [if_pos hoption]
        exact h
      · rw [if_neg hoption]
        exact h.append _ rfl (by simp) rfl
    · cases hread
      exact h
    · next hstrip _ =>
      rw [hstrip] at hvalue hplain hstripped
      by_cases hcontinued : r.option ≠ [] ∧ r.indent < (line.takeWhile isSpace).length
      · rw [if_pos hcontinued] at hread
        cases hread
        exact h.append _ hstripped hvalue hplain
      · rw [if_neg hcontinued] at hread
        exact hindented.opening hvalue hread
    · next hstrip _ =>
      rw [hstrip] at hvalue
      exact hindented.opening hvalue hread

theorem fileLines_chars (text : Codes) : ∀ line ∈ fileLines text, ∀ c ∈ line, c ≠ 10 ∧ c ∈ text := by
  intro line hline c hc
  unfold fileLines at hline
  rcases List.mem_append.mp hline with hline | hline
  · simpa using cutLines_lines _ text line hline c hc
  · split_ifs at hline
    · exact absurd hline List.not_mem_nil
    · rw [List.mem_singleton.mp hline] at hc
      exact ⟨by simpa using cutLines_open _ text c hc, mem_of_cutLines _ text c hc⟩

theorem Reader.Sound.foldlM {lines : List Codes} {r r' : Reader} (h : r.Sound P) (hlines : ∀ line ∈ lines, ∀ c ∈ line, P c)
    (hread : lines.foldlM (Reader.line lower) r = .ok r') : r'.Sound P := by
  induction lines generalizing r with
  | nil =>
    cases hread
    exact h
  | cons line lines ih =>
    rw [List.foldlM_cons] at hread
    cases hfirst : r.line lower line with
    | error e =>
      rw [hfirst] at hread
      cases hread
    | ok next =>
      rw [hfirst] at hread
      exact ih (h.line (hlines line List.mem_cons_self) hfirst) (fun l hl => hlines l (List.mem_cons_of_mem _ hl)) hread

theorem joinLines_chars {lines : List Codes} (h : ∀ line ∈ lines, ∀ c ∈ line, P c) : ∀ c ∈ joinLines lines, P c ∨ c = 10 := by
  intro c hc
  rcases mem_intercalate ((List.rdropWhile_prefix _ _).subset hc) with hsep | ⟨line, hline, hmem⟩
  · exact Or.inr hsep
  · exact Or.inl (h line hline c hmem)

/-- A value that writing and reading give back, with no character that the text has not. -/
def Stable (text value : Codes) : Prop := reread value = value ∧ ∀ c ∈ value, c ∈ text ∨ c = 10

/-- Every value that was read is read again when it is written. -/
theorem read_stable {text : Codes} {p : Parsed} (h : read lower text = .ok p) :
    (∀ item ∈ p.defaults, Stable text item.2) ∧ ∀ entry ∈ p.sections, ∀ item ∈ entry.2, Stable text item.2 := by
  have hjoined : ∀ lines : Lines, (∀ item ∈ lines, Collected (fun c => c ≠ 10 ∧ c ∈ text) item.2) →
      ∀ item ∈ joined lines, Stable text item.2 := by
    intro lines hlines item hitem
    obtain ⟨source, hsource, rfl⟩ := List.mem_map.mp hitem
    refine ⟨(hlines source hsource).reread (by simp), fun c hc => ?_⟩
    exact (joinLines_chars (hlines source hsource).chars c hc).imp And.right id
  unfold read at h
  cases hfold : (fileLines text).foldlM (Reader.line lower) {} with
  | error e =>
    rw [hfold] at h
    cases h
  | ok r =>
    rw [hfold] at h
    change (if r.failed then Except.error ReadError.parsing else Except.ok r.parsed) = Except.ok p at h
    have hsound : r.Sound _ := Reader.Sound.foldlM ⟨by simp, by simp⟩ (fileLines_chars text) hfold
    split_ifs at h
    cases h
    refine ⟨hjoined r.defaults hsound.defaults, fun entry hentry => ?_⟩
    obtain ⟨source, hsource, rfl⟩ := List.mem_map.mp hentry
    exact hjoined source.2 (hsound.sections source hsource)

end

end

/-! ## Reading what was written -/

section
variable {lower : Codes → Codes}

/-- The lines of an option as it is written. -/
def writtenOption (option : Codes × Codes) : List Codes :=
  match option.2.splitOn 10 with
  | [] => []
  | first :: rest => (option.1 ++ codes " = " ++ first) :: rest.map (9 :: ·)

def writtenSection (entry : Codes × Options) : List Codes :=
  (91 :: entry.1 ++ [93]) :: entry.2.flatMap writtenOption ++ [[]]

theorem indented_of_oneLine {line : Codes} (h : 10 ∉ line) : indented line = line := by
  induction line with
  | nil => rfl
  | cons c line ih =>
    rw [List.mem_cons, not_or] at h
    rw [indented, List.flatMap_cons, if_neg (Ne.symm h.1)]
    exact congrArg (c :: ·) (ih h.2)

theorem indented_append (a b : Codes) : indented (a ++ b) = indented a ++ indented b := List.flatMap_append

theorem writeOption_lines (option : Codes × Codes) : writeOption option = (writtenOption option).flatMap (· ++ [10]) := by
  obtain ⟨first, rest, hsplit⟩ := List.exists_cons_of_ne_nil (List.splitOn_ne_nil 10 option.2)
  have hline := splitOn_oneLine option.2
  have hvalue : [10].intercalate (option.2.splitOn 10) = option.2 := List.intercalate_splitOn 10
  rw [hsplit] at hline hvalue
  have hindented : indented ([10].intercalate (first :: rest)) ++ [10] = first ++ [10] ++ (rest.map (9 :: ·)).flatMap (· ++ [10]) := by
    clear hsplit hvalue
    induction rest generalizing first with
    | nil => simp [indented_of_oneLine (hline first (by simp))]
    | cons next rest ih =>
      rw [List.intercalate_cons_cons, indented_append, indented_append, indented_of_oneLine (hline first (by simp)),
        List.append_assoc, List.append_assoc, ih next fun l hl => hline l (List.mem_cons_of_mem _ hl)]
      simp [indented]
  unfold writeOption writtenOption
  rw [hsplit]
  dsimp only
  rw [List.flatMap_cons, ← hvalue]
  simp only [List.append_assoc]
  rw [hindented]
  simp only [List.append_assoc]

theorem writeSection_lines (entry : Codes × Options) :
    writeSection entry.1 entry.2 = (writtenSection entry).flatMap (· ++ [10]) := by
  have hoptions : entry.2.flatMap writeOption = (entry.2.flatMap writtenOption).flatMap (· ++ [10]) := by
    rw [List.flatMap_assoc]
    exact List.flatMap_congr fun option _ => writeOption_lines option
  unfold writeSection writtenSection
  rw [hoptions]
  simp

/-- A name that is written between brackets and read. -/
structure GoodSection (name : Codes) : Prop where
  ne_nil : name ≠ []
  oneLine : 10 ∉ name
  ordinary : name ≠ defaultSection

/-- A name that is written before a delimiter and read. -/
structure GoodOption (lower : Codes → Codes) (name : Codes) : Prop where
  lowered : lower name = name
  oneLine : 10 ∉ name
  undelimited : ∀ c ∈ name, isDelimiter c = false
  first : ∃ c rest, name = c :: rest ∧ isSpace c = false ∧ c ≠ 35 ∧ c ≠ 59 ∧ c ≠ 91
  last : ∃ init c, name = init ++ [c] ∧ isSpace c = false

/-- The reader between two lines of a written file. -/
structure Reader.Holds (r : Reader) (done : List (Codes × Lines)) : Prop where
  defaults : r.defaults = []
  sections : r.sections = done
  seen : ∀ name option, r.saw name option = true →
    ∃ names, (name, names) ∈ done.map (fun entry => (entry.1, entry.2.map Prod.fst)) ∧ ∀ o, option = some o → o ∈ names
  indent : r.indent = 0
  failed : r.failed = false

theorem rdropWhile_append_of_last {p : Nat → Bool} {a b : Codes} {c : Nat} (hc : p c = false) :
    (a ++ [c] ++ b).rdropWhile p = a ++ [c] ++ b.rdropWhile p := by
  induction b using List.reverseRecOn with
  | nil => simp [hc]
  | append_singleton b d ih =>
    rw [← List.append_assoc, List.rdropWhile_concat, List.rdropWhile_concat, ih]
    split_ifs <;> simp only [List.append_assoc]

theorem strip_rdropWhile (text : Codes) : strip (text.rdropWhile isSpace) = strip text := by
  induction text using List.reverseRecOn with
  | nil => rfl
  | append_singleton text c ih =>
    rw [List.rdropWhile_concat]
    split_ifs with hc
    · rw [ih, strip, strip, List.dropWhile_append]
      split_ifs with hblank
      · rw [List.isEmpty_iff.mp hblank]
        simp [hc]
      · rw [List.rdropWhile_concat_pos _ _ _ hc]
    · rfl

/-- A line that starts with a name opens a section or an option. -/
theorem Reader.line_opening {r : Reader} (hindent : r.indent = 0) {c : Nat} {line : Codes} (hc : isSpace c = false)
    (h35 : c ≠ 35) (h59 : c ≠ 59) : r.line lower (c :: line) = r.opening lower ((c :: line).rdropWhile isSpace) := by
  have hstrip : strip (c :: line) = (c :: line).rdropWhile isSpace := by
    rw [strip, List.dropWhile_cons_of_neg (by simp [hc])]
  obtain ⟨rest, hrest⟩ : ∃ rest, (c :: line).rdropWhile isSpace = c :: rest := ⟨_, rdropWhile_append_of_last (a := []) hc⟩
  have hcomment : isComment (c :: line) = false := by
    rw [isComment, hstrip, hrest]
    simp [h35, h59]
  have hlevel : ((c :: line).takeWhile isSpace).length = 0 := by
    rw [List.takeWhile_cons_of_neg (by simp [hc])]
    rfl
  have hsame : { r with indent := 0 } = r := by
    rw [← hindent]
  unfold Reader.line
  rw [hcomment, hstrip, hrest, hlevel, hsame, hindent]
  cases r.current <;> simp

theorem matchHeader_written {name : Codes} (h : name ≠ []) : matchHeader (91 :: name ++ [93]) = some name := by
  have hupTo : (name ++ [93]).rdropWhile (· ≠ 93) = name ++ [93] := List.rdropWhile_concat_neg _ _ _ (by simp)
  rw [List.cons_append, matchHeader, hupTo, List.dropLast_concat, if_neg h]

theorem Reader.Holds.header {r : Reader} {done : List (Codes × Lines)} (h : r.Holds done) {name : Codes}
    (hgood : GoodSection name) (hnew : name ∉ done.map Prod.fst) :
    ∃ r', r.line lower (91 :: name ++ [93]) = .ok r' ∧ r'.Holds (done ++ [(name, [])]) ∧ r'.current = some name ∧
      r'.option = [] := by
  have hvalue : (91 :: name ++ [93]).rdropWhile isSpace = 91 :: name ++ [93] :=
    List.rdropWhile_concat_neg _ _ _ (by decide)
  have hfresh : Dict.getItem done name = none := (Dict.setItem_new hnew []).1
  have hopen : r.line lower (91 :: name ++ [93]) = .ok { r with
      sections := done ++ [(name, [])], current := some name, option := [], seen := (name, none) :: r.seen } := by
    rw [List.cons_append, Reader.line_opening h.indent (by decide) (by decide) (by decide), ← List.cons_append, hvalue,
      Reader.opening, matchHeader_written hgood.ne_nil]
    dsimp only
    rw [Reader.openSection, h.sections, hfresh, if_neg (by simp), if_neg hgood.ordinary]
  refine ⟨_, hopen, ⟨h.defaults, rfl, fun other option hsaw => ?_, h.indent, h.failed⟩, rfl, rfl⟩
  rw [Reader.saw, List.any_cons, Bool.or_eq_true, decide_eq_true_eq, Prod.mk.injEq] at hsaw
  rcases hsaw with ⟨rfl, rfl⟩ | hsaw
  · exact ⟨[], by simp, by simp⟩
  · obtain ⟨names, hnames, hoption⟩ := h.seen other option hsaw
    exact ⟨names, by rw [List.map_append]; exact List.mem_append_left _ hnames, hoption⟩

theorem matchOption_written {name : Codes} (h : GoodOption lower name) (first : Codes) :
    matchOption ((name ++ codes " = " ++ first).rdropWhile isSpace) = some (name, strip first) := by
  obtain ⟨init, c, hname, hc⟩ := h.last
  have hline : name ++ codes " = " ++ first = (name ++ [32]) ++ [61] ++ (32 :: first) := by
    simp [show codes " = " = [32, 61, 32] from rfl]
  have hplain : ∀ d ∈ name ++ [32], (!isDelimiter d) = true := by
    intro d hd
    rcases List.mem_append.mp hd with hd | hd
    · rw [h.undelimited d hd]
      rfl
    · rw [List.mem_singleton.mp hd]
      rfl
  rw [hline, rdropWhile_append_of_last (by decide), List.append_assoc (name ++ [32]), matchOption,
    List.dropWhile_append_of_pos hplain, List.takeWhile_append_of_pos hplain, List.singleton_append,
    List.dropWhile_cons_of_neg (by decide), List.takeWhile_cons_of_neg (by decide)]
  dsimp only
  rw [List.append_nil, List.rdropWhile_concat_pos _ _ _ (by decide), hname, List.rdropWhile_concat_neg _ _ _ (by simp [hc]),
    strip_rdropWhile, strip_cons_space (by decide)]

theorem setItem_last {ν : Type} {items : List (Codes × ν)} {key : Codes} (hnew : key ∉ items.map Prod.fst) (value other : ν) :
    Dict.setItem (items ++ [(key, value)]) key other = items ++ [(key, other)] := by
  induction items with
  | nil => simp [Dict.setItem]
  | cons item items ih =>
    rw [List.map_cons, List.mem_cons, not_or] at hnew
    rw [List.cons_append, Dict.setItem, if_neg (Ne.symm hnew.1), ih hnew.2, List.cons_append]

section
variable {r : Reader} {done : List (Codes × Lines)} {name : Codes} {options : Lines}

theorem Reader.Holds.current_options (h : r.Holds (done ++ [(name, options)])) (hgood : GoodSection name)
    (hnew : name ∉ done.map Prod.fst) : r.options name = options := by
  rw [Reader.options, if_neg hgood.ordinary, h.sections, Dict.getItem_concat hnew, if_pos rfl]
  rfl

theorem Reader.Holds.setOption (h : r.Holds (done ++ [(name, options)])) (hgood : GoodSection name)
    (hnew : name ∉ done.map Prod.fst) (option : Codes) (lines : List Codes) :
    r.setOption name option lines = { r with sections := done ++ [(name, Dict.setItem options option lines)] } := by
  rw [Reader.setOption, if_neg hgood.ordinary, h.current_options hgood hnew, h.sections, setItem_last hnew]

theorem Reader.Holds.first (h : r.Holds (done ++ [(name, options)])) (hgood : GoodSection name) (hnew : name ∉ done.map Prod.fst)
    (hcurrent : r.current = some name) {option : Codes} (hoption : GoodOption lower option)
    (hfresh : option ∉ options.map Prod.fst) (first : Codes) :
    ∃ r', r.line lower (option ++ codes " = " ++ first) = .ok r' ∧
      r'.Holds (done ++ [(name, options ++ [(option, [strip first])])]) ∧ r'.current = some name ∧ r'.option = option := by
  obtain ⟨c, rest, hname, hc, h35, h59, h91⟩ := hoption.first
  have hsaw : r.saw name (some option) = false := by
    by_contra hsaw
    obtain ⟨names, hnames, hmem⟩ := h.seen name (some option) (by simpa using hsaw)
    rw [List.map_append, List.mem_append] at hnames
    rcases hnames with hnames | hnames
    · obtain ⟨entry, hentry, heq⟩ := List.mem_map.mp hnames
      exact hnew (List.mem_map.mpr ⟨entry, hentry, congrArg Prod.fst heq⟩)
    · rw [List.map_singleton, List.mem_singleton, Prod.mk.injEq] at hnames
      exact hfresh (hnames.2 ▸ hmem option rfl)
  have hheader : matchHeader ((option ++ codes " = " ++ first).rdropWhile isSpace) = none := by
    have hline : option ++ codes " = " ++ first = [] ++ [c] ++ (rest ++ codes " = " ++ first) := by
      rw [hname]
      simp
    rw [hline, rdropWhile_append_of_last hc]
    unfold matchHeader
    split
    · next heq => exact absurd (List.cons.inj heq).1 h91
    · rfl
  have hline : r.line lower (option ++ codes " = " ++ first) =
      r.opening lower ((option ++ codes " = " ++ first).rdropWhile isSpace) := by
    rw [hname]
    exact Reader.line_opening h.indent hc h35 h59
  let named : Reader := { r with
    option := option, seen := (name, some option) :: r.seen, failed := r.failed || option.isEmpty,
    sections := done ++ [(name, options ++ [(option, [strip first])])] }
  refine ⟨named, ?_, ⟨h.defaults, rfl, ?_, h.indent, ?_⟩, hcurrent, rfl⟩
  · rw [hline, Reader.opening, hheader, hcurrent]
    dsimp only
    rw [Reader.openOption, matchOption_written hoption]
    dsimp only
    rw [hoption.lowered, hsaw, if_neg (by simp)]
    have hsame : Reader.setOption { r with
        option := option, seen := (name, some option) :: r.seen, failed := r.failed || option.isEmpty } name option
        [strip first] = named := by
      rw [Reader.setOption, if_neg hgood.ordinary]
      change { r with
        option := option, seen := (name, some option) :: r.seen, failed := r.failed || option.isEmpty,
        sections := Dict.setItem r.sections name (Dict.setItem (r.options name) option [strip first]) } = named
      rw [h.current_options hgood hnew, h.sections, setItem_last hnew, (Dict.setItem_new hfresh _).2]
    rw [hsame]
  · intro other o hother
    change (((name, some option) :: r.seen).any fun s => decide (s = (other, o))) = true at hother
    rw [List.any_cons, Bool.or_eq_true, decide_eq_true_eq, Prod.mk.injEq] at hother
    rcases hother with ⟨rfl, rfl⟩ | hother
    · exact ⟨(options ++ [(option, [strip first])]).map Prod.fst, by simp, by simp⟩
    · obtain ⟨names, hnames, hmem⟩ := h.seen other o hother
      rw [List.map_append, List.mem_append, List.map_singleton, List.mem_singleton, Prod.mk.injEq] at hnames
      rcases hnames with hnames | ⟨rfl, rfl⟩
      · exact ⟨names, by rw [List.map_append]; exact List.mem_append_left _ hnames, hmem⟩
      · refine ⟨(options ++ [(option, [strip first])]).map Prod.fst, by simp, fun p hp => ?_⟩
        rw [List.map_append]
        exact List.mem_append_left _ (hmem p hp)
  · change (r.failed || option.isEmpty) = false
    rw [h.failed, hname]
    rfl

theorem Reader.Holds.continued {before : Lines} {option : Codes} {lines : List Codes}
    (h : r.Holds (done ++ [(name, before ++ [(option, lines)])])) (hgood : GoodSection name) (hnew : name ∉ done.map Prod.fst)
    (hfresh : option ∉ before.map Prod.fst) (hoption : r.option = option) (value : Codes) :
    (r.append name value).Holds (done ++ [(name, before ++ [(option, lines ++ [value])])]) ∧
      (r.append name value).current = r.current ∧ (r.append name value).option = option := by
  have happend : r.append name value = { r with sections := done ++ [(name, before ++ [(option, lines ++ [value])])] } := by
    rw [Reader.append, h.setOption hgood hnew, h.current_options hgood hnew, hoption, Dict.getItem_concat hfresh, if_pos rfl,
      Option.getD_some, setItem_last hfresh]
  rw [happend]
  refine ⟨⟨h.defaults, rfl, fun other o hother => ?_, h.indent, h.failed⟩, rfl, hoption⟩
  simpa using h.seen other o hother

/-- The further lines of a value. -/
theorem Reader.Holds.rest {before : Lines} {option : Codes} {lines : List Codes}
    (h : r.Holds (done ++ [(name, before ++ [(option, lines)])])) (hgood : GoodSection name) (hnew : name ∉ done.map Prod.fst)
    (hcurrent : r.current = some name) (hfresh : option ∉ before.map Prod.fst) (hoption : r.option = option)
    (hne : option ≠ []) (rest : List Codes) :
    ∃ r', (rest.map (9 :: ·)).foldlM (Reader.line lower) r = .ok r' ∧
      r'.Holds (done ++ [(name, before ++ [(option, lines ++ (rest.filter fun line => !isComment line).map strip)])]) ∧
      r'.current = some name ∧ r'.option = option := by
  induction rest generalizing r lines with
  | nil => exact ⟨r, rfl, by simpa using h, hcurrent, hoption⟩
  | cons line rest ih =>
    have htab : strip (9 :: line) = strip line := strip_cons_space (by decide) line
    have hcomment : isComment (9 :: line) = isComment line := by
      unfold isComment
      rw [htab]
    rw [List.map_cons, List.foldlM_cons]
    by_cases hskip : isComment line = true
    · have hread : r.line lower (9 :: line) = .ok r := by
        rw [Reader.line, hcomment, if_pos hskip]
      rw [hread, List.filter_cons_of_neg (by simp [hskip])]
      exact ih h hcurrent hoption
    · have hread : r.line lower (9 :: line) = .ok (r.append name (strip line)) := by
        rw [Reader.line, hcomment, if_neg hskip, htab, hcurrent, h.indent, hoption]
        cases strip line with
        | nil => simp [hne]
        | cons c value =>
          dsimp only
          rw [if_pos ⟨hne, by simp [isSpace]⟩]
      obtain ⟨hnext, hcurrent', hoption'⟩ := h.continued hgood hnew hfresh hoption (strip line)
      rw [hread, List.filter_cons_of_pos (by simp [hskip]), List.map_cons, List.append_cons lines]
      exact ih hnext (hcurrent'.trans hcurrent) hoption'

theorem Reader.Holds.option (h : r.Holds (done ++ [(name, options)])) (hgood : GoodSection name) (hnew : name ∉ done.map Prod.fst)
    (hcurrent : r.current = some name) {item : Codes × Codes} (hoption : GoodOption lower item.1)
    (hfresh : item.1 ∉ options.map Prod.fst) :
    ∃ r', (writtenOption item).foldlM (Reader.line lower) r = .ok r' ∧
      r'.Holds (done ++ [(name, options ++ [(item.1, rereadLines (item.2.splitOn 10))])]) ∧ r'.current = some name ∧
      r'.option = item.1 := by
  obtain ⟨first, rest, hsplit⟩ := List.exists_cons_of_ne_nil (List.splitOn_ne_nil 10 item.2)
  obtain ⟨r₁, hread₁, h₁, hcurrent₁, hoption₁⟩ := h.first hgood hnew hcurrent hoption hfresh first
  have hne : item.1 ≠ [] := by
    obtain ⟨c, tail, hname, -⟩ := hoption.first
    simp [hname]
  obtain ⟨r₂, hread₂, h₂, hcurrent₂, hoption₂⟩ := h₁.rest hgood hnew hcurrent₁ hfresh hoption₁ hne rest
  refine ⟨r₂, ?_, ?_, hcurrent₂, hoption₂⟩
  · rw [writtenOption, hsplit]
    dsimp only
    rw [List.foldlM_cons, hread₁]
    exact hread₂
  · rw [hsplit]
    exact h₂

/-- The options that reading a section collects. -/
def collectedOptions (options : Options) : Lines := options.map fun item => (item.1, rereadLines (item.2.splitOn 10))

theorem Reader.Holds.section (h : r.Holds (done ++ [(name, options)])) (hgood : GoodSection name)
    (hnew : name ∉ done.map Prod.fst) (hcurrent : r.current = some name) {items : Options}
    (hitems : ∀ item ∈ items, GoodOption lower item.1) (hnodup : (options.map Prod.fst ++ items.map Prod.fst).Nodup)
    (hlast : r.option = ((options.map Prod.fst).getLast?).getD []) :
    ∃ r', (items.flatMap writtenOption).foldlM (Reader.line lower) r = .ok r' ∧
      r'.Holds (done ++ [(name, options ++ collectedOptions items)]) ∧ r'.current = some name ∧
      r'.option = (((options ++ collectedOptions items).map Prod.fst).getLast?).getD [] := by
  induction items generalizing r options with
  | nil => exact ⟨r, rfl, by simpa [collectedOptions] using h, hcurrent, by simpa [collectedOptions] using hlast⟩
  | cons item items ih =>
    have hfresh : item.1 ∉ options.map Prod.fst := by
      intro hmem
      exact (List.nodup_append.mp hnodup).2.2 _ hmem _ List.mem_cons_self rfl
    obtain ⟨r₁, hread₁, h₁, hcurrent₁, hoption₁⟩ := h.option hgood hnew hcurrent (hitems item List.mem_cons_self) hfresh
    obtain ⟨r₂, hread₂, h₂, hcurrent₂, hoption₂⟩ := ih h₁ hcurrent₁ (fun i hi => hitems i (List.mem_cons_of_mem _ hi))
      (by simpa using hnodup) (by simpa using hoption₁)
    refine ⟨r₂, ?_, by simpa [collectedOptions] using h₂, hcurrent₂, by simpa [collectedOptions] using hoption₂⟩
    rw [List.flatMap_cons, List.foldlM_append, hread₁]
    exact hread₂

/-- The empty line that ends a section goes to its last option, where it is dropped. -/
theorem Reader.Holds.blank (h : r.Holds (done ++ [(name, options)])) (hgood : GoodSection name) (hnew : name ∉ done.map Prod.fst)
    (hcurrent : r.current = some name) (hnodup : (options.map Prod.fst).Nodup) (hcollected : ∀ item ∈ options, item.2 ≠ [])
    (hne : ∀ item ∈ options, item.1 ≠ []) (hlast : r.option = ((options.map Prod.fst).getLast?).getD []) :
    ∃ r' lines, r.line lower [] = .ok r' ∧ r'.Holds (done ++ [(name, lines)]) ∧ lines.map Prod.fst = options.map Prod.fst ∧
      joined lines = joined options := by
  have hread : r.line lower [] = .ok (if r.option = [] then r else r.append name []) := by
    rw [Reader.line, if_neg (by decide), hcurrent]
    rfl
  induction options using List.reverseRecOn with
  | nil => exact ⟨r, [], by rw [hread, if_pos (by simpa using hlast)], h, rfl, rfl⟩
  | append_singleton before item =>
    have hoption : r.option = item.1 := by simpa using hlast
    have hfresh : item.1 ∉ before.map Prod.fst := by
      rw [List.map_append, List.nodup_append] at hnodup
      intro hmem
      exact hnodup.2.2 _ hmem _ (by simp) rfl
    refine ⟨r.append name [], before ++ [(item.1, item.2 ++ [[]])], ?_, (h.continued hgood hnew hfresh hoption []).1, by simp, ?_⟩
    · rw [hread, if_neg (by rw [hoption]; exact hne item (by simp))]
    · simp [joined, joinLines_concat_nil (hcollected item (by simp))]

end

/-- Sections and options that are read under the names they are written with. -/
structure Written (lower : Codes → Codes) (sections : List (Codes × Options)) : Prop where
  nodup : (sections.map Prod.fst).Nodup
  sectionNames : ∀ entry ∈ sections, GoodSection entry.1
  optionsNodup : ∀ entry ∈ sections, (entry.2.map Prod.fst).Nodup
  optionNames : ∀ entry ∈ sections, ∀ item ∈ entry.2, GoodOption lower item.1

def rereadOptions (options : Options) : Options := options.map fun item => (item.1, reread item.2)

theorem joined_collectedOptions (options : Options) : joined (collectedOptions options) = rereadOptions options := by
  simp [joined, collectedOptions, rereadOptions, reread]

theorem Reader.Holds.whole_section {r : Reader} {done : List (Codes × Lines)} (h : r.Holds done) {entry : Codes × Options}
    (hgood : GoodSection entry.1) (hnew : entry.1 ∉ done.map Prod.fst) (hnodup : (entry.2.map Prod.fst).Nodup)
    (hitems : ∀ item ∈ entry.2, GoodOption lower item.1) :
    ∃ r' lines, (writtenSection entry).foldlM (Reader.line lower) r = .ok r' ∧ r'.Holds (done ++ [(entry.1, lines)]) ∧
      joined lines = rereadOptions entry.2 := by
  obtain ⟨r₁, hread₁, h₁, hcurrent₁, hoption₁⟩ := h.header hgood hnew
  obtain ⟨r₂, hread₂, h₂, hcurrent₂, hoption₂⟩ := h₁.section hgood hnew hcurrent₁ hitems (by simpa using hnodup)
    (by simpa using hoption₁)
  rw [List.nil_append] at h₂ hoption₂
  have hnames : (collectedOptions entry.2).map Prod.fst = entry.2.map Prod.fst := by simp [collectedOptions]
  obtain ⟨r₃, lines, hread₃, h₃, -, hjoined⟩ := h₂.blank hgood hnew hcurrent₂ (by rw [hnames]; exact hnodup)
    (by
      intro item hitem
      obtain ⟨source, -, rfl⟩ := List.mem_map.mp hitem
      exact rereadLines_ne_nil _)
    (by
      intro item hitem
      obtain ⟨source, hsource, rfl⟩ := List.mem_map.mp hitem
      obtain ⟨c, rest, hname, -⟩ := (hitems source hsource).first
      simp [hname])
    hoption₂
  refine ⟨r₃, lines, ?_, h₃, by rw [hjoined, joined_collectedOptions]⟩
  rw [Ini.writtenSection, List.cons_append, List.foldlM_cons, hread₁]
  change List.foldlM (Reader.line lower) r₁ (entry.2.flatMap writtenOption ++ [[]]) = _
  rw [List.foldlM_append, hread₂]
  change (r₂.line lower []).bind _ = _
  rw [hread₃]
  rfl

theorem Reader.Holds.whole_file {r : Reader} {done : List (Codes × Lines)} (h : r.Holds done) {sections : List (Codes × Options)}
    (hwritten : Written lower sections) (hnew : ∀ entry ∈ sections, entry.1 ∉ done.map Prod.fst) :
    ∃ r' more, (sections.flatMap writtenSection).foldlM (Reader.line lower) r = .ok r' ∧ r'.Holds (done ++ more) ∧
      more.map (fun entry => (entry.1, joined entry.2)) = sections.map fun entry => (entry.1, rereadOptions entry.2) := by
  induction sections generalizing r done with
  | nil => exact ⟨r, [], rfl, by simpa using h, rfl⟩
  | cons entry sections ih =>
    obtain ⟨hnodup, hnames, hoptions, hitems⟩ := hwritten
    rw [List.map_cons, List.nodup_cons] at hnodup
    obtain ⟨r₁, lines, hread₁, h₁, hjoined⟩ := h.whole_section (hnames entry List.mem_cons_self) (hnew entry List.mem_cons_self)
      (hoptions entry List.mem_cons_self) (hitems entry List.mem_cons_self)
    have hrest : Written lower sections := ⟨hnodup.2, fun e he => hnames e (List.mem_cons_of_mem _ he),
      fun e he => hoptions e (List.mem_cons_of_mem _ he), fun e he => hitems e (List.mem_cons_of_mem _ he)⟩
    obtain ⟨r₂, more, hread₂, h₂, hmore⟩ := ih h₁ hrest (by
      intro e he hmem
      rw [List.map_append, List.mem_append] at hmem
      rcases hmem with hmem | hmem
      · exact hnew e (List.mem_cons_of_mem _ he) hmem
      · rw [List.map_singleton, List.mem_singleton] at hmem
        exact hnodup.1 (hmem ▸ List.mem_map_of_mem he))
    refine ⟨r₂, (entry.1, lines) :: more, ?_, by simpa using h₂, ?_⟩
    · rw [List.flatMap_cons, List.foldlM_append, hread₁]
      exact hread₂
    · rw [List.map_cons, List.map_cons, hmore, hjoined]

theorem writtenSection_oneLine {entry : Codes × Options} (hgood : GoodSection entry.1)
    (hitems : ∀ item ∈ entry.2, GoodOption lower item.1) : ∀ line ∈ writtenSection entry, 10 ∉ line := by
  intro line hline
  unfold writtenSection at hline
  rcases List.mem_append.mp hline with hline | hline
  · rcases List.mem_cons.mp hline with rfl | hline
    · simp [hgood.oneLine]
    · obtain ⟨item, hitem, hline⟩ := List.mem_flatMap.mp hline
      have hvalue := splitOn_oneLine item.2
      obtain ⟨first, rest, hsplit⟩ := List.exists_cons_of_ne_nil (List.splitOn_ne_nil 10 item.2)
      unfold writtenOption at hline
      rw [hsplit] at hline hvalue
      rcases List.mem_cons.mp hline with rfl | hline
      · have := hvalue first (by simp)
        simp [(hitems item hitem).oneLine, this, show codes " = " = [32, 61, 32] from rfl]
      · obtain ⟨other, hother, rfl⟩ := List.mem_map.mp hline
        simpa using hvalue other (by simp [hother])
  · rw [List.mem_singleton.mp hline]
    simp

/-- What is read of a written file: the same sections and options, each value as it is read again. -/
theorem read_write {sections : List (Codes × Options)} (h : Written lower sections) :
    read lower (write { sections := sections }) =
      .ok { sections := sections.map fun entry => (entry.1, rereadOptions entry.2) } := by
  have htext : write { sections := sections } = (sections.flatMap writtenSection).flatMap (· ++ [10]) := by
    rw [List.flatMap_assoc]
    exact List.flatMap_congr fun entry _ => writeSection_lines entry
  have hlines : fileLines (write { sections := sections }) = sections.flatMap writtenSection := by
    unfold fileLines
    rw [htext, cutLines_flatMap (by rfl)]
    · simp
    · intro line hline c hc
      obtain ⟨entry, hentry, hline⟩ := List.mem_flatMap.mp hline
      have hone := writtenSection_oneLine (h.sectionNames entry hentry) (h.optionNames entry hentry) line hline
      simpa using fun heq : c = 10 => hone (heq ▸ hc)
  have hstart : Reader.Holds {} [] := ⟨rfl, rfl, by simp [Reader.saw], rfl, rfl⟩
  obtain ⟨r, more, hread, hr, hmore⟩ := hstart.whole_file h (by simp)
  unfold read
  rw [hlines, hread]
  change (if r.failed then Except.error ReadError.parsing else Except.ok r.parsed) = _
  rw [hr.failed, if_neg (by simp), Reader.parsed, hr.defaults, hr.sections, List.nil_append, hmore]
  rfl

end

end SeedSync.Lib.Ini
