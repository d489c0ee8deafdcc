import SeedSync.Lib.Ini
import SeedSync.Lib.Rereads
import SeedSync.Settings.Checks

/-!
# What the checkers accept

A value that was accepted is accepted again as it is, and what is read of its text is accepted when
the text survives the file.
-/

open SeedSync.Lib

namespace SeedSync.Settings

/-! ## Texts that survive a file -/

/-- A text without a line end and without blanks around it. -/
def Plain (text : Codes) : Prop := strip text = text ∧ 10 ∉ text ∧ 13 ∉ text

instance (text : Codes) : Decidable (Plain text) := inferInstanceAs (Decidable (_ ∧ _))

/-- A text that writing and reading give back. -/
def Clean (text : Codes) : Prop := Ini.reread text = text ∧ 13 ∉ text

theorem Plain.clean {text : Codes} (h : Plain text) : Clean text :=
  ⟨by rw [Ini.reread_of_oneLine h.2.1, h.1], h.2.2⟩

theorem clean_strip {text : Codes} (h : Clean text) : Clean (strip text) :=
  ⟨Ini.reread_strip h.1, fun hmem => h.2 (Ini.strip_subset hmem)⟩

/-- What every plain text has, and what a text keeps without the blanks around it. -/
structure Textual (Q : Codes → Prop) : Prop where
  plain : ∀ text, Plain text → Q text
  strip : ∀ text, Q text → Q (strip text)

theorem clean_textual : Textual Clean := ⟨fun _ => Plain.clean, fun _ => clean_strip⟩

/-- A text without control characters, without the blanks around it. -/
theorem plain_of_control {text : Codes} (h : hasControl (strip text) = false) : Plain (strip text) := by
  have hchars : ∀ c ∈ strip text, 32 ≤ c := by
    intro c hc
    have := List.any_eq_false.mp h c hc
    simp only [Bool.or_eq_true, decide_eq_true_eq, not_or] at this
    omega
  exact ⟨strip_strip text, fun hmem => by have := hchars 10 hmem; omega, fun hmem => by have := hchars 13 hmem; omega⟩

/-- A word in one case. -/
def Word (change : Nat → Nat) (word : Codes) : Prop :=
  word ≠ [] ∧ Plain word ∧ word.map change = word ∧ ∀ c ∈ word, c < 128

instance (change : Nat → Nat) (word : Codes) : Decidable (Word change word) := inferInstanceAs (Decidable (_ ∧ _))

section
variable {py : Strings}

theorem Word.lower {word : Codes} (h : Word lowerAscii word) : py.lower (strip word) = word := by
  rw [h.2.1.1, py.lower_ascii word h.2.2.2, h.2.2.1]

theorem Word.upper {word : Codes} (h : Word upperAscii word) : py.upper (strip word) = word := by
  rw [h.2.1.1, py.upper_ascii word h.2.2.2, h.2.2.1]

/-! ## Numbers and truth values -/

theorem strToBool_text (value : Bool) : strToBool py (Value.bool value).text = some value := by
  cases value
  · rw [strToBool, Value.text, py.lower_ascii _ (by decide)]
    decide
  · rw [strToBool, Value.text, py.lower_ascii _ (by decide)]
    decide

theorem plain_bool (value : Bool) : Plain (Value.bool value).text := by cases value <;> decide

theorem digit_code (c : Nat) (h : isDigitCode c = true) : py.digit c = some (c - 48) := by
  have hc : 48 ≤ c ∧ c ≤ 57 := of_decide_eq_true h
  rw [py.ascii c (by omega), if_pos hc]

theorem digit_not_blank {c : Nat} (h : isDigitCode c = true) : isIntBlank c = false ∧ isSpace c = false ∧ c ≠ 10 ∧ c ≠ 13 ∧ c ≠ 95 := by
  have hc : 48 ≤ c ∧ c ≤ 57 := of_decide_eq_true h
  have hspace : isSpace c = false := by
    simp only [isSpace, Bool.or_eq_false_iff, Bool.and_eq_false_iff, decide_eq_false_iff_not, List.contains_eq_mem]
    refine ⟨⟨⟨?_, by omega⟩, by omega⟩, by omega⟩
    simp
    omega
  exact ⟨by rw [isIntBlank, hspace]; rfl, hspace, by omega, by omega, by omega⟩

theorem digits_value {digits : Codes} (h : ∀ c ∈ digits, isDigitCode c = true) (n : Nat) :
    digits.foldl (fun n c => n * 10 + (py.digit c).getD 0) n = digits.foldl (fun n c => 10 * n + (c - 48)) n := by
  induction digits generalizing n with
  | nil => rfl
  | cons c digits ih =>
    rw [List.foldl_cons, List.foldl_cons, digit_code c (h c List.mem_cons_self), Option.getD_some, Nat.mul_comm]
    exact ih (fun d hd => h d (List.mem_cons_of_mem _ hd)) _

/-- The digits that `int` may read. -/
def Strings.Reads (py : Strings) (n : Int) : Prop := ∀ limit ∈ py.maxDigits, (decimal n.natAbs).length ≤ limit

theorem parseDecimal_decimal {n : Nat} (h : ∀ limit ∈ py.maxDigits, (decimal n).length ≤ limit) :
    Sidecar.parseDecimal py.toDecimals (asCodes (decimal n)) = some n := by
  have hvalue : (asCodes (decimal n)).foldl (fun n c => n * 10 + (py.digit c).getD 0) 0 = n :=
    (digits_value (digits_decimal n) 0).trans (digitsValue_decimal n)
  unfold Sidecar.parseDecimal
  rw [hvalue]
  cases hlimit : py.maxDigits with
  | none => rfl
  | some limit =>
    rw [Option.any_some, if_neg]
    simpa using h limit hlimit

/-- The text of a number has neither blanks nor underscores. -/
theorem decimalInt_chars (n : Int) : ∀ c ∈ asCodes (decimalInt n), c = 45 ∨ isDigitCode c = true := by
  intro c hc
  unfold decimalInt at hc
  split_ifs at hc
  · rw [asCodes_cons, List.mem_cons] at hc
    exact hc.imp id (digits_decimal _ c)
  · exact Or.inr (digits_decimal _ c hc)

theorem strip_of_chars {p : Nat → Bool} {text : Codes} (h : ∀ c ∈ text, p c = false) :
    (text.dropWhile p).rdropWhile p = text := by
  have hdrop : text.dropWhile p = text := by
    cases text with
    | nil => rfl
    | cons c text => rw [List.dropWhile_cons_of_neg (by simp [h c List.mem_cons_self])]
  rw [hdrop, List.rdropWhile_eq_self_iff]
  intro hne
  simp [h _ (List.getLast_mem hne)]

theorem plain_decimalInt (n : Int) : Plain (Value.int n).text := by
  have hchars := decimalInt_chars n
  refine ⟨strip_of_chars fun c hc => ?_, fun hmem => ?_, fun hmem => ?_⟩
  · rcases hchars c hc with rfl | hdigit
    · decide
    · exact (digit_not_blank hdigit).2.1
  · simpa [isDigitCode] using hchars 10 hmem
  · simpa [isDigitCode] using hchars 13 hmem

theorem parseInt_decimalInt {n : Int} (h : py.Reads n) : parseInt py (Value.int n).text = some n := by
  have hbody : ((asCodes (decimalInt n)).dropWhile isIntBlank).rdropWhile isIntBlank = asCodes (decimalInt n) := by
    refine strip_of_chars fun c hc => ?_
    rcases decimalInt_chars n c hc with rfl | hdigit
    · decide
    · exact (digit_not_blank hdigit).1
  have hsign := readSign_decimalInt n []
  rw [List.append_nil, List.append_nil] at hsign
  have hdigits := digits_decimal n.natAbs
  have hgrouped : groupedDigits py (asCodes (decimal n.natAbs)) = true := by
    have hsplit : (asCodes (decimal n.natAbs)).splitOn 95 = [asCodes (decimal n.natAbs)] :=
      List.splitOn_eq_singleton fun hmem => (digit_not_blank (hdigits 95 hmem)).2.2.2.2 rfl
    rw [groupedDigits, hsplit, List.all_cons, List.all_nil, Bool.and_true, Bool.and_eq_true]
    refine ⟨by simpa using decimal_ne_nil n.natAbs, List.all_eq_true.mpr fun c hc => ?_⟩
    rw [Sidecar.isDigit, digit_code c (hdigits c hc)]
    rfl
  have hplain : (asCodes (decimal n.natAbs)).filter (· ≠ 95) = asCodes (decimal n.natAbs) :=
    List.filter_eq_self.mpr fun c hc => by simpa using (digit_not_blank (hdigits c hc)).2.2.2.2
  have htext : (Value.int n).text = asCodes (decimalInt n) := rfl
  unfold parseInt
  dsimp only
  rw [htext, hbody, hsign, if_pos hgrouped, hplain, parseDecimal_decimal h, Option.map_some, signed_natAbs]

theorem digits_lt (digits : Codes) (hdigits : digits.all (Sidecar.isDigit py.toDecimals) = true) :
    digits.foldl (fun n c => n * 10 + (py.digit c).getD 0) 0 < 10 ^ digits.length := by
  induction digits using List.reverseRecOn with
  | nil => simp
  | append_singleton digits c ih =>
    rw [List.all_append, Bool.and_eq_true] at hdigits
    rw [List.foldl_append, List.length_append, List.length_singleton, pow_succ]
    have hinit := ih hdigits.1
    have hc : (py.digit c).getD 0 < 10 := by
      cases hdigit : py.digit c with
      | none => simp
      | some d => exact py.digit_lt c d hdigit
    simp only [List.foldl_cons, List.foldl_nil]
    omega

theorem grouped_digits {digits : Codes} (h : groupedDigits py digits = true) :
    digits.filter (· ≠ 95) ≠ [] ∧ (digits.filter (· ≠ 95)).all (Sidecar.isDigit py.toDecimals) = true := by
  have hgroups : ∀ group ∈ digits.splitOn 95, group ≠ [] ∧ group.all (Sidecar.isDigit py.toDecimals) = true := by
    intro group hgroup
    simpa using List.all_eq_true.mp h group hgroup
  constructor
  · obtain ⟨first, rest, hsplit⟩ := List.exists_cons_of_ne_nil (List.splitOn_ne_nil 95 digits)
    have hfirst : first ∈ digits.splitOn 95 := hsplit ▸ List.mem_cons_self
    obtain ⟨c, tail, rfl⟩ := List.exists_cons_of_ne_nil (hgroups first hfirst).1
    obtain ⟨hne, hmem⟩ := splitOn_chars 95 digits _ hfirst c List.mem_cons_self
    exact List.ne_nil_of_mem (List.mem_filter.mpr ⟨hmem, by simpa using hne⟩)
  · refine List.all_eq_true.mpr fun c hc => ?_
    obtain ⟨hmem, hne⟩ := List.mem_filter.mp hc
    have hjoined : [95].intercalate (digits.splitOn 95) = digits := List.intercalate_splitOn 95
    rw [← hjoined] at hmem
    rcases mem_intercalate hmem with rfl | ⟨group, hgroup, hgroupmem⟩
    · simp at hne
    · exact List.all_eq_true.mp (hgroups group hgroup).2 c hgroupmem

/-- What `int` reads is written with no more digits. -/
theorem parseInt_reads {text : Codes} {n : Int} (h : parseInt py text = some n) : py.Reads n := by
  unfold parseInt at h
  dsimp only at h
  generalize readSign ((text.dropWhile isIntBlank).rdropWhile isIntBlank) = sign at h
  by_cases hgrouped : groupedDigits py sign.2 = true
  · rw [if_pos hgrouped] at h
    obtain ⟨hne, hall⟩ := grouped_digits hgrouped
    obtain ⟨value, hvalue, hn⟩ := Option.map_eq_some_iff.mp h
    have habs : n.natAbs = value := by
      rw [← hn, signed]
      split_ifs <;> simp
    intro limit hlimit
    unfold Sidecar.parseDecimal at hvalue
    rw [hlimit, Option.any_some] at hvalue
    split_ifs at hvalue with hlong
    cases hvalue
    rw [habs]
    have hlength := length_decimal_le (digits_lt _ hall) (List.length_pos_iff.mpr hne)
    have : (sign.2.filter (· ≠ 95)).length ≤ limit := by simpa using hlong
    omega
  · rw [if_neg hgrouped] at h
    cases h

/-! ## Checkers that leave a value as it is -/

/-- The checkers that only refuse. -/
def Checker.isGuard : Checker → Bool
  | .null | .boolValue | .stringNonempty | .stringNonemptyNoControlChars | .stringAllowEmpty
  | .stringAllowEmptyNoControlChars | .intNonNegativeMax _ | .intPositive | .breadcrumbTraceMemoryBudget
  | .breadcrumbTraceMaxEntries | .intRange _ _ => true
  | _ => false

variable {cls name : String} {value checked : Value}

theorem bind_ok {α β ε : Type} {x : Except ε α} {f : α → Except ε β} {b : β} (h : x.bind f = .ok b) :
    ∃ a, x = .ok a ∧ f a = .ok b := by
  cases x with
  | error e => cases h
  | ok a => exact ⟨a, rfl, h⟩

theorem intAtLeastOne_eq (h : intAtLeastOne cls name value = .ok checked) : checked = value := by
  unfold intAtLeastOne at h
  split at h
  · split_ifs at h
    cases h
    rfl
  · cases h

theorem boolValue_eq (h : boolValue cls name value = .ok checked) : ∃ flag, value = .bool flag ∧ checked = .bool flag := by
  unfold boolValue at h
  split at h
  · next flag =>
    cases h
    exact ⟨flag, rfl, rfl⟩
  · cases h

theorem stringNonempty_eq (h : stringNonempty cls name value = .ok checked) : checked = value := by
  unfold stringNonempty at h
  split at h
  · split_ifs at h
    cases h
    rfl
  · cases h

theorem stringAllowEmpty_eq (h : stringAllowEmpty cls name value = .ok checked) : checked = value := by
  unfold stringAllowEmpty at h
  split at h
  · split_ifs at h
    cases h
    rfl
  · cases h

theorem rejectControlCharacters_eq (h : rejectControlCharacters cls name value = .ok checked) : checked = value := by
  unfold rejectControlCharacters at h
  split at h
  · split_ifs at h
    cases h
    rfl
  · cases h

theorem exactInt_eq {allowed : Int → Bool} {text : String} (h : exactInt allowed text cls name value = .ok checked) :
    checked = value ∧ ∃ n, value = .int n := by
  unfold exactInt at h
  split at h
  · next n =>
    split_ifs at h
    cases h
    exact ⟨rfl, n, rfl⟩
  · cases h

theorem Checker.guard_eq {checker : Checker} (hguard : checker.isGuard = true)
    (h : checker.check py cls name value = .ok checked) : checked = value := by
  cases checker with
  | null =>
    cases h
    rfl
  | boolValue =>
    obtain ⟨flag, rfl, rfl⟩ := boolValue_eq h
    rfl
  | stringNonempty => exact stringNonempty_eq h
  | stringNonemptyNoControlChars =>
    obtain ⟨middle, hmiddle, hchecked⟩ := bind_ok h
    exact (rejectControlCharacters_eq hchecked).trans (stringNonempty_eq hmiddle)
  | stringAllowEmpty => exact stringAllowEmpty_eq h
  | stringAllowEmptyNoControlChars =>
    obtain ⟨middle, hmiddle, hchecked⟩ := bind_ok h
    exact (rejectControlCharacters_eq hchecked).trans (stringAllowEmpty_eq hmiddle)
  | intNonNegativeMax maximum =>
    obtain ⟨middle, hmiddle, hchecked⟩ := bind_ok h
    rw [← intAtLeastOne_eq hmiddle]
    split at hchecked
    · split_ifs at hchecked
      cases hchecked
      rfl
    · cases hchecked
  | intPositive => exact intAtLeastOne_eq h
  | breadcrumbTraceMemoryBudget => exact (exactInt_eq h).1
  | breadcrumbTraceMaxEntries => exact (exactInt_eq h).1
  | intRange minimum maximum => exact (exactInt_eq h).1
  | notificationProvider | logLevel | logFormat | transferProtocol | transferBackend | remotePythonPath
  | breadcrumbTracePolicy | byteSizeOrEmpty => cases hguard

/-! ## Checkers that write a value in one form -/

/-- A text in the form that the checker writes. -/
structure Settled (check : Value → Except ConfigError Value) (value : Value) : Prop where
  again : check value = .ok value
  text : ∃ text, value = .str text ∧ strip text = text

theorem normalizeWord_settled {change : Nat → Nat} {fold : Codes → Codes} {allowed : List String} {typeText wordText : String}
    (hwords : ∀ word ∈ allowed.map codes, Word change word) (hfold : ∀ word, Word change word → fold (strip word) = word)
    (h : normalizeWord fold allowed typeText wordText cls name value = .ok checked) :
    Settled (normalizeWord fold allowed typeText wordText cls name) checked ∧ Plain checked.text := by
  unfold normalizeWord at h
  split at h
  · next text =>
    split_ifs at h with hempty hallowed
    cases h
    have hmem : fold (strip text) ∈ allowed.map codes := by simpa using hallowed
    generalize fold (strip text) = word at hmem hallowed hempty
    have hword := hwords word hmem
    refine ⟨⟨?_, word, rfl, hword.2.1.1⟩, hword.2.1⟩
    unfold normalizeWord
    dsimp only
    rw [hfold word hword, if_neg hempty, if_pos hallowed]
  · cases h

theorem logLevel_settled (h : normalizeLogLevel py cls name value = .ok checked) :
    Settled (normalizeLogLevel py cls name) checked ∧ Plain checked.text :=
  normalizeWord_settled (by decide) (fun _ hword => hword.upper) h

theorem logFormat_settled (h : normalizeLogFormat py cls name value = .ok checked) :
    Settled (normalizeLogFormat py cls name) checked ∧ Plain checked.text :=
  normalizeWord_settled (by decide) (fun _ hword => hword.lower) h

theorem transferProtocol_settled (h : normalizeTransferProtocol py cls name value = .ok checked) :
    Settled (normalizeTransferProtocol py cls name) checked ∧ Plain checked.text :=
  normalizeWord_settled (by decide) (fun _ hword => hword.lower) h

theorem normalizeTransferBackend_cases (value : Value) :
    normalizeTransferBackend py value = .str (codes "lftp") ∨ normalizeTransferBackend py value = .str (codes "rclone") := by
  unfold normalizeTransferBackend
  split
  · next text =>
    split_ifs with hword
    · have hmem : py.lower (strip text) ∈ ["lftp", "rclone"].map codes := by simpa using hword
      simpa using hmem
    · exact Or.inl rfl
  · exact Or.inl rfl

theorem normalizeTransferBackend_again (value : Value) :
    normalizeTransferBackend py (normalizeTransferBackend py value) = normalizeTransferBackend py value := by
  have hword : ∀ word ∈ ["lftp", "rclone"].map codes, normalizeTransferBackend py (.str word) = .str word := by
    intro word hmem
    have hlower : py.lower (strip word) = word := Word.lower ((by decide : ∀ w ∈ ["lftp", "rclone"].map codes, Word lowerAscii w) word hmem)
    rw [normalizeTransferBackend, hlower, if_pos (by simpa using hmem)]
  rcases normalizeTransferBackend_cases value with h | h <;> rw [h]
  · exact hword _ (by decide)
  · exact hword _ (by decide)

theorem transferBackend_settled (value : Value) :
    Settled (fun value => .ok (normalizeTransferBackend py value)) (normalizeTransferBackend py value) ∧
      Plain (normalizeTransferBackend py value).text := by
  rcases normalizeTransferBackend_cases value with h | h
  · refine ⟨⟨by rw [normalizeTransferBackend_again], _, h, by decide⟩, ?_⟩
    rw [h]
    decide
  · refine ⟨⟨by rw [normalizeTransferBackend_again], _, h, by decide⟩, ?_⟩
    rw [h]
    decide

theorem notificationProvider_settled (h : notificationProvider py cls name value = .ok checked) :
    Settled (notificationProvider py cls name) checked ∧ Plain checked.text := by
  unfold notificationProvider at h
  split at h
  · next text =>
    split_ifs at h with hallowed
    cases h
    have hmem : py.lower (strip text) ∈ ["webhook", "apprise"].map codes := by simpa using hallowed
    generalize py.lower (strip text) = word at hmem
    have hword : Word lowerAscii word := (by decide : ∀ w ∈ ["webhook", "apprise"].map codes, Word lowerAscii w) word hmem
    refine ⟨⟨?_, word, rfl, hword.2.1.1⟩, hword.2.1⟩
    rw [notificationProvider, hword.lower, if_pos (by simpa using hmem)]
  · cases h

theorem remotePythonPath_settled (h : normalizeRemotePythonPath cls name value = .ok checked) :
    Settled (normalizeRemotePythonPath cls name) checked ∧
      ∀ Q : Codes → Prop, Textual Q → (∀ text, value = .str text → Q text) → Q checked.text := by
  have hdefault : Settled (normalizeRemotePythonPath cls name) (.str (codes "python3")) := ⟨rfl, _, rfl, by decide⟩
  unfold normalizeRemotePythonPath at h
  split at h
  · cases h
    exact ⟨hdefault, fun _ hQ _ => hQ.plain _ (by decide)⟩
  · next text =>
    cases h
    split_ifs with hblank
    · exact ⟨hdefault, fun _ hQ _ => hQ.plain _ (by decide)⟩
    · refine ⟨⟨?_, _, rfl, strip_strip text⟩, fun _ hQ hgiven => hQ.strip _ (hgiven text rfl)⟩
      rw [normalizeRemotePythonPath, strip_strip, if_neg hblank]
  · cases h

theorem breadcrumbTracePolicy_settled (h : breadcrumbTracePolicy py cls name value = .ok checked) :
    Settled (breadcrumbTracePolicy py cls name) checked ∧ Plain checked.text := by
  unfold breadcrumbTracePolicy at h
  split at h
  · next text =>
    obtain ⟨middle, hmiddle, hchecked⟩ := bind_ok h
    by_cases hblank : strip text = []
    · rw [if_pos hblank] at hchecked
      cases hchecked
    · rw [if_neg hblank] at hchecked
      split at hchecked
      · next hparse =>
        cases hchecked
        have hcontrol : hasControl (strip text) = false := by
          by_contra hcontrol
          rw [rejectControlCharacters, if_pos (by simpa using hcontrol)] at hmiddle
          cases hmiddle
        refine ⟨⟨?_, _, rfl, strip_strip text⟩, plain_of_control hcontrol⟩
        rw [breadcrumbTracePolicy, strip_strip, hmiddle]
        change (if strip text = [] then _ else _) = _
        rw [if_neg hblank, hparse]
      · cases hchecked
  · cases h

/-! ## Sizes -/

theorem suffix_upper {c : Nat} (h : isSuffix c = true) :
    ∃ u, py.upper [c] = [u] ∧ isSuffix u = true ∧ py.upper [u] = [u] ∧ isSpace u = false ∧ u ≠ 10 ∧ u ≠ 13 := by
  have hmem : c ∈ [75, 77, 71, 107, 109, 103, 0x212A] := by simpa [isSuffix] using h
  by_cases hkelvin : c = 0x212A
  · exact ⟨0x212A, by rw [hkelvin, py.upper_kelvin], by decide, py.upper_kelvin, by decide, by decide, by decide⟩
  · have hsmall : ∀ d ∈ [75, 77, 71, 107, 109, 103, 0x212A], d ≠ 0x212A →
        d < 128 ∧ upperAscii d < 128 ∧ isSuffix (upperAscii d) = true ∧ upperAscii (upperAscii d) = upperAscii d ∧
          isSpace (upperAscii d) = false ∧ upperAscii d ≠ 10 ∧ upperAscii d ≠ 13 := by decide
    obtain ⟨hc, hu, hsuffix, hagain, hspace, h10, h13⟩ := hsmall c hmem hkelvin
    refine ⟨upperAscii c, ?_, hsuffix, ?_, hspace, h10, h13⟩
    · rw [py.upper_ascii [c] (by simpa using hc)]
      rfl
    · rw [py.upper_ascii [upperAscii c] (by simpa using hu), List.map_singleton, hagain]

theorem digit_not_end {digits : Codes} (h : digits.all (Sidecar.isDigit py.toDecimals) = true) : 10 ∉ digits ∧ 13 ∉ digits := by
  have hnone : ∀ c, c = 10 ∨ c = 13 → Sidecar.isDigit py.toDecimals c = false := by
    rintro c (rfl | rfl) <;> rw [Sidecar.isDigit, py.ascii _ (by decide)] <;> rfl
  constructor
  · intro hmem
    have := List.all_eq_true.mp h 10 hmem
    rw [hnone 10 (Or.inl rfl)] at this
    cases this
  · intro hmem
    have := List.all_eq_true.mp h 13 hmem
    rw [hnone 13 (Or.inr rfl)] at this
    cases this

theorem head_strip (text : Codes) : ∀ c ∈ (strip text).head?, isSpace c = false := by
  intro c hc
  have hprefix : strip text <+: text.dropWhile isSpace := List.rdropWhile_prefix _ _
  obtain ⟨rest, hrest⟩ := hprefix
  have hhead := List.head?_dropWhile_not isSpace text
  rw [← hrest, List.head?_append, Option.mem_def.mp hc] at hhead
  simpa using hhead

theorem isByteSize_suffix {init : Codes} {c : Nat} (h : isSuffix c = true) :
    isByteSize py (init ++ [c]) = (!init.isEmpty && init.all (Sidecar.isDigit py.toDecimals)) := by
  rw [isByteSize, List.getLast?_concat, Option.any_some, if_pos h, List.dropLast_concat]

theorem isByteSize_digits {init : Codes} {c : Nat} (h : ¬isSuffix c = true) :
    isByteSize py (init ++ [c]) = (!(init ++ [c]).isEmpty && (init ++ [c]).all (Sidecar.isDigit py.toDecimals)) := by
  rw [isByteSize, List.getLast?_concat, Option.any_some, if_neg h]

/-- A size in its one form: digits, and a letter that is its own upper case. -/
theorem byteSizeText_again {text : String} {shown : Codes} (h : byteSizeText py text cls name shown = .ok checked) :
    ∃ size, checked = .str size ∧ Plain size ∧ ∀ text, byteSizeText py text cls name size = .ok (.str size) := by
  unfold byteSizeText at h
  by_cases hnil : shown = []
  · rw [if_pos hnil] at h
    cases h
    exact ⟨[], rfl, by decide, fun _ => rfl⟩
  by_cases hblank : strip shown = []
  · rw [if_neg hnil, if_pos hblank] at h
    cases h
  by_cases hsize : isByteSize py (strip shown) = true
  · rw [if_neg hnil, if_neg hblank, if_pos hsize] at h
    cases h
    have hhead := head_strip shown
    have hstripped := strip_strip shown
    generalize strip shown = body at hblank hsize hhead hstripped
    obtain ⟨init, c, rfl⟩ : ∃ init c, body = init ++ [c] := ⟨_, _, (List.dropLast_append_getLast hblank).symm⟩
    rw [List.getLast?_concat, Option.any_some]
    by_cases hsuffix : isSuffix c = true
    · rw [if_pos hsuffix, List.dropLast_concat]
      obtain ⟨u, hupper, husuffix, hagain, huspace, h10, h13⟩ := suffix_upper hsuffix
      rw [Option.toList_some, hupper]
      rw [isByteSize_suffix hsuffix] at hsize
      have hparts := Bool.and_eq_true_iff.mp hsize
      have hinit : init ≠ [] := by simpa using hparts.1
      obtain ⟨hno10, hno13⟩ := digit_not_end hparts.2
      have hstrip : strip (init ++ [u]) = init ++ [u] := by
        refine strip_of_ends (fun d hd => hhead d ?_) (by simpa using huspace)
        obtain ⟨e, rest, rfl⟩ := List.exists_cons_of_ne_nil hinit
        exact hd
      refine ⟨_, rfl, ⟨hstrip, by simp [hno10, Ne.symm h10], by simp [hno13, Ne.symm h13]⟩, fun text => ?_⟩
      rw [byteSizeText, hstrip, if_neg (by simp), if_neg (by simp), isByteSize_suffix husuffix, if_pos hsize,
        List.getLast?_concat, Option.any_some, if_pos husuffix, List.dropLast_concat, Option.toList_some, hagain]
    · rw [if_neg hsuffix]
      have hdigits := hsize
      rw [isByteSize_digits hsuffix] at hdigits
      obtain ⟨hno10, hno13⟩ := digit_not_end (Bool.and_eq_true_iff.mp hdigits).2
      refine ⟨_, rfl, ⟨hstripped, hno10, hno13⟩, fun text => ?_⟩
      rw [byteSizeText, hstripped, if_neg (by simp), if_neg (by simp), if_pos hsize, List.getLast?_concat, Option.any_some,
        if_neg hsuffix]
  · rw [if_neg hnil, if_neg hblank, if_neg hsize] at h
    cases h

theorem byteSizeOrEmpty_settled (h : byteSizeOrEmpty py cls name value = .ok checked) :
    Settled (byteSizeOrEmpty py cls name) checked ∧ Plain checked.text := by
  have hagain : ∀ {shown : Codes} {text : String}, byteSizeText py text cls name shown = .ok checked →
      Settled (byteSizeOrEmpty py cls name) checked ∧ Plain checked.text := by
    intro shown text hshown
    obtain ⟨size, rfl, hplain, hsize⟩ := byteSizeText_again hshown
    exact ⟨⟨hsize _, size, rfl, hplain.1⟩, hplain⟩
  unfold byteSizeOrEmpty at h
  split at h
  · exact hagain h
  · exact hagain h
  · cases h

/-- What a checker that writes a form returns, it accepts as it is. -/
theorem Checker.settled {checker : Checker} (hform : checker.isGuard = false) (h : checker.check py cls name value = .ok checked) :
    Settled (fun value => checker.check py cls name value) checked ∧
      ∀ Q : Codes → Prop, Textual Q → (∀ text, value = .str text → Q text) → Q checked.text := by
  have hplain : Plain checked.text → ∀ Q : Codes → Prop, Textual Q → (∀ text, value = .str text → Q text) → Q checked.text :=
    fun hplain _ hQ _ => hQ.plain _ hplain
  cases checker with
  | notificationProvider => exact ⟨(notificationProvider_settled h).1, hplain (notificationProvider_settled h).2⟩
  | logLevel => exact ⟨(logLevel_settled h).1, hplain (logLevel_settled h).2⟩
  | logFormat => exact ⟨(logFormat_settled h).1, hplain (logFormat_settled h).2⟩
  | transferProtocol => exact ⟨(transferProtocol_settled h).1, hplain (transferProtocol_settled h).2⟩
  | transferBackend =>
    cases h
    exact ⟨(transferBackend_settled value).1, hplain (transferBackend_settled value).2⟩
  | remotePythonPath => exact remotePythonPath_settled h
  | breadcrumbTracePolicy => exact ⟨(breadcrumbTracePolicy_settled h).1, hplain (breadcrumbTracePolicy_settled h).2⟩
  | byteSizeOrEmpty => exact ⟨(byteSizeOrEmpty_settled h).1, hplain (byteSizeOrEmpty_settled h).2⟩
  | null | boolValue | stringNonempty | stringNonemptyNoControlChars | stringAllowEmpty | stringAllowEmptyNoControlChars
  | intNonNegativeMax | intPositive | breadcrumbTraceMemoryBudget | breadcrumbTraceMaxEntries | intRange => cases hform

/-- A checker accepts what it returned, and returns it again. -/
theorem Checker.again {checker : Checker} (h : checker.check py cls name value = .ok checked) :
    checker.check py cls name checked = .ok checked := by
  cases hguard : checker.isGuard with
  | true =>
    obtain rfl := Checker.guard_eq hguard h
    exact h
  | false => exact (Checker.settled hguard h).1.again

end

end SeedSync.Settings
