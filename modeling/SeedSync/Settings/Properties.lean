import SeedSync.Settings.Accepted
import SeedSync.Settings.Config

/-!
# What a property accepts

The value that setting a property stores, set again as it is or as it is read from a file.
-/

open SeedSync.Lib

namespace SeedSync.Settings

/-- The checkers of properties whose text is not converted. -/
def Checker.isText : Checker → Bool
  | .null | .stringNonempty | .stringNonemptyNoControlChars | .stringAllowEmpty | .stringAllowEmptyNoControlChars
  | .notificationProvider | .logFormat | .breadcrumbTracePolicy | .byteSizeOrEmpty => true
  | _ => false

def Checker.isNumber : Checker → Bool
  | .intNonNegativeMax _ | .intPositive | .breadcrumbTraceMemoryBudget | .breadcrumbTraceMaxEntries | .intRange _ _ => true
  | _ => false

/-- The checker is made for what the converter returns. -/
def Property.sensible (p : Property) : Bool :=
  match p.converter with
  | .null => p.checker.isText
  | .int => p.checker.isNumber
  | .bool => decide (p.checker = .null ∨ p.checker = .boolValue)
  | .logLevel => decide (p.checker = .logLevel)
  | .transferProtocol => decide (p.checker = .transferProtocol)
  | .transferBackend => decide (p.checker = .transferBackend)
  | .remotePythonPath => decide (p.checker = .remotePythonPath)

/-- The value as it is read from a file. -/
def Value.reread : Value → Value
  | .str text => .str (Ini.reread text)
  | value => value

/-- The text loses no more than the blanks around it. -/
def Kept (text : Codes) : Prop := Ini.reread text = text ∨ 10 ∉ text

section
variable (py : Strings)

/-- The value that is stored. -/
def Property.accept (p : Property) (cls : String) (value : Value) : Except ConfigError Value :=
  (p.native py cls value).bind (p.checker.check py cls p.name ·)

/-- A text, or a value of the kind that the text is converted to. -/
inductive Property.Takes (p : Property) : Value → Prop where
  | text (text : Codes) : Takes p (.str text)
  | flag (value : Bool) (h : p.converter = .bool) : Takes p (.bool value)
  | number (n : Int) (h : p.converter = .int) (hn : py.Reads n) : Takes p (.int n)

end

variable {py : Strings} {p : Property} {cls : String} {value stored : Value}

theorem Property.native_other (h : ∀ text, value ≠ .str text) : p.native py cls value = .ok value := by
  unfold Property.native
  split
  · next text => exact absurd rfl (h text)
  · rfl

theorem convertBool_eq {name : String} {text : Codes} (h : convertBool py cls name text = .ok value) : ∃ flag, value = .bool flag := by
  unfold convertBool at h
  split_ifs at h
  split at h
  · cases h
    exact ⟨_, rfl⟩
  · cases h

theorem convertInt_eq {name : String} {text : Codes} (h : convertInt py cls name text = .ok value) :
    ∃ n, value = .int n ∧ py.Reads n := by
  unfold convertInt at h
  split_ifs at h
  split at h
  · next n hparse =>
    cases h
    exact ⟨n, rfl, parseInt_reads hparse⟩
  · cases h

theorem Checker.isNumber_guard {checker : Checker} (h : checker.isNumber = true) : checker.isGuard = true := by
  cases checker <;> first | rfl | cases h

/-- How a property converts: not at all, to a number, to a truth value, or as its checker does. -/
theorem Property.kinds (p : Property) (hsensible : p.sensible = true) :
    (p.converter = .null ∧ p.checker.isText = true) ∨ (p.converter = .int ∧ p.checker.isGuard = true) ∨
      (p.converter = .bool ∧ p.checker.isGuard = true) ∨
      (p.checker.isGuard = false ∧ (p.converter ≠ .int ∧ p.converter ≠ .bool) ∧
        ∀ (py : Strings) (cls : String) (text : Codes),
          p.converter.convert py cls p.name text = p.checker.check py cls p.name (.str text)) := by
  unfold Property.sensible at hsensible
  cases hconverter : p.converter with
  | null =>
    rw [hconverter] at hsensible
    exact Or.inl ⟨rfl, hsensible⟩
  | int =>
    rw [hconverter] at hsensible
    exact Or.inr (Or.inl ⟨rfl, Checker.isNumber_guard hsensible⟩)
  | bool =>
    rw [hconverter] at hsensible
    refine Or.inr (Or.inr (Or.inl ⟨rfl, ?_⟩))
    rcases of_decide_eq_true hsensible with h | h <;> rw [h] <;> rfl
  | logLevel | transferProtocol | transferBackend | remotePythonPath =>
    rw [hconverter] at hsensible
    rw [of_decide_eq_true hsensible]
    exact Or.inr (Or.inr (Or.inr ⟨rfl, by simp, fun _ _ _ => rfl⟩))

/-- What is stored: a truth value, a number, or a text that is in its one form unless the checker only refuses. -/
theorem Property.accept_kind (hsensible : p.sensible = true) (htakes : p.Takes py value) (h : p.accept py cls value = .ok stored) :
    (p.converter = .bool ∧ ∃ flag, stored = .bool flag) ∨ (p.converter = .int ∧ ∃ n, stored = .int n ∧ py.Reads n) ∨
      ∃ text, stored = .str text ∧ (strip text = text ∨ p.converter = .null ∧ p.checker.isText = true ∧ p.checker.isGuard = true) := by
  obtain ⟨native, hnative, hcheck⟩ := bind_ok h
  rcases p.kinds hsensible with ⟨hnull, htext⟩ | ⟨hint, hguard⟩ | ⟨hbool, hguard⟩ | ⟨hform, ⟨hint, hbool⟩, -⟩
  · right; right
    cases hguard : p.checker.isGuard with
    | true =>
      have heq := Checker.guard_eq hguard hcheck
      cases htakes with
      | text text =>
        rw [Property.native, hnull] at hnative
        cases hnative
        exact ⟨text, heq, Or.inr ⟨hnull, htext, rfl⟩⟩
      | flag flag hflag => rw [hnull] at hflag; cases hflag
      | number n hn => rw [hnull] at hn; cases hn
    | false =>
      obtain ⟨text, hstored, hstrip⟩ := (Checker.settled hguard hcheck).1.text
      exact ⟨text, hstored, Or.inl hstrip⟩
  · right; left
    have heq := Checker.guard_eq hguard hcheck
    cases htakes with
    | text text =>
      rw [Property.native, hint] at hnative
      obtain ⟨n, hn, hreads⟩ := convertInt_eq hnative
      exact ⟨hint, n, heq.trans hn, hreads⟩
    | flag flag hflag => rw [hint] at hflag; cases hflag
    | number n hn hreads =>
      cases hnative
      exact ⟨hint, n, heq, hreads⟩
  · left
    have heq := Checker.guard_eq hguard hcheck
    cases htakes with
    | text text =>
      rw [Property.native, hbool] at hnative
      obtain ⟨flag, hflag⟩ := convertBool_eq hnative
      exact ⟨hbool, flag, heq.trans hflag⟩
    | flag flag hflag =>
      cases hnative
      exact ⟨hbool, flag, heq⟩
    | number n hn => rw [hbool] at hn; cases hn
  · right; right
    obtain ⟨text, hstored, hstrip⟩ := (Checker.settled hform hcheck).1.text
    exact ⟨text, hstored, Or.inl hstrip⟩

/-- A stored value can be set again, and stays. -/
theorem Property.accept_again (hsensible : p.sensible = true) (h : p.accept py cls value = .ok stored) :
    p.accept py cls stored = .ok stored := by
  obtain ⟨native, hnative, hcheck⟩ := bind_ok h
  have hagain := Checker.again hcheck
  suffices hsame : p.native py cls stored = .ok stored by
    rw [Property.accept, hsame]
    exact hagain
  cases hstored : stored with
  | none | bool | int => exact Property.native_other (by simp)
  | str text =>
    subst hstored
    have htext : p.native py cls (.str text) = p.converter.convert py cls p.name text := rfl
    rcases p.kinds hsensible with ⟨hnull, -⟩ | ⟨hint, hguard⟩ | ⟨hbool, hguard⟩ | ⟨-, -, hconvert⟩
    · rw [htext, hnull, Converter.convert]
    · rw [← Checker.guard_eq hguard hcheck] at hnative
      cases value with
      | str other =>
        rw [Property.native, hint] at hnative
        obtain ⟨n, hn, -⟩ := convertInt_eq hnative
        cases hn
      | none | bool | int => cases hnative
    · rw [← Checker.guard_eq hguard hcheck] at hnative
      cases value with
      | str other =>
        rw [Property.native, hbool] at hnative
        obtain ⟨flag, hflag⟩ := convertBool_eq hnative
        cases hflag
      | none | bool | int => cases hnative
    · rw [htext, hconvert]
      exact hagain

/-- The text of what is stored of a text. -/
theorem Property.accept_text {Q : Codes → Prop} (hQ : Textual Q) {text : Codes} (hsensible : p.sensible = true) (hgiven : Q text)
    (h : p.accept py cls (.str text) = .ok stored) : Q stored.text := by
  rcases Property.accept_kind hsensible (.text text) h with ⟨-, flag, rfl⟩ | ⟨-, n, rfl, -⟩ | ⟨other, rfl, -⟩
  · exact hQ.plain _ (plain_bool flag)
  · exact hQ.plain _ (plain_decimalInt n)
  · obtain ⟨native, hnative, hcheck⟩ := bind_ok h
    have htext : p.converter.convert py cls p.name text = .ok native := hnative
    rcases p.kinds hsensible with ⟨hnull, -⟩ | ⟨hint, hguard⟩ | ⟨hbool, hguard⟩ | ⟨hform, -, hconvert⟩
    · rw [hnull, Converter.convert] at htext
      cases htext
      cases hguard : p.checker.isGuard with
      | true =>
        cases Checker.guard_eq hguard hcheck
        exact hgiven
      | false => exact (Checker.settled hguard hcheck).2 Q hQ fun t ht => by cases ht; exact hgiven
    · rw [← Checker.guard_eq hguard hcheck, hint] at htext
      obtain ⟨n, hn, -⟩ := convertInt_eq htext
      cases hn
    · rw [← Checker.guard_eq hguard hcheck, hbool] at htext
      obtain ⟨flag, hflag⟩ := convertBool_eq htext
      cases hflag
    · rw [hconvert] at htext
      have hnativeText := (Checker.settled hform htext).2 Q hQ fun t ht => by cases ht; exact hgiven
      exact (Checker.settled hform hcheck).2 Q hQ fun t ht => by rw [ht] at hnativeText; exact hnativeText

/-- Without the blanks around it an accepted text is accepted. -/
theorem Checker.check_strip {checker : Checker} {name : String} {text : Codes} (htext : checker.isText = true)
    (hguard : checker.isGuard = true) (h : checker.check py cls name (.str text) = .ok value) :
    checker.check py cls name (.str (strip text)) = .ok (.str (strip text)) := by
  have hnonempty : ∀ {v}, Settings.stringNonempty cls name (.str text) = .ok v → Settings.stringNonempty cls name (.str (strip text)) = .ok (.str (strip text)) := by
    intro v hv
    rw [Settings.stringNonempty] at hv ⊢
    rw [strip_strip]
    split_ifs at hv ⊢
    rfl
  have hallowEmpty : ∀ {v}, Settings.stringAllowEmpty cls name (.str text) = .ok v →
      Settings.stringAllowEmpty cls name (.str (strip text)) = .ok (.str (strip text)) := by
    intro v hv
    rw [Settings.stringAllowEmpty, strip_strip, if_neg (by tauto)]
  have hcontrol : ∀ {v}, Settings.rejectControlCharacters cls name (.str text) = .ok v →
      Settings.rejectControlCharacters cls name (.str (strip text)) = .ok (.str (strip text)) := by
    intro v hv
    rw [Settings.rejectControlCharacters] at hv ⊢
    split_ifs at hv with hbad
    rw [if_neg]
    intro hstrip
    obtain ⟨c, hc, hctl⟩ := List.any_eq_true.mp hstrip
    exact hbad (List.any_eq_true.mpr ⟨c, Ini.strip_subset hc, hctl⟩)
  cases checker with
  | null => rfl
  | stringNonempty => exact hnonempty h
  | stringAllowEmpty => exact hallowEmpty h
  | stringNonemptyNoControlChars =>
    obtain ⟨middle, hmiddle, hchecked⟩ := bind_ok h
    rw [stringNonempty_eq hmiddle] at hchecked
    rw [Checker.check, hnonempty hmiddle]
    exact hcontrol hchecked
  | stringAllowEmptyNoControlChars =>
    obtain ⟨middle, hmiddle, hchecked⟩ := bind_ok h
    rw [stringAllowEmpty_eq hmiddle] at hchecked
    rw [Checker.check, hallowEmpty hmiddle]
    exact hcontrol hchecked
  | notificationProvider | logFormat | breadcrumbTracePolicy | byteSizeOrEmpty => cases hguard
  | boolValue | intNonNegativeMax | intPositive | breadcrumbTraceMemoryBudget | breadcrumbTraceMaxEntries | intRange | logLevel
  | transferProtocol | transferBackend | remotePythonPath => cases htext

/-- What is read of a stored value is accepted, and stored as it is read. -/
theorem Property.accept_reread (hsensible : p.sensible = true) (htakes : p.Takes py value)
    (h : p.accept py cls value = .ok stored) (hkept : Kept stored.text) :
    p.accept py cls (.str (Ini.reread stored.text)) = .ok stored.reread := by
  obtain ⟨native, hnative, hcheck⟩ := bind_ok h
  have hagain := Checker.again hcheck
  rcases Property.accept_kind hsensible htakes h with ⟨hbool, flag, rfl⟩ | ⟨hint, n, rfl, hreads⟩ | ⟨text, rfl, htext⟩
  · rw [(plain_bool flag).clean.1, Property.accept, Property.native, hbool, Converter.convert, convertBool, strToBool_text,
      if_neg (by cases flag <;> decide)]
    exact hagain
  · have hne : (Value.int n).text ≠ [] := by
      obtain ⟨c, tail, hcons, -⟩ := Json.decimalInt_head n []
      rw [List.append_nil] at hcons
      change asCodes (decimalInt n) ≠ []
      rw [hcons]
      simp
    rw [(plain_decimalInt n).clean.1, Property.accept, Property.native, hint, Converter.convert, convertInt,
      parseInt_decimalInt hreads, if_neg hne]
    exact hagain
  · change Kept text at hkept
    change p.accept py cls (.str (Ini.reread text)) = .ok (.str (Ini.reread text))
    by_cases hsame : Ini.reread text = text
    · rw [hsame]
      exact Property.accept_again hsensible h
    · have hline : 10 ∉ text := hkept.resolve_left hsame
      rw [Ini.reread_of_oneLine hline] at hsame ⊢
      obtain ⟨hnull, htextual, hguard⟩ := htext.resolve_left hsame
      rw [Property.accept, Property.native, hnull]
      exact Checker.check_strip htextual hguard hagain

end SeedSync.Settings
