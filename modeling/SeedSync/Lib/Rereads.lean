import SeedSync.Lib.Loads

/-!
# What is read back of a written text

`json.dumps` in any layout, and what `json.loads` makes of its text.
-/

namespace SeedSync.Lib

/-- A string of Python holds code points. -/
def IsText (s : Codes) : Prop := ∀ c ∈ s, c < 1114112

instance : DecidablePred IsText := fun s => inferInstanceAs (Decidable (∀ c ∈ s, c < 1114112))

/-! ## Strings -/

section Strings

/-- The units that `escapeCode` writes for a character. -/
def unitsOf (c : Nat) : List (Bool × Nat) :=
  if c = 34 ∨ c = 92 ∨ c = 10 ∨ c = 13 ∨ c = 9 ∨ c = 12 ∨ c = 8 ∨ (32 ≤ c ∧ c ≤ 126) then [(false, c)]
  else if c < 65536 then [(true, c)]
  else [(true, 55296 + (c - 65536) / 1024), (true, 56320 + (c - 65536) % 1024)]

theorem hexValue_hexChar {n : Nat} (h : n < 16) : hexValue (hexChar n).toNat = some n := by
  interval_cases n <;> rfl

theorem hexUnit_unicodeEscape {unit : Nat} (h : unit < 65536) :
    hexUnit (hexChar (unit / 4096 % 16)).toNat (hexChar (unit / 256 % 16)).toNat
      (hexChar (unit / 16 % 16)).toNat (hexChar (unit % 16)).toNat = some unit := by
  simp only [hexUnit, hexValue_hexChar (Nat.mod_lt _ (by decide : 0 < 16)), Option.bind_eq_bind, Option.bind_some,
    Option.pure_def]
  congr 1
  omega

theorem readUnits_unicodeEscape {unit : Nat} (h : unit < 65536) (rest : Codes) :
    readUnits (asCodes (unicodeEscape unit) ++ rest) =
      (readUnits rest).map fun (units, rest) => ((true, unit) :: units, rest) := by
  have hunit := hexUnit_unicodeEscape h
  simp only [unicodeEscape, asCodes_cons, asCodes_nil, List.cons_append, List.nil_append]
  rw [readUnits]
  simp only [show '\\'.toNat = 92 from rfl, show 'u'.toNat = 117 from rfl, hunit]
  cases readUnits rest <;> simp

theorem readUnits_short {c value : Nat} (h : backslash c = some value) (hc : c ≠ 117) (rest : Codes) :
    readUnits (92 :: c :: rest) = (readUnits rest).map fun (units, rest) => ((false, value) :: units, rest) := by
  conv_lhs => unfold readUnits
  simp only [h, if_neg hc]
  cases readUnits rest <;> simp

theorem readUnits_plain {c : Nat} (h : 32 ≤ c) (hquote : c ≠ 34) (hslash : c ≠ 92) {rest : Codes} (hne : rest ≠ []) :
    readUnits (c :: rest) = (readUnits rest).map fun (units, rest) => ((false, c) :: units, rest) := by
  obtain ⟨d, rest, rfl⟩ := List.exists_cons_of_ne_nil hne
  conv_lhs => unfold readUnits
  simp only [if_neg hquote, if_neg hslash, if_neg (show ¬ c < 32 by omega)]
  cases readUnits (d :: rest) <;> simp

theorem readUnits_escapeCode {c : Nat} (h : c < 1114112) {rest : Codes} (hne : rest ≠ []) :
    readUnits (asCodes (escapeCode c) ++ rest) =
      (readUnits rest).map fun (units, rest) => (unitsOf c ++ units, rest) := by
  unfold escapeCode
  split_ifs with h1 h2 h3 h4 h5 h6 h7 h8 h9
  · subst h1; exact readUnits_short rfl (by decide) rest
  · subst h2; exact readUnits_short rfl (by decide) rest
  · subst h3; exact readUnits_short rfl (by decide) rest
  · subst h4; exact readUnits_short rfl (by decide) rest
  · subst h5; exact readUnits_short rfl (by decide) rest
  · subst h6; exact readUnits_short rfl (by decide) rest
  · subst h7; exact readUnits_short rfl (by decide) rest
  · simp only [asCodes_cons, asCodes_nil, toNat_ofNat h8.2, List.cons_append, List.nil_append]
    rw [readUnits_plain h8.1 h1 h2 hne, unitsOf, if_pos (by omega)]
    rfl
  · rw [readUnits_unicodeEscape h9, unitsOf, if_neg (by omega), if_pos h9]
    rfl
  · rw [asCodes_append, List.append_assoc, readUnits_unicodeEscape (by omega), readUnits_unicodeEscape (by omega),
      unitsOf, if_neg (by omega), if_neg h9]
    cases readUnits rest <;> rfl

theorem readUnits_quoted {s : Codes} (h : IsText s) (rest : Codes) :
    readUnits (asCodes (s.flatMap escapeCode) ++ 34 :: rest) = some (s.flatMap unitsOf, rest) := by
  induction s with
  | nil =>
    cases rest <;> (unfold readUnits; simp)
  | cons c s ih =>
    rw [List.flatMap_cons, asCodes_append, List.append_assoc, readUnits_escapeCode (h c (by simp)) (by simp),
      ih fun d hd => h d (by simp [hd])]
    rfl

theorem joinUnits_skip {e : Bool} {c : Nat} {units : List (Bool × Nat)}
    (h : isHighSurrogate c = false ∨ ∀ unit ∈ units.head?, isLowSurrogate unit.2 = false) :
    joinUnits ((e, c) :: units) = c :: joinUnits units := by
  cases units with
  | nil => rfl
  | cons unit units =>
    obtain ⟨e', d⟩ := unit
    rw [joinUnits, if_neg]
    rcases h with h | h
    · simp [h]
    · simp [h (e', d) rfl]

theorem joinCodes_skip {c : Nat} {s : Codes}
    (h : isHighSurrogate c = false ∨ ∀ d ∈ s.head?, isLowSurrogate d = false) :
    joinCodes (c :: s) = c :: joinCodes s := by
  cases s with
  | nil => rfl
  | cons d s =>
    rw [joinCodes, if_neg]
    rcases h with h | h
    · simp [h]
    · simp [h d rfl]

theorem unitsOf_surrogate {c : Nat} (h : isHighSurrogate c ∨ isLowSurrogate c) : unitsOf c = [(true, c)] := by
  simp only [isHighSurrogate, isLowSurrogate, decide_eq_true_eq] at h
  rw [unitsOf, if_neg (by omega), if_pos (by omega)]

theorem unitsOf_head {c : Nat} (h : c < 1114112) (hlow : isLowSurrogate c = false) (units : List (Bool × Nat)) :
    ∀ unit ∈ (unitsOf c ++ units).head?, isLowSurrogate unit.2 = false := by
  unfold unitsOf
  split_ifs
  · simpa using hlow
  · simpa using hlow
  · simp [isLowSurrogate]
    omega

theorem joinUnits_unitsOf {c : Nat} (h : c < 1114112) (hhigh : isHighSurrogate c = false) (units : List (Bool × Nat)) :
    joinUnits (unitsOf c ++ units) = c :: joinUnits units := by
  unfold unitsOf
  split_ifs with hplain hsmall
  · exact joinUnits_skip (.inl hhigh)
  · exact joinUnits_skip (.inl hhigh)
  · rw [List.cons_append, List.cons_append, List.nil_append, joinUnits, if_pos]
    · have hjoin : joinSurrogates (55296 + (c - 65536) / 1024) (56320 + (c - 65536) % 1024) = c := by
        unfold joinSurrogates
        omega
      rw [hjoin]
    · simp only [isHighSurrogate, isLowSurrogate, Bool.and_true, Bool.and_eq_true, decide_eq_true_eq, true_and]
      omega

theorem joinUnits_flatMap {s : Codes} (h : IsText s) : joinUnits (s.flatMap unitsOf) = joinCodes s := by
  fun_induction joinCodes s with
  | case1 => rfl
  | case2 c =>
    cases hhigh : isHighSurrogate c with
    | true => rw [List.flatMap_cons, unitsOf_surrogate (.inl hhigh)]; rfl
    | false => rw [List.flatMap_cons, joinUnits_unitsOf (h c (by simp)) hhigh]; rfl
  | case3 c d rest hpair ih =>
    rw [Bool.and_eq_true] at hpair
    rw [List.flatMap_cons, List.flatMap_cons, unitsOf_surrogate (.inl hpair.1), unitsOf_surrogate (.inr hpair.2),
      List.cons_append, List.nil_append, List.cons_append, List.nil_append, joinUnits, if_pos (by simp [hpair]),
      ih fun x hx => h x (by simp [hx])]
  | case4 c d rest hpair ih =>
    have htail := ih fun x hx => h x (by simp [List.mem_cons.mp hx])
    cases hhigh : isHighSurrogate c with
    | false => rw [List.flatMap_cons, joinUnits_unitsOf (h c (by simp)) hhigh, htail]
    | true =>
      have hlow : isLowSurrogate d = false := by simpa [hhigh] using hpair
      rw [List.flatMap_cons, unitsOf_surrogate (.inl hhigh), List.cons_append, List.nil_append,
        joinUnits_skip (.inr ?_), htail]
      rw [List.flatMap_cons]
      exact unitsOf_head (h d (by simp)) hlow _

theorem readString_quoted {s : Codes} (h : IsText s) (rest : Codes) :
    readString (asCodes (s.flatMap escapeCode) ++ 34 :: rest) = some (joinCodes s, rest) := by
  rw [readString, readUnits_quoted h, Option.map_some]
  simp only [joinUnits_flatMap h]

/-- Both halves of a character are written as the character is. -/
theorem escape_joinSurrogates {c d : Nat} (hc : isHighSurrogate c) (hd : isLowSurrogate d) :
    escapeCode (joinSurrogates c d) = escapeCode c ++ escapeCode d := by
  simp only [isHighSurrogate, isLowSurrogate, decide_eq_true_eq] at hc hd
  have hlarge : ∀ x, 126 < x → escapeCode x =
      if x < 65536 then unicodeEscape x
      else unicodeEscape (55296 + (x - 65536) / 1024) ++ unicodeEscape (56320 + (x - 65536) % 1024) := by
    intro x hx
    unfold escapeCode
    rw [if_neg (by omega), if_neg (by omega), if_neg (by omega), if_neg (by omega), if_neg (by omega),
      if_neg (by omega), if_neg (by omega), if_neg (by omega)]
  have hhigh : 55296 + (joinSurrogates c d - 65536) / 1024 = c := by
    unfold joinSurrogates
    omega
  have hlow : 56320 + (joinSurrogates c d - 65536) % 1024 = d := by
    unfold joinSurrogates
    omega
  have hjoined : 65536 ≤ joinSurrogates c d := by
    unfold joinSurrogates
    omega
  rw [hlarge c (by omega), hlarge d (by omega), hlarge _ (by omega), hhigh, hlow, if_neg (by omega),
    if_pos (by omega), if_pos (by omega)]

theorem quoted_joinCodes (s : Codes) : quoted (joinCodes s) = quoted s := by
  have hbody : (joinCodes s).flatMap escapeCode = s.flatMap escapeCode := by
    fun_induction joinCodes s with
    | case1 => rfl
    | case2 c => rfl
    | case3 c d rest hpair ih =>
      rw [Bool.and_eq_true] at hpair
      rw [List.flatMap_cons, ih, escape_joinSurrogates hpair.1 hpair.2]
      simp
    | case4 c d rest hpair ih =>
      rw [List.flatMap_cons, ih]
      rfl
  rw [quoted, hbody, quoted]

/-- A string without surrogates is read back as it is. -/
theorem joinCodes_eq_nil {s : Codes} : joinCodes s = [] ↔ s = [] := by
  fun_cases joinCodes s <;> simp

theorem isText_joinCodes {s : Codes} (h : IsText s) : IsText (joinCodes s) := by
  fun_induction joinCodes s with
  | case1 => exact h
  | case2 => exact h
  | case3 c d rest hjoin ih =>
    simp only [isHighSurrogate, isLowSurrogate, Bool.and_eq_true, decide_eq_true_eq] at hjoin
    refine List.forall_mem_cons.2 ⟨?_, ih fun e he => h e (by simp [he])⟩
    unfold joinSurrogates
    omega
  | case4 c d rest hjoin ih =>
    exact List.forall_mem_cons.2 ⟨h c (by simp), ih fun e he => h e (List.mem_cons_of_mem c he)⟩

theorem joinCodes_of_printable {s : Codes} (h : ∀ c ∈ s, c < 55296) : joinCodes s = s := by
  induction s with
  | nil => rfl
  | cons c s ih =>
    have hc := h c (by simp)
    rw [joinCodes_skip (.inl (by simp [isHighSurrogate]; omega)), ih fun d hd => h d (by simp [hd])]

theorem isText_codes (s : String) : IsText (codes s) := by
  intro c hc
  obtain ⟨d, -, rfl⟩ := List.mem_map.1 hc
  rcases d.valid with h | h
  · exact Nat.lt_trans h (by decide)
  · exact h.2

theorem joinCodes_codes (s : String) : joinCodes (codes s) = codes s := by
  unfold codes
  induction s.toList with
  | nil => rfl
  | cons c s ih =>
    have hc : isHighSurrogate c.toNat = false := by
      simp only [isHighSurrogate, decide_eq_false_iff_not]
      rcases c.valid with h | h <;> (unfold Char.toNat; omega)
    rw [List.map_cons, joinCodes_skip (.inl hc), ih]

end Strings

/-! ## Numbers -/

section Numbers

/-- No number goes on with this text. -/
def Ends (text : Codes) : Prop := ∀ c ∈ text.head?, isDigitCode c = false ∧ c ≠ 46 ∧ c ≠ 101 ∧ c ≠ 69

theorem ends_nil : Ends [] := by simp [Ends]

theorem takeWhile_append {digits rest : Codes} (h : ∀ c ∈ digits, isDigitCode c)
    (hrest : ∀ c ∈ rest.head?, isDigitCode c = false) :
    (digits ++ rest).takeWhile isDigitCode = digits ∧ (digits ++ rest).dropWhile isDigitCode = rest := by
  have hstop : rest.takeWhile isDigitCode = [] ∧ rest.dropWhile isDigitCode = rest := by
    cases rest with
    | nil => simp
    | cons c rest =>
      have hc := hrest c rfl
      simp [hc]
  constructor
  · rw [List.takeWhile_append_of_pos h, hstop.1, List.append_nil]
  · rw [List.dropWhile_append_of_pos h, hstop.2]

theorem toNat_digitChar {digit : Nat} (h : digit < 10) : (digitChar digit).toNat = 48 + digit :=
  toNat_ofNat (by omega)

theorem digits_decimal (n : Nat) : ∀ c ∈ asCodes (decimal n), isDigitCode c := by
  intro c hc
  obtain ⟨d, hd, rfl⟩ := List.mem_map.1 hc
  unfold decimal at hd
  split_ifs at hd
  · rw [List.mem_singleton.1 hd]
    rfl
  · obtain ⟨digit, hdigit, rfl⟩ := List.mem_map.1 (List.mem_reverse.1 hd)
    have hlt : digit < 10 := Nat.digits_lt_base (by decide) hdigit
    rw [toNat_digitChar hlt]
    simp [isDigitCode]
    omega

theorem digitsValue_reverse (digits : List Nat) (h : ∀ d ∈ digits, d < 10) :
    digitsValue (asCodes (digits.map digitChar).reverse) = Nat.ofDigits 10 digits := by
  induction digits with
  | nil => rfl
  | cons d digits ih =>
    have htail := ih fun x hx => h x (by simp [hx])
    simp only [digitsValue] at htail ⊢
    rw [List.map_cons, List.reverse_cons, asCodes_append, List.foldl_append, htail]
    simp only [asCodes_cons, asCodes_nil, List.foldl_cons, List.foldl_nil, toNat_digitChar (h d (by simp)),
      Nat.ofDigits_cons]
    omega

theorem digitsValue_decimal (n : Nat) : digitsValue (asCodes (decimal n)) = n := by
  unfold decimal
  split_ifs with hn
  · subst hn
    rfl
  · rw [digitsValue_reverse _ fun d hd => Nat.digits_lt_base (by decide) hd, Nat.ofDigits_digits]

/-- A number starts with a digit, and with a zero only when it is zero. -/
theorem decimal_head (n : Nat) :
    (n = 0 ∧ asCodes (decimal n) = [48]) ∨
      ∃ c rest, asCodes (decimal n) = c :: rest ∧ isDigitCode c ∧ c ≠ 48 := by
  by_cases hn : n = 0
  · subst hn
    exact .inl ⟨rfl, rfl⟩
  have hne : Nat.digits 10 n ≠ [] := Nat.digits_ne_nil_iff_ne_zero.2 hn
  have hlast := Nat.getLast_digit_ne_zero 10 hn
  have hlt : (Nat.digits 10 n).getLast hne < 10 := Nat.digits_lt_base (by decide) (List.getLast_mem hne)
  refine .inr ⟨48 + (Nat.digits 10 n).getLast hne, asCodes ((Nat.digits 10 n).dropLast.map digitChar).reverse, ?_, ?_,
    by omega⟩
  · rw [decimal, if_neg hn]
    conv_lhs => rw [← List.dropLast_append_getLast hne]
    rw [List.map_append, List.reverse_append, asCodes_append]
    simp [toNat_digitChar hlt]
  · simp [isDigitCode]
    omega

theorem readInteger_decimal (n : Nat) {rest : Codes} (hrest : ∀ c ∈ rest.head?, isDigitCode c = false) :
    readInteger (asCodes (decimal n) ++ rest) = some (asCodes (decimal n), rest) := by
  rcases decimal_head n with ⟨-, hzero⟩ | ⟨c, digits, hcons, -, hc⟩
  · rw [hzero]
    rfl
  · obtain ⟨htake, hdrop⟩ := takeWhile_append (digits_decimal n) hrest
    unfold readInteger
    split
    · next tail heq =>
      rw [hcons] at heq
      exact absurd (List.cons.inj heq).1 hc
    · rw [htake, hdrop, if_neg (by simp [hcons])]

theorem decimal_ne_nil (n : Nat) : asCodes (decimal n) ≠ [] := by
  rcases decimal_head n with ⟨-, hzero⟩ | ⟨c, digits, hcons, -⟩
  · simp [hzero]
  · simp [hcons]

theorem readMinus_of_head {text : Codes} (h : ∀ c ∈ text.head?, c ≠ 45) : readMinus text = (false, text) := by
  unfold readMinus
  split
  · exact absurd rfl (h 45 rfl)
  · rfl

theorem decimal_head_ge (n : Nat) (rest : Codes) : ∀ c ∈ (asCodes (decimal n) ++ rest).head?, 48 ≤ c := by
  rcases decimal_head n with ⟨-, hzero⟩ | ⟨c, digits, hcons, hc, -⟩
  · simp [hzero]
  · simp only [isDigitCode, decide_eq_true_eq] at hc
    simp [hcons, hc.1]

theorem readMinus_decimalInt (n : Int) (rest : Codes) :
    readMinus (asCodes (decimalInt n) ++ rest) = (decide (n < 0), asCodes (decimal n.natAbs) ++ rest) := by
  unfold decimalInt
  split_ifs with hneg
  · simp [readMinus, hneg]
  · rw [readMinus_of_head fun c hc => by have := decimal_head_ge _ _ c hc; omega]
    simp [hneg]

theorem readSign_decimalInt (n : Int) (rest : Codes) :
    readSign (asCodes (decimalInt n) ++ rest) = (decide (n < 0), asCodes (decimal n.natAbs) ++ rest) := by
  unfold readSign
  split
  · next tail heq =>
    have hread := readMinus_decimalInt n rest
    rw [heq] at hread
    have hhead := decimal_head_ge n.natAbs rest
    rw [← (Prod.mk.inj hread).2] at hhead
    exact absurd (hhead 43 rfl) (by decide)
  · exact readMinus_decimalInt n rest

theorem signed_natAbs (n : Int) : signed (decide (n < 0)) n.natAbs = n := by
  unfold signed
  split_ifs with h
  · have := of_decide_eq_true h
    omega
  · have : ¬ n < 0 := by simpa using h
    omega

theorem readExponent_decimalInt (exponent : Int) {rest : Codes} (h : Ends rest) :
    readExponent (101 :: (asCodes (decimalInt exponent) ++ rest)) = (some exponent, rest) := by
  obtain ⟨htake, hdrop⟩ := takeWhile_append (digits_decimal exponent.natAbs) fun c hc => (h c hc).1
  simp only [readExponent, readSign_decimalInt, htake, hdrop, digitsValue_decimal, signed_natAbs]
  rw [if_pos ⟨.inl trivial, decimal_ne_nil _⟩]

theorem readFraction_of_head {text : Codes} (h : ∀ c ∈ text.head?, c ≠ 46) : readFraction text = ([], text) := by
  unfold readFraction
  split
  · exact absurd rfl (h 46 rfl)
  · rfl

theorem readExponent_of_ends {text : Codes} (h : Ends text) : readExponent text = (none, text) := by
  cases text with
  | nil => rfl
  | cons c rest =>
    have := h c rfl
    simp only [readExponent]
    rw [if_neg (by simp [this])]

theorem readNumber_int (n : Int) {rest : Codes} (h : Ends rest) :
    readNumber (asCodes (decimalInt n) ++ rest) = some (.int n, rest) := by
  unfold readNumber
  rw [readMinus_decimalInt, readInteger_decimal _ fun c hc => (h c hc).1]
  simp only [Option.map_some, readFraction_of_head fun c hc => (h c hc).2.1, readExponent_of_ends h, List.append_nil,
    digitsValue_decimal, signed_natAbs, and_self, if_true]

theorem readNumber_float (mantissa exponent : Int) {rest : Codes} (h : Ends rest) :
    readNumber (asCodes (JsonFloat.decimal mantissa exponent).text ++ rest) =
      some (.float (.decimal mantissa exponent), rest) := by
  simp only [JsonFloat.text, asCodes_append, asCodes_cons, show 'e'.toNat = 101 from rfl, List.append_assoc,
    List.cons_append]
  unfold readNumber
  rw [readMinus_decimalInt, readInteger_decimal _ (by simp [isDigitCode])]
  have hdot : ∀ c ∈ (101 :: (asCodes (decimalInt exponent) ++ rest)).head?, c ≠ 46 := by simp
  simp only [Option.map_some, readFraction_of_head hdot, readExponent_decimalInt exponent h, List.append_nil,
    digitsValue_decimal, signed_natAbs]
  simp

end Numbers

/-! ## Values -/

/-- Where `json.dumps` puts blanks: at every depth behind an opening bracket, behind a comma and
before a closing bracket, and behind a colon. -/
structure Layout where
  opening : Nat → Codes
  between : Nat → Codes
  closing : Nat → Codes
  colon : Codes
  blank : ∀ depth, (opening depth).all isBlank ∧ (between depth).all isBlank ∧ (closing depth).all isBlank ∧
    colon.all isBlank

/-- `separators=(",", ":")` -/
def Layout.compact : Layout where
  opening _ := []
  between _ := []
  closing _ := []
  colon := []
  blank _ := by simp

/-- `indent=width` -/
def Layout.indented (width : Nat) : Layout where
  opening depth := 10 :: List.replicate (width * (depth + 1)) 32
  between depth := 10 :: List.replicate (width * (depth + 1)) 32
  closing depth := 10 :: List.replicate (width * depth) 32
  colon := [32]
  blank depth := by simp [isBlank, List.all_replicate]

mutual
/-- `json.dumps(value)` at a depth. -/
def Json.write (layout : Layout) (depth : Nat) : Json → Codes
  | .list [] => [91, 93]
  | .list (item :: items) =>
    91 :: (layout.opening depth ++ writeItems layout depth (item :: items) ++ layout.closing depth ++ [93])
  | .obj [] => [123, 125]
  | .obj (field :: fields) =>
    123 :: (layout.opening depth ++ writeFields layout depth (field :: fields) ++ layout.closing depth ++ [125])
  | .str s => asCodes (quoted s)
  | value => asCodes value.dumps

def Json.writeItems (layout : Layout) (depth : Nat) : List Json → Codes
  | [] => []
  | [item] => item.write layout (depth + 1)
  | item :: next :: items =>
    item.write layout (depth + 1) ++ 44 :: (layout.between depth ++ writeItems layout depth (next :: items))

def Json.writeFields (layout : Layout) (depth : Nat) : List (Codes × Json) → Codes
  | [] => []
  | [(key, value)] => asCodes (quoted key) ++ 58 :: (layout.colon ++ value.write layout (depth + 1))
  | (key, value) :: next :: fields =>
    asCodes (quoted key) ++ 58 :: (layout.colon ++ value.write layout (depth + 1) ++
      44 :: (layout.between depth ++ writeFields layout depth (next :: fields)))
end

mutual
/-- Every string in the value is one of Python. -/
def Json.IsValue : Json → Prop
  | .str s => IsText s
  | .list items => AllValues items
  | .obj fields => AllFields fields
  | _ => True

def Json.AllValues : List Json → Prop
  | [] => True
  | item :: items => item.IsValue ∧ AllValues items

def Json.AllFields : List (Codes × Json) → Prop
  | [] => True
  | (key, value) :: fields => IsText key ∧ value.IsValue ∧ AllFields fields
end

mutual
/-- What is read back of the value's text. -/
def Json.reread : Json → Json
  | .str s => .str (joinCodes s)
  | .list items => .list (rereadItems items)
  | .obj fields => .obj (Dict.ofList (rereadFields fields)).items
  | value => value

def Json.rereadItems : List Json → List Json
  | [] => []
  | item :: items => item.reread :: rereadItems items

def Json.rereadFields : List (Codes × Json) → List (Codes × Json)
  | [] => []
  | (key, value) :: fields => (joinCodes key, value.reread) :: rereadFields fields
end

namespace Json

section Values

theorem skipBlanks_append {blanks : Codes} (h : blanks.all isBlank) (rest : Codes) :
    skipBlanks (blanks ++ rest) = skipBlanks rest := by
  unfold skipBlanks
  rw [List.dropWhile_append_of_pos (List.all_eq_true.1 h)]

theorem skipBlanks_of_head {text : Codes} (h : ∀ c ∈ text.head?, isBlank c = false) : skipBlanks text = text := by
  cases text with
  | nil => rfl
  | cons c rest =>
    have hc := h c rfl
    simp [skipBlanks, hc]

/-- The text of a value starts with none of the characters that end one, and with no blank. -/
def Starts (text : Codes) : Prop := ∃ c rest, text = c :: rest ∧ isBlank c = false ∧ c ≠ 93 ∧ c ≠ 125

theorem Starts.append {text : Codes} (h : Starts text) (rest : Codes) : Starts (text ++ rest) := by
  obtain ⟨c, tail, rfl, hc⟩ := h
  exact ⟨c, tail ++ rest, rfl, hc⟩

theorem Starts.skip {text : Codes} (h : Starts text) : skipBlanks text = text := by
  obtain ⟨c, tail, rfl, hc, -⟩ := h
  exact skipBlanks_of_head (by simpa using hc)

theorem starts_of_decimalInt (n : Int) : Starts (asCodes (decimalInt n)) := by
  unfold decimalInt
  split_ifs
  · exact ⟨45, _, rfl, rfl, by decide, by decide⟩
  · rcases decimal_head n.natAbs with ⟨-, hzero⟩ | ⟨c, digits, hcons, hc, -⟩
    · exact ⟨48, [], hzero, rfl, by decide, by decide⟩
    · simp only [isDigitCode, decide_eq_true_eq] at hc
      exact ⟨c, digits, hcons, by simp [isBlank]; omega, by omega, by omega⟩

theorem starts_write (layout : Layout) (depth : Nat) (value : Json) : Starts (value.write layout depth) := by
  cases value with
  | null => exact ⟨110, _, rfl, rfl, by decide, by decide⟩
  | bool value => cases value <;> exact ⟨_, _, rfl, rfl, by decide, by decide⟩
  | int n => exact starts_of_decimalInt n
  | float value =>
    cases value with
    | nan => exact ⟨78, _, rfl, rfl, by decide, by decide⟩
    | infinity negative => cases negative <;> exact ⟨_, _, rfl, rfl, by decide, by decide⟩
    | decimal mantissa exponent =>
      simp only [write, dumps, JsonFloat.text, asCodes_append]
      exact (starts_of_decimalInt mantissa).append _
  | str s => exact ⟨34, _, rfl, rfl, by decide, by decide⟩
  | list items => cases items <;> exact ⟨91, _, rfl, rfl, by decide, by decide⟩
  | obj fields => cases fields <;> exact ⟨123, _, rfl, rfl, by decide, by decide⟩

theorem ends_of_blanks {blanks rest : Codes} (h : blanks.all isBlank) (hrest : Ends rest) : Ends (blanks ++ rest) := by
  cases blanks with
  | nil => exact hrest
  | cons c blanks =>
    have hc : isBlank c := by simp_all
    simp only [isBlank, decide_eq_true_eq] at hc
    intro d hd
    obtain rfl : c = d := by simpa using hd
    simp only [isDigitCode, decide_eq_false_iff_not]
    omega

theorem readWord_write {word : String} (value : Json) {text : Codes} (h : text = codes word) (rest : Codes) :
    readWord word value (text ++ rest) = some (value, rest) := by
  subst h
  rw [readWord, if_pos (List.prefix_append _ _), List.drop_left]

theorem readWord_none {word : String} (value : Json) {c : Nat} {rest : Codes} (h : (codes word).head? ≠ some c)
    (hne : codes word ≠ []) : readWord word value (c :: rest) = none := by
  rw [readWord, if_neg]
  rintro ⟨tail, htail⟩
  cases hw : codes word with
  | nil => exact hne hw
  | cons d text =>
    rw [hw, List.cons_append] at htail
    exact h (by rw [hw, List.head?_cons, (List.cons.inj htail).1])

theorem readValue_number {text : Codes} {answer : Json × Codes} (h : readNumber text = some answer) (fuel : Nat)
    (hhead : ∃ c rest, text = c :: rest ∧ (c = 45 ∨ 48 ≤ c ∧ c ≤ 57)) :
    readValue (fuel + 1) text = some answer := by
  obtain ⟨c, rest, rfl, hc⟩ := hhead
  rw [readValue, if_neg (by omega), if_neg (by omega), if_neg (by omega), h]
  rw [readWord_none _ (by simp [codes]; omega) (by decide), readWord_none _ (by simp [codes]; omega) (by decide),
    readWord_none _ (by simp [codes]; omega) (by decide)]
  rfl

theorem decimalInt_head (n : Int) (rest : Codes) :
    ∃ c tail, asCodes (decimalInt n) ++ rest = c :: tail ∧ (c = 45 ∨ 48 ≤ c ∧ c ≤ 57) := by
  unfold decimalInt
  split_ifs
  · exact ⟨45, _, rfl, .inl rfl⟩
  · rcases decimal_head n.natAbs with ⟨-, hzero⟩ | ⟨c, digits, hcons, hc, -⟩
    · exact ⟨48, rest, by rw [hzero]; rfl, by decide⟩
    · simp only [isDigitCode, decide_eq_true_eq] at hc
      exact ⟨c, digits ++ rest, by rw [hcons]; rfl, .inr hc⟩

end Values

section RoundTrip

variable (layout : Layout)

/-- What closes a list or an object, behind the blanks of the layout. -/
theorem closing_ends {bracket : Nat} (depth : Nat) (hbracket : bracket = 93 ∨ bracket = 125) (rest : Codes) :
    Ends (layout.closing depth ++ bracket :: rest) := by
  refine ends_of_blanks (layout.blank depth).2.2.1 ?_
  intro c hc
  obtain rfl : bracket = c := by simpa using hc
  rcases hbracket with rfl | rfl <;> decide

theorem skip_closing {bracket : Nat} (depth : Nat) (hbracket : bracket = 93 ∨ bracket = 125) (rest : Codes) :
    skipBlanks (layout.closing depth ++ bracket :: rest) = bracket :: rest := by
  rw [skipBlanks_append (layout.blank depth).2.2.1, skipBlanks_of_head]
  rcases hbracket with rfl | rfl <;> simp [isBlank]

theorem comma_ends (rest : Codes) : Ends (44 :: rest) := by
  intro c hc
  obtain rfl : 44 = c := by simpa using hc
  decide

theorem skip_comma (rest : Codes) : skipBlanks (44 :: rest) = 44 :: rest := rfl

theorem skip_colon (rest : Codes) : skipBlanks (58 :: rest) = 58 :: rest := rfl

theorem starts_writeItems (depth : Nat) (item : Json) (items : List Json) :
    Starts (writeItems layout depth (item :: items)) := by
  cases items with
  | nil => exact starts_write layout (depth + 1) item
  | cons next items => exact (starts_write layout (depth + 1) item).append _

/-- A field starts with the quote of its key. -/
theorem writeFields_head (depth : Nat) (field : Codes × Json) (fields : List (Codes × Json)) :
    ∃ tail, writeFields layout depth (field :: fields) = 34 :: tail := by
  cases fields <;> exact ⟨_, rfl⟩

/-- A key is read up to its colon. -/
theorem readFields_key {key : Codes} (h : IsText key) (fuel : Nat) (rest : Codes) :
    readFields (fuel + 1) (asCodes (quoted key) ++ 58 :: rest) = (do
      let (value, rest) ← readValue fuel (skipBlanks rest)
      match skipBlanks rest with
      | 125 :: rest => some ([(joinCodes key, value)], rest)
      | 44 :: rest => do
        let (fields, rest) ← readFields fuel (skipBlanks rest)
        return ((joinCodes key, value) :: fields, rest)
      | _ => none) := by
  simp only [quoted, asCodes_cons, asCodes_append, asCodes_nil, show '"'.toNat = 34 from rfl, List.append_assoc,
    List.cons_append, List.nil_append]
  rw [readFields, readString_quoted h]
  rfl

mutual
theorem readValue_write (value : Json) (h : value.IsValue) (depth fuel : Nat) (rest : Codes) (hends : Ends rest)
    (hfuel : (value.write layout depth).length ≤ fuel) :
    readValue fuel (value.write layout depth ++ rest) = some (value.reread, rest) := by
  obtain ⟨c, tail, hstart, -⟩ := starts_write layout depth value
  obtain ⟨fuel, rfl⟩ : ∃ n, fuel = n + 1 := ⟨fuel - 1, by rw [hstart] at hfuel; simp at hfuel; omega⟩
  cases value with
  | null => rfl
  | bool value => cases value <;> rfl
  | int n => exact readValue_number (readNumber_int n hends) fuel (decimalInt_head n rest)
  | float value =>
    cases value with
    | nan => rfl
    | infinity negative => cases negative <;> rfl
    | decimal mantissa exponent =>
      refine readValue_number (readNumber_float mantissa exponent hends) fuel ?_
      simp only [JsonFloat.text, asCodes_append, List.append_assoc]
      exact decimalInt_head mantissa _
  | str s =>
    have hread := readString_quoted h rest
    simp only [write, quoted, asCodes_cons, asCodes_append, asCodes_nil, show '"'.toNat = 34 from rfl,
      List.cons_append, List.append_assoc, List.nil_append]
    rw [readValue, if_pos rfl, hread]
    rfl
  | list items =>
    cases items with
    | nil => rfl
    | cons item items =>
      simp only [write, List.length_cons, List.length_append, List.length_nil] at hfuel
      have hitems := readItems_write (item :: items) (by simp) h depth fuel rest (by omega)
      obtain ⟨d, text, hd, hblank, hclose, -⟩ := (starts_writeItems layout depth item items).append
        (layout.closing depth ++ 93 :: rest)
      simp only [write, List.cons_append, List.append_assoc, List.nil_append]
      rw [readValue, if_neg (by decide), if_pos rfl, skipBlanks_append (layout.blank depth).1, hd,
        skipBlanks_of_head (by simpa using hblank)]
      split
      · next tail heq => exact absurd (List.cons.inj heq).1 hclose
      · rw [← hd, hitems]
        rfl
  | obj fields =>
    cases fields with
    | nil => rfl
    | cons field fields =>
      simp only [write, List.length_cons, List.length_append, List.length_nil] at hfuel
      have hfields := readFields_write (field :: fields) (by simp) h depth fuel rest (by omega)
      obtain ⟨text, hd⟩ := writeFields_head layout depth field fields
      simp only [write, List.cons_append, List.append_assoc, List.nil_append]
      rw [readValue, if_neg (by decide), if_neg (by decide), if_pos rfl, skipBlanks_append (layout.blank depth).1,
        hd, List.cons_append, skipBlanks_of_head (by simp [isBlank])]
      split
      · next tail heq => exact absurd (List.cons.inj heq).1 (by decide)
      · rw [← List.cons_append, ← hd, hfields]
        rfl

theorem readItems_write (items : List Json) (hne : items ≠ []) (h : AllValues items) (depth fuel : Nat) (rest : Codes)
    (hfuel : (writeItems layout depth items).length < fuel) :
    readItems fuel (writeItems layout depth items ++ (layout.closing depth ++ 93 :: rest)) =
      some (rereadItems items, rest) := by
  obtain ⟨fuel, rfl⟩ : ∃ n, fuel = n + 1 := ⟨fuel - 1, by omega⟩
  match items with
  | [] => exact absurd rfl hne
  | [item] =>
    have hitem := readValue_write item h.1 (depth + 1) fuel _ (closing_ends layout depth (.inl rfl) rest)
      (by simpa [writeItems] using Nat.le_of_lt_succ hfuel)
    simp only [writeItems]
    rw [readItems, hitem]
    simp only [Option.bind_eq_bind, Option.bind_some, skip_closing layout depth (.inl rfl)]
    rfl
  | item :: next :: items =>
    simp only [writeItems, List.length_append, List.length_cons] at hfuel
    have hitem := readValue_write item h.1 (depth + 1) fuel _
      (comma_ends (layout.between depth ++ writeItems layout depth (next :: items) ++
        (layout.closing depth ++ 93 :: rest))) (by omega)
    obtain ⟨_, _, hlength, -⟩ := starts_write layout (depth + 1) item
    have hitems := readItems_write (next :: items) (by simp) h.2 depth fuel rest
      (by rw [hlength] at hfuel; simp only [List.length_cons] at hfuel; omega)
    simp only [writeItems, List.append_assoc, List.cons_append] at hitem ⊢
    rw [readItems, hitem]
    simp only [Option.bind_eq_bind, Option.bind_some, skip_comma]
    rw [skipBlanks_append (layout.blank depth).2.1, ((starts_writeItems layout depth next items).append _).skip,
      hitems]
    rfl

theorem readFields_write (fields : List (Codes × Json)) (hne : fields ≠ []) (h : AllFields fields) (depth fuel : Nat)
    (rest : Codes) (hfuel : (writeFields layout depth fields).length < fuel) :
    readFields fuel (writeFields layout depth fields ++ (layout.closing depth ++ 125 :: rest)) =
      some (rereadFields fields, rest) := by
  obtain ⟨fuel, rfl⟩ : ∃ n, fuel = n + 1 := ⟨fuel - 1, by omega⟩
  match fields with
  | [] => exact absurd rfl hne
  | [(key, value)] =>
    simp only [writeFields, List.length_append, List.length_cons] at hfuel
    have hread := readValue_write value h.2.1 (depth + 1) fuel _ (closing_ends layout depth (.inr rfl) rest)
      (by omega)
    simp only [writeFields, List.append_assoc, List.cons_append]
    rw [readFields_key h.1, skipBlanks_append (layout.blank depth).2.2.2,
      ((starts_write layout (depth + 1) value).append _).skip, hread]
    simp only [Option.bind_eq_bind, Option.bind_some, skip_closing layout depth (.inr rfl)]
    rfl
  | (key, value) :: next :: fields =>
    simp only [writeFields, List.length_append, List.length_cons] at hfuel
    have hread := readValue_write value h.2.1 (depth + 1) fuel _
      (comma_ends (layout.between depth ++ writeFields layout depth (next :: fields) ++
        (layout.closing depth ++ 125 :: rest))) (by omega)
    have hnext := readFields_write (next :: fields) (by simp) h.2.2 depth fuel rest (by omega)
    obtain ⟨tail, htail⟩ := writeFields_head layout depth next fields
    simp only [writeFields, List.append_assoc, List.cons_append] at hread ⊢
    rw [readFields_key h.1, skipBlanks_append (layout.blank depth).2.2.2,
      ((starts_write layout (depth + 1) value).append _).skip, hread]
    simp only [Option.bind_eq_bind, Option.bind_some, skip_comma]
    rw [skipBlanks_append (layout.blank depth).2.1, htail, List.cons_append,
      skipBlanks_of_head (by simp [isBlank]), ← List.cons_append, ← htail, hnext]
    rfl
end

/-- `json.loads(json.dumps(value))`, in any layout. -/
theorem loads_write (value : Json) (h : value.IsValue) : loads (value.write layout 0) = some value.reread := by
  have hread := readValue_write layout value h 0 ((value.write layout 0).length + 1) [] ends_nil (by omega)
  rw [List.append_nil] at hread
  rw [loads, (starts_write layout 0 value).skip, hread]
  rfl

end RoundTrip

/-! ## Values that are read back as they are -/

theorem rereadItems_eq (items : List Json) : rereadItems items = items.map reread := by
  induction items with
  | nil => rfl
  | cons item items ih => rw [rereadItems, ih, List.map_cons]

theorem rereadFields_eq (fields : List (Codes × Json)) :
    rereadFields fields = fields.map fun field => (joinCodes field.1, field.2.reread) := by
  induction fields with
  | nil => rfl
  | cons field fields ih => rw [rereadFields, ih, List.map_cons]

theorem allValues_iff (items : List Json) : AllValues items ↔ ∀ item ∈ items, item.IsValue := by
  induction items with
  | nil => simp [AllValues]
  | cons item items ih => simp [AllValues, ih]

theorem allFields_iff (fields : List (Codes × Json)) :
    AllFields fields ↔ ∀ field ∈ fields, IsText field.1 ∧ field.2.IsValue := by
  induction fields with
  | nil => simp [AllFields]
  | cons field fields ih => simp [AllFields, ih, and_assoc]

/-- A value that is read back as it is. -/
def Stable (value : Json) : Prop := value.IsValue ∧ value.reread = value

theorem stable_obj {fields : List (Codes × Json)} (hkeys : (fields.map Prod.fst).Nodup)
    (h : ∀ field ∈ fields, IsText field.1 ∧ joinCodes field.1 = field.1 ∧ Stable field.2) : Stable (.obj fields) := by
  refine ⟨(allFields_iff fields).2 fun field hmem => ⟨(h field hmem).1, (h field hmem).2.2.1⟩, ?_⟩
  have hsame : fields.map (fun field => (joinCodes field.1, field.2.reread)) = fields.map id :=
    List.map_congr_left fun field hmem => by
      rw [(h field hmem).2.1, (h field hmem).2.2.2]
      rfl
  rw [reread, rereadFields_eq, hsame, List.map_id, Dict.ofList_items hkeys]

theorem stable_list {items : List Json} (h : ∀ item ∈ items, Stable item) : Stable (.list items) := by
  refine ⟨(allValues_iff items).2 fun item hmem => (h item hmem).1, ?_⟩
  rw [reread, rereadItems_eq, List.map_congr_left (g := id) fun item hmem => (h item hmem).2, List.map_id]

theorem stable_int (n : Int) : Stable (.int n) := ⟨trivial, rfl⟩

theorem stable_float (x : JsonFloat) : Stable (.float x) := ⟨trivial, rfl⟩

theorem stable_null : Stable .null := ⟨trivial, rfl⟩

theorem stable_str {s : Codes} (hs : IsText s) (hjoined : joinCodes s = s) : Stable (.str s) :=
  ⟨hs, congrArg Json.str hjoined⟩

theorem Stable.loads_write {value : Json} (h : Stable value) (layout : Layout) :
    loads (value.write layout 0) = some value := by
  rw [Json.loads_write layout value h.1, h.2]

/-! ## The text is ASCII -/

theorem printable_asCodes {text : List Char} (h : ∀ c ∈ text, Printable c) : ∀ c ∈ asCodes text, c ≤ 126 := by
  intro c hc
  obtain ⟨d, hd, rfl⟩ := List.mem_map.1 hc
  exact (h d hd).2

theorem blank_small {blanks : Codes} (h : blanks.all isBlank) : ∀ c ∈ blanks, c ≤ 126 := by
  intro c hc
  have := List.all_eq_true.1 h c hc
  simp only [isBlank, decide_eq_true_eq] at this
  omega

section Ascii

variable (layout : Layout)

mutual
theorem write_small (value : Json) (depth : Nat) : ∀ c ∈ value.write layout depth, c ≤ 126 := by
  cases value with
  | null => exact printable_asCodes (printable_dumps .null)
  | bool value => exact printable_asCodes (printable_dumps (.bool value))
  | int value => exact printable_asCodes (printable_dumps (.int value))
  | float value => exact printable_asCodes (printable_dumps (.float value))
  | str value => exact printable_asCodes (printable_quoted value)
  | list items =>
    cases items with
    | nil =>
      intro c hc
      simp only [write, List.mem_cons, List.not_mem_nil, or_false] at hc
      rcases hc with rfl | rfl <;> decide
    | cons item items =>
      intro c hc
      simp only [write, List.mem_cons, List.mem_append, List.not_mem_nil, or_false] at hc
      rcases hc with rfl | ((hc | hc) | hc) | rfl
      · decide
      · exact blank_small (layout.blank depth).1 c hc
      · exact writeItems_small (item :: items) depth c hc
      · exact blank_small (layout.blank depth).2.2.1 c hc
      · decide
  | obj fields =>
    cases fields with
    | nil =>
      intro c hc
      simp only [write, List.mem_cons, List.not_mem_nil, or_false] at hc
      rcases hc with rfl | rfl <;> decide
    | cons field fields =>
      intro c hc
      simp only [write, List.mem_cons, List.mem_append, List.not_mem_nil, or_false] at hc
      rcases hc with rfl | ((hc | hc) | hc) | rfl
      · decide
      · exact blank_small (layout.blank depth).1 c hc
      · exact writeFields_small (field :: fields) depth c hc
      · exact blank_small (layout.blank depth).2.2.1 c hc
      · decide

theorem writeItems_small (items : List Json) (depth : Nat) : ∀ c ∈ writeItems layout depth items, c ≤ 126 := by
  match items with
  | [] => simp [writeItems]
  | [item] => exact write_small item (depth + 1)
  | item :: next :: items =>
    intro c hc
    simp only [writeItems, List.mem_append, List.mem_cons] at hc
    rcases hc with hc | rfl | hc | hc
    · exact write_small item (depth + 1) c hc
    · decide
    · exact blank_small (layout.blank depth).2.1 c hc
    · exact writeItems_small (next :: items) depth c hc

theorem writeFields_small (fields : List (Codes × Json)) (depth : Nat) :
    ∀ c ∈ writeFields layout depth fields, c ≤ 126 := by
  match fields with
  | [] => simp [writeFields]
  | [(key, value)] =>
    intro c hc
    simp only [writeFields, List.mem_append, List.mem_cons] at hc
    rcases hc with hc | rfl | hc | hc
    · exact printable_asCodes (printable_quoted key) c hc
    · decide
    · exact blank_small (layout.blank depth).2.2.2 c hc
    · exact write_small value (depth + 1) c hc
  | (key, value) :: next :: fields =>
    intro c hc
    simp only [writeFields, List.mem_append, List.mem_cons] at hc
    rcases hc with hc | rfl | (hc | hc) | rfl | hc | hc
    · exact printable_asCodes (printable_quoted key) c hc
    · decide
    · exact blank_small (layout.blank depth).2.2.2 c hc
    · exact write_small value (depth + 1) c hc
    · decide
    · exact blank_small (layout.blank depth).2.1 c hc
    · exact writeFields_small (next :: fields) depth c hc
end

end Ascii

end Json

end SeedSync.Lib
