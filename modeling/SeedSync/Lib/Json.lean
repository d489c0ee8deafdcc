import Mathlib.Data.Nat.Digits.Lemmas

/-!
# JSON values and their text

The values that `json.loads` returns and the compact text that `json.dumps` writes of them, with
every character outside printable ASCII escaped.
-/

namespace SeedSync.Lib

/-- A number that is no integer, or is written as one that is none. -/
inductive JsonFloat where
  | nan
  | infinity (negative : Bool)
  /-- `mantissa * 10 ^ exponent` -/
  | decimal (mantissa exponent : Int)
  deriving DecidableEq, Repr

/-- The code points of a Python string, which may be lone surrogates. -/
abbrev Codes := List Nat

instance lawfulCodes : LawfulBEq Codes := List.instLawfulBEq

def codes (s : String) : Codes := s.toList.map Char.toNat

theorem codes_injective : Function.Injective codes := by
  intro s t h
  have hchars : s.toList = t.toList :=
    List.map_injective_iff.mpr (fun c d hcd => Char.ext (UInt32.toNat_inj.mp hcd)) h
  exact String.toList_injective hchars

inductive Json where
  | null
  | bool (value : Bool)
  | int (value : Int)
  | float (value : JsonFloat)
  | str (value : Codes)
  | list (items : List Json)
  | obj (fields : List (Codes × Json))

/-! ## Text -/

def digitChar (digit : Nat) : Char := Char.ofNat (48 + digit)

def decimal (n : Nat) : List Char :=
  if n = 0 then ['0'] else ((Nat.digits 10 n).map digitChar).reverse

def decimalInt (n : Int) : List Char :=
  if n < 0 then '-' :: decimal n.natAbs else decimal n.natAbs

def hexChar (digit : Nat) : Char := if digit < 10 then Char.ofNat (48 + digit) else Char.ofNat (87 + digit)

/-- `\uXXXX` of one UTF-16 unit -/
def unicodeEscape (unit : Nat) : List Char :=
  ['\\', 'u', hexChar (unit / 4096 % 16), hexChar (unit / 256 % 16), hexChar (unit / 16 % 16), hexChar (unit % 16)]

/-- `ESCAPE_DCT` and `py_encode_basestring_ascii` of `json/encoder.py` -/
def escapeCode (c : Nat) : List Char :=
  if c = 34 then ['\\', '"']
  else if c = 92 then ['\\', '\\']
  else if c = 10 then ['\\', 'n']
  else if c = 13 then ['\\', 'r']
  else if c = 9 then ['\\', 't']
  else if c = 12 then ['\\', 'f']
  else if c = 8 then ['\\', 'b']
  else if 32 ≤ c ∧ c ≤ 126 then [Char.ofNat c]
  else if c < 65536 then unicodeEscape c
  else unicodeEscape (55296 + (c - 65536) / 1024) ++ unicodeEscape (56320 + (c - 65536) % 1024)

def quoted (s : Codes) : List Char := '"' :: s.flatMap escapeCode ++ ['"']

def JsonFloat.text : JsonFloat → List Char
  | nan => "NaN".toList
  | infinity negative => if negative then "-Infinity".toList else "Infinity".toList
  | decimal mantissa exponent => decimalInt mantissa ++ 'e' :: decimalInt exponent

mutual
/-- `json.dumps(value, separators=(",", ":"))` -/
def Json.dumps : Json → List Char
  | .null => "null".toList
  | .bool value => if value then "true".toList else "false".toList
  | .int value => decimalInt value
  | .float value => value.text
  | .str value => quoted value
  | .list items => '[' :: dumpsItems items ++ [']']
  | .obj fields => '{' :: dumpsFields fields ++ ['}']

def Json.dumpsItems : List Json → List Char
  | [] => []
  | [item] => item.dumps
  | item :: next :: items => item.dumps ++ ',' :: dumpsItems (next :: items)

def Json.dumpsFields : List (Codes × Json) → List Char
  | [] => []
  | [(key, value)] => quoted key ++ ':' :: value.dumps
  | (key, value) :: next :: fields => quoted key ++ ':' :: value.dumps ++ ',' :: dumpsFields (next :: fields)
end

mutual
/-- `json.dumps(value)`, with a space after every separator. -/
def Json.dumpsSpaced : Json → List Char
  | .list items => '[' :: dumpsSpacedItems items ++ [']']
  | .obj fields => '{' :: dumpsSpacedFields fields ++ ['}']
  | value => value.dumps

def Json.dumpsSpacedItems : List Json → List Char
  | [] => []
  | [item] => item.dumpsSpaced
  | item :: next :: items => item.dumpsSpaced ++ ',' :: ' ' :: dumpsSpacedItems (next :: items)

def Json.dumpsSpacedFields : List (Codes × Json) → List Char
  | [] => []
  | [(key, value)] => quoted key ++ ':' :: ' ' :: value.dumpsSpaced
  | (key, value) :: next :: fields =>
    quoted key ++ ':' :: ' ' :: value.dumpsSpaced ++ ',' :: ' ' :: dumpsSpacedFields (next :: fields)
end

/-! ## Fields -/

namespace Json

/-- `dict.get(key)`, with `None` for a key that is not there. -/
def get (fields : List (Codes × Json)) (key : String) : Json := (fields.lookup (codes key)).getD .null

/-- `bool(value)` -/
def truthy : Json → Bool
  | null => false
  | bool value => value
  | int value => decide (value ≠ 0)
  | float (.decimal mantissa _) => decide (mantissa ≠ 0)
  | float _ => true
  | str value => !value.isEmpty
  | list items => !items.isEmpty
  | obj fields => !fields.isEmpty

/-- `value == n`; a boolean is a number. -/
def equalsNat (n : Nat) : Json → Bool
  | bool value => decide ((if value then 1 else 0) = n)
  | int value => decide (value = n)
  | float (.decimal mantissa exponent) =>
    if 0 ≤ exponent then decide (mantissa * 10 ^ exponent.toNat = n)
    else decide (mantissa = n * 10 ^ exponent.natAbs)
  | _ => false

end Json

@[simp] theorem codes_inj {s t : String} : codes s = codes t ↔ s = t := codes_injective.eq_iff

@[simp] theorem codes_beq_codes (s t : String) : (codes s == codes t) = (s == t) := by
  rw [Bool.eq_iff_iff, beq_iff_eq, beq_iff_eq]
  exact codes_inj

@[simp] theorem lookup_codes (key k : String) (value : Json) (rest : List (Codes × Json)) :
    ((codes key, value) :: rest).lookup (codes k) = if k = key then some value else rest.lookup (codes k) := by
  rw [List.lookup_cons, codes_beq_codes]
  by_cases h : k = key
  · simp [h]
  · rw [beq_eq_false_iff_ne.2 h, if_neg h]

/-! ## The text is printable -/

/-- A character from the blank to the tilde. -/
def Printable (c : Char) : Prop := 32 ≤ c.toNat ∧ c.toNat ≤ 126

instance : DecidablePred Printable := fun c => inferInstanceAs (Decidable (32 ≤ c.toNat ∧ c.toNat ≤ 126))

theorem toNat_ofNat {n : Nat} (h : n ≤ 126) : (Char.ofNat n).toNat = n := by
  have hvalid : n.isValidChar := Or.inl (by omega)
  rw [Char.ofNat, dif_pos hvalid]
  rfl

theorem printable_digitChar {digit : Nat} (h : digit < 10) : Printable (digitChar digit) := by
  unfold Printable digitChar
  rw [toNat_ofNat (by omega)]
  omega

theorem printable_hexChar {digit : Nat} (h : digit < 16) : Printable (hexChar digit) := by
  unfold Printable hexChar
  split_ifs <;> rw [toNat_ofNat (by omega)] <;> omega

theorem printable_decimal (n : Nat) : ∀ c ∈ decimal n, Printable c := by
  intro c hc
  unfold decimal at hc
  split_ifs at hc
  · rw [List.mem_singleton.mp hc]
    decide
  · obtain ⟨digit, hdigit, rfl⟩ := List.mem_map.mp (List.mem_reverse.mp hc)
    exact printable_digitChar (Nat.digits_lt_base (by decide) hdigit)

theorem printable_decimalInt (n : Int) : ∀ c ∈ decimalInt n, Printable c := by
  intro c hc
  unfold decimalInt at hc
  split_ifs at hc
  · rcases List.mem_cons.mp hc with rfl | hc
    · decide
    · exact printable_decimal _ c hc
  · exact printable_decimal _ c hc

theorem printable_unicodeEscape (unit : Nat) : ∀ c ∈ unicodeEscape unit, Printable c := by
  intro c hc
  simp only [unicodeEscape, List.mem_cons, List.not_mem_nil, or_false] at hc
  rcases hc with rfl | rfl | rfl | rfl | rfl | rfl
  · decide
  · decide
  all_goals exact printable_hexChar (Nat.mod_lt _ (by decide))

theorem printable_of_decide {text : List Char} (h : text.all (fun c => decide (Printable c)) = true) :
    ∀ c ∈ text, Printable c := by
  simpa using h

theorem printable_escapeCode (code : Nat) : ∀ c ∈ escapeCode code, Printable c := by
  unfold escapeCode
  split_ifs with h1 h2 h3 h4 h5 h6 h7 h8
  all_goals first
    | exact printable_of_decide (by decide)
    | exact printable_unicodeEscape _
    | skip
  · intro c hc
    rw [List.mem_singleton.mp hc]
    unfold Printable
    rw [toNat_ofNat h8.2]
    exact h8
  · intro c hc
    rcases List.mem_append.mp hc with hc | hc <;> exact printable_unicodeEscape _ c hc

theorem printable_quoted (s : Codes) : ∀ c ∈ quoted s, Printable c := by
  intro c hc
  simp only [quoted, List.cons_append, List.mem_cons, List.mem_append, List.mem_flatMap, List.not_mem_nil,
    or_false] at hc
  rcases hc with rfl | ⟨code, -, hc⟩ | rfl
  · decide
  · exact printable_escapeCode code c hc
  · decide

theorem JsonFloat.printable_text (value : JsonFloat) : ∀ c ∈ value.text, Printable c := by
  cases value with
  | nan => exact printable_of_decide (by decide)
  | infinity negative => cases negative <;> exact printable_of_decide (by decide)
  | decimal mantissa exponent =>
    intro c hc
    simp only [JsonFloat.text, List.mem_append, List.mem_cons] at hc
    rcases hc with hc | rfl | hc
    · exact printable_decimalInt _ c hc
    · decide
    · exact printable_decimalInt _ c hc

namespace Json

mutual
theorem printable_dumps (value : Json) : ∀ c ∈ value.dumps, Printable c := by
  cases value with
  | null => exact printable_of_decide (by decide)
  | bool value => cases value <;> exact printable_of_decide (by decide)
  | int value => exact printable_decimalInt value
  | float value => exact value.printable_text
  | str value => exact printable_quoted value
  | list items =>
    intro c hc
    simp only [dumps, List.cons_append, List.mem_cons, List.mem_append, List.not_mem_nil, or_false] at hc
    rcases hc with rfl | hc | rfl
    · decide
    · exact printable_dumpsItems items c hc
    · decide
  | obj fields =>
    intro c hc
    simp only [dumps, List.cons_append, List.mem_cons, List.mem_append, List.not_mem_nil, or_false] at hc
    rcases hc with rfl | hc | rfl
    · decide
    · exact printable_dumpsFields fields c hc
    · decide

theorem printable_dumpsItems (items : List Json) : ∀ c ∈ dumpsItems items, Printable c := by
  match items with
  | [] => simp [dumpsItems]
  | [item] => exact printable_dumps item
  | item :: next :: items =>
    intro c hc
    simp only [dumpsItems, List.mem_append, List.mem_cons] at hc
    rcases hc with hc | rfl | hc
    · exact printable_dumps item c hc
    · decide
    · exact printable_dumpsItems (next :: items) c hc

theorem printable_dumpsFields (fields : List (Codes × Json)) : ∀ c ∈ dumpsFields fields, Printable c := by
  match fields with
  | [] => simp [dumpsFields]
  | [(key, value)] =>
    intro c hc
    simp only [dumpsFields, List.mem_append, List.mem_cons] at hc
    rcases hc with hc | rfl | hc
    · exact printable_quoted key c hc
    · decide
    · exact printable_dumps value c hc
  | (key, value) :: next :: fields =>
    intro c hc
    simp only [dumpsFields, List.cons_append, List.append_assoc, List.mem_append, List.mem_cons] at hc
    rcases hc with hc | rfl | hc | rfl | hc
    · exact printable_quoted key c hc
    · decide
    · exact printable_dumps value c hc
    · decide
    · exact printable_dumpsFields (next :: fields) c hc
end

end Json

/-! ## Lengths -/

/-- The next number has at most one digit more. -/
theorem length_decimal_succ (n : Nat) : (decimal (n + 1)).length ≤ (decimal n).length + 1 := by
  rcases Nat.eq_zero_or_pos n with rfl | hpos
  · decide
  · unfold decimal
    rw [if_neg (by omega), if_neg (by omega)]
    simp only [List.length_reverse, List.length_map]
    rw [Nat.digits_length_le_iff (by decide)]
    have hlt : n < 10 ^ (Nat.digits 10 n).length := Nat.lt_base_pow_length_digits (by decide)
    rw [pow_succ]
    omega

theorem length_decimal_le {n k : Nat} (h : n < 10 ^ k) (hk : 1 ≤ k) : (decimal n).length ≤ k := by
  unfold decimal
  split_ifs
  · exact hk
  · simp only [List.length_reverse, List.length_map]
    rw [Nat.digits_length_le_iff (by decide)]
    exact h

theorem length_decimalInt_le {n : Int} {k : Nat} (h : n.natAbs < 10 ^ k) (hk : 1 ≤ k) :
    (decimalInt n).length ≤ k + 1 := by
  have := length_decimal_le h hk
  unfold decimalInt
  split_ifs
  · simpa using this
  · omega

theorem length_escapeCode_le (c : Nat) : (escapeCode c).length ≤ 12 := by
  unfold escapeCode
  split_ifs <;> simp [unicodeEscape]

theorem length_quoted_le (s : Codes) : (quoted s).length ≤ 12 * s.length + 2 := by
  have hflat : (s.flatMap escapeCode).length ≤ 12 * s.length := by
    induction s with
    | nil => simp
    | cons c s ih =>
      have := length_escapeCode_le c
      simp only [List.flatMap_cons, List.length_append, List.length_cons]
      omega
  simpa [quoted] using hflat

end SeedSync.Lib
