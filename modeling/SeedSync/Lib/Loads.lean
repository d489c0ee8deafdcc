import SeedSync.Lib.Json
import SeedSync.Lib.Dict

/-!
# Reading JSON text

`json.loads` on a text of code points, less its limits on depth and on the digits of an integer.
`Json.reread` is what it makes of a text that `json.dumps` wrote: the value itself but for strings
in which two surrogates stand for one character.
-/

namespace SeedSync.Lib

def asCodes (text : List Char) : Codes := text.map Char.toNat

@[simp] theorem asCodes_nil : asCodes [] = [] := rfl

@[simp] theorem asCodes_cons (c : Char) (text : List Char) : asCodes (c :: text) = c.toNat :: asCodes text := rfl

@[simp] theorem asCodes_append (a b : List Char) : asCodes (a ++ b) = asCodes a ++ asCodes b := List.map_append

@[simp] theorem length_asCodes (text : List Char) : (asCodes text).length = text.length := List.length_map _

/-! ## Strings -/

def isHighSurrogate (c : Nat) : Bool := decide (55296 ≤ c ∧ c ≤ 56319)

def isLowSurrogate (c : Nat) : Bool := decide (56320 ≤ c ∧ c ≤ 57343)

def joinSurrogates (high low : Nat) : Nat := 65536 + (high - 55296) * 1024 + (low - 56320)

/-- The string with every high surrogate and the low one behind it made one character. -/
def joinCodes : Codes → Codes
  | [] => []
  | [c] => [c]
  | c :: d :: rest =>
    if isHighSurrogate c && isLowSurrogate d then joinSurrogates c d :: joinCodes rest
    else c :: joinCodes (d :: rest)

/-- The characters of a string literal, each with whether it was written as `\uXXXX`. -/
def joinUnits : List (Bool × Nat) → Codes
  | [] => []
  | [(_, c)] => [c]
  | (e, c) :: (e', d) :: rest =>
    if e && e' && isHighSurrogate c && isLowSurrogate d then joinSurrogates c d :: joinUnits rest
    else c :: joinUnits ((e', d) :: rest)

def hexValue (c : Nat) : Option Nat :=
  if 48 ≤ c ∧ c ≤ 57 then some (c - 48)
  else if 97 ≤ c ∧ c ≤ 102 then some (c - 87)
  else if 65 ≤ c ∧ c ≤ 70 then some (c - 55)
  else none

/-- `_decode_uXXXX`. -/
def hexUnit (a b c d : Nat) : Option Nat := do
  return 4096 * (← hexValue a) + 256 * (← hexValue b) + 16 * (← hexValue c) + (← hexValue d)

/-- `BACKSLASH` of `json/decoder.py`. -/
def backslash (c : Nat) : Option Nat :=
  if c = 34 ∨ c = 92 ∨ c = 47 then some c
  else if c = 98 then some 8
  else if c = 102 then some 12
  else if c = 110 then some 10
  else if c = 114 then some 13
  else if c = 116 then some 9
  else none

/-- A string literal behind its opening quote, and the text behind its closing one. -/
def readUnits : Codes → Option (List (Bool × Nat) × Codes)
  | [] => none
  | [c] => if c = 34 then some ([], []) else none
  | c :: d :: rest =>
    if c = 34 then some ([], d :: rest)
    else if c = 92 then
      if d = 117 then
        match rest with
        | e :: f :: g :: h :: rest => do
          let unit ← hexUnit e f g h
          let (units, rest) ← readUnits rest
          return ((true, unit) :: units, rest)
        | _ => none
      else do
        let value ← backslash d
        let (units, rest) ← readUnits rest
        return ((false, value) :: units, rest)
    else if c < 32 then none
    else do
      let (units, rest) ← readUnits (d :: rest)
      return ((false, c) :: units, rest)

/-- `scanstring`. -/
def readString (text : Codes) : Option (Codes × Codes) :=
  (readUnits text).map fun (units, rest) => (joinUnits units, rest)

/-! ## Numbers -/

def isDigitCode (c : Nat) : Bool := decide (48 ≤ c ∧ c ≤ 57)

def digitsValue (digits : Codes) : Nat := digits.foldl (fun n c => 10 * n + (c - 48)) 0

/-- Whether a minus sign stands first, and the text behind it. -/
def readMinus : Codes → Bool × Codes
  | 45 :: rest => (true, rest)
  | rest => (false, rest)

def readSign : Codes → Bool × Codes
  | 43 :: rest => (false, rest)
  | rest => readMinus rest

def signed (negative : Bool) (n : Nat) : Int := if negative then -n else n

/-- The digits of an integer: a leading zero stands alone. -/
def readInteger : Codes → Option (Codes × Codes)
  | 48 :: rest => some ([48], rest)
  | text =>
    if text.takeWhile isDigitCode = [] then none
    else some (text.takeWhile isDigitCode, text.dropWhile isDigitCode)

/-- The digits of the fraction and what follows them. A dot without a digit is not taken. -/
def readFraction : Codes → Codes × Codes
  | 46 :: rest =>
    if rest.takeWhile isDigitCode = [] then ([], 46 :: rest)
    else (rest.takeWhile isDigitCode, rest.dropWhile isDigitCode)
  | rest => ([], rest)

/-- The exponent and what follows it. -/
def readExponent : Codes → Option Int × Codes
  | [] => (none, [])
  | e :: rest =>
    let digits := (readSign rest).2
    if (e = 101 ∨ e = 69) ∧ digits.takeWhile isDigitCode ≠ [] then
      (some (signed (readSign rest).1 (digitsValue (digits.takeWhile isDigitCode))), digits.dropWhile isDigitCode)
    else (none, e :: rest)

/-- `NUMBER_RE` of `json/scanner.py`. -/
def readNumber (text : Codes) : Option (Json × Codes) :=
  (readInteger (readMinus text).2).map fun (digits, rest) =>
    let fraction := readFraction rest
    let exponent := readExponent fraction.2
    let value := signed (readMinus text).1 (digitsValue (digits ++ fraction.1))
    if fraction.1 = [] ∧ exponent.1 = none then (.int value, exponent.2)
    else (.float (.decimal value (exponent.1.getD 0 - fraction.1.length)), exponent.2)

/-! ## Values -/

def isBlank (c : Nat) : Bool := decide (c = 32 ∨ c = 9 ∨ c = 10 ∨ c = 13)

def skipBlanks (text : Codes) : Codes := text.dropWhile isBlank

/-- The literal and the text behind it. -/
def readWord (word : String) (value : Json) (text : Codes) : Option (Json × Codes) :=
  if codes word <+: text then some (value, text.drop (codes word).length) else none

mutual
/-- `scan_once`; the number bounds the depth of the calls. -/
def readValue : Nat → Codes → Option (Json × Codes)
  | 0, _ => none
  | _, [] => none
  | fuel + 1, c :: rest =>
    if c = 34 then (readString rest).map fun (s, rest) => (.str s, rest)
    else if c = 91 then
      match skipBlanks rest with
      | 93 :: rest => some (.list [], rest)
      | rest => (readItems fuel rest).map fun (items, rest) => (.list items, rest)
    else if c = 123 then
      match skipBlanks rest with
      | 125 :: rest => some (.obj [], rest)
      | rest => (readFields fuel rest).map fun (fields, rest) => (.obj (Dict.ofList fields).items, rest)
    else
      (readWord "null" .null (c :: rest)).or <| (readWord "true" (.bool true) (c :: rest)).or <|
      (readWord "false" (.bool false) (c :: rest)).or <| (readNumber (c :: rest)).or <|
      (readWord "NaN" (.float .nan) (c :: rest)).or <|
      (readWord "Infinity" (.float (.infinity false)) (c :: rest)).or <|
      readWord "-Infinity" (.float (.infinity true)) (c :: rest)

/-- `JSONArray` behind the opening bracket of a list that is not empty. -/
def readItems : Nat → Codes → Option (List Json × Codes)
  | 0, _ => none
  | fuel + 1, text => do
    let (value, rest) ← readValue fuel text
    match skipBlanks rest with
    | 93 :: rest => some ([value], rest)
    | 44 :: rest => do
      let (items, rest) ← readItems fuel (skipBlanks rest)
      return (value :: items, rest)
    | _ => none

/-- `JSONObject` behind the opening brace of an object that is not empty. -/
def readFields : Nat → Codes → Option (List (Codes × Json) × Codes)
  | 0, _ => none
  | fuel + 1, text =>
    match text with
    | 34 :: rest => do
      let (key, rest) ← readString rest
      match skipBlanks rest with
      | 58 :: rest => do
        let (value, rest) ← readValue fuel (skipBlanks rest)
        match skipBlanks rest with
        | 125 :: rest => some ([(key, value)], rest)
        | 44 :: rest => do
          let (fields, rest) ← readFields fuel (skipBlanks rest)
          return ((key, value) :: fields, rest)
        | _ => none
      | _ => none
    | _ => none
end

/-- `json.loads`: `none` is a `ValueError`. -/
def loads (text : Codes) : Option Json :=
  match readValue (text.length + 1) (skipBlanks text) with
  | some (value, rest) => if skipBlanks rest = [] then some value else none
  | none => none

end SeedSync.Lib
