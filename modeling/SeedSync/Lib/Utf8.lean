import Mathlib.Data.List.Basic
import SeedSync.Lib.Json

/-!
# UTF-8

The incremental decoder, one byte at a time, and what becomes of bytes that are no UTF-8: Python
keeps them in a string as lone surrogates, or replaces them.
-/

namespace SeedSync.Lib

/-- The bytes of a character that has begun. -/
structure Utf8Decoder where
  /-- The bytes that are still to come. -/
  owed : Nat := 0
  /-- What the next of them may be. -/
  low : Nat := 0x80
  high : Nat := 0xBF
  value : Nat := 0
  /-- The bytes that are held back. -/
  held : Nat := 0
  deriving DecidableEq, Repr

/-- One byte, and the character that it completes. -/
def Utf8Decoder.step (d : Utf8Decoder) (byte : UInt8) : Option (Utf8Decoder × List Char) :=
  let b := byte.toNat
  if d.owed = 0 then
    if b ≤ 0x7F then some ({}, [Char.ofNat b])
    else if 0xC2 ≤ b ∧ b ≤ 0xDF then some ({ owed := 1, value := b - 0xC0, held := 1 }, [])
    else if b = 0xE0 then some ({ owed := 2, low := 0xA0, value := 0, held := 1 }, [])
    else if b = 0xED then some ({ owed := 2, high := 0x9F, value := 0xD, held := 1 }, [])
    else if 0xE1 ≤ b ∧ b ≤ 0xEF then some ({ owed := 2, value := b - 0xE0, held := 1 }, [])
    else if b = 0xF0 then some ({ owed := 3, low := 0x90, value := 0, held := 1 }, [])
    else if b = 0xF4 then some ({ owed := 3, high := 0x8F, value := 4, held := 1 }, [])
    else if 0xF1 ≤ b ∧ b ≤ 0xF3 then some ({ owed := 3, value := b - 0xF0, held := 1 }, [])
    else none
  else if d.low ≤ b ∧ b ≤ d.high then
    let value := d.value * 64 + (b - 0x80)
    if d.owed = 1 then some ({}, [Char.ofNat value])
    else some ({ owed := d.owed - 1, value, held := d.held + 1 }, [])
  else none

/-- `decode(chunk, final=False)` -/
def Utf8Decoder.decode : Utf8Decoder → List UInt8 → Option (Utf8Decoder × List Char)
  | d, [] => some (d, [])
  | d, byte :: bytes => do
    let (d, first) ← d.step byte
    let (d, rest) ← d.decode bytes
    return (d, first ++ rest)

/-- `bytes.decode("utf-8")` -/
def decodeUtf8 (bytes : List UInt8) : Option (List Char) :=
  match Utf8Decoder.decode {} bytes with
  | some (d, text) => if d.owed = 0 then some text else none
  | none => none

/-- Bytes below 128 are their own characters. -/
theorem decodeUtf8_ascii {bytes : List Nat} (h : ∀ b ∈ bytes, b ≤ 126) :
    decodeUtf8 (bytes.map UInt8.ofNat) = some (bytes.map Char.ofNat) := by
  have hdecode : Utf8Decoder.decode {} (bytes.map UInt8.ofNat) = some ({}, bytes.map Char.ofNat) := by
    induction bytes with
    | nil => rfl
    | cons b bytes ih =>
      have hb : b ≤ 126 := h b List.mem_cons_self
      have hbyte : (UInt8.ofNat b).toNat = b := Nat.mod_eq_of_lt (by omega)
      have hstep : Utf8Decoder.step {} (UInt8.ofNat b) = some ({}, [Char.ofNat b]) := by
        unfold Utf8Decoder.step
        rw [if_pos rfl, hbyte, if_pos (by omega)]
      rw [List.map_cons, Utf8Decoder.decode, hstep]
      change (Utf8Decoder.decode {} (bytes.map UInt8.ofNat)).bind _ = _
      rw [ih fun c hc => h c (List.mem_cons_of_mem _ hc)]
      rfl
  rw [decodeUtf8, hdecode]
  rfl

/-- `len(text.encode("utf-8"))` -/
def utf8Length (text : List Char) : Nat := (text.map Char.utf8Size).sum

/-! ## Bytes that are no UTF-8 -/

/-- One code point of `text.encode("utf-8", "surrogateescape")`; a lone surrogate of the upper half
is a byte that could not be decoded. -/
def encodeSurrogateescape (code : Nat) : List UInt8 :=
  if code < 0x80 then [UInt8.ofNat code]
  else if 0xDC80 ≤ code ∧ code ≤ 0xDCFF then [UInt8.ofNat (code - 0xDC00)]
  else if code < 0x800 then [UInt8.ofNat (0xC0 + code / 64), UInt8.ofNat (0x80 + code % 64)]
  else if code < 0x10000 then
    [UInt8.ofNat (0xE0 + code / 4096), UInt8.ofNat (0x80 + code / 64 % 64), UInt8.ofNat (0x80 + code % 64)]
  else [UInt8.ofNat (0xF0 + code / 262144), UInt8.ofNat (0x80 + code / 4096 % 64), UInt8.ofNat (0x80 + code / 64 % 64),
    UInt8.ofNat (0x80 + code % 64)]

def replacement : Char := '\uFFFD'

/-- `decode("utf-8", "replace")`: one replacement for the bytes of a character that breaks off. -/
def Utf8Decoder.replacing : Utf8Decoder → List UInt8 → List Char
  | d, [] => if d.owed = 0 then [] else [replacement]
  | d, byte :: bytes =>
    match d.step byte with
    | some (d, text) => text ++ d.replacing bytes
    | none =>
      if d.owed = 0 then replacement :: replacing {} bytes
      else
        -- The byte is not part of the character that broke off, but may begin the next one.
        match Utf8Decoder.step {} byte with
        | some (d, text) => replacement :: text ++ d.replacing bytes
        | none => replacement :: replacement :: replacing {} bytes

/-- `name.encode("utf-8", "surrogateescape").decode("utf-8", "replace")` -/
def normalizeName (name : Codes) : String :=
  String.ofList (Utf8Decoder.replacing {} (name.flatMap encodeSurrogateescape))

/-! ### Lengths -/

/-- A character that has begun may still cost one replacement. -/
def Utf8Decoder.debt (d : Utf8Decoder) : Nat := if d.owed = 0 then 0 else 1

theorem length_step {d d' : Utf8Decoder} {byte : UInt8} {text : List Char} (h : d.step byte = some (d', text)) :
    text.length + d'.debt ≤ 1 + d.debt := by
  unfold Utf8Decoder.step at h
  dsimp only at h
  unfold Utf8Decoder.debt
  by_cases howed : d.owed = 0
  · rw [if_pos howed] at h
    split_ifs at h <;> cases h <;> simp
  · rw [if_neg howed] at h
    split_ifs at h
    · cases h
      simp [howed]
    · cases h
      simp only [List.length_nil, howed, if_false]
      split_ifs <;> omega

theorem length_replacing (bytes : List UInt8) (d : Utf8Decoder) : (d.replacing bytes).length ≤ bytes.length + d.debt := by
  induction bytes generalizing d with
  | nil =>
    unfold Utf8Decoder.replacing Utf8Decoder.debt
    split_ifs <;> simp
  | cons byte bytes ih =>
    have hfresh := ih {}
    have hzero : Utf8Decoder.debt {} = 0 := rfl
    rw [hzero] at hfresh
    unfold Utf8Decoder.replacing
    rcases hstep : d.step byte with _ | ⟨d', text⟩
    · dsimp only
      split_ifs with howed
      · simp only [List.length_cons]
        omega
      · have hdebt : d.debt = 1 := if_neg howed
        rcases hagain : Utf8Decoder.step {} byte with _ | ⟨d', text⟩
        · simp only [List.length_cons]
          omega
        · have := length_step hagain
          have := ih d'
          simp only [List.length_cons, List.length_append]
          omega
    · have := length_step hstep
      have := ih d'
      simp only [List.length_cons, List.length_append]
      omega

theorem length_encodeSurrogateescape (code : Nat) : 1 ≤ (encodeSurrogateescape code).length := by
  unfold encodeSurrogateescape
  split_ifs <;> simp

/-- A name has no more characters than bytes, as it is and normalized. -/
theorem length_name_le (name : Codes) : name.length ≤ (name.flatMap encodeSurrogateescape).length := by
  induction name with
  | nil => simp
  | cons code name ih =>
    have := length_encodeSurrogateescape code
    simp only [List.flatMap_cons, List.length_append, List.length_cons]
    omega

theorem length_normalizeName_le (name : Codes) :
    (codes (normalizeName name)).length ≤ (name.flatMap encodeSurrogateescape).length := by
  have := length_replacing (name.flatMap encodeSurrogateescape) {}
  simpa [codes, normalizeName, Utf8Decoder.debt] using this

end SeedSync.Lib
