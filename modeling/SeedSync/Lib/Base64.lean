import SeedSync.Lib.Loads

/-!
# URL-safe base64

`base64.urlsafe_b64encode` less its padding, and `base64.urlsafe_b64decode` with the padding that
the length of a text asks for. Bytes and characters are numbers here.
-/

namespace SeedSync.Lib

/-- The character of a number below 64. -/
def sextetCode (n : Nat) : Nat :=
  if n < 26 then 65 + n
  else if n < 52 then 97 + (n - 26)
  else if n < 62 then 48 + (n - 52)
  else if n = 62 then 45 else 95

/-- The number of a character, in the standard alphabet as well as in the URL-safe one. -/
def sextetValue (c : Nat) : Option Nat :=
  if 65 ≤ c ∧ c ≤ 90 then some (c - 65)
  else if 97 ≤ c ∧ c ≤ 122 then some (c - 97 + 26)
  else if 48 ≤ c ∧ c ≤ 57 then some (c - 48 + 52)
  else if c = 45 ∨ c = 43 then some 62
  else if c = 95 ∨ c = 47 then some 63
  else none

/-- `urlsafe_b64encode(bytes).rstrip("=")` -/
def encodeBase64 : List Nat → List Nat
  | [] => []
  | [a] => [sextetCode (a / 4), sextetCode (a % 4 * 16)]
  | [a, b] => [sextetCode (a / 4), sextetCode (a % 4 * 16 + b / 16), sextetCode (b % 16 * 4)]
  | a :: b :: c :: rest =>
    sextetCode (a / 4) :: sextetCode (a % 4 * 16 + b / 16) :: sextetCode (b % 16 * 4 + c / 64) ::
      sextetCode (c % 64) :: encodeBase64 rest

/-- `binascii.a2b_base64`, with the sextets of the open group and the padding seen in it. Characters
outside the alphabet are skipped; `none` is a `binascii.Error`. -/
def decodeGroups : List Nat → List Nat → Nat → Option (List Nat)
  | [], open_, _ => if open_ = [] then some [] else none
  | c :: text, open_, pads =>
    if c = 61 then
      if 2 ≤ open_.length ∧ 4 ≤ open_.length + (pads + 1) then some []
      else decodeGroups text open_ (if 2 ≤ open_.length then pads + 1 else pads)
    else
      match sextetValue c with
      | none => decodeGroups text open_ pads
      | some v =>
        match open_ with
        | [] => decodeGroups text [v] 0
        | [a] => (decodeGroups text [a, v] 0).map fun bytes => (a * 4 + v / 16) :: bytes
        | [a, b] => (decodeGroups text [a, b, v] 0).map fun bytes => (b % 16 * 16 + v / 4) :: bytes
        | [_, _, c] => (decodeGroups text [] 0).map fun bytes => (c % 4 * 64 + v) :: bytes
        | _ => none

/-- `urlsafe_b64decode(text + "=" * (-len(text) % 4))` -/
def decodeBase64 (text : List Nat) : Option (List Nat) :=
  decodeGroups (text ++ List.replicate ((4 - text.length % 4) % 4) 61) [] 0

theorem sextetValue_sextetCode {n : Nat} (h : n < 64) : sextetValue (sextetCode n) = some n := by
  interval_cases n <;> rfl

theorem sextetCode_ne_pad {n : Nat} (h : n < 64) : sextetCode n ≠ 61 := by
  unfold sextetCode
  split_ifs <;> omega

theorem sextetCode_ascii (n : Nat) (h : n < 64) : sextetCode n ≤ 126 := by
  unfold sextetCode
  split_ifs <;> omega

theorem encodeBase64_length (bytes : List Nat) : (encodeBase64 bytes).length = (4 * bytes.length + 2) / 3 := by
  fun_induction encodeBase64 bytes with
  | case1 => rfl
  | case2 => simp
  | case3 => simp
  | case4 a b c rest ih =>
    simp only [List.length_cons, ih]
    omega

theorem encodeBase64_ascii {bytes : List Nat} (h : ∀ b ∈ bytes, b < 256) : ∀ c ∈ encodeBase64 bytes, c ≤ 126 := by
  fun_induction encodeBase64 bytes with
  | case1 => simp
  | case2 a =>
    have ha := h a (by simp)
    simp only [List.forall_mem_cons, List.not_mem_nil, false_imp_iff, implies_true, and_true]
    exact ⟨sextetCode_ascii _ (by omega), sextetCode_ascii _ (by omega)⟩
  | case3 a b =>
    have ha := h a (by simp)
    have hb := h b (by simp)
    simp only [List.forall_mem_cons, List.not_mem_nil, false_imp_iff, implies_true, and_true]
    exact ⟨sextetCode_ascii _ (by omega), sextetCode_ascii _ (by omega), sextetCode_ascii _ (by omega)⟩
  | case4 a b c rest ih =>
    have ha := h a (by simp)
    have hb := h b (by simp)
    have hc := h c (by simp)
    simp only [List.forall_mem_cons]
    exact ⟨sextetCode_ascii _ (by omega), sextetCode_ascii _ (by omega), sextetCode_ascii _ (by omega),
      sextetCode_ascii _ (by omega), ih fun d hd => h d (by simp [hd])⟩

section Groups

variable {n : Nat} (h : n < 64) (text : List Nat) (pads : Nat)
include h

theorem decodeGroups_first : decodeGroups (sextetCode n :: text) [] pads = decodeGroups text [n] 0 := by
  rw [decodeGroups, if_neg (sextetCode_ne_pad h), sextetValue_sextetCode h]

theorem decodeGroups_second (a : Nat) : decodeGroups (sextetCode n :: text) [a] pads =
    (decodeGroups text [a, n] 0).map fun bytes => (a * 4 + n / 16) :: bytes := by
  rw [decodeGroups, if_neg (sextetCode_ne_pad h), sextetValue_sextetCode h]

theorem decodeGroups_third (a b : Nat) : decodeGroups (sextetCode n :: text) [a, b] pads =
    (decodeGroups text [a, b, n] 0).map fun bytes => (b % 16 * 16 + n / 4) :: bytes := by
  rw [decodeGroups, if_neg (sextetCode_ne_pad h), sextetValue_sextetCode h]

theorem decodeGroups_fourth (a b c : Nat) : decodeGroups (sextetCode n :: text) [a, b, c] pads =
    (decodeGroups text [] 0).map fun bytes => (c % 4 * 64 + n) :: bytes := by
  rw [decodeGroups, if_neg (sextetCode_ne_pad h), sextetValue_sextetCode h]

end Groups

/-- Two characters that stand for a byte, and the padding behind them. -/
theorem decodeGroups_two (a b : Nat) : decodeGroups [61, 61] [a, b] 0 = some [] := rfl

theorem decodeGroups_three (a b c : Nat) : decodeGroups [61] [a, b, c] 0 = some [] := rfl

theorem decodeGroups_encode {bytes : List Nat} (h : ∀ b ∈ bytes, b < 256) :
    decodeGroups (encodeBase64 bytes ++ List.replicate ((4 - (encodeBase64 bytes).length % 4) % 4) 61) [] 0 =
      some bytes := by
  fun_induction encodeBase64 bytes with
  | case1 => rfl
  | case2 a =>
    have ha := h a (by simp)
    have hbyte : a / 4 * 4 + a % 4 * 16 / 16 = a := by omega
    change decodeGroups [_, _, 61, 61] [] 0 = _
    rw [decodeGroups_first (by omega), decodeGroups_second (by omega), decodeGroups_two, Option.map_some, hbyte]
  | case3 a b =>
    have ha := h a (by simp)
    have hb := h b (by simp)
    have hfirst : a / 4 * 4 + (a % 4 * 16 + b / 16) / 16 = a := by omega
    have hsecond : (a % 4 * 16 + b / 16) % 16 * 16 + b % 16 * 4 / 4 = b := by omega
    change decodeGroups [_, _, _, 61] [] 0 = _
    rw [decodeGroups_first (by omega), decodeGroups_second (by omega), decodeGroups_third (by omega),
      decodeGroups_three, Option.map_some, Option.map_some, hfirst, hsecond]
  | case4 a b c rest ih =>
    have ha := h a (by simp)
    have hb := h b (by simp)
    have hc := h c (by simp)
    have hfirst : a / 4 * 4 + (a % 4 * 16 + b / 16) / 16 = a := by omega
    have hsecond : (a % 4 * 16 + b / 16) % 16 * 16 + (b % 16 * 4 + c / 64) / 4 = b := by omega
    have hthird : (b % 16 * 4 + c / 64) % 4 * 64 + c % 64 = c := by omega
    have hrest := ih fun d hd => h d (by simp [hd])
    have hpads : (4 - ((encodeBase64 rest).length + 1 + 1 + 1 + 1) % 4) % 4 =
        (4 - (encodeBase64 rest).length % 4) % 4 := by omega
    simp only [List.length_cons, List.cons_append, hpads]
    rw [decodeGroups_first (by omega), decodeGroups_second (by omega), decodeGroups_third (by omega),
      decodeGroups_fourth (by omega), hrest]
    simp only [Option.map_some, hfirst, hsecond, hthird]

/-- The bytes are read back. -/
theorem decodeBase64_encodeBase64 {bytes : List Nat} (h : ∀ b ∈ bytes, b < 256) :
    decodeBase64 (encodeBase64 bytes) = some bytes :=
  decodeGroups_encode h

end SeedSync.Lib
