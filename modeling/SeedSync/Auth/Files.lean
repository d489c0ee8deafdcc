import SeedSync.Lib.Disk
import SeedSync.Lib.Rereads
import SeedSync.Lib.Text
import SeedSync.System.File

/-!
# The files of the authentication store

A JSON file is what `json.loads` makes of its text and the length of that text, its objects with
the pairs as they stand. The history is such a text on each line. The files are made by one user
under a umask that lets no one else write, so modes and owners are not modelled.
-/

namespace SeedSync.Auth

open Lib

/-! ## Times -/

/-- What the store takes from `datetime`. A time of its own is in microseconds of UTC. -/
structure DateTimes where
  /-- `value.isoformat(timespec="seconds")` -/
  isoformat : Timestamp → Codes
  /-- `datetime.fromisoformat(text)`; `none` is a `ValueError` -/
  fromisoformat : Codes → Option Timestamp
  /-- A time of UTC is read back without what follows its seconds. -/
  reads : ∀ now : Int, fromisoformat (isoformat ⟨now, some 0⟩) = some ⟨now / 1000000 * 1000000, some 0⟩
  /-- The text shows nothing of what follows the seconds. -/
  shows : ∀ now : Int, isoformat ⟨now / 1000000 * 1000000, some 0⟩ = isoformat ⟨now, some 0⟩

def seconds (n : Int) : Int := n * 1000000

def DateTimes.utc (dates : DateTimes) (now : Int) : Codes := dates.isoformat ⟨now, some 0⟩

/-- The time that a text read with `fromisoformat` stands for; `none` for a text without an offset. -/
def instant (time : Timestamp) : Option Int := time.utcoffset.map fun offset => time.wall - offset

/-- The text of a second of the first hour of 2024. -/
def newYearText (second : Nat) : Codes :=
  codes "2024-01-01T00:" ++ [48 + second / 600, 48 + second / 60 % 10, 58, 48 + second % 60 / 10, 48 + second % 60 % 10] ++
    codes "+00:00"

def newYearSecond (text : Codes) : Nat :=
  match text.drop 14 with
  | a :: b :: _ :: c :: d :: _ => ((a - 48) * 10 + (b - 48)) * 60 + ((c - 48) * 10 + (d - 48))
  | _ => 0

theorem newYearSecond_text {second : Nat} (h : second < 3600) : newYearSecond (newYearText second) = second := by
  have hdrop : (newYearText second).drop 14 = [48 + second / 600, 48 + second / 60 % 10, 58, 48 + second % 60 / 10,
      48 + second % 60 % 10] ++ codes "+00:00" := by
    have hlength : (codes "2024-01-01T00:").length = 14 := by decide
    rw [newYearText, List.append_assoc, List.drop_append_of_le_length (by omega), List.drop_of_length_le (by omega),
      List.nil_append]
  rw [newYearSecond, hdrop]
  simp only [List.cons_append, List.nil_append]
  omega

theorem newYearSecond_toNat {second : Int} (h : 0 ≤ second ∧ second < 3600) :
    newYearSecond (newYearText second.toNat) = second.toNat :=
  newYearSecond_text (by omega)

/-- Dates from the start of 2024. Past the first hour the texts are none that a `datetime` has. -/
def newYearDates : DateTimes where
  isoformat time :=
    let second := time.wall / 1000000
    if 0 ≤ second ∧ second < 3600 then newYearText second.toNat else 35 :: asCodes (decimalInt second)
  fromisoformat text :=
    if text.head? = some 35 then
      some ⟨signed (readSign text.tail).1 (digitsValue (readSign text.tail).2) * 1000000, some 0⟩
    else if newYearText (newYearSecond text) = text then some ⟨newYearSecond text * 1000000, some 0⟩
    else none
  reads now := by
    dsimp only
    by_cases h : 0 ≤ now / 1000000 ∧ now / 1000000 < 3600
    · have hhead : (newYearText (now / 1000000).toNat).head? ≠ some 35 := by simp [newYearText, codes]
      rw [if_pos h, if_neg hhead, newYearSecond_toNat h, if_pos rfl, Int.toNat_of_nonneg h.1]
    · have hsign := readSign_decimalInt (now / 1000000) []
      rw [List.append_nil, List.append_nil] at hsign
      rw [if_neg h, List.head?_cons, if_pos rfl, List.tail_cons, hsign, digitsValue_decimal, signed_natAbs]
  shows now := by
    dsimp only
    rw [Int.mul_ediv_cancel _ (by decide)]

/-! ## Documents -/

/-- A JSON file: its value and its length. -/
structure Doc where
  value : Json
  bytes : Nat

/-- The file of `json.dumps(value, indent=2)` -/
def Doc.indented (value : Json) : Doc := ⟨value, (value.write (Layout.indented 2) 0).length⟩

/-- The file of `json.dumps(value, separators=(",", ":"))` -/
def Doc.compact (value : Json) : Doc := ⟨value, value.dumps.length⟩

/-- The last pair of a key wins, as in a `dict` made of the pairs. -/
def field (fields : List (Codes × Json)) (key : String) : Json := (fields.reverse.lookup (codes key)).getD .null

def hasField (fields : List (Codes × Json)) (key : String) : Bool := (fields.map Prod.fst).contains (codes key)

/-- `set(payload) == keys` -/
def hasKeys (fields : List (Codes × Json)) (keys : List String) : Bool :=
  (fields.map Prod.fst).all (fun key => (keys.map codes).contains key) && keys.all (hasField fields)

mutual
/-- `_strict_json_object`: no object of the text has a key twice. -/
def strict : Json → Bool
  | .list items => strictItems items
  | .obj fields => decide (fields.map Prod.fst).Nodup && strictFields fields
  | _ => true

def strictItems : List Json → Bool
  | [] => true
  | item :: items => strict item && strictItems items

def strictFields : List (Codes × Json) → Bool
  | [] => true
  | (_, value) :: fields => strict value && strictFields fields
end

/-- The history: what is on each line that ends, `none` for what is no JSON, and whether a line
without an end follows. -/
structure History where
  lines : List (Option Json) := []
  torn : Bool := false
  bytes : Nat := 0

def lineBytes (line : Json) : Nat := line.dumpsSpaced.length + 1

/-- Write a line at the end. -/
def History.append (history : History) (line : Json) : History :=
  { lines := history.lines ++ [if history.torn then none else some line]
    torn := false
    bytes := history.bytes + lineBytes line }

/-- Write the first bytes of a line. -/
def History.appendPart (history : History) (line : Json) (part : Nat) : History :=
  if part = 0 then history
  else if lineBytes line ≤ part then history.append line
  else { history with torn := true, bytes := history.bytes + part }

def appendHistory (history : Option History) (line : Json) : Option History := some ((history.getD {}).append line)

def appendHistoryPart (history : Option History) (line : Json) (part : Nat) : Option History :=
  some ((history.getD {}).appendPart line part)

/-! ## Checks of the readers -/

/-- `_valid_completed_migration_timestamp` -/
def validCompletedMigrationTimestamp (dates : DateTimes) : Json → Bool
  | .str text =>
    match dates.fromisoformat text with
    | some time => decide (time.utcoffset = some 0) && decide (text = dates.isoformat time)
    | none => false
  | _ => false

theorem valid_utc (dates : DateTimes) (now : Int) :
    validCompletedMigrationTimestamp dates (.str (dates.utc now)) = true := by
  simp [validCompletedMigrationTimestamp, DateTimes.utc, dates.reads, dates.shows]

/-- `value == text` -/
def isStr (text : Codes) : Json → Bool
  | .str value => decide (value = text)
  | _ => false

def completedMigrationAuthMaxBytes : Nat := 64 * 1024

def completedMigrationHistoryMaxBytes : Nat := 1024 * 1024

/-- `api-keys.json` -/
def storeName : Codes := codes "api-keys.json"

end SeedSync.Auth
