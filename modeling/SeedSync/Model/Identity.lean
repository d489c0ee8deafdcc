import SeedSync.Lib.Rereads

/-!
# The text of a file id

Strings of Python by their code points, and the text that `ModelFile.build_file_id` makes of a path
and a path pair.
-/

namespace SeedSync.Identity

open Lib

/-- A string of Python, by its code points. -/
structure Str where
  codes : Codes
  valid : IsText codes
  deriving DecidableEq, Repr

namespace Str

def ofCodes? (codes : Codes) : Option Str := if h : IsText codes then some ⟨codes, h⟩ else none

/-- `text[:n]` -/
def take (s : Str) (n : Nat) : Str := ⟨s.codes.take n, fun c hc => s.valid c (List.mem_of_mem_take hc)⟩

/-- `text[n:]` -/
def drop (s : Str) (n : Nat) : Str := ⟨s.codes.drop n, fun c hc => s.valid c (List.mem_of_mem_drop hc)⟩

/-- No two surrogates in it stand for one character. -/
def Joined (s : Str) : Prop := joinCodes s.codes = s.codes

instance : DecidablePred Joined := fun s => inferInstanceAs (Decidable (joinCodes s.codes = s.codes))

/-- The string with its surrogate pairs made characters. -/
def joined (s : Str) : Str := ⟨joinCodes s.codes, isText_joinCodes s.valid⟩

theorem joined_eq {s : Str} : s.joined = s ↔ s.Joined := by
  unfold joined Joined
  cases s
  simp

@[simp] theorem ofCodes?_codes (s : Str) : ofCodes? s.codes = some s := dif_pos s.valid

end Str

/-! ## Canonical ids -/

/-- `json.dumps([pair, path], separators=(",", ":"))` -/
def idText (pair path : Codes) : Codes := (Json.list [.str pair, .str path]).write .compact 0

theorem idText_eq (pair path : Codes) :
    idText pair path = 91 :: (asCodes (quoted pair) ++ 44 :: (asCodes (quoted path) ++ [93])) := by
  simp [idText, Json.write, Json.writeItems, Layout.compact]

theorem idText_small (pair path : Codes) : ∀ c ∈ idText pair path, c ≤ 126 := Json.write_small .compact _ 0

theorem idText_joinCodes (pair path : Codes) : idText (joinCodes pair) (joinCodes path) = idText pair path := by
  simp only [idText_eq, quoted_joinCodes]

theorem loads_idText {pair path : Codes} (hpair : IsText pair) (hpath : IsText path) :
    loads (idText pair path) = some (.list [.str (joinCodes pair), .str (joinCodes path)]) :=
  Json.loads_write .compact _ ⟨hpair, hpath, trivial⟩

/-- `ModelFile.build_file_id` -/
def buildFileId (fullPath : Str) : Option Str → Str
  | none => fullPath
  | some pair => ⟨idText pair.codes fullPath.codes, fun c hc => by have := idText_small _ _ c hc; omega⟩

end SeedSync.Identity
