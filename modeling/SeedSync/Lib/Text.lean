import Mathlib.Data.List.DropRight
import SeedSync.Lib.Json

/-!
# Texts

`str.strip` and `str.split` on the code points of a text.
-/

namespace SeedSync.Lib

/-- The characters that `str.strip` takes off. -/
def isSpace (c : Nat) : Bool :=
  [0x20, 0x85, 0xA0, 0x1680, 0x2028, 0x2029, 0x202F, 0x205F, 0x3000].contains c ||
    (0x09 ≤ c && c ≤ 0x0D) || (0x1C ≤ c && c ≤ 0x1F) || (0x2000 ≤ c && c ≤ 0x200A)

def strip (text : Codes) : Codes := (text.dropWhile isSpace).rdropWhile isSpace

/-- A text without a blank at either end. -/
theorem strip_of_ends {text : Codes} (hhead : ∀ c ∈ text.head?, isSpace c = false)
    (hlast : ∀ c ∈ text.getLast?, isSpace c = false) : strip text = text := by
  have hfront : text.dropWhile isSpace = text := by
    cases text with
    | nil => rfl
    | cons c rest => rw [List.dropWhile_cons_of_neg (by simp [hhead c rfl])]
  rw [strip, hfront]
  cases hrev : text.getLast? with
  | none =>
    rw [List.getLast?_eq_none_iff] at hrev
    subst hrev
    rfl
  | some c =>
    obtain ⟨init, rfl⟩ := List.getLast?_eq_some_iff.1 hrev
    exact List.rdropWhile_concat_neg _ _ _ (by simp [hlast c hrev])

theorem strip_strip (text : Codes) : strip (strip text) = strip text := by
  have hfront : (strip text).dropWhile isSpace = strip text := by
    obtain ⟨rest, hrest⟩ := List.rdropWhile_prefix isSpace (text.dropWhile isSpace)
    change strip text ++ rest = _ at hrest
    cases hstrip : strip text with
    | nil => rfl
    | cons c front =>
      have hhead := List.head?_dropWhile_not isSpace text
      rw [← hrest, hstrip] at hhead
      exact List.dropWhile_cons_of_neg (by simpa using hhead)
  rw [strip, hfront, strip, List.rdropWhile_idempotent]

/-! ## Parts of a text -/

/-- The parts between separators have no separator, and no character that the text has not. -/
theorem splitOn_chars (sep : Nat) (value : Codes) : ∀ line ∈ value.splitOn sep, ∀ c ∈ line, c ≠ sep ∧ c ∈ value := by
  induction value with
  | nil => simp
  | cons d value ih =>
    have hmore : ∀ line ∈ value.splitOn sep, ∀ c ∈ line, c ≠ sep ∧ c ∈ d :: value := fun line hline c hc =>
      ⟨(ih line hline c hc).1, List.mem_cons_of_mem _ (ih line hline c hc).2⟩
    rw [List.splitOn_cons_eq_if_modifyHead]
    by_cases hd : d = sep
    · simpa [hd] using hmore
    · obtain ⟨first, rest, hsplit⟩ := List.exists_cons_of_ne_nil (List.splitOn_ne_nil sep value)
      rw [hsplit] at hmore ⊢
      rw [if_neg (by simpa using hd)]
      intro line hline c hc
      rcases List.mem_cons.mp hline with rfl | hline
      · rcases List.mem_cons.mp hc with rfl | hc
        · exact ⟨hd, List.mem_cons_self⟩
        · exact hmore first List.mem_cons_self c hc
      · exact hmore line (List.mem_cons_of_mem _ hline) c hc

theorem mem_intercalate {sep c : Nat} {parts : List Codes} (h : c ∈ [sep].intercalate parts) :
    c = sep ∨ ∃ part ∈ parts, c ∈ part := by
  induction parts with
  | nil => simp at h
  | cons part parts ih =>
    by_cases hnil : parts = []
    · subst hnil
      exact Or.inr ⟨part, List.mem_cons_self, by simpa using h⟩
    · rw [List.intercalate_cons_of_ne_nil hnil, List.mem_append, List.mem_append] at h
      rcases h with (h | h) | h
      · exact Or.inr ⟨part, List.mem_cons_self, h⟩
      · exact Or.inl (List.mem_singleton.mp h)
      · exact (ih h).imp id fun ⟨other, hother, hmem⟩ => ⟨other, List.mem_cons_of_mem _ hother, hmem⟩

end SeedSync.Lib
