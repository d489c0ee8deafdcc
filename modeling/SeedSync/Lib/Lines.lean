import Mathlib.Data.List.Basic

/-!
# Cutting a text into lines

The text may come in pieces: what follows the last end of line waits for the next one.
-/

namespace SeedSync.Lib

variable {α β : Type} {isEnd : α → Bool}

/-- The lines that an end of line completes, and what follows the last of them. -/
def cutLines (isEnd : α → Bool) : List α → List (List α) × List α
  | [] => ([], [])
  | c :: cs =>
    match isEnd c, cutLines isEnd cs with
    | true, (lines, rest) => ([] :: lines, rest)
    | false, ([], rest) => ([], c :: rest)
    | false, (line :: lines, rest) => ((c :: line) :: lines, rest)

/-- Put an open line in front of what was cut after it. -/
def extendFirst (start : List α) : List (List α) × List α → List (List α) × List α
  | ([], rest) => ([], start ++ rest)
  | (line :: lines, rest) => ((start ++ line) :: lines, rest)

theorem cutLines_append_of_open (isEnd : α → Bool) {start : List α} (h : ∀ c ∈ start, isEnd c = false) (text : List α) :
    cutLines isEnd (start ++ text) = extendFirst start (cutLines isEnd text) := by
  induction start with
  | nil =>
    rw [List.nil_append]
    rcases cutLines isEnd text with ⟨_ | ⟨line, lines⟩, rest⟩ <;> rfl
  | cons c start ih =>
    rw [List.cons_append, cutLines, h c List.mem_cons_self, ih fun c hc => h c (List.mem_cons_of_mem _ hc)]
    rcases cutLines isEnd text with ⟨_ | ⟨line, lines⟩, rest⟩ <;> rfl

theorem cutLines_of_open {text : List α} (h : ∀ c ∈ text, isEnd c = false) : cutLines isEnd text = ([], text) := by
  have := cutLines_append_of_open isEnd h []
  simpa [cutLines, extendFirst] using this

theorem cutLines_line {line : List α} {last : α} (hline : ∀ c ∈ line, isEnd c = false) (hlast : isEnd last = true)
    (text : List α) : cutLines isEnd (line ++ last :: text) =
      (line :: (cutLines isEnd text).1, (cutLines isEnd text).2) := by
  rw [cutLines_append_of_open isEnd hline, cutLines, hlast]
  simp [extendFirst]

theorem cutLines_open (isEnd : α → Bool) (text : List α) : ∀ c ∈ (cutLines isEnd text).2, isEnd c = false := by
  induction text with
  | nil => simp [cutLines]
  | cons c text ih =>
    rw [cutLines]
    rcases hend : isEnd c with _ | _
    · rcases hcut : cutLines isEnd text with ⟨_ | ⟨line, lines⟩, rest⟩
      · rw [hcut] at ih
        intro d hd
        rcases List.mem_cons.mp hd with rfl | hd
        · exact hend
        · exact ih d hd
      · rw [hcut] at ih
        exact ih
    · exact ih

theorem cutLines_lines (isEnd : α → Bool) (text : List α) :
    ∀ line ∈ (cutLines isEnd text).1, ∀ c ∈ line, isEnd c = false ∧ c ∈ text := by
  induction text with
  | nil => simp [cutLines]
  | cons c text ih =>
    have hmore : ∀ line ∈ (cutLines isEnd text).1, ∀ d ∈ line, isEnd d = false ∧ d ∈ c :: text := fun line hline d hd =>
      ⟨(ih line hline d hd).1, List.mem_cons_of_mem _ (ih line hline d hd).2⟩
    rw [cutLines]
    rcases hend : isEnd c with _ | _
    · rcases hcut : cutLines isEnd text with ⟨_ | ⟨line, lines⟩, rest⟩
      · simp
      · rw [hcut] at hmore
        intro other hother
        rcases List.mem_cons.mp hother with rfl | hother
        · intro d hd
          rcases List.mem_cons.mp hd with rfl | hd
          · exact ⟨hend, List.mem_cons_self⟩
          · exact hmore line List.mem_cons_self d hd
        · exact hmore other (List.mem_cons_of_mem _ hother)
    · intro other hother
      rcases List.mem_cons.mp hother with rfl | hother
      · simp
      · exact hmore other hother

/-- A text that goes on: the open line goes on with it. -/
theorem cutLines_append (isEnd : α → Bool) (text more : List α) :
    cutLines isEnd (text ++ more) =
      ((cutLines isEnd text).1 ++ (cutLines isEnd ((cutLines isEnd text).2 ++ more)).1,
        (cutLines isEnd ((cutLines isEnd text).2 ++ more)).2) := by
  induction text with
  | nil => simp [cutLines]
  | cons c text ih =>
    rw [List.cons_append, cutLines, ih, cutLines]
    rcases hend : isEnd c with _ | _
    · rcases hcut : cutLines isEnd text with ⟨_ | ⟨line, lines⟩, rest⟩
      · have hopen : ∀ d ∈ [c], isEnd d = false := by simp [hend]
        have hc := cutLines_append_of_open isEnd hopen (rest ++ more)
        simp only [List.nil_append, List.cons_append] at hc ⊢
        rw [hc]
        rcases cutLines isEnd (rest ++ more) with ⟨_ | ⟨line, lines⟩, rest⟩ <;> rfl
      · rfl
    · rfl

theorem mem_of_cutLines (isEnd : α → Bool) (text : List α) : ∀ c ∈ (cutLines isEnd text).2, c ∈ text := by
  induction text with
  | nil => simp [cutLines]
  | cons c text ih =>
    rw [cutLines]
    rcases isEnd c with _ | _
    · rcases hcut : cutLines isEnd text with ⟨_ | ⟨line, lines⟩, rest⟩
      · rw [hcut] at ih
        intro d hd
        rcases List.mem_cons.mp hd with rfl | hd
        · exact List.mem_cons_self
        · exact List.mem_cons_of_mem _ (ih d hd)
      · rw [hcut] at ih
        exact fun d hd => List.mem_cons_of_mem _ (ih d hd)
    · exact fun d hd => List.mem_cons_of_mem _ (ih d hd)

/-- Lines with their ends are cut into the lines. -/
theorem cutLines_flatMap {last : α} (hlast : isEnd last = true) (lines : List (List α))
    (hlines : ∀ line ∈ lines, ∀ c ∈ line, isEnd c = false) :
    cutLines isEnd (lines.flatMap (· ++ [last])) = (lines, []) := by
  induction lines with
  | nil => rfl
  | cons line lines ih =>
    rw [List.flatMap_cons, List.append_assoc, List.singleton_append,
      cutLines_line (hlines line List.mem_cons_self) hlast, ih fun l hl => hlines l (List.mem_cons_of_mem _ hl)]

/-- What is cut from a beginning of the text is cut from the text; the open line begins the next one. -/
theorem cutLines_of_append_eq {text more : List α} {lines : List (List α)}
    (h : cutLines isEnd (text ++ more) = (lines, [])) :
    ∃ rest, lines = (cutLines isEnd text).1 ++ rest ∧
      ((cutLines isEnd text).2 ≠ [] → ∃ line ∈ lines, (cutLines isEnd text).2 <+: line) := by
  rw [cutLines_append, Prod.mk.injEq] at h
  obtain ⟨hlines, hrest⟩ := h
  refine ⟨_, hlines.symm, fun hne => ?_⟩
  rw [cutLines_append_of_open isEnd (cutLines_open isEnd text)] at hlines hrest
  rcases hcut : cutLines isEnd more with ⟨_ | ⟨line, more'⟩, rest⟩
  · rw [hcut] at hrest
    exact absurd (List.append_eq_nil_iff.mp hrest).1 hne
  · rw [hcut] at hlines
    exact ⟨_, hlines ▸ List.mem_append_right _ List.mem_cons_self, List.prefix_append _ _⟩

theorem cutLines_map (isEnd' : β → Bool) {f : α → β} {text : List α} (h : ∀ c ∈ text, isEnd' (f c) = isEnd c) :
    cutLines isEnd' (text.map f) = ((cutLines isEnd text).1.map (List.map f), (cutLines isEnd text).2.map f) := by
  induction text with
  | nil => rfl
  | cons c text ih =>
    rw [List.map_cons, cutLines, cutLines, h c List.mem_cons_self, ih fun d hd => h d (List.mem_cons_of_mem _ hd)]
    rcases isEnd c with _ | _
    · rcases cutLines isEnd text with ⟨_ | ⟨line, lines⟩, rest⟩ <;> rfl
    · rfl

end SeedSync.Lib
