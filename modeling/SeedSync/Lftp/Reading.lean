import SeedSync.Lftp.Queue
import SeedSync.Lftp.Rows

/-!
# What is read of a quoted path

A path in quotes is read up to the last quote from which the rest of the row can be read, with the
backslashes that it was quoted with.
-/

namespace SeedSync.Lftp

open Lib Sidecar Matcher

/-! ## Quotes and backslashes -/

def isMark (c : Nat) : Bool := c == 34 || c == 92

/-- The number of quotes and backslashes. -/
def marks (text : Codes) : Nat := text.countP isMark

@[simp] theorem marks_append (a b : Codes) : marks (a ++ b) = marks a + marks b := List.countP_append

theorem marks_cons (c : Nat) (text : Codes) : marks (c :: text) = marks text + if isMark c then 1 else 0 := List.countP_cons

theorem escape_mark {c : Nat} (h : isMark c = true) (rest : Codes) :
    escapeArgument (c :: rest) = 92 :: c :: escapeArgument rest := by
  obtain rfl | rfl : c = 34 ∨ c = 92 := by simpa [isMark] using h
  · rfl
  · rfl

theorem escape_plain {c : Nat} (h : isMark c = false) (rest : Codes) :
    escapeArgument (c :: rest) = c :: escapeArgument rest := by
  obtain ⟨hquote, hslash⟩ : c ≠ 34 ∧ c ≠ 92 := by simpa [isMark] using h
  simp [escapeArgument, hquote, hslash]

theorem escape_ne_nil {value : Codes} (h : value ≠ []) : escapeArgument value ≠ [] := by
  cases value with
  | nil => exact absurd rfl h
  | cons c rest => cases hc : isMark c <;> simp [escape_mark, escape_plain, hc]

theorem marks_escape (value : Codes) : marks (escapeArgument value) = 2 * marks value := by
  induction value with
  | nil => rfl
  | cons c rest ih =>
    cases hc : isMark c with
    | true =>
      rw [escape_mark hc, marks_cons, marks_cons, marks_cons, ih, hc, show isMark 92 = true from rfl, if_pos rfl]
      omega
    | false =>
      rw [escape_plain hc, marks_cons, marks_cons, ih]
      simp [hc]

theorem escape_of_no_marks {value : Codes} (h : marks value = 0) : escapeArgument value = value := by
  induction value with
  | nil => rfl
  | cons c rest ih =>
    rw [marks_cons] at h
    have hc : isMark c = false := by
      by_contra hmark
      rw [if_pos (by simpa using hmark)] at h
      omega
    rw [escape_plain hc, ih (by omega)]

theorem not_mark_of_space {c : Nat} (h : isSpace c = true) : isMark c = false := by
  cases hmark : isMark c with
  | false => rfl
  | true =>
    obtain rfl | rfl : c = 34 ∨ c = 92 := by simpa [isMark] using hmark
    · exact absurd h (by decide)
    · exact absurd h (by decide)

theorem marks_dropWhile (text : Codes) : marks (text.dropWhile isSpace) = marks text := by
  induction text with
  | nil => rfl
  | cons c rest ih =>
    by_cases hc : isSpace c = true
    · rw [List.dropWhile_cons_of_pos hc, ih, marks_cons, not_mark_of_space hc]
      simp
    · rw [List.dropWhile_cons_of_neg hc]

theorem marks_reverse (text : Codes) : marks text.reverse = marks text := List.countP_reverse

theorem marks_strip (text : Codes) : marks (strip text) = marks text := by
  unfold strip List.rdropWhile
  rw [marks_reverse, marks_dropWhile, marks_reverse, marks_dropWhile]

/-- A path is read back when it has neither. -/
theorem strip_escape_iff {value : Codes} :
    strip (escapeArgument value) = value ↔ strip value = value ∧ marks value = 0 := by
  constructor
  · intro h
    have hmarks : marks value = 0 := by
      have := congrArg marks h
      rw [marks_strip, marks_escape] at this
      omega
    rw [escape_of_no_marks hmarks] at h
    exact ⟨h, hmarks⟩
  · rintro ⟨hstrip, hmarks⟩
    rw [escape_of_no_marks hmarks, hstrip]

/-- Not where more than it is read. -/
theorem strip_longer_ne (value more : Codes) : strip (escapeArgument value ++ 34 :: more) ≠ value := by
  intro h
  have := congrArg marks h
  rw [marks_strip, marks_append, marks_escape, marks_cons] at this
  simp [isMark] at this
  omega

/-! ## Paths in quotes -/

section

variable {β : Type} {f : Codes → Matcher Nat β} {path rest : Codes}

theorem find_marked {text : Codes} :
    find (quotedPath >>= f) (34 :: text) =
      (find (some1 inLine >>= fun path => lit [34] >>= fun _ => f path) text).or
        (find (some1 inLine >>= fun path => lit [] >>= fun _ => f path) (34 :: text)) := by
  unfold quotedPath quoteMark
  simp only [bind_assoc, pure_bind]
  rw [find_orElse_bind]
  simp only [bind_assoc, pure_bind]
  rw [find_one_bind (by decide)]

theorem find_quotedPath (hne : path ≠ []) (hline : ∀ c ∈ path ++ 34 :: rest, inLine c = true)
    (h : (find (f path) rest).isSome) :
    ∃ more v, 34 :: rest = more ++ 34 :: v ∧
      find (quotedPath >>= f) (34 :: (path ++ 34 :: rest)) = find (f (path ++ more)) v ∧
      (find (f (path ++ more)) v).isSome ∧
      ∀ more' v', 34 :: rest = more' ++ 34 :: v' → more.length < more'.length → find (f (path ++ more')) v' = none := by
  have hgoes : (find (lit [34] >>= fun _ => f path) (34 :: rest)).isSome := by
    change (find (lit [34] >>= fun _ => f path) ([34] ++ rest)).isSome
    rwa [find_lit_bind]
  have hpath : ∀ c ∈ path, inLine c = true := fun c hc => hline c (by simp [hc])
  obtain ⟨more, v, hsplit, hlongest⟩ :=
    @exists_longest _ _ _ (fun path => lit [34] >>= fun _ => f path) (path ++ 34 :: rest) _ _ rfl hpath hgoes
  obtain ⟨v', rfl, hfound⟩ := find_lit_bind_some hlongest.goesOn
  refine ⟨more, v', hsplit, ?_, hfound, ?_⟩
  · rw [find_marked, find_some1 hlongest (by simp [hne])]
    rw [Option.or_of_isSome hlongest.goesOn]
    exact find_lit_bind [34]
  · intro more' u hsplit' hlonger
    have hlast := hlongest.last (path ++ more') (34 :: u) (by simp [hsplit'])
      (fun c hc => hline c (by rw [hsplit']; simp at hc ⊢; tauto)) (by simpa using hlonger)
    change find (lit [34] >>= fun _ => f (path ++ more')) ([34] ++ u) = none at hlast
    rwa [find_lit_bind] at hlast

/-- The path alone is read where no later quote closes it. -/
theorem find_quotedPath_exact (hne : path ≠ []) (hline : ∀ c ∈ path ++ 34 :: rest, inLine c = true)
    (h : (find (f path) rest).isSome)
    (hlast : ∀ u v, rest = u ++ 34 :: v → find (f (path ++ 34 :: u)) v = none) :
    find (quotedPath >>= f) (34 :: (path ++ 34 :: rest)) = find (f path) rest := by
  obtain ⟨more, v, hsplit, hfind, hfound, -⟩ := find_quotedPath hne hline h
  cases more with
  | nil =>
    obtain rfl : rest = v := by simpa using hsplit
    simpa using hfind
  | cons c more =>
    obtain ⟨rfl, hrest⟩ : 34 = c ∧ rest = more ++ 34 :: v := by simpa using hsplit
    rw [hlast more v hrest] at hfound
    cases hfound

/-- More than the path is read where a later quote closes it. -/
theorem find_quotedPath_longer (hne : path ≠ []) (hline : ∀ c ∈ path ++ 34 :: rest, inLine c = true)
    (h : (find (f path) rest).isSome) {u v : Codes} (hsplit : rest = u ++ 34 :: v)
    (hlater : (find (f (path ++ 34 :: u)) v).isSome) :
    ∃ u v, find (quotedPath >>= f) (34 :: (path ++ 34 :: rest)) = find (f (path ++ 34 :: u)) v ∧
      (find (f (path ++ 34 :: u)) v).isSome := by
  obtain ⟨more, v', hmore, hfind, hfound, hlast⟩ := find_quotedPath hne hline h
  cases more with
  | nil =>
    have hnone := hlast (34 :: u) v (by simp [hsplit]) (by simp)
    rw [hnone] at hlater
    cases hlater
  | cons c more =>
    obtain ⟨rfl, -⟩ : 34 = c ∧ rest = more ++ 34 :: v' := by simpa using hmore
    exact ⟨more, v', hfind, hfound⟩

/-- Where the rest of the row can be read just from the texts that are `Ends`. -/
theorem find_quotedPath_ends {Ends : Codes → Prop} (hne : path ≠ [])
    (hline : ∀ c ∈ path ++ 34 :: rest, inLine c = true) (hrest : Ends rest)
    (hends : ∀ remote u v, 34 :: rest = u ++ 34 :: v → ((find (f remote) v).isSome ↔ Ends v)) :
    ∃ remote v, find (quotedPath >>= f) (34 :: (path ++ 34 :: rest)) = find (f remote) v ∧
      (find (f remote) v).isSome ∧
      ((∃ u v, rest = u ++ 34 :: v ∧ Ends v) → ∃ more, remote = path ++ 34 :: more) ∧
      ((¬ ∃ u v, rest = u ++ 34 :: v ∧ Ends v) → remote = path ∧ v = rest) := by
  have hgo : (find (f path) rest).isSome := (hends path [] rest rfl).2 hrest
  by_cases hlater : ∃ u v, rest = u ++ 34 :: v ∧ Ends v
  · obtain ⟨u, v, hsplit, hv⟩ := hlater
    have hfound := (hends (path ++ 34 :: u) (34 :: u) v (by simp [hsplit])).2 hv
    obtain ⟨u', v', hfind, hfound⟩ := find_quotedPath_longer hne hline hgo hsplit hfound
    exact ⟨_, v', hfind, hfound, fun _ => ⟨u', rfl⟩, fun hnot => absurd ⟨u, v, hsplit, hv⟩ hnot⟩
  · have hlast : ∀ u v, rest = u ++ 34 :: v → find (f (path ++ 34 :: u)) v = none := by
      intro u v hsplit
      rw [← Option.not_isSome_iff_eq_none, hends _ (34 :: u) v (by simp [hsplit])]
      exact fun hv => hlater ⟨u, v, hsplit, hv⟩
    exact ⟨path, rest, find_quotedPath_exact hne hline hgo hlast, hgo, fun h => absurd h hlater, fun _ => ⟨rfl, rfl⟩⟩

end

/-! ## The row of a file -/

/-- Where a quoted remote path may end, as an expression for the local path follows. -/
def IsOutput (text : Codes) : Prop :=
  ∃ gap gap' rest, text = gap ++ (codes "-o" ++ (gap' ++ rest)) ∧ gap ≠ [] ∧ gap' ≠ [] ∧
    (∀ c ∈ gap, isSpace c = true) ∧ ∀ c ∈ gap', isSpace c = true

theorem lineEnd_mem : ((), []) ∈ lineEnd [] := List.mem_singleton_self _

/-- To the end of the line a path needs no quotes. -/
theorem quotedPath_mem {text : Codes} (hne : text ≠ []) (hline : ∀ c ∈ text, inLine c = true) :
    (text, []) ∈ quotedPath text := by
  have hmark : ([], text) ∈ quoteMark text := List.mem_append_right _ (pure_mem _)
  have hpath : (text, []) ∈ some1 inLine text := by simpa using some1_mem (v := []) hne hline
  exact bind_mem hmark (bind_mem hpath (bind_mem (lit_mem []) (pure_mem _)))

theorem head_stop {text : Codes} (h : text.head?.any isSpace = false) : ∀ c ∈ text.head?, isSpace c = false := by
  intro c hc
  rw [hc] at h
  exact h

/-- The text ends with a quote, as a row does. -/
def EndsQuoted (text : Codes) : Prop := ∀ c ∈ text.getLast?, c = 34

theorem EndsQuoted.suffix {front text : Codes} (h : EndsQuoted (front ++ text)) : EndsQuoted text := by
  intro c hc
  apply h
  rw [List.getLast?_append, hc]
  rfl

theorem EndsQuoted.ne_nil {gap rest : Codes} (h : EndsQuoted (gap ++ rest)) (hne : gap ≠ [])
    (hgap : ∀ c ∈ gap, isSpace c = true) : rest ≠ [] := by
  rintro rfl
  rw [List.append_nil] at h
  have hlast := h _ (List.getLast?_eq_some_getLast hne)
  have hspace := hgap _ (List.getLast_mem hne)
  rw [hlast] at hspace
  exact absurd hspace (by decide)

theorem pgetOutput_isSome_iff {text : Codes} (hline : ∀ c ∈ text, inLine c = true) (hlast : EndsQuoted text) :
    (find pgetOutput text).isSome ↔ IsOutput text := by
  rw [find_isSome_iff]
  constructor
  · rintro ⟨read, hread⟩
    obtain ⟨gap, hgap, hread⟩ := mem_bind hread
    obtain ⟨hsplit, hne, hall⟩ := mem_some1 hgap
    obtain ⟨option, hoption, hread⟩ := mem_bind hread
    obtain ⟨gap', hgap', -⟩ := mem_bind hread
    obtain ⟨hsplit', hne', hall'⟩ := mem_some1 hgap'
    exact ⟨gap.1, gap'.1, gap'.2, by rw [hsplit, mem_lit hoption, hsplit'], hne, hne', hall, hall'⟩
  · rintro ⟨gap, gap', rest, rfl, hne, hne', hall, hall'⟩
    have hrest : rest ≠ [] := hlast.suffix.suffix.ne_nil hne' hall'
    refine ⟨(rest, []), bind_mem (some1_mem hne hall) (bind_mem (lit_mem _) (bind_mem (some1_mem hne' hall') ?_))⟩
    refine bind_mem (quotedPath_mem hrest fun c hc => hline c (by simp [hc])) ?_
    exact bind_mem lineEnd_mem (pure_mem _)

variable {β : Type} {py : Decimals}

theorem find_map {α β : Type} (m : Matcher Nat α) (g : α → β) (text : Codes) :
    find (m >>= fun a => pure (g a)) text = (find m text).map fun read => (g read.1, read.2) := by
  rw [find_bind, find]
  cases m text <;> rfl

/-- What follows the remote path of an accepted command is read to its end. -/
theorem find_target {destination : Codes} (hne : destination ≠ [])
    (hline : ∀ c ∈ escapeArgument destination, inLine c = true) :
    find (quotedPath >>= fun localPath => lineEnd >>= fun _ => pure localPath) (quotedArgument destination) =
      some (escapeArgument destination, []) := by
  apply find_quotedPath_exact (escape_ne_nil hne)
  · intro c hc
    rcases List.mem_append.1 hc with hc | hc
    · exact hline c hc
    · rw [List.mem_singleton.1 hc]
      rfl
  · rfl
  · intro u v hsplit
    simp at hsplit

theorem pgetOutput_row {destination : Codes} (hne : destination ≠ [])
    (hline : ∀ c ∈ escapeArgument destination, inLine c = true) :
    find pgetOutput (codes " -o " ++ quotedArgument destination) = some (escapeArgument destination, []) := by
  unfold pgetOutput blanks
  rw [show codes " -o " ++ quotedArgument destination = [32] ++ (codes "-o" ++ ([32] ++ quotedArgument destination)) from rfl]
  apply find_some1_block (by simp) (by decide) (head_stop rfl)
  rw [find_lit_bind]
  exact find_some1_block (by simp) (by decide) (head_stop rfl) (find_target hne hline)

/-- The number that a row begins with, and the blanks behind its dot. -/
structure RowNumber (py : Decimals) where
  digits : Codes
  gap : Codes
  nonempty : digits ≠ []
  digit : ∀ c ∈ digits, isDigit py c = true
  spaced : gap ≠ []
  blank : ∀ c ∈ gap, isSpace c = true

def RowNumber.text (n : RowNumber py) : Codes := n.digits ++ 46 :: n.gap

theorem find_rowId {f : Codes → Matcher Nat β} {rest : Codes} {r : β × Codes} (n : RowNumber py)
    (hstop : ∀ c ∈ rest.head?, isSpace c = false) (h : find (f n.digits) rest = some r) :
    find (rowId py >>= f) (n.text ++ rest) = some r := by
  unfold rowId blanks
  simp only [bind_assoc, pure_bind]
  rw [show n.text ++ rest = n.digits ++ (codes "." ++ (n.gap ++ rest)) by simp [RowNumber.text]; rfl]
  have hdot : ∀ c ∈ (codes "." ++ (n.gap ++ rest)).head?, isDigit py c = false := by
    rintro c ⟨⟩
    exact not_digit (by decide)
  apply find_some1_block n.nonempty n.digit hdot
  rw [find_lit_bind]
  exact find_some1_block n.spaced n.blank hstop h

/-- The flags of an accepted command are `-c`, and options only in front of a folder. -/
theorem find_flags {f : Codes → Matcher Nat β} {rest : Codes} {r : β × Codes}
    (h : find (f (codes "-c")) (34 :: rest) = some r) :
    find (blanks >>= fun _ => reluctant inLine >>= fun flags => blanks >>= fun _ => f flags)
      (codes " -c " ++ 34 :: rest) = some r := by
  unfold blanks
  rw [show codes " -c " ++ 34 :: rest = [32] ++ (codes "-c" ++ ([32] ++ 34 :: rest)) from rfl]
  apply find_some1_block (by simp) (by decide) (head_stop rfl)
  apply find_reluctant (by decide)
  · intro u v hsplit hne
    apply find_some1_none
    intro c hc
    have hmem : c ∈ codes "-c" := by
      rw [hsplit]
      obtain ⟨d, v, rfl⟩ := List.exists_cons_of_ne_nil hne
      simp at hc
      simp [hc]
    have hnone : ∀ c ∈ codes "-c", isSpace c = false := by decide
    exact hnone c hmem
  · exact find_some1_block (by simp) (by decide) (head_stop rfl) h

def getWord (useGet : Bool) : Codes := if useGet then codes "get" else codes "pget"

theorem find_queuePgetRow {rest : Codes} {useGet : Bool} {r : PgetMatch × Codes} (n : RowNumber py)
    (h : find (pgetPaths n.digits (getWord useGet) (codes "-c")) (34 :: rest) = some r) :
    find (queuePgetRow py) (n.text ++ (getWord useGet ++ (codes " -c " ++ 34 :: rest))) = some r := by
  unfold queuePgetRow
  have hgo := find_flags (f := pgetPaths n.digits (getWord useGet)) h
  cases useGet with
  | false =>
    apply find_rowId n (head_stop rfl)
    rw [find_orElse_bind]
    simp only [bind_assoc, pure_bind]
    rw [show getWord false = codes "pget" from rfl, find_lit_bind]
    exact (congrArg (Option.or · _) hgo).trans rfl
  | true =>
    apply find_rowId n (head_stop rfl)
    rw [find_orElse_bind]
    simp only [bind_assoc, pure_bind]
    rw [find_bind_none, Option.none_or, show getWord true = codes "get" from rfl, find_lit_bind]
    · exact hgo
    · exact if_neg (by rintro ⟨_, hprefix⟩; cases hprefix)

theorem inLine_escape {value : Codes} (h : isPlain value) : ∀ c ∈ escapeArgument value, inLine c = true := by
  intro c hc
  obtain ⟨d, hd, hc⟩ := List.mem_flatMap.1 hc
  have hcontrol : isControl d = false := by simpa using List.any_eq_false.1 h d hd
  have hplain : inLine d = true := by
    simp [isControl] at hcontrol
    simp [inLine]
    omega
  split at hc
  · simp at hc
    rw [hc]
    rfl
  · split at hc
    · simp at hc
      rcases hc with rfl | rfl <;> rfl
    · rwa [List.mem_singleton.1 hc]

theorem inLine_quoted {value : Codes} (h : isPlain value) : ∀ c ∈ quotedArgument value, inLine c = true := by
  intro c hc
  simp [quotedArgument] at hc
  rcases hc with rfl | hc | rfl
  · rfl
  · exact inLine_escape h c hc
  · rfl

theorem endsQuoted_quoted (front value : Codes) : EndsQuoted (front ++ quotedArgument value) := by
  intro c hc
  rw [quotedArgument, ← List.cons_append, ← List.append_assoc, List.getLast?_concat] at hc
  exact (Option.some.inj hc).symm

theorem split_after {front text u v : Codes} (hfront : 34 ∉ front) (h : front ++ text = u ++ 34 :: v) :
    ∃ u', text = u' ++ 34 :: v := by
  induction front generalizing u with
  | nil => exact ⟨u, h⟩
  | cons c front ih =>
    rw [List.mem_cons, not_or] at hfront
    cases u with
    | nil => exact absurd (List.cons.inj h).1.symm hfront.1
    | cons d u => exact ih hfront.2 (List.cons.inj h).2

theorem exists_quote_iff {front text : Codes} {Ends : Codes → Prop} (hfront : 34 ∉ front) :
    (∃ u v, front ++ text = u ++ 34 :: v ∧ Ends v) ↔ ∃ u v, text = u ++ 34 :: v ∧ Ends v := by
  constructor
  · rintro ⟨u, v, hsplit, hends⟩
    obtain ⟨u', hsplit⟩ := split_after hfront hsplit
    exact ⟨u', v, hsplit, hends⟩
  · rintro ⟨u, v, rfl, hends⟩
    exact ⟨front ++ u, v, by simp, hends⟩

theorem inLine_row {front path destination : Codes} (hfront : front.all inLine = true) (hpath : isPlain path)
    (hdestination : isPlain destination) :
    ∀ c ∈ escapeArgument path ++ 34 :: (front ++ quotedArgument destination), inLine c = true := by
  intro c hc
  rw [List.mem_append, List.mem_cons, List.mem_append] at hc
  rcases hc with hc | rfl | hc | hc
  · exact inLine_escape hpath c hc
  · rfl
  · exact List.all_eq_true.1 hfront c hc
  · exact inLine_quoted hdestination c hc

/-- The local path, in quotes, has a quote in it from which a local path may be read. -/
def Reopens (Ends : Codes → Prop) (destination : Codes) : Prop :=
  ∃ u v, quotedArgument destination = u ++ 34 :: v ∧ Ends v

theorem find_paths {γ : Type} {tail : Matcher Nat Codes} {make : Codes → Codes → γ} {Ends : Codes → Prop}
    {front path destination : Codes} (hfront : front.all inLine = true) (hquote : 34 ∉ front) (hpath : isPlain path)
    (hdestination : isPlain destination) (hne : escapeArgument path ≠ [])
    (hends : ∀ text, (∀ c ∈ text, inLine c = true) → EndsQuoted text → ((find tail text).isSome ↔ Ends text))
    (hread : find tail (front ++ quotedArgument destination) = some (escapeArgument destination, [])) :
    ∃ remote localPath rest,
      find (quotedPath >>= fun remote => tail >>= fun localPath => pure (make remote localPath))
          (quotedArgument path ++ (front ++ quotedArgument destination)) = some (make remote localPath, rest) ∧
      (Reopens Ends destination → ∃ more, remote = escapeArgument path ++ 34 :: more) ∧
      (¬ Reopens Ends destination → remote = escapeArgument path ∧ localPath = escapeArgument destination) := by
  have hline := inLine_row hfront hpath hdestination
  have hlast : EndsQuoted (34 :: (front ++ quotedArgument destination)) := endsQuoted_quoted (34 :: front) destination
  have hlater : ∀ (remote u v : Codes), 34 :: (front ++ quotedArgument destination) = u ++ 34 :: v →
      ((find (tail >>= fun localPath => pure (make remote localPath)) v).isSome ↔ Ends v) := by
    intro remote u v hsplit
    rw [find_map, Option.isSome_map]
    apply hends
    · exact fun c hc => hline c (by rw [hsplit]; simp [hc])
    · rw [hsplit, List.append_cons] at hlast
      exact hlast.suffix
  have hrest : Ends (front ++ quotedArgument destination) := by
    rw [← hlater [] [] _ rfl, find_map, hread]
    rfl
  obtain ⟨remote, v, hfind, hfound, hlonger, hexact⟩ := find_quotedPath_ends hne hline hrest hlater
  rw [find_map, Option.isSome_map] at hfound
  obtain ⟨⟨localPath, rest⟩, hlocal⟩ := Option.isSome_iff_exists.1 hfound
  rw [find_map, hlocal] at hfind
  have hrow : quotedArgument path ++ (front ++ quotedArgument destination) =
      34 :: (escapeArgument path ++ 34 :: (front ++ quotedArgument destination)) := by simp [quotedArgument]
  refine ⟨remote, localPath, rest, hrow ▸ hfind, ?_, ?_⟩
  · exact fun hreopens => hlonger ((exists_quote_iff hquote).2 hreopens)
  · intro hreopens
    obtain ⟨rfl, rfl⟩ := hexact fun h => hreopens ((exists_quote_iff hquote).1 h)
    rw [hread] at hlocal
    cases hlocal
    exact ⟨rfl, rfl⟩

/-- What an expression reads of the row of an accepted command: the remote path as it was quoted,
or more than that. -/
structure RowRead (Ends : Codes → Prop) (digits path destination : Codes) (m : PathsMatch) : Prop where
  id : m.id = digits
  longer : Reopens Ends destination → ∃ more, m.remote = escapeArgument path ++ 34 :: more
  exact : ¬ Reopens Ends destination → m.remote = escapeArgument path ∧ m.localPath = escapeArgument destination

theorem queuePget_row {path destination : Codes} (n : RowNumber py) (useGet : Bool) (hpath : isPlain path) (hdestination : isPlain destination)
    (hne : path ≠ []) (hne' : destination ≠ []) :
    ∃ m, matched (queuePgetRow py) (n.text ++ (getWord useGet ++ (codes " -c " ++
        (quotedArgument path ++ (codes " -o " ++ quotedArgument destination))))) = some m ∧
      m.command = getWord useGet ∧ RowRead IsOutput n.digits path destination m.toPathsMatch := by
  obtain ⟨remote, localPath, rest, hfind, hlonger, hexact⟩ :=
    @find_paths PgetMatch _ (fun remote localPath =>
      { id := n.digits, flags := codes "-c", remote, localPath, command := getWord useGet }) _ _ _ _
      rfl (by decide) hpath hdestination (escape_ne_nil hne) (fun text => pgetOutput_isSome_iff)
      (pgetOutput_row hne' (inLine_escape hdestination))
  refine ⟨_, congrArg (Option.map Prod.fst) (find_queuePgetRow n hfind), rfl, ?_⟩
  exact { id := rfl, longer := hlonger, exact := hexact }

/-! ## The row of a folder -/

/-- Where a quoted remote path may end, as a local path follows. -/
def IsTarget (text : Codes) : Prop := ∃ c rest, text = c :: rest ∧ isSpace c = true

theorem mirrorTarget_isSome_iff {text : Codes} (hline : ∀ c ∈ text, inLine c = true) (hlast : EndsQuoted text) :
    (find mirrorTarget text).isSome ↔ IsTarget text := by
  rw [find_isSome_iff]
  constructor
  · rintro ⟨read, hread⟩
    obtain ⟨gap, hgap, -⟩ := mem_bind hread
    obtain ⟨hsplit, hne, hall⟩ := mem_some1 hgap
    obtain ⟨c, gap', hcons⟩ := List.exists_cons_of_ne_nil hne
    rw [hcons] at hsplit hall
    exact ⟨c, gap' ++ gap.2, hsplit, hall c (by simp)⟩
  · rintro ⟨c, rest, rfl, hc⟩
    have hrest : rest ≠ [] := @EndsQuoted.ne_nil [c] rest hlast (by simp) (by simpa using hc)
    have hgap : ([c], rest) ∈ some1 isSpace (c :: rest) := some1_mem (u := [c]) (by simp) (by simpa using hc)
    refine ⟨(rest, []), bind_mem hgap ?_⟩
    refine bind_mem (quotedPath_mem hrest fun d hd => hline d (by simp [hd])) ?_
    exact bind_mem lineEnd_mem (pure_mem _)

theorem mirrorTarget_row {destination : Codes} (hne : destination ≠ [])
    (hline : ∀ c ∈ escapeArgument destination, inLine c = true) :
    find mirrorTarget ([32] ++ quotedArgument destination) = some (escapeArgument destination, []) := by
  unfold mirrorTarget blanks
  exact find_some1_block (by simp) (by decide) (head_stop rfl) (find_target hne hline)

theorem find_queueMirrorRow {rest : Codes} {r : PathsMatch × Codes} (n : RowNumber py)
    (h : find (mirrorPaths n.digits (codes "-c")) (34 :: rest) = some r) :
    find (queueMirrorRow py) (n.text ++ (codes "mirror" ++ (codes " -c " ++ 34 :: rest))) = some r := by
  unfold queueMirrorRow mirrorQueuePrefix
  simp only [bind_assoc, pure_bind]
  apply find_rowId n (head_stop rfl)
  rw [find_lit_bind]
  exact find_flags (f := mirrorPaths n.digits) h

theorem queueMirror_row {path destination : Codes} (n : RowNumber py) (hpath : isPlain path) (hdestination : isPlain destination)
    (hne : path ≠ []) (hne' : destination ≠ []) :
    ∃ m, matched (queueMirrorRow py) (n.text ++ (codes "mirror" ++ (codes " -c " ++
        (quotedArgument path ++ ([32] ++ quotedArgument destination))))) = some m ∧
      RowRead IsTarget n.digits path destination m := by
  obtain ⟨remote, localPath, rest, hfind, hlonger, hexact⟩ :=
    @find_paths PathsMatch _ (fun remote localPath => { id := n.digits, flags := codes "-c", remote, localPath }) _ _ _ _
      rfl (by decide) hpath hdestination (escape_ne_nil hne) (fun text => mirrorTarget_isSome_iff)
      (mirrorTarget_row hne' (inLine_escape hdestination))
  refine ⟨_, congrArg (Option.map Prod.fst) (find_queueMirrorRow n hfind), ?_⟩
  exact { id := rfl, longer := hlonger, exact := hexact }

/-! ## Which expression reads a row -/

theorem find_mirrorQueuePrefix {rest : Codes} (n : RowNumber py) (hstop : ∀ c ∈ rest.head?, isSpace c = false) :
    find (mirrorQueuePrefix py) (n.text ++ (codes "mirror" ++ ([32] ++ rest))) = some (n.digits, rest) := by
  unfold mirrorQueuePrefix
  apply find_rowId n (head_stop rfl)
  rw [find_lit_bind]
  exact find_some1_block (by simp) (by decide) hstop rfl

theorem matchNumber_text (n : RowNumber py) (rest : Codes) :
    (matchNumber py (n.text ++ rest)).map Prod.fst = some n.digits := by
  rw [RowNumber.text, List.append_assoc, List.cons_append]
  exact matchNumber_of_digits n.nonempty n.digit

/-- The id is read with blanks behind it, but for some perhaps. -/
theorem rowId_rest {rest : Codes} {read : Codes × Codes} (n : RowNumber py)
    (hstop : ∀ c ∈ rest.head?, isSpace c = false) (h : read ∈ rowId py (n.text ++ rest)) :
    ∃ left, (∀ c ∈ left, isSpace c = true) ∧ read.2 = left ++ rest := by
  have hid : read.1 = n.digits := by
    have hnumber := rowId_id h
    rw [matchNumber_text] at hnumber
    exact (Option.some.inj hnumber).symm
  obtain ⟨id, hmem, h⟩ := mem_bind h
  obtain ⟨dot, hdot, h⟩ := mem_bind h
  obtain ⟨gap, hgap, h⟩ := mem_bind h
  rw [List.mem_singleton.1 h] at hid ⊢
  obtain ⟨hsplit, -, -⟩ := mem_some1 hmem
  obtain ⟨hsplit', -, hblank⟩ := mem_some1 hgap
  have hrest : n.gap ++ rest = gap.1 ++ gap.2 := by
    rw [show id.1 = n.digits from hid, mem_lit hdot, hsplit', RowNumber.text, List.append_assoc] at hsplit
    exact (List.cons.inj (List.append_cancel_left hsplit)).2
  rcases List.append_eq_append_iff.1 hrest with ⟨left, hleft, hrest⟩ | ⟨left, hleft, hrest⟩
  · cases left with
    | nil => exact ⟨[], by simp, hrest.symm⟩
    | cons d left =>
      have hspace := hblank d (by simp [hleft])
      rw [hstop d (by simp [hrest])] at hspace
      cases hspace
  · exact ⟨left, fun c hc => n.blank c (by simp [hleft, hc]), hrest⟩

/-- Another word than the one behind the number is not read. -/
theorem word_of_rest {word rest left : Codes} {read : Unit × Codes} (hword : word.head?.any isSpace = false)
    (hne : word ≠ []) (hleft : ∀ c ∈ left, isSpace c = true) (h : read ∈ lit word (left ++ rest)) : word <+: rest := by
  have hsplit := mem_lit h
  cases left with
  | nil => exact ⟨read.2, hsplit.symm⟩
  | cons d left =>
    obtain ⟨c, word, rfl⟩ := List.exists_cons_of_ne_nil hne
    obtain ⟨rfl, -⟩ := List.cons.inj hsplit
    rw [List.head?_cons, Option.any_some, hleft d (by simp)] at hword
    cases hword

theorem getWord_stop (useGet : Bool) (rest : Codes) : ∀ c ∈ (getWord useGet ++ rest).head?, isSpace c = false := by
  cases useGet <;> exact head_stop rfl

theorem find_mirrorQueuePrefix_none {rest : Codes} (n : RowNumber py) (useGet : Bool) :
    find (mirrorQueuePrefix py) (n.text ++ (getWord useGet ++ rest)) = none := by
  rw [← Option.not_isSome_iff_eq_none, find_isSome_iff]
  rintro ⟨read, h⟩
  obtain ⟨id, hid, h⟩ := mem_bind h
  obtain ⟨word, hword, -⟩ := mem_bind h
  obtain ⟨left, hleft, hrest⟩ := rowId_rest n (getWord_stop useGet rest) hid
  rw [hrest] at hword
  obtain ⟨more, hmore⟩ := word_of_rest rfl (by decide) hleft hword
  cases useGet <;> cases hmore

theorem matched_queuePgetRow_none {rest : Codes} (n : RowNumber py) :
    matched (queuePgetRow py) (n.text ++ (codes "mirror" ++ rest)) = none := by
  rw [matched, Option.map_eq_none_iff, ← Option.not_isSome_iff_eq_none, find_isSome_iff]
  rintro ⟨read, h⟩
  obtain ⟨id, hid, h⟩ := mem_bind h
  obtain ⟨command, hcommand, -⟩ := mem_bind h
  obtain ⟨left, hleft, hrest⟩ := rowId_rest n (head_stop rfl) hid
  rw [hrest] at hcommand
  rcases List.mem_append.1 hcommand with hcommand | hcommand
  · obtain ⟨word, hword, -⟩ := mem_bind hcommand
    obtain ⟨more, hmore⟩ := word_of_rest rfl (by decide) hleft hword
    cases hmore
  · obtain ⟨word, hword, -⟩ := mem_bind hcommand
    obtain ⟨more, hmore⟩ := word_of_rest rfl (by decide) hleft hword
    cases hmore

end SeedSync.Lftp
