import SeedSync.Lftp.Queue

/-!
# Paths

`os.path.normpath`, `commonpath` and `relpath`, as `Lftp` uses them to see in which root a path lies.
-/

namespace SeedSync.Lftp

open Lib

/-! ## Functions of `os.path` -/

def isAbsolute (path : Codes) : Bool := path.head? == some 47

/-- The slashes that the normal form begins with: two stay two. -/
def leadingSlashes : Codes → Nat
  | 47 :: 47 :: 47 :: _ => 1
  | 47 :: 47 :: _ => 2
  | 47 :: _ => 1
  | _ => 0

/-- The components of the normal form. -/
def components (path : Codes) : List Codes := (path.splitOn 47).foldl (normStep (isAbsolute path)) []

/-- `os.path.normpath` -/
def normpath (path : Codes) : Codes :=
  let normal := List.replicate (leadingSlashes path) 47 ++ [47].intercalate (components path)
  if normal = [] then [46] else normal

def commonPrefix : List Codes → List Codes → List Codes
  | a :: as, b :: bs => if a = b then a :: commonPrefix as bs else []
  | _, _ => []

def plainParts (path : Codes) : List Codes := (path.splitOn 47).filter fun part => part != [] && part != [46]

/-- `os.path.commonpath([a, b])`; `none` for the `ValueError` of an absolute and a relative path. -/
def commonpath (a b : Codes) : Option Codes :=
  if isAbsolute a != isAbsolute b then none
  else some ((if isAbsolute a then [47] else []) ++ [47].intercalate (commonPrefix (plainParts a) (plainParts b)))

/-- What `os.getcwd()` gives. -/
structure WorkingDirectory where
  path : Codes
  absolute : isAbsolute path = true

/-- `os.path.abspath` -/
def abspath (cwd : WorkingDirectory) (path : Codes) : Codes :=
  normpath (if isAbsolute path then path else osPathJoin cwd.path [path])

def filledParts (path : Codes) : List Codes := (path.splitOn 47).filter fun part => part != []

/-- `os.path.relpath(path, start)` -/
def relpath (cwd : WorkingDirectory) (path start : Codes) : Codes :=
  let startList := filledParts (abspath cwd start)
  let pathList := filledParts (abspath cwd path)
  let shared := (commonPrefix startList pathList).length
  match List.replicate (startList.length - shared) [46, 46] ++ pathList.drop shared with
  | [] => [46]
  | first :: rest => osPathJoin first rest

/-- `__path_is_within` -/
def pathIsWithin (path root : Codes) : Bool := commonpath (normpath path) (normpath root) == some (normpath root)

/-! ## Components -/

/-- A component that stays in a normal form. -/
def IsComponent (part : Codes) : Prop := part ≠ [] ∧ part ≠ [46] ∧ 47 ∉ part

theorem splitOn_slashFree (path : Codes) : ∀ part ∈ path.splitOn 47, 47 ∉ part := by
  induction path with
  | nil => simp
  | cons c rest ih =>
    rw [List.splitOn_cons_eq_if_modifyHead]
    split
    · simpa using ih
    · next hc =>
      cases hsplit : rest.splitOn 47 with
      | nil => simp
      | cons first more =>
        rw [hsplit] at ih
        intro part hpart
        rw [List.modifyHead_cons, List.mem_cons] at hpart
        rcases hpart with rfl | hpart
        · have hne : 47 ≠ c := fun h => hc (by simp [h])
          simpa [hne] using ih first (by simp)
        · exact ih part (by simp [hpart])

theorem normStep_of_component {absolute : Bool} {kept : List Codes} {part : Codes} (h : IsComponent part)
    (hup : part ≠ [46, 46]) : normStep absolute kept part = kept ++ [part] := by
  unfold normStep
  rw [if_neg (by simp [h.1, h.2.1]), if_pos (Or.inl hup)]

theorem foldl_normStep_of_components {absolute : Bool} {kept rest : List Codes}
    (h : ∀ part ∈ rest, IsComponent part ∧ part ≠ [46, 46]) : rest.foldl (normStep absolute) kept = kept ++ rest := by
  induction rest generalizing kept with
  | nil => simp
  | cons part rest ih =>
    obtain ⟨hpart, hup⟩ := h part (by simp)
    rw [List.foldl_cons, normStep_of_component hpart hup, ih fun other hother => h other (by simp [hother])]
    simp

/-- Every part of it is kept as it is built again. -/
def Normal (absolute : Bool) (kept : List Codes) : Prop :=
  (∀ part ∈ kept, IsComponent part) ∧ ∀ front, front <+: kept → front.foldl (normStep absolute) [] = front

theorem Normal.step {absolute : Bool} {kept : List Codes} (h : Normal absolute kept) {part : Codes} (hpart : 47 ∉ part) :
    Normal absolute (normStep absolute kept part) := by
  have hself : kept.foldl (normStep absolute) [] = kept := h.2 kept (List.prefix_refl _)
  unfold normStep
  split
  · exact h
  · next hkeep =>
    rw [not_or] at hkeep
    split
    · next hgoes =>
      refine ⟨?_, ?_⟩
      · intro other hother
        rcases List.mem_append.1 hother with hother | hother
        · exact h.1 other hother
        · rw [List.mem_singleton.1 hother]
          exact ⟨hkeep.1, hkeep.2, hpart⟩
      · intro front hfront
        rcases List.prefix_concat_iff.1 hfront with rfl | hfront
        · rw [List.foldl_append, hself, List.foldl_cons, List.foldl_nil, normStep, if_neg (by simp [hkeep]), if_pos hgoes]
        · exact h.2 front hfront
    · exact ⟨fun other hother => h.1 other (List.mem_of_mem_dropLast hother),
        fun front hfront => h.2 front (hfront.trans (List.dropLast_prefix _))⟩

theorem normal_components (path : Codes) : Normal (isAbsolute path) (components path) := by
  have hfold : ∀ (parts : List Codes), (∀ part ∈ parts, 47 ∉ part) → ∀ kept, Normal (isAbsolute path) kept →
      Normal (isAbsolute path) (parts.foldl (normStep (isAbsolute path)) kept) := by
    intro parts
    induction parts with
    | nil => exact fun _ _ hkept => hkept
    | cons part parts ih =>
      intro hparts kept hkept
      exact ih (fun other hother => hparts other (by simp [hother])) _ (hkept.step (hparts part (by simp)))
  refine hfold _ (splitOn_slashFree path) [] ⟨by simp, ?_⟩
  intro front hfront
  rw [List.prefix_nil.1 hfront]
  rfl

theorem isComponent_of_mem {path part : Codes} (h : part ∈ components path) : IsComponent part :=
  (normal_components path).1 part h

/-! ## Normal forms -/

theorem leadingSlashes_le (path : Codes) : leadingSlashes path ≤ 2 := by
  unfold leadingSlashes
  split <;> omega

theorem isAbsolute_iff {path : Codes} : isAbsolute path = true ↔ leadingSlashes path ≠ 0 := by
  unfold isAbsolute leadingSlashes
  split <;> simp_all
  cases path <;> simp_all

theorem splitOn_slashes (k : Nat) (text : Codes) :
    (List.replicate k 47 ++ text).splitOn 47 = List.replicate k [] ++ text.splitOn 47 := by
  induction k with
  | zero => rfl
  | succ k ih =>
    rw [List.replicate_succ, List.cons_append, List.splitOn_cons_eq_if_modifyHead, if_pos (by decide), ih]
    rfl

/-- The parts of a normal form are its components, and some that do not count. -/
theorem splitOn_normpath (path : Codes) :
    ∃ front, (normpath path).splitOn 47 = front ++ components path ∧ (∀ part ∈ front, part = [] ∨ part = [46]) ∧
      (isAbsolute path = true → ∀ part ∈ front, part = []) := by
  unfold normpath
  cases hparts : components path with
  | nil =>
    have hjoin : [47].intercalate ([] : List Codes) = [] := rfl
    rw [hjoin]
    dsimp only
    split
    · next hnil =>
      refine ⟨[[46]], rfl, by simp, ?_⟩
      intro habsolute
      have hslashes : leadingSlashes path = 0 := by simpa using hnil
      exact absurd hslashes (isAbsolute_iff.1 habsolute)
    · refine ⟨List.replicate (leadingSlashes path) [] ++ [[]], ?_, ?_, ?_⟩
      · rw [splitOn_slashes]
        simp
      · simp +contextual [or_imp]
      · simp +contextual [or_imp]
  | cons first more =>
    have hcomponents : ∀ part ∈ first :: more, IsComponent part :=
      fun part hpart => isComponent_of_mem (hparts ▸ hpart)
    have hsplit : ([47].intercalate (first :: more)).splitOn 47 = first :: more :=
      List.splitOn_intercalate 47 (fun part hpart => (hcomponents part hpart).2.2) (by simp)
    have hne : [47].intercalate (first :: more) ≠ [] := by
      intro hnil
      rw [hnil] at hsplit
      obtain ⟨rfl, -⟩ := List.cons.inj hsplit
      exact (hcomponents [] (by simp)).1 rfl
    dsimp only
    rw [if_neg (by simp [hne]), splitOn_slashes, hsplit]
    exact ⟨_, rfl, by simp +contextual, by simp +contextual⟩

theorem plainParts_normpath (path : Codes) : plainParts (normpath path) = components path := by
  obtain ⟨front, hsplit, hfront, -⟩ := splitOn_normpath path
  have hskip : front.filter (fun part => part != [] && part != [46]) = [] := by
    rw [List.filter_eq_nil_iff]
    intro part hpart
    rcases hfront part hpart with rfl | rfl <;> decide
  rw [plainParts, hsplit, List.filter_append, hskip, List.nil_append, List.filter_eq_self]
  intro part hpart
  have hcomponent := isComponent_of_mem hpart
  simp [hcomponent.1, hcomponent.2.1]

theorem filledParts_normpath {path : Codes} (h : isAbsolute path = true) : filledParts (normpath path) = components path := by
  obtain ⟨front, hsplit, -, hfront⟩ := splitOn_normpath path
  have hskip : front.filter (fun part => part != []) = [] := by
    rw [List.filter_eq_nil_iff]
    intro part hpart
    rw [hfront h part hpart]
    decide
  rw [filledParts, hsplit, List.filter_append, hskip, List.nil_append, List.filter_eq_self]
  intro part hpart
  simp [(isComponent_of_mem hpart).1]

theorem foldl_normpath (absolute : Bool) (kept : List Codes) (path : Codes) :
    ((normpath path).splitOn 47).foldl (normStep absolute) kept = (components path).foldl (normStep absolute) kept := by
  obtain ⟨front, hsplit, hfront, -⟩ := splitOn_normpath path
  rw [hsplit, List.foldl_append]
  congr 1
  clear hsplit
  induction front with
  | nil => rfl
  | cons part front ih =>
    rw [List.foldl_cons, normStep, if_pos (hfront part (by simp))]
    exact ih fun other hother => hfront other (by simp [hother])

/-- Components one below the other. -/
def joined (parts : List Codes) : Codes := [47].intercalate parts

theorem join_relative {parts : List Codes} (h : ∀ part ∈ parts, IsComponent part) : isAbsolute (joined parts) = false := by
  cases parts with
  | nil => rfl
  | cons first more =>
    obtain ⟨hne, -, hslash⟩ := h first (by simp)
    obtain ⟨c, text, rfl⟩ := List.exists_cons_of_ne_nil hne
    have hc : c ≠ 47 := by
      rintro rfl
      simp at hslash
    cases more with
    | nil => simp [joined, isAbsolute, hc]
    | cons second more => simp [joined, isAbsolute, hc, List.intercalate_cons_cons]

theorem filledParts_joined {parts : List Codes} (h : ∀ part ∈ parts, IsComponent part) :
    filledParts (joined parts) = parts := by
  cases parts with
  | nil => rfl
  | cons first more =>
    rw [filledParts, joined, List.splitOn_intercalate 47 (fun part hpart => (h part hpart).2.2) (by simp),
      List.filter_eq_self]
    intro part hpart
    simp [(h part hpart).1]

theorem joined_inj {a b : List Codes} (ha : ∀ part ∈ a, IsComponent part) (hb : ∀ part ∈ b, IsComponent part)
    (h : joined a = joined b) : a = b := by
  rw [← filledParts_joined ha, h, filledParts_joined hb]

theorem isAbsolute_normpath (path : Codes) : isAbsolute (normpath path) = isAbsolute path := by
  cases habsolute : isAbsolute path with
  | true =>
    have hslashes := isAbsolute_iff.1 habsolute
    obtain ⟨k, hk⟩ := Nat.exists_eq_succ_of_ne_zero hslashes
    unfold normpath
    rw [hk]
    rfl
  | false =>
    have hslashes : leadingSlashes path = 0 := by
      by_contra hne
      rw [isAbsolute_iff.2 hne] at habsolute
      cases habsolute
    unfold normpath
    rw [hslashes]
    dsimp only
    split
    · rfl
    · exact join_relative fun _ => isComponent_of_mem

theorem components_normpath (path : Codes) : components (normpath path) = components path := by
  rw [components, foldl_normpath, isAbsolute_normpath]
  exact (normal_components path).2 _ (List.prefix_refl _)

/-! ## Roots -/

theorem commonPrefix_shorter (a b : List Codes) : commonPrefix a b <+: a := by
  induction a generalizing b with
  | nil => exact List.nil_prefix
  | cons first a ih =>
    cases b with
    | nil => exact List.nil_prefix
    | cons other b =>
      rw [commonPrefix]
      split
      · exact (List.prefix_cons_inj first).2 (ih b)
      · exact List.nil_prefix

theorem commonPrefix_eq_right {a b : List Codes} : commonPrefix a b = b ↔ b <+: a := by
  induction a generalizing b with
  | nil => cases b <;> simp [commonPrefix]
  | cons first a ih =>
    cases b with
    | nil => simp [commonPrefix]
    | cons other b =>
      rw [commonPrefix, List.cons_prefix_cons]
      split
      · next heq => rw [heq, List.cons_inj_right, ih]; simp
      · next hne => simp [Ne.symm hne]

/-- A root that paths can lie within, as it is tested: neither the working directory nor a root with
two slashes in front. -/
def Regular (root : Codes) : Prop := leadingSlashes root = 1 ∨ (leadingSlashes root = 0 ∧ components root ≠ [])

/-- The components of the path go on from those of the root. -/
def Covers (root path : Codes) : Prop := isAbsolute path = isAbsolute root ∧ components root <+: components path

instance (root : Codes) : Decidable (Regular root) := by unfold Regular; infer_instance

instance (root path : Codes) : Decidable (Covers root path) := by unfold Covers; infer_instance

theorem pathIsWithin_iff {path root : Codes} : pathIsWithin path root = true ↔ Regular root ∧ Covers root path := by
  unfold pathIsWithin commonpath
  rw [plainParts_normpath, plainParts_normpath, isAbsolute_normpath, isAbsolute_normpath]
  by_cases hkind : isAbsolute path = isAbsolute root
  swap
  · rw [if_pos (by simpa using hkind)]
    simp [Covers, hkind]
  rw [if_neg (by simpa using hkind), hkind]
  have hshared : ∀ part ∈ commonPrefix (components path) (components root), IsComponent part := fun part hpart =>
    isComponent_of_mem ((commonPrefix_shorter _ _).subset hpart)
  have hroot : ∀ part ∈ components root, IsComponent part := fun part => isComponent_of_mem
  -- What is compared once the slashes in front are equal.
  have hjoined : joined (commonPrefix (components path) (components root)) = joined (components root) ↔ Covers root path := by
    rw [Covers, and_iff_right hkind, ← commonPrefix_eq_right]
    exact ⟨joined_inj hshared hroot, fun h => by rw [h]⟩
  have hle := leadingSlashes_le root
  cases habsolute : isAbsolute root with
  | true =>
    have hslashes := isAbsolute_iff.1 habsolute
    have hnormal : normpath root = List.replicate (leadingSlashes root) 47 ++ joined (components root) := by
      unfold normpath
      dsimp only
      rw [if_neg (by simp [hslashes])]
      rfl
    rw [if_pos rfl, beq_iff_eq, Option.some_inj, hnormal, ← joined]
    obtain hone | htwo : leadingSlashes root = 1 ∨ leadingSlashes root = 2 := by omega
    · rw [hone]
      simpa [Regular, hone] using hjoined
    · have hnot : joined (commonPrefix (components path) (components root)) ≠ 47 :: joined (components root) := by
        intro h
        have := join_relative hshared
        rw [h] at this
        cases this
      rw [htwo]
      simpa [Regular, htwo] using hnot
  | false =>
    have hslashes : leadingSlashes root = 0 := by
      by_contra hne
      rw [isAbsolute_iff.2 hne] at habsolute
      cases habsolute
    rw [if_neg (by simp), List.nil_append, beq_iff_eq, Option.some_inj, ← joined]
    unfold normpath
    rw [hslashes, List.replicate_zero, List.nil_append, ← joined]
    cases hparts : components root with
    | nil =>
      have hnone : commonPrefix (components path) [] = [] := by cases components path <;> rfl
      rw [hnone]
      simp [Regular, hslashes, hparts, joined]
    | cons first more =>
      have hne : joined (first :: more) ≠ [] := by
        intro hnil
        have := filledParts_joined (hparts ▸ hroot)
        rw [hnil] at this
        cases this
      dsimp only
      rw [if_neg hne, ← hparts, hjoined]
      simp [Regular, hslashes, hparts]

/-! ## Relative paths -/

theorem osPathJoin_joined {first : Codes} {rest : List Codes} (hfirst : IsComponent first)
    (h : ∀ part ∈ rest, IsComponent part) : osPathJoin first rest = joined (first :: rest) := by
  have hfold : ∀ path : Codes, path ≠ [] → path.getLast? ≠ some 47 →
      osPathJoin path rest = path ++ rest.flatMap fun part => 47 :: part := by
    induction rest with
    | nil =>
      intro path _ _
      simp [osPathJoin]
    | cons part rest ih =>
      intro path hne hlast
      obtain ⟨hpart, -, hslash⟩ := h part (by simp)
      have hhead : part.head? ≠ some 47 := fun hhead => hslash (List.mem_of_mem_head? hhead)
      have hlast' : (path ++ 47 :: part).getLast? ≠ some 47 := by
        rw [List.getLast?_append, List.getLast?_cons_of_ne_nil hpart]
        intro hlast
        cases hpartlast : part.getLast? with
        | none => exact hpart (List.getLast?_eq_none_iff.1 hpartlast)
        | some c =>
          rw [hpartlast] at hlast
          obtain rfl := Option.some.inj hlast
          exact hslash (List.mem_of_getLast? hpartlast)
      have hrest := ih (fun other hother => h other (by simp [hother])) (path ++ 47 :: part) (by simp) hlast'
      unfold osPathJoin at hrest ⊢
      rw [List.foldl_cons, if_neg hhead, if_neg (by simp [hne, hlast]), hrest]
      simp
  rw [hfold first hfirst.1 fun hlast => hfirst.2.2 (List.mem_of_getLast? hlast), joined, intercalate_first]

theorem isAbsolute_osPathJoin (cwd : WorkingDirectory) {path : Codes} (h : isAbsolute path = false) :
    isAbsolute (osPathJoin cwd.path [path]) = true ∧
      components (osPathJoin cwd.path [path]) = (path.splitOn 47).foldl (normStep true) (components cwd.path) := by
  have habsolute : cwd.path.head? = some 47 := by simpa [isAbsolute] using cwd.absolute
  have hne : cwd.path ≠ [] := by
    intro hnil
    rw [hnil] at habsolute
    cases habsolute
  have hhead : path.head? ≠ some 47 := by simpa [isAbsolute] using h
  have hjoin : osPathJoin cwd.path [path] =
      if cwd.path.getLast? = some 47 then cwd.path ++ path else cwd.path ++ 47 :: path := by
    simp [osPathJoin, hhead, hne]
  have hkind : isAbsolute (osPathJoin cwd.path [path]) = true := by
    rw [hjoin]
    split <;> simp [isAbsolute, List.head?_append, habsolute]
  refine ⟨hkind, ?_⟩
  unfold components
  rw [hkind, cwd.absolute, hjoin]
  split
  · next hlast =>
    obtain ⟨front, hfront⟩ := List.getLast?_eq_some_iff.1 hlast
    have hempty : normStep true (List.foldl (normStep true) [] (front.splitOn 47)) [] =
        List.foldl (normStep true) [] (front.splitOn 47) := by simp [normStep]
    rw [hfront, List.append_assoc, List.singleton_append, List.splitOn_append_cons_self, List.splitOn_append_cons_self]
    rw [List.foldl_append, List.foldl_append]
    simp [hempty]
  · rw [List.splitOn_append_cons_self, List.foldl_append]

theorem filledParts_abspath (cwd : WorkingDirectory) (path : Codes) :
    filledParts (abspath cwd (normpath path)) =
      if isAbsolute path then components path else (components path).foldl (normStep true) (components cwd.path) := by
  unfold abspath
  rw [isAbsolute_normpath]
  split
  · next habsolute => rw [filledParts_normpath (by rw [isAbsolute_normpath, habsolute]), components_normpath]
  · next hrelative =>
    have hrelative' : isAbsolute (normpath path) = false := by simpa [isAbsolute_normpath] using hrelative
    obtain ⟨habsolute, hcomponents⟩ := isAbsolute_osPathJoin cwd hrelative'
    rw [filledParts_normpath habsolute, hcomponents, foldl_normpath]

theorem commonPrefix_append (a rest : List Codes) : commonPrefix a (a ++ rest) = a := by
  induction a with
  | nil => rfl
  | cons first a ih => rw [List.cons_append, commonPrefix, if_pos rfl, ih]

/-- A path in a root, from there on. -/
theorem relpath_of_covers (cwd : WorkingDirectory) {path root : Codes} {rest : List Codes}
    (hkind : isAbsolute path = isAbsolute root) (hrest : components path = components root ++ rest)
    (hup : [46, 46] ∉ rest) :
    relpath cwd (normpath path) (normpath root) = if rest = [] then [46] else joined rest := by
  have hcomponents : ∀ part ∈ rest, IsComponent part := fun part hpart =>
    @isComponent_of_mem path _ (hrest ▸ List.mem_append_right _ hpart)
  have hplain : ∀ part ∈ rest, IsComponent part ∧ part ≠ [46, 46] := fun part hpart =>
    ⟨hcomponents part hpart, fun h => hup (h ▸ hpart)⟩
  have hparts : filledParts (abspath cwd (normpath path)) = filledParts (abspath cwd (normpath root)) ++ rest := by
    rw [filledParts_abspath, filledParts_abspath, hkind, hrest]
    split
    · rfl
    · rw [List.foldl_append, foldl_normStep_of_components hplain]
  unfold relpath
  rw [hparts]
  dsimp only
  rw [commonPrefix_append, Nat.sub_self, List.replicate_zero, List.nil_append, List.drop_left]
  cases rest with
  | nil => rfl
  | cons first rest =>
    rw [if_neg (by simp)]
    exact osPathJoin_joined (hcomponents first (by simp)) fun part hpart => hcomponents part (by simp [hpart])

end SeedSync.Lftp
