import SeedSync.Lftp.Paths

/-!
# The path pair of a status

`Lftp.__annotate_status_path_pairs` of `lftp/lftp.py`: the pair in whose remote root alone the remote
path of a status lies, unless its local path lies in the local root of another.
-/

namespace SeedSync.Lftp

open Lib

/-- The value of a pair in `__path_pairs_by_id`. -/
structure PairPaths where
  name : Codes
  remotePath : Codes
  localPath : Codes
  deriving DecidableEq

/-- A status with the path pair that it is bound to. -/
structure ScopedStatus extends JobStatus where
  pathPairId : Option Codes := none
  pathPairName : Option Codes := none

variable (cwd : WorkingDirectory) (pairs : Dict Codes PairPaths)

/-- The status of the pair that is selected. A path that does not lead down from the root leaves the
name as it was. -/
def selectPair (pair : Codes × PairPaths) (status : JobStatus) : ScopedStatus :=
  let relative := relpath cwd (normpath status.remotePath) (normpath pair.2.remotePath)
  { status with
    name := if relative ≠ [] ∧ relative ≠ [46] ∧ startsWith "../" relative = false then relative else status.name
    pathPairId := some pair.1
    pathPairName := some pair.2.name }

/-- `__annotate_status_path_pairs`, for one status. The matches are compared as sets of ids, and no
two pairs have the same. -/
def annotate (status : JobStatus) : ScopedStatus :=
  let remoteMatches := pairs.items.filter fun pair => pathIsWithin status.remotePath pair.2.remotePath
  let localMatches := pairs.items.filter fun pair => pathIsWithin status.localPath pair.2.localPath
  match remoteMatches with
  | [pair] =>
    if localMatches ≠ [] ∧ localMatches ≠ [pair] then { status with } else selectPair cwd pair status
  | _ => { status with }

/-! ## The pair that is selected -/

/-- The path lies in the root, as `__path_is_within` tests it. -/
def Within (root path : Codes) : Prop := Regular root ∧ Covers root path

/-- The remote path lies in the root of this pair alone, and the local path in no other's. -/
structure Owns (remote localPath : Codes) (pair : Codes × PairPaths) : Prop where
  mem : pair ∈ pairs.items
  within : Within pair.2.remotePath remote
  alone : ∀ other ∈ pairs.items, other ≠ pair →
    ¬ Within other.2.remotePath remote ∧ ¬ Within other.2.localPath localPath

variable {cwd pairs}

theorem pathIsWithin_eq_false {path root : Codes} : pathIsWithin path root = false ↔ ¬ Within root path := by
  rw [← Bool.not_eq_true, pathIsWithin_iff]
  rfl

theorem filter_eq_singleton {α : Type} {l : List α} (hl : l.Nodup) {q : α → Bool} {a : α} :
    l.filter q = [a] ↔ a ∈ l ∧ q a = true ∧ ∀ b ∈ l, b ≠ a → q b = false := by
  constructor
  · intro h
    have hmem : ∀ b, b ∈ l.filter q ↔ b = a := by simp [h]
    obtain ⟨ha, hq⟩ := List.mem_filter.1 ((hmem a).2 rfl)
    refine ⟨ha, hq, fun b hb hne => ?_⟩
    cases hqb : q b with
    | false => rfl
    | true => exact absurd ((hmem b).1 (List.mem_filter.2 ⟨hb, hqb⟩)) hne
  · rintro ⟨ha, hq, hothers⟩
    rw [← List.perm_singleton, List.perm_ext_iff_of_nodup (hl.filter q) (by simp)]
    intro b
    rw [List.mem_filter, List.mem_singleton]
    constructor
    · rintro ⟨hb, hqb⟩
      by_contra hne
      rw [hothers b hb hne] at hqb
      cases hqb
    · rintro rfl
      exact ⟨ha, hq⟩

theorem items_nodup : pairs.items.Nodup := pairs.nodup.of_map _

/-- The local matches let a pair be selected when no other pair is among them. -/
theorem localMatches_iff {pair : Codes × PairPaths} {q : Codes × PairPaths → Bool} :
    ¬ (pairs.items.filter q ≠ [] ∧ pairs.items.filter q ≠ [pair]) ↔ ∀ other ∈ pairs.items, other ≠ pair → q other = false := by
  constructor
  · intro h other hother hne
    cases hq : q other with
    | false => rfl
    | true =>
      have hmem : other ∈ pairs.items.filter q := List.mem_filter.2 ⟨hother, hq⟩
      refine absurd ⟨List.ne_nil_of_mem hmem, fun hone => ?_⟩ h
      rw [hone] at hmem
      exact hne (List.mem_singleton.1 hmem)
  · rintro h ⟨hsome, hother⟩
    obtain ⟨first, hfirst⟩ := List.exists_mem_of_ne_nil _ hsome
    obtain ⟨hmem, hq⟩ := List.mem_filter.1 hfirst
    have heq : first = pair := by
      by_contra hne
      rw [h first hmem hne] at hq
      cases hq
    exact hother ((filter_eq_singleton items_nodup).2 ⟨heq ▸ hmem, heq ▸ hq, h⟩)

theorem annotate_of_owns {status : JobStatus} {pair : Codes × PairPaths}
    (h : Owns pairs status.remotePath status.localPath pair) : annotate cwd pairs status = selectPair cwd pair status := by
  have hremote : (pairs.items.filter fun pair => pathIsWithin status.remotePath pair.2.remotePath) = [pair] :=
    (filter_eq_singleton items_nodup).2 ⟨h.mem, pathIsWithin_iff.2 h.within,
      fun other hother hne => pathIsWithin_eq_false.2 (h.alone other hother hne).1⟩
  unfold annotate
  rw [hremote]
  dsimp only
  exact if_neg (localMatches_iff.2 fun other hother hne => pathIsWithin_eq_false.2 (h.alone other hother hne).2)

/-- No other pair is selected. -/
theorem annotate_of_none {status : JobStatus} (h : ∀ pair, ¬ Owns pairs status.remotePath status.localPath pair) :
    annotate cwd pairs status = { status with } := by
  unfold annotate
  dsimp only
  split
  · next pair hremote =>
    obtain ⟨hmem, hwithin, hothers⟩ := (filter_eq_singleton items_nodup).1 hremote
    split
    · rfl
    · next hlocal =>
      refine absurd ⟨hmem, pathIsWithin_iff.1 hwithin, fun other hother hne => ?_⟩ (h pair)
      exact ⟨pathIsWithin_eq_false.1 (hothers other hother hne),
        pathIsWithin_eq_false.1 (localMatches_iff.1 hlocal other hother hne)⟩
  · rfl

/-- The pair that a status gets is the one that owns its paths. -/
theorem pathPairId_annotate {status : JobStatus} {id : Codes} :
    (annotate cwd pairs status).pathPairId = some id ↔
      ∃ pair, Owns pairs status.remotePath status.localPath pair ∧ pair.1 = id := by
  by_cases h : ∃ pair, Owns pairs status.remotePath status.localPath pair
  · obtain ⟨pair, howns⟩ := h
    rw [annotate_of_owns howns]
    constructor
    · intro hid
      exact ⟨pair, howns, Option.some.inj hid⟩
    · rintro ⟨other, hother, rfl⟩
      have heq : other = pair := by
        by_contra hne
        exact (howns.alone other hother.mem hne).1 hother.within
      rw [heq]
      rfl
  · rw [annotate_of_none fun pair howns => h ⟨pair, howns⟩]
    constructor
    · intro hid
      cases hid
    · rintro ⟨pair, howns, -⟩
      exact absurd ⟨pair, howns⟩ h

/-! ## The name -/

/-- The path from the root on, or the name if the root is the path itself. -/
def relativeName (root path name : Codes) : Codes :=
  match (components path).drop (components root).length with
  | [] => name
  | first :: rest => joined (first :: rest)

theorem not_up {first : Codes} {rest : List Codes} (hfirst : IsComponent first) (hup : first ≠ [46, 46]) :
    startsWith "../" (joined (first :: rest)) = false := by
  rw [startsWith, Bool.eq_false_iff, Ne, List.isPrefixOf_iff_prefix, joined, intercalate_first]
  rintro ⟨more, hmore⟩
  rw [show codes "../" = [46, 46, 47] from rfl] at hmore
  rcases first with _ | ⟨a, _ | ⟨b, _ | ⟨c, text⟩⟩⟩
  · exact hfirst.1 rfl
  · cases rest <;> simp at hmore
  · simp at hmore
    exact hup (by simp [← hmore.1, ← hmore.2.1])
  · simp at hmore
    exact hfirst.2.2 (by simp [← hmore.2.2.1])

theorem selectPair_name {pair : Codes × PairPaths} {status : JobStatus} {rest : List Codes}
    (hkind : isAbsolute status.remotePath = isAbsolute pair.2.remotePath)
    (hrest : components status.remotePath = components pair.2.remotePath ++ rest) (hup : [46, 46] ∉ rest) :
    (selectPair cwd pair status).name = relativeName pair.2.remotePath status.remotePath status.name := by
  have hcomponents : ∀ part ∈ rest, IsComponent part := fun part hpart =>
    @isComponent_of_mem status.remotePath _ (hrest ▸ List.mem_append_right _ hpart)
  unfold selectPair relativeName
  dsimp only
  rw [relpath_of_covers cwd hkind hrest hup, hrest, List.drop_left]
  cases rest with
  | nil => simp
  | cons first rest =>
    have hfirst := hcomponents first (by simp)
    have hjoined := filledParts_joined hcomponents
    have hne : joined (first :: rest) ≠ [] := by
      intro h
      rw [h] at hjoined
      cases hjoined
    have hdot : joined (first :: rest) ≠ [46] := by
      intro h
      rw [h, show filledParts [46] = [[46]] from rfl] at hjoined
      exact hfirst.2.1 (List.cons.inj hjoined).1.symm
    have hdown := @not_up first rest hfirst fun h => hup (by simp [h])
    rw [if_neg (List.cons_ne_nil first rest), if_pos ⟨hne, hdot, hdown⟩]

end SeedSync.Lftp
