import Mathlib.Data.Set.Basic
import SeedSync.Paging.Model

/-!
# What an id is taken for

The decoders of a file id, `__file_id_path_pair_id` and `__completion_file_path` of the builder and
`__scoped_file_path` of the controller, and the files that all of them give back.
-/

namespace SeedSync.Paging

open Lib Identity

/-! ## The decoders -/

/-- The pair and the path of a text that `json.loads` reads as a list of two strings. -/
def readPairedId (fileId : Codes) : Option (Codes × Codes) :=
  match loads fileId with
  | some (.list [.str pair, .str path]) => some (pair, path)
  | _ => none

/-- `ModelBuilder.__file_id_path_pair_id` -/
def fileIdPathPairId (fileId : Codes) : Option Codes := (readPairedId fileId).map Prod.fst

/-- `ModelBuilder.__completion_file_path`: the path and the pair. -/
def completionFilePath (fileId : Codes) : Codes × Option Codes :=
  match readPairedId fileId with
  | some (pair, path) => (path, some pair)
  | none => (fileId, none)

/-- The scope in which the controller is asked for a file: that of its pair. -/
def ownScope (pair : Option Text) : Text := pair.getD ⟨⟨modelLegacyScopeId, isText_codes _⟩, joinCodes_codes _⟩

namespace Node

variable (node : Node)

def path : Codes := fullPath node.names

def pairId : Option Codes := node.pair.map fun pair => pair.str.codes

/-- Each decoder gives back the pair and the path that the id was built from. -/
structure Decodes : Prop where
  builderPair : fileIdPathPairId node.fileId = node.pairId
  builderPath : completionFilePath node.fileId = (node.path, node.pairId)
  controller : scopedFilePath (ownScope node.pair) node.fileId = some node.path

/-- The decoders cannot take the id for another one: a file without a pair has no path that reads as a list
of two strings, and no pair is named as the scope of the files without one. -/
def Unmistakable : Prop :=
  match node.pair with
  | none => readPairedId node.path = none
  | some pair => pair.str.codes ≠ modelLegacyScopeId

end Node

/-- The ids of the files are those of no other file, and each is decoded to what it was built from. -/
structure Identified (files : Set Node) : Prop where
  injective : ∀ a ∈ files, ∀ b ∈ files, a.fileId = b.fileId → a.pairId = b.pairId ∧ a.path = b.path
  decodes : ∀ node ∈ files, node.Decodes

/-! ## When they agree -/

theorem readPairedId_idText (pair : Text) (names : List Name) :
    readPairedId (idText pair.str.codes (fullPath names)) = some (pair.str.codes, fullPath names) := by
  have htext := fullPath_text names
  have hjoined : joinCodes pair.str.codes = pair.str.codes := pair.joined
  rw [readPairedId, loads_idText pair.str.valid htext.1, hjoined, htext.2]

theorem le_length_quoted (s : Codes) : s.length ≤ (asCodes (quoted s)).length := by
  have hone : ∀ c : Nat, 1 ≤ (escapeCode c).length := by
    intro c
    unfold escapeCode
    split_ifs <;> simp [unicodeEscape]
  have hall : s.length ≤ (s.flatMap escapeCode).length := by
    induction s with
    | nil => simp
    | cons c s ih =>
      rw [List.flatMap_cons, List.length_append, List.length_cons]
      have := hone c
      omega
  simp only [quoted, asCodes, List.length_map, List.length_cons, List.length_append]
  omega

theorem length_lt_idText (pair path : Codes) : path.length < (idText pair path).length := by
  have hpath := le_length_quoted path
  rw [idText_eq]
  simp only [List.length_cons, List.length_append]
  omega

/-- What the controller returns in the scope of the files without a pair is the id itself. -/
theorem scopedFilePath_legacy {scope : Text} {fileId path : Codes} (hscope : expectedPathPairId scope = none)
    (h : scopedFilePath scope fileId = some path) : path = fileId := by
  unfold scopedFilePath namedPath at h
  rw [hscope, Option.bind_some] at h
  simp only at h
  split_ifs at h with h1 h2 h3
  exact (Option.some.inj h).symm.trans h3

theorem Node.Decodes.unmistakable {node : Node} (h : node.Decodes) : node.Unmistakable := by
  unfold Unmistakable
  cases hpair : node.pair with
  | none =>
    have hread := h.builderPair
    rw [fileIdPathPairId, pairId, hpair, Option.map_none, Option.map_eq_none_iff, fileId, hpair] at hread
    exact hread
  | some pair =>
    intro hlegacy
    have hscope : expectedPathPairId (ownScope (some pair)) = none := if_pos hlegacy
    have hpath := h.controller
    rw [hpair] at hpath
    have heq : node.path = node.fileId := scopedFilePath_legacy hscope hpath
    rw [fileId, hpair] at heq
    have hlength := length_lt_idText pair.str.codes node.path
    rw [show idText pair.str.codes node.path = node.path from heq.symm] at hlength
    exact lt_irrefl _ hlength

theorem Node.Unmistakable.decodes {node : Node} (h : node.Unmistakable) : node.Decodes := by
  have hread : readPairedId node.fileId = node.pair.map fun pair => (pair.str.codes, node.path) := by
    unfold Unmistakable at h
    rw [fileId]
    cases hpair : node.pair with
    | none =>
      rw [hpair] at h
      exact h
    | some pair => exact readPairedId_idText pair node.names
  have hscope : node.pair = expectedPathPairId (ownScope node.pair) := by
    unfold Unmistakable at h
    cases hpair : node.pair with
    | none => exact (if_pos rfl).symm
    | some pair =>
      rw [hpair] at h
      exact (if_neg h).symm
  refine ⟨?_, ?_, scopedFilePath_fileId hscope⟩
  · rw [fileIdPathPairId, hread, pairId, Option.map_map]
    rfl
  · rw [completionFilePath, hread, pairId]
    cases hpair : node.pair with
    | none =>
      rw [fileId, hpair]
      rfl
    | some pair => rfl

theorem injective_of_decodes {a b : Node} (ha : a.Decodes) (hb : b.Decodes) (h : a.fileId = b.fileId) :
    a.pairId = b.pairId ∧ a.path = b.path := by
  have hpaths := ha.builderPath
  rw [h, hb.builderPath] at hpaths
  exact ⟨(congrArg Prod.snd hpaths).symm, (congrArg Prod.fst hpaths).symm⟩

/-- Files are told apart and given back by their ids just when no id can be mistaken. -/
theorem identified_iff (files : Set Node) : Identified files ↔ ∀ node ∈ files, node.Unmistakable := by
  constructor
  · intro h node hnode
    exact (h.decodes node hnode).unmistakable
  · intro h
    have hdecodes : ∀ node ∈ files, node.Decodes := fun node hnode => (h node hnode).decodes
    exact ⟨fun a ha b hb => injective_of_decodes (hdecodes a ha) (hdecodes b hb), hdecodes⟩

/-! ### A root that is named like an id -/

def listName : Name where
  text := codes "[\"p\",\"x\"]"
  valid := isText_codes _
  joined := joinCodes_codes _
  nonempty := by decide
  plain := by decide
  notSelf := by decide
  notParent := by decide

def plainName : Name where
  text := codes "x"
  valid := isText_codes _
  joined := joinCodes_codes _
  nonempty := by decide
  plain := by decide
  notSelf := by decide
  notParent := by decide

def unscopedList : Node := ⟨none, [], .mk listName []⟩

def pairedRoot : Node := ⟨some ⟨⟨codes "p", isText_codes _⟩, joinCodes_codes _⟩, [], .mk plainName []⟩

/-- The root has the id of a root of the pair, and the builder decodes it as that. -/
theorem unscopedList_mistaken : unscopedList.fileId = pairedRoot.fileId ∧
    completionFilePath unscopedList.fileId = (codes "x", some (codes "p")) ∧ ¬ Identified Set.univ := by
  have hid : unscopedList.fileId = pairedRoot.fileId := by decide +kernel
  refine ⟨hid, by decide +kernel, fun h => ?_⟩
  have hpair := (h.injective unscopedList trivial pairedRoot trivial hid).1
  exact absurd hpair (by decide +kernel)

end SeedSync.Paging
