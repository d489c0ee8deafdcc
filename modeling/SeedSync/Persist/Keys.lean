import SeedSync.Model.Identity

/-!
# Keys of the persisted markers

`_canonical_file_id` of `controller_persist.py`. A key is a Python string; its canonical form is
the JSON list of a path pair and a path, as `ModelFile.build_file_id` writes it.
-/

namespace SeedSync.Persist

open Lib Identity

/-! ## Reading a key -/

/-- `KEY_SEP` -/
def keySep : Nat := 31

/-- The two strings that `json.loads(key)` lists, when the key is the canonical text of them. -/
def canonicalParts (key : Str) : Option (Codes × Codes) :=
  match loads key.codes with
  | some (.list [.str pair, .str path]) => if key.codes = idText pair path then some (pair, path) else none
  | _ => none

/-- The two sides of `key.split(KEY_SEP, 1)`. -/
def beforeSep (key : Str) : Str := key.take (key.codes.idxOf keySep)

def afterSep (key : Str) : Str := key.drop (key.codes.idxOf keySep + 1)

section

-- Whether `uuid.UUID(text)` returns.
variable (isUuid : Str → Bool)

/-- The UUID-colon form: the pair is the part before the colon. -/
def isUuidColon (key : Str) : Bool :=
  decide (37 < key.codes.length) && decide (key.codes[36]? = some 58) && isUuid (key.take 36)

/-- `_canonical_file_id` -/
def canonicalFileId (key : Str) (defaultPathPairId : Option Str) : Option Str :=
  if (canonicalParts key).isSome then some key
  else if keySep ∈ key.codes then
    if (beforeSep key).codes ≠ [] then some (Identity.buildFileId (afterSep key) (some (beforeSep key))) else none
  else if isUuidColon isUuid key then some (Identity.buildFileId (key.drop 37) (some (key.take 36)))
  else defaultPathPairId.map fun pair => Identity.buildFileId key (some pair)

/-- `_canonical_resume_source_id`: a canonical id, or the bare id of the default pair. -/
def canonicalResumeSourceId (key : Str) : Option Str :=
  if canonicalFileId isUuid key none = some key then some key
  else if keySep ∈ key.codes then none
  else if isUuidColon isUuid key then none
  else
    match loads key.codes with
    | some (.list _) => none
    | _ => if key = Identity.buildFileId key none then some key else none

theorem canonicalParts_buildFileId (path pair : Str) : (canonicalParts (Identity.buildFileId path (some pair))).isSome := by
  unfold canonicalParts Identity.buildFileId
  rw [loads_idText pair.valid path.valid]
  simp [idText_joinCodes]

/-- What `_canonical_file_id` returns is the canonical text of two strings. -/
theorem canonicalFileId_canonical {key id : Str} {defaultPathPairId : Option Str}
    (h : canonicalFileId isUuid key defaultPathPairId = some id) : (canonicalParts id).isSome := by
  unfold canonicalFileId at h
  split_ifs at h with hcanonical
  · obtain rfl := Option.some.inj h
    exact hcanonical
  · obtain rfl := Option.some.inj h
    exact canonicalParts_buildFileId _ _
  · obtain rfl := Option.some.inj h
    exact canonicalParts_buildFileId _ _
  · obtain ⟨pair, -, rfl⟩ := Option.map_eq_some_iff.1 h
    exact canonicalParts_buildFileId _ _

theorem canonicalFileId_of_canonical {id : Str} (h : (canonicalParts id).isSome) (defaultPathPairId : Option Str) :
    canonicalFileId isUuid id defaultPathPairId = some id := by
  rw [canonicalFileId, if_pos h]

/-- `_canonical_file_id` is idempotent, with any default the second time. -/
theorem canonicalFileId_idem {key id : Str} {defaultPathPairId : Option Str}
    (h : canonicalFileId isUuid key defaultPathPairId = some id) (other : Option Str) :
    canonicalFileId isUuid id other = some id :=
  canonicalFileId_of_canonical isUuid (canonicalFileId_canonical isUuid h) other

/-- A canonical id is printable ASCII. -/
theorem canonicalParts_small {id : Str} (h : (canonicalParts id).isSome) : ∀ c ∈ id.codes, c ≤ 126 := by
  unfold canonicalParts at h
  split at h
  · split_ifs at h with heq
    · rw [heq]
      exact idText_small _ _
    · simp at h
  · simp at h

theorem canonicalFileId_joined {key id : Str} {defaultPathPairId : Option Str}
    (h : canonicalFileId isUuid key defaultPathPairId = some id) : id.Joined :=
  joinCodes_of_printable fun c hc => by
    have := canonicalParts_small (canonicalFileId_canonical isUuid h) c hc
    omega

theorem canonicalFileId_ne_nil {key id : Str} {defaultPathPairId : Option Str}
    (h : canonicalFileId isUuid key defaultPathPairId = some id) : id.codes ≠ [] := by
  have hcanonical := canonicalFileId_canonical isUuid h
  unfold canonicalParts at hcanonical
  split at hcanonical
  · split_ifs at hcanonical with heq
    · rw [heq, idText_eq]
      simp
    · simp at hcanonical
  · simp at hcanonical

end

end SeedSync.Persist
