import Mathlib.Data.List.DropRight

/-!
# Names and ids of model files

`ModelFile.build_file_id` writes a node of a path pair as the JSON list of the pair and the
path, and a node without a pair as its bare path. An id is kept here by what it spells. A bare
path that itself reads as such a list is not told apart from a path.
-/

namespace SeedSync

/-! ## Paths -/

/-- `os.path.join` on POSIX. -/
def osPathJoin (a b : String) : String :=
  if b.toList.head? = some '/' then b
  else if a = "" ∨ a.toList.getLast? = some '/' then a ++ b
  else a ++ "/" ++ b

/-- `path.replace("\\", "/")`. -/
def slashed (path : String) : List Char := path.toList.map fun c => if c = '\\' then '/' else c

/-- `candidate.startswith(root.rstrip("/") + "/")`, both with forward slashes. -/
def nestedPath (candidate root : String) : Bool :=
  ((slashed root).rdropWhile (· = '/') ++ ['/']).isPrefixOf (slashed candidate)

/-- `text.split("/")`. -/
def splitSlash : List Char → List (List Char)
  | [] => [[]]
  | c :: cs =>
    if c = '/' then [] :: splitSlash cs
    else
      match splitSlash cs with
      | part :: parts => (c :: part) :: parts
      | [] => [[c]]

/-- `text.split("/")`, as strings. -/
def pathParts (text : String) : List String := (splitSlash text.toList).map String.ofList

/-- The components that `os.path.normpath` keeps, in order. -/
def normComponents (absolute : Bool) : List (List Char) → List (List Char) → List (List Char)
  | kept, [] => kept
  | kept, comp :: comps =>
    if comp = [] ∨ comp = ['.'] then normComponents absolute kept comps
    else if comp ≠ ['.', '.'] ∨ (absolute = false ∧ kept = []) ∨ kept.getLast? = some ['.', '.'] then
      normComponents absolute (kept ++ [comp]) comps
    else normComponents absolute kept.dropLast comps

/-- `os.path.normpath(path.replace("\\", "/"))` on POSIX, where `normcase` changes nothing. -/
def normalizedPath (path : String) : String :=
  let text := slashed path
  let lead := match text with
    | '/' :: '/' :: '/' :: _ => ['/']
    | '/' :: '/' :: _ => ['/', '/']
    | '/' :: _ => ['/']
    | _ => []
  let joined := lead ++ ['/'].intercalate (normComponents (lead ≠ []) [] (splitSlash text))
  if joined = [] then "." else String.ofList joined

theorem slashed_append (a b : String) : slashed (a ++ b) = slashed a ++ slashed b := by
  simp [slashed]

theorem nestedPath_append {path root : String} (h : nestedPath path root = true) (rest : String) :
    nestedPath (path ++ rest) root = true := by
  unfold nestedPath at *
  rw [List.isPrefixOf_iff_prefix] at *
  rw [slashed_append]
  exact h.trans (List.prefix_append _ _)

/-- A text is what is left of it without its trailing slashes, and the slashes. -/
theorem rdropWhile_append_replicate (l : List Char) : ∃ k, l.rdropWhile (· = '/') ++ List.replicate k '/' = l := by
  induction l using List.reverseRecOn with
  | nil => exact ⟨0, rfl⟩
  | append_singleton l c ih =>
    by_cases hc : c = '/'
    · obtain ⟨k, hk⟩ := ih
      refine ⟨k + 1, ?_⟩
      rw [List.rdropWhile_concat_pos _ _ _ (by simpa using hc), List.replicate_succ', ← List.append_assoc, hk, hc]
    · exact ⟨0, by rw [List.rdropWhile_concat_neg _ _ _ (by simpa using hc)]; simp⟩

theorem nestedPath_slash (root rest : String) : nestedPath (root ++ "/" ++ rest) root = true := by
  unfold nestedPath
  rw [List.isPrefixOf_iff_prefix]
  obtain ⟨k, hk⟩ := rdropWhile_append_replicate (slashed root)
  refine ⟨List.replicate k '/' ++ slashed rest, ?_⟩
  have hslash : List.replicate k '/' ++ ['/'] = ['/'] ++ List.replicate k '/' := by
    rw [← List.replicate_succ', List.replicate_succ]
    rfl
  calc (slashed root).rdropWhile (· = '/') ++ ['/'] ++ (List.replicate k '/' ++ slashed rest)
      = (slashed root).rdropWhile (· = '/') ++ (['/'] ++ List.replicate k '/') ++ slashed rest := by
        simp only [List.append_assoc]
    _ = ((slashed root).rdropWhile (· = '/') ++ List.replicate k '/') ++ ['/'] ++ slashed rest := by
        rw [← hslash]
        simp only [List.append_assoc]
    _ = slashed (root ++ "/" ++ rest) := by
        rw [hk, slashed_append, slashed_append]
        rfl

/-- A child of a node at or below the root lies below the root. -/
theorem nestedPath_osPathJoin {path root name : String} (hpath : path ≠ "")
    (h : path = root ∨ nestedPath path root = true) (hname : name.toList.head? ≠ some '/') :
    osPathJoin path name ≠ "" ∧ nestedPath (osPathJoin path name) root = true := by
  unfold osPathJoin
  rw [if_neg hname]
  split_ifs with hslash
  · refine ⟨by simp [hpath], ?_⟩
    rcases h with rfl | h
    · have hlast : path.toList.getLast? = some '/' := hslash.resolve_left hpath
      obtain ⟨init, hinit⟩ : ∃ init : String, path = init ++ "/" := by
        obtain ⟨init, hl⟩ := List.getLast?_eq_some_iff.mp hlast
        exact ⟨String.ofList init, by rw [← String.toList_inj]; simp [hl]⟩
      have hroot : nestedPath (path ++ name) path = nestedPath (path ++ name) init := by
        unfold nestedPath
        rw [hinit, slashed_append init "/"]
        rw [show slashed "/" = ['/'] from rfl, List.rdropWhile_concat_pos _ _ _ (by simp)]
      rw [hroot, hinit]
      exact nestedPath_slash init name
    · exact nestedPath_append h name
  · refine ⟨by simp [hpath], ?_⟩
    rcases h with rfl | h
    · exact nestedPath_slash path name
    · exact nestedPath_append (nestedPath_append h "/") name

/-! ## Ids -/

inductive FileId where
  | bare (path : String)
  | paired (pair path : String)
  /-- The id of a root that a pair's status alone names: the text of `paired pair name` is its name. -/
  | statusOnly (pair name : String)
  deriving DecidableEq, Repr

/-- `json.dumps` of one character of a string. -/
def jsonChar (c : Char) : List Char :=
  let hex (n : Nat) : List Char :=
    '\\' :: 'u' :: [n / 4096, n / 256 % 16, n / 16 % 16, n % 16].map Nat.digitChar
  match c with
  | '"' => ['\\', '"']
  | '\\' => ['\\', '\\']
  | '\n' => ['\\', 'n']
  | '\r' => ['\\', 'r']
  | '\t' => ['\\', 't']
  | '\x08' => ['\\', 'b']
  | '\x0c' => ['\\', 'f']
  | c =>
    if 32 ≤ c.toNat ∧ c.toNat < 127 then [c]
    else if c.toNat < 65536 then hex c.toNat
    else hex (55296 + (c.toNat - 65536) / 1024) ++ hex (56320 + (c.toNat - 65536) % 1024)

def jsonString (s : String) : List Char := '"' :: (s.toList.flatMap jsonChar ++ ['"'])

/-- `json.dumps([pair, path], separators=(",", ":"))`. -/
def jsonPair (pair path : String) : String :=
  String.ofList ('[' :: (jsonString pair ++ ',' :: jsonString path ++ [']']))

/-- `ModelFile.build_file_id`. -/
def buildFileId (fullPath : String) : Option String → FileId
  | none => .bare fullPath
  | some pair => .paired pair fullPath

namespace FileId

/-- `ModelBuilder.__file_id_path_pair_id`. -/
def pathPairId : FileId → Option String
  | bare _ => none
  | paired pair _ => some pair
  | statusOnly pair _ => some pair

/-- The path of `ModelBuilder.__completion_file_path`. -/
def path : FileId → String
  | bare path => path
  | paired _ path => path
  | statusOnly pair name => jsonPair pair name

/-- The id as the source has it. -/
def text : FileId → String
  | bare path => path
  | paired pair path => jsonPair pair path
  | statusOnly pair name => jsonPair pair (jsonPair pair name)

/-- The node that an id stands for. -/
def node : FileId → FileId
  | statusOnly pair name => paired pair name
  | id => id

/-- The id that the path alone spells. -/
def unscoped : FileId → FileId
  | statusOnly pair name => paired pair name
  | id => bare id.path

/-- `ModelBuilder.__candidate_snapshot_root_aliases`. -/
def rootAliases (root : FileId) : List FileId :=
  match root with
  | bare path => [bare path]
  | id => [id, id.unscoped]

/-- `ModelFile.file_id` of a root that neither scan knows. -/
def statusOnlyId : FileId → FileId
  | paired pair name => statusOnly pair name
  | id => id

end FileId

@[simp] theorem buildFileId_path (path : String) (pair : Option String) : (buildFileId path pair).path = path := by
  cases pair <;> rfl

@[simp] theorem buildFileId_pathPairId (path : String) (pair : Option String) :
    (buildFileId path pair).pathPairId = pair := by cases pair <;> rfl

end SeedSync
