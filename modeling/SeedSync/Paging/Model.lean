import Mathlib.Data.List.Lex
import SeedSync.Lib.Paging
import SeedSync.Paging.Cursor

/-!
# Files by id

The roots of the model in the order of their ids, and how the controller finds the file of an id:
`__scoped_file_path`, `__resolve_scoped_model_file` and `__scoped_model_file_candidates`. Of a file
only its name and its children are kept; the other fields of a record are not read by a page.
-/

namespace SeedSync.Paging

open Lib Identity

/-! ## Paths -/

/-- The name of a file: what a directory lists. -/
structure Name where
  text : Codes
  valid : IsText text
  joined : joinCodes text = text
  nonempty : text ≠ []
  plain : 47 ∉ text
  notSelf : text ≠ [46]
  notParent : text ≠ [46, 46]

namespace Name

theorem text_injective : Function.Injective text := by
  rintro ⟨⟩ ⟨⟩ rfl
  rfl

instance : DecidableEq Name := text_injective.decidableEq

end Name

theorem Name.ext_text {a b : Name} (h : a.text = b.text) : a = b := by
  cases a
  cases b
  simpa using h

/-- `os.path.join` -/
def joinPath (a b : Codes) : Codes :=
  if b.head? = some 47 then b
  else if a = [] ∨ a.getLast? = some 47 then a ++ b
  else a ++ 47 :: b

/-- `ModelFile.full_path`, by the names from the root on. -/
def fullPath : List Name → Codes
  | [] => []
  | root :: names => names.foldl (fun path name => joinPath path name.text) root.text

/-- One component in `os.path.normpath` of a relative path. -/
def normStep (kept : List Codes) (component : Codes) : List Codes :=
  if component = [] ∨ component = [46] then kept
  else if component ≠ [46, 46] ∨ kept = [] ∨ kept.getLast? = some [46, 46] then kept ++ [component]
  else kept.dropLast

/-- `os.path.normpath` of a relative path -/
def normpath (path : Codes) : Codes :=
  let joined := [47].intercalate ((path.splitOn 47).foldl normStep [])
  if joined = [] then [46] else joined

theorem Name.head_ne (name : Name) : name.text.head? ≠ some 47 := by
  intro h
  exact name.plain (List.mem_of_mem_head? h)

theorem Name.last_ne (name : Name) : name.text.getLast? ≠ some 47 := by
  intro h
  exact name.plain (List.mem_of_getLast? h)

theorem joinPath_name {path : Codes} (hne : path ≠ []) (hlast : path.getLast? ≠ some 47) (name : Name) :
    joinPath path name.text = path ++ 47 :: name.text := by
  rw [joinPath, if_neg name.head_ne, if_neg (by simp [hne, hlast])]

theorem fullPath_end {names : List Name} (h : names ≠ []) :
    fullPath names ≠ [] ∧ (fullPath names).getLast? ≠ some 47 := by
  induction names using List.reverseRecOn with
  | nil => exact absurd rfl h
  | append_singleton names name ih =>
    cases names with
    | nil => exact ⟨name.nonempty, name.last_ne⟩
    | cons root names =>
      obtain ⟨hne, hlast⟩ := ih (by simp)
      simp only [fullPath, List.cons_append, List.foldl_append, List.foldl_cons, List.foldl_nil] at hne hlast ⊢
      rw [joinPath_name hne hlast]
      have hend : (name.text).getLast? = (47 :: name.text).getLast? := by
        cases htext : name.text with
        | nil => exact absurd htext name.nonempty
        | cons c text => rw [List.getLast?_cons_cons]
      refine ⟨by simp, ?_⟩
      rw [List.getLast?_append_of_ne_nil _ (by simp), ← hend]
      exact name.last_ne

theorem fullPath_concat {names : List Name} (h : names ≠ []) (name : Name) :
    fullPath (names ++ [name]) = fullPath names ++ 47 :: name.text := by
  obtain ⟨hne, hlast⟩ := fullPath_end h
  cases names with
  | nil => exact absurd rfl h
  | cons root names =>
    simp only [fullPath, List.cons_append, List.foldl_append, List.foldl_cons, List.foldl_nil] at hne hlast ⊢
    exact joinPath_name hne hlast name

/-- A path says its names. -/
theorem splitOn_fullPath {names : List Name} (h : names ≠ []) : (fullPath names).splitOn 47 = names.map (·.text) := by
  induction names using List.reverseRecOn with
  | nil => exact absurd rfl h
  | append_singleton names name ih =>
    by_cases hne : names = []
    · subst hne
      exact List.splitOn_eq_singleton name.plain
    · rw [fullPath_concat hne, List.splitOn_append_cons_self, ih hne, List.splitOn_eq_singleton name.plain,
        List.map_append, List.map_singleton]

theorem fullPath_injective {names names' : List Name} (h : names ≠ []) (h' : names' ≠ [])
    (hpath : fullPath names = fullPath names') : names = names' := by
  have hsplit := congrArg (List.splitOn 47) hpath
  rw [splitOn_fullPath h, splitOn_fullPath h'] at hsplit
  exact List.map_injective_iff.2 (fun _ _ => Name.ext_text) hsplit

theorem foldl_normStep (kept : List Codes) (names : List Name) :
    (names.map (·.text)).foldl normStep kept = kept ++ names.map (·.text) := by
  induction names generalizing kept with
  | nil => simp
  | cons name names ih =>
    have hstep : normStep kept name.text = kept ++ [name.text] := by
      rw [normStep, if_neg (by simp [name.nonempty, name.notSelf]), if_pos (.inl name.notParent)]
    rw [List.map_cons, List.foldl_cons, hstep, ih, List.append_assoc, List.singleton_append]

theorem normpath_fullPath {names : List Name} (h : names ≠ []) : normpath (fullPath names) = fullPath names := by
  have hjoin : [47].intercalate ((fullPath names).splitOn 47) = fullPath names := List.intercalate_splitOn 47
  unfold normpath
  rw [splitOn_fullPath h] at hjoin ⊢
  rw [foldl_normStep, List.nil_append, hjoin, if_neg (fullPath_end h).1]

theorem joinCodes_slash (a b : Codes) : joinCodes (a ++ 47 :: b) = joinCodes a ++ 47 :: joinCodes b := by
  have hslash : joinCodes (47 :: b) = 47 :: joinCodes b := joinCodes_skip (.inl (by decide))
  fun_induction joinCodes a with
  | case1 => exact hslash
  | case2 c =>
    rw [List.singleton_append, joinCodes_skip (.inr (by simp [isLowSurrogate])), hslash]
    rfl
  | case3 c d rest hpair ih =>
    rw [List.cons_append, List.cons_append, joinCodes, if_pos hpair, ih]
    rfl
  | case4 c d rest hpair ih =>
    rw [List.cons_append, List.cons_append, joinCodes, if_neg hpair, ← List.cons_append, ih]
    rfl

theorem fullPath_text (names : List Name) : IsText (fullPath names) ∧ joinCodes (fullPath names) = fullPath names := by
  induction names using List.reverseRecOn with
  | nil => exact ⟨by simp [fullPath, IsText], rfl⟩
  | append_singleton names name ih =>
    by_cases hne : names = []
    · subst hne
      exact ⟨name.valid, name.joined⟩
    · rw [fullPath_concat hne]
      refine ⟨?_, by rw [joinCodes_slash, ih.2, name.joined]⟩
      intro c hc
      rcases List.mem_append.1 hc with hc | hc
      · exact ih.1 c hc
      · rcases List.mem_cons.1 hc with rfl | hc
        · decide
        · exact name.valid c hc

/-! ## Files -/

inductive File where
  | mk (name : Name) (children : List File)

def File.name : File → Name
  | mk name _ => name

def File.children : File → List File
  | mk _ children => children

/-- `add_child` admits a name once. -/
inductive File.Proper : File → Prop
  | mk {name : Name} {children : List File} (hnames : (children.map File.name).Nodup)
      (hchildren : ∀ child ∈ children, child.Proper) : (File.mk name children).Proper

theorem File.Proper.names {file : File} (h : file.Proper) : (file.children.map File.name).Nodup := by
  cases h with
  | mk hnames _ => exact hnames

theorem File.Proper.child {file child : File} (h : file.Proper) (hchild : child ∈ file.children) : child.Proper := by
  cases h with
  | mk _ hchildren => exact hchildren child hchild

/-- `ModelFile.build_file_id` -/
def fileIdOf (pair : Option Text) (path : Codes) : Codes :=
  match pair with
  | none => path
  | some pair => idText pair.str.codes path

/-- A file in its place: its path pair and the names above it. -/
structure Node where
  pair : Option Text
  parents : List Name
  file : File

namespace Node

def names (node : Node) : List Name := node.parents ++ [node.file.name]

/-- `ModelFile.file_id` -/
def fileId (node : Node) : Codes := fileIdOf node.pair (fullPath node.names)

/-- `iter_children` -/
def children (node : Node) : List Node := node.file.children.map fun child => ⟨node.pair, node.names, child⟩

theorem names_ne_nil (node : Node) : node.names ≠ [] := by simp [names]

theorem fileId_ne_nil (node : Node) : node.fileId ≠ [] := by
  unfold fileId fileIdOf
  cases node.pair with
  | none => exact (fullPath_end node.names_ne_nil).1
  | some pair => simp [idText_eq]

theorem fileId_isText (node : Node) : IsText node.fileId := by
  unfold fileId fileIdOf
  cases node.pair with
  | none => exact (fullPath_text node.names).1
  | some pair =>
    intro c hc
    have := idText_small _ _ c hc
    omega

theorem fileId_joined (node : Node) : joinCodes node.fileId = node.fileId := by
  unfold fileId fileIdOf
  cases node.pair with
  | none => exact (fullPath_text node.names).2
  | some pair =>
    refine joinCodes_of_printable fun c hc => ?_
    have := idText_small _ _ c hc
    omega

/-- An id is a string that a decoder gives back. -/
def idAsText (node : Node) : Text where
  str := ⟨node.fileId, node.fileId_isText⟩
  joined := node.fileId_joined

end Node

/-- A root of the model. -/
structure Root where
  pair : Option Text
  file : File
  proper : file.Proper

def Root.node (root : Root) : Node := ⟨root.pair, [], root.file⟩

def Root.fileId (root : Root) : Codes := root.node.fileId

/-- The model at a request. -/
structure Snapshot where
  /-- `iter_files_by_id` -/
  roots : List Root
  sorted : (roots.map Root.fileId).Pairwise (· < ·)
  /-- `scope_version` -/
  scopeVersion : Option Text → Nat

/-! ## Looking up an id -/

/-- `Model.get_file`: by id, or else by a bare name that one root has. -/
def getFile (m : Snapshot) (identifier : Codes) : Option Root :=
  match m.roots.find? fun root => decide (root.fileId = identifier) with
  | some root => some root
  | none =>
    match m.roots.filter fun root => decide (root.file.name.text = identifier) with
    | [root] => some root
    | _ => none

/-- `MODEL_LEGACY_SCOPE_ID` -/
def modelLegacyScopeId : Codes := codes "__legacy__"

/-- `expected_path_pair_id` -/
def expectedPathPairId (scope : Text) : Option Text :=
  if scope.str.codes = modelLegacyScopeId then none else some scope

/-- The path that an id names in a scope. -/
def namedPath (scope : Text) (fileId : Codes) : Option Codes :=
  match expectedPathPairId scope with
  | none => some fileId
  | some pair =>
    match loads fileId with
    | some (.list [.str owner, .str path]) => if owner = pair.str.codes then some path else none
    | _ => none

/-- `__scoped_file_path`; `none` is a `ModelPageCursorError`. -/
def scopedFilePath (scope : Text) (fileId : Codes) : Option Codes :=
  (namedPath scope fileId).bind fun path =>
    if path = [] ∨ path.head? = some 47 then none
    else
      let normalized := normpath path
      if normalized = [46] ∨ normalized = [46, 46] ∨ normalized.take 3 = [46, 46, 47] then none
      else if fileIdOf (expectedPathPairId scope) normalized = fileId then some normalized
      else none

/-- The walk from a root along the names behind it. -/
def descend (node : Node) : List Codes → Option Node
  | [] => some node
  | component :: rest =>
    (node.children.find? fun child => decide (child.file.name.text = component)).bind fun child => descend child rest

/-- `__resolve_scoped_model_file` -/
def resolveScopedModelFile (m : Snapshot) (scope : Text) (fileId : Codes) : Option Node :=
  (scopedFilePath scope fileId).bind fun path =>
    match path.splitOn 47 with
    | [] => none
    | first :: rest =>
      if first = [] ∨ [] ∈ rest then none
      else
        (getFile m (fileIdOf (expectedPathPairId scope) first)).bind fun root =>
          if root.pair = expectedPathPairId scope then
            (descend root.node rest).filter fun node => decide (node.fileId = fileId)
          else none

/-- `__scoped_model_file_candidates` -/
def scopedModelFileCandidates (m : Snapshot) (scope : Text) (parent : Option Text) : Option (List Node) :=
  match parent with
  | some parent => (resolveScopedModelFile m scope parent.str.codes).map Node.children
  | none =>
    some ((m.roots.filter fun root => decide (root.pair = expectedPathPairId scope)).map Root.node)

/-! ## The files of a scope -/

/-- The file lies in a root of the path pair. -/
inductive Within (m : Snapshot) (pair : Option Text) : Node → Prop
  | root {root : Root} (hroot : root ∈ m.roots) (hpair : root.pair = pair) : Within m pair root.node
  | child {node child : Node} (hnode : Within m pair node) (hchild : child ∈ node.children) : Within m pair child

/-- The ids that a page lists: the roots of the scope, or the children of the parent in it. -/
inductive IsRow (m : Snapshot) (scope : Text) : Option Text → Codes → Prop
  | root {root : Root} (hroot : root ∈ m.roots) (hpair : root.pair = expectedPathPairId scope) :
      IsRow m scope none root.fileId
  | child {node child : Node} {parent : Text} (hnode : Within m (expectedPathPairId scope) node)
      (hparent : node.fileId = parent.str.codes) (hchild : child ∈ node.children) : IsRow m scope (some parent) child.fileId

section Scope

variable {m : Snapshot} {pair : Option Text} {scope : Text}

theorem eq_of_rootId {a b : Root} (ha : a ∈ m.roots) (hb : b ∈ m.roots) (h : a.fileId = b.fileId) : a = b := by
  have hnodup : (m.roots.map Root.fileId).Nodup := m.sorted.imp fun hlt => ne_of_lt hlt
  exact List.inj_on_of_nodup_map hnodup ha hb h

theorem getFile_mem {identifier : Codes} {root : Root} (h : getFile m identifier = some root) : root ∈ m.roots := by
  unfold getFile at h
  split at h
  · next found hfound =>
    rw [← Option.some.inj h]
    exact List.mem_of_find?_eq_some hfound
  · split at h
    · next found hfound =>
      rw [← Option.some.inj h]
      have hmem : found ∈ m.roots.filter fun root => decide (root.file.name.text = identifier) := by simp [hfound]
      exact List.mem_of_mem_filter hmem
    · simp at h

theorem getFile_of_mem {root : Root} (hroot : root ∈ m.roots) : getFile m root.fileId = some root := by
  have hfind : m.roots.find? (fun other => decide (other.fileId = root.fileId)) = some root := by
    cases hfound : m.roots.find? (fun other => decide (other.fileId = root.fileId)) with
    | none => simpa using List.find?_eq_none.1 hfound root hroot
    | some other =>
      have hid : other.fileId = root.fileId := by simpa using List.find?_some hfound
      rw [eq_of_rootId (List.mem_of_find?_eq_some hfound) hroot hid]
  rw [getFile, hfind]

theorem descend_append (node : Node) (components : List Codes) (last : Codes) :
    descend node (components ++ [last]) =
      (descend node components).bind fun found =>
        found.children.find? fun child => decide (child.file.name.text = last) := by
  induction components generalizing node with
  | nil => simp [descend]
  | cons component components ih =>
    rw [List.cons_append, descend, descend]
    cases node.children.find? fun child => decide (child.file.name.text = component) with
    | none => rfl
    | some child => simpa using ih child

theorem find_child {node child : Node} (hproper : node.file.Proper) (hchild : child ∈ node.children) :
    (node.children.find? fun other => decide (other.file.name.text = child.file.name.text)) = some child := by
  cases hfound : node.children.find? fun other => decide (other.file.name.text = child.file.name.text) with
  | none => simpa using List.find?_eq_none.1 hfound child hchild
  | some other =>
    have hname : other.file.name = child.file.name := Name.ext_text (by simpa using List.find?_some hfound)
    have hother := List.mem_of_find?_eq_some hfound
    have hnodup : (node.children.map fun node => node.file.name).Nodup := by
      rw [Node.children, List.map_map]
      exact hproper.names
    rw [List.inj_on_of_nodup_map hnodup hother hchild hname]

/-- A file of the scope is where its names lead. -/
theorem Within.located {node : Node} (h : Within m pair node) :
    node.pair = pair ∧ node.file.Proper ∧ ∃ root ∈ m.roots, root.pair = pair ∧
      ∃ rest : List Name, node.names = root.file.name :: rest ∧ descend root.node (rest.map (·.text)) = some node := by
  induction h with
  | @root root hroot hpair => exact ⟨hpair, root.proper, root, hroot, hpair, [], rfl, rfl⟩
  | @child node child _ hchild ih =>
    obtain ⟨hpair, hproper, root, hroot, hrootPair, rest, hnames, hdescend⟩ := ih
    have hfind := find_child hproper hchild
    obtain ⟨file, hfile, rfl⟩ := List.mem_map.1 hchild
    refine ⟨hpair, hproper.child hfile, root, hroot, hrootPair, rest ++ [file.name], ?_, ?_⟩
    · rw [Node.names, hnames, List.cons_append]
    · rw [List.map_append, List.map_singleton, descend_append, hdescend]
      exact hfind

theorem Within.descend {node found : Node} {components : List Codes} (h : Within m pair node)
    (hfound : descend node components = some found) : Within m pair found := by
  induction components generalizing node with
  | nil => exact Option.some.inj hfound ▸ h
  | cons component components ih =>
    rw [Paging.descend] at hfound
    obtain ⟨child, hchild, hrest⟩ := Option.bind_eq_some_iff.1 hfound
    exact ih (h.child (List.mem_of_find?_eq_some hchild)) hrest

theorem scopedFilePath_fileId {node : Node} (hpair : node.pair = expectedPathPairId scope) :
    scopedFilePath scope node.fileId = some (fullPath node.names) := by
  have hsplit := splitOn_fullPath node.names_ne_nil
  have hend := fullPath_end node.names_ne_nil
  have hnamed : namedPath scope node.fileId = some (fullPath node.names) := by
    unfold namedPath Node.fileId fileIdOf
    rw [hpair]
    cases expectedPathPairId scope with
    | none => rfl
    | some pair =>
      have htext := fullPath_text node.names
      simp only [loads_idText pair.str.valid htext.1]
      have hjoined : joinCodes pair.str.codes = pair.str.codes := pair.joined
      rw [htext.2, if_pos hjoined]
  have hcomponent : ∀ component ∈ (fullPath node.names).splitOn 47, component ≠ [] ∧ component ≠ [46] ∧
      component ≠ [46, 46] := by
    intro component hmem
    rw [hsplit] at hmem
    obtain ⟨name, -, rfl⟩ := List.mem_map.1 hmem
    exact ⟨name.nonempty, name.notSelf, name.notParent⟩
  rw [scopedFilePath, hnamed, Option.bind_some, if_neg, normpath_fullPath node.names_ne_nil]
  · simp only
    rw [if_neg, if_pos]
    · rw [← hpair]
      rfl
    · rintro (h | h | h)
      · rw [h] at hcomponent
        exact (hcomponent [46] (by decide)).2.1 rfl
      · rw [h] at hcomponent
        exact (hcomponent [46, 46] (by decide)).2.2 rfl
      · obtain ⟨rest, hrest⟩ : ∃ rest, fullPath node.names = [46, 46] ++ 47 :: rest :=
          ⟨(fullPath node.names).drop 3, by
            conv_lhs => rw [← List.take_append_drop 3 (fullPath node.names), h]
            rfl⟩
        rw [hrest, List.splitOn_append_cons_self_of_not_mem (by decide)] at hcomponent
        exact (hcomponent [46, 46] (by simp)).2.2 rfl
  · rintro (h | h)
    · exact hend.1 h
    · obtain ⟨rest, hrest⟩ : ∃ rest, fullPath node.names = [] ++ 47 :: rest := List.head?_eq_some_iff.1 h
      rw [hrest, List.splitOn_append_cons_self_of_not_mem (by simp)] at hcomponent
      exact (hcomponent [] (by simp)).1 rfl

/-- The lookup finds the file of the id, wherever it lies in the scope. -/
theorem resolveScopedModelFile_iff {fileId : Codes} {node : Node} :
    resolveScopedModelFile m scope fileId = some node ↔
      Within m (expectedPathPairId scope) node ∧ node.fileId = fileId := by
  constructor
  · intro h
    obtain ⟨path, -, h⟩ := Option.bind_eq_some_iff.1 h
    split at h
    · simp at h
    · next first rest _ =>
      split_ifs at h with hempty
      obtain ⟨root, hroot, h⟩ := Option.bind_eq_some_iff.1 h
      split_ifs at h with hpair
      obtain ⟨hdescend, hid⟩ := Option.filter_eq_some_iff.1 h
      exact ⟨(Within.root (getFile_mem hroot) hpair).descend hdescend, by simpa using hid⟩
  · rintro ⟨hwithin, rfl⟩
    obtain ⟨hpair, -, root, hroot, hrootPair, rest, hnames, hdescend⟩ := hwithin.located
    have hsplit := splitOn_fullPath node.names_ne_nil
    rw [hnames, List.map_cons] at hsplit
    rw [resolveScopedModelFile, scopedFilePath_fileId hpair, Option.bind_some, hnames, hsplit]
    have hrootId : fileIdOf (expectedPathPairId scope) root.file.name.text = root.fileId := by
      rw [← hrootPair]
      rfl
    have hsolid : ¬(root.file.name.text = [] ∨ [] ∈ rest.map (·.text)) := by
      rintro (h | h)
      · exact root.file.name.nonempty h
      · obtain ⟨name, -, hname⟩ := List.mem_map.1 h
        exact name.nonempty hname
    simp only
    rw [if_neg hsolid, hrootId, getFile_of_mem hroot, Option.bind_some, if_pos hrootPair, hdescend]
    simp

/-- No two files of a scope have one id. -/
theorem Within.unique {a b : Node} (ha : Within m (expectedPathPairId scope) a)
    (hb : Within m (expectedPathPairId scope) b) (h : a.fileId = b.fileId) : a = b := by
  have hfound := resolveScopedModelFile_iff.2 ⟨ha, h⟩
  rw [resolveScopedModelFile_iff.2 ⟨hb, rfl⟩] at hfound
  exact (Option.some.inj hfound).symm

theorem candidates_within {parent : Option Text} {nodes : List Node}
    (h : scopedModelFileCandidates m scope parent = some nodes) :
    ∀ node ∈ nodes, Within m (expectedPathPairId scope) node := by
  intro node hnode
  cases parent with
  | none =>
    rw [← Option.some.inj h] at hnode
    obtain ⟨root, hroot, rfl⟩ := List.mem_map.1 hnode
    obtain ⟨hmem, hpair⟩ := List.mem_filter.1 hroot
    exact .root hmem (by simpa using hpair)
  | some parent =>
    obtain ⟨found, hfound, rfl⟩ := Option.map_eq_some_iff.1 h
    exact (resolveScopedModelFile_iff.1 hfound).1.child hnode

/-- The candidates are the rows of the page. -/
theorem mem_candidates {parent : Option Text} {nodes : List Node}
    (h : scopedModelFileCandidates m scope parent = some nodes) (id : Codes) :
    id ∈ nodes.map Node.fileId ↔ IsRow m scope parent id := by
  cases parent with
  | none =>
    rw [← Option.some.inj h]
    constructor
    · intro hid
      obtain ⟨node, hnode, rfl⟩ := List.mem_map.1 hid
      obtain ⟨root, hroot, rfl⟩ := List.mem_map.1 hnode
      obtain ⟨hmem, hpair⟩ := List.mem_filter.1 hroot
      exact .root hmem (by simpa using hpair)
    · rintro (⟨hroot, hpair⟩ | _)
      exact List.mem_map_of_mem (List.mem_map_of_mem (List.mem_filter.2 ⟨hroot, by simpa using hpair⟩))
  | some parent =>
    obtain ⟨found, hfound, rfl⟩ := Option.map_eq_some_iff.1 h
    obtain ⟨hwithin, hid⟩ := resolveScopedModelFile_iff.1 hfound
    constructor
    · intro hmem
      obtain ⟨child, hchild, rfl⟩ := List.mem_map.1 hmem
      exact .child hwithin hid hchild
    · rintro (_ | ⟨hnode, hparent, hchild⟩)
      rw [hnode.unique hwithin (hparent.trans hid.symm)] at hchild
      exact List.mem_map_of_mem hchild

theorem candidates_nodup {parent : Option Text} {nodes : List Node}
    (h : scopedModelFileCandidates m scope parent = some nodes) : (nodes.map Node.fileId).Nodup := by
  have hwithin := candidates_within h
  refine List.Nodup.map_on (fun a ha b hb hid => (hwithin a ha).unique (hwithin b hb) hid) ?_
  cases parent with
  | none =>
    rw [← Option.some.inj h]
    have hids : ((m.roots.filter fun root => decide (root.pair = expectedPathPairId scope)).map Root.fileId).Nodup :=
      (m.sorted.sublist (List.filter_sublist.map _)).imp fun hlt => ne_of_lt hlt
    rw [show Root.fileId = Node.fileId ∘ Root.node from rfl, ← List.map_map] at hids
    exact hids.of_map _
  | some parent =>
    obtain ⟨found, hfound, rfl⟩ := Option.map_eq_some_iff.1 h
    have hnames := (resolveScopedModelFile_iff.1 hfound).1.located.2.1.names
    rw [Node.children]
    refine List.Nodup.map_on ?_ (hnames.of_map _)
    intro a _ b _ hnode
    exact (Node.mk.inj hnode).2.2

/-- The roots come in the order of their ids. -/
theorem candidates_sorted {nodes : List Node} (h : scopedModelFileCandidates m scope none = some nodes) :
    (nodes.map Node.fileId).Pairwise (· < ·) := by
  rw [← Option.some.inj h, List.map_map]
  exact m.sorted.sublist (List.filter_sublist.map _)

end Scope

end SeedSync.Paging
