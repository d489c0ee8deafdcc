import SeedSync.Paging.Model

/-!
# Following the pages

A page as `__get_page` answers a request, and the client that follows `next_cursor` while the model
changes between its requests.
-/

namespace SeedSync.Paging

open Lib Identity

/-- `_MAX_LIMIT` bounds what a request may ask for. -/
abbrev Limit := { n : Nat // 1 ≤ n ∧ n ≤ 200 }

/-! ## One page -/

/-- `__bounded_model_page_files` -/
def boundedModelPageFiles (candidates : List Node) (limit : Nat) (after : Option Codes) (parent : Option Text) :
    Selection Node :=
  match parent with
  | none => candidates.foldl (selectOrdered Node.fileId limit after) {}
  | some _ =>
    let s := candidates.foldl (selectHeap Node.fileId limit after) {}
    { s with selected := s.selected.insertionSort fun a b => a.fileId ≤ b.fileId }

structure ModelPage where
  version : Nat
  total : Nat
  files : List Node
  nextCursorFileId : Option Codes

/-- `__get_model_page_locked`; `none` is a `ModelPageCursorError`. -/
def getModelPage (m : Snapshot) (scope : Text) (limit : Nat) (position : Position) (parent : Option Text) :
    Option ModelPage :=
  (scopedModelFileCandidates m scope parent).map fun candidates =>
    let s := boundedModelPageFiles candidates limit position.afterId parent
    { version := m.scopeVersion (expectedPathPairId scope)
      total := s.total
      files := s.selected
      nextCursorFileId := if s.hasSuccessor then s.selected.getLast?.map Node.fileId else none }

structure Page where
  modelVersion : Nat
  total : Nat
  records : List Codes
  nextCursor : Option Codes

/-- `__public_page` -/
def publicPage (scope : Text) (parent : Option Text) (page : ModelPage) : Page where
  modelVersion := page.version
  total := page.total
  records := page.files.map Node.fileId
  nextCursor := encodeCursor page.version scope.str.codes (parent.map (·.str.codes)) page.nextCursorFileId
    (page.nextCursorFileId.filter fun id => !id.isEmpty)

inductive Response where
  | page (page : Page)
  /-- 400, "cursor is invalid" -/
  | badRequest
  /-- `cursor_reset_required` -/
  | resetRequired
  /-- `invalid_model_cursor` -/
  | invalidModelCursor

/-- `__get_page` -/
def getPage (m : Snapshot) (scope : Text) (parent : Option Text) (limit : Limit) (cursor : Option Codes) : Response :=
  match decodeCursor cursor scope.str.codes (parent.map (·.str.codes)) with
  | .error .invalid => .badRequest
  | .error .contract => .resetRequired
  | .ok position =>
    match getModelPage m scope limit position parent with
    | none => .invalidModelCursor
    | some page => .page (publicPage scope parent page)

section Page

variable {m : Snapshot} {scope : Text} {parent : Option Text} {limit : Limit}

theorem boundedModelPageFiles_isLeast (limit : Limit) {nodes : List Node} (h : scopedModelFileCandidates m scope parent = some nodes)
    (after : Option Codes) :
    let s := boundedModelPageFiles nodes limit after parent
    IsLeast limit.1 (rowsAbove (fun id => id) after (nodes.map Node.fileId)) (s.selected.map Node.fileId) ∧
      (s.hasSuccessor = true ↔ limit.1 < (rowsAbove (fun id => id) after (nodes.map Node.fileId)).length) := by
  have hnodup := candidates_nodup h
  rw [← map_rowsAbove, List.length_map]
  cases parent with
  | none =>
    obtain ⟨-, hselected, hmore⟩ := foldl_selectOrdered Node.fileId limit.1 after nodes
    refine ⟨?_, hmore⟩
    simp only [boundedModelPageFiles]
    rw [hselected, List.map_take]
    refine isLeast_take limit.1 ?_
    exact (candidates_sorted h).sublist (List.filter_sublist.map _)
  | some parent =>
    exact ⟨selectHeap_isLeast limit.2.1 hnodup, (foldl_selectHeap after limit.2.1 hnodup).hasSuccessor⟩

/-- What a page says of the rows: it holds the least of them above the position, and goes on when
there are more. -/
theorem getModelPage_spec {position : Position} {page : ModelPage}
    (h : getModelPage m scope limit position parent = some page) :
    ∃ rows : List Codes, (∀ id, id ∈ rows ↔ IsRow m scope parent id) ∧ rows.Nodup ∧
      IsLeast limit.1 (rowsAbove (fun id => id) position.afterId rows) (page.files.map Node.fileId) ∧
      (page.nextCursorFileId = none ∧ (rowsAbove (fun id => id) position.afterId rows).length ≤ limit.1 ∨
        ∃ node : Node, page.nextCursorFileId = some node.fileId ∧ (page.files.map Node.fileId).getLast? = some node.fileId ∧
          limit.1 < (rowsAbove (fun id => id) position.afterId rows).length) := by
  obtain ⟨nodes, hnodes, rfl⟩ := Option.map_eq_some_iff.1 h
  obtain ⟨hleast, hmore⟩ := boundedModelPageFiles_isLeast limit hnodes position.afterId
  refine ⟨nodes.map Node.fileId, mem_candidates hnodes, candidates_nodup hnodes, hleast, ?_⟩
  simp only
  generalize boundedModelPageFiles nodes limit position.afterId parent = s at hleast hmore ⊢
  by_cases hsuccessor : s.hasSuccessor = true
  · have hlong := hmore.1 hsuccessor
    have hlength := hleast.length
    have hpositive := limit.2.1
    rw [List.length_map] at hlength
    cases hlast : s.selected.getLast? with
    | none =>
      rw [List.getLast?_eq_none_iff.1 hlast, List.length_nil] at hlength
      omega
    | some node =>
      refine .inr ⟨node, by rw [if_pos hsuccessor]; rfl, ?_, hlong⟩
      rw [List.getLast?_map, hlast]
      rfl
  · refine .inl ⟨if_neg hsuccessor, ?_⟩
    rw [hmore] at hsuccessor
    omega

end Page

/-! ## The client -/

inductive Outcome where
  /-- A page without `next_cursor`. -/
  | complete
  /-- The server does not take its own cursor. -/
  | refused
  | parentGone
  /-- The client has not come to the end. -/
  | unfinished
  deriving DecidableEq, Repr

structure Walk where
  outcome : Outcome
  /-- The model at each request. -/
  requests : List Snapshot
  received : List Codes

/-- The requests of a client, the model at each of them as given. -/
def follow (scope : Text) (parent : Option Text) (limit : Limit) : Option Codes → List Snapshot → Walk
  | _, [] => ⟨.unfinished, [], []⟩
  | cursor, m :: later =>
    match getPage m scope parent limit cursor with
    | .page page =>
      match page.nextCursor with
      | none => ⟨.complete, [m], page.records⟩
      | some next =>
        let rest := follow scope parent limit (some next) later
        ⟨rest.outcome, m :: rest.requests, page.records ++ rest.received⟩
    | .invalidModelCursor => ⟨.parentGone, [m], []⟩
    | .badRequest => ⟨.refused, [m], []⟩
    | .resetRequired => ⟨.refused, [m], []⟩

section Client

variable {scope : Text} {parent : Option Text} {limit : Limit}

theorem publicPage_nextCursor (page : ModelPage) (h : page.nextCursorFileId = none) :
    (publicPage scope parent page).nextCursor = none := by
  rw [publicPage, h]
  rfl

/-- The cursor of a page, when it is taken at all, leads behind its last row. -/
theorem publicPage_position (scope : Text) (parent : Option Text) (page : ModelPage) (node : Node) (h : page.nextCursorFileId = some node.fileId) :
    ∃ cursor, (publicPage scope parent page).nextCursor = some cursor ∧
      (decodeCursor (some cursor) scope.str.codes (parent.map (·.str.codes)) = .error .invalid ∧
          ¬Fits page.version scope.str.codes (parent.map (·.str.codes)) node.fileId ∨
        ∃ position, decodeCursor (some cursor) scope.str.codes (parent.map (·.str.codes)) = .ok position ∧
          position.afterId = some node.fileId) := by
  have hdecode := decodeCursor_encodeCursor page.version scope parent node.idAsText
  have hkey : (some node.fileId).filter (fun id => !id.isEmpty) = some node.fileId := by
    simp [node.fileId_ne_nil]
  refine ⟨_, by rw [publicPage, h, hkey]; rfl, ?_⟩
  split_ifs at hdecode with hfits
  · exact .inr ⟨_, hdecode, rfl⟩
  · exact .inl ⟨hdecode, hfits⟩

theorem follow_refused {cursor : Option Codes}
    (h : decodeCursor cursor scope.str.codes (parent.map (·.str.codes)) = .error .invalid) (later : List Snapshot) :
    (follow scope parent limit cursor later).outcome ≠ .complete := by
  cases later with
  | nil => simp [follow]
  | cons m later => simp [follow, getPage, h]

/-- A client that comes to the end has followed the pages of the rows. -/
theorem follow_follows {cursor : Option Codes} {position : Position} {snapshots : List Snapshot}
    (hposition : decodeCursor cursor scope.str.codes (parent.map (·.str.codes)) = .ok position)
    (h : (follow scope parent limit cursor snapshots).outcome = .complete) :
    ∃ rows : List (List Codes),
      (∀ r ∈ rows, ∃ m ∈ (follow scope parent limit cursor snapshots).requests,
        ∀ id, id ∈ r ↔ IsRow m scope parent id) ∧
      Follows limit.1 position.afterId rows (follow scope parent limit cursor snapshots).received := by
  induction snapshots generalizing cursor position with
  | nil => simp [follow] at h
  | cons m later ih =>
    simp only [follow, getPage, hposition] at h ⊢
    cases hpage : getModelPage m scope limit position parent with
    | none => simp [hpage] at h
    | some page =>
      obtain ⟨rows, hrows, -, hleast, hend | ⟨node, hnext, hlast, -⟩⟩ := getModelPage_spec hpage
      · simp only [publicPage_nextCursor page hend.1]
        exact ⟨[rows], by simpa using hrows, .last hleast hend.2⟩
      · obtain ⟨next, hcursor, hrefused | ⟨position', hposition', hafter⟩⟩ :=
          publicPage_position scope parent page node hnext
        · simp only [hpage, hcursor] at h
          exact absurd h (follow_refused hrefused.1 later)
        · simp only [hpage, hcursor] at h ⊢
          obtain ⟨rest, hrest, hfollows⟩ := ih hposition' h
          rw [hafter] at hfollows
          refine ⟨rows :: rest, ?_, .next hleast hlast hfollows⟩
          intro r hr
          rcases List.mem_cons.1 hr with rfl | hr
          · exact ⟨m, List.mem_cons_self, hrows⟩
          · obtain ⟨request, hmem, hrequest⟩ := hrest r hr
            exact ⟨request, List.mem_cons_of_mem _ hmem, hrequest⟩

/-- While every cursor fits the server takes its own cursors. -/
theorem follow_not_refused {cursor : Option Codes} {position : Position} {snapshots : List Snapshot}
    (hposition : decodeCursor cursor scope.str.codes (parent.map (·.str.codes)) = .ok position)
    (hfits : ∀ m ∈ snapshots, ∀ id, IsRow m scope parent id →
      Fits (m.scopeVersion (expectedPathPairId scope)) scope.str.codes (parent.map (·.str.codes)) id) :
    (follow scope parent limit cursor snapshots).outcome ≠ .refused := by
  induction snapshots generalizing cursor position with
  | nil => simp [follow]
  | cons m later ih =>
    simp only [follow, getPage, hposition]
    cases hpage : getModelPage m scope limit position parent with
    | none => simp
    | some page =>
      have hversion : page.version = m.scopeVersion (expectedPathPairId scope) := by
        obtain ⟨nodes, -, rfl⟩ := Option.map_eq_some_iff.1 hpage
        rfl
      obtain ⟨rows, hrows, -, hleast, hend | ⟨node, hnext, hlast, -⟩⟩ := getModelPage_spec hpage
      · simp [publicPage_nextCursor page hend.1]
      · have hrow : IsRow m scope parent node.fileId :=
          (hrows _).1 (mem_rowsAbove.1 (hleast.subset _ (List.mem_of_getLast? hlast))).1
        obtain ⟨next, hcursor, hrefused | ⟨position', hposition', -⟩⟩ :=
          publicPage_position scope parent page node hnext
        · refine absurd ?_ hrefused.2
          rw [hversion]
          exact hfits m (by simp) _ hrow
        · simp only [hcursor]
          exact ih hposition' fun m hm => hfits m (List.mem_cons_of_mem _ hm)

/-- The page ends where no row is left behind it. -/
theorem getModelPage_next {m : Snapshot} {position : Position} {page : ModelPage}
    (h : getModelPage m scope limit position parent = some page) :
    page.nextCursorFileId = none ↔ ∀ id, IsRow m scope parent id →
      isAbove ((page.files.map Node.fileId).getLast?.or position.afterId) id = false := by
  obtain ⟨rows, hrows, hnodup, hleast, hend⟩ := getModelPage_spec h
  have hlength := hleast.length
  rcases hend with ⟨hnone, hshort⟩ | ⟨node, hnext, hlast, hlong⟩
  · refine iff_of_true hnone fun id hid => ?_
    have hall := (hleast.nodup.subperm hleast.subset).perm_of_length_le (by omega)
    cases hlast : (page.files.map Node.fileId).getLast? with
    | none =>
      rw [List.getLast?_eq_none_iff] at hlast
      rw [hlast] at hall
      rw [Option.none_or]
      cases habove : isAbove position.afterId id with
      | false => rfl
      | true => simpa using hall.mem_iff.2 (mem_rowsAbove.2 ⟨(hrows id).2 hid, habove⟩)
    | some last =>
      cases hbehind : isAbove (some last) id with
      | false => exact hbehind
      | true =>
        have hlt : last < id := by simpa [isAbove] using hbehind
        have habove : isAbove position.afterId id = true := by
          have hstart := (mem_rowsAbove.1 (hleast.subset last (List.mem_of_getLast? hlast))).2
          cases hafter : position.afterId with
          | none => rfl
          | some start =>
            rw [hafter] at hstart
            simp only [isAbove, decide_eq_true_eq] at hstart ⊢
            exact hstart.trans hlt
        have hin := hall.mem_iff.2 (mem_rowsAbove.2 ⟨(hrows id).2 hid, habove⟩)
        exact absurd hlt (not_lt.2 (hleast.le_last hlast id hin))
  · refine iff_of_false (by simp [hnext]) fun hnone => ?_
    -- A row that has no place on the page lies behind its last one.
    obtain ⟨id, hid, hout⟩ := hleast.exists_out (hnodup.filter _) hlong
    have hbehind := hnone id ((hrows id).1 (mem_rowsAbove.1 hid).1)
    have habove := hleast.least id hid hout node.fileId (List.mem_of_getLast? hlast)
    rw [hlast, Option.some_or, isAbove, decide_eq_false_iff_not] at hbehind
    exact hbehind habove

end Client

/-! ## Every stable row once -/

/-- A client that comes to the end has seen every row that stayed, once, and the server takes the
cursors that it issues exactly where they fit. -/
theorem identity_pages (scope : Text) (parent : Option Text) (limit : Limit) :
    (∀ (version : Int) (after : Text),
      decodeCursor (encodeCursor version scope.str.codes (parent.map (·.str.codes)) (some after.str.codes)
          (some after.str.codes)) scope.str.codes (parent.map (·.str.codes)) =
        .ok { after := some after.str.codes, version := some version, afterKey := some [.str after.str.codes] } ↔
      Fits version scope.str.codes (parent.map (·.str.codes)) after.str.codes) ∧
    (∀ snapshots : List Snapshot,
      (∀ m ∈ snapshots, ∀ id, IsRow m scope parent id →
        Fits (m.scopeVersion (expectedPathPairId scope)) scope.str.codes (parent.map (·.str.codes)) id) →
      (follow scope parent limit none snapshots).outcome ≠ .refused) ∧
    (∀ snapshots : List Snapshot,
      let walk := follow scope parent limit none snapshots
      walk.outcome = .complete →
        walk.received.Pairwise (· < ·) ∧
        (∀ id, (∀ m ∈ walk.requests, IsRow m scope parent id) → walk.received.count id = 1) ∧
        ∀ id ∈ walk.received, ∃ m ∈ walk.requests, IsRow m scope parent id) ∧
    ∀ (m : Snapshot) (position : Position) (page : ModelPage),
      getModelPage m scope limit position parent = some page →
        ((publicPage scope parent page).nextCursor = none ↔ ∀ id, IsRow m scope parent id →
          isAbove ((publicPage scope parent page).records.getLast?.or position.afterId) id = false) ∧
        ∃ rows : List Codes, (∀ id, id ∈ rows ↔ IsRow m scope parent id) ∧ rows.Nodup ∧
          (publicPage scope parent page).records =
            ((rows.filter (isAbove position.afterId)).insertionSort (· ≤ ·)).take limit := by
  refine ⟨?_, fun snapshots => follow_not_refused rfl, ?_, ?_⟩
  · intro version after
    rw [decodeCursor_encodeCursor]
    split_ifs with hfits
    · simp [hfits]
    · simp [hfits]
  · intro snapshots walk hcomplete
    obtain ⟨rows, hrows, hfollows⟩ := follow_follows rfl hcomplete
    have hrow : ∀ id, (∀ m ∈ walk.requests, IsRow m scope parent id) → ∀ r ∈ rows, id ∈ r := by
      intro id hid r hr
      obtain ⟨m, hm, hmr⟩ := hrows r hr
      exact (hmr id).2 (hid m hm)
    refine ⟨hfollows.ascending.1, ?_, ?_⟩
    · intro id hid
      have hin := hfollows.stable rfl (hrow id hid)
      exact List.count_eq_one_of_mem (hfollows.ascending.1.imp fun hlt => ne_of_lt hlt) hin
    · intro id hid
      obtain ⟨r, hr, hmem⟩ := hfollows.existed id hid
      obtain ⟨m, hm, hmr⟩ := hrows r hr
      exact ⟨m, hm, (hmr id).1 hmem⟩
  · intro m position page hpage
    have hcursor : (publicPage scope parent page).nextCursor = none ↔ page.nextCursorFileId = none := by
      simp [publicPage, encodeCursor]
    obtain ⟨rows, hrows, hnodup, hleast, -⟩ := getModelPage_spec hpage
    exact ⟨hcursor.trans (getModelPage_next hpage), rows, hrows, hnodup, hleast.eq_take (hnodup.filter _)⟩

set_option maxRecDepth 10000

/-- A name of 255 control characters. -/
def longName : Name where
  text := List.replicate 255 1
  valid := by decide
  joined := by decide
  nonempty := by decide
  plain := by decide
  notSelf := by decide
  notParent := by decide

def shortName : Name where
  text := codes "z"
  valid := by decide
  joined := by decide
  nonempty := by decide
  plain := by decide
  notSelf := by decide
  notParent := by decide

def scopeP : Text := ⟨⟨codes "p", by decide⟩, by decide⟩

theorem leaf_proper (name : Name) : (File.mk name []).Proper := .mk (by simp) (by simp)

def twoRoots : Snapshot where
  roots := [⟨some scopeP, .mk longName [], leaf_proper longName⟩, ⟨some scopeP, .mk shortName [], leaf_proper shortName⟩]
  sorted := by decide +kernel
  scopeVersion _ := 7

/-- The cursor behind the first of the two roots is too long for the server that issues it, and the
client never sees the second. -/
theorem long_cursor_refused :
    (follow scopeP none ⟨1, by decide⟩ none [twoRoots, twoRoots]).outcome = .refused ∧
      (follow scopeP none ⟨1, by decide⟩ none [twoRoots, twoRoots]).received = [fileIdOf (some scopeP) longName.text] ∧
      decodeCursor (encodeCursor 7 scopeP.str.codes none (some (fileIdOf (some scopeP) longName.text))
          (some (fileIdOf (some scopeP) longName.text))) scopeP.str.codes none = .error .invalid := by
  refine ⟨by decide +kernel, by decide +kernel, ?_⟩
  have h := decodeCursor_encodeCursor 7 scopeP none (Node.idAsText ⟨some scopeP, [], .mk longName []⟩)
  rw [if_neg (by decide +kernel)] at h
  exact h

end SeedSync.Paging
