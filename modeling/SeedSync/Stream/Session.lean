import SeedSync.Lib.Replica
import SeedSync.Paging.Walk

/-!
# The scoped stream

`ScopedModelListener` and the loop of `__handle_stream`: the ids that changed since the last event,
the records that `get_model_root_updates` finds for them, and a client that started from the page of
its registration, fetches the pages behind it and follows the events. Traces, keepalives and the
global version are left out, and so is the end of the stream.
-/

namespace SeedSync.Stream

open Lib Identity Paging

/-! ## The listener -/

/-- `len(text.encode("utf-8"))`; a surrogate cannot be encoded. -/
def encodedLength (text : Codes) : Option Nat :=
  if text.any fun c => decide (0xD800 ≤ c ∧ c ≤ 0xDFFF) then none
  else some (text.map fun c => if c < 0x80 then 1 else if c < 0x800 then 2 else if c < 0x10000 then 3 else 4).sum

structure Listener where
  changes : Dict Codes Nat := {}
  resetVersion : Option Nat := none
  identityBytes : Int := 0

/-- `_MAX_IDENTITIES` -/
def maxIdentities : Nat := 200

/-- `_MAX_IDENTITY_BYTES` -/
def maxIdentityBytes : Int := 32 * 1024

/-- `model_version_published`, for a file of the scope. An id that cannot be encoded raises: when its
bytes are taken off or, for a new id, when they are added. -/
def Listener.modelVersionPublished (l : Listener) (version : Nat) (fileId : Codes) : Listener :=
  match l.resetVersion with
  | some reset => { l with resetVersion := some (max reset version) }
  | none =>
    match encodedLength fileId with
    | none =>
      if l.changes.contains fileId then { l with changes := l.changes.pop fileId }
      else { l with changes := l.changes.set fileId version }
    | some size =>
      let bytes := (if l.changes.contains fileId then l.identityBytes - size else l.identityBytes) + size
      let changes := (l.changes.pop fileId).set fileId version
      if maxIdentities < changes.items.length ∨ maxIdentityBytes < bytes then
        { changes := {}, identityBytes := 0, resetVersion := some version }
      else { l with changes, identityBytes := bytes }

inductive Taken where
  | reset (version : Nat)
  | invalidate (version : Nat) (fileIds : List Codes)

/-- `take_next_event` -/
def Listener.takeNextEvent (l : Listener) : Option Taken × Listener :=
  match l.resetVersion with
  | some version => (some (.reset version), { l with resetVersion := none })
  | none =>
    if l.changes.items.isEmpty then (none, l)
    else
      (some (.invalidate ((l.changes.items.map (·.2)).foldl max 0) l.changes.keys), { l with changes := {}, identityBytes := 0 })

/-! ## The model -/

/-- The roots, and the record that each is published with. -/
structure Published (ρ : Type) where
  snapshot : Snapshot
  record : Codes → ρ

/-- The version of a scope goes up by one. -/
def bumped (m : Snapshot) (pair : Option Text) : Option Text → Nat :=
  fun other => m.scopeVersion other + if other = pair then 1 else 0

theorem sorted_orderedInsert {roots : List Root} (h : (roots.map Root.fileId).Pairwise (· < ·)) (root : Root) :
    (((roots.filter fun other => decide (other.fileId ≠ root.fileId)).orderedInsert
      (fun a b => a.fileId ≤ b.fileId) root).map Root.fileId).Pairwise (· < ·) := by
  have htotal : Std.Total (fun a b : Root => a.fileId ≤ b.fileId) := ⟨fun a b => le_total a.fileId b.fileId⟩
  have htrans : IsTrans Root (fun a b => a.fileId ≤ b.fileId) := ⟨fun _ _ _ hab hbc => hab.trans hbc⟩
  have hfilter : (roots.filter fun other => decide (other.fileId ≠ root.fileId)).Pairwise fun a b => a.fileId < b.fileId :=
    (List.pairwise_map.1 h).sublist List.filter_sublist
  have hsorted := (hfilter.imp fun hlt => hlt.le).orderedInsert root _
  have hperm := List.perm_orderedInsert (fun a b : Root => a.fileId ≤ b.fileId) root
    (roots.filter fun other => decide (other.fileId ≠ root.fileId))
  have hnodup : (((roots.filter fun other => decide (other.fileId ≠ root.fileId)).orderedInsert
      (fun a b => a.fileId ≤ b.fileId) root).map Root.fileId).Nodup := by
    rw [(hperm.map Root.fileId).nodup_iff, List.map_cons, List.nodup_cons]
    refine ⟨?_, ?_⟩
    · intro hmem
      obtain ⟨other, hother, hid⟩ := List.mem_map.1 hmem
      simpa [hid] using (List.mem_filter.1 hother).2
    · exact (List.pairwise_map.2 hfilter).imp fun hlt => ne_of_lt hlt
  exact ((List.pairwise_map.2 hsorted).and hnodup).imp fun hboth => lt_of_le_of_ne hboth.1 hboth.2

/-- `add_file`, `update_file` and the publications of new counters: a root and its record. -/
def Published.put {ρ : Type} (m : Published ρ) (root : Root) (record : ρ) : Published ρ where
  snapshot := {
    roots := (m.snapshot.roots.filter fun other => decide (other.fileId ≠ root.fileId)).orderedInsert
      (fun a b => a.fileId ≤ b.fileId) root
    sorted := sorted_orderedInsert m.snapshot.sorted root
    scopeVersion := bumped m.snapshot root.pair }
  record := fun id => if id = root.fileId then record else m.record id

/-- `remove_file` of a root -/
def Published.remove {ρ : Type} (m : Published ρ) (root : Root) : Published ρ :=
  { m with snapshot := {
      roots := m.snapshot.roots.filter fun other => decide (other.fileId ≠ root.fileId)
      sorted := m.snapshot.sorted.sublist (List.filter_sublist.map _)
      scopeVersion := bumped m.snapshot root.pair } }

section Scope

variable {ρ : Type} (scope : Text) (limit : Limit)

/-- The published record of a root of the scope. -/
def Published.row (m : Published ρ) (id : Codes) : Option ρ :=
  if m.snapshot.roots.any fun root => decide (root.pair = expectedPathPairId scope) && decide (root.fileId = id) then
    some (m.record id)
  else none

/-- The root that an id belongs to. -/
def rootIdOf (fileId : Codes) : Option Codes :=
  (scopedFilePath scope fileId).map fun path => fileIdOf (expectedPathPairId scope) ((path.splitOn 47).headD [])

/-- The root of an id, when it is one of the scope. -/
def scopedRoot (m : Snapshot) (rootId : Codes) : Option Root :=
  (getFile m rootId).filter fun root => decide (root.pair = expectedPathPairId scope)

inductive SseEvent (ρ : Type) where
  | modelReset (version : Nat)
  | modelInvalidate (version : Nat) (fileIds : List Codes) (records : List (Codes × ρ)) (removedFileIds : List Codes)

/-- `get_model_root_updates`, as the event that carries it -/
def getModelRootUpdates (m : Published ρ) (fileIds : List Codes) : SseEvent ρ :=
  let rootIds := (fileIds.filterMap (rootIdOf scope)).dedup.insertionSort (· ≤ ·)
  .modelInvalidate (m.snapshot.scopeVersion (expectedPathPairId scope)) fileIds
    (rootIds.filterMap fun rootId => (scopedRoot scope m.snapshot rootId).map fun root => (root.fileId, m.record root.fileId))
    (rootIds.filter fun rootId => (scopedRoot scope m.snapshot rootId).isNone)

/-- The event of what the loop has taken. -/
def assembled (m : Published ρ) : Taken → SseEvent ρ
  | .reset _ => .modelReset (m.snapshot.scopeVersion (expectedPathPairId scope))
  | .invalidate _ fileIds => getModelRootUpdates scope m fileIds

/-! ## The client -/

structure PageAnswer (ρ : Type) where
  version : Nat
  start : Option Codes
  records : List (Codes × ρ)
  next : Option Codes

/-- A page of roots behind a position. -/
def pageAt (m : Published ρ) (start : Option Codes) : PageAnswer ρ :=
  match getModelPage m.snapshot scope limit { after := start } none with
  | some page =>
    { version := page.version
      start
      records := page.files.map fun node => (node.fileId, m.record node.fileId)
      next := page.nextCursorFileId }
  | none => { version := 0, start, records := [], next := none }

/-- How far the pages are fetched. -/
inductive Pages where
  | behind (position : Option Codes)
  | complete
  deriving DecidableEq

structure Client (ρ : Type) where
  rows : Replica Codes ρ := {}
  pages : Pages := .behind none

def PageAnswer.entries (page : PageAnswer ρ) : List (Codes × Option ρ) := page.records.map fun item => (item.1, some item.2)

def Client.onPage (c : Client ρ) (page : PageAnswer ρ) : Client ρ where
  rows := c.rows.learnAll page.version page.entries
  pages := match page.next with
    | none => .complete
    | some last => .behind (some last)

/-- What an event says of the rows. -/
def SseEvent.message : SseEvent ρ → Message Codes ρ
  | .modelReset _ => .reset
  | .modelInvalidate version _ records removed =>
    .patch version (records.map (fun item => (item.1, some item.2)) ++ removed.map fun id => (id, none))

/-! ## Runs -/

structure System (ρ : Type) where
  model : Published ρ
  listener : Listener := {}
  /-- Taken from the listener, and not yet looked up in the model. -/
  taken : Option Taken := none
  channel : List (SseEvent ρ) := []
  page : Option (PageAnswer ρ) := none
  client : Client ρ := {}
  /-- Ghost: the ids of which the listener was told since the last take. -/
  notified : List Codes := []

/-- `get_model_page_and_add_listener`, and the first page at the client. A client that reconnects is
told at once to fetch everything. -/
def System.opened (m : Published ρ) (reconnects : Bool) : System ρ where
  model := m
  client := ({} : Client ρ).onPage (pageAt scope limit m none)
  channel := if reconnects then [.modelReset (m.snapshot.scopeVersion (expectedPathPairId scope))] else []

/-- `path_pair_id if path_pair_id is not None else MODEL_LEGACY_SCOPE_ID` -/
def scopeIdOf (pair : Option Text) : Codes := pair.elim modelLegacyScopeId (·.str.codes)

/-- The listener is told of a change. -/
def System.tell (s : System ρ) (root : Root) : System ρ :=
  if scopeIdOf root.pair = scope.str.codes then
    { s with
      listener := s.listener.modelVersionPublished (s.model.snapshot.scopeVersion root.pair) root.fileId
      notified := s.notified ++ [root.fileId] }
  else s

inductive Event (ρ : Type) where
  | put (root : Root) (record : ρ)
  | remove (id : Codes)
  | take
  | assemble
  | deliver
  | requestPage
  | receivePage

def step (s : System ρ) : Event ρ → System ρ
  | .put root record => { s with model := s.model.put root record }.tell scope root
  | .remove id =>
    match s.model.snapshot.roots.find? fun root => decide (root.fileId = id) with
    | none => s
    | some root => { s with model := s.model.remove root }.tell scope root
  | .take =>
    match s.taken with
    | some _ => s
    | none => { s with taken := s.listener.takeNextEvent.1, listener := s.listener.takeNextEvent.2, notified := [] }
  | .assemble =>
    match s.taken with
    | none => s
    | some taken => { s with taken := none, channel := s.channel ++ [assembled scope s.model taken] }
  | .deliver =>
    match s.channel with
    | [] => s
    | .modelReset _ :: rest => { s with channel := rest, page := none, client := {} }
    | .modelInvalidate version fileIds records removed :: rest =>
      match (SseEvent.modelInvalidate version fileIds records removed).message with
      | .reset => { s with channel := rest }
      | .patch version entries =>
        { s with channel := rest, client := { s.client with rows := s.client.rows.learnAll version entries } }
  | .requestPage =>
    match s.page, s.client.pages with
    | none, .behind position => { s with page := some (pageAt scope limit s.model position) }
    | _, _ => s
  | .receivePage =>
    match s.page with
    | none => s
    | some page => { s with page := none, client := s.client.onPage page }

def run (s : System ρ) (events : List (Event ρ)) : System ρ := events.foldl (step scope limit) s

end Scope

end SeedSync.Stream
