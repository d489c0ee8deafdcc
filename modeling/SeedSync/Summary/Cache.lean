import Mathlib.Data.Rat.Defs
import SeedSync.Summary.Model

/-!
# The cached summary and its streams

`get_model_summary` with its cache, `SummaryModelListener` and the loop of `__handle_summary_stream`,
while the model, the inventory, the reconciliation state, the path pairs and the scan authority
change. Clock readings are parameters of the steps. Keepalives and the end of a stream are left out.
-/

namespace SeedSync.Summary

open Lib Live

/-! ## The cache -/

/-- `_SCAN_AUTHORITY_DIAGNOSTIC_ONLY_KEYS` -/
def diagnosticOnlyKeys : List String := ["publication_id", "model_version", "local_scan_generation", "remote_scan_generation"]

/-- `_scan_authority_semantic_snapshot` -/
def semanticSnapshot (snapshot : Authority) : Authority := snapshot.filter fun key _ => decide (key ∉ diagnosticOnlyKeys)

/-- Equality of sets. -/
def sameSet {α : Type} [DecidableEq α] (a b : List α) : Bool := a.all (fun x => decide (x ∈ b)) && b.all fun x => decide (x ∈ a)

structure Cache where
  summary : ModelSummary
  /-- `__model_summary_cache_at` -/
  builtAt : Rat
  inventoryRevision : Nat
  unknownLocal : List (Option String)
  scanAuthority : Authority

structure Controller where
  inputs : Inputs := {}
  cache : Option Cache := none
  scanAuthorityPublicationId : Nat := 0

/-- The cached summary, where it may be served. -/
def Controller.served (c : Controller) (maxAge now : Rat) : Option Cache :=
  c.cache.filter fun cache =>
    decide (0 < maxAge) && decide (cache.summary.modelVersion = c.inputs.model.stamp) &&
      decide (cache.inventoryRevision = c.inputs.inventory.stamp) && sameSet cache.unknownLocal c.inputs.unknownLocal &&
      decide (cache.scanAuthority.items.Perm (semanticSnapshot c.inputs.scanAuthority).items) &&
      decide (now - cache.builtAt < maxAge)

/-- `get_model_summary` -/
def Controller.getModelSummary (c : Controller) (maxAge now : Rat) : ModelSummary × Controller :=
  match c.served maxAge now with
  | some cache =>
    let summary := { cache.summary with scanAuthority := c.inputs.scanAuthority }
    (summary, { c with cache := some { cache with summary, scanAuthority := semanticSnapshot c.inputs.scanAuthority } })
  | none =>
    let summary := freshSummary c.inputs
    (summary, { c with cache := some {
      summary
      builtAt := now
      inventoryRevision := c.inputs.inventory.stamp
      unknownLocal := c.inputs.unknownLocal
      scanAuthority := semanticSnapshot c.inputs.scanAuthority } })

/-- `_publish_scan_authority_snapshot` -/
def Controller.publishScanAuthority (c : Controller) (snapshot : Authority) : Controller :=
  let publicationId := c.scanAuthorityPublicationId + 1
  { c with
    inputs := { c.inputs with
      scanAuthority := (snapshot.set "publication_id" (.int publicationId)).set "model_version" (.int c.inputs.model.stamp) }
    scanAuthorityPublicationId := publicationId }

/-! ## The listener -/

inductive SummaryEvent where
  | reset
  | update (pathPairIds : List String)
  deriving DecidableEq

structure Listener where
  scopes : Dict String Nat := {}
  reset : Bool := false

/-- `_MAX_SCOPES` -/
def maxScopes : Nat := 128

def Listener.modelVersionChanged (l : Listener) (version : Nat) (pathPairId : Option String) : Listener :=
  if l.reset then l
  else
    let scopes := (l.scopes.pop (modelScopeId pathPairId)).set (modelScopeId pathPairId) version
    if maxScopes < scopes.items.length then { scopes := {}, reset := true } else { l with scopes }

def Listener.modelSummaryChanged (l : Listener) : Listener := { l with reset := true }

def Listener.takeNextEvent (l : Listener) : Option SummaryEvent × Listener :=
  if l.reset then (some .reset, { l with reset := false })
  else if l.scopes.items.isEmpty then (none, l)
  else (some (.update l.scopes.keys), { l with scopes := {} })

/-! ## The stream -/

/-- `_SUMMARY_MIN_INTERVAL_SECONDS` -/
def summaryMinInterval : Rat := 1 / 2

structure Stream where
  listener : Listener := {}
  pending : Option SummaryEvent := none
  lastSummaryAt : Rat
  /-- The last summary that was sent. -/
  emitted : ModelSummary

/-- The event to come, with one that was taken. -/
def mergeEvent (pending : Option SummaryEvent) (event : SummaryEvent) : SummaryEvent :=
  match pending, event with
  | none, event => event
  | some _, .reset => .reset
  | some (.update existing), .update incoming => .update ((existing ++ incoming).dedup.insertionSort (· ≤ ·))
  | some .reset, .update _ => .reset

/-- The clock readings of one turn of the loop: before the read, in it and behind it. -/
structure Clock where
  checkedAt : Rat
  readAt : Rat
  sentAt : Rat

/-- One turn of the loop takes an event. -/
def Stream.take (stream : Stream) : Stream :=
  let (event, listener) := stream.listener.takeNextEvent
  { stream with
    listener
    pending := match event with
      | none => stream.pending
      | some event => some (mergeEvent stream.pending event) }

/-- And sends a summary when the last one is old enough. -/
def Stream.turn (stream : Stream) (c : Controller) (clock : Clock) : Stream × Controller :=
  let stream := stream.take
  if stream.pending.isSome ∧ summaryMinInterval ≤ clock.checkedAt - stream.lastSummaryAt then
    let (emitted, c) := c.getModelSummary summaryMinInterval clock.readAt
    ({ stream with pending := none, lastSummaryAt := clock.sentAt, emitted }, c)
  else (stream, c)

/-! ## Runs -/

structure System where
  controller : Controller := {}
  streams : List Stream := []
  /-- Ghost: something changed, and no listener was told since. -/
  unannounced : Bool := false

inductive Step where
  /-- `add_file` or `update_file` -/
  | put (root : Root)
  | remove (fileId : String)
  /-- Counters are published for a root. -/
  | publish (fileId : String) (progress : Progress)
  /-- `_record_path_pair_reconciliation`, and the other places that replace the sets -/
  | reconcile (onLocal onRemote : Option (List (Option String)))
  | refresh (pathPairs : Dict String String)
  /-- `__replace_local_library_inventory` -/
  | inventory (updated : Dict (Option String) Inventory)
  | unknown (pathPairIds : List (Option String))
  | publishScanAuthority (snapshot : Authority)
  | notify
  | read (maxAge now : Rat)
  /-- `get_model_summary_and_add_listener` -/
  | open (clock : Clock)
  | turn (index : Nat) (clock : Clock)

/-- The listeners are told of a new version. -/
def System.mutate (s : System) (model : Stamped (Table fun root : Root => root.file.fileId)) (pathPairId : Option String) :
    System where
  controller := { s.controller with inputs := { s.controller.inputs with model } }
  streams := s.streams.map fun stream =>
    { stream with listener := stream.listener.modelVersionChanged model.stamp pathPairId }
  unannounced := false

/-- What a summary reads is another, and nobody is told. -/
def System.become (s : System) (inputs : Inputs) : System :=
  { s with controller := { s.controller with inputs }, unannounced := true }

def step (s : System) : Step → System
  | .put root =>
    let model := s.controller.inputs.model
    s.mutate (model.next (model.value.put root)) root.file.pathPairId
  | .remove fileId =>
    let model := s.controller.inputs.model
    match model.value.get fileId with
    | none => s
    | some root => s.mutate (model.next (model.value.pop fileId)) root.file.pathPairId
  | .publish fileId progress =>
    let model := s.controller.inputs.model
    match model.value.get fileId with
    | none => s
    | some root => s.mutate (model.next (model.value.put { root with published := some progress })) root.file.pathPairId
  | .reconcile onLocal onRemote =>
    let inputs := s.controller.inputs
    s.become { inputs with
      reconciledLocal := onLocal.getD inputs.reconciledLocal
      reconciledRemote := onRemote.getD inputs.reconciledRemote }
  | .refresh pathPairs => s.become { s.controller.inputs with pathPairs }
  | .inventory updated =>
    let inventory := s.controller.inputs.inventory
    if updated.items.Perm inventory.value.items then s
    else s.become { s.controller.inputs with inventory := inventory.next updated }
  | .unknown pathPairIds => s.become { s.controller.inputs with unknownLocal := pathPairIds }
  | .publishScanAuthority snapshot => { s with controller := s.controller.publishScanAuthority snapshot, unannounced := true }
  | .notify =>
    { s with
      streams := s.streams.map fun stream => { stream with listener := stream.listener.modelSummaryChanged }
      unannounced := false }
  | .read maxAge now => { s with controller := (s.controller.getModelSummary maxAge now).2 }
  | .open clock =>
    let (emitted, controller) := s.controller.getModelSummary 0 clock.readAt
    { s with controller, streams := s.streams ++ [{ lastSummaryAt := clock.sentAt, emitted }] }
  | .turn index clock =>
    match s.streams[index]? with
    | none => s
    | some stream =>
      let (stream, controller) := stream.turn s.controller clock
      { s with controller, streams := s.streams.set index stream }

def run (s : System) (steps : List Step) : System := steps.foldl step s

end SeedSync.Summary
