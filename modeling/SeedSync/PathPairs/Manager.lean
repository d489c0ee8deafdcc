import SeedSync.PathPairs.Collection

/-!
# The manager of the path pairs

`PathPairManager` of `path_pair.py`: an operation changes the collection and then saves it, and both
are taken back where one of them raises. What is loaded from a file is not asked for distinct ids.
-/

namespace SeedSync.PathPairs

open Lib Lib.Json Identity PathPairCollection

/-! ## The file -/

def Version.json : Version → Json
  | .int value => .int value
  | .bool value => .bool value

/-- `asdict(pair)` -/
def PathPair.asdict (pair : PathPair) : List (Codes × Json) :=
  [(codes "remote_path", .str pair.remotePath.codes), (codes "local_path", .str pair.localPath.codes),
    (codes "name", .str pair.name.codes), (codes "id", .str pair.id.codes), (codes "enabled", .bool pair.enabled),
    (codes "auto_queue", .bool pair.autoQueue)]

def PathPairCollection.json (c : PathPairCollection) : Json :=
  .obj [(codes "version", c.version.json), (codes "path_pairs", .list (c.pathPairs.map fun pair => .obj pair.asdict))]

/-- `to_str` -/
def PathPairCollection.toStr (c : PathPairCollection) : Codes := c.json.write (.indented 2) 0

/-- What the module takes from the standard library. -/
structure Env where
  /-- `str(uuid.uuid4())`, drawn for one entry after the other. -/
  freshId : Nat → Str
  /-- The text of the `JSONDecodeError` of `json.loads`. -/
  decodeError : Codes → Codes

/-- `isinstance(value, str)` -/
def readStr : Json → Option Str
  | .str s => Str.ofCodes? s
  | _ => none

def readBool : Json → Option Bool
  | .bool value => some value
  | _ => none

/-- `isinstance(value, int)` -/
def readVersion : Json → Option Version
  | .int value => some (.int value)
  | .bool value => some (.bool value)
  | _ => none

/-- One entry of `path_pairs`, with the id that is drawn for it: the pair, or the text of what is raised. -/
def readPair (freshId : Str) : Json → Except Codes PathPair
  | .obj fields =>
    match readStr ((fields.lookup (codes "id")).getD (.str freshId.codes)),
        readStr ((fields.lookup (codes "name")).getD (.str [])) with
    | some pairId, some name =>
      match readStr (Json.get fields "remote_path"), readStr (Json.get fields "local_path") with
      | some remotePath, some localPath =>
        match readBool ((fields.lookup (codes "enabled")).getD (.bool true)),
            readBool ((fields.lookup (codes "auto_queue")).getD (.bool true)) with
        | some enabled, some autoQueue =>
          let pair := PathPair.postInit ⟨remotePath, localPath, name, pairId, enabled, autoQueue⟩
          match pair.validate with
          | .error e => .error e.text
          | .ok _ => .ok pair
        | _, _ => .error (codes "path pair flags must be booleans")
      | _, _ => .error (codes "path pair paths must be strings")
    | _, _ => .error (codes "path pair id and name must be strings")
  | _ => .error (codes "path pair entries must be JSON objects")

def readPairs (freshId : Nat → Str) : Nat → List Json → Except Codes (List PathPair)
  | _, [] => .ok []
  | drawn, entry :: entries => do
    let pair ← readPair (freshId drawn) entry
    let pairs ← readPairs freshId (drawn + 1) entries
    return pair :: pairs

/-- The object of the file. -/
def readCollection (freshId : Nat → Str) (fields : List (Codes × Json)) : Except Codes PathPairCollection :=
  match Json.get fields "path_pairs" with
  | .null => readVersioned []
  | .list entries => (readPairs freshId 0 entries).bind readVersioned
  | _ => .error (codes "path_pairs must be a list")
where
  readVersioned (pathPairs : List PathPair) : Except Codes PathPairCollection :=
    match readVersion ((fields.lookup (codes "version")).getD (.int 1)) with
    | some version => .ok ⟨pathPairs, version⟩
    | none => .error (codes "version must be an integer")

/-- `from_str` -/
def fromStr (env : Env) (content : Str) : Except PathPairError PathPairCollection :=
  let read : Except Codes PathPairCollection := match loads content.codes with
    | none => .error (env.decodeError content.codes)
    | some (.obj fields) => readCollection env.freshId fields
    | some _ => .error (codes "top-level path pair data must be a JSON object")
  read.mapError fun message => .persist (codes "Invalid path pairs JSON: " ++ message)

/-! ## The manager -/

/-- A loaded manager, and the text of its file. -/
structure PathPairManager where
  collection : PathPairCollection
  file : Option Codes

namespace PathPairManager

/-- `save`; the failure is the text of an `OSError`, which leaves the file as it is. -/
def save (failure : Option Codes) (self : PathPairManager) : Except PathPairError Unit × PathPairManager :=
  match failure with
  | some reason => (.error (.persist (codes "Failed to save path pairs: " ++ reason)), self)
  | none => (.ok (), { self with file := some self.collection.toStr })

/-- `__mutate_and_save` -/
def mutateAndSave {α : Type} (mutation : Mutation α) (failure : Option Codes) (self : PathPairManager) :
    Except PathPairError α × PathPairManager :=
  let originalPairs := self.collection.pathPairs
  let originalVersion := self.collection.version
  let restored (m : PathPairManager) : PathPairManager :=
    { m with collection := { m.collection with pathPairs := originalPairs, version := originalVersion } }
  let mutated : PathPairManager := { self with collection := (mutation self.collection).2 }
  match (mutation self.collection).1 with
  | .error e => (.error e, restored mutated)
  | .ok result =>
    match mutated.save failure with
    | (.error e, saved) => (.error e, restored saved)
    | (.ok (), saved) => (.ok result, saved)

/-- The operations of the manager, each with its argument. -/
inductive Request where
  | add (pair : PathPair)
  | update (pair : PathPair)
  | remove (pairId : Str)
  | reorder (pairIds : List Str)

/-- An operation that returns nothing warns of nothing. -/
def withoutWarnings (done : Except PathPairError Unit × PathPairManager) : Except PathPairError (List Codes) × PathPairManager :=
  (done.1.map fun _ => [], done.2)

/-- `add_pair`, `update_pair`, `remove_pair` and `reorder_pairs`. -/
def perform (request : Request) (failure : Option Codes) (self : PathPairManager) :
    Except PathPairError (List Codes) × PathPairManager :=
  match request with
  | .add pair => self.mutateAndSave (addPair pair) failure
  | .update pair => self.mutateAndSave (updatePair pair) failure
  | .remove pairId => withoutWarnings (self.mutateAndSave (removePair pairId) failure)
  | .reorder pairIds => withoutWarnings (self.mutateAndSave (reorderPairs pairIds) failure)

end PathPairManager

end SeedSync.PathPairs
