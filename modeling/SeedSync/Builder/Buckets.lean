import SeedSync.Builder.Sources
import SeedSync.Lib.Counter
import SeedSync.Paging.Decoding

/-!
# Roots by pair and by the text of their ids

The source maps of `ModelBuilder` as it keeps them: one dict of roots for each path pair, and in it
each root under the text of its id. A root is looked up in the bucket of the pair that its id is read
as, which is its own unless a root without a pair is named like an id.
-/

namespace SeedSync.Builder.Index

open Lib Identity Paging

/-! ## Ids and equality -/

/-- `__root_file_id` -/
def rootFileId (name : String) : Option String → Codes
  | none => codes name
  | some pair => idText (codes pair) (codes name)

def rootId (file : SystemFile) : Codes := rootFileId file.name file.pathPairId

/-- `path_pair_id`, as a key of the buckets -/
def pairKey (file : SystemFile) : Option Codes := file.pathPairId.map codes

mutual
/-- What `SystemFile.__eq__` compares. -/
def compared : SystemFile → SystemFile
  | .mk a cs =>
    .mk { a with
      timestampCreated := a.timestampCreated.map Timestamp.compared
      timestampModified := a.timestampModified.map Timestamp.compared } (comparedAll cs)

def comparedAll : List SystemFile → List SystemFile
  | [] => []
  | c :: cs => compared c :: comparedAll cs
end

/-- `SystemFile.__eq__` -/
def sameFile (a b : SystemFile) : Bool := compared a = compared b

theorem sameFile_iff {a b : SystemFile} : sameFile a b = true ↔ compared a = compared b := decide_eq_true_iff

theorem compared_attrs (file : SystemFile) : (compared file).name = file.name ∧
    (compared file).pathPairId = file.pathPairId ∧ (compared file).isStaging = file.isStaging := by
  obtain ⟨a, cs⟩ := file
  rw [compared]
  exact ⟨rfl, rfl, rfl⟩

/-- Files that are equal have one name, one pair and one place. -/
theorem attrs_of_sameFile {a b : SystemFile} (h : sameFile a b = true) :
    a.name = b.name ∧ a.pathPairId = b.pathPairId ∧ a.isStaging = b.isStaging := by
  have heq := sameFile_iff.1 h
  obtain ⟨hname, hpair, hstaging⟩ := compared_attrs a
  obtain ⟨hname', hpair', hstaging'⟩ := compared_attrs b
  rw [← hname, ← hpair, ← hstaging, ← hname', ← hpair', ← hstaging', heq]
  exact ⟨rfl, rfl, rfl⟩

/-! ## Buckets -/

abbrev Roots := Dict Codes SystemFile

/-- What `pairKey` gives. -/
abbrev PairKey := Option Codes

abbrev Buckets := Dict PairKey Roots

/-- `buckets.setdefault(pair_id, {})[file_id] = file` -/
def putRoot (buckets : Buckets) (file : SystemFile) : Buckets :=
  buckets.set (pairKey file) (((buckets.get (pairKey file)).getD {}).set (rootId file) file)

/-- `__bucket_files` -/
def bucketFiles (files : List SystemFile) : Buckets := files.foldl putRoot {}

namespace Buckets

variable (buckets : Buckets)

/-- `buckets.get(pair_id, {})` -/
def bucket (pair : Option Codes) : Roots := (buckets.get pair).getD {}

/-- `__local_file` and `__remote_file` -/
def file (fileId : Codes) : Option SystemFile := (buckets.bucket (fileIdPathPairId fileId)).get fileId

def files : List SystemFile := buckets.items.flatMap fun item => item.2.items.map Prod.snd

/-- `__flatten_buckets` -/
def flatten : Roots := .ofList (buckets.items.flatMap fun item => item.2.items)

/-- The dict of a pair is put in place of its bucket, or the bucket is dropped. -/
def replace (pair : Option Codes) (roots : Roots) : Buckets :=
  if roots.items = [] then buckets.pop pair else buckets.set pair roots

/-- Each root stands under its own id, in the bucket of its pair, and its id is read as one of that pair. -/
structure Placed : Prop where
  id : ∀ pair fileId root, (buckets.bucket pair).get fileId = some root → fileId = rootId root
  pair : ∀ pair fileId root, (buckets.bucket pair).get fileId = some root → pairKey root = pair
  read : ∀ pair fileId root, (buckets.bucket pair).get fileId = some root → fileIdPathPairId fileId = pair

variable {buckets}

theorem bucket_set (pair other : Option Codes) (roots : Roots) :
    Buckets.bucket (buckets.set pair roots) other = if pair = other then roots else buckets.bucket other := by
  unfold bucket
  rw [Dict.get_set]
  split_ifs <;> rfl

theorem bucket_pop (pair other : Option Codes) :
    Buckets.bucket (buckets.pop pair) other = if pair = other then {} else buckets.bucket other := by
  unfold bucket
  rw [Dict.get_pop]
  split_ifs <;> rfl

theorem get_bucket_replace (pair other : Option Codes) (roots : Roots) (fileId : Codes) :
    ((buckets.replace pair roots).bucket other).get fileId =
      if pair = other then roots.get fileId else (buckets.bucket other).get fileId := by
  unfold replace
  split_ifs with hempty hpair hpair
  · obtain ⟨items, nodup⟩ := roots
    obtain rfl := hempty
    rw [bucket_pop, if_pos hpair]
  · rw [bucket_pop, if_neg hpair]
  · rw [bucket_set, if_pos hpair]
  · rw [bucket_set, if_neg hpair]

theorem mem_flatMap_items {fileId : Codes} {root : SystemFile} :
    (fileId, root) ∈ (buckets.items.flatMap fun item => item.2.items) ↔
      ∃ pair, (buckets.bucket pair).get fileId = some root := by
  rw [List.mem_flatMap]
  constructor
  · rintro ⟨⟨pair, roots⟩, hitem, hroot⟩
    refine ⟨pair, ?_⟩
    unfold bucket
    rw [(buckets.get_eq_some pair roots).2 hitem]
    exact (roots.get_eq_some fileId root).2 hroot
  · rintro ⟨pair, hget⟩
    unfold bucket at hget
    cases hbucket : buckets.get pair with
    | none =>
      rw [hbucket] at hget
      cases hget
    | some roots =>
      rw [hbucket] at hget
      exact ⟨(pair, roots), (buckets.get_eq_some pair roots).1 hbucket, (roots.get_eq_some fileId root).1 hget⟩

theorem mem_files {root : SystemFile} (h : root ∈ buckets.files) :
    ∃ pair fileId, (buckets.bucket pair).get fileId = some root := by
  unfold files at h
  obtain ⟨item, hitem, hroot⟩ := List.mem_flatMap.1 h
  obtain ⟨⟨fileId, found⟩, hfound, rfl⟩ := List.mem_map.1 hroot
  obtain ⟨pair, hget⟩ := mem_flatMap_items.1 (List.mem_flatMap.2 ⟨item, hitem, hfound⟩)
  exact ⟨pair, fileId, hget⟩

namespace Placed

theorem empty : Placed ({} : Buckets) := by
  constructor <;> exact fun _ _ _ h => nomatch h

theorem bucket_eq (h : buckets.Placed) {pair : Option Codes} {fileId : Codes} {root : SystemFile}
    (hget : (buckets.bucket pair).get fileId = some root) : buckets.file fileId = some root := by
  unfold file
  rw [h.read pair fileId root hget]
  exact hget

/-- The flattened buckets hold under an id what the bucket of its pair holds. -/
theorem get_flatten (h : buckets.Placed) (fileId : Codes) : buckets.flatten.get fileId = buckets.file fileId := by
  cases hflat : buckets.flatten.get fileId with
  | some root =>
    obtain ⟨pair, hget⟩ := mem_flatMap_items.1 (Dict.get_ofList_mem hflat)
    exact (h.bucket_eq hget).symm
  | none =>
    cases hfile : buckets.file fileId with
    | none => rfl
    | some root =>
      have hmem : (fileId, root) ∈ (buckets.items.flatMap fun item => item.2.items) :=
        mem_flatMap_items.2 ⟨_, hfile⟩
      exact absurd hflat (Dict.get_ofList_of_mem (List.mem_map_of_mem hmem))

/-- A bucket is replaced by one in which the roots stand as they should. -/
theorem replace (h : buckets.Placed) {pair : Option Codes} {roots : Roots}
    (hroots : ∀ fileId root, roots.get fileId = some root →
      fileId = rootId root ∧ pairKey root = pair ∧ fileIdPathPairId fileId = pair) :
    (buckets.replace pair roots).Placed := by
  have hcases : ∀ other fileId root, ((buckets.replace pair roots).bucket other).get fileId = some root →
      fileId = rootId root ∧ pairKey root = other ∧ fileIdPathPairId fileId = other := by
    intro other fileId root hget
    rw [get_bucket_replace] at hget
    split_ifs at hget with hpair
    · exact hpair ▸ hroots fileId root hget
    · exact ⟨h.id other fileId root hget, h.pair other fileId root hget, h.read other fileId root hget⟩
  exact ⟨fun p i r hget => (hcases p i r hget).1, fun p i r hget => (hcases p i r hget).2.1,
    fun p i r hget => (hcases p i r hget).2.2⟩

end Placed

end Buckets

/-! ## Names that are no ids -/

/-- The id of the root is read as one of its pair. -/
def ReadBack (file : SystemFile) : Prop := fileIdPathPairId (rootId file) = pairKey file

/-- The root has a pair, or its name is no list of two strings. -/
def PlainName (file : SystemFile) : Prop := file.pathPairId = none → readPairedId (codes file.name) = none

instance : DecidablePred PlainName := fun file =>
  inferInstanceAs (Decidable (file.pathPairId = none → readPairedId (codes file.name) = none))

theorem readPairedId_paired (pair name : String) :
    readPairedId (idText (codes pair) (codes name)) = some (codes pair, codes name) := by
  rw [readPairedId, loads_idText (isText_codes pair) (isText_codes name), joinCodes_codes, joinCodes_codes]

theorem readBack_of_plainName {file : SystemFile} (h : PlainName file) : ReadBack file := by
  unfold ReadBack pairKey rootId fileIdPathPairId
  cases hpair : file.pathPairId with
  | none => rw [rootFileId, h hpair, Option.map_none, Option.map_none]
  | some pair => rw [rootFileId, readPairedId_paired, Option.map_some, Option.map_some]

theorem placed_putRoot {buckets : Buckets} (h : buckets.Placed) {file : SystemFile} (hfile : ReadBack file) :
    (putRoot buckets file).Placed := by
  have hroots : ∀ fileId root, ((buckets.bucket (pairKey file)).set (rootId file) file).get fileId = some root →
      fileId = rootId root ∧ pairKey root = pairKey file ∧ fileIdPathPairId fileId = pairKey file := by
    intro fileId root hget
    rcases Dict.eq_or_of_get_set hget with ⟨rfl, rfl⟩ | hget
    · exact ⟨rfl, rfl, hfile⟩
    · exact ⟨h.id _ fileId root hget, h.pair _ fileId root hget, h.read _ fileId root hget⟩
  have hset : putRoot buckets file =
      buckets.replace (pairKey file) ((buckets.bucket (pairKey file)).set (rootId file) file) := by
    unfold Buckets.replace
    rw [if_neg]
    · rfl
    · intro hempty
      have hself := Dict.get_set_self (buckets.bucket (pairKey file)) (rootId file) file
      rw [Dict.get_eq_some, hempty] at hself
      cases hself
  rw [hset]
  exact h.replace hroots

theorem placed_bucketFiles {files : List SystemFile} (h : ∀ file ∈ files, ReadBack file) :
    (bucketFiles files).Placed := by
  suffices hgen : ∀ buckets : Buckets, buckets.Placed → (files.foldl putRoot buckets).Placed from
    hgen {} Buckets.Placed.empty
  induction files with
  | nil => exact fun _ hbuckets => hbuckets
  | cons file files ih =>
    intro buckets hbuckets
    exact ih (fun f hf => h f (List.mem_cons_of_mem _ hf)) _ (placed_putRoot hbuckets (h file List.mem_cons_self))

/-- The roots that stand in their places are read back. -/
theorem Buckets.Placed.readBack {buckets : Buckets} (h : buckets.Placed) {root : SystemFile}
    (hroot : root ∈ buckets.files) : ReadBack root := by
  obtain ⟨pair, fileId, hget⟩ := mem_files hroot
  unfold ReadBack
  rw [← h.id pair fileId root hget, h.read pair fileId root hget, h.pair pair fileId root hget]

end SeedSync.Builder.Index
