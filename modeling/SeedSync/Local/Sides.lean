import SeedSync.Local.Scanner
import SeedSync.System.Roots

/-!
# One root of the local scan

The final or the staging directory: what its entries come to when the whole of it is scanned, and
what the names in its manifest come to when they are scanned one by one.
-/

namespace SeedSync.Local

open Lib LocalScanner

/-! ## Names that lead back -/

/-- Under the name that the manifest has for it, an entry is found as what it is. An entry that leads
nowhere may stand beside another one of that name. -/
def LeadsBack (scanner : Scanner) (entries : List Entry) (entry : Entry) : Prop :=
  ∃ found ∈ scanner.listed entries, scanner.present entries (scanner.strip entry.name) = some found ∧
    scanner.strip found.name = scanner.strip entry.name ∧ (entry.exists' = true → found = entry) ∧
    createdName scanner found (scanner.strip entry.name) = createdName scanner found found.name

theorem regularFile_exists {entry : Entry} (h : entry.regularFile.isSome = true) : entry.exists' = true := by
  rcases entry with ⟨onDisk, file⟩ | ⟨onDisk, stat, entries⟩ | ⟨onDisk, file | stat | _ | _⟩
  · rfl
  · rfl
  · rfl
  · rfl
  · cases h
  · cases h

theorem present_exists {scanner : Scanner} {entries : List Entry} {name : Codes} {entry : Entry}
    (h : scanner.present entries name = some entry) : entry.exists' = true := by
  unfold Scanner.present at h
  dsimp only at h
  rw [Option.or_eq_some_iff] at h
  rcases h with h | ⟨-, h⟩
  · exact (Option.filter_eq_some_iff.mp h).2
  · split_ifs at h
    exact regularFile_exists (Option.filter_eq_some_iff.mp h).2

section

variable (local' : LocalScanner) (isMarker : List String → Bool)

/-- What is left of one file. -/
def LocalScanner.pruneOne (file : SystemFile) : Option SystemFile := (local'.prune isMarker [file]).head?

theorem pruneOne_eq (file : SystemFile) : local'.pruneOne isMarker file =
    if local'.managedExtractFoldersEnabled then pruneManagedExtractTree isMarker [file.name] file else some file := by
  unfold LocalScanner.pruneOne LocalScanner.prune
  split_ifs
  · unfold pruneManagedExtractEntries
    rw [List.filterMap_cons]
    cases pruneManagedExtractTree isMarker [file.name] file <;> rfl
  · rfl

theorem prune_perm (files : List SystemFile) :
    (local'.prune isMarker files).Perm (files.filterMap (local'.pruneOne isMarker)) := by
  have hone : local'.pruneOne isMarker = fun file =>
      if local'.managedExtractFoldersEnabled then pruneManagedExtractTree isMarker [file.name] file else some file :=
    funext (pruneOne_eq local' isMarker)
  rw [hone]
  unfold LocalScanner.prune
  by_cases henabled : local'.managedExtractFoldersEnabled = true
  · simp only [henabled, if_true]
    exact sortByName_perm _
  · simp [henabled]

theorem pruneOne_name {file pruned : SystemFile} (h : local'.pruneOne isMarker file = some pruned) :
    pruned.name = file.name := by
  rw [pruneOne_eq] at h
  split_ifs at h
  · exact pruneManagedExtractTree_name h
  · cases h
    rfl

/-- What a scan keeps of an entry. -/
def LocalScanner.kept (entries : List Entry) (entry : Entry) : Option SystemFile :=
  match local'.system.createEntry entries entry with
  | .ok (some file) => local'.pruneOne isMarker file
  | _ => none

theorem kept_name {entries : List Entry} {entry : Entry} {file : SystemFile}
    (h : local'.kept isMarker entries entry = some file) : entry.exists' = true ∧
      file.name = createdName local'.system entry entry.name := by
  unfold LocalScanner.kept at h
  split at h
  · rename_i created hcreated
    have hexists : entry.exists' = true := by
      by_contra hmissing
      have hmissing := Bool.eq_false_of_not_eq_true hmissing
      by_cases hbroken : entry.isBroken = true
      · unfold Scanner.createEntry at hcreated
        rcases entry with ⟨onDisk, file⟩ | ⟨onDisk, stat, entries⟩ | ⟨onDisk, file | stat | _ | _⟩
        · cases hbroken
        · cases hbroken
        · cases hbroken
        · cases hbroken
        · cases hbroken
        · rw [Scanner.createSystemFile] at hcreated
          cases hcreated
      · cases hcreated.symm.trans (createEntry_missing local'.system entries hmissing
          (Bool.eq_false_of_not_eq_true hbroken))
    obtain ⟨made, hmade, hname⟩ := createSystemFile_exists hexists hcreated
    cases hmade
    exact ⟨hexists, (pruneOne_name local' isMarker h).trans hname⟩
  · cases h

/-! ## The roots by key -/

variable (excludeName : Option Codes) (entries : List Entry)

/-- The entries whose names are in the manifest. -/
def LocalScanner.manifested : List Entry :=
  (local'.system.listed entries).filter fun entry => decide (excludeName ≠ some (local'.system.strip entry.name))

/-- What is kept, each under its name in the manifest. -/
def LocalScanner.keyed : List (Codes × SystemFile) :=
  (local'.manifested excludeName entries).filterMap fun entry =>
    (local'.kept isMarker entries entry).map fun file => (local'.system.strip entry.name, file)

variable {local' isMarker excludeName entries}

theorem mem_manifested {entry : Entry} : entry ∈ local'.manifested excludeName entries ↔
    entry ∈ local'.system.listed entries ∧ excludeName ≠ some (local'.system.strip entry.name) := by
  unfold LocalScanner.manifested
  rw [List.mem_filter, decide_eq_true_eq]

theorem mem_keyed {name : Codes} {file : SystemFile} : (name, file) ∈ local'.keyed isMarker excludeName entries ↔
    ∃ entry ∈ local'.manifested excludeName entries, local'.kept isMarker entries entry = some file ∧
      local'.system.strip entry.name = name := by
  unfold LocalScanner.keyed
  rw [List.mem_filterMap]
  constructor
  · rintro ⟨entry, hentry, hmap⟩
    obtain ⟨kept, hkept, heq⟩ := Option.map_eq_some_iff.mp hmap
    cases heq
    exact ⟨entry, hentry, hkept, rfl⟩
  · rintro ⟨entry, hentry, hkept, rfl⟩
    exact ⟨entry, hentry, by rw [hkept]; rfl⟩

/-- Every name of the manifest leads back. -/
def AllLeadBack (scanner : LocalScanner) (excludeName : Option Codes) (entries : List Entry) : Prop :=
  ∀ entry ∈ scanner.manifested excludeName entries, LeadsBack scanner.system entries entry

section

variable (hleads : AllLeadBack local' excludeName entries)

include hleads

/-- What exists is found under its name. -/
theorem present_of_exists {entry : Entry} (hentry : entry ∈ local'.manifested excludeName entries)
    (hexists : entry.exists' = true) :
    local'.system.present entries (local'.system.strip entry.name) = some entry := by
  obtain ⟨found, -, hpresent, -, hsame, -⟩ := hleads entry hentry
  rw [hpresent, hsame hexists]

theorem keyed_nodup (isMarker : List String → Bool) (hdistinct : (entries.map Entry.name).Nodup) :
    ((local'.keyed isMarker excludeName entries).map Prod.fst).Nodup := by
  have hentries : (local'.manifested excludeName entries).Nodup :=
    ((List.Nodup.of_map _ hdistinct).filter _).filter _
  have hkeys : (local'.keyed isMarker excludeName entries).map Prod.fst =
      ((local'.manifested excludeName entries).filter fun entry => (local'.kept isMarker entries entry).isSome).map
        fun entry => local'.system.strip entry.name := by
    unfold LocalScanner.keyed
    induction local'.manifested excludeName entries with
    | nil => rfl
    | cons entry rest ih =>
      rw [List.filterMap_cons, List.filter_cons]
      cases local'.kept isMarker entries entry with
      | none => exact ih
      | some file => exact congrArg (local'.system.strip entry.name :: ·) ih
  rw [hkeys]
  refine List.Nodup.map_on ?_ (hentries.filter _)
  intro first hfirst second hsecond hsame
  obtain ⟨hfirst, hkeptFirst⟩ := List.mem_filter.mp hfirst
  obtain ⟨hsecond, hkeptSecond⟩ := List.mem_filter.mp hsecond
  obtain ⟨_, hfirstKept⟩ := Option.isSome_iff_exists.mp hkeptFirst
  obtain ⟨_, hsecondKept⟩ := Option.isSome_iff_exists.mp hkeptSecond
  have hpresent := present_of_exists hleads hfirst (kept_name _ _ hfirstKept).1
  rw [hsame, present_of_exists hleads hsecond (kept_name _ _ hsecondKept).1] at hpresent
  exact (Option.some.inj hpresent).symm

/-- The key of a manifested entry leads to what is kept of the entry that is found under it. -/
theorem getItem_keyed (hdistinct : (entries.map Entry.name).Nodup) {entry found : Entry}
    (hentry : entry ∈ local'.manifested excludeName entries) (hfound : found ∈ local'.system.listed entries)
    (hpresent : local'.system.present entries (local'.system.strip entry.name) = some found)
    (hname : local'.system.strip found.name = local'.system.strip entry.name) :
    Dict.getItem (local'.keyed isMarker excludeName entries) (local'.system.strip entry.name) =
      local'.kept isMarker entries found := by
  have hnodup := keyed_nodup hleads isMarker hdistinct
  have hmanifested : found ∈ local'.manifested excludeName entries := by
    rw [mem_manifested, hname]
    exact ⟨hfound, (mem_manifested.mp hentry).2⟩
  cases hkept : local'.kept isMarker entries found with
  | some file => exact (Dict.getItem_eq_some hnodup _ _).mpr (mem_keyed.mpr ⟨found, hmanifested, hkept, hname⟩)
  | none =>
    rw [Option.eq_none_iff_forall_ne_some]
    intro file hfile
    obtain ⟨other, hother, hotherKept, hotherName⟩ := mem_keyed.mp ((Dict.getItem_eq_some hnodup _ _).mp hfile)
    have hotherPresent := present_of_exists hleads hother (kept_name _ _ hotherKept).1
    rw [hotherName, hpresent] at hotherPresent
    cases hotherPresent
    rw [hotherKept] at hkept
    cases hkept

/-- One name of the manifest, where the whole directory is scanned without an error. -/
theorem scanSingle_eq (hdistinct : (entries.map Entry.name).Nodup) {files : List SystemFile}
    (hscan : collect (local'.system.createEntry entries) (local'.system.listed entries) = .ok files) {entry : Entry}
    (hentry : entry ∈ local'.manifested excludeName entries) (missing : ScannerError) :
    local'.scanSingle isMarker missing entries (local'.system.strip entry.name) =
      .ok (Dict.getItem (local'.keyed isMarker excludeName entries) (local'.system.strip entry.name)) := by
  obtain ⟨found, hfound, hpresent, hname, -, hcreated⟩ := hleads entry hentry
  obtain ⟨result, hresult, -⟩ := collect_ok hscan found hfound
  obtain ⟨file, rfl, -⟩ := createSystemFile_exists (present_exists hpresent) hresult
  rw [getItem_keyed hleads hdistinct hentry hfound hpresent hname]
  unfold LocalScanner.scanSingle Scanner.scanSingleIfPresent LocalScanner.kept
  rw [hpresent]
  dsimp only
  rw [createSystemFile_congr hcreated, hresult]
  unfold Scanner.createEntry at hresult
  rw [hresult]
  rfl

/-- An entry that cannot be scanned cannot be scanned by its name. -/
theorem scanSingle_fails {entry : Entry} (hentry : entry ∈ local'.manifested excludeName entries)
    (hunbroken : entry.isBroken = false) {e : ScanFailure} (hfails : local'.system.createEntry entries entry = .error e)
    (missing : ScannerError) :
    ∃ failure, local'.scanSingle isMarker missing entries (local'.system.strip entry.name) = .error failure := by
  have hexists : entry.exists' = true := by
    by_contra hmissing
    cases hfails.symm.trans (createEntry_missing local'.system entries (Bool.eq_false_of_not_eq_true hmissing) hunbroken)
  obtain ⟨found, -, hpresent, -, hsame, hcreated⟩ := hleads entry hentry
  cases hsame hexists
  unfold LocalScanner.scanSingle Scanner.scanSingleIfPresent
  rw [hpresent]
  dsimp only
  unfold Scanner.createEntry at hfails
  rw [createSystemFile_congr hcreated, hfails]
  exact ⟨_, rfl⟩

end

theorem filterMap_pruneOne {items : List Entry} {found : List SystemFile}
    (hfound : collect (local'.system.createEntry entries) items = .ok found) :
    found.filterMap (local'.pruneOne isMarker) = items.filterMap (local'.kept isMarker entries) := by
  induction items generalizing found with
  | nil =>
    cases hfound
    rfl
  | cons entry rest ih =>
    obtain ⟨result, others, hentry, hothers, rfl⟩ := collect_cons_eq_ok hfound
    have hone : local'.kept isMarker entries entry = result.bind (local'.pruneOne isMarker) := by
      unfold LocalScanner.kept
      rw [hentry]
      cases result <;> rfl
    rw [List.filterMap_append, ih hothers, List.filterMap_cons, hone]
    cases result with
    | none => rfl
    | some file => cases hpruned : local'.pruneOne isMarker file <;> simp [hpruned]

/-- A whole scan keeps what is kept of its entries. -/
theorem prune_scan_perm {files : List SystemFile} (hscan : local'.system.scan (some entries) = .ok files) :
    (local'.prune isMarker files).Perm
      ((local'.system.listed entries).filterMap (local'.kept isMarker entries)) := by
  obtain ⟨-, found, hfound, rfl⟩ := (scan_eq_ok_iff local'.system).mp hscan
  rw [← filterMap_pruneOne hfound]
  exact (prune_perm local' isMarker _).trans ((sortByName_perm found).filterMap _)

/-! ## The manifest -/

theorem mem_discard {name : Codes} {names : List Codes} :
    name ∈ LocalScanner.discard excludeName names ↔ name ∈ names ∧ excludeName ≠ some name := by
  unfold LocalScanner.discard
  cases excludeName with
  | none => simp
  | some excluded =>
    rw [List.mem_filter, decide_eq_true_eq]
    refine and_congr_right fun _ => ?_
    rw [Ne, Ne, Option.some.injEq, eq_comm]

/-- The names of one directory that are to be scanned. -/
def LocalScanner.manifestNames (scanner : LocalScanner) (excludeName : Option Codes) (entries : List Entry) : List Codes :=
  LocalScanner.discard excludeName (sortNames ((scanner.system.listed entries).map fun entry => scanner.system.strip entry.name))

theorem mem_manifestNames {name : Codes} : name ∈ local'.manifestNames excludeName entries ↔
    ∃ entry ∈ local'.manifested excludeName entries, local'.system.strip entry.name = name := by
  unfold LocalScanner.manifestNames
  rw [mem_discard, mem_sortNames, List.mem_map]
  constructor
  · rintro ⟨⟨entry, hentry, rfl⟩, hkeep⟩
    exact ⟨entry, mem_manifested.mpr ⟨hentry, hkeep⟩, rfl⟩
  · rintro ⟨entry, hentry, rfl⟩
    exact ⟨⟨entry, (mem_manifested.mp hentry).1, rfl⟩, (mem_manifested.mp hentry).2⟩

/-- The keys are names of the manifest. -/
theorem getItem_keyed_absent {name : Codes} (h : name ∉ local'.manifestNames excludeName entries) :
    Dict.getItem (local'.keyed isMarker excludeName entries) name = none := by
  rw [mem_manifestNames] at h
  have hkeys : name ∉ (local'.keyed isMarker excludeName entries).map Prod.fst := by
    rw [List.mem_map]
    rintro ⟨⟨key, file⟩, hmem, rfl⟩
    obtain ⟨entry, hentry, -, hname⟩ := mem_keyed.mp hmem
    exact h ⟨entry, hentry, hname⟩
  generalize local'.keyed isMarker excludeName entries = items at hkeys
  induction items with
  | nil => rfl
  | cons item items ih =>
    rw [List.map_cons, List.mem_cons, not_or] at hkeys
    rw [Dict.getItem, if_neg (Ne.symm hkeys.1), ih hkeys.2]

/-- What the loop has of one directory under a name. -/
theorem scanSide_eq (hleads : AllLeadBack local' excludeName entries) (hdistinct : (entries.map Entry.name).Nodup)
    {files : List SystemFile}
    (hscan : collect (local'.system.createEntry entries) (local'.system.listed entries) = .ok files)
    (missing : ScannerError) (name : Codes) :
    local'.scanSide isMarker missing entries (local'.manifestNames excludeName entries) name =
      .ok (Dict.getItem (local'.keyed isMarker excludeName entries) name) := by
  unfold LocalScanner.scanSide
  split_ifs with hname
  · obtain ⟨entry, hentry, rfl⟩ := mem_manifestNames.mp hname
    exact scanSingle_eq hleads hdistinct hscan hentry missing
  · rw [getItem_keyed_absent hname]

/-- The loop raises where an entry of the manifest cannot be scanned. -/
theorem scanSide_fails (isMarker : List String → Bool) (hleads : AllLeadBack local' excludeName entries) {entry : Entry}
    (hentry : entry ∈ local'.manifested excludeName entries) (hunbroken : entry.isBroken = false) {e : ScanFailure}
    (hfails : local'.system.createEntry entries entry = .error e) (missing : ScannerError) :
    ∃ name ∈ local'.manifestNames excludeName entries, ∃ failure,
      local'.scanSide isMarker missing entries (local'.manifestNames excludeName entries) name = .error failure := by
  have hname : local'.system.strip entry.name ∈ local'.manifestNames excludeName entries :=
    mem_manifestNames.mpr ⟨entry, hentry, rfl⟩
  refine ⟨_, hname, ?_⟩
  unfold LocalScanner.scanSide
  rw [if_pos hname]
  exact scanSingle_fails hleads hentry hunbroken hfails missing

end

end SeedSync.Local
