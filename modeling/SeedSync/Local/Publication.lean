import SeedSync.Local.Merging
import SeedSync.Local.Sides

/-!
# Where a progress callback changes only the timing

A scan with a callback lists names and scans each of them again. It comes to the roots of the plain
scan where every name leads back to its entry, and where the names of the manifest and those of the
files say the same of what is excluded and what is merged.
-/

namespace SeedSync.Local

open Lib LocalScanner

/-- Both raise, or they return the same roots in some order. -/
def SameRoots : Except ScannerError (List SystemFile) → Except ScannerError (List SystemFile) → Prop
  | .ok files, .ok others => files.Perm others
  | .error _, .error _ => True
  | _, _ => False

/-- The manifests of both directories can be listed. -/
def Listable (scanner : LocalScanner) (content : Content) : Prop :=
  (∃ names, scanner.system.rootNames content.final = .ok names) ∧
    ∀ staging ∈ content.staging, ∃ names, scanner.system.rootNames staging = .ok names

/-- The manifested entries of which a scan keeps something. -/
def LocalScanner.keptEntries (scanner : LocalScanner) (isMarker : List String → Bool) (excludeName : Option Codes)
    (entries : List Entry) : List Entry :=
  (scanner.manifested excludeName entries).filter fun entry => (scanner.kept isMarker entries entry).isSome

/-- What the two ways of scanning have to agree on. -/
structure NamesAgree (scanner : LocalScanner) (content : Content) : Prop where
  finalLeads : ∀ entries ∈ content.final, AllLeadBack scanner content.excludeName entries
  stagingLeads : ∀ entries ∈ content.staging.join, AllLeadBack scanner content.excludeName entries
  /-- A final root is excluded by its name in the manifest where it is by the name of its file. -/
  excluded : ∀ entries ∈ content.final, ∀ entry ∈ scanner.system.listed entries,
    (scanner.kept scanner.finalMarker entries entry).isSome →
      (content.excludeName = some (scanner.system.strip entry.name) ↔
        content.excludeName = some (codes (createdName scanner.system entry entry.name)))
  /-- An excluded final root is scanned without an error, or the staging root is not. -/
  excludedScanned : ∀ entries ∈ content.final, ∀ entry ∈ scanner.system.listed entries,
    content.excludeName = some (scanner.system.strip entry.name) →
      (∃ result, scanner.system.createEntry entries entry = .ok result) ∨
        ∃ staging ∈ content.staging, ∃ e, scanner.system.scan staging = .error e
  /-- Nothing of the staging root is excluded. -/
  stagingKept : ∀ entries ∈ content.staging.join, ∀ entry ∈ scanner.system.listed entries,
    content.excludeName = some (scanner.system.strip entry.name) →
      (∃ result, scanner.system.createEntry entries entry = .ok result) ∧
        scanner.kept scanner.stagingMarker entries entry = none
  /-- A final and a staging root are merged by the name of their files where they are by key. -/
  merged : ∀ finals ∈ content.final, ∀ stagings ∈ content.staging.join,
    ∀ final ∈ scanner.keptEntries scanner.finalMarker content.excludeName finals,
      ∀ staging ∈ scanner.keptEntries scanner.stagingMarker content.excludeName stagings,
        scanner.system.strip final.name = scanner.system.strip staging.name ↔
          createdName scanner.system final final.name = createdName scanner.system staging staging.name
  /-- No two staging roots have files of one name. -/
  stagingNames : ∀ stagings ∈ content.staging.join,
    ((scanner.keptEntries scanner.stagingMarker content.excludeName stagings).map fun entry =>
      createdName scanner.system entry entry.name).Nodup

section

variable {scanner : LocalScanner} {isMarker : List String → Bool} {excludeName : Option Codes} {entries : List Entry}

theorem mem_keptEntries_of_keyed {item : Codes × SystemFile} (h : item ∈ scanner.keyed isMarker excludeName entries) :
    ∃ entry ∈ scanner.keptEntries isMarker excludeName entries, scanner.system.strip entry.name = item.1 ∧
      createdName scanner.system entry entry.name = item.2.name := by
  obtain ⟨name, file⟩ := item
  obtain ⟨entry, hentry, hkept, rfl⟩ := mem_keyed.mp h
  refine ⟨entry, List.mem_filter.mpr ⟨hentry, ?_⟩, rfl, (kept_name _ _ hkept).2.symm⟩
  rw [hkept]
  rfl

theorem keyed_names : (scanner.keyed isMarker excludeName entries).map (fun item => item.2.name) =
    (scanner.keptEntries isMarker excludeName entries).map fun entry => createdName scanner.system entry entry.name := by
  unfold LocalScanner.keyed LocalScanner.keptEntries
  induction scanner.manifested excludeName entries with
  | nil => rfl
  | cons entry rest ih =>
    rw [List.filterMap_cons, List.filter_cons]
    cases hkept : scanner.kept isMarker entries entry with
    | none => exact ih
    | some file =>
      have hname := (kept_name _ _ hkept).2
      simp only [Option.map_some, Option.isSome_some, if_true, List.map_cons]
      rw [ih, hname]

/-- The values that are kept, in some order, as a dict. -/
theorem exists_keyed_dict (hleads : AllLeadBack scanner excludeName entries) (hdistinct : (entries.map Entry.name).Nodup)
    {files : List SystemFile} (hfiles : files.Perm ((scanner.keyed isMarker excludeName entries).map Prod.snd)) :
    ∃ items : Dict Codes SystemFile, items.items.map Prod.snd = files ∧
      items.items.Perm (scanner.keyed isMarker excludeName entries) ∧
      ∀ key, items.get key = Dict.getItem (scanner.keyed isMarker excludeName entries) key := by
  have hnodup := keyed_nodup hleads isMarker hdistinct
  obtain ⟨items, hperm, hvalues⟩ := exists_perm_of_map_perm hfiles
  exact ⟨⟨items, (hperm.map Prod.fst).nodup_iff.mpr hnodup⟩, hvalues, hperm, fun key => Dict.getItem_perm hperm hnodup key⟩

theorem excludeNested_eq (files : List SystemFile) : excludeNested excludeName files =
    files.filter fun file => decide (excludeName ≠ some (codes file.name)) := by
  unfold excludeNested
  cases excludeName with
  | none => simp
  | some name =>
    refine List.filter_congr fun file _ => ?_
    rw [decide_eq_decide, Ne, Ne, Option.some.injEq, eq_comm]

/-- The files of entries are excluded as their names are. -/
theorem filter_kept {items : List Entry} (hexcluded : ∀ entry ∈ items, (scanner.kept isMarker entries entry).isSome →
      (excludeName = some (scanner.system.strip entry.name) ↔
        excludeName = some (codes (createdName scanner.system entry entry.name)))) :
    (items.filterMap (scanner.kept isMarker entries)).filter (fun file => decide (excludeName ≠ some (codes file.name))) =
      ((items.filter fun entry => decide (excludeName ≠ some (scanner.system.strip entry.name))).filterMap fun entry =>
        (scanner.kept isMarker entries entry).map fun file => (scanner.system.strip entry.name, file)).map Prod.snd := by
  induction items with
  | nil => rfl
  | cons entry rest ih =>
    have hrest := ih fun e he => hexcluded e (List.mem_cons_of_mem _ he)
    rw [List.filterMap_cons, List.filter_cons]
    cases hkept : scanner.kept isMarker entries entry with
    | none =>
      dsimp only
      rw [hrest]
      split_ifs
      · rw [List.filterMap_cons, hkept]
        rfl
      · rfl
    | some file =>
      have hsame := hexcluded entry List.mem_cons_self (by rw [hkept]; rfl)
      rw [← (kept_name _ _ hkept).2] at hsame
      dsimp only
      rw [List.filter_cons, hrest]
      by_cases hout : excludeName = some (codes file.name)
      · have hname := hsame.mpr hout
        rw [if_neg (by simp [hout]), if_neg (by simp [hname])]
      · have hname : excludeName ≠ some (scanner.system.strip entry.name) := fun h => hout (hsame.mp h)
        rw [if_pos (by simpa using hout), if_pos (by simpa using hname), List.filterMap_cons, hkept]
        rfl

/-- What is excluded of the files is what is not manifested. -/
theorem excludeNested_perm {files : List SystemFile} (hscan : scanner.system.scan (some entries) = .ok files)
    (hexcluded : ∀ entry ∈ scanner.system.listed entries, (scanner.kept isMarker entries entry).isSome →
      (excludeName = some (scanner.system.strip entry.name) ↔
        excludeName = some (codes (createdName scanner.system entry entry.name)))) :
    (excludeNested excludeName (scanner.prune isMarker files)).Perm
      ((scanner.keyed isMarker excludeName entries).map Prod.snd) := by
  rw [excludeNested_eq]
  refine ((prune_scan_perm hscan).filter _).trans (List.Perm.of_eq ?_)
  exact filter_kept hexcluded

/-- Of a directory of which nothing is excluded, all that is kept is manifested. -/
theorem staging_perm {files : List SystemFile} (hscan : scanner.system.scan (some entries) = .ok files)
    (hkept : ∀ entry ∈ scanner.system.listed entries, excludeName = some (scanner.system.strip entry.name) →
      scanner.kept isMarker entries entry = none) :
    (scanner.prune isMarker files).Perm ((scanner.keyed isMarker excludeName entries).map Prod.snd) := by
  refine (prune_scan_perm hscan).trans (List.Perm.of_eq ?_)
  unfold LocalScanner.keyed LocalScanner.manifested
  generalize scanner.system.listed entries = items at hkept
  induction items with
  | nil => rfl
  | cons entry rest ih =>
    have hrest := ih fun e he => hkept e (List.mem_cons_of_mem _ he)
    rw [List.filterMap_cons, List.filter_cons]
    by_cases hname : excludeName = some (scanner.system.strip entry.name)
    · rw [hkept entry List.mem_cons_self hname, if_neg (by simp [hname])]
      exact hrest
    · rw [if_pos (by simpa using hname), List.filterMap_cons]
      cases scanner.kept isMarker entries entry with
      | none => exact hrest
      | some file => exact congrArg (file :: ·) hrest

end

/-! ## Both scans -/

section

variable {scanner : LocalScanner} {content : Content}

/-- Where a manifest cannot be listed, both scans raise. -/
theorem scan_of_not_listable (h : ¬ Listable scanner content) :
    SameRoots (scanner.scan content) (scanner.scanProgressively content) := by
  have hraises : ∀ disk, (∀ names, scanner.system.rootNames disk ≠ .ok names) →
      (∃ e, scanner.system.rootNames disk = .error e) ∧ ∃ e, scanner.system.scan disk = .error e := by
    intro disk hnone
    constructor
    · rcases hnames : scanner.system.rootNames disk with e | names
      · exact ⟨e, rfl⟩
      · exact absurd hnames (hnone names)
    · rcases hscan : scanner.system.scan disk with e | files
      · exact ⟨e, rfl⟩
      · cases disk with
        | none => cases hscan
        | some entries =>
          have hunbroken := ((scan_eq_ok_iff scanner.system).mp hscan).1
          exact absurd ((rootNames_eq_ok_iff scanner.system).mpr ⟨hunbroken, rfl⟩) (hnone _)
  unfold LocalScanner.scan LocalScanner.scanProgressively
  rcases hnames : scanner.system.rootNames content.final with e | names
  · obtain ⟨-, e', hscan⟩ := hraises content.final fun names hok => by rw [hnames] at hok; cases hok
    rw [hscan]
    exact True.intro
  · have hstaging : ∃ staging ∈ content.staging, ∀ names, scanner.system.rootNames staging ≠ .ok names := by
      by_contra hall
      refine h ⟨⟨names, hnames⟩, fun staging hstaging => ?_⟩
      by_contra hnone
      exact hall ⟨staging, hstaging, fun names hok => hnone ⟨names, hok⟩⟩
    obtain ⟨staging, hstaging, hnone⟩ := hstaging
    obtain ⟨⟨e, hnames'⟩, e', hscan⟩ := hraises staging hnone
    rw [Option.mem_def] at hstaging
    rw [hstaging]
    dsimp only
    rw [hnames', hscan]
    rcases scanner.system.scan content.final with e | files
    · exact True.intro
    · exact True.intro

/-- The staging entries, of which there are none without a staging scanner. -/
def Content.stagingEntries (content : Content) : List Entry := content.staging.join.getD []

theorem scanProgressively_eq {finals : List Entry} (hfinal : content.final = some finals)
    (hlistable : Listable scanner content) : scanner.scanProgressively content =
      collect (scanner.scanRoot finals content.stagingEntries (scanner.manifestNames content.excludeName finals)
        (scanner.manifestNames content.excludeName content.stagingEntries))
        (sortNames (scanner.manifestNames content.excludeName finals ++
          scanner.manifestNames content.excludeName content.stagingEntries)) := by
  obtain ⟨⟨names, hnames⟩, hstaging⟩ := hlistable
  unfold LocalScanner.scanProgressively Content.stagingEntries
  rw [hfinal] at hnames ⊢
  rw [hnames, ((rootNames_eq_ok_iff scanner.system).mp hnames).2]
  cases hdisk : content.staging with
  | none => rfl
  | some staging =>
    obtain ⟨names', hnames'⟩ := hstaging staging hdisk
    dsimp only
    rw [hnames']
    cases staging with
    | none => cases hnames'
    | some stagings =>
      rw [((rootNames_eq_ok_iff scanner.system).mp hnames').2]
      rfl

/-- Both directories are scanned without an error. -/
theorem scan_of_ok (hagree : NamesAgree scanner content) (hlistable : Listable scanner content) {finals : List Entry}
    (hfinal : content.final = some finals) {files : List SystemFile}
    (hfiles : scanner.system.scan (some finals) = .ok files) {stagingFiles : List SystemFile}
    (hstagingFiles : scanner.system.scan (some content.stagingEntries) = .ok stagingFiles) :
    (mergeStaging (excludeNested content.excludeName (scanner.prune scanner.finalMarker files))
      (scanner.prune scanner.stagingMarker stagingFiles)).Perm
        ((scanner.scanProgressively content).toOption.getD []) ∧ (scanner.scanProgressively content).isOk = true := by
  have hleads := hagree.finalLeads finals hfinal
  have hdistinct := content.finalDistinct finals hfinal
  have hstaging : content.stagingEntries = [] ∨ content.stagingEntries ∈ content.staging.join := by
    unfold Content.stagingEntries
    cases content.staging.join with
    | none => exact Or.inl rfl
    | some stagings => exact Or.inr rfl
  have hstagingLeads : AllLeadBack scanner content.excludeName content.stagingEntries := by
    rcases hstaging with hnone | hsome
    · intro entry hentry
      rw [hnone] at hentry
      cases hentry
    · exact hagree.stagingLeads _ hsome
  have hstagingDistinct : (content.stagingEntries.map Entry.name).Nodup := by
    rcases hstaging with hnone | hsome
    · rw [hnone]
      exact List.nodup_nil
    · exact content.stagingDistinct _ hsome
  have hstagingKept : ∀ entry ∈ scanner.system.listed content.stagingEntries,
      content.excludeName = some (scanner.system.strip entry.name) →
        scanner.kept scanner.stagingMarker content.stagingEntries entry = none := by
    intro entry hentry hname
    rcases hstaging with hnone | hsome
    · rw [hnone] at hentry
      cases hentry
    · exact (hagree.stagingKept _ hsome entry hentry hname).2
  obtain ⟨dict, hvalues, hperm, hget⟩ := exists_keyed_dict hleads hdistinct
    (excludeNested_perm hfiles (hagree.excluded finals hfinal))
  obtain ⟨stagings, hstagingValues, hstagingPerm, hstagingGet⟩ := exists_keyed_dict hstagingLeads hstagingDistinct
    (staging_perm hstagingFiles hstagingKept)
  have hmatch : NamesMatchKeys dict.items stagings.items := by
    intro final hfinalItem staging hstagingItem
    obtain ⟨entry, hentry, hkey, hname⟩ := mem_keptEntries_of_keyed (hperm.mem_iff.mp hfinalItem)
    obtain ⟨other, hother, hotherKey, hotherName⟩ := mem_keptEntries_of_keyed (hstagingPerm.mem_iff.mp hstagingItem)
    rcases hstaging with hnone | hsome
    · rw [hnone] at hother
      cases hother
    · rw [← hkey, ← hotherKey, ← hname, ← hotherName]
      exact hagree.merged finals hfinal _ hsome entry hentry other hother
  have hkeys : KeysDistinct stagings.items := by
    refine ⟨stagings.nodup, ?_⟩
    rw [(hstagingPerm.map _).nodup_iff, keyed_names]
    rcases hstaging with hnone | hsome
    · rw [hnone]
      exact List.nodup_nil
    · exact hagree.stagingNames _ hsome
  obtain ⟨-, found, hfound, -⟩ := (scan_eq_ok_iff scanner.system).mp hfiles
  obtain ⟨-, stagingFound, hstagingFound, -⟩ := (scan_eq_ok_iff scanner.system).mp hstagingFiles
  -- Every name comes to what stands under it as a key.
  have hroot : ∀ name, scanner.scanRoot finals content.stagingEntries (scanner.manifestNames content.excludeName finals)
      (scanner.manifestNames content.excludeName content.stagingEntries) name =
      .ok (Dict.combine mergeDuplicateLocalEntries (dict.get name)
        ((Dict.getItem stagings.items name).map markStagingFileTree)) := by
    intro name
    have hstagingName : Dict.getItem stagings.items name = _ := hstagingGet name
    unfold LocalScanner.scanRoot
    rw [scanSide_eq hleads hdistinct hfound, scanSide_eq hstagingLeads hstagingDistinct hstagingFound, ← hget name,
      ← hstagingName]
    cases dict.get name <;> cases Dict.getItem stagings.items name <;> rfl
  have hprogressive := scanProgressively_eq hfinal hlistable
  rw [collect_pure fun name _ => hroot name] at hprogressive
  rw [hprogressive, ← hvalues, ← hstagingValues]
  refine ⟨mergeStaging_perm hmatch hkeys (sortNames_nodup _) ?_, rfl⟩
  -- The keys are names of the manifests.
  intro key hkey
  rw [mem_sortNames, List.mem_append]
  rcases hkey with hkey | hkey
  · left
    by_contra hnot
    rw [hget, getItem_keyed_absent hnot] at hkey
    exact hkey rfl
  · right
    by_contra hnot
    obtain ⟨item, hitem, rfl⟩ := List.mem_map.mp hkey
    obtain ⟨entry, hentry, hstrip, -⟩ := mem_keptEntries_of_keyed (hstagingPerm.mem_iff.mp hitem)
    exact hnot (mem_manifestNames.mpr ⟨entry, (List.mem_filter.mp hentry).1, hstrip⟩)

theorem exists_unscanned {system : Scanner} {entries : List Entry} (hunbroken : ∀ entry ∈ entries, entry.isBroken = false)
    {e : ScanFailure} (h : system.scan (some entries) = .error e) :
    ∃ entry ∈ system.listed entries, ∃ e, system.createEntry entries entry = .error e := by
  rcases hcollect : collect (system.createEntry entries) (system.listed entries) with e' | found
  · exact exists_error_of_collect hcollect
  · cases h.symm.trans ((scan_eq_ok_iff system).mpr ⟨hunbroken, found, hcollect, rfl⟩)

/-- A name that raises on one side raises in the loop. -/
theorem scanRoot_fails {final staging : List Entry} {rootNames stagingNames : List Codes} {name : Codes}
    (h : (∃ failure, scanner.scanSide scanner.finalMarker .missingFinalRoot final rootNames name = .error failure) ∨
      ∃ failure, scanner.scanSide scanner.stagingMarker .missingStagingRoot staging stagingNames name = .error failure) :
    ∃ failure, scanner.scanRoot final staging rootNames stagingNames name = .error failure := by
  unfold LocalScanner.scanRoot
  rcases h with ⟨failure, h⟩ | ⟨failure, h⟩
  · rw [h]
    exact ⟨failure, rfl⟩
  · rw [h]
    rcases scanner.scanSide scanner.finalMarker .missingFinalRoot final rootNames name with failure' | result
    · exact ⟨failure', rfl⟩
    · exact ⟨failure, rfl⟩

/-- What cannot be scanned of the staging root cannot be scanned by its name. -/
theorem scanProgressively_staging_fails (hagree : NamesAgree scanner content) (hlistable : Listable scanner content)
    {finals : List Entry} (hfinal : content.final = some finals) {staging : Option (List Entry)}
    (hstaging : staging ∈ content.staging) {e : ScanFailure} (hfails : scanner.system.scan staging = .error e) :
    ∃ failure, scanner.scanProgressively content = .error failure := by
  obtain ⟨names, hnames⟩ := hlistable.2 staging hstaging
  cases staging with
  | none => cases hnames
  | some stagings =>
    have hunbroken := ((rootNames_eq_ok_iff scanner.system).mp hnames).1
    have hjoin : stagings ∈ content.staging.join := by
      rw [Option.mem_def] at hstaging
      rw [hstaging]
      rfl
    have hentries : content.stagingEntries = stagings := by
      unfold Content.stagingEntries
      rw [hjoin]
      rfl
    obtain ⟨entry, hentry, e', hentryFails⟩ := exists_unscanned hunbroken hfails
    have hmanifested : entry ∈ scanner.manifested content.excludeName stagings := by
      refine mem_manifested.mpr ⟨hentry, fun hname => ?_⟩
      obtain ⟨⟨result, hresult⟩, -⟩ := hagree.stagingKept stagings hjoin entry hentry hname
      cases hentryFails.symm.trans hresult
    obtain ⟨name, hname, hside⟩ := scanSide_fails scanner.stagingMarker (hagree.stagingLeads stagings hjoin)
      hmanifested (hunbroken entry (List.mem_filter.mp hentry).1) hentryFails .missingStagingRoot
    rw [scanProgressively_eq hfinal hlistable, hentries]
    obtain ⟨failure, hroot⟩ := scanRoot_fails (Or.inr hside)
    exact collect_error (mem_sortNames.mpr (List.mem_append_right _ hname)) hroot

theorem scanProgressively_final_fails (hagree : NamesAgree scanner content) (hlistable : Listable scanner content)
    {finals : List Entry} (hfinal : content.final = some finals) {e : ScanFailure}
    (hfails : scanner.system.scan (some finals) = .error e) :
    ∃ failure, scanner.scanProgressively content = .error failure := by
  obtain ⟨names, hnames⟩ := hlistable.1
  rw [hfinal] at hnames
  have hunbroken := ((rootNames_eq_ok_iff scanner.system).mp hnames).1
  obtain ⟨entry, hentry, e', hentryFails⟩ := exists_unscanned hunbroken hfails
  by_cases hexcluded : content.excludeName = some (scanner.system.strip entry.name)
  · rcases hagree.excludedScanned finals hfinal entry hentry hexcluded with ⟨result, hresult⟩ | ⟨staging, hstaging, e, hscan⟩
    · cases hentryFails.symm.trans hresult
    · exact scanProgressively_staging_fails hagree hlistable hfinal hstaging hscan
  · obtain ⟨name, hname, hside⟩ := scanSide_fails scanner.finalMarker (hagree.finalLeads finals hfinal)
      (mem_manifested.mpr ⟨hentry, hexcluded⟩) (hunbroken entry (List.mem_filter.mp hentry).1) hentryFails .missingFinalRoot
    rw [scanProgressively_eq hfinal hlistable]
    obtain ⟨failure, hroot⟩ := scanRoot_fails (Or.inl hside)
    exact collect_error (mem_sortNames.mpr (List.mem_append_left _ hname)) hroot

theorem sameRoots_of_perm {files : List SystemFile} {other : Except ScannerError (List SystemFile)}
    (hperm : files.Perm (other.toOption.getD [])) (hok : other.isOk = true) : SameRoots (.ok files) other := by
  rcases other with e | others
  · cases hok
  · exact hperm

end

section Sample

def sampleFile (name : String) (size : Nat) : Entry :=
  .file (codes name) { stat := { size, modified := some ⟨0, none⟩ } }

def sampleScanner : LocalScanner := { useTempFile := true }

/-- A file in both directories, in the staging one under its temporary name. -/
def sampleContent : Content where
  final := some [sampleFile "a" 3]
  staging := some (some [sampleFile "a.lftp" 5])
  finalDistinct entries h := by cases h; exact List.nodup_singleton _
  stagingDistinct entries h := by cases h; exact List.nodup_singleton _

/-- A link that leads nowhere, alone in the final directory. -/
def danglingContent : Content where
  final := some [.link (codes "x") .missing]
  finalDistinct entries h := by cases h; exact List.nodup_singleton _
  stagingDistinct entries h := by cases h

end Sample

end SeedSync.Local
