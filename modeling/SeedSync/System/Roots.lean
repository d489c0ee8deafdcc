import SeedSync.Lib.Collect
import SeedSync.Lib.Stateful
import SeedSync.System.Scanner

/-!
# The roots of a directory

What a scan of a whole directory has, entry by entry, and what the scan of a single name has.
-/

namespace SeedSync

open Lib

variable (scanner : Scanner) (siblings : List Entry)

/-! ## The children -/

/-- `__create_system_file` for an entry under its own name. -/
def Scanner.createEntry (entry : Entry) : Except ScanFailure (Option SystemFile) :=
  scanner.createSystemFile siblings entry.name entry

theorem createChildren_eq {entries : List Entry} (h : ∀ entry ∈ entries, entry.isBroken = false) :
    scanner.createChildren siblings entries = collect (scanner.createEntry siblings) (scanner.listed entries) := by
  induction entries with
  | nil =>
    rw [Scanner.createChildren]
    rfl
  | cons entry entries ih =>
    have hrest := ih fun e he => h e (List.mem_cons_of_mem _ he)
    rw [Scanner.createChildren, h entry List.mem_cons_self]
    unfold Scanner.listed at hrest ⊢
    by_cases hskip : (entry.isLinkedDir || scanner.excluded entry.name) = true
    · have hout : (!entry.isLinkedDir && !scanner.excluded entry.name) = false := by
        rw [← Bool.not_or, hskip]
        rfl
      rw [List.filter_cons, hout]
      simpa [hskip] using hrest
    · have hin : (!entry.isLinkedDir && !scanner.excluded entry.name) = true := by
        rw [← Bool.not_or, Bool.eq_false_of_not_eq_true hskip]
        rfl
      rw [List.filter_cons, hin, if_pos rfl, collect_cons, ← hrest]
      simp only [Bool.false_eq_true, if_false, hskip]
      rfl

/-- An entry that is scanned, or skipped, before the others. -/
theorem createChildren_cons_ok {entry : Entry} {entries : List Entry} {files : List SystemFile}
    (h : scanner.createChildren siblings (entry :: entries) = .ok files) : entry.isBroken = false ∧
      ∃ child rest, scanner.createChildren siblings entries = .ok rest ∧ files = child.toList ++ rest ∧
        (child = none ∨ scanner.createSystemFile siblings entry.name entry = .ok child) := by
  rw [Scanner.createChildren] at h
  by_cases hbroken : entry.isBroken = true
  · rw [hbroken] at h
    cases h
  · rw [Bool.eq_false_of_not_eq_true hbroken] at h
    refine ⟨Bool.eq_false_of_not_eq_true hbroken, ?_⟩
    simp only [Bool.false_eq_true, if_false] at h
    by_cases hskip : (entry.isLinkedDir || scanner.excluded entry.name) = true
    · rw [if_pos hskip] at h
      exact ⟨none, files, h, rfl, Or.inl rfl⟩
    · rw [if_neg hskip] at h
      obtain ⟨child, hchild, h⟩ := ok_of_bind h
      obtain ⟨rest, hrest, h⟩ := ok_of_bind h
      cases h
      exact ⟨child, rest, hrest, rfl, Or.inr hchild⟩

theorem createChildren_unbroken {entries : List Entry} {files : List SystemFile}
    (h : scanner.createChildren siblings entries = .ok files) : ∀ entry ∈ entries, entry.isBroken = false := by
  induction entries generalizing files with
  | nil => simp
  | cons entry entries ih =>
    obtain ⟨hunbroken, child, rest, hrest, -⟩ := createChildren_cons_ok scanner siblings h
    rintro e (_ | ⟨_, he⟩)
    · exact hunbroken
    · exact ih hrest e he

/-- A whole scan, entry by entry. -/
theorem scan_eq_ok_iff {entries : List Entry} {files : List SystemFile} :
    scanner.scan (some entries) = .ok files ↔ (∀ entry ∈ entries, entry.isBroken = false) ∧
      ∃ found, collect (scanner.createEntry entries) (scanner.listed entries) = .ok found ∧ files = sortByName found := by
  unfold Scanner.scan
  dsimp only
  constructor
  · intro h
    rcases hchildren : scanner.createChildren entries entries with e | children
    · rw [hchildren] at h
      cases h
    · rw [hchildren] at h
      cases h
      have hunbroken := createChildren_unbroken scanner entries hchildren
      exact ⟨hunbroken, children, createChildren_eq scanner entries hunbroken ▸ hchildren, rfl⟩
  · rintro ⟨hunbroken, found, hfound, rfl⟩
    rw [createChildren_eq scanner entries hunbroken, hfound]
    rfl

theorem rootNames_eq_ok_iff {entries : List Entry} {names : List Codes} :
    scanner.rootNames (some entries) = .ok names ↔ (∀ entry ∈ entries, entry.isBroken = false) ∧
      names = sortNames ((scanner.listed entries).map fun entry => scanner.strip entry.name) := by
  have hany : entries.any Entry.isBroken = true ↔ ¬ ∀ entry ∈ entries, entry.isBroken = false := by simp
  unfold Scanner.rootNames
  dsimp only
  by_cases h : entries.any Entry.isBroken = true
  · rw [if_pos h]
    simp only [reduceCtorEq, false_iff, not_and]
    exact fun hall => absurd hall (hany.mp h)
  · rw [if_neg h]
    have hall := not_not.mp (mt hany.mpr h)
    simp only [Except.ok.injEq]
    exact ⟨fun hnames => ⟨hall, hnames.symm⟩, fun hnames => hnames.2.symm⟩

/-! ## A single name -/

theorem sortByName_perm (files : List SystemFile) : (sortByName files).Perm files := List.perm_insertionSort _ _

theorem sortNames_perm {names : List Codes} (h : names.Nodup) : (sortNames names).Perm names := by
  unfold sortNames
  rw [h.dedup]
  exact List.perm_insertionSort _ _

theorem mem_sortNames {names : List Codes} {name : Codes} : name ∈ sortNames names ↔ name ∈ names := by
  unfold sortNames
  rw [List.mem_insertionSort, List.mem_dedup]

theorem sortNames_nodup (names : List Codes) : (sortNames names).Nodup :=
  (List.perm_insertionSort _ _).nodup_iff.mpr names.nodup_dedup

/-- The names of a directory are distinct. -/
theorem find_entry {entries : List Entry} (hdistinct : (entries.map Entry.name).Nodup) {entry : Entry}
    (hentry : entry ∈ entries) : (entries.find? fun e => decide (e.name = entry.name)) = some entry := by
  induction entries with
  | nil => cases hentry
  | cons e entries ih =>
    rw [List.map_cons, List.nodup_cons] at hdistinct
    rcases List.mem_cons.mp hentry with rfl | hentry
    · simp
    · have hne : e.name ≠ entry.name := fun h => hdistinct.1 (h ▸ List.mem_map_of_mem hentry)
      rw [List.find?_cons_of_neg (by simpa using hne)]
      exact ih hdistinct.2 hentry

/-- A link that leads nowhere is no file, whichever way it is scanned. -/
theorem createEntry_missing {entry : Entry} (hmissing : entry.exists' = false) (hunbroken : entry.isBroken = false) :
    scanner.createEntry siblings entry = .ok none := by
  unfold Scanner.createEntry
  rcases entry with ⟨name, file⟩ | ⟨name, stat, entries⟩ | ⟨name, _ | _ | _ | _⟩
  · cases hmissing
  · cases hmissing
  · cases hmissing
  · cases hmissing
  · rw [Scanner.createSystemFile]
  · cases hunbroken

/-- Without the suffix of temporary files, the name of an entry leads to the entry. -/
theorem scanSingleIfPresent_entry (htemp : scanner.useTempFile = false) {entries : List Entry}
    (hdistinct : (entries.map Entry.name).Nodup) {entry : Entry} (hentry : entry ∈ entries)
    (hunbroken : entry.isBroken = false) :
    scanner.scanSingleIfPresent entries entry.name = scanner.createEntry entries entry := by
  unfold Scanner.scanSingleIfPresent Scanner.present
  rw [find_entry hdistinct hentry]
  simp only [htemp, Bool.false_eq_true, if_false, Option.or_none]
  by_cases hexists : entry.exists' = true
  · rw [Option.filter_some, if_pos hexists]
    rfl
  · have hmissing := Bool.eq_false_of_not_eq_true hexists
    rw [Option.filter_some, if_neg hexists, createEntry_missing scanner entries hmissing hunbroken]

/-! ## The name of a file -/

/-- The name that an entry is given when it is scanned under a name. -/
def createdName (scanner : Scanner) (entry : Entry) (name : Codes) : String :=
  match entry with
  | .dir _ _ _ => normalizeName name
  | _ => scanner.fileName name

section

variable {scanner : Scanner} {siblings : List Entry}

theorem createFile_congr {name other onDisk : Codes} (h : scanner.fileName name = scanner.fileName other) (stat : Stat) :
    scanner.createFile siblings name onDisk stat = scanner.createFile siblings other onDisk stat := by
  unfold Scanner.createFile
  rw [h]

/-- Only the name depends on the name. -/
theorem createSystemFile_congr {entry : Entry} {name other : Codes}
    (h : createdName scanner entry name = createdName scanner entry other) :
    scanner.createSystemFile siblings name entry = scanner.createSystemFile siblings other entry := by
  rcases entry with ⟨onDisk, file⟩ | ⟨onDisk, stat, entries⟩ | ⟨onDisk, file | stat | _ | _⟩
  · rw [Scanner.createSystemFile, Scanner.createSystemFile, createFile_congr h]
  · have hnormalized : normalizeName name = normalizeName other := h
    rw [Scanner.createSystemFile, Scanner.createSystemFile]
    unfold createDirectory
    rw [hnormalized]
  · rw [Scanner.createSystemFile, Scanner.createSystemFile, createFile_congr h]
  · rw [Scanner.createSystemFile, Scanner.createSystemFile, createFile_congr h]
  · rw [Scanner.createSystemFile, Scanner.createSystemFile]
  · rw [Scanner.createSystemFile, Scanner.createSystemFile]

theorem createFile_name {name onDisk : Codes} {stat : Stat} {file : SystemFile}
    (h : scanner.createFile siblings name onDisk stat = .ok file) : file.name = scanner.fileName name := by
  unfold Scanner.createFile at h
  dsimp only at h
  split at h
  · cases h
  · cases h
    rfl

theorem createDirectory_name {name : Codes} {stat : Stat} {children : List SystemFile} {file : SystemFile}
    (h : createDirectory name stat children = .ok file) : file.name = normalizeName name := by
  unfold createDirectory at h
  split at h
  · cases h
  · cases h
    rfl

/-- An entry that leads somewhere becomes a file. -/
theorem createSystemFile_exists {entry : Entry} {name : Codes} {result : Option SystemFile} (hexists : entry.exists' = true)
    (h : scanner.createSystemFile siblings name entry = .ok result) :
    ∃ file, result = some file ∧ file.name = createdName scanner entry name := by
  rcases entry with ⟨onDisk, file⟩ | ⟨onDisk, stat, entries⟩ | ⟨onDisk, file | stat | _ | _⟩
  · rw [Scanner.createSystemFile] at h
    obtain ⟨made, hmade, h⟩ := ok_of_bind h
    cases h
    exact ⟨made, rfl, createFile_name hmade⟩
  · rw [Scanner.createSystemFile] at h
    obtain ⟨children, hchildren, h⟩ := ok_of_bind h
    obtain ⟨made, hmade, h⟩ := ok_of_bind h
    cases h
    exact ⟨made, rfl, createDirectory_name hmade⟩
  · rw [Scanner.createSystemFile] at h
    obtain ⟨made, hmade, h⟩ := ok_of_bind h
    cases h
    exact ⟨made, rfl, createFile_name hmade⟩
  · rw [Scanner.createSystemFile] at h
    obtain ⟨made, hmade, h⟩ := ok_of_bind h
    cases h
    exact ⟨made, rfl, createFile_name hmade⟩
  · cases hexists
  · cases hexists

end

end SeedSync
