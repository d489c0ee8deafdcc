import SeedSync.Remote.Limits

/-!
# Where the two modes agree

The roots that both modes of `scan_fs.py` find are the same. The decoder takes the stream of them
exactly where the normalized name of every root is one of the names in the manifest, and is the name
of no other root.
-/

namespace SeedSync.Remote

open Lib

/-! ## The roots that are found -/

section

variable {scanner : Scanner} (htemp : scanner.useTempFile = false) {entries : List Entry}

/-- The entries that a scan has as roots. -/
def rootEntries (scanner : Scanner) (entries : List Entry) : List Entry := (scanner.listed entries).filter Entry.exists'

theorem mem_of_listed {entry : Entry} (h : entry ∈ scanner.listed entries) : entry ∈ entries := (List.mem_filter.mp h).1

theorem listed_names_nodup (scanner : Scanner) (hdistinct : (entries.map Entry.name).Nodup) :
    ((scanner.listed entries).map Entry.name).Nodup :=
  hdistinct.sublist (List.filter_sublist.map _)

include htemp

/-- An entry that leads somewhere becomes a file of its normalized name. -/
theorem createEntry_name {siblings : List Entry} {entry : Entry} {result : Option SystemFile}
    (hexists : entry.exists' = true) (h : scanner.createEntry siblings entry = .ok result) :
    ∃ file, result = some file ∧ file.name = normalizeName entry.name := by
  obtain ⟨file, hfile, hname⟩ := createSystemFile_exists hexists h
  refine ⟨file, hfile, hname.trans ?_⟩
  cases entry with
  | dir onDisk stat entries => rfl
  | file onDisk disk => exact fileName_eq htemp _
  | link onDisk target => exact fileName_eq htemp _

theorem collect_names {siblings items : List Entry} (hunbroken : ∀ entry ∈ items, entry.isBroken = false)
    {files : List SystemFile} (h : collect (scanner.createEntry siblings) items = .ok files) :
    files.map SystemFile.name = (items.filter Entry.exists').map fun entry => normalizeName entry.name := by
  induction items generalizing files with
  | nil =>
    cases h
    rfl
  | cons entry items ih =>
    obtain ⟨result, rest, hentry, hrest, rfl⟩ := collect_cons_eq_ok h
    have hnames := ih (fun e he => hunbroken e (List.mem_cons_of_mem _ he)) hrest
    by_cases hexists : entry.exists' = true
    · obtain ⟨file, rfl, hname⟩ := createEntry_name htemp hexists hentry
      rw [List.filter_cons_of_pos hexists, List.map_cons, ← hnames, ← hname]
      rfl
    · have hmissing := createEntry_missing scanner siblings (Bool.eq_false_of_not_eq_true hexists)
        (hunbroken entry List.mem_cons_self)
      cases hentry.symm.trans hmissing
      rw [List.filter_cons_of_neg hexists, ← hnames]
      rfl

/-- One by one, the names lead to what the entries are. -/
theorem collect_rootNames (hdistinct : (entries.map Entry.name).Nodup)
    (hunbroken : ∀ entry ∈ entries, entry.isBroken = false) :
    collect (scanner.scanSingleIfPresent entries) ((scanner.listed entries).map Entry.name) =
      collect (scanner.createEntry entries) (scanner.listed entries) := by
  rw [collect_map]
  refine collect_congr fun entry hentry => ?_
  have hmem := mem_of_listed hentry
  exact scanSingleIfPresent_entry scanner htemp hdistinct hmem (hunbroken entry hmem)

theorem rootNames_eq {names : List Codes} (h : scanner.rootNames (some entries) = .ok names) :
    names = sortNames ((scanner.listed entries).map Entry.name) := by
  have hstrip : ∀ entry : Entry, scanner.strip entry.name = entry.name := fun entry => by
    unfold Scanner.strip
    rw [htemp]
    rfl
  rw [(rootNames_eq_ok_iff scanner).mp h |>.2]
  simp only [hstrip]

end

/-! ## The stream is written -/

section

variable {isoformat : Timestamp → String} {scanner : Scanner} {entries : List Entry} {nodeBatchSize : Nat}

/-- Nothing is returned where a name cannot be scanned. -/
theorem streamRoots_found (rootNames : List Codes) (rootId : Nat) :
    Spec (fun _ => True) (streamRoots isoformat scanner entries nodeBatchSize rootId rootNames) fun _ =>
      ∃ roots, collect (scanner.scanSingleIfPresent entries) rootNames = .ok roots := by
  induction rootNames generalizing rootId with
  | nil => exact Spec.pure ⟨[], rfl⟩
  | cons rootName rootNames ih =>
    rw [streamRoots, collect_cons]
    rcases scanner.scanSingleIfPresent entries rootName with e | (_ | rootFile)
    · exact Spec.bind (Q := fun _ => False) Spec.throw fun _ h => h.elim
    · rw [liftScan, pure_bind]
      refine (ih rootId).weaken fun _ ⟨roots, hroots⟩ => ?_
      rw [hroots]
      exact ⟨_, rfl⟩
    · rw [liftScan, pure_bind]
      refine Spec.bind (Q := fun _ => True) (Spec.any _) fun _ _ => (ih (rootId + 1)).weaken fun _ ⟨roots, hroots⟩ => ?_
      rw [hroots]
      exact ⟨_, rfl⟩

theorem streamRoots_eq {rootNames : List Codes} {roots : List SystemFile}
    (h : collect (scanner.scanSingleIfPresent entries) rootNames = .ok roots) (rootId : Nat) :
    streamRoots isoformat scanner entries nodeBatchSize rootId rootNames =
      writeStreamRoots isoformat nodeBatchSize rootId roots := by
  induction rootNames generalizing rootId roots with
  | nil =>
    cases h
    rfl
  | cons rootName rootNames ih =>
    obtain ⟨result, rest, hresult, hrest, rfl⟩ := collect_cons_eq_ok h
    rw [streamRoots, hresult, liftScan, pure_bind]
    cases result with
    | none => exact ih hrest rootId
    | some rootFile =>
      dsimp only
      rw [ih hrest]
      rfl

end

/-! ## The decoder rejects a name -/

section

variable {isoformat : Timestamp → String} {env : Environment} {names : List Codes} {done : List SystemFile}

theorem rootBegin_rejected {name : Codes} (hbad : name ∉ names ∨ name ∈ done.map fun root => codes root.name)
    (hreads : ReadsRecord isoformat env (.rootBegin done.length name)) :
    Triple (Between names done) (decodeStreamRecord env ((Record.rootBegin done.length name).body isoformat))
      (fun _ _ => False) (fun _ => True) := by
  intro s hs
  have hrejects : ¬ admitsRoot { s with sawPrefix := true } name := by
    rintro ⟨-, -, -, -, hlisted, hfresh⟩
    rcases hbad with hbad | hbad
    · exact hbad (hs.names ▸ hlisted)
    · exact hfresh (hs.emitted ▸ hbad)
  have hdue : (done.length : Int) ≠ s.nextRootId ∨ ¬ admitsRoot { s with sawPrefix := true } name := Or.inr hrejects
  have hrun : (decodeStreamRecord env ((Record.rootBegin done.length name).body isoformat)).run.run s =
      (.error (.typeError "invalid scan root start"), { s with sawPrefix := true }) := by
    rw [decodeStreamRecord_body hreads rfl hs.open']
    change (decodeRootBegin [typeField "root_begin", (codes "id", .int done.length), (codes "name", .str name)]).run.run _ = _
    unfold decodeRootBegin
    rw [run_get_bind]
    change (ite _ _ _ : Decode Unit).run.run _ = _
    rw [if_pos hdue]
    rfl
  rw [hrun]
  exact True.intro

/-- The names of roots are in the manifest, and each is that of one root. -/
def Admitted (names : List Codes) (roots : List SystemFile) : Prop :=
  (∀ root ∈ roots, codes root.name ∈ names) ∧ (roots.map fun root => codes root.name).Nodup

/-- The first root with another name stops the decoder. -/
theorem roots_rejected {nodeBatchSize : Nat} (hsize : nodeBatchSize ≤ maxV2RootNodesPerRecord)
    (done roots : List SystemFile) (hdone : Admitted names done) (hbad : ¬ Admitted names (done ++ roots))
    (hdirs : ∀ root ∈ roots, OnlyDirsHaveChildren root)
    (htimes : ∀ root ∈ roots, TreeTimesReadBack isoformat env.fromisoformat root)
    {records : List Record} (hrecords : RootsRecords nodeBatchSize done.length roots records)
    (hreads : ∀ record ∈ records, ReadsRecord isoformat env record) :
    Triple (Between names done) (decodeBodies isoformat env records) (fun _ _ => False) (fun _ => True) := by
  induction roots generalizing done records with
  | nil =>
    rw [List.append_nil] at hbad
    exact absurd hdone hbad
  | cons root roots ih =>
    obtain ⟨first, rest, rfl, hfirst, hrest⟩ := hrecords
    have happend : decodeBodies isoformat env (first ++ rest) =
        decodeBodies isoformat env first >>= fun _ => decodeBodies isoformat env rest := List.forM_append
    rw [happend]
    by_cases hroot : codes root.name ∈ names ∧ codes root.name ∉ done.map fun root => codes root.name
    · have hnext : Admitted names (done ++ [root]) := by
        constructor
        · intro r hr
          rcases List.mem_append.mp hr with hr | hr
          · exact hdone.1 r hr
          · rw [List.mem_singleton.mp hr]
            exact hroot.1
        · rw [List.map_append, List.map_singleton, List.nodup_append]
          refine ⟨hdone.2, List.nodup_singleton _, fun a ha b hb hab => hroot.2 ?_⟩
          rw [← List.mem_singleton.mp hb, ← hab]
          exact ha
      have hlater := ih (done ++ [root]) hnext (by simpa using hbad) (fun r hr => hdirs r (List.mem_cons_of_mem _ hr))
        (fun r hr => htimes r (List.mem_cons_of_mem _ hr)) (by simpa using hrest)
        fun r hr => hreads r (List.mem_append_right _ hr)
      exact Triple.bind ((triple_root hsize hroot.1 hroot.2 (hdirs root List.mem_cons_self)
        (htimes root List.mem_cons_self) hfirst fun r hr => hreads r (List.mem_append_left _ hr)).conseq
          (fun _ h => h) (fun _ _ h => h) fun _ h => h.elim) fun _ => hlater
    · obtain ⟨batches, rfl, -⟩ := hfirst
      have hname : codes root.name ∉ names ∨ codes root.name ∈ done.map fun root => codes root.name := by
        by_contra hgood
        rw [not_or, not_not] at hgood
        exact hroot hgood
      have hbegin := rootBegin_rejected hname (hreads _ (List.mem_append_left _ List.mem_cons_self))
      exact Triple.bind (Q := fun _ _ => False) (Triple.bind hbegin fun _ s h => h.elim) fun _ s h => h.elim

/-- A stream that is rejected is no scan. -/
theorem stream_rejected {nodeBatchSize : Nat} (hsize : nodeBatchSize ≤ maxV2RootNodesPerRecord) (hnames : names.Nodup)
    {roots : List SystemFile} (hbad : ¬ Admitted names roots) (hdirs : ∀ root ∈ roots, OnlyDirsHaveChildren root)
    (htimes : ∀ root ∈ roots, TreeTimesReadBack isoformat env.fromisoformat root) {records : List Record}
    (hrecords : StreamRecords nodeBatchSize names roots records) (hfits : AllFit isoformat records)
    (hreads : ∀ record ∈ records, ReadsRecord isoformat env record) {chunks : List (List UInt8)}
    (hchunks : chunks.flatten = (streamText isoformat records).map byteOf) (out : List UInt8) :
    (scan env (.returned chunks out)).2.toOption = none := by
  have hne := hrecords.ne_nil
  obtain ⟨manifest, body, hall, hmanifest, hbody⟩ := hrecords
  have hrejected : Triple (fun s => s = {}) (decodeBodies isoformat env records) (fun _ _ => False) (fun _ => True) := by
    have hsplit : decodeBodies isoformat env records = decodeBodies isoformat env manifest >>= fun _ =>
        decodeBodies isoformat env (body ++ [.complete]) := by
      rw [hall, List.append_assoc]
      exact List.forM_append
    have hsplit' : decodeBodies isoformat env (body ++ [.complete]) = decodeBodies isoformat env body >>= fun _ =>
        decodeBodies isoformat env [.complete] := List.forM_append
    have hmanifestReads : ∀ record ∈ manifest, ReadsRecord isoformat env record := fun r hr =>
      hreads r (hall ▸ List.mem_append_left _ (List.mem_append_left _ hr))
    have hbodyReads : ∀ record ∈ body, ReadsRecord isoformat env record := fun r hr =>
      hreads r (hall ▸ List.mem_append_left _ (List.mem_append_right _ hr))
    rw [hsplit, hsplit']
    refine Triple.bind ((triple_manifest hnames hmanifest hmanifestReads).conseq (fun _ h => h) (fun _ _ h => h)
      fun _ h => h.elim) fun _ => ?_
    exact Triple.bind (roots_rejected hsize [] roots ⟨by simp, List.nodup_nil⟩ (by simpa using hbad) hdirs htimes hbody
      hbodyReads) fun _ s h => h.elim
  have hstate := hrejected {} rfl
  rcases hdecode : (decodeBodies isoformat env records).run.run {} with ⟨e | ⟨⟩, s⟩
  · rw [← decodeLines_bodies] at hdecode
    rw [scan_stopped hchunks (streamText_isStream hne hfits) hdecode]
    rfl
  · rw [hdecode] at hstate
    exact hstate.elim

end

/-! ## Both modes -/

/-- The scanner that `scan_fs.py` makes of its arguments. -/
def scanFs (excludeHidden : Bool) : Scanner where
  excludePrefixes := if excludeHidden then [codes "."] else []

/-- The name that a root has in its records is one of those in the manifest, and no other root has it. -/
structure NamesAgree (scanner : Scanner) (entries : List Entry) : Prop where
  listed : ∀ entry ∈ rootEntries scanner entries,
    codes (normalizeName entry.name) ∈ (scanner.listed entries).map Entry.name
  distinct : ((rootEntries scanner entries).map fun entry => normalizeName entry.name).Nodup

section

variable {isoformat : Timestamp → String} {env : Environment} {scanner : Scanner}

/-- The timestamps of a file are written in few characters and read back. -/
def TimesWritten (isoformat : Timestamp → String) (fromisoformat : Codes → Option Timestamp) (file : FileAttrs) : Prop :=
  TimesShort isoformat file ∧ TimesReadBack isoformat fromisoformat file

/-- What a scan of a whole directory returns may be written and read. -/
structure Writable (isoformat : Timestamp → String) (env : Environment) (files : List SystemFile) : Prop where
  dirs : ∀ file ∈ files, OnlyDirsHaveChildren file
  small : ∀ file ∈ files, SmallTree (fileTree file)
  count : Rose.countAll (fileTrees files) < 10 ^ 20
  times : ∀ file ∈ files, ∀ attrs ∈ (fileTree file).values, TimesWritten isoformat env.fromisoformat attrs

theorem Writable.perm {files files' : List SystemFile} (h : Writable isoformat env files) (hperm : files'.Perm files) :
    Writable isoformat env files' where
  dirs file hfile := h.dirs file (hperm.mem_iff.mp hfile)
  small file hfile := h.small file (hperm.mem_iff.mp hfile)
  count := by
    rw [countAll_fileTrees, (hperm.map _).sum_eq, ← countAll_fileTrees]
    exact h.count
  times file hfile := h.times file (hperm.mem_iff.mp hfile)

theorem length_le_countAll (files : List SystemFile) : files.length ≤ Rose.countAll (fileTrees files) := by
  induction files with
  | nil => exact Nat.zero_le _
  | cons file files ih =>
    have := Rose.count_pos (fileTree file)
    rw [fileTrees, Rose.countAll, List.length_cons]
    omega

theorem length_le_entriesCount (entries : List Entry) : entries.length ≤ entriesCount entries := by
  induction entries with
  | nil => exact Nat.zero_le _
  | cons entry entries ih =>
    have hpos : 1 ≤ entryCount entry := by cases entry <;> simp [entryCount]
    rw [entriesCount, List.length_cons]
    omega

theorem Writable.rootsFit {files : List SystemFile} (h : Writable isoformat env files) : RootsFit isoformat 0 files := by
  have hlength := length_le_countAll files
  have hcount := h.count
  refine rootsFit_of_small (by omega) (fun root hroot attrs hattrs => (h.times root hroot attrs hattrs).1) h.small
    fun root hroot => ?_
  exact Nat.lt_of_le_of_lt (count_le_countAll hroot) hcount

theorem Writable.treeTimes {files : List SystemFile} (h : Writable isoformat env files) :
    ∀ file ∈ files, TreeTimesReadBack isoformat env.fromisoformat file := by
  intro file hfile node hnode
  refine (h.times file hfile node.value ?_).2
  rw [← Rose.map_value_items (fileTree file) none 0]
  exact List.mem_map_of_mem hnode

/-- The one list is read back. -/
theorem decodeList_toDicts {files : List SystemFile} (h : Writable isoformat env files)
    (hlist : env.loads (Json.list (toDicts isoformat files)).dumpsSpaced = some (.list (toDicts isoformat files))) :
    decodeList env (Json.list (toDicts isoformat files)).dumpsSpaced = some (files.map wireFile) := by
  have hall : ∀ files : List SystemFile, Writable isoformat env files →
      (toDicts isoformat files).mapM (fromDict env.fromisoformat) = .ok (files.map wireFile) := by
    intro files hfiles
    rw [mapM_eq_ok_iff]
    have hread : ∀ file ∈ files, fromDict env.fromisoformat (toDict isoformat file) = .ok (wireFile file) :=
      fun file hfile => fromDict_toDict file (hfiles.dirs file hfile) (.of_tree (hfiles.treeTimes file hfile))
    clear hfiles
    induction files with
    | nil => exact List.Forall₂.nil
    | cons file files ih =>
      rw [toDicts, List.map_cons]
      exact List.Forall₂.cons (hread file List.mem_cons_self) (ih fun f hf => hread f (List.mem_cons_of_mem _ hf))
  unfold decodeList
  rw [hlist]
  dsimp only
  rw [hall files h]
  rfl

variable (htemp : scanner.useTempFile = false) (dir : Directory)

include htemp

theorem scan_writable {files : List SystemFile} (hscan : scanner.scan (some dir.entries) = .ok files)
    (htimes : ∀ file ∈ files, ∀ attrs ∈ (fileTree file).values, TimesWritten isoformat env.fromisoformat attrs) :
    Writable isoformat env files := by
  obtain ⟨hunbroken, found, hfound, rfl⟩ := (scan_eq_ok_iff scanner).mp hscan
  rw [← createChildren_eq scanner dir.entries hunbroken] at hfound
  have hperm := sortByName_perm found
  obtain ⟨hsmall, hcount⟩ := createChildren_small htemp dir.allowed dir.entries dir.allowed hfound
  have hwritable : Writable isoformat env found := {
    dirs := createChildren_dirs scanner dir.entries dir.entries hfound
    small := hsmall
    count := Nat.lt_of_le_of_lt hcount dir.bounded
    times := fun file hfile => htimes file (hperm.mem_iff.mpr hfile) }
  exact hwritable.perm hperm

/-- With `--stream` the same roots are found. -/
theorem streamScan_eq (isoformat : Timestamp → String) (nodeBatchSize : Nat) {files : List SystemFile}
    (hscan : scanner.scan (some dir.entries) = .ok files) :
    ∃ roots, roots.Perm files ∧ streamScan isoformat scanner (some dir.entries) nodeBatchSize =
      writeStream isoformat (sortNames ((scanner.listed dir.entries).map Entry.name)) roots nodeBatchSize := by
  obtain ⟨hunbroken, found, hfound, rfl⟩ := (scan_eq_ok_iff scanner).mp hscan
  have hnames : scanner.rootNames (some dir.entries) =
      .ok (sortNames ((scanner.listed dir.entries).map fun entry => scanner.strip entry.name)) :=
    (rootNames_eq_ok_iff scanner).mpr ⟨hunbroken, rfl⟩
  have heq := rootNames_eq htemp hnames
  rw [← collect_rootNames htemp dir.distinct hunbroken] at hfound
  obtain ⟨roots, hroots, hperm⟩ := collect_perm (sortNames_perm (listed_names_nodup scanner dir.distinct)) hfound
  refine ⟨roots, hperm.trans (sortByName_perm found).symm, ?_⟩
  unfold streamScan
  rw [hnames, heq, liftScan, pure_bind]
  unfold writeStream
  rw [← streamRoots_eq hroots]
  rfl

/-- Where one mode fails to scan, so does the other. -/
theorem streamScan_fails (isoformat : Timestamp → String) (nodeBatchSize : Nat) {e : ScanFailure} (hscan : scanner.scan (some dir.entries) = .error e) :
    ∃ failure, ((streamScan isoformat scanner (some dir.entries) nodeBatchSize).run.run []).1 = .error failure := by
  rcases hresult : ((streamScan isoformat scanner (some dir.entries) nodeBatchSize).run.run []).1 with failure | ⟨⟩
  · exact ⟨failure, rfl⟩
  · exfalso
    rcases hnames : scanner.rootNames (some dir.entries) with e' | names
    · unfold streamScan at hresult
      rw [hnames] at hresult
      cases hresult
    · have hunbroken := ((rootNames_eq_ok_iff scanner).mp hnames).1
      have hspec : Spec (fun _ => True) (streamScan isoformat scanner (some dir.entries) nodeBatchSize) fun _ =>
          ∃ roots, collect (scanner.scanSingleIfPresent dir.entries) names = .ok roots := by
        unfold streamScan
        rw [hnames, liftScan, pure_bind]
        refine Spec.bind (Q := fun _ => True) (Spec.any _) fun _ _ => ?_
        exact Spec.bind (streamRoots_found names 0) fun _ hroots => (Spec.any _).weaken fun _ _ => hroots
      obtain ⟨roots, hroots⟩ := (hspec [] True.intro).2 () hresult
      rw [rootNames_eq htemp hnames] at hroots
      obtain ⟨found, hfound, -⟩ := collect_perm (sortNames_perm (listed_names_nodup scanner dir.distinct)).symm hroots
      rw [collect_rootNames htemp dir.distinct hunbroken] at hfound
      cases hscan.symm.trans ((scan_eq_ok_iff scanner).mpr ⟨hunbroken, found, hfound, rfl⟩)

/-- The decoder admits the roots exactly where their names agree. -/
theorem admitted_iff {files roots : List SystemFile} (hscan : scanner.scan (some dir.entries) = .ok files)
    (hperm : roots.Perm files) :
    Admitted (sortNames ((scanner.listed dir.entries).map Entry.name)) roots ↔ NamesAgree scanner dir.entries := by
  obtain ⟨hunbroken, found, hfound, rfl⟩ := (scan_eq_ok_iff scanner).mp hscan
  have hnames := collect_names htemp (fun entry hentry => hunbroken entry (mem_of_listed hentry)) hfound
  have hall : (roots.map SystemFile.name).Perm
      ((rootEntries scanner dir.entries).map fun entry => normalizeName entry.name) := by
    unfold rootEntries
    rw [← hnames]
    exact (hperm.trans (sortByName_perm found)).map _
  have hcodes : (roots.map fun root => codes root.name) = (roots.map SystemFile.name).map codes := by
    rw [List.map_map]
    rfl
  constructor
  · rintro ⟨hlisted, hdistinct⟩
    constructor
    · intro entry hentry
      have hmem := hall.mem_iff.mpr (List.mem_map_of_mem (f := fun entry => normalizeName entry.name) hentry)
      obtain ⟨root, hroot, hname⟩ := List.mem_map.mp hmem
      rw [← hname]
      exact mem_sortNames.mp (hlisted root hroot)
    · rw [hcodes] at hdistinct
      exact hall.nodup_iff.mp (List.Nodup.of_map codes hdistinct)
  · rintro ⟨hlisted, hdistinct⟩
    constructor
    · intro root hroot
      obtain ⟨entry, hentry, hname⟩ := List.mem_map.mp (hall.mem_iff.mp (List.mem_map_of_mem hroot))
      rw [← hname]
      exact mem_sortNames.mpr (hlisted entry hentry)
    · rw [hcodes]
      exact (hall.nodup_iff.mpr hdistinct).map codes_injective

/-- The plain mode comes to the trees of the scan. -/
theorem plainTrees_eq {files : List SystemFile} (hscan : scanner.scan (some dir.entries) = .ok files)
    (htimes : ∀ file ∈ files, ∀ attrs ∈ (fileTree file).values, TimesWritten isoformat env.fromisoformat attrs)
    (hlist : env.loads (Json.list (toDicts isoformat files)).dumpsSpaced = some (.list (toDicts isoformat files))) :
    plainTrees isoformat env scanner (some dir.entries) = some (files.map wireFile) := by
  unfold plainTrees printList
  rw [hscan]
  exact decodeList_toDicts (scan_writable htemp dir hscan htimes) hlist

/-- The stream comes to them where the names agree, and to nothing where they do not. -/
theorem streamTrees_cases {nodeBatchSize : Nat} (hsize : 1 ≤ nodeBatchSize ∧ nodeBatchSize ≤ maxV2RootNodesPerRecord)
    {files : List SystemFile} (hscan : scanner.scan (some dir.entries) = .ok files)
    (htimes : ∀ file ∈ files, ∀ attrs ∈ (fileTree file).values, TimesWritten isoformat env.fromisoformat attrs)
    (hreads : ∀ record ∈ ((streamScan isoformat scanner (some dir.entries) nodeBatchSize).run.run []).2,
      ReadsRecord isoformat env record) {chunks : List (List UInt8)}
    (hchunks : chunks.flatten = (streamText isoformat
      ((streamScan isoformat scanner (some dir.entries) nodeBatchSize).run.run []).2).map byteOf) (out : List UInt8) :
    (NamesAgree scanner dir.entries → ∃ streamed, streamTrees isoformat env scanner (some dir.entries) nodeBatchSize chunks
        out = some streamed ∧ streamed.Perm (files.map wireFile)) ∧
      (¬ NamesAgree scanner dir.entries →
        streamTrees isoformat env scanner (some dir.entries) nodeBatchSize chunks out = none) := by
  obtain ⟨roots, hperm, hstream⟩ := streamScan_eq htemp dir isoformat nodeBatchSize hscan
  have hwritable := (scan_writable htemp dir hscan htimes).perm hperm
  have hcount : (sortNames ((scanner.listed dir.entries).map Entry.name)).length < 10 ^ 20 := by
    have hnames := (sortNames_perm (listed_names_nodup scanner dir.distinct)).length_eq
    have hlisted : (scanner.listed dir.entries).length ≤ dir.entries.length := List.length_filter_le _ _
    have hentries := length_le_entriesCount dir.entries
    have hbounded := dir.bounded
    rw [List.length_map] at hnames
    omega
  have hnames : ∀ name ∈ sortNames ((scanner.listed dir.entries).map Entry.name),
      (Record.manifestNames [name]).fits isoformat = true := by
    intro name hname
    obtain ⟨entry, hentry, rfl⟩ := List.mem_map.mp (mem_sortNames.mp hname)
    exact manifestName_fits_of_allowed (dir.allowed.mem entry (mem_of_listed hentry)).name
  obtain ⟨records, hrun, hrecords⟩ := writeStream_run hsize.1 (manifestBegin_fits_of_lt hcount) hnames hwritable.rootsFit
  have hfits := writeStream_fits isoformat (sortNames ((scanner.listed dir.entries).map Entry.name)) roots nodeBatchSize
  rw [hrun] at hfits
  rw [hstream, hrun] at hreads hchunks
  have hadmitted := admitted_iff htemp dir hscan hperm
  have hscanned : streamTrees isoformat env scanner (some dir.entries) nodeBatchSize chunks out =
      (scan env (.returned chunks out)).2.toOption := by
    unfold streamTrees
    rw [hstream, hrun]
    rfl
  rw [hscanned]
  constructor
  · intro hagree
    obtain ⟨hlisted, hnodup⟩ := hadmitted.mpr hagree
    obtain ⟨-, -, htrees⟩ := scan_of_complete hrecords.ne_nil hfits (triple_stream hsize.2 (sortNames_nodup _) hlisted
      hnodup hwritable.dirs hwritable.treeTimes hrecords hreads) hchunks out
    rw [htrees]
    exact ⟨roots.map wireFile, rfl, hperm.map wireFile⟩
  · intro hdisagree
    exact stream_rejected hsize.2 (sortNames_nodup _) (fun hgood => hdisagree (hadmitted.mp hgood)) hwritable.dirs
      hwritable.treeTimes hrecords hfits hreads hchunks out

end

section

variable {isoformat : Timestamp → String} {env : Environment}

/-- Where the plain mode fails, so does the stream. Where it does not, the decoder accepts the stream
and comes to the same trees exactly if the names of the roots agree. -/
theorem streamed_scan_agrees_iff (excludeHidden : Bool) (disk : Option Directory) {nodeBatchSize : Nat}
    (hsize : 1 ≤ nodeBatchSize ∧ nodeBatchSize ≤ maxV2RootNodesPerRecord)
    (htimes : ∀ files, (scanFs excludeHidden).scan (disk.map Directory.entries) = .ok files → ∀ file ∈ files,
      ∀ attrs ∈ (fileTree file).values, TimesWritten isoformat env.fromisoformat attrs)
    (hlist : ∀ files, (scanFs excludeHidden).scan (disk.map Directory.entries) = .ok files →
      env.loads (Json.list (toDicts isoformat files)).dumpsSpaced = some (.list (toDicts isoformat files)))
    (hreads : ∀ record ∈ ((streamScan isoformat (scanFs excludeHidden) (disk.map Directory.entries) nodeBatchSize).run.run
      []).2, ReadsRecord isoformat env record) {chunks : List (List UInt8)}
    (hchunks : chunks.flatten = (streamText isoformat ((streamScan isoformat (scanFs excludeHidden)
      (disk.map Directory.entries) nodeBatchSize).run.run []).2).map byteOf) (out : List UInt8) :
    (plainTrees isoformat env (scanFs excludeHidden) (disk.map Directory.entries) = none →
      streamTrees isoformat env (scanFs excludeHidden) (disk.map Directory.entries) nodeBatchSize chunks out = none) ∧
    ∀ trees, plainTrees isoformat env (scanFs excludeHidden) (disk.map Directory.entries) = some trees →
      ((∃ streamed, streamTrees isoformat env (scanFs excludeHidden) (disk.map Directory.entries) nodeBatchSize chunks
          out = some streamed ∧ streamed.Perm trees) ↔
        NamesAgree (scanFs excludeHidden) ((disk.map Directory.entries).getD [])) := by
  have htemp : (scanFs excludeHidden).useTempFile = false := rfl
  cases disk with
  | none => exact ⟨fun _ => rfl, fun trees htrees => by cases htrees⟩
  | some dir =>
    rw [Option.map_some] at htimes hlist hreads hchunks ⊢
    rw [Option.getD_some]
    rcases hscan : (scanFs excludeHidden).scan (some dir.entries) with e | files
    · obtain ⟨failure, hfails⟩ := streamScan_fails htemp dir isoformat nodeBatchSize hscan
      have hnone : plainTrees isoformat env (scanFs excludeHidden) (some dir.entries) = none := by
        unfold plainTrees printList
        rw [hscan]
        rfl
      refine ⟨fun _ => ?_, fun trees htrees => ?_⟩
      · unfold streamTrees
        rw [hfails]
        rfl
      · rw [hnone] at htrees
        cases htrees
    · obtain ⟨hagree, hdisagree⟩ := streamTrees_cases htemp dir hsize hscan (htimes files hscan) hreads hchunks out
      have hplain := plainTrees_eq htemp dir hscan (htimes files hscan) (hlist files hscan)
      rw [hplain]
      refine ⟨fun h => (by cases h), fun trees htrees => ?_⟩
      cases htrees
      refine ⟨fun hsame => ?_, hagree⟩
      by_contra hnot
      obtain ⟨streamed, hstreamed, -⟩ := hsame
      rw [hdisagree hnot] at hstreamed
      cases hstreamed

end

section Sample

def sampleEntry (name : Codes) : Entry := .file name { stat := { size := 3, modified := some sampleTime } }

/-- `json.loads` on the texts of some values, with and without spaces. -/
def loadsOf (values : List Json) (text : List Char) : Option Json :=
  values.find? fun value => decide (value.dumps = text) || decide (value.dumpsSpaced = text)

def environmentOf (values : List Json) : Environment where
  loads := loadsOf values
  fromisoformat _ := some sampleTime
  monotonic _ := 0

/-- A directory with one file. -/
def sampleDirectory (name : Codes) (h : NameAllowed name) : Directory where
  entries := [sampleEntry name]
  distinct := List.nodup_singleton _
  allowed := by
    rw [AllAllowed, sampleEntry, Allowed, AllAllowed]
    exact ⟨⟨h, ⟨⟨by decide, by simp⟩, by simp⟩⟩, True.intro⟩
  bounded := by
    rw [entriesCount, entriesCount, sampleEntry, entryCount]
    decide

def sampleAttrs (name : String) : FileAttrs := { name, size := 3, timestampModified := some sampleTime }

def sampleStream (listed named : Codes) (attrs : FileAttrs) : List Record :=
  [.manifestBegin 1, .manifestNames [listed], .manifestEnd, .rootBegin 0 named, .rootNodes 0 [⟨0, none, attrs⟩],
    .rootEnd 0 1, .complete]

def sampleStreamEnvironment (listed named : Codes) (attrs : FileAttrs) : Environment :=
  environmentOf ((sampleStream listed named attrs).map (Record.json sampleIsoformat) ++
    [.list (toDicts sampleIsoformat [.mk attrs []])])

theorem sampleAttrs_written (name : String) (listed named : Codes) :
    ∀ file ∈ [SystemFile.mk (sampleAttrs name) []], ∀ attrs ∈ (fileTree file).values,
      TimesWritten sampleIsoformat (sampleStreamEnvironment listed named (sampleAttrs name)).fromisoformat attrs := by
  intro file hfile attrs hattrs
  cases List.mem_singleton.mp hfile
  rw [fileTree, fileTrees, Rose.values, Rose.valuesAll, List.mem_singleton] at hattrs
  subst hattrs
  refine ⟨fun t ht => (by decide : ("1970-01-01T00:00:00" : String).length ≤ 64), fun t ht => ?_⟩
  rcases ht with ht | ht
  · cases ht
  · cases ht
    rfl

set_option maxRecDepth 10000
/-- A file whose name is UTF-8. -/
theorem ascii_name_is_streamed :
    ∃ streamed, streamTrees sampleIsoformat (sampleStreamEnvironment (codes "a") (codes "a") (sampleAttrs "a")) (scanFs false)
      (some [sampleEntry (codes "a")]) 64
      [(streamText sampleIsoformat (sampleStream (codes "a") (codes "a") (sampleAttrs "a"))).map byteOf] [] = some streamed ∧
      streamed.Perm [wireFile (.mk (sampleAttrs "a") [])] := by
  have hscan : (scanFs false).scan (some [sampleEntry (codes "a")]) = .ok [.mk (sampleAttrs "a") []] := rfl
  have hwritten : ((streamScan sampleIsoformat (scanFs false) (some [sampleEntry (codes "a")]) 64).run.run []).2 =
      sampleStream (codes "a") (codes "a") (sampleAttrs "a") := by decide +kernel
  have hreads : ∀ record ∈ sampleStream (codes "a") (codes "a") (sampleAttrs "a"), ReadsRecord sampleIsoformat
      (sampleStreamEnvironment (codes "a") (codes "a") (sampleAttrs "a")) record := by
    intro record hrecord
    simp only [sampleStream, List.mem_cons, List.not_mem_nil, or_false] at hrecord
    rcases hrecord with rfl | rfl | rfl | rfl | rfl | rfl | rfl
    all_goals rfl
  have hagree : NamesAgree (scanFs false) [sampleEntry (codes "a")] :=
    ⟨fun entry hentry => by cases List.mem_singleton.mp hentry; decide, by decide⟩
  refine ((streamed_scan_agrees_iff false (some (sampleDirectory (codes "a") (by unfold NameAllowed; decide)))
    ⟨by decide, by decide⟩ ?_ ?_ ?_ ?_ []).2 _ rfl).mpr hagree
  · intro files hfiles
    cases hscan.symm.trans hfiles
    exact sampleAttrs_written "a" _ _
  · intro files hfiles
    cases hscan.symm.trans hfiles
    rfl
  · exact hwritten ▸ hreads
  · rw [List.flatten_singleton]
    exact congrArg (fun records => (streamText sampleIsoformat records).map byteOf) hwritten.symm

/-- The manifest has the name as it is, the root its normalized form: one such name, and nothing of
the whole scan is accepted. -/
theorem raw_byte_name_rejects_the_stream :
    plainTrees sampleIsoformat (sampleStreamEnvironment [0xDCFF] [0xFFFD] (sampleAttrs "\uFFFD")) (scanFs false)
      (some [sampleEntry [0xDCFF]]) = some [wireFile (.mk (sampleAttrs "\uFFFD") [])] ∧
    streamTrees sampleIsoformat (sampleStreamEnvironment [0xDCFF] [0xFFFD] (sampleAttrs "\uFFFD")) (scanFs false)
      (some [sampleEntry [0xDCFF]]) 64
      [(streamText sampleIsoformat ((streamScan sampleIsoformat (scanFs false) (some [sampleEntry [0xDCFF]]) 64).run.run
        []).2).map byteOf] [] = none := by
  have hscan : (scanFs false).scan (some [sampleEntry [0xDCFF]]) = .ok [.mk (sampleAttrs "\uFFFD") []] := rfl
  have hwritten : ((streamScan sampleIsoformat (scanFs false) (some [sampleEntry [0xDCFF]]) 64).run.run []).2 =
      sampleStream [0xDCFF] [0xFFFD] (sampleAttrs "\uFFFD") := by decide +kernel
  have hreads : ∀ record ∈ sampleStream [0xDCFF] [0xFFFD] (sampleAttrs "\uFFFD"), ReadsRecord sampleIsoformat
      (sampleStreamEnvironment [0xDCFF] [0xFFFD] (sampleAttrs "\uFFFD")) record := by
    intro record hrecord
    simp only [sampleStream, List.mem_cons, List.not_mem_nil, or_false] at hrecord
    rcases hrecord with rfl | rfl | rfl | rfl | rfl | rfl | rfl
    all_goals rfl
  have hdisagree : ¬ NamesAgree (scanFs false) [sampleEntry [0xDCFF]] := fun hagree =>
    absurd (hagree.listed (sampleEntry [0xDCFF]) (List.mem_singleton_self _)) (by decide)
  refine ⟨plainTrees_eq rfl (sampleDirectory [0xDCFF] (by unfold NameAllowed; decide)) hscan
    (sampleAttrs_written _ _ _) rfl, ?_⟩
  exact (streamTrees_cases rfl (sampleDirectory [0xDCFF] (by unfold NameAllowed; decide)) ⟨by decide, by decide⟩ hscan
    (sampleAttrs_written _ _ _) (hwritten ▸ hreads) List.flatten_singleton []).2 hdisagree

end Sample

end SeedSync.Remote
