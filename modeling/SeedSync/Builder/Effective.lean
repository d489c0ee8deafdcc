import SeedSync.Builder.Sources

/-!
# The effective tree of a root

Where `__build_effective_local_files` takes the tree of a root from, and what a merged tree keeps
of the trees it is made of.
-/

namespace SeedSync.Builder

open SystemFile Lib

/-! ## The choice -/

/-- The scanned tree, the active tree, or their merge. -/
def Sources.Chosen (b : Sources) (fileId : FileId) (mine : SystemFile) : Prop :=
  b.localFiles.get fileId = some mine ∨ b.activeFiles.get fileId = some mine ∨
    ∃ scanned active remote, b.localFiles.get fileId = some scanned ∧ b.activeFiles.get fileId = some active ∧
      b.remoteFiles.get fileId = some remote ∧ mine = mergeActiveSplitRoot scanned active (some remote)

theorem splitMerge_eq {b : Sources} {authority : Option LocalScanAuthority} {fileId : FileId}
    {active existing remote merged : SystemFile}
    (h : b.splitMerge authority fileId active existing remote = some merged) :
    merged = mergeActiveSplitRoot existing active (some remote) := by
  simp only [Sources.splitMerge] at h
  split_ifs at h
  cases h
  rfl

theorem selectEffective_cases {b : Sources} {authority : Option LocalScanAuthority} {fileId : FileId}
    {active file : SystemFile} {existing : Option SystemFile}
    (h : b.selectEffective authority fileId active existing = some file) :
    file = active ∨ ∃ e remote, existing = some e ∧ b.remoteFiles.get fileId = some remote ∧
      file = mergeActiveSplitRoot e active (some remote) := by
  simp only [Sources.selectEffective] at h
  split_ifs at h
  cases existing with
  | none =>
    cases h
    exact Or.inl rfl
  | some e =>
    simp only at h
    cases hsplit : (b.remoteFiles.get fileId).bind (b.splitMerge authority fileId active e) with
    | none =>
      simp only [hsplit] at h
      split_ifs at h
      cases h
      exact Or.inl rfl
    | some merged =>
      simp only [hsplit] at h
      cases h
      obtain ⟨remote, hremote, hmerge⟩ := Option.bind_eq_some_iff.mp hsplit
      exact Or.inr ⟨e, remote, rfl, hremote, splitMerge_eq hmerge⟩

/-- The loop over the active roots: a root still to come is as it was scanned. -/
theorem chosen_of_fold (b : Sources) (authority : Option LocalScanAuthority) (entries : List (FileId × SystemFile))
    (hactive : ∀ entry ∈ entries, b.activeFiles.get entry.1 = some entry.2)
    (hnodup : (entries.map Prod.fst).Nodup) (effective : Dict FileId SystemFile)
    (hahead : ∀ entry ∈ entries, effective.get entry.1 = b.localFiles.get entry.1)
    (hchosen : ∀ id mine, effective.get id = some mine → b.Chosen id mine) :
    ∀ id mine, (entries.foldl (fun effective (entry : FileId × SystemFile) =>
      match b.selectEffective authority entry.1 entry.2 (effective.get entry.1) with
      | some file => effective.set entry.1 file
      | none => effective) effective).get id = some mine → b.Chosen id mine := by
  induction entries generalizing effective with
  | nil => exact hchosen
  | cons entry entries ih =>
    rw [List.map_cons, List.nodup_cons] at hnodup
    rw [List.foldl_cons]
    have htail : ∀ e ∈ entries, b.activeFiles.get e.1 = some e.2 := fun e he =>
      hactive e (List.mem_cons_of_mem _ he)
    cases hselect : b.selectEffective authority entry.1 entry.2 (effective.get entry.1) with
    | none => exact ih htail hnodup.2 effective (fun e he => hahead e (List.mem_cons_of_mem _ he)) hchosen
    | some file =>
      refine ih htail hnodup.2 _ ?_ ?_
      · intro e he
        have hne : entry.1 ≠ e.1 := fun heq => hnodup.1 (heq ▸ List.mem_map_of_mem he)
        rw [Dict.get_set_ne _ hne]
        exact hahead e (List.mem_cons_of_mem _ he)
      · intro id mine hget
        rw [Dict.get_set] at hget
        split_ifs at hget with hid
        · cases hget
          subst hid
          have hhere := hactive entry List.mem_cons_self
          rcases selectEffective_cases hselect with rfl | ⟨e, remote, hexisting, hremote, rfl⟩
          · exact Or.inr (Or.inl hhere)
          · rw [hahead entry List.mem_cons_self] at hexisting
            exact Or.inr (Or.inr ⟨e, entry.2, remote, hexisting, hhere, hremote, rfl⟩)
        · exact hchosen id mine hget

/-- Every effective tree is one of the three. -/
theorem chosen_of_effective {b : Sources} {authority : Option LocalScanAuthority} {id : FileId} {mine : SystemFile}
    (h : (b.buildEffectiveLocalFiles authority).get id = some mine) : b.Chosen id mine := by
  refine chosen_of_fold b authority b.activeFiles.dict.items ?_ b.activeFiles.dict.nodup b.localFiles.dict
    (fun _ _ => rfl) (fun _ _ h => Or.inl h) id mine h
  rintro ⟨fileId, active⟩ hmem
  exact (b.activeFiles.dict.get_eq_some fileId active).mpr hmem

/-! ## Names in a merged tree -/

/-- No name below the node starts with a slash. -/
inductive ProperNames : SystemFile → Prop
  | mk {a : FileAttrs} {cs : List SystemFile} (here : ∀ c ∈ cs, c.name.toList.head? ≠ some '/')
      (deeper : ∀ c ∈ cs, ProperNames c) : ProperNames (.mk a cs)

/-- A child that may stand in a directory. -/
def ProperChild (file : SystemFile) : Prop := file.name.toList.head? ≠ some '/' ∧ ProperNames file

theorem properNames_iff (file : SystemFile) : ProperNames file ↔ ∀ c ∈ file.children, ProperChild c := by
  constructor
  · rintro ⟨here, deeper⟩ c hc
    exact ⟨here c hc, deeper c hc⟩
  · intro h
    obtain ⟨a, cs⟩ := file
    exact ⟨fun c hc => (h c hc).1, fun c hc => (h c hc).2⟩

theorem properNames_modifyAttrs {f : FileAttrs → FileAttrs} {file : SystemFile} (h : ProperNames file) :
    ProperNames (file.modifyAttrs f) := by
  rw [properNames_iff] at h ⊢
  exact h

theorem properNames_clone {file : SystemFile} {cs : List SystemFile} {staging : Option Bool}
    (h : ∀ c ∈ cs, ProperChild c) : ProperNames (cloneSystemFile file (some cs) staging) :=
  (properNames_iff _).mpr h

mutual
theorem properChild_final : (file : SystemFile) → (remote : Option SystemFile) → (kept : SystemFile) →
    ProperChild file → finalSplitRootStructure file remote = some kept → ProperChild kept
  | .mk a cs, none, kept, _, hkept => by simp [finalSplitRootStructure] at hkept
  | .mk a cs, some remote, kept, h, hkept => by
    rw [finalSplitRootStructure] at hkept
    dsimp only at hkept
    split_ifs at hkept
    · cases hkept
      exact h
    · cases hkept
      have hcs := (properNames_iff _).mp h.2
      exact ⟨h.1, properNames_clone (properChild_retained cs remote.children hcs)⟩

theorem properChild_retained : (cs remotes : List SystemFile) → (∀ c ∈ cs, ProperChild c) →
    ∀ kept ∈ retainedFinalChildren cs remotes, ProperChild kept
  | [], _, _ => by simp [retainedFinalChildren]
  | c :: cs, remotes, h => by
    have hrest := properChild_retained cs remotes fun d hd => h d (List.mem_cons_of_mem _ hd)
    rw [retainedFinalChildren]
    cases hkept : finalSplitRootStructure c (childNamed remotes c.name) with
    | none => exact hrest
    | some kept =>
      exact List.forall_mem_cons.mpr
        ⟨properChild_final c _ kept (h c List.mem_cons_self) hkept, hrest⟩
end

theorem mem_of_namedChildren {cs : List SystemFile} {n : String} {file : SystemFile}
    (h : (namedChildren cs).get n = some file) : file ∈ cs := by
  have hlist : namedChildren cs = .ofList (cs.map fun c => (c.name, c)) := by
    unfold namedChildren Dict.ofList
    rw [List.foldl_map]
  rw [hlist] at h
  obtain ⟨c, hc, heq⟩ := List.mem_map.mp (Dict.get_ofList_mem h)
  cases heq
  exact hc

theorem markStagingOrigin_name (active : SystemFile) (a : FileAttrs) :
    (markStagingOrigin active a).name = a.name ∧ (markStagingOrigin active a).pathPairId = a.pathPairId := by
  unfold markStagingOrigin
  split_ifs <;> exact ⟨rfl, rfl⟩

/-- A merged node is named as one of the two, pair and all. -/
theorem mergeActiveSplitRoot_name (file active : SystemFile) (remote : Option SystemFile) :
    ((mergeActiveSplitRoot file active remote).name = file.name ∧
      (mergeActiveSplitRoot file active remote).pathPairId = file.pathPairId) ∨
    ((mergeActiveSplitRoot file active remote).name = active.name ∧
      (mergeActiveSplitRoot file active remote).pathPairId = active.pathPairId) := by
  obtain ⟨a, cs⟩ := file
  rw [mergeActiveSplitRoot.eq_def]
  dsimp only
  split_ifs
  · exact Or.inl ⟨rfl, rfl⟩
  · exact Or.inr ⟨rfl, rfl⟩
  · exact Or.inl (markStagingOrigin_name active _)
  · exact Or.inl (markStagingOrigin_name active _)
  · exact Or.inr ⟨rfl, rfl⟩

theorem mergeActiveSplitRoot_rootFileId {file active : SystemFile} {id : FileId} (hfile : file.rootFileId = id)
    (hactive : active.rootFileId = id) (remote : Option SystemFile) :
    (mergeActiveSplitRoot file active remote).rootFileId = id := by
  unfold rootFileId at *
  rcases mergeActiveSplitRoot_name file active remote with ⟨hname, hpair⟩ | ⟨hname, hpair⟩
  · rw [hname, hpair, hfile]
  · rw [hname, hpair, hactive]

mutual
theorem properNames_merge : (file active : SystemFile) → (remote : Option SystemFile) → ProperNames file →
    ProperNames active → ProperNames (mergeActiveSplitRoot file active remote)
  | .mk a cs, active, remote, h, hactive => by
    rw [mergeActiveSplitRoot.eq_def]
    dsimp only
    split_ifs
    · exact properNames_modifyAttrs h
    · exact properNames_modifyAttrs hactive
    · refine properNames_modifyAttrs (properNames_clone fun c hc => ?_)
      have hnamed : ∀ n f, (namedChildren active.children).get n = some f → ProperChild f := fun n f hf =>
        (properNames_iff _).mp hactive f (mem_of_namedChildren hf)
      have hchildren := fun remotes => properChild_mergeChildren cs _ remotes ((properNames_iff _).mp h) hnamed
      rw [List.mem_insertionSort, List.mem_append, List.mem_map] at hc
      rcases hc with hc | ⟨⟨n, f⟩, hitem, rfl⟩
      · exact (hchildren _).1 c hc
      · exact (hchildren _).2 n f ((Dict.get_eq_some _ _ _).mpr hitem)
    · exact properNames_modifyAttrs h
    · exact properNames_modifyAttrs hactive

theorem properChild_mergeChildren : (cs : List SystemFile) → (actives : Dict String SystemFile) →
    (remotes : List SystemFile) → (∀ c ∈ cs, ProperChild c) → (∀ n f, actives.get n = some f → ProperChild f) →
    (∀ c ∈ (mergeSplitChildren cs actives remotes).1, ProperChild c) ∧
      ∀ n f, (mergeSplitChildren cs actives remotes).2.get n = some f → ProperChild f
  | [], actives, _, _, hactives => ⟨by simp [mergeSplitChildren], by simpa [mergeSplitChildren] using hactives⟩
  | c :: cs, actives, remotes, h, hactives => by
    have hc := h c List.mem_cons_self
    have hcs : ∀ d ∈ cs, ProperChild d := fun d hd => h d (List.mem_cons_of_mem _ hd)
    rw [mergeSplitChildren]
    cases hactive : actives.get c.name with
    | none =>
      obtain ⟨hmerged, hrest⟩ := properChild_mergeChildren cs actives remotes hcs hactives
      dsimp only
      cases hkept : finalSplitRootStructure c (childNamed remotes c.name) with
      | none => exact ⟨hmerged, hrest⟩
      | some kept => exact ⟨List.forall_mem_cons.mpr ⟨properChild_final c _ kept hc hkept, hmerged⟩, hrest⟩
    | some active =>
      have hpop : ∀ n f, (actives.pop c.name).get n = some f → ProperChild f := by
        intro n f hf
        rw [Dict.get_pop] at hf
        split_ifs at hf
        exact hactives n f hf
      obtain ⟨hmerged, hrest⟩ := properChild_mergeChildren cs (actives.pop c.name) remotes hcs hpop
      have hproper := hactives _ _ hactive
      refine ⟨List.forall_mem_cons.mpr ⟨⟨?_, properNames_merge c active _ hc.2 hproper.2⟩, hmerged⟩, hrest⟩
      rcases mergeActiveSplitRoot_name c active (childNamed remotes c.name) with ⟨hname, -⟩ | ⟨hname, -⟩
      · rw [hname]
        exact hc.1
      · rw [hname]
        exact hproper.1
end

/-- The scanned trees are named as a file system names them. -/
structure Sources.ProperTrees (b : Sources) : Prop where
  localFiles : ∀ id file, b.localFiles.get id = some file → file.name ≠ "" ∧ ProperNames file
  remoteFiles : ∀ id file, b.remoteFiles.get id = some file → file.name ≠ "" ∧ ProperNames file
  activeFiles : ∀ id file, b.activeFiles.get id = some file → file.name ≠ "" ∧ ProperNames file

theorem chosen_rootFileId {b : Sources} {id : FileId} {mine : SystemFile} (h : b.Chosen id mine) :
    mine.rootFileId = id := by
  rcases h with h | h | ⟨scanned, active, remote, hscanned, hactive, -, rfl⟩
  · exact b.localFiles.keyed id mine h
  · exact b.activeFiles.keyed id mine h
  · exact mergeActiveSplitRoot_rootFileId (b.localFiles.keyed id _ hscanned) (b.activeFiles.keyed id _ hactive) _

theorem rootFileId_path (file : SystemFile) : file.rootFileId.path = file.name := buildFileId_path _ _

theorem chosen_proper {b : Sources} (hb : b.ProperTrees) {id : FileId} {mine : SystemFile} (h : b.Chosen id mine) :
    id.path ≠ "" ∧ ProperNames mine := by
  rw [← chosen_rootFileId h, rootFileId_path]
  rcases h with h | h | ⟨scanned, active, remote, hscanned, hactive, -, rfl⟩
  · exact hb.localFiles id mine h
  · exact hb.activeFiles id mine h
  · obtain ⟨hname, hproper⟩ := hb.localFiles id _ hscanned
    obtain ⟨hname', hproper'⟩ := hb.activeFiles id _ hactive
    refine ⟨?_, properNames_merge _ _ _ hproper hproper'⟩
    rcases mergeActiveSplitRoot_name scanned active (some remote) with ⟨h, -⟩ | ⟨h, -⟩
    · rwa [h]
    · rwa [h]

end SeedSync.Builder
