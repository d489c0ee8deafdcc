import SeedSync.Local.Scanner

/-!
# The staging merge by key

Where every root has a key of its own, and two roots have one name exactly if they have one key, the
merge of the staging roots into the list of the final ones is a merge of two dicts.
-/

namespace SeedSync.Local

open Lib LocalScanner

theorem localNames_mem {files : List SystemFile} {name : String} {index : Nat}
    (h : (localNames files).get name = some index) : ∃ file, files[index]? = some file ∧ file.name = name := by
  obtain ⟨⟨file, i⟩, hmem, heq⟩ := List.mem_map.mp (Dict.get_ofList_mem h)
  cases heq
  exact ⟨file, List.mk_mem_zipIdx_iff_getElem?.mp hmem, rfl⟩

theorem localNames_of_mem {files : List SystemFile} {file : SystemFile} (h : file ∈ files) :
    (localNames files).get file.name ≠ none := by
  refine Dict.get_ofList_of_mem ?_
  obtain ⟨index, hindex⟩ := List.getElem?_of_mem h
  rw [List.map_map]
  exact List.mem_map.mpr ⟨(file, index), List.mk_mem_zipIdx_iff_getElem?.mpr hindex, rfl⟩

/-- The list and its index, against the roots by key. -/
structure Merges (finals : Dict Codes SystemFile) (merging : Merging) (rest : List (Codes × SystemFile)) : Prop where
  result : merging.result = finals.items.map Prod.snd
  index : ∀ item ∈ rest, ∀ i, merging.localNames.get item.2.name = some i ↔ finals.keys[i]? = some item.1

/-- What the keys and the names of staging roots have in common. -/
structure KeysDistinct (stagings : List (Codes × SystemFile)) : Prop where
  keys : (stagings.map Prod.fst).Nodup
  names : (stagings.map fun item => item.2.name).Nodup

theorem mergeStagingFile_merges {finals : Dict Codes SystemFile} {merging : Merging} {key : Codes} {staging : SystemFile}
    {rest : List (Codes × SystemFile)} (h : Merges finals merging ((key, staging) :: rest))
    (hdistinct : KeysDistinct ((key, staging) :: rest)) :
    Merges (finals.mergeAll mergeDuplicateLocalEntries [(key, markStagingFileTree staging)])
      (mergeStagingFile merging staging) rest := by
  obtain ⟨result, names⟩ := merging
  obtain ⟨rfl, hindex⟩ := h
  dsimp only at hindex
  have hkeys := hdistinct.keys
  have hnames := hdistinct.names
  rw [List.map_cons, List.nodup_cons] at hkeys hnames
  have hhere := hindex _ List.mem_cons_self
  unfold mergeStagingFile
  dsimp only
  rw [markStagingFileTree_name]
  cases hget : names.get staging.name with
  | some i =>
    obtain ⟨final, hfinal, hsame, hvalues⟩ := Dict.setItem_at finals.nodup ((hhere i).mp hget)
      fun final => mergeDuplicateLocalEntries final (markStagingFileTree staging)
    have hmerged : finals.mergeAll mergeDuplicateLocalEntries [(key, markStagingFileTree staging)] =
        finals.set key (mergeDuplicateLocalEntries final (markStagingFileTree staging)) := by
      change finals.set key ((Dict.combine _ (Dict.getItem finals.items key) _).getD _) = _
      rw [hfinal]
      rfl
    rw [hmerged]
    constructor
    · exact hvalues.symm
    · intro item hitem i
      change _ ↔ ((Dict.setItem finals.items key _).map Prod.fst)[i]? = _
      rw [hsame]
      exact hindex item (List.mem_cons_of_mem _ hitem) i
  | none =>
    have hnew : key ∉ finals.items.map Prod.fst := by
      intro hmem
      obtain ⟨i, hi⟩ := List.getElem?_of_mem hmem
      rw [(hhere i).mpr hi] at hget
      cases hget
    obtain ⟨habsent, hset⟩ := Dict.setItem_new hnew (markStagingFileTree staging)
    have hmerged : finals.mergeAll mergeDuplicateLocalEntries [(key, markStagingFileTree staging)] =
        finals.set key (markStagingFileTree staging) := by
      change finals.set key ((Dict.combine _ (Dict.getItem finals.items key) _).getD _) = _
      rw [habsent]
      rfl
    rw [hmerged]
    constructor
    · change _ = (Dict.setItem finals.items key _).map Prod.snd
      rw [hset, List.map_append, List.map_singleton]
    · intro item hitem i
      have hother := hindex item (List.mem_cons_of_mem _ hitem) i
      have hname : staging.name ≠ item.2.name := fun heq =>
        hnames.1 (List.mem_map.mpr ⟨item, hitem, heq.symm⟩)
      have hkey : key ≠ item.1 := fun heq => hkeys.1 (List.mem_map.mpr ⟨item, hitem, heq.symm⟩)
      change _ ↔ ((Dict.setItem finals.items key _).map Prod.fst)[i]? = _
      rw [hset, List.map_append, List.map_singleton, Dict.get_set_ne _ hname, hother]
      unfold Dict.keys
      rw [List.getElem?_append]
      split_ifs with hlt
      · rfl
      · rw [List.getElem?_eq_none (Nat.le_of_not_lt hlt)]
        rcases hzero : i - (finals.items.map Prod.fst).length with _ | j
        · simp [hkey]
        · simp

/-- A list of staging roots, each merged into its place. -/
theorem foldl_mergeStagingFile {finals : Dict Codes SystemFile} {merging : Merging}
    {stagings : List (Codes × SystemFile)} (h : Merges finals merging stagings) (hdistinct : KeysDistinct stagings) :
    ((stagings.map Prod.snd).foldl mergeStagingFile merging).result =
      (finals.mergeAll mergeDuplicateLocalEntries
        (stagings.map fun item => (item.1, markStagingFileTree item.2))).items.map Prod.snd := by
  induction stagings generalizing finals merging with
  | nil => exact h.result
  | cons item stagings ih =>
    obtain ⟨key, staging⟩ := item
    have hrest : KeysDistinct stagings :=
      ⟨(List.nodup_cons.mp hdistinct.keys).2, (List.nodup_cons.mp hdistinct.names).2⟩
    exact ih (mergeStagingFile_merges h hdistinct) hrest

/-- The roots of one name are those of one key. -/
def NamesMatchKeys (finals stagings : List (Codes × SystemFile)) : Prop :=
  ∀ final ∈ finals, ∀ staging ∈ stagings, final.1 = staging.1 ↔ final.2.name = staging.2.name

theorem merges_initial {finals : Dict Codes SystemFile} {stagings : List (Codes × SystemFile)}
    (h : NamesMatchKeys finals.items stagings) :
    Merges finals { result := finals.items.map Prod.snd, localNames := localNames (finals.items.map Prod.snd) } stagings where
  result := rfl
  index := by
    intro staging hstaging i
    have hread : ∀ j, (localNames (finals.items.map Prod.snd)).get staging.2.name = some j →
        finals.keys[j]? = some staging.1 := by
      intro j hj
      obtain ⟨file, hfile, hname⟩ := localNames_mem hj
      rw [List.getElem?_map] at hfile
      obtain ⟨item, hitem, rfl⟩ := Option.map_eq_some_iff.mp hfile
      unfold Dict.keys
      rw [List.getElem?_map, hitem, Option.map_some]
      exact congrArg some ((h item (List.mem_of_getElem? hitem) staging hstaging).mpr hname)
    refine ⟨hread i, fun hkey => ?_⟩
    unfold Dict.keys at hkey
    rw [List.getElem?_map] at hkey
    obtain ⟨item, hitem, hfst⟩ := Option.map_eq_some_iff.mp hkey
    have hmem := List.mem_of_getElem? hitem
    have hname := (h item hmem staging hstaging).mp hfst
    have hfound := localNames_of_mem (List.mem_map_of_mem (f := Prod.snd) hmem)
    rw [hname] at hfound
    obtain ⟨j, hj⟩ := Option.ne_none_iff_exists'.mp hfound
    -- No key stands at two places.
    have hsame : j = i := by
      have hkeyj := hread j hj
      have hkeyi : finals.keys[i]? = some staging.1 := by
        unfold Dict.keys
        rw [List.getElem?_map, hitem, ← hfst]
        rfl
      have hlt : i < finals.keys.length := (List.getElem?_eq_some_iff.mp hkeyi).1
      exact ((List.getElem?_inj hlt finals.nodup).mp (hkeyi.trans hkeyj.symm)).symm
    rw [hj, hsame]

/-- What the merge of two lists comes to, key by key. -/
theorem mergeStaging_perm {finals : Dict Codes SystemFile} {stagings : List (Codes × SystemFile)}
    (hnames : NamesMatchKeys finals.items stagings) (hdistinct : KeysDistinct stagings) {keys : List Codes}
    (hnodup : keys.Nodup) (hkeys : ∀ key, finals.get key ≠ none ∨ key ∈ stagings.map Prod.fst → key ∈ keys) :
    (mergeStaging (finals.items.map Prod.snd) (stagings.map Prod.snd)).Perm
      (keys.filterMap fun key => Dict.combine mergeDuplicateLocalEntries (finals.get key)
        ((Dict.getItem stagings key).map markStagingFileTree)) := by
  have hmarked : ((stagings.map fun item => (item.1, markStagingFileTree item.2)).map Prod.fst).Nodup := by
    rw [List.map_map]
    exact hdistinct.keys
  have hget : ∀ key, (finals.mergeAll mergeDuplicateLocalEntries
      (stagings.map fun item => (item.1, markStagingFileTree item.2))).get key =
      Dict.combine mergeDuplicateLocalEntries (finals.get key) ((Dict.getItem stagings key).map markStagingFileTree) := by
    intro key
    rw [Dict.get_mergeAll _ _ hmarked, Dict.getItem_map]
  unfold mergeStaging
  rw [foldl_mergeStagingFile (merges_initial hnames) hdistinct]
  refine (Dict.values_perm _ hnodup fun key hkey => hkeys key ?_).trans (List.Perm.of_eq (List.filterMap_congr
    fun key _ => hget key))
  rw [hget] at hkey
  by_contra hnone
  rw [not_or, not_not] at hnone
  obtain ⟨hfinal, hstaging⟩ := hnone
  have habsent : Dict.getItem stagings key = none := by
    rw [Option.eq_none_iff_forall_ne_some]
    intro staging hget
    exact hstaging (List.mem_map.mpr ⟨(key, staging), (Dict.getItem_eq_some hdistinct.keys key staging).mp hget, rfl⟩)
  rw [hfinal, habsent] at hkey
  exact hkey rfl

end SeedSync.Local
