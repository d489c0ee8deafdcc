import SeedSync.Persist.Controller

/-!
# The file is read back

`from_str` returns of the text of `to_str` the state itself, when the state holds nothing that
`from_str` refuses, drops or joins.
-/

namespace SeedSync.Persist

open Lib Lib.Json Identity

/-! ## What is read back of the values -/

theorem stable_namesJson {set : NameSet} (h : ∀ name ∈ set.names, name.Joined) : Stable (namesJson set) := by
  refine stable_list fun item hitem => ?_
  obtain ⟨name, hname, rfl⟩ := List.mem_map.1 hitem
  exact ⟨name.valid, congrArg Json.str (h name hname)⟩

theorem codes_of_dict {ν : Type} (value : ν → Json) (d : Dict Str ν) :
    ((d.items.map fun item => (item.1.codes, value item.2)).map Prod.fst).Nodup := by
  have hinjective : Function.Injective Str.codes := fun a b h => by
    cases a
    cases b
    simp_all
  have := d.nodup.map hinjective
  rwa [List.map_map] at this ⊢

theorem stable_dictJson {ν : Type} {value : ν → Json} {d : Dict Str ν}
    (h : ∀ item ∈ d.items, item.1.Joined ∧ Stable (value item.2)) : Stable (dictJson value d) := by
  refine stable_obj (codes_of_dict value d) fun field hfield => ?_
  obtain ⟨item, hitem, rfl⟩ := List.mem_map.1 hfield
  exact ⟨item.1.valid, (h item hitem).1, (h item hitem).2⟩

theorem stable_identityJson (identity : Int × Int) : Stable (identityJson identity) :=
  stable_obj (by simp [codes_injective.eq_iff]) (by simp [stable_int, isText_codes, joinCodes_codes])

theorem stable_floorJson (floor : Floor) : Stable (floorJson floor) :=
  stable_obj (by simp [codes_injective.eq_iff]) (by simp [stable_int, isText_codes, joinCodes_codes])

/-! ## States that are read back -/

/-- A completion time that `from_str` keeps: finite and not negative. -/
def IsTimestamp : JsonFloat → Prop
  | .decimal mantissa _ => 0 ≤ mantissa
  | _ => False

instance : DecidablePred IsTimestamp
  | .decimal mantissa _ => inferInstanceAs (Decidable (0 ≤ mantissa))
  | .nan => .isFalse id
  | .infinity _ => .isFalse id

/-- A floor that `from_str` admits. -/
structure Floor.Admitted (env : PersistEnv) (floor : Floor) : Prop where
  bytes : 0 < floor.bytes ∧ floor.bytes < floor.size
  percent : floor.percent = min 99 (env.percentOf floor.bytes floor.size) ∧ 0 ≤ floor.percent
  mtime : 0 ≤ floor.mtime
  subset : 0 < floor.subset ∧ floor.subset ≤ floor.size

/-- Nothing in the state is refused, dropped or joined when its file is read. -/
structure Reloadable (env : PersistEnv) (p : ControllerPersist) : Prop where
  downloaded : ∀ name ∈ p.downloadedFileNames.names, name.Joined
  extracted : ∀ name ∈ p.extractedFileNames.names, name.Joined
  stopped : ∀ name ∈ p.stoppedFileNames.names, name.Joined
  finalMoveSucceeded : ∀ name ∈ p.finalMoveSucceededFileNames.names, name.Joined
  timestamps : ∀ item ∈ p.downloadedTimestamps.items, item.1.Joined ∧ IsTimestamp item.2
  counts : ∀ item ∈ p.moveFailureCounts.items, item.1.Joined ∧ item.1.codes ≠ [] ∧ 0 ≤ item.2 ∧ item.2 ≤ 4
  resumeSources : ∀ item ∈ p.resumeSourceIdentities.items,
    item.1.Joined ∧ canonicalResumeSourceId env.isUuid item.1 = some item.1 ∧ 0 ≤ item.2.1 ∧ 0 ≤ item.2.2
  floors : ∀ item ∈ p.displayProgressFloors.items,
    item.1.Joined ∧ canonicalResumeSourceId env.isUuid item.1 = some item.1 ∧ item.2.Admitted env
  phase : p.markerIdentityMigration = 0 ∨ p.markerIdentityMigration = 1 ∨ p.markerIdentityMigration = 2

section

variable {env : PersistEnv} {p : ControllerPersist}

theorem mem_fieldUnlessEmpty {ν : Type} {key : String} {value : ν → Json} {d : Dict Str ν} {field : Codes × Json}
    (h : field ∈ fieldUnlessEmpty key value d) : field = (codes key, dictJson value d) := by
  unfold fieldUnlessEmpty at h
  split_ifs at h
  · simp at h
  · simpa using h

theorem stable_json (h : Reloadable env p) : Stable p.json := by
  refine stable_obj ?_ ?_
  · simp only [List.map_append, fieldUnlessEmpty]
    split_ifs <;> simp [codes_injective.eq_iff]
  · intro field hfield
    simp only [List.mem_append, List.mem_cons, List.not_mem_nil, or_false] at hfield
    rcases hfield with (((rfl | rfl | rfl | rfl | rfl | rfl) | hfield) | hfield) | hfield
    · exact ⟨isText_codes _, joinCodes_codes _, stable_namesJson h.downloaded⟩
    · exact ⟨isText_codes _, joinCodes_codes _, stable_namesJson h.extracted⟩
    · exact ⟨isText_codes _, joinCodes_codes _, stable_namesJson h.stopped⟩
    · exact ⟨isText_codes _, joinCodes_codes _, stable_dictJson fun item hitem => ⟨(h.counts item hitem).1, stable_int _⟩⟩
    · exact ⟨isText_codes _, joinCodes_codes _, stable_namesJson h.finalMoveSucceeded⟩
    · exact ⟨isText_codes _, joinCodes_codes _, stable_int _⟩
    · obtain rfl := mem_fieldUnlessEmpty hfield
      exact ⟨isText_codes _, joinCodes_codes _, stable_dictJson fun item hitem =>
        ⟨(h.resumeSources item hitem).1, stable_identityJson _⟩⟩
    · obtain rfl := mem_fieldUnlessEmpty hfield
      exact ⟨isText_codes _, joinCodes_codes _, stable_dictJson fun item hitem =>
        ⟨(h.floors item hitem).1, stable_floorJson _⟩⟩
    · obtain rfl := mem_fieldUnlessEmpty hfield
      exact ⟨isText_codes _, joinCodes_codes _, stable_dictJson fun item hitem =>
        ⟨(h.timestamps item hitem).1, stable_float _⟩⟩

/-! ## The fields of the file -/

theorem readStringSet_namesJson (set : NameSet) (fieldName : String) :
    readStringSet (namesJson set) fieldName = .ok set := by
  have hnames : ∀ names : List Str, (names.map fun name => Json.str name.codes).mapM readName = some names := by
    intro names
    induction names with
    | nil => rfl
    | cons name names ih => simp [readName, ih]
  simp only [readStringSet, namesJson, hnames, NameSet.ofList_names]

theorem keepItems_dictJson {ν : Type} {read : Str → Json → Option ν} {value : ν → Json} {d : Dict Str ν}
    (h : ∀ item ∈ d.items, read item.1 (value item.2) = some item.2) :
    keepItems read (d.items.map fun item => (item.1.codes, value item.2)) = d := by
  have hread : ∀ items : List (Str × ν), (∀ item ∈ items, read item.1 (value item.2) = some item.2) →
      (items.map fun item => (item.1.codes, value item.2)).filterMap (fun field => do
        let key ← Str.ofCodes? field.1
        return (key, ← read key field.2)) = items := by
    intro items hitems
    induction items with
    | nil => rfl
    | cons item items ih =>
      have htail := ih fun other hmem => hitems other (List.mem_cons_of_mem _ hmem)
      rw [List.map_cons, List.filterMap_cons, htail]
      simp [hitems item List.mem_cons_self]
  rw [keepItems, hread d.items h, Dict.ofList_self]

theorem readAll_dictJson {ν : Type} (read : Str → Json → Except String ν) (value : ν → Json) {items : List (Str × ν)}
    (h : ∀ item ∈ items, read item.1 (value item.2) = .ok item.2) (d : Dict Str ν) :
    readAll read d (items.map fun item => (item.1.codes, value item.2)) =
      .ok (items.foldl (fun d item => d.set item.1 item.2) d) := by
  induction items generalizing d with
  | nil => rfl
  | cons item items ih =>
    simp only [List.map_cons, readAll, Str.ofCodes?_codes, h item List.mem_cons_self]
    exact ih (fun other hmem => h other (List.mem_cons_of_mem _ hmem)) _

/-- What a field of `to_str` is read as, whether or not it was written. -/
theorem readObject_dictJson {ν : Type} {fields : List (Codes × Json)} {key : String} {value : ν → Json} {d : Dict Str ν}
    (h : fields.lookup (codes key) = if d.items = [] then none else some (dictJson value d)) :
    readObject fields key = .ok (d.items.map fun item => (item.1.codes, value item.2)) := by
  unfold readObject
  rw [h]
  split_ifs with hempty
  · simp [hempty]
  · rfl

theorem lookup_fieldUnlessEmpty {ν : Type} (key : String) (value : ν → Json) (d : Dict Str ν) :
    (fieldUnlessEmpty key value d).lookup (codes key) = if d.items = [] then none else some (dictJson value d) := by
  unfold fieldUnlessEmpty
  split_ifs
  · rfl
  · simp

theorem lookup_fieldUnlessEmpty_ne {ν : Type} {key other : String} (h : other ≠ key) (value : ν → Json) (d : Dict Str ν) :
    (fieldUnlessEmpty key value d).lookup (codes other) = none := by
  unfold fieldUnlessEmpty
  split_ifs
  · rfl
  · simpa [codes_injective.eq_iff] using h

theorem readTimestamp_float {x : JsonFloat} (h : IsTimestamp x) : readTimestamp env (.float x) = some x := by
  cases x with
  | nan => exact absurd h id
  | infinity negative => exact absurd h id
  | decimal mantissa exponent => simpa [readTimestamp, IsTimestamp] using h

theorem readCount_int {key : Str} {count : Int} (h : key.codes ≠ [] ∧ 0 ≤ count ∧ count ≤ 4) :
    readCount key (.int count) = some count := by
  simp [readCount, h]

theorem readIdentity_json {key : Str} {identity : Int × Int} (hkey : canonicalResumeSourceId env.isUuid key = some key)
    (h : 0 ≤ identity.1 ∧ 0 ≤ identity.2) : readIdentity env key (identityJson identity) = .ok identity := by
  have hneg : ¬(identity.1 < 0 ∨ identity.2 < 0) := by omega
  simp only [readIdentity, hkey, identityJson]
  rw [if_neg (by simp)]
  change (if identity.1 < 0 ∨ identity.2 < 0 then _ else _) = _
  rw [if_neg hneg]

theorem readFloor_json {key : Str} {floor : Floor} (hkey : canonicalResumeSourceId env.isUuid key = some key)
    (h : floor.Admitted env) : readFloor env key (floorJson floor) = .ok floor := by
  obtain ⟨⟨hpos, hbelow⟩, ⟨hpercent, hnonneg⟩, hmtime, hsubset⟩ := h
  simp only [readFloor, hkey, floorJson]
  rw [if_neg (by simp)]
  change (if floor.bytes ≤ 0 ∨ ¬(0 ≤ floor.percent ∧ floor.percent ≤ 99) ∨ floor.size ≤ 0 ∨ floor.mtime < 0 ∨
    ¬(0 < floor.subset ∧ floor.subset ≤ floor.size) then _ else if floor.size ≤ floor.bytes ∨
      floor.percent ≠ min 99 (env.percentOf floor.bytes floor.size) then _ else _) = _
  rw [if_neg (by omega), if_neg (by omega)]

/-- The fields that are always there. -/
def ControllerPersist.alwaysFields (p : ControllerPersist) : List (Codes × Json) :=
  [(codes "downloaded", namesJson p.downloadedFileNames), (codes "extracted", namesJson p.extractedFileNames),
    (codes "stopped", namesJson p.stoppedFileNames), (codes "move_failure_counts", dictJson .int p.moveFailureCounts),
    (codes "final_move_succeeded", namesJson p.finalMoveSucceededFileNames),
    (codes "marker_identity_migration", .int p.markerIdentityMigration)]

def ControllerPersist.fields (p : ControllerPersist) : List (Codes × Json) :=
  p.alwaysFields ++ fieldUnlessEmpty "resume_sources" identityJson p.resumeSourceIdentities ++
    fieldUnlessEmpty "display_progress_floors" floorJson p.displayProgressFloors ++
    fieldUnlessEmpty "downloaded_timestamps" .float p.downloadedTimestamps

theorem lookup_always {key : String} {value : Json} (h : p.alwaysFields.lookup (codes key) = some value) :
    p.fields.lookup (codes key) = some value := by
  simp [ControllerPersist.fields, List.lookup_append, h]

theorem lookup_alwaysFields (p : ControllerPersist) :
    p.alwaysFields.lookup (codes "downloaded") = some (namesJson p.downloadedFileNames) ∧
      p.alwaysFields.lookup (codes "extracted") = some (namesJson p.extractedFileNames) ∧
      p.alwaysFields.lookup (codes "stopped") = some (namesJson p.stoppedFileNames) ∧
      p.alwaysFields.lookup (codes "move_failure_counts") = some (dictJson .int p.moveFailureCounts) ∧
      p.alwaysFields.lookup (codes "final_move_succeeded") = some (namesJson p.finalMoveSucceededFileNames) ∧
      p.alwaysFields.lookup (codes "marker_identity_migration") = some (.int p.markerIdentityMigration) :=
  ⟨rfl, rfl, rfl, rfl, rfl, rfl⟩

theorem lookup_resumeSources (p : ControllerPersist) : p.fields.lookup (codes "resume_sources") =
    if p.resumeSourceIdentities.items = [] then none else some (dictJson identityJson p.resumeSourceIdentities) := by
  have hnone : p.alwaysFields.lookup (codes "resume_sources") = none := rfl
  simp only [ControllerPersist.fields, List.lookup_append, hnone, lookup_fieldUnlessEmpty,
    lookup_fieldUnlessEmpty_ne (show "resume_sources" ≠ "display_progress_floors" by decide),
    lookup_fieldUnlessEmpty_ne (show "resume_sources" ≠ "downloaded_timestamps" by decide), Option.none_or, Option.or_none]

theorem lookup_floors (p : ControllerPersist) : p.fields.lookup (codes "display_progress_floors") =
    if p.displayProgressFloors.items = [] then none else some (dictJson floorJson p.displayProgressFloors) := by
  have hnone : p.alwaysFields.lookup (codes "display_progress_floors") = none := rfl
  simp only [ControllerPersist.fields, List.lookup_append, hnone, lookup_fieldUnlessEmpty,
    lookup_fieldUnlessEmpty_ne (show "display_progress_floors" ≠ "resume_sources" by decide),
    lookup_fieldUnlessEmpty_ne (show "display_progress_floors" ≠ "downloaded_timestamps" by decide), Option.none_or,
    Option.or_none]

theorem lookup_timestamps (p : ControllerPersist) : p.fields.lookup (codes "downloaded_timestamps") =
    if p.downloadedTimestamps.items = [] then none else some (dictJson .float p.downloadedTimestamps) := by
  have hnone : p.alwaysFields.lookup (codes "downloaded_timestamps") = none := rfl
  simp only [ControllerPersist.fields, List.lookup_append, hnone, lookup_fieldUnlessEmpty,
    lookup_fieldUnlessEmpty_ne (show "downloaded_timestamps" ≠ "resume_sources" by decide),
    lookup_fieldUnlessEmpty_ne (show "downloaded_timestamps" ≠ "display_progress_floors" by decide), Option.none_or]

theorem readObject_counts (p : ControllerPersist) :
    readObject p.fields "move_failure_counts" = .ok (p.moveFailureCounts.items.map fun item => (item.1.codes, .int item.2)) := by
  rw [readObject, lookup_always (lookup_alwaysFields p).2.2.2.1]
  rfl

theorem readFields_json (h : Reloadable env p) : readFields env p.fields = .ok p := by
  obtain ⟨hdownloaded, hextracted, hstopped, -, hmoved, hphase⟩ := lookup_alwaysFields p
  have hphase' : readPhase p.fields = .ok p.markerIdentityMigration := by
    rw [readPhase, lookup_always hphase]
    exact if_pos h.phase
  have hresume := readAll_dictJson (readIdentity env) identityJson
    (fun item hitem => readIdentity_json (h.resumeSources item hitem).2.1 (h.resumeSources item hitem).2.2) {}
  have hfloors := readAll_dictJson (readFloor env) floorJson
    (fun item hitem => readFloor_json (h.floors item hitem).2.1 (h.floors item hitem).2.2) {}
  unfold readFields
  simp only [required, optionalList, lookup_always hdownloaded, lookup_always hextracted, lookup_always hstopped,
    lookup_always hmoved, readStringSet_namesJson, readObject_dictJson (lookup_resumeSources p),
    readObject_dictJson (lookup_floors p), readObject_dictJson (lookup_timestamps p), readObject_counts, hphase',
    Option.getD_some, bind, Except.bind, hresume, hfloors]
  rw [keepItems_dictJson fun item hitem => readTimestamp_float (h.timestamps item hitem).2,
    keepItems_dictJson fun item hitem => readCount_int (h.counts item hitem).2]
  have hresumed : p.resumeSourceIdentities.items.foldl (fun d item => d.set item.1 item.2) {} = p.resumeSourceIdentities :=
    Dict.ofList_self _
  have hfloored : p.displayProgressFloors.items.foldl (fun d item => d.set item.1 item.2) {} = p.displayProgressFloors :=
    Dict.ofList_self _
  rw [hresumed, hfloored]
  rfl

/-- The file of a reloadable state is read back as that state. -/
theorem fromStr_toStr (h : Reloadable env p) : ControllerPersist.fromStr env p.toStr = .ok p := by
  obtain ⟨hvalue, hreread⟩ := stable_json h
  unfold ControllerPersist.fromStr ControllerPersist.toStr
  rw [Json.loads_write _ _ hvalue, hreread]
  change Except.mapError _ (readFields env p.fields) = _
  rw [readFields_json h]
  rfl

end

end SeedSync.Persist
