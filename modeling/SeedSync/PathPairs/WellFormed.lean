import SeedSync.Lib.Stateful
import SeedSync.PathPairs.Manager

/-!
# Path pairs over whole runs

A collection that is loaded with no id and no name twice stays so, whatever is done to it and
whichever saves fail, and its file is read back as the collection itself.
-/

namespace SeedSync.PathPairs

open Lib Lib.Json Identity PathPairCollection

/-! ## What is read back -/

namespace PathPair

/-- The pair with the surrogate pairs of its texts made characters. -/
def joined (pair : PathPair) : PathPair :=
  { pair with
    remotePath := pair.remotePath.joined
    localPath := pair.localPath.joined
    name := pair.name.joined
    id := pair.id.joined }

/-- The pair is named, and none of its texts has a surrogate pair. -/
structure Faithful (pair : PathPair) : Prop where
  named : pair.name.codes ≠ []
  remotePath : pair.remotePath.Joined
  localPath : pair.localPath.Joined
  name : pair.name.Joined
  id : pair.id.Joined

theorem joined_eq {pair : PathPair} : pair.joined = pair ↔
    pair.remotePath.Joined ∧ pair.localPath.Joined ∧ pair.name.Joined ∧ pair.id.Joined := by
  obtain ⟨remotePath, localPath, name, id, enabled, autoQueue⟩ := pair
  simp [joined, Str.joined_eq]

theorem Faithful.joined {pair : PathPair} (h : pair.Faithful) : pair.joined = pair :=
  joined_eq.2 ⟨h.remotePath, h.localPath, h.name, h.id⟩

theorem joined_named {pair : PathPair} (h : pair.name.codes ≠ []) : pair.joined.name.codes ≠ [] :=
  fun hnil => h (joinCodes_eq_nil.1 hnil)

theorem isValue_asdict (pair : PathPair) : (Json.obj pair.asdict).IsValue := by
  refine (allFields_iff pair.asdict).2 fun field hfield => ?_
  simp only [asdict, List.mem_cons, List.not_mem_nil, or_false] at hfield
  rcases hfield with rfl | rfl | rfl | rfl | rfl | rfl
  · exact ⟨isText_codes _, pair.remotePath.valid⟩
  · exact ⟨isText_codes _, pair.localPath.valid⟩
  · exact ⟨isText_codes _, pair.name.valid⟩
  · exact ⟨isText_codes _, pair.id.valid⟩
  · exact ⟨isText_codes _, trivial⟩
  · exact ⟨isText_codes _, trivial⟩

theorem reread_asdict (pair : PathPair) : (Json.obj pair.asdict).reread = .obj pair.joined.asdict := by
  rw [Json.reread, rereadFields_eq, Dict.ofList_items (by simp [asdict, joinCodes_codes])]
  simp [asdict, joined, Str.joined, Json.reread, joinCodes_codes]

end PathPair

theorem readStr_str (s : Str) : readStr (.str s.codes) = some s := Str.ofCodes?_codes s

/-- An entry is read as the pair that it was written of, named and checked. -/
theorem readPair_asdict (freshId : Str) (pair : PathPair) : readPair freshId (.obj pair.asdict) =
    match pair.postInit.validate with
    | .error e => .error e.text
    | .ok _ => .ok pair.postInit := by
  obtain ⟨remotePath, localPath, name, pairId, enabled, autoQueue⟩ := pair
  cases hvalid : (PathPair.postInit ⟨remotePath, localPath, name, pairId, enabled, autoQueue⟩).validate with
  | error e =>
    simp only [readPair, PathPair.asdict, lookup_codes, String.reduceEq, ↓reduceIte, List.lookup_cons_self,
      Option.getD_some, readStr_str, Json.get, readBool, hvalid]
  | ok warnings =>
    simp only [readPair, PathPair.asdict, lookup_codes, String.reduceEq, ↓reduceIte, List.lookup_cons_self,
      Option.getD_some, readStr_str, Json.get, readBool, hvalid]

theorem readPairs_asdict {freshId : Nat → Str} {pairs found : List PathPair} {drawn : Nat}
    (h : readPairs freshId drawn (pairs.map fun pair => .obj pair.asdict) = .ok found) :
    found = pairs.map PathPair.postInit := by
  induction pairs generalizing drawn found with
  | nil =>
    cases h
    rfl
  | cons pair pairs ih =>
    obtain ⟨first, hfirst, h⟩ := ok_of_bind h
    obtain ⟨rest, hrest, h⟩ := ok_of_bind h
    cases h
    rw [readPair_asdict] at hfirst
    cases hvalid : pair.postInit.validate with
    | error e =>
      rw [hvalid] at hfirst
      cases hfirst
    | ok warnings =>
      rw [hvalid] at hfirst
      cases hfirst
      rw [ih hrest, List.map_cons]

/-- Pairs that are named and pass their check are read as they are. -/
theorem readPairs_stored (freshId : Nat → Str) (drawn : Nat) {pairs : List PathPair}
    (h : ∀ pair ∈ pairs, pair.name.codes ≠ [] ∧ pair.validate = .ok []) :
    readPairs freshId drawn (pairs.map fun pair => .obj pair.asdict) = .ok pairs := by
  induction pairs generalizing drawn with
  | nil => rfl
  | cons pair pairs ih =>
    obtain ⟨hnamed, hvalid⟩ := h pair List.mem_cons_self
    rw [List.map_cons, readPairs, readPair_asdict, PathPair.postInit_eq hnamed, hvalid]
    change (readPairs freshId (drawn + 1) _ >>= _) = _
    rw [ih (drawn + 1) fun other hother => h other (List.mem_cons_of_mem pair hother)]
    rfl

namespace PathPairCollection

theorem isValue_json (c : PathPairCollection) : c.json.IsValue := by
  refine ⟨isText_codes _, ?_, isText_codes _, ?_, trivial⟩
  · cases c.version <;> exact trivial
  · refine (allValues_iff _).2 fun item hitem => ?_
    obtain ⟨pair, -, rfl⟩ := List.mem_map.1 hitem
    exact pair.isValue_asdict

theorem reread_json (c : PathPairCollection) :
    c.json.reread = .obj [(codes "version", c.version.json),
      (codes "path_pairs", .list (c.pathPairs.map fun pair => .obj pair.joined.asdict))] := by
  have hversion : c.version.json.reread = c.version.json := by cases c.version <;> rfl
  have hitems : (c.pathPairs.map fun pair => Json.obj pair.asdict).map Json.reread =
      c.pathPairs.map fun pair => .obj pair.joined.asdict := by
    rw [List.map_map]
    exact List.map_congr_left fun pair _ => pair.reread_asdict
  rw [json, Json.reread, rereadFields_eq, Dict.ofList_items (by simp [joinCodes_codes])]
  simp only [List.map_cons, List.map_nil, joinCodes_codes, hversion, Json.reread, rereadItems_eq, hitems]

theorem toStr_isText (c : PathPairCollection) : IsText c.toStr := fun code hcode => by
  have := Json.write_small (.indented 2) c.json 0 code hcode
  omega

/-- The text of the file, as a string. -/
def text (c : PathPairCollection) : Str := ⟨c.toStr, c.toStr_isText⟩

theorem readVersion_json (version : Version) : readVersion version.json = some version := by cases version <;> rfl

/-- What is read of the file is read of the joined entries. -/
theorem fromStr_text (env : Env) (c : PathPairCollection) :
    fromStr env c.text =
      (((readPairs env.freshId 0 (c.pathPairs.map fun pair => .obj pair.joined.asdict)).map fun pairs =>
        (⟨pairs, c.version⟩ : PathPairCollection)).mapError fun message =>
          .persist (codes "Invalid path pairs JSON: " ++ message)) := by
  have hloads : loads c.text.codes = some c.json.reread := Json.loads_write (.indented 2) c.json c.isValue_json
  unfold fromStr
  rw [hloads, reread_json]
  have hread : ∀ pairs, readCollection.readVersioned [(codes "version", c.version.json),
      (codes "path_pairs", .list (c.pathPairs.map fun pair => .obj pair.joined.asdict))] pairs =
      .ok ⟨pairs, c.version⟩ := by
    intro pairs
    simp [readCollection.readVersioned, readVersion_json]
  dsimp only
  rw [readCollection, show Json.get [(codes "version", c.version.json),
      (codes "path_pairs", .list (c.pathPairs.map fun pair => .obj pair.joined.asdict))] "path_pairs" =
      .list (c.pathPairs.map fun pair => .obj pair.joined.asdict) by simp [Json.get]]
  dsimp only
  rw [funext hread]
  rfl

/-- A pair that may lie in a file: it passes its check and is read back. -/
def Stored (c : PathPairCollection) : Prop := ∀ pair ∈ c.pathPairs, pair.validate = .ok [] ∧ pair.Faithful

theorem fromStr_stored (env : Env) {c : PathPairCollection} (h : c.Stored) : fromStr env c.text = .ok c := by
  have hsame : (c.pathPairs.map fun pair => Json.obj pair.joined.asdict) = c.pathPairs.map fun pair => .obj pair.asdict :=
    List.map_congr_left fun pair hpair => by rw [(h pair hpair).2.joined]
  rw [fromStr_text, hsame, readPairs_stored env.freshId 0 fun pair hpair => ⟨(h pair hpair).2.named, (h pair hpair).1⟩]
  rfl

/-- Only joined texts are read back. -/
theorem faithful_of_fromStr {env : Env} {c : PathPairCollection} (h : fromStr env c.text = .ok c)
    (hnamed : ∀ pair ∈ c.pathPairs, pair.name.codes ≠ []) : ∀ pair ∈ c.pathPairs, pair.Faithful := by
  rw [fromStr_text] at h
  cases hread : readPairs env.freshId 0 (c.pathPairs.map fun pair => .obj pair.joined.asdict) with
  | error message =>
    rw [hread] at h
    cases h
  | ok found =>
    rw [hread] at h
    have hfound : found = c.pathPairs := congrArg PathPairCollection.pathPairs (Except.ok.inj h)
    rw [show (c.pathPairs.map fun pair => Json.obj pair.joined.asdict) =
      (c.pathPairs.map PathPair.joined).map fun pair => .obj pair.asdict by rw [List.map_map]; rfl] at hread
    have hsame := (readPairs_asdict hread).symm.trans hfound
    rw [List.map_map] at hsame
    intro pair hpair
    have hself := List.map_inj_left.1 (hsame.trans (List.map_id _).symm) pair hpair
    rw [Function.comp_apply, PathPair.postInit_eq (PathPair.joined_named (hnamed pair hpair)), id] at hself
    obtain ⟨hremote, hlocal, hname, hid⟩ := PathPair.joined_eq.1 hself
    exact ⟨hnamed pair hpair, hremote, hlocal, hname, hid⟩

end PathPairCollection

/-! ## One operation -/

namespace PathPairManager

/-- What a request does to a collection when nothing is raised. -/
def Request.Done : Request → PathPairCollection → PathPairCollection → Prop
  | .add pair, c, c' => ∃ warnings, addPair pair c = (.ok warnings, c')
  | .update pair, c, c' => ∃ warnings, updatePair pair c = (.ok warnings, c')
  | .remove pairId, c, c' => removePair pairId c = (.ok (), c')
  | .reorder pairIds, c, c' => reorderPairs pairIds c = (.ok (), c')

/-- The pair that is given is one that a file gives back. -/
def Request.Faithful : Request → Prop
  | .add pair | .update pair => pair.Faithful
  | .remove _ | .reorder _ => True

/-- It raises and changes nothing, or the collection is changed and saved. -/
theorem mutateAndSave_cases {α : Type} (mutation : Mutation α) (failure : Option Codes) (m : PathPairManager) :
    (∃ e, m.mutateAndSave mutation failure = (.error e, m)) ∨
      ∃ result c, mutation m.collection = (.ok result, c) ∧
        m.mutateAndSave mutation failure = (.ok result, ⟨c, some c.toStr⟩) := by
  unfold mutateAndSave
  rcases hmutation : mutation m.collection with ⟨result, c⟩
  cases result with
  | error e => exact Or.inl ⟨e, rfl⟩
  | ok result =>
    cases failure with
    | none => exact Or.inr ⟨result, c, rfl, rfl⟩
    | some reason => exact Or.inl ⟨_, rfl⟩

theorem perform_cases (request : Request) (failure : Option Codes) (m : PathPairManager) :
    (∃ e, m.perform request failure = (.error e, m)) ∨
      ∃ warnings c, request.Done m.collection c ∧ m.perform request failure = (.ok warnings, ⟨c, some c.toStr⟩) := by
  cases request with
  | add pair =>
    rcases m.mutateAndSave_cases (addPair pair) failure with herror | ⟨warnings, c, hdone, hsaved⟩
    · exact Or.inl herror
    · exact Or.inr ⟨warnings, c, ⟨warnings, hdone⟩, hsaved⟩
  | update pair =>
    rcases m.mutateAndSave_cases (updatePair pair) failure with herror | ⟨warnings, c, hdone, hsaved⟩
    · exact Or.inl herror
    · exact Or.inr ⟨warnings, c, ⟨warnings, hdone⟩, hsaved⟩
  | remove pairId =>
    unfold perform withoutWarnings
    dsimp only
    rcases m.mutateAndSave_cases (removePair pairId) failure with ⟨e, herror⟩ | ⟨done, c, hdone, hsaved⟩
    · rw [herror]
      exact Or.inl ⟨e, rfl⟩
    · rw [hsaved]
      exact Or.inr ⟨[], c, hdone, rfl⟩
  | reorder pairIds =>
    unfold perform withoutWarnings
    dsimp only
    rcases m.mutateAndSave_cases (reorderPairs pairIds) failure with ⟨e, herror⟩ | ⟨done, c, hdone, hsaved⟩
    · rw [herror]
      exact Or.inl ⟨e, rfl⟩
    · rw [hsaved]
      exact Or.inr ⟨[], c, hdone, rfl⟩

/-- No id or name twice, and every pair is read back. -/
structure Kept (c : PathPairCollection) : Prop where
  wellFormed : c.WellFormed
  stored : c.Stored

theorem Kept.done {request : Request} {c c' : PathPairCollection} (h : Kept c) (hrequest : request.Faithful)
    (hdone : request.Done c c') : Kept c' := by
  cases request with
  | add pair =>
    obtain ⟨warnings, hdone⟩ := hdone
    have hok : (addPair pair c).1 = .ok warnings := congrArg Prod.fst hdone
    obtain ⟨hvalid, -, -, hnew⟩ := addPair_ok hok
    have hwell := wellFormed_addPair h.wellFormed hok
    rw [hdone] at hnew hwell
    change c' = _ at hnew
    refine ⟨hwell, fun other hother => ?_⟩
    rw [hnew] at hother
    rcases List.mem_append.1 hother with hmem | hmem
    · exact h.stored other hmem
    · rw [List.mem_singleton.1 hmem]
      exact ⟨hvalid, hrequest⟩
  | update pair =>
    obtain ⟨warnings, hdone⟩ := hdone
    have hok : (updatePair pair c).1 = .ok warnings := congrArg Prod.fst hdone
    obtain ⟨hvalid, before, existing, after, hsplit, -, -, hnew⟩ := updatePair_ok hok
    have hwell := wellFormed_updatePair h.wellFormed hok
    rw [hdone] at hnew hwell
    change c' = _ at hnew
    refine ⟨hwell, fun other hother => ?_⟩
    rw [hnew] at hother
    rcases List.mem_append.1 hother with hmem | hmem
    · exact h.stored other (by rw [hsplit]; exact List.mem_append_left _ hmem)
    · rcases List.mem_cons.1 hmem with rfl | hmem
      · exact ⟨hvalid, hrequest⟩
      · exact h.stored other (by rw [hsplit]; exact List.mem_append_right _ (List.mem_cons_of_mem _ hmem))
  | remove pairId =>
    have hok : (removePair pairId c).1 = .ok () := congrArg Prod.fst hdone
    have hnew := removePair_ok hok
    have hwell := wellFormed_removePair h.wellFormed hok
    rw [show removePair pairId c = _ from hdone] at hnew hwell
    change c' = _ at hnew
    refine ⟨hwell, fun other hother => ?_⟩
    rw [hnew] at hother
    exact h.stored other (List.eraseP_sublist.subset hother)
  | reorder pairIds =>
    have hok : (reorderPairs pairIds c).1 = .ok () := congrArg Prod.fst hdone
    obtain ⟨pairs, hperm, hnew⟩ := reorderPairs_ok h.wellFormed hok
    have hwell := wellFormed_reorderPairs h.wellFormed hok
    rw [show reorderPairs pairIds c = _ from hdone] at hnew hwell
    change c' = _ at hnew
    refine ⟨hwell, fun other hother => ?_⟩
    rw [hnew] at hother
    exact h.stored other (hperm.subset hother)

/-! ## Runs -/

/-- The managers that a loaded text and faithful requests lead to, with any of the saves failing. -/
inductive Reachable (env : Env) (content : Str) : PathPairManager → Prop
  | loaded {c : PathPairCollection} {file : Option Codes} (h : fromStr env content = .ok c) : Reachable env content ⟨c, file⟩
  | performed {m : PathPairManager} {request : Request} {failure : Option Codes} (h : Reachable env content m)
      (hrequest : request.Faithful) : Reachable env content (m.perform request failure).2

/-- What one operation keeps: its save included, it raises and changes nothing, or it is read back. -/
structure Sound (m : PathPairManager) (request : Request) (failure : Option Codes) : Prop where
  raised : ∀ e, (m.perform request failure).1 = .error e → (m.perform request failure).2.collection = m.collection
  saved : ∀ warnings, (m.perform request failure).1 = .ok warnings → ∃ text : Str,
    (m.perform request failure).2.file = some text.codes ∧
      ∀ env, fromStr env text = .ok (m.perform request failure).2.collection
  reordered : ∀ pairIds warnings, request = .reorder pairIds → (m.perform request failure).1 = .ok warnings →
    (m.perform request failure).2.collection.pathPairs.Perm m.collection.pathPairs

theorem Kept.perform {m : PathPairManager} (h : Kept m.collection) {request : Request} (hrequest : request.Faithful)
    (failure : Option Codes) : Kept (m.perform request failure).2.collection := by
  rcases m.perform_cases request failure with ⟨e, herror⟩ | ⟨warnings, c, hdone, hsaved⟩
  · rw [herror]
    exact h
  · rw [hsaved]
    exact h.done hrequest hdone

theorem Kept.sound {m : PathPairManager} (h : Kept m.collection) {request : Request} (hrequest : request.Faithful)
    (failure : Option Codes) : Sound m request failure := by
  rcases m.perform_cases request failure with ⟨e, herror⟩ | ⟨warnings, c, hdone, hsaved⟩
  · refine ⟨fun _ _ => by rw [herror], fun _ hok => ?_, fun _ _ _ hok => ?_⟩
    · rw [herror] at hok
      cases hok
    · rw [herror] at hok
      cases hok
  · refine ⟨fun _ hraised => ?_, fun _ _ => ?_, fun pairIds _ hreorder _ => ?_⟩
    · rw [hsaved] at hraised
      cases hraised
    · rw [hsaved]
      exact ⟨c.text, rfl, fun env => fromStr_stored env (h.done hrequest hdone).stored⟩
    · subst hreorder
      have hok : (reorderPairs pairIds m.collection).1 = .ok () := congrArg Prod.fst hdone
      obtain ⟨pairs, hperm, hnew⟩ := reorderPairs_ok h.wellFormed hok
      rw [show reorderPairs pairIds m.collection = _ from hdone] at hnew
      rw [hsaved]
      exact (congrArg pathPairs hnew).symm ▸ hperm

/-! ## What a loaded collection is -/

theorem readPair_ok {freshId : Str} {entry : Json} {pair : PathPair} (h : readPair freshId entry = .ok pair) :
    pair.validate = .ok [] ∧ pair.name.codes ≠ [] := by
  unfold readPair at h
  split at h
  · split at h
    · split at h
      · split at h
        · dsimp only at h
          split at h
          · cases h
          · rename_i warnings hvalid
            cases h
            exact ⟨hvalid.trans (congrArg _ (PathPair.validate_ok hvalid)), PathPair.postInit_name _⟩
        · cases h
      · cases h
    · cases h
  · cases h

theorem readPairs_ok {freshId : Nat → Str} {drawn : Nat} {entries : List Json} {pairs : List PathPair}
    (h : readPairs freshId drawn entries = .ok pairs) : ∀ pair ∈ pairs, pair.validate = .ok [] ∧ pair.name.codes ≠ [] := by
  induction entries generalizing drawn pairs with
  | nil =>
    cases h
    simp
  | cons entry entries ih =>
    obtain ⟨first, hfirst, h⟩ := ok_of_bind h
    obtain ⟨rest, hrest, h⟩ := ok_of_bind h
    cases h
    exact List.forall_mem_cons.2 ⟨readPair_ok hfirst, ih hrest⟩

theorem readVersioned_ok {fields : List (Codes × Json)} {pairs : List PathPair} {c : PathPairCollection}
    (h : readCollection.readVersioned fields pairs = .ok c) : c.pathPairs = pairs := by
  unfold readCollection.readVersioned at h
  split at h
  · cases h
    rfl
  · cases h

/-- Every pair of a loaded collection is named and has passed its check. -/
theorem fromStr_ok {env : Env} {content : Str} {c : PathPairCollection} (h : fromStr env content = .ok c) :
    ∀ pair ∈ c.pathPairs, pair.validate = .ok [] ∧ pair.name.codes ≠ [] := by
  unfold fromStr at h
  dsimp only at h
  split at h
  · cases h
  · rename_i fields _
    unfold readCollection at h
    split at h
    · cases hread : readCollection.readVersioned fields [] with
      | error message =>
        rw [hread] at h
        cases h
      | ok found =>
        rw [hread] at h
        cases h
        rw [readVersioned_ok hread]
        simp
    · rename_i entries _
      cases hpairs : readPairs env.freshId 0 entries with
      | error message =>
        rw [hpairs] at h
        cases h
      | ok pairs =>
        rw [hpairs] at h
        change (readCollection.readVersioned fields pairs).mapError _ = _ at h
        cases hread : readCollection.readVersioned fields pairs with
        | error message =>
          rw [hread] at h
          cases h
        | ok found =>
          rw [hread] at h
          cases h
          rw [readVersioned_ok hread]
          exact readPairs_ok hpairs
    · cases h
  · cases h

theorem Reachable.kept {env : Env} {content : Str} (hcontent : ∀ c, fromStr env content = .ok c → Kept c) {m : PathPairManager}
    (h : Reachable env content m) : Kept m.collection := by
  induction h with
  | loaded h => exact hcontent _ h
  | performed h hrequest ih => exact ih.perform hrequest _

/-- A reordering that changes nothing goes through. -/
theorem perform_reorder_self {m : PathPairManager} (h : m.collection.WellFormed) :
    m.perform (.reorder (m.collection.pathPairs.map PathPair.id)) none =
      (.ok [], ⟨m.collection, some m.collection.toStr⟩) := by
  have hreorder : reorderPairs (m.collection.pathPairs.map PathPair.id) m.collection = (.ok (), m.collection) := by
    unfold reorderPairs
    rw [if_neg (not_not.2 rfl), mapM_pairNamed h]
  unfold perform withoutWarnings mutateAndSave save
  dsimp only
  rw [hreorder]
  rfl

/-- Every run keeps the collection in order just where the loaded one is. -/
theorem runs_wellFormed {env : Env} {content : Str} {c : PathPairCollection} (h : fromStr env content = .ok c) :
    (∀ m, Reachable env content m → m.collection.WellFormed ∧
      ∀ request failure, request.Faithful → Sound m request failure) ↔
      c.WellFormed ∧ ∀ pair ∈ c.pathPairs, pair.Faithful := by
  constructor
  · intro hruns
    obtain ⟨hwell, hsound⟩ := hruns ⟨c, none⟩ (.loaded h)
    refine ⟨hwell, ?_⟩
    have hperformed := @perform_reorder_self ⟨c, none⟩ hwell
    obtain ⟨text, hfile, hread⟩ := (hsound (.reorder (c.pathPairs.map PathPair.id)) none trivial).saved []
      (congrArg Prod.fst hperformed)
    rw [hperformed] at hfile hread
    have htext : text = c.text := by
      have hcodes : c.toStr = text.codes := Option.some.inj hfile
      cases text
      exact Str.mk.injEq .. ▸ hcodes.symm
    rw [htext] at hread
    exact faithful_of_fromStr (hread env) fun pair hpair => (fromStr_ok h pair hpair).2
  · rintro ⟨hwell, hfaithful⟩ m hm
    have hkept : Kept m.collection := hm.kept fun found hfound => by
      obtain rfl := Except.ok.inj (hfound.symm.trans h)
      exact ⟨hwell, fun pair hpair => ⟨(fromStr_ok h pair hpair).1, hfaithful pair hpair⟩⟩
    exact ⟨hkept.wellFormed, fun request failure hrequest => hkept.sound hrequest failure⟩

private def str (text : String) : Str := ⟨codes text, isText_codes text⟩

private def movies : PathPair := ⟨str "/remote/movies", str "/local/movies", str "Movies", str "a", true, true⟩

private def shows : PathPair := ⟨str "/remote/tv", str "/local/tv", str "TV", str "a", true, true⟩

private def someEnv : Env := ⟨fun _ => str "n", fun _ => codes "Expecting value"⟩

private theorem movies_stored : movies.validate = .ok [] ∧ movies.Faithful :=
  ⟨by rfl, by decide, joinCodes_codes _, joinCodes_codes _, joinCodes_codes _, joinCodes_codes _⟩

private theorem shows_stored : shows.validate = .ok [] ∧ shows.Faithful :=
  ⟨by rfl, by decide, joinCodes_codes _, joinCodes_codes _, joinCodes_codes _, joinCodes_codes _⟩

/-- The file of one pair is read, and kept in order. -/
theorem movies_wellFormed :
    fromStr someEnv (PathPairCollection.text ⟨[movies], .int 1⟩) = .ok ⟨[movies], .int 1⟩ ∧
      ∀ m, Reachable someEnv (PathPairCollection.text ⟨[movies], .int 1⟩) m → m.collection.WellFormed := by
  have hread := fromStr_stored someEnv (c := ⟨[movies], .int 1⟩) fun pair hpair =>
    List.mem_singleton.1 hpair ▸ movies_stored
  refine ⟨hread, fun m hm => ((runs_wellFormed hread).2 ⟨⟨by simp, by simp⟩, fun pair hpair => ?_⟩ m hm).1⟩
  exact List.mem_singleton.1 hpair ▸ movies_stored.2

/-- A file with one id twice is loaded, and a reordering loses one of its pairs. -/
theorem sameId_loaded :
    fromStr someEnv (PathPairCollection.text ⟨[movies, shows], .int 1⟩) = .ok ⟨[movies, shows], .int 1⟩ ∧
      (PathPairManager.perform (.reorder [str "a", str "a"]) none ⟨⟨[movies, shows], .int 1⟩, none⟩).2.collection.pathPairs =
        [shows, shows] ∧
      ¬ ∀ m, Reachable someEnv (PathPairCollection.text ⟨[movies, shows], .int 1⟩) m → m.collection.WellFormed ∧
        ∀ request failure, request.Faithful → Sound m request failure := by
  have hread := fromStr_stored someEnv (c := ⟨[movies, shows], .int 1⟩) fun pair hpair => by
    rcases List.mem_cons.1 hpair with rfl | hpair
    · exact movies_stored
    · exact List.mem_singleton.1 hpair ▸ shows_stored
  refine ⟨hread, by decide +kernel, fun hall => ?_⟩
  have hids := (hall ⟨⟨[movies, shows], .int 1⟩, none⟩ (.loaded hread)).1.ids
  revert hids
  decide +kernel

end PathPairManager

end SeedSync.PathPairs
