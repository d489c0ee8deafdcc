import SeedSync.Lib.Fold
import SeedSync.Remote.Consumer

/-!
# What a stream can publish

Whatever the lines of a stream are, the decoder takes each record only where its turn is, and what
it has published and decoded agree with each other and with the manifest.
-/

namespace SeedSync.Remote

open Lib

/-! ## The order of the records -/

inductive Phase where
  | start
  /-- The manifest is open. -/
  | collecting
  /-- Between two framed roots. -/
  | listed
  | inRoot
  /-- Roots come in whole batches. -/
  | batches
  | complete
  deriving DecidableEq, Repr

/-- The phase after a record, where its turn is. -/
def Phase.next : Phase → RecordType → Option Phase
  | .start, .manifest => some .batches
  | .start, .manifestBegin => some .collecting
  | .collecting, .manifestNames => some .collecting
  | .collecting, .manifestEnd => some .listed
  | .listed, .rootBegin => some .inRoot
  | .listed, .rootUnchanged => some .listed
  | .listed, .complete => some .complete
  | .inRoot, .rootNode => some .inRoot
  | .inRoot, .rootNodes => some .inRoot
  | .inRoot, .rootEnd => some .listed
  | .batches, .roots => some .batches
  | .batches, .complete => some .complete
  | _, _ => none

/-- The marks that the state carries in a phase. -/
structure Marks where
  dialect : Option Dialect
  manifest : Bool := true
  collecting : Bool := false
  inRoot : Bool := false
  complete : Bool := false
  deriving DecidableEq

def StreamState.marks (s : StreamState) : Marks where
  dialect := s.dialect
  manifest := s.manifest
  collecting := s.manifestCollecting
  inRoot := s.currentRoot.isSome
  complete := s.complete

def Phase.Allows : Phase → Marks → Prop
  | .start, m => m = { dialect := none, manifest := false }
  | .collecting, m => m = { dialect := some .framed, manifest := false, collecting := true }
  | .listed, m => m = { dialect := some .framed }
  | .inRoot, m => m = { dialect := some .framed, inRoot := true }
  | .batches, m => m = { dialect := some .legacy }
  | .complete, m => ∃ dialect, m = { dialect, complete := true }

/-! ## The account -/

/-- The markers of unchanged roots, published or not. -/
def StreamState.unchanged (s : StreamState) : List (Codes × Codes) :=
  s.published.flatMap Progress.unchanged ++ s.pendingUnchanged

/-- A root that is not complete yet. -/
structure OpenRoot (s : StreamState) (current : CurrentRoot) : Prop where
  sound : Sound (fun a : WireAttrs => a.isDir) current.stack
  count : countStack current.stack = current.nodeCount
  named : ∀ attrs ∈ rootValue current.stack, attrs.name = .str current.name
  listed : current.name ∈ s.manifestNames
  fresh : current.name ∉ s.emittedRootNames

/-- What was decoded, what was published and what was listed agree. -/
structure Accounted (s : StreamState) : Prop where
  unlisted : s.dialect = none → s.manifestNames = []
  manifestNodup : s.manifestNames.Nodup
  names : ∃ names, s.files.map (fun root => root.value.name) = names.map .str ∧
    (names ++ s.unchanged.map Prod.fst).Perm s.emittedRootNames
  nodup : s.emittedRootNames.Nodup
  listed : ∀ name ∈ s.emittedRootNames, name ∈ s.manifestNames
  published : s.published.flatMap Progress.files ++ s.pendingRoots = s.files
  provisional : ∀ progress ∈ s.published, progress.complete = false
  unframed : s.dialect = some .framed ∨ s.pendingRoots = []
  parents : ∀ root ∈ s.files, root.ParentsOnly fun a : WireAttrs => a.isDir = true
  counts : s.dialect = some .legacy ∨ s.files.map (fun root => (root.count : Int)) = s.declaredNodes
  openRoot : ∀ current ∈ s.currentRoot, OpenRoot s current

/-- The state in a phase, with some record seen. -/
structure Good (p : Phase) (s : StreamState) : Prop where
  seen : s.sawPrefix = true
  phase : p.Allows s.marks
  account : Accounted s

/-- The state in a phase, perhaps before the first record. -/
structure Reached (p : Phase) (s : StreamState) : Prop where
  seen : s.sawPrefix = true ∨ s = {}
  phase : p.Allows s.marks
  account : Accounted s

theorem Good.reached {p : Phase} {s : StreamState} (h : Good p s) : Reached p s := ⟨Or.inl h.seen, h.phase, h.account⟩

theorem reached_empty : Reached .start {} where
  seen := Or.inr rfl
  phase := rfl
  account :=
    ⟨fun _ => rfl, List.nodup_nil, ⟨[], rfl, List.Perm.refl _⟩, List.nodup_nil, by simp, rfl, by simp, Or.inr rfl, by simp,
      Or.inr rfl, by simp⟩

/-- A record keeps the account, and comes in its turn when it is taken. -/
def Keeps (type : RecordType) (m : Decode Unit) : Prop :=
  ∀ p, p ≠ .complete → Triple (Good p) m (fun _ s => ∃ q, p.next type = some q ∧ Good q s) (Good p)

theorem no_open_root {root : Option CurrentRoot} {P : CurrentRoot → Prop} (h : root.isSome = false) :
    ∀ current ∈ root, P current := by
  cases root with
  | none => simp
  | some current => cases h

theorem Reached.reading {p : Phase} {s : StreamState} (h : Reached p s) : Good p { s with sawPrefix := true } :=
  ⟨rfl, h.phase, { h.account with
    openRoot := fun current hcurrent => { h.account.openRoot current hcurrent with } }⟩

/-- A call that carries no roots and no markers. -/
theorem Accounted.note {s : StreamState} (h : Accounted s) (names : List Json) :
    Accounted { s with published := s.published ++ [{ manifestNames := some names }] } where
  unlisted := h.unlisted
  manifestNodup := h.manifestNodup
  names := by
    simp only [StreamState.unchanged, List.flatMap_append, List.flatMap_singleton, List.append_nil]
    exact h.names
  nodup := h.nodup
  listed := h.listed
  published := by
    rw [List.flatMap_append, List.flatMap_singleton, List.append_nil]
    exact h.published
  provisional := by
    intro progress hprogress
    rcases List.mem_append.mp hprogress with hprogress | hprogress
    · exact h.provisional progress hprogress
    · rw [List.mem_singleton.mp hprogress]
  unframed := h.unframed
  parents := h.parents
  counts := h.counts
  openRoot := fun current hcurrent => { h.openRoot current hcurrent with }

theorem files_rootCalls (roots : List WireFile) : (rootCalls roots).flatMap Progress.files = roots := by
  cases roots <;> simp [rootCalls]

theorem unchanged_rootCalls (roots : List WireFile) : (rootCalls roots).flatMap Progress.unchanged = [] := by
  cases roots <;> simp [rootCalls]

theorem files_unchangedCalls (marks : List (Codes × Codes)) : (unchangedCalls marks).flatMap Progress.files = [] := by
  cases marks <;> simp [unchangedCalls]

theorem unchanged_unchangedCalls (marks : List (Codes × Codes)) :
    (unchangedCalls marks).flatMap Progress.unchanged = marks := by
  cases marks <;> simp [unchangedCalls]

/-- What waits is published. -/
theorem Accounted.flushRoots {s : StreamState} (h : Accounted s) (startedAt : Option Int) :
    Accounted { s with
      pendingRoots := [], pendingRootsStartedAt := startedAt, published := s.published ++ rootCalls s.pendingRoots } where
  unlisted := h.unlisted
  manifestNodup := h.manifestNodup
  names := by
    simp only [StreamState.unchanged, List.flatMap_append, unchanged_rootCalls, List.append_nil]
    exact h.names
  nodup := h.nodup
  listed := h.listed
  published := by
    rw [List.flatMap_append, files_rootCalls, List.append_nil]
    exact h.published
  provisional := by
    intro progress hprogress
    rcases List.mem_append.mp hprogress with hprogress | hprogress
    · exact h.provisional progress hprogress
    · unfold rootCalls at hprogress
      split_ifs at hprogress
      · cases hprogress
      · rw [List.mem_singleton.mp hprogress]
  unframed := Or.inr rfl
  parents := h.parents
  counts := h.counts
  openRoot := fun current hcurrent => { h.openRoot current hcurrent with }

/-! ## The manifest -/

theorem keeps_manifest (fields : List (Codes × Json)) : Keeps .manifest (decodeManifest fields) := by
  intro p hp
  unfold decodeManifest
  split
  · exact Triple.throw fun _ hs => hs
  · rename_i names _
    refine Triple.get_bind fun s hs => Triple.guard (fun _ _ h => h ▸ hs) fun hdue => ?_
    simp only [not_or, not_not] at hdue
    obtain ⟨hdialect, hmanifest, hcollecting, hnodup⟩ := hdue
    have hphase := hs.phase
    have hstart : p = .start := by
      cases p <;> simp_all [Phase.Allows, StreamState.marks]
    subst hstart
    simp only [Phase.Allows, StreamState.marks, Marks.mk.injEq] at hphase
    obtain ⟨hnone, -, -, hroot, hopen⟩ := hphase
    have hempty := hs.account.unlisted hnone
    refine Triple.set_bind (Triple.modify ?_)
    rintro _ rfl
    refine ⟨.batches, rfl, hs.seen, by simp_all [Phase.Allows, StreamState.marks], Accounted.note (s := { s with
      dialect := some .legacy, manifest := true, manifestNames := s.manifestNames ++ names }) ?_ _⟩
    refine { hs.account with unlisted := ?_, manifestNodup := ?_, listed := ?_, unframed := ?_, counts := ?_, openRoot := ?_ }
    · rintro ⟨⟩
    · rw [hempty]
      exact hnodup
    · exact fun name hname => List.mem_append_left _ (hs.account.listed name hname)
    · exact Or.inr (hs.account.unframed.resolve_left (by simp [hnone]))
    · exact Or.inl rfl
    · exact no_open_root hroot

theorem keeps_manifestBegin (fields : List (Codes × Json)) : Keeps .manifestBegin (decodeManifestBegin fields) := by
  intro p hp
  unfold decodeManifestBegin
  refine Triple.get_bind fun s hs => ?_
  split
  · rename_i count _
    refine Triple.guard (fun _ _ h => h ▸ hs) fun hdue => ?_
    simp only [not_or] at hdue
    obtain ⟨-, hdialect, hmanifest, hcollecting⟩ := hdue
    have hphase := hs.phase
    have hstart : p = .start := by
      cases p <;> simp_all [Phase.Allows, StreamState.marks]
    subst hstart
    simp only [Phase.Allows, StreamState.marks, Marks.mk.injEq] at hphase
    obtain ⟨hnone, -, -, hroot, hopen⟩ := hphase
    refine Triple.set fun _ _ => ⟨.collecting, rfl, hs.seen, by simp_all [Phase.Allows, StreamState.marks], ?_⟩
    refine { hs.account with unlisted := ?_, unframed := ?_, counts := ?_, openRoot := ?_ }
    · rintro ⟨⟩
    · exact Or.inl rfl
    · exact Or.inr (hs.account.counts.resolve_left (by simp [hnone]))
    · exact no_open_root hroot
  · exact Triple.throw fun _ h => h ▸ hs

theorem keeps_manifestNames (fields : List (Codes × Json)) : Keeps .manifestNames (decodeManifestNames fields) := by
  intro p hp
  unfold decodeManifestNames
  refine Triple.get_bind fun s hs => ?_
  split
  · exact Triple.throw fun _ h => h ▸ hs
  · rename_i names _
    refine Triple.guard (fun _ _ h => h ▸ hs) fun hdue => Triple.guard (fun _ _ h => h ▸ hs) fun hnames => ?_
    simp only [not_or, not_not] at hdue hnames
    obtain ⟨hdialect, hcollecting⟩ := hdue
    obtain ⟨-, hnodup, hfresh⟩ := hnames
    have hphase := hs.phase
    have hstart : p = .collecting := by
      cases p <;> simp_all [Phase.Allows, StreamState.marks]
    subst hstart
    simp only [Phase.Allows, StreamState.marks, Marks.mk.injEq] at hphase
    obtain ⟨-, -, -, hroot, -⟩ := hphase
    refine Triple.set fun _ _ => ⟨.collecting, rfl, hs.seen, hs.phase, ?_⟩
    refine { hs.account with unlisted := ?_, manifestNodup := ?_, listed := ?_, openRoot := ?_ }
    · intro hnone
      rw [hdialect] at hnone
      cases hnone
    · exact List.nodup_append.mpr ⟨hs.account.manifestNodup, hnodup, fun old hold new hnew heq =>
        hfresh ⟨new, hnew, heq ▸ hold⟩⟩
    · exact fun name hname => List.mem_append_left _ (hs.account.listed name hname)
    · exact no_open_root hroot

theorem keeps_manifestEnd : Keeps .manifestEnd decodeManifestEnd := by
  intro p hp
  unfold decodeManifestEnd
  refine Triple.get_bind fun s hs => Triple.guard (fun _ _ h => h ▸ hs) fun hdue => ?_
  simp only [not_or, not_not] at hdue
  obtain ⟨hdialect, hcollecting, -⟩ := hdue
  have hphase := hs.phase
  have hstart : p = .collecting := by
    cases p <;> simp_all [Phase.Allows, StreamState.marks]
  subst hstart
  simp only [Phase.Allows, StreamState.marks, Marks.mk.injEq] at hphase
  obtain ⟨-, -, -, hroot, hopen⟩ := hphase
  refine Triple.set_bind (Triple.modify ?_)
  rintro _ rfl
  refine ⟨.listed, rfl, hs.seen, by simp_all [Phase.Allows, StreamState.marks], Accounted.note (s := { s with
    manifestCollecting := false, manifest := true }) ?_ _⟩
  exact { hs.account with openRoot := fun current hcurrent => { hs.account.openRoot current hcurrent with } }

/-! ## Whole batches -/

section

variable {fromisoformat : Codes → Option Timestamp}

mutual
/-- `from_dict` gives children to directories only. -/
theorem fromDict_parents (data : Json) {root : WireFile} (h : fromDict fromisoformat data = .ok root) :
    root.ParentsOnly fun a : WireAttrs => a.isDir = true := by
  cases data with
  | obj fields =>
    rw [fromDict] at h
    obtain ⟨attrs, -, h⟩ := ok_of_bind h
    obtain ⟨children, hchildren, h⟩ := ok_of_bind h
    cases h
    exact fromChildren_parents attrs.isDir fields hchildren
  | _ => cases h

theorem fromChildren_parents (isDir : Bool) (fields : List (Codes × Json)) {children : List WireFile}
    (h : fromChildren fromisoformat isDir fields = .ok children) :
    (children ≠ [] → isDir = true) ∧ Rose.AllParentsOnly (fun a : WireAttrs => a.isDir = true) children := by
  match fields with
  | [] =>
    cases h
    exact ⟨fun h => absurd rfl h, True.intro⟩
  | (key, value) :: fields =>
    rw [fromChildren] at h
    split_ifs at h
    · exact fromIterable_parents isDir value h
    · exact fromChildren_parents isDir fields h

theorem fromIterable_parents (isDir : Bool) (value : Json) {children : List WireFile}
    (h : fromIterable fromisoformat isDir value = .ok children) :
    (children ≠ [] → isDir = true) ∧ Rose.AllParentsOnly (fun a : WireAttrs => a.isDir = true) children := by
  cases value with
  | list items => exact fromDicts_parents isDir items h
  | str value =>
    rw [fromIterable] at h
    split_ifs at h
    cases h
    exact ⟨fun h => absurd rfl h, True.intro⟩
  | obj fields =>
    rw [fromIterable] at h
    split_ifs at h
    cases h
    exact ⟨fun h => absurd rfl h, True.intro⟩
  | _ => cases h

theorem fromDicts_parents (isDir : Bool) (items : List Json) {children : List WireFile}
    (h : fromDicts fromisoformat isDir items = .ok children) :
    (children ≠ [] → isDir = true) ∧ Rose.AllParentsOnly (fun a : WireAttrs => a.isDir = true) children := by
  match items with
  | [] =>
    cases h
    exact ⟨fun h => absurd rfl h, True.intro⟩
  | item :: items =>
    rw [fromDicts] at h
    obtain ⟨child, hchild, h⟩ := ok_of_bind h
    cases isDir with
    | false => cases h
    | true =>
      obtain ⟨rest, hrest, h⟩ := ok_of_bind h
      cases h
      exact ⟨fun _ => rfl, fromDict_parents item hchild, (fromDicts_parents true items hrest).2⟩
end

theorem mapM_fromDict_parents {data : List Json} {batch : List WireFile} (h : data.mapM (fromDict fromisoformat) = .ok batch) :
    ∀ root ∈ batch, root.ParentsOnly fun a : WireAttrs => a.isDir = true := by
  induction data generalizing batch with
  | nil =>
    cases h
    simp
  | cons item data ih =>
    rw [List.mapM_cons] at h
    obtain ⟨first, hfirst, h⟩ := ok_of_bind h
    obtain ⟨rest, hrest, h⟩ := ok_of_bind h
    cases h
    intro root hroot
    rcases List.mem_cons.mp hroot with rfl | hroot
    · exact fromDict_parents item hfirst
    · exact ih hrest root hroot

theorem batchNames_eq {batch : List WireFile} {names : List Codes} (h : batchNames batch = some names) :
    batch.map (fun root => root.value.name) = names.map .str := by
  unfold batchNames at h
  induction batch generalizing names with
  | nil =>
    cases h
    rfl
  | cons root batch ih =>
    rw [List.mapM_cons] at h
    obtain ⟨name, hname, h⟩ := Option.bind_eq_some_iff.mp h
    obtain ⟨rest, hrest, h⟩ := Option.bind_eq_some_iff.mp h
    cases h
    rw [List.map_cons, List.map_cons, ih hrest]
    congr 1
    split at hname
    · cases hname
      assumption
    · cases hname

/-- Roots that were not there before. -/
theorem Accounted.addBatch {s : StreamState} (h : Accounted s) (hlegacy : s.dialect = some .legacy) {batch : List WireFile}
    {names : List Codes} (hnames : batch.map (fun root => root.value.name) = names.map .str) (hnodup : names.Nodup)
    (hfresh : ∀ name ∈ names, name ∈ s.manifestNames ∧ name ∉ s.emittedRootNames)
    (hparents : ∀ root ∈ batch, root.ParentsOnly fun a : WireAttrs => a.isDir = true) (hroot : s.currentRoot.isSome = false) :
    Accounted { s with
      files := s.files ++ batch, emittedRootNames := s.emittedRootNames ++ names,
      published := s.published ++ [{ files := batch }] } where
  unlisted := h.unlisted
  manifestNodup := h.manifestNodup
  names := by
    obtain ⟨before, hbefore, hperm⟩ := h.names
    refine ⟨before ++ names, by rw [List.map_append, List.map_append, hbefore, hnames], ?_⟩
    simp only [StreamState.unchanged, List.flatMap_append, List.flatMap_singleton, List.append_nil] at hperm ⊢
    rw [List.append_assoc]
    refine (List.Perm.append_left before List.perm_append_comm).trans ?_
    rw [← List.append_assoc]
    exact hperm.append_right names
  nodup := List.nodup_append.mpr ⟨h.nodup, hnodup, fun old hold new hnew heq => (hfresh new hnew).2 (heq ▸ hold)⟩
  listed := by
    intro name hname
    rcases List.mem_append.mp hname with hname | hname
    · exact h.listed name hname
    · exact (hfresh name hname).1
  published := by
    have hnone := h.unframed.resolve_left (by simp [hlegacy])
    have hpublished := h.published
    rw [hnone, List.append_nil] at hpublished
    rw [List.flatMap_append, List.flatMap_singleton, hpublished, hnone, List.append_nil]
  provisional := by
    intro progress hprogress
    rcases List.mem_append.mp hprogress with hprogress | hprogress
    · exact h.provisional progress hprogress
    · rw [List.mem_singleton.mp hprogress]
  unframed := h.unframed
  parents := by
    intro root hroot
    rcases List.mem_append.mp hroot with hroot | hroot
    · exact h.parents root hroot
    · exact hparents root hroot
  counts := Or.inl hlegacy
  openRoot := no_open_root hroot

theorem keeps_roots (fields : List (Codes × Json)) : Keeps .roots (decodeRoots fromisoformat fields) := by
  intro p hp
  unfold decodeRoots
  refine Triple.get_bind fun s hs => Triple.guard (fun _ _ h => h ▸ hs) fun hdue => ?_
  simp only [not_or, not_not] at hdue
  obtain ⟨hdialect, hmanifest, hcollecting⟩ := hdue
  have hphase := hs.phase
  have hstart : p = .batches := by
    cases p <;> simp_all [Phase.Allows, StreamState.marks]
  subst hstart
  simp only [Phase.Allows, StreamState.marks, Marks.mk.injEq] at hphase
  obtain ⟨-, -, -, hroot, -⟩ := hphase
  split
  · rename_i data _
    refine Triple.bind (Q := fun batch s' => s' = s ∧ data.mapM (fromDict fromisoformat) = .ok batch)
      (Triple.lift (fun batch hbatch s' h => ⟨h, hbatch⟩) fun _ _ _ h => h ▸ hs) fun batch => ?_
    rintro s' ⟨rfl, hbatch⟩
    suffices h : Triple (fun s => s = s') _ _ _ from h s' rfl
    split
    · exact Triple.throw fun _ h => h ▸ hs
    · rename_i names hnames
      refine Triple.guard (fun _ _ h => h ▸ hs) fun hfresh => ?_
      simp only [not_or, not_not, not_exists, not_and] at hfresh
      refine Triple.set_bind (Triple.modify ?_)
      rintro _ rfl
      exact ⟨.batches, rfl, hs.seen, hs.phase, hs.account.addBatch hdialect (batchNames_eq hnames) hfresh.1
        (fun name hname => ⟨(hfresh.2 name hname).1, (hfresh.2 name hname).2⟩) (mapM_fromDict_parents hbatch) hroot⟩
  · exact Triple.throw fun _ h => h ▸ hs

/-! ## Framed roots -/

/-- Where a root may come, the stream is between two roots. -/
theorem listed_of_admitsRoot {p : Phase} {s : StreamState} (hp : p ≠ .complete) (hs : Good p s) {name : Codes}
    (h : admitsRoot s name) : p = .listed := by
  obtain ⟨hdialect, hmanifest, hcollecting, hroot, -⟩ := h
  have hphase := hs.phase
  cases p <;> simp_all [Phase.Allows, StreamState.marks]

theorem keeps_rootBegin (fields : List (Codes × Json)) : Keeps .rootBegin (decodeRootBegin fields) := by
  intro p hp
  unfold decodeRootBegin
  refine Triple.get_bind fun s hs => ?_
  split
  · rename_i rootId name _ _
    refine Triple.guard (fun _ _ h => h ▸ hs) fun hdue => ?_
    simp only [not_or, not_not] at hdue
    have hadmits := hdue.2
    cases listed_of_admitsRoot hp hs hadmits
    refine Triple.set fun _ _ => ⟨.inRoot, rfl, hs.seen, ?_, ?_⟩
    · have hphase := hs.phase
      simp_all [Phase.Allows, StreamState.marks]
    · refine { hs.account with openRoot := ?_ }
      rintro current ⟨⟩
      exact ⟨⟨by simp, by simp⟩, rfl, by simp [rootValue], hadmits.2.2.2.2.1, hadmits.2.2.2.2.2⟩
  · exact Triple.throw fun _ h => h ▸ hs

/-- One more node in the open root. -/
theorem OpenRoot.place {s : StreamState} {current : CurrentRoot} (h : OpenRoot s current) {item : Item WireAttrs}
    {stack : Opened WireAttrs} (hplace : Lib.place (fun a : WireAttrs => a.isDir) current.stack item = some stack)
    (hname : current.stack = [] → hasName item.value current.name = true) :
    OpenRoot s { current with stack, nextNodeId := current.nextNodeId + 1, nodeCount := current.nodeCount + 1 } where
  sound := (place_sound h.sound hplace).1
  count := by rw [(place_sound h.sound hplace).2, h.count]
  named := by
    intro attrs hattrs
    rw [rootValue_place hplace] at hattrs
    split_ifs at hattrs with hempty
    · cases hattrs
      have hnamed := hname hempty
      unfold hasName at hnamed
      split at hnamed
      · rename_i value hvalue
        rw [hvalue, beq_iff_eq.mp hnamed]
      · cases hnamed
    · exact h.named attrs hattrs
  listed := h.listed
  fresh := h.fresh

theorem framedRootNode_good (p : Phase) (rootId nodeId parentId data : Json) :
    Triple (Good p) (decodeFramedRootNode fromisoformat rootId nodeId parentId data)
      (fun _ s => p = .inRoot ∧ Good p s) (Good p) := by
  unfold decodeFramedRootNode
  refine Triple.get_bind fun s hs => ?_
  split
  · rename_i current hdialect hcurrent
    split
    · rename_i id parent fields _
      refine Triple.guard (fun _ _ h => h ▸ hs) fun _ => Triple.bind (Q := fun _ s' => s' = s)
        (Triple.lift (fun _ _ _ h => h) fun _ _ _ h => h ▸ hs) fun attrs => ?_
      refine Triple.guard (fun _ _ h => h ▸ hs) fun hname => Triple.guard (fun _ _ h => h ▸ hs) fun _ => ?_
      split
      · exact Triple.throw fun _ h => h ▸ hs
      · rename_i stack hplace
        have hphase := hs.phase
        have hroot : p = .inRoot := by
          cases p <;> simp_all [Phase.Allows, StreamState.marks]
        subst hroot
        refine Triple.set fun _ _ => ⟨rfl, hs.seen, ?_, { hs.account with openRoot := ?_ }⟩
        · simp_all [Phase.Allows, StreamState.marks]
        · rintro current' ⟨⟩
          have hopen := (hs.account.openRoot current hcurrent).place hplace fun hempty => by
            simp only [hempty, List.isEmpty_nil, true_and, not_or, not_not] at hname
            exact hname.2
          exact { hopen with }
    · exact Triple.throw fun _ h => h ▸ hs
  · exact Triple.throw fun _ h => h ▸ hs

theorem keeps_rootNode (rootId nodeId parentId data : Json) :
    Keeps .rootNode (decodeFramedRootNode fromisoformat rootId nodeId parentId data) := by
  intro p _
  refine (framedRootNode_good p rootId nodeId parentId data).conseq (fun _ h => h) ?_ fun _ h => h
  rintro _ s ⟨rfl, hs⟩
  exact ⟨.inRoot, rfl, hs⟩

theorem nodeRecords_good (p : Phase) (rootId : Json) (nodes : List Json) (hne : nodes ≠ []) :
    Triple (Good p) (nodes.forM (decodeNodeRecord fromisoformat rootId)) (fun _ s => p = .inRoot ∧ Good p s) (Good p) := by
  have hnode : ∀ node, Triple (Good p) (decodeNodeRecord fromisoformat rootId node) (fun _ s => p = .inRoot ∧ Good p s)
      (Good p) := by
    intro node
    unfold decodeNodeRecord
    split
    · exact framedRootNode_good p _ _ _ _
    · exact Triple.throw fun _ h => h
  induction nodes with
  | nil => exact absurd rfl hne
  | cons node nodes ih =>
    refine Triple.bind (hnode node) fun _ => ?_
    by_cases hlast : nodes = []
    · subst hlast
      exact Triple.pure fun _ h => h
    · exact (ih hlast).conseq (fun _ h => h.2) (fun _ _ h => h) fun _ h => h

theorem keeps_rootNodes (fields : List (Codes × Json)) : Keeps .rootNodes (decodeRootNodes fromisoformat fields) := by
  intro p _
  unfold decodeRootNodes
  split
  · rename_i rootId nodes _ _
    refine Triple.guard (fun _ _ h => h) fun hbatch => ?_
    simp only [not_or, List.isEmpty_iff] at hbatch
    refine (nodeRecords_good p (.int rootId) nodes hbatch.1).conseq (fun _ h => h) ?_ fun _ h => h
    rintro _ s ⟨rfl, hs⟩
    exact ⟨.inRoot, rfl, hs⟩
  · exact Triple.throw fun _ h => h

/-- A root that is complete. -/
theorem Accounted.endRoot {s : StreamState} (h : Accounted s) {current : CurrentRoot} (hcurrent : s.currentRoot = some current)
    (hdialect : s.dialect = some .framed) {root : WireFile} (hclose : closeAll none current.stack = some root)
    (completedAt : Int) : Accounted ((s.completeRoot root current.nodeCount completedAt).leaveRoot current.name) := by
  have hopen := h.openRoot current hcurrent
  have hne : current.stack ≠ [] := by
    rintro hempty
    rw [hempty] at hclose
    cases hclose
  have hname : root.value.name = .str current.name := by
    obtain ⟨last, hlast⟩ := List.getLast?_isSome.mpr hne |> Option.isSome_iff_exists.mp
    have hvalue : rootValue current.stack = some last.2.value := by rw [rootValue, hlast]; rfl
    rw [closeAll_value hvalue hclose]
    exact hopen.named _ hvalue
  have hcount : root.count = current.nodeCount := by
    rw [closeAll_count hclose, hopen.count]
    rfl
  refine { h with names := ?_, nodup := ?_, listed := ?_, published := ?_, unframed := ?_, parents := ?_, counts := ?_, openRoot := ?_ }
  · obtain ⟨before, hbefore, hperm⟩ := h.names
    refine ⟨before ++ [current.name], ?_, ?_⟩
    · simp [StreamState.completeRoot, StreamState.leaveRoot, hbefore, hname]
    · have hunchanged : ((s.completeRoot root current.nodeCount completedAt).leaveRoot current.name).unchanged =
          s.unchanged := rfl
      rw [hunchanged, List.append_assoc]
      refine (List.Perm.append_left before List.perm_append_comm).trans ?_
      rw [← List.append_assoc]
      exact hperm.append_right _
  · exact List.nodup_append.mpr ⟨h.nodup, List.nodup_singleton _, fun old hold new hnew heq => by
      rw [List.mem_singleton.mp hnew] at heq
      exact hopen.fresh (heq ▸ hold)⟩
  · intro name hname
    rcases List.mem_append.mp hname with hname | hname
    · exact h.listed name hname
    · rw [List.mem_singleton.mp hname]
      exact hopen.listed
  · simp only [StreamState.completeRoot, StreamState.leaveRoot]
    rw [← List.append_assoc, h.published]
  · exact Or.inl hdialect
  · intro r hr
    rcases List.mem_append.mp hr with hr | hr
    · exact h.parents r hr
    · rw [List.mem_singleton.mp hr]
      exact hopen.sound.closeAll (by simp) hclose
  · refine Or.inr ?_
    have hcounts := h.counts.resolve_left (by simp [hdialect])
    simp [StreamState.completeRoot, StreamState.leaveRoot, hcounts, hcount]
  · rintro current' ⟨⟩

theorem keeps_rootEnd (monotonic : Nat → Int) (fields : List (Codes × Json)) :
    Keeps .rootEnd (decodeRootEnd monotonic fields) := by
  intro p hp
  unfold decodeRootEnd
  refine Triple.get_bind fun s hs => ?_
  split
  · rename_i current nodeCount hdialect hcurrent _
    split
    · exact Triple.throw fun _ h => h ▸ hs
    · rename_i root hclose
      refine Triple.guard (fun _ _ h => h ▸ hs) fun hdue => ?_
      simp only [not_or, not_not] at hdue
      have hphase := hs.phase
      have hroot : p = .inRoot := by
        cases p <;> simp_all [Phase.Allows, StreamState.marks]
      subst hroot
      rw [hdue.2]
      have hended := hs.account.endRoot hcurrent hdialect hclose (monotonic s.nextRootId)
      refine Triple.set_bind ?_
      rintro _ rfl
      rw [run_get_bind]
      split_ifs
      · obtain ⟨startedAt, hflush⟩ :=
          flushPendingRootProgress_run (s.completeRoot root current.nodeCount (monotonic s.nextRootId))
        rw [run_bind_of_ok hflush]
        refine ⟨.listed, rfl, hs.seen, ?_, hended.flushRoots startedAt⟩
        simp_all [Phase.Allows, StreamState.marks, StreamState.leaveRoot, StreamState.completeRoot]
      · refine ⟨.listed, rfl, hs.seen, ?_, hended⟩
        simp_all [Phase.Allows, StreamState.marks, StreamState.leaveRoot, StreamState.completeRoot]
  · exact Triple.throw fun _ h => h ▸ hs

theorem keeps_rootUnchanged (fields : List (Codes × Json)) : Keeps .rootUnchanged (decodeRootUnchanged fields) := by
  intro p hp
  unfold decodeRootUnchanged
  refine Triple.get_bind fun s hs => ?_
  split
  · rename_i name fingerprint _ _
    refine Triple.guard (fun _ _ h => h ▸ hs) fun hdue => ?_
    simp only [not_or, not_not] at hdue
    have hadmits := hdue.2
    cases listed_of_admitsRoot hp hs hadmits
    obtain ⟨-, -, -, hroot, hlisted, hfresh⟩ := hadmits
    refine Triple.set fun _ _ => ⟨.listed, rfl, hs.seen, hs.phase, ?_⟩
    refine { hs.account with names := ?_, nodup := ?_, listed := ?_, openRoot := ?_ }
    · obtain ⟨names, hnames, hperm⟩ := hs.account.names
      refine ⟨names, hnames, ?_⟩
      simp only [StreamState.unchanged, ← List.append_assoc, List.map_append, List.map_singleton] at hperm ⊢
      exact hperm.append_right _
    · exact List.nodup_append.mpr ⟨hs.account.nodup, List.nodup_singleton _, fun old hold new hnew heq => by
        rw [List.mem_singleton.mp hnew] at heq
        exact hfresh (heq ▸ hold)⟩
    · intro n hn
      rcases List.mem_append.mp hn with hn | hn
      · exact hs.account.listed n hn
      · rw [List.mem_singleton.mp hn]
        exact hlisted
    · exact no_open_root (by simpa using hroot)
  · exact Triple.throw fun _ h => h ▸ hs

theorem keeps_complete : Keeps .complete decodeComplete := by
  intro p hp
  unfold decodeComplete
  refine Triple.get_bind fun s hs => Triple.guard (fun _ _ h => h ▸ hs) fun hdue => ?_
  simp only [not_or, not_not] at hdue
  obtain ⟨hmanifest, hcollecting, hroot⟩ := hdue
  have hphase := hs.phase
  have hnext : p.next .complete = some .complete := by
    cases p <;> simp_all [Phase.Allows, StreamState.marks, Phase.next]
  refine Triple.set fun _ _ => ⟨.complete, hnext, hs.seen, ?_, ?_⟩
  · exact ⟨s.dialect, by simp_all [StreamState.marks]⟩
  · exact { hs.account with openRoot := fun current hcurrent => { hs.account.openRoot current hcurrent with } }

end

/-! ## Lines -/

theorem keeps_record (env : Environment) (type : RecordType) (fields : List (Codes × Json)) :
    Keeps type (decodeRecord env type fields) := by
  cases type with
  | manifest => exact keeps_manifest fields
  | manifestBegin => exact keeps_manifestBegin fields
  | manifestNames => exact keeps_manifestNames fields
  | manifestEnd => exact keeps_manifestEnd
  | roots => exact keeps_roots fields
  | rootBegin => exact keeps_rootBegin fields
  | rootNode => exact keeps_rootNode _ _ _ _
  | rootNodes => exact keeps_rootNodes fields
  | rootEnd => exact keeps_rootEnd env.monotonic fields
  | rootUnchanged => exact keeps_rootUnchanged fields
  | complete => exact keeps_complete
  | unknown => exact fun p _ => Triple.throw fun _ h => h

theorem Reached.complete_iff {p : Phase} {s : StreamState} (hs : Reached p s) : s.complete = true ↔ p = .complete := by
  have hphase := hs.phase
  cases p with
  | complete =>
    obtain ⟨dialect, hmarks⟩ := hphase
    have hcomplete : s.marks.complete = true := by rw [hmarks]
    exact ⟨fun _ => rfl, fun _ => hcomplete⟩
  | _ =>
    have hcomplete : s.marks.complete = false := by rw [hphase]
    have : s.complete = false := hcomplete
    simp [this]

theorem decodeStreamRecord_reached (env : Environment) (p : Phase) (line : List Char) :
    Triple (Reached p) (decodeStreamRecord env line) (fun _ s => ∃ q, Reached q s) (Reached p) := by
  intro s hs
  rcases decodeStreamRecord_cases env line with ⟨-, hrun⟩ | ⟨e, hrun⟩ | ⟨type, fields, hrecord⟩
  · rw [hrun]
    exact ⟨p, hs⟩
  · rw [hrun]
    exact hs.reading.reached
  · rw [decodeStreamRecord_run hrecord]
    split_ifs with hcomplete
    · exact hs.reading.reached
    · have hp : p ≠ .complete := fun h => hcomplete (hs.complete_iff.mpr h)
      have hkeeps := keeps_record env type fields p hp _ hs.reading
      generalize (decodeRecord env type fields).run.run { s with sawPrefix := true } = r at hkeeps ⊢
      obtain ⟨r | r, s'⟩ := r
      · exact hkeeps.reached
      · obtain ⟨q, -, hq⟩ := hkeeps
        exact ⟨q, hq.reached⟩

/-- A record whose turn it is not is rejected. -/
theorem Reached.rejects {env : Environment} {line : List Char} {type : RecordType} {fields : List (Codes × Json)}
    {p : Phase} {s : StreamState} (hs : Reached p s) (hrecord : RecordLine env line type fields)
    (hnext : p.next type = none) : ∃ e, ((decodeStreamRecord env line).run.run s).1 = .error e := by
  rw [decodeStreamRecord_run hrecord]
  split_ifs with hcomplete
  · exact ⟨_, rfl⟩
  · have hp : p ≠ .complete := fun h => hcomplete (hs.complete_iff.mpr h)
    have hkeeps := keeps_record env type fields p hp _ hs.reading
    generalize (decodeRecord env type fields).run.run { s with sawPrefix := true } = r at hkeeps ⊢
    obtain ⟨e | r, s'⟩ := r
    · exact ⟨e, rfl⟩
    · obtain ⟨q, hq, -⟩ := hkeeps
      rw [hnext] at hq
      cases hq

/-! ## Chunks -/

theorem decodeStreamRecord_spec (env : Environment) (line : List Char) :
    Spec (fun s => ∃ p, Reached p s) (decodeStreamRecord env line) fun _ => True := by
  refine Triple.spec ?_
  rintro s ⟨p, hs⟩
  have hline := decodeStreamRecord_reached env p line s hs
  generalize (decodeStreamRecord env line).run.run s = r at hline ⊢
  obtain ⟨r | r, s'⟩ := r
  · exact ⟨p, hline⟩
  · exact ⟨hline, True.intro⟩

/-- Lines one after the other, up to the first that raises. -/
def decodeAll (env : Environment) (lines : List (List Char)) : Decode Unit := lines.forM (decodeStreamRecord env)

theorem decodeAll_reached (env : Environment) (lines : List (List Char)) :
    Spec (fun s => ∃ p, Reached p s) (decodeAll env lines) fun _ => True :=
  Spec.forM lines fun line _ => decodeStreamRecord_spec env line

theorem Reached.decodeLines (env : Environment) (lines : List (List Char)) {c : Consumer} {p : Phase}
    (h : Reached p c.stream) : ∃ q, Reached q (c.decodeLines env lines).stream := by
  have hlines : Spec (fun s => ∃ p, Reached p s)
      (lines.forM fun line => decodeStreamRecord env (stripCarriageReturns line)) fun _ => True :=
    Spec.forM lines fun line _ => decodeStreamRecord_spec env _
  have hrun := (hlines c.stream ⟨p, h⟩).1
  unfold Consumer.decodeLines
  generalize (lines.forM fun line => decodeStreamRecord env (stripCarriageReturns line)).run.run c.stream = r at hrun ⊢
  obtain ⟨r | r, s'⟩ := r <;> exact hrun

theorem retainLegacyChunk_stream (c : Consumer) (chunk : List UInt8) : (c.retainLegacyChunk chunk).stream = c.stream := by
  have hprobe : ∀ c : Consumer, c.classifyProbe.stream = c.stream := by
    intro c
    unfold Consumer.classifyProbe
    split <;> rfl
  unfold Consumer.retainLegacyChunk
  split_ifs with hempty
  · rfl
  · split
    · rfl
    · rfl
    · dsimp only
      split_ifs
      · split <;> simp [Consumer.fail, hprobe]
      · split <;> simp [Consumer.fail]
      · exact hprobe _

theorem consumeStreamChunk_reached (env : Environment) {c : Consumer} (h : ∃ p, Reached p c.stream) (chunk : List UInt8) :
    ∃ p, Reached p (consumeStreamChunk env c chunk).stream := by
  obtain ⟨p, hp⟩ := h
  rw [← retainLegacyChunk_stream c chunk] at hp
  unfold consumeStreamChunk
  split_ifs
  · rw [retainLegacyChunk_stream] at hp
    exact ⟨p, hp⟩
  · dsimp only
    split_ifs
    · exact ⟨p, hp⟩
    · split
      · exact ⟨p, hp⟩
      · exact Reached.decodeLines env _ hp

/-- Whatever the chunks are. -/
theorem consumeStream_reached (env : Environment) (chunks : List (List UInt8)) :
    ∃ p, Reached p (consumeStream env chunks).stream := by
  exact foldl_invariant (fun c : Consumer => ∃ p, Reached p c.stream) chunks {}
    (fun c chunk _ hc => consumeStreamChunk_reached env hc chunk) ⟨.start, reached_empty⟩

theorem finish_reached (env : Environment) {c : Consumer} (h : ∃ p, Reached p c.stream) :
    ∃ p, Reached p (c.finish env).stream := by
  unfold Consumer.finish
  dsimp only
  split_ifs
  all_goals first
    | exact consumeStreamChunk_reached env (by split <;> exact h) _
    | (split <;> exact h)

/-! ## The end -/

/-- The names of the roots, and of those that did not change, are distinct and listed. -/
def DistinctListed (s : StreamState) (files : List WireFile) (unchanged : List (Codes × Codes)) : Prop :=
  ∃ names, files.map (fun root => root.value.name) = names.map .str ∧ (names ++ unchanged.map Prod.fst).Nodup ∧
    ∀ name ∈ names ++ unchanged.map Prod.fst, name ∈ s.manifestNames

theorem Accounted.distinctListed {s : StreamState} (h : Accounted s) : DistinctListed s s.files s.unchanged := by
  obtain ⟨names, hnames, hperm⟩ := h.names
  exact ⟨names, hnames, hperm.nodup_iff.mpr h.nodup, fun name hname => h.listed name (hperm.mem_iff.mp hname)⟩

/-- A stream of records was complete, and everything that it brought was published. -/
structure StreamEnd (s : StreamState) (files : List WireFile) : Prop where
  phase : Phase.complete.Allows s.marks
  published : s.published.flatMap Progress.files = files
  listed : DistinctListed s files (s.published.flatMap Progress.unchanged)

theorem publishCompletion_run (s : StreamState) : ∃ startedAt, (publishCompletion.run.run s).2 = { s with
    pendingRoots := [], pendingRootsStartedAt := startedAt, pendingUnchanged := [], published := s.published ++
      rootCalls s.pendingRoots ++ unchangedCalls s.pendingUnchanged ++ [{ complete := true }] } := by
  obtain ⟨startedAt, hflush⟩ := flushPendingRootProgress_run s
  refine ⟨startedAt, ?_⟩
  unfold publishCompletion
  rw [run_bind_of_ok hflush, run_bind_of_ok (flushPendingUnchangedProgress_run _)]
  rfl

/-- All that is published of a complete stream. -/
theorem publishCompletion_end {s : StreamState} (hs : Reached .complete s) :
    StreamEnd (publishCompletion.run.run s).2 s.files ∧
      ∀ progress ∈ (publishCompletion.run.run s).2.published.dropLast, progress.complete = false := by
  obtain ⟨startedAt, hrun⟩ := publishCompletion_run s
  rw [hrun]
  refine ⟨⟨hs.phase, ?_, ?_⟩, ?_⟩
  · simp only [List.flatMap_append, files_rootCalls, files_unchangedCalls, List.flatMap_singleton, List.append_nil]
    exact hs.account.published
  · simp only [List.flatMap_append, unchanged_rootCalls, unchanged_unchangedCalls, List.flatMap_singleton,
      List.append_nil]
    exact hs.account.distinctListed
  · intro progress hprogress
    rw [List.dropLast_concat] at hprogress
    rcases List.mem_append.mp hprogress with hprogress | hprogress
    · rcases List.mem_append.mp hprogress with hprogress | hprogress
      · exact hs.account.provisional progress hprogress
      · unfold rootCalls at hprogress
        split_ifs at hprogress <;> simp_all
    · unfold unchangedCalls at hprogress
      split_ifs at hprogress <;> simp_all

theorem publishAll_run (progress : List Progress) (s : StreamState) :
    ((publishAll progress).run.run s).2 = { s with published := s.published ++ progress } := by
  induction progress generalizing s with
  | nil => simp; rfl
  | cons first rest ih =>
    change ((publishAll rest).run.run { s with published := s.published ++ [first] }).2 = _
    rw [ih]
    simp

/-- The one list of an older helper, published after what was published before. -/
def AggregateEnd (env : Environment) (before : List Progress) (s : StreamState) (files : List WireFile) : Prop :=
  s.sawPrefix = false ∧ s.published = before ++ aggregateProgress files ∧ ∃ text, decodeAggregate env text = .ok files

/-- What a scan publishes and returns. -/
def EndsSoundly (env : Environment) (before : List Progress) (end' : StreamState × Except Failure (List WireFile)) : Prop :=
  (∀ progress ∈ end'.1.published.dropLast, progress.complete = false) ∧
    ((∃ progress ∈ end'.1.published, progress.complete = true) → ∃ files, end'.2 = .ok files ∧
      (StreamEnd end'.1 files ∨ AggregateEnd env before end'.1 files))

theorem EndsSoundly.of_provisional {env : Environment} {before : List Progress} {s : StreamState}
    {result : Except Failure (List WireFile)} (h : ∀ progress ∈ s.published, progress.complete = false) :
    EndsSoundly env before (s, result) := by
  refine ⟨fun progress hprogress => h progress (List.mem_of_mem_dropLast hprogress), ?_⟩
  rintro ⟨progress, hprogress, hcomplete⟩
  rw [h progress hprogress] at hcomplete
  cases hcomplete

theorem endsSoundly_aggregate {env : Environment} {s : StreamState} {text : List UInt8} {files : List WireFile}
    (hfiles : decodeAggregate env text = .ok files) (hseen : s.sawPrefix = false)
    (hprovisional : ∀ progress ∈ s.published, progress.complete = false) :
    EndsSoundly env s.published (((publishAll (aggregateProgress files)).run.run s).2, .ok files) := by
  rw [publishAll_run]
  refine ⟨fun progress hprogress => ?_, fun _ => ⟨files, rfl, Or.inr ⟨hseen, rfl, text, hfiles⟩⟩⟩
  have hlast : (s.published ++ aggregateProgress files).dropLast = s.published ++
      [{ manifestNames := some (files.map fun file => file.value.name) }, { files := files }] := by
    rw [List.dropLast_append_of_ne_nil (by simp [aggregateProgress])]
    rfl
  rw [hlast] at hprogress
  rcases List.mem_append.mp hprogress with hprogress | hprogress
  · exact hprovisional progress hprogress
  · simp only [List.mem_cons, List.not_mem_nil, or_false] at hprogress
    rcases hprogress with rfl | rfl <;> rfl

theorem completeScan_sound (env : Environment) {c : Consumer} {before : List Progress} (out : List UInt8)
    (hfinish : (∃ p, Reached p (c.finish env).stream) ∧ before = [] ∨ (c.finish env).stream = { published := before } ∧
      ∀ progress ∈ before, progress.complete = false) : EndsSoundly env before (completeScan env c out) := by
  have hprovisional : ∀ progress ∈ (c.finish env).stream.published, progress.complete = false := by
    rcases hfinish with ⟨⟨p, hp⟩, -⟩ | ⟨hstream, hbefore⟩
    · exact hp.account.provisional
    · rw [hstream]
      exact hbefore
  unfold completeScan
  dsimp only
  split
  · exact EndsSoundly.of_provisional hprovisional
  · by_cases hseen : (c.finish env).stream.sawPrefix = true
    · rw [if_pos hseen]
      split_ifs with hincomplete
      · exact EndsSoundly.of_provisional hprovisional
      · rcases hfinish with ⟨⟨p, hp⟩, -⟩ | ⟨hstream, -⟩
        · simp only [Bool.not_eq_true', not_or, Bool.not_eq_false] at hincomplete
          cases hp.complete_iff.mp hincomplete.2
          obtain ⟨hend, hlast⟩ := publishCompletion_end hp
          exact ⟨hlast, fun _ => ⟨_, rfl, Or.inl hend⟩⟩
        · rw [hstream] at hseen
          cases hseen
    · rw [if_neg hseen]
      split
      · exact EndsSoundly.of_provisional hprovisional
      · rename_i files hfiles
        have hsaw : (c.finish env).stream.sawPrefix = false := by simpa using hseen
        have hpublished : (c.finish env).stream.published = before := by
          rcases hfinish with ⟨⟨p, hp⟩, rfl⟩ | ⟨hstream, -⟩
          · rw [hp.seen.resolve_left hseen]
          · rw [hstream]
        have hend := endsSoundly_aggregate hfiles hsaw hprovisional
        rw [hpublished] at hend
        exact hend

/-- What was published by a stream that an older helper refused. -/
def refusedProgress (env : Environment) : Transport → List Progress
  | .unsupported chunks _ => (consumeStream env chunks).stream.published
  | _ => []

theorem scan_endsSoundly (env : Environment) (transport : Transport) :
    EndsSoundly env (refusedProgress env transport) (scan env transport) := by
  cases transport with
  | returned chunks out =>
    exact completeScan_sound env out (Or.inl ⟨finish_reached env (consumeStream_reached env chunks), rfl⟩)
  | unsupported chunks out =>
    obtain ⟨p, hp⟩ := consumeStream_reached env chunks
    cases out with
    | none => exact EndsSoundly.of_provisional hp.account.provisional
    | some out => exact completeScan_sound env out (Or.inr ⟨rfl, hp.account.provisional⟩)
  | raised chunks =>
    obtain ⟨p, hp⟩ := consumeStream_reached env chunks
    exact EndsSoundly.of_provisional hp.account.provisional

/-- What holds at every point of a stream, before its transport has returned. -/
structure SoundPoint (env : Environment) (s : StreamState) : Prop where
  provisional : ∀ progress ∈ s.published, progress.complete = false
  listed : DistinctListed s s.files s.unchanged
  parents : ∀ root ∈ s.files, root.ParentsOnly fun a : WireAttrs => a.isDir = true
  counts : s.dialect = some .legacy ∨ s.files.map (fun root => (root.count : Int)) = s.declaredNodes
  published : s.published.flatMap Progress.files ++ s.pendingRoots = s.files
  ordered : ∃ p : Phase, p.Allows s.marks ∧ ∀ line type fields, RecordLine env line type fields →
    p.next type = none → ∃ e, ((decodeStreamRecord env line).run.run s).1 = .error e

theorem Reached.soundPoint {env : Environment} {p : Phase} {s : StreamState} (h : Reached p s) : SoundPoint env s where
  provisional := h.account.provisional
  listed := h.account.distinctListed
  parents := h.account.parents
  counts := h.account.counts
  published := h.account.published
  ordered := ⟨p, h.phase, fun _ _ _ hrecord hnext => h.rejects hrecord hnext⟩

/-- Whatever lines and chunks come, the decoder publishes only what it has decoded in order, and
a scan is called complete once, last, and for good reason. -/
theorem scan_publishes_soundly (env : Environment) :
    (∀ lines, SoundPoint env ((decodeAll env lines).run.run {}).2) ∧
      (∀ chunks, SoundPoint env (consumeStream env chunks).stream) ∧
      ∀ transport, EndsSoundly env (refusedProgress env transport) (scan env transport) := by
  refine ⟨fun lines => ?_, fun chunks => ?_, scan_endsSoundly env⟩
  · obtain ⟨p, hp⟩ := (decodeAll_reached env lines {} ⟨.start, reached_empty⟩).1
    exact hp.soundPoint
  · obtain ⟨p, hp⟩ := consumeStream_reached env chunks
    exact hp.soundPoint

def olderList : List Char := "[\x7b\"name\":\"a\",\"size\":1\x7d,\x7b\"name\":\"a\",\"size\":1\x7d]\n".toList

/-- A helper of an older version, whose list has one name twice. -/
def olderHelper : Environment where
  loads text := if text = olderList then some (.list [.obj [(codes "name", .str (codes "a")), (codes "size", .int 1)],
    .obj [(codes "name", .str (codes "a")), (codes "size", .int 1)]]) else none
  fromisoformat _ := none
  monotonic _ := 0

/-- The list of an older helper is published as complete without any record, names that stand in
it twice included. -/
theorem older_list_is_published_as_complete :
    (scan olderHelper (.returned [olderList.map fun c => UInt8.ofNat c.toNat] [])).1.published.any Progress.complete = true ∧
      (scan olderHelper (.returned [olderList.map fun c => UInt8.ofNat c.toNat] [])).1.manifest = false ∧
      (scan olderHelper (.returned [olderList.map fun c => UInt8.ofNat c.toNat] [])).1.complete = false ∧
      batchNames ((scan olderHelper (.returned [olderList.map fun c => UInt8.ofNat c.toNat] [])).1.published.flatMap
        Progress.files) = some [codes "a", codes "a"] := by
  decide +kernel

end SeedSync.Remote
