import SeedSync.Builder.Calls
import SeedSync.Lib.Stateful

/-!
# Snapshots and their nodes

What it means that a snapshot stays with the node it was recorded for, and what the two stores
keep as long as no lookup goes astray.
-/

namespace SeedSync

namespace FileId

/-! ## One node, two spellings -/

/-- The second id names the node of the first: the same pair and path, or the path without a pair. -/
def SameNode (node key : FileId) : Prop := key.node = node.node ∨ key = bare node.node.path

instance (node key : FileId) : Decidable (SameNode node key) := inferInstanceAs (Decidable (_ ∨ _))

@[simp] theorem node_node (id : FileId) : id.node.node = id.node := by cases id <;> rfl

@[simp] theorem node_pathPairId (id : FileId) : id.node.pathPairId = id.pathPairId := by cases id <;> rfl

@[simp] theorem buildFileId_node (path : String) (pair : Option String) :
    (buildFileId path pair).node = buildFileId path pair := by cases pair <;> rfl

theorem SameNode.refl (id : FileId) : SameNode id id := Or.inl rfl

theorem SameNode.path {node key : FileId} (h : SameNode node key) : key.node.path = node.node.path := by
  rcases h with h | rfl
  · rw [h]
  · rfl

theorem SameNode.trans {a b c : FileId} (hab : SameNode a b) (hbc : SameNode b c) : SameNode a c := by
  rcases hbc with hc | rfl
  · rcases hab with hb | rfl
    · exact Or.inl (hc.trans hb)
    · right
      cases c <;> cases hc
      rfl
  · exact Or.inr (by rw [hab.path])

/-- An id that a scan or a status spells, and no status-only row. -/
theorem eq_of_pathPairId {id : FileId} (h : id.node = id) : id = buildFileId id.path id.pathPairId := by
  cases id with
  | bare => rfl
  | paired => rfl
  | statusOnly => cases h

/-! ## A node and its root -/

/-- The key is the root or lies below it, and no other pair than the root's owns it. -/
structure Rooted (key root : FileId) : Prop where
  path : key.node.path = root.node.path ∨ (key.node = key ∧ nestedPath key.path root.path = true)
  pair : key.pathPairId = none ∨ root.pathPairId = none ∨ key.pathPairId = root.pathPairId

theorem Rooted.of_node {key root : FileId} (h : key.node = root.node) : Rooted key root where
  path := Or.inl (by rw [h])
  pair := Or.inr (Or.inr (by rw [← node_pathPairId, h, node_pathPairId]))

theorem Rooted.refl (id : FileId) : Rooted id id := .of_node rfl

theorem mem_rootAliases {id a : FileId} (hown : id.node = id) (h : a ∈ id.rootAliases) :
    a.node = a ∧ a.path = id.path ∧ (a.pathPairId = none ∨ a.pathPairId = id.pathPairId) := by
  cases id with
  | bare path =>
    simp only [rootAliases, List.mem_singleton] at h
    subst h
    exact ⟨rfl, rfl, Or.inl rfl⟩
  | paired pair path =>
    simp only [rootAliases, unscoped, List.mem_cons, List.not_mem_nil, or_false] at h
    rcases h with rfl | rfl
    · exact ⟨rfl, rfl, Or.inr rfl⟩
    · exact ⟨rfl, rfl, Or.inl rfl⟩
  | statusOnly => cases hown

/-- A key of the same path and of no other pair spells the same node. -/
theorem sameNode_of_pair {id key : FileId} (hpath : key.node.path = id.node.path)
    (hpair : key.pathPairId = none ∨ key.pathPairId = id.pathPairId) : SameNode id key := by
  cases key with
  | bare path => exact Or.inr (congrArg bare hpath)
  | paired pair path | statusOnly pair path =>
    rcases hpair with h | h
    · cases h
    · left
      cases id <;> cases h <;> cases hpath <;> rfl

end FileId

namespace Builder

open SystemFile Lib FileId

/-- What a job may take over for a root stands under a key of that root. -/
theorem sameNode_of_isScopedCandidate {fileId key : FileId} {snapshot : Snapshot} (hown : fileId.node = fileId)
    (hrooted : Rooted key snapshot.rootFileId) (h : isScopedCandidate fileId fileId key snapshot = true) :
    SameNode fileId key := by
  unfold isScopedCandidate at h
  dsimp only at h
  split_ifs at h with hnested halias hkey hnone
  · exact hkey ▸ SameNode.refl _
  all_goals
    have hmem : snapshot.rootFileId ∈ fileId.rootAliases := by
      have := not_and_or.mp halias
      simpa [hkey] using this
    obtain ⟨hroot, hrootPath, hrootPair⟩ := mem_rootAliases hown hmem
    have hpath : key.node.path = fileId.node.path := by
      rcases hrooted.path with hp | ⟨-, hp⟩
      · rw [hp, hroot, hrootPath, hown]
      · rw [hrootPath] at hp
        simp [isNestedRootCandidate, hp] at hnested
    refine sameNode_of_pair hpath ?_
  · simp only [Bool.and_eq_true, Option.isNone_iff_eq_none] at h
    exact Or.inl h.2
  · simp only [Option.or_self, Bool.or_eq_true, beq_iff_eq] at h
    rcases h with h | h
    · rcases hrooted.pair with hp | hp | hp
      · exact Or.inl hp
      · rw [hp] at h
        simp [← h] at hnone
      · exact Or.inr (hp.trans h)
    · exact Or.inr h

/-! ## What the stores keep -/

/-- One of the two stores holds the snapshot under the key. -/
def Transfers.Holds (t : Transfers) (key : FileId) (s : Snapshot) : Prop :=
  t.recent.get key = some s ∨ t.retained.get key = some s

theorem Transfers.holds_of_store {t : Transfers} {which : StoreName} {key : FileId} {s : Snapshot}
    (h : (t.store which).get key = some s) : t.Holds key s := by
  cases which
  · exact Or.inl h
  · exact Or.inr h

/-- Every entry stands under the node it was recorded for, and the recent store knows the root of
each of its entries. -/
structure Kept (t : Transfers) : Prop where
  owned : ∀ key s, t.Holds key s → SameNode key s.recordedFor
  shared : ∀ key s key' s', t.Holds key s → t.Holds key' s' → s.object = s'.object → s.recordedFor = s'.recordedFor
  fresh : ∀ key s, t.Holds key s → s.object < t.made
  unique : ∀ key s key' s', t.recent.get key = some s → t.recent.get key' = some s' → s.object = s'.object → key = key'
  rooted : ∀ key s, t.recent.get key = some s → Rooted key s.rootFileId

theorem kept_empty : Kept {} := by
  constructor <;> simp [Transfers.Holds]

/-- The entry is one of the old ones, under a key of the same node. -/
def Transfers.Stems (t : Transfers) (key : FileId) (s : Snapshot) : Prop :=
  ∃ old before, t.Holds old before ∧ SameNode key old ∧ s.object = before.object ∧ s.recordedFor = before.recordedFor

theorem Transfers.Holds.stems {t : Transfers} {key : FileId} {s : Snapshot} (h : t.Holds key s) : t.Stems key s :=
  ⟨key, s, h, .refl key, rfl, rfl⟩

/-- Where all entries stem from old ones, only the recent store is to be looked at. -/
theorem Kept.of_stems {t t' : Transfers} (h : Kept t) (hstems : ∀ key s, t'.Holds key s → t.Stems key s)
    (hmade : t.made ≤ t'.made)
    (hunique : ∀ key s key' s', t'.recent.get key = some s → t'.recent.get key' = some s' → s.object = s'.object →
      key = key')
    (hrooted : ∀ key s, t'.recent.get key = some s → Rooted key s.rootFileId) : Kept t' where
  owned key s hs := by
    obtain ⟨old, before, hold, hsame, -, hfor⟩ := hstems key s hs
    rw [hfor]
    exact hsame.trans (h.owned old before hold)
  shared key s key' s' hs hs' hobject := by
    obtain ⟨old, before, hold, -, ho, hfor⟩ := hstems key s hs
    obtain ⟨old', before', hold', -, ho', hfor'⟩ := hstems key' s' hs'
    rw [hfor, hfor']
    exact h.shared old before old' before' hold hold' (by rw [← ho, ← ho', hobject])
  fresh key s hs := by
    obtain ⟨old, before, hold, -, ho, -⟩ := hstems key s hs
    have := h.fresh old before hold
    omega
  unique := hunique
  rooted := hrooted

/-- Entries that go leave the rest as it was. -/
theorem Kept.mono {t t' : Transfers} (h : Kept t)
    (hrecent : ∀ key s, t'.recent.get key = some s → t.recent.get key = some s)
    (hretained : ∀ key s, t'.retained.get key = some s → t.retained.get key = some s) (hmade : t.made ≤ t'.made) :
    Kept t' :=
  h.of_stems (fun key s hs => Transfers.Holds.stems (hs.imp (hrecent key s) (hretained key s))) hmade
    (fun key s key' s' hs hs' => h.unique key s key' s' (hrecent key s hs) (hrecent key' s' hs'))
    (fun key s hs => h.rooted key s (hrecent key s hs))

/-- A snapshot that was made just now is put into a store. -/
theorem Kept.record {t t' : Transfers} (h : Kept t) (fileId : FileId) (new : Snapshot)
    (hobject : new.object = t.made) (hfor : new.recordedFor = fileId) (hmade : t'.made = t.made + 1)
    (hrecent : ∀ key s, t'.recent.get key = some s →
      (key = fileId ∧ s = new ∧ Rooted fileId new.rootFileId) ∨ t.recent.get key = some s)
    (hretained : ∀ key s, t'.retained.get key = some s → (key = fileId ∧ s = new) ∨ t.retained.get key = some s) :
    Kept t' := by
  have hholds : ∀ key s, t'.Holds key s → (key = fileId ∧ s = new) ∨ t.Holds key s := by
    rintro key s (hs | hs)
    · exact (hrecent key s hs).imp (fun h => ⟨h.1, h.2.1⟩) Or.inl
    · exact (hretained key s hs).imp id Or.inr
  -- The object is newer than all that are held.
  have hnew : ∀ key s, t.Holds key s → s.object ≠ new.object := fun key s hs =>
    Nat.ne_of_lt (hobject ▸ h.fresh key s hs)
  constructor
  · intro key s hs
    rcases hholds key s hs with ⟨rfl, rfl⟩ | hs
    · exact hfor ▸ SameNode.refl _
    · exact h.owned key s hs
  · intro key s key' s' hs hs' ho
    rcases hholds key s hs with ⟨rfl, rfl⟩ | hs <;> rcases hholds key' s' hs' with ⟨rfl, rfl⟩ | hs'
    · rfl
    · exact absurd ho.symm (hnew key' s' hs')
    · exact absurd ho (hnew key s hs)
    · exact h.shared key s key' s' hs hs' ho
  · intro key s hs
    rcases hholds key s hs with ⟨rfl, rfl⟩ | hs
    · omega
    · have := h.fresh key s hs
      omega
  · intro key s key' s' hs hs' ho
    rcases hrecent key s hs with ⟨rfl, rfl, -⟩ | hs <;> rcases hrecent key' s' hs' with ⟨rfl, rfl, -⟩ | hs'
    · rfl
    · exact absurd ho.symm (hnew key' s' (Or.inl hs'))
    · exact absurd ho (hnew key s (Or.inl hs))
    · exact h.unique key s key' s' hs hs' ho
  · intro key s hs
    rcases hrecent key s hs with ⟨rfl, rfl, hroot⟩ | hs
    · exact hroot
    · exact h.rooted key s hs

/-! ## Re-keying -/

/-- The state after `__promote_transfer_snapshot`. -/
def promoteState (t : Transfers) (which : StoreName) (found : FileId × Snapshot) (node root : FileId) : Transfers :=
  let assigned := t.assignRoot found.2.object root
  if found.1 ≠ node then
    assigned.setStore which (((assigned.store which).pop found.1).set node { found.2 with rootFileId := root })
  else assigned

theorem promoteTransferSnapshot_run (which : StoreName) (found : FileId × Snapshot) (node root : FileId)
    (t : Transfers) :
    (promoteTransferSnapshot which found node (some root)).run.run t =
      (.ok { found.2 with rootFileId := root }, promoteState t which found node root) := by
  unfold promoteTransferSnapshot promoteState
  by_cases h : found.1 = node
  · simp only [h, ne_eq, not_true, if_false]
    rfl
  · simp only [h, ne_eq, not_false_eq_true, if_true]
    rfl

@[simp] theorem promoteState_lookups (t : Transfers) (which : StoreName) (found : FileId × Snapshot)
    (node root : FileId) : (promoteState t which found node root).lookups = t.lookups := by
  unfold promoteState
  cases which <;> dsimp only [] <;> split_ifs <;> rfl

@[simp] theorem promoteState_made (t : Transfers) (which : StoreName) (found : FileId × Snapshot)
    (node root : FileId) : (promoteState t which found node root).made = t.made := by
  unfold promoteState
  cases which <;> dsimp only [] <;> split_ifs <;> rfl

theorem assignRoot_store_get (t : Transfers) (object : Nat) (root : FileId) (which : StoreName) (key : FileId) :
    ((t.assignRoot object root).store which).get key =
      ((t.store which).get key).map (Snapshot.assignRoot object root) := by
  cases which <;> exact Dict.get_mapValues _ _ _

/-- The store that was asked holds the snapshot under its new key. -/
theorem promoteState_get_node {t : Transfers} (which : StoreName) {found : FileId × Snapshot} {node root : FileId}
    (hfound : (t.store which).get found.1 = some found.2) :
    ((promoteState t which found node root).store which).get node = some { found.2 with rootFileId := root } := by
  unfold promoteState
  dsimp only
  split_ifs with hkey
  · cases which <;> exact Dict.get_set_self _ _ _
  · have hkey : found.1 = node := not_not.mp hkey
    rw [assignRoot_store_get, ← hkey, hfound]
    simp [Snapshot.assignRoot]

/-- Under every other key it holds what it held there. -/
theorem promoteState_get {t : Transfers} (which : StoreName) {found : FileId × Snapshot} {node root key : FileId}
    {s : Snapshot} (hkey : key ≠ node)
    (h : ((promoteState t which found node root).store which).get key = some s) :
    key ≠ found.1 ∧ ∃ before, (t.store which).get key = some before ∧ s = before.assignRoot found.2.object root := by
  unfold promoteState at h
  dsimp only at h
  split_ifs at h with hmoved
  · have hget : (((t.assignRoot found.2.object root).store which).pop found.1).get key = some s := by
      cases which <;> exact (Dict.get_set_ne _ (Ne.symm hkey) _).symm.trans h
    rw [Dict.get_pop] at hget
    split_ifs at hget with hfound
    rw [assignRoot_store_get] at hget
    obtain ⟨before, hbefore, rfl⟩ := Option.map_eq_some_iff.mp hget
    exact ⟨Ne.symm hfound, before, hbefore, rfl⟩
  · have hfound : found.1 = node := not_not.mp hmoved
    rw [assignRoot_store_get] at h
    obtain ⟨before, hbefore, rfl⟩ := Option.map_eq_some_iff.mp h
    exact ⟨hfound ▸ hkey, before, hbefore, rfl⟩

/-- The other store holds what it held. -/
theorem promoteState_get_other {t : Transfers} (which other : StoreName) {found : FileId × Snapshot}
    {node root key : FileId} {s : Snapshot} (hother : other ≠ which)
    (h : ((promoteState t which found node root).store other).get key = some s) :
    ∃ before, (t.store other).get key = some before ∧ s = before.assignRoot found.2.object root := by
  have hget : ((t.assignRoot found.2.object root).store other).get key = some s := by
    unfold promoteState at h
    dsimp only at h
    split_ifs at h
    · cases which <;> cases other <;> first | exact h | exact absurd rfl hother
    · exact h
  rw [assignRoot_store_get] at hget
  obtain ⟨before, hbefore, hs⟩ := Option.map_eq_some_iff.mp hget
  exact ⟨before, hbefore, hs.symm⟩

@[simp] theorem assignRoot_object (object : Nat) (root : FileId) (s : Snapshot) :
    (s.assignRoot object root).object = s.object := by
  unfold Snapshot.assignRoot
  split_ifs <;> rfl

@[simp] theorem assignRoot_recordedFor (object : Nat) (root : FileId) (s : Snapshot) :
    (s.assignRoot object root).recordedFor = s.recordedFor := by
  unfold Snapshot.assignRoot
  split_ifs <;> rfl

theorem promoteState_stems {t : Transfers} (which : StoreName) {found : FileId × Snapshot} {node root : FileId}
    (hfound : (t.store which).get found.1 = some found.2) (hsame : SameNode node found.1) (other : StoreName)
    {key : FileId} {s : Snapshot} (h : ((promoteState t which found node root).store other).get key = some s) :
    t.Stems key s := by
  have hkeeps : ∀ before, (t.store other).get key = some before → s = before.assignRoot found.2.object root →
      t.Stems key s := by
    rintro before hbefore rfl
    exact ⟨key, before, Transfers.holds_of_store hbefore, .refl key, by simp, by simp⟩
  by_cases hother : other = which
  · subst hother
    by_cases hkey : key = node
    · rw [hkey, promoteState_get_node other hfound] at h
      cases h
      exact ⟨found.1, found.2, Transfers.holds_of_store hfound, hkey ▸ hsame, rfl, rfl⟩
    · obtain ⟨-, before, hbefore, hs⟩ := promoteState_get other hkey h
      exact hkeeps before hbefore hs
  · obtain ⟨before, hbefore, hs⟩ := promoteState_get_other which other hother h
    exact hkeeps before hbefore hs

/-- The recent store after a promotion in it: one entry has moved. -/
theorem promoteState_recent {t : Transfers} (h : Kept t) {found : FileId × Snapshot} {node root : FileId}
    (hfound : t.recent.get found.1 = some found.2) {key : FileId} {s : Snapshot}
    (hs : (promoteState t .recent found node root).recent.get key = some s) :
    (key = node ∧ s = { found.2 with rootFileId := root }) ∨
      (t.recent.get key = some s ∧ s.object ≠ found.2.object) := by
  by_cases hkey : key = node
  · left
    have hnode : (promoteState t .recent found node root).recent.get node = _ :=
      promoteState_get_node .recent hfound
    rw [hkey, hnode] at hs
    cases hs
    exact ⟨hkey, rfl⟩
  · right
    obtain ⟨hmoved, before, hbefore, rfl⟩ := promoteState_get .recent hkey hs
    have hobject : before.object ≠ found.2.object := fun ho => hmoved (h.unique _ _ _ _ hbefore hfound ho)
    rw [Snapshot.assignRoot, if_neg hobject]
    exact ⟨hbefore, hobject⟩

theorem Kept.promoteRecent {t : Transfers} (h : Kept t) {found : FileId × Snapshot} {node root : FileId}
    (hfound : t.recent.get found.1 = some found.2) (hsame : SameNode node found.1) (hroot : Rooted node root) :
    Kept (promoteState t .recent found node root) := by
  refine h.of_stems ?_ (by simp) ?_ ?_
  · rintro key s (hs | hs)
    · exact promoteState_stems .recent hfound hsame .recent hs
    · exact promoteState_stems .recent hfound hsame .retained hs
  · intro key s key' s' hs hs' ho
    rcases promoteState_recent h hfound hs with ⟨rfl, rfl⟩ | ⟨hs, hne⟩ <;>
      rcases promoteState_recent h hfound hs' with ⟨rfl, rfl⟩ | ⟨hs', hne'⟩
    · rfl
    · exact absurd ho.symm hne'
    · exact absurd ho hne
    · exact h.unique key s key' s' hs hs' ho
  · intro key s hs
    rcases promoteState_recent h hfound hs with ⟨rfl, rfl⟩ | ⟨hs, -⟩
    · exact hroot
    · exact h.rooted key s hs

/-- A promotion in the stopped store assigns the root of the object wherever it is held. -/
theorem Kept.promoteRetained {t : Transfers} (h : Kept t) {found : FileId × Snapshot} {node root : FileId}
    (hfound : t.retained.get found.1 = some found.2) (hsame : SameNode node found.1)
    (hroot : ∀ key s, t.recent.get key = some s → s.object = found.2.object → Rooted key root) :
    Kept (promoteState t .retained found node root) := by
  have hrecent : ∀ key s, (promoteState t .retained found node root).recent.get key = some s →
      ∃ before, t.recent.get key = some before ∧ s = before.assignRoot found.2.object root := fun key s hs =>
    promoteState_get_other .retained .recent (by simp) hs
  refine h.of_stems ?_ (by simp) ?_ ?_
  · rintro key s (hs | hs)
    · exact promoteState_stems .retained hfound hsame .recent hs
    · exact promoteState_stems .retained hfound hsame .retained hs
  · intro key s key' s' hs hs' ho
    obtain ⟨before, hbefore, rfl⟩ := hrecent key s hs
    obtain ⟨before', hbefore', rfl⟩ := hrecent key' s' hs'
    exact h.unique key before key' before' hbefore hbefore' (by simpa using ho)
  · intro key s hs
    obtain ⟨before, hbefore, rfl⟩ := hrecent key s hs
    unfold Snapshot.assignRoot
    split_ifs with ho
    · exact hroot key before hbefore ho
    · exact h.rooted key before hbefore

/-! ## Lookups -/

/-- The store that was asked. -/
def Lookup.asked (l : Lookup) : SnapshotStore :=
  match l.which with
  | .recent => l.recent
  | .retained => l.retained

/-- The answer was recorded for the node, and its key names the node. -/
def Lookup.Own (l : Lookup) : Prop :=
  ∀ found ∈ l.answer, SameNode l.node found.1 ∧ SameNode l.node found.2.recordedFor

/-- No pair but the node's own owns the key. -/
def NoOtherPair (node key : FileId) : Prop :=
  key.pathPairId = none ∨ node.pathPairId = none ∨ key.pathPairId = node.pathPairId

/-- An ordinary lookup that does not go astray: what is found stands under a key of the node, and a
stopped snapshot is not held for another pair in the recent store. -/
def Lookup.Safe (l : Lookup) : Prop :=
  l.kind = .alias → ∀ found ∈ resolveTransferSnapshot l.asked l.node l.root,
    SameNode l.node found.1 ∧
      (l.which = .retained → ∀ item ∈ l.recent.items, item.2.object = found.2.object → NoOtherPair l.node item.1)

/-- As long as no lookup went astray, the stores are kept and every answer was the node's own. -/
def Clean (t : Transfers) : Prop :=
  (∀ l ∈ t.lookups, l.Safe) → Kept t ∧ ∀ l ∈ t.lookups, l.Own

theorem clean_empty : Clean {} := fun _ => ⟨kept_empty, by simp⟩

theorem Clean.step {t t' : Transfers} (h : Clean t) (hlookups : t'.lookups = t.lookups)
    (hkept : Kept t → Kept t') : Clean t' := by
  intro hsafe
  rw [hlookups] at hsafe ⊢
  exact (h hsafe).imp_left hkept

/-- A lookup, with what it does to the stores. -/
theorem Clean.ask {t t' : Transfers} (h : Clean t) {l : Lookup} (hlookups : t'.lookups = l :: t.lookups)
    (hask : Kept t → l.Safe → l.Own ∧ Kept t') : Clean t' := by
  intro hsafe
  rw [hlookups] at hsafe ⊢
  obtain ⟨hkept, hown⟩ := h fun l' hl => hsafe l' (List.mem_cons_of_mem _ hl)
  obtain ⟨hnew, hkept'⟩ := hask hkept (hsafe l List.mem_cons_self)
  exact ⟨hkept', List.forall_mem_cons.mpr ⟨hnew, hown⟩⟩

theorem Kept.note {t : Transfers} (h : Kept t) (kind : LookupKind) (which : StoreName) (node : FileId)
    (root : Option FileId) (answer : Option (FileId × Snapshot)) : Kept (t.note kind which node root answer) :=
  h.mono (fun _ _ hs => hs) (fun _ _ hs => hs) le_rfl

theorem resolveTransferSnapshot_get {store : SnapshotStore} {node : FileId} {root : Option FileId}
    {found : FileId × Snapshot} (h : resolveTransferSnapshot store node root = some found) :
    store.get found.1 = some found.2 := by
  unfold resolveTransferSnapshot at h
  split at h
  · rename_i snapshot hget
    cases h
    exact hget
  · split at h
    · obtain ⟨snapshot, hget, rfl⟩ := Option.map_eq_some_iff.mp h
      exact hget
    · cases h

theorem resolveAndPromote_run (which : StoreName) (fileId root : FileId) (t : Transfers) :
    (resolveAndPromote which fileId (some root)).run.run t =
      match resolveTransferSnapshot (t.store which) fileId (some root) with
      | none => (.ok none, t.note .alias which fileId (some root) none)
      | some found => (.ok (some { found.2 with rootFileId := root }),
          promoteState (t.note .alias which fileId (some root) (some found)) which found fileId root) := by
  unfold resolveAndPromote
  rw [run_get_bind]
  dsimp only
  rw [run_modify_bind]
  cases resolveTransferSnapshot (t.store which) fileId (some root) with
  | none => rfl
  | some found => exact run_bind_of_ok (promoteTransferSnapshot_run which found fileId root _) _

/-- The ordinary resolvers. A lookup in the stopped store is always one for a root itself. -/
theorem clean_resolveAndPromote (which : StoreName) {fileId root : FileId}
    (hrecent : which = .recent → Rooted fileId root) (hretained : which = .retained → fileId.node = root.node) :
    Spec Clean (resolveAndPromote which fileId (some root)) (fun _ => True) := by
  intro t ht
  refine ⟨?_, fun _ _ => trivial⟩
  rw [resolveAndPromote_run]
  cases hfound : resolveTransferSnapshot (t.store which) fileId (some root) with
  | none => exact ht.ask rfl fun hkept _ => ⟨by simp [Lookup.Own], hkept.note ..⟩
  | some found =>
    refine ht.ask (promoteState_lookups _ _ _ _ _) fun hkept hsafe => ?_
    have hget : (t.store which).get found.1 = some found.2 := resolveTransferSnapshot_get hfound
    have hasked : resolveTransferSnapshot (Lookup.asked ⟨.alias, which, t.recent, t.retained, fileId, some root,
        some found⟩) fileId (some root) = some found := by cases which <;> exact hfound
    obtain ⟨hsame, hpair⟩ := hsafe rfl found hasked
    have howned := hkept.owned found.1 found.2 (Transfers.holds_of_store hget)
    refine ⟨?_, ?_⟩
    · rintro found' hfound'
      cases hfound'
      exact ⟨hsame, hsame.trans howned⟩
    · cases which with
      | recent => exact (hkept.note ..).promoteRecent hget hsame (hrecent rfl)
      | retained =>
        refine (hkept.note ..).promoteRetained hget hsame fun key s hs hobject => ?_
        have hfor := hkept.shared key s found.1 found.2 (Or.inl hs) (Or.inr hget) hobject
        have hpath : key.node.path = root.node.path := by
          rw [← hretained rfl, ← hsame.path, ← howned.path, ← hfor]
          exact ((hkept.owned key s (Or.inl hs)).path).symm
        refine ⟨Or.inl hpath, ?_⟩
        have hnode : fileId.pathPairId = root.pathPairId := by
          rw [← node_pathPairId, hretained rfl, node_pathPairId]
        have := hpair rfl (key, s) ((Dict.get_eq_some _ _ _).mp hs) hobject
        rwa [NoOtherPair, hnode] at this

theorem clean_getSnapshot (which : StoreName) (fileId : FileId) :
    Spec Clean (getSnapshot which fileId) (fun _ => True) := by
  intro t ht
  refine ⟨ht.ask rfl fun hkept _ => ⟨?_, hkept.note ..⟩, fun _ _ => trivial⟩
  rintro found hfound
  obtain ⟨s, hs, rfl⟩ := Option.map_eq_some_iff.mp hfound
  exact ⟨.refl fileId, hkept.owned fileId s (Transfers.holds_of_store hs)⟩

/-! ## Lookups by job -/

theorem latestCandidate_mem {fileId : FileId} {candidates : List (FileId × Snapshot)} {c : FileId × Snapshot}
    (h : latestCandidate fileId candidates = some c) : c ∈ candidates := List.mem_of_find?_eq_some h

theorem selectBest_mem {fileId : FileId} {nonzero : List (FileId × Snapshot)} {c : FileId × Snapshot}
    (h : selectCandidate.selectBest fileId nonzero = some c) : c ∈ nonzero := by
  unfold selectCandidate.selectBest at h
  dsimp only at h
  -- Every list that a candidate is taken from is filtered out of the candidates.
  have hsub : ∀ {p q : FileId × Snapshot → Bool} {d : FileId × Snapshot},
      d ∈ (nonzero.filter p).filter q → d ∈ nonzero := fun hd => (List.mem_filter.mp (List.mem_filter.mp hd).1).1
  split at h
  · rename_i d hlatest
    cases h
    exact hsub (hlatest ▸ List.mem_singleton_self _)
  · split at h
    · rename_i d hexact
      cases h
      have hmem := List.mem_singleton_self c
      rw [← hexact] at hmem
      exact hsub (List.mem_filter.mp hmem).1
    · cases h

theorem selectCandidate_mem {fileId : FileId} {candidates : List (FileId × Snapshot)} {c : FileId × Snapshot}
    (h : selectCandidate fileId candidates = some c) : c ∈ candidates := by
  unfold selectCandidate at h
  dsimp only at h
  split at h
  · cases h
  · exact (List.mem_filter.mp (latestCandidate_mem h)).1
  · split_ifs at h
    · exact (List.mem_filter.mp (latestCandidate_mem h)).1
    · exact (List.mem_filter.mp (selectBest_mem h)).1
  · exact (List.mem_filter.mp (selectBest_mem h)).1

theorem resolveRecentLiveTransferSnapshotForJob_run (b : Sources) (fileId : FileId) (jobId : Int) (jobType : JobType)
    (t : Transfers) :
    (resolveRecentLiveTransferSnapshotForJob b fileId fileId jobId jobType).run.run t =
      let selected := selectCandidate fileId (jobCandidates b t.recent fileId fileId jobId jobType)
      let noted := t.note .forJob .recent fileId (some fileId) selected
      match selected with
      | some found => (.ok (some { found.2 with rootFileId := fileId }), promoteState noted .recent found fileId fileId)
      | none => (fallBackToOrdinarySnapshot b t.recent fileId fileId jobId jobType).run.run noted := by
  unfold resolveRecentLiveTransferSnapshotForJob
  rw [run_get_bind]
  dsimp only
  rw [run_modify_bind, ite_self]
  cases selectCandidate fileId (jobCandidates b t.recent fileId fileId jobId jobType) with
  | none => rfl
  | some found => exact run_bind_of_ok (promoteTransferSnapshot_run .recent found fileId fileId _) _

theorem clean_fallBackToOrdinarySnapshot (b : Sources) (store : SnapshotStore) (fileId : FileId) (jobId : Int)
    (jobType : JobType) :
    Spec Clean (fallBackToOrdinarySnapshot b store fileId fileId jobId jobType) (fun _ => True) := by
  unfold fallBackToOrdinarySnapshot
  split_ifs
  · exact Spec.pure trivial
  · exact Spec.pure trivial
  · refine Spec.bind (clean_resolveAndPromote .recent (fun _ => .refl fileId) (by simp)) fun found _ => ?_
    cases found with
    | none => exact Spec.pure trivial
    | some snapshot =>
      dsimp only
      split_ifs <;> exact Spec.pure trivial

/-- A lookup by job asks for a root, and takes over only what stands under a key of that root. -/
theorem clean_resolveRecentLiveTransferSnapshotForJob (b : Sources) {fileId : FileId} (hown : fileId.node = fileId)
    (jobId : Int) (jobType : JobType) :
    Spec Clean (resolveRecentLiveTransferSnapshotForJob b fileId fileId jobId jobType) (fun _ => True) := by
  intro t ht
  refine ⟨?_, fun _ _ => trivial⟩
  rw [resolveRecentLiveTransferSnapshotForJob_run]
  cases hselected : selectCandidate fileId (jobCandidates b t.recent fileId fileId jobId jobType) with
  | none =>
    refine (clean_fallBackToOrdinarySnapshot b t.recent fileId jobId jobType _ ?_).1
    exact ht.ask rfl fun hkept _ => ⟨by simp [Lookup.Own], hkept.note ..⟩
  | some found =>
    refine ht.ask (promoteState_lookups _ _ _ _ _) fun hkept _ => ?_
    obtain ⟨hitem, hcandidate⟩ := List.mem_filter.mp (selectCandidate_mem hselected)
    have hget : t.recent.get found.1 = some found.2 := (Dict.get_eq_some _ _ _).mpr hitem
    simp only [Bool.and_eq_true] at hcandidate
    have hsame := sameNode_of_isScopedCandidate hown (hkept.rooted _ _ hget) hcandidate.1.1.1
    refine ⟨?_, (hkept.note ..).promoteRecent hget hsame (.refl fileId)⟩
    rintro found' hfound'
    cases hfound'
    exact ⟨hsame, hsame.trans (hkept.owned _ _ (Or.inl hget))⟩

end Builder

end SeedSync
