import SeedSync.Scan.Result
import Mathlib.Data.Nat.Basic
import Mathlib.Data.Countable.Basic
import Mathlib.Logic.Equiv.List

/-!
# Root fingerprints

`stream_root_fingerprint` of `scan_fs.py`. The digest of the JSON lines is a parameter,
`sha256`; the lines themselves are `StreamRecord` values. `streamRecords_injective` says
that the lines determine the tree, up to the fields that are never streamed.
-/

namespace SeedSync

/-- `_stream_shallow_file_data` of one node, with the pair identity popped. -/
structure StreamData where
  name : String
  size : Nat
  isDir : Bool
  timeCreated : Option Timestamp
  timeModified : Option Timestamp
  mtimeNs : Option Int
  isStaging : Bool
  hasStagingCollision : Bool
  deriving DecidableEq, Repr

structure StreamRecord where
  id : Nat
  parent : Option Nat
  file : StreamData
  deriving DecidableEq, Repr

def streamShallowFileData (a : FileAttrs) : StreamData where
  name := a.name
  size := a.size
  isDir := a.isDir
  timeCreated := a.timestampCreated
  timeModified := a.timestampModified
  mtimeNs := a.mtimeNs
  isStaging := a.isStaging
  hasStagingCollision := a.hasStagingCollision

mutual
/-- The records of one subtree. The stack of the source visits it in preorder and numbers it as it goes. -/
def streamNode : SystemFile → Option Nat → Nat → List StreamRecord
  | .mk a cs, parent, id => ⟨id, parent, streamShallowFileData a⟩ :: streamNodes cs (some id) (id + 1)

def streamNodes : List SystemFile → Option Nat → Nat → List StreamRecord
  | [], _, _ => []
  | c :: cs, parent, id =>
    let first := streamNode c parent id
    first ++ streamNodes cs parent (id + first.length)
end

def streamRecords (root : SystemFile) : List StreamRecord := streamNode root none 0

def streamRootFingerprint (sha256 : List StreamRecord → Digest) (root : SystemFile) : Digest :=
  sha256 (streamRecords root)

/-! ## The streamed fields -/

/-- The attributes with the fields reset that no record carries. -/
def FileAttrs.streamed (a : FileAttrs) : FileAttrs :=
  { a with pathPairId := none, pathPairName := none, hasStagingOrigin := none, statusSidecarReady := false }

mutual
def SystemFile.streamed : SystemFile → SystemFile
  | .mk a cs => .mk a.streamed (streamedList cs)

def SystemFile.streamedList : List SystemFile → List SystemFile
  | [] => []
  | c :: cs => c.streamed :: streamedList cs
end

theorem streamed_of_shallow (a b : FileAttrs) :
    streamShallowFileData a = streamShallowFileData b ↔ a.streamed = b.streamed := by
  cases a; cases b
  simp [streamShallowFileData, FileAttrs.streamed]

@[simp] theorem SystemFile.streamed_name (f : SystemFile) : f.streamed.name = f.name := by
  cases f; rfl

/-! ## The records determine the streamed tree -/

/-- The next record, if any, hangs above `n`: a subtree that starts at `n` has ended. -/
def ClosedAt (n : Nat) (rest : List StreamRecord) : Prop :=
  ∀ r, rest.head? = some r → ∀ p, r.parent = some p → p < n

theorem streamNode_ne_nil (f : SystemFile) (parent : Option Nat) (id : Nat) :
    ∃ r rest, streamNode f parent id = r :: rest ∧ r.parent = parent := by
  cases f with
  | mk a cs => exact ⟨_, _, by rw [streamNode], rfl⟩

theorem streamNodes_append_closed (cs : List SystemFile) (p n id : Nat) (rest : List StreamRecord)
    (hp : p < n) (hrest : ClosedAt p rest) : ClosedAt n (streamNodes cs (some p) id ++ rest) := by
  intro r hr q hq
  cases cs with
  | nil =>
    rw [streamNodes] at hr
    exact lt_trans (hrest r hr q hq) hp
  | cons c cs =>
    obtain ⟨r', tail, hnode, hparent⟩ := streamNode_ne_nil c (some p) id
    simp only [streamNodes, hnode, List.cons_append, List.head?_cons, Option.some.injEq] at hr
    subst hr
    rw [hparent, Option.some.injEq] at hq
    omega

/-- One node: what follows a subtree is determined, and the subtree up to unstreamed fields. -/
theorem streamNode_inj (f : SystemFile) :
    ∀ (g : SystemFile) (parent : Option Nat) (id : Nat) (r₁ r₂ : List StreamRecord),
      ClosedAt id r₁ → ClosedAt id r₂ →
      streamNode f parent id ++ r₁ = streamNode g parent id ++ r₂ →
      f.streamed = g.streamed ∧ streamNode f parent id = streamNode g parent id ∧ r₁ = r₂ := by
  induction f using SystemFile.tree_induction with
  | node a cs ih =>
    -- The siblings of one parent, by induction on the list; `ih` is the claim for each of them.
    have siblings : ∀ (xs ys : List SystemFile), (∀ x ∈ xs, x ∈ cs) →
        ∀ (p id : Nat) (r₁ r₂ : List StreamRecord), p < id → ClosedAt p r₁ → ClosedAt p r₂ →
        streamNodes xs (some p) id ++ r₁ = streamNodes ys (some p) id ++ r₂ →
        SystemFile.streamedList xs = SystemFile.streamedList ys ∧
          streamNodes xs (some p) id = streamNodes ys (some p) id ∧ r₁ = r₂ := by
      intro xs
      induction xs with
      | nil =>
        intro ys _ p id r₁ r₂ _ h₁ _ heq
        cases ys with
        | nil => exact ⟨rfl, rfl, by simpa [streamNodes] using heq⟩
        | cons y ys =>
          obtain ⟨r, tail, hnode, hparent⟩ := streamNode_ne_nil y (some p) id
          simp only [streamNodes, hnode, List.nil_append, List.cons_append] at heq
          have := h₁ r (by rw [heq]; rfl) p hparent
          omega
      | cons x xs ihxs =>
        intro ys hmem p id r₁ r₂ hp h₁ h₂ heq
        cases ys with
        | nil =>
          obtain ⟨r, tail, hnode, hparent⟩ := streamNode_ne_nil x (some p) id
          simp only [streamNodes, hnode, List.nil_append, List.cons_append] at heq
          have := h₂ r (by rw [← heq]; rfl) p hparent
          omega
        | cons y ys =>
          simp only [streamNodes, List.append_assoc] at heq
          obtain ⟨hxy, hsame, hrest⟩ := ih x (hmem x List.mem_cons_self) y (some p) id _ _
            (streamNodes_append_closed xs p id _ r₁ hp h₁) (streamNodes_append_closed ys p id _ r₂ hp h₂)
            heq
          rw [hsame] at hrest
          obtain ⟨hlist, hsame', hr⟩ := ihxs ys (fun z hz => hmem z (List.mem_cons_of_mem _ hz)) p
            (id + (streamNode y (some p) id).length) r₁ r₂ (by omega) h₁ h₂ hrest
          refine ⟨by rw [SystemFile.streamedList, SystemFile.streamedList, hxy, hlist], ?_, hr⟩
          simp only [streamNodes, hsame, hsame']
    intro g parent id r₁ r₂ h₁ h₂ heq
    cases g with
    | mk b ds =>
      simp only [streamNode, List.cons_append, List.cons.injEq, StreamRecord.mk.injEq, true_and] at heq
      obtain ⟨hab, heq⟩ := heq
      obtain ⟨hcs, hsame, hr⟩ := siblings cs ds (fun _ h => h) id (id + 1) r₁ r₂ (by omega) h₁ h₂ heq
      refine ⟨?_, ?_, hr⟩
      · rw [SystemFile.streamed, SystemFile.streamed, (streamed_of_shallow a b).mp hab, hcs]
      · rw [streamNode, streamNode, hab, hsame]

theorem streamRecords_injective (f g : SystemFile) (h : streamRecords f = streamRecords g) :
    f.streamed = g.streamed := by
  have closed : ClosedAt 0 [] := by intro r hr; simp at hr
  exact (streamNode_inj f g none 0 [] [] closed closed (by simpa [streamRecords] using h)).1

/-! ## Digests without collisions exist -/

instance countableChar : Countable Char :=
  Function.Injective.countable (f := Char.toNat) (fun _ _ h => Char.ext (UInt32.toNat_inj.mp h))

instance countableString : Countable String :=
  Function.Injective.countable (f := String.toList) (fun _ _ h => String.toList_inj.mp h)

instance : Countable Timestamp :=
  Function.Injective.countable (f := fun t => (t.wall, t.utcoffset)) (fun a b h => by cases a; cases b; simp_all)

instance : Countable StreamData :=
  Function.Injective.countable
    (f := fun d => (d.name, d.size, d.isDir, d.timeCreated, d.timeModified, d.mtimeNs, d.isStaging,
      d.hasStagingCollision))
    (fun a b h => by cases a; cases b; simp_all)

instance : Countable StreamRecord :=
  Function.Injective.countable (f := fun r => (r.id, r.parent, r.file)) (fun a b h => by cases a; cases b; simp_all)

theorem exists_injective_digest : ∃ sha256 : List StreamRecord → Digest, Function.Injective sha256 := by
  obtain ⟨code, hcode⟩ := exists_injective_nat (List StreamRecord)
  refine ⟨fun records => String.ofList (List.replicate (code records) 'a'), fun a b h => hcode ?_⟩
  have hl := congrArg String.toList h
  simpa using congrArg List.length hl

end SeedSync
