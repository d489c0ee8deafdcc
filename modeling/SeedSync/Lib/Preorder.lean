import Mathlib.Algebra.Ring.Nat
import Mathlib.Data.List.Basic
import Mathlib.Algebra.BigOperators.Group.List.Basic

/-!
# Trees in preorder

An ordered tree as the list of its nodes in preorder, each with a number and the number of its
parent, and the stack of open nodes that reads such a list back.
-/

namespace SeedSync.Lib

inductive Rose (α : Type) where
  | node (value : α) (children : List (Rose α))

/-- A node as it stands in a list: its number, that of its parent, and its value. -/
structure Item (α : Type) where
  id : Nat
  parent : Option Nat
  value : α
  deriving DecidableEq

def Item.map {α β : Type} (f : α → β) (item : Item α) : Item β := ⟨item.id, item.parent, f item.value⟩

namespace Rose

variable {α β : Type}

def value : Rose α → α
  | node value _ => value

def children : Rose α → List (Rose α)
  | node _ children => children

/-- One more child, after the others. -/
def add : Rose α → Rose α → Rose α
  | node value children, child => node value (children ++ [child])

mutual
def count : Rose α → Nat
  | node _ children => countAll children + 1

def countAll : List (Rose α) → Nat
  | [] => 0
  | tree :: trees => tree.count + countAll trees
end

mutual
def map (f : α → β) : Rose α → Rose β
  | node value children => node (f value) (mapAll f children)

def mapAll (f : α → β) : List (Rose α) → List (Rose β)
  | [] => []
  | tree :: trees => tree.map f :: mapAll f trees
end

mutual
/-- Every node that has children is of the given kind. -/
def ParentsOnly (kind : α → Prop) : Rose α → Prop
  | node value children => (children ≠ [] → kind value) ∧ AllParentsOnly kind children

def AllParentsOnly (kind : α → Prop) : List (Rose α) → Prop
  | [] => True
  | tree :: trees => tree.ParentsOnly kind ∧ AllParentsOnly kind trees
end

mutual
def values : Rose α → List α
  | node value children => value :: valuesAll children

def valuesAll : List (Rose α) → List α
  | [] => []
  | tree :: trees => tree.values ++ valuesAll trees
end

mutual
/-- The nodes of a tree, numbered from `id` on. -/
def items : Rose α → Option Nat → Nat → List (Item α)
  | node value children, parent, id => ⟨id, parent, value⟩ :: itemsAll children (some id) (id + 1)

def itemsAll : List (Rose α) → Option Nat → Nat → List (Item α)
  | [], _, _ => []
  | tree :: trees, parent, id => tree.items parent id ++ itemsAll trees parent (id + tree.count)
end

/-- Induction on a tree, with the hypothesis for every child. -/
theorem induction {P : Rose α → Prop} (step : ∀ value children, (∀ child ∈ children, P child) → P (node value children))
    (tree : Rose α) : P tree := by
  refine @Rose.rec α P (fun children => ∀ child ∈ children, P child) step (by simp) ?_ tree
  intro first rest hfirst hrest child hchild
  rcases List.mem_cons.mp hchild with rfl | hchild
  · exact hfirst
  · exact hrest child hchild

@[simp] theorem value_add (tree child : Rose α) : (tree.add child).value = tree.value := by
  cases tree
  rfl

theorem countAll_append (trees more : List (Rose α)) : countAll (trees ++ more) = countAll trees + countAll more := by
  induction trees with
  | nil => simp [countAll]
  | cons tree trees ih => simp [countAll, ih]; omega

@[simp] theorem count_add (tree child : Rose α) : (tree.add child).count = tree.count + child.count := by
  cases tree
  simp [add, count, countAll_append, countAll]
  omega

theorem allParentsOnly_append {kind : α → Prop} (trees more : List (Rose α)) :
    AllParentsOnly kind (trees ++ more) ↔ AllParentsOnly kind trees ∧ AllParentsOnly kind more := by
  induction trees with
  | nil => simp [AllParentsOnly]
  | cons tree trees ih => simp [AllParentsOnly, ih, and_assoc]

theorem ParentsOnly.add {kind : α → Prop} {tree child : Rose α} (h : tree.ParentsOnly kind)
    (hvalue : kind tree.value) (hchild : child.ParentsOnly kind) : (tree.add child).ParentsOnly kind := by
  cases tree with
  | node value children =>
    simp only [Rose.add, ParentsOnly, allParentsOnly_append, AllParentsOnly, and_true] at h ⊢
    exact ⟨fun _ => hvalue, h.2, hchild⟩

mutual
theorem length_items (tree : Rose α) (parent : Option Nat) (id : Nat) : (tree.items parent id).length = tree.count := by
  cases tree with
  | node value children => simp [items, count, length_itemsAll children]

theorem length_itemsAll (trees : List (Rose α)) (parent : Option Nat) (id : Nat) :
    (itemsAll trees parent id).length = countAll trees := by
  cases trees with
  | nil => rfl
  | cons tree trees => simp [itemsAll, countAll, length_items tree, length_itemsAll trees]
end

mutual
/-- The nodes are numbered without a gap. -/
theorem ids_items (tree : Rose α) (parent : Option Nat) (id : Nat) :
    (tree.items parent id).map Item.id = List.range' id tree.count := by
  cases tree with
  | node value children =>
    rw [items, count, List.map_cons, ids_itemsAll children, List.range'_succ]

theorem ids_itemsAll (trees : List (Rose α)) (parent : Option Nat) (id : Nat) :
    (itemsAll trees parent id).map Item.id = List.range' id (countAll trees) := by
  cases trees with
  | nil => rfl
  | cons tree trees =>
    rw [itemsAll, countAll, List.map_append, ids_items tree, ids_itemsAll trees, List.range'_append_1]
end

mutual
/-- The parent of a node is that of the tree, or a node of it. -/
theorem parent_items (tree : Rose α) (parent : Option Nat) (id : Nat) : ∀ item ∈ tree.items parent id,
    item.parent = parent ∨ ∃ p, item.parent = some p ∧ p < id + tree.count := by
  match tree with
  | node value children =>
    rw [items, count]
    rintro item (_ | ⟨_, hitem⟩)
    · exact Or.inl rfl
    · refine Or.inr ?_
      rcases parent_itemsAll children (some id) (id + 1) item hitem with hparent | ⟨p, hparent, hlt⟩
      · exact ⟨id, hparent, by omega⟩
      · exact ⟨p, hparent, by omega⟩

theorem parent_itemsAll (trees : List (Rose α)) (parent : Option Nat) (id : Nat) : ∀ item ∈ itemsAll trees parent id,
    item.parent = parent ∨ ∃ p, item.parent = some p ∧ p < id + countAll trees := by
  match trees with
  | [] => simp [itemsAll]
  | tree :: trees =>
    rw [itemsAll, countAll]
    intro item hitem
    rcases List.mem_append.mp hitem with hitem | hitem
    · rcases parent_items tree parent id item hitem with hparent | ⟨p, hparent, hlt⟩
      · exact Or.inl hparent
      · exact Or.inr ⟨p, hparent, by omega⟩
    · rcases parent_itemsAll trees parent (id + tree.count) item hitem with hparent | ⟨p, hparent, hlt⟩
      · exact Or.inl hparent
      · exact Or.inr ⟨p, hparent, by omega⟩
end

mutual
theorem map_value_items (tree : Rose α) (parent : Option Nat) (id : Nat) :
    (tree.items parent id).map Item.value = tree.values := by
  match tree with
  | node value children => rw [items, values, List.map_cons, map_value_itemsAll children]

theorem map_value_itemsAll (trees : List (Rose α)) (parent : Option Nat) (id : Nat) :
    (itemsAll trees parent id).map Item.value = valuesAll trees := by
  match trees with
  | [] => rw [itemsAll, valuesAll, List.map_nil]
  | tree :: trees => rw [itemsAll, valuesAll, List.map_append, map_value_items tree, map_value_itemsAll trees]
end

mutual
theorem count_map (f : α → β) (tree : Rose α) : (tree.map f).count = tree.count := by
  cases tree with
  | node value children => rw [map, count, count, countAll_mapAll f children]

theorem countAll_mapAll (f : α → β) (trees : List (Rose α)) : countAll (mapAll f trees) = countAll trees := by
  cases trees with
  | nil => rfl
  | cons tree trees => rw [mapAll, countAll, countAll, count_map f tree, countAll_mapAll f trees]
end

mutual
theorem items_map (f : α → β) (tree : Rose α) (parent : Option Nat) (id : Nat) :
    (tree.map f).items parent id = (tree.items parent id).map (Item.map f) := by
  cases tree with
  | node value children =>
    rw [map, items, items, List.map_cons, itemsAll_mapAll f children]
    rfl

theorem itemsAll_mapAll (f : α → β) (trees : List (Rose α)) (parent : Option Nat) (id : Nat) :
    itemsAll (mapAll f trees) parent id = (itemsAll trees parent id).map (Item.map f) := by
  cases trees with
  | nil => rfl
  | cons tree trees =>
    rw [mapAll, itemsAll, itemsAll, List.map_append, items_map f tree, count_map, itemsAll_mapAll f trees]
end

theorem mapAll_eq_nil (f : α → β) (trees : List (Rose α)) : mapAll f trees = [] ↔ trees = [] := by
  cases trees <;> simp [mapAll]

mutual
theorem parentsOnly_map {kind : β → Prop} (f : α → β) (tree : Rose α) :
    (tree.map f).ParentsOnly kind ↔ tree.ParentsOnly fun value => kind (f value) := by
  cases tree with
  | node value children =>
    simp only [map, ParentsOnly, allParentsOnly_mapAll f children, ne_eq, mapAll_eq_nil]

theorem allParentsOnly_mapAll {kind : β → Prop} (f : α → β) (trees : List (Rose α)) :
    AllParentsOnly kind (mapAll f trees) ↔ AllParentsOnly (fun value => kind (f value)) trees := by
  cases trees with
  | nil => rfl
  | cons tree trees =>
    simp only [mapAll, AllParentsOnly, parentsOnly_map f tree, allParentsOnly_mapAll f trees]
end

theorem count_pos (tree : Rose α) : 0 < tree.count := by
  cases tree
  rw [count]
  exact Nat.succ_pos _

/-- The numbers of the nodes go up to the count. -/
theorem exists_last_item (tree : Rose α) (parent : Option Nat) (id : Nat) :
    ∃ item ∈ tree.items parent id, item.id + 1 = id + tree.count := by
  have hpos := tree.count_pos
  have hlast : id + tree.count - 1 ∈ (tree.items parent id).map Item.id := by
    rw [ids_items, List.mem_range'_1]
    omega
  obtain ⟨item, hitem, hid⟩ := List.mem_map.mp hlast
  exact ⟨item, hitem, by omega⟩

end Rose

/-! ## The stack that writes the list -/

variable {α : Type}

/-- The nodes that are still to be written, the next one first. -/
abbrev Pending (α : Type) := List (Rose α × Option Nat)

/-- The children of the node that was written, in front of the rest. -/
def Pending.push (children : List (Rose α)) (id : Nat) (rest : Pending α) : Pending α :=
  children.map (fun child => (child, some id)) ++ rest

def Pending.count (pending : Pending α) : Nat := (pending.map fun entry => entry.1.count).sum

theorem Pending.count_push (children : List (Rose α)) (id : Nat) (rest : Pending α) :
    Pending.count (Pending.push children id rest) = Rose.countAll children + Pending.count rest := by
  induction children with
  | nil => simp [Pending.push, Pending.count, Rose.countAll]
  | cons child children ih =>
    simp only [Pending.push, Pending.count, List.map_cons, List.cons_append, List.sum_cons, Rose.countAll] at ih ⊢
    omega

/-- What a stack writes. -/
def Pending.items : Pending α → Nat → List (Item α)
  | [], _ => []
  | (tree, parent) :: rest, id => tree.items parent id ++ Pending.items rest (id + tree.count)

theorem Pending.items_push (children : List (Rose α)) (parent : Nat) (rest : Pending α) (id : Nat) :
    Pending.items (Pending.push children parent rest) id =
      Rose.itemsAll children (some parent) id ++ Pending.items rest (id + Rose.countAll children) := by
  unfold Pending.push
  induction children generalizing id with
  | nil => simp [Rose.itemsAll, Rose.countAll]
  | cons child children ih =>
    simp only [List.map_cons, List.cons_append, Pending.items, Rose.itemsAll, Rose.countAll, ih, List.append_assoc]
    rw [Nat.add_assoc]

/-- Writing one node puts its children in front of the rest. -/
theorem Pending.items_pop (value : α) (children : List (Rose α)) (parent : Option Nat) (rest : Pending α) (id : Nat) :
    Pending.items ((.node value children, parent) :: rest) id =
      ⟨id, parent, value⟩ :: Pending.items (Pending.push children id rest) (id + 1) := by
  rw [Pending.items, Pending.items_push, Rose.items, Rose.count, List.cons_append]
  rw [show id + (Rose.countAll children + 1) = id + 1 + Rose.countAll children by omega]

/-! ## The stack that reads it -/

/-- The open nodes, the innermost first. Each holds its complete children; the child that is
open stands before it. -/
abbrev Opened (α : Type) := List (Nat × Rose α)

def hang (tree : Rose α) : Option (Rose α) → Rose α
  | none => tree
  | some child => tree.add child

/-- Close the nodes inside the one of a number. -/
def closeTo (parent : Nat) : Option (Rose α) → Opened α → Option (Opened α)
  | _, [] => none
  | closed, (id, tree) :: rest =>
    if id = parent then some ((id, hang tree closed) :: rest) else closeTo parent (some (hang tree closed)) rest

/-- The tree as far as it is read. -/
def closeAll : Option (Rose α) → Opened α → Option (Rose α)
  | closed, [] => closed
  | closed, (_, tree) :: rest => closeAll (some (hang tree closed)) rest

/-- Put one node on the stack. -/
def place (isParent : α → Bool) (stack : Opened α) (item : Item α) : Option (Opened α) :=
  match stack, item.parent with
  | [], none => some [(item.id, .node item.value [])]
  | [], some _ => none
  | _ :: _, none => none
  | stack, some parent =>
    match closeTo parent none stack with
    | some ((id, tree) :: rest) =>
      if isParent tree.value then some ((item.id, .node item.value []) :: (id, tree) :: rest) else none
    | _ => none

theorem place_ne_nil {isParent : α → Bool} {stack stack' : Opened α} {item : Item α}
    (h : place isParent stack item = some stack') : stack' ≠ [] := by
  unfold place at h
  split at h
  · cases h
    simp
  · cases h
  · cases h
  · split at h
    · split_ifs at h
      cases h
      simp
    · cases h

theorem foldlM_place_ne_nil {isParent : α → Bool} {stack stack' : Opened α} {items : List (Item α)} (hne : items ≠ [])
    (h : items.foldlM (place isParent) stack = some stack') : stack' ≠ [] := by
  induction items generalizing stack with
  | nil => exact absurd rfl hne
  | cons item items ih =>
    rw [List.foldlM_cons] at h
    obtain ⟨middle, hmiddle, h⟩ := Option.bind_eq_some_iff.mp h
    by_cases hlast : items = []
    · subst hlast
      cases h
      exact place_ne_nil hmiddle
    · exact ih hlast h

/-- Only a node without a parent is put on an empty stack. -/
theorem parent_of_place_nil {isParent : α → Bool} {stack' : Opened α} {item : Item α}
    (h : place isParent [] item = some stack') : item.parent = none := by
  rcases hparent : item.parent with _ | parent
  · rfl
  · simp [place, hparent] at h

/-- The numbers grow along the stack and stay below `next`. -/
def Ascending (next : Nat) (stack : Opened α) : Prop :=
  (stack.map Prod.fst).Pairwise (· > ·) ∧ ∀ entry ∈ stack, entry.1 < next

theorem Ascending.mono {stack : Opened α} {next next' : Nat} (h : Ascending next stack) (hle : next ≤ next') :
    Ascending next' stack :=
  ⟨h.1, fun entry hentry => Nat.lt_of_lt_of_le (h.2 entry hentry) hle⟩

theorem closeTo_closeAll {parent : Nat} {closed : Option (Rose α)} {stack stack' : Opened α}
    (h : closeTo parent closed stack = some stack') : closeAll none stack' = closeAll closed stack := by
  induction stack generalizing closed with
  | nil => cases h
  | cons entry rest ih =>
    obtain ⟨id, tree⟩ := entry
    rw [closeTo] at h
    split_ifs at h
    · cases h
      rfl
    · exact ih h

/-- Closing keeps the outer part of the stack, up to the values of the nodes. -/
theorem closeTo_cases {parent : Nat} {closed : Option (Rose α)} {stack stack' : Opened α}
    (h : closeTo parent closed stack = some stack') :
    ∃ tree rest, stack' = (parent, tree) :: rest ∧ ∃ inner tree₀, stack = inner ++ (parent, tree₀) :: rest ∧
      tree.value = tree₀.value := by
  induction stack generalizing closed with
  | nil => cases h
  | cons entry rest ih =>
    obtain ⟨id, tree⟩ := entry
    rw [closeTo] at h
    split_ifs at h with hid
    · cases h
      subst hid
      refine ⟨_, rest, rfl, [], tree, rfl, ?_⟩
      cases closed <;> simp [hang]
    · obtain ⟨tree', rest', hstack', inner, tree₀, hrest, hvalue⟩ := ih h
      exact ⟨tree', rest', hstack', (id, tree) :: inner, tree₀, by rw [hrest]; rfl, hvalue⟩

theorem Ascending.closeTo {next parent : Nat} {stack stack' : Opened α} (h : Ascending next stack)
    (hclose : Lib.closeTo parent none stack = some stack') : Ascending next stack' := by
  obtain ⟨tree, rest, rfl, inner, tree₀, rfl, -⟩ := closeTo_cases hclose
  constructor
  · have hsorted := h.1
    rw [List.map_append, List.pairwise_append] at hsorted
    exact hsorted.2.1
  · intro entry hentry
    rcases List.mem_cons.mp hentry with rfl | hmem
    · exact h.2 (parent, tree₀) (List.mem_append_right _ List.mem_cons_self)
    · exact h.2 entry (List.mem_append_right _ (List.mem_cons_of_mem _ hmem))

/-- Closing to an outer node closes the inner one first. -/
theorem closeTo_outer {inner outer : Nat} (hlt : outer < inner) {closed : Option (Rose α)} {stack rest : Opened α}
    {tree : Rose α} (hsorted : (stack.map Prod.fst).Pairwise (· > ·))
    (h : closeTo inner closed stack = some ((inner, tree) :: rest)) :
    closeTo outer closed stack = closeTo outer (some tree) rest := by
  induction stack generalizing closed with
  | nil => cases h
  | cons entry below ih =>
    obtain ⟨id, top⟩ := entry
    rw [List.map_cons, List.pairwise_cons] at hsorted
    rw [closeTo] at h
    split_ifs at h with hid
    · cases h
      rw [closeTo, if_neg (by omega)]
    · obtain ⟨_, _, heq, before, tree₀, hbelow, -⟩ := closeTo_cases h
      have hgt : id > inner := hsorted.1 inner (List.mem_map.mpr ⟨(inner, tree₀), by rw [hbelow]; simp, rfl⟩)
      rw [closeTo, if_neg (by omega)]
      exact ih hsorted.2 h

/-! ### Reading back what was written -/

theorem place_child {isParent : α → Bool} {stack rest : Opened α} {parent id : Nat} {tree : Rose α} {value : α}
    (hclose : closeTo parent none stack = some ((parent, tree) :: rest)) (hparent : isParent tree.value = true) :
    place isParent stack ⟨id, some parent, value⟩ = some ((id, .node value []) :: (parent, tree) :: rest) := by
  cases stack with
  | nil => cases hclose
  | cons entry below => simp [place, hclose, hparent]

theorem Ascending.push {next : Nat} {stack : Opened α} (h : Ascending next stack) (tree : Rose α) :
    Ascending (next + 1) ((next, tree) :: stack) := by
  constructor
  · rw [List.map_cons, List.pairwise_cons]
    refine ⟨fun id hid => ?_, h.1⟩
    obtain ⟨entry, hentry, rfl⟩ := List.mem_map.mp hid
    exact h.2 entry hentry
  · intro entry hentry
    rcases List.mem_cons.mp hentry with rfl | hentry
    · exact Nat.lt_succ_self _
    · exact Nat.lt_succ_of_lt (h.2 entry hentry)

/-- Reading the nodes of a tree hangs the tree into its parent. -/
def ReadsBack (isParent : α → Bool) (tree : Rose α) : Prop :=
  ∀ (stack rest : Opened α) (parent id : Nat) (outer : Rose α), Ascending id stack →
    closeTo parent none stack = some ((parent, outer) :: rest) → isParent outer.value = true →
    ∃ stack', (tree.items (some parent) id).foldlM (place isParent) stack = some stack' ∧
      Ascending (id + tree.count) stack' ∧ closeTo parent none stack' = some ((parent, outer.add tree) :: rest)

theorem reads_children {isParent : α → Bool} (trees : List (Rose α)) (h : ∀ tree ∈ trees, ReadsBack isParent tree)
    (stack rest : Opened α) (parent id : Nat) (outer : Rose α) (hasc : Ascending id stack)
    (hclose : closeTo parent none stack = some ((parent, outer) :: rest))
    (hparent : trees ≠ [] → isParent outer.value = true) :
    ∃ stack', (Rose.itemsAll trees (some parent) id).foldlM (place isParent) stack = some stack' ∧
      Ascending (id + Rose.countAll trees) stack' ∧
      closeTo parent none stack' = some ((parent, trees.foldl Rose.add outer) :: rest) := by
  induction trees generalizing stack id outer with
  | nil => exact ⟨stack, rfl, hasc, hclose⟩
  | cons tree trees ih =>
    have hvalue := hparent (by simp)
    obtain ⟨mid, hmid, hasc', hclose'⟩ := h tree List.mem_cons_self stack rest parent id outer hasc hclose hvalue
    obtain ⟨last, hlast, hasc'', hclose''⟩ := ih (fun t ht => h t (List.mem_cons_of_mem _ ht)) mid
      (id + tree.count) (outer.add tree) hasc' hclose' fun _ => by rw [Rose.value_add]; exact hvalue
    refine ⟨last, ?_, by rw [Rose.countAll, ← Nat.add_assoc]; exact hasc'', hclose''⟩
    rw [Rose.itemsAll, List.foldlM_append, hmid]
    exact hlast

theorem foldl_add (value : α) (done trees : List (Rose α)) :
    trees.foldl Rose.add (.node value done) = .node value (done ++ trees) := by
  induction trees generalizing done with
  | nil => simp
  | cons tree trees ih => rw [List.foldl_cons, Rose.add, ih, List.append_assoc]; rfl

/-- The children of a node that was just put on the stack. -/
theorem reads_node {isParent : α → Bool} {value : α} {children : List (Rose α)}
    (h : ∀ child ∈ children, ReadsBack isParent child) (hparent : children ≠ [] → isParent value = true)
    (below : Opened α) (id : Nat) (hasc : Ascending id below) :
    ∃ stack', (Rose.itemsAll children (some id) (id + 1)).foldlM (place isParent) ((id, .node value []) :: below) =
        some stack' ∧ Ascending (id + (Rose.node value children).count) stack' ∧
      closeTo id none stack' = some ((id, .node value children) :: below) := by
  obtain ⟨stack', hfold, hasc', hclose⟩ := reads_children children h ((id, .node value []) :: below) below id (id + 1)
    (.node value []) (hasc.push _) (by simp [closeTo, hang]) hparent
  refine ⟨stack', hfold, ?_, ?_⟩
  · rw [Rose.count, Nat.add_comm (Rose.countAll children), ← Nat.add_assoc]
    exact hasc'
  · rw [hclose, foldl_add, List.nil_append]

theorem allParentsOnly_mem {kind : α → Prop} {trees : List (Rose α)} (h : Rose.AllParentsOnly kind trees) :
    ∀ tree ∈ trees, tree.ParentsOnly kind := by
  induction trees with
  | nil => simp
  | cons first trees ih =>
    intro tree htree
    rcases List.mem_cons.mp htree with rfl | htree
    · exact h.1
    · exact ih h.2 tree htree

theorem readsBack {isParent : α → Bool} (tree : Rose α) (h : tree.ParentsOnly fun value => isParent value = true) :
    ReadsBack isParent tree := by
  induction tree using Rose.induction with
  | step value children ih =>
    intro stack rest parent id outer hasc hclose hvalue
    have hchildren : ∀ child ∈ children, ReadsBack isParent child := fun child hchild =>
      ih child hchild (allParentsOnly_mem h.2 child hchild)
    have hasc' := hasc.closeTo hclose
    obtain ⟨stack', hfold, hlast, hinner⟩ := reads_node hchildren h.1 _ id hasc'
    refine ⟨stack', ?_, hlast, ?_⟩
    · rw [Rose.items, List.foldlM_cons, place_child hclose hvalue]
      exact hfold
    · have hlt : parent < id := hasc'.2 (parent, outer) List.mem_cons_self
      rw [closeTo_outer hlt hlast.1 hinner, closeTo, if_pos rfl]
      rfl

/-- A whole tree is read back from the list of its nodes. -/
theorem reads_tree {isParent : α → Bool} (tree : Rose α) (h : tree.ParentsOnly fun value => isParent value = true) :
    ∃ stack, (tree.items none 0).foldlM (place isParent) [] = some stack ∧ Ascending tree.count stack ∧
      closeAll none stack = some tree := by
  cases tree with
  | node value children =>
    have hchildren : ∀ child ∈ children, ReadsBack isParent child := fun child hchild =>
      readsBack child (allParentsOnly_mem h.2 child hchild)
    obtain ⟨stack, hfold, hasc, hclose⟩ := reads_node hchildren h.1 [] 0 ⟨by simp, by simp⟩
    refine ⟨stack, ?_, by simpa using hasc, ?_⟩
    · rw [Rose.items, List.foldlM_cons]
      exact hfold
    · rw [← closeTo_closeAll hclose]
      rfl

/-! ### What is read is a tree -/

/-- The parts of the tree are sound, and every node with an open child may have children. -/
def Sound (isParent : α → Bool) (stack : Opened α) : Prop :=
  (∀ entry ∈ stack, entry.2.ParentsOnly fun value => isParent value = true) ∧
    ∀ entry ∈ stack.tail, isParent entry.2.value = true

def countStack (stack : Opened α) : Nat := (stack.map fun entry => entry.2.count).sum

theorem count_hang (tree : Rose α) (closed : Option (Rose α)) :
    (hang tree closed).count = tree.count + (closed.elim 0 Rose.count) := by
  cases closed <;> simp [hang]

theorem closeTo_count {parent : Nat} {closed : Option (Rose α)} {stack stack' : Opened α}
    (h : closeTo parent closed stack = some stack') :
    countStack stack' = countStack stack + closed.elim 0 Rose.count := by
  induction stack generalizing closed with
  | nil => cases h
  | cons entry rest ih =>
    obtain ⟨id, tree⟩ := entry
    rw [closeTo] at h
    split_ifs at h
    · cases h
      simp [countStack, count_hang]
      omega
    · rw [ih h]
      simp [countStack, count_hang]
      omega

theorem closeAll_count {closed : Option (Rose α)} {stack : Opened α} {tree : Rose α}
    (h : closeAll closed stack = some tree) : tree.count = countStack stack + closed.elim 0 Rose.count := by
  induction stack generalizing closed with
  | nil =>
    cases h
    simp [countStack]
  | cons entry rest ih =>
    rw [ih h]
    simp [countStack, count_hang]
    omega

theorem hang_sound {isParent : α → Bool} {tree : Rose α} {closed : Option (Rose α)}
    (htree : tree.ParentsOnly fun value => isParent value = true)
    (hclosed : ∀ child ∈ closed, child.ParentsOnly (fun value => isParent value = true) ∧ isParent tree.value = true) :
    (hang tree closed).ParentsOnly fun value => isParent value = true := by
  cases closed with
  | none => exact htree
  | some child => exact htree.add (hclosed child rfl).2 (hclosed child rfl).1

theorem Sound.closeTo {isParent : α → Bool} {parent : Nat} {closed : Option (Rose α)} {stack stack' : Opened α}
    (h : Sound isParent stack) (hclosed : ∀ child ∈ closed, child.ParentsOnly (fun value => isParent value = true) ∧
      ∀ entry ∈ stack.head?, isParent entry.2.value = true)
    (hclose : Lib.closeTo parent closed stack = some stack') : Sound isParent stack' := by
  induction stack generalizing closed with
  | nil => cases hclose
  | cons entry rest ih =>
    obtain ⟨id, tree⟩ := entry
    have htree : (hang tree closed).ParentsOnly fun value => isParent value = true :=
      hang_sound (h.1 (id, tree) List.mem_cons_self) fun child hchild =>
        ⟨(hclosed child hchild).1, (hclosed child hchild).2 (id, tree) rfl⟩
    rw [Lib.closeTo] at hclose
    split_ifs at hclose
    · cases hclose
      refine ⟨fun entry hentry => ?_, h.2⟩
      rcases List.mem_cons.mp hentry with rfl | hentry
      · exact htree
      · exact h.1 entry (List.mem_cons_of_mem _ hentry)
    · refine ih ⟨fun entry hentry => h.1 entry (List.mem_cons_of_mem _ hentry), fun entry hentry => ?_⟩ ?_ hclose
      · exact h.2 entry (List.mem_of_mem_tail hentry)
      · rintro child ⟨⟩
        exact ⟨htree, fun entry hentry => h.2 entry (List.mem_of_mem_head? hentry)⟩

theorem Sound.closeAll {isParent : α → Bool} {closed : Option (Rose α)} {stack : Opened α} {tree : Rose α}
    (h : Sound isParent stack) (hclosed : ∀ child ∈ closed, child.ParentsOnly (fun value => isParent value = true) ∧
      ∀ entry ∈ stack.head?, isParent entry.2.value = true)
    (hclose : Lib.closeAll closed stack = some tree) : tree.ParentsOnly fun value => isParent value = true := by
  induction stack generalizing closed with
  | nil =>
    cases hclose
    exact (hclosed tree rfl).1
  | cons entry rest ih =>
    obtain ⟨id, top⟩ := entry
    have htop : (hang top closed).ParentsOnly fun value => isParent value = true :=
      hang_sound (h.1 (id, top) List.mem_cons_self) fun child hchild =>
        ⟨(hclosed child hchild).1, (hclosed child hchild).2 (id, top) rfl⟩
    refine ih ⟨fun entry hentry => h.1 entry (List.mem_cons_of_mem _ hentry), fun entry hentry => ?_⟩ ?_ hclose
    · exact h.2 entry (List.mem_of_mem_tail hentry)
    · rintro child ⟨⟩
      exact ⟨htop, fun entry hentry => h.2 entry (List.mem_of_mem_head? hentry)⟩

/-- A node that is placed is one more of a sound tree, with the same root. -/
theorem place_sound {isParent : α → Bool} {stack stack' : Opened α} {item : Item α} (h : Sound isParent stack)
    (hplace : place isParent stack item = some stack') :
    Sound isParent stack' ∧ countStack stack' = countStack stack + 1 := by
  unfold place at hplace
  split at hplace
  · cases hplace
    simp [Sound, countStack, Rose.ParentsOnly, Rose.AllParentsOnly, Rose.count, Rose.countAll]
  · cases hplace
  · cases hplace
  · split at hplace
    · rename_i hclose
      split_ifs at hplace with hparent
      cases hplace
      have hsound := h.closeTo (by simp) hclose
      have hcount := closeTo_count hclose
      refine ⟨⟨fun entry hentry => ?_, fun entry hentry => ?_⟩, ?_⟩
      · rcases List.mem_cons.mp hentry with rfl | hentry
        · simp [Rose.ParentsOnly, Rose.AllParentsOnly]
        · exact hsound.1 entry hentry
      · rcases List.mem_cons.mp hentry with rfl | hentry
        · exact hparent
        · exact hsound.2 entry hentry
      · simp [countStack, Rose.count, Rose.countAll] at hcount ⊢
        omega
    · cases hplace

/-! ### The root keeps its value -/

/-- The value of the outermost node. -/
def rootValue (stack : Opened α) : Option α := stack.getLast?.map fun entry => entry.2.value

theorem closeAll_value {closed : Option (Rose α)} {stack : Opened α} {tree : Rose α} {value : α}
    (hvalue : rootValue stack = some value) (h : closeAll closed stack = some tree) : tree.value = value := by
  induction stack generalizing closed with
  | nil => simp [rootValue] at hvalue
  | cons entry rest ih =>
    obtain ⟨id, top⟩ := entry
    rw [closeAll] at h
    cases rest with
    | nil =>
      cases h
      simp only [rootValue, List.getLast?_singleton, Option.map_some, Option.some.injEq] at hvalue
      cases closed <;> simp [hang, ← hvalue]
    | cons next rest => exact ih (by simpa [rootValue] using hvalue) h

theorem rootValue_closeTo {parent : Nat} {stack stack' : Opened α} (h : closeTo parent none stack = some stack') :
    rootValue stack' = rootValue stack := by
  obtain ⟨tree, rest, rfl, inner, tree₀, rfl, hvalue⟩ := closeTo_cases h
  unfold rootValue
  rw [List.getLast?_append_of_ne_nil _ (by simp)]
  cases rest with
  | nil => simp [hvalue]
  | cons next rest => simp [List.getLast?_cons_cons]

/-- The first node is the root for good. -/
theorem rootValue_place {isParent : α → Bool} {stack stack' : Opened α} {item : Item α}
    (h : place isParent stack item = some stack') :
    rootValue stack' = if stack = [] then some item.value else rootValue stack := by
  obtain ⟨id, parent, value⟩ := item
  cases stack with
  | nil =>
    cases parent with
    | none =>
      cases h
      rfl
    | some parent => cases h
  | cons entry below =>
    rw [if_neg (by simp)]
    cases parent with
    | none => cases h
    | some parent =>
      simp only [place] at h
      split at h
      · rename_i hclose
        split_ifs at h
        cases h
        rw [← rootValue_closeTo hclose]
        rfl
      · cases h

end SeedSync.Lib
