import Mathlib.Algebra.Order.BigOperators.Group.List
import Mathlib.Algebra.Order.Ring.Nat
import SeedSync.System.File

/-!
# Trees without a subtree

What `prune_confirmed_local_deletion` leaves of a tree, said by the nodes at its paths.
-/

namespace SeedSync.SystemFile

/-- The size of a directory is that of its children together, at every depth. -/
inductive Summed : SystemFile → Prop
  | mk {a : FileAttrs} {cs : List SystemFile} (here : a.isDir = true → a.size = (cs.map size).sum)
      (below : ∀ c ∈ cs, Summed c) : Summed (mk a cs)

/-! ## Children -/

/-- The children with those of a name replaced, or left out. -/
def replaceNamed (cs : List SystemFile) (n : String) (x : Option SystemFile) : List SystemFile :=
  cs.flatMap fun c => if c.name = n then x.toList else [c]

/-- A child stands apart from all others. -/
theorem exists_append_of_childNamed {cs : List SystemFile} (h : (cs.map name).Nodup) {n : String} {c : SystemFile}
    (hc : childNamed cs n = some c) :
    ∃ xs ys, cs = xs ++ c :: ys ∧ (∀ x ∈ xs, x.name ≠ n) ∧ (∀ y ∈ ys, y.name ≠ n) ∧ c.name = n := by
  obtain ⟨hmem, rfl⟩ := childNamed_mem hc
  obtain ⟨xs, ys, rfl⟩ := List.append_of_mem hmem
  rw [List.map_append, List.map_cons] at h
  have hnot := (List.nodup_cons.1 (List.nodup_middle.1 h)).1
  exact ⟨xs, ys, rfl, fun x hx he => hnot (List.mem_append_left _ (List.mem_map.2 ⟨x, hx, he⟩)),
    fun y hy he => hnot (List.mem_append_right _ (List.mem_map.2 ⟨y, hy, he⟩)), rfl⟩

theorem replaceNamed_absent {cs : List SystemFile} {n : String} (h : ∀ c ∈ cs, c.name ≠ n) (x : Option SystemFile) :
    replaceNamed cs n x = cs := by
  induction cs with
  | nil => rfl
  | cons c cs ih =>
    have ih := ih fun d hd => h d (List.mem_cons_of_mem _ hd)
    unfold replaceNamed at ih ⊢
    rw [List.flatMap_cons, if_neg (h c List.mem_cons_self), ih]
    rfl

theorem replaceNamed_append {xs ys : List SystemFile} {c : SystemFile} {n : String} (hx : ∀ x ∈ xs, x.name ≠ n)
    (hy : ∀ y ∈ ys, y.name ≠ n) (hc : c.name = n) (x : Option SystemFile) :
    replaceNamed (xs ++ c :: ys) n x = xs ++ (x.toList ++ ys) := by
  have hfront := replaceNamed_absent hx x
  have hback := replaceNamed_absent hy x
  unfold replaceNamed at hfront hback ⊢
  rw [List.flatMap_append, List.flatMap_cons, if_pos hc, hfront, hback]

theorem childNamed_replaceNamed_ne {cs : List SystemFile} {n m : String} (h : m ≠ n) {x : Option SystemFile}
    (hx : ∀ y, x = some y → y.name = n) : childNamed (replaceNamed cs n x) m = childNamed cs m := by
  induction cs with
  | nil => rfl
  | cons c cs ih =>
    have hcons : replaceNamed (c :: cs) n x = (if c.name = n then x.toList else [c]) ++ replaceNamed cs n x := rfl
    rw [hcons, childNamed_append, ih, childNamed]
    have hfirst : childNamed (if c.name = n then x.toList else [c]) m = if c.name = m then some c else none := by
      by_cases hc : c.name = n
      · rw [if_pos hc, if_neg fun hm : c.name = m => h (hm.symm.trans hc)]
        cases x with
        | none => rfl
        | some y =>
          refine childNamed_eq_none fun d hd => ?_
          rw [Option.toList_some, List.mem_singleton] at hd
          rw [hd, hx y rfl]
          exact h.symm
      · rw [if_neg hc]
        rfl
    rw [hfirst]
    cases childNamed cs m <;> rfl

theorem childNamed_replaceNamed_none (cs : List SystemFile) (n : String) : childNamed (replaceNamed cs n none) n = none := by
  refine childNamed_eq_none fun d hd => ?_
  obtain ⟨c, -, hc⟩ := List.mem_flatMap.1 hd
  split_ifs at hc with hname
  · simp at hc
  · rw [List.mem_singleton] at hc
    rwa [hc]

theorem childNamed_replaceNamed_some {cs : List SystemFile} (h : (cs.map name).Nodup) {n : String} {c d : SystemFile}
    (hc : childNamed cs n = some c) (hd : d.name = n) : childNamed (replaceNamed cs n (some d)) n = some d := by
  obtain ⟨xs, ys, rfl, hx, hy, hname⟩ := exists_append_of_childNamed h hc
  rw [replaceNamed_append hx hy hname, Option.toList_some, List.singleton_append, childNamed_append, childNamed,
    childNamed_eq_none hy, if_pos hd]
  rfl

theorem replaceNamed_self {cs : List SystemFile} (h : (cs.map name).Nodup) {n : String} {c : SystemFile}
    (hc : childNamed cs n = some c) : replaceNamed cs n (some c) = cs := by
  obtain ⟨xs, ys, rfl, hx, hy, hname⟩ := exists_append_of_childNamed h hc
  rw [replaceNamed_append hx hy hname]
  rfl

/-- A child that is replaced twice. -/
theorem replaceNamed_twice {cs : List SystemFile} {n : String} {d : SystemFile} (hd : d.name = n) (x : Option SystemFile) :
    replaceNamed (replaceNamed cs n (some d)) n x = replaceNamed cs n x := by
  unfold replaceNamed
  rw [List.flatMap_assoc]
  refine List.flatMap_congr fun c _ => ?_
  by_cases hc : c.name = n
  · simp [hc, hd]
  · simp [hc]

theorem replaceNamed_comm {cs : List SystemFile} {n m : String} (h : n ≠ m) {x y : Option SystemFile}
    (hx : ∀ d, x = some d → d.name = n) (hy : ∀ d, y = some d → d.name = m) :
    replaceNamed (replaceNamed cs n x) m y = replaceNamed (replaceNamed cs m y) n x := by
  unfold replaceNamed
  rw [List.flatMap_assoc, List.flatMap_assoc]
  refine List.flatMap_congr fun c _ => ?_
  have hxs : ∀ d ∈ x.toList, d.name ≠ m := fun d hd => by
    rw [hx d (by simpa using hd)]
    exact h
  have hys : ∀ d ∈ y.toList, d.name ≠ n := fun d hd => by
    rw [hy d (by simpa using hd)]
    exact h.symm
  by_cases hn : c.name = n
  · have hm : c.name ≠ m := fun he => h (hn.symm.trans he)
    rw [if_pos hn, if_neg hm, List.flatMap_singleton, if_pos hn]
    exact replaceNamed_absent hxs y
  · by_cases hm : c.name = m
    · rw [if_neg hn, if_pos hm, List.flatMap_singleton, if_pos hm]
      exact (replaceNamed_absent hys x).symm
    · simp [hn, hm]

theorem sum_replaceNamed {cs : List SystemFile} (h : (cs.map name).Nodup) {n : String} {c : SystemFile}
    (hc : childNamed cs n = some c) (x : Option SystemFile) :
    ((replaceNamed cs n x).map size).sum + c.size = (cs.map size).sum + ((x.map size).getD 0) := by
  obtain ⟨xs, ys, rfl, hx, hy, hname⟩ := exists_append_of_childNamed h hc
  rw [replaceNamed_append hx hy hname]
  cases x with
  | none => simp; omega
  | some d => simp; omega

/-! ## The tree without a path -/

/-- The size of what lies at a path. -/
def sizeAt (file : SystemFile) (path : List String) : Nat := ((nodeAt file path).map size).getD 0

/-- The tree without what lies at a path, its ancestors smaller by the size of that. -/
def without : SystemFile → List String → SystemFile
  | file, [] => file
  | file, n :: rest =>
    match childNamed file.children n with
    | none => file
    | some child =>
      mk { file.attrs with size := file.size - sizeAt child rest }
        (replaceNamed file.children n (if rest = [] then none else some (without child rest)))

theorem without_cons_none {file : SystemFile} {n : String} (h : childNamed file.children n = none) (rest : List String) :
    without file (n :: rest) = file := by rw [without, h]

theorem without_cons_some {file child : SystemFile} {n : String} (h : childNamed file.children n = some child)
    (rest : List String) : without file (n :: rest) = mk { file.attrs with size := file.size - sizeAt child rest }
      (replaceNamed file.children n (if rest = [] then none else some (without child rest))) := by rw [without, h]

theorem sizeAt_cons_some {file child : SystemFile} {n : String} (h : childNamed file.children n = some child)
    (rest : List String) : sizeAt file (n :: rest) = sizeAt child rest := by
  unfold sizeAt
  rw [nodeAt_cons, h, Option.bind_some]

theorem sizeAt_cons_none {file : SystemFile} {n : String} (h : childNamed file.children n = none) (rest : List String) :
    sizeAt file (n :: rest) = 0 := by
  unfold sizeAt
  rw [nodeAt_cons, h]
  rfl

/-- Only the size of the node itself may change. -/
theorem without_attrs {path : List String} (hne : path ≠ []) (file : SystemFile) :
    (without file path).attrs = { file.attrs with size := file.size - sizeAt file path } := by
  cases path with
  | nil => exact absurd rfl hne
  | cons n rest =>
    cases hchild : childNamed file.children n with
    | none =>
      rw [without_cons_none hchild, sizeAt_cons_none hchild]
      rfl
    | some child => rw [without_cons_some hchild, sizeAt_cons_some hchild, attrs_mk]

@[simp] theorem without_name (file : SystemFile) (path : List String) : (without file path).name = file.name := by
  cases path with
  | nil => rfl
  | cons n rest =>
    have hattrs := congrArg FileAttrs.name (without_attrs (List.cons_ne_nil n rest) file)
    exact hattrs

theorem without_size {path : List String} (hne : path ≠ []) (file : SystemFile) :
    (without file path).size = file.size - sizeAt file path := by
  have hattrs := congrArg FileAttrs.size (without_attrs hne file)
  exact hattrs

/-- The children named `n` afterwards. -/
theorem named_left {child : SystemFile} {n : String} (hname : child.name = n) (rest : List String) :
    ∀ d, (if rest = [] then none else some (without child rest)) = some d → d.name = n := by
  intro d hd
  split_ifs at hd
  obtain rfl := Option.some.inj hd
  rw [without_name, hname]

theorem without_absent {path : List String} {file : SystemFile} (h : WellFormed file) (habsent : nodeAt file path = none) :
    without file path = file := by
  induction path generalizing file with
  | nil => rfl
  | cons n rest ih =>
    cases hchild : childNamed file.children n with
    | none => exact without_cons_none hchild rest
    | some child =>
      rw [nodeAt_cons, hchild, Option.bind_some] at habsent
      have hrest : rest ≠ [] := by
        rintro rfl
        cases habsent
      have hsize : sizeAt child rest = 0 := by
        unfold sizeAt
        rw [habsent]
        rfl
      rw [without_cons_some hchild, hsize, if_neg hrest, ih (h.child hchild) habsent, replaceNamed_self h.names hchild]
      exact mk_attrs_children file

/-- The nodes of the tree: none at or below the path, an ancestor without the rest of the path, and the others. -/
theorem nodeAt_without {path : List String} (hne : path ≠ []) {file : SystemFile} (h : WellFormed file) (other : List String) :
    nodeAt (without file path) other =
      if path <+: other then none
      else if other <+: path then (nodeAt file other).map fun node => without node (path.drop other.length)
      else nodeAt file other := by
  induction path generalizing file other with
  | nil => exact absurd rfl hne
  | cons n rest ih =>
    cases other with
    | nil => simp [nodeAt]
    | cons m other =>
      by_cases hm : m = n
      · subst hm
        rw [nodeAt_cons, nodeAt_cons file]
        simp only [List.cons_prefix_cons, true_and, List.length_cons, List.drop_succ_cons]
        cases hchild : childNamed file.children m with
        | none =>
          rw [without_cons_none hchild, hchild]
          simp
        | some child =>
          have hname := (childNamed_mem hchild).2
          rw [without_cons_some hchild, children_mk, Option.bind_some]
          cases rest with
          | nil =>
            rw [if_pos rfl, childNamed_replaceNamed_none]
            simp
          | cons k rest =>
            rw [if_neg (List.cons_ne_nil k rest), childNamed_replaceNamed_some h.names hchild (by rw [without_name, hname]),
              Option.bind_some]
            exact ih (List.cons_ne_nil k rest) (h.child hchild) other
      · have hsame : childNamed (without file (n :: rest)).children m = childNamed file.children m := by
          cases hchild : childNamed file.children n with
          | none => rw [without_cons_none hchild]
          | some child =>
            rw [without_cons_some hchild, children_mk]
            exact childNamed_replaceNamed_ne hm (named_left (childNamed_mem hchild).2 rest)
        rw [if_neg fun hp => hm (List.cons_prefix_cons.1 hp).1.symm, if_neg fun hp => hm (List.cons_prefix_cons.1 hp).1,
          nodeAt_cons, hsame, ← nodeAt_cons]

/-! ## What stays true of it -/

theorem WellFormed.sub {file : SystemFile} (h : WellFormed file) {path : List String} : WellFormed (without file path) := by
  induction path generalizing file with
  | nil => exact h
  | cons n rest ih =>
    cases hchild : childNamed file.children n with
    | none =>
      rw [without_cons_none hchild]
      exact h
    | some child =>
      rw [without_cons_some hchild]
      have ⟨xs, ys, hcs, hx, hy, hname⟩ := exists_append_of_childNamed h.names hchild
      obtain @⟨a, cs, hleaf, hnames, hbelow⟩ := h
      change cs = _ at hcs
      subst hcs
      rw [children_mk, replaceNamed_append hx hy hname]
      have hleft : ∀ d ∈ (if rest = [] then none else some (without child rest)).toList, WellFormed d ∧ d.name = child.name := by
        intro d hd
        split_ifs at hd
        · simp at hd
        · rw [Option.toList_some, List.mem_singleton] at hd
          rw [hd]
          exact ⟨ih (hbelow child (by simp)), without_name child rest⟩
      refine .mk (fun hfile => absurd (hleaf hfile) (by simp)) ?_ fun d hd => ?_
      · rw [List.map_append, List.map_cons] at hnames
        rw [List.map_append, List.map_append]
        split_ifs
        · exact hnames.sublist (List.Sublist.append_left (List.sublist_cons_self _ _) _)
        · rw [Option.toList_some, List.map_singleton, List.singleton_append, without_name]
          exact hnames
      · rcases List.mem_append.1 hd with hd | hd
        · exact hbelow d (List.mem_append_left _ hd)
        · rcases List.mem_append.1 hd with hd | hd
          · exact (hleft d hd).1
          · exact hbelow d (List.mem_append_right _ (List.mem_cons_of_mem _ hd))

theorem Summed.child {file child : SystemFile} {n : String} (h : Summed file) (hchild : childNamed file.children n = some child) :
    Summed child := by
  cases h with
  | mk _ below => exact below child (childNamed_mem hchild).1

theorem Summed.size {file : SystemFile} (h : Summed file) (hdir : file.isDir = true) :
    file.size = (file.children.map SystemFile.size).sum := by
  cases h with
  | mk here _ => exact here hdir

theorem WellFormed.isDir {file child : SystemFile} {n : String} (h : WellFormed file)
    (hchild : childNamed file.children n = some child) : file.isDir = true := by
  by_contra hfile
  rw [h.leaf (by simpa using hfile)] at hchild
  cases hchild

/-- What lies at a path is no larger than the tree. -/
theorem sizeAt_le {path : List String} {file : SystemFile} (h : WellFormed file) (hsum : Summed file) :
    sizeAt file path ≤ file.size := by
  induction path generalizing file with
  | nil => exact Nat.le_refl _
  | cons n rest ih =>
    cases hchild : childNamed file.children n with
    | none =>
      rw [sizeAt_cons_none hchild]
      exact Nat.zero_le _
    | some child =>
      rw [sizeAt_cons_some hchild, hsum.size (h.isDir hchild)]
      have hmem := List.single_le_sum (fun _ _ => Nat.zero_le _) _
        (List.mem_map_of_mem (f := SystemFile.size) (childNamed_mem hchild).1)
      exact Nat.le_trans (ih (h.child hchild) (hsum.child hchild)) hmem

theorem Summed.without {file : SystemFile} (h : WellFormed file) (hsum : Summed file) {path : List String} :
    Summed (without file path) := by
  induction path generalizing file with
  | nil => exact hsum
  | cons n rest ih =>
    cases hchild : childNamed file.children n with
    | none =>
      rw [without_cons_none hchild]
      exact hsum
    | some child =>
      rw [without_cons_some hchild]
      have hsize := sum_replaceNamed h.names hchild (if rest = [] then none else some (SystemFile.without child rest))
      have hfile := hsum.size (h.isDir hchild)
      have hle : sizeAt child rest ≤ child.size := sizeAt_le (h.child hchild) (hsum.child hchild)
      refine .mk (fun _ => ?_) fun d hd => ?_
      · dsimp only
        split_ifs at hsize with hrest
        · subst hrest
          have hall : sizeAt child [] = child.size := rfl
          simp only [Option.map_none, Option.getD_none] at hsize
          rw [if_pos rfl]
          omega
        · simp only [Option.map_some, Option.getD_some, without_size hrest] at hsize
          rw [if_neg hrest]
          omega
      · obtain ⟨c, hc, hd⟩ := List.mem_flatMap.1 hd
        have hbelow : Summed c := by
          cases hsum with
          | mk _ below => exact below c hc
        split_ifs at hd with hname hrest
        · simp at hd
        · rw [Option.toList_some, List.mem_singleton] at hd
          rw [hd]
          exact ih (h.child hchild) (hsum.child hchild)
        · rw [List.mem_singleton] at hd
          rw [hd]
          exact hbelow

/-! ## Two paths -/

theorem without_twice {path : List String} {file : SystemFile} (h : WellFormed file) :
    without (without file path) path = without file path := by
  cases path with
  | nil => rfl
  | cons n rest =>
    refine without_absent h.sub ?_
    rw [nodeAt_without (List.cons_ne_nil n rest) h, if_pos (List.prefix_refl _)]

/-- A path that is gone with an ancestor of it. -/
theorem without_below {path : List String} {child : SystemFile} (h : WellFormed child) (hsum : Summed child) (hne : path ≠ []) :
    sizeAt child path + (without child path).size = child.size := by
  rw [without_size hne]
  have : sizeAt child path ≤ child.size := sizeAt_le h hsum
  omega

/-- What is left of a child is the child of that name. -/
theorem without_then {file child : SystemFile} (h : WellFormed file) {n : String}
    (hchild : childNamed file.children n = some child) {rest : List String} (hrest : rest ≠ []) (other : List String) :
    without (without file (n :: rest)) (n :: other) =
      mk { file.attrs with size := file.size - sizeAt child rest - sizeAt (without child rest) other }
        (replaceNamed file.children n (if other = [] then none else some (without (without child rest) other))) := by
  have hname : (without child rest).name = n := by rw [without_name, (childNamed_mem hchild).2]
  have hleft : childNamed (without file (n :: rest)).children n = some (without child rest) := by
    rw [without_cons_some hchild, children_mk, if_neg hrest]
    exact childNamed_replaceNamed_some h.names hchild hname
  rw [without_cons_some hleft, without_size (List.cons_ne_nil n rest), sizeAt_cons_some hchild, without_cons_some hchild,
    attrs_mk, children_mk, if_neg hrest, replaceNamed_twice hname]

/-- A child is left out, and then nothing below it is there. -/
theorem without_child_then {file child : SystemFile} (h : WellFormed file) (hsum : Summed file) {n : String}
    (hchild : childNamed file.children n = some child) {other : List String} (hother : other ≠ []) :
    without (without file [n]) (n :: other) = without (without file (n :: other)) [n] := by
  have hgone : childNamed (without file [n]).children n = none := by
    rw [without_cons_some hchild, children_mk, if_pos rfl]
    exact childNamed_replaceNamed_none _ _
  have hsize := without_below (h.child hchild) (hsum.child hchild) hother
  have hall : ∀ c : SystemFile, sizeAt c [] = c.size := fun _ => rfl
  rw [without_cons_none hgone, without_then h hchild hother, without_cons_some hchild, hall, hall, if_pos rfl,
    show file.size - child.size = file.size - sizeAt child other - (without child other).size by omega]
  rfl

/-- Two paths through one child. -/
theorem without_comm_same {file child : SystemFile} (h : WellFormed file) (hsum : Summed file) {n : String}
    (hchild : childNamed file.children n = some child) {rest other : List String}
    (ih : without (without child rest) other = without (without child other) rest) :
    without (without file (n :: rest)) (n :: other) = without (without file (n :: other)) (n :: rest) := by
  by_cases hrest : rest = []
  · subst hrest
    by_cases hother : other = []
    · rw [hother]
    · exact without_child_then h hsum hchild hother
  · by_cases hother : other = []
    · subst hother
      exact (without_child_then h hsum hchild hrest).symm
    · have hfirst := without_below (h.child hchild) (hsum.child hchild) hrest
      have hsecond := without_below (h.child hchild) (hsum.child hchild) hother
      have hleft : ∀ {path : List String}, Summed (without child path) := Summed.without (h.child hchild) (hsum.child hchild)
      have hfirst' := without_below (h.child hchild).sub (@hleft rest) hother
      have hsecond' := without_below (h.child hchild).sub (@hleft other) hrest
      rw [← ih] at hsecond'
      rw [without_then h hchild hrest, without_then h hchild hother, if_neg hother, if_neg hrest, ih,
        show file.size - sizeAt child rest - sizeAt (without child rest) other =
          file.size - sizeAt child other - sizeAt (without child other) rest by omega]

/-- A path through another child. -/
theorem without_then_apart {file child : SystemFile} {n m : String} (hchild : childNamed file.children n = some child)
    (hm : m ≠ n) {mine : SystemFile} (hmine : childNamed file.children m = some mine) (rest other : List String) :
    without (without file (n :: rest)) (m :: other) =
      mk { file.attrs with size := file.size - sizeAt child rest - sizeAt mine other }
        (replaceNamed (replaceNamed file.children n (if rest = [] then none else some (without child rest))) m
          (if other = [] then none else some (without mine other))) := by
  have hleft : childNamed (without file (n :: rest)).children m = some mine := by
    rw [without_cons_some hchild, children_mk, childNamed_replaceNamed_ne hm (named_left (childNamed_mem hchild).2 rest)]
    exact hmine
  rw [without_cons_some hleft, without_size (List.cons_ne_nil n rest), sizeAt_cons_some hchild, without_cons_some hchild,
    attrs_mk, children_mk]

theorem without_comm_apart {file child mine : SystemFile} {n m : String} (hchild : childNamed file.children n = some child)
    (hm : m ≠ n) (hmine : childNamed file.children m = some mine) (rest other : List String) :
    without (without file (n :: rest)) (m :: other) = without (without file (m :: other)) (n :: rest) := by
  rw [without_then_apart hchild hm hmine, without_then_apart hmine hm.symm hchild, Nat.sub_right_comm,
    replaceNamed_comm hm.symm (named_left (childNamed_mem hchild).2 rest) (named_left (childNamed_mem hmine).2 other)]

/-- A path that is not there is not there afterwards either. -/
theorem nodeAt_without_none {file : SystemFile} (h : WellFormed file) {path : List String} (habsent : nodeAt file path = none)
    (other : List String) : nodeAt (without file other) path = none := by
  cases other with
  | nil => exact habsent
  | cons m other =>
    rw [nodeAt_without (List.cons_ne_nil m other) h, habsent]
    split_ifs <;> rfl

theorem without_comm_absent {file : SystemFile} (h : WellFormed file) {path : List String} (habsent : nodeAt file path = none)
    (other : List String) : without (without file path) other = without (without file other) path := by
  rw [without_absent h habsent, without_absent h.sub (nodeAt_without_none h habsent other)]

theorem without_comm {file : SystemFile} (h : WellFormed file) (hsum : Summed file) (path other : List String) :
    without (without file path) other = without (without file other) path := by
  induction path generalizing file other with
  | nil => rfl
  | cons n rest ih =>
    cases other with
    | nil => rfl
    | cons m other =>
      cases hchild : childNamed file.children n with
      | none => exact without_comm_absent h (by rw [nodeAt_cons, hchild]; rfl) (m :: other)
      | some child =>
        by_cases hm : m = n
        · subst hm
          exact without_comm_same h hsum hchild (ih (h.child hchild) (hsum.child hchild) other)
        · cases hmine : childNamed file.children m with
          | none => exact (without_comm_absent h (by rw [nodeAt_cons, hmine]; rfl) (n :: rest)).symm
          | some mine => exact without_comm_apart hchild hm hmine rest other

/-! ## The walk of a deletion -/

theorem pruneChildren_removed {xs ys : List SystemFile} {c : SystemFile} (rest : List String)
    (hx : ∀ x ∈ xs, x.name ≠ c.name) (hy : ∀ y ∈ ys, y.name ≠ c.name) :
    (pruneChildren (xs ++ c :: ys) c.name rest).removedSize =
      if rest = [] then c.size
      else if (pruneConfirmedLocalDescendant c rest).2.2 then (pruneConfirmedLocalDescendant c rest).2.1 else 0 := by
  induction xs with
  | nil =>
    rw [List.nil_append]
    cases rest <;> simp [pruneChildren, pruneChildren_absent _ hy]
  | cons x xs ih =>
    rw [List.cons_append, pruneChildren_skip _ rest (hx x List.mem_cons_self)]
    exact ih fun d hd => hx d (List.mem_cons_of_mem _ hd)

/-- The walk leaves out what lies at the path, and tells its size and whether it was there. -/
theorem pruneConfirmedLocalDescendant_eq {path : List String} (hne : path ≠ []) {file : SystemFile} (h : WellFormed file) :
    pruneConfirmedLocalDescendant file path = (without file path, sizeAt file path, (nodeAt file path).isSome) := by
  induction path generalizing file with
  | nil => exact absurd rfl hne
  | cons n rest ih =>
    cases hchild : childNamed file.children n with
    | none =>
      have habsent : nodeAt file (n :: rest) = none := by
        rw [nodeAt_cons, hchild]
        rfl
      rw [without_cons_none hchild, sizeAt_cons_none hchild, habsent]
      obtain ⟨a, cs⟩ := file
      rw [children_mk] at hchild
      rw [pruneConfirmedLocalDescendant, pruneChildren_absent rest (childNamed_none_iff.1 hchild)]
      split_ifs
      · rfl
      · rw [if_pos (Or.inl (by simp))]
        rfl
    | some child =>
      have hdir := h.isDir hchild
      have hbelow := h.child hchild
      obtain ⟨xs, ys, hcs, hx, hy, hname⟩ := exists_append_of_childNamed h.names hchild
      rw [without_cons_some hchild, sizeAt_cons_some hchild, nodeAt_cons, hchild, Option.bind_some]
      obtain ⟨a, cs⟩ := file
      rw [children_mk] at hcs
      subst hcs hname
      obtain ⟨hmatched, hchanged, hkept⟩ := pruneChildren_single rest hx hy
      have hremoved := pruneChildren_removed rest hx hy
      rw [pruneConfirmedLocalDescendant, if_neg (by simpa [isDir] using hdir)]
      dsimp only
      rw [hmatched, hchanged, hkept, hremoved, children_mk, replaceNamed_append hx hy rfl]
      by_cases hrest : rest = []
      · subst hrest
        rfl
      · rw [ih hrest hbelow]
        have hdecide : decide (rest = []) = false := decide_eq_false hrest
        dsimp only
        rw [hdecide, if_neg hrest, if_neg hrest, if_neg hrest, Bool.false_or]
        cases hnode : nodeAt child rest with
        | none =>
          have hsize : sizeAt child rest = 0 := by
            unfold sizeAt
            rw [hnode]
            rfl
          rw [hsize, without_absent hbelow hnode]
          rfl
        | some node => rfl

theorem pruneConfirmedLocalDeletion_eq {path : List String} (hne : path ≠ []) {file : SystemFile} (h : WellFormed file) :
    pruneConfirmedLocalDeletion file path = some (without file path) := by
  cases path with
  | nil => exact absurd rfl hne
  | cons n rest =>
    unfold pruneConfirmedLocalDeletion
    rw [pruneConfirmedLocalDescendant_eq hne h]
    dsimp only
    split_ifs with hchanged
    · rfl
    · rw [without_absent h (by simpa using hchanged)]

/-- The children of an ancestor afterwards. -/
theorem without_children_names {file : SystemFile} (h : WellFormed file) {path : List String} (hne : path ≠ []) :
    (without file path).children.map name = (file.children.map name).filter fun n => decide (path ≠ [n]) := by
  cases path with
  | nil => exact absurd rfl hne
  | cons n rest =>
    have hkeep : ∀ cs : List SystemFile, (∀ c ∈ cs, c.name ≠ n) →
        (cs.map name).filter (fun m => decide (n :: rest ≠ [m])) = cs.map name := by
      intro cs hcs
      refine List.filter_eq_self.2 fun m hm => ?_
      obtain ⟨c, hc, rfl⟩ := List.mem_map.1 hm
      refine decide_eq_true fun heq => hcs c hc ?_
      exact (List.cons.inj heq).1.symm
    cases hchild : childNamed file.children n with
    | none => rw [without_cons_none hchild, hkeep _ (childNamed_none_iff.1 hchild)]
    | some child =>
      obtain ⟨xs, ys, hcs, hx, hy, hname⟩ := exists_append_of_childNamed h.names hchild
      rw [without_cons_some hchild, children_mk, hcs, replaceNamed_append hx hy hname, List.map_append, List.map_append,
        List.map_append, List.map_cons, List.filter_append, List.filter_cons, hkeep xs hx, hkeep ys hy]
      by_cases hrest : rest = []
      · simp [hrest, hname]
      · simp [hrest, hname]

/-- One subtree is gone, and its ancestors are smaller by its size. -/
structure Removed (file : SystemFile) (path : List String) (removed left : SystemFile) : Prop where
  gone : ∀ other, path <+: other → nodeAt left other = none
  apart : ∀ other, ¬ path <+: other → ¬ other <+: path → nodeAt left other = nodeAt file other
  above : ∀ other node, other <+: path → other ≠ path → nodeAt file other = some node →
    ∃ now, nodeAt left other = some now ∧ removed.size ≤ node.size ∧
      now.attrs = { node.attrs with size := node.size - removed.size } ∧
      now.children.map name = (node.children.map name).filter fun n => decide (path ≠ other ++ [n])

theorem nodeAt_append (file : SystemFile) (path rest : List String) :
    nodeAt file (path ++ rest) = (nodeAt file path).bind fun node => nodeAt node rest := by
  induction path generalizing file with
  | nil => rfl
  | cons n path ih =>
    rw [List.cons_append, nodeAt_cons, nodeAt_cons, Option.bind_assoc]
    exact Option.bind_congr fun child _ => ih child

theorem Summed.nodeAt {file found : SystemFile} (h : Summed file) {path : List String}
    (hfound : SystemFile.nodeAt file path = some found) : Summed found := by
  induction path generalizing file with
  | nil => exact Option.some.inj hfound ▸ h
  | cons n path ih =>
    rw [nodeAt_cons] at hfound
    obtain ⟨child, hchild, hbelow⟩ := Option.bind_eq_some_iff.1 hfound
    exact ih (h.child hchild) hbelow

theorem without_removed {file removed : SystemFile} (h : WellFormed file) (hsum : Summed file) {path : List String}
    (hne : path ≠ []) (hpath : nodeAt file path = some removed) : Removed file path removed (without file path) where
  gone other hother := by rw [nodeAt_without hne h, if_pos hother]
  apart other hother hback := by rw [nodeAt_without hne h, if_neg hother, if_neg hback]
  above := by
    rintro other node ⟨rest, rfl⟩ hshort hnode
    have hrest : rest ≠ [] := by
      rintro rfl
      exact hshort (List.append_nil other).symm
    have hwell := h.nodeAt hnode
    have hbelow : nodeAt node rest = some removed := by rw [← hpath, nodeAt_append, hnode, Option.bind_some]
    have hsize : sizeAt node rest = removed.size := by
      unfold sizeAt
      rw [hbelow]
      rfl
    have hnot : ¬ (other ++ rest) <+: other := fun hp => hshort ((List.prefix_append other rest).eq_of_length_le hp.length_le)
    refine ⟨without node rest, ?_, ?_, ?_, ?_⟩
    · rw [nodeAt_without hne h, if_neg hnot, if_pos (List.prefix_append other rest), hnode, Option.map_some,
        List.drop_left]
    · rw [← hsize]
      exact sizeAt_le hwell (hsum.nodeAt hnode)
    · rw [without_attrs hrest, hsize]
    · rw [without_children_names hwell hrest]
      simp

/-! ## Several paths -/

/-- The tree without what lies at any of the paths. -/
def withoutAll (file : SystemFile) (paths : List (List String)) : SystemFile := paths.foldl without file

/-- The order of the paths does not matter, nor one that is already gone. -/
theorem withoutAll_without {paths : List (List String)} {file : SystemFile} (h : WellFormed file) (hsum : Summed file)
    {path : List String} (hpath : path ∈ paths) : withoutAll (without file path) paths = withoutAll file paths := by
  induction paths generalizing file with
  | nil => simp at hpath
  | cons other paths ih =>
    change withoutAll (without (without file path) other) paths = withoutAll (without file other) paths
    rcases List.mem_cons.1 hpath with rfl | hpath
    · rw [without_twice h]
    · rw [without_comm h hsum]
      exact ih h.sub (Summed.without h hsum) hpath

theorem withoutAll_wellFormed {paths : List (List String)} {file : SystemFile} (h : WellFormed file) :
    WellFormed (withoutAll file paths) := by
  induction paths generalizing file with
  | nil => exact h
  | cons path paths ih => exact ih h.sub

theorem withoutAll_absent {paths : List (List String)} {file : SystemFile} (h : WellFormed file)
    (habsent : ∀ path ∈ paths, nodeAt file path = none) : withoutAll file paths = file := by
  induction paths with
  | nil => rfl
  | cons path paths ih =>
    change withoutAll (without file path) paths = file
    rw [without_absent h (habsent path List.mem_cons_self)]
    exact ih fun other hother => habsent other (List.mem_cons_of_mem _ hother)

theorem nodeAt_withoutAll_none {paths : List (List String)} {file : SystemFile} (h : WellFormed file) {path : List String}
    (habsent : nodeAt file path = none) : nodeAt (withoutAll file paths) path = none := by
  induction paths generalizing file with
  | nil => exact habsent
  | cons other paths ih => exact ih h.sub (nodeAt_without_none h habsent other)

theorem withoutAll_gone {paths : List (List String)} {file : SystemFile} (h : WellFormed file) (hsum : Summed file)
    {path : List String} (hne : path ≠ []) (hpath : path ∈ paths) : nodeAt (withoutAll file paths) path = none := by
  rw [← withoutAll_without h hsum hpath]
  refine nodeAt_withoutAll_none h.sub ?_
  rw [nodeAt_without hne h, if_pos (List.prefix_refl _)]

end SeedSync.SystemFile
