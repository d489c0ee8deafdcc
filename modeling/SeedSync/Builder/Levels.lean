import Mathlib.Data.List.Dedup
import SeedSync.Builder.Render
import SeedSync.Lib.Stateful

/-!
# The walk below a root ends

The levels that `buildChildren` allows itself are more than there are.
-/

namespace SeedSync.Builder

open SystemFile Lib

theorem depth_le_of_mem {cs : List SystemFile} {c : SystemFile} (h : c ∈ cs) : depth c ≤ depthList cs := by
  induction cs with
  | nil => cases h
  | cons d cs ih =>
    rw [depthList]
    rcases List.mem_cons.mp h with rfl | h
    · exact le_max_left _ _
    · exact (ih h).trans (le_max_right _ _)

theorem depth_child {file child : SystemFile} {n : String} (h : childNamed file.children n = some child) :
    depth child < depth file := by
  obtain ⟨a, cs⟩ := file
  have := depth_le_of_mem (childNamed_mem h).1
  rw [depth]
  exact Nat.lt_succ_of_le this

theorem depth_pos (file : SystemFile) : 0 < depth file := by
  obtain ⟨a, cs⟩ := file
  rw [depth]
  exact Nat.succ_pos _

/-- How many levels can follow a node. Where nothing is remote, no active leaf takes over. -/
def Frontier.height (b : Sources) (node : Frontier) : Nat :=
  if optionDepth node.remote = 0 then optionDepth node.local'
  else optionDepth node.remote + max (optionDepth node.local') (depthList (b.activeFiles.dict.items.map Prod.snd))

theorem optionDepth_active (b : Sources) (id : FileId) :
    optionDepth (b.activeFiles.get id) ≤ depthList (b.activeFiles.dict.items.map Prod.snd) := by
  unfold optionDepth
  cases hget : b.activeFiles.get id with
  | none => exact Nat.zero_le _
  | some file => exact depth_le_of_mem (List.mem_map.mpr ⟨(id, file), (Dict.get_eq_some _ _ _).mp hget, rfl⟩)

theorem optionDepth_child (file : Option SystemFile) (n : String) :
    optionDepth (file.bind fun f => childNamed f.children n) ≤ optionDepth file - 1 := by
  unfold optionDepth
  cases file with
  | none => exact Nat.zero_le _
  | some file =>
    cases hchild : childNamed file.children n with
    | none => simp [hchild]
    | some child =>
      have := depth_child hchild
      simp only [Option.bind_some, hchild, Option.map_some, Option.getD_some]
      omega

theorem optionDepth_or_le (x y : Option SystemFile) : optionDepth (x.or y) ≤ max (optionDepth x) (optionDepth y) := by
  cases x with
  | none => exact le_max_right _ _
  | some x => exact le_max_left _ _

theorem optionDepth_eq_zero {file : Option SystemFile} : optionDepth file = 0 ↔ file = none := by
  cases file with
  | none => simp [optionDepth]
  | some file =>
    have := depth_pos file
    simp [optionDepth]
    omega

theorem childNamed_isSome_of_mem {cs : List SystemFile} {c : SystemFile} (h : c ∈ cs) :
    (childNamed cs c.name).isSome := by
  induction cs with
  | nil => cases h
  | cons d cs ih =>
    rw [childNamed]
    cases hlater : childNamed cs c.name with
    | some f => rfl
    | none =>
      rcases List.mem_cons.mp h with rfl | h
      · simp
      · simp [hlater] at ih
        exact absurd h ih

/-- Without a remote side, the name of a child is that of a local one. -/
theorem scanned_isSome {node : Frontier} {childName : String} (hchild : childName ∈ childNames node)
    (hremote : node.remote = none) : ∃ l c, node.local' = some l ∧ childNamed l.children childName = some c := by
  unfold childNames at hchild
  rw [hremote, List.mem_dedup] at hchild
  simp only [Option.map_none, Option.getD_none, List.map_nil, List.nil_append, List.mem_map] at hchild
  obtain ⟨c, hc, rfl⟩ := hchild
  cases hlocal : node.local' with
  | none => simp [hlocal] at hc
  | some l =>
    rw [hlocal] at hc
    obtain ⟨d, hd⟩ := Option.isSome_iff_exists.mp (childNamed_isSome_of_mem hc)
    exact ⟨l, d, rfl, hd⟩

/-- A child is less high than its node. -/
theorem height_child (b : Sources) (node next : Frontier) {childName : String} {childId : FileId}
    (hchild : childName ∈ childNames node)
    (hremote : next.remote = node.remote.bind fun r => childNamed r.children childName)
    (hlocal : next.local' = (node.local'.bind fun l => childNamed l.children childName).or (b.activeFiles.get childId)) :
    next.height b < node.height b := by
  have hrd := optionDepth_child node.remote childName
  have hld := optionDepth_child node.local' childName
  have hd := optionDepth_active b childId
  have hor := optionDepth_or_le (node.local'.bind fun l => childNamed l.children childName) (b.activeFiles.get childId)
  rw [← hremote] at hrd
  rw [← hlocal] at hor
  unfold Frontier.height
  by_cases hzero : optionDepth node.remote = 0
  · obtain ⟨l, c, hl, hc⟩ := scanned_isSome hchild (optionDepth_eq_zero.mp hzero)
    have hnext : next.local' = some c := by rw [hlocal, hl, Option.bind_some, hc, Option.some_or]
    have hdepth := depth_child hc
    rw [if_pos hzero, if_pos (by omega), hl, hnext]
    exact hdepth
  · rw [if_neg hzero]
    split_ifs <;> omega

/-- The nodes that a level leaves are less high than the level. -/
theorem buildLevel_height (rt : Runtime) (b : Sources) (root : RootContext) {level : List Frontier} {height : Nat}
    (hlevel : ∀ node ∈ level, node.height b ≤ height) (walk : Walk) :
    Spec (fun _ => True) (buildLevel rt b root level walk)
      (fun built => ∀ next ∈ built.1, next.height b < height) := by
  unfold buildLevel
  refine Spec.foldlM (P := fun (built : List Frontier × Walk) => ∀ next ∈ built.1, next.height b < height) level ?_
    (by simp)
  intro acc node hnode hacc
  refine Spec.foldlM _ (fun acc childName hname hacc => ?_) hacc
  have hchild : childName ∈ childNames node := (rt.names_perm _).mem_iff.mp hname
  unfold buildChild
  extract_lets remote scanned fullPath childId local' live childIsStopped
  refine Spec.bind (Spec.any _) fun isDir _ => ?_
  extract_lets next
  refine Spec.bind (Spec.any _) fun recent _ => Spec.bind (Spec.any _) fun current _ => Spec.bind (Spec.any _) ?_
  rintro ⟨filled, scratch⟩ -
  refine Spec.pure fun n hn => ?_
  rcases List.mem_append.mp hn with hn | hn
  · exact hacc n hn
  · rw [List.mem_singleton.mp hn]
    exact (height_child b node next hchild rfl rfl).trans_le (hlevel node hnode)

/-- Fuel beyond the height of a level changes nothing. -/
theorem buildLevels_fuel (rt : Runtime) (b : Sources) (root : RootContext) {fuel : Nat} (extra : Nat)
    {level : List Frontier} (hlevel : ∀ node ∈ level, node.height b < fuel) (walk : Walk) :
    buildLevels rt b root (fuel + extra) level walk = buildLevels rt b root fuel level walk := by
  induction fuel generalizing level walk with
  | zero =>
    have hempty : level = [] := List.eq_nil_iff_forall_not_mem.mpr fun node hnode =>
      absurd (hlevel node hnode) (Nat.not_lt_zero _)
    subst hempty
    cases extra <;> simp [buildLevels]
  | succ fuel ih =>
    rw [Nat.succ_add]
    unfold buildLevels
    split_ifs
    · rfl
    · refine Spec.bind_congr (buildLevel_height rt b root (fun node hnode => Nat.le_of_lt_succ (hlevel node hnode)) walk)
        ?_
      rintro ⟨next, walk'⟩ hnext
      exact ih hnext walk'

/-- The walk below a root ends before its levels do. -/
theorem buildChildren_ends (rt : Runtime) (b : Sources) (root : RootContext) (top : Frontier)
    (hremote : top.remote = root.remote) (hlocal : top.local' = root.local') (extra : Nat) (walk : Walk) :
    buildLevels rt b root (levelBound b root.remote root.local' + extra) [top] walk =
      buildLevels rt b root (levelBound b root.remote root.local') [top] walk := by
  refine buildLevels_fuel rt b root extra (fun node hnode => ?_) walk
  rw [List.mem_singleton.mp hnode]
  unfold Frontier.height levelBound
  rw [hremote, hlocal]
  split_ifs <;> omega

end SeedSync.Builder
