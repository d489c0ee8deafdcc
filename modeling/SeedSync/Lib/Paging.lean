import Mathlib.Data.List.Induction
import Mathlib.Data.List.Nodup
import Mathlib.Data.List.Perm.Subperm
import Mathlib.Data.List.Sort

/-!
# Keyset pages

Rows under ids of a linear order, given out in pages: a page holds the least rows above a position,
and the position of the next page is the greatest id of this one. Two loops that fill a page are
here, one over rows in order and one with a bounded heap, and what a client receives that follows
the pages while the rows change between its requests.
-/

namespace SeedSync.Lib

variable {α κ : Type*} [LinearOrder κ]

/-- Whether the id lies above the position; `none` is the start. -/
def isAbove (after : Option κ) (id : κ) : Bool :=
  match after with
  | none => true
  | some position => decide (position < id)

/-! ## The least rows -/

/-- The least ids are kept, `limit` of them or all. -/
structure KeepsLeast (limit : Nat) (rows kept : List κ) : Prop where
  nodup : kept.Nodup
  subset : ∀ id ∈ kept, id ∈ rows
  length : kept.length = min limit rows.length
  least : ∀ id ∈ rows, id ∉ kept → ∀ other ∈ kept, other < id

/-- The page holds the least ids in ascending order. -/
structure IsLeast (limit : Nat) (rows page : List κ) : Prop extends KeepsLeast limit rows page where
  sorted : page.Pairwise (· < ·)

section Least

variable {limit : Nat} {rows rows' kept page page' : List κ}

theorem KeepsLeast.perm (h : KeepsLeast limit rows kept) (hrows : rows.Perm rows') (hkept : kept.Perm page) :
    KeepsLeast limit rows' page where
  nodup := hkept.nodup_iff.1 h.nodup
  subset id hid := hrows.mem_iff.1 (h.subset id (hkept.mem_iff.2 hid))
  length := by rw [← hkept.length_eq, h.length, hrows.length_eq]
  least id hid hnot other hother :=
    h.least id (hrows.mem_iff.2 hid) (fun hin => hnot (hkept.mem_iff.1 hin)) other (hkept.mem_iff.2 hother)

/-- All rows are kept while there is room. -/
theorem KeepsLeast.mem_of_room (h : KeepsLeast limit rows kept) (hroom : kept.length < limit) :
    ∀ id ∈ rows, id ∈ kept := by
  have hlength := h.length
  have hperm := (h.nodup.subperm h.subset).perm_of_length_le (by omega)
  exact fun id hid => hperm.mem_iff.2 hid

/-- A full page leaves a row out. -/
theorem KeepsLeast.exists_out (h : KeepsLeast limit rows kept) (hrows : rows.Nodup) (hlong : limit < rows.length) :
    ∃ id ∈ rows, id ∉ kept := by
  by_contra hall
  simp only [not_exists, not_and, not_not] at hall
  have hlength := h.length
  have := (hrows.subperm hall).length_le
  omega

theorem KeepsLeast.grow (h : KeepsLeast limit rows kept) {id : κ} (hrows : (rows ++ [id]).Nodup)
    (hroom : kept.length < limit) : KeepsLeast limit (rows ++ [id]) (id :: kept) := by
  have hnew : id ∉ rows := fun hin => (List.nodup_append.1 hrows).2.2 id hin id (by simp) rfl
  have hall := h.mem_of_room hroom
  have hlength := h.length
  refine ⟨h.nodup.cons fun hin => hnew (h.subset id hin), ?_, ?_, ?_⟩
  · intro other hother
    rcases List.mem_cons.1 hother with rfl | hother
    · simp
    · exact List.mem_append_left _ (h.subset other hother)
  · simp only [List.length_cons, List.length_append, List.length_nil]
    omega
  · intro other hother hnot
    rcases List.mem_append.1 hother with hother | hother
    · exact absurd (List.mem_cons_of_mem _ (hall other hother)) hnot
    · exact absurd (by simpa using .inl (List.mem_singleton.1 hother)) hnot

/-- A full page takes an id below its greatest in place of that one. -/
theorem KeepsLeast.replace {top id : κ} (h : KeepsLeast limit rows (top :: kept)) (htop : ∀ other ∈ kept, other < top)
    (hrows : (rows ++ [id]).Nodup) (hfull : (top :: kept).length = limit) (hid : id < top) :
    KeepsLeast limit (rows ++ [id]) (id :: kept) := by
  have hnew : id ∉ rows := fun hin => (List.nodup_append.1 hrows).2.2 id hin id (by simp) rfl
  have hlength := h.length
  refine ⟨(List.nodup_cons.1 h.nodup).2.cons fun hin => hnew (h.subset id (List.mem_cons_of_mem _ hin)), ?_, ?_, ?_⟩
  · intro other hother
    rcases List.mem_cons.1 hother with rfl | hother
    · simp
    · exact List.mem_append_left _ (h.subset other (List.mem_cons_of_mem _ hother))
  · simp only [List.length_cons, List.length_append, List.length_nil] at hfull hlength ⊢
    omega
  · intro other hother hnot kept' hkept'
    have hbelow : top ≤ other := by
      rcases List.mem_append.1 hother with hother | hother
      · by_cases heq : other = top
        · exact heq.ge
        · refine (h.least other hother ?_ top (by simp)).le
          intro hin
          rcases List.mem_cons.1 hin with rfl | hin
          · exact heq rfl
          · exact hnot (List.mem_cons_of_mem _ hin)
      · exact absurd (by simpa using .inl (List.mem_singleton.1 hother)) hnot
    rcases List.mem_cons.1 hkept' with rfl | hkept'
    · exact hid.trans_le hbelow
    · exact (htop kept' hkept').trans_le hbelow

/-- A full page passes over an id above its greatest. -/
theorem KeepsLeast.pass {id : κ} (top : κ) (h : KeepsLeast limit rows kept) (htop : ∀ other ∈ kept, other ≤ top)
    (hfull : kept.length = limit) (hid : top < id) : KeepsLeast limit (rows ++ [id]) kept := by
  have hlength := h.length
  refine ⟨h.nodup, fun other hother => List.mem_append_left _ (h.subset other hother), ?_, ?_⟩
  · simp only [List.length_append, List.length_singleton]
    omega
  · intro other hother hnot kept' hkept'
    rcases List.mem_append.1 hother with hother | hother
    · exact h.least other hother hnot kept' hkept'
    · rw [List.mem_singleton.1 hother]
      exact (htop kept' hkept').trans_lt hid

/-- There is one such page. -/
theorem IsLeast.unique (h : IsLeast limit rows page)
    (h' : IsLeast limit rows page') : page = page' := by
  have hsubset : ∀ {p q : List κ}, IsLeast limit rows p → IsLeast limit rows q → ∀ id ∈ p, id ∈ q := by
    intro p q hp hq id hid
    by_contra hnot
    -- Another id of the same number of ids is missing on the other side, and each is below the other.
    have hmissing : ∃ other ∈ q, other ∉ p := by
      by_contra hall
      simp only [not_exists, not_and, not_not] at hall
      have hlong : (id :: q).length ≤ p.length :=
        (List.Nodup.subperm (hq.nodup.cons hnot) fun x hx => by
          rcases List.mem_cons.1 hx with rfl | hx
          · exact hid
          · exact hall x hx).length_le
      rw [List.length_cons, hq.length, hp.length] at hlong
      omega
    obtain ⟨other, hother, hout⟩ := hmissing
    have h1 := hp.least other (hq.subset other hother) hout id hid
    have h2 := hq.least id (hp.subset id hid) hnot other hother
    exact absurd h1 (not_lt.2 h2.le)
  have hperm : page.Perm page' :=
    (List.perm_ext_iff_of_nodup h.nodup h'.nodup).2 fun id => ⟨hsubset h h' id, hsubset h' h id⟩
  exact hperm.eq_of_pairwise (fun a b _ _ hab hba => absurd hab (not_lt.2 hba.le)) h.sorted h'.sorted

theorem isLeast_take (limit : Nat) (h : rows.Pairwise (· < ·)) : IsLeast limit rows (rows.take limit) where
  sorted := h.sublist (List.take_sublist _ _)
  nodup := (h.sublist (List.take_sublist _ _)).imp fun hlt => ne_of_lt hlt
  subset id hid := List.mem_of_mem_take hid
  length := List.length_take
  least := by
    intro id hid hnot kept hkept
    rw [← List.take_append_drop limit rows] at h hid
    rcases List.mem_append.1 hid with hid | hid
    · exact absurd hid hnot
    · exact (List.pairwise_append.1 h).2.2 kept hkept id hid

/-- A page is the first rows in sorted order. -/
theorem IsLeast.eq_take (h : IsLeast limit rows page) (hrows : rows.Nodup) :
    page = (rows.insertionSort (· ≤ ·)).take limit := by
  have hperm := List.perm_insertionSort (· ≤ ·) rows
  have hsorted : (rows.insertionSort (· ≤ ·)).Pairwise (· < ·) :=
    ((List.pairwise_insertionSort (· ≤ ·) rows).and (hperm.nodup_iff.2 hrows)).imp fun h => lt_of_le_of_ne h.1 h.2
  have htake := isLeast_take limit hsorted
  exact h.unique ⟨htake.toKeepsLeast.perm hperm (List.Perm.refl _), htake.sorted⟩

end Least

/-! ## The page loops -/

structure Selection (α : Type*) where
  total : Nat := 0
  selected : List α := []
  hasSuccessor : Bool := false

section Loops

variable (id : α → κ) (limit : Nat) (after : Option κ)

/-- One turn over rows that come in order. -/
def selectOrdered (s : Selection α) (row : α) : Selection α :=
  let s := { s with total := s.total + 1 }
  if !isAbove after (id row) then s
  else if s.selected.length < limit then { s with selected := s.selected ++ [row] }
  else { s with hasSuccessor := true }

/-- One turn with a heap that gives the greatest id first. -/
def selectHeap (s : Selection α) (row : α) : Selection α :=
  let s := { s with total := s.total + 1 }
  if !isAbove after (id row) then s
  else if s.selected.length < limit then
    { s with selected := s.selected.orderedInsert (fun a b => id b ≤ id a) row }
  else
    match s.selected with
    | top :: rest =>
      if id row < id top then
        { s with selected := rest.orderedInsert (fun a b => id b ≤ id a) row, hasSuccessor := true }
      else { s with hasSuccessor := true }
    | [] => { s with hasSuccessor := true }

/-- The rows above the position. -/
def rowsAbove (rows : List α) : List α := rows.filter fun row => isAbove after (id row)

theorem rowsAbove_concat (rows : List α) (row : α) :
    rowsAbove id after (rows ++ [row]) =
      rowsAbove id after rows ++ (if isAbove after (id row) then [row] else []) := by
  simp [rowsAbove, List.filter_append, List.filter_cons]

theorem foldl_selectOrdered (rows : List α) :
    let s := rows.foldl (selectOrdered id limit after) {}
    s.total = rows.length ∧ s.selected = (rowsAbove id after rows).take limit ∧
      (s.hasSuccessor = true ↔ limit < (rowsAbove id after rows).length) := by
  intro s
  induction rows using List.reverseRecOn with
  | nil => simp [s, rowsAbove]
  | append_singleton rows row ih =>
    simp only [s, List.foldl_append, List.foldl_cons, List.foldl_nil, rowsAbove_concat]
    generalize rows.foldl (selectOrdered id limit after) {} = before at ih ⊢
    obtain ⟨htotal, hselected, hmore⟩ := ih
    unfold selectOrdered
    cases habove : isAbove after (id row) with
    | false => simp [htotal, hselected, hmore]
    | true =>
      simp only [Bool.not_true, Bool.false_eq_true, if_false, if_true, htotal, List.length_append, List.length_singleton]
      rw [hselected, List.length_take]
      split_ifs with hroom
      · refine ⟨rfl, ?_, ?_⟩
        · rw [List.take_of_length_le (by omega), List.take_of_length_le (by simp; omega)]
        · rw [hmore]
          omega
      · refine ⟨rfl, ?_, ?_⟩
        · rw [List.take_append_of_le_length (by omega)]
        · simp only [true_iff]
          omega

instance heapTotal : Std.Total (fun a b : α => id b ≤ id a) := ⟨fun a b => le_total (id b) (id a)⟩

instance heapTrans : IsTrans α (fun a b : α => id b ≤ id a) := ⟨fun _ _ _ hab hbc => hbc.trans hab⟩

/-- What the heap holds after some rows. -/
structure HeapOf (rows : List α) (s : Selection α) : Prop where
  total : s.total = rows.length
  sorted : s.selected.Pairwise fun a b => id b ≤ id a
  least : KeepsLeast limit ((rowsAbove id after rows).map id) (s.selected.map id)
  subset : ∀ row ∈ s.selected, row ∈ rows
  hasSuccessor : s.hasSuccessor = true ↔ limit < (rowsAbove id after rows).length

variable {id limit after}

theorem HeapOf.below {rows : List α} {s : Selection α} {row : α} (h : HeapOf id limit after rows s)
    (hbelow : isAbove after (id row) = false) :
    HeapOf id limit after (rows ++ [row]) (selectHeap id limit after s row) := by
  have hsame : rowsAbove id after (rows ++ [row]) = rowsAbove id after rows := by simp [rowsAbove_concat, hbelow]
  unfold selectHeap
  simp only [hbelow, Bool.not_false, if_true]
  exact {
    total := by simp [h.total]
    sorted := h.sorted
    least := hsame ▸ h.least
    subset := fun r hr => List.mem_append_left _ (h.subset r hr)
    hasSuccessor := hsame ▸ h.hasSuccessor }

theorem HeapOf.above {rows : List α} {s : Selection α} {row : α} (hlimit : 0 < limit)
    (h : HeapOf id limit after rows s) (hnodup : ((rows ++ [row]).map id).Nodup)
    (habove : isAbove after (id row) = true) :
    HeapOf id limit after (rows ++ [row]) (selectHeap id limit after s row) := by
  have hmore : rowsAbove id after (rows ++ [row]) = rowsAbove id after rows ++ [row] := by
    simp [rowsAbove_concat, habove]
  have hids : ((rowsAbove id after rows).map id ++ [id row]).Nodup := by
    refine hnodup.sublist ?_
    rw [List.map_append]
    exact (List.filter_sublist.map id).append (List.Sublist.refl _)
  have hlength := h.least.length
  have hsuccessor := h.hasSuccessor
  simp only [List.length_map] at hlength
  unfold selectHeap
  simp only [habove, Bool.not_true, Bool.false_eq_true, if_false]
  split_ifs with hroom
  · have hgrow := h.least.grow hids (by simpa using hroom)
    exact {
      total := by simp [h.total]
      sorted := h.sorted.orderedInsert row _
      least := by
        rw [hmore, List.map_append, List.map_singleton]
        exact hgrow.perm (List.Perm.refl _) ((List.perm_orderedInsert _ row s.selected).map id).symm
      subset := fun r hr => by
        rcases (List.mem_orderedInsert _).1 hr with rfl | hr
        · simp
        · exact List.mem_append_left _ (h.subset r hr)
      hasSuccessor := by
        rw [hsuccessor, hmore, List.length_append, List.length_singleton]
        omega }
  · have hsucc : true = true ↔ limit < (rowsAbove id after (rows ++ [row])).length := by
      rw [hmore, List.length_append, List.length_singleton]
      simp only [true_iff]
      omega
    cases hselected : s.selected with
    | nil =>
      simp only [hselected, List.length_nil] at hroom
      omega
    | cons top rest =>
      have hleast := h.least
      have hsorted := h.sorted
      have hsubset := h.subset
      rw [hselected] at hleast hsorted hsubset hlength hroom
      rw [List.pairwise_cons] at hsorted
      have hnew : id row ∉ (rowsAbove id after rows).map id :=
        fun hin => (List.nodup_append.1 hids).2.2 _ hin _ (by simp) rfl
      have hfull : (top :: rest).length = limit := by omega
      simp only
      split_ifs with hlt
      · have htop : ∀ other ∈ rest.map id, other < id top := by
          intro other hother
          obtain ⟨r, hr, rfl⟩ := List.mem_map.1 hother
          refine lt_of_le_of_ne (hsorted.1 r hr) fun heq => ?_
          exact (List.nodup_cons.1 hleast.nodup).1 (heq ▸ hother)
        have hreplace := KeepsLeast.replace hleast htop hids (by simpa using hfull) hlt
        exact {
          total := by simp [h.total]
          sorted := hsorted.2.orderedInsert row _
          least := by
            rw [hmore, List.map_append, List.map_singleton]
            exact hreplace.perm (List.Perm.refl _) ((List.perm_orderedInsert _ row rest).map id).symm
          subset := fun r hr => by
            rcases (List.mem_orderedInsert _).1 hr with rfl | hr
            · simp
            · exact List.mem_append_left _ (hsubset r (List.mem_cons_of_mem _ hr))
          hasSuccessor := hsucc }
      · have hne : id top ≠ id row := fun heq => hnew (heq ▸ hleast.subset (id top) (by simp))
        have hpass := hleast.pass (id top) (fun other hother => by
          rcases List.mem_cons.1 hother with rfl | hother
          · exact le_rfl
          · obtain ⟨r, hr, rfl⟩ := List.mem_map.1 hother
            exact hsorted.1 r hr) (by simpa using hfull) (lt_of_le_of_ne (not_lt.1 hlt) hne)
        exact {
          total := by simp [h.total]
          sorted := List.pairwise_cons.2 hsorted
          least := by
            rw [hmore, List.map_append, List.map_singleton]
            exact hpass
          subset := fun r hr => List.mem_append_left _ (hsubset r hr)
          hasSuccessor := hsucc }

/-- The heap keeps the least rows seen so far, the greatest of them first. -/
theorem foldl_selectHeap (after : Option κ) {rows : List α} (hlimit : 0 < limit) (hnodup : (rows.map id).Nodup) :
    HeapOf id limit after rows (rows.foldl (selectHeap id limit after) {}) := by
  induction rows using List.reverseRecOn with
  | nil => exact ⟨rfl, by simp, ⟨by simp, by simp, by simp [rowsAbove], by simp [rowsAbove]⟩, by simp, by simp [rowsAbove]⟩
  | append_singleton rows row ih =>
    have hbefore := ih (by rw [List.map_append] at hnodup; exact (List.nodup_append.1 hnodup).1)
    rw [List.foldl_append, List.foldl_cons, List.foldl_nil]
    cases habove : isAbove after (id row) with
    | false => exact hbefore.below habove
    | true => exact hbefore.above hlimit hnodup habove

/-- The rows of the heap in ascending order are a page. -/
theorem selectHeap_isLeast {rows : List α} (hlimit : 0 < limit) (hnodup : (rows.map id).Nodup) :
    IsLeast limit ((rowsAbove id after rows).map id)
      (((rows.foldl (selectHeap id limit after) {}).selected.insertionSort fun a b => id a ≤ id b).map id) := by
  have hleast := (foldl_selectHeap after hlimit hnodup).least
  generalize (rows.foldl (selectHeap id limit after) {}).selected = heap at hleast ⊢
  have htotal : Std.Total (fun a b : α => id a ≤ id b) := ⟨fun a b => le_total (id a) (id b)⟩
  have htrans : IsTrans α (fun a b : α => id a ≤ id b) := ⟨fun _ _ _ hab hbc => hab.trans hbc⟩
  have hperm := List.perm_insertionSort (fun a b => id a ≤ id b) heap
  have hkept := hleast.perm (List.Perm.refl _) (hperm.map id).symm
  refine ⟨hkept, ?_⟩
  have hsorted := List.pairwise_insertionSort (fun a b => id a ≤ id b) heap
  exact ((List.pairwise_map.2 hsorted).and hkept.nodup).imp fun h => lt_of_le_of_ne h.1 h.2

theorem map_rowsAbove (rows : List α) : (rowsAbove id after rows).map id = rowsAbove (fun k => k) after (rows.map id) := by
  rw [rowsAbove, rowsAbove, List.filter_map]
  rfl

end Loops

/-! ## Following the pages -/

/-- A client that follows the pages over changing rows: the rows of each of its requests, and the ids
that it receives. -/
inductive Follows (limit : Nat) : Option κ → List (List κ) → List κ → Prop
  /-- The page takes all that is left. -/
  | last {after : Option κ} {rows page : List κ} (hpage : IsLeast limit (rowsAbove (fun id => id) after rows) page)
      (hend : (rowsAbove (fun id => id) after rows).length ≤ limit) : Follows limit after [rows] page
  /-- More is left, and the next request starts behind the last id of the page. -/
  | next {after : Option κ} {rows page received : List κ} {position : κ} {later : List (List κ)}
      (hpage : IsLeast limit (rowsAbove (fun id => id) after rows) page) (hposition : page.getLast? = some position)
      (hnext : Follows limit (some position) later received) : Follows limit after (rows :: later) (page ++ received)

section Client

variable {limit : Nat} {after : Option κ} {snapshots : List (List κ)} {received : List κ}

theorem mem_rowsAbove {rows : List κ} {id : κ} :
    id ∈ rowsAbove (fun id => id) after rows ↔ id ∈ rows ∧ isAbove after id = true := by
  simp [rowsAbove]

theorem IsLeast.le_last {rows page : List κ} {position : κ} (h : IsLeast limit rows page)
    (hposition : page.getLast? = some position) : ∀ id ∈ page, id ≤ position := by
  obtain ⟨before, rfl⟩ := List.getLast?_eq_some_iff.1 hposition
  intro id hid
  rcases List.mem_append.1 hid with hid | hid
  · exact ((List.pairwise_append.1 h.sorted).2.2 id hid position (by simp)).le
  · exact (List.mem_singleton.1 hid).le

/-- What the client receives lies above its first position, in ascending order. -/
theorem Follows.ascending (h : Follows limit after snapshots received) :
    received.Pairwise (· < ·) ∧ ∀ id ∈ received, isAbove after id = true := by
  induction h with
  | last hpage hend =>
    exact ⟨hpage.sorted, fun id hid => (mem_rowsAbove.1 (hpage.subset id hid)).2⟩
  | @next after rows page received position later hpage hposition _ ih =>
    obtain ⟨hsorted, habove⟩ := ih
    have hlast := hpage.le_last hposition
    have hlater : ∀ id ∈ received, position < id := fun id hid => by simpa [isAbove] using habove id hid
    have hmem : position ∈ page := List.mem_of_getLast? hposition
    refine ⟨List.pairwise_append.2 ⟨hpage.sorted, hsorted, fun a ha b hb => (hlast a ha).trans_lt (hlater b hb)⟩, ?_⟩
    intro id hid
    rcases List.mem_append.1 hid with hid | hid
    · exact (mem_rowsAbove.1 (hpage.subset id hid)).2
    · have hposition' := (mem_rowsAbove.1 (hpage.subset position hmem)).2
      cases after with
      | none => rfl
      | some start =>
        have hstart : start < position := by simpa [isAbove] using hposition'
        simpa [isAbove] using hstart.trans (hlater id hid)

/-- The client receives nothing that was in no snapshot. -/
theorem Follows.existed (h : Follows limit after snapshots received) :
    ∀ id ∈ received, ∃ rows ∈ snapshots, id ∈ rows := by
  induction h with
  | last hpage _ => exact fun id hid => ⟨_, by simp, (mem_rowsAbove.1 (hpage.subset id hid)).1⟩
  | next hpage _ _ ih =>
    intro id hid
    rcases List.mem_append.1 hid with hid | hid
    · exact ⟨_, by simp, (mem_rowsAbove.1 (hpage.subset id hid)).1⟩
    · obtain ⟨rows, hrows, hmem⟩ := ih id hid
      exact ⟨rows, List.mem_cons_of_mem _ hrows, hmem⟩

/-- The client receives every id that was in all of them. -/
theorem Follows.stable (h : Follows limit after snapshots received) {id : κ} (habove : isAbove after id = true)
    (hstable : ∀ rows ∈ snapshots, id ∈ rows) : id ∈ received := by
  induction h with
  | @last after rows page hpage hend =>
    have hmem : id ∈ rowsAbove (fun id => id) after rows := mem_rowsAbove.2 ⟨hstable rows (by simp), habove⟩
    have hall := (hpage.nodup.subperm hpage.subset).perm_of_length_le (by rw [hpage.length]; omega)
    exact hall.mem_iff.2 hmem
  | @next after rows page received position later hpage hposition _ ih =>
    have hmem : id ∈ rowsAbove (fun id => id) after rows := mem_rowsAbove.2 ⟨hstable rows (by simp), habove⟩
    by_cases hin : id ∈ page
    · exact List.mem_append_left _ hin
    · refine List.mem_append_right _ (ih ?_ fun rows hrows => hstable rows (List.mem_cons_of_mem _ hrows))
      have := hpage.least id hmem hin position (List.mem_of_getLast? hposition)
      simpa [isAbove] using this

end Client

end SeedSync.Lib
