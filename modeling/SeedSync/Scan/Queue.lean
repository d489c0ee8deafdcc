import SeedSync.Lib.Queue
import SeedSync.Scan.Result

/-!
# The result queue of a scanner

`_publish_bounded_result` of `scanner_process.py`: a scan that outruns its consumer drops a queued
item to make room, and `_replacement_index` chooses which.
-/

namespace SeedSync

/-- What the queue holds: scan results, and the marker that lets the feeder release a payload. -/
inductive QueueItem where
  | releaseMarker
  | result (result : ScannerResult)
  deriving DecidableEq, Repr

namespace QueueItem

/-- `_is_authoritative_scan_result`. -/
def isAuthoritative : QueueItem → Bool
  | releaseMarker => false
  | result r => r.isScanFinal || r.isFullSnapshot

/-- `_is_progress_completion_result`. -/
def isProgressCompletion : QueueItem → Bool
  | releaseMarker => false
  | result r => r.isProgress && decide (r.completedPathPairIds ≠ []) && !(result r).isAuthoritative

/-- `_is_protected_scan_result`: the item must survive ordinary bounded progress loss. -/
def isProtected (item : QueueItem) : Bool :=
  item.isAuthoritative || item.isProgressCompletion

/-- `_scan_result_pair_ids`. -/
def pairIds : QueueItem → List PairId
  | releaseMarker => []
  | result r => r.scannedPathPairIds ++ r.completedPathPairIds ++ r.fullSnapshotPathPairIds ++ r.unknownPathPairIds

/-- `_is_failure_scan_result`. -/
def isFailure : QueueItem → Bool
  | releaseMarker => false
  | result r => r.failed || decide (r.unknownPathPairIds ≠ [])

/-- Membership in `same_pair`: a shared pair, and a generation not above that of the incoming result. -/
def isSamePair (incoming : ScannerResult) : QueueItem → Bool
  | releaseMarker => false
  | result r =>
    (result r).pairIds.any (fun pair => decide (pair ∈ (result incoming).pairIds)) &&
      decide (r.generation ≤ incoming.generation)

end QueueItem

open QueueItem

/-- `_replacement_index`: the index of the retained item that gives way, if one does. -/
def replacementIndex (retained : List QueueItem) (incoming : ScannerResult) : Option Nat :=
  match retained.findIdx? (fun item => !item.isProtected) with
  | some ordinary => some ordinary
  | none =>
    match retained.findIdx? (fun item => item.isSamePair incoming && item.isProgressCompletion) with
    | some sameCompletion => some sameCompletion
    | none =>
      if (result incoming).isProgressCompletion then none
      else if !(result incoming).isAuthoritative then none
      else
        match retained.findIdx? (fun item => item.isSamePair incoming && !item.isFailure) with
        | some sameHealthy => some sameHealthy
        | none =>
          match retained.findIdx? (fun item => item.isSamePair incoming && item.isFailure) with
          | some sameFailure => some sameFailure
          | none =>
            match retained.findIdx? (fun item => item.isProgressCompletion) with
            | some unrelatedCompletion => some unrelatedCompletion
            | none =>
              match retained.findIdx? (fun item => !item.isFailure) with
              | some unrelatedHealthy => some unrelatedHealthy
              | none => some 0

/-- What one turn of the loop of `_publish_bounded_result` ends in. -/
inductive Round where
  | returned (queue : BoundedQueue QueueItem) (published : Bool)
  | again (queue : BoundedQueue QueueItem)

/-- One turn of the loop, with no other reader or writer. -/
def publishRound (queue : BoundedQueue QueueItem) (incoming : ScannerResult) : Round :=
  match queue.putNowait (result incoming) with
  | some next => .returned next true
  | none =>
    let retained := queue.drain.1
    let emptied := queue.drain.2
    if retained = [] then .again emptied
    else
      match replacementIndex retained incoming with
      | none => .returned (emptied.putAll retained).1 false
      | some dropIndex =>
        let restored := emptied.putAll (retained.eraseIdx dropIndex)
        if restored.2 then .again restored.1 else .returned restored.1 false

/-- `_publish_bounded_result`: the queue afterwards and whether the result was enqueued. `none` is
a loop still running after that many turns. -/
def publishBoundedResult (turns : Nat) (queue : BoundedQueue QueueItem) (incoming : ScannerResult) :
    Option (BoundedQueue QueueItem × Bool) :=
  match turns with
  | 0 => none
  | turns + 1 =>
    match publishRound queue incoming with
    | .returned next published => some (next, published)
    | .again next => publishBoundedResult turns next incoming

/-! ## What the chosen item is -/

section Replacement

variable {retained : List QueueItem} {incoming : ScannerResult}

/-- The reasons for which an item gives way, in the order in which they are tried. -/
inductive Replaced (retained : List QueueItem) (incoming : ScannerResult) (item : QueueItem) : Prop where
  | ordinary (h : item.isProtected = false)
  | sameCompletion (all : ∀ other ∈ retained, other.isProtected) (same : item.isSamePair incoming)
      (completion : item.isProgressCompletion)
  | samePair (all : ∀ other ∈ retained, other.isProtected) (authoritative : (result incoming).isAuthoritative)
      (same : item.isSamePair incoming)
      (completions : ∀ other ∈ retained, other.isSamePair incoming → other.isProgressCompletion = false)
      (healthy : item.isFailure → ∀ other ∈ retained, other.isSamePair incoming → other.isFailure)
  | unrelatedCompletion (all : ∀ other ∈ retained, other.isProtected)
      (authoritative : (result incoming).isAuthoritative) (completion : item.isProgressCompletion)
  | unrelated (all : ∀ other ∈ retained, other.isProtected) (authoritative : (result incoming).isAuthoritative)
      (same : ∀ other ∈ retained, other.isSamePair incoming = false)
      (completions : ∀ other ∈ retained, other.isProgressCompletion = false)
      (healthy : item.isFailure → ∀ other ∈ retained, other.isFailure)

theorem findIdx?_some_split {p : QueueItem → Bool} {index : Nat} (h : retained.findIdx? p = some index) :
    ∃ item, retained[index]? = some item ∧ p item := by
  obtain ⟨hlt, hp, _⟩ := List.findIdx?_eq_some_iff_getElem.1 h
  exact ⟨retained[index], List.getElem?_eq_getElem hlt, hp⟩

theorem replacementIndex_some {index : Nat} (hne : retained ≠ [])
    (h : replacementIndex retained incoming = some index) :
    ∃ item, retained[index]? = some item ∧ Replaced retained incoming item := by
  unfold replacementIndex at h
  split at h
  · next hordinary =>
    obtain ⟨item, hitem, hp⟩ := findIdx?_some_split hordinary
    obtain rfl := Option.some.inj h
    exact ⟨item, hitem, .ordinary (by simpa using hp)⟩
  next hordinary =>
  have hall : ∀ other ∈ retained, other.isProtected := by
    simpa using List.findIdx?_eq_none_iff.1 hordinary
  split at h
  · next hcompletion =>
    obtain ⟨item, hitem, hp⟩ := findIdx?_some_split hcompletion
    obtain rfl := Option.some.inj h
    rw [Bool.and_eq_true] at hp
    exact ⟨item, hitem, .sameCompletion hall hp.1 hp.2⟩
  next hcompletion =>
  have hnone : ∀ other ∈ retained, other.isSamePair incoming → other.isProgressCompletion = false := by
    simpa using List.findIdx?_eq_none_iff.1 hcompletion
  split_ifs at h with _ hauthoritative
  replace hauthoritative : (result incoming).isAuthoritative := by simpa using hauthoritative
  split at h
  · next hhealthy =>
    obtain ⟨item, hitem, hp⟩ := findIdx?_some_split hhealthy
    obtain rfl := Option.some.inj h
    simp only [Bool.and_eq_true, Bool.not_eq_true'] at hp
    exact ⟨item, hitem, .samePair hall hauthoritative hp.1 hnone (by simp [hp.2])⟩
  next hhealthy =>
  have hfailures : ∀ other ∈ retained, other.isSamePair incoming → other.isFailure := by
    simpa using List.findIdx?_eq_none_iff.1 hhealthy
  split at h
  · next hfailure =>
    obtain ⟨item, hitem, hp⟩ := findIdx?_some_split hfailure
    obtain rfl := Option.some.inj h
    rw [Bool.and_eq_true] at hp
    exact ⟨item, hitem, .samePair hall hauthoritative hp.1 hnone fun _ => hfailures⟩
  next hfailure =>
  have hunrelated : ∀ other ∈ retained, other.isSamePair incoming = false := by
    intro other hmem
    have := List.findIdx?_eq_none_iff.1 hfailure other hmem
    have := hfailures other hmem
    grind
  split at h
  · next hcompletion =>
    obtain ⟨item, hitem, hp⟩ := findIdx?_some_split hcompletion
    obtain rfl := Option.some.inj h
    exact ⟨item, hitem, .unrelatedCompletion hall hauthoritative hp⟩
  next hcompletion =>
  replace hcompletion := List.findIdx?_eq_none_iff.1 hcompletion
  split at h
  · next hhealthy =>
    obtain ⟨item, hitem, hp⟩ := findIdx?_some_split hhealthy
    obtain rfl := Option.some.inj h
    exact ⟨item, hitem, .unrelated hall hauthoritative hunrelated hcompletion (by simp_all)⟩
  · next hhealthy =>
    obtain rfl := Option.some.inj h
    obtain ⟨item, rest, rfl⟩ := List.exists_cons_of_ne_nil hne
    have hfailed : ∀ other ∈ item :: rest, other.isFailure := by
      simpa using List.findIdx?_eq_none_iff.1 hhealthy
    exact ⟨item, rfl, .unrelated hall hauthoritative hunrelated hcompletion fun _ => hfailed⟩

/-- Nothing gives way only to a result that is not authoritative, in a queue of protected items. -/
theorem replacementIndex_none (h : replacementIndex retained incoming = none) :
    (result incoming).isAuthoritative = false ∧ ∀ item ∈ retained, item.isProtected := by
  unfold replacementIndex at h
  split at h
  · simp at h
  next hordinary =>
  refine ⟨?_, by simpa using List.findIdx?_eq_none_iff.1 hordinary⟩
  split at h
  · simp at h
  split_ifs at h with hcompletion hauthoritative
  · cases hr : (result incoming).isAuthoritative with
    | false => rfl
    | true => simp [isProgressCompletion, hr] at hcompletion
  · simpa using hauthoritative
  · repeat (split at h; · simp at h)
    simp at h

/-- An authoritative item gives way to another authoritative result only. -/
theorem Replaced.authoritative {item : QueueItem} (h : Replaced retained incoming item)
    (hitem : item.isAuthoritative) :
    (result incoming).isAuthoritative ∧
      ((item.isSamePair incoming ∧
          (∀ other ∈ retained, other.isSamePair incoming → other.isProgressCompletion = false) ∧
          (item.isFailure → ∀ other ∈ retained, other.isSamePair incoming → other.isFailure)) ∨
        ((∀ other ∈ retained, other.isSamePair incoming = false) ∧
          (∀ other ∈ retained, other.isProgressCompletion = false) ∧
          (item.isFailure → ∀ other ∈ retained, other.isFailure))) := by
  have hmarker : item.isProgressCompletion = false := by
    cases item with
    | releaseMarker => rfl
    | result r => simp [isProgressCompletion, hitem]
  cases h with
  | ordinary h => simp [isProtected, hitem] at h
  | sameCompletion _ _ completion => simp [completion] at hmarker
  | samePair _ authoritative same completions healthy =>
    exact ⟨authoritative, .inl ⟨same, completions, healthy⟩⟩
  | unrelatedCompletion _ _ completion => simp [completion] at hmarker
  | unrelated _ authoritative same completions healthy =>
    exact ⟨authoritative, .inr ⟨same, completions, healthy⟩⟩

theorem Replaced.protected_last {item : QueueItem} (h : Replaced retained incoming item)
    (hitem : item.isProtected) : ∀ other ∈ retained, other.isProtected := by
  cases h with
  | ordinary h => simp [hitem] at h
  | sameCompletion all => exact all
  | samePair all => exact all
  | unrelatedCompletion all => exact all
  | unrelated all => exact all

end Replacement

/-! ## The publication -/

section Publication

variable (queue : BoundedQueue QueueItem) (incoming : ScannerResult)

theorem publishRound_room (h : queue.items.length < queue.maxsize) :
    ∃ next : BoundedQueue QueueItem, publishRound queue incoming = .returned next true ∧
      next.maxsize = queue.maxsize ∧ next.items = queue.items ++ [result incoming] := by
  obtain ⟨next, hput, hsize, hitems⟩ := queue.putNowait_room (result incoming) h
  exact ⟨next, by simp only [publishRound, hput], hsize, hitems⟩

/-- A full queue: the result is refused and the queue put back, or one item is taken out. -/
theorem publishRound_full (h : ¬ queue.items.length < queue.maxsize) :
    (∃ next : BoundedQueue QueueItem, publishRound queue incoming = .returned next false ∧
      next.maxsize = queue.maxsize ∧ next.items = queue.items ∧
      (result incoming).isAuthoritative = false ∧ ∀ item ∈ queue.items, item.isProtected) ∨
    ∃ (next : BoundedQueue QueueItem) (before : List QueueItem) (item : QueueItem) (after : List QueueItem),
      publishRound queue incoming = .again next ∧ next.maxsize = queue.maxsize ∧
      queue.items = before ++ item :: after ∧ next.items = before ++ after ∧
      Replaced queue.items incoming item := by
  have hne : queue.items ≠ [] := by
    rintro hnil
    have := queue.positive
    simp [hnil] at h
    omega
  obtain ⟨hdrained, hempty, hsize⟩ := queue.drain_spec
  have hroom := queue.bounded
  simp only [publishRound, BoundedQueue.putNowait_full h, hdrained, if_neg hne]
  split
  · next hnone =>
    obtain ⟨_, hitems, hmax⟩ := queue.drain.2.putAll_fits queue.items
      (by rw [hempty, hsize]; simpa using hroom)
    obtain ⟨hauthoritative, hall⟩ := replacementIndex_none hnone
    exact .inl ⟨_, rfl, hmax.trans hsize, by rw [hitems, hempty, List.nil_append], hauthoritative, hall⟩
  · next index hsome =>
    obtain ⟨item, hitem, hreplaced⟩ := replacementIndex_some hne hsome
    obtain ⟨hlt, rfl⟩ := List.getElem?_eq_some_iff.1 hitem
    obtain ⟨hall, hitems, hmax⟩ := queue.drain.2.putAll_fits (queue.items.eraseIdx index)
      (by rw [hempty, hsize, List.length_nil, List.length_eraseIdx_of_lt hlt]; omega)
    refine .inr ⟨_, queue.items.take index, _, queue.items.drop (index + 1), by rw [hall, if_pos rfl],
      hmax.trans hsize, ?_, ?_, hreplaced⟩
    · rw [← List.drop_eq_getElem_cons hlt, List.take_append_drop]
    · rw [hitems, hempty, List.nil_append, List.eraseIdx_eq_take_drop_succ]

/-- Two turns are enough. Either the queue had room, or it refuses the result and stays as it is, or
one item gave way to it. -/
theorem publishBoundedResult_cases (turns : Nat) :
    ∃ (next : BoundedQueue QueueItem) (published : Bool),
      publishBoundedResult (turns + 2) queue incoming = some (next, published) ∧
      next.maxsize = queue.maxsize ∧
      ((published = true ∧ next.items = queue.items ++ [result incoming]) ∨
        (published = false ∧ next.items = queue.items ∧
          (result incoming).isAuthoritative = false ∧ ∀ item ∈ queue.items, item.isProtected) ∨
        ∃ before item after, published = true ∧ queue.items = before ++ item :: after ∧
          next.items = before ++ after ++ [result incoming] ∧ Replaced queue.items incoming item) := by
  by_cases hroom : queue.items.length < queue.maxsize
  · obtain ⟨next, hround, hsize, hitems⟩ := publishRound_room queue incoming hroom
    exact ⟨next, true, by simp only [publishBoundedResult, hround], hsize, .inl ⟨rfl, hitems⟩⟩
  rcases publishRound_full queue incoming hroom with
    ⟨next, hround, hsize, hitems, hrest⟩ | ⟨restored, before, item, after, hround, hsize, hsplit, hitems, hreplaced⟩
  · exact ⟨next, false, by simp only [publishBoundedResult, hround], hsize, .inr (.inl ⟨rfl, hitems, hrest⟩)⟩
  · have hlength : restored.items.length < restored.maxsize := by
      have := queue.bounded
      rw [hsplit] at this
      rw [hitems, hsize]
      simp at this ⊢
      omega
    obtain ⟨next, hagain, hmax, hlast⟩ := publishRound_room restored incoming hlength
    refine ⟨next, true, by simp only [publishBoundedResult, hround, hagain], hmax.trans hsize, .inr (.inr ?_)⟩
    exact ⟨before, item, after, rfl, hsplit, by rw [hlast, hitems], hreplaced⟩

end Publication

/-! ## Protected results survive -/

/-- The queue keeps its capacity and its order and loses one item at most. A protected item goes
only when no ordinary one is left; an authoritative one goes only to another authoritative result,
which is always enqueued. -/
theorem publishBoundedResult_keeps_protected (queue : BoundedQueue QueueItem) (incoming : ScannerResult)
    (turns : Nat) :
    ∃ (next : BoundedQueue QueueItem) (published : Bool) (kept : List QueueItem),
      publishBoundedResult (turns + 2) queue incoming = some (next, published) ∧
      next.maxsize = queue.maxsize ∧ next.items.length ≤ queue.maxsize ∧
      next.items = kept ++ (if published then [result incoming] else []) ∧
      kept.Sublist queue.items ∧ queue.items.length ≤ kept.length + 1 ∧
      ((result incoming).isAuthoritative → published = true) ∧
      (kept = queue.items ∨
        ∃ before item after, published = true ∧ queue.items = before ++ item :: after ∧ kept = before ++ after ∧
          (item.isProtected → ∀ other ∈ queue.items, other.isProtected) ∧
          (item.isAuthoritative →
            (result incoming).isAuthoritative ∧
              ((item.isSamePair incoming ∧
                  (∀ other ∈ queue.items, other.isSamePair incoming → other.isProgressCompletion = false) ∧
                  (item.isFailure → ∀ other ∈ queue.items, other.isSamePair incoming → other.isFailure)) ∨
                ((∀ other ∈ queue.items, other.isSamePair incoming = false) ∧
                  (∀ other ∈ queue.items, other.isProgressCompletion = false) ∧
                  (item.isFailure → ∀ other ∈ queue.items, other.isFailure))))) := by
  obtain ⟨next, published, hrun, hsize, hcases⟩ :=
    publishBoundedResult_cases queue incoming turns
  have hbound : next.items.length ≤ queue.maxsize := hsize ▸ next.bounded
  rcases hcases with ⟨rfl, hitems⟩ | ⟨rfl, hitems, hordinary, _⟩ | ⟨before, item, after, rfl, hsplit, hitems, hreplaced⟩
  · exact ⟨next, true, queue.items, hrun, hsize, hbound, by simpa using hitems, List.Sublist.refl _, by omega,
      fun _ => rfl, .inl rfl⟩
  · exact ⟨next, false, queue.items, hrun, hsize, hbound, by simpa using hitems, List.Sublist.refl _, by omega,
      by simp [hordinary], .inl rfl⟩
  · refine ⟨next, true, before ++ after, hrun, hsize, hbound, by simpa using hitems, ?_, ?_, fun _ => rfl,
      .inr ⟨before, item, after, rfl, hsplit, rfl, hreplaced.protected_last, hreplaced.authoritative⟩⟩
    · rw [hsplit]
      exact (List.Sublist.refl before).append (List.sublist_cons_self item after)
    · simp only [hsplit, List.length_append, List.length_cons]
      omega

/-- A progress result of no completed pair takes the place of a completion marker of its pair, and a
final result of one pair that of a final result of two while a marker of a third stays. -/
theorem protected_results_give_way :
    let marker := fun pair : PairId => QueueItem.result
      { files := [], scannedPathPairIds := [pair], isProgress := true, completedPathPairIds := [pair], isScanFinal := false }
    let progress : ScannerResult :=
      { files := [], scannedPathPairIds := [some "p"], isProgress := true, isScanFinal := false }
    let both := QueueItem.result { files := [], scannedPathPairIds := [some "p", some "q"] }
    let one : ScannerResult := { files := [], scannedPathPairIds := [some "p"] }
    let items := fun answer : Option (BoundedQueue QueueItem × Bool) => answer.map (·.1.items)
    ((marker (some "p")).isProtected ∧ (result progress).isProtected = false ∧
      items (publishBoundedResult 2 ⟨1, [marker (some "p")], by decide, by decide⟩ progress) =
        some [result progress]) ∧
    (both.isAuthoritative ∧ some "q" ∉ (result one).pairIds ∧
      items (publishBoundedResult 2 ⟨2, [marker (some "r"), both], by decide, by decide⟩ one) =
        some [marker (some "r"), result one]) := by
  decide +kernel

end SeedSync
