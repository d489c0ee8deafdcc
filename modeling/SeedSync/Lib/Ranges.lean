import Mathlib.Algebra.Ring.Nat
import Mathlib.Data.Finset.Card
import Mathlib.Order.Interval.Finset.Nat
import Mathlib.Tactic.SplitIfs

/-!
# Ranges of positions

Half-open ranges of naturals, and the positions that lie in at least one of them. Of ranges that do not overlap
those are as many as the lengths say.
-/

namespace SeedSync.Lib

/-- `[start, stop)` -/
structure Range where
  start : Nat
  stop : Nat
  deriving DecidableEq, Repr

namespace Range

def Contains (range : Range) (position : Nat) : Prop := range.start ≤ position ∧ position < range.stop

instance (range : Range) (position : Nat) : Decidable (range.Contains position) :=
  inferInstanceAs (Decidable (_ ∧ _))

def length (range : Range) : Nat := range.stop - range.start

/-- Each starts before the other stops. An empty range overlaps one that it lies inside. -/
def overlaps (range other : Range) : Bool := decide (range.start < other.stop) && decide (other.start < range.stop)

theorem overlaps_comm (range other : Range) : range.overlaps other = other.overlaps range := Bool.and_comm _ _

theorem not_contains_of_not_overlaps {range other : Range} (h : range.overlaps other = false) {position : Nat}
    (hrange : range.Contains position) : ¬ other.Contains position := by
  unfold overlaps at h
  unfold Contains at hrange ⊢
  simp only [Bool.and_eq_false_iff, decide_eq_false_iff_not] at h
  omega

/-- The positions below `total` that lie in at least one of the ranges. -/
def covered (ranges : List Range) (total : Nat) : Finset Nat :=
  (Finset.range total).filter fun position => ∃ range ∈ ranges, range.Contains position

theorem mem_covered {ranges : List Range} {total position : Nat} :
    position ∈ covered ranges total ↔ position < total ∧ ∃ range ∈ ranges, range.Contains position := by
  rw [covered, Finset.mem_filter, Finset.mem_range]

theorem covered_nil (total : Nat) : covered [] total = ∅ := by simp [covered]

theorem covered_card_le (ranges : List Range) (total : Nat) : (covered ranges total).card ≤ total := by
  have h := Finset.card_filter_le (Finset.range total) fun position => ∃ range ∈ ranges, range.Contains position
  rwa [Finset.card_range] at h

/-- One range more. -/
theorem covered_cons {range : Range} {total : Nat} (h : range.stop ≤ total) (ranges : List Range) :
    covered (range :: ranges) total = Finset.Ico range.start range.stop ∪ covered ranges total := by
  ext position
  rw [mem_covered, Finset.mem_union, Finset.mem_Ico, mem_covered, List.exists_mem_cons_iff]
  constructor
  · rintro ⟨hposition, hin | hin⟩
    · exact .inl hin
    · exact .inr ⟨hposition, hin⟩
  · rintro (hin | ⟨hposition, hin⟩)
    · exact ⟨by omega, .inl hin⟩
    · exact ⟨hposition, .inr hin⟩

/-- The lengths of ranges that do not overlap count each position once. -/
theorem covered_card {ranges : List Range} {total : Nat} (hwithin : ∀ range ∈ ranges, range.stop ≤ total)
    (hdisjoint : ranges.Pairwise fun a b => a.overlaps b = false) :
    (covered ranges total).card = (ranges.map length).sum := by
  induction ranges with
  | nil => rw [covered_nil]; rfl
  | cons range ranges ih =>
    obtain ⟨hfirst, hrest⟩ := List.pairwise_cons.1 hdisjoint
    have happart : Disjoint (Finset.Ico range.start range.stop) (covered ranges total) := by
      rw [Finset.disjoint_left]
      intro position hposition hcovered
      rw [Finset.mem_Ico] at hposition
      obtain ⟨other, hmem, hother⟩ := (mem_covered.1 hcovered).2
      exact not_contains_of_not_overlaps (hfirst other hmem) hposition hother
    rw [covered_cons (hwithin range List.mem_cons_self), Finset.card_union_of_disjoint happart, Nat.card_Ico,
      ih (fun other hother => hwithin other (List.mem_cons_of_mem _ hother)) hrest, List.map_cons, List.sum_cons, length]

end Range

end SeedSync.Lib
