import Mathlib.Order.Basic

/-!
# Values under a stamp

A value that is replaced under a new stamp each time it changes: later states with the same stamp
have the same value, so a cache may remember the stamp in place of the value.
-/

namespace SeedSync.Lib

structure Stamped (α : Type) where
  stamp : Nat
  value : α

namespace Stamped

variable {α : Type}

/-- The next value, under the next stamp. -/
def next (s : Stamped α) (value : α) : Stamped α := ⟨s.stamp + 1, value⟩

/-- A later state of the same value. -/
structure Leads (s t : Stamped α) : Prop where
  stamp : s.stamp ≤ t.stamp
  value : s.stamp = t.stamp → s.value = t.value

theorem Leads.refl (s : Stamped α) : s.Leads s := ⟨Nat.le_refl _, fun _ => rfl⟩

theorem Leads.trans {s t u : Stamped α} (hst : s.Leads t) (htu : t.Leads u) : s.Leads u where
  stamp := Nat.le_trans hst.stamp htu.stamp
  value hstamp := by
    have hfirst := hst.stamp
    have hsecond := htu.stamp
    exact (hst.value (by omega)).trans (htu.value (by omega))

theorem leads_next (s : Stamped α) (value : α) : s.Leads (s.next value) where
  stamp := Nat.le_succ _
  value hstamp := absurd hstamp (Nat.ne_of_lt (Nat.lt_succ_self _))

end Stamped

end SeedSync.Lib
