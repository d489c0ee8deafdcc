import Mathlib.Data.List.Basic

/-!
# Programs that may raise

A program over a state that an exception does not roll back, and the rules for what it keeps of
the state and what it returns.
-/

namespace SeedSync.Lib

variable {ε σ α β ι : Type}

/-- A computation that succeeds succeeded in each of its parts. -/
theorem ok_of_bind {x : Except ε α} {f : α → Except ε β} {b : β} (h : x >>= f = .ok b) :
    ∃ a, x = .ok a ∧ f a = .ok b := by
  cases x with
  | error e => cases h
  | ok a => exact ⟨a, rfl, h⟩

theorem ok_of_map {x : Except ε α} {f : α → β} {b : β} (h : f <$> x = .ok b) : ∃ a, x = .ok a ∧ f a = b := by
  cases x with
  | error e => cases h
  | ok a => exact ⟨a, rfl, Except.ok.inj h⟩

theorem ok_of_toOption {x : Except ε α} {a : α} (h : x.toOption = some a) : x = .ok a := by
  cases x with
  | error e => cases h
  | ok b => cases h; rfl

theorem run_get_bind (f : σ → ExceptT ε (StateM σ) β) (s : σ) :
    (get >>= f : ExceptT ε (StateM σ) β).run.run s = (f s).run.run s := rfl

theorem run_modify_bind (g : σ → σ) (f : PUnit → ExceptT ε (StateM σ) β) (s : σ) :
    (modify g >>= f : ExceptT ε (StateM σ) β).run.run s = (f ⟨⟩).run.run (g s) := rfl

theorem run_set_bind (s' : σ) (f : PUnit → ExceptT ε (StateM σ) β) (s : σ) :
    (set s' >>= f : ExceptT ε (StateM σ) β).run.run s = (f ⟨⟩).run.run s' := rfl

theorem run_bind_of_ok {m : ExceptT ε (StateM σ) α} {a : α} {s s' : σ} (h : m.run.run s = (.ok a, s'))
    (f : α → ExceptT ε (StateM σ) β) : (m >>= f).run.run s = (f a).run.run s' := by
  have hm : m s = (.ok a, s') := h
  change (ExceptT.bind m f) s = f a s'
  simp only [ExceptT.bind, ExceptT.mk, Bind.bind, StateT.bind, hm]
  rfl

theorem run_bind_of_error {m : ExceptT ε (StateM σ) α} {e : ε} {s s' : σ} (h : m.run.run s = (.error e, s'))
    (f : α → ExceptT ε (StateM σ) β) : (m >>= f).run.run s = (.error e, s') := by
  have hm : m s = (.error e, s') := h
  change (ExceptT.bind m f) s = (.error e, s')
  simp only [ExceptT.bind, ExceptT.mk, Bind.bind, StateT.bind, hm]
  rfl

theorem run_discard (m : ExceptT ε (StateM σ) α) (s : σ) : ((discard m).run.run s).2 = (m.run.run s).2 := by
  change ((m >>= fun _ => (pure ⟨⟩ : ExceptT ε (StateM σ) PUnit)).run.run s).2 = (m.run.run s).2
  rcases hrun : m.run.run s with ⟨r | a, s'⟩
  · rw [run_bind_of_error hrun]
  · rw [run_bind_of_ok hrun]
    rfl

/-- From a state that meets `I`, `m` ends in one that does, and returns only what meets `Q`. -/
def Spec (I : σ → Prop) (m : ExceptT ε (StateM σ) α) (Q : α → Prop) : Prop :=
  ∀ s, I s → I (m.run.run s).2 ∧ ∀ a, (m.run.run s).1 = .ok a → Q a

namespace Spec

variable {I : σ → Prop} {m : ExceptT ε (StateM σ) α} {Q : α → Prop}

theorem weaken {Q' : α → Prop} (h : Spec I m Q) (himp : ∀ a, Q a → Q' a) : Spec I m Q' :=
  fun s hs => ⟨(h s hs).1, fun a ha => himp a ((h s hs).2 a ha)⟩

theorem trivial (h : Spec I m Q) : Spec I m (fun _ => True) := h.weaken (fun _ _ => True.intro)

/-- Without a demand on the state nothing is to be shown of it. -/
theorem any (m : ExceptT ε (StateM σ) α) : Spec (fun _ => True) m (fun _ => True) :=
  fun _ _ => ⟨True.intro, fun _ _ => True.intro⟩

/-- What is returned whatever the state is returned here too. -/
theorem and_any {Q' : α → Prop} (h : Spec I m Q) (h' : Spec (fun _ => True) m Q') : Spec I m (fun a => Q a ∧ Q' a) :=
  fun s hs => ⟨(h s hs).1, fun a ha => ⟨(h s hs).2 a ha, (h' s True.intro).2 a ha⟩⟩

/-- Two invariants are kept together. -/
theorem both {J : σ → Prop} {R : α → Prop} (h : Spec I m Q) (h' : Spec J m R) :
    Spec (fun s => I s ∧ J s) m (fun a => Q a ∧ R a) :=
  fun s hs => ⟨⟨(h s hs.1).1, (h' s hs.2).1⟩, fun a ha => ⟨(h s hs.1).2 a ha, (h' s hs.2).2 a ha⟩⟩

theorem pure {a : α} (h : Q a) : Spec I (Pure.pure a : ExceptT ε (StateM σ) α) Q := by
  intro s hs
  refine ⟨hs, fun a' ha => ?_⟩
  cases ha
  exact h

theorem throw {e : ε} : Spec I (MonadExcept.throw e : ExceptT ε (StateM σ) α) Q := by
  intro s hs
  exact ⟨hs, fun a ha => by cases ha⟩

theorem bind {f : α → ExceptT ε (StateM σ) β} {R : β → Prop} (hm : Spec I m Q)
    (hf : ∀ a, Q a → Spec I (f a) R) : Spec I (m >>= f) R := by
  intro s hs
  obtain ⟨hs', hQ⟩ := hm s hs
  change I ((ExceptT.bind m f) s).2 ∧ ∀ a, ((ExceptT.bind m f) s).1 = .ok a → R a
  simp only [ExceptT.bind, ExceptT.mk, Bind.bind, StateT.bind]
  cases hrun : (m.run.run s) with
  | mk r s' =>
    rw [hrun] at hs' hQ
    have hm : m s = (r, s') := hrun
    rw [hm]
    cases r with
    | error e => exact ⟨hs', fun a ha => by cases ha⟩
    | ok a => exact hf a (hQ a rfl) s' hs'

theorem modify {f : σ → σ} (h : ∀ s, I s → I (f s)) :
    Spec I (modify f : ExceptT ε (StateM σ) PUnit) (fun _ => True) :=
  fun s hs => ⟨h s hs, fun _ _ => True.intro⟩

theorem get_bind {f : σ → ExceptT ε (StateM σ) β} {R : β → Prop} (h : ∀ s, I s → Spec I (f s) R) :
    Spec I (get >>= f) R :=
  fun s hs => h s hs s hs

theorem set {s' : σ} (h : I s') : Spec I (set s' : ExceptT ε (StateM σ) PUnit) (fun _ => True) :=
  fun _ _ => ⟨h, fun _ _ => True.intro⟩

/-- An `Except` inside a program. -/
theorem lift {e : Except ε α} (h : ∀ a, e = .ok a → Q a) : Spec I (liftM e : ExceptT ε (StateM σ) α) Q := by
  intro s hs
  refine ⟨hs, fun a ha => h a ?_⟩
  cases e with
  | error e => cases ha
  | ok a' => cases ha; rfl

/-- What one turn keeps of the accumulator, the loop keeps. -/
theorem foldlM {P : β → Prop} {f : β → ι → ExceptT ε (StateM σ) β} (l : List ι)
    (hf : ∀ acc, ∀ i ∈ l, P acc → Spec I (f acc i) P) {acc : β} (hacc : P acc) :
    Spec I (l.foldlM f acc) P := by
  induction l generalizing acc with
  | nil => exact pure hacc
  | cons i l ih =>
    rw [List.foldlM_cons]
    exact bind (hf acc i List.mem_cons_self hacc) fun a ha =>
      ih (fun acc j hj => hf acc j (List.mem_cons_of_mem _ hj)) ha

theorem forM {f : ι → ExceptT ε (StateM σ) PUnit} (l : List ι) (hf : ∀ i ∈ l, Spec I (f i) (fun _ => True)) :
    Spec I (l.forM f) (fun _ => True) := by
  induction l with
  | nil => exact pure True.intro
  | cons i l ih =>
    exact bind (hf i List.mem_cons_self) fun _ _ => ih fun j hj => hf j (List.mem_cons_of_mem _ hj)

/-- Two programs that agree on all that the first part can return are one. -/
theorem bind_congr {f g : α → ExceptT ε (StateM σ) β} (h : Spec (fun _ => True) m Q) (hfg : ∀ a, Q a → f a = g a) :
    m >>= f = m >>= g := by
  funext s
  obtain ⟨-, hQ⟩ := h s True.intro
  change (ExceptT.bind m f) s = (ExceptT.bind m g) s
  simp only [ExceptT.bind, ExceptT.mk, Bind.bind, StateT.bind]
  cases hrun : m s with
  | mk r s' =>
    cases r with
    | error e => rfl
    | ok a => exact congrFun (hfg a (hQ a (congrArg Prod.fst hrun))) s'

end Spec

/-! ## States before and after -/

/-- From a state that meets `P`, `m` returns with `Q` or raises with `E`. -/
def Triple (P : σ → Prop) (m : ExceptT ε (StateM σ) α) (Q : α → σ → Prop) (E : σ → Prop) : Prop :=
  ∀ s, P s → match m.run.run s with
    | (.ok a, s') => Q a s'
    | (.error _, s') => E s'

namespace Triple

variable {P : σ → Prop} {m : ExceptT ε (StateM σ) α} {Q : α → σ → Prop} {E : σ → Prop}

theorem conseq {P' : σ → Prop} {Q' : α → σ → Prop} {E' : σ → Prop} (h : Triple P m Q E) (hP : ∀ s, P' s → P s)
    (hQ : ∀ a s, Q a s → Q' a s) (hE : ∀ s, E s → E' s) : Triple P' m Q' E' := by
  intro s hs
  have := h s (hP s hs)
  generalize m.run.run s = r at this ⊢
  obtain ⟨r | a, s'⟩ := r
  · exact hE s' this
  · exact hQ a s' this

/-- What is kept is an invariant. -/
theorem spec {I : σ → Prop} {R : α → Prop} (h : Triple I m (fun a s => I s ∧ R a) I) : Spec I m R := by
  intro s hs
  have := h s hs
  change I (m.run.run s).2 ∧ ∀ a, (m.run.run s).1 = .ok a → R a
  generalize m.run.run s = r at this ⊢
  obtain ⟨r | a, s'⟩ := r
  · exact ⟨this, fun a ha => by cases ha⟩
  · exact ⟨this.1, fun b hb => by cases hb; exact this.2⟩

theorem of_spec {I : σ → Prop} {R : α → Prop} (h : Spec I m R) : Triple I m (fun a s => I s ∧ R a) I := by
  intro s hs
  have := h s hs
  generalize m.run.run s = r at this ⊢
  obtain ⟨r | a, s'⟩ := r
  · exact this.1
  · exact ⟨this.1, this.2 a rfl⟩

/-- An invariant holds in the end, whether the program raises or not. -/
theorem keep {I : σ → Prop} (h : Spec I m fun _ => True) : Triple I m (fun _ => I) I :=
  (of_spec h).conseq (fun _ h => h) (fun _ _ h => h.1) fun _ h => h

/-- A property of the last state, whether the program raises or not. -/
theorem of_run {R : σ → Prop} {s : σ} (h : R (m.run.run s).2) : Triple (fun s' => s' = s) m (fun _ => R) R := by
  rintro s' rfl
  generalize m.run.run s' = r at h ⊢
  obtain ⟨r | a, s''⟩ := r <;> exact h

theorem of_exists {P : ι → σ → Prop} (h : ∀ i, Triple (P i) m Q E) : Triple (fun s => ∃ i, P i s) m Q E := by
  rintro s ⟨i, hi⟩
  exact h i s hi

theorem of_and {p : Prop} (h : p → Triple P m Q E) : Triple (fun s => p ∧ P s) m Q E := by
  rintro s ⟨hp, hs⟩
  exact h hp s hs

theorem and {Q' : α → σ → Prop} {E' : σ → Prop} (h : Triple P m Q E) (h' : Triple P m Q' E') :
    Triple P m (fun a s => Q a s ∧ Q' a s) (fun s => E s ∧ E' s) := by
  intro s hs
  have hleft := h s hs
  have hright := h' s hs
  generalize m.run.run s = r at hleft hright ⊢
  obtain ⟨r | a, s'⟩ := r <;> exact ⟨hleft, hright⟩

theorem run {R : σ → Prop} (h : Triple P m (fun _ => R) R) {s : σ} (hs : P s) : R (m.run.run s).2 := by
  have := h s hs
  generalize m.run.run s = r at this ⊢
  obtain ⟨r | a, s'⟩ := r <;> exact this

theorem pure {a : α} (h : ∀ s, P s → Q a s) : Triple P (Pure.pure a : ExceptT ε (StateM σ) α) Q E :=
  fun s hs => h s hs

theorem throw {e : ε} (h : ∀ s, P s → E s) : Triple P (MonadExcept.throw e : ExceptT ε (StateM σ) α) Q E :=
  fun s hs => h s hs

theorem bind {f : α → ExceptT ε (StateM σ) β} {R : β → σ → Prop} (hm : Triple P m Q E)
    (hf : ∀ a, Triple (Q a) (f a) R E) : Triple P (m >>= f) R E := by
  intro s hs
  have hrun := hm s hs
  change match (ExceptT.bind m f) s with
    | (.ok a, s') => R a s'
    | (.error _, s') => E s'
  simp only [ExceptT.bind, ExceptT.mk, Bind.bind, StateT.bind]
  have hms : m.run.run s = m s := rfl
  rw [hms] at hrun
  generalize m s = r at hrun ⊢
  obtain ⟨r | a, s'⟩ := r
  · exact hrun
  · exact hf a s' hrun

theorem get_bind {f : σ → ExceptT ε (StateM σ) β} {R : β → σ → Prop}
    (h : ∀ s, P s → Triple (fun s' => s' = s) (f s) R E) : Triple P (get >>= f) R E :=
  fun s hs => h s hs s rfl

theorem modify {f : σ → σ} {Q : PUnit → σ → Prop} (h : ∀ s, P s → Q ⟨⟩ (f s)) :
    Triple P (modify f : ExceptT ε (StateM σ) PUnit) Q E :=
  fun s hs => h s hs

theorem set {s' : σ} {Q : PUnit → σ → Prop} (h : ∀ s, P s → Q ⟨⟩ s') :
    Triple P (set s' : ExceptT ε (StateM σ) PUnit) Q E :=
  fun s hs => h s hs

theorem set_bind {s' : σ} {f : PUnit → ExceptT ε (StateM σ) β} {R : β → σ → Prop}
    (h : Triple (fun s => s = s') (f ⟨⟩) R E) : Triple P (MonadStateOf.set s' >>= f) R E :=
  fun _ _ => h s' rfl

theorem lift {e : Except ε α} (hok : ∀ a, e = .ok a → ∀ s, P s → Q a s) (herror : ∀ x, e = .error x → ∀ s, P s → E s) :
    Triple P (liftM e : ExceptT ε (StateM σ) α) Q E := by
  intro s hs
  cases e with
  | error x => exact herror x rfl s hs
  | ok a => exact hok a rfl s hs

/-- A check that raises. -/
theorem guard {c : Prop} [Decidable c] {e : ε} {f : α → ExceptT ε (StateM σ) β} {rest : ExceptT ε (StateM σ) β}
    {R : β → σ → Prop} (herror : c → ∀ s, P s → E s) (hrest : ¬ c → Triple P rest R E) :
    Triple P (if c then (MonadExcept.throw e >>= f) else rest) R E := by
  split_ifs with hc
  · exact fun s hs => herror hc s hs
  · exact hrest hc

/-- A loop, with what is left of its list. -/
theorem forM {P : List ι → σ → Prop} {f : ι → ExceptT ε (StateM σ) PUnit}
    (step : ∀ i l, Triple (P (i :: l)) (f i) (fun _ => P l) E) (l : List ι) :
    Triple (P l) (l.forM f) (fun _ => P []) E := by
  induction l with
  | nil => exact pure fun _ hs => hs
  | cons i l ih => exact bind (step i l) fun _ => ih

end Triple

/-! ## Exceptions -/

/-- Where `m` raises what meets `bad`, the state before and the state after are as `R` says. -/
def Raises (R : σ → σ → Prop) (bad : ε → Prop) (m : ExceptT ε (StateM σ) α) : Prop :=
  ∀ s e, (m.run.run s).1 = .error e → bad e → R s (m.run.run s).2

namespace Raises

variable {R : σ → σ → Prop} {bad : ε → Prop} {m : ExceptT ε (StateM σ) α} {f : α → ExceptT ε (StateM σ) β}

theorem pure {a : α} : Raises R bad (Pure.pure a : ExceptT ε (StateM σ) α) := fun _ _ h => by cases h

theorem modify {g : σ → σ} : Raises R bad (modify g : ExceptT ε (StateM σ) PUnit) := fun _ _ h => by cases h

theorem set {s' : σ} : Raises R bad (set s' : ExceptT ε (StateM σ) PUnit) := fun _ _ h => by cases h

theorem throw {e : ε} (hR : bad e → ∀ s, R s s) : Raises R bad (MonadExcept.throw e : ExceptT ε (StateM σ) α) := by
  intro s e' h hbad
  cases h
  exact hR hbad s

theorem lift {e : Except ε α} (hR : ∀ s, R s s) : Raises R bad (liftM e : ExceptT ε (StateM σ) α) := fun s _ _ _ => hR s

theorem get_bind {f : σ → ExceptT ε (StateM σ) β} (h : ∀ s, Raises R bad (f s)) : Raises R bad (get >>= f) :=
  fun s => h s s

/-- A first part that stays within `R` may be followed by a part that raises. -/
theorem bind (htrans : ∀ a b c, R a b → R b c → R a c) (hm : ∀ s, R s (m.run.run s).2) (hf : ∀ a, Raises R bad (f a)) :
    Raises R bad (m >>= f) := by
  intro s e h hbad
  have hs := hm s
  generalize hrun : m.run.run s = r at hs
  obtain ⟨r | a, s'⟩ := r
  · rw [run_bind_of_error hrun]
    exact hs
  · rw [run_bind_of_ok hrun] at h ⊢
    exact htrans _ _ _ hs (hf a s' e h hbad)

/-- What follows raises nothing of that kind. -/
theorem bind_never (hm : Raises R bad m) (hf : ∀ a, Raises (fun _ _ => False) bad (f a)) : Raises R bad (m >>= f) := by
  intro s e h hbad
  have hs := hm s
  generalize hrun : m.run.run s = r at hs
  obtain ⟨r | a, s'⟩ := r
  · rw [run_bind_of_error hrun] at h ⊢
    cases h
    exact hs _ rfl hbad
  · rw [run_bind_of_ok hrun] at h
    exact (hf a s' e h hbad).elim

end Raises

end SeedSync.Lib
