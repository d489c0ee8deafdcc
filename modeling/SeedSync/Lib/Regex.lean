import Mathlib.Data.List.Basic

/-!
# Matching with backtracking

A matcher lists the ways in which it reads the front of a text, each with the rest that it leaves, in
the order in which a search with backtracking tries them. The search finds the first. What a matcher
reads may be used by those after it, as a backreference does.
-/

namespace SeedSync.Lib

def Matcher (σ α : Type) : Type := List σ → List (α × List σ)

namespace Matcher

variable {σ α β : Type}

instance : Monad (Matcher σ) where
  pure a := fun text => [(a, text)]
  bind m f := fun text => (m text).flatMap fun read => f read.1 read.2

/-! ## Matchers -/

/-- The ways of the first, then those of the second. -/
def orElse (m n : Matcher σ α) : Matcher σ α := fun text => m text ++ n text

/-- One symbol of a class. -/
def one (q : σ → Bool) : Matcher σ σ
  | [] => []
  | c :: rest => if q c then [(c, rest)] else []

/-- A given text. -/
def lit [DecidableEq σ] (word : List σ) : Matcher σ Unit := fun text =>
  if word <+: text then [((), text.drop word.length)] else []

/-- As many symbols of a class as there are, then fewer. -/
def greedy (q : σ → Bool) : Matcher σ (List σ)
  | [] => [([], [])]
  | c :: rest =>
    if q c then (greedy q rest).map (fun read => (c :: read.1, read.2)) ++ [([], c :: rest)] else [([], c :: rest)]

/-- As few symbols of a class as do, then more. -/
def reluctant (q : σ → Bool) : Matcher σ (List σ)
  | [] => [([], [])]
  | c :: rest => ([], c :: rest) :: if q c then (reluctant q rest).map (fun read => (c :: read.1, read.2)) else []

/-- At least one symbol of a class, and as many as there are. -/
def some1 (q : σ → Bool) : Matcher σ (List σ) := do
  let first ← one q
  let more ← greedy q
  return first :: more

/-- A condition on the text that is still to be read. -/
def ahead (q : List σ → Bool) : Matcher σ Unit := fun text => if q text then [((), text)] else []

/-- What the search finds. -/
def find (m : Matcher σ α) (text : List σ) : Option (α × List σ) := (m text).head?

/-! ## Steps -/

section

variable {m n : Matcher σ α} {f : α → Matcher σ β} {text : List σ}

theorem run_bind : (m >>= f) text = (m text).flatMap fun read => f read.1 read.2 := rfl

theorem run_pure (a : α) : (pure a : Matcher σ α) text = [(a, text)] := rfl

theorem bind_pure_run : (m >>= pure) = m := by
  funext text
  change (m text).flatMap (fun read => [(read.1, read.2)]) = m text
  simp

instance : LawfulMonad (Matcher σ) :=
  LawfulMonad.mk' _ (fun _ => bind_pure_run) (fun _ _ => by funext text; simp [run_bind, run_pure])
    (fun _ _ _ => by funext text; simp [run_bind, List.flatMap_assoc])

theorem mem_bind {read : β × List σ} (h : read ∈ (m >>= f) text) : ∃ first ∈ m text, read ∈ f first.1 first.2 :=
  List.mem_flatMap.1 h

theorem bind_mem {first : α × List σ} {read : β × List σ} (hfirst : first ∈ m text) (h : read ∈ f first.1 first.2) :
    read ∈ (m >>= f) text :=
  List.mem_flatMap.2 ⟨first, hfirst, h⟩

theorem pure_mem (a : α) : (a, text) ∈ (pure a : Matcher σ α) text := List.mem_singleton_self _

theorem mem_of_find {read : α × List σ} (h : find m text = some read) : read ∈ m text := List.mem_of_head? h

theorem find_isSome_iff : (find m text).isSome ↔ ∃ read, read ∈ m text := by
  unfold find
  cases m text with
  | nil => simp
  | cons read more => simp only [List.head?_cons, Option.isSome_some, true_iff]; exact ⟨read, List.mem_cons_self⟩

theorem find_pure (a : α) : find (pure a : Matcher σ α) text = some (a, text) := rfl

theorem find_bind : find (m >>= f) text = (m text).findSome? fun read => find (f read.1) read.2 := by
  rw [find, run_bind, List.head?_flatMap]
  rfl

theorem find_bind_single {a : α} {rest : List σ} (h : m text = [(a, rest)]) : find (m >>= f) text = find (f a) rest := by
  rw [find_bind, h]
  simp

theorem find_bind_none (h : m text = []) : find (m >>= f) text = none := by
  rw [find_bind, h]
  rfl

theorem find_orElse_bind : find (orElse m n >>= f) text = (find (m >>= f) text).or (find (n >>= f) text) := by
  rw [find_bind, find_bind, find_bind, orElse, List.findSome?_append]

end

/-! ## Single readings -/

section

variable {f : α → Matcher σ β} {rest : List σ}

theorem find_one_bind {q : σ → Bool} {f : σ → Matcher σ β} {c : σ} (h : q c = true) :
    find (one q >>= f) (c :: rest) = find (f c) rest :=
  find_bind_single (if_pos h)

theorem find_one_bind_none {q : σ → Bool} {f : σ → Matcher σ β} {text : List σ} (h : ∀ c ∈ text.head?, q c = false) :
    find (one q >>= f) text = none := by
  apply find_bind_none
  cases text with
  | nil => rfl
  | cons c rest => exact if_neg (by simp [h c rfl])

theorem find_lit_bind [DecidableEq σ] {f : Unit → Matcher σ β} (word : List σ) :
    find (lit word >>= f) (word ++ rest) = find (f ()) rest :=
  find_bind_single (by rw [lit, if_pos (List.prefix_append ..), List.drop_left])

theorem find_lit_bind_some [DecidableEq σ] {f : Unit → Matcher σ β} {word text : List σ}
    (h : (find (lit word >>= f) text).isSome) : ∃ rest, text = word ++ rest ∧ (find (f ()) rest).isSome := by
  by_cases hstart : word <+: text
  · obtain ⟨rest, rfl⟩ := hstart
    rw [find_lit_bind] at h
    exact ⟨rest, rfl, h⟩
  · rw [find_bind_none (if_neg hstart)] at h
    simp at h

theorem lit_mem [DecidableEq σ] (word : List σ) : ((), rest) ∈ lit word (word ++ rest) := by
  rw [lit, if_pos (List.prefix_append ..), List.drop_left]
  exact List.mem_singleton_self _

theorem mem_lit [DecidableEq σ] {word text : List σ} {read : Unit × List σ} (h : read ∈ lit word text) :
    text = word ++ read.2 := by
  unfold lit at h
  split at h
  · next hstart =>
    obtain ⟨rest, rfl⟩ := hstart
    simp at h
    simp [h]
  · simp at h

end

/-! ## Runs of a class -/

section

variable {q : σ → Bool} {f : List σ → Matcher σ β} {text u v : List σ} {read : List σ × List σ}

theorem mem_greedy (h : read ∈ greedy q text) : text = read.1 ++ read.2 ∧ ∀ c ∈ read.1, q c = true := by
  induction text generalizing read with
  | nil =>
    simp [greedy] at h
    simp [h]
  | cons c rest ih =>
    unfold greedy at h
    split at h
    · next hc =>
      rcases List.mem_append.1 h with hmore | hnone
      · obtain ⟨more, hread, rfl⟩ := List.mem_map.1 hmore
        obtain ⟨hsplit, hall⟩ := ih hread
        exact ⟨by simp [← hsplit], by simpa [hc] using hall⟩
      · rw [List.mem_singleton.1 hnone]
        simp
    · rw [List.mem_singleton.1 h]
      simp

theorem mem_some1 (h : read ∈ some1 q text) : text = read.1 ++ read.2 ∧ read.1 ≠ [] ∧ ∀ c ∈ read.1, q c = true := by
  obtain ⟨first, hfirst, h⟩ := mem_bind h
  obtain ⟨more, hmore, h⟩ := mem_bind h
  obtain ⟨hsplit, hall⟩ := mem_greedy hmore
  rw [List.mem_singleton.1 h]
  cases text with
  | nil => simp [one] at hfirst
  | cons c rest =>
    by_cases hc : q c = true
    · obtain rfl : first = (c, rest) := by simpa [one, hc] using hfirst
      exact ⟨by simpa using hsplit, by simp, by simpa [hc] using hall⟩
    · simp [one, hc] at hfirst

theorem greedy_mem (h : ∀ c ∈ u, q c = true) : (u, v) ∈ greedy q (u ++ v) := by
  induction u with
  | nil =>
    cases v with
    | nil => simp [greedy]
    | cons d v => by_cases hd : q d = true <;> simp [greedy, hd]
  | cons c u ih =>
    rw [List.cons_append, greedy, if_pos (h c (by simp))]
    exact List.mem_append_left _ (List.mem_map.2 ⟨(u, v), ih fun d hd => h d (by simp [hd]), rfl⟩)

theorem some1_mem (hne : u ≠ []) (h : ∀ c ∈ u, q c = true) : (u, v) ∈ some1 q (u ++ v) := by
  obtain ⟨c, u, rfl⟩ := List.exists_cons_of_ne_nil hne
  have hfirst : (c, u ++ v) ∈ one q (c :: (u ++ v)) := by simp [one, h c (by simp)]
  exact bind_mem hfirst (bind_mem (greedy_mem fun d hd => h d (by simp [hd])) (pure_mem _))

theorem find_greedy_none (h : ∀ u v, text = u ++ v → (∀ c ∈ u, q c = true) → find (f u) v = none) :
    find (greedy q >>= f) text = none := by
  rw [find_bind, List.findSome?_eq_none_iff]
  intro read hread
  obtain ⟨hsplit, hall⟩ := mem_greedy hread
  exact h _ _ hsplit hall

theorem find_greedy_cons {c : σ} {rest : List σ} (hc : q c = true) :
    find (greedy q >>= f) (c :: rest) =
      (find (greedy q >>= fun more => f (c :: more)) rest).or (find (f []) (c :: rest)) := by
  rw [find_bind, find_bind, greedy, if_pos hc, List.findSome?_append, List.findSome?_map]
  simp [Function.comp_def]

/-- The longest run from which the search goes on. -/
structure Longest (q : σ → Bool) (f : List σ → Matcher σ β) (text u v : List σ) : Prop where
  split : text = u ++ v
  within : ∀ c ∈ u, q c = true
  goesOn : (find (f u) v).isSome
  last : ∀ u' v', text = u' ++ v' → (∀ c ∈ u', q c = true) → u.length < u'.length → find (f u') v' = none

theorem find_greedy (h : Longest q f text u v) : find (greedy q >>= f) text = find (f u) v := by
  induction u generalizing text f with
  | nil =>
    obtain rfl : text = v := h.split
    cases text with
    | nil => simp [find_bind, greedy]
    | cons c rest =>
      by_cases hc : q c = true
      · rw [find_greedy_cons hc, find_greedy_none]
        · rfl
        · intro u v hsplit hall
          exact h.last (c :: u) v (by simp [hsplit]) (by simpa [hc] using hall) (by simp)
      · simp [find_bind, greedy, hc]
  | cons c u ih =>
    obtain rfl := h.split
    have hc : q c = true := h.within c (by simp)
    have hrest : Longest q (fun more => f (c :: more)) (u ++ v) u v :=
      { split := rfl
        within := fun d hd => h.within d (by simp [hd])
        goesOn := h.goesOn
        last := fun u' v' hsplit hall hlonger =>
          h.last (c :: u') v' (by simp [hsplit]) (by simpa [hc] using hall) (by simpa using hlonger) }
    rw [List.cons_append, find_greedy_cons hc, ih hrest]
    exact Option.or_of_isSome h.goesOn

theorem find_some1 (h : Longest q f text u v) (hne : u ≠ []) : find (some1 q >>= f) text = find (f u) v := by
  obtain ⟨c, u, rfl⟩ := List.exists_cons_of_ne_nil hne
  obtain rfl := h.split
  have hc : q c = true := h.within c (by simp)
  rw [some1, bind_assoc, List.cons_append, find_one_bind hc, bind_assoc]
  simp only [pure_bind]
  apply find_greedy
  exact
    { split := rfl
      within := fun d hd => h.within d (by simp [hd])
      goesOn := h.goesOn
      last := fun u' v' hsplit hall hlonger =>
        h.last (c :: u') v' (by simp [hsplit]) (by simpa [hc] using hall) (by simpa using hlonger) }

/-- A run that ends where the class does. -/
theorem longest_of_stop {w rest : List σ} (hall : ∀ c ∈ w, q c = true) (hstop : ∀ c ∈ rest.head?, q c = false)
    (h : (find (f w) rest).isSome) : Longest q f (w ++ rest) w rest where
  split := rfl
  within := hall
  goesOn := h
  last u' v' hsplit hwithin hlonger := by
    obtain ⟨more, rfl⟩ : ∃ more, u' = w ++ more :=
      let ⟨more, hmore⟩ := List.prefix_of_prefix_length_le (hsplit ▸ List.prefix_append w rest)
        (List.prefix_append u' v') (Nat.le_of_lt hlonger)
      ⟨more, hmore.symm⟩
    rw [List.append_assoc] at hsplit
    obtain rfl := List.append_cancel_left hsplit
    cases more with
    | nil => simp at hlonger
    | cons c more =>
      have hc := hwithin c (by simp)
      rw [hstop c rfl] at hc
      cases hc

theorem find_some1_block {w rest : List σ} {r : β × List σ} (hne : w ≠ []) (hall : ∀ c ∈ w, q c = true)
    (hstop : ∀ c ∈ rest.head?, q c = false) (h : find (f w) rest = some r) :
    find (some1 q >>= f) (w ++ rest) = some r :=
  (find_some1 (longest_of_stop hall hstop (by simp [h])) hne).trans h

theorem find_some1_none (h : ∀ c ∈ text.head?, q c = false) : find (some1 q >>= f) text = none := by
  rw [some1, bind_assoc]
  exact find_one_bind_none h

/-- Where the search goes on from some run, it goes on from a longest. -/
theorem exists_longest {w rest : List σ} (hsplit : text = w ++ rest) (hall : ∀ c ∈ w, q c = true)
    (h : (find (f w) rest).isSome) : ∃ more v, rest = more ++ v ∧ Longest q f text (w ++ more) v := by
  induction hleft : rest.length using Nat.strongRecOn generalizing w rest with
  | ind left ih =>
    by_cases hlast : ∀ u' v', text = u' ++ v' → (∀ c ∈ u', q c = true) → w.length < u'.length → find (f u') v' = none
    · exact ⟨[], rest, rfl, by simpa using ⟨hsplit, hall, h, hlast⟩⟩
    · push Not at hlast
      obtain ⟨u', v', hsplit', hall', hlonger, hfound⟩ := hlast
      obtain ⟨more, rfl⟩ : ∃ more, u' = w ++ more :=
        let ⟨more, hmore⟩ := List.prefix_of_prefix_length_le (hsplit ▸ List.prefix_append w rest)
          (hsplit' ▸ List.prefix_append u' v') (Nat.le_of_lt hlonger)
        ⟨more, hmore.symm⟩
      have hrest : rest = more ++ v' := by
        rw [hsplit, List.append_assoc] at hsplit'
        exact List.append_cancel_left hsplit'
      have hshorter : v'.length < left := by
        rw [← hleft, hrest]
        simp at hlonger ⊢
        omega
      obtain ⟨further, v, hv, hlongest⟩ := ih _ hshorter hsplit' hall' (Option.isSome_iff_ne_none.2 hfound) rfl
      exact ⟨more ++ further, v, by simp [hrest, hv], by simpa using hlongest⟩

theorem find_reluctant {w rest : List σ} {r : β × List σ} (hall : ∀ c ∈ w, q c = true)
    (hfail : ∀ u v, w = u ++ v → v ≠ [] → find (f u) (v ++ rest) = none) (h : find (f w) rest = some r) :
    find (reluctant q >>= f) (w ++ rest) = some r := by
  induction w generalizing f with
  | nil =>
    rw [find_bind]
    cases rest with
    | nil => simpa [reluctant] using h
    | cons c rest => simp [reluctant, h]
  | cons c w ih =>
    have hc : q c = true := hall c (by simp)
    have hmore := ih (f := fun more => f (c :: more)) (fun d hd => hall d (by simp [hd]))
      (fun u v hsplit hne => hfail (c :: u) v (by simp [hsplit]) hne) h
    have hfirst : find (f []) (c :: (w ++ rest)) = none := hfail [] (c :: w) rfl (by simp)
    rw [find_bind] at hmore ⊢
    rw [List.cons_append, reluctant, if_pos hc, List.findSome?_cons, hfirst, List.findSome?_map]
    exact hmore

end

end Matcher

end SeedSync.Lib
