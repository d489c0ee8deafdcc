import SeedSync.Lib.Dict

/-!
# Remembered answers

A function that keeps what it answered under a key of its argument. The answers it gives are those
of the function it remembers, as long as equal keys stand for equal arguments.
-/

namespace SeedSync.Lib

variable {κ ν : Type} [DecidableEq κ]

/-- Look the key up, and compute and keep the answer where it is not there. -/
def remembered (key : κ) (compute : Dict κ ν → ν × Dict κ ν) (cache : Dict κ ν) : ν × Dict κ ν :=
  match cache.get key with
  | some value => (value, cache)
  | none =>
    let result := compute cache
    (result.1, result.2.set key result.1)

/-- What the cache holds under a key is an answer to it. -/
def Truthful (answer : κ → ν → Prop) (cache : Dict κ ν) : Prop := ∀ key value, cache.get key = some value → answer key value

theorem truthful_empty (answer : κ → ν → Prop) : Truthful answer {} := by
  intro key value h
  cases h

theorem Truthful.set {answer : κ → ν → Prop} {cache : Dict κ ν} (h : Truthful answer cache) {key : κ} {value : ν}
    (hvalue : answer key value) : Truthful answer (cache.set key value) := by
  intro other found hfound
  rcases Dict.eq_or_of_get_set hfound with ⟨rfl, rfl⟩ | hfound
  · exact hvalue
  · exact h other found hfound

theorem remembered_spec {answer : κ → ν → Prop} {key : κ} {compute : Dict κ ν → ν × Dict κ ν} {cache : Dict κ ν}
    (hcache : Truthful answer cache)
    (hcompute : answer key (compute cache).1 ∧ Truthful answer (compute cache).2) :
    answer key (remembered key compute cache).1 ∧ Truthful answer (remembered key compute cache).2 := by
  unfold remembered
  cases hfound : cache.get key with
  | some value => exact ⟨hcache key value hfound, hcache⟩
  | none => exact ⟨hcompute.1, hcompute.2.set hcompute.1⟩

end SeedSync.Lib
