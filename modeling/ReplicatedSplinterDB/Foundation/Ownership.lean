import Mathlib.Logic.Function.Basic
import Mathlib.Data.List.Perm.Basic
import Mathlib.Data.List.Nodup

/-!
# Ownership of resources

Agents claim resources.  A claim also says in which state the claimed resource
is; only the owner changes that state, so claims stay true while others work.

Main results:

- Theorem {lit}`Owned.acquire`: an agent may claim a resource that nobody claims.
- Theorem {lit}`Owned.change`: an owner may bring its resource to another state.
- Theorem {lit}`Owned.release`: an owner may leave its resource in any state.
- Theorem {lit}`perm_filterMap_of_eq_off`: filling one place of a collection adds
  one value to what is collected.
-/

namespace Foundation

variable {ι ρ κ : Type} {claim : ι → Option (ρ × κ)} {state : ρ → κ}

/-- The claims are true, and no resource is claimed by two agents. -/
structure Owned (claim : ι → Option (ρ × κ)) (state : ρ → κ) : Prop where
  state_eq : ∀ i r k, claim i = some (r, k) → state r = k
  unique : ∀ i j r k k', claim i = some (r, k) → claim j = some (r, k') → i = j

namespace Owned

/-- A resource in a state that no claim names is claimed by nobody. -/
theorem free_of_state (h : Owned claim state) {r : ρ} {k : κ} (hstate : state r = k)
    (hnever : ∀ i r', claim i ≠ some (r', k)) (i : ι) (k' : κ) : claim i ≠ some (r, k') := by
  intro hi
  have hk : k' = k := (h.state_eq i r k' hi).symm.trans hstate
  subst hk
  exact hnever i r hi

variable [DecidableEq ι]

/-- What the other agents have after one of them has changed its claim. -/
theorem update_cases {i j : ι} {c : Option (ρ × κ)} {r : ρ} {k : κ}
    (h : Function.update claim i c j = some (r, k)) :
    (j = i ∧ c = some (r, k)) ∨ (j ≠ i ∧ claim j = some (r, k)) := by
  by_cases hj : j = i
  · subst hj
    rw [Function.update_self] at h
    exact .inl ⟨rfl, h⟩
  · rw [Function.update_of_ne hj] at h
    exact .inr ⟨hj, h⟩

/-- Once an agent has given its claim up, nobody claims the resource. -/
theorem free_of_owner (h : Owned claim state) {i : ι} {r : ρ} {k : κ}
    (hi : claim i = some (r, k)) (j : ι) (k' : κ) :
    Function.update claim i none j ≠ some (r, k') := by
  intro hj
  rcases update_cases hj with ⟨-, hnone⟩ | ⟨hne, hold⟩
  · cases hnone
  · exact hne (h.unique j i r k' k hold hi)

theorem drop (h : Owned claim state) (i : ι) : Owned (Function.update claim i none) state := by
  refine ⟨?_, ?_⟩
  · intro j r k hj
    rcases update_cases hj with ⟨-, hnone⟩ | ⟨-, hold⟩
    · cases hnone
    · exact h.state_eq j r k hold
  · intro j j' r k k' hj hj'
    rcases update_cases hj with ⟨-, hnone⟩ | ⟨-, hold⟩
    · cases hnone
    · rcases update_cases hj' with ⟨-, hnone⟩ | ⟨-, hold'⟩
      · cases hnone
      · exact h.unique j j' r k k' hold hold'

variable [DecidableEq ρ]

theorem acquire (h : Owned claim state) (i : ι) {r : ρ} (k : κ)
    (hfree : ∀ j k', claim j ≠ some (r, k')) :
    Owned (Function.update claim i (some (r, k))) (Function.update state r k) := by
  refine ⟨?_, ?_⟩
  · intro j r' k' hj
    rcases update_cases hj with ⟨-, hnew⟩ | ⟨-, hold⟩
    · cases hnew
      exact Function.update_self ..
    · have hne : r' ≠ r := by
        intro hr
        subst hr
        exact hfree j k' hold
      rw [Function.update_of_ne hne]
      exact h.state_eq j r' k' hold
  · intro j j' r' k₁ k₂ hj hj'
    rcases update_cases hj with ⟨rfl, hnew⟩ | ⟨-, hold⟩
    · rcases update_cases hj' with ⟨rfl, -⟩ | ⟨-, hold'⟩
      · rfl
      · cases hnew
        exact absurd hold' (hfree j' k₂)
    · rcases update_cases hj' with ⟨rfl, hnew'⟩ | ⟨-, hold'⟩
      · cases hnew'
        exact absurd hold (hfree j k₁)
      · exact h.unique j j' r' k₁ k₂ hold hold'

theorem change (h : Owned claim state) {i : ι} {r : ρ} {k : κ} (hi : claim i = some (r, k))
    (k' : κ) :
    Owned (Function.update claim i (some (r, k'))) (Function.update state r k') := by
  have hacquire := (h.drop i).acquire i k' (h.free_of_owner hi)
  rw [Function.update_idem] at hacquire
  exact hacquire

theorem release (h : Owned claim state) {i : ι} {r : ρ} {k : κ} (hi : claim i = some (r, k))
    (k' : κ) : Owned (Function.update claim i none) (Function.update state r k') := by
  have hchange := (h.change hi k').drop i
  rw [Function.update_idem] at hchange
  exact hchange

end Owned

/-- Filling one place of a collection adds one value to what is collected. -/
theorem perm_filterMap_of_eq_off {α β : Type} [DecidableEq α] {f g : α → Option β}
    {places : List α} {a : α} {b : β} (hnodup : places.Nodup) (ha : a ∈ places)
    (hf : f a = none) (hg : g a = some b) (hoff : ∀ x, x ≠ a → g x = f x) :
    (places.filterMap g).Perm (b :: places.filterMap f) := by
  have hperm := List.perm_cons_erase ha
  have hrest : (places.erase a).filterMap g = (places.erase a).filterMap f := by
    apply List.filterMap_congr
    intro x hx
    exact hoff x ((List.Nodup.mem_erase_iff hnodup).mp hx).1
  have hfull := hperm.filterMap g
  have hempty := hperm.filterMap f
  rw [List.filterMap_cons_some hg, hrest] at hfull
  rw [List.filterMap_cons_none hf] at hempty
  exact hfull.trans (hempty.symm.cons b)

end Foundation
