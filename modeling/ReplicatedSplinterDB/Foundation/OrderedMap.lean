import Mathlib.Data.Finmap
import Mathlib.Data.Finset.Sort

/-!
# Ordered maps

Finite maps with ordered keys, with the operations that iterate over keys in
ascending order: erasing a run of keys, erasing everything from a key on, and
finding the first key above a bound.

Main results:

- Theorems {lit}`lookup_eraseAll` and {lit}`lookup_eraseFrom`: erasing keeps
  the bindings of all other keys.
- Theorem {lit}`upperBound_eq_some_iff`: the first key above a bound is the
  least stored one.
-/

namespace Foundation

/-- A finite map. -/
abbrev OrderedMap (κ ν : Type) := Finmap (fun _ : κ => ν)

namespace OrderedMap

variable {κ ν : Type} [LinearOrder κ]

/-- The number of bindings. -/
def size (m : OrderedMap κ ν) : Nat := m.keys.card

/-- Erase the listed keys one after the other. -/
def eraseAll (m : OrderedMap κ ν) (ks : List κ) : OrderedMap κ ν :=
  ks.foldl (fun m k => m.erase k) m

/-- The stored keys from {lit}`k` on, in ascending order. -/
def keysFrom (m : OrderedMap κ ν) (k : κ) : List κ := (m.keys.filter (k ≤ ·)).sort (· ≤ ·)

/-- Erase every key from {lit}`k` on. -/
def eraseFrom (m : OrderedMap κ ν) (k : κ) : OrderedMap κ ν := eraseAll m (keysFrom m k)

/-- The first stored key above {lit}`k`. -/
def upperBound (m : OrderedMap κ ν) (k : κ) : Option κ :=
  if h : (m.keys.filter (k < ·)).Nonempty then some ((m.keys.filter (k < ·)).min' h) else none

theorem lookup_insert_eq (m : OrderedMap κ ν) (k j : κ) (v : ν) :
    (m.insert k v).lookup j = if j = k then some v else m.lookup j := by
  by_cases h : j = k
  · subst h
    rw [if_pos rfl, Finmap.lookup_insert]
  · rw [if_neg h, Finmap.lookup_insert_of_ne m h]

theorem lookup_eraseAll (m : OrderedMap κ ν) (ks : List κ) (j : κ) :
    (eraseAll m ks).lookup j = if j ∈ ks then none else m.lookup j := by
  induction ks generalizing m with
  | nil => simp [eraseAll]
  | cons k ks ih =>
      change (eraseAll (m.erase k) ks).lookup j = _
      rw [ih]
      by_cases hk : j = k
      · subst hk
        simp
      · simp [hk, Finmap.lookup_erase_ne hk]

theorem lookup_eraseFrom (m : OrderedMap κ ν) (k j : κ) :
    (eraseFrom m k).lookup j = if k ≤ j then none else m.lookup j := by
  have hmem : j ∈ keysFrom m k ↔ j ∈ m ∧ k ≤ j := by
    simp [keysFrom, Finmap.mem_keys]
  unfold eraseFrom
  rw [lookup_eraseAll]
  simp only [hmem]
  by_cases hj : j ∈ m
  · simp [hj]
  · have hnone : m.lookup j = none := Finmap.lookup_eq_none.mpr hj
    simp [hj, hnone]

theorem upperBound_eq_some_iff (m : OrderedMap κ ν) (k j : κ) :
    upperBound m k = some j ↔ j ∈ m ∧ k < j ∧ ∀ i ∈ m, k < i → j ≤ i := by
  have hmem : ∀ i, i ∈ m.keys.filter (k < ·) ↔ i ∈ m ∧ k < i := by
    intro i
    simp [Finmap.mem_keys]
  unfold upperBound
  constructor
  · intro h
    split at h
    · rename_i hne
      have hj := Option.some.inj h
      have hmin := (hmem _).mp (Finset.min'_mem _ hne)
      rw [hj] at hmin
      refine ⟨hmin.1, hmin.2, ?_⟩
      intro i hi hki
      have hle := Finset.min'_le _ i ((hmem i).mpr ⟨hi, hki⟩)
      rwa [hj] at hle
    · cases h
  · rintro ⟨hj, hkj, hleast⟩
    have hjmem := (hmem j).mpr ⟨hj, hkj⟩
    have hne : (m.keys.filter (k < ·)).Nonempty := ⟨j, hjmem⟩
    rw [dif_pos hne]
    have hmin := (hmem _).mp (Finset.min'_mem _ hne)
    have hle := hleast _ hmin.1 hmin.2
    exact congrArg some (le_antisymm (Finset.min'_le _ j hjmem) hle)

end OrderedMap

end Foundation
