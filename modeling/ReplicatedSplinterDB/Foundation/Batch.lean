import Mathlib.Algebra.GroupWithZero.Nat
import Mathlib.Order.Bounds.Defs

/-!
# Batches of a list

Taking a list in batches of bounded weight: a batch ends with the element that
makes its weight reach the limit, so it may be heavier than the limit.

Main results:

- Theorem {lit}`takeBatch_isPrefix`: a batch is a beginning of the list.
- Theorem {lit}`takeBatch_isLeast_or_eq`: a batch is the shortest beginning that
  reaches the limit, or the whole list.
-/

namespace Foundation

variable {α : Type} (weight : α → Nat)

/-- The elements up to the one with which the weights reach the limit. -/
def takeBatch (limit : Nat) : List α → List α
  | [] => []
  | x :: xs => if limit ≤ weight x then [x] else x :: takeBatch (limit - weight x) xs

/-- The sum of the weights. -/
def totalWeight (xs : List α) : Nat := (xs.map weight).sum

theorem totalWeight_cons (x : α) (xs : List α) :
    totalWeight weight (x :: xs) = weight x + totalWeight weight xs := by
  simp [totalWeight]

theorem takeBatch_isPrefix (limit : Nat) (xs : List α) : takeBatch weight limit xs <+: xs := by
  induction xs generalizing limit with
  | nil => exact List.prefix_refl []
  | cons x xs ih =>
      unfold takeBatch
      split
      · exact ⟨xs, rfl⟩
      · exact List.prefix_cons_inj x |>.mpr (ih _)

/-- Whatever is shorter than the batch stays below the limit. -/
theorem totalWeight_take_lt {limit : Nat} (hlimit : 0 < limit) {xs : List α} {m : Nat}
    (hm : m < (takeBatch weight limit xs).length) : totalWeight weight (xs.take m) < limit := by
  induction xs generalizing limit m with
  | nil => exact absurd hm (Nat.not_lt_zero m)
  | cons x xs ih =>
      cases m with
      | zero => exact hlimit
      | succ m =>
          unfold takeBatch at hm
          split at hm
          · simp at hm
          · rename_i hbelow
            rw [List.length_cons] at hm
            have hlimit' : 0 < limit - weight x := Nat.sub_pos_of_lt (Nat.lt_of_not_le hbelow)
            have hrest := ih hlimit' (Nat.lt_of_succ_lt_succ hm)
            rw [List.take_succ_cons, totalWeight_cons]
            omega

/-- The batch reaches the limit unless the list ends before. -/
theorem le_totalWeight_takeBatch_or_eq (limit : Nat) (xs : List α) :
    limit ≤ totalWeight weight (takeBatch weight limit xs) ∨ takeBatch weight limit xs = xs := by
  induction xs generalizing limit with
  | nil => exact .inr rfl
  | cons x xs ih =>
      unfold takeBatch
      split
      · rename_i hreached
        left
        simpa [totalWeight] using hreached
      · rw [totalWeight_cons, List.cons.injEq]
        rcases ih (limit - weight x) with hreached | hall
        · left
          omega
        · exact .inr ⟨rfl, hall⟩

/-- A batch is the shortest beginning whose weight reaches the limit, or the
whole list if there is none. -/
theorem takeBatch_isLeast_or_eq {limit : Nat} (hlimit : 0 < limit) (xs : List α) :
    IsLeast {m | 1 ≤ m ∧ m ≤ xs.length ∧ limit ≤ totalWeight weight (xs.take m)}
        (takeBatch weight limit xs).length ∨
      (∀ m, m ≤ xs.length → totalWeight weight (xs.take m) < limit) ∧
        takeBatch weight limit xs = xs := by
  have htake := List.prefix_iff_eq_take.mp (takeBatch_isPrefix weight limit xs)
  have hlength := (takeBatch_isPrefix weight limit xs).length_le
  by_cases hreached : limit ≤ totalWeight weight (takeBatch weight limit xs)
  · left
    constructor
    · refine ⟨?_, hlength, htake ▸ hreached⟩
      rw [Nat.one_le_iff_ne_zero]
      intro hzero
      rw [List.eq_nil_of_length_eq_zero hzero] at hreached
      exact absurd hreached (Nat.not_le.mpr hlimit)
    · rintro m ⟨-, -, hm⟩
      apply Nat.le_of_not_lt
      intro hless
      exact absurd hm (Nat.not_le.mpr (totalWeight_take_lt weight hlimit hless))
  · right
    have hall := (le_totalWeight_takeBatch_or_eq weight limit xs).resolve_left hreached
    refine ⟨?_, hall⟩
    intro m hm
    by_cases hshort : m < (takeBatch weight limit xs).length
    · exact totalWeight_take_lt weight hlimit hshort
    · have hwhole : xs.take m = takeBatch weight limit xs := by
        rw [hall] at hshort ⊢
        exact List.take_of_length_le (Nat.le_of_not_lt hshort)
      rw [hwhole]
      exact Nat.lt_of_not_le hreached

end Foundation
