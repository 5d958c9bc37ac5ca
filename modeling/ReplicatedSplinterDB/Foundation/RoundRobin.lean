import Mathlib.Data.List.Rotate

/-!
# Taking turns

A queue whose first element takes a turn and goes to the back.  The queue is
always a rotation of what it was, and the turns go through its elements again and
again in their order.

Main results:

- Theorem {lit}`turns_add`: turns go on from the rotated queue.
- Theorem {lit}`getElem?_turns`: who takes which turn.
- Theorem {lit}`take_drop_turns`: any window of consecutive turns is the turns of a
  rotated queue.
- Theorem {lit}`count_turns_le`: no element is ahead of another by more than one
  turn.
-/

namespace Foundation

variable {α : Type}

/-- The elements that take the next turns. -/
def turns : List α → Nat → List α
  | _, 0 => []
  | [], _ + 1 => []
  | x :: rest, n + 1 => x :: turns (rest ++ [x]) n

@[simp] theorem turns_nil (n : Nat) : turns ([] : List α) n = [] := by
  cases n <;> rfl

theorem length_turns {queue : List α} (h : queue ≠ []) (n : Nat) :
    (turns queue n).length = n := by
  induction n generalizing queue with
  | zero => simp [turns]
  | succ n ih =>
      cases queue with
      | nil => exact absurd rfl h
      | cons x rest =>
          rw [turns, List.length_cons, ih (by simp)]

/-- After some turns the queue is rotated by their number, and goes on from
there. -/
theorem turns_add (queue : List α) (m n : Nat) :
    turns queue (m + n) = turns queue m ++ turns (queue.rotate m) n := by
  induction m generalizing queue with
  | zero => simp [turns]
  | succ m ih =>
      cases queue with
      | nil => simp
      | cons x rest =>
          rw [Nat.succ_add, turns, turns, ih, List.rotate_cons_succ, List.cons_append]

/-- The front part of a queue takes its turns first. -/
theorem turns_append_length (front back : List α) :
    turns (front ++ back) front.length = front := by
  induction front generalizing back with
  | nil => simp [turns]
  | cons x front ih =>
      rw [List.cons_append, List.length_cons, turns, List.append_assoc, ih]

theorem turns_of_le {queue : List α} {n : Nat} (h : n ≤ queue.length) :
    turns queue n = queue.take n := by
  have hturns := turns_append_length (queue.take n) (queue.drop n)
  rwa [List.take_append_drop, List.length_take_of_le h] at hturns

theorem getElem?_turns (queue : List α) {j n : Nat} (h : j < n) :
    (turns queue n)[j]? = queue[j % queue.length]? := by
  by_cases hempty : queue = []
  · simp [hempty]
  · have hlength := length_turns hempty j
    have hpos : 0 < queue.length := List.length_pos_iff.mpr hempty
    have hone : 1 ≤ (queue.rotate j).length := by
      rw [List.length_rotate]
      exact hpos
    have hsplit : n = j + (1 + (n - j - 1)) := by omega
    rw [hsplit, turns_add, turns_add, turns_of_le hone,
      List.getElem?_append_right (Nat.le_of_eq hlength), hlength, Nat.sub_self,
      List.getElem?_append_left (by rw [List.length_take]; omega),
      List.getElem?_take_of_lt Nat.zero_lt_one, List.getElem?_rotate hpos, Nat.zero_add]

theorem mem_of_mem_turns {queue : List α} {n : Nat} {x : α} (h : x ∈ turns queue n) :
    x ∈ queue := by
  induction n generalizing queue with
  | zero => simp [turns] at h
  | succ n ih =>
      cases queue with
      | nil => simp at h
      | cons y rest =>
          rw [turns, List.mem_cons] at h
          rcases h with rfl | h
          · exact List.mem_cons_self
          · have hmem := ih h
            simp only [List.mem_append, List.mem_singleton] at hmem
            exact List.mem_cons.mpr hmem.symm

/-- A window of consecutive turns is the turns of the queue as it was then. -/
theorem take_drop_turns (queue : List α) (n first size : Nat) :
    ((turns queue n).drop first).take size =
      turns (queue.rotate first) (min size (n - first)) := by
  by_cases hempty : queue = []
  · simp [hempty]
  · by_cases hin : first ≤ n
    · have hlength := length_turns hempty first
      have hrotated : queue.rotate first ≠ [] := by
        rwa [Ne, List.rotate_eq_nil_iff]
      have hsplit : n = first + (n - first) := by omega
      rw [hsplit, turns_add, List.drop_left' hlength]
      generalize n - first = rest
      rw [Nat.add_sub_cancel_left]
      by_cases hsize : size ≤ rest
      · have hrest : rest = size + (rest - size) := by omega
        rw [Nat.min_eq_left hsize, hrest, turns_add,
          List.take_left' (length_turns hrotated size)]
      · have hlong : (turns (queue.rotate first) rest).length ≤ size := by
          rw [length_turns hrotated]
          omega
        rw [Nat.min_eq_right (by omega), List.take_of_length_le hlong]
    · have hlong : (turns queue n).length ≤ first := by
        rw [length_turns hempty]
        omega
      have hzero : min size (n - first) = 0 := by omega
      rw [List.drop_eq_nil_of_le hlong, hzero]
      simp [turns]

/-- Two elements of a queue without repetitions differ by at most one turn.  The
induction takes away full rounds, in which everyone has one turn. -/
theorem count_turns_le [DecidableEq α] {queue : List α} (hdistinct : queue.Nodup) {x y : α}
    (hx : x ∈ queue) (hy : y ∈ queue) (n : Nat) :
    (turns queue n).count x ≤ (turns queue n).count y + 1 := by
  induction n using Nat.strong_induction_on with
  | _ n ih =>
      by_cases hround : n ≤ queue.length
      · rw [turns_of_le hround]
        have hsub := (queue.take_sublist n).count_le x
        have hone := List.nodup_iff_count_le_one.mp hdistinct x
        omega
      · have hpos : 0 < queue.length := List.length_pos_of_mem hx
        have hsplit : n = queue.length + (n - queue.length) := by omega
        have hfull : turns queue queue.length = queue := by
          rw [turns_of_le (Nat.le_refl _), List.take_length]
        have hless := ih (n - queue.length) (by omega)
        rw [hsplit, turns_add, hfull, List.rotate_length, List.count_append, List.count_append,
          List.count_eq_one_of_mem hdistinct hx, List.count_eq_one_of_mem hdistinct hy]
        omega

end Foundation
