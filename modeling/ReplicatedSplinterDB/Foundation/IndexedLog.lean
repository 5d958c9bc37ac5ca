import Mathlib.Data.List.Basic

/-!
# Indexed logs

An indexed log is a list of entries together with the index of the first one.
It is the abstract object behind a replicated log that is written at its end,
overwritten from some index on, and purged from its beginning.

Each operation is described by one lookup lemma and by where it moves the two
ends of the log, so that an implementation is compared with the log index by
index.

Main results:

- Theorems {lit}`get?_append`, {lit}`get?_writeAt`, {lit}`get?_compact` and
  {lit}`get?_splice`: what each operation leaves at every index.
- Theorem {lit}`get?_isSome_iff`: the stored indices are an interval.
- Theorem {lit}`map_range'_eq_slice`: reading a range index by index yields the
  slice of the log.
-/

namespace Foundation

/-- A list of entries, the first of which has index {lit}`base`. -/
structure IndexedLog (α : Type) where
  base : Nat
  entries : List α
deriving DecidableEq, Repr

namespace IndexedLog

variable {α : Type}

/-- The first index behind the log. -/
def next (log : IndexedLog α) : Nat := log.base + log.entries.length

/-- The entry at an index, if it is stored. -/
def get? (log : IndexedLog α) (i : Nat) : Option α :=
  if i < log.base then none else log.entries[i - log.base]?

/-- The entries with indices from {lit}`i` up to and excluding {lit}`j`. -/
def slice (log : IndexedLog α) (i j : Nat) : List α :=
  (log.entries.drop (i - log.base)).take (j - i)

/-- Add an entry behind the log. -/
def append (log : IndexedLog α) (e : α) : IndexedLog α :=
  ⟨log.base, log.entries ++ [e]⟩

/-- Drop everything from index {lit}`i` on and store an entry there. -/
def writeAt (log : IndexedLog α) (i : Nat) (e : α) : IndexedLog α :=
  ⟨log.base, log.entries.take (i - log.base) ++ [e]⟩

/-- Drop every entry with an index up to {lit}`last`. -/
def compact (log : IndexedLog α) (last : Nat) : IndexedLog α :=
  if last < log.base then log else ⟨last + 1, log.entries.drop (last + 1 - log.base)⟩

/-- Overwrite the indices from {lit}`i` on with a block of entries and keep all
others.  An empty log has no place of its own and moves to the block. -/
def splice (log : IndexedLog α) (i : Nat) (block : List α) : IndexedLog α :=
  if log.entries = [] then ⟨i, block⟩
  else ⟨min log.base i,
    log.entries.take (i - log.base) ++ block ++ log.entries.drop (i + block.length - log.base)⟩

/-! ## Lookups -/

theorem get?_isSome_iff (log : IndexedLog α) (i : Nat) :
    (log.get? i).isSome ↔ log.base ≤ i ∧ i < log.next := by
  unfold get? next
  by_cases hbase : i < log.base
  · rw [if_pos hbase]
    simp only [Option.isSome_none, Bool.false_eq_true, false_iff]
    omega
  · rw [if_neg hbase, Option.isSome_iff_ne_none, Ne, List.getElem?_eq_none_iff]
    omega

theorem get?_eq_none_iff (log : IndexedLog α) (i : Nat) :
    log.get? i = none ↔ i < log.base ∨ log.next ≤ i := by
  have h := log.get?_isSome_iff i
  rw [← Option.not_isSome_iff_eq_none, h]
  omega

theorem get?_of_lt {log : IndexedLog α} {j : Nat} (h : j < log.base) : log.get? j = none := by
  rw [get?, if_pos h]

theorem get?_of_le {log : IndexedLog α} {j : Nat} (h : log.base ≤ j) :
    log.get? j = log.entries[j - log.base]? := by
  rw [get?, if_neg (Nat.not_lt.mpr h)]

theorem get?_append (log : IndexedLog α) (e : α) (j : Nat) :
    (log.append e).get? j = if j = log.next then some e else log.get? j := by
  by_cases hbase : j < log.base
  · have hnext : j ≠ log.next := by
      unfold next
      omega
    rw [if_neg hnext, get?_of_lt hbase]
    exact get?_of_lt hbase
  · have hle := Nat.not_lt.mp hbase
    rw [get?_of_le hle, get?_of_le (show (log.append e).base ≤ j from hle)]
    change (log.entries ++ [e])[j - log.base]? = _
    by_cases hin : j - log.base < log.entries.length
    · have hnext : j ≠ log.next := by
        unfold next
        omega
      rw [if_neg hnext, List.getElem?_append_left hin]
    · rw [List.getElem?_append_right (Nat.not_lt.mp hin)]
      by_cases hnext : j = log.next
      · have hzero : j - log.base - log.entries.length = 0 := by
          unfold next at hnext
          omega
        rw [if_pos hnext, hzero, List.getElem?_cons_zero]
      · have hpast : 1 ≤ j - log.base - log.entries.length := by
          unfold next at hnext
          omega
        rw [if_neg hnext, List.getElem?_eq_none hpast, List.getElem?_eq_none (Nat.not_lt.mp hin)]

theorem get?_writeAt {log : IndexedLog α} {i : Nat} (hlow : log.base ≤ i) (hhigh : i ≤ log.next)
    (e : α) (j : Nat) :
    (log.writeAt i e).get? j = if j < i then log.get? j else if j = i then some e else none := by
  unfold next at hhigh
  have hkept : (log.entries.take (i - log.base)).length = i - log.base := by
    rw [List.length_take]
    omega
  by_cases hbase : j < log.base
  · rw [if_pos (by omega), get?_of_lt hbase]
    exact get?_of_lt hbase
  · have hle := Nat.not_lt.mp hbase
    rw [get?_of_le hle, get?_of_le (show (log.writeAt i e).base ≤ j from hle)]
    change (log.entries.take (i - log.base) ++ [e])[j - log.base]? = _
    by_cases hbefore : j < i
    · have hin : j - log.base < (log.entries.take (i - log.base)).length := by omega
      rw [if_pos hbefore, List.getElem?_append_left hin, List.getElem?_take_of_lt (by omega)]
    · rw [if_neg hbefore, List.getElem?_append_right (by omega), hkept]
      by_cases hat : j = i
      · rw [if_pos hat, hat, Nat.sub_self, List.getElem?_cons_zero]
      · have hpast : 1 ≤ j - log.base - (i - log.base) := by omega
        rw [if_neg hat, List.getElem?_eq_none hpast]

theorem get?_compact (log : IndexedLog α) (last j : Nat) :
    (log.compact last).get? j = if j ≤ last then none else log.get? j := by
  unfold compact
  by_cases hlast : last < log.base
  · rw [if_pos hlast]
    by_cases hj : j ≤ last
    · rw [if_pos hj, get?_of_lt (by omega)]
    · rw [if_neg hj]
  · rw [if_neg hlast]
    by_cases hj : j ≤ last
    · rw [if_pos hj]
      exact get?_of_lt (Nat.lt_succ_of_le hj)
    · have hindex : last + 1 - log.base + (j - (last + 1)) = j - log.base := by omega
      rw [if_neg hj, get?_of_le (show log.base ≤ j by omega)]
      refine (get?_of_le (show last + 1 ≤ j by omega)).trans ?_
      rw [List.getElem?_drop, hindex]

theorem get?_of_entries_eq_nil {log : IndexedLog α} (h : log.entries = []) (j : Nat) :
    log.get? j = none := by
  rw [get?, h, List.getElem?_nil, ite_self]

/-- Three parts one after the other, of which the first two have known lengths. -/
theorem getElem?_append_append (front block back : List α) (k : Nat) :
    (front ++ block ++ back)[k]? =
      if k < front.length then front[k]?
      else if k < front.length + block.length then block[k - front.length]?
      else back[k - front.length - block.length]? := by
  by_cases hfront : k < front.length
  · rw [if_pos hfront, List.append_assoc, List.getElem?_append_left hfront]
  · rw [if_neg hfront, List.append_assoc, List.getElem?_append_right (Nat.not_lt.mp hfront)]
    by_cases hblock : k < front.length + block.length
    · rw [if_pos hblock, List.getElem?_append_left (by omega)]
    · rw [if_neg hblock, List.getElem?_append_right (by omega)]

/-- A block that touches the log replaces its range and nothing else. -/
theorem get?_splice {log : IndexedLog α} {i : Nat} {block : List α}
    (htouch : log.entries = [] ∨ (i ≤ log.next ∧ log.base ≤ i + block.length)) (j : Nat) :
    (log.splice i block).get? j =
      if j < i then log.get? j
      else if j < i + block.length then block[j - i]? else log.get? j := by
  unfold next at htouch
  unfold splice
  by_cases hempty : log.entries = []
  · rw [if_pos hempty, get?_of_entries_eq_nil hempty]
    by_cases hbefore : j < i
    · rw [if_pos hbefore]
      exact get?_of_lt hbefore
    · rw [if_neg hbefore]
      refine (get?_of_le (Nat.not_lt.mp hbefore)).trans ?_
      dsimp only
      by_cases hin : j < i + block.length
      · rw [if_pos hin]
      · rw [if_neg hin, List.getElem?_eq_none (by omega)]
  · rcases htouch.resolve_left hempty with ⟨hi, hbase⟩
    have hkept : (log.entries.take (i - log.base)).length = i - log.base := by
      rw [List.length_take]
      omega
    rw [if_neg hempty]
    by_cases hlow : j < min log.base i
    · rw [if_pos (by omega), get?_of_lt (show j < log.base by omega)]
      exact get?_of_lt hlow
    · refine (get?_of_le (Nat.not_lt.mp hlow)).trans ?_
      dsimp only
      rw [getElem?_append_append, hkept]
      by_cases hbefore : j < i
      · have hindex : j - min log.base i = j - log.base := by omega
        rw [if_pos hbefore, if_pos (by omega), hindex, List.getElem?_take_of_lt (by omega),
          get?_of_le (by omega)]
      · rw [if_neg hbefore, if_neg (by omega)]
        by_cases hin : j < i + block.length
        · have hindex : j - min log.base i - (i - log.base) = j - i := by omega
          rw [if_pos hin, if_pos (by omega), hindex]
        · have hindex : i + block.length - log.base +
              (j - min log.base i - (i - log.base) - block.length) = j - log.base := by omega
          rw [if_neg hin, if_neg (by omega), List.getElem?_drop, hindex, get?_of_le (by omega)]

/-- Reading the indices of a stored range one by one yields the slice. -/
theorem map_range'_eq_slice {log : IndexedLog α} {i j : Nat} (hi : log.base ≤ i)
    {read : Nat → α}
    (hread : ∀ k, i ≤ k → k < j → log.get? k = some (read k)) :
    (List.range' i (j - i)).map read = log.slice i j := by
  apply List.ext_getElem?
  intro m
  unfold slice
  by_cases hm : m < j - i
  · have hget := hread (i + m) (by omega) (by omega)
    have hsub : i + m - log.base = i - log.base + m := by omega
    simp only [get?, if_neg (show ¬ i + m < log.base by omega), hsub] at hget
    simp [hm, hget]
  · have hleft : ((List.range' i (j - i)).map read)[m]? = none := by
      apply List.getElem?_eq_none
      rw [List.length_map, List.length_range']
      omega
    have hright : ((log.entries.drop (i - log.base)).take (j - i))[m]? = none := by
      apply List.getElem?_eq_none
      rw [List.length_take]
      omega
    rw [hleft, hright]

/-! ## The ends of the log -/

@[simp] theorem next_append (log : IndexedLog α) (e : α) :
    (log.append e).next = log.next + 1 := by
  simp [append, next, Nat.add_assoc]

theorem next_writeAt {log : IndexedLog α} {i : Nat} (hlow : log.base ≤ i) (hhigh : i ≤ log.next)
    (e : α) : (log.writeAt i e).next = i + 1 := by
  unfold next at hhigh
  simp only [writeAt, next, List.length_append, List.length_take, List.length_singleton]
  omega

theorem base_compact (log : IndexedLog α) (last : Nat) :
    (log.compact last).base = max log.base (last + 1) := by
  unfold compact
  split
  · omega
  · dsimp only
    omega

theorem next_compact (log : IndexedLog α) (last : Nat) :
    (log.compact last).next = max log.next (last + 1) := by
  unfold compact next
  split
  · omega
  · simp only [List.length_drop]
    omega

theorem base_splice (log : IndexedLog α) (i : Nat) (block : List α) :
    (log.splice i block).base = if log.entries = [] then i else min log.base i := by
  unfold splice
  split <;> rfl

theorem next_splice {log : IndexedLog α} {i : Nat} {block : List α}
    (htouch : log.entries = [] ∨ (i ≤ log.next ∧ log.base ≤ i + block.length)) :
    (log.splice i block).next =
      if log.entries = [] then i + block.length else max log.next (i + block.length) := by
  unfold next at htouch
  unfold splice next
  by_cases hempty : log.entries = []
  · simp [hempty]
  · rcases htouch.resolve_left hempty with ⟨hi, hbase⟩
    simp only [if_neg hempty, List.length_append, List.length_take, List.length_drop]
    omega

/-- The last entry of a log that is not empty. -/
theorem get?_pred_next {log : IndexedLog α} (hne : log.entries ≠ []) :
    log.get? (log.next - 1) = log.entries.getLast? := by
  have hpos : 0 < log.entries.length := List.length_pos_iff.mpr hne
  unfold get? next
  rw [if_neg (by omega), List.getLast?_eq_getElem?]
  congr 1
  omega

end IndexedLog

end Foundation
