import Mathlib.Data.List.TakeWhile

/-!
# Maximal runs of a list

The words of a text are its maximal runs of characters that are no separators.
Here they are described by their positions, and computed by splitting at the
separators and dropping the empty pieces.

Main results:

- Definition {lit}`IsMaximalRun`: a maximal run, by its first position and the
  position behind its last.
- Theorem {lit}`pieces_induction`: an induction that takes one piece off the list
  at a time.
- Theorem {lit}`isMaximalRuns_runs`: the computed pieces are, in order, exactly the
  maximal runs.
- Theorem {lit}`flatten_runs`: nothing but the separators is lost.
-/

namespace Foundation

variable {α : Type} {p : α → Bool}

/-- The positions from {lit}`i` up to {lit}`j` hold elements with the property,
and neither side can be extended. -/
structure IsMaximalRun (p : α → Bool) (l : List α) (i j : Nat) : Prop where
  nonempty : i < j
  le_length : j ≤ l.length
  inside : ∀ k a, i ≤ k → k < j → l[k]? = some a → p a = true
  before : ∀ a, 0 < i → l[i - 1]? = some a → p a = false
  after : ∀ a, l[j]? = some a → p a = false

/-- The pieces are the maximal runs of the list, all of them and in order. -/
def IsMaximalRuns (p : α → Bool) (l : List α) (pieces : List (List α)) : Prop :=
  ∃ spans : List (Nat × Nat), spans.Pairwise (fun first second => first.2 < second.1) ∧
    (∀ i j, (i, j) ∈ spans ↔ IsMaximalRun p l i j) ∧
    pieces = spans.map fun span => l.extract span.1 span.2

/-- The maximal runs of a list. -/
def runs (p : α → Bool) (l : List α) : List (List α) :=
  (l.splitOnP fun a => !p a).filter fun piece => !piece.isEmpty

/-- Every list either has only elements with the property or starts with a run
of them that a separator ends. -/
theorem pieces_induction {motive : List α → Prop}
    (whole : ∀ l, (∀ a ∈ l, p a = true) → motive l)
    (split : ∀ piece sep l, (∀ a ∈ piece, p a = true) → p sep = false → motive l →
      motive (piece ++ sep :: l)) (l : List α) : motive l := by
  induction hn : l.length using Nat.strong_induction_on generalizing l with
  | _ n ih =>
      have hpiece : ∀ a ∈ l.takeWhile p, p a = true := fun a ha => List.mem_takeWhile_imp ha
      have happend := l.takeWhile_append_dropWhile (p := p)
      cases hrest : l.dropWhile p with
      | nil =>
          rw [hrest, List.append_nil] at happend
          rw [← happend]
          exact whole _ hpiece
      | cons sep rest =>
          have hsep : p sep = false := by
            have hhead := List.head_dropWhile_not p (show l.dropWhile p ≠ [] by rw [hrest]; simp)
            simpa [hrest] using hhead
          rw [hrest] at happend
          rw [← happend]
          apply split _ _ _ hpiece hsep
          apply ih rest.length _ rest rfl
          rw [← hn, ← happend, List.length_append, List.length_cons]
          omega

/-! ## One piece -/

section Piece

variable {piece l : List α} {sep : α}

theorem runs_whole (h : ∀ a ∈ piece, p a = true) :
    runs p piece = if piece = [] then [] else [piece] := by
  rw [runs, List.splitOnP_eq_singleton (by simpa using h)]
  by_cases hempty : piece = []
  · simp [hempty]
  · simp [hempty]

theorem runs_append_cons (h : ∀ a ∈ piece, p a = true) (hsep : p sep = false) :
    runs p (piece ++ sep :: l) = (if piece = [] then [] else [piece]) ++ runs p l := by
  rw [runs, List.splitOnP_append_cons_of_forall_mem (by simpa using h) sep (by simpa using hsep)]
  by_cases hempty : piece = []
  · simp [hempty, runs]
  · simp [hempty, runs]

theorem getElem?_append_cons_add (k : Nat) :
    (piece ++ sep :: l)[piece.length + 1 + k]? = l[k]? := by
  have hle : piece.length ≤ piece.length + 1 + k := by omega
  have hindex : piece.length + 1 + k - piece.length = k + 1 := by omega
  rw [List.getElem?_append_right hle, hindex, List.getElem?_cons_succ]

theorem getElem?_append_cons_sep : (piece ++ sep :: l)[piece.length]? = some sep := by
  rw [List.getElem?_append_right (Nat.le_refl _), Nat.sub_self, List.getElem?_cons_zero]

/-- A run that ends within a beginning of the list that has the property is that
beginning. -/
theorem IsMaximalRun.eq_of_le {i j n : Nat} (hrun : IsMaximalRun p l i j)
    (hfront : ∀ k < n, ∃ a, l[k]? = some a ∧ p a = true) (hj : j ≤ n) : i = 0 ∧ j = n := by
  have hij := hrun.nonempty
  constructor
  · by_contra hpos
    rcases hfront (i - 1) (by omega) with ⟨a, ha, htrue⟩
    have hfalse := hrun.before a (by omega) ha
    rw [htrue] at hfalse
    cases hfalse
  · by_contra hshort
    rcases hfront j (by omega) with ⟨a, ha, htrue⟩
    have hfalse := hrun.after a ha
    rw [htrue] at hfalse
    cases hfalse

theorem isMaximalRun_whole_iff (h : ∀ a ∈ piece, p a = true) (i j : Nat) :
    IsMaximalRun p piece i j ↔ piece ≠ [] ∧ i = 0 ∧ j = piece.length := by
  constructor
  · intro hrun
    have hij := hrun.nonempty
    have hj := hrun.le_length
    refine ⟨List.length_pos_iff.mp (by omega), hrun.eq_of_le ?_ hj⟩
    intro k hk
    exact ⟨piece[k], List.getElem?_eq_getElem hk, h _ (List.getElem_mem hk)⟩
  · rintro ⟨hne, rfl, rfl⟩
    refine ⟨List.length_pos_iff.mpr hne, Nat.le_refl _, ?_, ?_, ?_⟩
    · intro k a _ _ ha
      exact h a (List.mem_of_getElem? ha)
    · intro a hpos
      omega
    · intro a ha
      simp at ha

theorem getElem?_append_cons_lt {k : Nat} (h : k < piece.length) :
    (piece ++ sep :: l)[k]? = some piece[k] := by
  rw [List.getElem?_append_left h, List.getElem?_eq_getElem h]

theorem isMaximalRun_piece (h : ∀ a ∈ piece, p a = true) (hsep : p sep = false)
    (hne : piece ≠ []) : IsMaximalRun p (piece ++ sep :: l) 0 piece.length := by
  refine ⟨List.length_pos_iff.mpr hne, ?_, ?_, ?_, ?_⟩
  · rw [List.length_append]
    omega
  · intro k a _ hk ha
    rw [getElem?_append_cons_lt hk] at ha
    cases ha
    exact h _ (List.getElem_mem hk)
  · intro a hpos
    omega
  · intro a ha
    rw [getElem?_append_cons_sep] at ha
    cases ha
    exact hsep

/-- Behind a separator the runs are those of the rest, moved. -/
theorem isMaximalRun_add_iff (hsep : p sep = false) (i j : Nat) :
    IsMaximalRun p (piece ++ sep :: l) (piece.length + 1 + i) (piece.length + 1 + j) ↔
      IsMaximalRun p l i j := by
  have hlength : (piece ++ sep :: l).length = piece.length + 1 + l.length := by
    rw [List.length_append, List.length_cons]
    omega
  constructor
  · intro hrun
    have hij := hrun.nonempty
    have hj := hrun.le_length
    refine ⟨by omega, by omega, ?_, ?_, ?_⟩
    · intro k a hik hkj ha
      exact hrun.inside (piece.length + 1 + k) a (by omega) (by omega)
        (by rw [getElem?_append_cons_add, ha])
    · intro a hpos ha
      apply hrun.before a (by omega)
      have hindex : piece.length + 1 + i - 1 = piece.length + 1 + (i - 1) := by omega
      rw [hindex, getElem?_append_cons_add, ha]
    · intro a ha
      exact hrun.after a (by rw [getElem?_append_cons_add, ha])
  · intro hrun
    have hij := hrun.nonempty
    have hj := hrun.le_length
    refine ⟨by omega, by omega, ?_, ?_, ?_⟩
    · intro k a hik hkj ha
      have hindex : k = piece.length + 1 + (k - (piece.length + 1)) := by omega
      rw [hindex, getElem?_append_cons_add] at ha
      exact hrun.inside _ a (by omega) (by omega) ha
    · intro a _ ha
      by_cases hpos : 0 < i
      · have hindex : piece.length + 1 + i - 1 = piece.length + 1 + (i - 1) := by omega
        rw [hindex, getElem?_append_cons_add] at ha
        exact hrun.before a hpos ha
      · have hindex : piece.length + 1 + i - 1 = piece.length := by omega
        rw [hindex, getElem?_append_cons_sep] at ha
        cases ha
        exact hsep
    · intro a ha
      rw [getElem?_append_cons_add] at ha
      exact hrun.after a ha

/-- A run of a list that starts with a piece and a separator is the piece itself
or a run of the rest: one that reached both sides would hold the separator. -/
theorem isMaximalRun_append_cons_iff (h : ∀ a ∈ piece, p a = true) (hsep : p sep = false)
    (i j : Nat) :
    IsMaximalRun p (piece ++ sep :: l) i j ↔
      (piece ≠ [] ∧ i = 0 ∧ j = piece.length) ∨
        ∃ i' j', i = piece.length + 1 + i' ∧ j = piece.length + 1 + j' ∧
          IsMaximalRun p l i' j' := by
  constructor
  · intro hrun
    have hij := hrun.nonempty
    by_cases hj : j ≤ piece.length
    · refine .inl ⟨List.length_pos_iff.mp (by omega), hrun.eq_of_le ?_ hj⟩
      intro k hk
      exact ⟨piece[k], getElem?_append_cons_lt hk, h _ (List.getElem_mem hk)⟩
    · have hi : piece.length < i := by
        by_contra hi
        have hin := hrun.inside piece.length sep (by omega) (by omega) getElem?_append_cons_sep
        rw [hsep] at hin
        cases hin
      obtain ⟨i', rfl⟩ := Nat.exists_eq_add_of_le (show piece.length + 1 ≤ i by omega)
      obtain ⟨j', rfl⟩ := Nat.exists_eq_add_of_le (show piece.length + 1 ≤ j by omega)
      exact .inr ⟨i', j', rfl, rfl, (isMaximalRun_add_iff hsep i' j').mp hrun⟩
  · rintro (⟨hne, rfl, rfl⟩ | ⟨i', j', rfl, rfl, hrun⟩)
    · exact isMaximalRun_piece h hsep hne
    · exact (isMaximalRun_add_iff hsep i' j').mpr hrun

end Piece

/-! ## All pieces -/

theorem flatten_runs (l : List α) : (runs p l).flatten = l.filter p := by
  induction l using pieces_induction (p := p) with
  | whole l h =>
      rw [runs_whole h, List.filter_eq_self.mpr h]
      by_cases hempty : l = []
      · simp [hempty]
      · simp [hempty]
  | split piece sep l h hsep ih =>
      rw [runs_append_cons h hsep, List.flatten_append, ih, List.filter_append,
        List.filter_eq_self.mpr h, List.filter_cons_of_neg (by simp [hsep])]
      by_cases hempty : piece = []
      · simp [hempty]
      · simp [hempty]

theorem forall_mem_runs (l : List α) :
    ∀ piece ∈ runs p l, piece ≠ [] ∧ ∀ a ∈ piece, p a = true := by
  induction l using pieces_induction (p := p) with
  | whole l h =>
      intro piece hpiece
      rw [runs_whole h] at hpiece
      by_cases hempty : l = []
      · simp [hempty] at hpiece
      · rw [if_neg hempty] at hpiece
        cases List.mem_singleton.mp hpiece
        exact ⟨hempty, h⟩
  | split first sep l h hsep ih =>
      intro piece hpiece
      rw [runs_append_cons h hsep] at hpiece
      by_cases hempty : first = []
      · rw [if_pos hempty] at hpiece
        exact ih piece hpiece
      · rw [if_neg hempty] at hpiece
        rcases List.mem_cons.mp hpiece with rfl | hpiece
        · exact ⟨hempty, h⟩
        · exact ih piece hpiece

theorem runs_eq_nil_iff (l : List α) : runs p l = [] ↔ ∀ a ∈ l, p a = false := by
  have hflatten := flatten_runs (p := p) l
  constructor
  · intro hnil a ha
    rw [hnil, List.flatten_nil] at hflatten
    have hnone := List.filter_eq_nil_iff.mp hflatten.symm a ha
    simpa using hnone
  · intro hnone
    rw [List.filter_eq_nil_iff.mpr (fun a ha => by simp [hnone a ha])] at hflatten
    rw [List.eq_nil_iff_forall_not_mem]
    intro piece hpiece
    exact (forall_mem_runs l piece hpiece).1 (List.flatten_eq_nil_iff.mp hflatten piece hpiece)

theorem extract_append_cons_add (piece l : List α) (sep : α) (i j : Nat) :
    (piece ++ sep :: l).extract (piece.length + 1 + i) (piece.length + 1 + j) = l.extract i j := by
  have hfront : (piece ++ [sep]).length = piece.length + 1 := by simp
  have hdrop : (piece ++ sep :: l).drop (piece.length + 1 + i) = l.drop i := by
    rw [List.append_cons, ← hfront, List.drop_length_add_append]
  rw [List.extract_eq_take_drop, List.extract_eq_take_drop, hdrop, Nat.add_sub_add_left]

/-- A span, moved to the right. -/
def moveSpan (n : Nat) (span : Nat × Nat) : Nat × Nat := (n + span.1, n + span.2)

theorem mem_map_moveSpan_iff (n i j : Nat) (spans : List (Nat × Nat)) :
    (i, j) ∈ spans.map (moveSpan n) ↔ ∃ i' j', i = n + i' ∧ j = n + j' ∧ (i', j') ∈ spans := by
  constructor
  · intro h
    rcases List.mem_map.mp h with ⟨⟨i', j'⟩, hmem, heq⟩
    cases heq
    exact ⟨i', j', rfl, rfl, hmem⟩
  · rintro ⟨i', j', rfl, rfl, hmem⟩
    exact List.mem_map_of_mem (f := moveSpan n) hmem

theorem pairwise_map_moveSpan (n : Nat) {spans : List (Nat × Nat)}
    (h : spans.Pairwise fun first second => first.2 < second.1) :
    (spans.map (moveSpan n)).Pairwise fun first second => first.2 < second.1 := by
  rw [List.pairwise_map]
  apply h.imp
  intro first second hlt
  simp only [moveSpan]
  omega

/-- The runs of a list that starts with a piece and a separator: the piece, if it
is not empty, and then those of the rest, whose spans are moved. -/
theorem IsMaximalRuns.append_cons {piece l : List α} {sep : α} {pieces : List (List α)}
    (hrest : IsMaximalRuns p l pieces) (h : ∀ a ∈ piece, p a = true) (hsep : p sep = false) :
    IsMaximalRuns p (piece ++ sep :: l) ((if piece = [] then [] else [piece]) ++ pieces) := by
  rcases hrest with ⟨spans, hsorted, hmem, rfl⟩
  have hmoved := pairwise_map_moveSpan (piece.length + 1) hsorted
  have hpieces : (spans.map (moveSpan (piece.length + 1))).map
      (fun span => (piece ++ sep :: l).extract span.1 span.2) =
      spans.map fun span => l.extract span.1 span.2 := by
    rw [List.map_map]
    apply List.map_congr_left
    intro span _
    exact extract_append_cons_add piece l sep span.1 span.2
  have hspans : ∀ i j, (i, j) ∈ spans.map (moveSpan (piece.length + 1)) ↔
      ∃ i' j', i = piece.length + 1 + i' ∧ j = piece.length + 1 + j' ∧
        IsMaximalRun p l i' j' := by
    intro i j
    simp only [mem_map_moveSpan_iff, hmem]
  by_cases hempty : piece = []
  · refine ⟨spans.map (moveSpan (piece.length + 1)), hmoved, ?_, ?_⟩
    · intro i j
      rw [isMaximalRun_append_cons_iff h hsep, hspans]
      simp [hempty]
    · rw [if_pos hempty, hpieces, List.nil_append]
  · refine ⟨(0, piece.length) :: spans.map (moveSpan (piece.length + 1)), ?_, ?_, ?_⟩
    · refine List.pairwise_cons.mpr ⟨?_, hmoved⟩
      rintro ⟨i, j⟩ hspan
      rcases (hspans i j).mp hspan with ⟨i', j', rfl, -, -⟩
      dsimp only
      omega
    · intro i j
      rw [isMaximalRun_append_cons_iff h hsep, List.mem_cons, hspans]
      simp [hempty]
    · rw [if_neg hempty, List.map_cons, hpieces]
      simp

/-- The computed pieces are, in order, exactly the maximal runs. -/
theorem isMaximalRuns_runs (p : α → Bool) (l : List α) : IsMaximalRuns p l (runs p l) := by
  induction l using pieces_induction (p := p) with
  | whole l h =>
      by_cases hempty : l = []
      · refine ⟨[], List.Pairwise.nil, ?_, ?_⟩
        · intro i j
          rw [isMaximalRun_whole_iff h]
          simp [hempty]
        · rw [runs_whole h, if_pos hempty]
          rfl
      · refine ⟨[(0, l.length)], List.pairwise_singleton _ _, ?_, ?_⟩
        · intro i j
          rw [isMaximalRun_whole_iff h]
          simp [hempty]
        · rw [runs_whole h, if_neg hempty]
          simp
  | split piece sep l h hsep ih =>
      rw [runs_append_cons h hsep]
      exact ih.append_cons h hsep

end Foundation
