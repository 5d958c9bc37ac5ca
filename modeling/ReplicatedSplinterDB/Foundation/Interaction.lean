import Mathlib.Data.List.Basic

/-!
# Interactive programs

An interactive program either returns or asks a question and goes on with the
answer, which may be any value of the question's answer type.  Nothing is said
about who answers, so a property of all runs of a program covers every
behaviour of its environment, and one program can be run alone or inside a
system with many others.

Main results:

- Definition {lit}`Interaction.Exchanges`: the questions and answers of a
  complete run, with its result.
- Theorem {lit}`Interaction.exchanges_bind_iff`: a run of a sequence is a run of
  its first part followed by a run of the rest.
- Theorem {lit}`Interaction.AtMost.countP_le`: a program that may ask some kind
  of question at most {lit}`n` times does so in every run.
- Definition {lit}`Interaction.Asks`: the questions that a program may ask on
  any path.
- Theorem {lit}`Interaction.Ensures.result`: a program that ensures a
  postcondition under an assumption on the answers meets it in every run whose
  answers meet the assumption.
- Theorem {lit}`Interaction.exchanges_relabel`: a program that is run among more
  questions than its own still asks only its own.
-/

namespace Foundation

/-- A program that asks questions of type {lit}`Q` and returns a {lit}`ρ`. -/
inductive Interaction (Q : Type) (A : Q → Type) (ρ : Type) where
  | ret (result : ρ)
  | ask (question : Q) (rest : A question → Interaction Q A ρ)

namespace Interaction

variable {Q : Type} {A : Q → Type} {ρ τ : Type}

/-- Run a program, then another one on its result. -/
def bind (p : Interaction Q A ρ) (f : ρ → Interaction Q A τ) : Interaction Q A τ :=
  match p with
  | .ret result => f result
  | .ask question rest => .ask question fun answer => (rest answer).bind f

/-- The program can exchange these questions and answers, in this order, and
then return this result. -/
def Exchanges : Interaction Q A ρ → List (Sigma A) → ρ → Prop
  | .ret result, trace, r => trace = [] ∧ r = result
  | .ask question rest, trace, r =>
      ∃ answer trace', trace = ⟨question, answer⟩ :: trace' ∧ Exchanges (rest answer) trace' r

/-- A run of a sequence splits at the point where the first part returns. -/
theorem exchanges_bind_iff {p : Interaction Q A ρ} {f : ρ → Interaction Q A τ}
    {trace : List (Sigma A)} {r : τ} :
    Exchanges (p.bind f) trace r ↔
      ∃ first second mid, trace = first ++ second ∧ Exchanges p first mid ∧
        Exchanges (f mid) second r := by
  induction p generalizing trace with
  | ret result =>
      constructor
      · intro h
        exact ⟨[], trace, result, rfl, ⟨rfl, rfl⟩, h⟩
      · rintro ⟨first, second, mid, rfl, ⟨rfl, rfl⟩, h⟩
        exact h
  | ask question rest ih =>
      constructor
      · rintro ⟨answer, trace', rfl, h⟩
        rcases (ih answer).mp h with ⟨first, second, mid, rfl, hfirst, hsecond⟩
        exact ⟨⟨question, answer⟩ :: first, second, mid, rfl, ⟨answer, first, rfl, hfirst⟩, hsecond⟩
      · rintro ⟨first, second, mid, rfl, ⟨answer, first', rfl, hfirst⟩, hsecond⟩
        refine ⟨answer, first' ++ second, rfl, ?_⟩
        exact (ih answer).mpr ⟨first', second, mid, rfl, hfirst, hsecond⟩

/-! ## Counting questions -/

/-- On every path the program asks at most {lit}`n` of the counted questions. -/
def AtMost (counts : Q → Bool) : Interaction Q A ρ → Nat → Prop
  | .ret _, _ => True
  | .ask question rest, n =>
      if counts question then ∃ m, n = m + 1 ∧ ∀ answer, AtMost counts (rest answer) m
      else ∀ answer, AtMost counts (rest answer) n

variable {counts : Q → Bool}

theorem AtMost.mono {p : Interaction Q A ρ} {n m : Nat} (h : AtMost counts p n) (hle : n ≤ m) :
    AtMost counts p m := by
  induction p generalizing n m with
  | ret result => trivial
  | ask question rest ih =>
      unfold AtMost at h ⊢
      split at h
      · rename_i hcounts
        rcases h with ⟨k, rfl, hrest⟩
        rw [if_pos hcounts]
        refine ⟨m - 1, by omega, ?_⟩
        intro answer
        exact ih answer (hrest answer) (by omega)
      · rename_i hcounts
        rw [if_neg hcounts]
        intro answer
        exact ih answer (h answer) hle

theorem AtMost.bind {p : Interaction Q A ρ} {f : ρ → Interaction Q A τ} {n m : Nat}
    (hp : AtMost counts p n) (hf : ∀ r, AtMost counts (f r) m) :
    AtMost counts (p.bind f) (n + m) := by
  induction p generalizing n with
  | ret result => exact (hf result).mono (Nat.le_add_left m n)
  | ask question rest ih =>
      unfold AtMost at hp
      change AtMost counts (.ask question fun answer => (rest answer).bind f) (n + m)
      unfold AtMost
      split at hp
      · rename_i hcounts
        rcases hp with ⟨k, rfl, hrest⟩
        rw [if_pos hcounts]
        refine ⟨k + m, by omega, ?_⟩
        intro answer
        exact ih answer (hrest answer)
      · rename_i hcounts
        rw [if_neg hcounts]
        intro answer
        exact ih answer (hp answer)

/-- A first part that asks none of the counted questions leaves the whole bound
to the rest. -/
theorem AtMost.zero_bind {p : Interaction Q A ρ} {f : ρ → Interaction Q A τ} {m : Nat}
    (hp : AtMost counts p 0) (hf : ∀ r, AtMost counts (f r) m) :
    AtMost counts (p.bind f) m := by
  have h := hp.bind hf
  rwa [Nat.zero_add] at h

/-- In every run the bound holds of the questions that were asked. -/
theorem AtMost.countP_le {p : Interaction Q A ρ} {n : Nat} (h : AtMost counts p n)
    {trace : List (Sigma A)} {r : ρ} (hrun : Exchanges p trace r) :
    trace.countP (fun x => counts x.1) ≤ n := by
  induction p generalizing n trace with
  | ret result =>
      rw [hrun.1]
      exact Nat.zero_le n
  | ask question rest ih =>
      rcases hrun with ⟨answer, trace', rfl, hrest⟩
      unfold AtMost at h
      split at h
      · rename_i hcounts
        rcases h with ⟨m, rfl, hbound⟩
        rw [List.countP_cons, if_pos hcounts]
        exact Nat.succ_le_succ (ih answer (hbound answer) hrest)
      · rename_i hcounts
        rw [List.countP_cons, if_neg hcounts]
        exact ih answer (h answer) hrest

/-! ## What a program may ask -/

/-- On every path the program asks only questions of this kind. -/
def Asks (ok : Q → Prop) : Interaction Q A ρ → Prop
  | .ret _ => True
  | .ask question rest => ok question ∧ ∀ answer, Asks ok (rest answer)

theorem Asks.bind {ok : Q → Prop} {p : Interaction Q A ρ} {f : ρ → Interaction Q A τ}
    (hp : Asks ok p) (hf : ∀ r, Asks ok (f r)) : Asks ok (p.bind f) := by
  induction p with
  | ret result => exact hf result
  | ask question rest ih =>
      rcases hp with ⟨hquestion, hrest⟩
      refine ⟨hquestion, ?_⟩
      intro answer
      exact ih answer (hrest answer)

/-- In every run only such questions were asked. -/
theorem Asks.of_exchanges {ok : Q → Prop} {p : Interaction Q A ρ} (hp : Asks ok p)
    {trace : List (Sigma A)} {r : ρ} (hrun : Exchanges p trace r) : ∀ x ∈ trace, ok x.1 := by
  induction p generalizing trace with
  | ret result =>
      rw [hrun.1]
      simp
  | ask question rest ih =>
      rcases hrun with ⟨answer, trace', rfl, hrest⟩
      rw [List.forall_mem_cons]
      exact ⟨hp.1, ih answer (hp.2 answer) hrest⟩

/-! ## Assumptions on the answers -/

/-- If every answer meets the assumption, the result meets the postcondition. -/
def Ensures (assume : (q : Q) → A q → Prop) (post : ρ → Prop) : Interaction Q A ρ → Prop
  | .ret result => post result
  | .ask question rest => ∀ answer, assume question answer → Ensures assume post (rest answer)

variable {assume : (q : Q) → A q → Prop}

theorem ensures_true (p : Interaction Q A ρ) : Ensures assume (fun _ => True) p := by
  induction p with
  | ret result => trivial
  | ask question rest ih =>
      intro answer _
      exact ih answer

theorem Ensures.bind {p : Interaction Q A ρ} {f : ρ → Interaction Q A τ} {mid : ρ → Prop}
    {post : τ → Prop} (hp : Ensures assume mid p)
    (hf : ∀ r, mid r → Ensures assume post (f r)) : Ensures assume post (p.bind f) := by
  induction p with
  | ret result => exact hf result hp
  | ask question rest ih =>
      intro answer hanswer
      exact ih answer (hp answer hanswer)

theorem Ensures.result {p : Interaction Q A ρ} {post : ρ → Prop} (h : Ensures assume post p)
    {trace : List (Sigma A)} {r : ρ} (hrun : Exchanges p trace r)
    (htrace : ∀ x ∈ trace, assume x.1 x.2) : post r := by
  induction p generalizing trace with
  | ret result =>
      rw [hrun.2]
      exact h
  | ask question rest ih =>
      rcases hrun with ⟨answer, trace', rfl, hrest⟩
      apply ih answer (h answer (htrace _ List.mem_cons_self)) hrest
      intro x hx
      exact htrace x (List.mem_cons_of_mem _ hx)

/-! ## Embedding in a larger set of questions -/

section Relabel

variable {Q' : Type} {A' : Q' → Type} (embed : Q → Q') (read : (q : Q) → A' (embed q) → A q)

/-- The same program, with its questions and answers among those of a larger
set. -/
def relabel : Interaction Q A ρ → Interaction Q' A' ρ
  | .ret result => .ret result
  | .ask question rest => .ask (embed question) fun answer => relabel (rest (read question answer))

/-- A run of the embedded program is a run of the program itself. -/
theorem exchanges_relabel {p : Interaction Q A ρ} {trace : List (Sigma A')} {r : ρ}
    (h : (p.relabel embed read).Exchanges trace r) :
    ∃ own, p.Exchanges own r ∧ trace.map Sigma.fst = own.map fun x => embed x.1 := by
  induction p generalizing trace with
  | ret result =>
      rcases h with ⟨rfl, rfl⟩
      exact ⟨[], ⟨rfl, rfl⟩, rfl⟩
  | ask question rest ih =>
      rcases h with ⟨answer, trace', rfl, hrest⟩
      rcases ih (read question answer) hrest with ⟨own, hown, hquestions⟩
      refine ⟨⟨question, read question answer⟩ :: own, ⟨_, own, rfl, hown⟩, ?_⟩
      rw [List.map_cons, List.map_cons, hquestions]

end Relabel

end Interaction

end Foundation
