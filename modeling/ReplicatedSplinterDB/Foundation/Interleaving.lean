import ReplicatedSplinterDB.Foundation.Interaction
import ReplicatedSplinterDB.Foundation.EventRun

/-!
# A program between the steps of others

A thread reads shared state in critical sections of its own, and the critical
sections of other threads come between them.  The thread is an interactive
program whose questions are answered by the state of the moment; a schedule
says what the others do before each question.

Main results:

- Definition {lit}`Interaction.eval`: the result of a program whose questions all
  have fixed answers.
- Definition {lit}`interleave`: the result of a program between the steps of
  others.
- Theorem {lit}`interleave_returns`: a program between others that get through
  returns.
- Theorem {lit}`interleave_eq_eval`: if the others keep the answers to the
  program's questions, the program cannot tell that they are there.
-/

namespace Foundation

variable {Q : Type} {A : Q → Type} {ρ τ σ ε χ : Type}

/-- The result of a program whose questions have these answers. -/
def Interaction.eval (answer : (q : Q) → A q) : Interaction Q A ρ → ρ
  | .ret result => result
  | .ask question rest => eval answer (rest (answer question))

theorem Interaction.eval_bind (answer : (q : Q) → A q) (p : Interaction Q A ρ)
    (f : ρ → Interaction Q A τ) :
    (p.bind f).eval answer = (f (p.eval answer)).eval answer := by
  induction p with
  | ret result => rfl
  | ask question rest ih => exact ih (answer question)

/-- Run a program between the steps of others.  Before each question the others
take the next batch of events; after the last batch they rest. -/
def interleave (answer : (q : Q) → σ → A q) (step : σ → ε → Except χ σ) :
    Interaction Q A ρ → List (List ε) → σ → Except χ (ρ × σ)
  | .ret result, _, s => .ok (result, s)
  | .ask question rest, [], s => interleave answer step (rest (answer question s)) [] s
  | .ask question rest, batch :: schedule, s =>
      match runEvents step batch s with
      | .error x => .error x
      | .ok s => interleave answer step (rest (answer question s)) schedule s

/-- A program returns if the others get through what they do. -/
theorem interleave_returns {answer : (q : Q) → σ → A q} {step : σ → ε → Except χ σ}
    (p : Interaction Q A ρ) {schedule : List (List ε)} {s t : σ}
    (hothers : runEvents step schedule.flatten s = .ok t) :
    ∃ r s', interleave answer step p schedule s = .ok (r, s') := by
  induction p generalizing schedule s with
  | ret result => exact ⟨result, s, by cases schedule <;> rfl⟩
  | ask question rest ih =>
      cases schedule with
      | nil => exact ih (answer question s) hothers
      | cons batch schedule =>
          rw [List.flatten_cons] at hothers
          rcases runEvents_append hothers with ⟨mid, hbatch, hlater⟩
          simp only [interleave, hbatch]
          exact ih (answer question mid) hlater

/-- If the others keep an invariant under which the program's questions have
fixed answers, the program returns what it returns with these answers. -/
theorem interleave_eq_eval {answer : (q : Q) → σ → A q} {step : σ → ε → Except χ σ}
    {guard : σ → ε → Prop} {Inv : σ → Prop} {ok : Q → Prop} {fixed : (q : Q) → A q}
    (hstep : ∀ s e s', Inv s → guard s e → step s e = .ok s' → Inv s')
    (hfixed : ∀ q s, ok q → Inv s → answer q s = fixed q) {p : Interaction Q A ρ}
    (hp : p.Asks ok) {schedule : List (List ε)} {s s' : σ} {r : ρ} (hs : Inv s)
    (hadm : Admissible guard step schedule.flatten s)
    (hrun : interleave answer step p schedule s = .ok (r, s')) : r = p.eval fixed := by
  induction p generalizing schedule s with
  | ret result =>
      cases schedule with
      | nil =>
          cases hrun
          rfl
      | cons batch schedule =>
          cases hrun
          rfl
  | ask question rest ih =>
      rcases hp with ⟨hquestion, hrest⟩
      cases schedule with
      | nil =>
          simp only [interleave] at hrun
          rw [hfixed question s hquestion hs] at hrun
          exact ih (fixed question) (hrest _) hs hadm hrun
      | cons batch schedule =>
          simp only [interleave] at hrun
          rw [List.flatten_cons] at hadm
          rcases hadm.append with ⟨hbatch, hlater⟩
          cases hmid : runEvents step batch s with
          | error x =>
              rw [hmid] at hrun
              cases hrun
          | ok mid =>
              rw [hmid] at hrun
              have hinv := runEvents_invariant_of_admissible hstep hs hbatch hmid
              simp only [hfixed question mid hquestion hinv] at hrun
              exact ih (fixed question) (hrest _) hinv (hlater mid hmid) hrun

end Foundation
