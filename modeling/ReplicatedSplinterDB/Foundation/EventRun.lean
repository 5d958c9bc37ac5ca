/-!
# Runs of event-driven systems

A system is a partial step function on states and events.  A run feeds it a
list of events.  Safety over whole runs is proved from one step: either the
step keeps an invariant, or it keeps a relation with an abstract system that
takes the same events.

Main results:

- Theorem {lit}`runEvents_invariant`: an invariant of one step holds after
  every run.
- Theorem {lit}`runEvents_simulation`: a system that can always take its
  admissible events in step with an abstract system completes every admissible
  run in a related state.
-/

namespace Foundation

variable {σ ε χ α : Type} {step : σ → ε → Except χ σ}

/-- Take a list of events, stopping at the first that the step refuses. -/
def runEvents (step : σ → ε → Except χ σ) : List ε → σ → Except χ σ
  | [], s => .ok s
  | e :: es, s =>
      match step s e with
      | .error x => .error x
      | .ok s' => runEvents step es s'

/-- Every event of the list meets its guard in the state in which it is taken. -/
def Admissible (guard : σ → ε → Prop) (step : σ → ε → Except χ σ) : List ε → σ → Prop
  | [], _ => True
  | e :: es, s => guard s e ∧ ∀ s', step s e = .ok s' → Admissible guard step es s'

theorem admissible_of_forall {guard : σ → ε → Prop} (hguard : ∀ s e, guard s e)
    (es : List ε) (s : σ) : Admissible guard step es s := by
  induction es generalizing s with
  | nil => trivial
  | cons e es ih => exact ⟨hguard s e, fun s' _ => ih s'⟩

theorem admissible_of_mem {ok : ε → Prop} {es : List ε} (hok : ∀ e ∈ es, ok e) (s : σ) :
    Admissible (fun _ e => ok e) step es s := by
  induction es generalizing s with
  | nil => trivial
  | cons e es ih =>
      refine ⟨hok e List.mem_cons_self, ?_⟩
      intro s' _
      exact ih (fun e' he' => hok e' (List.mem_cons_of_mem e he')) s'

/-- A first event whose step is known. -/
theorem admissible_cons {guard : σ → ε → Prop} {e : ε} {es : List ε} {s s' : σ}
    (hguard : guard s e) (hstep : step s e = .ok s') (hrest : Admissible guard step es s') :
    Admissible guard step (e :: es) s := by
  refine ⟨hguard, ?_⟩
  intro next hnext
  rw [hstep] at hnext
  cases hnext
  exact hrest

/-- The events of a run in two parts. -/
theorem Admissible.append {guard : σ → ε → Prop} {es es' : List ε}
    {s : σ} (h : Admissible guard step (es ++ es') s) :
    Admissible guard step es s ∧
      ∀ s', runEvents step es s = .ok s' → Admissible guard step es' s' := by
  induction es generalizing s with
  | nil =>
      refine ⟨trivial, ?_⟩
      intro s' hrun
      cases hrun
      exact h
  | cons e es ih =>
      rcases h with ⟨hguard, hrest⟩
      refine ⟨⟨hguard, fun s' hstep => (ih (hrest s' hstep)).1⟩, ?_⟩
      intro s' hrun
      simp only [runEvents] at hrun
      cases hstep : step s e with
      | error x =>
          rw [hstep] at hrun
          cases hrun
      | ok next =>
          rw [hstep] at hrun
          exact (ih (hrest next hstep)).2 s' hrun

/-- A run in two parts passes through the state between them. -/
theorem runEvents_append {es es' : List ε} {s s' : σ}
    (h : runEvents step (es ++ es') s = .ok s') :
    ∃ mid, runEvents step es s = .ok mid ∧ runEvents step es' mid = .ok s' := by
  induction es generalizing s with
  | nil => exact ⟨s, rfl, h⟩
  | cons e es ih =>
      simp only [List.cons_append, runEvents] at h ⊢
      cases hnext : step s e with
      | error x =>
          rw [hnext] at h
          cases h
      | ok next =>
          rw [hnext] at h
          exact ih h

/-- A run goes on from where its first part ended. -/
theorem runEvents_append_of_ok {es es' : List ε} {s mid : σ}
    (h : runEvents step es s = .ok mid) :
    runEvents step (es ++ es') s = runEvents step es' mid := by
  induction es generalizing s with
  | nil =>
      cases h
      rfl
  | cons e es ih =>
      simp only [List.cons_append, runEvents] at h ⊢
      cases hnext : step s e with
      | error x =>
          rw [hnext] at h
          cases h
      | ok next =>
          rw [hnext] at h
          exact ih h

/-- What every successful step preserves, every successful run preserves. -/
theorem runEvents_invariant {Inv : σ → Prop}
    (hstep : ∀ s e s', Inv s → step s e = .ok s' → Inv s') {es : List ε} {s s' : σ}
    (hs : Inv s) (hrun : runEvents step es s = .ok s') : Inv s' := by
  induction es generalizing s with
  | nil =>
      cases hrun
      exact hs
  | cons e es ih =>
      simp only [runEvents] at hrun
      cases hnext : step s e with
      | error x =>
          rw [hnext] at hrun
          cases hrun
      | ok next =>
          rw [hnext] at hrun
          exact ih (hstep s e next hs hnext) hrun

/-- An invariant that admissible steps keep holds after an admissible run. -/
theorem runEvents_invariant_of_admissible {guard : σ → ε → Prop}
    {Inv : σ → Prop} (hstep : ∀ s e s', Inv s → guard s e → step s e = .ok s' → Inv s')
    {es : List ε} {s s' : σ} (hs : Inv s) (hadm : Admissible guard step es s)
    (hrun : runEvents step es s = .ok s') : Inv s' := by
  induction es generalizing s with
  | nil =>
      cases hrun
      exact hs
  | cons e es ih =>
      simp only [runEvents] at hrun
      cases hnext : step s e with
      | error x =>
          rw [hnext] at hrun
          cases hrun
      | ok next =>
          rw [hnext] at hrun
          exact ih (hstep s e next hs hadm.1 hnext) (hadm.2 next hnext) hrun

/-- The same when the step preserves the invariant on some kind of events, and
the run has no others. -/
theorem runEvents_invariant_of_mem {Inv : σ → Prop} {ok : ε → Prop}
    (hstep : ∀ s e s', ok e → Inv s → step s e = .ok s' → Inv s') {es : List ε}
    (hok : ∀ e ∈ es, ok e) {s s' : σ} (hs : Inv s) (hrun : runEvents step es s = .ok s') :
    Inv s' := by
  have hguarded : ∀ s e s', Inv s → ok e → step s e = .ok s' → Inv s' :=
    fun s e s' hs he => hstep s e s' he hs
  exact runEvents_invariant_of_admissible hguarded hs (admissible_of_mem hok s) hrun

/-- If related states can take every admissible event in step, an admissible
run completes and ends in a state related to the abstract run. -/
theorem runEvents_simulation {guard : σ → ε → Prop} {astep : α → ε → α} {R : σ → α → Prop}
    (hstep : ∀ s a e, R s a → guard s e → ∃ s', step s e = .ok s' ∧ R s' (astep a e))
    (es : List ε) {s : σ} {a : α} (hR : R s a) (hadm : Admissible guard step es s) :
    ∃ s', runEvents step es s = .ok s' ∧ R s' (es.foldl astep a) := by
  induction es generalizing s a with
  | nil => exact ⟨s, rfl, hR⟩
  | cons e es ih =>
      rcases hadm with ⟨hguard, hrest⟩
      rcases hstep s a e hR hguard with ⟨next, hnext, hR'⟩
      rcases ih hR' (hrest next hnext) with ⟨s', hrun, hfinal⟩
      refine ⟨s', ?_, hfinal⟩
      simp only [runEvents, hnext]
      exact hrun

/-- If every state with the invariant can take every admissible event and has the
invariant again, an admissible run completes, with the invariant at its end. -/
theorem runEvents_completes {guard : σ → ε → Prop} {Inv : σ → Prop}
    (hstep : ∀ s e, Inv s → guard s e → ∃ s', step s e = .ok s' ∧ Inv s') {es : List ε} {s : σ}
    (hs : Inv s) (hadm : Admissible guard step es s) :
    ∃ s', runEvents step es s = .ok s' ∧ Inv s' := by
  induction es generalizing s with
  | nil => exact ⟨s, rfl, hs⟩
  | cons e es ih =>
      rcases hadm with ⟨hguard, hrest⟩
      rcases hstep s e hs hguard with ⟨next, hnext, hinv⟩
      rcases ih hinv (hrest next hnext) with ⟨s', hrun, hfinal⟩
      refine ⟨s', ?_, hfinal⟩
      simp only [runEvents, hnext]
      exact hrun

end Foundation
