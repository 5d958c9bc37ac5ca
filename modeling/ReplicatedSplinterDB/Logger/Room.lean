import ReplicatedSplinterDB.Logger.Concurrent

/-!
# When the logger keeps every message

A put gives its message up when another thread is working on the element that it
has claimed.  That takes a ring without room: either the claimed element still
holds an older message, or the cursor has gone around while an earlier put on the
element was under way.

Main results:

- Theorem {lit}`logger_with_room_keeps_messages`: no message is given up as long
  as every put claims an element that is clean and that no other put has claimed.
- Theorem {lit}`LoggerState.put_alone`: a put that is not disturbed does what
  {lit}`SimpleLogger.putMessage` says.
- Theorem {lit}`undisturbed_calls_keep_order`: when calls do not overlap, whichever
  threads make them, the messages are logged in the order of the calls.
-/

namespace ReplicatedSplinterDB

open Foundation

/-! ## Room in the ring -/

namespace LogThread

/-- The element that the thread has claimed for its put. -/
def claims : LogThread → Option Nat
  | .waitAvailable _ slot => some slot
  | .checkDirty _ slot => some slot
  | .tryLock after _ => after.map Prod.snd
  | .sweep after _ => after.map Prod.snd
  | .emit after _ _ => after.map Prod.snd
  | .release after _ _ => after.map Prod.snd
  | .waitFlushed _ slot => some slot
  | .write _ slot => some slot
  | .fill _ slot => some slot
  | .publish _ slot => some slot
  | .idle => none
  | .loadCursor _ => none
  | .casCursor _ _ => none
  | .loadStart => none

/-- The element that the thread has to itself when there is room, with its
status. -/
def reserves : LogThread → Option (Nat × ElemStatus)
  | .waitAvailable _ slot => some (slot, .clean)
  | .checkDirty _ slot => some (slot, .clean)
  | .write _ slot => some (slot, .clean)
  | .fill _ slot => some (slot, .writing)
  | .publish _ slot => some (slot, .writing)
  | .emit _ pos _ => some (pos, .flushing)
  | .release _ pos _ => some (pos, .flushing)
  | _ => none

/-- The thread does not flush on behalf of a put, and does not wait for one who
does. -/
def Plain : LogThread → Prop
  | .tryLock after _ => after = none
  | .sweep after _ => after = none
  | .emit after _ _ => after = none
  | .release after _ _ => after = none
  | .waitFlushed _ _ => False
  | _ => True

/-- No thread has a dirty element to itself. -/
theorem reserves_ne_dirty (state : LogThread) (pos : Nat) :
    state.reserves ≠ some (pos, .dirty) := by
  cases state <;> simp [reserves]

/-- A thread that has a clean or half-written element has claimed it. -/
theorem claims_of_reserves {state : LogThread} {pos : Nat} {status : ElemStatus}
    (h : state.reserves = some (pos, status)) (hstatus : status ≠ .flushing) :
    state.claims = some pos := by
  cases state <;> simp [reserves] at h
  case emit => exact absurd h.2.symm hstatus
  case release => exact absurd h.2.symm hstatus
  all_goals
    rw [claims, h.1]

end LogThread

namespace LoggerState

/-- A put takes the element at the cursor only if it is clean and claimed by
nobody. -/
def ClaimsRoom (s : LoggerState) : LoggerEvent → Prop
  | .run t => ∀ msg, s.threads t = .casCursor msg s.logger.cursor →
      (s.elem s.logger.cursor).status = .clean ∧
        ∀ t', (s.threads t').claims ≠ some s.logger.cursor
  | _ => True

/-- Every put under way has its element to itself, and none was given up. -/
structure Roomy (s : LoggerState) : Prop where
  owned : Owned (LogThread.reserves ∘ s.threads) (LogElem.status ∘ s.logger.logs)
  plain : ∀ t, (s.threads t).Plain
  lost_nil : s.lost = []

variable {cfg : LoggerConfig} {s : LoggerState} {t : Nat} {next : LogThread}

theorem roomy_create (firstRevnum : Nat) : (create firstRevnum).Roomy := by
  refine ⟨⟨?_, ?_⟩, fun _ => trivial, rfl⟩
  · intro _ _ _ hclaim
    cases hclaim
  · intro _ _ _ _ _ hclaim
    cases hclaim

theorem Roomy.plain_update (h : s.Roomy) (hnext : next.Plain) (t' : Nat) :
    (Function.update s.threads t next t').Plain := by
  by_cases hself : t' = t
  · subst hself
    rw [Function.update_self]
    exact hnext
  · rw [Function.update_of_ne hself]
    exact h.plain t'

/-- A thread moves on and keeps what it has to itself. -/
theorem Roomy.moves (h : s.Roomy) {s' : LoggerState}
    (hthreads : s'.threads = Function.update s.threads t next)
    (hlogs : s'.logger.logs = s.logger.logs) (hlost : s'.lost = s.lost)
    (hreserves : next.reserves = (s.threads t).reserves) (hnext : next.Plain) : s'.Roomy := by
  refine ⟨?_, ?_, hlost.trans h.lost_nil⟩
  · rw [hthreads, hlogs, Function.comp_update, hreserves]
    exact (Function.update_eq_self (f := LogThread.reserves ∘ s.threads) t).symm ▸ h.owned
  · rw [hthreads]
    exact h.plain_update hnext

/-- A thread takes, changes or gives back an element. -/
theorem Roomy.sets_elem (h : s.Roomy) {s' : LoggerState} {pos : Nat} {e : LogElem}
    (hthreads : s'.threads = Function.update s.threads t next)
    (hlogs : s'.logger.logs = Function.update s.logger.logs pos e) (hlost : s'.lost = s.lost)
    (howned : Owned (Function.update (LogThread.reserves ∘ s.threads) t next.reserves)
      (Function.update (LogElem.status ∘ s.logger.logs) pos e.status))
    (hnext : next.Plain) : s'.Roomy := by
  refine ⟨?_, ?_, hlost.trans h.lost_nil⟩
  · rw [hthreads, hlogs, Function.comp_update, Function.comp_update]
    exact howned
  · rw [hthreads]
    exact h.plain_update hnext

/-- A put claims an element. -/
theorem Roomy.claims_slot (h : s.Roomy) {s' : LoggerState} {msg : Bytes} {slot : Nat}
    (hclean : (s.elem slot).status = .clean) (hfree : ∀ t', (s.threads t').claims ≠ some slot)
    (hthreads : s'.threads = Function.update s.threads t (.waitAvailable msg slot))
    (hlogs : s'.logger.logs = s.logger.logs) (hlost : s'.lost = s.lost) : s'.Roomy := by
  have hunclaimed : ∀ t' status, (LogThread.reserves ∘ s.threads) t' ≠ some (slot, status) := by
    intro t' status hreserves
    have hstatus : (s.elem slot).status = status := h.owned.state_eq t' slot status hreserves
    apply hfree t'
    apply LogThread.claims_of_reserves hreserves
    rw [← hstatus, hclean]
    simp
  have howned := h.owned.acquire t .clean hunclaimed
  have hsame : (LogElem.status ∘ s.logger.logs) slot = .clean := hclean
  rw [← hsame, Function.update_eq_self, hsame] at howned
  refine ⟨?_, ?_, hlost.trans h.lost_nil⟩
  · rw [hthreads, hlogs, Function.comp_update]
    exact howned
  · rw [hthreads]
    exact h.plain_update trivial

/-- Every step of a thread keeps the room. -/
theorem advance_roomy (h : s.Roomy) (hroom : s.ClaimsRoom (.run t)) {state : LogThread}
    (hthread : s.threads t = state) : (s.advance cfg t state).Roomy := by
  have hplain := h.plain t
  rw [hthread] at hplain
  have hholds : ∀ pos status, state.reserves = some (pos, status) →
      (LogThread.reserves ∘ s.threads) t = some (pos, status) := by
    intro pos status hreserves
    rw [Function.comp_apply, hthread]
    exact hreserves
  -- a thread that only moves on
  have hmove : ∀ next : LogThread, next.Plain → next.reserves = state.reserves →
      (s.goto t next).Roomy := by
    intro next hnext hreserves
    subst hthread
    exact h.moves rfl rfl rfl hreserves hnext
  cases state with
  | idle => exact h
  | loadCursor msg => exact hmove _ trivial rfl
  | casCursor msg expected =>
      simp only [advance]
      split
      · rename_i hcursor
        subst hcursor
        rcases hroom msg hthread with ⟨hclean, hfree⟩
        exact h.claims_slot hclean hfree rfl rfl rfl
      · exact hmove _ trivial rfl
  | waitAvailable msg slot =>
      simp only [advance]
      split
      · exact hmove _ trivial rfl
      · exact h
  | checkDirty msg slot =>
      have hclean : (s.elem slot).status = .clean :=
        h.owned.state_eq t slot .clean (hholds slot .clean rfl)
      have hskip : (s.elem slot).needToFlush = false := by simp [LogElem.needToFlush, hclean]
      simp only [advance, hskip, Bool.false_eq_true, if_false]
      exact hmove _ trivial rfl
  | loadStart => exact hmove _ rfl rfl
  | tryLock after start =>
      cases hplain
      simp only [advance]
      split
      · exact h.moves rfl rfl rfl (by rw [hthread]; rfl) rfl
      · exact hmove _ trivial rfl
  | sweep after rest =>
      cases hplain
      cases rest with
      | nil =>
          exact h.moves rfl (SimpleLogger.logs_rotateFile cfg s.logger).1 rfl
            (by rw [hthread]; rfl) trivial
      | cons pos rest =>
          simp only [advance]
          split
          · rename_i hdirty
            have hfree := h.owned.free_of_state (show (LogElem.status ∘ s.logger.logs) pos = _
              from hdirty) fun t' pos' => LogThread.reserves_ne_dirty (s.threads t') pos'
            exact h.sets_elem rfl rfl rfl (h.owned.acquire t .flushing hfree) rfl
          · exact hmove _ rfl rfl
  | emit after pos rest =>
      cases hplain
      exact h.moves rfl rfl rfl (by rw [hthread]; rfl) rfl
  | release after pos rest =>
      cases hplain
      exact h.sets_elem rfl rfl rfl (h.owned.release (hholds pos .flushing rfl) .clean) rfl
  | waitFlushed msg slot => exact absurd hplain id
  | write msg slot =>
      have hclean : (s.elem slot).status = .clean :=
        h.owned.state_eq t slot .clean (hholds slot .clean rfl)
      simp only [advance, hclean, if_true]
      exact h.sets_elem rfl rfl rfl (h.owned.change (hholds slot .clean rfl) .writing) trivial
  | fill msg slot =>
      have hwriting : (s.elem slot).status = .writing :=
        h.owned.state_eq t slot .writing (hholds slot .writing rfl)
      simp only [advance, hwriting]
      exact h.sets_elem rfl rfl rfl (h.owned.change (hholds slot .writing rfl) .writing) trivial
  | publish msg slot =>
      exact h.sets_elem rfl rfl rfl (h.owned.release (hholds slot .writing rfl) .dirty) trivial

theorem step_roomy (h : s.Roomy) {s' : LoggerState} {e : LoggerEvent} (hroom : s.ClaimsRoom e)
    (hstep : s.step cfg e = .ok s') : s'.Roomy := by
  rcases step_cases hstep with ⟨t, msg, -, hidle, rfl⟩ | ⟨t, -, hidle, rfl⟩ | ⟨t, rfl, rfl⟩ |
    ⟨t, after, start, -, hthread, rfl⟩
  · exact h.moves rfl rfl rfl (by rw [hidle]; rfl) trivial
  · exact h.moves rfl rfl rfl (by rw [hidle]; rfl) trivial
  · exact advance_roomy h hroom rfl
  · have hplain := h.plain t
    rw [hthread] at hplain
    cases hplain
    exact h.moves rfl rfl rfl (by rw [hthread]; rfl) trivial

end LoggerState

/-- In every run in which each put claims an element that is clean and that no
other put has claimed, whatever the flushers do meanwhile: no message is given
up, no put waits for its element or for a flusher, and the messages of all puts
are, each exactly as often as it was put, in the log files, in the ring, or in a
put that is still under way. -/
theorem logger_with_room_keeps_messages (cfg : LoggerConfig) (firstRevnum : Nat)
    {events : List LoggerEvent} {s : LoggerState}
    (hroom : Admissible LoggerState.ClaimsRoom (LoggerState.step cfg) events
      (.create firstRevnum))
    (hrun : runEvents (LoggerState.step cfg) events (.create firstRevnum) = .ok s) :
    s.lost = [] ∧ (∀ t msg slot, s.threads t ≠ .waitFlushed msg slot) ∧
      (∀ t msg slot, s.threads t = .waitAvailable msg slot →
        (s.elem slot).available = true) ∧
      ∀ n, (∀ e ∈ events, e.thread < n) →
        (events.filterMap LoggerEvent.message).Perm
          (s.logger.closed.flatten ++ s.logger.current ++ s.unwritten cfg ++ s.underWay n) := by
  have hroomy : s.Roomy := runEvents_invariant_of_admissible
    (fun _ _ _ h hclaims hstep => LoggerState.step_roomy h hclaims hstep)
    (LoggerState.roomy_create firstRevnum) hroom hrun
  refine ⟨hroomy.lost_nil, ?_, ?_, ?_⟩
  · intro t msg slot hwaits
    have hplain := hroomy.plain t
    rw [hwaits] at hplain
    exact hplain
  · intro t msg slot hclaimed
    have hclean : (s.elem slot).status = .clean :=
      hroomy.owned.state_eq t slot .clean (by rw [Function.comp_apply, hclaimed]; rfl)
    rw [LogElem.available, hclean]
    rfl
  · intro n hn
    have hputs := LoggerState.run_accounted hn hrun
    rw [hroomy.lost_nil, List.append_nil] at hputs
    exact hputs

/-- The thread is about to claim an element. -/
def LogThread.isClaiming : LogThread → Bool
  | .casCursor _ _ => true
  | _ => false

theorem LoggerState.claimsRoom_of_not_claiming {s : LoggerState} {t : Nat}
    (h : (s.threads t).isClaiming = false) : s.ClaimsRoom (.run t) := by
  intro msg hthread
  rw [hthread] at h
  cases h

/-- A put into an empty ring, and a put by another thread that starts while a third
one flushes the ring. -/
def roomyRun : List LoggerEvent :=
  .put 0 [1] :: List.replicate 7 (.run 0) ++ .flushAll 1 :: List.replicate 2 (.run 1) ++
    .put 2 [2] :: .run 2 :: List.replicate 4 (.run 1) ++ List.replicate 6 (.run 2)

theorem logger_with_room_keeps_two_messages :
    ∃ s, runEvents (LoggerState.step oneElement) roomyRun (.create 0) = .ok s ∧
      s.logger.current = [[1]] ∧ s.lost = [] ∧
      [[(1 : UInt8)], [2]].Perm (s.logger.closed.flatten ++ s.logger.current ++
        s.unwritten oneElement ++ s.underWay 3) := by
  have hroom : Admissible LoggerState.ClaimsRoom (LoggerState.step oneElement) roomyRun
      (.create 0) := by
    have hrun : ∀ {events : List LoggerEvent} {s s' : LoggerState} {t : Nat},
        (s.threads t).isClaiming = false → s.step oneElement (.run t) = .ok s' →
        Admissible LoggerState.ClaimsRoom (LoggerState.step oneElement) events s' →
        Admissible LoggerState.ClaimsRoom (LoggerState.step oneElement) (.run t :: events) s :=
      fun h hstep hrest => admissible_cons (LoggerState.claimsRoom_of_not_claiming h) hstep hrest
    have hnone : (none : Option Nat) ≠ some 0 := by simp
    refine admissible_cons trivial rfl (hrun rfl rfl (admissible_cons ?_ rfl ?_))
    · -- the first put claims the element
      intro msg _
      refine ⟨rfl, ?_⟩
      rintro (_ | t)
      · exact hnone
      · exact hnone
    iterate 5 refine hrun rfl rfl ?_
    refine admissible_cons trivial rfl (hrun rfl rfl (hrun rfl rfl ?_))
    refine admissible_cons trivial rfl ?_
    iterate 5 refine hrun rfl rfl ?_
    refine admissible_cons ?_ rfl ?_
    · -- the element has been flushed when the second put claims it
      intro msg _
      refine ⟨rfl, ?_⟩
      rintro (_ | _ | _ | t)
      · exact hnone
      · exact hnone
      · exact hnone
      · exact hnone
    iterate 5 refine hrun rfl rfl ?_
    trivial
  rcases logger_with_room_keeps_messages oneElement 0 hroom rfl with ⟨hlost, -, -, hputs⟩
  exact ⟨_, rfl, rfl, hlost, hputs 3 (by decide)⟩

/-! ## Calls that are not disturbed -/

namespace LoggerState

variable {cfg : LoggerConfig} {s : LoggerState} {t : Nat}

/-- Some number of steps of one thread lead from one state to another. -/
def RunsTo (cfg : LoggerConfig) (t : Nat) (s s' : LoggerState) : Prop :=
  ∃ k, runEvents (step cfg) (List.replicate k (.run t)) s = .ok s'

theorem RunsTo.refl (s : LoggerState) : RunsTo cfg t s s := ⟨0, rfl⟩

/-- One more step in front. -/
theorem RunsTo.head {s' : LoggerState} {state : LogThread} (hthread : s.threads t = state)
    (hstate : state ≠ .idle) (h : RunsTo cfg t (s.advance cfg t state) s') :
    RunsTo cfg t s s' := by
  rcases h with ⟨k, hrun⟩
  refine ⟨k + 1, ?_⟩
  have hstep : s.step cfg (.run t) = .ok (s.advance cfg t state) := by
    simp only [step]
    split
    · rename_i hidle
      exact absurd (hthread.symm.trans hidle) hstate
    · rw [hthread]
  rw [List.replicate_succ]
  simp only [runEvents, hstep]
  exact hrun

/-- A sweep that is not disturbed flushes the elements one after the other.  The
induction is on the positions still to visit. -/
theorem sweep_alone {after : Option (Bytes × Nat)} {rest : List Nat} {s' : LoggerState}
    (hthread : s.threads t = .sweep after rest)
    (h : RunsTo cfg t { s with
      logger := rest.foldl SimpleLogger.flushElem s.logger
      threads := Function.update s.threads t (.sweep after []) } s') :
    RunsTo cfg t s s' := by
  induction rest generalizing s with
  | nil =>
      rw [← hthread, Function.update_eq_self] at h
      exact h
  | cons pos rest ih =>
      by_cases hdirty : (s.elem pos).status = .dirty
      · -- the element is marked, written and released
        have hvisited : (((s.advance cfg t (.sweep after (pos :: rest))).advance cfg t
            (.emit after pos rest)).advance cfg t (.release after pos rest)) =
            { s with
              logger := s.logger.flushElem pos
              threads := Function.update s.threads t (.sweep after rest) } := by
          have hdirty' : (s.logger.logs pos).status = .dirty := hdirty
          simp [advance, goto, setElem, elem, SimpleLogger.flushElem, LogElem.flush, hdirty']
        have hmarked : (s.advance cfg t (.sweep after (pos :: rest))).threads t =
            .emit after pos rest := by
          simp [advance, hdirty, goto]
        refine RunsTo.head hthread (by simp) (RunsTo.head hmarked (by simp)
          (RunsTo.head (Function.update_self ..) (by simp) ?_))
        rw [hvisited]
        apply ih (Function.update_self ..)
        simp only [Function.update_idem]
        exact h
      · have hskipped : s.logger.flushElem pos = s.logger := by
          have hclean' : (s.logger.logs pos).status ≠ .dirty := hdirty
          simp [SimpleLogger.flushElem, LogElem.flush, hclean']
        refine RunsTo.head hthread (by simp) ?_
        simp only [advance, hdirty, if_false]
        apply ih (Function.update_self ..)
        rw [List.foldl_cons, hskipped] at h
        simp only [goto, Function.update_idem]
        exact h

/-- A flush that is not disturbed. -/
theorem flush_alone {after : Option (Bytes × Nat)} {start : Nat} {s' : LoggerState}
    (hthread : s.threads t = .tryLock after start) (hlock : s.lock = none)
    (h : RunsTo cfg t { s with
      logger := s.logger.flush cfg start
      threads := Function.update s.threads t (.flushed after) } s') :
    RunsTo cfg t s s' := by
  refine RunsTo.head hthread (by simp) ?_
  simp only [advance, hlock, if_true]
  apply sweep_alone (Function.update_self ..)
  refine RunsTo.head (Function.update_self ..) (by simp) ?_
  simp only [advance, goto, Function.update_idem]
  rw [← hlock]
  exact h

/-- A put that finds a clean element and is not disturbed. -/
theorem write_alone {msg : Bytes} {slot : Nat} {s' : LoggerState}
    (hthread : s.threads t = .write msg slot) (hclean : (s.elem slot).status = .clean)
    (hs' : s' = { s with
      logger := { s.logger with
        logs := Function.update s.logger.logs slot ((s.logger.logs slot).write msg).2 }
      threads := Function.update s.threads t .idle
      returned := s.returned ++ [msg.take msgSize] }) :
    RunsTo cfg t s s' := by
  have hmarked : (s.advance cfg t (.write msg slot)).threads t = .fill msg slot := by
    simp [advance, hclean, goto]
  have hstored : (((s.advance cfg t (.write msg slot)).advance cfg t
      (.fill msg slot)).advance cfg t (.publish msg slot)) = s' := by
    have hclean' : (s.logger.logs slot).status = .clean := hclean
    simp [hs', advance, goto, setElem, elem, LogElem.write, hclean']
  refine RunsTo.head hthread (by simp) (RunsTo.head hmarked (by simp)
    (RunsTo.head (Function.update_self ..) (by simp) ?_))
  rw [hstored]
  exact RunsTo.refl _

/-- A put that is not disturbed claims the element at the cursor. -/
theorem claim_alone (hquiet : s.logger.Quiet cfg) {msg : Bytes} {s' : LoggerState}
    (h : RunsTo cfg t { s with
      logger := { s.logger with cursor := (s.logger.cursor + 1) % cfg.num }
      threads := Function.update s.threads t (.checkDirty msg s.logger.cursor) } s') :
    RunsTo cfg t (s.goto t (.loadCursor msg)) s' := by
  have havailable : (s.logger.logs s.logger.cursor).available = true := by
    rcases hquiet.status s.logger.cursor with hclean | hdirty
    · simp [LogElem.available, hclean]
    · simp [LogElem.available, hdirty]
  refine RunsTo.head (Function.update_self ..) (by simp) ?_
  refine RunsTo.head (Function.update_self ..) (by simp) ?_
  simp only [advance, goto, if_true]
  refine RunsTo.head (Function.update_self ..) (by simp) ?_
  simp only [advance, goto, elem, havailable, if_true, Function.update_idem]
  exact h

/-- A put that is not disturbed does what the sequential one does. -/
theorem put_alone (hquiet : s.logger.Quiet cfg) (hlock : s.lock = none)
    (hidle : s.threads t = .idle) (msg : Bytes) :
    ∃ l, s.logger.putMessage cfg msg = .ok l ∧
      RunsTo cfg t (s.goto t (.loadCursor msg))
        { s with logger := l, returned := s.returned ++ [msg.take msgSize] } := by
  have hback : Function.update s.threads t .idle = s.threads := by
    rw [← hidle, Function.update_eq_self]
  rcases hquiet.status s.logger.cursor with hclean | hdirty
  · refine ⟨{ s.logger with
      logs := Function.update s.logger.logs s.logger.cursor
        ((s.logger.logs s.logger.cursor).write msg).2
      cursor := (s.logger.cursor + 1) % cfg.num }, ?_, ?_⟩
    · simp [SimpleLogger.putMessage, SimpleLogger.storeMessage, LogElem.available,
        LogElem.needToFlush, hclean]
    · have hskip : (s.logger.logs s.logger.cursor).needToFlush = false := by
        simp [LogElem.needToFlush, hclean]
      apply claim_alone hquiet
      refine RunsTo.head (Function.update_self ..) (by simp) ?_
      simp only [advance, goto, elem, hskip, Bool.false_eq_true, if_false, Function.update_idem]
      apply write_alone (Function.update_self ..)
      case hclean => exact hclean
      case hs' => simp only [Function.update_idem, hback]
  · -- the ring is full: it is flushed first, from the claimed element on
    have hmoved : SimpleLogger.Quiet cfg
        { s.logger with cursor := (s.logger.cursor + 1) % cfg.num } :=
      ⟨Nat.mod_lt _ cfg.num_pos, hquiet.status⟩
    rcases SimpleLogger.flush_eq hmoved hquiet.cursor_lt.le with ⟨-, hempty, hquiet', -⟩
    generalize hflushed : SimpleLogger.flush cfg s.logger.cursor
      { s.logger with cursor := (s.logger.cursor + 1) % cfg.num } = flushed at *
    have hclean : (flushed.logs s.logger.cursor).status = .clean := by
      have hmessage := hempty s.logger.cursor hquiet.cursor_lt
      rcases hquiet'.status s.logger.cursor with hclean | hdirty'
      · exact hclean
      · simp [LogElem.message, hdirty'] at hmessage
    refine ⟨{ flushed with
      logs := Function.update flushed.logs s.logger.cursor
        ((flushed.logs s.logger.cursor).write msg).2 }, ?_, ?_⟩
    · simp [SimpleLogger.putMessage, SimpleLogger.storeMessage, LogElem.available,
        LogElem.needToFlush, hdirty, hflushed]
    · have hneed : (s.logger.logs s.logger.cursor).needToFlush = true := by
        simp [LogElem.needToFlush, hdirty]
      apply claim_alone hquiet
      refine RunsTo.head (Function.update_self ..) (by simp) ?_
      simp only [advance, goto, elem, hneed, if_true, Function.update_idem]
      apply flush_alone (Function.update_self ..) (by exact hlock)
      simp only [hflushed, Function.update_idem]
      apply write_alone (Function.update_self ..)
      case hclean => exact hclean
      case hs' => simp only [Function.update_idem, hback]

/-- A {lit}`flushAll` that is not disturbed does what the sequential one does. -/
theorem flushAll_alone (cfg : LoggerConfig) (hlock : s.lock = none) (hidle : s.threads t = .idle) :
    RunsTo cfg t (s.goto t .loadStart) { s with logger := s.logger.flushAll cfg } := by
  have hback : Function.update s.threads t .idle = s.threads := by
    rw [← hidle, Function.update_eq_self]
  refine RunsTo.head (Function.update_self ..) (by simp) ?_
  simp only [advance, goto, Function.update_idem]
  apply flush_alone (Function.update_self ..) (by exact hlock)
  simp only [Function.update_idem, LogThread.flushed, hback]
  exact RunsTo.refl _

/-- The events of a call by a thread that takes its steps one after the other. -/
def callEvents (t : Nat) (c : LoggerCall) (k : Nat) : List LoggerEvent :=
  match c with
  | .put msg => .put t msg :: List.replicate k (.run t)
  | .flushAll => .flushAll t :: List.replicate k (.run t)

/-- No call is under way, and the logger stands where the messages so far say. -/
structure Settled (cfg : LoggerConfig) (s : LoggerState) (messages : List Bytes) : Prop where
  idle : ∀ t, s.threads t = .idle
  lock_none : s.lock = none
  lost_nil : s.lost = []
  logged : s.logger.Logged cfg messages

/-- One call, made without disturbance, does what the sequential one does. -/
theorem call_alone {messages : List Bytes} (h : s.Settled cfg messages) (t : Nat)
    (c : LoggerCall) :
    ∃ k s', runEvents (step cfg) (callEvents t c k) s = .ok s' ∧
      s.logger.call cfg c = .ok s'.logger ∧
      s'.Settled cfg (messages ++ LoggerCall.messages [c]) := by
  rcases SimpleLogger.call_logged cfg s.logger messages c h.logged with ⟨l, hcall, hlogged⟩
  cases c with
  | put msg =>
      rcases put_alone h.logged.quiet h.lock_none (h.idle t) msg with ⟨l', hput, k, hrun⟩
      have hsame : l' = l := Except.ok.inj (hput.symm.trans hcall)
      subst hsame
      refine ⟨k, { s with logger := l', returned := s.returned ++ [msg.take msgSize] }, ?_, hput,
        ⟨h.idle, h.lock_none, h.lost_nil, hlogged⟩⟩
      simp only [callEvents, runEvents, step, h.idle t]
      exact hrun
  | flushAll =>
      rcases flushAll_alone cfg h.lock_none (h.idle t) with ⟨k, hrun⟩
      have hsame : s.logger.flushAll cfg = l := Except.ok.inj hcall
      subst hsame
      refine ⟨k, { s with logger := s.logger.flushAll cfg }, ?_, rfl,
        ⟨h.idle, h.lock_none, h.lost_nil, hlogged⟩⟩
      simp only [callEvents, runEvents, step, h.idle t]
      exact hrun

theorem settled_create (cfg : LoggerConfig) (firstRevnum : Nat) :
    (create firstRevnum).Settled cfg [] :=
  ⟨fun _ => rfl, rfl, rfl, SimpleLogger.logged_create cfg firstRevnum⟩

/-- The events of calls that do not overlap, with the number of steps of each. -/
def serialEvents (calls : List (Nat × LoggerCall)) (steps : List Nat) : List LoggerEvent :=
  (List.zipWith (fun call k => callEvents call.1 call.2 k) calls steps).flatten

theorem messages_cons (c : LoggerCall) (calls : List LoggerCall) :
    LoggerCall.messages (c :: calls) = LoggerCall.messages [c] ++ LoggerCall.messages calls := by
  cases c with
  | put msg => rfl
  | flushAll => rfl

/-- Calls one after the other; the induction is on the calls. -/
theorem calls_alone (calls : List (Nat × LoggerCall)) {messages : List Bytes}
    (h : s.Settled cfg messages) :
    ∃ steps s', steps.length = calls.length ∧
      runEvents (step cfg) (serialEvents calls steps) s = .ok s' ∧
      runEvents (SimpleLogger.call cfg) (calls.map Prod.snd) s.logger = .ok s'.logger ∧
      s'.Settled cfg (messages ++ LoggerCall.messages (calls.map Prod.snd)) := by
  induction calls generalizing s messages with
  | nil =>
      refine ⟨[], s, rfl, rfl, rfl, ?_⟩
      rw [List.map_nil, LoggerCall.messages, List.append_nil]
      exact h
  | cons call calls ih =>
      rcases call_alone h call.1 call.2 with ⟨k, mid, hfirst, hcall, hmid⟩
      rcases ih hmid with ⟨steps, s', hlength, hrest, hcalls, hsettled⟩
      refine ⟨k :: steps, s', by rw [List.length_cons, List.length_cons, hlength], ?_, ?_, ?_⟩
      · rw [serialEvents, List.zipWith_cons_cons, List.flatten_cons,
          runEvents_append_of_ok hfirst]
        exact hrest
      · rw [List.map_cons]
        simp only [runEvents, hcall]
        exact hcalls
      · rw [List.map_cons, messages_cons, ← List.append_assoc]
        exact hsettled

end LoggerState

/-- Whichever threads make them, calls that do not overlap all return, after some
number of steps each, and leave the logger exactly as one thread making the same
calls does: with the same ring, the same closed and current files, and the same
files handed over for compression.  No message is given up, and the log files from
the first to the current one, followed by the ring from the cursor on, are the
messages in the order of the calls. -/
theorem undisturbed_calls_keep_order (cfg : LoggerConfig) (firstRevnum : Nat)
    (calls : List (Nat × LoggerCall)) :
    ∃ steps s, steps.length = calls.length ∧
      runEvents (LoggerState.step cfg) (LoggerState.serialEvents calls steps)
        (.create firstRevnum) = .ok s ∧
      runEvents (SimpleLogger.call cfg) (calls.map Prod.snd) (.create firstRevnum) =
        .ok s.logger ∧
      (∀ t, s.threads t = .idle) ∧ s.lock = none ∧ s.lost = [] ∧
      s.logger.closed.flatten ++ s.logger.current ++ s.logger.pending cfg =
        LoggerCall.messages (calls.map Prod.snd) := by
  rcases LoggerState.calls_alone calls (LoggerState.settled_create cfg firstRevnum) with
    ⟨steps, s, hlength, hrun, hcalls, hsettled⟩
  exact ⟨steps, s, hlength, hrun, hcalls, hsettled.idle, hsettled.lock_none, hsettled.lost_nil,
    hsettled.logged.messages_eq⟩

end ReplicatedSplinterDB
