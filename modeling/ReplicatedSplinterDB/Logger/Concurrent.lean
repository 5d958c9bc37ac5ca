import ReplicatedSplinterDB.Foundation.Ownership
import ReplicatedSplinterDB.Logger.Threads

/-!
# The logger under many threads

Whatever the interleaving, the status of an element says who may touch it: an
element that is being filled or written out belongs to one thread, and the lock
of the flusher belongs to the thread that sweeps the ring.  The contents of the
elements are not atomic, so this is what makes their use safe.

Main results:

- Theorem {lit}`LoggerState.advance_sound`: every step keeps the ownership of the
  elements and of the lock, and the account of the messages.
- Theorem {lit}`concurrent_logger_accounts_for_messages`: over every interleaving,
  no element is worked on by two threads, one thread flushes at a time, and every
  message is in a file, in the ring, given up or still on its way.
-/

namespace ReplicatedSplinterDB

open Foundation

namespace LoggerState

/-! ## The invariant -/

/-- The claims on elements and on the lock are true, and every message of a put
that has returned is accounted for. -/
structure Sound (cfg : LoggerConfig) (s : LoggerState) : Prop where
  cursor_lt : s.logger.cursor < cfg.num
  within : ∀ t, (s.threads t).Within cfg.num
  owned : Owned (LogThread.holds ∘ s.threads) (LogElem.status ∘ s.logger.logs)
  lock_iff : ∀ t, (s.threads t).holdsLock = true ↔ s.lock = some t
  filled : ∀ t slot ctx, (s.threads t).filled = some (slot, ctx) → (s.elem slot).ctx = ctx
  handed : s.logger.Handed cfg
  accounted : s.returned.Perm (s.logger.written ++ s.unwritten cfg ++ s.lost)

variable {cfg : LoggerConfig} {s : LoggerState} {t : Nat}

theorem sound_create (cfg : LoggerConfig) (firstRevnum : Nat) :
    (create firstRevnum).Sound cfg := by
  have hnone : (create firstRevnum).unwritten cfg = [] := by
    rw [unwritten, List.filterMap_eq_nil_iff]
    intro pos _
    rfl
  refine ⟨cfg.num_pos, fun _ => trivial, ⟨?_, ?_⟩, ?_, ?_,
    SimpleLogger.handed_create cfg firstRevnum, ?_⟩
  · intro _ _ _ hclaim
    cases hclaim
  · intro _ _ _ _ _ hclaim
    cases hclaim
  · intro t
    simp [create, LogThread.holdsLock]
  · intro _ _ _ hfilled
    cases hfilled
  · rw [hnone]
    exact List.Perm.nil

/-- No claim is made on an element that nobody works on. -/
theorem Sound.free (h : s.Sound cfg) {pos : Nat} (havailable : (s.elem pos).available = true)
    (t' : Nat) (status : ElemStatus) : (s.threads t').holds ≠ some (pos, status) := by
  intro hholds
  have hstatus : (s.elem pos).status = status := h.owned.state_eq t' pos status hholds
  rw [LogElem.available, hstatus] at havailable
  cases hthread : s.threads t' <;> simp [hthread, LogThread.holds] at hholds
  all_goals
    rw [← hholds.2] at havailable
    cases havailable

/-- The element that is being written to the file has the flusher's mark. -/
theorem Sound.status_of_emitting (h : s.Sound cfg) {pos : Nat} (hpos : s.emitting = some pos) :
    (s.elem pos).status = .flushing := by
  rcases Option.bind_eq_some_iff.mp hpos with ⟨t', -, hemits⟩
  cases hthread : s.threads t' <;> simp [hthread, LogThread.emits] at hemits
  case emit after pos' rest =>
    subst hemits
    exact h.owned.state_eq t' pos' .flushing (by simp [hthread, LogThread.holds])

/-- Moving a thread does not change what is being written, unless the thread
starts or ends writing. -/
theorem emitting_update {next : LogThread} (hemits : next.emits = (s.threads t).emits) :
    s.lock.bind (LogThread.emits ∘ Function.update s.threads t next) = s.emitting := by
  rw [Function.comp_update, hemits]
  exact congrArg s.lock.bind (Function.update_eq_self (f := LogThread.emits ∘ s.threads) t)

/-- The messages in no file depend on the elements and on the one being
written. -/
theorem unwritten_congr {s' : LoggerState}
    (h : ∀ pos < cfg.num, s'.unwrittenAt pos = s.unwrittenAt pos) :
    s'.unwritten cfg = s.unwritten cfg := by
  apply List.filterMap_congr
  intro pos hpos
  exact h pos (List.mem_range.mp hpos)

/-! ### Moving one thread -/

variable {next : LogThread}

theorem Sound.within_update (h : s.Sound cfg) (hnext : next.Within cfg.num) (t' : Nat) :
    (Function.update s.threads t next t').Within cfg.num :=
  (Function.forall_update_iff _ (p := fun _ st => LogThread.Within cfg.num st)).mpr
    ⟨hnext, fun t' _ => h.within t'⟩ t'

theorem Sound.owned_update (h : s.Sound cfg) (hholds : next.holds = (s.threads t).holds) :
    Owned (LogThread.holds ∘ Function.update s.threads t next)
      (LogElem.status ∘ s.logger.logs) := by
  rw [Function.comp_update, hholds]
  exact (Function.update_eq_self (f := LogThread.holds ∘ s.threads) t).symm ▸ h.owned

theorem Sound.lock_iff_update (h : s.Sound cfg)
    (hlock : next.holdsLock = (s.threads t).holdsLock) (t' : Nat) :
    (Function.update s.threads t next t').holdsLock = true ↔ s.lock = some t' :=
  (Function.forall_update_iff _
    (p := fun t' st => LogThread.holdsLock st = true ↔ s.lock = some t')).mpr
    ⟨hlock ▸ h.lock_iff t, fun t' _ => h.lock_iff t'⟩ t'

theorem Sound.filled_update (h : s.Sound cfg) {logs : Nat → LogElem}
    (hctx : ∀ pos, (logs pos).ctx = (s.elem pos).ctx) (hnext : next.filled = none)
    (t' slot : Nat) (ctx : Bytes)
    (hfilled : (Function.update s.threads t next t').filled = some (slot, ctx)) :
    (logs slot).ctx = ctx := by
  by_cases hself : t' = t
  · subst hself
    rw [Function.update_self, hnext] at hfilled
    cases hfilled
  · rw [Function.update_of_ne hself] at hfilled
    rw [hctx]
    exact h.filled t' slot ctx hfilled

/-! ### Steps that change no element -/

/-- A thread moves on; at most the cursor moves with it, or a message is given
up. -/
theorem Sound.moves (h : s.Sound cfg) {cursor : Nat} {returned lost : List Bytes}
    (hcursor : cursor < cfg.num) (hwithin : next.Within cfg.num)
    (hholds : next.holds = (s.threads t).holds)
    (hlock : next.holdsLock = (s.threads t).holdsLock)
    (hemits : next.emits = (s.threads t).emits) (hfilled : next.filled = none)
    (haccounted : returned.Perm (s.logger.written ++ s.unwritten cfg ++ lost)) :
    Sound cfg { s with
      logger := { s.logger with cursor := cursor }
      threads := Function.update s.threads t next
      returned := returned
      lost := lost } := by
  refine ⟨hcursor, h.within_update hwithin, h.owned_update hholds, h.lock_iff_update hlock,
    h.filled_update (fun _ => rfl) hfilled, h.handed, ?_⟩
  have hsame : LoggerState.unwritten cfg { s with
      logger := { s.logger with cursor := cursor }
      threads := Function.update s.threads t next
      returned := returned
      lost := lost } = s.unwritten cfg := by
    apply unwritten_congr
    intro pos _
    simp only [unwrittenAt, elem, emitting, emitting_update hemits]
    rfl
  rw [hsame]
  exact haccounted

/-- A thread takes the lock of the flusher. -/
theorem Sound.takes_lock (h : s.Sound cfg) (hfree : s.lock = none)
    {after : Option (Bytes × Nat)} {rest : List Nat} (hthread : (s.threads t).holds = none)
    (hafter : ∀ put ∈ after, put.2 < cfg.num) (hrest : ∀ pos ∈ rest, pos < cfg.num) :
    Sound cfg ({ s with lock := some t }.goto t (.sweep after rest)) := by
  refine ⟨h.cursor_lt, h.within_update ⟨hafter, hrest⟩, h.owned_update hthread.symm, ?_,
    h.filled_update (fun _ => rfl) rfl, h.handed, ?_⟩
  · apply (Function.forall_update_iff _
      (p := fun t' st => LogThread.holdsLock st = true ↔ some t = some t')).mpr
    refine ⟨by simp [LogThread.holdsLock], ?_⟩
    intro t' hne
    have hother := h.lock_iff t'
    rw [hfree] at hother
    constructor
    · intro hlocks
      cases hother.mp hlocks
    · intro hsome
      cases hsome
      exact absurd rfl hne
  · -- nothing is being written before, and nothing is after
    have hbefore : s.emitting = none := by
      rw [emitting, hfree]
      rfl
    have hnow : ({ s with lock := some t }.goto t (.sweep after rest)).emitting = none := by
      simp [emitting, goto, LogThread.emits]
    have hsame : LoggerState.unwritten cfg ({ s with lock := some t }.goto t (.sweep after rest)) =
        s.unwritten cfg := by
      apply unwritten_congr
      intro pos _
      rw [unwrittenAt, unwrittenAt, hbefore, hnow]
      rfl
    rw [hsame]
    exact h.accounted

/-- The flusher closes the file if it has to, and gives the lock back. -/
theorem Sound.gives_lock_back (h : s.Sound cfg) {after : Option (Bytes × Nat)}
    (hthread : s.threads t = .sweep after []) :
    Sound cfg ({ s with logger := s.logger.rotateFile cfg, lock := none }.goto t
      (.flushed after)) := by
  have hsweep := h.within t
  rw [hthread] at hsweep
  have hlocked : s.lock = some t := (h.lock_iff t).mp (by rw [hthread]; rfl)
  have hnext : (LogThread.flushed after).Within cfg.num ∧
      (LogThread.flushed after).holds = none ∧ (LogThread.flushed after).holdsLock = false ∧
      (LogThread.flushed after).filled = none := by
    cases after with
    | none => exact ⟨trivial, rfl, rfl, rfl⟩
    | some put => exact ⟨hsweep.1 put rfl, rfl, rfl, rfl⟩
  rcases hnext with ⟨hnextWithin, hnextHolds, hnextLock, hnextFilled⟩
  rcases SimpleLogger.logs_rotateFile cfg s.logger with ⟨hlogs, hcursor⟩
  refine ⟨hcursor.symm ▸ h.cursor_lt, h.within_update hnextWithin, ?_, ?_,
    h.filled_update (fun pos => ?_) hnextFilled, h.handed.rotateFile, ?_⟩
  · dsimp only [goto]
    rw [hlogs]
    exact h.owned_update (by rw [hnextHolds, hthread]; rfl)
  · apply (Function.forall_update_iff _
      (p := fun t' st => LogThread.holdsLock st = true ↔ none = some t')).mpr
    refine ⟨by simp [hnextLock], ?_⟩
    intro t' hne
    have hother := h.lock_iff t'
    rw [hlocked, Option.some.injEq] at hother
    constructor
    · intro hlocks
      exact absurd (hother.mp hlocks).symm hne
    · intro hsome
      cases hsome
  · simp only [elem, goto, hlogs]
  · have hbefore : s.emitting = none := by
      rw [emitting, hlocked]
      simp [hthread, LogThread.emits]
    have hsame : LoggerState.unwritten cfg
        ({ s with logger := s.logger.rotateFile cfg, lock := none }.goto t (.flushed after)) =
        s.unwritten cfg := by
      apply unwritten_congr
      intro pos _
      rw [unwrittenAt, unwrittenAt, hbefore]
      simp only [elem, goto, emitting, hlogs]
      rfl
    rw [hsame]
    dsimp only [goto]
    rw [SimpleLogger.written_rotateFile]
    exact h.accounted

/-- The flusher writes the message of its element to the file. -/
theorem Sound.writes_record (h : s.Sound cfg) {after : Option (Bytes × Nat)} {pos : Nat}
    {rest : List Nat} (hthread : s.threads t = .emit after pos rest) :
    Sound cfg ({ s with logger := { s.logger with
      current := s.logger.current ++ [(s.elem pos).ctx] } }.goto t (.release after pos rest)) := by
  have hemit := h.within t
  rw [hthread] at hemit
  rcases hemit with ⟨hafter, hpositions⟩
  have hpos : pos < cfg.num := hpositions pos List.mem_cons_self
  have hrest : ∀ p ∈ rest, p < cfg.num := fun p hp => hpositions p (List.mem_cons_of_mem pos hp)
  have hlocked : s.lock = some t := (h.lock_iff t).mp (by rw [hthread]; rfl)
  have hbefore : s.emitting = some pos := by
    rw [emitting, hlocked]
    simp [hthread, LogThread.emits]
  have hstatus := h.status_of_emitting hbefore
  refine ⟨h.cursor_lt, h.within_update ⟨hafter, hrest⟩, h.owned_update (by rw [hthread]; rfl),
    h.lock_iff_update (by rw [hthread]; rfl), h.filled_update (fun _ => rfl) rfl, h.handed, ?_⟩
  generalize hnext : ({ s with logger := { s.logger with
      current := s.logger.current ++ [(s.elem pos).ctx] } }.goto t (.release after pos rest)) =
      s'
  have hafterwards : s'.emitting = none := by
    rw [← hnext]
    simp [emitting, goto, hlocked, LogThread.emits]
  have helem : ∀ p, s'.elem p = s.elem p := by
    intro p
    rw [← hnext]
    rfl
  -- the message leaves the ring and enters the file
  have hmoved : (s.unwritten cfg).Perm ((s.elem pos).ctx :: s'.unwritten cfg) := by
    apply perm_filterMap_of_eq_off List.nodup_range (List.mem_range.mpr hpos)
    · simp [unwrittenAt, hafterwards, helem, hstatus]
    · simp [unwrittenAt, hbefore]
    · intro p hp
      have hp' : ¬ pos = p := fun heq => hp heq.symm
      simp [unwrittenAt, hbefore, hafterwards, helem, hp']
  have hwritten : s'.logger.written = s.logger.written ++ [(s.elem pos).ctx] := by
    rw [← hnext]
    simp [SimpleLogger.written, goto]
  have hrecords : s'.returned = s.returned ∧ s'.lost = s.lost := by
    rw [← hnext]
    exact ⟨rfl, rfl⟩
  rw [hrecords.1, hrecords.2, hwritten]
  refine h.accounted.trans ?_
  simp only [List.append_assoc, List.singleton_append]
  exact List.Perm.append_left _ (hmoved.append_right _)

/-! ### Steps that change one element -/

/-- The parts of the invariant that a change of one element leaves to show. -/
theorem Sound.sets_elem (h : s.Sound cfg) {pos : Nat} {e : LogElem} (returned : List Bytes)
    (hwithin : next.Within cfg.num)
    (howned : Owned (Function.update (LogThread.holds ∘ s.threads) t next.holds)
      (Function.update (LogElem.status ∘ s.logger.logs) pos e.status))
    (hlock : next.holdsLock = (s.threads t).holdsLock)
    (hfilled : ∀ t' slot ctx, (Function.update s.threads t next t').filled = some (slot, ctx) →
      (Function.update s.logger.logs pos e slot).ctx = ctx)
    (haccounted : returned.Perm (s.logger.written ++
      (({ s with returned := returned }.setElem pos e).goto t next).unwritten cfg ++ s.lost)) :
    Sound cfg (({ s with returned := returned }.setElem pos e).goto t next) := by
  refine ⟨h.cursor_lt, h.within_update hwithin, ?_, h.lock_iff_update hlock, hfilled, h.handed,
    haccounted⟩
  dsimp only [goto, setElem]
  rw [Function.comp_update, Function.comp_update]
  exact howned

/-- Giving an element another status does not change its contents. -/
theorem ctx_update_status (s : LoggerState) (pos : Nat) (status : ElemStatus) (p : Nat) :
    (Function.update s.logger.logs pos ⟨(s.elem pos).ctx, status⟩ p).ctx = (s.elem p).ctx := by
  by_cases hp : p = pos
  · subst hp
    rw [Function.update_self]
  · rw [Function.update_of_ne hp]
    rfl

/-- What a change of one element does to the messages in no file, as far as the
other elements go. -/
theorem unwrittenAt_setElem_of_ne {pos p : Nat} (hp : p ≠ pos) (e : LogElem)
    (returned : List Bytes)
    (hemitting : (({ s with returned := returned }.setElem pos e).goto t next).emitting = some p ↔
      s.emitting = some p) :
    (({ s with returned := returned }.setElem pos e).goto t next).unwrittenAt p =
      s.unwrittenAt p := by
  have helem : (({ s with returned := returned }.setElem pos e).goto t next).elem p = s.elem p := by
    simp [elem, goto, setElem, hp]
  simp only [unwrittenAt, helem, hemitting]

/-- Setting an element does not change what is being written. -/
theorem emitting_setElem (pos : Nat) (e : LogElem) (returned : List Bytes)
    (hemits : next.emits = (s.threads t).emits) :
    (({ s with returned := returned }.setElem pos e).goto t next).emitting = s.emitting :=
  emitting_update hemits

theorem elem_setElem_self (s : LoggerState) (t pos : Nat) (next : LogThread) (e : LogElem)
    (returned : List Bytes) :
    (({ s with returned := returned }.setElem pos e).goto t next).elem pos = e := by
  simp [elem, goto, setElem]

/-- The flusher takes a dirty element. -/
theorem Sound.begins_flush (h : s.Sound cfg) {after : Option (Bytes × Nat)} {pos : Nat}
    {rest : List Nat} (hthread : s.threads t = .sweep after (pos :: rest))
    (hdirty : (s.elem pos).status = .dirty) :
    Sound cfg ((s.setElem pos ⟨(s.elem pos).ctx, .flushing⟩).goto t (.emit after pos rest)) := by
  have hsweep := h.within t
  rw [hthread] at hsweep
  have hlocked : s.lock = some t := (h.lock_iff t).mp (by rw [hthread]; rfl)
  have hbefore : s.emitting = none := by
    rw [emitting, hlocked]
    simp [hthread, LogThread.emits]
  have hnow : ((s.setElem pos ⟨(s.elem pos).ctx, .flushing⟩).goto t
      (.emit after pos rest)).emitting = some pos := by
    simp [emitting, goto, setElem, hlocked, LogThread.emits]
  apply h.sets_elem s.returned
  case hwithin => exact hsweep
  case howned =>
    apply h.owned.acquire
    exact h.free (by simp [LogElem.available, hdirty])
  case hlock =>
    rw [hthread]
    rfl
  case hfilled => exact h.filled_update (ctx_update_status s pos .flushing) rfl
  case haccounted =>
    have hsame : ((s.setElem pos ⟨(s.elem pos).ctx, .flushing⟩).goto t
        (.emit after pos rest)).unwritten cfg = s.unwritten cfg := by
      apply unwritten_congr
      intro p _
      by_cases hp : p = pos
      · subst hp
        simp [unwrittenAt, hnow, hdirty, elem_setElem_self s t p _ _ s.returned]
      · apply unwrittenAt_setElem_of_ne hp _ s.returned
        have hp' : ¬ pos = p := fun heq => hp heq.symm
        simp [hnow, hbefore, hp']
    exact hsame ▸ h.accounted

/-- The flusher is done with an element. -/
theorem Sound.ends_flush (h : s.Sound cfg) {after : Option (Bytes × Nat)} {pos : Nat}
    {rest : List Nat} (hthread : s.threads t = .release after pos rest) :
    Sound cfg ((s.setElem pos ⟨(s.elem pos).ctx, .clean⟩).goto t (.sweep after rest)) := by
  have hrelease := h.within t
  rw [hthread] at hrelease
  have hholds : (LogThread.holds ∘ s.threads) t = some (pos, .flushing) := by
    rw [Function.comp_apply, hthread]
    rfl
  have hstatus : (s.elem pos).status = .flushing := h.owned.state_eq t pos .flushing hholds
  have hlocked : s.lock = some t := (h.lock_iff t).mp (by rw [hthread]; rfl)
  have hbefore : s.emitting = none := by
    rw [emitting, hlocked]
    simp [hthread, LogThread.emits]
  apply h.sets_elem s.returned
  case hwithin => exact hrelease
  case howned => exact h.owned.release hholds .clean
  case hlock =>
    rw [hthread]
    rfl
  case hfilled => exact h.filled_update (ctx_update_status s pos .clean) rfl
  case haccounted =>
    have hemits : (LogThread.sweep after rest).emits = (s.threads t).emits := by
      rw [hthread]
      rfl
    have hsame : ((s.setElem pos ⟨(s.elem pos).ctx, .clean⟩).goto t
        (.sweep after rest)).unwritten cfg = s.unwritten cfg := by
      apply unwritten_congr
      intro p _
      have hnow := emitting_setElem pos ⟨(s.elem pos).ctx, .clean⟩ s.returned hemits
      by_cases hp : p = pos
      · subst hp
        simp [unwrittenAt, hnow, hbefore, hstatus, elem_setElem_self s t p _ _ s.returned]
      · exact unwrittenAt_setElem_of_ne hp _ s.returned (by rw [hnow])
    exact hsame ▸ h.accounted

/-- Storing in an element that the flusher does not touch leaves the messages in
no file alone as long as the element is not dirty. -/
theorem Sound.unwritten_setElem (h : s.Sound cfg) {pos : Nat} {e : LogElem}
    (returned : List Bytes) (hemits : next.emits = (s.threads t).emits)
    (hbefore : (s.elem pos).status = .clean ∨ (s.elem pos).status = .writing)
    (hnow : e.status ≠ .dirty) :
    (({ s with returned := returned }.setElem pos e).goto t next).unwritten cfg =
      s.unwritten cfg := by
  have hother : s.emitting ≠ some pos := by
    intro hpos
    rw [h.status_of_emitting hpos] at hbefore
    rcases hbefore with hclean | hwriting
    · cases hclean
    · cases hwriting
  have hnotDirty : (s.elem pos).status ≠ .dirty := by
    rcases hbefore with hclean | hwriting
    · simp [hclean]
    · simp [hwriting]
  have hemitting := emitting_setElem pos e returned hemits
  apply unwritten_congr
  intro p _
  by_cases hp : p = pos
  · subst hp
    simp [unwrittenAt, hemitting, elem_setElem_self s t p next e returned, hnow, hother, hnotDirty]
  · exact unwrittenAt_setElem_of_ne hp _ _ (by rw [hemitting])

/-- A put takes a clean element. -/
theorem Sound.begins_write (h : s.Sound cfg) {msg : Bytes} {slot : Nat}
    (hthread : s.threads t = .write msg slot) (hclean : (s.elem slot).status = .clean) :
    Sound cfg ((s.setElem slot ⟨(s.elem slot).ctx, .writing⟩).goto t (.fill msg slot)) := by
  have hwrite := h.within t
  rw [hthread] at hwrite
  apply h.sets_elem s.returned
  case hwithin => exact hwrite
  case howned =>
    apply h.owned.acquire
    exact h.free (by simp [LogElem.available, hclean])
  case hlock =>
    rw [hthread]
    rfl
  case hfilled => exact h.filled_update (ctx_update_status s slot .writing) rfl
  case haccounted =>
    rw [h.unwritten_setElem s.returned (by rw [hthread]; rfl) (.inl hclean) (by simp)]
    exact h.accounted

/-- A put copies its message. -/
theorem Sound.copies_message (h : s.Sound cfg) {msg : Bytes} {slot : Nat}
    (hthread : s.threads t = .fill msg slot) :
    Sound cfg ((s.setElem slot ⟨msg.take msgSize, (s.elem slot).status⟩).goto t
      (.publish msg slot)) := by
  have hfill := h.within t
  rw [hthread] at hfill
  have hholds : (LogThread.holds ∘ s.threads) t = some (slot, .writing) := by
    rw [Function.comp_apply, hthread]
    rfl
  have hstatus : (s.elem slot).status = .writing := h.owned.state_eq t slot .writing hholds
  apply h.sets_elem s.returned
  case hwithin => exact hfill
  case howned =>
    rw [hstatus]
    exact h.owned.change hholds .writing
  case hlock =>
    rw [hthread]
    rfl
  case hfilled =>
    intro t' slot' ctx hfilled
    by_cases hself : t' = t
    · subst hself
      rw [Function.update_self] at hfilled
      cases hfilled
      rw [Function.update_self]
    · rw [Function.update_of_ne hself] at hfilled
      -- the other thread has filled an element of its own
      have hne : slot' ≠ slot := by
        intro heq
        subst heq
        apply hself
        cases hother : s.threads t' <;> simp [hother, LogThread.filled] at hfilled
        case publish msg' slot' =>
          rcases hfilled with ⟨rfl, -⟩
          exact h.owned.unique t' t slot' .writing .writing (by simp [hother, LogThread.holds])
            hholds
      rw [Function.update_of_ne hne]
      exact h.filled t' slot' ctx hfilled
  case haccounted =>
    rw [h.unwritten_setElem s.returned (by rw [hthread]; rfl) (.inr hstatus) (by simp [hstatus])]
    exact h.accounted

/-- A put makes its message visible and returns. -/
theorem Sound.publishes (h : s.Sound cfg) {msg : Bytes} {slot : Nat}
    (hthread : s.threads t = .publish msg slot) :
    Sound cfg (({ s with returned := s.returned ++ [msg.take msgSize] }.setElem slot
      ⟨(s.elem slot).ctx, .dirty⟩).goto t .idle) := by
  have hslot := h.within t
  rw [hthread] at hslot
  have hholds : (LogThread.holds ∘ s.threads) t = some (slot, .writing) := by
    rw [Function.comp_apply, hthread]
    rfl
  have hstatus : (s.elem slot).status = .writing := h.owned.state_eq t slot .writing hholds
  have hctx : (s.elem slot).ctx = msg.take msgSize :=
    h.filled t slot _ (by rw [hthread]; rfl)
  apply h.sets_elem
  case hwithin => trivial
  case howned => exact h.owned.release hholds .dirty
  case hlock =>
    rw [hthread]
    rfl
  case hfilled => exact h.filled_update (ctx_update_status s slot .dirty) rfl
  case haccounted =>
    generalize hreturned : s.returned ++ [msg.take msgSize] = returned
    have hother : s.emitting ≠ some slot := by
      intro hslot
      rw [h.status_of_emitting hslot] at hstatus
      cases hstatus
    have hemitting := emitting_setElem slot ⟨(s.elem slot).ctx, .dirty⟩ returned
      (show LogThread.idle.emits = (s.threads t).emits by rw [hthread]; rfl)
    have hadded : ((({ s with returned := returned }.setElem slot
        ⟨(s.elem slot).ctx, .dirty⟩).goto t .idle).unwritten cfg).Perm
        (msg.take msgSize :: s.unwritten cfg) := by
      apply perm_filterMap_of_eq_off List.nodup_range (List.mem_range.mpr hslot)
      · simp [unwrittenAt, hstatus, hother]
      · simp [unwrittenAt, elem_setElem_self s t slot _ _ returned, hctx]
      · intro p hp
        exact unwrittenAt_setElem_of_ne hp _ _ (by rw [hemitting])
    have hgoal : (s.returned ++ [msg.take msgSize]).Perm
        (s.logger.written ++ (msg.take msgSize :: s.unwritten cfg) ++ s.lost) := by
      have hlast := List.perm_append_singleton (msg.take msgSize) s.returned
      refine hlast.trans ((h.accounted.cons _).trans ?_)
      simp only [List.append_assoc, List.cons_append]
      exact List.perm_middle.symm
    rw [← hreturned]
    refine hgoal.trans ?_
    rw [hreturned]
    exact (hadded.symm.append_left _).append_right _

/-! ### Steps and runs -/

/-- A thread moves on and nothing else changes. -/
theorem Sound.goto (h : s.Sound cfg) (hwithin : next.Within cfg.num)
    (hholds : next.holds = (s.threads t).holds)
    (hlock : next.holdsLock = (s.threads t).holdsLock)
    (hemits : next.emits = (s.threads t).emits) (hfilled : next.filled = none) :
    (s.goto t next).Sound cfg :=
  h.moves h.cursor_lt hwithin hholds hlock hemits hfilled h.accounted

/-- A put whose flush was refused goes on to wait; {lit}`flushAll` returns. -/
theorem Sound.not_flushed (h : s.Sound cfg) {after : Option (Bytes × Nat)} {start : Nat}
    (hthread : s.threads t = .tryLock after start) :
    (s.goto t (.notFlushed after)).Sound cfg := by
  have htry := h.within t
  rw [hthread] at htry
  cases after with
  | none =>
      exact h.goto trivial (by rw [hthread]; rfl) (by rw [hthread]; rfl) (by rw [hthread]; rfl) rfl
  | some put =>
      exact h.goto (htry.2 put rfl) (by rw [hthread]; rfl) (by rw [hthread]; rfl)
        (by rw [hthread]; rfl) rfl

/-- Every step of a thread keeps the invariant. -/
theorem advance_sound (h : s.Sound cfg) {state : LogThread} (hthread : s.threads t = state) :
    (s.advance cfg t state).Sound cfg := by
  have hwithin := h.within t
  rw [hthread] at hwithin
  -- a thread that holds nothing before and after only has to stay in the ring
  have hmove : ∀ next : LogThread, next.Within cfg.num → next.holds = state.holds →
      next.holdsLock = state.holdsLock → next.emits = state.emits → next.filled = none →
      (s.goto t next).Sound cfg := by
    intro next hnext hholds hlock hemits hfilled
    subst hthread
    exact h.goto hnext hholds hlock hemits hfilled
  cases state with
  | idle => exact h
  | loadCursor msg => exact hmove _ trivial rfl rfl rfl rfl
  | casCursor msg expected =>
      simp only [advance]
      split
      · rename_i hcursor
        have hexpected : expected < cfg.num := hcursor ▸ h.cursor_lt
        exact h.moves (Nat.mod_lt _ cfg.num_pos) hexpected (by rw [hthread]; rfl)
          (by rw [hthread]; rfl) (by rw [hthread]; rfl) rfl h.accounted
      · exact hmove _ trivial rfl rfl rfl rfl
  | waitAvailable msg slot =>
      simp only [advance]
      split
      · exact hmove _ hwithin rfl rfl rfl rfl
      · exact h
  | checkDirty msg slot =>
      simp only [advance]
      split
      · refine hmove _ ⟨hwithin, ?_⟩ rfl rfl rfl rfl
        intro put hput
        cases hput
        exact hwithin
      · exact hmove _ hwithin rfl rfl rfl rfl
  | loadStart =>
      refine hmove _ ⟨h.cursor_lt, ?_⟩ rfl rfl rfl rfl
      intro put hput
      cases hput
  | tryLock after start =>
      simp only [advance]
      split
      · rename_i hfree
        refine h.takes_lock hfree (by rw [hthread]; rfl) hwithin.2 ?_
        intro pos hpos
        exact (mem_sweepOrder (Nat.le_of_lt hwithin.1)).mp hpos
      · exact h.not_flushed hthread
  | sweep after rest =>
      cases rest with
      | nil => exact h.gives_lock_back hthread
      | cons pos rest =>
          simp only [advance]
          split
          · rename_i hdirty
            exact h.begins_flush hthread hdirty
          · have hrest : ∀ p ∈ rest, p < cfg.num :=
              fun p hp => hwithin.2 p (List.mem_cons_of_mem pos hp)
            exact hmove _ ⟨hwithin.1, hrest⟩ rfl rfl rfl rfl
  | emit after pos rest => exact h.writes_record hthread
  | release after pos rest => exact h.ends_flush hthread
  | waitFlushed msg slot =>
      simp only [advance]
      split
      · exact h
      · exact hmove _ hwithin rfl rfl rfl rfl
  | write msg slot =>
      simp only [advance]
      split
      · rename_i hclean
        exact h.begins_write hthread hclean
      · refine h.moves h.cursor_lt trivial (by rw [hthread]; rfl) (by rw [hthread]; rfl)
          (by rw [hthread]; rfl) rfl ?_
        rw [← List.append_assoc]
        exact h.accounted.append_right _
  | fill msg slot => exact h.copies_message hthread
  | publish msg slot => exact h.publishes hthread

theorem step_sound (h : s.Sound cfg) {s' : LoggerState} {e : LoggerEvent}
    (hstep : s.step cfg e = .ok s') : s'.Sound cfg := by
  rcases step_cases hstep with ⟨t, msg, -, hidle, rfl⟩ | ⟨t, -, hidle, rfl⟩ | ⟨t, -, rfl⟩ |
    ⟨t, after, start, -, hthread, rfl⟩
  · exact h.goto trivial (by rw [hidle]; rfl) (by rw [hidle]; rfl) (by rw [hidle]; rfl) rfl
  · exact h.goto trivial (by rw [hidle]; rfl) (by rw [hidle]; rfl) (by rw [hidle]; rfl) rfl
  · exact advance_sound h rfl
  · exact h.not_flushed hthread

/-! ### Puts under way -/

/-- The puts under way when one thread has moved within its call. -/
theorem underWay_update_same {n : Nat} {threads : Nat → LogThread}
    (hthreads : threads = Function.update s.threads t next)
    (hsame : next.inFlight = (s.threads t).inFlight) :
    (List.range n).filterMap (LogThread.inFlight ∘ threads) = s.underWay n := by
  rw [hthreads, Function.comp_update, hsame]
  exact congrArg (List.filterMap · (List.range n))
    (Function.update_eq_self (f := LogThread.inFlight ∘ s.threads) t)

/-- The puts under way when one thread starts a put or returns from it. -/
theorem underWay_update_perm {n : Nat} (ht : t < n) {threads threads' : Nat → LogThread}
    {msg : Bytes} (hnone : (threads t).inFlight = none) (hsome : next.inFlight = some msg)
    (hthreads : threads' = Function.update threads t next) :
    ((List.range n).filterMap (LogThread.inFlight ∘ threads')).Perm
      (msg :: (List.range n).filterMap (LogThread.inFlight ∘ threads)) := by
  apply perm_filterMap_of_eq_off List.nodup_range (List.mem_range.mpr ht) hnone
  · rw [hthreads, Function.comp_apply, Function.update_self]
    exact hsome
  · intro t' hne
    rw [hthreads, Function.comp_apply, Function.update_of_ne hne]
    rfl

/-- A put that has been started is under way or has returned. -/
theorem step_underWay {n : Nat} {s' : LoggerState} {e : LoggerEvent}
    (hstep : s.step cfg e = .ok s') (ht : e.thread < n) :
    (s'.returned ++ s'.underWay n).Perm (s.returned ++ s.underWay n ++ e.message.toList) := by
  rcases step_cases hstep with ⟨t, msg, rfl, hidle, rfl⟩ | ⟨t, rfl, hidle, rfl⟩ | ⟨t, rfl, rfl⟩ |
    ⟨t, after, start, rfl, hthread, rfl⟩
  · have hlt : t < n := ht
    have hadded : ((s.goto t (.loadCursor msg)).underWay n).Perm
        (msg.take msgSize :: s.underWay n) :=
      underWay_update_perm hlt (by rw [hidle]; rfl) rfl rfl
    rw [List.append_assoc]
    exact (hadded.trans (List.perm_append_singleton _ _).symm).append_left _
  · have hsame : (s.goto t .loadStart).underWay n = s.underWay n :=
      underWay_update_same rfl (by rw [hidle]; rfl)
    rw [hsame]
    exact List.Perm.of_eq (List.append_nil _).symm
  · rw [show (LoggerEvent.run t).message.toList = [] from rfl, List.append_nil]
    rcases advance_inFlight cfg s t with ⟨next, hthreads, ⟨hsame, hreturned⟩ |
      ⟨msg, hsome, hnone, hreturned⟩⟩
    · rw [hreturned, underWay, underWay_update_same hthreads hsame]
    · -- seen backwards, the put that returns is one that starts
      have hback : s.threads =
          Function.update (s.advance cfg t (s.threads t)).threads t (s.threads t) := by
        rw [hthreads, Function.update_idem, Function.update_eq_self]
      have hlt : t < n := ht
      have hremoved : (s.underWay n).Perm
          (msg :: (s.advance cfg t (s.threads t)).underWay n) := by
        apply underWay_update_perm hlt _ hsome hback
        rw [hthreads, Function.update_self]
        exact hnone
      rw [hreturned, List.append_assoc]
      exact hremoved.symm.append_left _
  · have hsame : (s.goto t (.notFlushed after)).underWay n = s.underWay n := by
      apply underWay_update_same rfl
      rw [hthread]
      cases after <;> rfl
    rw [hsame]
    exact List.Perm.of_eq (List.append_nil _).symm

/-- Over a whole run; the induction is on the events. -/
theorem run_underWay {n : Nat} {events : List LoggerEvent} (hthreads : ∀ e ∈ events, e.thread < n)
    {s s' : LoggerState} (hrun : runEvents (step cfg) events s = .ok s') :
    (s'.returned ++ s'.underWay n).Perm
      (s.returned ++ s.underWay n ++ events.filterMap LoggerEvent.message) := by
  induction events generalizing s with
  | nil =>
      cases hrun
      exact List.Perm.of_eq (List.append_nil _).symm
  | cons e events ih =>
      simp only [runEvents] at hrun
      cases hnext : s.step cfg e with
      | error x =>
          rw [hnext] at hrun
          cases hrun
      | ok next =>
          rw [hnext] at hrun
          have hlater := ih (fun e' he' => hthreads e' (List.mem_cons_of_mem e he')) hrun
          have hfirst := step_underWay hnext (hthreads e List.mem_cons_self)
          refine hlater.trans ((hfirst.append_right _).trans (List.Perm.of_eq ?_))
          rw [List.append_assoc]
          congr 1
          cases hmessage : e.message with
          | none => simp [hmessage]
          | some msg => simp [hmessage]

/-- Every message put is accounted for. -/
theorem run_accounted {n : Nat} {events : List LoggerEvent} (hthreads : ∀ e ∈ events, e.thread < n)
    {firstRevnum : Nat} {s : LoggerState}
    (hrun : runEvents (step cfg) events (create firstRevnum) = .ok s) :
    (events.filterMap LoggerEvent.message).Perm
      (s.logger.closed.flatten ++ s.logger.current ++ s.unwritten cfg ++ s.lost ++
        s.underWay n) := by
  have hsound : s.Sound cfg := runEvents_invariant (fun _ _ _ h hstep => step_sound h hstep)
    (sound_create cfg firstRevnum) hrun
  have hstart : (create firstRevnum).underWay n = [] := by
    rw [underWay, List.filterMap_eq_nil_iff]
    intro t _
    rfl
  have hputs := run_underWay hthreads hrun
  rw [hstart] at hputs
  exact hputs.symm.trans (hsound.accounted.append_right _)

end LoggerState

/-- For every ring of at least one element, every file size limit, number of
threads and interleaving of their steps, with a stream that works: no two threads
work on one element, at most one flushes, and the lock is free when nobody does; if
there is a manager, every closed file has been handed over for compression, once
and in order, and without one no file has; and the messages of all puts are, each
exactly as often as it was put, in the log files, in the ring, among those given
up, or in a put that is still under way. -/
theorem concurrent_logger_accounts_for_messages (cfg : LoggerConfig) (firstRevnum : Nat)
    {events : List LoggerEvent} {s : LoggerState}
    (hrun : runEvents (LoggerState.step cfg) events (.create firstRevnum) = .ok s) :
    (∀ t t' pos status status', (s.threads t).holds = some (pos, status) →
        (s.threads t').holds = some (pos, status') → t = t') ∧
      (∀ t, (s.threads t).holdsLock = true ↔ s.lock = some t) ∧
      s.logger.compressions = (if cfg.hasManager = true then
        List.range' s.logger.firstRevnum s.logger.closed.length else []) ∧
      ∀ n, (∀ e ∈ events, e.thread < n) →
        (events.filterMap LoggerEvent.message).Perm
          (s.logger.closed.flatten ++ s.logger.current ++ s.unwritten cfg ++ s.lost ++
            s.underWay n) := by
  have hsound : s.Sound cfg := runEvents_invariant
    (fun _ _ _ h hstep => LoggerState.step_sound h hstep)
    (LoggerState.sound_create cfg firstRevnum) hrun
  exact ⟨hsound.owned.unique, hsound.lock_iff, hsound.handed,
    fun n hn => LoggerState.run_accounted hn hrun⟩

/-- A ring of one element, and no limit on the file. -/
def oneElement : LoggerConfig := ⟨1, by decide, 0, fun _ _ => 0, true⟩

/-- Thread 0 puts a message; thread 1 flushes and holds the lock when thread 0
puts the next one, which therefore waits until the element is no longer dirty.
It is {lit}`FLUSHING` then, and the message is given up. -/
def lossyRun : List LoggerEvent :=
  .put 0 [1] :: List.replicate 7 (.run 0) ++ .flushAll 1 :: List.replicate 2 (.run 1) ++
    .put 0 [2] :: List.replicate 5 (.run 0) ++ .run 1 :: List.replicate 2 (.run 0) ++
    List.replicate 3 (.run 1)

theorem lossy_run_accounts_for_messages :
    ∃ s, runEvents (LoggerState.step oneElement) lossyRun (.create 0) = .ok s ∧
      s.lost = [[2]] ∧
      (lossyRun.filterMap LoggerEvent.message).Perm
        (s.logger.closed.flatten ++ s.logger.current ++ s.unwritten oneElement ++ s.lost ++
          s.underWay 2) :=
  ⟨_, rfl, rfl, (concurrent_logger_accounts_for_messages oneElement 0 rfl).2.2.2 2 (by decide)⟩

end ReplicatedSplinterDB
