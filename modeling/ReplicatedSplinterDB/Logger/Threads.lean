import ReplicatedSplinterDB.Logger.Ring

/-!
# The threads of the logger

Any number of threads put messages and flush.  A thread's step is one access to
shared state: the cursor, the status of an element, the contents of an element,
the lock of the flusher, or the log file.  The atomic variables are taken as
sequentially consistent, and the stream of the log file works.

A put that finds its element taken by a flusher gives its message up, because it
waits only while the element is dirty and a flusher makes it {lit}`FLUSHING`
before it is clean.

Main results:

- Theorem {lit}`LoggerState.step_cases`: what an event does.
- Theorem {lit}`LoggerState.advance_inFlight`: a step moves one thread, which
  stays in its call or returns from it.
-/

namespace ReplicatedSplinterDB

open Foundation

/-! ## Threads -/

/-- Where a thread stands in a call.  The flush states carry the put to go on
with, if the flush is part of one, and the positions still to visit. -/
inductive LogThread where
  | idle
  | loadCursor (msg : Bytes)
  | casCursor (msg : Bytes) (expected : Nat)
  | waitAvailable (msg : Bytes) (slot : Nat)
  | checkDirty (msg : Bytes) (slot : Nat)
  | loadStart
  | tryLock (after : Option (Bytes × Nat)) (start : Nat)
  | sweep (after : Option (Bytes × Nat)) (rest : List Nat)
  | emit (after : Option (Bytes × Nat)) (pos : Nat) (rest : List Nat)
  | release (after : Option (Bytes × Nat)) (pos : Nat) (rest : List Nat)
  | waitFlushed (msg : Bytes) (slot : Nat)
  | write (msg : Bytes) (slot : Nat)
  | fill (msg : Bytes) (slot : Nat)
  | publish (msg : Bytes) (slot : Nat)

namespace LogThread

/-- Where the caller of a flush goes on when the flush has been done. -/
def flushed : Option (Bytes × Nat) → LogThread
  | none => .idle
  | some (msg, slot) => .write msg slot

/-- Where the caller goes on when another thread was flushing. -/
def notFlushed : Option (Bytes × Nat) → LogThread
  | none => .idle
  | some (msg, slot) => .waitFlushed msg slot

/-- The element that the thread works on, with the status it has given it. -/
def holds : LogThread → Option (Nat × ElemStatus)
  | .fill _ slot => some (slot, .writing)
  | .publish _ slot => some (slot, .writing)
  | .emit _ pos _ => some (pos, .flushing)
  | .release _ pos _ => some (pos, .flushing)
  | _ => none

/-- The thread is between taking and giving back the lock of the flusher. -/
def holdsLock : LogThread → Bool
  | .sweep _ _ => true
  | .emit _ _ _ => true
  | .release _ _ _ => true
  | _ => false

/-- The element whose message is about to go to the file. -/
def emits : LogThread → Option Nat
  | .emit _ pos _ => some pos
  | _ => none

/-- The contents that the thread has left in its element. -/
def filled : LogThread → Option (Nat × Bytes)
  | .publish msg slot => some (slot, msg.take msgSize)
  | _ => none

/-- The message of the put that the thread is in. -/
def inFlight : LogThread → Option Bytes
  | .loadCursor msg => some (msg.take msgSize)
  | .casCursor msg _ => some (msg.take msgSize)
  | .waitAvailable msg _ => some (msg.take msgSize)
  | .checkDirty msg _ => some (msg.take msgSize)
  | .tryLock after _ => after.map fun put => put.1.take msgSize
  | .sweep after _ => after.map fun put => put.1.take msgSize
  | .emit after _ _ => after.map fun put => put.1.take msgSize
  | .release after _ _ => after.map fun put => put.1.take msgSize
  | .waitFlushed msg _ => some (msg.take msgSize)
  | .write msg _ => some (msg.take msgSize)
  | .fill msg _ => some (msg.take msgSize)
  | .publish msg _ => some (msg.take msgSize)
  | .loadStart => none
  | .idle => none

/-- The positions that the thread knows of are in the ring. -/
def Within (num : Nat) : LogThread → Prop
  | .waitAvailable _ slot => slot < num
  | .checkDirty _ slot => slot < num
  | .loadStart => True
  | .tryLock after start => start < num ∧ ∀ put ∈ after, put.2 < num
  | .sweep after rest => (∀ put ∈ after, put.2 < num) ∧ ∀ pos ∈ rest, pos < num
  | .emit after pos rest => (∀ put ∈ after, put.2 < num) ∧ ∀ p ∈ pos :: rest, p < num
  | .release after _ rest => (∀ put ∈ after, put.2 < num) ∧ ∀ pos ∈ rest, pos < num
  | .waitFlushed _ slot => slot < num
  | .write _ slot => slot < num
  | .fill _ slot => slot < num
  | .publish _ slot => slot < num
  | .idle => True
  | .loadCursor _ => True
  | .casCursor _ _ => True

end LogThread

/-! ## Steps -/

/-- The logger, the lock of the flusher, the threads, and two records that no
code reads: the messages of the puts that have returned, and of those that have
returned without storing theirs. -/
structure LoggerState where
  logger : SimpleLogger
  lock : Option Nat
  threads : Nat → LogThread
  returned : List Bytes
  lost : List Bytes

/-- Calls start, threads run, and {lit}`try_lock` may fail without reason. -/
inductive LoggerEvent where
  | put (t : Nat) (msg : Bytes)
  | flushAll (t : Nat)
  | run (t : Nat)
  | tryLockFails (t : Nat)

/-- The thread that an event is about. -/
def LoggerEvent.thread : LoggerEvent → Nat
  | .put t _ => t
  | .flushAll t => t
  | .run t => t
  | .tryLockFails t => t

/-- The message that an event hands over, as an element keeps it. -/
def LoggerEvent.message : LoggerEvent → Option Bytes
  | .put _ msg => some (msg.take msgSize)
  | _ => none

namespace LoggerState

/-- A logger that has just been constructed. -/
def create (firstRevnum : Nat) : LoggerState :=
  ⟨.create firstRevnum, none, fun _ => .idle, [], []⟩

/-- Send a thread to its next state. -/
def goto (s : LoggerState) (t : Nat) (next : LogThread) : LoggerState :=
  { s with threads := Function.update s.threads t next }

/-- Change one element. -/
def setElem (s : LoggerState) (pos : Nat) (e : LogElem) : LoggerState :=
  { s with logger := { s.logger with logs := Function.update s.logger.logs pos e } }

/-- The element at a position. -/
def elem (s : LoggerState) (pos : Nat) : LogElem := s.logger.logs pos

/-- One step of a thread. -/
def advance (cfg : LoggerConfig) (s : LoggerState) (t : Nat) : LogThread → LoggerState
  | .idle => s
  | .loadCursor msg => s.goto t (.casCursor msg s.logger.cursor)
  | .casCursor msg expected =>
      if s.logger.cursor = expected then
        { s with logger := { s.logger with cursor := (expected + 1) % cfg.num } }.goto t
          (.waitAvailable msg expected)
      else s.goto t (.loadCursor msg)
  | .waitAvailable msg slot =>
      if (s.elem slot).available = true then s.goto t (.checkDirty msg slot) else s
  | .checkDirty msg slot =>
      if (s.elem slot).needToFlush = true then s.goto t (.tryLock (some (msg, slot)) slot)
      else s.goto t (.write msg slot)
  | .loadStart => s.goto t (.tryLock none s.logger.cursor)
  | .tryLock after start =>
      if s.lock = none then
        { s with lock := some t }.goto t (.sweep after (sweepOrder cfg.num start))
      else s.goto t (.notFlushed after)
  | .sweep after (pos :: rest) =>
      if (s.elem pos).status = .dirty then
        (s.setElem pos ⟨(s.elem pos).ctx, .flushing⟩).goto t (.emit after pos rest)
      else s.goto t (.sweep after rest)
  | .emit after pos rest =>
      { s with logger := { s.logger with current := s.logger.current ++ [(s.elem pos).ctx] } }.goto
        t (.release after pos rest)
  | .release after pos rest =>
      (s.setElem pos ⟨(s.elem pos).ctx, .clean⟩).goto t (.sweep after rest)
  -- the file is looked at and closed while the lock is still held
  | .sweep after [] =>
      { s with logger := s.logger.rotateFile cfg, lock := none }.goto t (.flushed after)
  | .waitFlushed msg slot =>
      if (s.elem slot).needToFlush = true then s else s.goto t (.write msg slot)
  | .write msg slot =>
      if (s.elem slot).status = .clean then
        (s.setElem slot ⟨(s.elem slot).ctx, .writing⟩).goto t (.fill msg slot)
      else
        { s with
          returned := s.returned ++ [msg.take msgSize]
          lost := s.lost ++ [msg.take msgSize] }.goto t .idle
  | .fill msg slot =>
      (s.setElem slot ⟨msg.take msgSize, (s.elem slot).status⟩).goto t (.publish msg slot)
  | .publish msg slot =>
      ({ s with returned := s.returned ++ [msg.take msgSize] }.setElem slot
        ⟨(s.elem slot).ctx, .dirty⟩).goto t .idle

/-- One event.  A thread starts a call when it is in none. -/
def step (cfg : LoggerConfig) (s : LoggerState) : LoggerEvent → Except Unit LoggerState
  | .put t msg =>
      match s.threads t with
      | .idle => .ok (s.goto t (.loadCursor msg))
      | _ => .error ()
  | .flushAll t =>
      match s.threads t with
      | .idle => .ok (s.goto t .loadStart)
      | _ => .error ()
  | .run t =>
      match s.threads t with
      | .idle => .error ()
      | state => .ok (s.advance cfg t state)
  | .tryLockFails t =>
      match s.threads t with
      | .tryLock after _ => .ok (s.goto t (.notFlushed after))
      | _ => .error ()

/-- The element whose message the flusher is about to write. -/
def emitting (s : LoggerState) : Option Nat := s.lock.bind (LogThread.emits ∘ s.threads)

/-- The message at a position that is in no file yet. -/
def unwrittenAt (s : LoggerState) (pos : Nat) : Option Bytes :=
  if (s.elem pos).status = .dirty ∨ s.emitting = some pos then some (s.elem pos).ctx else none

/-- The stored messages that are in no file yet. -/
def unwritten (cfg : LoggerConfig) (s : LoggerState) : List Bytes :=
  (List.range cfg.num).filterMap s.unwrittenAt

/-! ## What a step does -/

variable {cfg : LoggerConfig} {s : LoggerState}

/-- What an event does: a thread that is in no call starts one, a thread in a
call takes a step, or a thread is refused the lock. -/
theorem step_cases {s' : LoggerState} {e : LoggerEvent} (h : s.step cfg e = .ok s') :
    (∃ t msg, e = .put t msg ∧ s.threads t = .idle ∧ s' = s.goto t (.loadCursor msg)) ∨
    (∃ t, e = .flushAll t ∧ s.threads t = .idle ∧ s' = s.goto t .loadStart) ∨
    (∃ t, e = .run t ∧ s' = s.advance cfg t (s.threads t)) ∨
    (∃ t after start, e = .tryLockFails t ∧ s.threads t = .tryLock after start ∧
      s' = s.goto t (.notFlushed after)) := by
  cases e with
  | put t msg =>
      simp only [step] at h
      split at h
      · rename_i hidle
        cases h
        exact .inl ⟨t, msg, rfl, hidle, rfl⟩
      · cases h
  | flushAll t =>
      simp only [step] at h
      split at h
      · rename_i hidle
        cases h
        exact .inr (.inl ⟨t, rfl, hidle, rfl⟩)
      · cases h
  | run t =>
      simp only [step] at h
      split at h
      · cases h
      · cases h
        exact .inr (.inr (.inl ⟨t, rfl, rfl⟩))
  | tryLockFails t =>
      simp only [step] at h
      split at h
      · rename_i after start hthread
        cases h
        exact .inr (.inr (.inr ⟨t, after, start, rfl, hthread, rfl⟩))
      · cases h

/-- The messages of the puts that the first {lit}`n` threads are in. -/
def underWay (n : Nat) (s : LoggerState) : List Bytes :=
  (List.range n).filterMap (LogThread.inFlight ∘ s.threads)

/-- A step moves its thread on; it stays in its put, or the put returns. -/
theorem advance_inFlight (cfg : LoggerConfig) (s : LoggerState) (t : Nat) :
    ∃ next, (s.advance cfg t (s.threads t)).threads = Function.update s.threads t next ∧
      ((next.inFlight = (s.threads t).inFlight ∧
          (s.advance cfg t (s.threads t)).returned = s.returned) ∨
        ∃ msg, (s.threads t).inFlight = some msg ∧ next.inFlight = none ∧
          (s.advance cfg t (s.threads t)).returned = s.returned ++ [msg]) := by
  have hstay : ∀ state, s.threads t = state →
      ∃ next, s.threads = Function.update s.threads t next ∧
        ((next.inFlight = state.inFlight ∧ s.returned = s.returned) ∨
          ∃ msg, state.inFlight = some msg ∧ next.inFlight = none ∧
            s.returned = s.returned ++ [msg]) := by
    intro state hstate
    subst hstate
    exact ⟨s.threads t, (Function.update_eq_self t s.threads).symm, .inl ⟨rfl, rfl⟩⟩
  cases hthread : s.threads t with
  | idle => exact hstay _ hthread
  | loadCursor msg => exact ⟨_, rfl, .inl ⟨rfl, rfl⟩⟩
  | casCursor msg expected =>
      simp only [advance]
      split
      · exact ⟨_, rfl, .inl ⟨rfl, rfl⟩⟩
      · exact ⟨_, rfl, .inl ⟨rfl, rfl⟩⟩
  | waitAvailable msg slot =>
      simp only [advance]
      split
      · exact ⟨_, rfl, .inl ⟨rfl, rfl⟩⟩
      · exact hstay _ hthread
  | checkDirty msg slot =>
      simp only [advance]
      split
      · exact ⟨_, rfl, .inl ⟨rfl, rfl⟩⟩
      · exact ⟨_, rfl, .inl ⟨rfl, rfl⟩⟩
  | loadStart => exact ⟨_, rfl, .inl ⟨rfl, rfl⟩⟩
  | tryLock after start =>
      simp only [advance]
      split
      · exact ⟨_, rfl, .inl ⟨rfl, rfl⟩⟩
      · refine ⟨_, rfl, .inl ⟨?_, rfl⟩⟩
        cases after <;> rfl
  | sweep after rest =>
      cases rest with
      | nil =>
          refine ⟨_, rfl, .inl ⟨?_, rfl⟩⟩
          cases after <;> rfl
      | cons pos rest =>
          simp only [advance]
          split
          · exact ⟨_, rfl, .inl ⟨rfl, rfl⟩⟩
          · exact ⟨_, rfl, .inl ⟨rfl, rfl⟩⟩
  | emit after pos rest => exact ⟨_, rfl, .inl ⟨rfl, rfl⟩⟩
  | release after pos rest => exact ⟨_, rfl, .inl ⟨rfl, rfl⟩⟩
  | waitFlushed msg slot =>
      simp only [advance]
      split
      · exact hstay _ hthread
      · exact ⟨_, rfl, .inl ⟨rfl, rfl⟩⟩
  | write msg slot =>
      simp only [advance]
      split
      · exact ⟨_, rfl, .inl ⟨rfl, rfl⟩⟩
      · exact ⟨_, rfl, .inr ⟨_, rfl, rfl, rfl⟩⟩
  | fill msg slot => exact ⟨_, rfl, .inl ⟨rfl, rfl⟩⟩
  | publish msg slot => exact ⟨_, rfl, .inr ⟨_, rfl, rfl, rfl⟩⟩

end LoggerState

end ReplicatedSplinterDB
