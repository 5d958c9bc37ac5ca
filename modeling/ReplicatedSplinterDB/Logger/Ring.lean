import ReplicatedSplinterDB.Common.Types
import ReplicatedSplinterDB.Foundation.EventRun
import Mathlib.Logic.Function.Basic
import Mathlib.Data.List.Range

/-!
# The ring buffer of the logger

A logger keeps its latest messages in a ring of elements.  A message goes to the
element at the cursor, which moves on; if that element still holds an older
message, the whole ring is first written to the log file, starting at that
element.  A log file that has grown too large is closed after a flush, and the
next messages go to the file with the next revision number.

This module has the operations as one thread runs them alone.  The ring has at
least one element (with none, {lit}`put` would divide by zero), and the log file
is open and its stream works: with a stream that has failed, {lit}`put` returns at
once and nothing is logged.

Main results:

- Theorem {lit}`SimpleLogger.flush_eq`: a flush moves all pending messages to the
  current file, in the order in which the ring is visited.
- Theorem {lit}`SimpleLogger.put_pending`: a put adds its message at the end of
  the pending ones, after a flush if the ring is full.
- Theorem {lit}`logger_keeps_messages_in_order`: over every sequence of calls no
  message is lost, repeated or moved before an earlier one.
-/

namespace ReplicatedSplinterDB

open Foundation

/-- {lit}`MSG_SIZE`: the number of bytes of an element. -/
def msgSize : Nat := 4096

/-! ## Elements -/

/-- The states of an element. -/
inductive ElemStatus where
  | clean
  | writing
  | dirty
  | flushing
deriving DecidableEq, Repr

/-- An element of the ring: its contents up to their length, and its status. -/
structure LogElem where
  ctx : Bytes
  status : ElemStatus

namespace LogElem

/-- The constructor. -/
def create : LogElem := ⟨[], .clean⟩

/-- The element holds a message that has to be flushed. -/
def needToFlush (e : LogElem) : Bool := e.status == .dirty

/-- No thread is working on the element. -/
def available (e : LogElem) : Bool := e.status == .clean || e.status == .dirty

/-- Store a message in a clean element; any other element is left alone. -/
def write (msg : Bytes) (e : LogElem) : Int32 × LogElem :=
  if e.status ≠ .clean then (-1, e) else (0, ⟨msg.take msgSize, .dirty⟩)

/-- Hand the message of a dirty element over and clean it; any other element is
left alone. -/
def flush (e : LogElem) : Option Bytes × LogElem :=
  if e.status ≠ .dirty then (none, e) else (some e.ctx, ⟨e.ctx, .clean⟩)

/-- The message that the element holds. -/
def message (e : LogElem) : Option Bytes := if e.status = .dirty then some e.ctx else none

end LogElem

/-! ## Loggers -/

/-- What a logger is set up with: the number of elements, which is not zero; the
size beyond which a file is closed (zero for no limit); what {lit}`tellp` reports
for the file of a revision once the given records have been written to it; and
whether there is a manager to hand closed files over to. -/
structure LoggerConfig where
  num : Nat
  num_pos : 0 < num
  maxLogFileSize : UInt64
  tellp : Nat → List Bytes → Int
  hasManager : Bool

/-- The ring, the records of the files written since the start, and the
revisions handed over for compression. -/
structure SimpleLogger where
  logs : Nat → LogElem
  cursor : Nat
  firstRevnum : Nat
  closed : List (List Bytes)
  current : List Bytes
  compressions : List Nat

/-- The positions of a ring, from one of them on and around. -/
def sweepOrder (num start : Nat) : List Nat := List.range' start (num - start) ++ List.range start

namespace SimpleLogger

/-- The constructor; the first revision number is the one of the file that it
appends to. -/
def create (firstRevnum : Nat) : SimpleLogger := ⟨fun _ => .create, 0, firstRevnum, [], [], []⟩

/-- {lit}`curRevnum` -/
def curRevnum (l : SimpleLogger) : Nat := l.firstRevnum + l.closed.length

/-- Flush one element into the current file. -/
def flushElem (l : SimpleLogger) (pos : Nat) : SimpleLogger :=
  let (record, elem) := (l.logs pos).flush
  { l with
    logs := Function.update l.logs pos elem
    current := l.current ++ record.toList }

section Calls

variable (cfg : LoggerConfig)

/-- The end of a flush: a file that has grown too large is closed and handed over
for compression, if there is a manager.  The limit is compared as a signed
number. -/
def rotateFile (l : SimpleLogger) : SimpleLogger :=
  if cfg.maxLogFileSize ≠ 0 ∧
      cfg.maxLogFileSize.toInt64.toInt < cfg.tellp l.curRevnum l.current then
    { l with
      closed := l.closed ++ [l.current]
      current := []
      compressions :=
        if cfg.hasManager = true then l.compressions ++ [l.curRevnum] else l.compressions }
  else l

/-- Flush all elements, starting at a position. -/
def flush (startPos : Nat) (l : SimpleLogger) : SimpleLogger :=
  rotateFile cfg ((sweepOrder cfg.num startPos).foldl flushElem l)

/-- {lit}`flushAll` -/
def flushAll (l : SimpleLogger) : SimpleLogger := l.flush cfg l.cursor

/-- Wait for an element, flush from it if it still holds a message, and store a
message in it.  When no other thread runs, an element that is not available is
waited for without end. -/
def storeMessage (slot : Nat) (msg : Bytes) (l : SimpleLogger) :
    Except Exception SimpleLogger :=
  if (l.logs slot).available = false then .error .diverges
  else
    let l := if (l.logs slot).needToFlush = true then l.flush cfg slot else l
    .ok { l with logs := Function.update l.logs slot ((l.logs slot).write msg).2 }

/-- The part of {lit}`put` that stores a formatted message, with a stream that
works.  The cursor moves on before the element is looked at. -/
def putMessage (msg : Bytes) (l : SimpleLogger) : Except Exception SimpleLogger :=
  storeMessage cfg l.cursor msg { l with cursor := (l.cursor + 1) % cfg.num }

end Calls

/-! ## What the calls do -/

/-- The messages in the ring, in the order in which a flush from the position
visits them. -/
def pendingFrom (cfg : LoggerConfig) (start : Nat) (l : SimpleLogger) : List Bytes :=
  (sweepOrder cfg.num start).filterMap fun pos => (l.logs pos).message

/-- The messages in the ring, from the cursor on. -/
def pending (cfg : LoggerConfig) (l : SimpleLogger) : List Bytes := l.pendingFrom cfg l.cursor

/-- Everything written to files since the start. -/
def written (l : SimpleLogger) : List Bytes := l.closed.flatten ++ l.current

/-- Between two calls: the cursor is in the ring and no element is being worked
on. -/
structure Quiet (cfg : LoggerConfig) (l : SimpleLogger) : Prop where
  cursor_lt : l.cursor < cfg.num
  status : ∀ pos, (l.logs pos).status = .clean ∨ (l.logs pos).status = .dirty

end SimpleLogger

/-! ### The order of a sweep -/

/-- A sweep visits its first position and then the rest of the ring. -/
def sweepRest (num start : Nat) : List Nat :=
  List.range' (start + 1) (num - start - 1) ++ List.range start

theorem sweepOrder_eq_cons {num start : Nat} (h : start < num) :
    sweepOrder num start = start :: sweepRest num start := by
  have hlen : num - start = num - start - 1 + 1 := by omega
  rw [sweepOrder, hlen, List.range'_succ]
  rfl

/-- The sweep from the next position visits the first one last. -/
theorem sweepOrder_next {num start : Nat} (h : start < num) :
    sweepOrder num ((start + 1) % num) = sweepRest num start ++ [start] := by
  by_cases hlast : start + 1 = num
  · subst hlast
    simp [sweepOrder, sweepRest, List.range_succ, ← List.range_eq_range']
  · rw [Nat.mod_eq_of_lt (by omega), sweepOrder, sweepRest, List.range_succ,
      List.append_assoc]
    rfl

theorem mem_sweepOrder {num start pos : Nat} (h : start ≤ num) :
    pos ∈ sweepOrder num start ↔ pos < num := by
  rw [sweepOrder, List.mem_append, List.mem_range'_1, List.mem_range]
  omega

theorem nodup_sweepOrder (num start : Nat) : (sweepOrder num start).Nodup := by
  rw [sweepOrder, List.nodup_append]
  refine ⟨List.nodup_range', List.nodup_range, ?_⟩
  intro a ha b hb
  rw [List.mem_range'_1] at ha
  rw [List.mem_range] at hb
  omega

theorem start_notMem_sweepRest {num start : Nat} (h : start < num) :
    start ∉ sweepRest num start := by
  have hnodup := nodup_sweepOrder num start
  rw [sweepOrder_eq_cons h] at hnodup
  exact (List.nodup_cons.mp hnodup).1

namespace SimpleLogger

variable {cfg : LoggerConfig} {l : SimpleLogger}

/-! ### Flushing -/

/-- An element that has been visited holds no message. -/
theorem message_flush (e : LogElem) : e.flush.2.message = none := by
  rcases e with ⟨ctx, status⟩
  cases status <;> rfl

theorem flush_fst (e : LogElem) : e.flush.1 = e.message := by
  rcases e with ⟨ctx, status⟩
  cases status <;> rfl

/-- Visiting positions moves their messages to the current file, in the order of
the visits.  The induction is on the positions still to visit. -/
theorem foldl_flushElem (positions : List Nat) (hnodup : positions.Nodup) (l : SimpleLogger) :
    positions.foldl flushElem l =
      { l with
        logs := fun pos => if pos ∈ positions then (l.logs pos).flush.2 else l.logs pos
        current := l.current ++ positions.filterMap fun pos => (l.logs pos).message } := by
  induction positions generalizing l with
  | nil => simp
  | cons first rest ih =>
      rcases List.nodup_cons.mp hnodup with ⟨hfirst, hrest⟩
      have hsame : ∀ pos ∈ rest, ((l.flushElem first).logs pos) = l.logs pos := by
        intro pos hpos
        have hne : pos ≠ first := fun h => hfirst (h ▸ hpos)
        simp [flushElem, hne]
      have hlater : (rest.filterMap fun pos => ((l.flushElem first).logs pos).message) =
          rest.filterMap fun pos => (l.logs pos).message := by
        apply List.filterMap_congr
        intro pos hpos
        rw [hsame pos hpos]
      rw [List.foldl_cons, ih hrest, hlater]
      congr 1
      · funext pos
        by_cases hpos : pos = first
        · subst hpos
          simp [flushElem, hfirst]
        · simp [flushElem, hpos]
      · simp only [flushElem, flush_fst, List.append_assoc]
        congr 1
        cases hmessage : (l.logs first).message with
        | none => simp [hmessage]
        | some msg => simp [hmessage]

/-- What closing a file does to the rest. -/
theorem rotateFile_cases (cfg : LoggerConfig) (l : SimpleLogger) :
    l.rotateFile cfg = l ∨ l.rotateFile cfg = { l with
      closed := l.closed ++ [l.current]
      current := []
      compressions :=
        if cfg.hasManager = true then l.compressions ++ [l.curRevnum] else l.compressions } := by
  unfold rotateFile
  split
  · exact .inr rfl
  · exact .inl rfl

theorem written_rotateFile (cfg : LoggerConfig) (l : SimpleLogger) :
    (l.rotateFile cfg).written = l.written := by
  rcases rotateFile_cases cfg l with h | h
  · rw [h]
  · rw [h]
    simp [written]

theorem logs_rotateFile (cfg : LoggerConfig) (l : SimpleLogger) :
    (l.rotateFile cfg).logs = l.logs ∧ (l.rotateFile cfg).cursor = l.cursor := by
  rcases rotateFile_cases cfg l with h | h
  · rw [h]
    exact ⟨rfl, rfl⟩
  · rw [h]
    exact ⟨rfl, rfl⟩

/-- Every closed file has been handed over for compression, once and in order, if
there is a manager, and none otherwise. -/
def Handed (cfg : LoggerConfig) (l : SimpleLogger) : Prop :=
  l.compressions =
    if cfg.hasManager = true then List.range' l.firstRevnum l.closed.length else []

theorem Handed.rotateFile (h : l.Handed cfg) : (l.rotateFile cfg).Handed cfg := by
  rcases rotateFile_cases cfg l with hsame | hclosed
  · rw [hsame]
    exact h
  · rw [hclosed]
    unfold Handed at h ⊢
    rw [h]
    cases cfg.hasManager with
    | true =>
        simp only [if_true, List.length_append, List.length_singleton]
        rw [List.range'_1_concat]
        rfl
    | false => rfl

/-- A flush moves the pending messages to the files and leaves the ring clean. -/
theorem flush_eq (hquiet : l.Quiet cfg) {start : Nat} (hstart : start ≤ cfg.num) :
    (l.flush cfg start).written = l.written ++ l.pendingFrom cfg start ∧
      (∀ pos < cfg.num, ((l.flush cfg start).logs pos).message = none) ∧
      (l.flush cfg start).Quiet cfg ∧ (l.flush cfg start).cursor = l.cursor := by
  unfold flush
  rw [foldl_flushElem _ (nodup_sweepOrder cfg.num start)]
  refine ⟨?_, ?_, ⟨?_, ?_⟩, ?_⟩
  · rw [written_rotateFile]
    simp [written, pendingFrom]
  · intro pos hpos
    rw [(logs_rotateFile cfg _).1]
    simp [mem_sweepOrder hstart, hpos, message_flush]
  · rw [(logs_rotateFile cfg _).2]
    exact hquiet.cursor_lt
  · intro pos
    rw [(logs_rotateFile cfg _).1]
    dsimp only
    split
    · rcases hquiet.status pos with h | h
      · simp [LogElem.flush, h]
      · simp [LogElem.flush, h]
    · exact hquiet.status pos
  · rw [(logs_rotateFile cfg _).2]

theorem Handed.flush (h : l.Handed cfg) (start : Nat) : (l.flush cfg start).Handed cfg := by
  unfold SimpleLogger.flush
  rw [foldl_flushElem _ (nodup_sweepOrder cfg.num start)]
  exact Handed.rotateFile h

/-! ### Putting -/

/-- The pending messages do not depend on elements that the sweep does not
visit. -/
theorem filterMap_message_update {positions : List Nat} {slot : Nat} (hslot : slot ∉ positions)
    (logs : Nat → LogElem) (e : LogElem) :
    (positions.filterMap fun pos => (Function.update logs slot e pos).message) =
      positions.filterMap fun pos => (logs pos).message := by
  apply List.filterMap_congr
  intro pos hpos
  have hne : pos ≠ slot := by
    intro h
    subst h
    exact hslot hpos
  rw [Function.update_of_ne hne]

/-- Storing a message in the clean element at the cursor adds it behind the
pending ones. -/
theorem pending_store (hcursor : l.cursor < cfg.num) (msg : Bytes)
    (hclean : (l.logs l.cursor).status = .clean) :
    SimpleLogger.pending cfg { l with
        logs := Function.update l.logs l.cursor ((l.logs l.cursor).write msg).2
        cursor := (l.cursor + 1) % cfg.num } =
      l.pending cfg ++ [msg.take msgSize] := by
  have hnone : (l.logs l.cursor).message = none := by simp [LogElem.message, hclean]
  have hold : l.pending cfg =
      (sweepRest cfg.num l.cursor).filterMap fun pos => (l.logs pos).message := by
    simp only [pending, pendingFrom, sweepOrder_eq_cons hcursor, List.filterMap_cons, hnone]
  have hnew : (LogElem.write msg (l.logs l.cursor)).2.message = some (msg.take msgSize) := by
    simp [LogElem.write, LogElem.message, hclean]
  rw [hold, pending, pendingFrom, sweepOrder_next hcursor, List.filterMap_append,
    filterMap_message_update (start_notMem_sweepRest hcursor)]
  simp [hnew]

/-- A put returns and adds its message at the end; what was pending is still
pending or has gone to the files. -/
theorem put_pending (hquiet : l.Quiet cfg) (msg : Bytes) :
    ∃ l', l.putMessage cfg msg = .ok l' ∧ l'.Quiet cfg ∧
      l'.written ++ l'.pending cfg = l.written ++ l.pending cfg ++ [msg.take msgSize] ∧
      (l.Handed cfg → l'.Handed cfg) := by
  have hcursor := hquiet.cursor_lt
  have hnext : (l.cursor + 1) % cfg.num < cfg.num := Nat.mod_lt _ cfg.num_pos
  -- the cursor moves first; the element is looked at afterwards
  have hmoved : SimpleLogger.Quiet cfg { l with cursor := (l.cursor + 1) % cfg.num } :=
    ⟨hnext, hquiet.status⟩
  have hstatus : ∀ (logs : Nat → LogElem), (∀ pos, (logs pos).status = .clean ∨
      (logs pos).status = .dirty) → ∀ pos, (Function.update logs l.cursor
      ((logs l.cursor).write msg).2 pos).status = .clean ∨
      (Function.update logs l.cursor ((logs l.cursor).write msg).2 pos).status = .dirty := by
    intro logs hlogs pos
    by_cases hpos : pos = l.cursor
    · subst hpos
      rw [Function.update_self]
      rcases hlogs l.cursor with h | h
      · simp [LogElem.write, h]
      · simp [LogElem.write, h]
    · rw [Function.update_of_ne hpos]
      exact hlogs pos
  rcases hquiet.status l.cursor with hclean | hdirty
  · refine ⟨{ l with
      logs := Function.update l.logs l.cursor ((l.logs l.cursor).write msg).2
      cursor := (l.cursor + 1) % cfg.num }, ?_, ⟨hnext, hstatus l.logs hquiet.status⟩, ?_, id⟩
    · simp [putMessage, storeMessage, LogElem.available, LogElem.needToFlush, hclean]
    · rw [pending_store hcursor msg hclean, List.append_assoc]
      rfl
  · rcases flush_eq hmoved hcursor.le with ⟨hwritten, hempty, hquiet', hcursor'⟩
    generalize hflushed : SimpleLogger.flush cfg l.cursor
      { l with cursor := (l.cursor + 1) % cfg.num } = flushed at *
    have hclean : (flushed.logs l.cursor).status = .clean := by
      have hmessage := hempty l.cursor hcursor
      rcases hquiet'.status l.cursor with h | h
      · exact h
      · simp [LogElem.message, h] at hmessage
    refine ⟨{ flushed with
      logs := Function.update flushed.logs l.cursor
        ((flushed.logs l.cursor).write msg).2 }, ?_, ⟨hquiet'.cursor_lt,
        hstatus flushed.logs hquiet'.status⟩, ?_, ?_⟩
    · simp [putMessage, storeMessage, LogElem.available, LogElem.needToFlush, hdirty, hflushed]
    · have hstore := pending_store (l := { flushed with cursor := l.cursor }) hcursor msg hclean
      have hnone : SimpleLogger.pending cfg { flushed with cursor := l.cursor } = [] := by
        rw [pending, pendingFrom, List.filterMap_eq_nil_iff]
        intro pos hpos
        exact hempty pos ((mem_sweepOrder hcursor.le).mp hpos)
      have hpending : SimpleLogger.pending cfg { flushed with
          logs := Function.update flushed.logs l.cursor
            ((flushed.logs l.cursor).write msg).2 } = [msg.take msgSize] := by
        rw [hnone, List.nil_append] at hstore
        rw [← hstore]
        simp only [pending, hcursor']
      rw [hpending]
      change flushed.written ++ _ = _
      rw [hwritten]
      rfl
    · intro hhanded
      rw [← hflushed]
      exact Handed.flush
        (show Handed cfg { l with cursor := (l.cursor + 1) % cfg.num } from hhanded) l.cursor

end SimpleLogger

/-! ## Runs of one thread -/

/-- A call of the logger. -/
inductive LoggerCall where
  | put (msg : Bytes)
  | flushAll

/-- One call. -/
def SimpleLogger.call (cfg : LoggerConfig) (l : SimpleLogger) :
    LoggerCall → Except Exception SimpleLogger
  | .put msg => l.putMessage cfg msg
  | .flushAll => .ok (l.flushAll cfg)

/-- The messages that the calls have handed over, as an element keeps them. -/
def LoggerCall.messages : List LoggerCall → List Bytes
  | [] => []
  | .put msg :: calls => msg.take msgSize :: messages calls
  | .flushAll :: calls => messages calls

/-- The logger stands where the messages so far say. -/
structure SimpleLogger.Logged (cfg : LoggerConfig) (l : SimpleLogger) (messages : List Bytes) :
    Prop where
  quiet : l.Quiet cfg
  messages_eq : l.written ++ l.pending cfg = messages
  handed : l.Handed cfg

theorem SimpleLogger.handed_create (cfg : LoggerConfig) (firstRevnum : Nat) :
    (create firstRevnum).Handed cfg := by
  unfold Handed
  cases cfg.hasManager with
  | true => rfl
  | false => rfl

theorem SimpleLogger.logged_create (cfg : LoggerConfig) (firstRevnum : Nat) :
    (create firstRevnum).Logged cfg [] := by
  refine ⟨⟨cfg.num_pos, fun _ => .inl rfl⟩, ?_, handed_create cfg firstRevnum⟩
  have hnone : (create firstRevnum).pending cfg = [] := by
    rw [pending, pendingFrom, List.filterMap_eq_nil_iff]
    intro pos _
    rfl
  rw [hnone]
  rfl

/-- One call returns and hands its message over. -/
theorem SimpleLogger.call_logged (cfg : LoggerConfig) (l : SimpleLogger) (messages : List Bytes)
    (c : LoggerCall) (h : l.Logged cfg messages) :
    ∃ l', l.call cfg c = .ok l' ∧ l'.Logged cfg (messages ++ LoggerCall.messages [c]) := by
  cases c with
  | put msg =>
      rcases put_pending h.quiet msg with ⟨l', hput, hquiet, hmessages, hhanded⟩
      refine ⟨l', hput, hquiet, ?_, hhanded h.handed⟩
      rw [hmessages, h.messages_eq]
      rfl
  | flushAll =>
      rcases flush_eq h.quiet h.quiet.cursor_lt.le with ⟨hwritten, hempty, hquiet, hcursor⟩
      refine ⟨l.flushAll cfg, rfl, hquiet, ?_, h.handed.flush l.cursor⟩
      have hnone : (l.flushAll cfg).pending cfg = [] := by
        rw [pending, pendingFrom, List.filterMap_eq_nil_iff]
        intro pos hpos
        exact hempty pos ((mem_sweepOrder hquiet.cursor_lt.le).mp hpos)
      rw [hnone, List.append_nil, flushAll, hwritten, ← h.messages_eq]
      exact (List.append_nil _).symm

theorem LoggerCall.foldl_messages (calls : List LoggerCall) (messages : List Bytes) :
    calls.foldl (fun messages c => messages ++ LoggerCall.messages [c]) messages =
      messages ++ LoggerCall.messages calls := by
  induction calls generalizing messages with
  | nil => simp [LoggerCall.messages]
  | cons c calls ih =>
      rw [List.foldl_cons, ih]
      cases c with
      | put msg => simp [LoggerCall.messages]
      | flushAll => simp [LoggerCall.messages]

/-- For every ring of at least one element, every file size limit and sequence of
puts and flushes of one thread, with a stream that works: all calls return; the log
files from the first to the current one, followed by the messages in the ring from
the cursor on, are exactly the messages handed over, in order; if there is a
manager, every closed file, and no other, has been handed over for compression,
once and in the order of revisions, and without one no file has; and one more flush
leaves nothing in the ring. -/
theorem logger_keeps_messages_in_order (cfg : LoggerConfig) (firstRevnum : Nat)
    (calls : List LoggerCall) :
    ∃ l, runEvents (SimpleLogger.call cfg) calls (.create firstRevnum) = .ok l ∧
      l.closed.flatten ++ l.current ++ l.pending cfg = LoggerCall.messages calls ∧
      l.compressions =
        (if cfg.hasManager = true then List.range' l.firstRevnum l.closed.length else []) ∧
      (l.flushAll cfg).closed.flatten ++ (l.flushAll cfg).current =
        LoggerCall.messages calls := by
  rcases runEvents_simulation
    (fun l messages c h (_ : True) => SimpleLogger.call_logged cfg l messages c h) calls
    (SimpleLogger.logged_create cfg firstRevnum)
    (admissible_of_forall (fun _ _ => trivial) calls _) with ⟨l, hrun, hlogged⟩
  rw [LoggerCall.foldl_messages, List.nil_append] at hlogged
  refine ⟨l, hrun, hlogged.messages_eq, hlogged.handed, ?_⟩
  rcases SimpleLogger.flush_eq hlogged.quiet hlogged.quiet.cursor_lt.le with ⟨hwritten, -⟩
  exact hwritten.trans hlogged.messages_eq

end ReplicatedSplinterDB
