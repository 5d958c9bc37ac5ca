import ReplicatedSplinterDB.LogStore.InMemory
import ReplicatedSplinterDB.Server.Replication

/-!
# Replicas that commit from their own log stores

Each server keeps its Raft log in its own in-memory log store, and its commit
thread reads the entries that it hands to the state machine from there.  While
it does so, the store goes on changing: entries are appended, conflicting ones
are overwritten, and old ones are purged.  A server that is started again has
lost all of this, because its state manager keeps the log in memory and its
state machine creates its database anew.

What is taken from NuRaft is what Raft promises: when a server learns that the
log is committed up to an index, it holds the agreed entries up to there; it
overwrites nothing up to this index; and it purges nothing that it has not
committed.

Main results:

- Theorem {lit}`LogEvent.keeps_committed`: a mutation that spares the committed
  entries leaves them where they are.
- Theorem {lit}`LoggedCluster.step_sound`: every step keeps the log stores and the
  state machines in agreement with the agreed log.
- Theorem {lit}`logged_replicas_fold_agreed_log`: the same over whole runs, with
  restarts.
-/

namespace ReplicatedSplinterDB

open Foundation

/-! ## Servers with a log store and a state machine -/

/-- The value type of configuration changes. -/
def confLog : UInt8 := 2

/-- The log store of each server, the index up to which it knows the log to be
committed, and its replica. -/
structure LoggedCluster (ι : Type) where
  stores : ι → InmemLogStore
  commitIndex : ι → Nat
  cluster : Cluster ι

/-- An event at a server. -/
inductive LoggedEvent (ι : Type) where
  /-- NuRaft changes the log. -/
  | mutate (server : ι) (event : LogEvent)
  /-- NuRaft learns that the log is committed up to an index. -/
  | learn (server : ι) (index : Nat)
  /-- The commit thread takes the next entry. -/
  | commit (server : ι)
  /-- A client reads. -/
  | read (server : ι) (key : Bytes)
  /-- The process is started again. -/
  | restart (server : ι)

namespace LoggedCluster

section Step

variable {ι : Type} [DecidableEq ι] (wire : WireFormat) (format : EntryFormat)
  (db : SplinterDB Bytes Bytes) (dummy : LogEntry)

/-- All servers freshly started. -/
def start (ι : Type) (dummy : LogEntry) : LoggedCluster ι :=
  ⟨fun _ => .create dummy, fun _ => 0, .start ι⟩

/-- The commit thread reads the next entry from the log store and hands it to the
state machine.  Entries of other types only move its position. -/
def commitNext (s : LoggedCluster ι) (r : ι) : Except Exception (LoggedCluster ι) :=
  let logIdx := s.cluster.delivered r + 1
  let le := (s.stores r).entryAt logIdx
  if le.valType = appLog then
    match (commit wire db logIdx (.ofBytes le.buf)).run (s.cluster.machine r) with
    | .error e _ => .error e
    | .ok ret sm =>
        .ok { s with
          cluster := s.cluster.advance r sm
            (if resultCode wire ret = 0 then s.cluster.failed r
              else s.cluster.failed r ++ [logIdx]) }
  else if le.valType = confLog then
    .ok { s with
      cluster := s.cluster.advance r (commitConfig logIdx (s.cluster.machine r))
        (s.cluster.failed r) }
  else
    .ok { s with
      cluster := s.cluster.advance r (s.cluster.machine r) (s.cluster.failed r) }

/-- One event of the servers. -/
def step (s : LoggedCluster ι) : LoggedEvent ι → Except Exception (LoggedCluster ι)
  | .mutate r event =>
      match LogRun.step wire format ⟨s.stores r, []⟩ event with
      | .error e => .error e
      | .ok run => .ok { s with stores := Function.update s.stores r run.store }
  | .learn r index => .ok { s with commitIndex := Function.update s.commitIndex r index }
  | .commit r => s.commitNext wire db r
  | .read r key => .ok { s with cluster := s.cluster.read (fun _ _ => db) r key }
  | .restart r =>
      .ok
        { stores := Function.update s.stores r (.create dummy)
          commitIndex := Function.update s.commitIndex r 0
          cluster :=
            { s.cluster with
              machine := Function.update s.cluster.machine r .create
              delivered := Function.update s.cluster.delivered r 0
              failed := Function.update s.cluster.failed r [] } }

end Step

end LoggedCluster

section Count

variable {ι : Type} [DecidableEq ι]

/-- How an event changes the number of commits of each server since its last start. -/
def LoggedEvent.countCommit (counts : ι → Nat) : LoggedEvent ι → ι → Nat
  | .commit r => Function.update counts r (counts r + 1)
  | .restart r => Function.update counts r 0
  | .mutate _ _ => counts
  | .learn _ _ => counts
  | .read _ _ => counts

/-- The number of commit events at each server since its last start. -/
def commitsSinceStart (events : List (LoggedEvent ι)) : ι → Nat :=
  events.foldl LoggedEvent.countCommit fun _ => 0

end Count

/-! ## What Raft promises -/

/-- The mutation changes no entry up to the commit index, leaves no gap behind it,
and purges only entries that the state machine has. -/
def LogEvent.Spares (delivered commitIndex next : Nat) : LogEvent → Prop
  | .append _ => True
  | .writeAt index _ => commitIndex < index
  | .compact lastLogIndex => lastLogIndex ≤ delivered
  | .applyPack index _ => commitIndex < index ∧ index ≤ next

/-- The entry matches the agreed one at its index. -/
def AgreedAt (agreed : List LogEntry) (j : Nat) (entry : LogEntry) : Prop :=
  ∃ e, agreed[j - 1]? = some e ∧ entry.Matches e

/-- The events that NuRaft lets happen. -/
def LoggedCluster.Allows {ι : Type} (format : EntryFormat) (agreed : List LogEntry)
    (s : LoggedCluster ι) : LoggedEvent ι → Prop
  | .mutate r event =>
      event.Allowed format (s.stores r).startIndex (s.stores r).nextSlot ∧
        event.Spares (s.cluster.delivered r) (s.commitIndex r) (s.stores r).nextSlot
  | .learn r index =>
      s.commitIndex r ≤ index ∧ index < (s.stores r).nextSlot ∧
        ∀ j, s.commitIndex r < j → j ≤ index → AgreedAt agreed j ((s.stores r).entryAt j)
  | .commit r => s.cluster.delivered r < s.commitIndex r
  | .read _ _ => True
  | .restart _ => True

/-- The agreed entry stems from this item: a request through its handler, or a
configuration change. -/
inductive Stems (wire : WireFormat) : Option Request → LogEntry → Prop
  | request {request : Request} {entry : LogEntry} (htype : entry.valType = appLog)
      (h : HandlerAppends wire request entry.buf) : Stems wire (some request) entry
  | configuration {entry : LogEntry} (htype : entry.valType = confLog) : Stems wire none entry

theorem Stems.of_matches {wire : WireFormat} {item : Option Request} {entry entry' : LogEntry}
    (h : Stems wire item entry) (hmatches : entry'.Matches entry) : Stems wire item entry' := by
  rcases hmatches with ⟨-, htype', hbuf⟩
  cases h with
  | request htype h => exact .request (htype'.trans htype) (hbuf ▸ h)
  | configuration htype => exact .configuration (htype'.trans htype)

/-! ## Committed entries stay in the log -/

/-- A mutation that spares the committed entries leaves them where they are,
except that it may purge some from the beginning of the log. -/
theorem LogEvent.keeps_committed {format : EntryFormat} {delivered commitIndex : Nat}
    {run : LogRun (IndexedLog LogEntry)} {event : LogEvent}
    (hallowed : event.Allowed format run.store.base run.store.next)
    (hspares : event.Spares delivered commitIndex run.store.next)
    (hbase : run.store.base ≤ delivered + 1) (hdelivered : delivered ≤ commitIndex)
    (hnext : commitIndex < run.store.next) :
    run.store.base ≤ (run.abstractStep format event).store.base ∧
      (run.abstractStep format event).store.base ≤ delivered + 1 ∧
      commitIndex < (run.abstractStep format event).store.next ∧
      ∀ j, (run.abstractStep format event).store.base ≤ j → j ≤ commitIndex →
        (run.abstractStep format event).store.get? j = run.store.get? j := by
  cases event with
  | append entry =>
      refine ⟨Nat.le_refl _, hbase, ?_, ?_⟩
      · simp only [LogRun.abstractStep, IndexedLog.next_append]
        omega
      · intro j _ hj
        simp only [LogRun.abstractStep, IndexedLog.get?_append]
        rw [if_neg (by omega)]
  | writeAt index entry =>
      rcases hallowed with ⟨hlow, hhigh, -⟩
      have hafter : commitIndex < index := hspares
      refine ⟨Nat.le_refl _, hbase, ?_, ?_⟩
      · simp only [LogRun.abstractStep, IndexedLog.next_writeAt hlow hhigh]
        omega
      · intro j _ hj
        simp only [LogRun.abstractStep, IndexedLog.get?_writeAt hlow hhigh]
        rw [if_pos (by omega)]
  | compact lastLogIndex =>
      have hlast : lastLogIndex ≤ delivered := hspares
      simp only [LogRun.abstractStep, IndexedLog.base_compact, IndexedLog.next_compact,
        IndexedLog.get?_compact]
      refine ⟨by omega, by omega, by omega, ?_⟩
      intro j hj _
      rw [if_neg (by omega)]
  | applyPack index records =>
      rcases hspares with ⟨hafter, hgap⟩
      rcases hallowed with ⟨-, -, -, hrecords, htouch, -⟩
      have hlen := InmemLogStore.length_filterMap_deserialize fun raw hmem => (hrecords raw hmem).2
      have htouch' : run.store.entries = [] ∨ (index ≤ run.store.next ∧
          run.store.base ≤ index + (records.filterMap format.deserialize).length) := by
        rcases htouch with hempty | htouch
        · left
          unfold IndexedLog.next at hempty
          exact List.eq_nil_of_length_eq_zero (by omega)
        · right
          omega
      have hempty : run.store.entries = [] → run.store.next = run.store.base := by
        intro h
        rw [IndexedLog.next, h]
        rfl
      simp only [LogRun.abstractStep, IndexedLog.base_splice, IndexedLog.next_splice htouch',
        IndexedLog.get?_splice htouch']
      refine ⟨?_, ?_, ?_, ?_⟩
      · split
        · rename_i h
          have := hempty h
          omega
        · omega
      · split
        · rename_i h
          have := hempty h
          omega
        · omega
      · split
        · omega
        · omega
      · intro j _ hj
        rw [if_pos (by omega)]

/-- The store holds the agreed entries up to the commit index, from its start on,
and the next entry that the state machine needs is among those it can still
get. -/
structure CommittedLog (agreed : List LogEntry) (dummy : LogEntry) (store : InmemLogStore)
    (delivered commitIndex : Nat) (log : IndexedLog LogEntry) : Prop where
  refines : InmemLogStore.Refines dummy store log
  base_le : log.base ≤ delivered + 1
  delivered_le : delivered ≤ commitIndex
  lt_next : commitIndex < log.next
  agreed : ∀ j, log.base ≤ j → j ≤ commitIndex → AgreedAt agreed j (store.entryAt j)

namespace CommittedLog

variable {agreed : List LogEntry} {dummy : LogEntry} {store : InmemLogStore}
  {delivered commitIndex : Nat} {log : IndexedLog LogEntry}

theorem create (agreed : List LogEntry) (dummy : LogEntry) :
    CommittedLog agreed dummy (.create dummy) 0 0 ⟨1, []⟩ := by
  refine ⟨(LogRun.agrees_create dummy).1, Nat.le_refl 1, Nat.le_refl 0, Nat.zero_lt_one, ?_⟩
  intro j hlow hhigh
  dsimp only at hlow
  omega

/-- The log store after a mutation that spares the committed entries. -/
theorem mutate (h : CommittedLog agreed dummy store delivered commitIndex log) (wire : WireFormat)
    {format : EntryFormat} {event : LogEvent}
    (hallowed : event.Allowed format store.startIndex store.nextSlot)
    (hspares : event.Spares delivered commitIndex store.nextSlot) :
    ∃ run log', LogRun.step wire format ⟨store, []⟩ event = .ok run ∧
      CommittedLog agreed dummy run.store delivered commitIndex log' := by
  have hagrees : LogRun.Agrees dummy ⟨store, []⟩ ⟨log, []⟩ := ⟨h.refines, rfl⟩
  have hstep : ∃ run, LogRun.step wire format ⟨store, []⟩ event = .ok run ∧
      LogRun.Agrees dummy run (LogRun.abstractStep format ⟨log, []⟩ event) :=
    LogRun.step_refines _ _ event hagrees hallowed
  rcases hstep with ⟨run, hrun, hrefines, -⟩
  have hstart : store.startIndex = log.base := h.refines.start_eq
  rw [hstart, h.refines.nextSlot_eq] at hallowed
  rw [h.refines.nextSlot_eq] at hspares
  rcases @LogEvent.keeps_committed format delivered commitIndex ⟨log, []⟩ event hallowed hspares
    h.base_le h.delivered_le h.lt_next with ⟨hgrows, hbase, hnext, hsame⟩
  refine ⟨run, _, hrun, hrefines, hbase, h.delivered_le, hnext, ?_⟩
  intro j hlow hhigh
  have hold := h.refines.get?_eq_find (hgrows.trans hlow) (hhigh.trans_lt h.lt_next)
  have hnew := hrefines.get?_eq_find hlow (hhigh.trans_lt hnext)
  rw [hsame j hlow hhigh, hold] at hnew
  have hfind : store.entryAt j = run.store.entryAt j := Option.some.inj hnew
  rw [← hfind]
  exact h.agreed j (hgrows.trans hlow) hhigh

/-- The log store when the commit index grows. -/
theorem learn (h : CommittedLog agreed dummy store delivered commitIndex log) {index : Nat}
    (hgrows : commitIndex ≤ index) (hnext : index < store.nextSlot)
    (hagreed : ∀ j, commitIndex < j → j ≤ index → AgreedAt agreed j (store.entryAt j)) :
    CommittedLog agreed dummy store delivered index log := by
  rw [h.refines.nextSlot_eq] at hnext
  refine ⟨h.refines, h.base_le, h.delivered_le.trans hgrows, hnext, ?_⟩
  intro j hlow hhigh
  by_cases hknown : j ≤ commitIndex
  · exact h.agreed j hlow hknown
  · exact hagreed j (by omega) hhigh

/-- The log store when the state machine has got one more entry. -/
theorem deliver (h : CommittedLog agreed dummy store delivered commitIndex log)
    (hlt : delivered < commitIndex) :
    CommittedLog agreed dummy store (delivered + 1) commitIndex log := by
  have hbase := h.base_le
  exact ⟨h.refines, by omega, hlt, h.lt_next, h.agreed⟩

end CommittedLog

/-! ## Runs -/

theorem exists_item_of_agreed {wire : WireFormat} {items : List (Option Request)}
    {agreed : List LogEntry} (hlog : List.Forall₂ (Stems wire) items agreed) {d : Nat}
    {entry : LogEntry} (hentry : agreed[d]? = some entry) :
    ∃ item, items[d]? = some item ∧ Stems wire item entry := by
  induction hlog generalizing d with
  | nil => simp at hentry
  | cons hhead _ ih =>
      cases d with
      | zero =>
          simp only [List.getElem?_cons_zero, Option.some.injEq] at hentry
          subst hentry
          exact ⟨_, rfl, hhead⟩
      | succ d => exact ih (by simpa using hentry)

section Follows

variable {ι : Type} {db : SplinterDB Bytes Bytes} {items : List (Option Request)}

/-- The positions that a cluster follows are its own. -/
theorem Follows.delivered_self {c : Cluster ι} {position : ι → Nat}
    (h : Follows db items c position) : Follows db items c c.delivered := by
  have hdelivered := h.delivered
  rw [hdelivered]
  exact h

/-- A read agrees with what its replica has committed. -/
theorem Follows.read (hdb : db.Lawful) {c : Cluster ι} (h : Follows db items c c.delivered)
    (r : ι) (key : Bytes) :
    Follows db items (c.read (fun _ _ => db) r key) c.delivered := by
  refine ⟨rfl, h.counter, h.bounded, h.contents, ?_⟩
  intro o ho
  rcases List.mem_append.mp ho with hold | hnew
  · exact h.observed o hold
  · rw [List.mem_singleton] at hnew
    subst hnew
    intro hlookup
    simp only [h.counter] at hlookup ⊢
    rw [← h.contents r] at hlookup ⊢
    exact read_eq_iff hdb (c.machine r) key hlookup

/-- A replica that starts again has committed nothing. -/
theorem Follows.restart [DecidableEq ι] {c : Cluster ι} (h : Follows db items c c.delivered)
    (r : ι) :
    Follows db items
      { c with
        machine := Function.update c.machine r .create
        delivered := Function.update c.delivered r 0
        failed := Function.update c.failed r [] }
      (Function.update c.delivered r 0) := by
  refine ⟨rfl, ?_, ?_, ?_, h.observed⟩
  · intro r'
    by_cases hr : r' = r
    · subst hr
      simp [StateMachine.create, StateMachine.lastCommitIndex]
    · simp [hr, h.counter r']
  · intro r'
    by_cases hr : r' = r
    · subst hr
      simp
    · simp [hr, h.bounded r']
  · intro r'
    by_cases hr : r' = r
    · subst hr
      simp only [Function.update_self, List.take_zero]
      rfl
    · simp [hr, h.contents r']

end Follows

namespace LoggedCluster

variable {ι : Type} {wire : WireFormat} {format : EntryFormat} {db : SplinterDB Bytes Bytes}
  {dummy : LogEntry} {items : List (Option Request)} {agreed : List LogEntry}

/-- Every state machine is where its position says, and every log store holds what
it needs next. -/
structure Sound (db : SplinterDB Bytes Bytes) (dummy : LogEntry) (items : List (Option Request))
    (agreed : List LogEntry) (s : LoggedCluster ι) : Prop where
  follows : Follows db items s.cluster s.cluster.delivered
  logs : ∀ r, ∃ log, CommittedLog agreed dummy (s.stores r) (s.cluster.delivered r)
    (s.commitIndex r) log

theorem sound_start (db : SplinterDB Bytes Bytes) (dummy : LogEntry)
    (items : List (Option Request)) (agreed : List LogEntry) :
    Sound db dummy items agreed (start ι dummy) := by
  refine ⟨⟨rfl, fun _ => rfl, fun _ => Nat.zero_le _, fun _ => rfl, ?_⟩, ?_⟩
  · simp [start, Cluster.start]
  · exact fun r => ⟨_, .create agreed dummy⟩

variable [DecidableEq ι]

/-- The state after the commit thread has handed over one more entry. -/
theorem Sound.advance {s : LoggedCluster ι} (hs : Sound db dummy items agreed s) {r : ι}
    (hlt : s.cluster.delivered r < s.commitIndex r) (sm : StateMachine) (failed : List Nat)
    {item : Option Request} (hitem : items[s.cluster.delivered r]? = some item)
    (hcounter : sm.lastCommitIndex = s.cluster.delivered r + 1)
    (hcontents : sm.contents = item.elim (s.cluster.machine r).contents
      (Request.effect db (s.cluster.machine r).contents)) :
    Sound db dummy items agreed { s with cluster := s.cluster.advance r sm failed } := by
  refine ⟨(hs.follows.advance r sm failed hitem hcounter hcontents).delivered_self, ?_⟩
  intro r'
  rcases hs.logs r' with ⟨log, hlog⟩
  refine ⟨log, ?_⟩
  by_cases hr : r' = r
  · subst hr
    simp only [Cluster.advance, Function.update_self]
    exact hlog.deliver hlt
  · simp only [Cluster.advance, Function.update_of_ne hr]
    exact hlog

/-- The commit thread finds the agreed entry in its own log. -/
theorem Sound.commitNext (hdb : db.Lawful) (hagreed : List.Forall₂ (Stems wire) items agreed)
    {s : LoggedCluster ι} (hs : Sound db dummy items agreed s) {r : ι}
    (hlt : s.cluster.delivered r < s.commitIndex r) :
    ∃ s', s.commitNext wire db r = .ok s' ∧ Sound db dummy items agreed s' := by
  rcases hs.logs r with ⟨log, hlog⟩
  rcases hlog.agreed (s.cluster.delivered r + 1) hlog.base_le hlt with ⟨entry, hentry, hmatches⟩
  rw [Nat.add_sub_cancel] at hentry
  rcases exists_item_of_agreed hagreed hentry with ⟨item, hitem, hstems⟩
  unfold LoggedCluster.commitNext
  cases hstems.of_matches hmatches with
  | request htype hpayload =>
      dsimp only
      rw [if_pos htype, commit_handlerAppends hpayload]
      refine ⟨_, rfl, hs.advance hlt _ _ hitem rfl ?_⟩
      exact call_reachedCall_contents hdb _ _
  | configuration htype =>
      have hother : confLog ≠ appLog := by decide
      dsimp only
      rw [htype, if_neg hother, if_pos rfl]
      exact ⟨_, rfl, hs.advance hlt _ _ hitem rfl rfl⟩

/-- Every event that is allowed completes and keeps the invariant. -/
theorem step_sound (hdb : db.Lawful) (hagreed : List.Forall₂ (Stems wire) items agreed)
    (s : LoggedCluster ι) (event : LoggedEvent ι) (hs : Sound db dummy items agreed s)
    (hallows : s.Allows format agreed event) :
    ∃ s', s.step wire format db dummy event = .ok s' ∧ Sound db dummy items agreed s' := by
  cases event with
  | mutate r event =>
      rcases hallows with ⟨hallowed, hspares⟩
      rcases hs.logs r with ⟨log, hlog⟩
      rcases hlog.mutate wire hallowed hspares with ⟨run, log', hrun, hlog'⟩
      simp only [step, hrun]
      refine ⟨_, rfl, hs.follows, ?_⟩
      intro r'
      by_cases hr : r' = r
      · subst hr
        exact ⟨log', by simpa using hlog'⟩
      · simpa [hr] using hs.logs r'
  | learn r index =>
      rcases hallows with ⟨hgrows, hnext, hlearned⟩
      rcases hs.logs r with ⟨log, hlog⟩
      refine ⟨_, rfl, hs.follows, ?_⟩
      intro r'
      by_cases hr : r' = r
      · subst hr
        exact ⟨log, by simpa using hlog.learn hgrows hnext hlearned⟩
      · simpa [hr] using hs.logs r'
  | commit r => exact hs.commitNext hdb hagreed hallows
  | read r key =>
      exact ⟨_, rfl, hs.follows.read hdb r key, hs.logs⟩
  | restart r =>
      refine ⟨_, rfl, (hs.follows.restart r).delivered_self, ?_⟩
      intro r'
      by_cases hr : r' = r
      · subst hr
        exact ⟨_, by simpa using CommittedLog.create agreed dummy⟩
      · simpa [hr] using hs.logs r'

/-- A commit that returns moves the position of its server by one. -/
theorem commitNext_delivered {s s' : LoggedCluster ι} {r : ι}
    (h : s.commitNext wire db r = .ok s') :
    s'.cluster.delivered = Function.update s.cluster.delivered r (s.cluster.delivered r + 1) := by
  unfold LoggedCluster.commitNext at h
  dsimp only at h
  split at h
  · split at h
    · cases h
    · cases h
      rfl
  · split at h
    · cases h
      rfl
    · cases h
      rfl

/-- The positions count the commits since the last start. -/
theorem step_delivered {s s' : LoggedCluster ι} {event : LoggedEvent ι}
    (h : s.step wire format db dummy event = .ok s') :
    s'.cluster.delivered = event.countCommit s.cluster.delivered := by
  cases event with
  | mutate r event =>
      simp only [step] at h
      split at h
      · cases h
      · cases h
        rfl
  | learn r index =>
      cases h
      rfl
  | commit r => exact commitNext_delivered h
  | read r key =>
      cases h
      rfl
  | restart r =>
      cases h
      rfl

end LoggedCluster

/-- Let the agreed log stem from requests through their handlers and from
configuration changes, let the storage be deterministic, and let NuRaft keep what
Raft promises.  Then every interleaving of changes to the log stores, commits,
reads and restarts completes.  Afterwards, at every server: the commit counter is
the number of commits of the run at this server since it was started last, the
contents are the fold of the requests up to there, and a read agrees with that
fold, as did every read before; and the log store still holds, from its start up
to the commit index, the entries that were agreed on, so that two servers have
matching entries at every such index. -/
theorem logged_replicas_fold_agreed_log {ι : Type} [DecidableEq ι] (wire : WireFormat)
    (format : EntryFormat) (db : SplinterDB Bytes Bytes) (hdb : db.Lawful) (dummy : LogEntry)
    (items : List (Option Request)) (agreed : List LogEntry)
    (hagreed : List.Forall₂ (Stems wire) items agreed) (events : List (LoggedEvent ι))
    (hallows : Admissible (LoggedCluster.Allows format agreed)
      (LoggedCluster.step wire format db dummy) events (LoggedCluster.start ι dummy)) :
    ∃ s, runEvents (LoggedCluster.step wire format db dummy) events
        (LoggedCluster.start ι dummy) = .ok s ∧
      (∀ r, (s.cluster.machine r).lastCommitIndex = s.cluster.delivered r ∧
        s.cluster.delivered r = commitsSinceStart events r ∧
        s.cluster.delivered r ≤ s.commitIndex r ∧ s.commitIndex r < (s.stores r).nextSlot ∧
        (s.cluster.machine r).contents =
          foldItems (Request.effect db) (items.take (s.cluster.delivered r)) ∧
        (∀ key, ReadAgrees db
          (foldItems (Request.effect db) (items.take (s.cluster.delivered r))) key
          (read db (s.cluster.machine r) key)) ∧
        ∀ j, (s.stores r).startIndex ≤ j → j ≤ s.commitIndex r →
          AgreedAt agreed j ((s.stores r).entryAt j)) ∧
      (∀ r r' j, (s.stores r).startIndex ≤ j → (s.stores r').startIndex ≤ j →
        j ≤ s.commitIndex r → j ≤ s.commitIndex r' →
        ((s.stores r).entryAt j).Matches ((s.stores r').entryAt j)) ∧
      ∀ o ∈ s.cluster.observations,
        ReadAgrees db (foldItems (Request.effect db) (items.take o.upTo)) o.key o.result := by
  -- each step keeps the invariant and moves the positions as the counts of commits
  have hstep : ∀ (s : LoggedCluster ι) counts event,
      s.Sound db dummy items agreed ∧ s.cluster.delivered = counts → s.Allows format agreed event →
      ∃ s', s.step wire format db dummy event = .ok s' ∧ s'.Sound db dummy items agreed ∧
        s'.cluster.delivered = LoggedEvent.countCommit counts event := by
    rintro s counts event ⟨hs, rfl⟩ hallowed
    rcases LoggedCluster.step_sound hdb hagreed s event hs hallowed with ⟨s', hstep, hs'⟩
    exact ⟨s', hstep, hs', LoggedCluster.step_delivered hstep⟩
  rcases runEvents_simulation hstep events
    ⟨LoggedCluster.sound_start db dummy items agreed, rfl⟩ hallows with ⟨s, hrun, hs, hcounts⟩
  have hstored : ∀ r j, (s.stores r).startIndex ≤ j → j ≤ s.commitIndex r →
      AgreedAt agreed j ((s.stores r).entryAt j) := by
    intro r j hlow hhigh
    rcases hs.logs r with ⟨log, hlog⟩
    have hstart : (s.stores r).startIndex = log.base := hlog.refines.start_eq
    exact hlog.agreed j (hstart ▸ hlow) hhigh
  refine ⟨s, hrun, ?_, ?_, hs.follows.observed⟩
  · intro r
    rcases hs.logs r with ⟨log, hlog⟩
    have hcontents := hs.follows.contents r
    refine ⟨hs.follows.counter r, congrFun hcounts r, hlog.delivered_le, ?_, hcontents, ?_,
      hstored r⟩
    · rw [hlog.refines.nextSlot_eq]
      exact hlog.lt_next
    · intro key hlookup
      rw [← hcontents] at hlookup ⊢
      exact read_eq_iff hdb (s.cluster.machine r) key hlookup
  · intro r r' j hlow hlow' hhigh hhigh'
    rcases hstored r j hlow hhigh with ⟨e, he, hterm, htype, hbuf⟩
    rcases hstored r' j hlow' hhigh' with ⟨e', he', hterm', htype', hbuf'⟩
    rw [he] at he'
    cases he'
    exact ⟨hterm.trans hterm'.symm, htype.trans htype'.symm, hbuf.trans hbuf'.symm⟩

/-- The entry of a put, as the leader of the first term appends it. -/
def putEntry : LogEntry :=
  .create 1 ((Operation.makePut ⟨[107]⟩ ⟨[118]⟩).encode .littleEndian) appLog

/-- A server that commits its first entry while the entry behind it is overwritten,
next to one that is started again. -/
def overwritingRun : List (LoggedEvent Bool) :=
  [.mutate true (.append putEntry), .mutate true (.append (.create 1 [0] appLog)), .learn true 1,
    .mutate true (.writeAt 2 (.create 2 [] confLog)), .commit true, .read true [107],
    .restart false]

/-- In this run the server has the value of the put, and the one that was started
again has nothing. -/
theorem logged_replicas_fold_agreed_put :
    ∃ s, runEvents (LoggedCluster.step .littleEndian (.nuraft .littleEndian)
        (.reliable Bytes Bytes) (dummyEntry (List.replicate 8 0))) overwritingRun
        (LoggedCluster.start Bool (dummyEntry (List.replicate 8 0))) = .ok s ∧
      s.cluster.delivered true = 1 ∧ s.cluster.delivered false = 0 ∧
      (s.cluster.machine true).contents [107] = some [118] ∧
      (s.cluster.machine false).contents [107] = none := by
  have hallows : Admissible (LoggedCluster.Allows (.nuraft .littleEndian) [putEntry])
      (LoggedCluster.step .littleEndian (.nuraft .littleEndian) (.reliable Bytes Bytes)
        (dummyEntry (List.replicate 8 0))) overwritingRun
      (LoggedCluster.start Bool (dummyEntry (List.replicate 8 0))) := by
    refine ⟨⟨by decide, trivial⟩, ?_⟩
    intro s₁ h₁
    cases h₁
    refine ⟨⟨by decide, trivial⟩, ?_⟩
    intro s₂ h₂
    cases h₂
    refine ⟨⟨by decide, by decide, ?_⟩, ?_⟩
    · intro j hlow hhigh
      have hj : j = 1 := Nat.le_antisymm hhigh hlow
      subst hj
      exact ⟨_, rfl, rfl, rfl, rfl⟩
    intro s₃ h₃
    cases h₃
    refine ⟨⟨by decide, Nat.one_lt_two⟩, ?_⟩
    intro s₄ h₄
    cases h₄
    exact ⟨Nat.one_pos, fun _ _ => ⟨trivial, fun _ _ => ⟨trivial, fun _ _ => trivial⟩⟩⟩
  have hagreed : List.Forall₂ (Stems .littleEndian) [some (.put [107] [118])] [putEntry] :=
    .cons (.request rfl ((handlerAppends_iff _ _ _).mpr ⟨by decide, rfl⟩)) .nil
  rcases logged_replicas_fold_agreed_log .littleEndian _ _
    (SplinterDB.reliable_lawful Bytes Bytes) _ _ _ hagreed _ hallows with ⟨s, hrun, hservers, -⟩
  have hone : s.cluster.delivered true = 1 := (hservers true).2.1
  have hnone : s.cluster.delivered false = 0 := (hservers false).2.1
  refine ⟨s, hrun, hone, hnone, ?_, ?_⟩
  · rw [(hservers true).2.2.2.2.1, hone]
    rfl
  · rw [(hservers false).2.2.2.2.1, hnone]
    rfl

end ReplicatedSplinterDB
