import ReplicatedSplinterDB.Server.Replica
import ReplicatedSplinterDB.Foundation.EventRun
import Mathlib.Data.List.Forall2

/-!
# Replication over whole runs

NuRaft delivers one common log to every replica, in index order and without
gaps or repeats.  A cluster takes two kinds of events, in any order and on any
number of replicas: the delivery of the next log entry to one replica, and a
read at one replica.  The storage may behave differently at each replica and
each log index, so that a primitive can fail on one replica alone.

The abstract side of the development is the log itself: the fold of the
requests' effects for a deterministic storage, and a replay that skips the
entries that failed for a storage with local faults.

Main results:

- Theorem {lit}`replicas_fold_committed_log`: with a deterministic storage
  every replica is the fold of the requests it has been given, at every moment
  of every run.
- Theorem {lit}`commit_counter_and_local_faults`: with local faults the commit
  counter moves in any case, the result buffer says whether the effect is
  there, and replicas agree if the same entries failed on them.
-/

namespace ReplicatedSplinterDB

open Foundation

/-! ## The cluster -/

/-- An entry of the committed log. -/
inductive CommittedEntry where
  | application (payload : Bytes)
  | configuration
deriving DecidableEq, Repr

/-- What a client saw when it read at a replica. -/
structure Observation (ι : Type) where
  replica : ι
  key : Bytes
  upTo : Nat
  result : OwnedSlice × Int32

/-- The replicas of a cluster, with NuRaft's delivery position for each, the
log indices at which a replica's storage refused, and the reads so far. -/
structure Cluster (ι : Type) where
  machine : ι → StateMachine
  delivered : ι → Nat
  failed : ι → List Nat
  observations : List (Observation ι)

/-- Fresh replicas before any delivery. -/
def Cluster.start (ι : Type) : Cluster ι := ⟨fun _ => .create, fun _ => 0, fun _ => [], []⟩

/-- An event of a cluster: the next delivery to a replica, or a read at it. -/
inductive ClusterEvent (ι : Type) where
  | deliver (replica : ι)
  | read (replica : ι) (key : Bytes)
deriving DecidableEq, Repr

section Cluster

variable {ι : Type} [DecidableEq ι] (wire : WireFormat)
  (db : ι → Nat → SplinterDB Bytes Bytes) (log : List CommittedEntry)

/-- The next log entry has been handed to a replica. -/
def Cluster.advance (c : Cluster ι) (r : ι) (sm : StateMachine) (failed : List Nat) : Cluster ι :=
  { c with
    machine := Function.update c.machine r sm
    delivered := Function.update c.delivered r (c.delivered r + 1)
    failed := Function.update c.failed r failed }

/-- Hand the next log entry, if there is one, to a replica. -/
def Cluster.deliver (c : Cluster ι) (r : ι) : Except Exception (Cluster ι) :=
  let logIdx := c.delivered r + 1
  match log[c.delivered r]? with
  | none => .ok c
  | some .configuration =>
      .ok (c.advance r (commitConfig logIdx (c.machine r)) (c.failed r))
  | some (.application payload) =>
      match (commit wire (db r logIdx) logIdx (.ofBytes payload)).run (c.machine r) with
      | .error e _ => .error e
      | .ok ret sm =>
          .ok (c.advance r sm
            (if resultCode wire ret = 0 then c.failed r else c.failed r ++ [logIdx]))

/-- Read a key at a replica. -/
def Cluster.read (c : Cluster ι) (r : ι) (key : Bytes) : Cluster ι :=
  { c with
    observations := c.observations ++
      [⟨r, key, (c.machine r).lastCommitIndex,
        ReplicatedSplinterDB.read (db r (c.delivered r)) (c.machine r) key⟩] }

/-- One event of a cluster. -/
def Cluster.step (c : Cluster ι) : ClusterEvent ι → Except Exception (Cluster ι)
  | .deliver r => c.deliver wire db log r
  | .read r key => .ok (c.read db r key)

/-- Everything that a delivery which returns can have done. -/
theorem Cluster.deliver_cases {c c' : Cluster ι} {r : ι}
    (h : c.deliver wire db log r = .ok c') :
    (log[c.delivered r]? = none ∧ c' = c) ∨
    (log[c.delivered r]? = some .configuration ∧
      c' = c.advance r (commitConfig (c.delivered r + 1) (c.machine r)) (c.failed r)) ∨
    (∃ payload ret sm, log[c.delivered r]? = some (.application payload) ∧
      (commit wire (db r (c.delivered r + 1)) (c.delivered r + 1) (.ofBytes payload)).run
        (c.machine r) = .ok ret sm ∧
      c' = c.advance r sm (if resultCode wire ret = 0 then c.failed r
        else c.failed r ++ [c.delivered r + 1])) := by
  unfold Cluster.deliver at h
  cases hentry : log[c.delivered r]? with
  | none =>
      rw [hentry] at h
      cases h
      exact Or.inl ⟨rfl, rfl⟩
  | some entry =>
      rw [hentry] at h
      cases entry with
      | configuration =>
          cases h
          exact Or.inr (Or.inl ⟨rfl, rfl⟩)
      | application payload =>
          simp only at h
          cases hcommit : (commit wire (db r (c.delivered r + 1)) (c.delivered r + 1)
              (.ofBytes payload)).run (c.machine r) with
          | error e sm =>
              rw [hcommit] at h
              cases h
          | ok ret sm =>
              rw [hcommit] at h
              cases h
              exact Or.inr (Or.inr ⟨payload, ret, sm, rfl, hcommit, rfl⟩)

end Cluster

/-! ## Deterministic storage: the fold of the requests -/

/-- The effect of a request on the contents: puts and updates both set the
key, deletes remove it, and a primitive that refuses changes nothing. -/
def Request.effect (db : SplinterDB Bytes Bytes) (m : KVMap Bytes Bytes) :
    Request → KVMap Bytes Bytes
  | .put key value => if (db.insert m key value).1 = 0 then m.set key value else m
  | .update key value => if (db.insert m key value).1 = 0 then m.set key value else m
  | .delete key => if (db.delete m key).1 = 0 then m.erase key else m

/-- The effect of a request whose primitive succeeds. -/
def Request.plainEffect (m : KVMap Bytes Bytes) : Request → KVMap Bytes Bytes
  | .put key value => m.set key value
  | .update key value => m.set key value
  | .delete key => m.erase key

/-- Fold the effects of the requests of a log from the empty store.  The item
of a configuration entry is {lit}`none`. -/
def foldItems (effect : KVMap Bytes Bytes → Request → KVMap Bytes Bytes)
    (items : List (Option Request)) : KVMap Bytes Bytes :=
  items.foldl (fun m item => item.elim m (effect m)) fun _ => none

/-- The committed entry stems from this item: a request through its handler, or
a configuration change. -/
inductive Produced (wire : WireFormat) : Option Request → CommittedEntry → Prop
  | request {request : Request} {payload : Bytes} (h : HandlerAppends wire request payload) :
      Produced wire (some request) (.application payload)
  | configuration : Produced wire none .configuration

section Fold

variable {db : SplinterDB Bytes Bytes}

/-- The primitive that a request reaches has the request's effect. -/
theorem call_reachedCall_contents (hdb : db.Lawful) (h : Handle Bytes Bytes) (request : Request) :
    (h.call db (reachedCall request)).2.contents = request.effect db h.contents := by
  rw [Handle.call_contents hdb]
  cases request <;> rfl

/-- Without refusals the effect of a request is the plain one. -/
theorem Request.effect_eq_plainEffect (hinsert : ∀ m k v, (db.insert m k v).1 = 0)
    (hdelete : ∀ m k, (db.delete m k).1 = 0) : Request.effect db = Request.plainEffect := by
  funext m request
  cases request <;> simp [Request.effect, Request.plainEffect, hinsert, hdelete]

theorem foldItems_take_succ (effect : KVMap Bytes Bytes → Request → KVMap Bytes Bytes)
    {items : List (Option Request)} {d : Nat} {item : Option Request}
    (hitem : items[d]? = some item) :
    foldItems effect (items.take (d + 1)) =
      item.elim (foldItems effect (items.take d)) (effect (foldItems effect (items.take d))) := by
  unfold foldItems
  rw [List.take_add_one, hitem, List.foldl_append]
  rfl

/-- The entry at a position stems from the item at that position. -/
theorem exists_item_of_entry {wire : WireFormat} {items : List (Option Request)}
    {log : List CommittedEntry} (hlog : List.Forall₂ (Produced wire) items log)
    {d : Nat} {entry : CommittedEntry} (hentry : log[d]? = some entry) :
    ∃ item, items[d]? = some item ∧ Produced wire item entry := by
  induction hlog generalizing d with
  | nil => simp at hentry
  | cons hhead _ ih =>
      cases d with
      | zero =>
          simp only [List.getElem?_cons_zero, Option.some.injEq] at hentry
          subst hentry
          exact ⟨_, rfl, hhead⟩
      | succ d => exact ih (by simpa using hentry)

end Fold

/-! ### The run invariant -/

section Follows

variable {ι : Type} [DecidableEq ι] {wire : WireFormat} {db : SplinterDB Bytes Bytes}
  {items : List (Option Request)} {log : List CommittedEntry}

/-- What a read returns is what these contents bind to the key, provided that
the lookup itself succeeds. -/
def ReadAgrees (db : SplinterDB Bytes Bytes) (m : KVMap Bytes Bytes) (key : Bytes)
    (result : OwnedSlice × Int32) : Prop :=
  (db.lookup m key).1 = 0 →
    (∀ value, result = (⟨value⟩, 0) ↔ m key = some value) ∧
      (m key = none → result.1 = ⟨[]⟩ ∧ result.2 ≠ 0)

/-- The cluster is where the positions say: every replica has committed the
items up to its position, and every read agreed with the items it had seen. -/
structure Follows (db : SplinterDB Bytes Bytes) (items : List (Option Request))
    (c : Cluster ι) (position : ι → Nat) : Prop where
  delivered : c.delivered = position
  counter : ∀ r, (c.machine r).lastCommitIndex = position r
  bounded : ∀ r, position r ≤ items.length
  contents : ∀ r, (c.machine r).contents =
    foldItems (Request.effect db) (items.take (position r))
  observed : ∀ o ∈ c.observations,
    ReadAgrees db (foldItems (Request.effect db) (items.take o.upTo)) o.key o.result

/-- The abstract step: a delivery moves one position up to the end of the log,
a read moves none. -/
def nextPosition (len : Nat) (position : ι → Nat) : ClusterEvent ι → ι → Nat
  | .deliver r => Function.update position r (min (position r + 1) len)
  | .read _ _ => position

/-- Moving one replica to the state after the next item keeps the relation. -/
theorem Follows.advance {c : Cluster ι} {position : ι → Nat} (hc : Follows db items c position)
    (r : ι) (sm : StateMachine) (failed : List Nat) {item : Option Request}
    (hitem : items[position r]? = some item) (hcounter : sm.lastCommitIndex = position r + 1)
    (hcontents : sm.contents = item.elim (c.machine r).contents
      (Request.effect db (c.machine r).contents)) :
    Follows db items (c.advance r sm failed) (nextPosition items.length position (.deliver r)) := by
  have hlt : position r < items.length := (List.getElem?_eq_some_iff.mp hitem).1
  have hmin : min (position r + 1) items.length = position r + 1 := Nat.min_eq_left hlt
  rcases hc with ⟨hdelivered, hcount, hbound, hfold, hobserved⟩
  refine ⟨?_, ?_, ?_, ?_, hobserved⟩
  · simp [Cluster.advance, nextPosition, hdelivered, hmin]
  · intro r'
    by_cases hr : r' = r
    · subst hr
      simp [Cluster.advance, nextPosition, hcounter, hmin]
    · simp [Cluster.advance, nextPosition, hr, hcount]
  · intro r'
    by_cases hr : r' = r
    · subst hr
      simp [nextPosition]
    · simp [nextPosition, hr, hbound]
  · intro r'
    by_cases hr : r' = r
    · subst hr
      simp only [Cluster.advance, nextPosition, Function.update_self, hmin]
      rw [hcontents, hfold, foldItems_take_succ _ hitem]
    · simp [Cluster.advance, nextPosition, hr, hfold]

/-- A delivery at the end of the log changes nothing. -/
theorem Follows.deliver_end {c : Cluster ι} {position : ι → Nat}
    (hc : Follows db items c position) {r : ι} (hend : items.length ≤ position r) :
    Follows db items c (nextPosition items.length position (.deliver r)) := by
  have hsame : nextPosition items.length position (.deliver r) = position := by
    have hmin : min (position r + 1) items.length = position r := by
      have := hc.bounded r
      omega
    simp [nextPosition, hmin]
  rw [hsame]
  exact hc

/-- One event of the cluster completes and moves the abstract position. -/
theorem Follows.step (hdb : db.Lawful) (hlog : List.Forall₂ (Produced wire) items log)
    {c : Cluster ι} {position : ι → Nat} (hc : Follows db items c position)
    (event : ClusterEvent ι) :
    ∃ c', c.step wire (fun _ _ => db) log event = .ok c' ∧
      Follows db items c' (nextPosition items.length position event) := by
  cases event with
  | read r key =>
      refine ⟨_, rfl, hc.delivered, hc.counter, hc.bounded, hc.contents, ?_⟩
      intro o ho
      rcases List.mem_append.mp ho with hold | hnew
      · exact hc.observed o hold
      · rw [List.mem_singleton] at hnew
        subst hnew
        intro hlookup
        simp only [hc.counter] at hlookup ⊢
        rw [← hc.contents r] at hlookup ⊢
        exact read_eq_iff hdb (c.machine r) key hlookup
  | deliver r =>
      have hdelivered : c.delivered r = position r := congrFun hc.delivered r
      simp only [Cluster.step, Cluster.deliver, hdelivered]
      cases hentry : log[position r]? with
      | none =>
          have hend : items.length ≤ position r := by
            rw [hlog.length_eq]
            exact List.getElem?_eq_none_iff.mp hentry
          exact ⟨c, rfl, hc.deliver_end hend⟩
      | some entry =>
          rcases exists_item_of_entry hlog hentry with ⟨item, hitem, hproduced⟩
          cases hproduced with
          | configuration => exact ⟨_, rfl, hc.advance r _ _ hitem rfl rfl⟩
          | request hpayload =>
              simp only [commit_handlerAppends hpayload]
              refine ⟨_, rfl, hc.advance r _ _ hitem rfl ?_⟩
              exact call_reachedCall_contents hdb _ _

/-- The position of a replica after a run counts its deliveries. -/
theorem foldl_nextPosition (len : Nat) (events : List (ClusterEvent ι)) (position : ι → Nat)
    (r : ι) (hbound : position r ≤ len) :
    events.foldl (nextPosition len) position r =
      min (position r + events.count (.deliver r)) len := by
  induction events generalizing position with
  | nil => simpa using hbound
  | cons event events ih =>
      rw [List.foldl_cons]
      by_cases hevent : event = .deliver r
      · subst hevent
        rw [ih _ (by simp [nextPosition])]
        simp only [nextPosition, Function.update_self, List.count_cons_self]
        omega
      · have hsame : nextPosition len position event r = position r := by
          cases event with
          | read r' key => rfl
          | deliver r' =>
              have hr : r ≠ r' := fun h => hevent (by rw [h])
              simp [nextPosition, hr]
        rw [ih _ (by rw [hsame]; exact hbound), hsame, List.count_cons_of_ne hevent]

/-- Every run from the start completes, in the positions that count its
deliveries. -/
theorem follows_run (hdb : db.Lawful) (hlog : List.Forall₂ (Produced wire) items log)
    (events : List (ClusterEvent ι)) :
    ∃ c, runEvents (Cluster.step wire (fun _ _ => db) log) events (Cluster.start ι) = .ok c ∧
      Follows db items c fun r => min (events.count (.deliver r)) log.length := by
  have hstart : Follows db items (Cluster.start ι) fun _ => 0 :=
    ⟨rfl, fun _ => rfl, fun _ => Nat.zero_le _, fun _ => rfl, by simp [Cluster.start]⟩
  have hstep : ∀ (c : Cluster ι) position event, Follows db items c position → True →
      ∃ c', c.step wire (fun _ _ => db) log event = .ok c' ∧
        Follows db items c' (nextPosition items.length position event) :=
    fun c position event hc _ => hc.step hdb hlog event
  rcases runEvents_simulation hstep events hstart
    (admissible_of_forall (fun _ _ => trivial) events _) with ⟨c, hrun, hc⟩
  have hposition : events.foldl (nextPosition items.length) (fun _ => 0) =
      fun r => min (events.count (.deliver r)) log.length := by
    funext r
    rw [foldl_nextPosition items.length events _ r (Nat.zero_le _), hlog.length_eq,
      Nat.zero_add]
  rw [hposition] at hc
  exact ⟨c, hrun, hc⟩

/-- The reads so far stay on record. -/
theorem Cluster.step_observations {db : ι → Nat → SplinterDB Bytes Bytes} {c c' : Cluster ι}
    {event : ClusterEvent ι} (h : c.step wire db log event = .ok c') :
    c.observations <+: c'.observations := by
  cases event with
  | read r key =>
      cases h
      exact List.prefix_append _ _
  | deliver r =>
      rcases Cluster.deliver_cases wire db log h with ⟨-, rfl⟩ | ⟨-, rfl⟩ | ⟨_, _, _, -, -, rfl⟩
      · exact List.prefix_rfl
      · exact List.prefix_rfl
      · exact List.prefix_rfl

/-- A read in the middle of a run is on record as it was made. -/
theorem Cluster.observation_of_read {db : ι → Nat → SplinterDB Bytes Bytes} {mid c : Cluster ι}
    {r : ι} {key : Bytes} {after : List (ClusterEvent ι)}
    (h : runEvents (Cluster.step wire db log) (.read r key :: after) mid = .ok c) :
    c.observations[mid.observations.length]? =
      some ⟨r, key, (mid.machine r).lastCommitIndex,
        ReplicatedSplinterDB.read (db r (mid.delivered r)) (mid.machine r) key⟩ := by
  have hgrows : ∀ (c₁ : Cluster ι) event (c₂ : Cluster ι),
      (mid.read db r key).observations <+: c₁.observations →
      c₁.step wire db log event = .ok c₂ → (mid.read db r key).observations <+: c₂.observations :=
    fun _ _ _ hprefix hstep => hprefix.trans (step_observations hstep)
  have hkept : (mid.read db r key).observations <+: c.observations :=
    runEvents_invariant hgrows List.prefix_rfl h
  rcases hkept with ⟨rest, hrest⟩
  rw [← hrest]
  simp [Cluster.read]

end Follows

/-- Let NuRaft deliver to every replica the log that the handlers and
configuration changes produced, and let the storage be deterministic.  Then
every interleaving of deliveries and reads completes, and afterwards, at every
replica: the commit counter is the index of the last entry delivered to it, the
contents are the fold of the requests up to that index (the plain fold if no
primitive refuses), and a read agrees with that fold, as did every read before.
Every read of the run is on record, at its place, as what its replica returned
with the entries delivered to it by then. -/
theorem replicas_fold_committed_log {ι : Type} [DecidableEq ι] (wire : WireFormat)
    (db : SplinterDB Bytes Bytes) (hdb : db.Lawful) (items : List (Option Request))
    (log : List CommittedEntry) (hlog : List.Forall₂ (Produced wire) items log)
    (events : List (ClusterEvent ι)) :
    ∃ c : Cluster ι,
      runEvents (Cluster.step wire (fun _ _ => db) log) events (Cluster.start ι) = .ok c ∧
      (∀ r, (c.machine r).lastCommitIndex = min (events.count (.deliver r)) log.length ∧
        (c.machine r).contents =
          foldItems (Request.effect db) (items.take (c.machine r).lastCommitIndex) ∧
        ((∀ m k v, (db.insert m k v).1 = 0) → (∀ m k, (db.delete m k).1 = 0) →
          (c.machine r).contents =
            foldItems Request.plainEffect (items.take (c.machine r).lastCommitIndex)) ∧
        ∀ key, ReadAgrees db
          (foldItems (Request.effect db) (items.take (c.machine r).lastCommitIndex)) key
          (read db (c.machine r) key)) ∧
      (∀ o ∈ c.observations,
        ReadAgrees db (foldItems (Request.effect db) (items.take o.upTo)) o.key o.result) ∧
      ∀ before r key after, events = before ++ .read r key :: after →
        ∃ mid : Cluster ι,
          runEvents (Cluster.step wire (fun _ _ => db) log) before (Cluster.start ι) = .ok mid ∧
          c.observations[mid.observations.length]? =
            some ⟨r, key, min (before.count (.deliver r)) log.length,
              read db (mid.machine r) key⟩ := by
  rcases follows_run hdb hlog events with ⟨c, hrun, hc⟩
  refine ⟨c, hrun, ?_, hc.observed, ?_⟩
  · intro r
    have hcounter := hc.counter r
    have hcontents := hc.contents r
    rw [← hcounter] at hcontents
    refine ⟨hcounter, hcontents, ?_, ?_⟩
    · intro hinsert hdelete
      rw [hcontents, Request.effect_eq_plainEffect hinsert hdelete]
    · intro key hlookup
      rw [← hcontents] at hlookup ⊢
      exact read_eq_iff hdb (c.machine r) key hlookup
  · rintro before r key after rfl
    rcases follows_run hdb hlog before with ⟨mid, hmid, hfollows⟩
    rw [runEvents_append_of_ok hmid] at hrun
    have hread := Cluster.observation_of_read hrun
    rw [hfollows.counter r] at hread
    exact ⟨mid, hmid, hread⟩

/-- Two replicas of a log of one put and one configuration change: the replica
that was given both entries has the value and counts two. -/
theorem replicas_fold_committed_log_two :
    ∃ c : Cluster Bool,
      runEvents (Cluster.step .littleEndian (fun _ _ => .reliable Bytes Bytes)
        [.application ((Operation.makePut ⟨[107]⟩ ⟨[118]⟩).encode .littleEndian), .configuration])
        [.deliver true, .read true [107], .deliver true, .read false [107]]
        (Cluster.start Bool) = .ok c ∧
      (c.machine true).lastCommitIndex = 2 ∧ (c.machine true).contents [107] = some [118] ∧
      (c.machine false).lastCommitIndex = 0 := by
  have hlog : List.Forall₂ (Produced .littleEndian) [some (.put [107] [118]), none]
      [.application ((Operation.makePut ⟨[107]⟩ ⟨[118]⟩).encode .littleEndian),
        .configuration] :=
    .cons (.request ((handlerAppends_iff _ _ _).mpr ⟨by decide, rfl⟩)) (.cons .configuration .nil)
  rcases replicas_fold_committed_log (ι := Bool) .littleEndian _
    (SplinterDB.reliable_lawful Bytes Bytes) _ _ hlog
    [.deliver true, .read true [107], .deliver true, .read false [107]] with ⟨c, hrun, hc, -, -⟩
  rcases hc true with ⟨hcounter, -, hplain, -⟩
  have hcontents := hplain (fun _ _ _ => rfl) (fun _ _ => rfl)
  refine ⟨c, hrun, hcounter, ?_, (hc false).1⟩
  rw [hcontents, hcounter]
  rfl

/-! ## Local faults: replay without the failed entries -/

/-- The effect of a committed entry whose primitive succeeds. -/
def CommittedEntry.effect (wire : WireFormat) (m : KVMap Bytes Bytes) :
    CommittedEntry → KVMap Bytes Bytes
  | .configuration => m
  | .application payload =>
      match Operation.deserialize wire (.ofBytes payload) with
      | .error _ => m
      | .ok op =>
          match op.primitive with
          | .error _ => m
          | .ok call => call.effect m

/-- Replay the first entries of a log, leaving out the listed indices. -/
def replay (wire : WireFormat) (log : List CommittedEntry) (skip : List Nat) :
    Nat → KVMap Bytes Bytes
  | 0 => fun _ => none
  | d + 1 =>
      let m := replay wire log skip d
      match log[d]? with
      | none => m
      | some entry => if d + 1 ∈ skip then m else entry.effect wire m

/-- A replay only looks at the skipped indices that it reaches. -/
theorem replay_congr (wire : WireFormat) (log : List CommittedEntry) (skip skip' : List Nat)
    (d : Nat) (h : ∀ i ≤ d, i ∈ skip ↔ i ∈ skip') :
    replay wire log skip d = replay wire log skip' d := by
  induction d with
  | zero => rfl
  | succ d ih =>
      have hrest := ih fun i hi => h i (Nat.le_succ_of_le hi)
      simp only [replay, hrest, h (d + 1) (Nat.le_refl _)]

section Faults

variable {ι : Type} [DecidableEq ι] {wire : WireFormat}
  {db : ι → Nat → SplinterDB Bytes Bytes} {log : List CommittedEntry}

/-- Every replica is the replay of what it was given without what failed. -/
structure Replays (wire : WireFormat) (log : List CommittedEntry) (c : Cluster ι) : Prop where
  counter : ∀ r, (c.machine r).lastCommitIndex = c.delivered r
  failed_le : ∀ r, ∀ i ∈ c.failed r, i ≤ c.delivered r
  contents : ∀ r, (c.machine r).contents = replay wire log (c.failed r) (c.delivered r)

/-- Moving one replica past the next entry keeps the invariant if the entry's
effect is there exactly when the entry is not recorded as failed. -/
theorem Replays.advance {c : Cluster ι} (hc : Replays wire log c) (r : ι) (sm : StateMachine)
    (ok : Bool) {entry : CommittedEntry} (hentry : log[c.delivered r]? = some entry)
    (hcounter : sm.lastCommitIndex = c.delivered r + 1)
    (hcontents : sm.contents =
      if ok = true then entry.effect wire (c.machine r).contents else (c.machine r).contents) :
    Replays wire log
      (c.advance r sm (if ok = true then c.failed r else c.failed r ++ [c.delivered r + 1])) := by
  rcases hc with ⟨hcount, hle, hreplay⟩
  have hfresh : c.delivered r + 1 ∉ c.failed r := by
    intro hmem
    have := hle r _ hmem
    omega
  refine ⟨?_, ?_, ?_⟩
  · intro r'
    by_cases hr : r' = r
    · subst hr
      simp [Cluster.advance, hcounter]
    · simp [Cluster.advance, hr, hcount]
  · intro r' i
    by_cases hr : r' = r
    · subst hr
      simp only [Cluster.advance, Function.update_self]
      intro hi
      cases ok with
      | true =>
          have := hle r' i (by simpa using hi)
          omega
      | false =>
          simp only [Bool.false_eq_true, if_false, List.mem_append, List.mem_singleton] at hi
          rcases hi with hi | hi
          · have := hle r' i hi
            omega
          · omega
    · simpa [Cluster.advance, hr] using hle r' i
  · intro r'
    by_cases hr : r' = r
    · subst hr
      simp only [Cluster.advance, Function.update_self]
      cases ok with
      | true => simp [hcontents, replay, hentry, hfresh, hreplay]
      | false =>
          have hsame := replay_congr wire log (c.failed r')
            (c.failed r' ++ [c.delivered r' + 1]) (c.delivered r') fun i hi => by
              have hne : i ≠ c.delivered r' + 1 := by omega
              simp [hne]
          simp [hcontents, replay, hentry, hreplay, hsame]
    · simp [Cluster.advance, hr, hreplay]

/-- One event keeps the invariant, whatever the storage does. -/
theorem Replays.step (hdb : ∀ r i, (db r i).Lawful) {c c' : Cluster ι} {event : ClusterEvent ι}
    (hc : Replays wire log c) (hstep : c.step wire db log event = .ok c') :
    Replays wire log c' := by
  cases event with
  | read r key =>
      cases hstep
      exact ⟨hc.counter, hc.failed_le, hc.contents⟩
  | deliver r =>
      rcases Cluster.deliver_cases wire db log hstep with
        ⟨-, rfl⟩ | ⟨hentry, rfl⟩ | ⟨payload, ret, sm, hentry, hcommit, rfl⟩
      · exact hc
      · have h := hc.advance r (commitConfig (c.delivered r + 1) (c.machine r)) true hentry rfl
        exact h rfl
      · rcases commit_eq_ok wire _ hcommit with ⟨op, call, hop, hcall, hcode, rfl⟩
        have heffect : (CommittedEntry.application payload).effect wire (c.machine r).contents =
            call.effect (c.machine r).contents := by
          simp only [CommittedEntry.effect, hop, hcall]
        have hcontents := Handle.call_contents (hdb r (c.delivered r + 1))
          (c.machine r).splHandle call
        have h := hc.advance r
          ⟨((c.machine r).splHandle.call (db r (c.delivered r + 1)) call).2,
            c.delivered r + 1, true⟩ (decide (resultCode wire ret = 0)) hentry rfl (by
              rw [heffect]
              simp only [decide_eq_true_eq, hcode]
              exact hcontents)
        simpa using h

end Faults

/-- For every storage that may refuse locally: a commit that returns moves the
counter to its index and returns the code of the operation's primitive; code
zero means that the operation's effect is in the contents, any other code that
the contents are as before.  Hence, after every run on every log, replicas with
equal counters on which the same entries failed have equal contents. -/
theorem commit_counter_and_local_faults (wire : WireFormat) :
    (∀ (db : SplinterDB Bytes Bytes), db.Lawful →
      ∀ logIdx buf sm ret sm', (commit wire db logIdx buf).run sm = .ok ret sm' →
        sm'.lastCommitIndex = logIdx ∧
        ∃ op call, Operation.deserialize wire buf = .ok op ∧ op.primitive = .ok call ∧
          resultCode wire ret = (sm.splHandle.call db call).1 ∧
          (resultCode wire ret = 0 → sm'.contents = call.effect sm.contents) ∧
          (resultCode wire ret ≠ 0 → sm'.contents = sm.contents)) ∧
    (∀ (ι : Type) [DecidableEq ι] (db : ι → Nat → SplinterDB Bytes Bytes),
      (∀ r i, (db r i).Lawful) →
      ∀ (log : List CommittedEntry) (events : List (ClusterEvent ι)) (c : Cluster ι),
        runEvents (Cluster.step wire db log) events (Cluster.start ι) = .ok c →
        ∀ r₁ r₂, (c.machine r₁).lastCommitIndex = (c.machine r₂).lastCommitIndex →
          c.failed r₁ = c.failed r₂ → (c.machine r₁).contents = (c.machine r₂).contents) := by
  constructor
  · intro db hdb logIdx buf sm ret sm' hcommit
    rcases commit_eq_ok wire db hcommit with ⟨op, call, hop, hcall, hcode, rfl⟩
    have hcontents := Handle.call_contents hdb sm.splHandle call
    refine ⟨rfl, op, call, hop, hcall, hcode, ?_, ?_⟩
    · intro hzero
      rw [hcode] at hzero
      rw [if_pos hzero] at hcontents
      exact hcontents
    · intro hne
      rw [hcode] at hne
      rw [if_neg hne] at hcontents
      exact hcontents
  · intro ι _ db hdb log events c hrun r₁ r₂ hcounter hfailed
    have hstart : Replays wire log (Cluster.start ι) :=
      ⟨fun _ => rfl, fun _ _ h => by simp [Cluster.start] at h, fun _ => rfl⟩
    have hc : Replays wire log c :=
      runEvents_invariant (fun _ _ _ => Replays.step hdb) hstart hrun
    rw [hc.counter, hc.counter] at hcounter
    rw [hc.contents, hc.contents, hfailed, hcounter]

/-- A storage that refuses every mutation. -/
def SplinterDB.refusing : SplinterDB Bytes Bytes where
  insert m _ _ := (5, m)
  update m _ _ := (5, m)
  delete m _ := (5, m)
  lookup m k := (0, m k)
  absentCode := 22

theorem SplinterDB.refusing_lawful : SplinterDB.refusing.Lawful := by
  constructor <;> simp [SplinterDB.refusing]

/-- Two replicas are given one put; the storage of one of them refuses it.
Both counters are at one, and only the other replica has the value. -/
theorem local_fault_diverges :
    (∀ (r : Bool) (_ : Nat),
      (if r = true then SplinterDB.reliable Bytes Bytes else SplinterDB.refusing).Lawful) ∧
    ∃ c : Cluster Bool,
      runEvents (Cluster.step .littleEndian
        (fun r _ => if r = true then .reliable Bytes Bytes else .refusing)
        [.application ((Operation.makePut ⟨[107]⟩ ⟨[118]⟩).encode .littleEndian)])
        [.deliver true, .deliver false] (Cluster.start Bool) = .ok c ∧
      (c.machine true).lastCommitIndex = 1 ∧ (c.machine false).lastCommitIndex = 1 ∧
      (c.machine true).contents [107] = some [118] ∧ (c.machine false).contents [107] = none := by
  constructor
  · intro r _
    cases r with
    | true => exact SplinterDB.reliable_lawful Bytes Bytes
    | false => exact SplinterDB.refusing_lawful
  · exact ⟨_, rfl, rfl, rfl, rfl, rfl⟩

/-- The agreement of replicas at two reliable replicas that were both given the
same put. -/
theorem commit_counter_and_local_faults_two :
    ∃ c : Cluster Bool,
      runEvents (Cluster.step .littleEndian (fun _ _ => .reliable Bytes Bytes)
        [.application ((Operation.makePut ⟨[107]⟩ ⟨[118]⟩).encode .littleEndian)])
        [.deliver true, .deliver false] (Cluster.start Bool) = .ok c ∧
      (c.machine true).contents = (c.machine false).contents := by
  have hends : ∃ c : Cluster Bool,
      runEvents (Cluster.step .littleEndian (fun _ _ => .reliable Bytes Bytes)
        [.application ((Operation.makePut ⟨[107]⟩ ⟨[118]⟩).encode .littleEndian)])
        [.deliver true, .deliver false] (Cluster.start Bool) = .ok c ∧
      (c.machine true).lastCommitIndex = (c.machine false).lastCommitIndex ∧
      c.failed true = c.failed false := ⟨_, rfl, rfl, rfl⟩
  rcases hends with ⟨c, hrun, hcounter, hfailed⟩
  exact ⟨c, hrun, (commit_counter_and_local_faults .littleEndian).2 Bool _
    (fun _ _ => SplinterDB.reliable_lawful Bytes Bytes) _ _ c hrun true false hcounter hfailed⟩

end ReplicatedSplinterDB
