import ReplicatedSplinterDB.System.Service

/-!
# Reads of the service

A read is answered by one server from its own replica, which may lag behind the
log by any amount.  So a read may miss what is committed; what it does return
is the state after some prefix of the log.

Main results:

- Structure {lit}`Service.Replicated`: the log is what the handlers produced, and
  every replica has committed it up to its position.
- Structure {lit}`Service.Grows`: what a run never takes back.
- Structure {lit}`Service.Consistent`: the invariant of the service.
- Theorem {lit}`Service.step_consistent`: every step keeps it.
- Theorem {lit}`reads_return_committed_prefix`: in every run, each read returns
  what a prefix of the committed log binds, and at one server these prefixes
  only grow.
-/

namespace ReplicatedSplinterDB

open Foundation

/-! ## Replicas follow the log -/

/-- A longer log leaves the replicas where they are. -/
theorem Follows.extend {ι : Type} {db : SplinterDB Bytes Bytes} {items more : List (Option Request)}
    {c : Cluster ι} {position : ι → Nat} (h : Follows db items c position)
    (hunread : c.observations = []) : Follows db (items ++ more) c position := by
  refine ⟨h.delivered, h.counter, ?_, ?_, ?_⟩
  · intro r
    have hbound := h.bounded r
    rw [List.length_append]
    omega
  · intro r
    rw [List.take_append_of_le_length (h.bounded r)]
    exact h.contents r
  · simp [hunread]

namespace Service

/-- The requests behind the entries of the log. -/
def items (s : Service) : List (Option Request) := s.history.map (Option.map Prod.snd)

/-- The log is what the handlers and configuration changes produced, and every
replica has committed it up to its position. -/
structure Replicated (wire : WireFormat) (db : SplinterDB Bytes Bytes) (s : Service) : Prop where
  produced : List.Forall₂ (Produced wire) s.items s.committed
  follows : Follows db s.items s.replicas s.replicas.delivered
  unread : s.replicas.observations = []

variable {wire : WireFormat} {db : SplinterDB Bytes Bytes} {s s' : Service}

theorem replicated_start (wire : WireFormat) (db : SplinterDB Bytes Bytes)
    (clients : Nat → Client) : (start clients).Replicated wire db := by
  refine ⟨.nil, ⟨rfl, fun _ => rfl, fun _ => Nat.zero_le _, fun _ => rfl, ?_⟩, rfl⟩
  simp [start, Cluster.start]

/-- One more entry at the end of the log. -/
theorem Replicated.append (h : s.Replicated wire db) (item : Option (CallId × Request))
    {entry : CommittedEntry} (hentry : Produced wire (item.map Prod.snd) entry) (w : World) :
    Replicated wire db { s with
      world := w, committed := s.committed ++ [entry], history := s.history ++ [item] } := by
  refine ⟨?_, ?_, h.unread⟩
  · simp only [items, List.map_append, List.map_cons, List.map_nil]
    exact List.rel_append h.produced (.cons hentry .nil)
  · simp only [items, List.map_append]
    exact h.follows.extend h.unread

/-- The next entry reaches one replica. -/
theorem Replicated.advance (h : s.Replicated wire db) {server : Int32} {item : Option Request}
    (hitem : s.items[s.replicas.delivered server]? = some item) (sm : StateMachine)
    (failed : List Nat) (hcounter : sm.lastCommitIndex = s.replicas.delivered server + 1)
    (hcontents : sm.contents = item.elim (s.replicas.machine server).contents
      (Request.effect db (s.replicas.machine server).contents)) :
    Follows db s.items (s.replicas.advance server sm failed)
      (s.replicas.advance server sm failed).delivered := by
  have hnext := h.follows.advance server sm failed hitem hcounter hcontents
  rw [← hnext.delivered] at hnext
  exact hnext

/-- The entry that a replica commits next stems from a request, and the replica
calls the primitive of that request. -/
theorem Replicated.commit (h : s.Replicated wire db) {server : Int32} {payload : Bytes}
    (hentry : s.committed[s.replicas.delivered server]? = some (.application payload))
    {ret : Buffer} {sm : StateMachine}
    (hcommit : (commit wire db (s.replicas.delivered server + 1) (.ofBytes payload)).run
      (s.replicas.machine server) = .ok ret sm) :
    ∃ request, s.items[s.replicas.delivered server]? = some (some request) ∧
      ret = .ofBytes (wire.i32.encode ((s.replicas.machine server).splHandle.call db
        (reachedCall request)).1) ∧
      sm = ⟨((s.replicas.machine server).splHandle.call db (reachedCall request)).2,
        s.replicas.delivered server + 1, true⟩ := by
  rcases exists_item_of_entry h.produced hentry with ⟨item, hitem, hproduced⟩
  cases hproduced with
  | request hpayload =>
      rename_i request
      rw [commit_handlerAppends hpayload] at hcommit
      cases hcommit
      exact ⟨request, hitem, rfl, rfl⟩

theorem Replicated.step (hdb : db.Lawful) (htraced : s.Traced wire)
    (h : s.Replicated wire db) {event : ServiceEvent}
    (hstep : s.step wire db event = .ok s') : s'.Replicated wire db := by
  cases event with
  | world event =>
      rcases world_cases htraced hstep with ⟨w, issued, results, -, hissued, hcases⟩
      rcases hcases with rfl | ⟨call, request, payload, -, happends, rfl⟩
      · exact ⟨h.produced, h.follows, h.unread⟩
      · exact h.append (some (call, request)) (.request happends) w
  | refuse i outcome =>
      rcases refuse_cases hstep with ⟨message, -, rfl⟩
      exact ⟨h.produced, h.follows, h.unread⟩
  | append i =>
      rcases append_cases hstep with ⟨message, payload, hmessage, happends, rfl⟩
      have hissued := htraced.requests _ (List.mem_of_getElem? hmessage)
      have happended := h.append (some (message.call, message.request)) (.request happends) s.world
      simp only [hissued, Option.map_some]
      exact ⟨happended.produced, happended.follows, happended.unread⟩
  | answer j m text =>
      rcases answer_cases hstep with ⟨message, result, -, -, rfl⟩
      exact ⟨h.produced, h.follows, h.unread⟩
  | configure =>
      cases hstep
      exact h.append none .configuration s.world
  | apply server =>
      rcases apply_cases hstep with
        rfl | ⟨hentry, rfl⟩ | ⟨payload, ret, sm, failed, hentry, hcommit, rfl⟩
      · exact h
      · rcases exists_item_of_entry h.produced hentry with ⟨item, hitem, hproduced⟩
        cases hproduced
        exact ⟨h.produced, h.advance hitem _ _ rfl rfl, h.unread⟩
      · rcases h.commit hentry hcommit with ⟨request, hitem, -, rfl⟩
        refine ⟨h.produced, h.advance hitem _ failed rfl ?_, h.unread⟩
        exact call_reachedCall_contents hdb _ _
  | read p key failure =>
      rcases read_cases hstep with ⟨-, queue, records, rfl, -⟩
      exact ⟨h.produced, h.follows, h.unread⟩

end Service

/-! ## Reads see prefixes of the log -/

/-- What a get returns is what these contents bind to the key, provided that
the lookup itself succeeds. -/
def GetAgrees (db : SplinterDB Bytes Bytes) (m : KVMap Bytes Bytes) (key : Bytes)
    (result : ReadResult) : Prop :=
  (db.lookup m key).1 = 0 →
    (∀ value, result = (value, 0) ↔ m key = some value) ∧
      (m key = none → result.1 = [] ∧ result.2 ≠ 0)

theorem handleGet_agrees {db : SplinterDB Bytes Bytes} (hdb : db.Lawful) (sm : StateMachine)
    (key : Bytes) : GetAgrees db sm.contents key (handleGet db sm key) := by
  intro hlookup
  rcases read_eq_iff hdb sm key hlookup with ⟨hfound, habsent⟩
  cases hkey : sm.contents key with
  | some v =>
      have hread := (hfound v).mpr hkey
      simp [handleGet, hread]
  | none =>
      rcases habsent hkey with ⟨hdata, hcode⟩
      simp [handleGet, hcode]

namespace Service

/-- What only ever grows during a run. -/
structure Grows (s s' : Service) : Prop where
  history : s.history <+: s'.history
  delivered : ∀ server, s.replicas.delivered server ≤ s'.replicas.delivered server
  reads : s.reads <+: s'.reads
  issued : ∀ call request, s.issued call = some request → s'.issued call = some request

theorem Grows.refl (s : Service) : s.Grows s :=
  ⟨List.prefix_refl _, fun _ => Nat.le_refl _, List.prefix_refl _, fun _ _ h => h⟩

theorem Grows.trans {s s' s'' : Service} (h : s.Grows s') (h' : s'.Grows s'') : s.Grows s'' :=
  ⟨h.history.trans h'.history, fun server => (h.delivered server).trans (h'.delivered server),
    h.reads.trans h'.reads, fun call request hissued =>
      h'.issued call request (h.issued call request hissued)⟩

/-- Every read agreed with the part of the log that its server had applied, and
servers do not go back. -/
structure ReadsAgree (db : SplinterDB Bytes Bytes) (s : Service) : Prop where
  agree : ∀ r ∈ s.reads,
    GetAgrees db (foldItems (Request.effect db) (s.items.take r.upTo)) r.key r.result
  reached : ∀ r ∈ s.reads, r.upTo ≤ s.replicas.delivered r.server
  ordered : s.reads.Pairwise fun r r' => r.server = r'.server → r.upTo ≤ r'.upTo

/-- The invariant of the service. -/
structure Consistent (wire : WireFormat) (db : SplinterDB Bytes Bytes) (s : Service) : Prop where
  traced : s.Traced wire
  replicated : s.Replicated wire db
  readsAgree : s.ReadsAgree db

variable {wire : WireFormat} {db : SplinterDB Bytes Bytes} {s s' : Service}

theorem consistent_start (wire : WireFormat) (db : SplinterDB Bytes Bytes)
    (clients : Nat → Client) : (start clients).Consistent wire db := by
  refine ⟨traced_start wire clients, replicated_start wire db clients, ?_⟩
  constructor
  · simp [start]
  · simp [start]
  · simp [start]

theorem delivered_le_advance (c : Cluster Int32) (server r : Int32) (sm : StateMachine)
    (failed : List Nat) : c.delivered r ≤ (c.advance server sm failed).delivered r := by
  by_cases hr : r = server
  · subst hr
    simp [Cluster.advance]
  · simp [Cluster.advance, hr]

theorem step_grows (htraced : s.Traced wire) {event : ServiceEvent}
    (hstep : s.step wire db event = .ok s') : s.Grows s' := by
  cases event with
  | world event =>
      rcases world_cases htraced hstep with ⟨w, issued, results, -, hissued, hcases⟩
      rcases hcases with rfl | ⟨call, request, payload, -, -, rfl⟩
      · exact ⟨List.prefix_refl _, fun _ => Nat.le_refl _, List.prefix_refl _, hissued⟩
      · exact ⟨List.prefix_append _ _, fun _ => Nat.le_refl _, List.prefix_refl _, fun _ _ h => h⟩
  | refuse i outcome =>
      rcases refuse_cases hstep with ⟨message, -, rfl⟩
      exact ⟨List.prefix_refl _, fun _ => Nat.le_refl _, List.prefix_refl _, fun _ _ h => h⟩
  | append i =>
      rcases append_cases hstep with ⟨message, payload, -, -, rfl⟩
      exact ⟨List.prefix_append _ _, fun _ => Nat.le_refl _, List.prefix_refl _, fun _ _ h => h⟩
  | answer j m text =>
      rcases answer_cases hstep with ⟨message, result, -, -, rfl⟩
      exact ⟨List.prefix_refl _, fun _ => Nat.le_refl _, List.prefix_refl _, fun _ _ h => h⟩
  | configure =>
      cases hstep
      exact ⟨List.prefix_append _ _, fun _ => Nat.le_refl _, List.prefix_refl _, fun _ _ h => h⟩
  | apply server =>
      rcases apply_cases hstep with rfl | ⟨-, rfl⟩ | ⟨payload, ret, sm, failed, -, -, rfl⟩
      · exact .refl _
      · exact ⟨List.prefix_refl _, fun r => delivered_le_advance _ server r _ _,
          List.prefix_refl _, fun _ _ h => h⟩
      · exact ⟨List.prefix_refl _, fun r => delivered_le_advance _ server r _ _,
          List.prefix_refl _, fun _ _ h => h⟩
  | read p key failure =>
      rcases read_cases hstep with ⟨-, queue, records, rfl, -⟩
      exact ⟨List.prefix_refl _, fun _ => Nat.le_refl _, List.prefix_append _ _, fun _ _ h => h⟩

/-- A log that grows keeps the prefixes that reads have seen. -/
theorem Grows.take_items (h : s.Grows s') {n : Nat} (hn : n ≤ s.items.length) :
    s'.items.take n = s.items.take n := by
  rcases h.history with ⟨more, hmore⟩
  have hitems : s'.items = s.items ++ more.map (Option.map Prod.snd) := by
    rw [items, ← hmore, List.map_append]
    rfl
  rw [hitems, List.take_append_of_le_length hn]

/-- A step without a new read keeps what the old ones saw. -/
theorem ReadsAgree.grows (hreplicated : s.Replicated wire db) (h : s.ReadsAgree db)
    (hgrows : s.Grows s') (hreads : s'.reads = s.reads) : s'.ReadsAgree db := by
  refine ⟨?_, ?_, ?_⟩
  · intro r hr
    rw [hreads] at hr
    have hbound : r.upTo ≤ s.items.length :=
      (h.reached r hr).trans (hreplicated.follows.bounded r.server)
    rw [hgrows.take_items hbound]
    exact h.agree r hr
  · intro r hr
    rw [hreads] at hr
    exact (h.reached r hr).trans (hgrows.delivered r.server)
  · rw [hreads]
    exact h.ordered

/-- A new read sees what its server has applied, which is at least what earlier
reads there have seen. -/
theorem ReadsAgree.read (hdb : db.Lawful) (hreplicated : s.Replicated wire db)
    (h : s.ReadsAgree db) (p : Nat) (key : Bytes) (client : Client) (server : Int32) :
    ReadsAgree db { s.setClient p client with
      reads := s.reads ++ [⟨p, server, key, (s.replicas.machine server).lastCommitIndex,
        handleGet db (s.replicas.machine server) key⟩] } := by
  have hcounter := hreplicated.follows.counter server
  refine ⟨?_, ?_, ?_⟩
  · intro r hr
    rcases List.mem_append.mp hr with hold | hnew
    · exact h.agree r hold
    · rw [List.mem_singleton] at hnew
      subst hnew
      have hcontents := hreplicated.follows.contents server
      rw [← hcounter] at hcontents
      have hagrees := handleGet_agrees hdb (s.replicas.machine server) key
      rw [hcontents] at hagrees
      exact hagrees
  · intro r hr
    rcases List.mem_append.mp hr with hold | hnew
    · exact h.reached r hold
    · rw [List.mem_singleton] at hnew
      subst hnew
      exact Nat.le_of_eq hcounter
  · refine List.pairwise_append.mpr ⟨h.ordered, List.pairwise_singleton _ _, ?_⟩
    intro r hr r' hr' hserver
    rw [List.mem_singleton] at hr'
    subst hr'
    have hreached := h.reached r hr
    rw [hserver, ← hcounter] at hreached
    exact hreached

theorem step_consistent (hdb : db.Lawful) (s : Service) (event : ServiceEvent) (s' : Service)
    (h : s.Consistent wire db) (hstep : s.step wire db event = .ok s') :
    s'.Consistent wire db := by
  have hgrows := step_grows h.traced hstep
  refine ⟨h.traced.step hstep, h.replicated.step hdb h.traced hstep, ?_⟩
  cases event with
  | world event =>
      rcases world_cases h.traced hstep with ⟨w, issued, results, -, hissued, hcases⟩
      rcases hcases with rfl | ⟨call, request, payload, -, -, rfl⟩
      · exact h.readsAgree.grows h.replicated hgrows rfl
      · exact h.readsAgree.grows h.replicated hgrows rfl
  | refuse i outcome =>
      rcases refuse_cases hstep with ⟨message, -, rfl⟩
      exact h.readsAgree.grows h.replicated hgrows rfl
  | append i =>
      rcases append_cases hstep with ⟨message, payload, -, -, rfl⟩
      exact h.readsAgree.grows h.replicated hgrows rfl
  | answer j m text =>
      rcases answer_cases hstep with ⟨message, result, -, -, rfl⟩
      exact h.readsAgree.grows h.replicated hgrows rfl
  | configure =>
      cases hstep
      exact h.readsAgree.grows h.replicated hgrows rfl
  | apply server =>
      rcases apply_cases hstep with rfl | ⟨-, rfl⟩ | ⟨payload, ret, sm, failed, -, -, rfl⟩
      · exact h.readsAgree
      · exact h.readsAgree.grows h.replicated hgrows rfl
      · exact h.readsAgree.grows h.replicated hgrows rfl
  | read p key failure =>
      rcases read_cases hstep with ⟨-, queue, records, rfl, rfl | ⟨server, rfl⟩⟩
      · exact h.readsAgree.grows h.replicated hgrows (List.append_nil _)
      · exact h.readsAgree.read hdb h.replicated p key _ server

end Service

/-- Let the storage be deterministic.  In every run of any number of clients and
servers in which no server is started again, with any Raft outcomes (also a code zero
for a request that was not appended), message losses and delays, and with replicas
that apply the log whenever they like: the committed log consists of the requests
that clients have started calls with, and of configuration changes; every read that a
client got an answer to agrees with the fold of a prefix of that log, however far its
server lags behind; and successive reads at one server never go back. -/
theorem reads_return_committed_prefix (wire : WireFormat) (db : SplinterDB Bytes Bytes)
    (hdb : db.Lawful) (clients : Nat → Client) (events : List ServiceEvent) (s : Service)
    (hrun : runEvents (Service.step wire db) events (Service.start clients) = .ok s) :
    List.Forall₂ (Produced wire) s.items s.committed ∧
      (∀ call request, some (call, request) ∈ s.history → s.issued call = some request) ∧
      (∀ r ∈ s.reads, r.upTo ≤ s.committed.length ∧
        GetAgrees db (foldItems (Request.effect db) (s.items.take r.upTo)) r.key r.result) ∧
      s.reads.Pairwise fun r r' => r.server = r'.server → r.upTo ≤ r'.upTo := by
  have hs := runEvents_invariant (Service.step_consistent hdb)
    (Service.consistent_start wire db clients) hrun
  refine ⟨hs.replicated.produced, hs.traced.history, ?_, hs.readsAgree.ordered⟩
  intro r hr
  refine ⟨?_, hs.readsAgree.agree r hr⟩
  rw [← hs.replicated.produced.length_eq]
  exact (hs.readsAgree.reached r hr).trans (hs.replicated.follows.bounded r.server)

/-- Clients with three retries that know two servers. -/
def twoServerClients : Nat → Client := fun _ =>
  ⟨(ServerMap.empty.emplace 1 ⟨"a", 1001⟩).emplace 2 ⟨"b", 1002⟩, [1, 2], 1, 3⟩

/-- A put that its leader has committed and applied, while the other server has
applied nothing, and two reads.  Then comes a second put, which is answered with code
zero although nothing was appended, and another read. -/
def laggingRun : List ServiceEvent :=
  [.world (.call 0 (.put [107] [118])), .world (.send 0), .append 0, .apply 1, .answer 0 0 "",
    .world (.reply 0), .world (.finish 0), .read 0 [107] none, .read 0 [107] none,
    .world (.call 0 (.put [107] [119])), .world (.send 0), .refuse 0 ⟨false, false, 0, "", none⟩,
    .world (.reply 0), .world (.finish 0), .read 0 [107] none]

/-- Both reads at the leader return the first value, and the one at the other server
that the key is absent. -/
theorem reads_return_committed_prefix_put :
    ∃ s, runEvents (Service.step .littleEndian (.reliable Bytes Bytes)) laggingRun
        (Service.start twoServerClients) = .ok s ∧
      s.reads.map (fun r => (r.server, r.upTo, r.result)) =
        [(1, 1, ([118], 0)), (2, 0, ([], 22)), (1, 1, ([118], 0))] ∧
      ∀ r ∈ s.reads, r.upTo ≤ s.committed.length := by
  have hrun : ∃ s, runEvents (Service.step .littleEndian (.reliable Bytes Bytes)) laggingRun
        (Service.start twoServerClients) = .ok s ∧
      s.reads.map (fun r => (r.server, r.upTo, r.result)) =
        [(1, 1, ([118], 0)), (2, 0, ([], 22)), (1, 1, ([118], 0))] := ⟨_, rfl, rfl⟩
  rcases hrun with ⟨s, hrun, hreads⟩
  have hs := reads_return_committed_prefix .littleEndian _
    (SplinterDB.reliable_lawful Bytes Bytes) twoServerClients _ s hrun
  exact ⟨s, hrun, hreads, fun r hr => (hs.2.2.1 r hr).1⟩

end ReplicatedSplinterDB
