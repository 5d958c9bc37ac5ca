import ReplicatedSplinterDB.Client.Delivery
import ReplicatedSplinterDB.Client.Read
import ReplicatedSplinterDB.Server.Replication

/-!
# The whole service

Clients, messages in flight, the Raft log and the replicas of all servers run
side by side.  Of Raft the steps keep what its interface promises in every
case: committed entries are never lost and reach every replica in log order,
and configuration changes stand between the other entries.  What a server's
Raft returns for a request is open: it may append the request or not, with any
result code.  In one case the code is the state machine's: a handler that waits
for its entry is woken with what the state machine of a server returned for it.

Replicas may lag behind by any amount, followers may apply an entry before the
leader does, and reads are answered from the local replica at any moment.  No
server is started again during a run.

The service also keeps a history that no step looks at: the request of each
call, the call behind each log entry, the results of finished calls, and the
reads with the commit index of the server that answered.

Main results:

- Theorems {lit}`Service.append_cases`, {lit}`Service.apply_cases`,
  {lit}`Service.read_cases` and {lit}`Service.world_cases`: what the steps can do.
- Structure {lit}`Service.Traced`: requests, open entries and committed entries
  stem from the calls that they carry.
- Theorem {lit}`Service.Traced.step`: every step keeps this.
-/

namespace ReplicatedSplinterDB

open Foundation

/-! ## The service -/

/-- A read that a client got an answer to. -/
structure ReadRecord where
  client : Nat
  server : Int32
  key : Bytes
  upTo : Nat
  result : ReadResult

/-- What the state machine of a server returned for the log entry at a position. -/
structure MachineResult where
  server : Int32
  position : Nat
  ret : Buffer

/-- Clients and messages, the replicas with NuRaft's delivery positions, the
committed log, the handlers that wait for the result of their entry and the
results of the state machines, with the history of the run. -/
structure Service where
  world : World
  replicas : Cluster Int32
  committed : List CommittedEntry
  awaiting : List (RequestMessage × Nat)
  rets : List MachineResult
  history : List (Option (CallId × Request))
  issued : CallId → Option Request
  results : List (CallId × Except Exception MutationResult)
  reads : List ReadRecord

/-- One step of the service. -/
inductive ServiceEvent where
  /-- A step of the clients and messages.  A request that is handled with code zero
  is in the log, and its reply follows at once. -/
  | world (event : WorldEvent)
  /-- A server's Raft appends nothing and returns this outcome. -/
  | refuse (i : Nat) (outcome : RaftResult)
  /-- A request reaches the leader and its entry is committed; the handler waits. -/
  | append (i : Nat)
  /-- A handler is woken with the result of its entry, and replies. -/
  | answer (j m : Nat) (text : String)
  /-- A configuration change is committed. -/
  | configure
  /-- The next log entry reaches the replica of a server. -/
  | apply (server : Int32)
  /-- A client reads a key; the call fails if a failure is given. -/
  | read (p : Nat) (key : Bytes) (failure : Option String)

/-- A Raft that appends nothing. -/
def raftRefusing (outcome : RaftResult) : RaftServer RaftLog where
  appendEntries _ s := (outcome, s)

namespace Service

/-- All clients idle, all replicas fresh and nothing in the log. -/
def start (clients : Nat → Client) : Service where
  world := .start clients
  replicas := .start Int32
  committed := []
  awaiting := []
  rets := []
  history := []
  issued _ := none
  results := []
  reads := []

/-- Write a step of the clients and messages down in the history. -/
def note (s : Service) : WorldEvent → Service
  | .call p request =>
      { s with issued := Function.update s.issued (s.world.currentCall p) (some request) }
  | .finish p =>
      match (s.world.processes p).activity with
      | .running (.ret (outcome, _)) =>
          { s with results := s.results ++ [(s.world.currentCall p, outcome)] }
      | _ => s
  | _ => s

/-- Take over a new state of the clients and messages.  What it has committed
goes to the end of the log. -/
def absorb (s : Service) (w : World) : Service :=
  let entries := w.raft.log.drop s.world.raft.log.length
  { s with
    world := w
    committed := s.committed ++ entries.map fun e => .application e.2.bytes
    history := s.history ++ entries.map fun e => (s.issued e.1).map (e.1, ·) }

/-- Replace a client between its calls. -/
def setClient (s : Service) (p : Nat) (client : Client) : Service :=
  { s with
    world := { s.world with
      processes := Function.update s.world.processes p
        { s.world.processes p with client := client } } }

section Step

variable (wire : WireFormat) (db : SplinterDB Bytes Bytes)

/-- A server handles a request while its Raft appends nothing. -/
def refuse (s : Service) (i : Nat) (outcome : RaftResult) : Except Unit Service :=
  match s.world.requests[i]? with
  | none => .error ()
  | some message =>
      .ok { s with world := s.world.handled wire (raftRefusing outcome) i message }

/-- The first half of a handler: the request is serialized and its entry becomes
the next one of the log. -/
def append (s : Service) (i : Nat) : Except Unit Service :=
  match s.world.requests[i]? with
  | none => .error ()
  | some message =>
      match (handlerOperation message.request).serialize wire with
      | .error _ => .error ()
      | .ok newLog =>
          .ok { s.absorb { s.world with
              requests := s.world.requests.eraseIdx i
              raft := ⟨s.world.raft.log ++ [(message.call, newLog)], s.world.raft.pending⟩ } with
            awaiting := s.awaiting ++ [(message, s.committed.length)] }

/-- The second half of a handler: the result that a state machine returned for the
entry is turned into the reply. -/
def answer (s : Service) (j m : Nat) (text : String) : Except Unit Service :=
  match s.awaiting[j]? with
  | none => .error ()
  | some (message, position) =>
      match s.rets[m]? with
      | none => .error ()
      | some result =>
          if result.position ≠ position then .error ()
          else
            .ok { s with
              awaiting := s.awaiting.eraseIdx j
              world := { s.world with
                replies := match extractResult wire ⟨true, true, 0, text, some result.ret⟩ with
                  | .error _ => s.world.replies
                  | .ok reply => s.world.replies ++ [(message.call, reply)] } }

/-- The state machine of a server commits the next log entry, if there is one. -/
def apply (s : Service) (server : Int32) : Except Unit Service :=
  let position := s.replicas.delivered server
  match s.committed[position]? with
  | none => .ok s
  | some .configuration =>
      .ok { s with
        replicas := s.replicas.advance server
          (commitConfig (position + 1) (s.replicas.machine server)) (s.replicas.failed server) }
  | some (.application payload) =>
      match (commit wire db (position + 1) (.ofBytes payload)).run
          (s.replicas.machine server) with
      | .error _ _ => .error ()
      | .ok ret sm =>
          .ok { s with
            replicas := s.replicas.advance server sm
              (if resultCode wire ret = 0 then s.replicas.failed server
                else s.replicas.failed server ++ [position + 1])
            rets := s.rets ++ [⟨server, position, ret⟩] }

/-- A client reads.  It must be between two mutations; the server it asks
answers from its replica. -/
def read (s : Service) (p : Nat) (key : Bytes) (failure : Option String) : Except Unit Service :=
  match (s.world.processes p).activity with
  | .idle =>
      match (s.world.processes p).client.get key with
      | .ret (_, client) => .ok (s.setClient p client)
      | .ask (.get server key) rest =>
          let answer : Except String ReadResult :=
            match failure with
            | some what => .error what
            | none => .ok (handleGet db (s.replicas.machine server) key)
          match rest answer with
          | .ret (.ok result, client) =>
              .ok { s.setClient p client with
                reads := s.reads ++
                  [⟨p, server, key, (s.replicas.machine server).lastCommitIndex, result⟩] }
          | .ret (.error _, client) => .ok (s.setClient p client)
          | _ => .error ()
      | _ => .error ()
  | _ => .error ()

/-- One step of the service; events that are not possible are refused. -/
def step (s : Service) : ServiceEvent → Except Unit Service
  | .world event =>
      match s.world.step wire event with
      | .error e => .error e
      | .ok w => .ok ((s.note event).absorb w)
  | .refuse i outcome => s.refuse wire i outcome
  | .append i => s.append wire i
  | .answer j m text => s.answer wire j m text
  | .configure =>
      .ok { s with
        committed := s.committed ++ [.configuration]
        history := s.history ++ [none] }
  | .apply server => s.apply wire db server
  | .read p key failure => s.read db p key failure

end Step

end Service

/-! ## What the steps do -/

/-- Raft hands back the outcome it is given. -/
theorem raftWithOutcome_result (call : CallId) (outcome : RaftResult) (entries : List Buffer)
    (log : RaftLog) : ((raftWithOutcome call outcome).appendEntries entries log).1 = outcome := by
  simp only [raftWithOutcome]
  split
  · rfl
  · split
    · rfl
    · rfl

/-- Handling a request either leaves log and replies alone or hands Raft the
entry of the request; then the reply is the one to Raft's result. -/
theorem World.handled_cases (wire : WireFormat) (raft : RaftServer RaftLog) (w : World) (i : Nat)
    (message : RequestMessage) :
    ((w.handled wire raft i message).raft = w.raft ∧
      (w.handled wire raft i message).replies = w.replies) ∨
    ∃ payload, HandlerAppends wire message.request payload ∧
      (w.handled wire raft i message).raft = (raft.appendEntries [.ofBytes payload] w.raft).2 ∧
      (w.handled wire raft i message).replies =
        match extractResult wire (raft.appendEntries [.ofBytes payload] w.raft).1 with
        | .error _ => w.replies
        | .ok reply => w.replies ++ [(message.call, reply)] := by
  unfold handled EStateM.run handleMutation EStateM.run appendLog
  cases hser : (handlerOperation message.request).serialize wire with
  | error e => exact .inl ⟨rfl, rfl⟩
  | ok newLog =>
      rcases (Operation.serialize_eq_ok_iff wire _ newLog).mp hser with ⟨hsize, rfl⟩
      refine .inr ⟨_, (handlerAppends_iff wire _ _).mpr ⟨hsize, rfl⟩, ?_⟩
      dsimp only
      cases extractResult wire (raft.appendEntries
          [.ofBytes ((handlerOperation message.request).encode wire)] w.raft).1 with
      | error e => exact ⟨rfl, rfl⟩
      | ok reply => exact ⟨rfl, rfl⟩

/-- A handler adds at most the reply to what Raft returned for its own call. -/
theorem mem_replies_of_handler {wire : WireFormat} {outcome : RaftResult}
    {replies : List (CallId × MutationResult)} {own call : CallId} {reply : MutationResult}
    (hmem : (call, reply) ∈ match extractResult wire outcome with
      | .error _ => replies
      | .ok reply => replies ++ [(own, reply)]) :
    (call, reply) ∈ replies ∨ call = own ∧ extractResult wire outcome = .ok reply := by
  cases hresult : extractResult wire outcome with
  | error e =>
      rw [hresult] at hmem
      exact .inl hmem
  | ok result =>
      rw [hresult] at hmem
      rcases List.mem_append.mp hmem with hold | hnew
      · exact .inl hold
      · rw [List.mem_singleton] at hnew
        cases hnew
        exact .inr ⟨rfl, rfl⟩

/-- A reply to a request that has just been handled has the code that Raft
returned. -/
theorem World.handled_replies {wire : WireFormat} {raft : RaftServer RaftLog} {outcome : RaftResult}
    (hraft : ∀ entries log, (raft.appendEntries entries log).1 = outcome) {w : World} {i : Nat}
    {message : RequestMessage} {call : CallId} {reply : MutationResult}
    (hmem : (call, reply) ∈ (w.handled wire raft i message).replies) :
    (call, reply) ∈ w.replies ∨ extractResult wire outcome = .ok reply := by
  rcases w.handled_cases wire raft i message with ⟨-, hreplies⟩ | ⟨payload, -, -, hreplies⟩
  · rw [hreplies] at hmem
    exact .inl hmem
  · rw [hreplies, hraft] at hmem
    exact (mem_replies_of_handler hmem).imp id And.right

namespace Service

variable {wire : WireFormat} {db : SplinterDB Bytes Bytes} {s s' : Service}

/-- Entries that clients and messages have committed are the next ones of the
log. -/
theorem absorb_append (s : Service) {w : World} {entries : List (CallId × Buffer)}
    (hlog : w.raft.log = s.world.raft.log ++ entries) :
    s.absorb w = { s with
      world := w
      committed := s.committed ++ entries.map fun e => .application e.2.bytes
      history := s.history ++ entries.map fun e => (s.issued e.1).map (e.1, ·) } := by
  simp only [absorb, hlog, List.drop_left]

theorem absorb_same (s : Service) {w : World} (hlog : w.raft.log = s.world.raft.log) :
    s.absorb w = { s with world := w } := by
  rw [s.absorb_append (show _ = _ ++ [] by rw [hlog, List.append_nil])]
  simp

theorem refuse_cases {i : Nat} {outcome : RaftResult} (h : s.refuse wire i outcome = .ok s') :
    ∃ message, s.world.requests[i]? = some message ∧
      s' = { s with world := s.world.handled wire (raftRefusing outcome) i message } := by
  unfold refuse at h
  split at h
  · cases h
  · rename_i message hmessage
    cases h
    exact ⟨message, hmessage, rfl⟩

/-- What the first half of a handler does: the entry of the request is the next one
of the log, and the handler waits for its result. -/
theorem append_cases {i : Nat} (h : s.append wire i = .ok s') :
    ∃ message payload, s.world.requests[i]? = some message ∧
      HandlerAppends wire message.request payload ∧
      s' = { s with
        world := { s.world with
          requests := s.world.requests.eraseIdx i
          raft := ⟨s.world.raft.log ++ [(message.call, .ofBytes payload)],
            s.world.raft.pending⟩ }
        committed := s.committed ++ [.application payload]
        awaiting := s.awaiting ++ [(message, s.committed.length)]
        history := s.history ++ [(s.issued message.call).map (message.call, ·)] } := by
  unfold append at h
  split at h
  · cases h
  · rename_i message hmessage
    split at h
    · cases h
    · rename_i newLog hser
      rcases (Operation.serialize_eq_ok_iff wire _ newLog).mp hser with ⟨hsize, rfl⟩
      rw [absorb_append s (show _ = s.world.raft.log ++ [(message.call, _)] from rfl)] at h
      cases h
      exact ⟨message, _, hmessage, (handlerAppends_iff wire message.request _).mpr ⟨hsize, rfl⟩,
        rfl⟩

/-- What the second half of a handler does: it gives the reply to a result that some
state machine returned for its entry. -/
theorem answer_cases {j m : Nat} {text : String} (h : s.answer wire j m text = .ok s') :
    ∃ message result, (message, result.position) ∈ s.awaiting ∧ result ∈ s.rets ∧
      s' = { s with
        awaiting := s.awaiting.eraseIdx j
        world := { s.world with
          replies := match extractResult wire ⟨true, true, 0, text, some result.ret⟩ with
            | .error _ => s.world.replies
            | .ok reply => s.world.replies ++ [(message.call, reply)] } } := by
  unfold answer at h
  split at h
  · cases h
  · rename_i message position hmessage
    split at h
    · cases h
    · rename_i result hresult
      split at h
      · cases h
      · rename_i hposition
        rw [not_not] at hposition
        subst hposition
        cases h
        exact ⟨message, result, List.mem_of_getElem? hmessage, List.mem_of_getElem? hresult, rfl⟩

/-- What the commit of the next entry does. -/
theorem apply_cases {server : Int32} (h : s.apply wire db server = .ok s') :
    s' = s ∨
    (s.committed[s.replicas.delivered server]? = some .configuration ∧
      s' = { s with
        replicas := s.replicas.advance server
          (commitConfig (s.replicas.delivered server + 1) (s.replicas.machine server))
          (s.replicas.failed server) }) ∨
    (∃ payload ret sm failed,
      s.committed[s.replicas.delivered server]? = some (.application payload) ∧
      (commit wire db (s.replicas.delivered server + 1) (.ofBytes payload)).run
        (s.replicas.machine server) = .ok ret sm ∧
      s' = { s with
        replicas := s.replicas.advance server sm failed
        rets := s.rets ++ [⟨server, s.replicas.delivered server, ret⟩] }) := by
  unfold apply at h
  dsimp only at h
  split at h
  · cases h
    exact .inl rfl
  · rename_i hentry
    cases h
    exact .inr (.inl ⟨hentry, rfl⟩)
  · rename_i payload hentry
    split at h
    · cases h
    · rename_i ret sm hcommit
      cases h
      exact .inr (.inr ⟨payload, ret, sm, _, hentry, hcommit, rfl⟩)

/-- What a read does: the client may move on in its queue, nothing else changes,
and an answer is the one of the server's handler. -/
theorem read_cases {p : Nat} {key : Bytes} {failure : Option String}
    (h : s.read db p key failure = .ok s') :
    (s.world.processes p).activity = .idle ∧
      ∃ queue records,
        s' = { s.setClient p { (s.world.processes p).client with readPolicy := queue } with
          reads := s.reads ++ records } ∧
        (records = [] ∨ ∃ server, records = [⟨p, server, key,
          (s.replicas.machine server).lastCommitIndex,
          handleGet db (s.replicas.machine server) key⟩]) := by
  unfold read at h
  split at h
  · rename_i hidle
    refine ⟨hidle, ?_⟩
    unfold Client.get at h
    cases hqueue : Client.nextServer (s.world.processes p).client.readPolicy with
    | error e =>
        rw [hqueue] at h
        cases h
        exact ⟨(s.world.processes p).client.readPolicy, [], by simp [setClient], .inl rfl⟩
    | ok next =>
        rcases next with ⟨id, queue⟩
        simp only [hqueue] at h
        by_cases hid : id ∈ (s.world.processes p).client.clients.ids
        · rw [if_pos hid] at h
          cases failure with
          | some what =>
              cases h
              exact ⟨queue, [], by simp [setClient], .inl rfl⟩
          | none =>
              cases h
              exact ⟨queue, _, rfl, .inr ⟨id, rfl⟩⟩
        · rw [if_neg hid] at h
          cases h
          exact ⟨queue, [], by simp [setClient], .inl rfl⟩
  · cases h

end Service

/-! ## Every entry stems from a call -/

/-- What a client is doing fits the request that its current call was started
with, if it is in one. -/
def Activity.Serves (issued : Option Request) : Activity → Prop
  | .idle => issued = none
  | .running program => ∃ request, issued = some request ∧ Sends request program
  | .waiting rest => ∃ request, issued = some request ∧ ∀ answer, Sends request (rest answer)

namespace Service

/-- Requests on their way, open entries and committed entries all stem from the
call that they carry. -/
structure Traced (wire : WireFormat) (s : Service) : Prop where
  serves : ∀ p, (s.world.processes p).activity.Serves (s.issued (s.world.currentCall p))
  fresh : ∀ p k, (s.world.processes p).calls < k → s.issued (p, k) = none
  requests : ∀ m ∈ s.world.requests, s.issued m.call = some m.request
  pending : ∀ e ∈ s.world.raft.pending, ∃ request, s.issued e.1 = some request ∧
    HandlerAppends wire request e.2.bytes
  history : ∀ call request, some (call, request) ∈ s.history → s.issued call = some request

variable {wire : WireFormat} {db : SplinterDB Bytes Bytes} {s s' : Service}

theorem traced_start (wire : WireFormat) (clients : Nat → Client) :
    (start clients).Traced wire := by
  constructor
  · intro p
    rfl
  · intro p k _
    rfl
  · simp [start, World.start]
  · simp [start, World.start]
  · simp [start]

/-- A client changes what it is doing within its current call. -/
theorem Traced.setActivity (h : s.Traced wire) {p : Nat} {activity : Activity}
    (hserves : activity.Serves (s.issued (s.world.currentCall p))) :
    Traced wire { s with world := s.world.setActivity p activity } := by
  refine ⟨?_, ?_, h.requests, h.pending, h.history⟩
  · intro q
    by_cases hq : q = p
    · subst hq
      simpa [World.setActivity, World.currentCall] using hserves
    · simpa [World.setActivity, World.currentCall, hq] using h.serves q
  · intro q k hk
    by_cases hq : q = p
    · subst hq
      exact h.fresh q k (by simpa [World.setActivity] using hk)
    · exact h.fresh q k (by simpa [World.setActivity, hq] using hk)

/-- A client that waits for a reply goes on with any answer. -/
theorem Traced.resume (h : s.Traced wire) {p : Nat}
    {rest : Except String MutationResult → ClientProgram (Outcome MutationResult)}
    (hactivity : (s.world.processes p).activity = .waiting rest)
    (answer : Except String MutationResult) :
    Traced wire { s with world := s.world.setActivity p (.running (rest answer)) } := by
  have hserves := h.serves p
  rw [hactivity] at hserves
  rcases hserves with ⟨request, hissued, hsends⟩
  exact h.setActivity ⟨request, hissued, hsends answer⟩

/-- Writing a step down changes no request of an earlier call. -/
theorem Traced.issued_note (h : s.Traced wire) {event : WorldEvent} {w : World}
    (hstep : s.world.step wire event = .ok w) {call : CallId} {r : Request}
    (hissued : s.issued call = some r) : (s.note event).issued call = some r := by
  cases World.transition_of_step hstep with
  | call hidle request =>
      rename_i p
      have hnone := h.serves p
      rw [hidle] at hnone
      have hne : call ≠ s.world.currentCall p := by
        rintro rfl
        rw [show s.issued (s.world.currentCall p) = none from hnone] at hissued
        cases hissued
      simp only [note]
      rw [Function.update_of_ne hne, hissued]
  | finish hactivity =>
      simp only [note, hactivity]
      exact hissued
  | send hactivity => exact hissued
  | lookup hactivity answer => exact hissued
  | deliver hmessage outcome => exact hissued
  | reply hreply hactivity hcurrent => exact hissued
  | replyDropped hreply hstale => exact hissued
  | fail hactivity what => exact hissued
  | commitPending hentry => exact hissued
  | dropPending hentry => exact hissued

/-- A new call is written down under a number that nothing carries yet. -/
theorem Traced.call (h : s.Traced wire) {p : Nat}
    (hidle : (s.world.processes p).activity = .idle) (request : Request) :
    Traced wire { s.note (.call p request) with
      world := s.world.setActivity p
        (.running ((s.world.processes p).client.perform request)) } := by
  have hstep : s.world.step wire (.call p request) = .ok (s.world.setActivity p
      (.running ((s.world.processes p).client.perform request))) := by
    simp only [World.step, hidle]
  have hold : ∀ call r, s.issued call = some r →
      (s.note (.call p request)).issued call = some r :=
    fun call r hissued => h.issued_note hstep hissued
  refine ⟨?_, ?_, ?_, ?_, ?_⟩
  · intro q
    by_cases hq : q = p
    · subst hq
      simp only [note, World.setActivity, World.currentCall, Function.update_self]
      exact ⟨request, rfl, sends_perform request _⟩
    · have hne : (q, (s.world.processes q).calls) ≠ (p, (s.world.processes p).calls) :=
        fun heq => hq (congrArg Prod.fst heq)
      simpa [note, World.setActivity, World.currentCall, hq, hne] using h.serves q
  · intro q k hk
    have hk' : (s.world.processes q).calls < k := by
      by_cases hq : q = p
      · subst hq
        simpa [note, World.setActivity] using hk
      · simpa [note, World.setActivity, hq] using hk
    have hne : (q, k) ≠ s.world.currentCall p := by
      intro heq
      cases heq
      exact Nat.lt_irrefl _ hk'
    simpa [note, hne] using h.fresh q k hk'
  · intro m hm
    exact hold _ _ (h.requests m hm)
  · intro e he
    rcases h.pending e he with ⟨r, hissued, happends⟩
    exact ⟨r, hold _ _ hissued, happends⟩
  · intro call r hmem
    exact hold _ _ (h.history call r hmem)

/-- A call that ends makes room for the next one. -/
theorem Traced.finish (h : s.Traced wire) {p : Nat} (client : Client) :
    Traced wire { s with world := { s.world with
      processes := Function.update s.world.processes p
        ⟨client, (s.world.processes p).calls + 1, .idle⟩ } } := by
  refine ⟨?_, ?_, h.requests, h.pending, h.history⟩
  · intro q
    by_cases hq : q = p
    · subst hq
      simpa [World.currentCall, Activity.Serves] using
        h.fresh q _ (Nat.lt_succ_self (s.world.processes q).calls)
    · simpa [World.currentCall, hq] using h.serves q
  · intro q k hk
    by_cases hq : q = p
    · subst hq
      simp only [Function.update_self] at hk
      exact h.fresh q k (by omega)
    · exact h.fresh q k (by simpa [hq] using hk)

/-- Requests may leave and open entries of known calls may come and go. -/
theorem Traced.messages (h : s.Traced wire) {w : World}
    (hprocesses : w.processes = s.world.processes)
    (hrequests : ∀ m ∈ w.requests, m ∈ s.world.requests)
    (hpending : ∀ e ∈ w.raft.pending, e ∈ s.world.raft.pending ∨ ∃ request,
      s.issued e.1 = some request ∧ HandlerAppends wire request e.2.bytes) :
    Traced wire { s with world := w } := by
  refine ⟨?_, ?_, ?_, ?_, h.history⟩
  · intro p
    simp only [World.currentCall, hprocesses]
    exact h.serves p
  · intro p k hk
    rw [hprocesses] at hk
    exact h.fresh p k hk
  · intro m hm
    exact h.requests m (hrequests m hm)
  · intro e he
    rcases hpending e he with hold | hnew
    · exact h.pending e hold
    · exact hnew

/-- The log has one more entry of a known call. -/
theorem Traced.commit (h : s.Traced wire) {call : CallId} {request : Request}
    (hissued : s.issued call = some request) (committed : List CommittedEntry) :
    Traced wire { s with
      committed := committed, history := s.history ++ [some (call, request)] } := by
  refine ⟨h.serves, h.fresh, h.requests, h.pending, ?_⟩
  intro call' request' hmem
  rcases List.mem_append.mp hmem with hold | hnew
  · exact h.history call' request' hold
  · rw [List.mem_singleton] at hnew
    cases hnew
    exact hissued

/-- A request that has been handled is in the log, or at most its own entry is new
among the open ones. -/
theorem raft_of_delivered (w : World) (i : Nat) (outcome : RaftResult)
    (message : RequestMessage) :
    (∃ payload, HandlerAppends wire message.request payload ∧
      (w.delivered wire i outcome message).raft =
        ⟨w.raft.log ++ [(message.call, .ofBytes payload)], w.raft.pending⟩) ∨
    ((w.delivered wire i outcome message).raft.log = w.raft.log ∧
      ∀ e ∈ (w.delivered wire i outcome message).raft.pending, e ∈ w.raft.pending ∨
        ∃ payload, HandlerAppends wire message.request payload ∧
          e = (message.call, .ofBytes payload)) := by
  rcases w.handled_cases wire (raftWithOutcome message.call outcome) i message with
    ⟨hraft, -⟩ | ⟨payload, hpayload, hraft, -⟩
  · have hsame : (w.delivered wire i outcome message).raft = w.raft := hraft
    right
    rw [hsame]
    exact ⟨rfl, fun e he => .inl he⟩
  · have happended : (w.delivered wire i outcome message).raft = _ := hraft
    rw [happended]
    simp only [raftWithOutcome]
    split
    · exact .inr ⟨rfl, fun e he => .inl he⟩
    · split
      · exact .inl ⟨payload, hpayload, rfl⟩
      · right
        refine ⟨rfl, ?_⟩
        intro e he
        rcases List.mem_append.mp he with hold | hnew
        · exact .inl hold
        · exact .inr ⟨payload, hpayload, List.mem_singleton.mp hnew⟩

/-- A request that is sent is the one of its call. -/
theorem Traced.send (h : s.Traced wire) {p : Nat} {server : Int32} {request : Request}
    {rest : Except String MutationResult → ClientProgram (Outcome MutationResult)}
    (hactivity : (s.world.processes p).activity = .running (.ask (.mutation server request) rest)) :
    Traced wire { s with world := { s.world.setActivity p (.waiting rest) with
      requests := s.world.requests ++ [⟨s.world.currentCall p, request⟩]
      sent := s.world.sent ++ [s.world.currentCall p] } } := by
  have hserves := h.serves p
  rw [hactivity] at hserves
  rcases hserves with ⟨r, hissued, hquestion, hsends⟩
  have hsame : request = r := hquestion server request rfl
  subst hsame
  have hserves' : (Activity.waiting rest).Serves (s.issued (s.world.currentCall p)) :=
    ⟨request, hissued, hsends⟩
  have hwaiting := h.setActivity hserves'
  refine ⟨hwaiting.serves, hwaiting.fresh, ?_, h.pending, h.history⟩
  intro m hm
  rcases List.mem_append.mp hm with hold | hnew
  · exact h.requests m hold
  · rw [List.mem_singleton] at hnew
    subst hnew
    exact hissued

/-- A request is handled: its entry is in the log or among the open ones, or
nowhere. -/
theorem Traced.deliver (h : s.Traced wire) {i : Nat} {message : RequestMessage}
    (hmessage : s.world.requests[i]? = some message) (outcome : RaftResult) :
    Traced wire (s.absorb (s.world.delivered wire i outcome message)) := by
  have hissued := h.requests _ (List.mem_of_getElem? hmessage)
  have hrequests : ∀ m ∈ s.world.requests.eraseIdx i, m ∈ s.world.requests :=
    fun _ hm => (List.eraseIdx_sublist _ _).mem hm
  rcases raft_of_delivered s.world i outcome message with
    ⟨payload, -, hraft⟩ | ⟨hlog, hpending⟩
  · have hlog : (s.world.delivered wire i outcome message).raft.log =
        s.world.raft.log ++ [(message.call, .ofBytes payload)] := by rw [hraft]
    have hkept : ∀ e ∈ (s.world.delivered wire i outcome message).raft.pending,
        e ∈ s.world.raft.pending ∨ ∃ request,
          s.issued e.1 = some request ∧ HandlerAppends wire request e.2.bytes := by
      rw [hraft]
      exact fun e he => .inl he
    have hhandled := h.messages (w := s.world.delivered wire i outcome message) rfl
      hrequests hkept
    rw [absorb_append s hlog]
    simp only [List.map_cons, List.map_nil, hissued, Option.map_some]
    exact hhandled.commit hissued _
  · rw [absorb_same s hlog]
    refine h.messages rfl hrequests ?_
    intro e he
    rcases hpending e he with hold | ⟨payload, hpayload, rfl⟩
    · exact .inl hold
    · exact .inr ⟨message.request, hissued, hpayload⟩

theorem Traced.world (h : s.Traced wire) {event : WorldEvent} {w : World}
    (hstep : s.world.step wire event = .ok w) :
    Traced wire ((s.note event).absorb w) := by
  cases World.transition_of_step hstep with
  | call hidle request =>
      rw [absorb_same]
      case hlog => rfl
      exact h.call hidle request
  | send hactivity =>
      rw [absorb_same]
      case hlog => rfl
      exact h.send hactivity
  | lookup hactivity answer =>
      rename_i p server rest
      rw [absorb_same]
      case hlog => rfl
      have hserves := h.serves p
      rw [hactivity] at hserves
      rcases hserves with ⟨r, hissued, -, hsends⟩
      exact h.setActivity ⟨r, hissued, hsends answer⟩
  | deliver hmessage outcome => exact h.deliver hmessage outcome
  | reply hreply hactivity hcurrent =>
      rename_i i call result rest
      rw [absorb_same]
      case hlog => rfl
      have hresumed := h.resume hactivity (.ok result)
      exact ⟨hresumed.serves, hresumed.fresh, h.requests, h.pending, h.history⟩
  | replyDropped hreply hstale =>
      rw [absorb_same]
      case hlog => rfl
      exact h.messages rfl (fun _ hm => hm) fun _ he => .inl he
  | fail hactivity what =>
      rw [absorb_same]
      case hlog => rfl
      exact h.resume hactivity (.error what)
  | finish hactivity =>
      rename_i p outcome client
      simp only [note, hactivity]
      rw [absorb_same]
      case hlog => rfl
      have hfinished := @Traced.finish _ _ h p client
      exact ⟨hfinished.serves, hfinished.fresh, h.requests, h.pending, h.history⟩
  | commitPending hentry =>
      rename_i i entry
      rw [absorb_append (s.note _) (show _ = s.world.raft.log ++ [entry] from rfl)]
      rcases h.pending entry (List.mem_of_getElem? hentry) with ⟨request, hissued, -⟩
      have hrest := h.messages (w := { s.world with
        raft := ⟨s.world.raft.log ++ [entry], s.world.raft.pending.eraseIdx i⟩ }) rfl
        (fun _ hm => hm) fun _ he => .inl ((List.eraseIdx_sublist _ _).mem he)
      simp only [note, List.map_cons, List.map_nil, hissued, Option.map_some]
      exact hrest.commit hissued _
  | dropPending hentry =>
      rw [absorb_same]
      case hlog => rfl
      exact h.messages rfl (fun _ hm => hm) fun _ he => .inl ((List.eraseIdx_sublist _ _).mem he)

theorem Traced.step (h : s.Traced wire) {event : ServiceEvent}
    (hstep : s.step wire db event = .ok s') : s'.Traced wire := by
  cases event with
  | world event =>
      simp only [Service.step] at hstep
      split at hstep
      · cases hstep
      · rename_i w hw
        cases hstep
        exact h.world hw
  | refuse i outcome =>
      rcases refuse_cases hstep with ⟨message, -, rfl⟩
      refine h.messages rfl (fun _ hm => (List.eraseIdx_sublist _ _).mem hm) ?_
      intro e he
      rcases s.world.handled_cases wire (raftRefusing outcome) i message with
        ⟨hraft, -⟩ | ⟨payload, -, hraft, -⟩
      · rw [hraft] at he
        exact .inl he
      · rw [hraft] at he
        exact .inl he
  | append i =>
      rcases append_cases hstep with ⟨message, payload, hmessage, -, rfl⟩
      have hissued := h.requests _ (List.mem_of_getElem? hmessage)
      have hrest := h.messages (w := { s.world with
        requests := s.world.requests.eraseIdx i
        raft := ⟨s.world.raft.log ++ [(message.call, .ofBytes payload)], s.world.raft.pending⟩ })
        rfl (fun _ hm => (List.eraseIdx_sublist _ _).mem hm) fun _ he => .inl he
      have hlog := hrest.commit hissued (s.committed ++ [.application payload])
      simp only [hissued, Option.map_some]
      exact ⟨hlog.serves, hlog.fresh, hlog.requests, hlog.pending, hlog.history⟩
  | answer j m text =>
      rcases answer_cases hstep with ⟨message, result, -, -, rfl⟩
      exact ⟨h.serves, h.fresh, h.requests, h.pending, h.history⟩
  | configure =>
      cases hstep
      refine ⟨h.serves, h.fresh, h.requests, h.pending, ?_⟩
      intro call r hmem
      exact h.history call r (by simpa using hmem)
  | apply server =>
      rcases apply_cases hstep with rfl | ⟨-, rfl⟩ | ⟨payload, ret, sm, failed, -, -, rfl⟩
      · exact h
      · exact ⟨h.serves, h.fresh, h.requests, h.pending, h.history⟩
      · exact ⟨h.serves, h.fresh, h.requests, h.pending, h.history⟩
  | read p key failure =>
      rcases read_cases hstep with ⟨hidle, queue, records, rfl, -⟩
      refine ⟨?_, ?_, h.requests, h.pending, h.history⟩
      · intro q
        by_cases hq : q = p
        · subst hq
          simpa [setClient, World.currentCall] using h.serves q
        · simpa [setClient, World.currentCall, hq] using h.serves q
      · intro q k hk
        by_cases hq : q = p
        · subst hq
          exact h.fresh q k (by simpa [setClient] using hk)
        · exact h.fresh q k (by simpa [setClient, hq] using hk)

/-- The history of calls and results is all that a note changes. -/
theorem note_eq (s : Service) (event : WorldEvent) :
    ∃ issued results, s.note event = { s with issued := issued, results := results } := by
  cases event with
  | call p request => exact ⟨_, _, rfl⟩
  | finish p =>
      unfold note
      dsimp only
      split
      · exact ⟨_, _, rfl⟩
      · exact ⟨_, _, rfl⟩
  | send p => exact ⟨_, _, rfl⟩
  | lookup p answer => exact ⟨_, _, rfl⟩
  | deliver i outcome => exact ⟨_, _, rfl⟩
  | reply i => exact ⟨_, _, rfl⟩
  | fail p what => exact ⟨_, _, rfl⟩
  | commitPending i => exact ⟨_, _, rfl⟩
  | dropPending i => exact ⟨_, _, rfl⟩

/-- A step of the clients and messages adds nothing to the log, or one entry that
is open or that the handler of a request on its way appends.  In the second case
nothing is written down. -/
theorem log_cases (htraced : s.Traced wire) {w : World} {event : WorldEvent}
    (hstep : s.world.step wire event = .ok w) :
    w.raft.log = s.world.raft.log ∨ ∃ entry request, s.note event = s ∧
      s.issued entry.1 = some request ∧ HandlerAppends wire request entry.2.bytes ∧
      w.raft.log = s.world.raft.log ++ [entry] := by
  cases World.transition_of_step hstep with
  | deliver hmessage outcome =>
      rename_i i message
      rcases raft_of_delivered s.world i outcome message with
        ⟨payload, hpayload, hraft⟩ | ⟨hlog, -⟩
      · right
        refine ⟨(message.call, .ofBytes payload), message.request, rfl,
          htraced.requests _ (List.mem_of_getElem? hmessage), hpayload, ?_⟩
        rw [hraft]
      · exact .inl hlog
  | commitPending hentry =>
      rename_i i entry
      rcases htraced.pending entry (List.mem_of_getElem? hentry) with ⟨request, hissued, hpayload⟩
      exact .inr ⟨entry, request, rfl, hissued, hpayload, rfl⟩
  | call hidle request => exact .inl rfl
  | send hactivity => exact .inl rfl
  | lookup hactivity answer => exact .inl rfl
  | reply hreply hactivity hcurrent => exact .inl rfl
  | replyDropped hreply hstale => exact .inl rfl
  | fail hactivity what => exact .inl rfl
  | finish hactivity => exact .inl rfl
  | dropPending hentry => exact .inl rfl

/-- What a step of the clients and messages does to log and replicas: nothing,
or the entry of a request becomes the next one of the log. -/
theorem world_cases (htraced : s.Traced wire) {event : WorldEvent}
    (hstep : s.step wire db (.world event) = .ok s') :
    ∃ w issued results, s.world.step wire event = .ok w ∧
      (∀ call request, s.issued call = some request → issued call = some request) ∧
      (s' = { s with world := w, issued := issued, results := results } ∨
        ∃ call request payload, s.issued call = some request ∧
          HandlerAppends wire request payload ∧
          s' = { s with
            world := w
            committed := s.committed ++ [.application payload]
            history := s.history ++ [some (call, request)] }) := by
  simp only [Service.step] at hstep
  split at hstep
  · cases hstep
  · rename_i w hw
    cases hstep
    rcases s.note_eq event with ⟨issued, results, hnote⟩
    refine ⟨w, issued, results, hw, ?_, ?_⟩
    · intro call request hissued
      have hkept := htraced.issued_note hw hissued
      rw [hnote] at hkept
      exact hkept
    rcases log_cases htraced hw with hsame | ⟨entry, request, hkeep, hissued, happends, hlog⟩
    · left
      rw [hnote, absorb_same]
      exact hsame
    · right
      refine ⟨entry.1, request, entry.2.bytes, hissued, happends, ?_⟩
      rw [hkeep, absorb_append s hlog]
      simp [hissued]

end Service

end ReplicatedSplinterDB
