import ReplicatedSplinterDB.Client.Mutation
import ReplicatedSplinterDB.Server.Replica
import ReplicatedSplinterDB.Foundation.EventRun
import Mathlib.Data.List.Perm.Basic

/-!
# How often a mutation is committed

Any number of clients run their calls side by side.  Requests and replies
travel on their own; a request reaches some server, whose handler appends it to
the Raft log with any outcome.  A request that Raft refuses because the server
is not the leader leaves nothing behind; one that it reports as done is in the
log; one with any other outcome is pending, and is committed later or lost.

Neither the operation format nor the state machine knows which call an entry
comes from.  The model tags requests and entries with their call so that
theorems can count them; no step looks at a tag of an entry.

Main results:

- Theorem {lit}`World.transition_of_step`: what a step can do, and when.
- Structure {lit}`World.Sound`: the invariant of the system.
- Theorem {lit}`World.step_conserved`: what a call has in the log, open, refused
  or on its way never exceeds what it has sent.
- Theorem {lit}`World.step_budgeted`: a call never sends more requests than it has
  retries.
- Theorem {lit}`mutation_committed_at_most_per_request`: over every run, a call
  commits at most one entry for each request that was not refused.
-/

namespace ReplicatedSplinterDB

open Foundation

/-- A client and the number of one of its calls. -/
abbrev CallId := Nat × Nat

/-! ## The Raft log -/

/-- The committed entries, and those whose outcome is open.  Each entry carries
the call that it comes from. -/
structure RaftLog where
  log : List (CallId × Buffer)
  pending : List (CallId × Buffer)

/-- Append with a given outcome.  A server that is not the leader appends
nothing, a zero code means committed, and any other code leaves the entries
open. -/
def raftWithOutcome (call : CallId) (outcome : RaftResult) : RaftServer RaftLog where
  appendEntries entries s :=
    if outcome.resultCode = Client.notLeader then (outcome, s)
    else if outcome.resultCode = 0 then
      (outcome, { s with log := s.log ++ entries.map (call, ·) })
    else (outcome, { s with pending := s.pending ++ entries.map (call, ·) })

/-! ## Clients and messages -/

/-- What a client is doing: nothing, running its program, or waiting for the
reply to a mutation request. -/
inductive Activity where
  | idle
  | running (program : ClientProgram (Outcome MutationResult))
  | waiting (rest : Except String MutationResult → ClientProgram (Outcome MutationResult))

/-- A client, the number of calls it has finished, and what it is doing. -/
structure Process where
  client : Client
  calls : Nat
  activity : Activity

/-- A mutation request on its way to a server. -/
structure RequestMessage where
  call : CallId
  request : Request

/-- All clients, all messages on their way and the Raft log.  The last two
fields list the calls of all requests sent, and of all requests that reached a
server that was not the leader. -/
structure World where
  processes : Nat → Process
  requests : List RequestMessage
  replies : List (CallId × MutationResult)
  raft : RaftLog
  sent : List CallId
  refused : List CallId

/-- One step of the system. -/
inductive WorldEvent where
  /-- A client starts a call. -/
  | call (p : Nat) (request : Request)
  /-- A client sends the mutation request it has come to. -/
  | send (p : Nat)
  /-- A leader lookup of a client returns. -/
  | lookup (p : Nat) (answer : Except String Int32)
  /-- A request reaches a server and is appended with this outcome. -/
  | deliver (i : Nat) (outcome : RaftResult)
  /-- A reply reaches its client, which drops it if it has stopped waiting. -/
  | reply (i : Nat)
  /-- A client stops waiting for a reply. -/
  | fail (p : Nat) (what : String)
  /-- A call returns or throws. -/
  | finish (p : Nat)
  /-- An open entry is committed by the current or a new leader. -/
  | commitPending (i : Nat)
  /-- An open entry is lost. -/
  | dropPending (i : Nat)

namespace World

/-- All clients idle and nothing in the log. -/
def start (clients : Nat → Client) : World where
  processes p := ⟨clients p, 0, .idle⟩
  requests := []
  replies := []
  raft := ⟨[], []⟩
  sent := []
  refused := []

/-- The call that a client is in, or would start next. -/
def currentCall (w : World) (p : Nat) : CallId := (p, (w.processes p).calls)

/-- Change what a client is doing. -/
def setActivity (w : World) (p : Nat) (activity : Activity) : World :=
  { w with
    processes := Function.update w.processes p { w.processes p with activity := activity } }

/-- The system after the handler of a server has handled a request. -/
def handled (wire : WireFormat) (raft : RaftServer RaftLog) (w : World) (i : Nat)
    (message : RequestMessage) : World :=
  let result := (handleMutation wire raft .blocking message.request).run w.raft
  { w with
    requests := w.requests.eraseIdx i
    raft := finalState result
    replies := match result with
      | .ok reply _ => w.replies ++ [(message.call, reply)]
      | .error _ _ => w.replies }

/-- The system after a request has been handled with an outcome. -/
def delivered (wire : WireFormat) (w : World) (i : Nat) (outcome : RaftResult)
    (message : RequestMessage) : World :=
  { w.handled wire (raftWithOutcome message.call outcome) i message with
    refused :=
      if outcome.resultCode = Client.notLeader then w.refused ++ [message.call]
      else w.refused }

/-- One step of the system; events that are not possible are refused. -/
def step (wire : WireFormat) (w : World) : WorldEvent → Except Unit World
  | .call p request =>
      match (w.processes p).activity with
      | .idle => .ok (w.setActivity p (.running ((w.processes p).client.perform request)))
      | _ => .error ()
  | .send p =>
      match (w.processes p).activity with
      | .running (.ask (.mutation _ request) rest) =>
          let w' := w.setActivity p (.waiting rest)
          .ok { w' with
            requests := w.requests ++ [⟨w.currentCall p, request⟩]
            sent := w.sent ++ [w.currentCall p] }
      | _ => .error ()
  | .lookup p answer =>
      match (w.processes p).activity with
      | .running (.ask (.leaderId _) rest) => .ok (w.setActivity p (.running (rest answer)))
      | _ => .error ()
  | .deliver i outcome =>
      match w.requests[i]? with
      | none => .error ()
      | some message => .ok (w.delivered wire i outcome message)
  | .reply i =>
      match w.replies[i]? with
      | none => .error ()
      | some (call, result) =>
          let w := { w with replies := w.replies.eraseIdx i }
          match (w.processes call.1).activity with
          | .waiting rest =>
              if call = w.currentCall call.1 then
                .ok (w.setActivity call.1 (.running (rest (.ok result))))
              else .ok w
          | _ => .ok w
  | .fail p what =>
      match (w.processes p).activity with
      | .waiting rest => .ok (w.setActivity p (.running (rest (.error what))))
      | _ => .error ()
  | .finish p =>
      match (w.processes p).activity with
      | .running (.ret (_, client)) =>
          .ok { w with
            processes := Function.update w.processes p
              ⟨client, (w.processes p).calls + 1, .idle⟩ }
      | _ => .error ()
  | .commitPending i =>
      match w.raft.pending[i]? with
      | none => .error ()
      | some entry =>
          .ok { w with raft := ⟨w.raft.log ++ [entry], w.raft.pending.eraseIdx i⟩ }
  | .dropPending i =>
      match w.raft.pending[i]? with
      | none => .error ()
      | some _ => .ok { w with raft := ⟨w.raft.log, w.raft.pending.eraseIdx i⟩ }

/-- What the possible steps do, with what they require of the system. -/
inductive Transition (wire : WireFormat) (w : World) : WorldEvent → World → Prop where
  | call {p : Nat} (hidle : (w.processes p).activity = .idle) (request : Request) :
      Transition wire w (.call p request)
        (w.setActivity p (.running ((w.processes p).client.perform request)))
  | send {p : Nat} {server : Int32} {request : Request}
      {rest : Except String MutationResult → ClientProgram (Outcome MutationResult)}
      (hactivity : (w.processes p).activity = .running (.ask (.mutation server request) rest)) :
      Transition wire w (.send p)
        { w.setActivity p (.waiting rest) with
          requests := w.requests ++ [⟨w.currentCall p, request⟩]
          sent := w.sent ++ [w.currentCall p] }
  | lookup {p : Nat} {server : Int32}
      {rest : Except String Int32 → ClientProgram (Outcome MutationResult)}
      (hactivity : (w.processes p).activity = .running (.ask (.leaderId server) rest))
      (answer : Except String Int32) :
      Transition wire w (.lookup p answer) (w.setActivity p (.running (rest answer)))
  | deliver {i : Nat} {message : RequestMessage} (hmessage : w.requests[i]? = some message)
      (outcome : RaftResult) :
      Transition wire w (.deliver i outcome) (w.delivered wire i outcome message)
  | reply {i : Nat} {call : CallId} {result : MutationResult}
      {rest : Except String MutationResult → ClientProgram (Outcome MutationResult)}
      (hreply : w.replies[i]? = some (call, result))
      (hactivity : (w.processes call.1).activity = .waiting rest)
      (hcurrent : call = w.currentCall call.1) :
      Transition wire w (.reply i)
        ({ w with replies := w.replies.eraseIdx i }.setActivity call.1
          (.running (rest (.ok result))))
  | replyDropped {i : Nat} {call : CallId} {result : MutationResult}
      (hreply : w.replies[i]? = some (call, result))
      (hstale : ∀ rest, (w.processes call.1).activity = .waiting rest →
        call ≠ w.currentCall call.1) :
      Transition wire w (.reply i) { w with replies := w.replies.eraseIdx i }
  | fail {p : Nat} {rest : Except String MutationResult → ClientProgram (Outcome MutationResult)}
      (hactivity : (w.processes p).activity = .waiting rest) (what : String) :
      Transition wire w (.fail p what) (w.setActivity p (.running (rest (.error what))))
  | finish {p : Nat} {outcome : Except Exception MutationResult} {client : Client}
      (hactivity : (w.processes p).activity = .running (.ret (outcome, client))) :
      Transition wire w (.finish p)
        { w with
          processes := Function.update w.processes p
            ⟨client, (w.processes p).calls + 1, .idle⟩ }
  | commitPending {i : Nat} {entry : CallId × Buffer} (hentry : w.raft.pending[i]? = some entry) :
      Transition wire w (.commitPending i)
        { w with raft := ⟨w.raft.log ++ [entry], w.raft.pending.eraseIdx i⟩ }
  | dropPending {i : Nat} {entry : CallId × Buffer} (hentry : w.raft.pending[i]? = some entry) :
      Transition wire w (.dropPending i)
        { w with raft := ⟨w.raft.log, w.raft.pending.eraseIdx i⟩ }

/-- A step that is not refused is one of these. -/
theorem transition_of_step {wire : WireFormat} {w w' : World} {event : WorldEvent}
    (h : w.step wire event = .ok w') : w.Transition wire event w' := by
  cases event with
  | call p request =>
      simp only [step] at h
      split at h
      · rename_i hidle
        cases h
        exact .call hidle request
      · cases h
  | send p =>
      simp only [step] at h
      split at h
      · rename_i server request rest hactivity
        cases h
        exact .send hactivity
      · cases h
  | lookup p answer =>
      simp only [step] at h
      split at h
      · rename_i server rest hactivity
        cases h
        exact .lookup hactivity answer
      · cases h
  | deliver i outcome =>
      simp only [step] at h
      split at h
      · cases h
      · rename_i message hmessage
        cases h
        exact .deliver hmessage outcome
  | reply i =>
      simp only [step] at h
      split at h
      · cases h
      · rename_i call result hreply
        split at h
        · rename_i rest hactivity
          split at h
          · rename_i hcurrent
            cases h
            exact .reply hreply hactivity hcurrent
          · rename_i hother
            cases h
            exact .replyDropped hreply fun _ _ => hother
        · rename_i hbusy
          cases h
          exact .replyDropped hreply fun rest hactivity => absurd hactivity (hbusy rest)
  | fail p what =>
      simp only [step] at h
      split at h
      · rename_i rest hactivity
        cases h
        exact .fail hactivity what
      · cases h
  | finish p =>
      simp only [step] at h
      split at h
      · rename_i outcome client hactivity
        cases h
        exact .finish hactivity
      · cases h
  | commitPending i =>
      simp only [step] at h
      split at h
      · cases h
      · rename_i entry hentry
        cases h
        exact .commitPending hentry
  | dropPending i =>
      simp only [step] at h
      split at h
      · cases h
      · rename_i entry hentry
        cases h
        exact .dropPending hentry

end World

/-! ## Nothing is appended that was not sent -/

/-- Taking one element out of a list lowers the count of its image by one. -/
theorem count_map_eraseIdx {α : Type} {l : List α} {i : Nat} {x : α} (h : l[i]? = some x)
    (f : α → CallId) (call : CallId) :
    (l.map f).count call =
      ((l.eraseIdx i).map f).count call + if f x = call then 1 else 0 := by
  rcases List.getElem?_eq_some_iff.mp h with ⟨hi, rfl⟩
  have hperm := ((List.getElem_cons_eraseIdx_perm hi).map f).count_eq call
  rw [← hperm, List.map_cons, List.count_cons]
  simp

/-- The number of entries of a call, committed or open. -/
def RaftLog.count (s : RaftLog) (call : CallId) : Nat :=
  (s.log.map Prod.fst).count call + (s.pending.map Prod.fst).count call

theorem count_appendEntries (source call : CallId) (outcome : RaftResult) (newLog : Buffer)
    (s : RaftLog) :
    ((raftWithOutcome source outcome).appendEntries [newLog] s).2.count call =
      s.count call +
        if outcome.resultCode = Client.notLeader then 0 else if source = call then 1 else 0 := by
  unfold raftWithOutcome RaftLog.count
  by_cases hleader : outcome.resultCode = Client.notLeader
  · simp [hleader]
  · by_cases hzero : outcome.resultCode = 0
    · simp [hzero, Client.notLeader, List.count_singleton]
      omega
    · simp [hleader, hzero, List.count_singleton]
      omega

/-- Handling a request adds at most one entry of its call, and none at a server
that is not the leader. -/
theorem count_handleMutation_le (wire : WireFormat) (source call : CallId) (outcome : RaftResult)
    (request : Request) (s : RaftLog) :
    (finalState ((handleMutation wire (raftWithOutcome source outcome) .blocking
        request).run s)).count call ≤
      s.count call +
        if outcome.resultCode = Client.notLeader then 0 else if source = call then 1 else 0 := by
  rcases handleMutation_appends_once wire (raftWithOutcome source outcome) .blocking request s with
    hsame | ⟨newLog, happend⟩
  · rw [hsame]
    exact Nat.le_add_right _ _
  · rw [happend, count_appendEntries]

namespace World

/-- The number of committed entries of a call. -/
def committed (w : World) (call : CallId) : Nat := (w.raft.log.map Prod.fst).count call

/-- What a call has in the log, open, refused or on its way is at most what it
has sent. -/
def Conserved (w : World) : Prop :=
  ∀ call, w.raft.count call + w.refused.count call +
    (w.requests.map RequestMessage.call).count call ≤ w.sent.count call

/-- Every step keeps the balance.  Only sending adds to it, on both sides. -/
theorem step_conserved {wire : WireFormat} {w w' : World} {event : WorldEvent}
    (h : w.Conserved) (hstep : w.step wire event = .ok w') : w'.Conserved := by
  cases transition_of_step hstep with
  | call hidle request => exact h
  | send hactivity =>
      intro call
      have hcall := h call
      simp only [List.map_append, List.map_cons, List.map_nil, List.count_append, setActivity]
      omega
  | lookup hactivity answer => exact h
  | deliver hmessage outcome =>
      rename_i i message
      intro call
      have hcall := h call
      have hflight := count_map_eraseIdx hmessage RequestMessage.call call
      have hraft := count_handleMutation_le wire message.call call outcome message.request w.raft
      dsimp only [delivered, handled]
      split at hraft
      · rename_i hleader
        rw [if_pos hleader, List.count_append, List.count_singleton]
        simp only [beq_iff_eq]
        omega
      · rename_i hleader
        rw [if_neg hleader]
        omega
  | reply hreply hactivity hcurrent => exact h
  | replyDropped hreply hstale => exact h
  | fail hactivity what => exact h
  | finish hactivity => exact h
  | commitPending hentry =>
      intro call
      have hcall := h call
      have hpending := count_map_eraseIdx hentry Prod.fst call
      simp only [RaftLog.count, List.map_append, List.map_cons, List.map_nil,
        List.count_append, List.count_singleton, beq_iff_eq] at hcall ⊢
      omega
  | dropPending hentry =>
      intro call
      have hcall := h call
      have hpending := count_map_eraseIdx hentry Prod.fst call
      simp only [RaftLog.count] at hcall ⊢
      omega

end World

/-! ## A call sends no more requests than it has retries -/

/-- The program sends at most {lit}`n` more requests and leaves the client with
the given number of retries. -/
def Behaves (numRetries : UInt16) (n : Nat) (program : ClientProgram (Outcome MutationResult)) :
    Prop :=
  program.AtMost Rpc.isMutation n ∧
    program.Ensures (fun _ _ => True)
      (Client.MayThrow (fun _ => True) fun c => c.numRetries = numRetries)

theorem Behaves.mutation {numRetries : UInt16} {n : Nat} {server : Int32} {request : Request}
    {rest : Except String MutationResult → ClientProgram (Outcome MutationResult)}
    (h : Behaves numRetries n (.ask (.mutation server request) rest)) :
    ∃ m, n = m + 1 ∧ ∀ answer, Behaves numRetries m (rest answer) := by
  rcases h with ⟨⟨m, hm, hbound⟩, hkeeps⟩
  exact ⟨m, hm, fun answer => ⟨hbound answer, hkeeps answer trivial⟩⟩

theorem Behaves.leaderId {numRetries : UInt16} {n : Nat} {server : Int32}
    {rest : Except String Int32 → ClientProgram (Outcome MutationResult)}
    (h : Behaves numRetries n (.ask (.leaderId server) rest)) (answer : Except String Int32) :
    Behaves numRetries n (rest answer) :=
  ⟨h.1 answer, h.2 answer trivial⟩

theorem behaves_perform (request : Request) (c : Client) :
    Behaves c.numRetries c.numRetries.toNat (c.perform request) := by
  refine ⟨?_, Client.perform_keeps (fun _ _ h => h) request rfl⟩
  rw [Client.perform_eq]
  exact Client.mutateLoop_atMost request _ _ c

/-- A client that has sent {lit}`count` requests in its current call may send
the rest of its retries. -/
def Activity.Within (numRetries : UInt16) (count : Nat) : Activity → Prop
  | .idle => count = 0
  | .running program =>
      ∃ n, count + n ≤ numRetries.toNat ∧ Behaves numRetries n program
  | .waiting rest =>
      ∃ n, count + n ≤ numRetries.toNat ∧ ∀ answer, Behaves numRetries n (rest answer)

theorem Activity.Within.count_le {numRetries : UInt16} {count : Nat} {activity : Activity}
    (h : activity.Within numRetries count) : count ≤ numRetries.toNat := by
  cases activity with
  | idle =>
      rw [show count = 0 from h]
      exact Nat.zero_le _
  | running program =>
      rcases h with ⟨n, hn, -⟩
      omega
  | waiting rest =>
      rcases h with ⟨n, hn, -⟩
      omega

/-- A client keeps its number of retries, has sent at most that many requests in
each finished call and none in later ones, and stays within it in the current
one.  The function counts the requests of each call. -/
structure Process.Budgeted (numRetries : UInt16) (count : Nat → Nat) (process : Process) :
    Prop where
  numRetries_eq : process.client.numRetries = numRetries
  past : ∀ k, k < process.calls → count k ≤ numRetries.toNat
  future : ∀ k, process.calls < k → count k = 0
  current : process.activity.Within numRetries (count process.calls)

namespace Process.Budgeted

variable {numRetries : UInt16} {count : Nat → Nat} {process : Process}

theorem count_le (h : process.Budgeted numRetries count) (k : Nat) :
    count k ≤ numRetries.toNat := by
  rcases Nat.lt_trichotomy k process.calls with hlt | rfl | hgt
  · exact h.past k hlt
  · exact h.current.count_le
  · rw [h.future k hgt]
    exact Nat.zero_le _

theorem setActivity (h : process.Budgeted numRetries count) {activity : Activity}
    (hwithin : activity.Within numRetries (count process.calls)) :
    Process.Budgeted numRetries count { process with activity := activity } :=
  ⟨h.numRetries_eq, h.past, h.future, hwithin⟩

theorem call (h : process.Budgeted numRetries count) (hidle : process.activity = .idle)
    (request : Request) :
    Process.Budgeted numRetries count
      { process with activity := .running (process.client.perform request) } := by
  apply h.setActivity
  have hcount := h.current
  rw [hidle] at hcount
  refine ⟨numRetries.toNat, ?_, ?_⟩
  · rw [show count process.calls = 0 from hcount]
    exact Nat.le_of_eq (Nat.zero_add _)
  · rw [← h.numRetries_eq]
    exact behaves_perform request process.client

theorem lookup (h : process.Budgeted numRetries count) {server : Int32}
    {rest : Except String Int32 → ClientProgram (Outcome MutationResult)}
    (hactivity : process.activity = .running (.ask (.leaderId server) rest))
    (answer : Except String Int32) :
    Process.Budgeted numRetries count { process with activity := .running (rest answer) } := by
  apply h.setActivity
  have hcurrent := h.current
  rw [hactivity] at hcurrent
  rcases hcurrent with ⟨n, hn, hbehaves⟩
  exact ⟨n, hn, hbehaves.leaderId answer⟩

theorem resume (h : process.Budgeted numRetries count)
    {rest : Except String MutationResult → ClientProgram (Outcome MutationResult)}
    (hactivity : process.activity = .waiting rest) (answer : Except String MutationResult) :
    Process.Budgeted numRetries count { process with activity := .running (rest answer) } := by
  apply h.setActivity
  have hcurrent := h.current
  rw [hactivity] at hcurrent
  rcases hcurrent with ⟨n, hn, hbehaves⟩
  exact ⟨n, hn, hbehaves answer⟩

/-- Sending uses up one request of the current call's budget. -/
theorem send (h : process.Budgeted numRetries count) {server : Int32} {request : Request}
    {rest : Except String MutationResult → ClientProgram (Outcome MutationResult)}
    (hactivity : process.activity = .running (.ask (.mutation server request) rest)) :
    Process.Budgeted numRetries (fun k => count k + if process.calls = k then 1 else 0)
      { process with activity := .waiting rest } := by
  have hcurrent := h.current
  rw [hactivity] at hcurrent
  rcases hcurrent with ⟨n, hn, hbehaves⟩
  rcases hbehaves.mutation with ⟨m, rfl, hrest⟩
  refine ⟨h.numRetries_eq, ?_, ?_, m, ?_, hrest⟩
  · intro k hk
    have hpast := h.past k hk
    dsimp only at hk ⊢
    rw [if_neg (by omega)]
    exact hpast
  · intro k hk
    have hfuture := h.future k hk
    dsimp only at hk ⊢
    rw [if_neg (by omega), hfuture]
  · dsimp only
    rw [if_pos rfl]
    omega

/-- A call that ends becomes a past one, and the next one has sent nothing. -/
theorem finish (h : process.Budgeted numRetries count) {outcome : Except Exception MutationResult}
    {client : Client} (hactivity : process.activity = .running (.ret (outcome, client))) :
    Process.Budgeted numRetries count ⟨client, process.calls + 1, .idle⟩ := by
  have hcurrent := h.current
  rw [hactivity] at hcurrent
  rcases hcurrent with ⟨n, hn, -, -, hclient⟩
  refine ⟨hclient, ?_, ?_, ?_⟩
  · intro k _
    exact h.count_le k
  · intro k hk
    dsimp only at hk
    exact h.future k (by omega)
  · exact h.future (process.calls + 1) (Nat.lt_succ_self _)

end Process.Budgeted

namespace World

/-- Every client stays within its budget. -/
def Budgeted (retries : Nat → UInt16) (w : World) : Prop :=
  ∀ p, (w.processes p).Budgeted (retries p) fun k => w.sent.count (p, k)

variable {retries : Nat → UInt16} {w w' : World}

theorem budgeted_start (clients : Nat → Client) :
    (start clients).Budgeted fun p => (clients p).numRetries := by
  intro p
  refine ⟨rfl, ?_, fun _ _ => rfl, rfl⟩
  intro k hk
  exact absurd hk (Nat.not_lt_zero k)

/-- Changing one client keeps the others within their budgets, as long as no
request of theirs is counted. -/
theorem Budgeted.update (h : w.Budgeted retries) {p : Nat} {process : Process}
    {sent : List CallId} (hsent : ∀ q k, q ≠ p → sent.count (q, k) = w.sent.count (q, k))
    (hprocess : process.Budgeted (retries p) fun k => sent.count (p, k)) (q : Nat) :
    (Function.update w.processes p process q).Budgeted (retries q)
      fun k => sent.count (q, k) := by
  by_cases hq : q = p
  · subst hq
    rw [Function.update_self]
    exact hprocess
  · rw [Function.update_of_ne hq]
    have hcount : (fun k => sent.count (q, k)) = fun k => w.sent.count (q, k) := by
      funext k
      exact hsent q k hq
    rw [hcount]
    exact h q

/-- Every step keeps all clients within their budgets. -/
theorem step_budgeted {wire : WireFormat} {event : WorldEvent} (h : w.Budgeted retries)
    (hstep : w.step wire event = .ok w') : w'.Budgeted retries := by
  cases transition_of_step hstep with
  | call hidle request => exact h.update (fun _ _ _ => rfl) ((h _).call hidle request)
  | send hactivity =>
      rename_i p server request rest
      apply h.update
      · intro q k hq
        have hne : w.currentCall p ≠ (q, k) := by
          intro heq
          exact hq (congrArg Prod.fst heq).symm
        rw [List.count_append, List.count_singleton]
        simp [hne]
      · have hsend := (h p).send hactivity
        have hcount : (fun k => (w.sent ++ [w.currentCall p]).count (p, k)) = fun k =>
            w.sent.count (p, k) + if (w.processes p).calls = k then 1 else 0 := by
          funext k
          rw [List.count_append, List.count_singleton]
          simp [currentCall]
        rw [hcount]
        exact hsend
  | lookup hactivity answer => exact h.update (fun _ _ _ => rfl) ((h _).lookup hactivity answer)
  | deliver hmessage outcome => exact h
  | reply hreply hactivity hcurrent =>
      exact h.update (fun _ _ _ => rfl) ((h _).resume hactivity (.ok _))
  | replyDropped hreply hstale => exact h
  | fail hactivity what => exact h.update (fun _ _ _ => rfl) ((h _).resume hactivity (.error what))
  | finish hactivity => exact h.update (fun _ _ _ => rfl) ((h _).finish hactivity)
  | commitPending hentry => exact h
  | dropPending hentry => exact h

/-- The invariant of the system. -/
structure Sound (retries : Nat → UInt16) (w : World) : Prop where
  conserved : w.Conserved
  budgeted : w.Budgeted retries

theorem sound_start (clients : Nat → Client) :
    (start clients).Sound fun p => (clients p).numRetries :=
  ⟨fun _ => Nat.le_refl 0, budgeted_start clients⟩

theorem step_sound {wire : WireFormat} (w : World) (event : WorldEvent) (w' : World)
    (h : w.Sound retries) (hstep : w.step wire event = .ok w') : w'.Sound retries :=
  ⟨step_conserved h.conserved hstep, step_budgeted h.budgeted hstep⟩

end World

/-- For any number of clients with any numbers of retries, and every run of
calls, deliveries, lookups, failures and Raft outcomes: the committed entries of
a call and its refused requests together are at most the requests it has sent,
which are at most its retries.  In particular a call is committed at most once
if all of its requests but one were refused for want of a leader. -/
theorem mutation_committed_at_most_per_request (wire : WireFormat) (clients : Nat → Client)
    (events : List WorldEvent) (w : World)
    (hrun : runEvents (World.step wire) events (World.start clients) = .ok w) (call : CallId) :
    w.committed call + w.refused.count call ≤ w.sent.count call ∧
      w.sent.count call ≤ (clients call.1).numRetries.toNat ∧
      (w.sent.count call ≤ w.refused.count call + 1 → w.committed call ≤ 1) := by
  rcases runEvents_invariant World.step_sound (World.sound_start clients) hrun with
    ⟨hconserved, hbudgeted⟩
  have hsent := hconserved call
  have hretries := (hbudgeted call.1).count_le call.2
  have hcount : w.raft.count call =
      w.committed call + (w.raft.pending.map Prod.fst).count call := rfl
  refine ⟨by omega, hretries, ?_⟩
  intro hrefused
  omega

/-- Clients with three retries that know one server. -/
def oneServerClients : Nat → Client := fun _ =>
  ⟨ServerMap.empty.emplace 1 ⟨"a", 1001⟩, [1], 1, 3⟩

/-- A put that is refused once and then committed. -/
theorem mutation_committed_once_after_refusal :
    ∃ w, runEvents (World.step .littleEndian)
        [.call 0 (.put [107] [118]), .send 0, .deliver 0 ⟨false, false, -3, "not leader", none⟩,
          .reply 0, .lookup 0 (.ok 1), .send 0, .deliver 0 ⟨true, false, 0, "", none⟩, .reply 0,
          .finish 0] (World.start oneServerClients) = .ok w ∧
      w.sent.count (0, 0) = 2 ∧ w.refused.count (0, 0) = 1 ∧ w.committed (0, 0) ≤ 1 := by
  have hrun : ∃ w, runEvents (World.step .littleEndian)
        [.call 0 (.put [107] [118]), .send 0, .deliver 0 ⟨false, false, -3, "not leader", none⟩,
          .reply 0, .lookup 0 (.ok 1), .send 0, .deliver 0 ⟨true, false, 0, "", none⟩, .reply 0,
          .finish 0] (World.start oneServerClients) = .ok w ∧
      w.sent.count (0, 0) = 2 ∧ w.refused.count (0, 0) = 1 := ⟨_, rfl, rfl, rfl⟩
  rcases hrun with ⟨w, hrun, hsent, hrefused⟩
  refine ⟨w, hrun, hsent, hrefused, ?_⟩
  apply (mutation_committed_at_most_per_request .littleEndian oneServerClients _ w hrun (0, 0)).2.2
  omega

/-- A put whose first request is cancelled and committed later all the same: the
retry is committed as well, and the call is in the log twice. -/
theorem cancelled_put_is_committed_twice :
    ∃ w, runEvents (World.step .littleEndian)
        [.call 0 (.put [107] [118]), .send 0, .deliver 0 ⟨false, false, -1, "cancelled", none⟩,
          .reply 0, .lookup 0 (.ok 1), .send 0, .commitPending 0,
          .deliver 0 ⟨true, false, 0, "", none⟩, .reply 0, .finish 0]
        (World.start oneServerClients) = .ok w ∧
      w.committed (0, 0) = 2 :=
  ⟨_, rfl, rfl⟩

end ReplicatedSplinterDB
