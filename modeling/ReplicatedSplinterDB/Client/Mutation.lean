import ReplicatedSplinterDB.Client.Connection
import ReplicatedSplinterDB.Foundation.Interaction

/-!
# Client mutations

A mutation call sends its request to the server that the client takes for the
leader, and sends it again as long as the Raft layer refuses it and retries are
left.  When the refusal says that the leader has changed, the client first asks
all servers for the new one.

The calls are interactive programs: each remote call is a question, and every
reply, every lookup answer and every failure of the transport is a possible
answer.

Main results:

- Theorem {lit}`Client.mutateLoop_atMost`: a call sends at most as many requests
  as it has retries.
- Theorem {lit}`client_success_is_sound`: what a successful call has sent and
  what it was answered.
- Theorem {lit}`client_leader_handle_usable`: the leader stays a connected server
  as long as the leaders that servers name are connected.
-/

namespace ReplicatedSplinterDB

open Foundation

/-! ## Remote calls -/

/-- The remote calls of a mutation. -/
inductive Rpc where
  | mutation (server : Int32) (request : Request)
  | leaderId (server : Int32)
deriving DecidableEq, Repr

/-- What a remote call returns; an error is an exception of the transport. -/
@[reducible] def Rpc.Answer : Rpc → Type
  | .mutation _ _ => Except String MutationResult
  | .leaderId _ => Except String Int32

/-- The call carries a mutation request. -/
def Rpc.isMutation : Rpc → Bool
  | .mutation _ _ => true
  | .leaderId _ => false

/-- A program of the client. -/
abbrev ClientProgram (ρ : Type) := Interaction Rpc Rpc.Answer ρ

/-- The outcome of a client call: what it returns or throws, and the client
afterwards. -/
abbrev Outcome (α : Type) := Except Exception α × Client

namespace Client

/-- {lit}`GET_LEADER_NO_LIVE_LEADER` -/
def noLiveLeader : Int32 := -1

/-- {lit}`CMD_RESULT_NOT_LEADER` -/
def notLeader : Int32 := -3

/-- {lit}`CMD_RESULT_REQUEST_CANCELLED` -/
def requestCancelled : Int32 := -1

/-- {lit}`CMD_RESULT_WEIRD_CASE` -/
def weirdCase : Int32 := 999

/-! ## Finding the leader -/

/-- Ask one server for the leader, at most the given number of times.  The
server is left without an answer when a call fails or all report no leader. -/
def askServer (server : Int32) : Nat → ClientProgram (Option Int32)
  | 0 => .ret none
  | todo + 1 =>
      .ask (.leaderId server) fun (answer : Except String Int32) =>
        match answer with
        | .error _ => .ret none
        | .ok leaderId =>
            if leaderId ≠ noLiveLeader then .ret (some leaderId) else askServer server todo

/-- Ask the servers in order until one names a leader. -/
def askServers (numRetries : Nat) : List Int32 → ClientProgram (Except Exception Int32)
  | [] => .ret (.error (.runtimeError "failed to connect to any server"))
  | server :: servers =>
      (askServer server numRetries).bind fun
        | some leaderId => .ret (.ok leaderId)
        | none => askServers numRetries servers

/-- {lit}`client::get_leader_id` -/
def getLeaderId (c : Client) : ClientProgram (Except Exception Int32) :=
  askServers c.numRetries.toNat c.clients.ids

/-- {lit}`client::get_leader_handle`: the server that mutations go to. -/
def getLeaderHandle (c : Client) : Except Exception Int32 :=
  if c.leaderId ∈ c.clients.ids then .ok c.leaderId else .error .outOfRange

/-- {lit}`client::try_handle_leader_change`: look the leader up if the return
code says that it may have changed. -/
def tryHandleLeaderChange (raftRc : Int32) (c : Client) : ClientProgram (Outcome Bool) :=
  if raftRc = notLeader ∨ raftRc = requestCancelled then
    c.getLeaderId.bind fun
      | .error e => .ret (.error e, c)
      | .ok leaderId => .ret (.ok true, { c with leaderId := leaderId })
  else .ret (.ok false, c)

/-! ## Mutations -/

/-- The loop of a mutation call, with the number of rounds left and the result
of the last round. -/
def mutateLoop (request : Request) :
    Nat → MutationResult → Client → ClientProgram (Outcome MutationResult)
  | 0, result, c => .ret (.ok result, c)
  | todo + 1, _, c =>
      match c.getLeaderHandle with
      | .error e => .ret (.error e, c)
      | .ok server =>
          .ask (.mutation server request) fun (answer : Except String MutationResult) =>
            match answer with
            | .error what => .ret (.error (.rpc what), c)
            | .ok result =>
                if wasAccepted result then .ret (.ok result, c)
                else if getNuraftReturnCode result = weirdCase then
                  .ret (.ok { result with raftCode := 0 }, c)
                else
                  (tryHandleLeaderChange (getNuraftReturnCode result) c).bind fun
                    | (.error e, c) => .ret (.error e, c)
                    | (.ok _, c) => mutateLoop request todo result c

/-- A mutation call, which starts from a default-constructed result. -/
def mutate (request : Request) (c : Client) : ClientProgram (Outcome MutationResult) :=
  mutateLoop request c.numRetries.toNat .default c

/-- {lit}`client::put` -/
def put (key value : Bytes) (c : Client) : ClientProgram (Outcome MutationResult) :=
  mutate (.put key value) c

/-- {lit}`client::update` -/
def update (key value : Bytes) (c : Client) : ClientProgram (Outcome MutationResult) :=
  mutate (.update key value) c

/-- {lit}`client::del` -/
def del (key : Bytes) (c : Client) : ClientProgram (Outcome MutationResult) :=
  mutate (.delete key) c

/-- The call that a request stands for. -/
def perform : Request → Client → ClientProgram (Outcome MutationResult)
  | .put key value, c => c.put key value
  | .update key value, c => c.update key value
  | .delete key, c => c.del key

theorem perform_eq (request : Request) (c : Client) : c.perform request = c.mutate request := by
  cases request <;> rfl

/-! ## How many requests a call sends -/

theorem askServer_atMost (server : Int32) (todo : Nat) :
    (askServer server todo).AtMost Rpc.isMutation 0 := by
  induction todo with
  | zero => trivial
  | succ todo ih =>
      intro answer
      cases answer with
      | error what => trivial
      | ok leaderId =>
          dsimp only
          split
          · trivial
          · exact ih

theorem askServers_atMost (numRetries : Nat) (servers : List Int32) :
    (askServers numRetries servers).AtMost Rpc.isMutation 0 := by
  induction servers with
  | nil => trivial
  | cons server servers ih =>
      apply (askServer_atMost server numRetries).zero_bind
      intro found
      cases found with
      | none => exact ih
      | some leaderId => trivial

theorem tryHandleLeaderChange_atMost (raftRc : Int32) (c : Client) :
    (tryHandleLeaderChange raftRc c).AtMost Rpc.isMutation 0 := by
  unfold tryHandleLeaderChange
  split
  · apply (askServers_atMost c.numRetries.toNat c.clients.ids).zero_bind
    intro found
    cases found with
    | error e => trivial
    | ok leaderId => trivial
  · trivial

/-- Each round of the loop sends one request. -/
theorem mutateLoop_atMost (request : Request) (todo : Nat) (result : MutationResult) (c : Client) :
    (mutateLoop request todo result c).AtMost Rpc.isMutation todo := by
  induction todo generalizing result c with
  | zero => trivial
  | succ todo ih =>
      unfold mutateLoop
      cases c.getLeaderHandle with
      | error e => trivial
      | ok server =>
          refine ⟨todo, rfl, ?_⟩
          intro answer
          cases answer with
          | error what => trivial
          | ok reply =>
              dsimp only
              split
              · trivial
              · split
                · trivial
                · apply (tryHandleLeaderChange_atMost (getNuraftReturnCode reply) c).zero_bind
                  rintro ⟨outcome, c'⟩
                  cases outcome with
                  | error e => trivial
                  | ok changed => exact ih reply c'

/-! ## Reasoning about the loop -/

/-- What a round of the loop that does not throw can do: end the call with an
accepted reply, end it with the rewritten reply, or go on after a reply that the
Raft layer refused. -/
theorem mutateLoop_succ_cases {request : Request} {todo : Nat} {prev r : MutationResult}
    {c c' : Client} {trace : List (Sigma Rpc.Answer)}
    (h : (mutateLoop request (todo + 1) prev c).Exchanges trace (.ok r, c')) :
    ∃ server reply rest, trace = ⟨.mutation server request, .ok reply⟩ :: rest ∧
      ((rest = [] ∧ reply.raftCode = 0 ∧ r = reply) ∨
        (rest = [] ∧ reply.raftCode = weirdCase ∧ r = { reply with raftCode := 0 }) ∨
        (reply.raftCode ≠ 0 ∧ reply.raftCode ≠ weirdCase ∧
          ∃ lookup after changed mid, rest = lookup ++ after ∧
          (tryHandleLeaderChange reply.raftCode c).Exchanges lookup (.ok changed, mid) ∧
          (mutateLoop request todo reply mid).Exchanges after (.ok r, c'))) := by
  unfold mutateLoop at h
  cases hhandle : c.getLeaderHandle with
  | error e =>
      rw [hhandle] at h
      rcases h with ⟨-, h⟩
      cases h
  | ok server =>
      rw [hhandle] at h
      rcases h with ⟨answer, rest, rfl, h⟩
      cases answer with
      | error what =>
          rcases h with ⟨-, h⟩
          cases h
      | ok reply =>
          refine ⟨server, reply, rest, rfl, ?_⟩
          dsimp only at h
          by_cases haccepted : reply.raftCode = 0
          · rw [if_pos (by simpa [wasAccepted, getNuraftReturnCode] using haccepted)] at h
            rcases h with ⟨rfl, h⟩
            cases h
            exact .inl ⟨rfl, haccepted, rfl⟩
          · rw [if_neg (by simpa [wasAccepted, getNuraftReturnCode] using haccepted)] at h
            by_cases hweird : getNuraftReturnCode reply = weirdCase
            · rw [if_pos hweird] at h
              rcases h with ⟨rfl, h⟩
              cases h
              exact .inr (.inl ⟨rfl, hweird, rfl⟩)
            · rw [if_neg hweird, Interaction.exchanges_bind_iff] at h
              rcases h with ⟨lookup, after, ⟨outcome, mid⟩, rfl, hlookup, hrest⟩
              cases outcome with
              | error e =>
                  rcases hrest with ⟨-, hrest⟩
                  cases hrest
              | ok changed =>
                  exact .inr (.inr ⟨haccepted, hweird, lookup, after, changed, mid, rfl, hlookup,
                    hrest⟩)

/-- The outcome throws only exceptions of one kind and leaves the client with a
property. -/
def MayThrow {α : Type} (allowed : Exception → Prop) (inv : Client → Prop) (outcome : Outcome α) :
    Prop :=
  (∀ e, outcome.1 = .error e → allowed e) ∧ inv outcome.2

theorem mayThrow_ok {α : Type} {allowed : Exception → Prop} {inv : Client → Prop} (a : α)
    {c : Client} (h : inv c) : MayThrow allowed inv (.ok a, c) := by
  refine ⟨?_, h⟩
  intro e he
  cases he

theorem mayThrow_error {α : Type} {allowed : Exception → Prop} {inv : Client → Prop}
    {e : Exception} (he : allowed e) {c : Client} (h : inv c) :
    MayThrow allowed inv ((.error e, c) : Outcome α) := by
  refine ⟨?_, h⟩
  intro e' he'
  cases he'
  exact he

/-- The rule of the loop: a property of the client that leader changes keep
holds after every call, and a call throws only what the transport, a leader
change or a missing handle throws. -/
theorem mutateLoop_rule {assume : (rpc : Rpc) → rpc.Answer → Prop}
    {allowed : Exception → Prop} {inv : Client → Prop} (hrpc : ∀ what, allowed (.rpc what))
    (hhandle : ∀ c e, inv c → c.getLeaderHandle = .error e → allowed e)
    (hchange : ∀ raftRc c, inv c →
      (tryHandleLeaderChange raftRc c).Ensures assume (MayThrow allowed inv))
    (request : Request) (todo : Nat) (result : MutationResult) {c : Client} (hc : inv c) :
    (mutateLoop request todo result c).Ensures assume (MayThrow allowed inv) := by
  induction todo generalizing result c with
  | zero => exact mayThrow_ok result hc
  | succ todo ih =>
      unfold mutateLoop
      cases hserver : c.getLeaderHandle with
      | error e => exact mayThrow_error (hhandle c e hc hserver) hc
      | ok server =>
          intro answer _
          cases answer with
          | error what => exact mayThrow_error (hrpc what) hc
          | ok reply =>
              dsimp only
              split
              · exact mayThrow_ok reply hc
              · split
                · exact mayThrow_ok _ hc
                · apply (hchange (getNuraftReturnCode reply) c hc).bind
                  rintro ⟨outcome, c'⟩ ⟨herror, hinv⟩
                  cases outcome with
                  | error e => exact mayThrow_error (herror e rfl) hinv
                  | ok changed => exact ih reply hinv

/-- A property that does not depend on the leader survives a leader change, whatever
the servers answer. -/
theorem tryHandleLeaderChange_keeps {P : Client → Prop}
    (hinv : ∀ c leaderId, P c → P { c with leaderId := leaderId }) (raftRc : Int32)
    {c : Client} (hc : P c) :
    (tryHandleLeaderChange raftRc c).Ensures (fun _ _ => True) (MayThrow (fun _ => True) P) := by
  unfold tryHandleLeaderChange
  split
  · apply (Interaction.ensures_true c.getLeaderId).bind
    intro found _
    cases found with
    | error e => exact mayThrow_error trivial hc
    | ok leaderId => exact mayThrow_ok true (hinv c leaderId hc)
  · exact mayThrow_ok false hc

/-- Such a property holds after every call. -/
theorem perform_keeps {P : Client → Prop}
    (hinv : ∀ c leaderId, P c → P { c with leaderId := leaderId }) (request : Request)
    {c : Client} (hc : P c) :
    (c.perform request).Ensures (fun _ _ => True) (MayThrow (fun _ => True) P) := by
  rw [perform_eq]
  apply mutateLoop_rule (fun _ => trivial) (fun _ _ _ _ => trivial) _ request _ _ hc
  intro raftRc d hd
  exact tryHandleLeaderChange_keeps hinv raftRc hd

end Client

/-! ## Which requests a call sends -/

/-- The program sends no mutation but this one. -/
def Sends {ρ : Type} (request : Request) (program : ClientProgram ρ) : Prop :=
  program.Asks fun rpc => ∀ server other, rpc = .mutation server other → other = request

theorem sends_askServer (request : Request) (server : Int32) (todo : Nat) :
    Sends request (Client.askServer server todo) := by
  induction todo with
  | zero => trivial
  | succ todo ih =>
      refine ⟨by simp, ?_⟩
      intro answer
      cases answer with
      | error what => trivial
      | ok leaderId =>
          dsimp only
          split
          · trivial
          · exact ih

theorem sends_askServers (request : Request) (numRetries : Nat) (servers : List Int32) :
    Sends request (Client.askServers numRetries servers) := by
  induction servers with
  | nil => trivial
  | cons server servers ih =>
      apply (sends_askServer request server numRetries).bind
      intro found
      cases found with
      | none => exact ih
      | some leaderId => trivial

theorem sends_tryHandleLeaderChange (request : Request) (raftRc : Int32) (c : Client) :
    Sends request (c.tryHandleLeaderChange raftRc) := by
  unfold Client.tryHandleLeaderChange
  split
  · apply (sends_askServers request c.numRetries.toNat c.clients.ids).bind
    intro found
    cases found with
    | error e => trivial
    | ok leaderId => trivial
  · trivial

theorem sends_mutateLoop (request : Request) (todo : Nat) (result : MutationResult)
    (c : Client) : Sends request (Client.mutateLoop request todo result c) := by
  induction todo generalizing result c with
  | zero => trivial
  | succ todo ih =>
      unfold Client.mutateLoop
      cases c.getLeaderHandle with
      | error e => trivial
      | ok server =>
          refine ⟨?_, ?_⟩
          · intro other request' h
            cases h
            rfl
          · intro answer
            cases answer with
            | error what => trivial
            | ok reply =>
                dsimp only
                split
                · trivial
                · split
                  · trivial
                  · apply (sends_tryHandleLeaderChange request _ c).bind
                    intro outcome
                    rcases outcome with ⟨changed, c'⟩
                    cases changed with
                    | error e => trivial
                    | ok changed => exact ih reply c'

theorem sends_perform (request : Request) (c : Client) : Sends request (c.perform request) := by
  rw [Client.perform_eq]
  exact sends_mutateLoop request _ _ c

/-! ## Successful calls -/

/-- A mutation request that a call has sent, with the server it went to and its
reply. -/
structure SentRequest where
  server : Int32
  request : Request
  reply : Except String MutationResult

/-- The request that an exchange carries, if it is a mutation. -/
def sentRequest : Sigma Rpc.Answer → Option SentRequest
  | ⟨.mutation server request, reply⟩ => some ⟨server, request, reply⟩
  | ⟨.leaderId _, _⟩ => none

/-- The mutation requests of a run, in the order they were sent. -/
def sentRequests (trace : List (Sigma Rpc.Answer)) : List SentRequest :=
  trace.filterMap sentRequest

@[simp] theorem sentRequests_nil : sentRequests [] = [] := rfl

@[simp] theorem sentRequests_mutation (server : Int32) (request : Request)
    (reply : Except String MutationResult) (trace : List (Sigma Rpc.Answer)) :
    sentRequests (⟨.mutation server request, reply⟩ :: trace) =
      ⟨server, request, reply⟩ :: sentRequests trace := rfl

@[simp] theorem sentRequests_leaderId (server : Int32) (answer : Except String Int32)
    (trace : List (Sigma Rpc.Answer)) :
    sentRequests (⟨.leaderId server, answer⟩ :: trace) = sentRequests trace := rfl

@[simp] theorem sentRequests_append (first second : List (Sigma Rpc.Answer)) :
    sentRequests (first ++ second) = sentRequests first ++ sentRequests second :=
  List.filterMap_append

theorem sentRequests_length (trace : List (Sigma Rpc.Answer)) :
    (sentRequests trace).length = trace.countP fun x => x.1.isMutation := by
  induction trace with
  | nil => rfl
  | cons exchange trace ih =>
      rcases exchange with ⟨rpc, answer⟩
      cases rpc with
      | mutation server request => simpa [List.countP_cons, Rpc.isMutation] using ih
      | leaderId server => simpa [List.countP_cons, Rpc.isMutation] using ih

/-- Looking the leader up sends no mutation. -/
theorem sentRequests_tryHandleLeaderChange {raftRc : Int32} {c : Client}
    {trace : List (Sigma Rpc.Answer)} {outcome : Outcome Bool}
    (h : (c.tryHandleLeaderChange raftRc).Exchanges trace outcome) : sentRequests trace = [] := by
  have hcount := (Client.tryHandleLeaderChange_atMost raftRc c).countP_le h
  apply List.eq_nil_of_length_eq_zero
  rw [sentRequests_length]
  omega

/-- The reply makes the call return a success: the storage code is zero, and
the Raft code is zero or the one that the client treats as zero. -/
def MutationResult.CountsAsSuccess (reply : MutationResult) : Prop :=
  reply.splCode = 0 ∧ (reply.raftCode = 0 ∨ reply.raftCode = Client.weirdCase)

/-- What a loop has sent when it returns a success.  The induction is on the
rounds left; a round that does not end the loop has a result that is no
success, so the loop cannot return it. -/
theorem Client.mutateLoop_success {request : Request} {todo : Nat} {prev r : MutationResult}
    {c c' : Client} {trace : List (Sigma Rpc.Answer)}
    (h : (Client.mutateLoop request todo prev c).Exchanges trace (.ok r, c'))
    (hsuccess : isSuccess r = true) :
    (∀ sent ∈ sentRequests trace, sent.request = request) ∧
      ((r = prev ∧ todo = 0) ∨
        ∃ server reply, (sentRequests trace).getLast? = some ⟨server, request, .ok reply⟩ ∧
          reply.CountsAsSuccess) := by
  induction todo generalizing prev c trace with
  | zero =>
      rcases h with ⟨rfl, h⟩
      cases h
      exact ⟨by simp, .inl ⟨rfl, rfl⟩⟩
  | succ todo ih =>
      rcases Client.mutateLoop_succ_cases h with ⟨server, reply, rest, rfl, hround⟩
      rcases hround with ⟨rfl, -, rfl⟩ | ⟨rfl, hweird, rfl⟩ |
        ⟨hrefused, -, lookup, after, changed, mid, rfl, hlookup, hrest⟩
      · rw [isSuccess_iff] at hsuccess
        exact ⟨by simp, .inr ⟨server, r, rfl, hsuccess.1, .inl hsuccess.2⟩⟩
      · rw [isSuccess_iff] at hsuccess
        exact ⟨by simp, .inr ⟨server, reply, rfl, hsuccess.1, .inr hweird⟩⟩
      · have hnone := sentRequests_tryHandleLeaderChange hlookup
        rcases ih hrest with ⟨hsame, hlast⟩
        refine ⟨by simpa [hnone] using hsame, .inr ?_⟩
        rcases hlast with ⟨rfl, -⟩ | ⟨server', reply', hlast, hcounts⟩
        · exact absurd ((isSuccess_iff r).mp hsuccess).2 hrefused
        · refine ⟨server', reply', ?_, hcounts⟩
          simp [hnone, List.getLast?_cons, hlast]

/-- For every number of retries, every client state, every request and every
sequence of replies and lookup answers: a call that returns a success has sent
at most as many requests as there are retries, all of them carrying exactly the
call's operation; and if there is at least one retry, it has sent at least one,
and the last one was answered with storage code zero and Raft code zero or 999. -/
theorem client_success_is_sound (request : Request) (c c' : Client)
    (trace : List (Sigma Rpc.Answer)) (r : MutationResult)
    (hrun : (c.perform request).Exchanges trace (.ok r, c')) (hsuccess : isSuccess r = true) :
    (sentRequests trace).length ≤ c.numRetries.toNat ∧
      (∀ sent ∈ sentRequests trace, sent.request = request) ∧
      (1 ≤ c.numRetries.toNat → ∃ server reply,
        (sentRequests trace).getLast? = some ⟨server, request, .ok reply⟩ ∧
        reply.splCode = 0 ∧ (reply.raftCode = 0 ∨ reply.raftCode = 999)) := by
  rw [Client.perform_eq] at hrun
  rcases Client.mutateLoop_success hrun hsuccess with ⟨hsame, hlast⟩
  refine ⟨?_, hsame, ?_⟩
  · rw [sentRequests_length]
    exact (Client.mutateLoop_atMost request _ _ c).countP_le hrun
  · intro hretries
    rcases hlast with ⟨-, hzero⟩ | hlast
    · omega
    · exact hlast

/-- A put that is answered with success at once. -/
theorem client_success_is_sound_put :
    ∃ c : Client, ∃ trace,
      (c.perform (.put [107] [118])).Exchanges trace (.ok ⟨0, 0, ""⟩, c) ∧
      (sentRequests trace).length ≤ c.numRetries.toNat ∧
      (∀ sent ∈ sentRequests trace, sent.request = .put [107] [118]) ∧
      (1 ≤ c.numRetries.toNat → ∃ server reply,
        (sentRequests trace).getLast? = some ⟨server, .put [107] [118], .ok reply⟩ ∧
        reply.splCode = 0 ∧ (reply.raftCode = 0 ∨ reply.raftCode = 999)) := by
  have hrun : (Client.perform (.put [107] [118])
      ⟨ServerMap.empty.emplace 1 ⟨"host", 10003⟩, [1], 1, 3⟩).Exchanges
      [⟨.mutation 1 (.put [107] [118]), .ok ⟨0, 0, ""⟩⟩]
      (.ok ⟨0, 0, ""⟩, ⟨ServerMap.empty.emplace 1 ⟨"host", 10003⟩, [1], 1, 3⟩) :=
    ⟨.ok ⟨0, 0, ""⟩, [], rfl, rfl, rfl⟩
  exact ⟨_, _, hrun, client_success_is_sound _ _ _ _ _ hrun rfl⟩

/-- With no retries a put returns a success and has sent nothing; and a put
whose only reply has Raft code 999 returns a success as well. -/
theorem success_without_acceptance :
    (∃ c : Client, c.numRetries = 0 ∧
      (c.put [107] [118]).Exchanges [] (.ok .default, c) ∧ isSuccess .default = true) ∧
    (∃ c : Client, ∃ r,
      (c.put [107] [118]).Exchanges
        [⟨.mutation 1 (.put [107] [118]), .ok ⟨0, 999, "weird"⟩⟩] (.ok r, c) ∧
      isSuccess r = true ∧ isSuccess ⟨0, 999, "weird"⟩ = false) := by
  constructor
  · exact ⟨⟨ServerMap.empty.emplace 1 ⟨"host", 10003⟩, [1], 1, 0⟩, rfl, ⟨rfl, rfl⟩, rfl⟩
  · refine ⟨⟨ServerMap.empty.emplace 1 ⟨"host", 10003⟩, [1], 1, 3⟩, ⟨0, 0, "weird"⟩, ?_, rfl, rfl⟩
    exact ⟨.ok ⟨0, 999, "weird"⟩, [], rfl, rfl, rfl⟩

/-! ## The leader handle -/

/-- A lookup answer names a server with the given property, or no leader. -/
def NamesOnly (known : Int32 → Prop) : (rpc : Rpc) → rpc.Answer → Prop
  | .mutation _ _, _ => True
  | .leaderId _, answer => ∀ id, answer = .ok id → id ≠ Client.noLiveLeader → known id

namespace Client

/-- The client is connected to these servers and takes one of them for the
leader. -/
def Usable (servers : ServerMap) (c : Client) : Prop :=
  c.clients = servers ∧ c.leaderId ∈ servers.ids

theorem askServer_ensures (known : Int32 → Prop) (server : Int32) (todo : Nat) :
    (askServer server todo).Ensures (NamesOnly known)
      (fun found => ∀ id, found = some id → known id) := by
  induction todo with
  | zero =>
      intro id h
      cases h
  | succ todo ih =>
      intro answer hanswer
      cases answer with
      | error what =>
          intro id h
          cases h
      | ok leaderId =>
          dsimp only
          by_cases hlive : leaderId ≠ noLiveLeader
          · rw [if_pos hlive]
            intro id h
            cases h
            exact hanswer leaderId rfl hlive
          · rw [if_neg hlive]
            exact ih

/-- A lookup returns a known server or reports that nobody named one. -/
theorem askServers_ensures (known : Int32 → Prop) (numRetries : Nat) (servers : List Int32) :
    (askServers numRetries servers).Ensures (NamesOnly known)
      (fun found => (∀ id, found = .ok id → known id) ∧ found ≠ .error .outOfRange) := by
  induction servers with
  | nil => exact ⟨by simp, by simp⟩
  | cons server servers ih =>
      apply (askServer_ensures known server numRetries).bind
      intro found hfound
      cases found with
      | none => exact ih
      | some leaderId =>
          refine ⟨?_, by simp⟩
          intro id h
          cases h
          exact hfound leaderId rfl

theorem tryHandleLeaderChange_ensures {servers : ServerMap} {c : Client} (h : Usable servers c)
    (raftRc : Int32) :
    (tryHandleLeaderChange raftRc c).Ensures (NamesOnly (· ∈ servers.ids))
      (MayThrow (· ≠ .outOfRange) (Usable servers)) := by
  unfold tryHandleLeaderChange
  split
  · apply (askServers_ensures (· ∈ servers.ids) c.numRetries.toNat c.clients.ids).bind
    rintro found ⟨hknown, herror⟩
    cases found with
    | error e =>
        refine mayThrow_error ?_ h
        rintro rfl
        exact herror rfl
    | ok leaderId => exact mayThrow_ok true ⟨h.1, hknown leaderId rfl⟩
  · exact mayThrow_ok false h

theorem getLeaderHandle_of_usable {servers : ServerMap} {c : Client} (h : Usable servers c) :
    c.getLeaderHandle = .ok c.leaderId := by
  rcases h with ⟨rfl, hmem⟩
  unfold getLeaderHandle
  rw [if_pos hmem]

/-- A usable client stays usable through every round of a call, and the call
never fails to find its leader among the connected servers. -/
theorem mutateLoop_ensures {servers : ServerMap} (request : Request) (todo : Nat)
    (result : MutationResult) {c : Client} (h : Usable servers c) :
    (mutateLoop request todo result c).Ensures (NamesOnly (· ∈ servers.ids))
      (MayThrow (· ≠ .outOfRange) (Usable servers)) := by
  apply mutateLoop_rule (fun what => by simp) _ _ request todo result h
  · intro c e hc he
    rw [getLeaderHandle_of_usable hc] at he
    cases he
  · intro raftRc c hc
    exact tryHandleLeaderChange_ensures hc raftRc

/-- A sequence of calls.  A call that throws leaves the client as it is, and the
next call goes on with it. -/
def performAll : List Request → Client →
    ClientProgram (List (Except Exception MutationResult) × Client)
  | [], c => .ret ([], c)
  | request :: requests, c =>
      (c.perform request).bind fun (outcome, c) =>
        (performAll requests c).bind fun (outcomes, c) => .ret (outcome :: outcomes, c)

theorem performAll_ensures {servers : ServerMap} (requests : List Request) {c : Client}
    (h : Usable servers c) :
    (performAll requests c).Ensures (NamesOnly (· ∈ servers.ids))
      (fun result => (∀ outcome ∈ result.1, outcome ≠ .error .outOfRange) ∧
        Usable servers result.2) := by
  induction requests generalizing c with
  | nil => exact ⟨by simp, h⟩
  | cons request requests ih =>
      have hcall := mutateLoop_ensures request c.numRetries.toNat .default h
      unfold performAll
      rw [perform_eq]
      apply hcall.bind
      rintro ⟨outcome, c'⟩ ⟨hfirst, husable⟩
      apply (ih husable).bind
      rintro ⟨outcomes, c''⟩ ⟨hrest, husable'⟩
      refine ⟨?_, husable'⟩
      intro x hx
      rcases List.mem_cons.mp hx with rfl | hx
      · intro hx
        exact hfirst _ hx rfl
      · exact hrest x hx

/-- A property that does not depend on the leader holds after every sequence of
calls. -/
theorem performAll_keeps {P : Client → Prop}
    (hinv : ∀ c leaderId, P c → P { c with leaderId := leaderId }) (requests : List Request)
    {c : Client} (hc : P c) :
    (performAll requests c).Ensures (fun _ _ => True) (fun result => P result.2) := by
  induction requests generalizing c with
  | nil => exact hc
  | cons request requests ih =>
      apply (perform_keeps hinv request hc).bind
      rintro ⟨outcome, c'⟩ ⟨-, hc'⟩
      apply (ih hc').bind
      rintro ⟨outcomes, c''⟩ hc''
      exact hc''

end Client

/-- For every reply of the first server, every set of servers that cannot be
reached, every number of retries, every sequence of calls and every sequence of
replies: the connected servers never change; and if the first server and all
leader lookups name only servers that the constructor reached, or no leader, the
leader is a connected server in every state, and no call throws because it is
not. -/
theorem client_leader_handle_usable (contact : FirstContact)
    (connects : Int32 → Endpoint → Bool) (numRetries : UInt16) (srvs : List (Int32 × String))
    (leader : Int32) (c : Client) (hreplies : contact.replies = .ok (srvs, leader))
    (hnew : Client.new contact connects numRetries = .ok c) (requests : List Request)
    (trace : List (Sigma Rpc.Answer)) (outcomes : List (Except Exception MutationResult))
    (c' : Client) (hrun : (c.performAll requests).Exchanges trace (outcomes, c')) :
    c'.clients = c.clients ∧
      (Reached connects srvs leader →
        (∀ x ∈ trace, NamesOnly (Reached connects srvs) x.1 x.2) →
        c'.leaderId ∈ c'.clients.ids ∧ c'.getLeaderHandle = .ok c'.leaderId ∧
          ∀ outcome ∈ outcomes, outcome ≠ .error .outOfRange) := by
  constructor
  · have hkeeps := Client.performAll_keeps (P := fun d => d.clients = c.clients)
      (fun _ _ h => h) requests rfl
    exact hkeeps.result hrun fun _ _ => trivial
  · intro hleader hnamed
    rcases Client.mem_ids_new_iff hreplies hnew with ⟨hleaderId, hids⟩
    have husable : Client.Usable c.clients c := by
      refine ⟨rfl, ?_⟩
      rw [hleaderId, hids]
      exact hleader
    have hknown : Reached connects srvs = (· ∈ c.clients.ids) := by
      funext id
      exact propext (hids id).symm
    rw [hknown] at hnamed
    rcases (Client.performAll_ensures requests husable).result hrun hnamed with
      ⟨houtcomes, husable'⟩
    refine ⟨?_, Client.getLeaderHandle_of_usable husable', houtcomes⟩
    rw [husable'.1]
    exact husable'.2

/-- A first server that lists three servers and names the first one as leader. -/
def threeServers : FirstContact where
  connection := .ok ()
  ping := .ok "pong"
  servers := .ok [(1, "a:1001"), (2, "b:1002"), (3, "c:1003")]
  leaderId := .ok 1

/-- The third server cannot be reached, the leader changes to the second one
during a put, and a delete follows. -/
theorem client_leader_handle_usable_change :
    ∃ c c', Client.new threeServers (fun id _ => id != 3) 3 = .ok c ∧
      (c.performAll [.put [107] [118], .delete [107]]).Exchanges
        [⟨.mutation 1 (.put [107] [118]), .ok ⟨0, -3, "not leader"⟩⟩, ⟨.leaderId 1, .ok 2⟩,
          ⟨.mutation 2 (.put [107] [118]), .ok ⟨0, 0, ""⟩⟩,
          ⟨.mutation 2 (.delete [107]), .ok ⟨0, 0, ""⟩⟩]
        ([.ok ⟨0, 0, ""⟩, .ok ⟨0, 0, ""⟩], c') ∧
      c'.clients = c.clients ∧ c'.leaderId ∈ c'.clients.ids ∧
      c'.getLeaderHandle = .ok c'.leaderId := by
  have hnew : Client.new threeServers (fun id _ => id != 3) 3 =
      .ok ⟨(ServerMap.empty.emplace 1 ⟨"a", 1001⟩).emplace 2 ⟨"b", 1002⟩, [1, 2], 1, 3⟩ := rfl
  have hreached : ∀ id : Int32, id = 1 ∨ id = 2 →
      Reached (fun id _ => id != 3) [(1, "a:1001"), (2, "b:1002"), (3, "c:1003")] id := by
    rintro id (rfl | rfl)
    · exact ⟨"a:1001", ⟨"a", 1001⟩, by simp, rfl, rfl⟩
    · exact ⟨"b:1002", ⟨"b", 1002⟩, by simp, rfl, rfl⟩
  have hrun : (Client.performAll [.put [107] [118], .delete [107]]
      ⟨(ServerMap.empty.emplace 1 ⟨"a", 1001⟩).emplace 2 ⟨"b", 1002⟩, [1, 2], 1, 3⟩).Exchanges
        [⟨.mutation 1 (.put [107] [118]), .ok ⟨0, -3, "not leader"⟩⟩, ⟨.leaderId 1, .ok 2⟩,
          ⟨.mutation 2 (.put [107] [118]), .ok ⟨0, 0, ""⟩⟩,
          ⟨.mutation 2 (.delete [107]), .ok ⟨0, 0, ""⟩⟩]
        ([.ok ⟨0, 0, ""⟩, .ok ⟨0, 0, ""⟩],
          ⟨(ServerMap.empty.emplace 1 ⟨"a", 1001⟩).emplace 2 ⟨"b", 1002⟩, [1, 2], 2, 3⟩) :=
    ⟨_, _, rfl, _, _, rfl, _, _, rfl, _, _, rfl, rfl, rfl⟩
  have hnamed : ∀ x ∈ ([⟨.mutation 1 (.put [107] [118]), .ok ⟨0, -3, "not leader"⟩⟩,
      ⟨.leaderId 1, .ok 2⟩, ⟨.mutation 2 (.put [107] [118]), .ok ⟨0, 0, ""⟩⟩,
      ⟨.mutation 2 (.delete [107]), .ok ⟨0, 0, ""⟩⟩] : List (Sigma Rpc.Answer)),
      NamesOnly (Reached (fun id _ => id != 3)
        [(1, "a:1001"), (2, "b:1002"), (3, "c:1003")]) x.1 x.2 := by
    intro x hx
    simp only [List.mem_cons, List.not_mem_nil, or_false] at hx
    rcases hx with rfl | rfl | rfl | rfl
    · trivial
    · intro id h _
      cases h
      exact hreached 2 (.inr rfl)
    · trivial
    · trivial
  rcases client_leader_handle_usable threeServers (fun id _ => id != 3) 3 _ 1 _ rfl hnew
    _ _ _ _ hrun with ⟨hclients, husable⟩
  rcases husable (hreached 1 (.inl rfl)) hnamed with ⟨hmem, hhandle, -⟩
  exact ⟨_, _, hnew, hrun, hclients, hmem, hhandle⟩

/-- A server that joined later is named as the new leader: the client takes it
for the leader, is not connected to it, and the retry throws. -/
theorem joined_leader_is_not_connected :
    ∃ c c', Client.new threeServers (fun _ _ => true) 3 = .ok c ∧
      c.leaderId ∈ c.clients.ids ∧
      (c.put [107] [118]).Exchanges
        [⟨.mutation 1 (.put [107] [118]), .ok ⟨0, -3, "not leader"⟩⟩, ⟨.leaderId 1, .ok 4⟩]
        (.error .outOfRange, c') ∧
      c'.leaderId ∉ c'.clients.ids := by
  refine ⟨_, ⟨((ServerMap.empty.emplace 1 ⟨"a", 1001⟩).emplace 2 ⟨"b", 1002⟩).emplace 3
    ⟨"c", 1003⟩, [1, 2, 3], 4, 3⟩, rfl, ?_, ?_, ?_⟩
  · decide +kernel
  · exact ⟨_, _, rfl, _, _, rfl, rfl, rfl⟩
  · decide +kernel

end ReplicatedSplinterDB
