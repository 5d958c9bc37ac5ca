import ReplicatedSplinterDB.Client.Mutation

/-!
# Following the leader

A client keeps the identifier of the server that it takes for the leader.  It
learns of a change only when a request is refused, asks the servers then, and may
be told of a leader that is none any more.  Meanwhile the leader can change again,
at any moment.

A run is taken together with the leader at each of its exchanges.  What can
mislead the client, in the rest of a run, is counted: the changes of the leader,
starting from the one that the client knows, and the lookups that name another
server than the leader.  A request that is refused uses one of them up, so that
all refusals of a session, and with them its failed calls, are paid for by changes
and by wrong answers.

This is about servers that answer.  A server that does not is another matter: a
request to it ends the call with an exception, and no lookup follows.

Main results:

- Theorem {lit}`Client.mutateLoop_follows`: what a call sends, and what it uses up.
- Theorem {lit}`client_follows_leader_changes`: in a session, failed calls are
  bounded by leader changes and wrong answers, and the accepted requests are those
  of the other calls.
- Theorem {lit}`silent_leader_is_kept`: a client whose leader does not answer never
  turns to another server.
-/

namespace ReplicatedSplinterDB

open Foundation

/-! ## Runs with their leaders -/

/-- An exchange, and the server that was the leader then. -/
structure Moment where
  leader : Int32
  exchange : Sigma Rpc.Answer

/-- The exchanges of a run. -/
def exchangesOf (moments : List Moment) : List (Sigma Rpc.Answer) :=
  moments.map Moment.exchange

/-- How a cluster with this leader answers.  The leader accepts a request; another
server forwards it, or refuses it with one of the codes that make the client look
for the leader.  One server, the informed one, always has a leader to name. -/
def Led (informed leader : Int32) : (rpc : Rpc) → rpc.Answer → Prop
  | .mutation server _, answer =>
      ∃ reply, answer = .ok reply ∧ (reply.raftCode = 0 ∨ server ≠ leader ∧
        (reply.raftCode = Client.notLeader ∨ reply.raftCode = Client.requestCancelled))
  | .leaderId server, answer =>
      server = informed → ∃ id, answer = .ok id ∧ id ≠ Client.noLiveLeader

/-- The exchange is a lookup that names another server than the leader. -/
def Moment.isStale (m : Moment) : Bool :=
  match m.exchange with
  | ⟨.leaderId _, .ok id⟩ => id != Client.noLiveLeader && id != m.leader
  | _ => false

/-- The lookups that name another server than the leader. -/
def staleAnswers (moments : List Moment) : Nat := moments.countP Moment.isStale

/-- How often the leader changes, for somebody who knows this one at first. -/
def leaderChanges : Int32 → List Moment → Nat
  | _, [] => 0
  | known, m :: moments => (if m.leader = known then 0 else 1) + leaderChanges m.leader moments

/-- What can mislead a client that takes this server for the leader. -/
def misleads (known : Int32) (moments : List Moment) : Nat :=
  leaderChanges known moments + staleAnswers moments

/-- The request was accepted by the Raft layer. -/
def SentRequest.isAccepted (sent : SentRequest) : Bool :=
  match sent.reply with
  | .ok reply => wasAccepted reply
  | .error _ => false

/-- The requests that were accepted, in the order they were sent. -/
def acceptedRequests (moments : List Moment) : List Request :=
  ((sentRequests (exchangesOf moments)).filter SentRequest.isAccepted).map SentRequest.request

/-- The number of requests that were refused. -/
def refusals (moments : List Moment) : Nat :=
  (sentRequests (exchangesOf moments)).countP fun sent => !sent.isAccepted

/-! ## Counting -/

theorem leaderChanges_le_cons (known : Int32) (m : Moment) (moments : List Moment) :
    leaderChanges known moments ≤ leaderChanges known (m :: moments) := by
  cases moments with
  | nil => exact Nat.zero_le _
  | cons next moments =>
      simp only [leaderChanges]
      by_cases hnext : next.leader = known
      · rw [if_pos hnext]
        omega
      · by_cases hm : m.leader = known
        · rw [hm, if_neg hnext]
          omega
        · rw [if_neg hnext, if_neg hm]
          omega

/-- Leaving out the beginning of a run takes away changes only. -/
theorem leaderChanges_le_append (known : Int32) (front moments : List Moment) :
    leaderChanges known moments ≤ leaderChanges known (front ++ moments) := by
  induction front generalizing known with
  | nil => exact le_rfl
  | cons m front ih =>
      calc leaderChanges known moments
          ≤ leaderChanges known (m :: moments) := leaderChanges_le_cons known m moments
        _ ≤ leaderChanges known (m :: (front ++ moments)) := by
            simp only [leaderChanges]
            exact Nat.add_le_add_left (ih m.leader) _

theorem misleads_le_append (known : Int32) (front moments : List Moment) :
    misleads known moments ≤ misleads known (front ++ moments) := by
  have hchanges := leaderChanges_le_append known front moments
  unfold misleads staleAnswers
  rw [List.countP_append]
  omega

/-- A refusal by a server that is not the leader any more, and a lookup that ends
with an answer, use up one of the things that can mislead the client. -/
theorem misleads_after_lookup {known id server : Int32} (m last : Moment)
    (front moments : List Moment) (hm : m.leader ≠ known)
    (hlast : last.exchange = ⟨.leaderId server, .ok id⟩) (hid : id ≠ Client.noLiveLeader) :
    1 + misleads id moments ≤ misleads known (m :: (front ++ last :: moments)) := by
  -- the change that the refusal shows, and those from the last lookup on
  have hskip := leaderChanges_le_append m.leader front (last :: moments)
  -- the answer may be wrong, and then it is counted itself
  have hanswer : leaderChanges id moments ≤ leaderChanges last.leader moments +
      (if last.isStale then 1 else 0) := by
    have hcons := leaderChanges_le_cons id last moments
    simp only [leaderChanges] at hcons
    by_cases hsame : last.leader = id
    · rw [hsame]
      exact Nat.le_add_right _ _
    · have hstale : last.isStale = true := by
        simp only [Moment.isStale, hlast]
        simp [hid, Ne.symm hsame]
      rw [if_neg hsame] at hcons
      rw [if_pos hstale]
      omega
  simp only [misleads, staleAnswers, leaderChanges, List.countP_cons, List.countP_append,
    if_neg hm] at hskip hanswer ⊢
  omega

@[simp] theorem acceptedRequests_append (first second : List Moment) :
    acceptedRequests (first ++ second) = acceptedRequests first ++ acceptedRequests second := by
  simp [acceptedRequests, exchangesOf]

@[simp] theorem refusals_append (first second : List Moment) :
    refusals (first ++ second) = refusals first + refusals second := by
  simp [refusals, exchangesOf]

namespace Client

/-! ## Lookups -/

/-- A server that names a leader does so in the last answer. -/
theorem askServer_last {server id : Int32} {todo : Nat} {trace : List (Sigma Rpc.Answer)}
    (h : (askServer server todo).Exchanges trace (some id)) :
    ∃ front, trace = front ++ [⟨.leaderId server, .ok id⟩] ∧ id ≠ noLiveLeader := by
  induction todo generalizing trace with
  | zero =>
      rcases h with ⟨-, h⟩
      cases h
  | succ todo ih =>
      rcases h with ⟨answer, rest, rfl, h⟩
      cases answer with
      | error what =>
          rcases h with ⟨-, h⟩
          cases h
      | ok named =>
          dsimp only at h
          by_cases hlive : named ≠ noLiveLeader
          · rw [if_pos hlive] at h
            rcases h with ⟨rfl, h⟩
            cases h
            exact ⟨[], rfl, hlive⟩
          · rw [if_neg hlive] at h
            rcases ih h with ⟨front, rfl, hid⟩
            exact ⟨_ :: front, rfl, hid⟩

theorem askServers_last {numRetries : Nat} {servers : List Int32} {id : Int32}
    {trace : List (Sigma Rpc.Answer)}
    (h : (askServers numRetries servers).Exchanges trace (.ok id)) :
    ∃ front server, trace = front ++ [⟨.leaderId server, .ok id⟩] ∧ id ≠ noLiveLeader := by
  induction servers generalizing trace with
  | nil =>
      rcases h with ⟨-, h⟩
      cases h
  | cons server servers ih =>
      unfold askServers at h
      rw [Interaction.exchanges_bind_iff] at h
      rcases h with ⟨first, second, found, rfl, hfirst, hsecond⟩
      cases found with
      | none =>
          rcases ih hsecond with ⟨front, other, rfl, hid⟩
          exact ⟨first ++ front, other, by rw [List.append_assoc], hid⟩
      | some named =>
          rcases hsecond with ⟨rfl, hsecond⟩
          cases hsecond
          rcases askServer_last hfirst with ⟨front, rfl, hid⟩
          exact ⟨front, server, by rw [List.append_nil], hid⟩

/-- The informed server names somebody when it is asked first. -/
theorem askServer_informed (informed : Int32) {todo : Nat} (htodo : todo ≠ 0) :
    (askServer informed todo).Ensures (fun rpc answer => ∃ leader, Led informed leader rpc answer)
      (fun found => found ≠ none) := by
  rcases Nat.exists_eq_succ_of_ne_zero htodo with ⟨todo, rfl⟩
  rintro answer ⟨leader, hled⟩
  rcases hled rfl with ⟨id, rfl, hid⟩
  dsimp only
  rw [if_pos hid]
  exact Option.some_ne_none id

/-- A lookup that reaches the informed server does not fail. -/
theorem askServers_informed {informed : Int32} {numRetries : Nat} (hretries : numRetries ≠ 0)
    {servers : List Int32} (hinformed : informed ∈ servers) :
    (askServers numRetries servers).Ensures
      (fun rpc answer => ∃ leader, Led informed leader rpc answer)
      (fun found => ∃ id, found = .ok id) := by
  induction servers with
  | nil => cases hinformed
  | cons server servers ih =>
      by_cases hserver : informed = server
      · subst hserver
        apply (askServer_informed informed hretries).bind
        intro found hfound
        cases found with
        | none => exact absurd rfl hfound
        | some id => exact ⟨id, rfl⟩
      · apply (Interaction.ensures_true (askServer server numRetries)).bind
        intro found _
        cases found with
        | none => exact ih ((List.mem_cons.mp hinformed).resolve_left hserver)
        | some id => exact ⟨id, rfl⟩

/-- After a refusal the client takes the server for the leader that the last
answer of the lookup names. -/
theorem tryHandleLeaderChange_follows {informed raftRc : Int32} {c : Client}
    (hretries : c.numRetries.toNat ≠ 0) (hinformed : informed ∈ c.clients.ids)
    (hcode : raftRc = notLeader ∨ raftRc = requestCancelled)
    {trace : List (Sigma Rpc.Answer)} {outcome : Outcome Bool}
    (h : (c.tryHandleLeaderChange raftRc).Exchanges trace outcome)
    (hled : ∀ x ∈ trace, ∃ leader, Led informed leader x.1 x.2) :
    ∃ id front server, outcome = (.ok true, { c with leaderId := id }) ∧
      trace = front ++ [⟨.leaderId server, .ok id⟩] ∧ id ≠ noLiveLeader := by
  unfold tryHandleLeaderChange at h
  rw [if_pos hcode, Interaction.exchanges_bind_iff] at h
  rcases h with ⟨lookup, rest, found, rfl, hlookup, hrest⟩
  have hnamed : ∃ id, found = .ok id := by
    apply (askServers_informed hretries hinformed).result hlookup
    intro x hx
    exact hled x (List.mem_append_left rest hx)
  rcases hnamed with ⟨id, rfl⟩
  rcases hrest with ⟨rfl, rfl⟩
  rcases askServers_last hlookup with ⟨front, server, rfl, hid⟩
  exact ⟨id, front, server, rfl, by rw [List.append_nil], hid⟩

/-! ## Calls -/

/-- The client is connected to these servers, to the informed one among them, takes
one of them for the leader, and tries every call at least once. -/
structure Following (servers : ServerMap) (informed : Int32) (numRetries : UInt16) (c : Client) :
    Prop where
  usable : c.Usable servers
  connected : informed ∈ servers.ids
  retries : c.numRetries = numRetries
  positive : numRetries.toNat ≠ 0

theorem Following.numRetries_ne_zero {servers : ServerMap} {informed : Int32}
    {numRetries : UInt16} {c : Client} (hc : Following servers informed numRetries c) :
    c.numRetries.toNat ≠ 0 := by
  rw [hc.retries]
  exact hc.positive

/-- An answer that the cluster can give at this moment, and that names a connected
server if it names one. -/
def Answered (servers : ServerMap) (informed : Int32) (m : Moment) : Prop :=
  Led informed m.leader m.exchange.1 m.exchange.2 ∧
    NamesOnly (· ∈ servers.ids) m.exchange.1 m.exchange.2

/-- How a call can end that may send the request this many times: it was accepted,
or refused every time. -/
def CallEnds (request : Request) (todo : Nat) (prev result : MutationResult)
    (moments : List Moment) : Prop :=
  (result.raftCode = 0 ∧ acceptedRequests moments = [request]) ∨
    (acceptedRequests moments = [] ∧ refusals moments = todo ∧
      ((todo = 0 ∧ result = prev) ∨ result.raftCode ≠ 0))

theorem refusals_cons_refused (server leader : Int32) (request : Request)
    {reply : MutationResult} (hrefused : reply.raftCode ≠ 0) (moments : List Moment) :
    refusals (⟨leader, ⟨.mutation server request, .ok reply⟩⟩ :: moments) =
      refusals moments + 1 := by
  simp [refusals, exchangesOf, SentRequest.isAccepted, wasAccepted, getNuraftReturnCode, hrefused]

/-- A refused round in front of the rest of a call. -/
theorem CallEnds.refused {request : Request} {todo : Nat} {prev reply result : MutationResult}
    {asked moments : List Moment} (h : CallEnds request todo reply result moments)
    (server leader : Int32) (hrefused : reply.raftCode ≠ 0) (hnone : refusals asked = 0)
    (hnoneAccepted : acceptedRequests asked = []) :
    CallEnds request (todo + 1) prev result
      (⟨leader, ⟨.mutation server request, .ok reply⟩⟩ :: (asked ++ moments)) := by
  have haccepted : acceptedRequests
      (⟨leader, ⟨.mutation server request, .ok reply⟩⟩ :: (asked ++ moments)) =
      acceptedRequests moments := by
    rw [← List.nil_append (acceptedRequests moments), ← hnoneAccepted, ← acceptedRequests_append]
    simp [acceptedRequests, exchangesOf, SentRequest.isAccepted, wasAccepted,
      getNuraftReturnCode, hrefused]
  unfold CallEnds
  rw [haccepted, refusals_cons_refused server leader request hrefused, refusals_append, hnone]
  rcases h with h | ⟨hempty, hall, hlast⟩
  · exact .inl h
  · refine .inr ⟨hempty, by omega, .inr ?_⟩
    rcases hlast with ⟨-, rfl⟩ | hlast
    · exact hrefused
    · exact hlast

/-- Looking the leader up sends no request, so that nothing is refused or
accepted meanwhile. -/
theorem refusals_of_lookup {moments : List Moment} {raftRc : Int32} {c : Client}
    {outcome : Outcome Bool}
    (h : (c.tryHandleLeaderChange raftRc).Exchanges (exchangesOf moments) outcome) :
    refusals moments = 0 ∧ acceptedRequests moments = [] := by
  have hnone := sentRequests_tryHandleLeaderChange h
  simp [refusals, acceptedRequests, hnone]

/-- A lookup after a refusal by a server that is not the leader: the client follows
the answer, and one of the things that can mislead it is used up. -/
theorem lookup_follows {servers : ServerMap} {informed : Int32} {numRetries : UInt16}
    {c : Client} (hc : Following servers informed numRetries c) {raftRc : Int32}
    (hcode : raftRc = notLeader ∨ raftRc = requestCancelled) {moments : List Moment}
    {outcome : Outcome Bool}
    (h : (c.tryHandleLeaderChange raftRc).Exchanges (exchangesOf moments) outcome)
    (hanswered : ∀ m ∈ moments, Answered servers informed m) :
    ∃ mid, outcome = (.ok true, mid) ∧ Following servers informed numRetries mid ∧
      ∀ (m : Moment) (rest : List Moment), m.leader ≠ c.leaderId →
        1 + misleads mid.leaderId rest ≤ misleads c.leaderId (m :: (moments ++ rest)) := by
  have hclients : c.clients = servers := hc.usable.1
  have hinformed : informed ∈ c.clients.ids := by
    rw [hclients]
    exact hc.connected
  have hled : ∀ x ∈ exchangesOf moments, ∃ leader, Led informed leader x.1 x.2 := by
    intro x hx
    rcases List.mem_map.mp hx with ⟨m, hm, rfl⟩
    exact ⟨m.leader, (hanswered m hm).1⟩
  rcases tryHandleLeaderChange_follows hc.numRetries_ne_zero hinformed hcode h hled with
    ⟨id, asked, server, rfl, htrace, hid⟩
  rcases List.map_eq_append_iff.mp htrace with ⟨front, ending, rfl, -, hending⟩
  rcases List.map_eq_singleton_iff.mp hending with ⟨last, rfl, hlast⟩
  have hknown : id ∈ servers.ids := by
    have hnames := (hanswered last (by simp)).2
    rw [hlast] at hnames
    exact hnames id rfl hid
  refine ⟨{ c with leaderId := id }, rfl,
    ⟨⟨hclients, hknown⟩, hc.connected, hc.retries, hc.positive⟩, ?_⟩
  intro m rest hm
  rw [List.append_assoc]
  exact misleads_after_lookup m last front rest hm hlast hid

/-- What a round of a call can be: the request is accepted and the call returns; or
it is refused by a server that is not the leader, and the call goes on with the
server that the lookup names. -/
theorem mutateLoop_round {request : Request} {todo : Nat} {prev : MutationResult}
    {servers : ServerMap} {informed : Int32} {numRetries : UInt16} {c c' : Client}
    (hc : Following servers informed numRetries c) {moments : List Moment}
    {outcome : Except Exception MutationResult}
    (h : (mutateLoop request (todo + 1) prev c).Exchanges (exchangesOf moments) (outcome, c'))
    (hanswered : ∀ m ∈ moments, Answered servers informed m) :
    ∃ leader reply later,
      moments = ⟨leader, ⟨.mutation c.leaderId request, .ok reply⟩⟩ :: later ∧
      ((reply.raftCode = 0 ∧ later = [] ∧ outcome = .ok reply ∧ c' = c) ∨
        (leader ≠ c.leaderId ∧ reply.raftCode ≠ 0 ∧ ∃ asked after raftRc found,
          later = asked ++ after ∧ (raftRc = notLeader ∨ raftRc = requestCancelled) ∧
          (c.tryHandleLeaderChange raftRc).Exchanges (exchangesOf asked) found ∧
          ∀ mid, found = (.ok true, mid) →
            (mutateLoop request todo reply mid).Exchanges (exchangesOf after) (outcome, c'))) := by
  unfold mutateLoop at h
  rw [getLeaderHandle_of_usable hc.usable] at h
  rcases h with ⟨answer, trace, htrace, h⟩
  rcases List.map_eq_cons_iff.mp htrace with ⟨⟨leader, exchange⟩, later, rfl, rfl, rfl⟩
  rcases (hanswered _ List.mem_cons_self).1 with ⟨reply, rfl, hreply⟩
  refine ⟨leader, reply, later, rfl, ?_⟩
  dsimp only at h
  rcases hreply with haccepted | ⟨hleader, hcode⟩
  · rw [if_pos (by simpa [wasAccepted, getNuraftReturnCode] using haccepted)] at h
    rcases h with ⟨hnil, h⟩
    cases h
    exact .inl ⟨haccepted, List.map_eq_nil_iff.mp hnil, rfl, rfl⟩
  · have hrefused : reply.raftCode ≠ 0 ∧ getNuraftReturnCode reply ≠ weirdCase := by
      unfold getNuraftReturnCode
      rcases hcode with hcode | hcode
      · rw [hcode]
        decide
      · rw [hcode]
        decide
    rw [if_neg (by simpa [wasAccepted, getNuraftReturnCode] using hrefused.1),
      if_neg hrefused.2, Interaction.exchanges_bind_iff] at h
    rcases h with ⟨lookup, after, found, hsplit, hlookup, hafter⟩
    rcases List.map_eq_append_iff.mp hsplit with ⟨asked, later, rfl, rfl, rfl⟩
    refine .inr ⟨Ne.symm hleader, hrefused.1, asked, later, _, found, rfl, hcode, hlookup, ?_⟩
    rintro mid rfl
    exact hafter

/-- A call returns, with an accepted request or after refusals only, and each
refusal uses up something that can mislead the client.  The induction is on the
rounds left: a round that is refused is paid for by the change that it shows, and
the lookup behind it hands the rest of the bound on to the next round. -/
theorem mutateLoop_follows (request : Request) {todo : Nat} {prev : MutationResult}
    {servers : ServerMap} {informed : Int32} {numRetries : UInt16} {c c' : Client}
    (hc : Following servers informed numRetries c) {moments : List Moment}
    {outcome : Except Exception MutationResult}
    (h : (mutateLoop request todo prev c).Exchanges (exchangesOf moments) (outcome, c'))
    (hanswered : ∀ m ∈ moments, Answered servers informed m) :
    ∃ result, outcome = .ok result ∧ Following servers informed numRetries c' ∧
      CallEnds request todo prev result moments ∧
      ∀ rest, refusals moments + misleads c'.leaderId rest ≤
        misleads c.leaderId (moments ++ rest) := by
  induction todo generalizing prev c moments with
  | zero =>
      rcases h with ⟨htrace, h⟩
      cases h
      have hnil : moments = [] := List.map_eq_nil_iff.mp htrace
      subst hnil
      refine ⟨prev, rfl, hc, .inr ⟨rfl, rfl, .inl ⟨rfl, rfl⟩⟩, ?_⟩
      intro rest
      simp [refusals, exchangesOf]
  | succ todo ih =>
      rcases mutateLoop_round hc h hanswered with ⟨leader, reply, later, rfl, hround⟩
      rcases hround with ⟨haccepted, rfl, rfl, rfl⟩ |
        ⟨hleader, hrefused, asked, after, raftRc, found, rfl, hcode, hlookup, hafter⟩
      · refine ⟨reply, rfl, hc, .inl ⟨haccepted, ?_⟩, ?_⟩
        · simp [acceptedRequests, exchangesOf, SentRequest.isAccepted, wasAccepted,
            getNuraftReturnCode, haccepted]
        · intro rest
          have hle := misleads_le_append c'.leaderId
            [⟨leader, ⟨.mutation c'.leaderId request, .ok reply⟩⟩] rest
          simpa [refusals, exchangesOf, SentRequest.isAccepted, wasAccepted, getNuraftReturnCode,
            haccepted] using hle
      · rw [List.forall_mem_cons, List.forall_mem_append] at hanswered
        rcases lookup_follows hc hcode hlookup hanswered.2.1 with ⟨mid, rfl, hmid, hused⟩
        rcases refusals_of_lookup hlookup with ⟨hnone, hnoneAccepted⟩
        rcases ih hmid (hafter mid rfl) hanswered.2.2 with ⟨result, rfl, hc', hends, hpaid⟩
        refine ⟨result, rfl, hc', hends.refused c.leaderId leader hrefused hnone hnoneAccepted, ?_⟩
        intro rest
        have hused := hused ⟨leader, ⟨.mutation c.leaderId request, .ok reply⟩⟩ (after ++ rest)
          hleader
        have hpaid := hpaid rest
        rw [refusals_cons_refused c.leaderId leader request hrefused, refusals_append, hnone,
          List.cons_append, List.append_assoc]
        omega

/-! ## Sessions -/

/-- The requests of the calls that report an accepted mutation. -/
def reportedRequests (requests : List Request) (results : List MutationResult) : List Request :=
  ((requests.zip results).filter fun call => wasAccepted call.2).map Prod.fst

/-- The result of a call says whether its request was accepted, and a call that was
not has sent it as often as it may. -/
theorem CallEnds.reports {request : Request} {todo : Nat} {prev result : MutationResult}
    {moments : List Moment} (h : CallEnds request todo prev result moments) (htodo : todo ≠ 0) :
    (wasAccepted result = true ∧ acceptedRequests moments = [request]) ∨
      (wasAccepted result = false ∧ acceptedRequests moments = [] ∧ refusals moments = todo) := by
  rcases h with ⟨hcode, haccepted⟩ | ⟨hnone, hall, ⟨hzero, -⟩ | hcode⟩
  · refine .inl ⟨?_, haccepted⟩
    simpa [wasAccepted, getNuraftReturnCode] using hcode
  · exact absurd hzero htodo
  · refine .inr ⟨?_, hnone, hall⟩
    simpa [wasAccepted, getNuraftReturnCode] using hcode

/-- A session of calls, one after the other.  What a call leaves of the bound is
there for the calls behind it. -/
theorem performAll_follows (requests : List Request) {servers : ServerMap} {informed : Int32}
    {numRetries : UInt16} {c c' : Client} (hc : Following servers informed numRetries c)
    {moments : List Moment} {outcomes : List (Except Exception MutationResult)}
    (h : (c.performAll requests).Exchanges (exchangesOf moments) (outcomes, c'))
    (hanswered : ∀ m ∈ moments, Answered servers informed m) :
    ∃ results, outcomes = results.map .ok ∧ results.length = requests.length ∧
      Following servers informed numRetries c' ∧
      acceptedRequests moments = reportedRequests requests results ∧
      numRetries.toNat * results.countP (fun result => !wasAccepted result) ≤ refusals moments ∧
      ∀ rest, refusals moments + misleads c'.leaderId rest ≤
        misleads c.leaderId (moments ++ rest) := by
  induction requests generalizing c moments outcomes with
  | nil =>
      rcases h with ⟨htrace, h⟩
      cases h
      have hnil : moments = [] := List.map_eq_nil_iff.mp htrace
      subst hnil
      refine ⟨[], rfl, rfl, hc, rfl, Nat.zero_le _, ?_⟩
      intro rest
      simp [refusals, exchangesOf]
  | cons request requests ih =>
      unfold performAll at h
      rw [perform_eq, Interaction.exchanges_bind_iff] at h
      rcases h with ⟨first, second, ⟨outcome, mid⟩, hsplit, hfirst, hsecond⟩
      rw [Interaction.exchanges_bind_iff] at hsecond
      rcases hsecond with ⟨second, nothing, ⟨outcomes, last⟩, rfl, hsecond, hnothing, hresult⟩
      cases hresult
      subst hnothing
      rw [List.append_nil] at hsplit
      rcases List.map_eq_append_iff.mp hsplit with ⟨now, later, rfl, rfl, rfl⟩
      rw [List.forall_mem_append] at hanswered
      rcases mutateLoop_follows request hc hfirst hanswered.1 with
        ⟨result, rfl, hmid, hends, hpaid⟩
      rcases ih hmid hsecond hanswered.2 with
        ⟨results, rfl, hlength, hc', haccepted, hfailed, hpaid'⟩
      have hreports := hends.reports hc.numRetries_ne_zero
      refine ⟨result :: results, rfl, by simp [hlength], hc', ?_, ?_, ?_⟩
      · rw [acceptedRequests_append, haccepted]
        rcases hreports with ⟨hwas, hrequest⟩ | ⟨hwas, hnone, -⟩
        · simp [reportedRequests, hwas, hrequest]
        · simp [reportedRequests, hwas, hnone]
      · rw [refusals_append]
        rcases hreports with ⟨hwas, -⟩ | ⟨hwas, -, hall⟩
        · rw [List.countP_cons_of_neg (by simp [hwas])]
          exact hfailed.trans (Nat.le_add_left _ _)
        · rw [List.countP_cons_of_pos (by simp [hwas]), Nat.mul_add, Nat.mul_one, Nat.add_comm]
          rw [hc.retries] at hall
          exact Nat.add_le_add hall.ge hfailed
      · intro rest
        have hnow := hpaid (later ++ rest)
        have hlater := hpaid' rest
        rw [refusals_append, List.append_assoc]
        omega

end Client

/-- Let a client be constructed from a list of servers, and let every call be tried
at least once.  Let servers answer all requests, the leader accepting them, and let
lookups name servers that the client reached, one of these always having a leader
to name; the leader may change at any moment, and lookups may name a wrong one.
Then, in every session, no call throws; the accepted requests are those of the
calls that report acceptance, each once and in order; there are no more refusals
than changes of the leader, from the one that the client started with, and wrong
answers; and so many calls report a refusal as these pay for, at the full number of
retries each. -/
theorem client_follows_leader_changes (contact : FirstContact)
    (connects : Int32 → Endpoint → Bool) (numRetries : UInt16) (hretries : numRetries ≠ 0)
    (srvs : List (Int32 × String)) (leader informed : Int32) (c : Client)
    (hreplies : contact.replies = .ok (srvs, leader))
    (hnew : Client.new contact connects numRetries = .ok c)
    (hleader : Reached connects srvs leader) (hinformed : Reached connects srvs informed)
    (requests : List Request) (moments : List Moment)
    (outcomes : List (Except Exception MutationResult)) (c' : Client)
    (hrun : (c.performAll requests).Exchanges (exchangesOf moments) (outcomes, c'))
    (hled : ∀ m ∈ moments, Led informed m.leader m.exchange.1 m.exchange.2)
    (hnamed : ∀ m ∈ moments, NamesOnly (Reached connects srvs) m.exchange.1 m.exchange.2) :
    ∃ results, outcomes = results.map .ok ∧ results.length = requests.length ∧
      acceptedRequests moments = Client.reportedRequests requests results ∧
      refusals moments ≤ leaderChanges leader moments + staleAnswers moments ∧
      numRetries.toNat * results.countP (fun result => !wasAccepted result) ≤
        leaderChanges leader moments + staleAnswers moments := by
  rcases Client.mem_ids_new_iff hreplies hnew with ⟨hleaderId, hids⟩
  have hfollowing : Client.Following c.clients informed numRetries c := by
    refine ⟨⟨rfl, ?_⟩, ?_, ?_, ?_⟩
    · rw [hleaderId, hids]
      exact hleader
    · rw [hids]
      exact hinformed
    · rcases Client.new_eq_ok hnew with ⟨_, _, _, _, _, rfl⟩
      rfl
    · intro hzero
      exact hretries (UInt16.toNat_inj.mp hzero)
  have hanswered : ∀ m ∈ moments, Client.Answered c.clients informed m := by
    intro m hm
    refine ⟨hled m hm, ?_⟩
    have hknown : Reached connects srvs = (· ∈ c.clients.ids) := by
      funext id
      exact propext (hids id).symm
    rw [← hknown]
    exact hnamed m hm
  rcases Client.performAll_follows requests hfollowing hrun hanswered with
    ⟨results, houtcomes, hlength, -, haccepted, hfailed, hpaid⟩
  have hbound : refusals moments ≤ leaderChanges leader moments + staleAnswers moments := by
    have hall := hpaid []
    rw [List.append_nil, hleaderId] at hall
    exact (Nat.le_add_right _ _).trans hall
  exact ⟨results, houtcomes, hlength, haccepted, hbound, hfailed.trans hbound⟩

/-- The leader has changed from the first to the second of three servers.  The
first server still names itself once, and names the second one at the next lookup:
two refusals, one of them for the change and one for the wrong answer. -/
theorem client_follows_leader_changes_twice :
    ∃ (c c' : Client) (moments : List Moment),
      Client.new threeServers (fun id _ => id != 3) 3 = .ok c ∧
      (c.performAll [.put [107] [118]]).Exchanges (exchangesOf moments)
        ([.ok ⟨0, 0, ""⟩], c') ∧
      refusals moments = 2 ∧ leaderChanges 1 moments = 1 ∧ staleAnswers moments = 1 ∧
      refusals moments ≤ leaderChanges 1 moments + staleAnswers moments := by
  have hnew : Client.new threeServers (fun id _ => id != 3) 3 =
      .ok ⟨(ServerMap.empty.emplace 1 ⟨"a", 1001⟩).emplace 2 ⟨"b", 1002⟩, [1, 2], 1, 3⟩ := rfl
  have hreached : ∀ id : Int32, id = 1 ∨ id = 2 →
      Reached (fun id _ => id != 3) [(1, "a:1001"), (2, "b:1002"), (3, "c:1003")] id := by
    rintro id (rfl | rfl)
    · exact ⟨"a:1001", ⟨"a", 1001⟩, by simp, rfl, rfl⟩
    · exact ⟨"b:1002", ⟨"b", 1002⟩, by simp, rfl, rfl⟩
  let moments : List Moment :=
    [⟨2, ⟨.mutation 1 (.put [107] [118]), .ok ⟨0, -3, "not leader"⟩⟩⟩,
      ⟨2, ⟨.leaderId 1, .ok 1⟩⟩,
      ⟨2, ⟨.mutation 1 (.put [107] [118]), .ok ⟨0, -3, "not leader"⟩⟩⟩,
      ⟨2, ⟨.leaderId 1, .ok 2⟩⟩,
      ⟨2, ⟨.mutation 2 (.put [107] [118]), .ok ⟨0, 0, ""⟩⟩⟩]
  have hrun : (Client.performAll [.put [107] [118]]
      ⟨(ServerMap.empty.emplace 1 ⟨"a", 1001⟩).emplace 2 ⟨"b", 1002⟩, [1, 2], 1, 3⟩).Exchanges
        (exchangesOf moments) ([.ok ⟨0, 0, ""⟩],
          ⟨(ServerMap.empty.emplace 1 ⟨"a", 1001⟩).emplace 2 ⟨"b", 1002⟩, [1, 2], 2, 3⟩) :=
    ⟨_, _, rfl, _, _, rfl, _, _, rfl, _, _, rfl, _, _, rfl, rfl, rfl⟩
  have hled : ∀ m ∈ moments, Led 1 m.leader m.exchange.1 m.exchange.2 := by
    intro m hm
    simp only [moments, List.mem_cons, List.not_mem_nil, or_false] at hm
    rcases hm with rfl | rfl | rfl | rfl | rfl
    · exact ⟨_, rfl, .inr ⟨by decide, .inl rfl⟩⟩
    · exact fun _ => ⟨1, rfl, by decide⟩
    · exact ⟨_, rfl, .inr ⟨by decide, .inl rfl⟩⟩
    · exact fun _ => ⟨2, rfl, by decide⟩
    · exact ⟨_, rfl, .inl rfl⟩
  have hnamed : ∀ m ∈ moments, NamesOnly (Reached (fun id _ => id != 3)
      [(1, "a:1001"), (2, "b:1002"), (3, "c:1003")]) m.exchange.1 m.exchange.2 := by
    intro m hm
    simp only [moments, List.mem_cons, List.not_mem_nil, or_false] at hm
    rcases hm with rfl | rfl | rfl | rfl | rfl
    · trivial
    · intro id h _
      cases h
      exact hreached 1 (.inl rfl)
    · trivial
    · intro id h _
      cases h
      exact hreached 2 (.inr rfl)
    · trivial
  rcases client_follows_leader_changes threeServers (fun id _ => id != 3) 3 (by decide) _ 1 1 _
    rfl hnew (hreached 1 (.inl rfl)) (hreached 1 (.inl rfl)) _ moments _ _ hrun hled hnamed with
    ⟨results, -, -, -, hbound, -⟩
  exact ⟨_, _, moments, hnew, hrun, by decide, by decide, by decide, hbound⟩

/-! ## A leader that does not answer -/

/-- Let a client that tries every call at least once be connected to the server that
it takes for the leader, and let this server not answer requests, whatever the other
servers would answer.  Then, in every session, each call sends its request once, to
that server, and throws; no server is asked for the leader, and the client stays as
it is. -/
theorem silent_leader_is_kept (c : Client) (hretries : c.numRetries ≠ 0)
    (hleader : c.leaderId ∈ c.clients.ids) (requests : List Request)
    (trace : List (Sigma Rpc.Answer)) (outcomes : List (Except Exception MutationResult))
    (c' : Client) (hrun : (c.performAll requests).Exchanges trace (outcomes, c'))
    (hsilent : ∀ sent ∈ sentRequests trace, sent.server = c.leaderId →
      ∃ what, sent.reply = .error what) :
    c' = c ∧ trace.map Sigma.fst = requests.map (Rpc.mutation c.leaderId) ∧
      outcomes.length = requests.length ∧
      ∀ outcome ∈ outcomes, ∃ what, outcome = .error (.rpc what) := by
  have htodo : c.numRetries.toNat ≠ 0 := by
    intro hzero
    exact hretries (UInt16.toNat_inj.mp hzero)
  rcases Nat.exists_eq_succ_of_ne_zero htodo with ⟨todo, htodo⟩
  induction requests generalizing trace outcomes with
  | nil =>
      rcases hrun with ⟨rfl, h⟩
      cases h
      exact ⟨rfl, rfl, rfl, by simp⟩
  | cons request requests ih =>
      unfold Client.performAll at hrun
      rw [Client.perform_eq, Interaction.exchanges_bind_iff] at hrun
      rcases hrun with ⟨first, second, ⟨outcome, mid⟩, rfl, hfirst, hsecond⟩
      unfold Client.mutate at hfirst
      rw [htodo] at hfirst
      unfold Client.mutateLoop at hfirst
      rw [Client.getLeaderHandle_of_usable ⟨rfl, hleader⟩] at hfirst
      rcases hfirst with ⟨answer, rest, rfl, hfirst⟩
      -- the first round of the call ends it, so that it has no second one
      rcases hsilent ⟨c.leaderId, request, answer⟩ (by simp) rfl with ⟨what, rfl⟩
      rcases hfirst with ⟨rfl, h⟩
      cases h
      rw [Interaction.exchanges_bind_iff] at hsecond
      rcases hsecond with ⟨second, nothing, ⟨later, last⟩, rfl, hsecond, rfl, h⟩
      cases h
      rcases ih second later (by simpa using hsecond) (by
        intro sent hsent
        exact hsilent sent (by simp [hsent])) with ⟨hclient, htrace, hlength, hthrown⟩
      refine ⟨hclient, ?_, by simp [hlength], ?_⟩
      · simpa using htrace
      · rw [List.forall_mem_cons]
        exact ⟨⟨what, rfl⟩, hthrown⟩

/-- The first of two servers has crashed, and both calls are given up. -/
theorem silent_leader_is_kept_twice :
    ∃ (c c' : Client) (trace : List (Sigma Rpc.Answer)), c.clients.ids = [1, 2] ∧
      (c.performAll [.put [107] [118], .delete [107]]).Exchanges trace
        ([.error (.rpc "timeout"), .error (.rpc "timeout")], c') ∧ c' = c ∧
      trace.map Sigma.fst = [.mutation 1 (.put [107] [118]), .mutation 1 (.delete [107])] := by
  let c : Client := ⟨(ServerMap.empty.emplace 1 ⟨"a", 1001⟩).emplace 2 ⟨"b", 1002⟩, [1, 2], 1, 3⟩
  have hrun : (c.performAll [.put [107] [118], .delete [107]]).Exchanges
      [⟨.mutation 1 (.put [107] [118]), .error "timeout"⟩,
        ⟨.mutation 1 (.delete [107]), .error "timeout"⟩]
      ([.error (.rpc "timeout"), .error (.rpc "timeout")], c) :=
    ⟨_, _, rfl, _, _, rfl, rfl, rfl⟩
  rcases silent_leader_is_kept c (by decide) (by decide +kernel) _ _ _ _ hrun
    (by simp) with ⟨hclient, htrace, -, -⟩
  exact ⟨c, c, _, rfl, hrun, hclient, htrace⟩

end ReplicatedSplinterDB
