import ReplicatedSplinterDB.System.Reads

/-!
# Acknowledged mutations

A client counts a mutation as done when a server has answered it with code zero
at both levels.  A handler that waits for its entry answers so only with the
result of a state machine that has applied the entry, so the mutation is in the
committed log from then on, and reads at that machine's server see it, whoever
makes them.  Reads at other servers may still miss it.

A client is also told of a success if Raft returns code zero for a request that
it did not append, and it counts the Raft code 999 as done.  The theorems below
name the promise that excludes both: {lit}`Service.Promised`.

Main results:

- Theorem {lit}`unacknowledged_perform`: a call returns a success only after a
  reply that counts as one.
- Structure {lit}`Service.Awaited`: handlers wait for their own entries, and the
  state machines' results belong to the entries at their positions.
- Structure {lit}`Service.Honest`: every success that a client has seen, or is
  about to see, is in the log and applied by some server.
- Theorem {lit}`acknowledged_mutation_is_visible`: what an acknowledged mutation
  guarantees to every later read.
- Theorem {lit}`acknowledged_mutation_precedes_later_calls`: the order of the log
  respects real time.
-/

namespace ReplicatedSplinterDB

open Foundation

/-! ## When a call returns a success -/

/-- The answer is not a reply that makes the call return a success. -/
def NoSuccess : (rpc : Rpc) → rpc.Answer → Prop
  | .mutation _ _, answer => ∀ reply, answer = .ok reply → ¬ reply.CountsAsSuccess
  | .leaderId _, _ => True

/-- Without a reply that counts as a success the program does not return one. -/
def Unacknowledged (program : ClientProgram (Outcome MutationResult)) : Prop :=
  program.Ensures NoSuccess fun outcome => ∀ r, outcome.1 = .ok r → isSuccess r = false

/-- A loop that has rounds left, or whose last result is no success.  The
induction is on the rounds left: a reply that does not count as a success ends
the call with a result that is none, or is the last result of the next round. -/
theorem unacknowledged_mutateLoop (request : Request) (todo : Nat) (prev : MutationResult)
    (c : Client) (h : todo ≠ 0 ∨ isSuccess prev = false) :
    Unacknowledged (Client.mutateLoop request todo prev c) := by
  induction todo generalizing prev c with
  | zero =>
      intro r hr
      cases hr
      rcases h with hzero | hprev
      · exact absurd rfl hzero
      · exact hprev
  | succ todo ih =>
      unfold Client.mutateLoop
      cases c.getLeaderHandle with
      | error e =>
          intro r hr
          cases hr
      | ok server =>
          intro answer hanswer
          cases answer with
          | error what =>
              intro r hr
              cases hr
          | ok reply =>
              have hnot : ¬ reply.CountsAsSuccess := hanswer reply rfl
              dsimp only
              split
              · rename_i haccepted
                intro r hr
                cases hr
                have hraft : reply.raftCode = 0 := by
                  simpa [wasAccepted, getNuraftReturnCode] using haccepted
                rw [← Bool.not_eq_true, isSuccess_iff]
                intro hsuccess
                exact hnot ⟨hsuccess.1, .inl hraft⟩
              · rename_i hrefused
                split
                · rename_i hweird
                  intro r hr
                  cases hr
                  rw [← Bool.not_eq_true, isSuccess_iff]
                  intro hsuccess
                  exact hnot ⟨hsuccess.1, .inr hweird⟩
                · apply (Interaction.ensures_true
                    (c.tryHandleLeaderChange (getNuraftReturnCode reply))).bind
                  intro outcome _
                  rcases outcome with ⟨changed, c'⟩
                  cases changed with
                  | error e =>
                      intro r hr
                      cases hr
                  | ok changed =>
                      apply ih
                      right
                      rw [← Bool.not_eq_true, isSuccess_iff]
                      intro hsuccess
                      apply hrefused
                      simpa [wasAccepted, getNuraftReturnCode] using hsuccess.2

theorem unacknowledged_perform (request : Request) {c : Client} (hretries : c.numRetries ≠ 0) :
    Unacknowledged (c.perform request) := by
  rw [Client.perform_eq]
  apply unacknowledged_mutateLoop
  left
  intro hzero
  exact hretries (UInt16.toNat_inj.mp hzero)

/-- Where a client stands in a call: the call has been acknowledged, or what is
left of it returns a success only after a reply that counts as one. -/
def Activity.Awaits (acknowledged : Prop) : Activity → Prop
  | .idle => True
  | .running program => acknowledged ∨ Unacknowledged program
  | .waiting rest => acknowledged ∨ ∀ answer : Except String MutationResult,
      (∀ reply, answer = .ok reply → ¬ reply.CountsAsSuccess) → Unacknowledged (rest answer)

theorem Activity.Awaits.mono {acknowledged acknowledged' : Prop} {activity : Activity}
    (h : activity.Awaits acknowledged) (himp : acknowledged → acknowledged') :
    activity.Awaits acknowledged' := by
  cases activity with
  | idle => trivial
  | running program => exact h.imp himp id
  | waiting rest => exact h.imp himp id

/-! ## The effect of a mutation on its key -/

/-- The key that a request is about. -/
def Request.key : Request → Bytes
  | .put key _ => key
  | .update key _ => key
  | .delete key => key

/-- What the key is bound to after a request. -/
def Request.written : Request → Option Bytes
  | .put _ value => some value
  | .update _ value => some value
  | .delete _ => none

theorem Request.plainEffect_key (request : Request) (m : KVMap Bytes Bytes) :
    request.plainEffect m request.key = request.written := by
  cases request with
  | put key value => exact KVMap.set_self m key value
  | update key value => exact KVMap.set_self m key value
  | delete key => exact KVMap.erase_self m key

theorem Request.effect_of_ne (db : SplinterDB Bytes Bytes) (m : KVMap Bytes Bytes)
    {request : Request} {key : Bytes} (hkey : request.key ≠ key) :
    request.effect db m key = m key := by
  cases request with
  | put k value =>
      simp only [Request.effect]
      split
      · exact KVMap.set_of_ne value hkey.symm
      · rfl
  | update k value =>
      simp only [Request.effect]
      split
      · exact KVMap.set_of_ne value hkey.symm
      · rfl
  | delete k =>
      simp only [Request.effect]
      split
      · exact KVMap.erase_of_ne hkey.symm
      · rfl

/-- A request whose primitive returns zero has its plain effect. -/
theorem Request.effect_of_code {db : SplinterDB Bytes Bytes} {h : Handle Bytes Bytes}
    {request : Request} (hcode : (h.call db (reachedCall request)).1 = 0) :
    request.effect db h.contents = request.plainEffect h.contents := by
  cases request with
  | put key value => exact if_pos hcode
  | update key value => exact if_pos hcode
  | delete key => exact if_pos hcode

/-- Items about other keys leave a key alone. -/
theorem foldItems_of_other_keys (db : SplinterDB Bytes Bytes) {items : List (Option Request)}
    {key : Bytes} {from' upTo : Nat} (hle : from' ≤ upTo)
    (hother : ∀ j request, from' ≤ j → j < upTo → items[j]? = some (some request) →
      request.key ≠ key) :
    foldItems (Request.effect db) (items.take upTo) key =
      foldItems (Request.effect db) (items.take from') key := by
  induction upTo, hle using Nat.le_induction with
  | base => rfl
  | succ upTo hle ih =>
      have hrest := ih fun j request hj hlt => hother j request hj (Nat.lt_succ_of_lt hlt)
      cases hitem : items[upTo]? with
      | none =>
          have hend := List.getElem?_eq_none_iff.mp hitem
          rw [List.take_of_length_le (Nat.le_succ_of_le hend), ← hrest,
            List.take_of_length_le hend]
      | some item =>
          rw [foldItems_take_succ _ hitem]
          cases item with
          | none => exact hrest
          | some request =>
              rw [← hrest]
              exact Request.effect_of_ne db _
                (hother upTo request hle (Nat.lt_succ_self upTo) hitem)

/-! ## The invariant -/

/-- The Raft code of every reply is the code that Raft returned. -/
theorem extractResult_raftCode {wire : WireFormat} {outcome : RaftResult} {reply : MutationResult}
    (h : extractResult wire outcome = .ok reply) : reply.raftCode = outcome.resultCode := by
  by_cases hread : outcome.accepted = true ∧ outcome.hasResult = true ∧
      outcome.result.isSome = true
  · rcases outcome with ⟨accepted, hasResult, resultCode, resultStr, result⟩
    rcases hread with ⟨rfl, rfl, hsome⟩
    rcases Option.isSome_iff_exists.mp hsome with ⟨buf, rfl⟩
    cases hget : get wire.i32 buf with
    | error e =>
        simp only [extractResult, hget] at h
        cases h
    | ok code =>
        simp only [extractResult, hget] at h
        cases h
        rfl
  · rw [extractResult_of_not_read wire hread] at h
    cases h
    rfl

namespace Service

/-- The contents after the first entries of the log. -/
def contentsAt (db : SplinterDB Bytes Bytes) (s : Service) (n : Nat) : KVMap Bytes Bytes :=
  foldItems (Request.effect db) (s.items.take n)

/-- The mutation of a call has its effect at this position of the log, and the
server has applied it. -/
structure AppliedAt (db : SplinterDB Bytes Bytes) (s : Service) (call : CallId)
    (request : Request) (server : Int32) (k : Nat) : Prop where
  issued : s.issued call = some request
  entry : s.history[k]? = some (some (call, request))
  applied : k < s.replicas.delivered server
  effective : request.effect db (s.contentsAt db k) = request.plainEffect (s.contentsAt db k)

/-- The mutation of a call is in the log and applied by some server. -/
def Acknowledged (db : SplinterDB Bytes Bytes) (s : Service) (call : CallId) : Prop :=
  ∃ request server k, s.AppliedAt db call request server k

/-- Every success that a client has seen, or is about to see, is acknowledged. -/
structure Honest (db : SplinterDB Bytes Bytes) (retries : Nat → UInt16) (s : Service) :
    Prop where
  budgeted : s.world.Budgeted retries
  replies : ∀ call reply, (call, reply) ∈ s.world.replies → reply.CountsAsSuccess →
    s.Acknowledged db call
  awaits : ∀ p, (s.world.processes p).activity.Awaits (s.Acknowledged db (s.world.currentCall p))
  results : ∀ call r, (call, .ok r) ∈ s.results → isSuccess r = true → s.Acknowledged db call

variable {wire : WireFormat} {db : SplinterDB Bytes Bytes} {retries : Nat → UInt16}
  {s s' : Service}

theorem honest_start (db : SplinterDB Bytes Bytes) (clients : Nat → Client) :
    (start clients).Honest db fun p => (clients p).numRetries := by
  refine ⟨World.budgeted_start clients, ?_, fun p => trivial, ?_⟩
  · simp [start, World.start]
  · simp [start]

/-- The entries of the log stay at their positions. -/
theorem Grows.history_getElem? (hgrows : s.Grows s') {k : Nat}
    {item : Option (CallId × Request)} (h : s.history[k]? = some item) :
    s'.history[k]? = some item := by
  rcases hgrows.history with ⟨more, hmore⟩
  rw [← hmore, List.getElem?_append_left (List.getElem?_eq_some_iff.mp h).1]
  exact h

/-- What stands before an entry of the log stays the same. -/
theorem Grows.contentsAt (hgrows : s.Grows s') {k : Nat} {item : Option (CallId × Request)}
    (h : s.history[k]? = some item) : s'.contentsAt db k = s.contentsAt db k := by
  have hlt : k < s.history.length := (List.getElem?_eq_some_iff.mp h).1
  have hle : k ≤ s.items.length := by
    rw [items, List.length_map]
    exact Nat.le_of_lt hlt
  rw [Service.contentsAt, hgrows.take_items hle]
  rfl

/-- An entry that a server has applied stays so. -/
theorem AppliedAt.grows {call : CallId} {request : Request} {server : Int32} {k : Nat}
    (h : s.AppliedAt db call request server k) (hgrows : s.Grows s') :
    s'.AppliedAt db call request server k := by
  refine ⟨hgrows.issued _ _ h.issued, hgrows.history_getElem? h.entry,
    h.applied.trans_le (hgrows.delivered server), ?_⟩
  rw [hgrows.contentsAt h.entry]
  exact h.effective

theorem Acknowledged.grows {call : CallId} (h : s.Acknowledged db call) (hgrows : s.Grows s') :
    s'.Acknowledged db call := by
  rcases h with ⟨request, server, k, happlied⟩
  exact ⟨request, server, k, happlied.grows hgrows⟩

/-- A step that only lets the history grow and keeps clients, replies and
results. -/
theorem Honest.grows (h : s.Honest db retries) (hgrows : s.Grows s')
    (hworld : s'.world.processes = s.world.processes ∧ s'.world.sent = s.world.sent)
    (hreplies : ∀ call reply, (call, reply) ∈ s'.world.replies → reply.CountsAsSuccess →
      (call, reply) ∈ s.world.replies ∨ s'.Acknowledged db call)
    (hresults : s'.results = s.results) : s'.Honest db retries := by
  rcases hworld with ⟨hprocesses, hsent⟩
  refine ⟨?_, ?_, ?_, ?_⟩
  · intro p
    rw [hprocesses, hsent]
    exact h.budgeted p
  · intro call reply hmem hcounts
    rcases hreplies call reply hmem hcounts with hold | hnew
    · exact (h.replies call reply hold hcounts).grows hgrows
    · exact hnew
  · intro p
    simp only [World.currentCall, hprocesses]
    exact (h.awaits p).mono fun hack => hack.grows hgrows
  · intro call r hmem hsuccess
    rw [hresults] at hmem
    exact (h.results call r hmem hsuccess).grows hgrows

/-- The result is the code of the entry at its position, which the server has
applied; the entry has its effect there if the code is zero. -/
def Returned (wire : WireFormat) (db : SplinterDB Bytes Bytes) (s : Service)
    (result : MachineResult) : Prop :=
  result.position < s.replicas.delivered result.server ∧
    ∃ call request code, s.history[result.position]? = some (some (call, request)) ∧
      result.ret = .ofBytes (wire.i32.encode code) ∧
      (code = 0 → request.effect db (s.contentsAt db result.position) =
        request.plainEffect (s.contentsAt db result.position))

theorem Returned.grows {result : MachineResult} (h : s.Returned wire db result)
    (hgrows : s.Grows s') : s'.Returned wire db result := by
  rcases h with ⟨happlied, call, request, code, hentry, hret, heffective⟩
  refine ⟨happlied.trans_le (hgrows.delivered _), call, request, code,
    hgrows.history_getElem? hentry, hret, ?_⟩
  rw [hgrows.contentsAt hentry]
  exact heffective

/-- Handlers wait for the entries of their own requests, and the results of the
state machines belong to the entries at their positions. -/
structure Awaited (wire : WireFormat) (db : SplinterDB Bytes Bytes) (s : Service) : Prop where
  entries : ∀ m ∈ s.awaiting, s.history[m.2]? = some (some (m.1.call, m.1.request))
  returned : ∀ result ∈ s.rets, s.Returned wire db result

theorem awaited_start (wire : WireFormat) (db : SplinterDB Bytes Bytes)
    (clients : Nat → Client) : (start clients).Awaited wire db := by
  constructor
  · simp [start]
  · simp [start]

/-- A step that keeps what it does not add. -/
theorem Awaited.grows (h : s.Awaited wire db) (hgrows : s.Grows s')
    (hawaiting : ∀ m ∈ s'.awaiting, m ∈ s.awaiting ∨
      s'.history[m.2]? = some (some (m.1.call, m.1.request)))
    (hrets : ∀ result ∈ s'.rets, result ∈ s.rets ∨ s'.Returned wire db result) :
    s'.Awaited wire db := by
  constructor
  · intro m hm
    rcases hawaiting m hm with hold | hnew
    · exact hgrows.history_getElem? (h.entries m hold)
    · exact hnew
  · intro result hresult
    rcases hrets result hresult with hold | hnew
    · exact (h.returned result hold).grows hgrows
    · exact hnew

/-- What a state machine returns for the next entry is the code of that entry. -/
theorem returned_commit (h : s.Replicated wire db) {server : Int32} {payload : Bytes}
    (hentry : s.committed[s.replicas.delivered server]? = some (.application payload))
    {ret : Buffer} {sm : StateMachine}
    (hcommit : (commit wire db (s.replicas.delivered server + 1) (.ofBytes payload)).run
      (s.replicas.machine server) = .ok ret sm) (failed : List Nat)
    (rets : List MachineResult) :
    Returned wire db { s with
        replicas := s.replicas.advance server sm failed
        rets := rets } ⟨server, s.replicas.delivered server, ret⟩ := by
  rcases h.commit hentry hcommit with ⟨request, hitem, hret, -⟩
  rw [items, List.getElem?_map, Option.map_eq_some_iff] at hitem
  rcases hitem with ⟨item, hitem, hrequest⟩
  rw [Option.map_eq_some_iff] at hrequest
  rcases hrequest with ⟨⟨call, request'⟩, rfl, hsame⟩
  dsimp only at hsame
  subst hsame
  refine ⟨by simp [Cluster.advance], call, request', _, hitem, hret, ?_⟩
  intro hcode
  have hcontents : s.contentsAt db (s.replicas.delivered server) =
      (s.replicas.machine server).splHandle.contents := (h.follows.contents server).symm
  show request'.effect db (s.contentsAt db _) = request'.plainEffect (s.contentsAt db _)
  rw [hcontents]
  exact Request.effect_of_code hcode

theorem Awaited.step (hs : s.Consistent wire db) (h : s.Awaited wire db) {event : ServiceEvent}
    (hstep : s.step wire db event = .ok s') : s'.Awaited wire db := by
  have hgrows := step_grows hs.traced hstep
  cases event with
  | world event =>
      rcases world_cases hs.traced hstep with ⟨w, issued, results, -, -, hcases⟩
      rcases hcases with rfl | ⟨call, request, payload, -, -, rfl⟩
      · exact h.grows hgrows (fun _ hm => .inl hm) fun _ hr => .inl hr
      · exact h.grows hgrows (fun _ hm => .inl hm) fun _ hr => .inl hr
  | refuse i outcome =>
      rcases refuse_cases hstep with ⟨message, -, rfl⟩
      exact h.grows hgrows (fun _ hm => .inl hm) fun _ hr => .inl hr
  | append i =>
      rcases append_cases hstep with ⟨message, payload, hmessage, -, rfl⟩
      refine h.grows hgrows ?_ fun _ hr => .inl hr
      intro m hm
      rcases List.mem_append.mp hm with hold | hnew
      · exact .inl hold
      · rw [List.mem_singleton] at hnew
        subst hnew
        right
        have hissued := hs.traced.requests _ (List.mem_of_getElem? hmessage)
        have hlength : s.history.length = s.committed.length := by
          rw [← hs.replicated.produced.length_eq, items, List.length_map]
        simp [hissued, ← hlength]
  | answer j m text =>
      rcases answer_cases hstep with ⟨message, result, -, -, rfl⟩
      exact h.grows hgrows (fun _ hm => .inl ((List.eraseIdx_sublist _ _).mem hm))
        fun _ hr => .inl hr
  | configure =>
      cases hstep
      exact h.grows hgrows (fun _ hm => .inl hm) fun _ hr => .inl hr
  | apply server =>
      rcases apply_cases hstep with
        rfl | ⟨-, rfl⟩ | ⟨payload, ret, sm, failed, hentry, hcommit, rfl⟩
      · exact h
      · exact h.grows hgrows (fun _ hm => .inl hm) fun _ hr => .inl hr
      · refine h.grows hgrows (fun _ hm => .inl hm) ?_
        intro result hresult
        rcases List.mem_append.mp hresult with hold | hnew
        · exact .inl hold
        · rw [List.mem_singleton] at hnew
          subst hnew
          exact .inr (returned_commit hs.replicated hentry hcommit failed _)
  | read p key failure =>
      rcases read_cases hstep with ⟨-, queue, records, rfl, -⟩
      exact h.grows hgrows (fun _ hm => .inl hm) fun _ hr => .inl hr

/-- A handler that is woken with code zero answers for an entry that is applied. -/
theorem Awaited.acknowledged (hs : s.Consistent wire db) (h : s.Awaited wire db)
    {message : RequestMessage} {result : MachineResult}
    (hmessage : (message, result.position) ∈ s.awaiting) (hresult : result ∈ s.rets)
    {text : String} {reply : MutationResult}
    (hreply : extractResult wire ⟨true, true, 0, text, some result.ret⟩ = .ok reply)
    (hcode : reply.splCode = 0) : s.Acknowledged db message.call := by
  have hentry := h.entries _ hmessage
  rcases h.returned result hresult with ⟨happlied, call, request, code, hown, hret, heffective⟩
  rw [hentry] at hown
  cases hown
  rw [hret, extractResult_encode] at hreply
  cases hreply
  exact ⟨message.request, result.server, result.position,
    hs.traced.history _ _ (List.mem_of_getElem? hentry), hentry, happlied, heffective hcode⟩

/-- Replies come from requests that have just been handled. -/
theorem replies_cases {w w' : World} {event : WorldEvent}
    (hstep : w.step wire event = .ok w') {call : CallId} {reply : MutationResult}
    (hmem : (call, reply) ∈ w'.replies) :
    (call, reply) ∈ w.replies ∨ ∃ i outcome, event = .deliver i outcome ∧
      reply.raftCode = outcome.resultCode := by
  cases World.transition_of_step hstep with
  | deliver hmessage outcome =>
      rename_i i message
      rcases World.handled_replies (i := i) (raftWithOutcome_result _ outcome) hmem with
        hold | hnew
      · exact .inl hold
      · exact .inr ⟨_, outcome, rfl, extractResult_raftCode hnew⟩
  | call hidle request => exact .inl hmem
  | send hactivity => exact .inl hmem
  | lookup hactivity answer => exact .inl hmem
  | reply hreply hactivity hcurrent => exact .inl ((List.eraseIdx_sublist _ _).mem hmem)
  | replyDropped hreply hstale => exact .inl ((List.eraseIdx_sublist _ _).mem hmem)
  | fail hactivity what => exact .inl hmem
  | finish hactivity => exact .inl hmem
  | commitPending hentry => exact .inl hmem
  | dropPending hentry => exact .inl hmem

/-- One client changes what it is doing; the others stand where they stood. -/
theorem Honest.awaits_update (h : s.Honest db retries) (hgrows : s.Grows s') {p : Nat}
    {process : Process}
    (hprocesses : s'.world.processes = Function.update s.world.processes p process)
    (hprocess : process.activity.Awaits (s'.Acknowledged db (p, process.calls))) (q : Nat) :
    (s'.world.processes q).activity.Awaits (s'.Acknowledged db (s'.world.currentCall q)) := by
  simp only [World.currentCall, hprocesses]
  by_cases hq : q = p
  · subst hq
    rw [Function.update_self]
    exact hprocess
  · rw [Function.update_of_ne hq]
    exact (h.awaits q).mono fun hack => hack.grows hgrows

/-- A client that waits goes on with any answer that is no success, or with any
answer once it is acknowledged. -/
theorem Honest.resume (h : s.Honest db retries) (hgrows : s.Grows s') {p : Nat}
    {rest : Except String MutationResult → ClientProgram (Outcome MutationResult)}
    (hactivity : (s.world.processes p).activity = .waiting rest)
    {answer : Except String MutationResult}
    (hanswer : (∀ reply, answer = .ok reply → ¬ reply.CountsAsSuccess) ∨
      s.Acknowledged db (s.world.currentCall p)) :
    (Activity.running (rest answer)).Awaits (s'.Acknowledged db (s.world.currentCall p)) := by
  have hawaits := h.awaits p
  rw [hactivity] at hawaits
  rcases hanswer with hnot | hack
  · exact hawaits.imp (fun hack => hack.grows hgrows) fun hrest => hrest answer hnot
  · exact .inl (hack.grows hgrows)

/-- After every step of the clients and messages, each client still stands
where its call is acknowledged or has seen no success. -/
theorem Honest.awaits_world (hretries : ∀ p, retries p ≠ 0) (h : s.Honest db retries)
    (hgrows : s.Grows s') {event : WorldEvent} {w : World}
    (hstep : s.world.step wire event = .ok w) (hworld : s'.world = w) (q : Nat) :
    (s'.world.processes q).activity.Awaits (s'.Acknowledged db (s'.world.currentCall q)) := by
  have hsame : w.processes = s.world.processes →
      (s'.world.processes q).activity.Awaits
        (s'.Acknowledged db (s'.world.currentCall q)) := by
    intro hprocesses
    simp only [World.currentCall, hworld, hprocesses]
    exact (h.awaits q).mono fun hack => hack.grows hgrows
  cases World.transition_of_step hstep with
  | call hidle request =>
      rename_i p
      apply h.awaits_update hgrows (by rw [hworld]; rfl)
      right
      apply unacknowledged_perform
      rw [(h.budgeted p).numRetries_eq]
      exact hretries p
  | send hactivity =>
      rename_i p server request rest
      apply h.awaits_update hgrows (by rw [hworld]; rfl)
      have hawaits := h.awaits p
      rw [hactivity] at hawaits
      exact hawaits.imp (fun hack => hack.grows hgrows) id
  | lookup hactivity answer =>
      rename_i p server rest
      apply h.awaits_update hgrows (by rw [hworld]; rfl)
      have hawaits := h.awaits p
      rw [hactivity] at hawaits
      exact hawaits.imp (fun hack => hack.grows hgrows) fun hrest => hrest answer trivial
  | reply hreply hactivity hcurrent =>
      rename_i i call result rest
      apply h.awaits_update hgrows (by rw [hworld]; rfl)
      apply h.resume hgrows hactivity
      by_cases hcounts : result.CountsAsSuccess
      · right
        rw [← hcurrent]
        exact h.replies call result (List.mem_of_getElem? hreply) hcounts
      · left
        intro reply heq
        cases heq
        exact hcounts
  | fail hactivity what =>
      apply h.awaits_update hgrows (by rw [hworld]; rfl)
      apply h.resume hgrows hactivity
      left
      intro reply heq
      cases heq
  | finish hactivity =>
      apply h.awaits_update hgrows (by rw [hworld])
      trivial
  | deliver hmessage outcome => exact hsame rfl
  | replyDropped hreply hstale => exact hsame rfl
  | commitPending hentry => exact hsame rfl
  | dropPending hentry => exact hsame rfl

/-- A result that is written down is the one that the client's call ends with. -/
theorem results_note {event : WorldEvent} {call : CallId} {r : MutationResult}
    (hmem : (call, .ok r) ∈ (s.note event).results) :
    (call, .ok r) ∈ s.results ∨ ∃ p client, call = s.world.currentCall p ∧
      (s.world.processes p).activity = .running (.ret (.ok r, client)) := by
  cases event with
  | finish p =>
      unfold note at hmem
      dsimp only at hmem
      split at hmem
      · rename_i outcome client hactivity
        rcases List.mem_append.mp hmem with hold | hnew
        · exact .inl hold
        · rw [List.mem_singleton] at hnew
          cases hnew
          exact .inr ⟨p, client, rfl, hactivity⟩
      · exact .inl hmem
  | call p request => exact .inl hmem
  | send p => exact .inl hmem
  | lookup p answer => exact .inl hmem
  | deliver i outcome => exact .inl hmem
  | reply i => exact .inl hmem
  | fail p what => exact .inl hmem
  | commitPending i => exact .inl hmem
  | dropPending i => exact .inl hmem

/-- What Raft promises about result codes: a handler gets code zero only after it
has waited for its entry, and never the code 999, which NuRaft does not have. -/
def Promised : ServiceEvent → Prop
  | .world (.deliver _ outcome) =>
      outcome.resultCode ≠ 0 ∧ outcome.resultCode ≠ Client.weirdCase
  | .refuse _ outcome => outcome.resultCode ≠ 0 ∧ outcome.resultCode ≠ Client.weirdCase
  | _ => True

/-- A reply with neither of these codes does not count as a success. -/
theorem not_countsAsSuccess {reply : MutationResult} {code : Int32} (hcode : reply.raftCode = code)
    (hpromised : code ≠ 0 ∧ code ≠ Client.weirdCase) : ¬ reply.CountsAsSuccess := by
  rintro ⟨-, hzero | hweird⟩
  · exact hpromised.1 (hcode ▸ hzero)
  · exact hpromised.2 (hcode ▸ hweird)

theorem Honest.world (hretries : ∀ p, retries p ≠ 0) (h : s.Honest db retries)
    {event : WorldEvent} (hpromised : Promised (.world event)) (hgrows : s.Grows s')
    (hstep : s.step wire db (.world event) = .ok s') : s'.Honest db retries := by
  simp only [Service.step] at hstep
  split at hstep
  · cases hstep
  · rename_i w hw
    cases hstep
    refine ⟨World.step_budgeted h.budgeted hw, ?_, ?_, ?_⟩
    · intro call reply hmem hcounts
      rcases replies_cases hw hmem with hold | ⟨i, outcome, rfl, hcode⟩
      · exact (h.replies call reply hold hcounts).grows hgrows
      · exact absurd hcounts (not_countsAsSuccess hcode hpromised)
    · exact h.awaits_world hretries hgrows hw rfl
    · intro call r hmem hsuccess
      rcases results_note hmem with hold | ⟨p, client, rfl, hactivity⟩
      · exact (h.results call r hold hsuccess).grows hgrows
      · have hawaits := h.awaits p
        rw [hactivity] at hawaits
        rcases hawaits with hack | hnot
        · exact hack.grows hgrows
        · have hfailed := hnot r rfl
          rw [hsuccess] at hfailed
          cases hfailed

theorem Honest.step (hretries : ∀ p, retries p ≠ 0) (hs : s.Consistent wire db)
    (hawaited : s.Awaited wire db) (h : s.Honest db retries) {event : ServiceEvent}
    (hpromised : Promised event) (hstep : s.step wire db event = .ok s') :
    s'.Honest db retries := by
  have hgrows := step_grows hs.traced hstep
  cases event with
  | world event => exact h.world hretries hpromised hgrows hstep
  | refuse i outcome =>
      rcases refuse_cases hstep with ⟨message, -, rfl⟩
      refine h.grows hgrows ⟨rfl, rfl⟩ ?_ rfl
      intro call reply hmem hcounts
      rcases World.handled_replies (fun _ _ => rfl) hmem with hold | hnew
      · exact .inl hold
      · exact absurd hcounts (not_countsAsSuccess (extractResult_raftCode hnew) hpromised)
  | append i =>
      rcases append_cases hstep with ⟨message, payload, -, -, rfl⟩
      exact h.grows hgrows ⟨rfl, rfl⟩ (fun _ _ hmem _ => .inl hmem) rfl
  | answer j m text =>
      rcases answer_cases hstep with ⟨message, result, hmessage, hresult, rfl⟩
      refine h.grows hgrows ⟨rfl, rfl⟩ ?_ rfl
      intro call reply hmem hcounts
      rcases mem_replies_of_handler hmem with hold | ⟨rfl, hreply⟩
      · exact .inl hold
      · exact .inr ((hawaited.acknowledged hs hmessage hresult hreply hcounts.1).grows hgrows)
  | configure =>
      cases hstep
      exact h.grows hgrows ⟨rfl, rfl⟩ (fun _ _ hmem _ => .inl hmem) rfl
  | apply server =>
      rcases apply_cases hstep with rfl | ⟨-, rfl⟩ | ⟨payload, ret, sm, failed, -, -, rfl⟩
      · exact h
      · exact h.grows hgrows ⟨rfl, rfl⟩ (fun _ _ hmem _ => .inl hmem) rfl
      · exact h.grows hgrows ⟨rfl, rfl⟩ (fun _ _ hmem _ => .inl hmem) rfl
  | read p key failure =>
      rcases read_cases hstep with ⟨hidle, queue, records, rfl, -⟩
      refine ⟨?_, ?_, ?_, ?_⟩
      · exact h.budgeted.update (fun _ _ _ => rfl)
          ⟨(h.budgeted p).numRetries_eq, (h.budgeted p).past, (h.budgeted p).future,
            (h.budgeted p).current⟩
      · intro call reply hmem hcounts
        exact (h.replies call reply hmem hcounts).grows hgrows
      · apply h.awaits_update hgrows rfl
        exact (h.awaits p).mono fun hack => hack.grows hgrows
      · intro call r hmem hsuccess
        exact (h.results call r hmem hsuccess).grows hgrows

/-- What holds of a later state of a run: it has grown from the earlier one, and
reads since then have seen at least what their server had applied before. -/
structure Later (wire : WireFormat) (db : SplinterDB Bytes Bytes) (s s' : Service) : Prop where
  consistent : s'.Consistent wire db
  grows : s.Grows s'
  since : ∀ r ∈ s'.reads.drop s.reads.length, s.replicas.delivered r.server ≤ r.upTo

theorem later_refl (h : s.Consistent wire db) : s.Later wire db s :=
  ⟨h, .refl s, by simp⟩

theorem Later.step (hdb : db.Lawful) {start : Service} (s : Service) (event : ServiceEvent)
    (s' : Service) (h : start.Later wire db s) (hstep : s.step wire db event = .ok s') :
    start.Later wire db s' := by
  have hgrows := h.grows.trans (step_grows h.consistent.traced hstep)
  refine ⟨step_consistent hdb s event s' h.consistent hstep, hgrows, ?_⟩
  have hsame : s'.reads = s.reads → ∀ r ∈ s'.reads.drop start.reads.length,
      start.replicas.delivered r.server ≤ r.upTo := by
    intro hreads
    rw [hreads]
    exact h.since
  cases event with
  | world event =>
      rcases world_cases h.consistent.traced hstep with ⟨w, issued, results, -, -, hcases⟩
      rcases hcases with rfl | ⟨call, request, payload, -, -, rfl⟩
      · exact hsame rfl
      · exact hsame rfl
  | refuse i outcome =>
      rcases refuse_cases hstep with ⟨message, -, rfl⟩
      exact hsame rfl
  | append i =>
      rcases append_cases hstep with ⟨message, payload, -, -, rfl⟩
      exact hsame rfl
  | answer j m text =>
      rcases answer_cases hstep with ⟨message, result, -, -, rfl⟩
      exact hsame rfl
  | configure =>
      cases hstep
      exact hsame rfl
  | apply server =>
      rcases apply_cases hstep with rfl | ⟨-, rfl⟩ | ⟨payload, ret, sm, failed, -, -, rfl⟩
      · exact hsame rfl
      · exact hsame rfl
      · exact hsame rfl
  | read p key failure =>
      rcases read_cases hstep with ⟨-, queue, records, rfl, rfl | ⟨server, rfl⟩⟩
      · exact hsame (List.append_nil _)
      · intro r hr
        rw [List.drop_append_of_le_length h.grows.reads.length_le] at hr
        rcases List.mem_append.mp hr with hold | hnew
        · exact h.since r hold
        · rw [List.mem_singleton] at hnew
          subst hnew
          have hcounter := h.consistent.replicated.follows.counter server
          dsimp only
          rw [hcounter]
          exact h.grows.delivered server

end Service

section Runs

variable {wire : WireFormat} {db : SplinterDB Bytes Bytes} {clients : Nat → Client}
  {events later : List ServiceEvent} {s s' : Service}

/-- A success that a client has seen is applied somewhere, in every run with the
promised result codes. -/
theorem acknowledged_of_success (hdb : db.Lawful)
    (hretries : ∀ p, (clients p).numRetries ≠ 0)
    (hcodes : ∀ event ∈ events, Service.Promised event)
    (hrun : runEvents (Service.step wire db) events (Service.start clients) = .ok s)
    {call : CallId} {result : MutationResult} (hresult : (call, .ok result) ∈ s.results)
    (hsuccess : isSuccess result = true) :
    s.Consistent wire db ∧ s.Acknowledged db call := by
  have hstep : ∀ (x : Service) event (x' : Service), Service.Promised event →
      (x.Consistent wire db ∧ x.Awaited wire db ∧ x.Honest db fun p => (clients p).numRetries) →
      x.step wire db event = .ok x' →
      x'.Consistent wire db ∧ x'.Awaited wire db ∧
        x'.Honest db fun p => (clients p).numRetries := by
    rintro x event x' hpromised ⟨hconsistent, hawaited, hhonest⟩ hstep
    exact ⟨Service.step_consistent hdb x event x' hconsistent hstep,
      hawaited.step hconsistent hstep,
      hhonest.step hretries hconsistent hawaited hpromised hstep⟩
  have hs := runEvents_invariant_of_mem hstep hcodes
    ⟨Service.consistent_start wire db clients, Service.awaited_start wire db clients,
      Service.honest_start db clients⟩ hrun
  exact ⟨hs.1, hs.2.2.results call result hresult hsuccess⟩

theorem later_of_run (hdb : db.Lawful) (hs : s.Consistent wire db)
    (hlater : runEvents (Service.step wire db) later s = .ok s') : s.Later wire db s' :=
  runEvents_invariant (Service.Later.step hdb) (Service.later_refl hs) hlater

end Runs

/-- Let the storage be deterministic, let every client have at least one retry, and
let Raft keep its promise about result codes: zero only for a handler that has waited
for its entry, and never 999.  In every run without restarts, a call that has
returned a success has its mutation at a definite position of the committed log, and
some server has applied it when the call returns.  However the run goes on, the
mutation stays at this position; every read made at that server from then on, by any
client, sees at least the log up to it; and every read, at any server, that sees the
log up to it and no later mutation of the same key returns the value that it wrote,
or that the key is absent if it was a delete. -/
theorem acknowledged_mutation_is_visible (wire : WireFormat) (db : SplinterDB Bytes Bytes)
    (hdb : db.Lawful) (clients : Nat → Client) (hretries : ∀ p, (clients p).numRetries ≠ 0)
    (events : List ServiceEvent) (hcodes : ∀ event ∈ events, Service.Promised event)
    (s : Service)
    (hrun : runEvents (Service.step wire db) events (Service.start clients) = .ok s)
    (call : CallId) (result : MutationResult) (hresult : (call, .ok result) ∈ s.results)
    (hsuccess : isSuccess result = true) :
    ∃ request server k, s.issued call = some request ∧
      s.history[k]? = some (some (call, request)) ∧ k < s.replicas.delivered server ∧
      ∀ later s', runEvents (Service.step wire db) later s = .ok s' →
        s'.history[k]? = some (some (call, request)) ∧
        (∀ r ∈ s'.reads.drop s.reads.length, r.server = server → k < r.upTo) ∧
        ∀ r ∈ s'.reads, r.key = request.key → k < r.upTo →
          (∀ j other, k < j → j < r.upTo → s'.items[j]? = some (some other) →
            other.key ≠ request.key) →
          (db.lookup (foldItems (Request.effect db) (s'.items.take r.upTo)) r.key).1 = 0 →
          match request.written with
          | some value => r.result = (value, 0)
          | none => r.result.1 = [] ∧ r.result.2 ≠ 0 := by
  rcases acknowledged_of_success hdb hretries hcodes hrun hresult hsuccess with
    ⟨hs, request, server, k, happlied⟩
  refine ⟨request, server, k, happlied.issued, happlied.entry, happlied.applied, ?_⟩
  intro later s' hlater
  have hlate := later_of_run hdb hs hlater
  have happlied' := happlied.grows hlate.grows
  refine ⟨happlied'.entry, ?_, ?_⟩
  · intro r hr hserver
    subst hserver
    exact happlied.applied.trans_le (hlate.since r hr)
  · intro r hr hkey hseen hother hlookup
    have hitem : s'.items[k]? = some (some request) := by
      rw [Service.items, List.getElem?_map, happlied'.entry]
      rfl
    have hfold : foldItems (Request.effect db) (s'.items.take r.upTo) request.key =
        request.written := by
      rw [foldItems_of_other_keys db hseen fun j other hj hlt => hother j other hj hlt,
        foldItems_take_succ _ hitem]
      exact (congrFun happlied'.effective request.key).trans (request.plainEffect_key _)
    rcases hlate.consistent.readsAgree.agree r hr hlookup with ⟨hfound, habsent⟩
    rw [hkey, hfold] at hfound habsent
    cases hwritten : request.written with
    | some value => exact (hfound value).mpr hwritten
    | none => exact habsent hwritten

/-- A put whose entry a follower applies before the leader does. -/
def followerFirstRun : List ServiceEvent :=
  [.world (.call 0 (.put [107] [118])), .world (.send 0), .configure, .append 0, .apply 2,
    .apply 2, .apply 1, .apply 1, .answer 0 1 "", .world (.reply 0), .world (.finish 0)]

/-- Once the put is acknowledged, its entry is in the log, and a later read at the
leader returns the value. -/
theorem acknowledged_put_is_visible :
    ∃ s s', runEvents (Service.step .littleEndian (.reliable Bytes Bytes)) followerFirstRun
        (Service.start twoServerClients) = .ok s ∧
      runEvents (Service.step .littleEndian (.reliable Bytes Bytes)) [.read 1 [107] none] s =
        .ok s' ∧
      s'.reads.map (fun r => (r.server, r.upTo, r.result)) = [(1, 2, ([118], 0))] ∧
      ∃ (request : Request) (server : Int32) (k : Nat), s.issued (0, 0) = some request ∧
        s'.history[k]? = some (some ((0, 0), request)) ∧ k < s.replicas.delivered server := by
  have hrun : ∃ s s', runEvents (Service.step .littleEndian (.reliable Bytes Bytes))
        followerFirstRun (Service.start twoServerClients) = .ok s ∧
      runEvents (Service.step .littleEndian (.reliable Bytes Bytes)) [.read 1 [107] none] s =
        .ok s' ∧
      s'.reads.map (fun r => (r.server, r.upTo, r.result)) = [(1, 2, ([118], 0))] ∧
      s.results = [((0, 0), .ok ⟨0, 0, ""⟩)] := ⟨_, _, rfl, rfl, rfl, rfl⟩
  rcases hrun with ⟨s, s', hrun, hlater, hreads, hresults⟩
  rcases acknowledged_mutation_is_visible .littleEndian _
    (SplinterDB.reliable_lawful Bytes Bytes) twoServerClients (by simp [twoServerClients]) _
    (by simp [followerFirstRun, Service.Promised]) s hrun (0, 0) ⟨0, 0, ""⟩ (by simp [hresults])
    rfl with ⟨request, server, k, hissued, -, happlied, hrest⟩
  exact ⟨s, s', hrun, hlater, hreads, request, server, k, hissued, (hrest _ s' hlater).1, happlied⟩

/-- Under the same conditions the log respects real time: when a call has
returned a success, one of its entries stands before every entry of every call
that has not started by then, however the rest of the run goes. -/
theorem acknowledged_mutation_precedes_later_calls (wire : WireFormat)
    (db : SplinterDB Bytes Bytes) (hdb : db.Lawful) (clients : Nat → Client)
    (hretries : ∀ p, (clients p).numRetries ≠ 0) (events : List ServiceEvent)
    (hcodes : ∀ event ∈ events, Service.Promised event) (s : Service)
    (hrun : runEvents (Service.step wire db) events (Service.start clients) = .ok s)
    (call : CallId) (result : MutationResult) (hresult : (call, .ok result) ∈ s.results)
    (hsuccess : isSuccess result = true) :
    ∃ (request : Request) (k : Nat), s.issued call = some request ∧
      s.history[k]? = some (some (call, request)) ∧
      ∀ later s', runEvents (Service.step wire db) later s = .ok s' →
        s'.history[k]? = some (some (call, request)) ∧
        ∀ other, s.issued other = none →
          ∀ (j : Nat) request', s'.history[j]? = some (some (other, request')) → k < j := by
  rcases acknowledged_of_success hdb hretries hcodes hrun hresult hsuccess with
    ⟨hs, request, server, k, happlied⟩
  refine ⟨request, k, happlied.issued, happlied.entry, ?_⟩
  intro later s' hlater
  have hlate := later_of_run hdb hs hlater
  refine ⟨(happlied.grows hlate.grows).entry, ?_⟩
  intro other hfresh j request' hentry
  have hk : k < s.history.length := (List.getElem?_eq_some_iff.mp happlied.entry).1
  by_cases hj : j < s.history.length
  · -- the log of the earlier state has no entry of a call that has not started
    exfalso
    rcases hlate.grows.history with ⟨more, hmore⟩
    rw [← hmore, List.getElem?_append_left hj] at hentry
    have hissued := hs.traced.history other request' (List.mem_of_getElem? hentry)
    rw [hfresh] at hissued
    cases hissued
  · omega

/-- A put that is acknowledged. -/
def firstPutRun : List ServiceEvent :=
  [.world (.call 0 (.put [107] [118])), .world (.send 0), .append 0, .apply 1, .answer 0 0 "",
    .world (.reply 0), .world (.finish 0)]

/-- Another client deletes the key afterwards: the entries stand in that order. -/
theorem acknowledged_puts_in_order :
    ∃ s s', runEvents (Service.step .littleEndian (.reliable Bytes Bytes)) firstPutRun
        (Service.start twoServerClients) = .ok s ∧
      runEvents (Service.step .littleEndian (.reliable Bytes Bytes))
        [.world (.call 1 (.delete [107])), .world (.send 1), .append 0] s = .ok s' ∧
      ∃ (k : Nat), k < 1 ∧ s'.history[k]? = some (some ((0, 0), .put [107] [118])) := by
  have hrun : ∃ s s', runEvents (Service.step .littleEndian (.reliable Bytes Bytes)) firstPutRun
        (Service.start twoServerClients) = .ok s ∧
      runEvents (Service.step .littleEndian (.reliable Bytes Bytes))
        [.world (.call 1 (.delete [107])), .world (.send 1), .append 0] s = .ok s' ∧
      s.results = [((0, 0), .ok ⟨0, 0, ""⟩)] ∧ s.issued (1, 0) = none ∧
      s.issued (0, 0) = some (.put [107] [118]) ∧
      s'.history[1]? = some (some ((1, 0), .delete [107])) :=
    ⟨_, _, rfl, rfl, rfl, rfl, rfl, rfl⟩
  rcases hrun with ⟨s, s', hrun, hlater, hresults, hfresh, hissued, hsecond⟩
  rcases acknowledged_mutation_precedes_later_calls .littleEndian _
    (SplinterDB.reliable_lawful Bytes Bytes) twoServerClients (by simp [twoServerClients]) _
    (by simp [firstPutRun, Service.Promised]) s hrun (0, 0) ⟨0, 0, ""⟩ (by simp [hresults]) rfl with
    ⟨request, k, hrequest, -, hrest⟩
  rcases hrest _ s' hlater with ⟨hentry, hbefore⟩
  rw [hissued, Option.some.injEq] at hrequest
  subst hrequest
  exact ⟨s, s', hrun, hlater, k, hbefore (1, 0) hfresh 1 _ hsecond, hentry⟩

end ReplicatedSplinterDB
