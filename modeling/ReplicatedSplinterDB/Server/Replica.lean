import ReplicatedSplinterDB.Server.StateMachine

/-!
# Replicas and the server's handlers

A replica reads from its own state machine and appends serialized operations
to the Raft log.  The server binds one RPC handler to each request kind; a
mutation handler builds an operation, appends it and turns the Raft result into
the reply of the client protocol.

Main results:

- Theorem {lit}`read_eq_iff`: a read returns a value and code zero exactly for
  the value that the contents bind to the key.
- Theorem {lit}`server_reply_faithful_iff`: a reply carries the code of the state
  machine, and for which Raft results it does not look like a success that never
  happened.
- Theorem {lit}`handlerAppends_iff`: the payload that the handler of a request
  appends is the encoding of the operation that the handler builds.
- Theorem {lit}`requests_reach_matching_primitive_iff`: a sequence of requests
  reaches the matching primitives if and only if no request is an update.
-/

namespace ReplicatedSplinterDB

open Foundation

/-! ## Reads -/

section Read

variable (db : SplinterDB Bytes Bytes)

/-- {lit}`replica::read`: look a key up and return its value with code zero, or
an empty slice with the code of the call that failed. -/
def read (sm : StateMachine) (key : Bytes) : OwnedSlice × Int32 :=
  let (rc, result) := db.lookup sm.contents key
  if rc ≠ 0 then (⟨[]⟩, rc)
  else
    match db.lookupResultValue result with
    | .error rc => (⟨[]⟩, rc)
    | .ok value => (⟨value⟩, 0)

/-- The reply of the handler for gets. -/
def handleGet (sm : StateMachine) (key : Bytes) : Bytes × Int32 :=
  let (slice, rc) := read db sm key
  if rc = 0 then (slice.data, 0) else ([], rc)

variable {db}

/-- When the lookup itself succeeds, a read finds exactly what the contents
bind, and an absent key gives an empty slice and a nonzero code. -/
theorem read_eq_iff (hdb : db.Lawful) (sm : StateMachine) (key : Bytes)
    (hlookup : (db.lookup sm.contents key).1 = 0) :
    (∀ value, read db sm key = (⟨value⟩, 0) ↔ sm.contents key = some value) ∧
      (sm.contents key = none → (read db sm key).1 = ⟨[]⟩ ∧ (read db sm key).2 ≠ 0) := by
  have hfound := hdb.lookup_ok sm.contents key hlookup
  cases hkey : sm.contents key with
  | none =>
      have hread : read db sm key = (⟨[]⟩, db.absentCode) := by
        simp [read, hlookup, hfound, hkey, SplinterDB.lookupResultValue]
      simp [hread, hdb.absentCode_ne_zero]
  | some v =>
      have hread : read db sm key = (⟨v⟩, 0) := by
        simp [read, hlookup, hfound, hkey, SplinterDB.lookupResultValue]
      simp [hread]

end Read

/-! ## Appending to the log -/

/-- How {lit}`append_entries` hands its result back. -/
inductive ReturnMethod where
  | blocking
  | asyncHandler
deriving DecidableEq, Repr

/-- The Raft server that a replica appends to, with a state of its own. -/
structure RaftServer (ρ : Type) where
  appendEntries : List Buffer → ρ → RaftResult × ρ

section Handlers

variable {ρ : Type} (wire : WireFormat) (raft : RaftServer ρ) (method : ReturnMethod)

/-- {lit}`replica::append_log`: serialize an operation and append it as one
entry. -/
def appendLog (op : Operation) : EStateM Exception ρ RaftResult := fun s =>
  match op.serialize wire with
  | .error e => .error e s
  | .ok newLog =>
      let (ret, s) := raft.appendEntries [newLog] s
      match method with
      | .blocking => .ok ret s
      | .asyncHandler => .error (.runtimeError "async handler not implemented") s

/-- Turn a Raft result into the reply to the client. -/
def extractResult (result : RaftResult) : Except Exception MutationResult :=
  if result.accepted = false then
    .ok ⟨0, result.resultCode, result.resultStr⟩
  else if result.hasResult = false then
    .ok ⟨0, result.resultCode, result.resultStr⟩
  else
    match result.result with
    | none => .ok ⟨0, result.resultCode, result.resultStr⟩
    | some buf => do
        let (splRc, _) ← liftBuffer (get wire.i32 buf)
        return ⟨splRc, result.resultCode, result.resultStr⟩

/-- The operation that the handler bound to each request kind builds. -/
def handlerOperation : Request → Operation
  | .put key value => .makePut ⟨key⟩ ⟨value⟩
  | .delete key => .makeDelete ⟨key⟩
  | .update key value => .makePut ⟨key⟩ ⟨value⟩

/-- The handlers for puts, deletes and updates. -/
def handleMutation (request : Request) : EStateM Exception ρ MutationResult := fun s =>
  match (appendLog wire raft method (handlerOperation request)).run s with
  | .error e s => .error e s
  | .ok result s =>
      match extractResult wire result with
      | .error e => .error e s
      | .ok reply => .ok reply s

/-- The state in which a computation ends, by returning or by throwing. -/
def finalState {ε σ α : Type} : EStateM.Result ε σ α → σ
  | .ok _ s => s
  | .error _ s => s

/-- A handler hands the Raft server one entry, or nothing if it fails before. -/
theorem handleMutation_appends_once (request : Request) (s : ρ) :
    finalState ((handleMutation wire raft method request).run s) = s ∨
      ∃ newLog, finalState ((handleMutation wire raft method request).run s) =
        (raft.appendEntries [newLog] s).2 := by
  unfold EStateM.run handleMutation EStateM.run appendLog
  cases (handlerOperation request).serialize wire with
  | error e => exact .inl rfl
  | ok newLog =>
      refine .inr ⟨newLog, ?_⟩
      cases method with
      | asyncHandler => rfl
      | blocking =>
          dsimp only
          cases extractResult wire (raft.appendEntries [newLog] s).1 with
          | error e => rfl
          | ok reply => rfl

end Handlers

/-! ## Replies -/

/-- A reply to this Raft result looks like a success only if the request was
accepted and the state machine returned a buffer that encodes zero. -/
def ReplyIsFaithful (wire : WireFormat) (result : RaftResult) : Prop :=
  ∀ reply, extractResult wire result = .ok reply → isSuccess reply = true →
    result.accepted = true ∧ result.hasResult = true ∧
      ∃ buf rest, result.result = some buf ∧ get wire.i32 buf = .ok (0, rest)

/-- The reply that carries the result buffer of a commit has its code. -/
theorem extractResult_encode (wire : WireFormat) (retCode raftCode : Int32) (msg : String) :
    extractResult wire
        ⟨true, true, raftCode, msg, some (.ofBytes (wire.i32.encode retCode))⟩ =
      .ok ⟨retCode, raftCode, msg⟩ := by
  rcases reads_get wire.i32 retCode (.ofBytes (wire.i32.encode retCode)) [] (by simp) with
    ⟨rest, hget, -, -, -⟩
  simp only [extractResult, hget, liftBuffer_ok]
  rfl

/-- A reply that is made without reading a buffer. -/
theorem extractResult_of_not_read (wire : WireFormat) {result : RaftResult}
    (h : ¬ (result.accepted = true ∧ result.hasResult = true ∧ result.result.isSome = true)) :
    extractResult wire result = .ok ⟨0, result.resultCode, result.resultStr⟩ := by
  rcases result with ⟨accepted, hasResult, resultCode, resultStr, result⟩
  cases accepted with
  | false => rfl
  | true =>
      cases hasResult with
      | false => rfl
      | true =>
          cases result with
          | none => rfl
          | some buf => simp at h

theorem replyIsFaithful_iff (wire : WireFormat) (result : RaftResult) :
    ReplyIsFaithful wire result ↔
      result.resultCode ≠ 0 ∨
        (result.accepted = true ∧ result.hasResult = true ∧ result.result.isSome = true) := by
  by_cases hread : result.accepted = true ∧ result.hasResult = true ∧ result.result.isSome = true
  · refine iff_of_true ?_ (.inr hread)
    rcases result with ⟨accepted, hasResult, resultCode, resultStr, result⟩
    rcases hread with ⟨rfl, rfl, hsome⟩
    rcases Option.isSome_iff_exists.mp hsome with ⟨buf, rfl⟩
    intro reply hreply hsuccess
    cases hget : get wire.i32 buf with
    | error e =>
        simp only [extractResult, hget] at hreply
        cases hreply
    | ok read =>
        rcases read with ⟨code, rest⟩
        simp only [extractResult, hget] at hreply
        cases hreply
        have hzero : code = 0 := ((isSuccess_iff _).mp hsuccess).1
        exact ⟨rfl, rfl, buf, rest, rfl, by rw [← hzero]; exact hget⟩
  · have hreply := extractResult_of_not_read wire hread
    constructor
    · intro hfaithful
      left
      intro hzero
      rcases hfaithful _ hreply ((isSuccess_iff _).mpr ⟨rfl, hzero⟩) with
        ⟨haccepted, hresult, buf, rest, hbuf, -⟩
      exact hread ⟨haccepted, hresult, by rw [hbuf]; rfl⟩
    · rintro (hcode | hcontra) reply hreply' hsuccess
      · rw [hreply] at hreply'
        cases hreply'
        exact absurd ((isSuccess_iff _).mp hsuccess).2 hcode
      · exact absurd hcontra hread

/-- For every payload that a commit accepts, the reply to the Raft result that
carries the commit's buffer has the code that the primitive returned.  For every
Raft result, the reply looks like a success only if the request was accepted and
the state machine returned a buffer that encodes zero, if and only if the result
code is not zero or the request was accepted and came back with a buffer. -/
theorem server_reply_faithful_iff (wire : WireFormat) :
    (∀ (db : SplinterDB Bytes Bytes) (logIdx : Nat) (buf : Buffer) (sm : StateMachine)
      (op : Operation) (call : StorageCall Bytes Bytes),
      Operation.deserialize wire buf = .ok op → op.primitive = .ok call →
      ∃ ret sm', (commit wire db logIdx buf).run sm = .ok ret sm' ∧
        ∀ raftCode msg, extractResult wire ⟨true, true, raftCode, msg, some ret⟩ =
          .ok ⟨(sm.splHandle.call db call).1, raftCode, msg⟩) ∧
    (∀ result : RaftResult, ReplyIsFaithful wire result ↔
      result.resultCode ≠ 0 ∨
        (result.accepted = true ∧ result.hasResult = true ∧ result.result.isSome = true)) := by
  refine ⟨?_, replyIsFaithful_iff wire⟩
  intro db logIdx buf sm op call hop hcall
  refine ⟨_, _, commit_of_deserialize wire db hop hcall logIdx sm, ?_⟩
  intro raftCode msg
  exact extractResult_encode wire _ raftCode msg

/-- The reply to a committed put, and to a request that was cancelled. -/
theorem server_reply_faithful_put :
    (∃ ret sm', (commit .littleEndian (.reliable Bytes Bytes) 1
        (.ofBytes ((Operation.makePut ⟨[107]⟩ ⟨[118]⟩).encode .littleEndian))).run .create =
          .ok ret sm' ∧
      extractResult .littleEndian ⟨true, true, 0, "", some ret⟩ = .ok ⟨0, 0, ""⟩) ∧
    ReplyIsFaithful .littleEndian ⟨false, false, -1, "cancelled", none⟩ := by
  have h := server_reply_faithful_iff .littleEndian
  constructor
  · rcases h.1 (.reliable Bytes Bytes) 1
      (.ofBytes ((Operation.makePut ⟨[107]⟩ ⟨[118]⟩).encode .littleEndian)) .create
      (.makePut ⟨[107]⟩ ⟨[118]⟩) (.insert [107] [118]) rfl rfl with ⟨ret, sm', hrun, hreply⟩
    exact ⟨ret, sm', hrun, hreply 0 ""⟩
  · exact (h.2 _).mpr (.inl (by decide))

/-- A request that was not accepted and carries the result code zero is answered
like a success, and so is one that came back without a buffer. -/
theorem refused_append_is_answered_as_success :
    extractResult .littleEndian ⟨false, true, 0, "", none⟩ = .ok ⟨0, 0, ""⟩ ∧
    extractResult .littleEndian ⟨true, true, 0, "", none⟩ = .ok ⟨0, 0, ""⟩ ∧
    isSuccess ⟨0, 0, ""⟩ = true ∧
    ¬ ReplyIsFaithful .littleEndian ⟨false, true, 0, "", none⟩ ∧
    ¬ ReplyIsFaithful .littleEndian ⟨true, true, 0, "", none⟩ := by
  refine ⟨rfl, rfl, rfl, ?_, ?_⟩
  · intro h
    cases (h ⟨0, 0, ""⟩ rfl rfl).1
  · intro h
    rcases (h ⟨0, 0, ""⟩ rfl rfl).2.2 with ⟨buf, rest, hbuf, -⟩
    cases hbuf

/-! ## The payload of a request -/

/-- A Raft server that keeps the entries it is given and refuses them all. -/
def recorder : RaftServer (List Buffer) where
  appendEntries entries s := (⟨false, false, 0, "", none⟩, s ++ entries)

/-- The handler of the request appends one entry with this payload. -/
def HandlerAppends (wire : WireFormat) (request : Request) (payload : Bytes) : Prop :=
  ∃ reply, (handleMutation wire recorder .blocking request).run [] =
    .ok reply [Buffer.ofBytes payload]

/-- A handler appends the encoding of its operation, provided that the size of
the encoding does not wrap. -/
theorem handlerAppends_iff (wire : WireFormat) (request : Request) (payload : Bytes) :
    HandlerAppends wire request payload ↔
      (handlerOperation request).encodedSize < OwnedSlice.sizeModulus ∧
        payload = (handlerOperation request).encode wire := by
  constructor
  · rintro ⟨reply, h⟩
    unfold EStateM.run handleMutation EStateM.run appendLog at h
    cases hser : (handlerOperation request).serialize wire with
    | error e =>
        rw [hser] at h
        cases h
    | ok b =>
        rcases (Operation.serialize_eq_ok_iff wire _ b).mp hser with ⟨hsize, rfl⟩
        refine ⟨hsize, ?_⟩
        rw [hser] at h
        injection h with _ hstate
        have hbuf := List.singleton_inj.mp hstate
        exact (congrArg Buffer.bytes hbuf).symm
  · rintro ⟨hsize, rfl⟩
    have hser := (Operation.serialize_eq_ok_iff wire _ _).mpr ⟨hsize, rfl⟩
    refine ⟨⟨0, 0, ""⟩, ?_⟩
    unfold EStateM.run handleMutation EStateM.run appendLog
    rw [hser]
    rfl

/-- The primitive that the committed entry of a request reaches. -/
def reachedCall : Request → StorageCall Bytes Bytes
  | .put key value => .insert key value
  | .delete key => .delete key
  | .update key value => .insert key value

/-- Committing the entry of a request calls one primitive on the request's own
bytes. -/
theorem commit_handlerAppends {wire : WireFormat} {request : Request} {payload : Bytes}
    (hpayload : HandlerAppends wire request payload) (db : SplinterDB Bytes Bytes)
    (logIdx : Nat) (sm : StateMachine) :
    (commit wire db logIdx (.ofBytes payload)).run sm =
      .ok (Buffer.ofBytes (wire.i32.encode (sm.splHandle.call db (reachedCall request)).1))
        ⟨(sm.splHandle.call db (reachedCall request)).2, logIdx, true⟩ := by
  rcases (handlerAppends_iff wire request payload).mp hpayload with ⟨hsize, rfl⟩
  have hop := Operation.deserialize_encode_append wire
    (Operation.fieldsFit_of_encodedSize_lt hsize) []
  rw [List.append_nil] at hop
  apply commit_of_deserialize wire db hop
  cases request <;> rfl

/-! ## Requests and primitives -/

/-- The primitive that belongs to each request kind. -/
def matchingCall : Request → StorageCall Bytes Bytes
  | .put key value => .insert key value
  | .update key value => .update key value
  | .delete key => .delete key

/-- The request is an update. -/
def Request.IsUpdate : Request → Prop
  | .update _ _ => True
  | _ => False

theorem reachedCall_eq_matchingCall_iff (request : Request) :
    reachedCall request = matchingCall request ↔ ¬ request.IsUpdate := by
  cases request <;> simp [reachedCall, matchingCall, Request.IsUpdate]

/-- Commit a sequence of payloads, from one log index on. -/
def commitAll (wire : WireFormat) (db : SplinterDB Bytes Bytes) :
    Nat → List Bytes → StateMachine → Except Exception StateMachine
  | _, [], sm => .ok sm
  | logIdx, payload :: payloads, sm =>
      match (commit wire db logIdx (.ofBytes payload)).run sm with
      | .error e _ => .error e
      | .ok _ sm => commitAll wire db (logIdx + 1) payloads sm

/-- Committing the entries of a sequence of requests calls one primitive for
each, in order. -/
theorem commitAll_calls {wire : WireFormat} {requests : List Request} {payloads : List Bytes}
    (hpayloads : List.Forall₂ (HandlerAppends wire) requests payloads)
    (db : SplinterDB Bytes Bytes) (logIdx : Nat) (sm : StateMachine) :
    ∃ sm', commitAll wire db logIdx payloads sm = .ok sm' ∧
      sm'.splHandle.calls = sm.splHandle.calls ++ requests.map reachedCall := by
  induction hpayloads generalizing logIdx sm with
  | nil => exact ⟨sm, rfl, by simp⟩
  | cons hpayload _ ih =>
      have hcommit := commit_handlerAppends hpayload db logIdx sm
      rcases ih (logIdx + 1) ⟨(sm.splHandle.call db _).2, logIdx, true⟩ with ⟨sm', hrun, hcalls⟩
      refine ⟨sm', ?_, ?_⟩
      · simp only [commitAll, hcommit]
        exact hrun
      · rw [hcalls]
        simp

/-- For every sequence of requests and the entries that their handlers append,
on any replica and any storage: committing the entries in order succeeds, and
it calls exactly the primitives that belong to the requests if and only if no
request is an update. -/
theorem requests_reach_matching_primitive_iff (wire : WireFormat) (requests : List Request)
    (payloads : List Bytes) (hpayloads : List.Forall₂ (HandlerAppends wire) requests payloads)
    (db : SplinterDB Bytes Bytes) (logIdx : Nat) (sm : StateMachine) :
    ∃ sm', commitAll wire db logIdx payloads sm = .ok sm' ∧
      (sm'.splHandle.calls = sm.splHandle.calls ++ requests.map matchingCall ↔
        ∀ request ∈ requests, ¬ request.IsUpdate) := by
  rcases commitAll_calls hpayloads db logIdx sm with ⟨sm', hrun, hcalls⟩
  refine ⟨sm', hrun, ?_⟩
  rw [hcalls, List.append_cancel_left_eq, List.map_inj_left]
  constructor
  · intro h request hmem
    exact (reachedCall_eq_matchingCall_iff request).mp (h request hmem)
  · intro h request hmem
    exact (reachedCall_eq_matchingCall_iff request).mpr (h request hmem)

/-- A put and a delete reach their primitives. -/
theorem requests_reach_matching_primitive_put_delete :
    ∃ sm', commitAll .littleEndian (.reliable Bytes Bytes) 1
        [(Operation.makePut ⟨[107]⟩ ⟨[]⟩).encode .littleEndian,
          (Operation.makeDelete ⟨[]⟩).encode .littleEndian] .create = .ok sm' ∧
      sm'.splHandle.calls = [.insert [107] [], .delete []] := by
  have hpayloads : List.Forall₂ (HandlerAppends .littleEndian)
      [.put [107] [], .delete []]
      [(Operation.makePut ⟨[107]⟩ ⟨[]⟩).encode .littleEndian,
        (Operation.makeDelete ⟨[]⟩).encode .littleEndian] := by
    refine .cons ?_ (.cons ?_ .nil)
    · exact (handlerAppends_iff _ _ _).mpr ⟨by decide, rfl⟩
    · exact (handlerAppends_iff _ _ _).mpr ⟨by decide, rfl⟩
  rcases requests_reach_matching_primitive_iff .littleEndian _ _ hpayloads
    (.reliable Bytes Bytes) 1 .create with ⟨sm', hrun, hcalls⟩
  exact ⟨sm', hrun, hcalls.mpr (by simp [Request.IsUpdate])⟩

/-- An update of one key reaches the insert primitive and not the update
primitive. -/
theorem update_reaches_insert :
    HandlerAppends .littleEndian (.update [107] [118])
        ((Operation.makePut ⟨[107]⟩ ⟨[118]⟩).encode .littleEndian) ∧
      (∃ ret sm', (commit .littleEndian (.reliable Bytes Bytes) 1
          (.ofBytes ((Operation.makePut ⟨[107]⟩ ⟨[118]⟩).encode .littleEndian))).run .create =
            .ok ret sm' ∧
        sm'.splHandle.calls = [.insert [107] [118]] ∧
        sm'.splHandle.calls ≠ [matchingCall (.update [107] [118])]) := by
  have hpayload : HandlerAppends .littleEndian (.update [107] [118])
      ((Operation.makePut ⟨[107]⟩ ⟨[118]⟩).encode .littleEndian) :=
    (handlerAppends_iff _ _ _).mpr ⟨by decide, rfl⟩
  refine ⟨hpayload, _, _, commit_handlerAppends hpayload _ 1 .create, ?_, ?_⟩
  · rfl
  · intro h
    have hcall : ([.insert [107] [118]] : List (StorageCall Bytes Bytes)) =
        [.update [107] [118]] := h
    simp at hcall

end ReplicatedSplinterDB
