import ReplicatedSplinterDB.Server.Operation
import ReplicatedSplinterDB.External.Storage

/-!
# The SplinterDB state machine

NuRaft hands each committed log entry to the state machine in log order:
application entries to {lit}`commit`, configuration changes to
{lit}`commit_config`.  A commit decodes the payload, calls one storage
primitive, moves the commit counter and returns the primitive's code in a
buffer.  A state machine keeps its state when a commit throws, so the model
passes the state along both ways out.

Main results:

- Theorem {lit}`commit_of_deserialize`: the outcome of a commit of a decodable
  payload.
- Theorem {lit}`commit_eq_ok`: what every commit that returns has done.
- Theorem {lit}`commit_accepts_exactly_grammar`: which payloads a commit accepts,
  and that it does all of its work or none.
-/

namespace ReplicatedSplinterDB

open Foundation

/-- The members of the state machine that commits work on. -/
structure StateMachine where
  splHandle : Handle Bytes Bytes
  lastCommittedIdx : Nat
  commitThreadInitialized : Bool

namespace StateMachine

/-- A state machine on a freshly created database. -/
def create : StateMachine := ⟨Handle.create Bytes Bytes, 0, false⟩

/-- The first commit registers its thread with SplinterDB. -/
def registerCommitThread (sm : StateMachine) : StateMachine :=
  { sm with commitThreadInitialized := true }

/-- The key-value contents that reads observe. -/
def contents (sm : StateMachine) : KVMap Bytes Bytes := sm.splHandle.contents

/-- The index of the last committed log entry. -/
def lastCommitIndex (sm : StateMachine) : Nat := sm.lastCommittedIdx

end StateMachine

/-! ## Commits -/

/-- The switch over the operation type: which primitive is called, and with
which bytes. -/
def Operation.primitive (op : Operation) : Except Exception (StorageCall Bytes Bytes) :=
  match htype : op.type with
  | .put =>
      .ok (.insert op.key.data (op.valueOf (by simp [htype, OperationType.carriesValue])).data)
  | .update =>
      .ok (.update op.key.data (op.valueOf (by simp [htype, OperationType.carriesValue])).data)
  | .delete => .ok (.delete op.key.data)
  | .unknown _ _ => .error (.runtimeError "Unknown operation type.")

section Commit

variable (wire : WireFormat) (db : SplinterDB Bytes Bytes)

/-- The buffer that carries a return code back to the Raft layer. -/
def encodeResult (retCode : Int32) : Except Exception Buffer :=
  liftBuffer ((put wire.i32 retCode (Buffer.alloc 4)).map fun r => r.2.rewind)

/-- Commit one application entry. -/
def commit (logIdx : Nat) (buf : Buffer) : EStateM Exception StateMachine Buffer := fun sm =>
  let sm := sm.registerCommitThread
  match Operation.deserialize wire buf with
  | .error e => .error e sm
  | .ok operation =>
      match operation.primitive with
      | .error e => .error e sm
      | .ok call =>
          let (retCode, handle) := sm.splHandle.call db call
          let sm := { sm with splHandle := handle, lastCommittedIdx := logIdx }
          match encodeResult wire retCode with
          | .error e => .error e sm
          | .ok ret => .ok ret sm

/-- Commit one configuration change. -/
def commitConfig (logIdx : Nat) (sm : StateMachine) : StateMachine :=
  { sm with lastCommittedIdx := logIdx }

/-- The return code that a result buffer carries. -/
def resultCode (ret : Buffer) : Int32 := wire.i32.decode ret.bytes

theorem encodeResult_eq (retCode : Int32) :
    encodeResult wire retCode = .ok (Buffer.ofBytes (wire.i32.encode retCode)) := by
  have hlen : (wire.i32.encode retCode).length = 4 := wire.i32.encode_length retCode
  rcases ((writes_put wire.i32 retCode).run_alloc 4).1 (Nat.le_of_eq hlen) with
    ⟨b, hrun, hbytes, hsize, -⟩
  have hfull : b.Full := by
    unfold Buffer.Full
    rw [hbytes, hsize, hlen]
  unfold encodeResult
  rw [hrun, ← hbytes, ← hfull.rewind_eq]
  rfl

@[simp] theorem resultCode_encode (retCode : Int32) :
    resultCode wire (Buffer.ofBytes (wire.i32.encode retCode)) = retCode :=
  wire.i32.decode_encode retCode

/-- A commit whose payload decodes to an operation of a known type calls its
primitive once, whatever the primitive returns. -/
theorem commit_of_deserialize {buf : Buffer} {op : Operation} {call : StorageCall Bytes Bytes}
    (hop : Operation.deserialize wire buf = .ok op) (hcall : op.primitive = .ok call)
    (logIdx : Nat) (sm : StateMachine) :
    (commit wire db logIdx buf).run sm =
      .ok (Buffer.ofBytes (wire.i32.encode (sm.splHandle.call db call).1))
        ⟨(sm.splHandle.call db call).2, logIdx, true⟩ := by
  simp only [EStateM.run, commit, hop, hcall, encodeResult_eq]
  rfl

/-- Every commit that returns has decoded its payload to an operation, called
that operation's primitive once and moved the counter. -/
theorem commit_eq_ok {logIdx : Nat} {buf ret : Buffer} {sm sm' : StateMachine}
    (h : (commit wire db logIdx buf).run sm = .ok ret sm') :
    ∃ op call, Operation.deserialize wire buf = .ok op ∧ op.primitive = .ok call ∧
      resultCode wire ret = (sm.splHandle.call db call).1 ∧
      sm' = ⟨(sm.splHandle.call db call).2, logIdx, true⟩ := by
  cases hop : Operation.deserialize wire buf with
  | error e => simp [EStateM.run, commit, hop] at h
  | ok op =>
      cases hcall : op.primitive with
      | error e => simp [EStateM.run, commit, hop, hcall] at h
      | ok call =>
          rw [commit_of_deserialize wire db hop hcall] at h
          cases h
          exact ⟨op, call, rfl, hcall, resultCode_encode wire _, rfl⟩

/-- A commit that throws has changed neither the database nor the counter. -/
theorem commit_eq_error {logIdx : Nat} {buf : Buffer} {e : Exception} {sm sm' : StateMachine}
    (h : (commit wire db logIdx buf).run sm = .error e sm') :
    sm'.splHandle = sm.splHandle ∧ sm'.lastCommittedIdx = sm.lastCommittedIdx := by
  cases hop : Operation.deserialize wire buf with
  | error e' =>
      simp only [EStateM.run, commit, hop] at h
      cases h
      exact ⟨rfl, rfl⟩
  | ok op =>
      cases hcall : op.primitive with
      | error e' =>
          simp only [EStateM.run, commit, hop, hcall] at h
          cases h
          exact ⟨rfl, rfl⟩
      | ok call =>
          rw [commit_of_deserialize wire db hop hcall] at h
          cases h

end Commit

/-! ## The payloads that a commit accepts -/

section Grammar

variable (wire : WireFormat)

/-- A byte string behind its length. -/
def lengthPrefixed (data : Bytes) : Bytes := wire.u64.encode (UInt64.ofNat data.length) ++ data

/-- The byte strings of the three operations, with the primitive that each of
them stands for. -/
inductive Spells : Bytes → StorageCall Bytes Bytes → Prop
  | put (key value : Bytes) (hkey : key.length < 2 ^ 64) (hvalue : value.length < 2 ^ 64) :
      Spells (wire.u8.encode 0 ++ lengthPrefixed wire key ++ lengthPrefixed wire value)
        (.insert key value)
  | update (key value : Bytes) (hkey : key.length < 2 ^ 64) (hvalue : value.length < 2 ^ 64) :
      Spells (wire.u8.encode 1 ++ lengthPrefixed wire key ++ lengthPrefixed wire value)
        (.update key value)
  | delete (key : Bytes) (hkey : key.length < 2 ^ 64) :
      Spells (wire.u8.encode 2 ++ lengthPrefixed wire key) (.delete key)

variable {wire}

/-- The grammar is that of the encodings of operations of a known type. -/
theorem spells_iff (bytes : Bytes) (call : StorageCall Bytes Bytes) :
    Spells wire bytes call ↔
      ∃ op : Operation, op.FieldsFit ∧ bytes = op.encode wire ∧ op.primitive = .ok call := by
  constructor
  · rintro (⟨key, value, hkey, hvalue⟩ | ⟨key, value, hkey, hvalue⟩ | ⟨key, hkey⟩)
    · refine ⟨.makePut ⟨key⟩ ⟨value⟩, ⟨hkey, ?_⟩, ?_, rfl⟩
      · rintro v ⟨⟩
        exact hvalue
      · rw [List.append_assoc]
        rfl
    · refine ⟨.makeUpdate ⟨key⟩ ⟨value⟩, ⟨hkey, ?_⟩, ?_, rfl⟩
      · rintro v ⟨⟩
        exact hvalue
      · rw [List.append_assoc]
        rfl
    · refine ⟨.makeDelete ⟨key⟩, ⟨hkey, ?_⟩, ?_, rfl⟩
      · rintro v ⟨⟩
      · rw [Operation.encode, Operation.makeDelete, List.append_nil]
        rfl
  · rintro ⟨⟨key, value, type, hvalue⟩, hfits, rfl, hcall⟩
    cases value with
    | none =>
        cases type with
        | put => cases hvalue
        | update => cases hvalue
        | delete =>
            cases hcall
            have hspells : Spells wire _ _ := .delete key.data hfits.1
            rw [Operation.encode, List.append_nil]
            exact hspells
        | unknown code h => cases hcall
    | some v =>
        cases type with
        | put =>
            cases hcall
            have hspells : Spells wire _ _ := .put key.data v.data hfits.1 (hfits.2 v rfl)
            rw [List.append_assoc] at hspells
            exact hspells
        | update =>
            cases hcall
            have hspells : Spells wire _ _ := .update key.data v.data hfits.1 (hfits.2 v rfl)
            rw [List.append_assoc] at hspells
            exact hspells
        | delete => cases hvalue
        | unknown code h => cases hvalue

/-- A payload that begins with a spelled call is decoded to an operation with
that encoding and that primitive. -/
theorem deserialize_of_spells {payload bytes : Bytes} {call : StorageCall Bytes Bytes}
    (hspells : Spells wire bytes call) (hbegin : bytes <+: payload) :
    ∃ op, Operation.deserialize wire (.ofBytes payload) = .ok op ∧ op.primitive = .ok call ∧
      op.encode wire = bytes := by
  rcases (spells_iff bytes call).mp hspells with ⟨op, hfits, rfl, hcall⟩
  exact ⟨op, (Operation.deserialize_eq_ok_iff wire payload op).mpr ⟨hfits, hbegin⟩, hcall, rfl⟩

end Grammar

/-- For every byte string, every log index and every state: a commit throws if and
only if the payload does not begin with the bytes of an operation, and then the
database and the counter are as before.  Otherwise it calls the one primitive
that those bytes spell, whatever follows them, sets the counter to the index, and
serializing the decoded operation gives those bytes back.  The decoder returns no
put or update without a value. -/
theorem commit_accepts_exactly_grammar (wire : WireFormat) (db : SplinterDB Bytes Bytes)
    (payload : Bytes) (logIdx : Nat) (sm : StateMachine) :
    ((∃ e sm', (commit wire db logIdx (.ofBytes payload)).run sm = .error e sm') ↔
      ¬ ∃ bytes call, Spells wire bytes call ∧ bytes <+: payload) ∧
    (∀ e sm', (commit wire db logIdx (.ofBytes payload)).run sm = .error e sm' →
      sm'.splHandle = sm.splHandle ∧ sm'.lastCommitIndex = sm.lastCommitIndex) ∧
    (∀ bytes call, Spells wire bytes call → bytes <+: payload →
      ∃ op ret sm', Operation.deserialize wire (.ofBytes payload) = .ok op ∧
        (commit wire db logIdx (.ofBytes payload)).run sm = .ok ret sm' ∧
        sm'.splHandle = (sm.splHandle.call db call).2 ∧
        sm'.splHandle.calls = sm.splHandle.calls ++ [call] ∧
        sm'.lastCommitIndex = logIdx ∧ op.encode wire = bytes ∧
        (payload.length < 2 ^ 64 → op.serialize wire = .ok (.ofBytes bytes))) ∧
    (∀ op, Operation.deserialize wire (.ofBytes payload) = .ok op →
      op.type = .put ∨ op.type = .update → op.value.isSome = true) := by
  refine ⟨?_, ?_, ?_, ?_⟩
  · constructor
    · rintro ⟨e, sm', hrun⟩ ⟨bytes, call, hspells, hbegin⟩
      rcases deserialize_of_spells hspells hbegin with ⟨op, hop, hcall, -⟩
      rw [commit_of_deserialize wire db hop hcall] at hrun
      cases hrun
    · intro hnone
      cases hrun : (commit wire db logIdx (.ofBytes payload)).run sm with
      | error e sm' => exact ⟨e, sm', rfl⟩
      | ok ret sm' =>
          rcases commit_eq_ok wire db hrun with ⟨op, call, hop, hcall, -, -⟩
          rcases (Operation.deserialize_eq_ok_iff wire payload op).mp hop with ⟨hfits, hbegin⟩
          exact absurd ⟨_, call, (spells_iff _ call).mpr ⟨op, hfits, rfl, hcall⟩, hbegin⟩ hnone
  · intro e sm' hrun
    exact commit_eq_error wire db hrun
  · intro bytes call hspells hbegin
    rcases deserialize_of_spells hspells hbegin with ⟨op, hop, hcall, rfl⟩
    refine ⟨op, _, _, hop, commit_of_deserialize wire db hop hcall logIdx sm, rfl,
      Handle.call_calls db sm.splHandle call, rfl, rfl, ?_⟩
    intro hlen
    have hsize := hbegin.length_le
    rw [Operation.encode_length] at hsize
    exact (op.serialize_eq_ok_iff wire _).mpr ⟨Nat.lt_of_le_of_lt hsize hlen, rfl⟩
  · rintro op - (htype | htype)
    · rw [op.value_isSome, htype]
      rfl
    · rw [op.value_isSome, htype]
      rfl

/-- A put with two bytes behind it is committed; an unknown type with a whole key
behind it is refused and leaves no trace. -/
theorem commit_accepts_exactly_grammar_trailing :
    (∃ ret sm', (commit .littleEndian (.reliable Bytes Bytes) 7
        (.ofBytes ([0] ++ lengthPrefixed .littleEndian [107] ++
          lengthPrefixed .littleEndian [118] ++ [1, 2]))).run .create = .ok ret sm' ∧
      sm'.splHandle.calls = [.insert [107] [118]] ∧ sm'.lastCommitIndex = 7) ∧
    (∃ e sm', (commit .littleEndian (.reliable Bytes Bytes) 7
        (.ofBytes ([3] ++ lengthPrefixed .littleEndian [107]))).run .create = .error e sm' ∧
      sm'.splHandle = StateMachine.create.splHandle ∧ sm'.lastCommitIndex = 0) := by
  constructor
  · rcases (commit_accepts_exactly_grammar .littleEndian (.reliable Bytes Bytes)
      ([0] ++ lengthPrefixed .littleEndian [107] ++ lengthPrefixed .littleEndian [118] ++ [1, 2])
      7 .create).2.2.1 _ _ (.put [107] [118] (by decide) (by decide)) ⟨[1, 2], rfl⟩ with
      ⟨op, ret, sm', -, hrun, -, hcalls, hindex, -, -⟩
    exact ⟨ret, sm', hrun, hcalls, hindex⟩
  · refine ⟨_, _, rfl, ?_⟩
    exact (commit_accepts_exactly_grammar .littleEndian (.reliable Bytes Bytes)
      ([3] ++ lengthPrefixed .littleEndian [107]) 7 .create).2.1 _ _ rfl

end ReplicatedSplinterDB
