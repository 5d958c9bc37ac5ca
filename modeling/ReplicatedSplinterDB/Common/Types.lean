import ReplicatedSplinterDB.Foundation.ByteBuffer

/-!
# Common types

The result tuples that servers send to clients, the three mutation requests of
the client protocol, the exceptions that the modelled code raises, and the size
that a vector can have.
-/

namespace ReplicatedSplinterDB

open Foundation

/-- Exceptions and abnormal ends of the modelled code. -/
inductive Exception where
  /-- A {lit}`std::runtime_error` with its message. -/
  | runtimeError (what : String)
  /-- A buffer access that the buffer layer refuses. -/
  | buffer (error : BufferError)
  /-- {lit}`std::map::at` on an absent key. -/
  | outOfRange
  /-- {lit}`std::stoi` without a number to read. -/
  | invalidArgument
  /-- Another {lit}`std::invalid_argument`, with its message. -/
  | rejected (what : String)
  /-- A container or a buffer of an impossible size. -/
  | lengthError
  /-- A remote call that did not return a value. -/
  | rpc (what : String)
  /-- The log entry decoder refused its bytes. -/
  | badLogEntry
  /-- A null pointer is dereferenced. -/
  | nullPointer
  /-- An access outside a container or an array. -/
  | outOfBounds
  /-- A loop whose exit test never fails. -/
  | diverges
  /-- {lit}`exit` was called. -/
  | exit (status : Int32)
deriving DecidableEq, Repr

/-- The largest number of elements of the given size that a {lit}`std::vector`
can have; asking for more throws. -/
def vectorMaxSize (elementSize : Nat) : Nat := (2 ^ 63 - 1) / elementSize

/-- A buffer program's outcome, with its errors among the exceptions. -/
def liftBuffer {α : Type} : Except BufferError α → Except Exception α
  | .ok a => .ok a
  | .error e => .error (.buffer e)

@[simp] theorem liftBuffer_ok {α : Type} (a : α) : liftBuffer (.ok a) = .ok a := rfl

/-- The tuple of storage code, Raft code and Raft message that answers a
mutation RPC. -/
structure MutationResult where
  splCode : Int32
  raftCode : Int32
  msg : String
deriving DecidableEq, Repr

/-- The value of a default-constructed result tuple. -/
def MutationResult.default : MutationResult := ⟨0, 0, ""⟩

/-- The Raft code of a mutation result. -/
def getNuraftReturnCode (result : MutationResult) : Int32 := result.raftCode

/-- Both layers report success. -/
def isSuccess (result : MutationResult) : Bool :=
  result.splCode == 0 && result.raftCode == 0

/-- The Raft layer accepted the request. -/
def wasAccepted (result : MutationResult) : Bool :=
  getNuraftReturnCode result == 0

theorem isSuccess_iff (result : MutationResult) :
    isSuccess result = true ↔ result.splCode = 0 ∧ result.raftCode = 0 := by
  simp [isSuccess]

/-- The tuple of value and storage code that answers a read RPC. -/
abbrev ReadResult := Bytes × Int32

/-- One mutation RPC with its arguments. -/
inductive Request where
  | put (key value : Bytes)
  | update (key value : Bytes)
  | delete (key : Bytes)
deriving DecidableEq, Repr

end ReplicatedSplinterDB
