import ReplicatedSplinterDB.Common.Types
import Mathlib.Logic.Function.Iterate

/-!
# The NuRaft interface

NuRaft is a library outside the repository.  The model takes from it only the
byte layout of machine integers, the format of serialized log entries and the
record that {lit}`append_entries` returns; all three are parameters of every
definition that uses them.
-/

namespace ReplicatedSplinterDB

open Foundation

/-- The integer layouts that {lit}`nuraft::buffer` and
{lit}`nuraft::buffer_serializer` use. -/
structure WireFormat where
  u8 : WordFormat UInt8 1
  u64 : WordFormat UInt64 8
  i32 : WordFormat Int32 4

/-- The little-endian layout, which is the one NuRaft uses. -/
def WireFormat.littleEndian : WireFormat where
  u8 := littleEndian8
  u64 := littleEndian64
  i32 := littleEndianInt32

/-- A Raft log entry.  The value type is the byte of NuRaft's
{lit}`log_val_type`. -/
structure LogEntry where
  term : UInt64
  buf : Bytes
  valType : UInt8
  timestamp : UInt64
  hasCrc32 : Bool
  crc32 : UInt32
deriving DecidableEq, Repr

/-- {lit}`log_entry::serialize` and {lit}`log_entry::deserialize`.  The decoder
gets the bytes from the buffer's cursor on. -/
structure EntryFormat where
  serialize : LogEntry → Bytes
  deserialize : Bytes → Option LogEntry

/-- The CRC-32 checksum of a byte string, with the polynomial in reflected form. -/
def crc32 (data : Bytes) : UInt32 :=
  let shift : UInt32 → UInt32 := fun crc =>
    if crc &&& 1 = 1 then (crc >>> 1) ^^^ 0xEDB88320 else crc >>> 1
  let update : UInt32 → UInt8 → UInt32 := fun crc byte => shift^[8] (crc ^^^ byte.toUInt32)
  data.foldl update 0xFFFFFFFF ^^^ 0xFFFFFFFF

/-- The value type of application entries. -/
def appLog : UInt8 := 1

/-- The constructor of {lit}`log_entry`: the timestamp defaults to zero and the
checksum is computed from the payload. -/
def LogEntry.create (term : UInt64) (buff : Bytes) (valueType : UInt8) : LogEntry :=
  ⟨term, buff, valueType, 0, true, ReplicatedSplinterDB.crc32 buff⟩

/-- The layout that NuRaft uses: the term, the value type and the payload.
Timestamp and checksum are not stored; the decoder constructs a new entry. -/
def EntryFormat.nuraft (wire : WireFormat) : EntryFormat where
  serialize entry := wire.u64.encode entry.term ++ wire.u8.encode entry.valType ++ entry.buf
  deserialize bytes :=
    if bytes.length < 9 then none
    else
      some (.create (wire.u64.decode (bytes.take 8)) (bytes.drop 9)
        (wire.u8.decode ((bytes.drop 8).take 1)))

/-- Two entries with the same term, value type and payload. -/
def LogEntry.Matches (entry entry' : LogEntry) : Prop :=
  entry.term = entry'.term ∧ entry.valType = entry'.valType ∧ entry.buf = entry'.buf

/-- What the code relies on: decoding inverts encoding up to the fields that are
not stored, and the decoder throws when no bytes are left to read. -/
structure EntryFormat.Lawful (format : EntryFormat) : Prop where
  deserialize_serialize : ∀ entry, ∃ read,
    format.deserialize (format.serialize entry) = some read ∧ read.Matches entry
  deserialize_nil : format.deserialize [] = none

theorem EntryFormat.nuraft_lawful (wire : WireFormat) : (EntryFormat.nuraft wire).Lawful := by
  refine ⟨?_, rfl⟩
  intro entry
  have hterm := wire.u64.encode_length entry.term
  have htype := wire.u8.encode_length entry.valType
  have hlong : ¬ (wire.u64.encode entry.term ++ wire.u8.encode entry.valType ++
      entry.buf).length < 9 := by
    rw [List.length_append, List.length_append, hterm, htype]
    omega
  have hpayload : (wire.u64.encode entry.term ++ wire.u8.encode entry.valType ++
      entry.buf).drop 9 = entry.buf := by
    apply List.drop_left'
    rw [List.length_append, hterm, htype]
  refine ⟨.create entry.term entry.buf entry.valType, ?_, rfl, rfl, rfl⟩
  simp only [EntryFormat.nuraft]
  rw [if_neg hlong, hpayload]
  simp [hterm, htype]

/-- What {lit}`raft_server::append_entries` returns in blocking mode. -/
structure RaftResult where
  accepted : Bool
  hasResult : Bool
  resultCode : Int32
  resultStr : String
  result : Option Buffer
deriving DecidableEq, Repr

end ReplicatedSplinterDB
