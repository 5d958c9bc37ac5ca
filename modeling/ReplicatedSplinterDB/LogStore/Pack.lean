import ReplicatedSplinterDB.External.Nuraft

/-!
# Log packs

Log stores hand ranges of the log to each other as packs: a count, and for each
entry the size of its bytes and the bytes.  Both log stores write this layout;
they differ in how they read it.

Main results:

- Theorem {lit}`writes_putPack`: a pack is written in this layout.
- Theorem {lit}`get_packBytes`: the count at the head of a pack.
- Theorem {lit}`get_recordBytes`: the size and the bytes of the next record.
-/

namespace ReplicatedSplinterDB

open Foundation

section Layout

variable (wire : WireFormat)

/-- One record of a pack: a size and that many bytes. -/
def recordBytes (raw : Bytes) : Bytes := wire.i32.encode (Int32.ofNat raw.length) ++ raw

/-- The records of a pack. -/
def recordsBytes : List Bytes → Bytes
  | [] => []
  | raw :: records => recordBytes wire raw ++ recordsBytes records

/-- A whole pack: the number of records and the records. -/
def packBytes (records : List Bytes) : Bytes :=
  wire.i32.encode (Int32.ofNat records.length) ++ recordsBytes wire records

/-- Write the size of a buffer and the buffer. -/
def putRecord (raw : Bytes) : BufferM Unit := do
  put wire.i32 (Int32.ofNat raw.length)
  putRaw raw

/-- The loop that writes the records of a pack. -/
def putRecords : List Bytes → BufferM Unit
  | [] => pure ()
  | raw :: records => do
      putRecord wire raw
      putRecords records

end Layout

variable {wire : WireFormat}

/-- A signed size that fits is read back as the size. -/
theorem toNat_toInt_ofNat {n : Nat} (h : n < 2 ^ 31) : (Int32.ofNat n).toInt.toNat = n := by
  rw [Int32.toInt_ofNat_of_lt h]
  exact Int.toNat_natCast n

theorem length_recordsBytes (wire : WireFormat) (records : List Bytes) :
    (recordsBytes wire records).length = records.length * 4 + (records.map List.length).sum := by
  induction records with
  | nil => rfl
  | cons raw records ih =>
      simp only [recordsBytes, recordBytes, List.length_append, wire.i32.encode_length, ih,
        List.length_cons, List.map_cons, List.sum_cons]
      omega

theorem length_packBytes (wire : WireFormat) (records : List Bytes) :
    (packBytes wire records).length =
      4 + records.length * 4 + (records.map List.length).sum := by
  rw [packBytes, List.length_append, wire.i32.encode_length, length_recordsBytes]
  omega

theorem writes_putRecords (wire : WireFormat) (records : List Bytes) :
    Writes (putRecords wire records) (recordsBytes wire records) := by
  induction records with
  | nil => exact writes_pure
  | cons raw records ih =>
      exact ((writes_put wire.i32 (Int32.ofNat raw.length)).seq (writes_putRaw raw)).seq ih

/-- The count and the records, one behind the other. -/
theorem writes_putPack (wire : WireFormat) (records : List Bytes) :
    Writes (do put wire.i32 (Int32.ofNat records.length); putRecords wire records)
      (packBytes wire records) :=
  (writes_put wire.i32 (Int32.ofNat records.length)).seq (writes_putRecords wire records)

theorem get_packBytes (wire : WireFormat) (records : List Bytes) :
    ∃ pack, get wire.i32 (Buffer.ofBytes (packBytes wire records)) =
        .ok (Int32.ofNat records.length, pack) ∧
      pack.rest = recordsBytes wire records ∧ pack.bytes = packBytes wire records ∧
      pack.size = (packBytes wire records).length :=
  reads_get wire.i32 (Int32.ofNat records.length)
    (Buffer.ofBytes (packBytes wire records)) (recordsBytes wire records) rfl

theorem get_recordBytes {raw tail : Bytes} {pack : Buffer}
    (hrest : pack.rest = recordBytes wire raw ++ tail) :
    ∃ mid pack', get wire.i32 pack = .ok (Int32.ofNat raw.length, mid) ∧
      getRaw raw.length mid = .ok (raw, pack') ∧ pack'.rest = tail ∧
      pack'.bytes = pack.bytes ∧ pack'.size = pack.size := by
  rw [recordBytes, List.append_assoc] at hrest
  rcases reads_get wire.i32 (Int32.ofNat raw.length) pack (raw ++ tail) hrest with
    ⟨mid, hcount, hmid, hbytes, hsize⟩
  rcases reads_getRaw raw mid tail hmid with ⟨pack', hraw, htail, hbytes', hsize'⟩
  exact ⟨mid, pack', hcount, hraw, htail, hbytes'.trans hbytes, hsize'.trans hsize⟩

end ReplicatedSplinterDB
