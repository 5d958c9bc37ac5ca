import ReplicatedSplinterDB.External.Nuraft

/-!
# Serialized operations

The payload of an application log entry is one serialized
{lit}`splinterdb_operation`: a type byte, the key with its length, and, when
the operation has a value, the value with its length.  The encoder asks the
optional value whether to write one; the decoder asks the type byte whether to
read one.  The size that the encoder allocates is computed apart from what it
writes.

Main results:

- Theorem {lit}`Operation.serialize_eq_ok_iff`: serialization succeeds exactly
  when the size does not wrap, and then fills its buffer with the encoding.
- Theorem {lit}`Operation.reads_encode`: decoding consumes exactly one encoding
  and returns the operation, whatever follows.
- Theorem {lit}`Operation.deserialize_eq_ok_iff`: decoding succeeds exactly on the
  byte strings that begin with an encoding.
- Theorem {lit}`operation_codec_round_trip`: round trip, exact size and
  prefix freedom for every operation that the factories build.
-/

namespace ReplicatedSplinterDB

open Foundation

/-! ## Owned slices -/

/-- A byte string that owns its storage. -/
structure OwnedSlice where
  data : Bytes
deriving DecidableEq, Repr

namespace OwnedSlice

/-- The space of {lit}`size_t` arithmetic. -/
def sizeModulus : Nat := 2 ^ 64

/-- Bytes that {lit}`serialize` will write, in {lit}`size_t` arithmetic. -/
def serializedSize (s : OwnedSlice) : Nat := (8 + s.data.length) % sizeModulus

variable (wire : WireFormat)

/-- Write the length and then the bytes. -/
def serialize (s : OwnedSlice) : BufferM Unit := do
  put wire.u64 (UInt64.ofNat s.data.length)
  putRaw s.data

/-- Read a length and then that many bytes. -/
def deserialize : BufferM OwnedSlice := do
  let len ← get wire.u64
  let bytes ← getRaw len.toNat
  return ⟨bytes⟩

/-- The bytes that stand for a slice. -/
def encode (s : OwnedSlice) : Bytes :=
  wire.u64.encode (UInt64.ofNat s.data.length) ++ s.data

@[simp] theorem encode_length (s : OwnedSlice) : (s.encode wire).length = 8 + s.data.length := by
  simp [encode]

theorem writes_serialize (s : OwnedSlice) : Writes (s.serialize wire) (s.encode wire) :=
  (writes_put wire.u64 _).seq (writes_putRaw s.data)

/-- A slice whose length fits its length field is read back. -/
theorem reads_encode {s : OwnedSlice} (hlen : s.data.length < sizeModulus) :
    Reads (deserialize wire) (s.encode wire) s := by
  have hfield : (UInt64.ofNat s.data.length).toNat = s.data.length :=
    UInt64.toNat_ofNat_of_lt' hlen
  have hbytes : Reads (do
      let bytes ← getRaw (UInt64.ofNat s.data.length).toNat
      return (⟨bytes⟩ : OwnedSlice)) s.data s := by
    rw [hfield]
    exact (reads_getRaw s.data).map OwnedSlice.mk
  exact (reads_get wire.u64 _).bind hbytes

/-- A slice is read only from bytes that spell it. -/
theorem consumes_deserialize :
    Consumes (deserialize wire)
      (fun s data => data = s.encode wire ∧ s.data.length < sizeModulus) := by
  apply ((consumes_get wire.u64).bind fun len =>
    (consumes_getRaw len.toNat).bind fun bytes => consumes_pure (⟨bytes⟩ : OwnedSlice)).mono
  rintro s data ⟨len, d, e, rfl, ⟨bytes, f, g, ⟨rfl, hlen⟩, ⟨rfl, rfl⟩, rfl⟩, rfl⟩
  refine ⟨?_, ?_⟩
  · simp [encode, hlen]
  · simp only [hlen]
    exact len.toNat_lt

end OwnedSlice

/-! ## Operations -/

/-- The operation type: a byte of which three values have a name. -/
inductive OperationType where
  | put
  | update
  | delete
  | unknown (code : UInt8) (h : 3 ≤ code)
deriving DecidableEq, Repr

namespace OperationType

/-- The byte of an operation type. -/
def toUInt8 : OperationType → UInt8
  | put => 0
  | update => 1
  | delete => 2
  | unknown code _ => code

/-- The cast from a byte to the enumeration, which keeps unnamed values. -/
def ofUInt8 (code : UInt8) : OperationType :=
  if h : 3 ≤ code then unknown code h
  else if code = 0 then put
  else if code = 1 then update
  else delete

/-- The decoder reads a value for these types. -/
def carriesValue : OperationType → Bool
  | put => true
  | update => true
  | delete => false
  | unknown _ _ => false

@[simp] theorem ofUInt8_toUInt8 (t : OperationType) : ofUInt8 t.toUInt8 = t := by
  cases t with
  | put => rfl
  | update => rfl
  | delete => rfl
  | unknown code h => simp [toUInt8, ofUInt8, h]

theorem toUInt8_ofUInt8 (code : UInt8) : (ofUInt8 code).toUInt8 = code := by
  unfold ofUInt8
  split
  · rfl
  · split
    · rename_i hzero
      exact hzero.symm
    · split
      · rename_i hone
        exact hone.symm
      · rename_i hnot hzero hone
        change 2 = code
        grind

end OperationType

/-- An operation on the store.  It has a value exactly when its type says so:
both the factories and the decoder keep the two in step. -/
@[ext] structure Operation where
  key : OwnedSlice
  value : Option OwnedSlice
  type : OperationType
  value_isSome : value.isSome = type.carriesValue
deriving DecidableEq, Repr

namespace Operation

/-- A put of a key and a value. -/
def makePut (key value : OwnedSlice) : Operation := ⟨key, some value, .put, rfl⟩

/-- An update of a key to a value. -/
def makeUpdate (key value : OwnedSlice) : Operation := ⟨key, some value, .update, rfl⟩

/-- A deletion of a key. -/
def makeDelete (key : OwnedSlice) : Operation := ⟨key, none, .delete, rfl⟩

/-- The value of an operation whose type carries one. -/
def valueOf (op : Operation) (h : op.type.carriesValue = true) : OwnedSlice :=
  op.value.get (by rw [op.value_isSome, h])

/-- The size that {lit}`serialize` allocates, in {lit}`size_t` arithmetic. -/
def bufferSize (op : Operation) : Nat :=
  match op.value with
  | some v =>
      ((1 + op.key.serializedSize) % OwnedSlice.sizeModulus + v.serializedSize) %
        OwnedSlice.sizeModulus
  | none => (1 + op.key.serializedSize) % OwnedSlice.sizeModulus

variable (wire : WireFormat)

/-- The writes of {lit}`serialize`, in order. -/
def write (op : Operation) : BufferM Unit := do
  put wire.u8 op.type.toUInt8
  op.key.serialize wire
  match op.value with
  | some v => v.serialize wire
  | none => pure ()

/-- Serialize an operation into a fresh buffer.  The serializer has a cursor of
its own, so the buffer's cursor is still at the start. -/
def serialize (op : Operation) : Except Exception Buffer :=
  liftBuffer ((op.write wire (Buffer.alloc op.bufferSize)).map fun r => r.2.rewind)

/-- The last read of {lit}`deserialize`: a value if the type carries one. -/
def readValue (key : OwnedSlice) (opty : OperationType) : BufferM Operation :=
  if h : opty.carriesValue = true then do
    let value ← OwnedSlice.deserialize wire
    return ⟨key, some value, opty, h.symm⟩
  else
    return ⟨key, none, opty, by simpa using h⟩

/-- The reads of {lit}`deserialize`, in order. -/
def read : BufferM Operation := do
  let code ← get wire.u8
  let key ← OwnedSlice.deserialize wire
  readValue wire key (.ofUInt8 code)

/-- Deserialize an operation from the start of a buffer. -/
def deserialize (payload : Buffer) : Except Exception Operation :=
  liftBuffer ((read wire payload.rewind).map Prod.fst)

/-! ## The encoding -/

/-- The bytes that stand for an operation. -/
def encode (op : Operation) : Bytes :=
  wire.u8.encode op.type.toUInt8 ++ (op.key.encode wire ++
    match op.value with
    | some v => v.encode wire
    | none => [])

/-- The true size of an encoding. -/
def encodedSize (op : Operation) : Nat :=
  1 + (8 + op.key.data.length) +
    match op.value with
    | some v => 8 + v.data.length
    | none => 0

@[simp] theorem encode_length (op : Operation) : (op.encode wire).length = op.encodedSize := by
  rcases op with ⟨key, value, type, hvalue⟩
  cases value with
  | none => simp [encode, encodedSize]
  | some v => simp [encode, encodedSize, Nat.add_assoc]

/-- The allocated size is the encoded size up to wrapping. -/
theorem bufferSize_eq (op : Operation) :
    op.bufferSize = op.encodedSize % OwnedSlice.sizeModulus := by
  rcases op with ⟨key, value, type, hvalue⟩
  cases value with
  | none => simp [bufferSize, encodedSize, OwnedSlice.serializedSize]
  | some v => simp [bufferSize, encodedSize, OwnedSlice.serializedSize]

theorem writes_encode (op : Operation) : Writes (op.write wire) (op.encode wire) := by
  rcases op with ⟨key, value, type, hvalue⟩
  have htype := writes_put wire.u8 type.toUInt8
  have hkey := key.writes_serialize wire
  cases value with
  | none => exact htype.seq (hkey.seq writes_pure)
  | some v => exact htype.seq (hkey.seq (v.writes_serialize wire))

/-- Serialization succeeds exactly when the allocated size did not wrap.  The
buffer is then full and holds the encoding. -/
theorem serialize_eq_ok_iff (op : Operation) (b : Buffer) :
    op.serialize wire = .ok b ↔
      op.encodedSize < OwnedSlice.sizeModulus ∧ b = Buffer.ofBytes (op.encode wire) := by
  have hrun := (op.writes_encode wire).run_alloc op.bufferSize
  rw [encode_length] at hrun
  have hsize := op.bufferSize_eq
  by_cases hfits : op.encodedSize < OwnedSlice.sizeModulus
  · have hexact : op.bufferSize = op.encodedSize := by
      rw [hsize, Nat.mod_eq_of_lt hfits]
    rcases hrun.1 (Nat.le_of_eq hexact.symm) with ⟨b', hb', hbytes, hcap, -⟩
    have hfull : b'.Full := by
      unfold Buffer.Full
      rw [hbytes, hcap, encode_length, hexact]
    have hser : op.serialize wire = .ok (Buffer.ofBytes (op.encode wire)) := by
      unfold serialize
      rw [hb', ← hbytes, ← hfull.rewind_eq]
      rfl
    rw [hser]
    constructor
    · intro h
      exact ⟨hfits, (Except.ok.inj h).symm⟩
    · rintro ⟨-, rfl⟩
      rfl
  · have hshort : op.bufferSize < op.encodedSize := by
      rw [hsize]
      have := Nat.mod_lt op.encodedSize (show 0 < OwnedSlice.sizeModulus by decide)
      omega
    constructor
    · intro h
      unfold serialize at h
      rw [hrun.2 hshort] at h
      cases h
    · rintro ⟨h, -⟩
      exact absurd h hfits

/-- The length of every field fits its length field. -/
def FieldsFit (op : Operation) : Prop :=
  op.key.data.length < OwnedSlice.sizeModulus ∧
    ∀ v, op.value = some v → v.data.length < OwnedSlice.sizeModulus

theorem fieldsFit_of_encodedSize_lt {op : Operation}
    (hsize : op.encodedSize < OwnedSlice.sizeModulus) : op.FieldsFit := by
  rcases op with ⟨key, value, type, hvalue⟩
  refine ⟨?_, ?_⟩
  · change key.data.length < OwnedSlice.sizeModulus
    simp only [encodedSize] at hsize
    omega
  · rintro v rfl
    simp only [encodedSize] at hsize
    omega

/-- Decoding consumes exactly one encoding and returns the operation. -/
theorem reads_encode {op : Operation} (hfits : op.FieldsFit) :
    Reads (read wire) (op.encode wire) op := by
  rcases op with ⟨key, value, type, hvalue⟩
  apply (reads_get wire.u8 type.toUInt8).bind
  apply (OwnedSlice.reads_encode wire hfits.1).bind
  rw [OperationType.ofUInt8_toUInt8]
  cases value with
  | none =>
      have hcarries : ¬ type.carriesValue = true := by simp [← hvalue]
      rw [readValue, dif_neg hcarries]
      exact reads_pure _
  | some v =>
      have hcarries : type.carriesValue = true := by simp [← hvalue]
      rw [readValue, dif_pos hcarries]
      exact (OwnedSlice.reads_encode wire (hfits.2 v rfl)).map fun v =>
        (⟨key, some v, type, hvalue⟩ : Operation)

/-- The last read of a decoder returns an operation with the key and the type
that were read before, and consumes its value if there is one. -/
theorem consumes_readValue (key : OwnedSlice) (opty : OperationType) :
    Consumes (readValue wire key opty) (fun op data =>
      op.key = key ∧ op.type = opty ∧
        match op.value with
        | some v => data = v.encode wire ∧ v.data.length < OwnedSlice.sizeModulus
        | none => data = []) := by
  unfold readValue
  by_cases hcarries : opty.carriesValue = true
  · rw [dif_pos hcarries]
    apply ((OwnedSlice.consumes_deserialize wire).bind fun value => consumes_pure
      (⟨key, some value, opty, hcarries.symm⟩ : Operation)).mono
    rintro op data ⟨value, d, e, ⟨rfl, hlen⟩, ⟨rfl, rfl⟩, rfl⟩
    exact ⟨rfl, rfl, by simp, hlen⟩
  · rw [dif_neg hcarries]
    apply (consumes_pure _).mono
    rintro op data ⟨rfl, rfl⟩
    exact ⟨rfl, rfl, rfl⟩

/-- An operation is decoded only from bytes that begin with its encoding. -/
theorem consumes_read :
    Consumes (read wire) (fun op data => data = op.encode wire ∧ op.FieldsFit) := by
  apply ((consumes_get wire.u8).bind fun code =>
    (OwnedSlice.consumes_deserialize wire).bind fun key =>
      consumes_readValue wire key (.ofUInt8 code)).mono
  rintro op data ⟨code, d, e, rfl, ⟨key, f, g, ⟨rfl, hkey⟩, ⟨rfl, htype, hvalue⟩, rfl⟩, rfl⟩
  have hcode : op.type.toUInt8 = code := by
    rw [htype, OperationType.toUInt8_ofUInt8]
  unfold encode
  rw [hcode]
  cases hv : op.value with
  | none =>
      rw [hv] at hvalue
      refine ⟨by rw [hvalue], hkey, ?_⟩
      intro v h
      rw [hv] at h
      cases h
  | some v =>
      rw [hv] at hvalue
      refine ⟨by rw [hvalue.1], hkey, ?_⟩
      intro v' h
      rw [hv] at h
      cases h
      exact hvalue.2

/-- Decoding an encoding with anything behind it returns the operation. -/
theorem deserialize_encode_append {op : Operation} (hfits : op.FieldsFit) (tail : Bytes) :
    deserialize wire (.ofBytes (op.encode wire ++ tail)) = .ok op := by
  rcases reads_encode wire hfits (.ofBytes (op.encode wire ++ tail)) tail rfl with
    ⟨b, hrun, -, -, -⟩
  unfold deserialize
  rw [Buffer.rewind_ofBytes, hrun]
  rfl

/-- Decoding succeeds exactly on the byte strings that begin with an encoding. -/
theorem deserialize_eq_ok_iff (payload : Bytes) (op : Operation) :
    deserialize wire (.ofBytes payload) = .ok op ↔ op.FieldsFit ∧ op.encode wire <+: payload := by
  constructor
  · intro h
    unfold deserialize at h
    rw [Buffer.rewind_ofBytes] at h
    cases hrun : read wire (.ofBytes payload) with
    | error e =>
        rw [hrun] at h
        cases h
    | ok r =>
        rcases r with ⟨op', b'⟩
        rw [hrun] at h
        cases h
        rcases consumes_read wire _ _ _ hrun with ⟨data, ⟨rfl, hfits⟩, hrest⟩
        exact ⟨hfits, b'.rest, hrest.symm⟩
  · rintro ⟨hfits, tail, rfl⟩
    exact deserialize_encode_append wire hfits tail

/-! ## Operations that the factories build -/

/-- The operations that a caller can build; the constructor is private. -/
inductive Made : Operation → Prop
  | put (key value : OwnedSlice) : Made (makePut key value)
  | update (key value : OwnedSlice) : Made (makeUpdate key value)
  | delete (key : OwnedSlice) : Made (makeDelete key)

/-- A factory leaves no unnamed type, so a value is there exactly for puts and
updates. -/
theorem Made.value_isSome_iff {op : Operation} (hop : op.Made) :
    op.value.isSome = true ↔ op.type = .put ∨ op.type = .update := by
  cases hop with
  | put key value => simp [makePut]
  | update key value => simp [makeUpdate]
  | delete key => simp [makeDelete]

/-- Two operations of which one encoding begins the other are equal. -/
theorem eq_of_encode_isPrefixOf {op op' : Operation}
    (hsize : op.encodedSize < OwnedSlice.sizeModulus)
    (hsize' : op'.encodedSize < OwnedSlice.sizeModulus)
    (hbegin : op.encode wire <+: op'.encode wire) : op = op' :=
  ((reads_encode wire (fieldsFit_of_encodedSize_lt hsize)).eq_of_isPrefixOf
    (reads_encode wire (fieldsFit_of_encodedSize_lt hsize')) hbegin).2

end Operation

/-- Every operation that the factories build, and whose encoding is shorter
than 2^63 bytes, fills exactly the buffer that its serialization allocates;
the bytes, followed by anything, decode to the same type, key and value, with a
value exactly for puts and updates; and an encoding that begins the encoding of
another operation belongs to the same operation. -/
theorem operation_codec_round_trip (wire : WireFormat) (op : Operation) (hop : op.Made)
    (hsize : op.encodedSize < 2 ^ 63) :
    ∃ b, op.serialize wire = .ok b ∧ b.size = op.bufferSize ∧ b.Full ∧
      (∀ s : Bytes, ∃ op', Operation.deserialize wire (.ofBytes (b.bytes ++ s)) = .ok op' ∧
        op'.type = op.type ∧ op'.key = op.key ∧ op'.value = op.value ∧
        (op'.value.isSome = true ↔ op'.type = .put ∨ op'.type = .update)) ∧
      (∀ (op₂ : Operation) (b₂ : Buffer), op₂.Made → op₂.encodedSize < 2 ^ 63 →
        op₂.serialize wire = .ok b₂ →
          (b.bytes <+: b₂.bytes → op = op₂) ∧ (b.bytes = b₂.bytes → op = op₂)) := by
  have hmod : op.encodedSize < OwnedSlice.sizeModulus := by
    unfold OwnedSlice.sizeModulus
    omega
  have hser := (op.serialize_eq_ok_iff wire _).mpr ⟨hmod, rfl⟩
  refine ⟨_, hser, ?_, rfl, ?_, ?_⟩
  · rw [op.bufferSize_eq, Nat.mod_eq_of_lt hmod]
    exact op.encode_length wire
  · intro s
    exact ⟨op, Operation.deserialize_encode_append wire
      (Operation.fieldsFit_of_encodedSize_lt hmod) s, rfl, rfl, rfl, hop.value_isSome_iff⟩
  · intro op₂ b₂ _ _ hser₂
    rcases (op₂.serialize_eq_ok_iff wire b₂).mp hser₂ with ⟨hmod₂, rfl⟩
    refine ⟨Operation.eq_of_encode_isPrefixOf wire hmod hmod₂, ?_⟩
    intro hsame
    have hbytes : op.encode wire = op₂.encode wire := hsame
    apply Operation.eq_of_encode_isPrefixOf wire hmod hmod₂
    exact hbytes ▸ List.prefix_rfl

/-- The round trip at a put of one-byte key and value in the little-endian
layout. -/
theorem operation_codec_round_trip_put :
    ∃ b, (Operation.makePut ⟨[107]⟩ ⟨[118]⟩).serialize .littleEndian = .ok b ∧ b.size = 19 ∧
      b.Full ∧
      Operation.deserialize .littleEndian (.ofBytes (b.bytes ++ [1, 2])) =
        .ok (Operation.makePut ⟨[107]⟩ ⟨[118]⟩) := by
  rcases operation_codec_round_trip .littleEndian (.makePut ⟨[107]⟩ ⟨[118]⟩) (.put _ _)
    (by decide) with ⟨b, hser, hsize, hfull, hread, -⟩
  rcases hread [1, 2] with ⟨op', hop', htype, hkey, hvalue, -⟩
  have hsame : op' = .makePut ⟨[107]⟩ ⟨[118]⟩ := Operation.ext hkey hvalue htype
  exact ⟨b, hser, hsize, hfull, hsame ▸ hop'⟩

end ReplicatedSplinterDB
