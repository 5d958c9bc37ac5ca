import ReplicatedSplinterDB.Foundation.FixedWidth

/-!
# Byte buffers with a cursor

A buffer has a fixed capacity, the bytes written so far and one cursor.  Puts
and gets work at the cursor and advance it; they fail exactly when fewer bytes
remain than they ask for.  Bytes that were allocated and never written have no
value, so a get that reaches them fails as well, with its own error.

Buffer programs are composed with three predicates.  {lit}`Writes m data` says
that {lit}`m` puts exactly {lit}`data` behind the written bytes, or overflows;
{lit}`Reads m data a` says that {lit}`m` consumes exactly {lit}`data` and
returns {lit}`a`, whatever follows; {lit}`Consumes m spells` says that {lit}`m`
returns nothing but what the bytes spell that it has consumed.

Main results:

- Theorems {lit}`Writes.seq`, {lit}`Reads.bind` and {lit}`Consumes.bind`: the
  predicates compose along sequencing.
- Theorem {lit}`Writes.run_alloc`: a program fills a fresh buffer if and only
  if the buffer is large enough, and then leaves exactly its data in it.
- Theorem {lit}`Reads.eq_of_isPrefixOf`: messages with one decoder are prefix
  free, and a message determines its value.
-/

namespace Foundation

/-- Why a buffer access fails: no room, or bytes that were never written. -/
inductive BufferError where
  | overflow
  | indeterminate
deriving DecidableEq, Repr

/-- A buffer of fixed capacity.  The written bytes form a prefix of it and the
cursor never passes them. -/
@[ext] structure Buffer where
  size : Nat
  bytes : Bytes
  pos : Nat
  pos_le : pos ≤ bytes.length
  bytes_le : bytes.length ≤ size
deriving DecidableEq, Repr

namespace Buffer

/-- A fresh buffer: nothing is written and the cursor is at the start. -/
def alloc (size : Nat) : Buffer := ⟨size, [], 0, Nat.le_refl 0, Nat.zero_le size⟩

/-- A completely written buffer with the cursor at the start. -/
def ofBytes (bytes : Bytes) : Buffer :=
  ⟨bytes.length, bytes, 0, Nat.zero_le _, Nat.le_refl _⟩

/-- The same buffer with the cursor back at the start. -/
def rewind (b : Buffer) : Buffer := ⟨b.size, b.bytes, 0, Nat.zero_le _, b.bytes_le⟩

/-- The written bytes from the cursor on. -/
def rest (b : Buffer) : Bytes := b.bytes.drop b.pos

/-- Every allocated byte has been written. -/
def Full (b : Buffer) : Prop := b.bytes.length = b.size

instance (b : Buffer) : Decidable b.Full := inferInstanceAs (Decidable (_ = _))

@[simp] theorem alloc_size (n : Nat) : (alloc n).size = n := rfl
@[simp] theorem alloc_bytes (n : Nat) : (alloc n).bytes = [] := rfl
@[simp] theorem ofBytes_rest (bytes : Bytes) : (ofBytes bytes).rest = bytes := rfl
@[simp] theorem rewind_ofBytes (bytes : Bytes) : (ofBytes bytes).rewind = ofBytes bytes := rfl

/-- A full buffer with its cursor at the start is determined by its bytes. -/
theorem Full.rewind_eq {b : Buffer} (h : b.Full) : b.rewind = ofBytes b.bytes := by
  unfold Full at h
  ext1 <;> simp [rewind, ofBytes, h]

end Buffer

/-! ## Buffer programs -/

/-- Programs that work on one buffer and may fail. -/
abbrev BufferM := StateT Buffer (Except BufferError)

/-- Write raw bytes at the cursor and advance it. -/
def putRaw (data : Bytes) : BufferM Unit := fun b =>
  if h : b.pos + data.length ≤ b.size then
    .ok ((),
      { size := b.size
        bytes := b.bytes.take b.pos ++ data ++ b.bytes.drop (b.pos + data.length)
        pos := b.pos + data.length
        pos_le := by
          have := b.pos_le
          simp
          omega
        bytes_le := by
          have := b.pos_le
          have := b.bytes_le
          simp
          omega })
  else .error .overflow

/-- Read {lit}`n` raw bytes at the cursor and advance it. -/
def getRaw (n : Nat) : BufferM Bytes := fun b =>
  if b.size < b.pos + n then .error .overflow
  else if h : b.pos + n ≤ b.bytes.length then
    .ok (b.rest.take n, ⟨b.size, b.bytes, b.pos + n, h, b.bytes_le⟩)
  else .error .indeterminate

/-- Write one word in a fixed-width format. -/
def put {α : Type} {width : Nat} (format : WordFormat α width) (a : α) : BufferM Unit :=
  putRaw (format.encode a)

/-- Read one word in a fixed-width format. -/
def get {α : Type} {width : Nat} (format : WordFormat α width) : BufferM α := do
  let raw ← getRaw width
  return format.decode raw

/-! ## Sequential writing -/

/-- Append data behind the written bytes, if it fits. -/
def Buffer.push (b : Buffer) (data : Bytes) : Except BufferError (Unit × Buffer) :=
  if h : b.bytes.length + data.length ≤ b.size then
    .ok ((), ⟨b.size, b.bytes ++ data, b.bytes.length + data.length, by simp, by simpa using h⟩)
  else .error .overflow

/-- The program puts exactly {lit}`data` behind the written bytes or overflows. -/
def Writes (m : BufferM Unit) (data : Bytes) : Prop :=
  ∀ b : Buffer, b.pos = b.bytes.length → m b = b.push data

theorem writes_putRaw (data : Bytes) : Writes (putRaw data) data := by
  intro b hpos
  unfold putRaw Buffer.push
  by_cases h : b.bytes.length + data.length ≤ b.size
  · have htake : b.bytes.take b.bytes.length = b.bytes := List.take_length
    have hdrop : b.bytes.drop (b.bytes.length + data.length) = [] :=
      List.drop_eq_nil_of_le (Nat.le_add_right _ _)
    simp [hpos, h]
  · simp [hpos, h]

theorem writes_put {α : Type} {width : Nat} (format : WordFormat α width) (a : α) :
    Writes (put format a) (format.encode a) :=
  writes_putRaw _

theorem writes_pure : Writes (pure ()) [] := by
  intro b hpos
  have hfits := b.bytes_le
  have heq : b = ⟨b.size, b.bytes ++ [], b.bytes.length + 0, by simp, by simpa using hfits⟩ := by
    ext1 <;> simp [hpos]
  simp only [Buffer.push, List.length_nil, Nat.add_zero, hfits, dite_true]
  change Except.ok ((), b) = _
  exact congrArg (fun b => Except.ok ((), b)) heq

/-- Two sequential writers put their data one behind the other. -/
theorem Writes.seq {m n : BufferM Unit} {d e : Bytes} (hm : Writes m d) (hn : Writes n e) :
    Writes (do m; n) (d ++ e) := by
  intro b hpos
  change (m b >>= fun r => n r.2) = b.push (d ++ e)
  rw [hm b hpos]
  by_cases hd : b.bytes.length + d.length ≤ b.size
  · simp only [Buffer.push, hd, dite_true]
    change n _ = _
    rw [hn _ (by simp)]
    simp [Buffer.push, Nat.add_assoc]
  · have hde : ¬ b.bytes.length + (d ++ e).length ≤ b.size := by
      simp only [List.length_append]
      omega
    simp only [Buffer.push, hd, hde, dite_false]
    rfl

/-- A writer succeeds on a fresh buffer exactly when its data fits, and then
the written bytes are its data. -/
theorem Writes.run_alloc {m : BufferM Unit} {data : Bytes} (hm : Writes m data) (n : Nat) :
    (data.length ≤ n → ∃ b, m (Buffer.alloc n) = .ok ((), b) ∧ b.bytes = data ∧
      b.size = n ∧ b.pos = data.length) ∧
    (n < data.length → m (Buffer.alloc n) = .error .overflow) := by
  rw [hm (Buffer.alloc n) rfl]
  constructor
  · intro hfits
    simp [Buffer.push, hfits]
  · intro hshort
    simp only [Buffer.push, Buffer.alloc_bytes, Buffer.alloc_size, List.length_nil, Nat.zero_add]
    rw [dif_neg (by omega)]

/-! ## Sequential reading -/

/-- The program consumes exactly {lit}`data` and returns {lit}`a`, whatever
bytes follow. -/
def Reads {α : Type} (m : BufferM α) (data : Bytes) (a : α) : Prop :=
  ∀ (b : Buffer) (tail : Bytes), b.rest = data ++ tail →
    ∃ b', m b = .ok (a, b') ∧ b'.rest = tail ∧ b'.bytes = b.bytes ∧ b'.size = b.size

theorem reads_getRaw (data : Bytes) : Reads (getRaw data.length) data data := by
  intro b tail hrest
  have hlen : b.bytes.length - b.pos = data.length + tail.length := by
    have := congrArg List.length hrest
    simpa [Buffer.rest] using this
  have hpos := b.pos_le
  have hsize := b.bytes_le
  have hin : b.pos + data.length ≤ b.bytes.length := by omega
  refine ⟨⟨b.size, b.bytes, b.pos + data.length, hin, b.bytes_le⟩, ?_, ?_, rfl, rfl⟩
  · simp only [getRaw, hrest, hin, dite_true, List.take_left']
    rw [if_neg (by omega)]
  · have hsplit : b.bytes.drop (b.pos + data.length) = b.rest.drop data.length := by
      simp [Buffer.rest, List.drop_drop]
    change b.bytes.drop (b.pos + data.length) = tail
    rw [hsplit, hrest, List.drop_left]

theorem reads_pure {α : Type} (a : α) : Reads (pure a) [] a := by
  intro b tail hrest
  exact ⟨b, rfl, by simpa using hrest, rfl, rfl⟩

/-- Sequencing two readers consumes their data one behind the other. -/
theorem Reads.bind {α β : Type} {m : BufferM α} {f : α → BufferM β} {d e : Bytes} {a : α} {c : β}
    (hm : Reads m d a) (hf : Reads (f a) e c) : Reads (m >>= f) (d ++ e) c := by
  intro b tail hrest
  rw [List.append_assoc] at hrest
  obtain ⟨b₁, hrun₁, hrest₁, hbytes₁, hsize₁⟩ := hm b (e ++ tail) hrest
  obtain ⟨b₂, hrun₂, hrest₂, hbytes₂, hsize₂⟩ := hf b₁ tail hrest₁
  refine ⟨b₂, ?_, hrest₂, hbytes₂.trans hbytes₁, hsize₂.trans hsize₁⟩
  change (m b >>= fun r => f r.1 r.2) = _
  rw [hrun₁]
  exact hrun₂

theorem Reads.map {α β : Type} {m : BufferM α} {d : Bytes} {a : α} (hm : Reads m d a)
    (f : α → β) : Reads (do let x ← m; return f x) d (f a) := by
  have h := hm.bind (f := fun x => pure (f x)) (reads_pure (f a))
  rwa [List.append_nil] at h

theorem reads_get {α : Type} {width : Nat} (format : WordFormat α width) (a : α) :
    Reads (get format) (format.encode a) a := by
  have hraw : Reads (getRaw width) (format.encode a) (format.encode a) := by
    have h := reads_getRaw (format.encode a)
    rwa [format.encode_length] at h
  have h := hraw.map format.decode
  rwa [format.decode_encode] at h

/-- If one message begins another and the same program decodes both, they are
the same message of the same value. -/
theorem Reads.eq_of_isPrefixOf {α : Type} {m : BufferM α} {d e : Bytes} {a c : α}
    (hd : Reads m d a) (he : Reads m e c) (hbegin : d <+: e) : d = e ∧ a = c := by
  obtain ⟨tail, rfl⟩ := hbegin
  obtain ⟨b₁, hrun₁, hrest₁, -, -⟩ := hd (.ofBytes (d ++ tail)) tail rfl
  obtain ⟨b₂, hrun₂, hrest₂, -, -⟩ := he (.ofBytes (d ++ tail)) [] (by simp)
  have hsame : (a, b₁) = (c, b₂) := by
    rw [hrun₁] at hrun₂
    exact Except.ok.inj hrun₂
  obtain ⟨hvalue, hbuffer⟩ := Prod.mk.inj hsame
  have htail : tail = [] := by rw [← hrest₁, hbuffer, hrest₂]
  exact ⟨by rw [htail, List.append_nil], hvalue⟩

/-! ## What a reader accepts -/

/-- Whenever the program returns a value, it has consumed bytes that spell it. -/
def Consumes {α : Type} (m : BufferM α) (spells : α → Bytes → Prop) : Prop :=
  ∀ (b : Buffer) (a : α) (b' : Buffer), m b = .ok (a, b') →
    ∃ data, spells a data ∧ b.rest = data ++ b'.rest

theorem consumes_getRaw (n : Nat) :
    Consumes (getRaw n) (fun raw data => data = raw ∧ raw.length = n) := by
  intro b raw b' h
  unfold getRaw at h
  split at h
  · cases h
  · split at h
    · rename_i hin
      cases h
      refine ⟨b.rest.take n, ⟨rfl, ?_⟩, ?_⟩
      · simp only [Buffer.rest, List.length_take, List.length_drop]
        omega
      · change b.rest = b.rest.take n ++ b.bytes.drop (b.pos + n)
        have hsplit : b.bytes.drop (b.pos + n) = b.rest.drop n := by
          simp [Buffer.rest, List.drop_drop]
        rw [hsplit, List.take_append_drop]
    · cases h

theorem consumes_pure {α : Type} (a : α) :
    Consumes (pure a) (fun result data => result = a ∧ data = []) := by
  intro b result b' h
  cases h
  exact ⟨[], ⟨rfl, rfl⟩, rfl⟩

/-- A sequence consumes what its parts consume, one behind the other. -/
theorem Consumes.bind {α β : Type} {m : BufferM α} {f : α → BufferM β} {P : α → Bytes → Prop}
    {Q : α → β → Bytes → Prop} (hm : Consumes m P) (hf : ∀ a, Consumes (f a) (Q a)) :
    Consumes (m >>= f) (fun c data => ∃ a d e, P a d ∧ Q a c e ∧ data = d ++ e) := by
  intro b c b' h
  change (m b >>= fun r => f r.1 r.2) = _ at h
  cases hfirst : m b with
  | error e =>
      rw [hfirst] at h
      cases h
  | ok r =>
      rcases r with ⟨a, mid⟩
      rw [hfirst] at h
      rcases hm b a mid hfirst with ⟨d, hd, hrest⟩
      rcases hf a mid c b' h with ⟨e, he, hrest'⟩
      refine ⟨d ++ e, ⟨a, d, e, hd, he, rfl⟩, ?_⟩
      rw [hrest, hrest', List.append_assoc]

theorem Consumes.mono {α : Type} {m : BufferM α} {P Q : α → Bytes → Prop} (hm : Consumes m P)
    (h : ∀ a data, P a data → Q a data) : Consumes m Q := by
  intro b a b' hrun
  rcases hm b a b' hrun with ⟨data, hdata, hrest⟩
  exact ⟨data, h a data hdata, hrest⟩

theorem consumes_get {α : Type} {width : Nat} (format : WordFormat α width) :
    Consumes (get format) (fun a data => data = format.encode a) := by
  apply ((consumes_getRaw width).bind fun raw => consumes_pure (format.decode raw)).mono
  rintro a data ⟨raw, d, e, ⟨rfl, hlen⟩, ⟨rfl, rfl⟩, rfl⟩
  rw [format.encode_decode _ hlen, List.append_nil]

end Foundation
