import ReplicatedSplinterDB.LogStore.Pack
import ReplicatedSplinterDB.Foundation.EventRun
import ReplicatedSplinterDB.Foundation.IndexedLog
import ReplicatedSplinterDB.Foundation.OrderedMap
import Mathlib.Order.Interval.Finset.Nat

/-!
# The in-memory log store

The log store that the server runs with keeps the Raft log in an ordered map
from indices to entries, next to the index where the log starts.  The map
always has an entry at index 0, which stands in for every entry that is not
there.  The end of the log is not stored: it is computed from the size of the
map, so it is right only as long as the map holds no stray key.

The disk emulation of the source is off unless a test switches it on, and is
left out.

Main results:

- Structure {lit}`InmemLogStore.Refines`: a store holds exactly the entries of an
  abstract log, and the dummy entry.
- Theorem {lit}`LogRun.step_refines`: every admissible operation keeps
  the store in step with the abstract log.
- Theorem {lit}`inmem_log_store_simulates_log`: the same over whole runs, for
  everything that the store lets its users observe.
-/

namespace ReplicatedSplinterDB

open Foundation

/-- Arithmetic on {lit}`ulong`. -/
def wrap64 (n : Nat) : Nat := n % 2 ^ 64

theorem wrap64_of_lt {n : Nat} (h : n < 2 ^ 64) : wrap64 n = n := Nat.mod_eq_of_lt h

/-- The members of {lit}`inmem_log_store`.  No operation removes the entry at
index 0 or moves the start of the log there. -/
structure InmemLogStore where
  logs : OrderedMap Nat LogEntry
  startIdx : Nat
  zero_mem : 0 ∈ logs
  start_pos : 1 ≤ startIdx

/-- A copy of an entry, field by field. -/
def makeClone (entry : LogEntry) : LogEntry :=
  ⟨entry.term, entry.buf, entry.valType, entry.timestamp, entry.hasCrc32, entry.crc32⟩

@[simp] theorem makeClone_eq (entry : LogEntry) : makeClone entry = entry := rfl

/-- The dummy entry: term 0 and eight freshly allocated bytes that nobody
writes. -/
def dummyEntry (fresh : Bytes) : LogEntry := .create 0 fresh appLog

namespace InmemLogStore

/-- The constructor: an empty log that starts at index 1. -/
def create (dummy : LogEntry) : InmemLogStore where
  logs := Finmap.singleton 0 dummy
  startIdx := 1
  zero_mem := by simp
  start_pos := Nat.le_refl 1

/-! ## Reading -/

/-- The first index behind the log, computed from the size of the map without
the dummy entry. -/
def nextSlot (s : InmemLogStore) : Nat := wrap64 (s.startIdx + s.logs.size - 1)

/-- The index where the log starts. -/
def startIndex (s : InmemLogStore) : Nat := s.startIdx

/-- The entry at an index, or the one at index 0. -/
def find (s : InmemLogStore) (index : Nat) : LogEntry :=
  match s.logs.lookup index with
  | some entry => entry
  | none => (s.logs.lookup 0).get (Finmap.lookup_isSome.mpr s.zero_mem)

/-- The last entry of the log. -/
def lastEntry (s : InmemLogStore) : LogEntry :=
  let nextIdx := s.nextSlot
  makeClone (s.find (wrap64 (nextIdx + (2 ^ 64 - 1))))

/-- The entry at an index. -/
def entryAt (s : InmemLogStore) (index : Nat) : LogEntry := makeClone (s.find index)

/-- The term of the entry at an index. -/
def termAt (s : InmemLogStore) (index : Nat) : UInt64 := (s.find index).term

/-- The vector of {lit}`log_entries` for a reversed range.  It is resized to the
wrapped length of the range, and no slot of it is filled. -/
def nullEntries (start stop : Nat) : Except Exception (List (Option LogEntry)) :=
  let count := wrap64 (stop + (2 ^ 64 - start))
  if vectorMaxSize 16 < count then .error .lengthError else .ok (List.replicate count none)

/-- The entries from {lit}`start` up to and excluding {lit}`stop`.  The vector for a
range of the log can have that many pointers, since the map has larger nodes. -/
def logEntries (s : InmemLogStore) (start stop : Nat) :
    Except Exception (List (Option LogEntry)) :=
  if stop < start then nullEntries start stop
  else .ok ((List.range' start (stop - start)).map fun ii => some (makeClone (s.find ii)))

/-- The loop of {lit}`log_entries_ext` with the indices still to visit and the
payload bytes of the entries already returned. -/
def logEntriesExtLoop (s : InmemLogStore) (batchSizeHintInBytes : Int64) :
    List Nat → Nat → List LogEntry
  | [], _ => []
  | ii :: rest, accumSize =>
      let src := s.find ii
      let accumSize := wrap64 (accumSize + src.buf.length)
      if batchSizeHintInBytes ≠ 0 ∧ batchSizeHintInBytes.toUInt64.toNat ≤ accumSize then
        [makeClone src]
      else makeClone src :: logEntriesExtLoop s batchSizeHintInBytes rest accumSize

/-- The entries from {lit}`start` up to and excluding {lit}`stop`, but no more
than it takes to reach the given number of payload bytes.  Zero sets no limit. -/
def logEntriesExt (s : InmemLogStore) (start stop : Nat) (batchSizeHintInBytes : Int64) :
    List LogEntry :=
  if batchSizeHintInBytes < 0 then []
  else s.logEntriesExtLoop batchSizeHintInBytes (List.range' start (stop - start)) 0

/-! ## Writing -/

/-- Bind an index in the map. -/
def store (s : InmemLogStore) (index : Nat) (entry : LogEntry) : InmemLogStore where
  logs := s.logs.insert index entry
  startIdx := s.startIdx
  zero_mem := Finmap.mem_insert.mpr (.inr s.zero_mem)
  start_pos := s.start_pos

/-- Add an entry at the end and return its index. -/
def append (entry : LogEntry) : EStateM Exception InmemLogStore Nat := fun s =>
  let clone := makeClone entry
  let idx := wrap64 (s.startIdx + s.logs.size - 1)
  .ok idx (s.store idx clone)

/-- Discard all entries from an index on and store a new one there. -/
def writeAt (index : Nat) (newEntry : LogEntry) : EStateM Exception InmemLogStore Unit := fun s =>
  let clone := makeClone newEntry
  .ok ()
    { logs := (s.logs.eraseFrom index).insert index clone
      startIdx := s.startIdx
      zero_mem := by
        by_cases hzero : index = 0
        · simp [Finmap.mem_insert, hzero]
        · apply Finmap.mem_insert.mpr
          right
          rw [← Finmap.lookup_isSome, OrderedMap.lookup_eraseFrom, if_neg (by omega),
            Finmap.lookup_isSome]
          exact s.zero_mem
      start_pos := s.start_pos }

/-- Erase the entries up to an index and move the start of the log behind it.
The loop compares with {lit}`<=`, so the largest index never ends it. -/
def compact (lastLogIndex : Nat) : EStateM Exception InmemLogStore Bool := fun s =>
  if 2 ^ 64 - 1 ≤ lastLogIndex then .error .diverges s
  else
    .ok true
      { logs := s.logs.eraseAll (List.range' s.startIdx (lastLogIndex + 1 - s.startIdx))
        startIdx := if s.startIdx ≤ lastLogIndex then lastLogIndex + 1 else s.startIdx
        zero_mem := by
          have hpos := s.start_pos
          rw [← Finmap.lookup_isSome, OrderedMap.lookup_eraseAll, if_neg, Finmap.lookup_isSome]
          · exact s.zero_mem
          · rw [List.mem_range'_1]
            omega
        start_pos := by
          have hpos := s.start_pos
          split <;> omega }

section Packs

variable (wire : WireFormat) (format : EntryFormat)

/-- The first loop of {lit}`pack`: the serialized entries. -/
def collectEntries : List Nat → EStateM Exception InmemLogStore (List Bytes)
  | [] => fun s => .ok [] s
  | ii :: rest => fun s =>
      match s.logs.lookup ii with
      -- An absent index is bound to a null pointer, which is then used.
      | none => .error .nullPointer s
      | some le =>
          match collectEntries rest s with
          | .error e s => .error e s
          | .ok logs s => .ok (format.serialize le :: logs) s

/-- Pack the given number of entries from an index on. -/
def pack (index : Nat) (signedCnt : Int32) : EStateM Exception InmemLogStore Buffer := fun s =>
  let cnt := signedCnt.toInt64.toUInt64.toNat
  let stop := wrap64 (index + cnt)
  match collectEntries format (List.range' index (stop - index)) s with
  | .error e s => .error e s
  | .ok logs s =>
      let sizeTotal := (logs.map List.length).sum
      let size := wrap64 (4 + cnt * 4 + sizeTotal)
      -- The size of a negative count wraps to one that cannot be allocated.
      if 2 ^ 63 ≤ size then .error .lengthError s
      else
        let write : BufferM Unit := do
          put wire.i32 signedCnt
          putRecords wire logs
        match liftBuffer (write (Buffer.alloc size)) with
        | .error e => .error e s
        | .ok (_, bufOut) => .ok bufOut s

/-- Read one record of a pack: the size of an entry and its bytes. -/
def readRecord (pack : Buffer) : Except Exception (LogEntry × Buffer) :=
  match liftBuffer (get wire.i32 pack) with
  | .error e => .error e
  | .ok (bufSize, pack) =>
      -- A negative size converts to one that no buffer can have.
      if bufSize < 0 then .error .lengthError
      else
        match liftBuffer (getRaw bufSize.toInt.toNat pack) with
        | .error e => .error e
        | .ok (raw, pack) =>
            match format.deserialize raw with
            | none => .error .badLogEntry
            | some entry => .ok (entry, pack)

/-- The loop of {lit}`apply_pack` with the number of records still to read and
the number of those already stored. -/
def applyPackLoop (index : Nat) : Nat → Nat → Buffer → EStateM Exception InmemLogStore Buffer
  | 0, _, pack => fun s => .ok pack s
  | todo + 1, ii, pack => fun s =>
      match readRecord wire format pack with
      | .error e => .error e s
      | .ok (entry, pack) =>
          applyPackLoop index todo (ii + 1) pack (s.store (wrap64 (index + ii)) entry)

/-- The start of the log is the first index above the dummy entry. -/
def resetStart (s : InmemLogStore) : InmemLogStore where
  logs := s.logs
  startIdx := (s.logs.upperBound 0).getD 1
  zero_mem := s.zero_mem
  start_pos := by
    cases h : s.logs.upperBound 0 with
    | none => exact Nat.le_refl 1
    | some first => exact ((OrderedMap.upperBound_eq_some_iff s.logs 0 first).mp h).2.1

/-- Store the entries of a pack from an index on.  The result is the pack with
its cursor behind what was read. -/
def applyPack (index : Nat) (pack : Buffer) : EStateM Exception InmemLogStore Buffer := fun s =>
  match liftBuffer (get wire.i32 pack.rewind) with
  | .error e => .error e s
  | .ok (numLogs, pack) =>
      match applyPackLoop wire format index numLogs.toInt.toNat 0 pack s with
      | .error e s => .error e s
      | .ok pack s => .ok pack s.resetStart

end Packs

/-- A range that is not reversed is read entry by entry. -/
theorem logEntries_eq_map (s : InmemLogStore) {start stop : Nat} (h : start ≤ stop) :
    s.logEntries start stop = .ok (((List.range' start (stop - start)).map s.find).map some) := by
  simp only [logEntries, if_neg (Nat.not_lt.mpr h), makeClone_eq, List.map_map]
  rfl

/-! ## Agreement with an abstract log -/

/-- The store holds the dummy entry at index 0 and, at all other indices, the
entries of the log. -/
structure Refines (dummy : LogEntry) (s : InmemLogStore) (log : IndexedLog LogEntry) : Prop where
  start_eq : s.startIdx = log.base
  lookup_zero : s.logs.lookup 0 = some dummy
  lookup_eq : ∀ j, 1 ≤ j → s.logs.lookup j = log.get? j
  next_lt : log.next < 2 ^ 64

namespace Refines

variable {dummy : LogEntry} {s : InmemLogStore} {log : IndexedLog LogEntry}

theorem base_pos (h : Refines dummy s log) : 1 ≤ log.base := by
  rw [← h.start_eq]
  exact s.start_pos

theorem keys_eq (h : Refines dummy s log) :
    s.logs.keys = insert 0 (Finset.Ico log.base log.next) := by
  have hbase := h.base_pos
  ext j
  rw [Finmap.mem_keys, ← Finmap.lookup_isSome, Finset.mem_insert, Finset.mem_Ico]
  by_cases hj : j = 0
  · subst hj
    simp [h.lookup_zero]
  · rw [h.lookup_eq j (by omega), log.get?_isSome_iff]
    simp [hj]

theorem size_eq (h : Refines dummy s log) : s.logs.size = log.entries.length + 1 := by
  have hbase := h.base_pos
  unfold OrderedMap.size
  rw [h.keys_eq, Finset.card_insert_of_notMem, Nat.card_Ico]
  · unfold IndexedLog.next
    omega
  · rw [Finset.mem_Ico]
    omega

theorem end_eq (h : Refines dummy s log) : wrap64 (s.startIdx + s.logs.size - 1) = log.next := by
  have hnext : s.startIdx + s.logs.size - 1 = log.next := by
    rw [h.size_eq, h.start_eq]
    rfl
  rw [hnext]
  exact wrap64_of_lt h.next_lt

theorem nextSlot_eq (h : Refines dummy s log) : s.nextSlot = log.next := h.end_eq

theorem find_eq (h : Refines dummy s log) {j : Nat} (hj : 1 ≤ j) :
    s.find j = (log.get? j).getD dummy := by
  unfold find
  rw [← h.lookup_eq j hj]
  cases hlookup : s.logs.lookup j with
  | some entry => rfl
  | none => simp [h.lookup_zero]

/-- A stored index reads the log's entry. -/
theorem get?_eq_find (h : Refines dummy s log) {j : Nat} (hlow : log.base ≤ j)
    (hhigh : j < log.next) : log.get? j = some (s.find j) := by
  have hbase := h.base_pos
  have hsome := (log.get?_isSome_iff j).mpr ⟨hlow, hhigh⟩
  rw [h.find_eq (by omega)]
  rcases Option.isSome_iff_exists.mp hsome with ⟨entry, hentry⟩
  rw [hentry]
  rfl

theorem lastEntry_eq (h : Refines dummy s log) :
    s.lastEntry = log.entries.getLast?.getD dummy := by
  have hbase := h.base_pos
  have hlt := h.next_lt
  have hnext : log.base ≤ log.next := Nat.le_add_right _ _
  have hpred : wrap64 (s.nextSlot + (2 ^ 64 - 1)) = log.next - 1 := by
    rw [h.nextSlot_eq]
    unfold wrap64
    omega
  unfold lastEntry
  rw [makeClone_eq, hpred]
  by_cases hempty : log.entries = []
  · have hdummy : s.find (log.next - 1) = dummy := by
      by_cases hzero : log.next - 1 = 0
      · rw [hzero]
        simp [find, h.lookup_zero]
      · have hnone : log.get? (log.next - 1) = none := by
          rw [IndexedLog.get?_eq_none_iff]
          simp only [IndexedLog.next, hempty, List.length_nil] at hzero ⊢
          omega
        rw [h.find_eq (by omega), hnone]
        rfl
    rw [hdummy, hempty]
    rfl
  · have hlen : 0 < log.entries.length := List.length_pos_iff.mpr hempty
    rw [h.find_eq (by unfold IndexedLog.next; omega), IndexedLog.get?_pred_next hempty]

theorem logEntries_eq (h : Refines dummy s log) {i j : Nat} (hi : log.base ≤ i) (hij : i ≤ j)
    (hj : j ≤ log.next) : s.logEntries i j = .ok ((log.slice i j).map some) := by
  have hslice : (List.range' i (j - i)).map s.find = log.slice i j := by
    apply IndexedLog.map_range'_eq_slice hi
    intro k hik hkj
    exact h.get?_eq_find (by omega) (by omega)
  rw [s.logEntries_eq_map hij, hslice]

/-! Each mutation keeps the agreement. -/

theorem append (h : Refines dummy s log) (hfits : log.next + 1 < 2 ^ 64) (entry : LogEntry) :
    ∃ s', (InmemLogStore.append entry).run s = .ok log.next s' ∧
      Refines dummy s' (log.append entry) := by
  have hbase := h.base_pos
  have hnext : log.base ≤ log.next := Nat.le_add_right _ _
  refine ⟨s.store log.next entry, ?_, ?_⟩
  · simp only [EStateM.run, InmemLogStore.append, h.end_eq, makeClone_eq]
  · refine ⟨?_, ?_, ?_, ?_⟩
    · exact h.start_eq
    · change (s.logs.insert log.next entry).lookup 0 = _
      rw [OrderedMap.lookup_insert_eq, if_neg (by omega), h.lookup_zero]
    · intro j hj
      change (s.logs.insert log.next entry).lookup j = _
      rw [OrderedMap.lookup_insert_eq, IndexedLog.get?_append, h.lookup_eq j hj]
    · simpa using hfits

theorem writeAt (h : Refines dummy s log) {index : Nat} (hlow : log.base ≤ index)
    (hhigh : index ≤ log.next) (hfits : index + 1 < 2 ^ 64) (entry : LogEntry) :
    ∃ s', (InmemLogStore.writeAt index entry).run s = .ok () s' ∧
      Refines dummy s' (log.writeAt index entry) := by
  have hbase := h.base_pos
  refine ⟨_, rfl, ?_, ?_, ?_, ?_⟩
  · exact h.start_eq
  · change ((s.logs.eraseFrom index).insert index entry).lookup 0 = _
    rw [OrderedMap.lookup_insert_eq, if_neg (by omega), OrderedMap.lookup_eraseFrom,
      if_neg (by omega), h.lookup_zero]
  · intro j hj
    change ((s.logs.eraseFrom index).insert index entry).lookup j = _
    rw [OrderedMap.lookup_insert_eq, OrderedMap.lookup_eraseFrom,
      IndexedLog.get?_writeAt hlow hhigh, h.lookup_eq j hj]
    grind
  · rw [IndexedLog.next_writeAt hlow hhigh]
    exact hfits

theorem compact (h : Refines dummy s log) {last : Nat} (hlast : last < 2 ^ 64 - 1) :
    ∃ s', (InmemLogStore.compact last).run s = .ok true s' ∧
      Refines dummy s' (log.compact last) := by
  have hbase := h.base_pos
  have hstart := h.start_eq
  have hlt := h.next_lt
  simp only [EStateM.run, InmemLogStore.compact, if_neg (Nat.not_le.mpr hlast)]
  refine ⟨_, rfl, ?_, ?_, ?_, ?_⟩
  · dsimp only
    rw [IndexedLog.base_compact]
    split <;> omega
  · dsimp only
    rw [OrderedMap.lookup_eraseAll, if_neg, h.lookup_zero]
    rw [List.mem_range'_1]
    omega
  · intro j hj
    dsimp only
    rw [OrderedMap.lookup_eraseAll, IndexedLog.get?_compact, h.lookup_eq j hj]
    by_cases hstored : j < log.base
    · have hnone := (log.get?_eq_none_iff j).mpr (.inl hstored)
      simp [hnone]
    · have hmem : j ∈ List.range' s.startIdx (last + 1 - s.startIdx) ↔ j ≤ last := by
        rw [List.mem_range'_1]
        omega
      simp only [hmem]
  · rw [IndexedLog.next_compact]
    omega

end Refines

/-! ## Packs -/

section Packs

variable {wire : WireFormat} {format : EntryFormat}

/-- Bind consecutive indices in the map. -/
def storeAll (s : InmemLogStore) : Nat → List LogEntry → InmemLogStore
  | _, [] => s
  | index, entry :: entries => storeAll (s.store index entry) (index + 1) entries

theorem lookup_storeAll (s : InmemLogStore) (index j : Nat) (entries : List LogEntry) :
    (s.storeAll index entries).logs.lookup j =
      if j < index then s.logs.lookup j
      else if j < index + entries.length then entries[j - index]? else s.logs.lookup j := by
  induction entries generalizing s index with
  | nil =>
      simp only [storeAll, List.length_nil]
      grind
  | cons entry entries ih =>
      have hstore : (s.store index entry).logs.lookup j =
          if j = index then some entry else s.logs.lookup j :=
        OrderedMap.lookup_insert_eq s.logs index j entry
      rw [storeAll, ih, hstore]
      grind

theorem readRecord_eq {raw tail : Bytes} {entry : LogEntry} {pack : Buffer}
    (hlen : raw.length < 2 ^ 31) (hentry : format.deserialize raw = some entry)
    (hrest : pack.rest = recordBytes wire raw ++ tail) :
    ∃ pack', readRecord wire format pack = .ok (entry, pack') ∧ pack'.rest = tail ∧
      pack'.bytes = pack.bytes ∧ pack'.size = pack.size := by
  rcases get_recordBytes hrest with ⟨mid, pack', hsize, hraw, htail⟩
  have hnonneg : ¬ Int32.ofNat raw.length < 0 := by
    rw [Int32.lt_iff_toInt_lt, Int32.toInt_ofNat_of_lt hlen]
    simp
  refine ⟨pack', ?_, htail⟩
  simp only [readRecord, hsize, liftBuffer_ok, if_neg hnonneg, toNat_toInt_ofNat hlen, hraw,
    hentry]

/-- On a well-formed pack the loop stores every entry and reads the pack to its
end.  The induction is on the records still to read. -/
theorem applyPackLoop_eq {index : Nat} {records : List Bytes}
    (hrecords : ∀ raw ∈ records, raw.length < 2 ^ 31 ∧ (format.deserialize raw).isSome)
    {ii : Nat} (hfits : index + ii + records.length < 2 ^ 64) {pack : Buffer}
    (hrest : pack.rest = recordsBytes wire records) (s : InmemLogStore) :
    ∃ pack', applyPackLoop wire format index records.length ii pack s =
        .ok pack' (s.storeAll (index + ii) (records.filterMap format.deserialize)) ∧
      pack'.rest = [] ∧ pack'.bytes = pack.bytes ∧ pack'.size = pack.size := by
  induction records generalizing ii pack s with
  | nil => exact ⟨pack, rfl, hrest, rfl, rfl⟩
  | cons raw records ih =>
      rcases hrecords raw List.mem_cons_self with ⟨hlen, hsome⟩
      rcases Option.isSome_iff_exists.mp hsome with ⟨entry, hentry⟩
      rcases readRecord_eq hlen hentry hrest with ⟨next, hread, hnext, hbytes, hsize⟩
      rw [List.length_cons] at hfits
      have hrecords' : ∀ raw ∈ records, raw.length < 2 ^ 31 ∧ (format.deserialize raw).isSome :=
        fun raw hmem => hrecords raw (List.mem_cons_of_mem _ hmem)
      have hfits' : index + (ii + 1) + records.length < 2 ^ 64 := by omega
      rcases ih hrecords' hfits' hnext (s.store (index + ii) entry) with
        ⟨pack', hrun, hend, hbytes', hsize'⟩
      refine ⟨pack', ?_, hend, hbytes'.trans hbytes, hsize'.trans hsize⟩
      rw [List.length_cons, applyPackLoop, hread, wrap64_of_lt (by omega),
        List.filterMap_cons_some hentry]
      exact hrun

/-- Decoding keeps the number of records when every record decodes. -/
theorem length_filterMap_deserialize {records : List Bytes}
    (hrecords : ∀ raw ∈ records, (format.deserialize raw).isSome) :
    (records.filterMap format.deserialize).length = records.length := by
  rw [List.length_filterMap_eq_countP, List.countP_eq_length]
  exact hrecords

/-- The first index above the dummy entry is the base of a log that is not
empty. -/
theorem upperBound_zero_eq {s : InmemLogStore} {log : IndexedLog LogEntry} (hbase : 1 ≤ log.base)
    (hne : log.base < log.next) (hlookup : ∀ j, 1 ≤ j → s.logs.lookup j = log.get? j) :
    s.logs.upperBound 0 = some log.base := by
  have hmem : ∀ j, 1 ≤ j → (j ∈ s.logs ↔ log.base ≤ j ∧ j < log.next) := by
    intro j hj
    rw [← Finmap.lookup_isSome, hlookup j hj, log.get?_isSome_iff]
  rw [OrderedMap.upperBound_eq_some_iff]
  refine ⟨(hmem log.base hbase).mpr ⟨Nat.le_refl _, hne⟩, hbase, ?_⟩
  intro j hj hpos
  exact ((hmem j hpos).mp hj).1

/-- A well-formed pack whose range touches the log overwrites that range. -/
theorem Refines.applyPack {dummy : LogEntry} {s : InmemLogStore} {log : IndexedLog LogEntry}
    (h : Refines dummy s log) (wire : WireFormat) {index : Nat} {records : List Bytes}
    (hindex : 1 ≤ index) (hne : records ≠ []) (hcount : records.length < 2 ^ 31)
    (hrecords : ∀ raw ∈ records, raw.length < 2 ^ 31 ∧ (format.deserialize raw).isSome)
    (htouch : log.entries = [] ∨ (index ≤ log.next ∧ log.base ≤ index + records.length))
    (hfits : index + records.length < 2 ^ 64) :
    ∃ pack' s', (InmemLogStore.applyPack wire format index
        (Buffer.ofBytes (packBytes wire records))).run s = .ok pack' s' ∧ pack'.rest = [] ∧
      pack'.bytes = packBytes wire records ∧ pack'.Full ∧
      Refines dummy s' (log.splice index (records.filterMap format.deserialize)) := by
  have hbase := h.base_pos
  have hlt := h.next_lt
  have hpos : 0 < records.length := List.length_pos_iff.mpr hne
  have hlen := length_filterMap_deserialize fun raw hmem => (hrecords raw hmem).2
  rcases get_packBytes wire records with ⟨pack, hhead, hrest, hpackBytes, hpackSize⟩
  have hfits' : index + 0 + records.length < 2 ^ 64 := hfits
  rcases applyPackLoop_eq hrecords hfits' hrest s with ⟨pack', hloop, hend, hbytes, hsize⟩
  rw [hpackBytes] at hbytes
  rw [hpackSize] at hsize
  have hfull : pack'.Full := by
    unfold Buffer.Full
    rw [hbytes, hsize]
  generalize records.filterMap format.deserialize = entries at hlen hloop ⊢
  rw [← hlen] at htouch hfits hpos
  have hnext := IndexedLog.next_splice htouch
  have hstart := log.base_splice index entries
  have hspliceBase : 1 ≤ (log.splice index entries).base := by
    rw [hstart]
    split <;> omega
  have hlookup : ∀ j, 1 ≤ j →
      (s.storeAll index entries).logs.lookup j = (log.splice index entries).get? j := by
    intro j hj
    rw [lookup_storeAll, IndexedLog.get?_splice htouch, h.lookup_eq j hj]
  have hfirst := upperBound_zero_eq hspliceBase (by rw [hstart, hnext]; split <;> omega) hlookup
  refine ⟨pack', (s.storeAll index entries).resetStart, ?_, hend, hbytes, hfull, ?_, ?_, hlookup,
    ?_⟩
  · simp only [EStateM.run, InmemLogStore.applyPack, Buffer.rewind_ofBytes, hhead, liftBuffer_ok,
      toNat_toInt_ofNat hcount, hloop, Nat.add_zero]
  · simp only [resetStart, hfirst, Option.getD_some]
  · change (s.storeAll index entries).logs.lookup 0 = some dummy
    rw [lookup_storeAll, if_pos (by omega), h.lookup_zero]
  · rw [hnext]
    split <;> omega

end Packs

end InmemLogStore

/-! ## Runs -/

/-- A mutation of the log store.  A pack is given by the bytes of its records. -/
inductive LogEvent where
  | append (entry : LogEntry)
  | writeAt (index : Nat) (entry : LogEntry)
  | compact (lastLogIndex : Nat)
  | applyPack (index : Nat) (records : List Bytes)

/-- The calls that a user of the store may make when the log starts at
{lit}`start` and ends before {lit}`next`.  No index leaves the range of
{lit}`ulong`, writes stay inside the log or extend it by one, and packs are not
empty, decode, and leave no gap to a log that is not empty. -/
def LogEvent.Allowed (format : EntryFormat) (start next : Nat) : LogEvent → Prop
  | .append _ => next + 1 < 2 ^ 64
  | .writeAt index _ => start ≤ index ∧ index ≤ next ∧ index + 1 < 2 ^ 64
  | .compact lastLogIndex => lastLogIndex < 2 ^ 64 - 1
  | .applyPack index records =>
      1 ≤ index ∧ records ≠ [] ∧ records.length < 2 ^ 31 ∧
      (∀ raw ∈ records, raw.length < 2 ^ 31 ∧ (format.deserialize raw).isSome) ∧
      (start = next ∨ (index ≤ next ∧ start ≤ index + records.length)) ∧
      index + records.length < 2 ^ 64

instance (format : EntryFormat) (start next : Nat) :
    (event : LogEvent) → Decidable (event.Allowed format start next)
  | .append _ => inferInstanceAs (Decidable (_ < _))
  | .writeAt _ _ => inferInstanceAs (Decidable (_ ∧ _))
  | .compact _ => inferInstanceAs (Decidable (_ < _))
  | .applyPack _ _ => inferInstanceAs (Decidable (_ ∧ _))

/-- A store or a log with the indices that its appends have returned. -/
structure LogRun (σ : Type) where
  store : σ
  returned : List Nat

namespace LogRun

section Steps

variable (wire : WireFormat) (format : EntryFormat)

/-- Perform one mutation on the store. -/
def step (r : LogRun InmemLogStore) : LogEvent → Except Exception (LogRun InmemLogStore)
  | .append entry =>
      match (InmemLogStore.append entry).run r.store with
      | .error e _ => .error e
      | .ok idx s => .ok ⟨s, r.returned ++ [idx]⟩
  | .writeAt index entry =>
      match (InmemLogStore.writeAt index entry).run r.store with
      | .error e _ => .error e
      | .ok _ s => .ok ⟨s, r.returned⟩
  | .compact lastLogIndex =>
      match (InmemLogStore.compact lastLogIndex).run r.store with
      | .error e _ => .error e
      | .ok _ s => .ok ⟨s, r.returned⟩
  | .applyPack index records =>
      match (InmemLogStore.applyPack wire format index
          (Buffer.ofBytes (packBytes wire records))).run r.store with
      | .error e _ => .error e
      | .ok _ s => .ok ⟨s, r.returned⟩

/-- The mutation is allowed at the bounds that the store itself reports. -/
def Allows (r : LogRun InmemLogStore) (event : LogEvent) : Prop :=
  event.Allowed format r.store.startIndex r.store.nextSlot

instance (r : LogRun InmemLogStore) (event : LogEvent) : Decidable (Allows format r event) :=
  inferInstanceAs (Decidable (event.Allowed format r.store.startIndex r.store.nextSlot))

/-- What the mutations mean on an abstract log. -/
def abstractStep (r : LogRun (IndexedLog LogEntry)) : LogEvent → LogRun (IndexedLog LogEntry)
  | .append entry => ⟨r.store.append entry, r.returned ++ [r.store.next]⟩
  | .writeAt index entry => ⟨r.store.writeAt index entry, r.returned⟩
  | .compact lastLogIndex => ⟨r.store.compact lastLogIndex, r.returned⟩
  | .applyPack index records =>
      ⟨r.store.splice index (records.filterMap format.deserialize), r.returned⟩

/-- The abstract log that a list of mutations builds from the empty one. -/
def abstractRun (events : List LogEvent) : LogRun (IndexedLog LogEntry) :=
  events.foldl (abstractStep format) ⟨⟨1, []⟩, []⟩

end Steps

variable {wire : WireFormat} {format : EntryFormat} {dummy : LogEntry}

/-- A run of the store agrees with a run of the log. -/
def Agrees (dummy : LogEntry) (r : LogRun InmemLogStore) (a : LogRun (IndexedLog LogEntry)) :
    Prop :=
  InmemLogStore.Refines dummy r.store a.store ∧ r.returned = a.returned

theorem agrees_create (dummy : LogEntry) :
    Agrees dummy ⟨InmemLogStore.create dummy, []⟩ ⟨⟨1, []⟩, []⟩ := by
  refine ⟨⟨rfl, rfl, ?_, by decide⟩, rfl⟩
  intro j hj
  have hnone : (InmemLogStore.create dummy).logs.lookup j = none := by
    rw [Finmap.lookup_eq_none]
    change j ∉ Finmap.singleton 0 dummy
    rw [Finmap.mem_singleton]
    omega
  rw [hnone]
  symm
  rw [IndexedLog.get?_eq_none_iff]
  right
  exact hj

/-- One step: every allowed mutation completes and keeps store and log in
agreement. -/
theorem step_refines (r : LogRun InmemLogStore) (a : LogRun (IndexedLog LogEntry))
    (event : LogEvent) (h : Agrees dummy r a)
    (hallowed : Allows format r event) :
    ∃ r', step wire format r event = .ok r' ∧ Agrees dummy r' (abstractStep format a event) := by
  rcases h with ⟨href, hreturned⟩
  have hstart : r.store.startIndex = a.store.base := href.start_eq
  unfold Allows at hallowed
  rw [hstart, href.nextSlot_eq] at hallowed
  cases event with
  | append entry =>
      rcases href.append hallowed entry with ⟨s', hrun, href'⟩
      refine ⟨⟨s', r.returned ++ [a.store.next]⟩, ?_, href', ?_⟩
      · simp only [step, hrun]
      · simp only [abstractStep, hreturned]
  | writeAt index entry =>
      rcases hallowed with ⟨hlow, hhigh, hfits⟩
      rcases href.writeAt hlow hhigh hfits entry with ⟨s', hrun, href'⟩
      refine ⟨⟨s', r.returned⟩, ?_, href', hreturned⟩
      simp only [step, hrun]
  | compact lastLogIndex =>
      rcases href.compact hallowed with ⟨s', hrun, href'⟩
      refine ⟨⟨s', r.returned⟩, ?_, href', hreturned⟩
      simp only [step, hrun]
  | applyPack index records =>
      rcases hallowed with ⟨hindex, hne, hcount, hrecords, htouch, hfits⟩
      have htouch' : a.store.entries = [] ∨
          (index ≤ a.store.next ∧ a.store.base ≤ index + records.length) := by
        rcases htouch with hempty | htouch
        · left
          unfold IndexedLog.next at hempty
          exact List.eq_nil_of_length_eq_zero (by omega)
        · exact .inr htouch
      rcases href.applyPack wire hindex hne hcount hrecords htouch' hfits with
        ⟨pack', s', hrun, -, -, -, href'⟩
      refine ⟨⟨s', r.returned⟩, ?_, href', hreturned⟩
      simp only [step, hrun]

end LogRun

/-- Every run of allowed mutations completes.  The keys of the map are then the
dummy entry's and exactly the indices from the start of the log to the slot
computed from the size of the map; start, end, returned indices and all stored
entries are those of the abstract log. -/
theorem inmem_log_store_simulates_log (wire : WireFormat) (format : EntryFormat)
    (dummy : LogEntry) (events : List LogEvent)
    (hallowed : Admissible (LogRun.Allows format) (LogRun.step wire format) events
      ⟨InmemLogStore.create dummy, []⟩) :
    ∃ r, runEvents (LogRun.step wire format) events ⟨InmemLogStore.create dummy, []⟩ = .ok r ∧
      r.store.logs.keys = insert 0 (Finset.Ico r.store.startIndex r.store.nextSlot) ∧
      r.store.startIndex = (LogRun.abstractRun format events).store.base ∧
      r.store.nextSlot = (LogRun.abstractRun format events).store.next ∧
      r.returned = (LogRun.abstractRun format events).returned ∧
      (∀ i, r.store.startIndex ≤ i → i < r.store.nextSlot →
        (LogRun.abstractRun format events).store.get? i = some (r.store.entryAt i) ∧
        r.store.termAt i = (r.store.entryAt i).term) ∧
      (∀ i j, r.store.startIndex ≤ i → i ≤ j → j ≤ r.store.nextSlot →
        r.store.logEntries i j =
          .ok (((LogRun.abstractRun format events).store.slice i j).map some)) ∧
      r.store.lastEntry = (LogRun.abstractRun format events).store.entries.getLast?.getD dummy := by
  rcases runEvents_simulation LogRun.step_refines events (LogRun.agrees_create dummy) hallowed with
    ⟨r, hrun, href, hreturned⟩
  have hstart : r.store.startIndex = (LogRun.abstractRun format events).store.base := href.start_eq
  have hnext : r.store.nextSlot = (LogRun.abstractRun format events).store.next := href.nextSlot_eq
  refine ⟨r, hrun, ?_, hstart, hnext, hreturned, ?_, ?_, href.lastEntry_eq⟩
  · rw [hstart, hnext]
    exact href.keys_eq
  · intro i hlow hhigh
    refine ⟨?_, rfl⟩
    exact href.get?_eq_find (hstart ▸ hlow) (hnext ▸ hhigh)
  · intro i j hlow hij hhigh
    exact href.logEntries_eq (hstart ▸ hlow) hij (hnext ▸ hhigh)

/-- Two appends, a compaction, an overwrite behind it and a pack below the log. -/
theorem inmem_log_store_simulates_log_mixed :
    ∃ r, runEvents (LogRun.step .littleEndian (.nuraft .littleEndian))
        [.append (.create 1 [97] appLog), .append (.create 1 [98] appLog), .compact 1,
          .writeAt 2 (.create 2 [99] appLog),
          .applyPack 1 [(EntryFormat.nuraft .littleEndian).serialize (.create 3 [100] appLog)]]
        ⟨InmemLogStore.create (dummyEntry (List.replicate 8 0)), []⟩ = .ok r ∧
      r.store.logs.keys = insert 0 (Finset.Ico r.store.startIndex r.store.nextSlot) ∧
      r.store.startIndex = 1 ∧ r.store.nextSlot = 3 ∧ r.returned = [1, 2] ∧
      r.store.logEntries 1 3 =
        .ok [some (.create 3 [100] appLog), some (.create 2 [99] appLog)] ∧
      r.store.lastEntry = .create 2 [99] appLog := by
  have hallowed : Admissible (LogRun.Allows (.nuraft .littleEndian))
      (LogRun.step .littleEndian (.nuraft .littleEndian))
      [.append (.create 1 [97] appLog), .append (.create 1 [98] appLog), .compact 1,
        .writeAt 2 (.create 2 [99] appLog),
        .applyPack 1 [(EntryFormat.nuraft .littleEndian).serialize (.create 3 [100] appLog)]]
      ⟨InmemLogStore.create (dummyEntry (List.replicate 8 0)), []⟩ := by
    refine ⟨by decide, ?_⟩
    intro r₁ h₁
    cases h₁
    refine ⟨by decide, ?_⟩
    intro r₂ h₂
    cases h₂
    refine ⟨by decide, ?_⟩
    intro r₃ h₃
    cases h₃
    refine ⟨by decide, ?_⟩
    intro r₄ h₄
    cases h₄
    exact ⟨by decide +kernel, fun _ _ => trivial⟩
  rcases inmem_log_store_simulates_log _ _ _ _ hallowed with
    ⟨r, hrun, hkeys, hstart, hnext, hreturned, -, hentries, hlast⟩
  refine ⟨r, hrun, hkeys, hstart, hnext, hreturned, ?_, hlast⟩
  exact hentries 1 3 (by rw [hstart]; decide) (by decide) (by rw [hnext]; decide)

end ReplicatedSplinterDB
