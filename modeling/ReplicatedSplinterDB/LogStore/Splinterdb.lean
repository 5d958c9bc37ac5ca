import ReplicatedSplinterDB.External.Storage
import ReplicatedSplinterDB.LogStore.Pack

/-!
# The SplinterDB log store

The second log store keeps serialized log entries in a SplinterDB instance
under their 8-byte index, next to the index of the first and of the last entry.
Its methods keep what they have done when they throw, so the model passes the
state along both ways out.

The header documents the first available slot as the last index plus one.  The
code below does not keep to that numbering: {lit}`append` stores under the last
index itself, and {lit}`apply_pack` does not move the last index at all.

Main results:

- Theorem {lit}`append_eq`: where an append stores its entry and what it
  returns.
- Theorem {lit}`splinterdb_append_misses_next_slot`: no append extends the log
  at its next slot, and no sequence of appends fills the indices from 1 on.
- Theorem {lit}`applyPack_lastIdx`: applying a pack leaves the last index where
  it was.
- Theorem {lit}`splinterdb_transfer_loses_next_slot`: no transfer of a range of
  entries leaves the receiving store ready for the next append.
-/

namespace ReplicatedSplinterDB

open Foundation

/-- The members of {lit}`splinterdb_log_store`. -/
structure SplinterdbLogStore where
  spl : Handle UInt64 Bytes
  startIdx : UInt64
  lastIdx : UInt64

/-- {lit}`std::iota` on a vector of the given length: consecutive indices from
{lit}`start` on, which wrap around. -/
def iota (start : UInt64) (length : Nat) : List UInt64 :=
  (List.range length).map fun j => start + UInt64.ofNat j

theorem mem_iota_iff {start k : UInt64} {length : Nat} (hlength : length ≤ 2 ^ 64) :
    k ∈ iota start length ↔ (k - start).toNat < length := by
  unfold iota
  rw [List.mem_map]
  constructor
  · rintro ⟨j, hj, rfl⟩
    rw [List.mem_range] at hj
    have hsub : start + UInt64.ofNat j - start = UInt64.ofNat j := by
      grind
    rw [hsub, UInt64.toNat_ofNat_of_lt' (by change j < 2 ^ 64; omega)]
    exact hj
  · intro h
    refine ⟨(k - start).toNat, List.mem_range.mpr h, ?_⟩
    rw [UInt64.ofNat_toNat]
    grind

/-- The indices that a loop from {lit}`start` to {lit}`stop` visits. -/
def indexRange (start stop : UInt64) : List UInt64 :=
  (List.range (stop.toNat - start.toNat)).map fun j => start + UInt64.ofNat j

/-- A copy of a value in a new buffer.  The cursor is left behind the copied
bytes. -/
def sliceToBuffer (value : Bytes) : Except Exception Buffer :=
  liftBuffer ((putRaw value (Buffer.alloc value.length)).map Prod.snd)

/-- {lit}`log_entry::deserialize` reads from the cursor of its buffer on. -/
def EntryFormat.fromBuffer (format : EntryFormat) (buf : Buffer) : Except Exception LogEntry :=
  match format.deserialize buf.rest with
  | none => .error .badLogEntry
  | some entry => .ok entry

/-- Copy a value to a buffer and decode the buffer. -/
def EntryFormat.fromSlice (format : EntryFormat) (value : Bytes) : Except Exception LogEntry :=
  match sliceToBuffer value with
  | .error e => .error e
  | .ok buf => format.fromBuffer buf

namespace SplinterdbLogStore

/-- The constructor, when SplinterDB creates its instance. -/
def create : SplinterdbLogStore := ⟨Handle.create UInt64 Bytes, 1, 0⟩

/-- The first available slot of the store. -/
def nextSlot (s : SplinterdbLogStore) : UInt64 := s.lastIdx + 1

/-- The start index of the store. -/
def startIndex (s : SplinterdbLogStore) : UInt64 := s.startIdx

/-- What is stored under each index. -/
def contents (s : SplinterdbLogStore) : KVMap UInt64 Bytes := s.spl.contents

/-- The stored indices are exactly those from the start index to the next slot. -/
def Contiguous (s : SplinterdbLogStore) : Prop :=
  ∀ k, (s.contents k).isSome ↔ s.startIndex ≤ k ∧ k < s.nextSlot

theorem contiguous_create : create.Contiguous := by
  intro k
  constructor
  · intro h
    cases h
  · rintro ⟨hlow, hhigh⟩
    exact absurd hhigh (UInt64.not_lt.mpr hlow)

section Methods

variable (wire : WireFormat) (format : EntryFormat) (db : SplinterDB UInt64 Bytes)

/-- The bytes under an index, when both steps of the lookup succeed. -/
def lookupBytes (s : SplinterdbLogStore) (index : UInt64) : Option Bytes :=
  let (rc, result) := db.lookup s.contents index
  if rc = 0 then
    match db.lookupResultValue result with
    | .ok value => some value
    | .error _ => none
  else none

/-- The entry at an index, or null. -/
def entryAt (s : SplinterdbLogStore) (index : UInt64) : Except Exception (Option LogEntry) :=
  match s.lookupBytes db index with
  | none => .ok none
  | some value =>
      match sliceToBuffer value with
      | .error e => .error e
      | .ok buf => (format.fromBuffer buf).map some

/-- The entry at the last index; null stands for the dummy entry of term 0. -/
def lastEntry (s : SplinterdbLogStore) : Except Exception (Option LogEntry) :=
  s.entryAt format db s.lastIdx

/-- The loop of {lit}`log_entries`: the entries at the indices, or null at the
first index that is not found. -/
def logEntriesLoop (s : SplinterdbLogStore) :
    List UInt64 → Except Exception (Option (List LogEntry))
  | [] => .ok (some [])
  | i :: rest =>
      match s.lookupBytes db i with
      | none => .ok none
      | some value =>
          match format.fromSlice value with
          | .error e => .error e
          | .ok entry => (logEntriesLoop s rest).map (Option.map (entry :: ·))

/-- The entries from {lit}`start` up to and excluding {lit}`stop`, or null.  The
vector is sized first; a slot that the loop does not reach stays null. -/
def logEntries (s : SplinterdbLogStore) (start stop : UInt64) :
    Except Exception (Option (List (Option LogEntry))) :=
  let count := (stop - start).toNat
  if vectorMaxSize 16 < count then .error .lengthError
  else
    (s.logEntriesLoop format db (indexRange start stop)).map
      (Option.map fun entries =>
        entries.map some ++ List.replicate (count - entries.length) none)

/-- The term of the entry at an index.  Behind the log it throws; before the log,
or when the lookup fails, it is 0. -/
def termAt (s : SplinterdbLogStore) (index : UInt64) : Except Exception UInt64 :=
  if s.nextSlot ≤ index then .error (.runtimeError "Log index out of range")
  else if index < s.startIndex then .ok 0
  else
    match s.lookupBytes db index with
    | none => .ok 0
    | some value => (format.fromSlice value).map LogEntry.term

/-- Store an entry under the last index and move that index up. -/
def append (entry : LogEntry) : EStateM Exception SplinterdbLogStore UInt64 := fun s =>
  let index := s.lastIdx
  let s := { s with lastIdx := index + 1 }
  let (rc, spl) := s.spl.call db (.insert index (format.serialize entry))
  let s := { s with spl := spl }
  if rc = 0 then .ok index s else .error (.runtimeError "Failed to append log entry") s

/-- Rewind the last index, delete what was stored from an index on, and append
the entry. -/
def writeAt (index : UInt64) (entry : LogEntry) : EStateM Exception SplinterdbLogStore Unit :=
  fun s =>
    let oldLastIdx := s.lastIdx
    let s := { s with lastIdx := index - 1 }
    let count := (oldLastIdx - index + 1).toNat
    if vectorMaxSize 8 < count then .error .lengthError s
    else
      let s := { s with spl := s.spl.deleteAll db (iota index count) }
      match (append format db entry).run s with
      | .error e s => .error e s
      | .ok _ s => .ok () s

/-- The first loop of {lit}`pack`: the serialized entries up to the first index
that is not stored. -/
def collectEntries (s : SplinterdbLogStore) : List UInt64 → Except Exception (List Bytes)
  | [] => .ok []
  | i :: rest =>
      match s.entryAt format db i with
      | .error e => .error e
      | .ok none => .ok []
      | .ok (some entry) => (collectEntries s rest).map (format.serialize entry :: ·)

/-- Pack the given number of entries from an index on. -/
def pack (s : SplinterdbLogStore) (index : UInt64) (signedCnt : Int32) : Except Exception Buffer :=
  let cnt : UInt64 := signedCnt.toInt64.toUInt64
  match s.collectEntries format db (indexRange index (index + cnt)) with
  | .error e => .error e
  | .ok logs =>
      let sizeTotal := (logs.map List.length).sum
      let size := (4 + cnt.toNat * 4 + sizeTotal) % 2 ^ 64
      -- The size of a negative count wraps to one that cannot be allocated.
      if 2 ^ 63 ≤ size then .error .lengthError
      else
        let write : BufferM Unit := do
          put wire.i32 signedCnt
          putRecords wire logs
        liftBuffer ((write (Buffer.alloc size)).map Prod.snd)

/-- The loop of {lit}`apply_pack` with the number of records still to read and
the number of those already stored. -/
def applyPackLoop (index : UInt64) :
    Nat → Nat → Buffer → EStateM Exception SplinterdbLogStore Buffer
  | 0, _, pack => fun s => .ok pack s
  | todo + 1, i, pack => fun s =>
      let curIndex := index + UInt64.ofNat i
      match liftBuffer (get wire.i32 pack) with
      | .error e => .error e s
      | .ok (size, pack) =>
          if size ≤ 0 then .error (.runtimeError "Invalid log entry size") s
          else
            match liftBuffer (getRaw size.toInt.toNat pack) with
            | .error e => .error e s
            | .ok (raw, pack) =>
                let (rc, spl) := s.spl.call db (.insert curIndex raw)
                let s := { s with spl := spl }
                if rc = 0 then applyPackLoop index todo (i + 1) pack s
                else
                  .error (.runtimeError
                    ("Failed to append log entry at index " ++ toString curIndex.toNat)) s

/-- Store the entries of a pack from an index on.  The result is the pack with
its cursor behind what was read. -/
def applyPack (index : UInt64) (pack : Buffer) : EStateM Exception SplinterdbLogStore Buffer :=
  fun s =>
    match liftBuffer (get wire.i32 pack.rewind) with
    | .error e => .error e s
    | .ok (signedCnt, pack) =>
        if signedCnt ≤ 0 then .error (.runtimeError "Invalid log entry count") s
        else applyPackLoop wire db index signedCnt.toInt.toNat 0 pack s

/-- Delete the entries from the start of the log up to an index, and move the
start behind it. -/
def compact (lastLogIndex : UInt64) : EStateM Exception SplinterdbLogStore Bool := fun s =>
  let start := s.startIdx
  let count := (lastLogIndex - start + 1).toNat
  if vectorMaxSize 8 < count then .error .lengthError s
  else
    let s := { s with spl := s.spl.deleteAll db (iota start count) }
    if s.startIdx ≤ lastLogIndex then .ok true { s with startIdx := lastLogIndex + 1 }
    else .ok true s

end Methods

/-! ## Appending -/

section Append

variable {format : EntryFormat} {db : SplinterDB UInt64 Bytes}

/-- A successful append binds the old last index and returns it. -/
theorem append_eq {s : SplinterdbLogStore} {entry : LogEntry}
    (hinsert : (db.insert s.contents s.lastIdx (format.serialize entry)).1 = 0) :
    (append format db entry).run s =
      .ok s.lastIdx
        { spl := (s.spl.call db (.insert s.lastIdx (format.serialize entry))).2
          startIdx := s.startIdx
          lastIdx := s.lastIdx + 1 } := by
  have hcode : (s.spl.call db (.insert s.lastIdx (format.serialize entry))).1 = 0 := hinsert
  simp only [EStateM.run, append, hcode, if_true]

/-- An append that returns has bound the old last index, returned it and moved
it up by one. -/
theorem append_eq_ok {s s' : SplinterdbLogStore} {entry : LogEntry} {index : UInt64}
    (h : (append format db entry).run s = .ok index s') :
    index = s.lastIdx ∧ s'.lastIdx = s.lastIdx + 1 ∧
      (db.insert s.contents s.lastIdx (format.serialize entry)).1 = 0 ∧
      s'.contents = (db.insert s.contents s.lastIdx (format.serialize entry)).2 := by
  by_cases hinsert : (db.insert s.contents s.lastIdx (format.serialize entry)).1 = 0
  · rw [append_eq hinsert] at h
    cases h
    exact ⟨rfl, rfl, hinsert, rfl⟩
  · have hcode : (s.spl.call db (.insert s.lastIdx (format.serialize entry))).1 ≠ 0 := hinsert
    simp only [EStateM.run, append, if_neg hcode] at h
    cases h

/-- An append that throws has moved the last index and stored nothing. -/
theorem append_eq_error {s s' : SplinterdbLogStore} {entry : LogEntry} {e : Exception}
    (hdb : db.Lawful) (h : (append format db entry).run s = .error e s') :
    s'.startIdx = s.startIdx ∧ s'.lastIdx = s.lastIdx + 1 ∧ s'.contents = s.contents := by
  by_cases hinsert : (db.insert s.contents s.lastIdx (format.serialize entry)).1 = 0
  · rw [append_eq hinsert] at h
    cases h
  · have hcode : (s.spl.call db (.insert s.lastIdx (format.serialize entry))).1 ≠ 0 := hinsert
    simp only [EStateM.run, append, if_neg hcode] at h
    cases h
    exact ⟨rfl, rfl, hdb.insert_failed _ _ _ hinsert⟩

/-- Append entries one after the other. -/
def appendAll (format : EntryFormat) (db : SplinterDB UInt64 Bytes) :
    List LogEntry → EStateM Exception SplinterdbLogStore Unit
  | [] => fun s => .ok () s
  | entry :: entries => fun s =>
      match (append format db entry).run s with
      | .error e s => .error e s
      | .ok _ s => appendAll format db entries s

/-- An append extends the log: it returns the next slot, moves that slot by one,
stores the entry under the index it returned, which is the index that
{lit}`last_entry` reads, keeps all other entries, and leaves no gap. -/
def AppendsAtNextSlot (format : EntryFormat) (db : SplinterDB UInt64 Bytes)
    (s : SplinterdbLogStore) (entry : LogEntry) : Prop :=
  ∃ index s', (append format db entry).run s = .ok index s' ∧
    index = s.nextSlot ∧ s'.nextSlot = s.nextSlot + 1 ∧
    s'.contents index = some (format.serialize entry) ∧
    s'.contents (s'.nextSlot - 1) = some (format.serialize entry) ∧
    (∀ k, k ≠ index → s'.contents k = s.contents k) ∧ s'.Contiguous

/-- The entries occupy the indices from 1 on, in their order. -/
def OccupiesFromOne (format : EntryFormat) (s : SplinterdbLogStore) (entries : List LogEntry) :
    Prop :=
  ∀ j entry, entries[j]? = some entry →
    s.contents (UInt64.ofNat (j + 1)) = some (format.serialize entry)

theorem not_appendsAtNextSlot (s : SplinterdbLogStore) (entry : LogEntry) :
    ¬ AppendsAtNextSlot format db s entry := by
  rintro ⟨index, s', hrun, hindex, -⟩
  rcases append_eq_ok hrun with ⟨hlast, -⟩
  rw [hlast, nextSlot] at hindex
  have hne : s.lastIdx ≠ s.lastIdx + 1 := by
    grind
  exact hne hindex

/-- Appends fill the indices from the last one on, so nothing is ever stored at
or above it. -/
theorem appendAll_above (hdb : db.Lawful) {entries : List LogEntry} {s s' : SplinterdbLogStore}
    (hrun : (appendAll format db entries).run s = .ok () s')
    (hfits : s.lastIdx.toNat + entries.length < 2 ^ 64)
    (habove : ∀ k, s.lastIdx ≤ k → s.contents k = none) :
    s'.lastIdx.toNat = s.lastIdx.toNat + entries.length ∧
      ∀ k, s'.lastIdx ≤ k → s'.contents k = none := by
  induction entries generalizing s with
  | nil =>
      cases hrun
      exact ⟨rfl, habove⟩
  | cons entry entries ih =>
      simp only [EStateM.run, appendAll] at hrun
      rw [List.length_cons] at hfits
      cases happend : (append format db entry).run s with
      | error e mid =>
          simp only [EStateM.run] at happend
          simp only [happend] at hrun
          cases hrun
      | ok index mid =>
          rcases append_eq_ok happend with ⟨-, hlast, hinsert, hcontents⟩
          simp only [EStateM.run] at happend
          simp only [happend] at hrun
          have hmid : mid.lastIdx.toNat = s.lastIdx.toNat + 1 := by
            rw [hlast, UInt64.toNat_add]
            exact Nat.mod_eq_of_lt (by simp only [UInt64.toNat_one]; omega)
          have habove' : ∀ k, mid.lastIdx ≤ k → mid.contents k = none := by
            intro k hk
            rw [UInt64.le_iff_toNat_le, hmid] at hk
            rw [hcontents, hdb.insert_ok _ _ _ hinsert, KVMap.set_of_ne]
            · apply habove
              rw [UInt64.le_iff_toNat_le]
              omega
            · intro heq
              rw [heq] at hk
              omega
          rcases ih hrun (by omega) habove' with ⟨hlast', habove''⟩
          refine ⟨?_, habove''⟩
          rw [hlast', hmid, List.length_cons]
          omega

end Append

end SplinterdbLogStore

/-- No append to a contiguous store extends the log at its next slot, also when
SplinterDB stores the entry, and no appends to a fresh store fill the indices
from 1 on: the first entry goes to index 0. -/
theorem splinterdb_append_misses_next_slot (format : EntryFormat) (db : SplinterDB UInt64 Bytes)
    (hdb : db.Lawful) :
    (∀ (s : SplinterdbLogStore) (entry : LogEntry), s.Contiguous →
      (db.insert s.contents s.lastIdx (format.serialize entry)).1 = 0 →
      ¬ SplinterdbLogStore.AppendsAtNextSlot format db s entry) ∧
    (∀ (entries : List LogEntry) (s : SplinterdbLogStore), entries ≠ [] →
      entries.length < 2 ^ 64 →
      (SplinterdbLogStore.appendAll format db entries).run .create = .ok () s →
      ¬ SplinterdbLogStore.OccupiesFromOne format s entries) := by
  constructor
  · intro s entry _ _
    exact SplinterdbLogStore.not_appendsAtNextSlot s entry
  · intro entries s hne hfits hrun hoccupies
    have hpos : 0 < entries.length := List.length_pos_iff.mpr hne
    have hempty : ∀ k, SplinterdbLogStore.create.lastIdx ≤ k →
        SplinterdbLogStore.create.contents k = none := fun _ _ => rfl
    have hzero : SplinterdbLogStore.create.lastIdx.toNat = 0 := rfl
    rcases SplinterdbLogStore.appendAll_above hdb hrun (by omega) hempty with ⟨hlast, habove⟩
    -- The last entry would have to be stored at the index that is still free.
    have hget : entries[entries.length - 1]? = some (entries.getLast hne) := by
      rw [← List.getLast?_eq_getElem?, List.getLast?_eq_getLast_of_ne_nil hne]
    have hstored := hoccupies _ _ hget
    rw [habove] at hstored
    · cases hstored
    · have hsize : entries.length - 1 + 1 < UInt64.size := by
        change _ < 2 ^ 64
        omega
      rw [UInt64.le_iff_toNat_le, hlast, hzero, UInt64.toNat_ofNat_of_lt' hsize]
      omega

/-- One append to a fresh store. -/
theorem splinterdb_append_misses_next_slot_fresh :
    ¬ SplinterdbLogStore.AppendsAtNextSlot (.nuraft .littleEndian) (.reliable UInt64 Bytes)
        .create (.create 1 [97] appLog) ∧
    ¬ SplinterdbLogStore.OccupiesFromOne (.nuraft .littleEndian)
        ⟨(SplinterdbLogStore.create.spl.call (.reliable UInt64 Bytes)
          (.insert 0 ((EntryFormat.nuraft .littleEndian).serialize
            (.create 1 [97] appLog)))).2, 1, 1⟩
        [.create 1 [97] appLog] := by
  have h := splinterdb_append_misses_next_slot (.nuraft .littleEndian) (.reliable UInt64 Bytes)
    (SplinterDB.reliable_lawful UInt64 Bytes)
  constructor
  · apply h.1
    · exact SplinterdbLogStore.contiguous_create
    · rfl
  · apply h.2
    · simp
    · decide
    · rfl

/-- The first append to a fresh store: the slot was 1, the append returns 0 and
stores under 0. -/
theorem first_append_goes_to_zero :
    SplinterdbLogStore.create.Contiguous ∧
    SplinterdbLogStore.create.nextSlot = 1 ∧
    (∃ s, (SplinterdbLogStore.append (.nuraft .littleEndian) (.reliable UInt64 Bytes)
        (.create 1 [97] appLog)).run .create = .ok 0 s ∧
      s.contents 0 = some ((EntryFormat.nuraft .littleEndian).serialize
        (.create 1 [97] appLog)) ∧
      s.contents 1 = none ∧ s.nextSlot = 2) ∧
    ¬ SplinterdbLogStore.AppendsAtNextSlot (.nuraft .littleEndian) (.reliable UInt64 Bytes)
        .create (.create 1 [97] appLog) := by
  refine ⟨SplinterdbLogStore.contiguous_create, rfl, ⟨_, rfl, rfl, rfl, rfl⟩, ?_⟩
  exact SplinterdbLogStore.not_appendsAtNextSlot _ _

/-! ## Transferring a range -/

namespace SplinterdbLogStore

section Transfer

variable {wire : WireFormat} {format : EntryFormat} {db : SplinterDB UInt64 Bytes}

theorem applyPackLoop_lastIdx {index : UInt64} {todo i : Nat} {pack pack' : Buffer}
    {s s' : SplinterdbLogStore}
    (h : applyPackLoop wire db index todo i pack s = .ok pack' s') : s'.lastIdx = s.lastIdx := by
  induction todo generalizing i pack s with
  | zero =>
      cases h
      rfl
  | succ todo ih =>
      simp only [applyPackLoop] at h
      split at h
      · cases h
      · split at h
        · cases h
        · split at h
          · cases h
          · split at h
            · have hrest := ih h
              exact hrest
            · cases h

/-- Applying a pack never moves the last index. -/
theorem applyPack_lastIdx {index : UInt64} {pack pack' : Buffer} {s s' : SplinterdbLogStore}
    (h : (applyPack wire db index pack).run s = .ok pack' s') : s'.lastIdx = s.lastIdx := by
  simp only [EStateM.run, applyPack] at h
  split at h
  · cases h
  · split at h
    · cases h
    · exact applyPackLoop_lastIdx h

/-- A source that holds a range of at least one entry, and a contiguous
destination whose next slot is the first index of the range, over a storage
engine whose calls succeed. -/
structure TransferSetting (format : EntryFormat) (db : SplinterDB UInt64 Bytes)
    (src dst : SplinterdbLogStore) (index : UInt64) (cnt : Int32) : Prop where
  lawful : db.Lawful
  insert_succeeds : ∀ m k v, (db.insert m k v).1 = 0
  lookup_succeeds : ∀ m k, (db.lookup m k).1 = 0
  cnt_pos : 0 < cnt.toInt
  fits : index.toNat + cnt.toInt.toNat < 2 ^ 64
  stored : ∀ j, j < cnt.toInt.toNat → ∃ entry,
    src.contents (index + UInt64.ofNat j) = some (format.serialize entry) ∧
    (format.serialize entry).length < 2 ^ 31
  contiguous : dst.Contiguous
  next_eq : dst.nextSlot = index

/-- The transfer completes, copies the range and nothing else, moves the next
slot behind the range, and the next append goes there. -/
def Transfers (wire : WireFormat) (format : EntryFormat) (db : SplinterDB UInt64 Bytes)
    (src dst : SplinterdbLogStore) (index : UInt64) (cnt : Int32) : Prop :=
  ∃ pack pack' dst', src.pack wire format db index cnt = .ok pack ∧
    (applyPack wire db index pack).run dst = .ok pack' dst' ∧
    (∀ j, j < cnt.toInt.toNat →
      dst'.contents (index + UInt64.ofNat j) = src.contents (index + UInt64.ofNat j)) ∧
    (∀ k, k < index ∨ index + UInt64.ofNat cnt.toInt.toNat ≤ k →
      dst'.contents k = dst.contents k) ∧
    dst'.nextSlot = index + UInt64.ofNat cnt.toInt.toNat ∧
    ∀ entry, ∃ idx dst'', (append format db entry).run dst' = .ok idx dst'' ∧
      dst''.contents (index + UInt64.ofNat cnt.toInt.toNat) = some (format.serialize entry) ∧
      ∀ j, j < cnt.toInt.toNat →
        dst''.contents (index + UInt64.ofNat j) = dst'.contents (index + UInt64.ofNat j)

end Transfer

end SplinterdbLogStore

/-- No transfer between two stores leaves the receiving store with its next
slot behind the range it received. -/
theorem splinterdb_transfer_loses_next_slot (wire : WireFormat) (format : EntryFormat)
    (db : SplinterDB UInt64 Bytes) (src dst : SplinterdbLogStore) (index : UInt64) (cnt : Int32)
    (h : SplinterdbLogStore.TransferSetting format db src dst index cnt) :
    ¬ SplinterdbLogStore.Transfers wire format db src dst index cnt := by
  rintro ⟨pack, pack', dst', -, happly, -, -, hnext, -⟩
  have hlast := SplinterdbLogStore.applyPack_lastIdx happly
  have hsame : dst'.nextSlot = index := by
    rw [← h.next_eq, SplinterdbLogStore.nextSlot, SplinterdbLogStore.nextSlot, hlast]
  have hcnt := h.cnt_pos
  have hfits := h.fits
  have hsize : cnt.toInt.toNat < UInt64.size := by
    change _ < 2 ^ 64
    omega
  -- Adding a positive count that does not wrap moves every index.
  have hmoved : (index + UInt64.ofNat cnt.toInt.toNat).toNat = index.toNat + cnt.toInt.toNat := by
    rw [UInt64.toNat_add, UInt64.toNat_ofNat_of_lt' hsize]
    exact Nat.mod_eq_of_lt hfits
  rw [hsame] at hnext
  rw [← hnext] at hmoved
  omega

namespace SplinterdbLogStore

/-- A store that holds one entry, at index 1. -/
def oneEntry : SplinterdbLogStore :=
  ⟨⟨(Handle.create UInt64 Bytes).contents.set 1
    ((EntryFormat.nuraft .littleEndian).serialize (.create 1 [97] appLog)), []⟩, 1, 1⟩

theorem transferSetting_oneEntry :
    TransferSetting (.nuraft .littleEndian) (.reliable UInt64 Bytes) oneEntry .create 1 1 where
  lawful := SplinterDB.reliable_lawful UInt64 Bytes
  insert_succeeds _ _ _ := rfl
  lookup_succeeds _ _ := rfl
  cnt_pos := by decide
  fits := by decide
  stored := by
    intro j hj
    have hzero : j = 0 := by
      change j < 1 at hj
      omega
    subst hzero
    exact ⟨.create 1 [97] appLog, rfl, by decide⟩
  contiguous := contiguous_create
  next_eq := rfl

end SplinterdbLogStore

theorem splinterdb_transfer_loses_next_slot_one :
    SplinterdbLogStore.TransferSetting (.nuraft .littleEndian) (.reliable UInt64 Bytes)
      .oneEntry .create 1 1 ∧
    ¬ SplinterdbLogStore.Transfers .littleEndian (.nuraft .littleEndian)
      (.reliable UInt64 Bytes) .oneEntry .create 1 1 :=
  ⟨SplinterdbLogStore.transferSetting_oneEntry,
    splinterdb_transfer_loses_next_slot _ _ _ _ _ _ _ SplinterdbLogStore.transferSetting_oneEntry⟩

/-- One entry moved to a fresh store.  The source cannot even read its entry
back, because the copy it decodes is read from behind its last byte.  A pack of
that entry is stored at index 1 and leaves the next slot there. -/
theorem transfer_of_one_entry_fails :
    SplinterdbLogStore.TransferSetting (.nuraft .littleEndian) (.reliable UInt64 Bytes)
      .oneEntry .create 1 1 ∧
    SplinterdbLogStore.oneEntry.pack .littleEndian (.nuraft .littleEndian)
      (.reliable UInt64 Bytes) 1 1 = .error .badLogEntry ∧
    (∃ pack' dst', (SplinterdbLogStore.applyPack .littleEndian (.reliable UInt64 Bytes) 1
        (.ofBytes (packBytes .littleEndian [(EntryFormat.nuraft .littleEndian).serialize
          (.create 1 [97] appLog)]))).run .create = .ok pack' dst' ∧
      dst'.contents 1 = SplinterdbLogStore.oneEntry.contents 1 ∧ dst'.nextSlot = 1) ∧
    ¬ SplinterdbLogStore.Transfers .littleEndian (.nuraft .littleEndian)
      (.reliable UInt64 Bytes) .oneEntry .create 1 1 := by
  refine ⟨SplinterdbLogStore.transferSetting_oneEntry, rfl, ⟨_, _, rfl, rfl, rfl⟩, ?_⟩
  rintro ⟨pack, pack', dst', hpack, -⟩
  have hfails : SplinterdbLogStore.oneEntry.pack .littleEndian (.nuraft .littleEndian)
      (.reliable UInt64 Bytes) 1 1 = .error .badLogEntry := rfl
  rw [hfails] at hpack
  cases hpack

end ReplicatedSplinterDB
