import ReplicatedSplinterDB.LogStore.Splinterdb

/-!
# Reading the SplinterDB log store

All reads look an index up, copy the value that was found to a buffer and decode
the buffer.  The copy moves the cursor of the buffer behind the last byte, and
the decoder starts at the cursor, so it never sees a byte of the entry.

Main results:

- Theorem {lit}`EntryFormat.fromSlice_eq`: decoding a value that was found always
  throws.
- Theorem {lit}`splinterdb_reads_back_iff`: the reads do what is documented if and
  only if there is nothing to read.
-/

namespace ReplicatedSplinterDB

open Foundation

/-- The decoder starts behind the last byte of the copy. -/
theorem EntryFormat.fromSlice_eq {format : EntryFormat} (hformat : format.Lawful) (value : Bytes) :
    format.fromSlice value = .error .badLogEntry := by
  rcases ((writes_putRaw value).run_alloc value.length).1 (Nat.le_refl _) with
    ⟨buf, hrun, hbytes, -, hpos⟩
  have hcopy : sliceToBuffer value = .ok buf := by
    unfold sliceToBuffer
    rw [hrun]
    rfl
  have hrest : buf.rest = [] := by
    unfold Buffer.rest
    rw [hbytes, hpos, List.drop_length]
  simp only [EntryFormat.fromSlice, hcopy, EntryFormat.fromBuffer, hrest,
    hformat.deserialize_nil]

namespace SplinterdbLogStore

variable {format : EntryFormat} {db : SplinterDB UInt64 Bytes} {s : SplinterdbLogStore}

/-- Lookups that succeed find what is stored. -/
theorem lookupBytes_eq (hdb : db.Lawful) (hlookup : ∀ m k, (db.lookup m k).1 = 0)
    (index : UInt64) : s.lookupBytes db index = s.contents index := by
  have hcode := hlookup s.contents index
  have hfound := hdb.lookup_ok _ _ hcode
  simp only [lookupBytes, hcode, hfound, if_true]
  cases s.contents index <;> rfl

/-- Reading an entry is looking it up and decoding it. -/
theorem entryAt_of_lookupBytes {index : UInt64} {value : Bytes}
    (h : s.lookupBytes db index = some value) :
    s.entryAt format db index = (format.fromSlice value).map some := by
  simp only [entryAt, h, EntryFormat.fromSlice]
  cases sliceToBuffer value <;> rfl

/-- What the reads of a store are for.  Every stored entry is read back with its
term, value type and payload, one by one, as the last one and over a range; an
index without an entry reads as null, and a range does if and only if it has
such an index. -/
structure ReadsBack (format : EntryFormat) (db : SplinterDB UInt64 Bytes)
    (s : SplinterdbLogStore) (start stop : UInt64) : Prop where
  entryAt_stored : ∀ i entry, s.contents i = some (format.serialize entry) →
    ∃ read, s.entryAt format db i = .ok (some read) ∧ read.Matches entry
  entryAt_absent : ∀ i, s.contents i = none → s.entryAt format db i = .ok none
  termAt_stored : ∀ i entry, s.contents i = some (format.serialize entry) →
    s.startIndex ≤ i → i < s.nextSlot → s.termAt format db i = .ok entry.term
  lastEntry_stored : ∀ entry, s.contents (s.nextSlot - 1) = some (format.serialize entry) →
    ∃ read, s.lastEntry format db = .ok (some read) ∧ read.Matches entry
  logEntries_absent : (∃ i, start ≤ i ∧ i < stop ∧ s.contents i = none) →
    s.logEntries format db start stop = .ok none
  logEntries_stored : (∀ i, start ≤ i → i < stop → s.contents i ≠ none) →
    ∃ entries, s.logEntries format db start stop = .ok (some entries) ∧
      entries.length = (stop - start).toNat ∧
      ∀ j, j < entries.length → ∃ read, entries[j]? = some (some read) ∧
        s.entryAt format db (start + UInt64.ofNat j) = .ok (some read)

theorem indexRange_eq_nil {start stop : UInt64} (h : ¬ start < stop) :
    indexRange start stop = [] := by
  rw [UInt64.lt_iff_toNat_lt] at h
  have hzero : stop.toNat - start.toNat = 0 := by omega
  simp [indexRange, hzero]

/-- A range that is not empty begins with its first index. -/
theorem indexRange_eq_cons {start stop : UInt64} (h : start < stop) :
    ∃ rest, indexRange start stop = start :: rest := by
  rw [UInt64.lt_iff_toNat_lt] at h
  rcases Nat.exists_eq_succ_of_ne_zero (show stop.toNat - start.toNat ≠ 0 by omega) with
    ⟨n, hn⟩
  unfold indexRange
  rw [hn, List.range_succ_eq_map, List.map_cons]
  have hfirst : start + UInt64.ofNat 0 = start := UInt64.add_zero start
  rw [hfirst]
  exact ⟨_, rfl⟩

/-- A store that holds nothing reads as null everywhere, as long as the vector
for the range can be made. -/
theorem readsBack_of_empty (hdb : db.Lawful) (hlookup : ∀ m k, (db.lookup m k).1 = 0)
    (hempty : ∀ i, s.contents i = none) {start stop : UInt64} (hle : start ≤ stop)
    (hfits : (stop - start).toNat ≤ vectorMaxSize 16) : s.ReadsBack format db start stop := by
  have hnone : ∀ i, s.lookupBytes db i = none := by
    intro i
    rw [lookupBytes_eq hdb hlookup, hempty]
  refine ⟨?_, ?_, ?_, ?_, ?_, ?_⟩
  · intro i entry h
    rw [hempty] at h
    cases h
  · intro i _
    simp only [entryAt, hnone]
  · intro i entry h
    rw [hempty] at h
    cases h
  · intro entry h
    rw [hempty] at h
    cases h
  · rintro ⟨i, hlow, hhigh, -⟩
    rcases indexRange_eq_cons (UInt64.lt_of_le_of_lt hlow hhigh) with ⟨rest, hrange⟩
    simp only [logEntries, hrange, logEntriesLoop, hnone]
    rw [if_neg (Nat.not_lt.mpr hfits)]
    rfl
  · intro hall
    have hlt : ¬ start < stop := fun h => hall start (UInt64.le_refl _) h (hempty start)
    have hsame : stop - start = 0 := by
      grind
    refine ⟨[], ?_, ?_, ?_⟩
    · simp only [logEntries, indexRange_eq_nil hlt, logEntriesLoop, hsame]
      rfl
    · rw [hsame]
      rfl
    · intro j hj
      cases hj

/-- Nothing that is stored can be read, and a range that is too long for a vector
throws although it has an index without an entry. -/
theorem empty_of_readsBack (hformat : format.Lawful) (hdb : db.Lawful)
    (hlookup : ∀ m k, (db.lookup m k).1 = 0)
    (hstored : ∀ i bytes, s.contents i = some bytes → ∃ entry, bytes = format.serialize entry)
    {start stop : UInt64} (hle : start ≤ stop) (h : s.ReadsBack format db start stop) :
    (∀ i, s.contents i = none) ∧ (stop - start).toNat ≤ vectorMaxSize 16 := by
  have hempty : ∀ i, s.contents i = none := by
    intro i
    cases hi : s.contents i with
    | none => rfl
    | some bytes =>
        rcases hstored i bytes hi with ⟨entry, rfl⟩
        rcases h.entryAt_stored i entry hi with ⟨read, hread, -⟩
        rw [entryAt_of_lookupBytes ((lookupBytes_eq hdb hlookup i).trans hi),
          EntryFormat.fromSlice_eq hformat] at hread
        cases hread
  refine ⟨hempty, ?_⟩
  by_contra hlong
  have hlt : start < stop := by
    by_contra hnot
    have hsame : stop - start = 0 := by
      grind
    rw [hsame] at hlong
    exact hlong (Nat.zero_le _)
  have hnull := h.logEntries_absent ⟨start, UInt64.le_refl _, hlt, hempty start⟩
  simp only [logEntries] at hnull
  rw [if_pos (Nat.not_le.mp hlong)] at hnull
  cases hnull

end SplinterdbLogStore

/-- For every store whose values are serialized entries and every range, with
lookups that succeed and memory for a vector of the length of the range: the reads
return what was stored, and null exactly where nothing is stored, if and only if
the store holds no entry at all and the range is no longer than the longest
vector. -/
theorem splinterdb_reads_back_iff (format : EntryFormat) (hformat : format.Lawful)
    (db : SplinterDB UInt64 Bytes) (hdb : db.Lawful) (hlookup : ∀ m k, (db.lookup m k).1 = 0)
    (s : SplinterdbLogStore)
    (hstored : ∀ i bytes, s.contents i = some bytes → ∃ entry, bytes = format.serialize entry)
    (start stop : UInt64) (hle : start ≤ stop) :
    s.ReadsBack format db start stop ↔
      (∀ i, s.contents i = none) ∧ (stop - start).toNat ≤ vectorMaxSize 16 := by
  constructor
  · exact SplinterdbLogStore.empty_of_readsBack hformat hdb hlookup hstored hle
  · rintro ⟨hempty, hfits⟩
    exact SplinterdbLogStore.readsBack_of_empty hdb hlookup hempty hle hfits

/-- A store that was just created. -/
theorem splinterdb_reads_back_fresh :
    SplinterdbLogStore.ReadsBack (.nuraft .littleEndian) (.reliable UInt64 Bytes) .create 1 3 := by
  rw [splinterdb_reads_back_iff (.nuraft .littleEndian) (EntryFormat.nuraft_lawful _)
    (.reliable UInt64 Bytes) (SplinterDB.reliable_lawful UInt64 Bytes) (fun _ _ => rfl) .create]
  · exact ⟨fun _ => rfl, by decide⟩
  · intro i bytes h
    cases h
  · decide

/-- A store with one entry, at index 1: every read of it throws. -/
theorem stored_entry_cannot_be_read :
    SplinterdbLogStore.oneEntry.contents 1 =
      some ((EntryFormat.nuraft .littleEndian).serialize (.create 1 [97] appLog)) ∧
    SplinterdbLogStore.oneEntry.entryAt (.nuraft .littleEndian) (.reliable UInt64 Bytes) 1 =
      .error .badLogEntry ∧
    SplinterdbLogStore.oneEntry.termAt (.nuraft .littleEndian) (.reliable UInt64 Bytes) 1 =
      .error .badLogEntry ∧
    SplinterdbLogStore.oneEntry.lastEntry (.nuraft .littleEndian) (.reliable UInt64 Bytes) =
      .error .badLogEntry ∧
    SplinterdbLogStore.oneEntry.logEntries (.nuraft .littleEndian) (.reliable UInt64 Bytes) 1 2 =
      .error .badLogEntry ∧
    ¬ SplinterdbLogStore.ReadsBack (.nuraft .littleEndian) (.reliable UInt64 Bytes) .oneEntry
      1 2 := by
  refine ⟨rfl, rfl, rfl, rfl, rfl, ?_⟩
  intro h
  rcases h.entryAt_stored 1 (.create 1 [97] appLog) rfl with ⟨read, hread, -⟩
  cases hread

end ReplicatedSplinterDB
