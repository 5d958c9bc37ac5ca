import ReplicatedSplinterDB.LogStore.InMemory

/-!
# Ranges of the in-memory log

Moving a range of entries to another in-memory log store as a pack.  The bytes
that {lit}`pack` writes are the layout that {lit}`apply_pack` reads, so what the
receiver stores is what it decodes from the serialized entries; the start of its
log and its next slot are then computed from the map again.

Main results:

- Structure {lit}`InmemLogStore.Contiguous`: the keys of a store are the dummy
  entry's and the indices of its log.
- Theorem {lit}`InmemLogStore.Contiguous.refines`: such a store is a log.
- Theorem {lit}`InmemLogStore.Contiguous.pack_eq`: a range of the log is packed
  completely, and the store is left as it is.
- Theorem {lit}`inmem_log_store_transfers_range`: what a transfer does to the
  receiving store.
-/

namespace ReplicatedSplinterDB

open Foundation

namespace InmemLogStore

/-! ## Contiguous stores -/

/-- The map holds the dummy entry and one entry for every index of the log, and
the start of the log is a {lit}`ulong`. -/
structure Contiguous (s : InmemLogStore) : Prop where
  start_lt : s.startIdx < 2 ^ 64
  keys_eq : s.logs.keys = insert 0 (Finset.Ico s.startIndex s.nextSlot)

/-- The log that a contiguous store holds. -/
def asLog (s : InmemLogStore) : IndexedLog LogEntry :=
  ⟨s.startIndex, (List.range' s.startIndex (s.nextSlot - s.startIndex)).map s.find⟩

theorem lookup_eq_find {s : InmemLogStore} {j : Nat} (h : j ∈ s.logs) :
    s.logs.lookup j = some (s.find j) := by
  rcases Finmap.mem_iff.mp h with ⟨entry, hentry⟩
  unfold find
  rw [hentry]

theorem Refines.contiguous {dummy : LogEntry} {s : InmemLogStore} {log : IndexedLog LogEntry}
    (h : Refines dummy s log) : s.Contiguous := by
  have hstart : s.startIndex = log.base := h.start_eq
  constructor
  · have hnext : log.base ≤ log.next := Nat.le_add_right _ _
    rw [h.start_eq]
    exact Nat.lt_of_le_of_lt hnext h.next_lt
  · rw [hstart, h.nextSlot_eq]
    exact h.keys_eq

namespace Contiguous

variable {s : InmemLogStore}

theorem mem_iff (h : s.Contiguous) (j : Nat) :
    j ∈ s.logs ↔ j = 0 ∨ (s.startIndex ≤ j ∧ j < s.nextSlot) := by
  rw [← Finmap.mem_keys, h.keys_eq, Finset.mem_insert, Finset.mem_Ico]

theorem mem_of_mem_log (h : s.Contiguous) {j : Nat} (hlow : s.startIndex ≤ j)
    (hhigh : j < s.nextSlot) : j ∈ s.logs :=
  (h.mem_iff j).mpr (.inr ⟨hlow, hhigh⟩)

theorem nextSlot_lt (s : InmemLogStore) : s.nextSlot < 2 ^ 64 :=
  Nat.mod_lt _ (Nat.two_pow_pos 64)

/-- The next slot is computed from the size of the map, which is the length of
the log; so it does not lie below the start. -/
theorem start_le_next (h : s.Contiguous) : s.startIndex ≤ s.nextSlot := by
  have hpos := s.start_pos
  have hlt := h.start_lt
  have hsize : s.logs.size = s.nextSlot - s.startIndex + 1 := by
    unfold OrderedMap.size
    rw [h.keys_eq, Finset.card_insert_of_notMem, Nat.card_Ico]
    rw [Finset.mem_Ico]
    unfold startIndex
    omega
  have hnext : s.nextSlot = wrap64 (s.startIdx + s.logs.size - 1) := rfl
  rw [hsize] at hnext
  unfold startIndex at hnext ⊢
  by_contra hbelow
  have hempty : s.nextSlot - s.startIdx = 0 := by omega
  rw [hempty, wrap64_of_lt (by omega)] at hnext
  omega

theorem next_asLog (h : s.Contiguous) : s.asLog.next = s.nextSlot := by
  have hle := h.start_le_next
  simp only [asLog, IndexedLog.next, List.length_map, List.length_range']
  omega

/-- A contiguous store is the log that it holds. -/
theorem refines (h : s.Contiguous) : Refines (s.find 0) s s.asLog := by
  have hpos : 1 ≤ s.startIndex := s.start_pos
  refine ⟨rfl, lookup_eq_find s.zero_mem, ?_, ?_⟩
  · intro j hj
    by_cases hlog : s.startIndex ≤ j ∧ j < s.nextSlot
    · rw [lookup_eq_find (h.mem_of_mem_log hlog.1 hlog.2)]
      have hindex : s.startIndex + (j - s.startIndex) = j := by omega
      have hoffset : j - s.startIndex < s.nextSlot - s.startIndex := by omega
      simp only [IndexedLog.get?, asLog, if_neg (Nat.not_lt.mpr hlog.1), List.getElem?_map,
        List.getElem?_range' hoffset, Nat.one_mul, Option.map_some, hindex]
    · have habsent : j ∉ s.logs := by
        rw [h.mem_iff]
        omega
      rw [Finmap.lookup_eq_none.mpr habsent]
      symm
      rw [IndexedLog.get?_eq_none_iff, h.next_asLog]
      change j < s.startIndex ∨ s.nextSlot ≤ j
      omega
  · rw [h.next_asLog]
    exact nextSlot_lt s

/-- The log is empty if its start is the next slot. -/
theorem asLog_entries_eq_nil_iff (h : s.Contiguous) :
    s.asLog.entries = [] ↔ s.startIndex = s.nextSlot := by
  have hle := h.start_le_next
  simp only [asLog, List.map_eq_nil_iff, List.range'_eq_nil_iff]
  omega

end Contiguous

/-! ## Packing a range -/

section Packs

variable (wire : WireFormat) (format : EntryFormat)

/-- The serialized entries of a range. -/
def rangeRecords (s : InmemLogStore) (index count : Nat) : List Bytes :=
  ((List.range' index count).map s.find).map format.serialize

theorem length_rangeRecords (s : InmemLogStore) (index count : Nat) :
    (rangeRecords format s index count).length = count := by
  simp [rangeRecords]

theorem collectEntries_eq {s : InmemLogStore} {indices : List Nat}
    (hstored : ∀ j ∈ indices, j ∈ s.logs) :
    collectEntries format indices s = .ok ((indices.map s.find).map format.serialize) s := by
  induction indices with
  | nil => rfl
  | cons j indices ih =>
      rw [List.forall_mem_cons] at hstored
      simp only [collectEntries, lookup_eq_find hstored.1, ih hstored.2, List.map_cons]

theorem Contiguous.length_lt_of_mem_rangeRecords {format : EntryFormat} {s : InmemLogStore}
    (h : s.Contiguous) {index count : Nat} (hlow : s.startIndex ≤ index)
    (hhigh : index + count ≤ s.nextSlot)
    (hsizes : ∀ j entry, index ≤ j → j < index + count → s.logs.lookup j = some entry →
      (format.serialize entry).length < 2 ^ 31) :
    ∀ raw ∈ rangeRecords format s index count, raw.length < 2 ^ 31 := by
  intro raw hraw
  rcases List.mem_map.mp hraw with ⟨entry, hentry, rfl⟩
  rcases List.mem_map.mp hentry with ⟨j, hj, rfl⟩
  rw [List.mem_range'_1] at hj
  have hstored := h.mem_of_mem_log (j := j) (by omega) (by omega)
  exact hsizes j _ hj.1 hj.2 (lookup_eq_find hstored)

theorem sum_length_le {records : List Bytes} (h : ∀ raw ∈ records, raw.length < 2 ^ 31) :
    (records.map List.length).sum ≤ records.length * 2 ^ 31 := by
  induction records with
  | nil => exact Nat.le_refl 0
  | cons raw records ih =>
      rw [List.forall_mem_cons] at h
      have hrest := ih h.2
      simp only [List.map_cons, List.sum_cons, List.length_cons]
      omega

/-- A count that is not negative is the number of entries it stands for. -/
theorem toNat_toUInt64_of_nonneg {cnt : Int32} (h : 0 ≤ cnt) :
    cnt.toInt64.toUInt64.toNat = cnt.toInt.toNat := by
  have hnonneg : 0 ≤ cnt.toInt64 := by
    rw [Int64.le_iff_toInt_le, Int32.toInt_toInt64]
    exact Int32.le_iff_toInt_le.mp h
  rw [Int64.toNat_toUInt64_of_le hnonneg, Int32.toNatClampNeg_toInt64]
  rfl

/-- A range of the log is packed completely, and the store is left as it is. -/
theorem Contiguous.pack_eq {s : InmemLogStore} (h : s.Contiguous) {index : Nat} {cnt : Int32}
    (hcnt : 1 ≤ cnt) (hlow : s.startIndex ≤ index) (hhigh : index + cnt.toInt.toNat ≤ s.nextSlot)
    (hsizes : ∀ raw ∈ rangeRecords format s index cnt.toInt.toNat, raw.length < 2 ^ 31) :
    ∃ buf, (pack wire format index cnt).run s = .ok buf s ∧ buf.Full ∧
      buf.bytes = packBytes wire (rangeRecords format s index cnt.toInt.toNat) := by
  have hlt := nextSlot_lt s
  have hnonneg : 0 ≤ cnt := by
    rw [Int32.le_iff_toInt_le] at hcnt ⊢
    exact Int.le_trans (by decide) hcnt
  have hbound : cnt.toInt.toNat < 2 ^ 31 := Int32.toNatClampNeg_lt cnt
  have hstop : wrap64 (index + cnt.toInt.toNat) - index = cnt.toInt.toNat := by
    rw [wrap64_of_lt (by omega)]
    omega
  have hstored : ∀ j ∈ List.range' index cnt.toInt.toNat, j ∈ s.logs := by
    intro j hj
    rw [List.mem_range'_1] at hj
    exact h.mem_of_mem_log (by omega) (by omega)
  have hcollect : collectEntries format (List.range' index cnt.toInt.toNat) s =
      .ok (rangeRecords format s index cnt.toInt.toNat) s :=
    collectEntries_eq format hstored
  have hlength := length_rangeRecords format s index cnt.toInt.toNat
  generalize rangeRecords format s index cnt.toInt.toNat = records at hsizes hcollect hlength ⊢
  have hsum := sum_length_le hsizes
  have hcount : Int32.ofNat records.length = cnt := by
    rw [hlength]
    exact Int32.ofNat_toNatClampNeg cnt hnonneg
  -- No size wraps, so the allocated size is the length of the layout.
  have hsize := length_packBytes wire records
  rw [hlength] at hsize hsum
  have hwrap : wrap64 (4 + cnt.toInt.toNat * 4 + (records.map List.length).sum) =
      (packBytes wire records).length := by
    rw [hsize]
    exact wrap64_of_lt (by omega)
  have hwrites := writes_putPack wire records
  rw [hcount] at hwrites
  rcases (hwrites.run_alloc _).1 (Nat.le_refl _) with ⟨buf, hrun, hbytes, hfits, -⟩
  refine ⟨buf, ?_, ?_, hbytes⟩
  · simp only [EStateM.run, pack, toNat_toUInt64_of_nonneg hnonneg, hstop, hcollect, hwrap]
    rw [if_neg (by omega), hrun]
    rfl
  · unfold Buffer.Full
    rw [hbytes, hfits]

end Packs

/-! ## Applying a packed range -/

/-- A pack is applied from its start, wherever its cursor is. -/
theorem applyPack_of_full {wire : WireFormat} {format : EntryFormat} {buf : Buffer}
    (h : buf.Full) (index : Nat) :
    applyPack wire format index buf = applyPack wire format index (.ofBytes buf.bytes) := by
  unfold applyPack
  rw [h.rewind_eq, Buffer.rewind_ofBytes]

/-- A pack that touches the log of a contiguous store overwrites its range and
nothing else. -/
theorem Contiguous.applyPack {s : InmemLogStore} {format : EntryFormat} (h : s.Contiguous)
    (wire : WireFormat) {index : Nat} {records : List Bytes} (hindex : 1 ≤ index)
    (hne : records ≠ []) (hcount : records.length < 2 ^ 31)
    (hrecords : ∀ raw ∈ records, raw.length < 2 ^ 31 ∧ (format.deserialize raw).isSome)
    (htouch : s.startIndex = s.nextSlot ∨
      (index ≤ s.nextSlot ∧ s.startIndex ≤ index + records.length))
    (hfits : index + records.length < 2 ^ 64) :
    ∃ pack' s', (InmemLogStore.applyPack wire format index
        (.ofBytes (packBytes wire records))).run s = .ok pack' s' ∧
      pack'.rest = [] ∧ pack'.bytes = packBytes wire records ∧ pack'.Full ∧ s'.Contiguous ∧
      (∀ j, s'.logs.lookup j =
        if j < index then s.logs.lookup j
        else if j < index + records.length then
          (records.filterMap format.deserialize)[j - index]?
        else s.logs.lookup j) ∧
      s'.startIndex = (if s.startIndex = s.nextSlot then index else min s.startIndex index) ∧
      s'.nextSlot =
        (if s.startIndex = s.nextSlot then index + records.length
          else max s.nextSlot (index + records.length)) := by
  have hlen := length_filterMap_deserialize fun raw hmem => (hrecords raw hmem).2
  have hlogTouch : s.asLog.entries = [] ∨
      (index ≤ s.asLog.next ∧ s.asLog.base ≤ index + records.length) := by
    rw [h.asLog_entries_eq_nil_iff, h.next_asLog]
    exact htouch
  rcases h.refines.applyPack wire hindex hne hcount hrecords hlogTouch hfits with
    ⟨pack', s', hrun, hrest, hbytes, hfull, href⟩
  rw [← hlen] at hlogTouch
  refine ⟨pack', s', hrun, hrest, hbytes, hfull, href.contiguous, ?_, ?_, ?_⟩
  · intro j
    by_cases hzero : j = 0
    · subst hzero
      rw [href.lookup_zero, if_pos (by omega), h.refines.lookup_zero]
    · have hj : 1 ≤ j := by omega
      rw [href.lookup_eq j hj, IndexedLog.get?_splice hlogTouch, hlen, h.refines.lookup_eq j hj]
  · have hstart : s'.startIndex = _ := href.start_eq
    rw [hstart, IndexedLog.base_splice]
    simp only [h.asLog_entries_eq_nil_iff]
    rfl
  · rw [href.nextSlot_eq, IndexedLog.next_splice hlogTouch, hlen, h.next_asLog]
    simp only [h.asLog_entries_eq_nil_iff]

section Transfer

variable {format : EntryFormat}
  (hformat : ∀ entry, ∃ read,
    format.deserialize (format.serialize entry) = some read ∧ read.Matches entry)
include hformat

/-- Decoding serialized entries yields entries that match them, one by one. -/
theorem forall₂_matches_decoded (entries : List LogEntry) :
    List.Forall₂ LogEntry.Matches ((entries.map format.serialize).filterMap format.deserialize)
      entries := by
  induction entries with
  | nil => exact .nil
  | cons entry entries ih =>
      rcases hformat entry with ⟨read, hread, hmatches⟩
      rw [List.map_cons, List.filterMap_cons_some hread]
      exact .cons hmatches ih

theorem isSome_deserialize_of_mem_rangeRecords {s : InmemLogStore} {index count : Nat}
    {raw : Bytes} (h : raw ∈ rangeRecords format s index count) :
    (format.deserialize raw).isSome := by
  rcases List.mem_map.mp h with ⟨entry, -, rfl⟩
  rcases hformat entry with ⟨read, hread, -⟩
  rw [hread]
  rfl

/-- What stands at the indices of a range once its entries are decoded. -/
theorem exists_decoded_matches (s : InmemLogStore) {index count j : Nat} (hlow : index ≤ j)
    (hhigh : j < index + count) :
    ∃ read, ((rangeRecords format s index count).filterMap format.deserialize)[j - index]? =
        some read ∧ read.Matches (s.find j) := by
  have hall := forall₂_matches_decoded hformat ((List.range' index count).map s.find)
  have hlength := hall.length_eq
  rw [List.length_map, List.length_range'] at hlength
  have hsource : ((List.range' index count).map s.find)[j - index]? = some (s.find j) := by
    have hoffset : j - index < count := by omega
    have hindex : index + (j - index) = j := by omega
    rw [List.getElem?_map, List.getElem?_range' hoffset, Nat.one_mul, hindex, Option.map_some]
  rcases List.getElem?_eq_some_iff.mp hsource with ⟨hin, hget⟩
  have hread : j - index <
      ((rangeRecords format s index count).filterMap format.deserialize).length := by
    unfold rangeRecords
    omega
  refine ⟨_, List.getElem?_eq_getElem hread, ?_⟩
  rw [← hget]
  exact hall.get hread hin

end Transfer

end InmemLogStore

/-- Moving a range of a contiguous log to a contiguous store that is empty or
whose log touches the range.  The pack fills its buffer and is read to its end.
The range then matches the source, all other entries are kept, and the ends of
the log are those of the union. -/
theorem inmem_log_store_transfers_range (wire : WireFormat) (format : EntryFormat)
    (hformat : ∀ entry, ∃ read,
      format.deserialize (format.serialize entry) = some read ∧ read.Matches entry)
    (src dst : InmemLogStore) (hsrc : src.Contiguous) (hdst : dst.Contiguous) (i : Nat)
    (cnt : Int32) (hcnt : 1 ≤ cnt) (hlow : src.startIndex ≤ i)
    (hhigh : i + cnt.toInt.toNat ≤ src.nextSlot)
    (hsizes : ∀ j entry, i ≤ j → j < i + cnt.toInt.toNat → src.logs.lookup j = some entry →
      (format.serialize entry).length < 2 ^ 31)
    (htouch : dst.startIndex = dst.nextSlot ∨
      (i ≤ dst.nextSlot ∧ dst.startIndex ≤ i + cnt.toInt.toNat)) :
    ∃ buf buf' dst', (InmemLogStore.pack wire format i cnt).run src = .ok buf src ∧ buf.Full ∧
      (InmemLogStore.applyPack wire format i buf).run dst = .ok buf' dst' ∧
      buf'.bytes = buf.bytes ∧ buf'.size = buf.size ∧ buf'.pos = buf.size ∧
      (∀ j, i ≤ j → j < i + cnt.toInt.toNat → ∃ entry read, src.logs.lookup j = some entry ∧
        dst'.logs.lookup j = some read ∧ read.Matches entry) ∧
      (∀ j, j < i ∨ i + cnt.toInt.toNat ≤ j → dst'.logs.lookup j = dst.logs.lookup j) ∧
      dst'.startIndex =
        (if dst.startIndex = dst.nextSlot then i else min dst.startIndex i) ∧
      dst'.nextSlot =
        (if dst.startIndex = dst.nextSlot then i + cnt.toInt.toNat
          else max dst.nextSlot (i + cnt.toInt.toNat)) ∧
      dst'.Contiguous := by
  have hfits := InmemLogStore.Contiguous.nextSlot_lt src
  have hpos : 1 ≤ i := Nat.le_trans src.start_pos hlow
  have hbound : cnt.toInt.toNat < 2 ^ 31 := Int32.toNatClampNeg_lt cnt
  have hcount : 1 ≤ cnt.toInt.toNat := by
    have hint := Int32.le_iff_toInt_le.mp hcnt
    change 1 ≤ cnt.toInt at hint
    omega
  have hlength := InmemLogStore.length_rangeRecords format src i cnt.toInt.toNat
  have hrecords := hsrc.length_lt_of_mem_rangeRecords hlow hhigh hsizes
  rcases hsrc.pack_eq wire format hcnt hlow hhigh hrecords with ⟨buf, hpack, hfull, hbytes⟩
  have hdecodes : ∀ raw ∈ InmemLogStore.rangeRecords format src i cnt.toInt.toNat,
      raw.length < 2 ^ 31 ∧ (format.deserialize raw).isSome := fun raw hraw =>
    ⟨hrecords raw hraw, InmemLogStore.isSome_deserialize_of_mem_rangeRecords hformat hraw⟩
  rw [← hlength] at htouch hbound
  rcases hdst.applyPack wire hpos (List.length_pos_iff.mp (by omega)) hbound hdecodes htouch
    (by omega) with ⟨buf', dst', happly, hrest, hbytes', hfull', hdst', hlookup, hstart, hnext⟩
  rw [hlength] at hlookup hnext
  rw [← hbytes, ← InmemLogStore.applyPack_of_full hfull] at happly
  rw [← hbytes] at hbytes'
  have hsize : buf'.size = buf.size := by
    rw [← hfull', ← hfull, hbytes']
  have hend : buf'.pos = buf.size := by
    have hle := buf'.pos_le
    have hall := List.drop_eq_nil_iff.mp hrest
    rw [← hsize, ← hfull']
    omega
  refine ⟨buf, buf', dst', hpack, hfull, happly, hbytes', hsize, hend, ?_, ?_, hstart, hnext,
    hdst'⟩
  · intro j hj hj'
    rcases InmemLogStore.exists_decoded_matches hformat src hj hj' with ⟨read, hread, hmatches⟩
    have hstored := hsrc.mem_of_mem_log (j := j) (by omega) (by omega)
    refine ⟨src.find j, read, InmemLogStore.lookup_eq_find hstored, ?_, hmatches⟩
    rw [hlookup, if_neg (by omega), if_pos hj', hread]
  · rintro j (hbelow | habove)
    · rw [hlookup, if_pos hbelow]
    · rw [hlookup, if_neg (by omega), if_neg (by omega)]

/-- A store that holds the given entries from index 1 on. -/
def InmemLogStore.ofEntries (entries : List LogEntry) : InmemLogStore :=
  (InmemLogStore.create (dummyEntry (List.replicate 8 0))).storeAll 1 entries

/-- The second and the third of three entries, moved to a store that has its own
first entry. -/
theorem inmem_log_store_transfers_range_two :
    ∃ buf buf' dst',
      (InmemLogStore.pack .littleEndian (.nuraft .littleEndian) 2 2).run
        (.ofEntries [.create 1 [97] appLog, .create 1 [98] appLog, .create 2 [] appLog]) =
        .ok buf
          (.ofEntries [.create 1 [97] appLog, .create 1 [98] appLog, .create 2 [] appLog]) ∧
      buf.Full ∧
      (InmemLogStore.applyPack .littleEndian (.nuraft .littleEndian) 2 buf).run
        (.ofEntries [.create 1 [99] appLog]) = .ok buf' dst' ∧
      buf'.pos = buf.size ∧ dst'.startIndex = 1 ∧ dst'.nextSlot = 4 := by
  have hsrc : (InmemLogStore.ofEntries
      [.create 1 [97] appLog, .create 1 [98] appLog, .create 2 [] appLog]).Contiguous :=
    ⟨by decide, by decide +kernel⟩
  have hdst : (InmemLogStore.ofEntries [.create 1 [99] appLog]).Contiguous :=
    ⟨by decide, by decide +kernel⟩
  have hsizes : ∀ j entry, 2 ≤ j → j < 2 + 2 →
      (InmemLogStore.ofEntries
        [.create 1 [97] appLog, .create 1 [98] appLog, .create 2 [] appLog]).logs.lookup j =
        some entry →
      ((EntryFormat.nuraft .littleEndian).serialize entry).length < 2 ^ 31 := by
    intro j entry hlow hhigh hentry
    have hcases : j = 2 ∨ j = 3 := by omega
    rcases hcases with rfl | rfl
    · cases hentry
      decide
    · cases hentry
      decide
  rcases inmem_log_store_transfers_range .littleEndian (.nuraft .littleEndian)
    (EntryFormat.nuraft_lawful .littleEndian).deserialize_serialize _ _ hsrc hdst 2 2 (by decide)
    (by decide) (by decide +kernel) hsizes (by decide +kernel) with
    ⟨buf, buf', dst', hpack, hfull, happly, -, -, hpos, -, -, hstart, hnext, -⟩
  exact ⟨buf, buf', dst', hpack, hfull, happly, hpos, hstart, hnext⟩

end ReplicatedSplinterDB
