import ReplicatedSplinterDB.LogStore.SplinterdbRead
import ReplicatedSplinterDB.LogStore.SplinterdbTruncation

/-!
# Packs and failures of the SplinterDB log store

{lit}`apply_pack` reads a record of the pack and stores it before it reads the
next one.  This module splits it into reading the whole pack, which only looks
at the bytes, and storing the records that could be read.  A failure of either
part leaves the records stored that came before it; none of the mutations of the
store takes back what it did when it throws.

{lit}`pack` writes the count that it was asked for, whatever number of entries it
finds.

Main results:

- Theorem {lit}`SplinterdbLogStore.applyPack_eq`: applying a pack is reading it and
  then storing its records.
- Theorem {lit}`splinterdb_failed_mutations`: what append, overwrite and applying a
  pack leave behind when they throw.
- Theorem {lit}`splinterdb_pack_never_consistent`: no pack is one that
  {lit}`apply_pack` reads back.
-/

namespace ReplicatedSplinterDB

open Foundation

namespace SplinterdbLogStore

/-! ## Reading a pack -/

section Scan

variable (wire : WireFormat)

/-- The records that the loop of {lit}`apply_pack` reads, and how reading ends. -/
def scanRecords : Nat → Buffer → List Bytes × Except Exception Buffer
  | 0, pack => ([], .ok pack)
  | todo + 1, pack =>
      match liftBuffer (get wire.i32 pack) with
      | .error e => ([], .error e)
      | .ok (size, pack) =>
          if size ≤ 0 then ([], .error (.runtimeError "Invalid log entry size"))
          else
            match liftBuffer (getRaw size.toInt.toNat pack) with
            | .error e => ([], .error e)
            | .ok (raw, pack) =>
                (raw :: (scanRecords todo pack).1, (scanRecords todo pack).2)

/-- The records that {lit}`apply_pack` reads from a pack, and how reading ends. -/
def scanPack (pack : Buffer) : List Bytes × Except Exception Buffer :=
  match liftBuffer (get wire.i32 pack.rewind) with
  | .error e => ([], .error e)
  | .ok (signedCnt, pack) =>
      if signedCnt ≤ 0 then ([], .error (.runtimeError "Invalid log entry count"))
      else scanRecords wire signedCnt.toInt.toNat pack

theorem length_scanRecords_le (todo : Nat) (pack : Buffer) :
    (scanRecords wire todo pack).1.length ≤ todo := by
  induction todo generalizing pack with
  | zero => exact Nat.le_refl 0
  | succ todo ih =>
      simp only [scanRecords]
      split
      · exact Nat.zero_le _
      · split
        · exact Nat.zero_le _
        · split
          · exact Nat.zero_le _
          · exact Nat.succ_le_succ (ih _)

/-- A pack has fewer than 2^31 records, so their indices are distinct. -/
theorem length_scanPack_lt (pack : Buffer) : (scanPack wire pack).1.length < 2 ^ 31 := by
  unfold scanPack
  split
  · exact Nat.two_pow_pos 31
  · rename_i signedCnt rest _
    split
    · exact Nat.two_pow_pos 31
    · have hlen := length_scanRecords_le wire signedCnt.toInt.toNat rest
      have hcnt := signedCnt.toInt_lt
      omega

end Scan

/-! ## Storing records -/

section Store

variable (db : SplinterDB UInt64 Bytes)

/-- Store records under consecutive indices, from the one with the given offset
on, up to the first that SplinterDB refuses. -/
def storeRecords (index : UInt64) : Nat → List Bytes → EStateM Exception SplinterdbLogStore Unit
  | _, [] => fun s => .ok () s
  | i, raw :: records => fun s =>
      let curIndex := index + UInt64.ofNat i
      let (rc, spl) := s.spl.call db (.insert curIndex raw)
      let s := { s with spl := spl }
      if rc = 0 then storeRecords index (i + 1) records s
      else
        .error (.runtimeError
          ("Failed to append log entry at index " ++ toString curIndex.toNat)) s

/-- How a reading that came to an end continues after the records are stored. -/
def finishScan {α : Type} (final : Except Exception α) :
    EStateM.Result Exception SplinterdbLogStore Unit →
      EStateM.Result Exception SplinterdbLogStore α
  | .error e s => .error e s
  | .ok _ s =>
      match final with
      | .error e => .error e s
      | .ok a => .ok a s

variable {db} {wire : WireFormat}

theorem applyPackLoop_eq_scan (index : UInt64) (todo i : Nat) (pack : Buffer)
    (s : SplinterdbLogStore) :
    applyPackLoop wire db index todo i pack s =
      finishScan (scanRecords wire todo pack).2
        ((storeRecords db index i (scanRecords wire todo pack).1).run s) := by
  induction todo generalizing i pack s with
  | zero => rfl
  | succ todo ih =>
      simp only [applyPackLoop, scanRecords]
      cases hsize : liftBuffer (get wire.i32 pack) with
      | error e => rfl
      | ok read =>
          rcases read with ⟨size, rest⟩
          dsimp only
          by_cases hpos : size ≤ 0
          · simp only [if_pos hpos]
            rfl
          · simp only [if_neg hpos]
            cases hraw : liftBuffer (getRaw size.toInt.toNat rest) with
            | error e => rfl
            | ok read =>
                rcases read with ⟨raw, rest'⟩
                simp only [EStateM.run, storeRecords]
                split
                · exact ih (i + 1) rest' _
                · rfl

/-- Applying a pack is reading all of it and then storing what was read. -/
theorem applyPack_eq (index : UInt64) (pack : Buffer) (s : SplinterdbLogStore) :
    (applyPack wire db index pack).run s =
      finishScan (scanPack wire pack).2
        ((storeRecords db index 0 (scanPack wire pack).1).run s) := by
  simp only [EStateM.run, applyPack, scanPack]
  cases hcount : liftBuffer (get wire.i32 pack.rewind) with
  | error e => rfl
  | ok read =>
      rcases read with ⟨signedCnt, rest⟩
      dsimp only
      by_cases hpos : signedCnt ≤ 0
      · simp only [if_pos hpos]
        rfl
      · simp only [if_neg hpos]
        exact applyPackLoop_eq_scan index signedCnt.toInt.toNat 0 rest s

/-- The contents with records written over consecutive indices. -/
def overlay (m : KVMap UInt64 Bytes) (index : UInt64) (records : List Bytes) :
    KVMap UInt64 Bytes := fun k => records[(k - index).toNat]?.or (m k)

@[simp] theorem overlay_nil (m : KVMap UInt64 Bytes) (index : UInt64) : overlay m index [] = m := by
  funext k
  simp [overlay]

/-- Writing the first record and then the others, as long as the indices do not
come around. -/
theorem overlay_set (m : KVMap UInt64 Bytes) (index : UInt64) (raw : Bytes)
    {records : List Bytes} (hlen : records.length < 2 ^ 64) :
    overlay (m.set index raw) (index + 1) records = overlay m index (raw :: records) := by
  funext k
  unfold overlay
  by_cases hk : k = index
  · subst hk
    have hlast : (k - (k + 1)).toNat = 2 ^ 64 - 1 := by
      have hsub : k - (k + 1) = -1 := by
        grind
      rw [hsub]
      rfl
    have hnone : records[2 ^ 64 - 1]? = none := List.getElem?_eq_none (by omega)
    rw [hlast, hnone, UInt64.sub_self]
    simp
  · have hnext : (k - index).toNat = (k - (index + 1)).toNat + 1 := by
      have hne : k.toNat ≠ index.toNat := fun h => hk (UInt64.toNat_inj.mp h)
      have hbound := index.toNat_lt
      have hkbound := k.toNat_lt
      rw [UInt64.toNat_sub, UInt64.toNat_sub, UInt64.toNat_add, UInt64.toNat_one]
      omega
    rw [hnext, List.getElem?_cons_succ, KVMap.set_of_ne _ hk]

/-- Storing records writes over the contents, up to the record that is refused. -/
theorem storeRecords_spec (hdb : db.Lawful) (index : UInt64) {records : List Bytes} {i : Nat}
    (hlen : i + records.length < 2 ^ 64) (s : SplinterdbLogStore) :
    (∃ s', (storeRecords db index i records).run s = .ok () s' ∧
      s'.startIdx = s.startIdx ∧ s'.lastIdx = s.lastIdx ∧
      s'.contents = overlay s.contents (index + UInt64.ofNat i) records) ∨
    (∃ e s' done raw rest, (storeRecords db index i records).run s = .error e s' ∧
      records = done ++ raw :: rest ∧ s'.startIdx = s.startIdx ∧ s'.lastIdx = s.lastIdx ∧
      s'.contents = overlay s.contents (index + UInt64.ofNat i) done ∧
      (db.insert s'.contents (index + UInt64.ofNat (i + done.length)) raw).1 ≠ 0) := by
  induction records generalizing i s with
  | nil => exact .inl ⟨s, rfl, rfl, rfl, (overlay_nil _ _).symm⟩
  | cons raw records ih =>
      rw [List.length_cons] at hlen
      have hcur : index + UInt64.ofNat (i + 1) = index + UInt64.ofNat i + 1 := by
        rw [UInt64.ofNat_add, ← UInt64.add_assoc]
        rfl
      by_cases hcode : (db.insert s.contents (index + UInt64.ofNat i) raw).1 = 0
      · -- The record is stored; the rest goes on from the state with it.
        have hmid : (db.insert s.contents (index + UInt64.ofNat i) raw).2 =
            s.contents.set (index + UInt64.ofNat i) raw := hdb.insert_ok _ _ _ hcode
        have hrun : (storeRecords db index i (raw :: records)).run s =
            (storeRecords db index (i + 1) records).run
              { s with spl := (s.spl.call db (.insert (index + UInt64.ofNat i) raw)).2 } :=
          if_pos hcode
        rw [hrun]
        have hlen' : i + 1 + records.length < 2 ^ 64 := by omega
        rcases ih hlen'
          { s with spl := (s.spl.call db (.insert (index + UInt64.ofNat i) raw)).2 } with
          ⟨s', hrest, hstart, hlast, hcontents⟩ |
          ⟨e, s', done, raw', rest, hrest, hsplit, hstart, hlast, hcontents, hrefused⟩
        · refine .inl ⟨s', hrest, hstart, hlast, ?_⟩
          rw [hcontents, hcur, ← overlay_set _ _ _ (by omega), ← hmid]
          rfl
        · refine .inr ⟨e, s', raw :: done, raw', rest, hrest, ?_, hstart, hlast, ?_, ?_⟩
          · rw [hsplit]
            rfl
          · have hdone : done.length < 2 ^ 64 := by
              rw [hsplit, List.length_append] at hlen
              omega
            rw [hcontents, hcur, ← overlay_set _ _ _ hdone, ← hmid]
            rfl
          · rwa [List.length_cons, Nat.add_comm done.length 1, ← Nat.add_assoc]
      · have hmid : (db.insert s.contents (index + UInt64.ofNat i) raw).2 = s.contents :=
          hdb.insert_failed _ _ _ hcode
        refine .inr ⟨_, _, [], raw, records, if_neg hcode, rfl, rfl, rfl, ?_, ?_⟩
        · rw [overlay_nil]
          exact hmid
        · change (db.insert (db.insert s.contents (index + UInt64.ofNat i) raw).2
            (index + UInt64.ofNat i) raw).1 ≠ 0
          rw [hmid]
          exact hcode

end Store

/-! ## Mutations that throw -/

section Failure

variable {wire : WireFormat} {format : EntryFormat} {db : SplinterDB UInt64 Bytes}
variable {s s' : SplinterdbLogStore} {e : Exception}

/-- An overwrite that throws has stored nothing, and has removed at most what
it was going to truncate. -/
theorem writeAt_eq_error {index : UInt64} {entry : LogEntry} (hdb : db.Lawful)
    (h : (writeAt format db index entry).run s = .error e s') :
    s'.startIdx = s.startIdx ∧ ∀ k, s'.contents k = s.contents k ∨
      (k - index < s.lastIdx - index + 1 ∧ s'.contents k = none) := by
  rw [writeAt_eq] at h
  split at h
  · cases h
    exact ⟨rfl, fun k => .inl rfl⟩
  · cases happend : (append format db entry).run
        ⟨s.truncated db index, s.startIdx, index - 1⟩ with
    | ok slot mid =>
        rw [happend] at h
        cases h
    | error e' mid =>
        rcases append_eq_error hdb happend with ⟨hstart, -, hcontents⟩
        rw [happend] at h
        cases h
        refine ⟨hstart, ?_⟩
        intro k
        have hcount := (s.lastIdx - index + 1).toNat_lt
        rw [hcontents]
        rcases Handle.deleteAll_contents_cases hdb s.spl
          (iota index (s.lastIdx - index + 1).toNat) k with hsame | ⟨hmem, hnone⟩
        · exact .inl hsame
        · rw [mem_iota_iff (by omega), ← UInt64.lt_iff_toNat_lt] at hmem
          exact .inr ⟨hmem, hnone⟩

/-- Applying a pack that throws has stored the records before the failure, which
is the end of the readable part of the pack or a record that was refused. -/
theorem applyPack_eq_error {index : UInt64} {pack : Buffer} (hdb : db.Lawful)
    (h : (applyPack wire db index pack).run s = .error e s') :
    s'.startIdx = s.startIdx ∧ s'.lastIdx = s.lastIdx ∧
      ∃ done rest, (scanPack wire pack).1 = done ++ rest ∧
        s'.contents = overlay s.contents index done ∧
        ((rest = [] ∧ (scanPack wire pack).2 = .error e) ∨
          ∃ raw after, rest = raw :: after ∧
            (db.insert s'.contents (index + UInt64.ofNat done.length) raw).1 ≠ 0) := by
  have hlen := length_scanPack_lt wire pack
  have hfits : 0 + (scanPack wire pack).1.length < 2 ^ 64 := by omega
  have hfirst : index + UInt64.ofNat 0 = index := UInt64.add_zero index
  rw [applyPack_eq] at h
  rcases storeRecords_spec hdb index hfits s with
    ⟨mid, hrun, hstart, hlast, hcontents⟩ |
    ⟨e', mid, done, raw, after, hrun, hsplit, hstart, hlast, hcontents, hrefused⟩
  · rw [hrun] at h
    rw [hfirst] at hcontents
    cases hfinal : (scanPack wire pack).2 with
    | ok rest =>
        rw [hfinal] at h
        cases h
    | error e' =>
        rw [hfinal] at h
        cases h
        exact ⟨hstart, hlast, _, [], (List.append_nil _).symm, hcontents, .inl ⟨rfl, rfl⟩⟩
  · rw [hrun] at h
    cases h
    rw [hfirst] at hcontents
    rw [Nat.zero_add] at hrefused
    exact ⟨hstart, hlast, done, raw :: after, hsplit, hcontents, .inr ⟨raw, after, rfl, hrefused⟩⟩

end Failure

end SplinterdbLogStore

/-- Whatever SplinterDB refuses and whatever bytes a pack holds: a mutation that
throws keeps the start of the log.  A failed append has stored nothing; a failed
overwrite has stored nothing and removed at most what it was going to truncate;
a failed application of a pack keeps the next slot and has stored exactly the
records before the failure, so none if it fails before the first insert. -/
theorem splinterdb_failed_mutations (wire : WireFormat) (format : EntryFormat)
    (db : SplinterDB UInt64 Bytes) (hdb : db.Lawful) (s s' : SplinterdbLogStore)
    (e : Exception) :
    (∀ entry, (SplinterdbLogStore.append format db entry).run s = .error e s' →
      s'.startIndex = s.startIndex ∧ s'.contents = s.contents) ∧
    (∀ index entry, (SplinterdbLogStore.writeAt format db index entry).run s = .error e s' →
      s'.startIndex = s.startIndex ∧ ∀ k, s'.contents k = s.contents k ∨
        (k - index < s.lastIdx - index + 1 ∧ s'.contents k = none)) ∧
    (∀ index pack, (SplinterdbLogStore.applyPack wire db index pack).run s = .error e s' →
      s'.startIndex = s.startIndex ∧ s'.nextSlot = s.nextSlot ∧
      ∃ done rest, (SplinterdbLogStore.scanPack wire pack).1 = done ++ rest ∧
        s'.contents = SplinterdbLogStore.overlay s.contents index done ∧
        ((rest = [] ∧ (SplinterdbLogStore.scanPack wire pack).2 = .error e) ∨
          ∃ raw after, rest = raw :: after ∧
            (db.insert s'.contents (index + UInt64.ofNat done.length) raw).1 ≠ 0)) := by
  refine ⟨?_, ?_, ?_⟩
  · intro entry h
    rcases SplinterdbLogStore.append_eq_error hdb h with ⟨hstart, -, hcontents⟩
    exact ⟨hstart, hcontents⟩
  · intro index entry h
    exact SplinterdbLogStore.writeAt_eq_error hdb h
  · intro index pack h
    rcases SplinterdbLogStore.applyPack_eq_error hdb h with ⟨hstart, hlast, hrecords⟩
    refine ⟨hstart, ?_, hrecords⟩
    unfold SplinterdbLogStore.nextSlot
    rw [hlast]

/-- A storage that has no room left: it refuses to insert and still deletes. -/
def SplinterDB.full : SplinterDB UInt64 Bytes where
  insert m _ _ := (5, m)
  update m _ _ := (5, m)
  delete m k := (0, m.erase k)
  lookup m k := (0, m k)
  absentCode := 22

theorem SplinterDB.full_lawful : SplinterDB.full.Lawful := by
  constructor <;> simp [SplinterDB.full]

/-- A pack of two records, the second of which has size zero. -/
def brokenPack : Buffer :=
  .ofBytes (littleEndianInt32.encode 2 ++ recordBytes .littleEndian [97] ++
    littleEndianInt32.encode 0)

/-- A failed append to a fresh store and a broken pack. -/
theorem splinterdb_failed_mutations_broken :
    (∃ e s', (SplinterdbLogStore.append (.nuraft .littleEndian) .full
        (.create 1 [97] appLog)).run .create = .error e s' ∧
      s'.startIndex = SplinterdbLogStore.create.startIndex ∧
      s'.contents = SplinterdbLogStore.create.contents) ∧
    (∃ e s', (SplinterdbLogStore.applyPack .littleEndian (.reliable UInt64 Bytes) 1
        brokenPack).run .create = .error e s' ∧
      s'.startIndex = SplinterdbLogStore.create.startIndex ∧
      s'.nextSlot = SplinterdbLogStore.create.nextSlot) := by
  constructor
  · refine ⟨_, _, rfl, ?_⟩
    exact (splinterdb_failed_mutations .littleEndian (.nuraft .littleEndian) .full
      SplinterDB.full_lawful _ _ _).1 (.create 1 [97] appLog) rfl
  · refine ⟨_, _, rfl, ?_⟩
    rcases (splinterdb_failed_mutations .littleEndian (.nuraft .littleEndian)
      (.reliable UInt64 Bytes) (SplinterDB.reliable_lawful UInt64 Bytes) _ _ _).2.2 1 brokenPack
      rfl with ⟨hstart, hnext, -⟩
    exact ⟨hstart, hnext⟩

/-- Three failed mutations with a trace: an append that is refused moves the next
slot of a fresh store from 1 to 2, an overwrite that is refused loses the entry
at index 1, and a pack whose second record is broken leaves its first record at
index 1. -/
theorem failed_mutations_leave_a_trace :
    (∃ e s', (SplinterdbLogStore.append (.nuraft .littleEndian) .full
        (.create 1 [97] appLog)).run .create = .error e s' ∧
      SplinterdbLogStore.create.nextSlot = 1 ∧ s'.nextSlot = 2) ∧
    (∃ e s', (SplinterdbLogStore.writeAt (.nuraft .littleEndian) .full 1
        (.create 2 [98] appLog)).run .oneEntry = .error e s' ∧
      (SplinterdbLogStore.oneEntry.contents 1).isSome = true ∧ s'.contents 1 = none) ∧
    (∃ e s', (SplinterdbLogStore.applyPack .littleEndian (.reliable UInt64 Bytes) 1
        brokenPack).run .create = .error e s' ∧
      SplinterdbLogStore.create.contents 1 = none ∧ s'.contents 1 = some [97]) :=
  ⟨⟨_, _, rfl, rfl, rfl⟩, ⟨_, _, rfl, rfl, rfl⟩, ⟨_, _, rfl, rfl, rfl⟩⟩

/-! ## Packing -/

namespace SplinterdbLogStore

variable {format : EntryFormat} {db : SplinterDB UInt64 Bytes} {s : SplinterdbLogStore}

/-- The packed entries are none: the first index that is stored cannot be read,
and one that is not stored ends the loop. -/
theorem collectEntries_cases (hformat : format.Lawful) (indices : List UInt64) :
    s.collectEntries format db indices = .ok [] ∨
      s.collectEntries format db indices = .error .badLogEntry := by
  cases indices with
  | nil => exact .inl rfl
  | cons i rest =>
      cases hlookup : s.lookupBytes db i with
      | none =>
          left
          simp only [collectEntries, entryAt, hlookup]
      | some value =>
          right
          have hread : s.entryAt format db i = .error .badLogEntry := by
            rw [entryAt_of_lookupBytes hlookup, EntryFormat.fromSlice_eq hformat]
            rfl
          simp only [collectEntries, hread]

/-- The pack of a range is self-consistent: it holds the number of entries that
were found and these entries, every byte of it is written, and {lit}`apply_pack`
reads exactly the entries and exactly the buffer. -/
def PacksConsistently (wire : WireFormat) (format : EntryFormat) (db : SplinterDB UInt64 Bytes)
    (s : SplinterdbLogStore) (index : UInt64) (cnt : Int32) : Prop :=
  ∃ buf records rest, s.pack wire format db index cnt = .ok buf ∧
    s.collectEntries format db (indexRange index (index + cnt.toInt64.toUInt64)) = .ok records ∧
    buf.bytes = packBytes wire records ∧ buf.Full ∧
    scanPack wire buf = (records, .ok rest) ∧ rest.rest = []

/-- A pack without records is refused for its count. -/
theorem scanPack_nil {wire : WireFormat} {buf : Buffer} (hbytes : buf.bytes = packBytes wire [])
    (hfull : buf.Full) :
    scanPack wire buf = ([], .error (.runtimeError "Invalid log entry count")) := by
  rcases get_packBytes wire [] with ⟨rest, hcount, -⟩
  unfold scanPack
  rw [hfull.rewind_eq, hbytes, hcount]
  rfl

end SplinterdbLogStore

/-- No pack is self-consistent, whatever the store holds and whatever range is
packed: a range that begins with a stored entry cannot be read, and any other
range has no entries, which {lit}`apply_pack` does not accept. -/
theorem splinterdb_pack_never_consistent (wire : WireFormat) (format : EntryFormat)
    (hformat : format.Lawful) (db : SplinterDB UInt64 Bytes) (s : SplinterdbLogStore)
    (index : UInt64) (cnt : Int32) :
    ¬ SplinterdbLogStore.PacksConsistently wire format db s index cnt := by
  rintro ⟨buf, records, rest, -, hrecords, hbytes, hfull, hscan, -⟩
  rcases SplinterdbLogStore.collectEntries_cases hformat
    (indexRange index (index + cnt.toInt64.toUInt64)) with hnone | hthrows
  · rw [hnone] at hrecords
    cases hrecords
    rw [SplinterdbLogStore.scanPack_nil hbytes hfull] at hscan
    cases hscan
  · rw [hthrows] at hrecords
    cases hrecords

/-- One entry that is stored, and one that is not. -/
theorem splinterdb_pack_never_consistent_one :
    ¬ SplinterdbLogStore.PacksConsistently .littleEndian (.nuraft .littleEndian)
        (.reliable UInt64 Bytes) .oneEntry 1 1 ∧
    ¬ SplinterdbLogStore.PacksConsistently .littleEndian (.nuraft .littleEndian)
        (.reliable UInt64 Bytes) .create 1 1 := by
  have h := splinterdb_pack_never_consistent .littleEndian (.nuraft .littleEndian)
    (EntryFormat.nuraft_lawful _) (.reliable UInt64 Bytes)
  exact ⟨h _ 1 1, h _ 1 1⟩

/-- A fresh store is asked for one entry: the pack announces one record, has none
and leaves four of its eight bytes unwritten, and {lit}`apply_pack` fails on it.
A pack of no entries is refused for its count, and a stored entry cannot be
packed. -/
theorem pack_announces_missing_records :
    (∃ buf, SplinterdbLogStore.create.pack .littleEndian (.nuraft .littleEndian)
        (.reliable UInt64 Bytes) 1 1 = .ok buf ∧
      buf.bytes = littleEndianInt32.encode 1 ∧ buf.size = 8 ∧ ¬ buf.Full ∧
      SplinterdbLogStore.scanPack .littleEndian buf = ([], .error (.buffer .indeterminate))) ∧
    (∃ buf, SplinterdbLogStore.create.pack .littleEndian (.nuraft .littleEndian)
        (.reliable UInt64 Bytes) 1 0 = .ok buf ∧
      SplinterdbLogStore.scanPack .littleEndian buf =
        ([], .error (.runtimeError "Invalid log entry count"))) ∧
    SplinterdbLogStore.oneEntry.pack .littleEndian (.nuraft .littleEndian)
      (.reliable UInt64 Bytes) 1 1 = .error .badLogEntry ∧
    ¬ SplinterdbLogStore.PacksConsistently .littleEndian (.nuraft .littleEndian)
        (.reliable UInt64 Bytes) .create 1 1 := by
  refine ⟨⟨_, rfl, rfl, rfl, by decide, rfl⟩, ⟨_, rfl, rfl⟩, rfl, ?_⟩
  rintro ⟨buf, records, rest, hpack, hrecords, hbytes, hfull, hscan, -⟩
  cases hpack
  exact absurd hfull (by decide)

end ReplicatedSplinterDB
