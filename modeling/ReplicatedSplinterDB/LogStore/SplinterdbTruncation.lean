import ReplicatedSplinterDB.LogStore.Splinterdb

/-!
# Overwriting and compacting the SplinterDB log store

{lit}`write_at` and {lit}`compact` delete a range of indices that they first
collect in a vector.  The length of the vector is an unsigned difference, so a
range that is already gone asks for a vector of almost 2^64 elements, which
throws.

{lit}`write_at` leaves the last index one below the index it is given and then
calls {lit}`append`, which stores under the last index itself: the entry goes
one slot too low.  {lit}`compact` moves the start of the log and never its end.

Main results:

- Theorem {lit}`SplinterdbLogStore.writeAt_eq_ok`: what every overwrite that
  returns has done.
- Theorem {lit}`splinterdb_write_at_misses_index`: no overwrite stores its entry
  at the index it was given.
- Theorem {lit}`SplinterdbLogStore.compact_eq`: a compaction throws or leaves the
  store in a state that does not depend on the end of the log.
- Theorem {lit}`splinterdb_compact_purges_prefix_iff`: for which arguments a
  compaction purges the prefix of the log.
-/

namespace ReplicatedSplinterDB

open Foundation

namespace SplinterdbLogStore

variable {format : EntryFormat} {db : SplinterDB UInt64 Bytes}

/-- Deleting consecutive indices removes those whose distance from the first one
is below their number, with the distance taken modulo 2^64. -/
theorem deleteAll_iota_contents (hdb : db.Lawful) (hdelete : ∀ m k, (db.delete m k).1 = 0)
    (h : Handle UInt64 Bytes) (start count k : UInt64) :
    (h.deleteAll db (iota start count.toNat)).contents k =
      if k - start < count then none else h.contents k := by
  have hcount := count.toNat_lt
  have hmem : k ∈ iota start count.toNat ↔ k - start < count := by
    rw [mem_iota_iff (by omega), UInt64.lt_iff_toNat_lt]
  rw [Handle.deleteAll_contents hdb hdelete]
  simp only [hmem]

/-! ## Overwriting -/

section WriteAt

/-- The database after {lit}`write_at` has deleted everything from an index on. -/
def truncated (db : SplinterDB UInt64 Bytes) (s : SplinterdbLogStore) (index : UInt64) :
    Handle UInt64 Bytes :=
  s.spl.deleteAll db (iota index (s.lastIdx - index + 1).toNat)

/-- An overwrite throws before it changes the database, or appends its entry to
the truncated log with the last index one below the given one. -/
theorem writeAt_eq (s : SplinterdbLogStore) (index : UInt64) (entry : LogEntry) :
    (writeAt format db index entry).run s =
      if vectorMaxSize 8 < (s.lastIdx - index + 1).toNat then
        .error .lengthError { s with lastIdx := index - 1 }
      else
        match (append format db entry).run ⟨s.truncated db index, s.startIdx, index - 1⟩ with
        | .error e s => .error e s
        | .ok _ s => .ok () s :=
  rfl

/-- An overwrite that returns has truncated the log, stored its entry one below
the index, and made the index the last one. -/
theorem writeAt_eq_ok {s s' : SplinterdbLogStore} {index : UInt64} {entry : LogEntry}
    (hdb : db.Lawful) (h : (writeAt format db index entry).run s = .ok () s') :
    s'.startIdx = s.startIdx ∧ s'.lastIdx = index ∧
      s'.contents = (s.truncated db index).contents.set (index - 1) (format.serialize entry) := by
  rw [writeAt_eq] at h
  split at h
  · cases h
  · cases happend : (append format db entry).run
        ⟨s.truncated db index, s.startIdx, index - 1⟩ with
    | error e mid =>
        rw [happend] at h
        cases h
    | ok slot mid =>
        rcases append_eq_ok happend with ⟨-, hlast, hinsert, hcontents⟩
        have hstart : mid.startIdx = s.startIdx := by
          rw [append_eq hinsert] at happend
          cases happend
          rfl
        rw [happend] at h
        cases h
        refine ⟨hstart, ?_, ?_⟩
        · rw [hlast]
          grind
        · rw [hcontents]
          exact hdb.insert_ok _ _ _ hinsert

/-- An overwrite replaces the entry at its index and truncates what follows: the
entry is stored there, nothing is stored behind it, everything before it and the
start of the log are kept, and the next slot follows the index. -/
def WritesAt (format : EntryFormat) (db : SplinterDB UInt64 Bytes) (s : SplinterdbLogStore)
    (index : UInt64) (entry : LogEntry) : Prop :=
  ∃ s', (writeAt format db index entry).run s = .ok () s' ∧
    s'.contents index = some (format.serialize entry) ∧
    (∀ k, k < index → s'.contents k = s.contents k) ∧
    (∀ k, index < k → s'.contents k = none) ∧
    s'.nextSlot = index + 1 ∧ s'.startIndex = s.startIndex

/-- Truncating a contiguous log at an index leaves nothing there. -/
theorem truncated_contents_self {s : SplinterdbLogStore} {index : UInt64} (hdb : db.Lawful)
    (hdelete : ∀ m k, (db.delete m k).1 = 0) (hcontiguous : s.Contiguous) :
    (s.truncated db index).contents index = none := by
  unfold truncated
  rw [deleteAll_iota_contents hdb hdelete, UInt64.sub_self]
  by_cases hend : index = s.nextSlot
  · -- Nothing is deleted at the end of the log, and nothing is stored there.
    have hnone : s.contents index = none := by
      rw [← Option.not_isSome_iff_eq_none, hcontiguous index, hend]
      exact fun h => UInt64.lt_irrefl _ h.2
    split
    · rfl
    · exact hnone
  · rw [if_pos]
    have hne : s.lastIdx - index + 1 ≠ 0 := by
      intro hzero
      apply hend
      unfold nextSlot
      grind
    exact UInt64.pos_iff_ne_zero.mpr hne

end WriteAt

end SplinterdbLogStore

/-- No overwrite of a contiguous store does what is documented, whichever index
of the log or behind it is given and also when SplinterDB does everything it is
asked to: the index itself is left without an entry. -/
theorem splinterdb_write_at_misses_index (format : EntryFormat) (db : SplinterDB UInt64 Bytes)
    (hdb : db.Lawful) (hdelete : ∀ m k, (db.delete m k).1 = 0) (s : SplinterdbLogStore)
    (hcontiguous : s.Contiguous) (index : UInt64) (entry : LogEntry) :
    ¬ SplinterdbLogStore.WritesAt format db s index entry := by
  rintro ⟨s', hrun, hstored, -⟩
  rcases SplinterdbLogStore.writeAt_eq_ok hdb hrun with ⟨-, -, hcontents⟩
  have hne : index ≠ index - 1 := by
    grind
  rw [hcontents, KVMap.set_of_ne _ hne,
    SplinterdbLogStore.truncated_contents_self hdb hdelete hcontiguous] at hstored
  cases hstored

theorem SplinterdbLogStore.contiguous_oneEntry : SplinterdbLogStore.oneEntry.Contiguous := by
  intro k
  change (KVMap.set (Handle.create UInt64 Bytes).contents 1 _ k).isSome ↔ (1 : UInt64) ≤ k ∧ k < 2
  by_cases hk : k = 1
  · subst hk
    simp
  · have hrange : ¬ ((1 : UInt64) ≤ k ∧ k < 2) := by
      grind
    rw [KVMap.set_of_ne _ hk]
    simp [Handle.create, hrange]

/-- Overwriting the only entry of a store, and writing behind it. -/
theorem splinterdb_write_at_misses_index_one :
    ¬ SplinterdbLogStore.WritesAt (.nuraft .littleEndian) (.reliable UInt64 Bytes) .oneEntry 1
        (.create 2 [98] appLog) ∧
    ¬ SplinterdbLogStore.WritesAt (.nuraft .littleEndian) (.reliable UInt64 Bytes) .oneEntry 2
        (.create 2 [98] appLog) := by
  have h := splinterdb_write_at_misses_index (.nuraft .littleEndian) (.reliable UInt64 Bytes)
    (SplinterDB.reliable_lawful UInt64 Bytes) (fun _ _ => rfl) .oneEntry
    SplinterdbLogStore.contiguous_oneEntry
  exact ⟨h 1 _, h 2 _⟩

/-- A store with one entry, at index 1.  Overwriting index 1 stores the new entry
under 0 and leaves nothing under 1; writing at the next slot replaces the entry
under 1 and leaves nothing under 2. -/
theorem write_at_goes_one_slot_low :
    SplinterdbLogStore.oneEntry.Contiguous ∧
    SplinterdbLogStore.oneEntry.startIndex = 1 ∧ SplinterdbLogStore.oneEntry.nextSlot = 2 ∧
    (∃ s, (SplinterdbLogStore.writeAt (.nuraft .littleEndian) (.reliable UInt64 Bytes) 1
        (.create 2 [98] appLog)).run .oneEntry = .ok () s ∧
      s.contents 1 = none ∧
      s.contents 0 = some ((EntryFormat.nuraft .littleEndian).serialize
        (.create 2 [98] appLog))) ∧
    (∃ s, (SplinterdbLogStore.writeAt (.nuraft .littleEndian) (.reliable UInt64 Bytes) 2
        (.create 2 [98] appLog)).run .oneEntry = .ok () s ∧
      s.contents 2 = none ∧
      s.contents 1 = some ((EntryFormat.nuraft .littleEndian).serialize
        (.create 2 [98] appLog))) ∧
    ¬ SplinterdbLogStore.WritesAt (.nuraft .littleEndian) (.reliable UInt64 Bytes) .oneEntry 1
        (.create 2 [98] appLog) := by
  refine ⟨SplinterdbLogStore.contiguous_oneEntry, rfl, rfl, ⟨_, rfl, rfl, rfl⟩,
    ⟨_, rfl, rfl, rfl⟩, ?_⟩
  rintro ⟨s', hrun, hstored, -⟩
  rcases SplinterdbLogStore.writeAt_eq_ok (SplinterDB.reliable_lawful UInt64 Bytes) hrun with
    ⟨-, -, hcontents⟩
  rw [hcontents] at hstored
  cases hstored

/-! ## Compacting -/

namespace SplinterdbLogStore

section Compact

variable {db : SplinterDB UInt64 Bytes} {s : SplinterdbLogStore} {last : UInt64}

/-- The number of indices that a compaction deletes. -/
def purgeCount (s : SplinterdbLogStore) (last : UInt64) : UInt64 := last - s.startIdx + 1

/-- The store that a compaction leaves when it returns. -/
def compacted (db : SplinterDB UInt64 Bytes) (s : SplinterdbLogStore) (last : UInt64) :
    SplinterdbLogStore where
  spl := s.spl.deleteAll db (iota s.startIdx (s.purgeCount last).toNat)
  startIdx := if s.startIdx ≤ last then last + 1 else s.startIdx
  lastIdx := s.lastIdx

theorem compact_eq (db : SplinterDB UInt64 Bytes) (s : SplinterdbLogStore) (last : UInt64) :
    (compact db last).run s =
      if vectorMaxSize 8 < (s.purgeCount last).toNat then .error .lengthError s
      else .ok true (s.compacted db last) := by
  by_cases hcount : vectorMaxSize 8 < (s.purgeCount last).toNat
  · rw [if_pos hcount]
    exact if_pos hcount
  · rw [if_neg hcount]
    refine (if_neg hcount).trans ?_
    unfold compacted
    split <;> rfl

theorem compacted_contents (hdb : db.Lawful) (hdelete : ∀ m k, (db.delete m k).1 = 0)
    (k : UInt64) :
    (s.compacted db last).contents k =
      if k - s.startIdx < s.purgeCount last then none else s.contents k :=
  deleteAll_iota_contents hdb hdelete s.spl s.startIdx (s.purgeCount last) k

/-- What a compaction up to an index is for: it removes exactly the entries up
to there, moves both ends of the log behind the index if they are not, and
leaves a log without gaps. -/
structure Purged (s : SplinterdbLogStore) (last : UInt64) (s' : SplinterdbLogStore) : Prop where
  contents_eq : ∀ k, s'.contents k = if k ≤ last then none else s.contents k
  start_eq : s'.startIndex = max s.startIndex (last + 1)
  next_eq : s'.nextSlot = max s.nextSlot (last + 1)
  ordered : s'.startIndex ≤ s'.nextSlot
  contiguous : s'.Contiguous

/-- The compaction returns and has purged the log up to the index. -/
def PurgesPrefix (db : SplinterDB UInt64 Bytes) (s : SplinterdbLogStore) (last : UInt64) : Prop :=
  ∃ s', (compact db last).run s = .ok true s' ∧ s.Purged last s'

/-- Two states with the same entries and the same ends. -/
def SameLog (s s' : SplinterdbLogStore) : Prop :=
  s'.contents = s.contents ∧ s'.startIndex = s.startIndex ∧ s'.nextSlot = s.nextSlot

/-- The compaction purges the log up to the index, and a second one up to that
index or a lower one returns and changes nothing. -/
def PurgesPrefixForGood (db : SplinterDB UInt64 Bytes) (s : SplinterdbLogStore) (last : UInt64) :
    Prop :=
  ∃ s', (compact db last).run s = .ok true s' ∧ s.Purged last s' ∧
    ∀ again, again ≤ last → ∃ s'', (compact db again).run s' = .ok true s'' ∧ s'.SameLog s''

/-- The index is below the next slot, is not below the predecessor of the start
unless the log is empty, and the indices to delete fit in a vector. -/
def CompactsInside (s : SplinterdbLogStore) (last : UInt64) : Prop :=
  last + 1 ≤ s.nextSlot ∧ (s.startIndex ≤ last + 1 ∨ s.startIndex = s.nextSlot) ∧
    (s.purgeCount last).toNat ≤ vectorMaxSize 8

instance (s : SplinterdbLogStore) (last : UInt64) : Decidable (s.CompactsInside last) :=
  inferInstanceAs (Decidable (_ ∧ _))

/-- Where a contiguous store has no entry. -/
theorem Contiguous.contents_eq_none (h : s.Contiguous) {k : UInt64}
    (hk : ¬ (s.startIndex ≤ k ∧ k < s.nextSlot)) : s.contents k = none := by
  rw [← Option.not_isSome_iff_eq_none, h k]
  exact hk

/-- Below the next slot the deleted indices of the log are those up to the given
one, unless the deletion starts behind it and the log is not empty. -/
theorem sub_startIdx_lt_purgeCount_iff {k : UInt64} (hlast : last.toNat < 2 ^ 64 - 1)
    (hlow : s.startIndex ≤ k) (hhigh : k < s.nextSlot)
    (hstart : s.startIndex ≤ last + 1 ∨ s.startIndex = s.nextSlot) :
    k - s.startIdx < s.purgeCount last ↔ k ≤ last := by
  have hbound := s.startIdx.toNat_lt
  have hk := k.toNat_lt
  unfold startIndex at hlow hstart
  unfold purgeCount
  rw [UInt64.le_iff_toNat_le] at hlow ⊢
  rw [UInt64.lt_iff_toNat_lt] at hhigh ⊢
  rw [UInt64.le_iff_toNat_le, ← UInt64.toNat_inj, UInt64.toNat_add, UInt64.toNat_one] at hstart
  rw [UInt64.toNat_add, UInt64.toNat_sub, UInt64.toNat_sub, UInt64.toNat_one]
  omega

theorem add_one_ne_zero_of_lt (hlast : last.toNat < 2 ^ 64 - 1) : last + 1 ≠ 0 := by
  intro h
  have hzero := congrArg UInt64.toNat h
  rw [UInt64.toNat_add, UInt64.toNat_one, UInt64.toNat_zero] at hzero
  omega

theorem purged_compacted (hdb : db.Lawful) (hdelete : ∀ m k, (db.delete m k).1 = 0)
    (hcontiguous : s.Contiguous) (hlast : last.toNat < 2 ^ 64 - 1) (h : s.CompactsInside last) :
    s.Purged last (s.compacted db last) := by
  rcases h with ⟨hnext, hstart, -⟩
  have hne := add_one_ne_zero_of_lt hlast
  have hcontents : ∀ k, (s.compacted db last).contents k =
      if k ≤ last then none else s.contents k := by
    intro k
    rw [compacted_contents hdb hdelete]
    by_cases hstored : s.startIndex ≤ k ∧ k < s.nextSlot
    · simp only [sub_startIdx_lt_purgeCount_iff hlast hstored.1 hstored.2 hstart]
    · rw [hcontiguous.contents_eq_none hstored]
      simp
  have hstart' : (s.compacted db last).startIndex = max s.startIndex (last + 1) := by
    simp only [compacted, startIndex, Max.max]
    grind
  have hnext' : (s.compacted db last).nextSlot = s.nextSlot := rfl
  refine ⟨hcontents, hstart', ?_, ?_, ?_⟩
  · rw [hnext']
    simp only [Max.max]
    grind
  · rw [hstart', hnext']
    simp only [Max.max]
    grind
  · intro k
    have hk := hcontiguous k
    rw [hcontents, hstart', hnext']
    simp only [Max.max]
    by_cases hlow : k ≤ last
    · rw [if_pos hlow]
      simp only [Option.isSome_none, Bool.false_eq_true, false_iff]
      grind
    · rw [if_neg hlow, hk]
      grind

/-- A purge needs the index to be inside the log: a compaction never moves the
next slot, and one that starts behind the index deletes the whole log. -/
theorem compactsInside_of_purgesPrefix (hdb : db.Lawful) (hdelete : ∀ m k, (db.delete m k).1 = 0)
    (hcontiguous : s.Contiguous) (hlast : last.toNat < 2 ^ 64 - 1) (h : s.PurgesPrefix db last) :
    s.CompactsInside last := by
  rcases h with ⟨s', hrun, hpurged⟩
  have hsucc := add_one_ne_zero_of_lt hlast
  rw [compact_eq] at hrun
  split at hrun
  · cases hrun
  · rename_i hcount
    cases hrun
    have hnext : s.nextSlot = max s.nextSlot (last + 1) := hpurged.next_eq
    have hordered : (s.compacted db last).startIndex ≤ s.nextSlot := hpurged.ordered
    simp only [Max.max] at hnext
    refine ⟨by grind, ?_, Nat.not_lt.mp hcount⟩
    by_cases hstart : s.startIndex ≤ last + 1
    · exact .inl hstart
    · right
      by_contra hne
      unfold startIndex at hstart
      have hkept : ¬ s.startIdx ≤ last := by
        grind
      have hfirst : s.startIdx < s.nextSlot := by
        simp only [compacted, startIndex, if_neg hkept] at hordered hne
        grind
      -- The first entry is above the index, and is deleted.
      have hstored : (s.contents s.startIdx).isSome :=
        (hcontiguous s.startIdx).mpr ⟨UInt64.le_refl _, hfirst⟩
      have hdeleted : s.startIdx - s.startIdx < s.purgeCount last := by
        unfold purgeCount
        grind
      have hcontents := hpurged.contents_eq s.startIdx
      rw [compacted_contents hdb hdelete, if_pos hdeleted, if_neg hkept] at hcontents
      rw [← hcontents] at hstored
      cases hstored

/-- A compaction below the start of the log changes nothing if none of the
indices that it deletes is stored. -/
theorem compact_sameLog (hdb : db.Lawful) (hdelete : ∀ m k, (db.delete m k).1 = 0)
    (hcount : (s.purgeCount last).toNat ≤ vectorMaxSize 8) (hstart : ¬ s.startIdx ≤ last)
    (hnone : ∀ k, k - s.startIdx < s.purgeCount last → s.contents k = none) :
    ∃ s', (compact db last).run s = .ok true s' ∧ s.SameLog s' := by
  refine ⟨s.compacted db last, ?_, ?_, ?_, rfl⟩
  · rw [compact_eq, if_neg (Nat.not_lt.mpr hcount)]
  · funext k
    rw [compacted_contents hdb hdelete]
    by_cases hk : k - s.startIdx < s.purgeCount last
    · rw [if_pos hk, hnone k hk]
    · rw [if_neg hk]
  · simp only [compacted, startIndex, if_neg hstart]

/-- The wrapped length of a range that ends before its start grows with its end. -/
theorem toNat_sub_add_one_le {start again : UInt64} (hlast : last.toNat < 2 ^ 64 - 1)
    (hle : again ≤ last) (hbehind : last + 1 < start) :
    (again - start + 1).toNat ≤ (last - start + 1).toNat := by
  have hstart := start.toNat_lt
  rw [UInt64.le_iff_toNat_le] at hle
  rw [UInt64.lt_iff_toNat_lt, UInt64.toNat_add, UInt64.toNat_one] at hbehind
  rw [UInt64.toNat_add, UInt64.toNat_add, UInt64.toNat_sub, UInt64.toNat_sub, UInt64.toNat_one]
  omega

/-- A compaction that moved the start behind its index, other than index 0, makes
the next lower one throw: the number of indices to delete wraps to the largest of
all. -/
theorem compact_again_throws (hlow : ¬ last + 1 < s.startIndex) (hzero : last ≠ 0)
    (hlast : last.toNat < 2 ^ 64 - 1) :
    (compact db (last - 1)).run (s.compacted db last) =
      .error .lengthError (s.compacted db last) := by
  have hsucc := add_one_ne_zero_of_lt hlast
  have hstart : (s.compacted db last).startIdx = last + 1 := by
    unfold startIndex at hlow
    simp only [compacted]
    grind
  have hcount : (s.compacted db last).purgeCount (last - 1) = -1 := by
    unfold purgeCount
    rw [hstart]
    grind
  rw [compact_eq, hcount]
  exact if_pos (by decide)

/-- Behind the end of an empty log every compaction changes nothing. -/
theorem compact_again_of_empty (hdb : db.Lawful) (hdelete : ∀ m k, (db.delete m k).1 = 0)
    (hcontiguous : s.Contiguous) (hlast : last.toNat < 2 ^ 64 - 1) (h : s.CompactsInside last)
    (hbehind : last + 1 < s.startIndex) {again : UInt64} (hle : again ≤ last) :
    ∃ s', (compact db again).run (s.compacted db last) = .ok true s' ∧
      (s.compacted db last).SameLog s' := by
  have hsucc := add_one_ne_zero_of_lt hlast
  have hkept : (s.compacted db last).startIdx = s.startIdx := by
    unfold startIndex at hbehind
    simp only [compacted]
    grind
  have hempty : s.startIndex = s.nextSlot := by
    rcases h.2.1 with hstart | hstart
    · grind
    · exact hstart
  apply compact_sameLog hdb hdelete
  · refine Nat.le_trans ?_ h.2.2
    unfold purgeCount
    rw [hkept]
    exact toNat_sub_add_one_le hlast hle hbehind
  · rw [hkept]
    unfold startIndex at hbehind
    grind
  · intro k _
    rw [compacted_contents hdb hdelete, hcontiguous.contents_eq_none (by grind)]
    simp

/-- A second compaction up to index 0 has nothing to delete. -/
theorem compact_again_zero (hdb : db.Lawful) (hdelete : ∀ m k, (db.delete m k).1 = 0)
    (hlow : ¬ 0 + 1 < s.startIndex) :
    ∃ s', (compact db 0).run (s.compacted db 0) = .ok true s' ∧
      (s.compacted db 0).SameLog s' := by
  have hstart : (s.compacted db 0).startIdx = 1 := by
    unfold startIndex at hlow
    simp only [compacted]
    grind
  have hcount : (s.compacted db 0).purgeCount 0 = 0 := by
    unfold purgeCount
    rw [hstart]
    rfl
  apply compact_sameLog hdb hdelete
  · rw [hcount]
    exact Nat.zero_le _
  · rw [hstart]
    decide
  · intro k hk
    rw [hcount] at hk
    exact absurd hk UInt64.not_lt_zero

/-- Right behind a compaction only the same index, or an empty log, can be
compacted again without an exception. -/
theorem purgesPrefixForGood_iff (hdb : db.Lawful) (hdelete : ∀ m k, (db.delete m k).1 = 0)
    (hcontiguous : s.Contiguous) (hlast : last.toNat < 2 ^ 64 - 1) :
    s.PurgesPrefixForGood db last ↔
      s.CompactsInside last ∧ (last = 0 ∨ last + 1 < s.startIndex) := by
  constructor
  · rintro ⟨s', hrun, hpurged, hagain⟩
    have hinside :=
      compactsInside_of_purgesPrefix hdb hdelete hcontiguous hlast ⟨s', hrun, hpurged⟩
    refine ⟨hinside, ?_⟩
    by_contra hnot
    have hzero : last ≠ 0 := fun h => hnot (.inl h)
    have hlow : ¬ last + 1 < s.startIndex := fun h => hnot (.inr h)
    rw [compact_eq, if_neg (Nat.not_lt.mpr hinside.2.2)] at hrun
    cases hrun
    rcases hagain (last - 1) (by grind) with ⟨s'', hsecond, -⟩
    rw [compact_again_throws hlow hzero hlast] at hsecond
    cases hsecond
  · rintro ⟨hinside, hcase⟩
    refine ⟨s.compacted db last, ?_, purged_compacted hdb hdelete hcontiguous hlast hinside, ?_⟩
    · rw [compact_eq, if_neg (Nat.not_lt.mpr hinside.2.2)]
    · intro again hle
      by_cases hbehind : last + 1 < s.startIndex
      · exact compact_again_of_empty hdb hdelete hcontiguous hlast hinside hbehind hle
      · have hzero : last = 0 := hcase.resolve_right hbehind
        subst hzero
        have hsame : again = 0 := by
          grind
        rw [hsame]
        exact compact_again_zero hdb hdelete hbehind

end Compact

end SplinterdbLogStore

/-- For every contiguous store and every index below 2^64 - 1, with deletions
that succeed and memory for the vector of the indices to delete: a compaction
returns and purges exactly the entries up to the index, with both ends of the log
where they belong, if and only if the index is below the next slot, at most one
below the start unless the log is empty, and the indices to delete fit in a vector;
and a second compaction up to any lower index then also returns and changes nothing
if and only if in addition the index is zero or the log is empty and starts behind
it. -/
theorem splinterdb_compact_purges_prefix_iff (db : SplinterDB UInt64 Bytes) (hdb : db.Lawful)
    (hdelete : ∀ m k, (db.delete m k).1 = 0) (s : SplinterdbLogStore)
    (hcontiguous : s.Contiguous) (last : UInt64) (hlast : last.toNat < 2 ^ 64 - 1) :
    (s.PurgesPrefix db last ↔ s.CompactsInside last) ∧
      (s.PurgesPrefixForGood db last ↔
        s.CompactsInside last ∧ (last = 0 ∨ last + 1 < s.startIndex)) := by
  refine ⟨?_, SplinterdbLogStore.purgesPrefixForGood_iff hdb hdelete hcontiguous hlast⟩
  constructor
  · exact SplinterdbLogStore.compactsInside_of_purgesPrefix hdb hdelete hcontiguous hlast
  · intro h
    refine ⟨s.compacted db last, ?_,
      SplinterdbLogStore.purged_compacted hdb hdelete hcontiguous hlast h⟩
    rw [SplinterdbLogStore.compact_eq, if_neg (Nat.not_lt.mpr h.2.2)]

/-- Compacting the only entry of a store away, and compacting up to index 0. -/
theorem splinterdb_compact_purges_prefix_one :
    SplinterdbLogStore.PurgesPrefix (.reliable UInt64 Bytes) .oneEntry 1 ∧
    SplinterdbLogStore.PurgesPrefixForGood (.reliable UInt64 Bytes) .oneEntry 0 := by
  have h := splinterdb_compact_purges_prefix_iff (.reliable UInt64 Bytes)
    (SplinterDB.reliable_lawful UInt64 Bytes) (fun _ _ => rfl) .oneEntry
    SplinterdbLogStore.contiguous_oneEntry
  exact ⟨(h 1 (by decide)).1.mpr (by decide), (h 0 (by decide)).2.mpr (by decide)⟩

/-- A store with one entry, at index 1.  Compacting beyond its end moves the
start of the log to 6 and leaves the next slot at 2; compacting to its end and
then to a lower index throws. -/
theorem compact_leaves_end_and_throws_below_start :
    SplinterdbLogStore.oneEntry.Contiguous ∧
    (∃ s, (SplinterdbLogStore.compact (.reliable UInt64 Bytes) 5).run .oneEntry = .ok true s ∧
      s.startIndex = 6 ∧ s.nextSlot = 2) ∧
    (∃ s, (SplinterdbLogStore.compact (.reliable UInt64 Bytes) 1).run .oneEntry = .ok true s ∧
      s.startIndex = 2 ∧ s.nextSlot = 2 ∧
      (SplinterdbLogStore.compact (.reliable UInt64 Bytes) 0).run s = .error .lengthError s) ∧
    ¬ SplinterdbLogStore.PurgesPrefix (.reliable UInt64 Bytes) .oneEntry 5 := by
  refine ⟨SplinterdbLogStore.contiguous_oneEntry, ⟨_, rfl, rfl, rfl⟩,
    ⟨_, rfl, rfl, rfl, rfl⟩, ?_⟩
  intro h
  have hinside := SplinterdbLogStore.compactsInside_of_purgesPrefix
    (SplinterDB.reliable_lawful UInt64 Bytes) (fun _ _ => rfl)
    SplinterdbLogStore.contiguous_oneEntry (by decide) h
  exact absurd hinside (by decide)

end ReplicatedSplinterDB
