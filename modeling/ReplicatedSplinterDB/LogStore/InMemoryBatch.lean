import ReplicatedSplinterDB.Foundation.Batch
import ReplicatedSplinterDB.LogStore.InMemoryRange

/-!
# Reading the in-memory log in batches

{lit}`log_entries_ext` reads a range of the log but stops behind the entry with
which the payloads reach a given size.  Its loop adds the sizes up in a machine
word; since it stops as soon as a limit below {lit}`2 ^ 63` is reached, the sum
never wraps.

Main results:

- Theorem {lit}`InmemLogStore.logEntriesExt_isPrefix`: a batch is a beginning of the
  plain read.
- Theorem {lit}`InmemLogStore.logEntriesExt_eq_takeBatch`: where a batch ends.
- Theorem {lit}`BatchedRead.iterate_readNext`: reading on from where the last batch
  ended reaches the end of the range.
- Theorem {lit}`inmem_log_store_batches_agree`: batches against plain reads.
-/

namespace ReplicatedSplinterDB

open Foundation

/-- The size of an entry's payload. -/
def payloadSize (entry : LogEntry) : Nat := entry.buf.length

namespace InmemLogStore

/-! ## One batch -/

theorem logEntriesExtLoop_isPrefix (s : InmemLogStore) (hint : Int64) (indices : List Nat)
    (accumSize : Nat) : s.logEntriesExtLoop hint indices accumSize <+: indices.map s.find := by
  induction indices generalizing accumSize with
  | nil => exact List.prefix_refl []
  | cons ii rest ih =>
      simp only [logEntriesExtLoop, makeClone_eq, List.map_cons]
      split
      · exact ⟨rest.map s.find, rfl⟩
      · exact (List.prefix_cons_inj (s.find ii)).mpr (ih _)

/-- Without a limit the loop visits every index. -/
theorem logEntriesExtLoop_zero (s : InmemLogStore) (indices : List Nat) (accumSize : Nat) :
    s.logEntriesExtLoop 0 indices accumSize = indices.map s.find := by
  induction indices generalizing accumSize with
  | nil => rfl
  | cons ii rest ih =>
      simp only [logEntriesExtLoop, makeClone_eq, List.map_cons, ne_eq, not_true_eq_false,
        false_and, if_false, ih]

/-- With a limit the loop takes the shortest batch that reaches what is left of
it.  The sum stays below the limit until the loop ends, so it does not wrap. -/
theorem logEntriesExtLoop_eq_takeBatch (s : InmemLogStore) {hint : Int64} (hhint : 0 < hint)
    {indices : List Nat} (hsizes : ∀ ii ∈ indices, payloadSize (s.find ii) < 2 ^ 63)
    {accumSize : Nat} (haccum : accumSize < hint.toInt.toNat) :
    s.logEntriesExtLoop hint indices accumSize =
      takeBatch payloadSize (hint.toInt.toNat - accumSize) (indices.map s.find) := by
  have hne : hint ≠ 0 := by
    rintro rfl
    exact absurd hhint (Int64.lt_irrefl)
  have hlimit : hint.toUInt64.toNat = hint.toInt.toNat :=
    Int64.toNat_toUInt64_of_le (Int64.le_of_lt hhint)
  have hbound : hint.toInt.toNat < 2 ^ 63 := Int64.toNatClampNeg_lt hint
  induction indices generalizing accumSize with
  | nil => rfl
  | cons ii rest ih =>
      rw [List.forall_mem_cons] at hsizes
      have hwrap : wrap64 (accumSize + (s.find ii).buf.length) =
          accumSize + payloadSize (s.find ii) := wrap64_of_lt (by
        have hsize := hsizes.1
        unfold payloadSize at hsize
        omega)
      have hreached : (hint ≠ 0 ∧ hint.toUInt64.toNat ≤ accumSize + payloadSize (s.find ii)) ↔
          hint.toInt.toNat - accumSize ≤ payloadSize (s.find ii) := by
        rw [hlimit]
        constructor
        · rintro ⟨-, h⟩
          omega
        · intro h
          exact ⟨hne, by omega⟩
      simp only [logEntriesExtLoop, makeClone_eq, List.map_cons, takeBatch, hwrap, hreached]
      by_cases hend : hint.toInt.toNat - accumSize ≤ payloadSize (s.find ii)
      · rw [if_pos hend, if_pos hend]
      · rw [if_neg hend, if_neg hend, ih hsizes.2 (by omega), Nat.sub_add_eq]

/-- A batch is a beginning of the plain read. -/
theorem logEntriesExt_isPrefix (s : InmemLogStore) (start stop : Nat) (hint : Int64) :
    s.logEntriesExt start stop hint <+: (List.range' start (stop - start)).map s.find := by
  unfold logEntriesExt
  split
  · exact List.nil_prefix
  · exact s.logEntriesExtLoop_isPrefix hint _ 0

theorem logEntriesExt_zero (s : InmemLogStore) (start stop : Nat) :
    s.logEntriesExt start stop 0 = (List.range' start (stop - start)).map s.find := by
  unfold logEntriesExt
  rw [if_neg (by decide)]
  exact s.logEntriesExtLoop_zero _ 0

theorem logEntriesExt_eq_takeBatch (s : InmemLogStore) {start stop : Nat} {hint : Int64}
    (hhint : 0 < hint)
    (hsizes : ∀ ii, start ≤ ii → ii < stop → payloadSize (s.find ii) < 2 ^ 63) :
    s.logEntriesExt start stop hint =
      takeBatch payloadSize hint.toInt.toNat ((List.range' start (stop - start)).map s.find) := by
  have hpos : 0 < hint.toInt.toNat := by
    have hint_pos := Int64.lt_iff_toInt_lt.mp hhint
    change 0 < hint.toInt at hint_pos
    omega
  have hrange : ∀ ii ∈ List.range' start (stop - start), payloadSize (s.find ii) < 2 ^ 63 := by
    intro ii hii
    rw [List.mem_range'_1] at hii
    exact hsizes ii hii.1 (by omega)
  unfold logEntriesExt
  rw [if_neg (Int64.not_lt.mpr (Int64.le_of_lt hhint)),
    s.logEntriesExtLoop_eq_takeBatch hhint hrange hpos, Nat.sub_zero]

/-- A batch of a range that is not empty has at least one entry. -/
theorem logEntriesExt_ne_nil (s : InmemLogStore) {start stop : Nat} (h : start < stop)
    {hint : Int64} (hhint : 0 ≤ hint) : s.logEntriesExt start stop hint ≠ [] := by
  have hrange : List.range' start (stop - start) =
      start :: List.range' (start + 1) (stop - start - 1) := by
    have hcount : stop - start = stop - start - 1 + 1 := by omega
    rw [hcount]
    exact List.range'_succ
  unfold logEntriesExt
  rw [if_neg (Int64.not_lt.mpr hhint), hrange]
  simp only [logEntriesExtLoop]
  split
  · exact List.cons_ne_nil _ _
  · exact List.cons_ne_nil _ _

end InmemLogStore

/-! ## Reading on -/

/-- A read of a range in several calls: the first index that has not been returned
yet, and the entries returned so far. -/
structure BatchedRead where
  next : Nat
  entries : List LogEntry

namespace BatchedRead

/-- The next call, from the first index not yet returned. -/
def readNext (s : InmemLogStore) (stop : Nat) (hint : Int64) (r : BatchedRead) : BatchedRead :=
  let batch := s.logEntriesExt r.next stop hint
  ⟨r.next + batch.length, r.entries ++ batch⟩

/-- The calls have stayed inside the range, and together they have returned what
one plain read returns. -/
structure Agrees (s : InmemLogStore) (start stop : Nat) (r : BatchedRead) : Prop where
  start_le : start ≤ r.next
  le_stop : r.next ≤ stop
  entries_eq : r.entries = (List.range' start (r.next - start)).map s.find

variable {s : InmemLogStore} {start stop : Nat} {hint : Int64} {r : BatchedRead}

/-- One call keeps the agreement: its batch continues the entries so far. -/
theorem Agrees.readNext (h : r.Agrees s start stop) :
    (r.readNext s stop hint).Agrees s start stop := by
  have hstart := h.start_le
  have hstop := h.le_stop
  have hbatch := s.logEntriesExt_isPrefix r.next stop hint
  have hlength := hbatch.length_le
  have htake := List.prefix_iff_eq_take.mp hbatch
  rw [List.length_map, List.length_range'] at hlength
  rw [← List.map_take, List.take_range'_of_length_ge hlength] at htake
  refine ⟨?_, ?_, ?_⟩
  · exact Nat.le_trans hstart (Nat.le_add_right _ _)
  · change r.next + (s.logEntriesExt r.next stop hint).length ≤ stop
    omega
  · change r.entries ++ s.logEntriesExt r.next stop hint = _
    have hcount : r.next + (s.logEntriesExt r.next stop hint).length - start =
        r.next - start + (s.logEntriesExt r.next stop hint).length := by omega
    have hindex : start + (r.next - start) = r.next := by omega
    change _ = (List.range' start
      (r.next + (s.logEntriesExt r.next stop hint).length - start)).map s.find
    rw [hcount, ← List.range'_append_1, List.map_append, hindex, ← htake, h.entries_eq]

/-- As long as the end is not reached, a call returns something. -/
theorem next_lt_readNext (hhint : 0 ≤ hint) (h : r.next < stop) :
    r.next < (r.readNext s stop hint).next :=
  Nat.lt_add_of_pos_right (List.length_pos_iff.mpr (s.logEntriesExt_ne_nil h hhint))

/-- After any number of calls the entries agree with a plain read, and every call
has returned at least one entry unless the end is reached. -/
theorem iterate_readNext (hle : start ≤ stop) (hhint : 0 ≤ hint) (calls : Nat) :
    ((readNext s stop hint)^[calls] ⟨start, []⟩).Agrees s start stop ∧
      (((readNext s stop hint)^[calls] ⟨start, []⟩).next = stop ∨
        start + calls ≤ ((readNext s stop hint)^[calls] ⟨start, []⟩).next) := by
  induction calls with
  | zero =>
      refine ⟨⟨Nat.le_refl start, hle, ?_⟩, .inr (Nat.le_refl start)⟩
      simp
  | succ calls ih =>
      rcases ih with ⟨hagrees, hnext⟩
      rw [Function.iterate_succ_apply']
      generalize (readNext s stop hint)^[calls] ⟨start, []⟩ = r at hagrees hnext ⊢
      have hagrees' : (r.readNext s stop hint).Agrees s start stop := hagrees.readNext
      refine ⟨hagrees', ?_⟩
      by_cases hend : r.next = stop
      · left
        have hlow : r.next ≤ (r.readNext s stop hint).next := Nat.le_add_right _ _
        have hhigh := hagrees'.le_stop
        omega
      · right
        have hbelow : r.next < stop := Nat.lt_of_le_of_ne hagrees.le_stop hend
        have hprogress := next_lt_readNext (s := s) hhint hbelow
        have hcalls := hnext.resolve_left hend
        omega

end BatchedRead

/-- For every contiguous store and every range of its log: a batch is a beginning
of the plain read, empty for a negative hint, complete without one, and else the
shortest beginning whose payloads reach the hint, or complete if none does.  For a
hint that is not negative a batch of a nonempty range is not empty; calls that
each go on where the last one ended agree with a plain read at every point, and
have returned the whole range once there were as many of them as entries.  No
payload is larger than an object can be. -/
theorem inmem_log_store_batches_agree (s : InmemLogStore) (h : s.Contiguous)
    (hsizes : ∀ k entry, s.logs.lookup k = some entry → entry.buf.length < 2 ^ 63)
    (i j : Nat) (hlow : s.startIndex ≤ i) (hij : i ≤ j) (hhigh : j ≤ s.nextSlot) (hint : Int64) :
    ∃ entries, s.logEntries i j = .ok (entries.map some) ∧
      (∀ k, i + k < j → entries[k]? = s.logs.lookup (i + k)) ∧
      s.logEntriesExt i j hint <+: entries ∧
      (hint < 0 → s.logEntriesExt i j hint = []) ∧
      (hint = 0 → s.logEntriesExt i j hint = entries) ∧
      (0 < hint →
        IsLeast {m | 1 ≤ m ∧ m ≤ entries.length ∧
            hint.toInt ≤ totalWeight payloadSize (entries.take m)}
          (s.logEntriesExt i j hint).length ∨
        (∀ m, m ≤ entries.length → totalWeight payloadSize (entries.take m) < hint.toInt) ∧
          s.logEntriesExt i j hint = entries) ∧
      (0 ≤ hint → i < j → s.logEntriesExt i j hint ≠ []) ∧
      (0 ≤ hint → ∀ calls, ∃ next batches,
        (BatchedRead.readNext s j hint)^[calls] ⟨i, []⟩ = ⟨next, batches⟩ ∧
        i ≤ next ∧ next ≤ j ∧ s.logEntries i next = .ok (batches.map some) ∧
        (j - i ≤ calls → next = j ∧ batches = entries)) := by
  have hpayloads : ∀ ii, i ≤ ii → ii < j → payloadSize (s.find ii) < 2 ^ 63 := by
    intro ii hii hii'
    have hstored := h.mem_of_mem_log (Nat.le_trans hlow hii) (Nat.lt_of_lt_of_le hii' hhigh)
    exact hsizes ii _ (InmemLogStore.lookup_eq_find hstored)
  refine ⟨(List.range' i (j - i)).map s.find, s.logEntries_eq_map hij, ?_,
    s.logEntriesExt_isPrefix i j hint, ?_, ?_, ?_, ?_, ?_⟩
  · intro k hk
    have hoffset : k < j - i := by omega
    have hstored := h.mem_of_mem_log (j := i + k) (by omega) (by omega)
    rw [InmemLogStore.lookup_eq_find hstored, List.getElem?_map, List.getElem?_range' hoffset,
      Nat.one_mul, Option.map_some]
  · intro hneg
    unfold InmemLogStore.logEntriesExt
    rw [if_pos hneg]
  · rintro rfl
    exact s.logEntriesExt_zero i j
  · intro hpos
    have hlimit : 0 < hint.toInt.toNat := by
      rw [Int.lt_toNat]
      exact Int64.lt_iff_toInt_lt.mp hpos
    rw [s.logEntriesExt_eq_takeBatch hpos hpayloads]
    have hleast := takeBatch_isLeast_or_eq payloadSize hlimit
      ((List.range' i (j - i)).map s.find)
    simp only [Int.toNat_le, Int.lt_toNat] at hleast
    exact hleast
  · intro hnonneg hlt
    exact s.logEntriesExt_ne_nil hlt hnonneg
  · intro hnonneg calls
    rcases BatchedRead.iterate_readNext hij hnonneg calls with ⟨hagrees, hnext⟩
    generalize (BatchedRead.readNext s j hint)^[calls] ⟨i, []⟩ = r at hagrees hnext ⊢
    refine ⟨r.next, r.entries, rfl, hagrees.start_le, hagrees.le_stop, ?_, ?_⟩
    · rw [s.logEntries_eq_map hagrees.start_le, hagrees.entries_eq]
    · intro hcalls
      have hend : r.next = j := by
        have hstop := hagrees.le_stop
        omega
      refine ⟨hend, ?_⟩
      rw [hagrees.entries_eq, hend]

/-- Three entries, the second without a payload, read with a hint of one byte: the
first call returns the first entry, and two more calls return the rest. -/
theorem inmem_log_store_batches_agree_three :
    InmemLogStore.logEntriesExt (.ofEntries [.create 1 [97] appLog, .create 1 [] appLog,
      .create 2 [98, 99] appLog]) 1 4 1 = [.create 1 [97] appLog] ∧
    ∃ entries, InmemLogStore.logEntries (.ofEntries [.create 1 [97] appLog, .create 1 [] appLog,
        .create 2 [98, 99] appLog]) 1 4 = .ok (entries.map some) ∧
      (BatchedRead.readNext (.ofEntries [.create 1 [97] appLog, .create 1 [] appLog,
        .create 2 [98, 99] appLog]) 4 1)^[3] ⟨1, []⟩ = ⟨4, entries⟩ := by
  have hcontiguous : (InmemLogStore.ofEntries [.create 1 [97] appLog, .create 1 [] appLog,
      .create 2 [98, 99] appLog]).Contiguous := ⟨by decide, by decide +kernel⟩
  have hnext : (InmemLogStore.ofEntries [.create 1 [97] appLog, .create 1 [] appLog,
      .create 2 [98, 99] appLog]).nextSlot = 4 := by decide +kernel
  have hsizes : ∀ k entry, (InmemLogStore.ofEntries [.create 1 [97] appLog,
      .create 1 [] appLog, .create 2 [98, 99] appLog]).logs.lookup k = some entry →
      entry.buf.length < 2 ^ 63 := by
    intro k entry hentry
    have hstored := (hcontiguous.mem_iff k).mp (Finmap.mem_iff.mpr ⟨entry, hentry⟩)
    rw [hnext] at hstored
    have hcases : k = 0 ∨ k = 1 ∨ k = 2 ∨ k = 3 := by omega
    rcases hcases with rfl | rfl | rfl | rfl
    · cases hentry
      decide
    · cases hentry
      decide
    · cases hentry
      decide
    · cases hentry
      decide
  rcases inmem_log_store_batches_agree _ hcontiguous hsizes 1 4 (by decide) (by decide)
    (by rw [hnext]) 1 with ⟨entries, hentries, -, -, -, -, -, -, hcalls⟩
  rcases hcalls (by decide) 3 with ⟨next, batches, hrun, -, -, -, hall⟩
  rcases hall (by decide) with ⟨rfl, rfl⟩
  exact ⟨by decide +kernel, batches, hentries, hrun⟩

end ReplicatedSplinterDB
