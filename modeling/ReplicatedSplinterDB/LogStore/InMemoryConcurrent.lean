import ReplicatedSplinterDB.LogStore.InMemoryRange
import ReplicatedSplinterDB.Foundation.Interleaving

/-!
# Readers of the in-memory log store next to writers

The log store has one lock, and no call holds it for longer than one step of
its loop: range reads take it once for each entry, {lit}`last_entry` takes it
twice, and {lit}`apply_pack` takes it once for each record and once more for the
start of the log.  Between two critical sections of a reader, other threads may
run any number of theirs.

Main results:

- Theorem {lit}`LogSection.perform_lookup`: the sections that leave a range of
  indices alone.
- Theorem {lit}`log_range_reads_are_atomic`: a range read whose range the writers
  leave alone returns what it would return without them.
- Theorem {lit}`last_entry_between_writers`: what {lit}`last_entry` returns for
  every interleaving, and when this is the last entry.
-/

namespace ReplicatedSplinterDB

open Foundation

/-! ## Critical sections -/

/-- A critical section of a writer. -/
inductive LogSection where
  | append (entry : LogEntry)
  | writeAt (index : Nat) (entry : LogEntry)
  | compact (lastLogIndex : Nat)
  /-- {lit}`apply_pack` stores one record. -/
  | storeRecord (index : Nat) (entry : LogEntry)
  /-- {lit}`apply_pack` computes the start of the log. -/
  | finishPack

/-- A critical section of a reader. -/
inductive LogQuery where
  | nextSlot
  | find (index : Nat)
  | lookup (index : Nat)

/-- What a reader takes out of its critical section. -/
@[reducible] def LogQuery.Answer : LogQuery → Type
  | .nextSlot => Nat
  | .find _ => LogEntry
  | .lookup _ => Option LogEntry

/-- A reader of the log store. -/
abbrev LogReader (ρ : Type) := Interaction LogQuery LogQuery.Answer ρ

namespace InmemLogStore

/-- One critical section of a writer. -/
def perform (s : InmemLogStore) : LogSection → Except Exception InmemLogStore
  | .append entry =>
      match (append entry).run s with
      | .error e _ => .error e
      | .ok _ s => .ok s
  | .writeAt index entry =>
      match (writeAt index entry).run s with
      | .error e _ => .error e
      | .ok _ s => .ok s
  | .compact lastLogIndex =>
      match (compact lastLogIndex).run s with
      | .error e _ => .error e
      | .ok _ s => .ok s
  | .storeRecord index entry => .ok (s.store index entry)
  | .finishPack => .ok s.resetStart

/-- One critical section of a reader. -/
def answer : (query : LogQuery) → InmemLogStore → query.Answer
  | .nextSlot, s => s.nextSlot
  | .find index, s => s.find index
  | .lookup index, s => s.logs.lookup index

/-- Run a reader between the critical sections of writers. -/
def runReader {ρ : Type} (reader : LogReader ρ) (schedule : List (List LogSection))
    (s : InmemLogStore) : Except Exception (ρ × InmemLogStore) :=
  interleave answer perform reader schedule s

end InmemLogStore

/-! ## Readers, section by section -/

namespace LogReader

/-- The loop of {lit}`log_entries`. -/
def logEntriesLoop : List Nat → LogReader (List LogEntry)
  | [] => .ret []
  | ii :: rest =>
      .ask (.find ii) fun (src : LogEntry) =>
        (logEntriesLoop rest).bind fun entries => .ret (makeClone src :: entries)

/-- {lit}`log_entries` -/
def logEntries (start stop : Nat) : LogReader (Except Exception (List (Option LogEntry))) :=
  if stop < start then .ret (InmemLogStore.nullEntries start stop)
  else
    (logEntriesLoop (List.range' start (stop - start))).bind fun entries =>
      .ret (.ok (entries.map some))

/-- The loop of {lit}`log_entries_ext`. -/
def logEntriesExtLoop (batchSizeHintInBytes : Int64) : List Nat → Nat → LogReader (List LogEntry)
  | [], _ => .ret []
  | ii :: rest, accumSize =>
      .ask (.find ii) fun (src : LogEntry) =>
        let accumSize := wrap64 (accumSize + src.buf.length)
        if batchSizeHintInBytes ≠ 0 ∧ batchSizeHintInBytes.toUInt64.toNat ≤ accumSize then
          .ret [makeClone src]
        else
          (logEntriesExtLoop batchSizeHintInBytes rest accumSize).bind fun entries =>
            .ret (makeClone src :: entries)

/-- {lit}`log_entries_ext` -/
def logEntriesExt (start stop : Nat) (batchSizeHintInBytes : Int64) : LogReader (List LogEntry) :=
  if batchSizeHintInBytes < 0 then .ret []
  else logEntriesExtLoop batchSizeHintInBytes (List.range' start (stop - start)) 0

/-- The first loop of {lit}`pack`. -/
def collectEntries (format : EntryFormat) : List Nat → LogReader (Except Exception (List Bytes))
  | [] => .ret (.ok [])
  | ii :: rest =>
      .ask (.lookup ii) fun (le : Option LogEntry) =>
        match le with
        | none => .ret (.error .nullPointer)
        | some le =>
            (collectEntries format rest).bind fun
              | .error e => .ret (.error e)
              | .ok logs => .ret (.ok (format.serialize le :: logs))

/-- {lit}`last_entry` -/
def lastEntry : LogReader LogEntry :=
  .ask .nextSlot fun (nextIdx : Nat) =>
    .ask (.find (wrap64 (nextIdx + (2 ^ 64 - 1)))) fun (entry : LogEntry) =>
      .ret (makeClone entry)

/-! Without writers each reader is the plain operation. -/

variable (s : InmemLogStore)

theorem eval_logEntriesLoop (indices : List Nat) :
    (logEntriesLoop indices).eval (fun q => InmemLogStore.answer q s) =
      indices.map fun ii => makeClone (s.find ii) := by
  induction indices with
  | nil => rfl
  | cons ii rest ih =>
      simp only [logEntriesLoop, Interaction.eval, Interaction.eval_bind, ih, List.map_cons]
      rfl

theorem eval_logEntries (start stop : Nat) :
    (logEntries start stop).eval (fun q => InmemLogStore.answer q s) = s.logEntries start stop := by
  unfold logEntries InmemLogStore.logEntries
  split
  · rfl
  · rw [Interaction.eval_bind, eval_logEntriesLoop]
    simp only [Interaction.eval, List.map_map]
    rfl

theorem eval_logEntriesExtLoop (hint : Int64) (indices : List Nat) (accumSize : Nat) :
    (logEntriesExtLoop hint indices accumSize).eval (fun q => InmemLogStore.answer q s) =
      s.logEntriesExtLoop hint indices accumSize := by
  induction indices generalizing accumSize with
  | nil => rfl
  | cons ii rest ih =>
      simp only [logEntriesExtLoop, Interaction.eval, apply_ite (Interaction.eval _),
        Interaction.eval_bind, ih]
      rfl

theorem eval_logEntriesExt (start stop : Nat) (hint : Int64) :
    (logEntriesExt start stop hint).eval (fun q => InmemLogStore.answer q s) =
      s.logEntriesExt start stop hint := by
  unfold logEntriesExt InmemLogStore.logEntriesExt
  split
  · rfl
  · exact eval_logEntriesExtLoop s hint _ 0

/-- What the first loop of a pack collects, or the exception it ends with. -/
theorem eval_collectEntries (format : EntryFormat) (indices : List Nat) :
    (collectEntries format indices).eval (fun q => InmemLogStore.answer q s) =
      match InmemLogStore.collectEntries format indices s with
      | .ok logs _ => .ok logs
      | .error e _ => .error e := by
  induction indices with
  | nil => rfl
  | cons ii rest ih =>
      simp only [collectEntries, InmemLogStore.collectEntries, Interaction.eval]
      change Interaction.eval _ (match s.logs.lookup ii with | none => _ | some le => _) = _
      cases s.logs.lookup ii with
      | none => rfl
      | some le =>
          simp only [Interaction.eval_bind, ih]
          cases InmemLogStore.collectEntries format rest s with
          | ok logs s' => rfl
          | error e s' => rfl

/-! Range reads only look at their range. -/

/-- The section looks at an index of the range. -/
def Within (start stop : Nat) : LogQuery → Prop
  | .nextSlot => False
  | .find index => start ≤ index ∧ index < stop
  | .lookup index => start ≤ index ∧ index < stop

variable {start stop : Nat} {indices : List Nat}

theorem logEntriesLoop_asks (h : ∀ ii ∈ indices, start ≤ ii ∧ ii < stop) :
    (logEntriesLoop indices).Asks (Within start stop) := by
  induction indices with
  | nil => trivial
  | cons ii rest ih =>
      refine ⟨h ii List.mem_cons_self, ?_⟩
      intro src
      exact (ih fun jj hjj => h jj (List.mem_cons_of_mem ii hjj)).bind fun _ => trivial

theorem logEntriesExtLoop_asks (h : ∀ ii ∈ indices, start ≤ ii ∧ ii < stop) (hint : Int64)
    (accumSize : Nat) : (logEntriesExtLoop hint indices accumSize).Asks (Within start stop) := by
  induction indices generalizing accumSize with
  | nil => trivial
  | cons ii rest ih =>
      refine ⟨h ii List.mem_cons_self, ?_⟩
      intro src
      dsimp only
      split
      · trivial
      · exact (ih (fun jj hjj => h jj (List.mem_cons_of_mem ii hjj)) _).bind fun _ => trivial

theorem collectEntries_asks (h : ∀ ii ∈ indices, start ≤ ii ∧ ii < stop) (format : EntryFormat) :
    (collectEntries format indices).Asks (Within start stop) := by
  induction indices with
  | nil => trivial
  | cons ii rest ih =>
      refine ⟨h ii List.mem_cons_self, ?_⟩
      intro le
      cases le with
      | none => trivial
      | some le =>
          apply (ih fun jj hjj => h jj (List.mem_cons_of_mem ii hjj)).bind
          intro logs
          cases logs with
          | error e => trivial
          | ok logs => trivial

theorem mem_range'_within {start stop ii : Nat} (h : ii ∈ List.range' start (stop - start)) :
    start ≤ ii ∧ ii < stop := by
  rw [List.mem_range'_1] at h
  omega

theorem logEntries_asks (start stop : Nat) :
    (logEntries start stop).Asks (Within start stop) := by
  unfold logEntries
  split
  · trivial
  · exact (logEntriesLoop_asks fun _ => mem_range'_within).bind fun _ => trivial

theorem logEntriesExt_asks (start stop : Nat) (hint : Int64) :
    (logEntriesExt start stop hint).Asks (Within start stop) := by
  unfold logEntriesExt
  split
  · trivial
  · exact logEntriesExtLoop_asks (fun _ => mem_range'_within) hint 0

end LogReader

/-! ## Writers that leave a range alone -/

namespace LogSection

/-- The section does not touch the indices of the range: appends land outside,
overwrites start behind it, compactions end before it, and records are stored
outside. -/
def Leaves (start stop : Nat) (s : InmemLogStore) : LogSection → Prop
  | .append _ =>
      wrap64 (s.startIdx + s.logs.size - 1) < start ∨
        stop ≤ wrap64 (s.startIdx + s.logs.size - 1)
  | .writeAt index _ => stop ≤ index
  | .compact lastLogIndex => lastLogIndex < start
  | .storeRecord index _ => index < start ∨ stop ≤ index
  | .finishPack => True

instance (start stop : Nat) (s : InmemLogStore) :
    (sec : LogSection) → Decidable (sec.Leaves start stop s)
  | .append _ => inferInstanceAs (Decidable (_ ∨ _))
  | .writeAt _ _ => inferInstanceAs (Decidable (_ ≤ _))
  | .compact _ => inferInstanceAs (Decidable (_ < _))
  | .storeRecord _ _ => inferInstanceAs (Decidable (_ ∨ _))
  | .finishPack => inferInstanceAs (Decidable True)

/-- An append lands behind every range that the log reaches beyond. -/
theorem leaves_append {s : InmemLogStore} {start stop : Nat} (hstop : stop ≤ s.nextSlot)
    (entry : LogEntry) : (LogSection.append entry).Leaves start stop s :=
  .inr hstop

variable {start stop : Nat} {s s' : InmemLogStore} {sec : LogSection}

/-- Such a section keeps the entries of the range. -/
theorem perform_lookup (hleaves : sec.Leaves start stop s) (h : s.perform sec = .ok s') {j : Nat}
    (hlow : start ≤ j) (hhigh : j < stop) : s'.logs.lookup j = s.logs.lookup j := by
  cases sec with
  | append entry =>
      cases h
      change (s.logs.insert _ _).lookup j = _
      rw [OrderedMap.lookup_insert_eq, if_neg]
      rcases hleaves with hbefore | hbehind
      · omega
      · omega
  | writeAt index entry =>
      cases h
      change ((s.logs.eraseFrom index).insert index _).lookup j = _
      have hlt : j < index := Nat.lt_of_lt_of_le hhigh hleaves
      rw [OrderedMap.lookup_insert_eq, if_neg (by omega), OrderedMap.lookup_eraseFrom,
        if_neg (by omega)]
  | compact lastLogIndex =>
      simp only [InmemLogStore.perform, EStateM.run, InmemLogStore.compact] at h
      by_cases hend : 2 ^ 64 - 1 ≤ lastLogIndex
      · rw [if_pos hend] at h
        cases h
      · rw [if_neg hend] at h
        cases h
        have hlt : lastLogIndex < j := Nat.lt_of_lt_of_le hleaves hlow
        dsimp only
        rw [OrderedMap.lookup_eraseAll, if_neg]
        rw [List.mem_range'_1]
        omega
  | storeRecord index entry =>
      cases h
      change (s.logs.insert index entry).lookup j = _
      rw [OrderedMap.lookup_insert_eq, if_neg]
      rcases hleaves with hbefore | hbehind
      · omega
      · omega
  | finishPack =>
      cases h
      rfl

end LogSection

namespace InmemLogStore

/-- A reader that only looks at a range of stored indices, and whose writers
leave this range alone, returns what it returns without them. -/
theorem runReader_eq_eval {ρ : Type} {reader : LogReader ρ} {start stop : Nat}
    (hreader : reader.Asks (LogReader.Within start stop)) {s t : InmemLogStore}
    (hstored : ∀ j, start ≤ j → j < stop → j ∈ s.logs) {schedule : List (List LogSection)}
    (hleaves : Admissible (LogSection.Leaves start stop) perform schedule.flatten s)
    (hwriters : runEvents perform schedule.flatten s = .ok t) :
    ∃ s', runReader reader schedule s = .ok (reader.eval fun q => answer q s, s') := by
  have hstep : ∀ (t : InmemLogStore) (sec : LogSection) (t' : InmemLogStore),
      (∀ j, start ≤ j → j < stop → t.logs.lookup j = s.logs.lookup j) →
      LogSection.Leaves start stop t sec → t.perform sec = .ok t' →
      ∀ j, start ≤ j → j < stop → t'.logs.lookup j = s.logs.lookup j := by
    intro t sec t' ht hsec hperform j hlow hhigh
    rw [LogSection.perform_lookup hsec hperform hlow hhigh]
    exact ht j hlow hhigh
  have hfixed : ∀ (query : LogQuery) (t : InmemLogStore), LogReader.Within start stop query →
      (∀ j, start ≤ j → j < stop → t.logs.lookup j = s.logs.lookup j) →
      answer query t = answer query s := by
    intro query t hquery ht
    cases query with
    | nextSlot => exact absurd hquery id
    | lookup index => exact ht index hquery.1 hquery.2
    | find index =>
        have hmem := hstored index hquery.1 hquery.2
        rcases Option.isSome_iff_exists.mp (Finmap.lookup_isSome.mpr hmem) with ⟨entry, hentry⟩
        have hentry' := (ht index hquery.1 hquery.2).trans hentry
        simp only [answer, find, hentry, hentry']
  have hreturns : ∃ r s', interleave answer perform reader schedule s = .ok (r, s') :=
    interleave_returns reader hwriters
  rcases hreturns with ⟨r, s', hrun⟩
  have hresult := interleave_eq_eval hstep hfixed hreader (fun _ _ _ => rfl) hleaves hrun
  subst hresult
  exact ⟨s', hrun⟩

end InmemLogStore

/-- Let a range of indices be stored, and let other threads get through any
critical sections that leave it alone, in any number between any two sections of
a reader: appends, overwrites behind the range, compactions before it, and the
sections of {lit}`apply_pack` outside of it.  Then {lit}`log_entries`,
{lit}`log_entries_ext` with any size hint and the loop of {lit}`pack` return what
they return on the store that they started on, as if they had held the lock all
the time. -/
theorem log_range_reads_are_atomic (s t : InmemLogStore) (start stop : Nat)
    (hstored : ∀ j, start ≤ j → j < stop → j ∈ s.logs) (schedule : List (List LogSection))
    (hleaves : Admissible (LogSection.Leaves start stop) InmemLogStore.perform
      schedule.flatten s)
    (hwriters : runEvents InmemLogStore.perform schedule.flatten s = .ok t) :
    (∃ s', InmemLogStore.runReader (LogReader.logEntries start stop) schedule s =
      .ok (s.logEntries start stop, s')) ∧
    (∀ hint, ∃ s', InmemLogStore.runReader (LogReader.logEntriesExt start stop hint) schedule s =
      .ok (s.logEntriesExt start stop hint, s')) ∧
    (∀ format, ∃ s', InmemLogStore.runReader
        (LogReader.collectEntries format (List.range' start (stop - start))) schedule s =
      .ok (match InmemLogStore.collectEntries format (List.range' start (stop - start)) s with
        | .ok logs _ => .ok logs
        | .error e _ => .error e, s')) := by
  refine ⟨?_, ?_, ?_⟩
  · rw [← LogReader.eval_logEntries]
    exact InmemLogStore.runReader_eq_eval (LogReader.logEntries_asks start stop) hstored hleaves
      hwriters
  · intro hint
    rw [← LogReader.eval_logEntriesExt]
    exact InmemLogStore.runReader_eq_eval (LogReader.logEntriesExt_asks start stop hint) hstored
      hleaves hwriters
  · intro format
    rw [← LogReader.eval_collectEntries]
    exact InmemLogStore.runReader_eq_eval
      (LogReader.collectEntries_asks (fun _ => LogReader.mem_range'_within) format) hstored
      hleaves hwriters

/-- Reading the second and third of three entries while the first is compacted
away, a fourth is appended and then overwritten. -/
theorem log_range_reads_are_atomic_three :
    ∃ s', InmemLogStore.runReader (LogReader.logEntries 2 4)
        [[.compact 1], [.append (.create 2 [100] appLog), .writeAt 4 (.create 3 [101] appLog)]]
        (.ofEntries [.create 1 [97] appLog, .create 1 [98] appLog, .create 1 [99] appLog]) =
      .ok (.ok [some (.create 1 [98] appLog), some (.create 1 [99] appLog)], s') := by
  have hwriters : ∃ t, runEvents InmemLogStore.perform
      [.compact 1, .append (.create 2 [100] appLog), .writeAt 4 (.create 3 [101] appLog)]
      (.ofEntries [.create 1 [97] appLog, .create 1 [98] appLog, .create 1 [99] appLog]) =
        .ok t := ⟨_, rfl⟩
  rcases hwriters with ⟨t, hwriters⟩
  refine (log_range_reads_are_atomic _ t 2 4 ?_
    [[.compact 1], [.append (.create 2 [100] appLog), .writeAt 4 (.create 3 [101] appLog)]]
    ?_ hwriters).1
  · intro j hlow hhigh
    have hj : j = 2 ∨ j = 3 := by omega
    rcases hj with rfl | rfl
    · decide
    · decide
  · refine ⟨by decide, ?_⟩
    intro s₁ h₁
    cases h₁
    refine ⟨LogSection.leaves_append (by decide +kernel) _, ?_⟩
    intro s₂ h₂
    cases h₂
    exact ⟨by decide, fun _ _ => trivial⟩

/-! ## The last entry -/

/-- For every store and whatever other threads run before and between the two
critical sections of {lit}`last_entry`: it returns what is stored, in the end, at
the index that was the last one at its first section.  This is the last entry at
its first section if the others leave that index alone, and the dummy entry if
they have dropped it, even if the log is never empty. -/
theorem last_entry_between_writers (s s₁ s₂ : InmemLogStore) (before between : List LogSection)
    (hbefore : runEvents InmemLogStore.perform before s = .ok s₁)
    (hbetween : runEvents InmemLogStore.perform between s₁ = .ok s₂) (last : Nat)
    (hlast : last = wrap64 (s₁.nextSlot + (2 ^ 64 - 1))) :
    InmemLogStore.runReader LogReader.lastEntry [before, between] s = .ok (s₂.find last, s₂) ∧
      (last ∈ s₁.logs →
        Admissible (LogSection.Leaves last (last + 1)) InmemLogStore.perform between s₁ →
        s₂.find last = s₁.lastEntry) ∧
      (last ∉ s₂.logs → s₂.find last = s₂.find 0) := by
  refine ⟨?_, ?_, ?_⟩
  · simp only [InmemLogStore.runReader, LogReader.lastEntry, interleave, hbefore, hbetween,
      InmemLogStore.answer, makeClone_eq, hlast]
  · intro hmem hleaves
    have hstep : ∀ (t : InmemLogStore) (sec : LogSection) (t' : InmemLogStore),
        t.logs.lookup last = s₁.logs.lookup last → LogSection.Leaves last (last + 1) t sec →
        t.perform sec = .ok t' → t'.logs.lookup last = s₁.logs.lookup last := by
      intro t sec t' ht hsec hperform
      rw [LogSection.perform_lookup hsec hperform (Nat.le_refl last) (Nat.lt_succ_self last)]
      exact ht
    have hkept : s₂.logs.lookup last = s₁.logs.lookup last :=
      runEvents_invariant_of_admissible hstep rfl hleaves hbetween
    rcases Option.isSome_iff_exists.mp (Finmap.lookup_isSome.mpr hmem) with ⟨entry, hentry⟩
    have hentry' := hkept.trans hentry
    have hplain : s₁.lastEntry = s₁.find last := by
      rw [hlast]
      rfl
    simp only [hplain, InmemLogStore.find, hentry, hentry']
  · intro habsent
    have hnone := Finmap.lookup_eq_none.mpr habsent
    have hzero := Finmap.lookup_isSome.mpr s₂.zero_mem
    rcases Option.isSome_iff_exists.mp hzero with ⟨dummy, hdummy⟩
    simp only [InmemLogStore.find, hnone, hdummy, Option.get_some]

/-- Between the two sections of a call, another thread overwrites the log from
its first entry on: the log is never empty, and the call returns the dummy. -/
theorem last_entry_of_overwritten_log :
    ∃ s₂, InmemLogStore.runReader LogReader.lastEntry
        [[], [.writeAt 1 (.create 2 [99] appLog)]]
        (.ofEntries [.create 1 [97] appLog, .create 1 [98] appLog]) =
          .ok (dummyEntry (List.replicate 8 0), s₂) ∧
      s₂.find 1 = .create 2 [99] appLog := by
  have hbetween : ∃ s₂, runEvents InmemLogStore.perform [.writeAt 1 (.create 2 [99] appLog)]
      (.ofEntries [.create 1 [97] appLog, .create 1 [98] appLog]) = .ok s₂ ∧
      s₂.logs = ((InmemLogStore.ofEntries [.create 1 [97] appLog,
        .create 1 [98] appLog]).logs.eraseFrom 1).insert 1 (.create 2 [99] appLog) :=
    ⟨_, rfl, rfl⟩
  rcases hbetween with ⟨s₂, hbetween, hlogs⟩
  have hlookup : ∀ j, s₂.logs.lookup j = if j = 1 then some (.create 2 [99] appLog)
      else if 1 ≤ j then none else (InmemLogStore.ofEntries [.create 1 [97] appLog,
        .create 1 [98] appLog]).logs.lookup j := by
    intro j
    rw [hlogs, OrderedMap.lookup_insert_eq, OrderedMap.lookup_eraseFrom]
  have hdummy : s₂.logs.lookup 0 = some (dummyEntry (List.replicate 8 0)) := by
    rw [hlookup 0, if_neg (by decide), if_neg (by decide)]
    rfl
  rcases last_entry_between_writers _ _ s₂ [] _ rfl hbetween 2 rfl with ⟨hrun, -, hdropped⟩
  have habsent : 2 ∉ s₂.logs := Finmap.lookup_eq_none.mp (hlookup 2)
  rw [hdropped habsent] at hrun
  refine ⟨s₂, ?_, ?_⟩
  · rw [hrun]
    simp only [InmemLogStore.find, hdummy]
  · simp only [InmemLogStore.find, hlookup 1, if_true]

end ReplicatedSplinterDB
