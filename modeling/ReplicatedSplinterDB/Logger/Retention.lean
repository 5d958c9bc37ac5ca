import ReplicatedSplinterDB.Foundation.EventRun
import ReplicatedSplinterDB.Logger.Files
import ReplicatedSplinterDB.Logger.Ring

/-!
# The log files over whole runs

Flushes, the compressing thread and restarts interleave in any order.  Over such
runs the directory keeps the latest revisions as they were written, and the number
of revisions stays bounded if loggers are stopped properly.

Main results:

- Structure {lit}`LogFiles.Keeps`: the directory holds what was written, and the
  compressing thread does no harm.
- Theorem {lit}`LogFiles.step_keeps`: every event keeps this.
- Theorem {lit}`log_files_survive_restarts`: the same over whole runs; a logger that
  is started again continues where the last one was.
- Theorem {lit}`stopped_loggers_keep_few_files`: a bound on the number of files.
- Theorem {lit}`logger_fills_files`: the files of a logger that runs beside the
  compressing thread are those that its ring has written.
-/

namespace ReplicatedSplinterDB

open Foundation

/-! ## The compressing thread -/

namespace LogFiles

/-- The commands that are still to run.  At most the first two of a compression
are there, with the file that they need; then come removals of the oldest
revisions, none of which is among the latest or waits for compression. -/
structure Working (base : FileName) (maxLogFiles : Nat) (s : LogFiles) (first : List FileCommand)
    (count : Nat) : Prop where
  commands : s.commands = first ++ (List.range' s.minRevnum count).map .rmRevision
  removable : count = 0 ∨ (maxLogFiles ≠ 0 ∧ s.minRevnum + count + maxLogFiles ≤ s.curRevnum)
  first : first = [] ∨ ∃ fileNum, s.minRevnum ≤ fileNum ∧ fileNum < s.curRevnum ∧
    (∀ n ∈ s.compElems, fileNum < n) ∧
    (s.dir (fileName base fileNum false)).isSome ∧
    (first = [.tar fileNum, .rm fileNum] ∨ (first = [.rm fileNum] ∧
      s.dir (fileName base fileNum true) = s.dir (fileName base fileNum false)))
  waiting : ∀ n ∈ s.compElems, s.minRevnum + count ≤ n ∧ n < s.curRevnum ∧
    (s.dir (fileName base n false)).isSome
  ordered : s.compElems.Pairwise (· < ·)

/-- The directory holds what was written, no revision was removed before its time,
and the compressing thread does no harm. -/
structure Keeps (base : FileName) (maxLogFiles : Nat) (foreign : Directory) (s : LogFiles)
    (segments : List (List Bytes)) : Prop where
  holds : Directory.Holds base foreign s.dir s.minRevnum s.curRevnum segments
  retained : s.minRevnum = 0 ∨ (maxLogFiles ≠ 0 ∧ s.minRevnum + maxLogFiles ≤ s.curRevnum)
  working : ∃ first count, s.Working base maxLogFiles first count

variable {base : FileName} {maxLogFiles : Nat} {foreign : Directory} {s : LogFiles}
  {segments : List (List Bytes)}

theorem keeps_create (hforeign : ∀ name, (foreign name).isSome → ¬ base <:+: name) :
    Keeps base maxLogFiles foreign (create base foreign) [[]] := by
  refine ⟨.create hforeign, .inl rfl, [], 0, rfl, .inl rfl, .inl rfl, ?_, .nil⟩
  intro n hn
  cases hn

/-- The compressing thread is not disturbed when files are only added or written. -/
theorem Working.grow {first : List FileCommand} {count : Nat}
    (h : s.Working base maxLogFiles first count) {dir : Directory} {cur : Nat}
    (hcur : s.curRevnum ≤ cur) {added : List Nat}
    (hdir : ∀ n compressed, n < s.curRevnum →
      dir (fileName base n compressed) = s.dir (fileName base n compressed))
    (hadded : ∀ n ∈ added, (∀ m ∈ s.compElems, m < n) ∧ s.curRevnum ≤ n ∧ n < cur ∧
      (dir (fileName base n false)).isSome) (hordered : added.Pairwise (· < ·))
    (hroom : s.minRevnum + count ≤ s.curRevnum) :
    Working base maxLogFiles
      ⟨dir, s.minRevnum, cur, s.compElems ++ added, s.commands⟩ first count := by
  refine ⟨h.commands, ?_, ?_, ?_, ?_⟩
  · rcases h.removable with hnone | ⟨hmax, hold⟩
    · exact .inl hnone
    · exact .inr ⟨hmax, hold.trans hcur⟩
  · rcases h.first with hnone | ⟨fileNum, hlow, hhigh, hlater, hplain, hfirst⟩
    · exact .inl hnone
    · refine .inr ⟨fileNum, hlow, hhigh.trans_le hcur, ?_, ?_, ?_⟩
      · intro n hn
        rcases List.mem_append.mp hn with hold | hnew
        · exact hlater n hold
        · exact hhigh.trans_le (hadded n hnew).2.1
      · dsimp only
        rw [hdir fileNum false hhigh]
        exact hplain
      · dsimp only
        rw [hdir fileNum false hhigh, hdir fileNum true hhigh]
        exact hfirst
  · intro n hn
    rcases List.mem_append.mp hn with hold | hnew
    · rcases h.waiting n hold with ⟨hlow, hhigh, hsome⟩
      refine ⟨hlow, hhigh.trans_le hcur, ?_⟩
      dsimp only
      rw [hdir n false hhigh]
      exact hsome
    · rcases hadded n hnew with ⟨-, hlow, hhigh, hsome⟩
      exact ⟨hroom.trans hlow, hhigh, hsome⟩
  · rw [List.pairwise_append]
    exact ⟨h.ordered, hordered, fun m hm n hn => (hadded n hn).1 m hm⟩

theorem Working.room {first : List FileCommand} {count : Nat}
    (h : s.Working base maxLogFiles first count) (hle : s.minRevnum ≤ s.curRevnum) :
    s.minRevnum + count ≤ s.curRevnum := by
  rcases h.removable with hnone | ⟨-, hold⟩
  · omega
  · omega

theorem isSome_update {dir : Directory} {changed : FileName} (records : List Bytes)
    (name : FileName) (h : (dir name).isSome) :
    (Function.update dir changed (some records) name).isSome := by
  by_cases hsame : name = changed
  · subst hsame
    simp
  · rw [Function.update_of_ne hsame]
    exact h

/-- Files of later revisions leave those of earlier ones alone. -/
theorem update_later (hbase : LogName base) {dir : Directory} (file : Option (List Bytes))
    {cur later : Nat} (hle : cur ≤ later) (hlater : later < 2 ^ 31) (n : Nat) (compressed : Bool)
    (hn : n < cur) :
    Function.update dir (fileName base later false) file (fileName base n compressed) =
      dir (fileName base n compressed) := by
  rw [update_fileName hbase dir file (by omega) hlater, if_neg (by omega)]

/-- Records are appended. -/
theorem Keeps.write (h : s.Keeps base maxLogFiles foreign segments) (hbase : LogName base)
    (records : List Bytes) :
    ∃ s', s.step base maxLogFiles (.write records) = .ok s' ∧
      s'.Keeps base maxLogFiles foreign (segmentStep segments (.write records)) := by
  rcases h.working with ⟨first, count, hworking⟩
  refine ⟨_, rfl, h.holds.write hbase records, h.retained, first, count, ?_⟩
  have hnone : ∀ n ∈ ([] : List Nat), (∀ m ∈ s.compElems, m < n) ∧ s.curRevnum ≤ n ∧
      n < s.curRevnum ∧ (Function.update s.dir (getLogFilePath base s.curRevnum)
        (some ((s.dir (getLogFilePath base s.curRevnum)).getD [] ++ records))
        (fileName base n false)).isSome := by
    intro n hn
    cases hn
  have hgrow := hworking.grow (Nat.le_refl s.curRevnum)
    (update_later hbase _ (Nat.le_refl _) h.holds.bound) hnone .nil (hworking.room h.holds.low_le)
  rw [List.append_nil] at hgrow
  exact hgrow

/-- A file is closed and waits for compression. -/
theorem Keeps.rotate (h : s.Keeps base maxLogFiles foreign segments) (hbase : LogName base)
    (hbound : s.curRevnum + 1 < 2 ^ 31) :
    ∃ s', s.step base maxLogFiles .rotate = .ok s' ∧
      s'.Keeps base maxLogFiles foreign (segmentStep segments .rotate) := by
  rcases h.working with ⟨first, count, hworking⟩
  refine ⟨_, rfl, h.holds.rotate hbase hbound, ?_, first, count, ?_⟩
  · rcases h.retained with hzero | ⟨hmax, hold⟩
    · exact .inl hzero
    · exact .inr ⟨hmax, hold.trans (Nat.le_succ _)⟩
  · refine hworking.grow (Nat.le_succ s.curRevnum)
      (update_later hbase _ (Nat.le_succ _) hbound) ?_ (List.pairwise_singleton _ _)
      (hworking.room h.holds.low_le)
    intro n hn
    rw [List.mem_singleton] at hn
    subst hn
    refine ⟨?_, Nat.le_refl _, Nat.lt_succ_self _, isSome_update _ _ h.holds.current⟩
    intro m hm
    exact (hworking.waiting m hm).2.1

/-- The compressing thread takes the next file. -/
theorem Keeps.take (h : s.Keeps base maxLogFiles foreign segments) (helems : s.compElems ≠ [])
    (hidle : s.commands = []) :
    ∃ s', s.step base maxLogFiles .take = .ok s' ∧
      s'.Keeps base maxLogFiles foreign segments := by
  rcases h.working with ⟨first, count, hworking⟩
  rcases List.exists_cons_of_ne_nil helems with ⟨fileNum, rest, helems⟩
  have hwaiting := hworking.waiting
  have hordered := hworking.ordered
  rw [helems, List.forall_mem_cons] at hwaiting
  rw [helems, List.pairwise_cons] at hordered
  rcases hwaiting.1 with ⟨hlow, hhigh, hplain⟩
  simp only [step, helems, hidle]
  refine ⟨_, rfl, h.holds, h.retained, [.tar fileNum, .rm fileNum],
    removals maxLogFiles fileNum s.minRevnum, rfl, ?_, ?_, ?_, hordered.2⟩
  · unfold removals
    split
    · rename_i hmax
      by_cases hnone : fileNum - maxLogFiles + 1 - s.minRevnum = 0
      · exact .inl hnone
      · exact .inr ⟨hmax.1, by dsimp only; omega⟩
    · exact .inl rfl
  · exact .inr ⟨fileNum, by dsimp only; omega, hhigh, hordered.1, hplain, .inl rfl⟩
  · intro n hn
    have hlater := hordered.1 n hn
    rcases hwaiting.2 n hn with ⟨hlow', hhigh', hplain'⟩
    refine ⟨?_, hhigh', hplain'⟩
    unfold removals
    dsimp only
    split
    · omega
    · omega

/-- The compressing thread runs the next command. -/
theorem Keeps.exec (h : s.Keeps base maxLogFiles foreign segments) (hbase : LogName base)
    (hbusy : s.commands ≠ []) :
    ∃ s', s.step base maxLogFiles .exec = .ok s' ∧
      s'.Keeps base maxLogFiles foreign segments := by
  have hbound := h.holds.bound
  rcases h.working with ⟨first, count, hworking⟩
  have hcommands := hworking.commands
  rcases hworking.first with rfl | ⟨fileNum, hlow, hhigh, hlater, hplain, rfl | ⟨rfl, hpacked⟩⟩
  · cases count with
    | zero => exact absurd hcommands hbusy
    | succ count =>
        have hremovable := hworking.removable.resolve_left (Nat.succ_ne_zero count)
        have hcur : s.minRevnum < s.curRevnum := by omega
        simp only [step, hcommands, List.nil_append, List.range'_succ, List.map_cons]
        refine ⟨_, rfl, h.holds.rmRevision hbase hcur, .inr ⟨hremovable.1, ?_⟩, [], count, rfl,
          .inr ⟨hremovable.1, ?_⟩, .inl rfl, ?_, hworking.ordered⟩
        · simp only [execCmd]
          omega
        · simp only [execCmd]
          omega
        · intro n hn
          rcases hworking.waiting n hn with ⟨hlow, hhigh, hplain⟩
          refine ⟨?_, hhigh, ?_⟩
          · simp only [execCmd]
            omega
          · simp only [execCmd]
            rw [update_fileName hbase _ _ (by omega) (by omega), if_neg (by omega),
              update_fileName hbase _ _ (by omega) (by omega), if_neg (by omega)]
            exact hplain
  · simp only [step, hcommands, List.cons_append, List.nil_append]
    refine ⟨_, rfl, h.holds.archive hbase hlow hhigh hplain _, h.retained, [.rm fileNum], count,
      rfl, hworking.removable, .inr ⟨fileNum, hlow, hhigh, hlater, ?_, .inr ⟨rfl, ?_⟩⟩, ?_,
      hworking.ordered⟩
    · exact isSome_update _ _ hplain
    · rcases Option.isSome_iff_exists.mp hplain with ⟨records, hrecords⟩
      simp only [execCmd, hrecords, Option.getD_some, Function.update_self]
      rw [Function.update_of_ne (fileName_true_ne base fileNum).symm, hrecords]
    · intro n hn
      rcases hworking.waiting n hn with ⟨hlow', hhigh', hplain'⟩
      exact ⟨hlow', hhigh', isSome_update _ _ hplain'⟩
  · simp only [step, hcommands, List.cons_append, List.nil_append]
    rw [h.holds.plain fileNum hlow hhigh.le hplain] at hpacked
    refine ⟨_, rfl, h.holds.rm hbase hlow hhigh hpacked, h.retained, [], count, rfl,
      hworking.removable, .inl rfl, ?_, hworking.ordered⟩
    intro n hn
    rcases hworking.waiting n hn with ⟨hlow', hhigh', hplain'⟩
    have hafter := hlater n hn
    refine ⟨hlow', hhigh', ?_⟩
    simp only [execCmd]
    rw [update_fileName hbase _ _ (by omega) (by omega), if_neg (by omega)]
    exact hplain'

/-- A packed file that cannot be removed stays. -/
theorem Keeps.fail (h : s.Keeps base maxLogFiles foreign segments) {fileNum : Nat}
    {rest : List FileCommand} (hcommands : s.commands = .rm fileNum :: rest)
    (left : Option (List Bytes)) :
    ∃ s', s.step base maxLogFiles (.fail left) = .ok s' ∧
      s'.Keeps base maxLogFiles foreign segments := by
  rcases h.working with ⟨first, count, hworking⟩
  simp only [step, hcommands, failCmd]
  refine ⟨_, rfl, h.holds, h.retained, [], count, ?_, hworking.removable, .inl rfl,
    hworking.waiting, hworking.ordered⟩
  have hsplit := hworking.commands
  rw [hcommands] at hsplit
  rcases hworking.first with rfl | ⟨n, -, -, -, -, rfl | ⟨rfl, -⟩⟩
  · cases count with
    | zero => cases hsplit
    | succ count => cases hsplit
  · cases hsplit
  · rw [List.cons_append] at hsplit
    exact (List.cons.inj hsplit).2

/-- A new process continues where the last one was; no file waits any more. -/
theorem Keeps.restart (h : s.Keeps base maxLogFiles foreign segments) {dir : Directory}
    (hholds : Directory.Holds base foreign dir s.minRevnum s.curRevnum segments)
    (hbase : LogName base) {names : List FileName} (hnames : Lists names dir) :
    LogFiles.restart base dir names = ⟨dir, s.minRevnum, s.curRevnum, [], []⟩ ∧
      Keeps base maxLogFiles foreign (LogFiles.restart base dir names) segments := by
  rw [hholds.restart_eq hbase hnames]
  refine ⟨rfl, hholds, h.retained, [], 0, rfl, .inl rfl, .inl rfl, ?_, .nil⟩
  intro n hn
  cases hn

/-- A process that is killed in the middle of a command leaves the revisions as they
are: an archive that is not complete has its file beside it. -/
theorem Keeps.holds_kill (h : s.Keeps base maxLogFiles foreign segments) (hbase : LogName base)
    {command : FileCommand} {rest : List FileCommand} (hcommands : s.commands = command :: rest)
    (left : Option (List Bytes)) :
    Directory.Holds base foreign (s.failCmd base left command).dir s.minRevnum s.curRevnum
      segments := by
  rcases h.working with ⟨first, count, hworking⟩
  cases command with
  | rm fileNum => exact h.holds
  | rmRevision fileNum => exact h.holds
  | tar fileNum =>
      have hsplit := hworking.commands
      rw [hcommands] at hsplit
      rcases hworking.first with rfl | ⟨n, hlow, hhigh, -, hplain, rfl | ⟨rfl, -⟩⟩
      · cases count with
        | zero => cases hsplit
        | succ count => cases hsplit
      · cases hsplit
        exact h.holds.archive hbase hlow hhigh hplain left
      · cases hsplit

/-- Every event that can happen keeps the invariant. -/
theorem step_keeps (hbase : LogName base) (s : LogFiles) (segments : List (List Bytes))
    (event : FileEvent) (h : s.Keeps base maxLogFiles foreign segments)
    (hallows : s.Allows base event) :
    ∃ s', s.step base maxLogFiles event = .ok s' ∧
      s'.Keeps base maxLogFiles foreign (segmentStep segments event) := by
  cases event with
  | write records => exact h.write hbase records
  | rotate => exact h.rotate hbase hallows
  | take => exact h.take hallows.1 hallows.2
  | exec => exact h.exec hbase hallows
  | fail left =>
      rcases hallows with ⟨fileNum, rest, hcommands⟩
      exact h.fail hcommands left
  | restart names => exact ⟨_, rfl, (h.restart h.holds hbase hallows).2⟩
  | kill left names =>
      rcases hallows with ⟨command, rest, hcommands, hnames⟩
      simp only [step, hcommands]
      exact ⟨_, rfl, (h.restart (h.holds_kill hbase hcommands left) hbase hnames).2⟩

end LogFiles

/-! ## Whole runs -/

/-- The records that an event writes. -/
def FileEvent.records : FileEvent → List Bytes
  | .write records => records
  | _ => []

/-- The revisions one after the other are everything that was written. -/
theorem flatten_segments (events : List FileEvent) {segments : List (List Bytes)}
    (hne : segments ≠ []) :
    (events.foldl segmentStep segments).flatten =
      segments.flatten ++ events.flatMap FileEvent.records := by
  induction events generalizing segments with
  | nil => simp
  | cons event events ih =>
      have hstep : segmentStep segments event ≠ [] ∧
          (segmentStep segments event).flatten = segments.flatten ++ event.records := by
        cases event with
        | write records =>
            refine ⟨by simp [segmentStep], ?_⟩
            have hsplit := List.dropLast_append_getLast hne
            have hlast : segments.getLast?.getD [] = segments.getLast hne := by
              rw [List.getLast?_eq_some_getLast hne, Option.getD_some]
            simp only [segmentStep, FileEvent.records, hlast]
            rw [List.flatten_append, List.flatten_singleton, ← List.append_assoc]
            congr 1
            nth_rewrite 3 [← hsplit]
            rw [List.flatten_append, List.flatten_singleton]
        | rotate => exact ⟨by simp [segmentStep], by simp [segmentStep, FileEvent.records]⟩
        | take => exact ⟨hne, by simp [segmentStep, FileEvent.records]⟩
        | exec => exact ⟨hne, by simp [segmentStep, FileEvent.records]⟩
        | fail left => exact ⟨hne, by simp [segmentStep, FileEvent.records]⟩
        | restart names => exact ⟨hne, by simp [segmentStep, FileEvent.records]⟩
        | kill left names => exact ⟨hne, by simp [segmentStep, FileEvent.records]⟩
      rw [List.foldl_cons, ih hstep.1, hstep.2, List.flatMap_cons, List.append_assoc]

/-- Let the name of the log file have an ending that is no number, and let the
directory have no files at the start whose names contain this name.  Then every
interleaving of fewer than 2^31 rotations with writes, compressions, restarts and
kills in the middle of a {lit}`tar` completes, if no command fails but the removal
of a packed file.  At its end a new process finds the smallest and the current
revision number from the names alone; a revision was removed only if there are as
many later closed ones as the logger may keep; every revision from the smallest to
the current one has its records in its unpacked file or, if that is gone, in its
packed one; there are no other log files; and the files of others are as they were.
All revisions together are what was written. -/
theorem log_files_survive_restarts (base : FileName) (hbase : LogName base) (maxLogFiles : Nat)
    (foreign : Directory) (hforeign : ∀ name, (foreign name).isSome → ¬ base <:+: name)
    (events : List FileEvent)
    (hallows : Admissible (LogFiles.Allows base) (LogFiles.step base maxLogFiles) events
      (LogFiles.create base foreign)) :
    ∃ s, runEvents (LogFiles.step base maxLogFiles) events (LogFiles.create base foreign) =
        .ok s ∧
      (∀ names, LogFiles.Lists names s.dir →
        findMinMaxRevNum base names = (s.minRevnum, s.curRevnum)) ∧
      (s.minRevnum = 0 ∨ (maxLogFiles ≠ 0 ∧ s.minRevnum + maxLogFiles ≤ s.curRevnum)) ∧
      (∀ n, s.minRevnum ≤ n → n ≤ s.curRevnum → ∃ records,
        (segmentsOf events)[n]? = some records ∧
          (s.dir (fileName base n false) = some records ∨
            (s.dir (fileName base n false) = none ∧
              s.dir (fileName base n true) = some records))) ∧
      (∀ name, base <:+: name → (s.dir name).isSome →
        ∃ n compressed, s.minRevnum ≤ n ∧ n ≤ s.curRevnum ∧ name = fileName base n compressed) ∧
      (∀ name, ¬ base <:+: name → s.dir name = foreign name) ∧
      (segmentsOf events).flatten = events.flatMap FileEvent.records := by
  rcases runEvents_simulation (LogFiles.step_keeps hbase) events
    (LogFiles.keeps_create hforeign) hallows with ⟨s, hrun, hs⟩
  refine ⟨s, hrun, ?_, hs.retained, ?_, ?_, hs.holds.foreign, ?_⟩
  · intro names hnames
    exact hs.holds.findMinMaxRevNum_eq hbase hnames
  · intro n hlow hhigh
    exact hs.holds.records hlow hhigh
  · intro name hname hsome
    rcases hs.holds.own name hname hsome with ⟨n, compressed, hlow, hhigh, -, heq⟩
    exact ⟨n, compressed, hlow, hhigh, heq⟩
  · rw [segmentsOf, flatten_segments events (List.cons_ne_nil [] [])]
    rfl

/-- The name under which a server logs. -/
def serverLogName : FileName := "srv-1.log".toList

/-- A process is killed while it packs its first file, and the next one goes on
writing. -/
def interruptedRun : List FileEvent :=
  [.write [[97]], .rotate, .write [[98]], .take,
    .kill (some []) [fileName serverLogName 0 false, fileName serverLogName 0 true,
      fileName serverLogName 1 false],
    .write [[99]]]

/-- In this run the records of both processes are in the second file, and those of
the first file are there although its archive is empty. -/
theorem log_files_survive_interruption :
    ∃ s, runEvents (LogFiles.step serverLogName 16) interruptedRun
        (LogFiles.create serverLogName fun _ => none) = .ok s ∧
      (∀ names, LogFiles.Lists names s.dir → findMinMaxRevNum serverLogName names = (0, 1)) ∧
      s.dir (fileName serverLogName 0 true) = some [] ∧
      s.dir (fileName serverLogName 0 false) = some [[97]] ∧
      s.dir (fileName serverLogName 1 false) = some [[98], [99]] := by
  have hallows : Admissible (LogFiles.Allows serverLogName) (LogFiles.step serverLogName 16)
      interruptedRun (LogFiles.create serverLogName fun _ => none) := by
    have hbound : 0 + 1 < 2 ^ 31 := by decide
    refine admissible_cons trivial rfl (admissible_cons hbound rfl (admissible_cons trivial rfl
      (admissible_cons ⟨List.cons_ne_nil _ _, rfl⟩ rfl (admissible_cons ?_ rfl
        ⟨trivial, fun _ _ => trivial⟩))))
    refine ⟨_, _, rfl, ?_⟩
    intro name
    by_cases hname : name ∈ [fileName serverLogName 0 false, fileName serverLogName 0 true,
        fileName serverLogName 1 false]
    · revert name
      decide +kernel
    · rw [List.mem_cons, List.mem_cons, List.mem_singleton, not_or, not_or] at hname
      simp [LogFiles.create, LogFiles.failCmd, LogFiles.openFile, getLogFilePath_eq, hname]
  rcases log_files_survive_restarts serverLogName (by decide) 16 (fun _ => none) (by simp)
    interruptedRun hallows with ⟨s, hrun, hnames, -⟩
  have hnumbers : ((runEvents (LogFiles.step serverLogName 16) interruptedRun
      (LogFiles.create serverLogName fun _ => none)).toOption.map fun s =>
        (s.minRevnum, s.curRevnum)) = some (0, 1) := by
    decide +kernel
  have hcontents : ((runEvents (LogFiles.step serverLogName 16) interruptedRun
      (LogFiles.create serverLogName fun _ => none)).toOption.map fun s =>
        [fileName serverLogName 0 true, fileName serverLogName 0 false,
          fileName serverLogName 1 false].map s.dir) =
        some [some [], some [[97]], some [[98], [99]]] := by
    decide +kernel
  rw [hrun] at hnumbers hcontents
  have hmin : s.minRevnum = 0 := congrArg Prod.fst (Option.some.inj hnumbers)
  have hcur : s.curRevnum = 1 := congrArg Prod.snd (Option.some.inj hnumbers)
  rw [hmin, hcur] at hnames
  rcases List.cons.inj (Option.some.inj hcontents) with ⟨hpacked, hplain⟩
  rcases List.cons.inj hplain with ⟨hfirst, hsecond⟩
  exact ⟨s, hrun, hnames, hpacked, hfirst, (List.cons.inj hsecond).1⟩

/-! ## Loggers that are stopped -/

namespace LogFiles

/-- Every closed file waits for compression, or the commands that are still to run
remove what is too old once it has been packed. -/
def CatchesUp (maxLogFiles : Nat) (s : LogFiles) : Prop :=
  ∃ next first count, next ≤ s.curRevnum ∧
    s.compElems = List.range' next (s.curRevnum - next) ∧
    s.commands = first ++ (List.range' s.minRevnum count).map .rmRevision ∧
    (∀ command ∈ first, ∀ n, command ≠ .rmRevision n) ∧
    next ≤ s.minRevnum + count + maxLogFiles

/-- A logger that is stopped waits until all its files have been compressed, and
none is killed. -/
def AllowsStop (base : FileName) (s : LogFiles) (event : FileEvent) : Prop :=
  s.Allows base event ∧
    match event with
    | .restart _ => s.compElems = [] ∧ s.commands = []
    | .kill _ _ => False
    | _ => True

variable {base : FileName} {maxLogFiles : Nat} {foreign : Directory}

/-- Packing a file and removing the unpacked one leave the numbers alone. -/
theorem execCmd_of_ne (base : FileName) (s : LogFiles) {command : FileCommand}
    (h : ∀ n, command ≠ .rmRevision n) :
    (s.execCmd base command).minRevnum = s.minRevnum ∧
      (s.execCmd base command).curRevnum = s.curRevnum ∧
      (s.execCmd base command).compElems = s.compElems := by
  cases command with
  | tar fileNum => exact ⟨rfl, rfl, rfl⟩
  | rm fileNum => exact ⟨rfl, rfl, rfl⟩
  | rmRevision fileNum => exact absurd rfl (h fileNum)

theorem CatchesUp.take {s s' : LogFiles} (hmax : maxLogFiles ≠ 0) (h : s.CatchesUp maxLogFiles)
    (hstep : s.step base maxLogFiles .take = .ok s') : s'.CatchesUp maxLogFiles := by
  rcases h with ⟨next, first, count, hnext, helems, -, -, -⟩
  simp only [step] at hstep
  split at hstep
  · rename_i fileNum rest hcons hidle
    cases hstep
    rw [hcons] at helems
    have hlength := congrArg List.length helems
    rw [List.length_cons, List.length_range'] at hlength
    have hsplit : s.curRevnum - next = s.curRevnum - (next + 1) + 1 := by omega
    rw [hsplit, List.range'_succ] at helems
    rcases List.cons.inj helems with ⟨rfl, rfl⟩
    refine ⟨fileNum + 1, [.tar fileNum, .rm fileNum],
      removals maxLogFiles fileNum s.minRevnum, by dsimp only; omega, rfl, rfl, by simp, ?_⟩
    unfold removals
    dsimp only
    split
    · omega
    · omega
  · cases hstep

theorem CatchesUp.exec {s s' : LogFiles} (h : s.CatchesUp maxLogFiles)
    (hstep : s.step base maxLogFiles .exec = .ok s') : s'.CatchesUp maxLogFiles := by
  rcases h with ⟨next, first, count, hnext, helems, hcommands, hfirst, hbound⟩
  cases first with
  | nil =>
      cases count with
      | zero =>
          simp only [step, hcommands, List.range'_zero, List.map_nil, List.append_nil] at hstep
          cases hstep
      | succ count =>
          simp only [step, hcommands, List.nil_append, List.range'_succ, List.map_cons] at hstep
          cases hstep
          refine ⟨next, [], count, hnext, helems, rfl, hfirst, ?_⟩
          simp only [execCmd]
          omega
  | cons command first =>
      rw [List.forall_mem_cons] at hfirst
      rcases execCmd_of_ne base s hfirst.1 with ⟨hmin, hcur, hcomp⟩
      simp only [step, hcommands, List.cons_append] at hstep
      cases hstep
      refine ⟨next, first, count, ?_, ?_, ?_, hfirst.2, ?_⟩
      · simpa only [hcur] using hnext
      · simpa only [hcur, hcomp] using helems
      · simp only [hmin]
      · simpa only [hmin] using hbound

theorem CatchesUp.fail {s s' : LogFiles} (h : s.CatchesUp maxLogFiles) {fileNum : Nat}
    {rest : List FileCommand} (hhead : s.commands = .rm fileNum :: rest)
    {left : Option (List Bytes)} (hstep : s.step base maxLogFiles (.fail left) = .ok s') :
    s'.CatchesUp maxLogFiles := by
  rcases h with ⟨next, first, count, hnext, helems, hcommands, hfirst, hbound⟩
  simp only [step, hhead, failCmd] at hstep
  cases hstep
  rw [hhead] at hcommands
  cases first with
  | nil =>
      cases count with
      | zero => cases hcommands
      | succ count => cases hcommands
  | cons command first =>
      rw [List.cons_append] at hcommands
      rw [List.forall_mem_cons] at hfirst
      exact ⟨next, first, count, hnext, helems, (List.cons.inj hcommands).2, hfirst.2, hbound⟩

/-- Every event of loggers that are stopped keeps the backlog in view. -/
theorem step_catchesUp (hbase : LogName base) (hmax : maxLogFiles ≠ 0) (s : LogFiles)
    (segments : List (List Bytes)) (event : FileEvent)
    (h : s.Keeps base maxLogFiles foreign segments ∧ s.CatchesUp maxLogFiles)
    (hallows : s.AllowsStop base event) :
    ∃ s', s.step base maxLogFiles event = .ok s' ∧
      s'.Keeps base maxLogFiles foreign (segmentStep segments event) ∧
      s'.CatchesUp maxLogFiles := by
  rcases h with ⟨hkeeps, hcatches⟩
  rcases step_keeps hbase s segments event hkeeps hallows.1 with ⟨s', hstep, hkeeps'⟩
  refine ⟨s', hstep, hkeeps', ?_⟩
  cases event with
  | write records =>
      cases hstep
      exact hcatches
  | rotate =>
      cases hstep
      rcases hcatches with ⟨next, first, count, hnext, helems, hrest⟩
      refine ⟨next, first, count, by dsimp only; omega, ?_, hrest⟩
      have hsplit : s.curRevnum + 1 - next = s.curRevnum - next + 1 := by omega
      dsimp only
      rw [hsplit, List.range'_1_concat, helems, Nat.add_sub_cancel' hnext]
  | take => exact hcatches.take hmax hstep
  | exec => exact hcatches.exec hstep
  | fail left =>
      rcases hallows.1 with ⟨fileNum, rest, hcommands⟩
      exact hcatches.fail hcommands hstep
  | kill left names => exact absurd hallows.2 id
  | restart names =>
      simp only [step, (hkeeps.restart hkeeps.holds hbase hallows.1).1] at hstep
      cases hstep
      rcases hallows.2 with ⟨hcomp, hidle⟩
      rcases hcatches with ⟨next, first, count, hnext, helems, hcommands, -, hbound⟩
      rw [hcomp] at helems
      rw [hidle] at hcommands
      have hlength := congrArg List.length helems
      have hcount := congrArg List.length hcommands
      rw [List.length_nil, List.length_range'] at hlength
      rw [List.length_nil, List.length_append, List.length_map, List.length_range'] at hcount
      refine ⟨s.curRevnum, [], 0, Nat.le_refl _, ?_, rfl, by simp, ?_⟩
      · simp
      · dsimp only
        omega

end LogFiles

/-- The command removes an old revision. -/
def FileCommand.removesRevision : FileCommand → Bool
  | .rmRevision _ => true
  | _ => false

/-- If the logger may keep at least one closed file, and every process waits for the
compression of its files before it ends and is not killed, the number of revisions
stays bounded, under the conditions on names, rotations and commands as before: at
any moment there are at most the current one, the ones that may be kept, the ones
that wait for compression, and the ones that a command is about to remove. -/
theorem stopped_loggers_keep_few_files (base : FileName) (hbase : LogName base)
    (maxLogFiles : Nat) (hmax : maxLogFiles ≠ 0) (foreign : Directory)
    (hforeign : ∀ name, (foreign name).isSome → ¬ base <:+: name) (events : List FileEvent)
    (hallows : Admissible (LogFiles.AllowsStop base) (LogFiles.step base maxLogFiles) events
      (LogFiles.create base foreign)) :
    ∃ s, runEvents (LogFiles.step base maxLogFiles) events (LogFiles.create base foreign) =
        .ok s ∧
      (∀ name, base <:+: name → (s.dir name).isSome →
        ∃ n compressed, s.minRevnum ≤ n ∧ n ≤ s.curRevnum ∧ name = fileName base n compressed) ∧
      s.curRevnum ≤ s.minRevnum + maxLogFiles + s.compElems.length +
        s.commands.countP FileCommand.removesRevision := by
  have hstart : (LogFiles.create base foreign).CatchesUp maxLogFiles :=
    ⟨0, [], 0, Nat.le_refl 0, rfl, rfl, by simp, Nat.zero_le _⟩
  rcases runEvents_simulation (LogFiles.step_catchesUp hbase hmax) events
    ⟨LogFiles.keeps_create hforeign, hstart⟩ hallows with ⟨s, hrun, hkeeps, hcatches⟩
  refine ⟨s, hrun, ?_, ?_⟩
  · intro name hname hsome
    rcases hkeeps.holds.own name hname hsome with ⟨n, compressed, hlow, hhigh, -, heq⟩
    exact ⟨n, compressed, hlow, hhigh, heq⟩
  · rcases hcatches with ⟨next, first, count, hnext, helems, hcommands, -, hbound⟩
    have hcount : ((List.range' s.minRevnum count).map FileCommand.rmRevision).countP
        FileCommand.removesRevision = count := by
      rw [List.countP_map, List.countP_eq_length.mpr (by simp [FileCommand.removesRevision]),
        List.length_range']
    rw [helems, hcommands, List.countP_append, hcount, List.length_range']
    omega

/-- A logger that closes and compresses one file, and is then stopped and started
again. -/
def stoppedRun : List FileEvent :=
  [.rotate, .take, .exec, .exec,
    .restart [fileName serverLogName 0 true, fileName serverLogName 1 false]]

/-- In this run nothing is left to do, and one closed file is there. -/
theorem stopped_logger_keeps_one_file :
    ∃ s, runEvents (LogFiles.step serverLogName 1) stoppedRun
        (LogFiles.create serverLogName fun _ => none) = .ok s ∧
      s.curRevnum ≤ s.minRevnum + 1 + s.compElems.length +
        s.commands.countP FileCommand.removesRevision ∧
      s.curRevnum = 1 ∧ s.compElems = [] ∧ s.commands = [] := by
  have hallows : Admissible (LogFiles.AllowsStop serverLogName) (LogFiles.step serverLogName 1)
      stoppedRun (LogFiles.create serverLogName fun _ => none) := by
    have hbound : 0 + 1 < 2 ^ 31 := by decide
    refine admissible_cons ⟨hbound, trivial⟩ rfl
      (admissible_cons ⟨⟨List.cons_ne_nil _ _, rfl⟩, trivial⟩ rfl
      (admissible_cons ⟨List.cons_ne_nil _ _, trivial⟩ rfl
      (admissible_cons ⟨List.cons_ne_nil _ _, trivial⟩ rfl
      ⟨⟨?_, rfl, rfl⟩, fun _ _ => trivial⟩)))
    intro name
    by_cases hname : name ∈ [fileName serverLogName 0 false, fileName serverLogName 0 true,
        fileName serverLogName 1 false]
    · revert name
      decide +kernel
    · rw [List.mem_cons, List.mem_cons, List.mem_singleton, not_or, not_or] at hname
      simp [LogFiles.create, LogFiles.execCmd, LogFiles.openFile, getLogFilePath_eq, hname]
  rcases stopped_loggers_keep_few_files serverLogName (by decide) 1 (by decide) (fun _ => none)
    (by simp) stoppedRun hallows with ⟨s, hrun, -, hbound⟩
  have hnumbers : ((runEvents (LogFiles.step serverLogName 1) stoppedRun
      (LogFiles.create serverLogName fun _ => none)).toOption.map fun s =>
        (s.curRevnum, s.compElems, s.commands)) = some (1, [], []) := by
    decide +kernel
  rw [hrun] at hnumbers
  have hcur : s.curRevnum = 1 := congrArg Prod.fst (Option.some.inj hnumbers)
  have helems : s.compElems = [] := congrArg (fun r => r.2.1) (Option.some.inj hnumbers)
  have hcommands : s.commands = [] := congrArg (fun r => r.2.2) (Option.some.inj hnumbers)
  exact ⟨s, hrun, hbound, hcur, helems, hcommands⟩

/-! ## Flushes of the ring -/

/-- The records of the revisions that a logger has written since its start. -/
def SimpleLogger.segments (l : SimpleLogger) : List (List Bytes) := l.closed ++ [l.current]

/-- What a flush of the ring does to the files. -/
def SimpleLogger.flushEvents (cfg : LoggerConfig) (start : Nat) (l : SimpleLogger) :
    List FileEvent :=
  .write (l.pendingFrom cfg start) ::
    if (l.flush cfg start).closed.length = l.closed.length then [] else [.rotate]

/-- A flush is a write of the pending messages, with a rotation behind it if it
closes the file. -/
theorem SimpleLogger.segments_flush (cfg : LoggerConfig) (start : Nat) (l : SimpleLogger) :
    (l.flushEvents cfg start).foldl segmentStep l.segments = (l.flush cfg start).segments := by
  have hwrite : segmentStep l.segments (.write (l.pendingFrom cfg start)) =
      l.closed ++ [l.current ++ l.pendingFrom cfg start] := by
    simp [segmentStep, segments]
  have hflush := foldl_flushElem (sweepOrder cfg.num start) (nodup_sweepOrder cfg.num start) l
  rw [flushEvents, List.foldl_cons, hwrite]
  unfold flush
  rw [hflush]
  rcases rotateFile_cases cfg { l with
      logs := fun pos => if pos ∈ sweepOrder cfg.num start then (l.logs pos).flush.2 else l.logs pos
      current := l.current ++ (sweepOrder cfg.num start).filterMap
        fun pos => (l.logs pos).message } with hsame | hclosed
  · rw [hsame, if_pos rfl]
    rfl
  · rw [hclosed, if_neg (by simp)]
    rfl

/-- What a call of the logger does to the files: a put flushes if its element still
holds a message. -/
def SimpleLogger.callEvents (cfg : LoggerConfig) (l : SimpleLogger) : LoggerCall → List FileEvent
  | .put _ =>
      if (l.logs l.cursor).needToFlush = true then
        SimpleLogger.flushEvents cfg l.cursor { l with cursor := (l.cursor + 1) % cfg.num }
      else []
  | .flushAll => l.flushEvents cfg l.cursor

/-- What the calls of a logger do to the files. -/
def SimpleLogger.fileEvents (cfg : LoggerConfig) : SimpleLogger → List LoggerCall → List FileEvent
  | _, [] => []
  | l, c :: calls =>
      l.callEvents cfg c ++
        match l.call cfg c with
        | .ok l' => fileEvents cfg l' calls
        | .error _ => []

theorem SimpleLogger.segments_call {cfg : LoggerConfig} {l l' : SimpleLogger} {c : LoggerCall}
    (h : l.call cfg c = .ok l') :
    (l.callEvents cfg c).foldl segmentStep l.segments = l'.segments := by
  cases c with
  | flushAll =>
      cases h
      exact segments_flush cfg l.cursor l
  | put msg =>
      simp only [call, putMessage, storeMessage] at h
      split at h
      · cases h
      · cases h
        simp only [callEvents]
        split
        · exact segments_flush cfg l.cursor { l with cursor := (l.cursor + 1) % cfg.num }
        · rfl

/-- The induction is on the calls. -/
theorem SimpleLogger.segments_calls {cfg : LoggerConfig} {l l' : SimpleLogger}
    {calls : List LoggerCall} (h : runEvents (SimpleLogger.call cfg) calls l = .ok l') :
    (fileEvents cfg l calls).foldl segmentStep l.segments = l'.segments := by
  induction calls generalizing l with
  | nil =>
      cases h
      rfl
  | cons c calls ih =>
      simp only [runEvents] at h
      cases hcall : l.call cfg c with
      | error x =>
          rw [hcall] at h
          cases h
      | ok next =>
          rw [hcall] at h
          simp only [fileEvents, hcall]
          rw [List.foldl_append, segments_call hcall]
          exact ih h

/-- The event is one of the compressing thread. -/
def FileEvent.compresses : FileEvent → Bool
  | .take => true
  | .exec => true
  | .fail _ => true
  | _ => false

/-- The compressing thread writes no records. -/
theorem foldl_segmentStep_filter (events : List FileEvent) (segments : List (List Bytes)) :
    (events.filter fun event => !event.compresses).foldl segmentStep segments =
      events.foldl segmentStep segments := by
  induction events generalizing segments with
  | nil => rfl
  | cons event events ih =>
      rw [List.foldl_cons, ← ih]
      cases event <;> rfl

/-- A logger that starts in a directory without log files runs any calls, and the
compressing thread works in between in any order, with fewer than 2^31 rotations and
no command that fails but the removal of a packed file.  Then the files are those of
the logger: as many are closed, and each revision that is left has the records that
the logger has written to it. -/
theorem logger_fills_files (cfg : LoggerConfig) {base : FileName} (hbase : LogName base)
    (maxLogFiles : Nat) {foreign : Directory}
    (hforeign : ∀ name, (foreign name).isSome → ¬ base <:+: name) {calls : List LoggerCall}
    {l : SimpleLogger} (hcalls : runEvents (SimpleLogger.call cfg) calls (.create 0) = .ok l)
    {events : List FileEvent}
    (hevents : (events.filter fun event => !event.compresses) =
      SimpleLogger.fileEvents cfg (.create 0) calls)
    (hallows : Admissible (LogFiles.Allows base) (LogFiles.step base maxLogFiles) events
      (LogFiles.create base foreign)) :
    ∃ s, runEvents (LogFiles.step base maxLogFiles) events (LogFiles.create base foreign) =
        .ok s ∧
      s.curRevnum = l.closed.length ∧
      ∀ n, s.minRevnum ≤ n → n ≤ s.curRevnum → ∃ records,
        (l.closed ++ [l.current])[n]? = some records ∧
          (s.dir (fileName base n false) = some records ∨
            (s.dir (fileName base n false) = none ∧
              s.dir (fileName base n true) = some records)) := by
  rcases runEvents_simulation (LogFiles.step_keeps hbase) events
    (LogFiles.keeps_create hforeign) hallows with ⟨s, hrun, hs⟩
  have hsegments : events.foldl segmentStep [[]] = l.closed ++ [l.current] := by
    rw [← foldl_segmentStep_filter, hevents]
    exact SimpleLogger.segments_calls hcalls
  rw [hsegments] at hs
  refine ⟨s, hrun, ?_, fun n hlow hhigh => hs.holds.records hlow hhigh⟩
  have hlength := hs.holds.length
  rw [List.length_append, List.length_singleton] at hlength
  omega

end ReplicatedSplinterDB
