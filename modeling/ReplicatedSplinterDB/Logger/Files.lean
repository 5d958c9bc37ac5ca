import ReplicatedSplinterDB.Foundation.EventRun
import ReplicatedSplinterDB.Logger.RevisionNames

/-!
# The log files on disk

Flushes append records to the current file.  A file that has grown too large is
closed, and the next one gets the next revision number.  A thread compresses
closed files one after the other with shell commands, and removes the files that
are too old.  The process may end between any two commands, and it may be killed in
the middle of a {lit}`tar`, which leaves anything in the archive behind; the next
process finds its place again from the names in the directory.  The removal of a
file, and that of the two files of a revision, are taken as one step.

The names go to the shell without quotes; the model takes names that the shell
leaves as they are.  The results of commands are ignored: a file is removed even if
it could not be packed.

Main results:

- Definition {lit}`LogFiles.step`: what can happen to the files.
- Structure {lit}`Directory.Holds`: the directory holds the latest revisions, each
  with the records that were written to it.
- Theorems {lit}`Directory.Holds.write`, {lit}`Directory.Holds.rotate`,
  {lit}`Directory.Holds.archive`, {lit}`Directory.Holds.rm` and
  {lit}`Directory.Holds.rmRevision`: every operation on files keeps this.
- Theorem {lit}`failed_tar_loses_file`: what happens when a file cannot be packed.
- Theorem {lit}`Directory.Holds.findMinMaxRevNum_eq`: the next process finds the range
  of revisions that is there.
-/

namespace ReplicatedSplinterDB

open Foundation

/-! ## Directories and commands -/

/-- The directory of the logger: the records of the files that are there.  A
compressed file holds the records of the file that it was made from. -/
abbrev Directory := FileName → Option (List Bytes)

/-- A shell command of {lit}`doCompression`. -/
inductive FileCommand where
  | tar (fileNum : Nat)
  | rm (fileNum : Nat)
  | rmRevision (fileNum : Nat)
deriving DecidableEq, Repr

/-- How often the loop at the end of {lit}`doCompression` runs.  It removes the files
from {lit}`minRevnum` up to and including {lit}`fileNum - maxLogFiles`. -/
def removals (maxLogFiles fileNum minRevnum : Nat) : Nat :=
  if maxLogFiles ≠ 0 ∧ maxLogFiles ≤ fileNum then fileNum - maxLogFiles + 1 - minRevnum else 0

/-- The commands of {lit}`doCompression`: the file is packed and removed, and so are
all files that are too old. -/
def doCompression (maxLogFiles fileNum minRevnum : Nat) : List FileCommand :=
  .tar fileNum :: .rm fileNum ::
    (List.range' minRevnum (removals maxLogFiles fileNum minRevnum)).map .rmRevision

/-- The members of the logger that are about files, the directory, the files that
wait for compression, and the commands that the compressing thread has still to
run for the file it is at. -/
structure LogFiles where
  dir : Directory
  minRevnum : Nat
  curRevnum : Nat
  compElems : List Nat
  commands : List FileCommand

/-- What can happen to the log files. -/
inductive FileEvent where
  /-- A flush appends records. -/
  | write (records : List Bytes)
  /-- A flush closes the current file. -/
  | rotate
  /-- The compressing thread takes the next file. -/
  | take
  /-- The compressing thread runs the next command. -/
  | exec
  /-- The next command fails; a {lit}`tar` leaves this archive behind. -/
  | fail (left : Option (List Bytes))
  /-- The process ends, and a new one finds these names. -/
  | restart (names : List FileName)
  /-- The process is killed in the middle of a command, a {lit}`tar` leaves this
  archive behind, and a new process finds these names. -/
  | kill (left : Option (List Bytes)) (names : List FileName)

namespace LogFiles

section Steps

variable (base : FileName) (maxLogFiles : Nat)

/-- Open a file for appending. -/
def openFile (dir : Directory) (name : FileName) : Directory :=
  Function.update dir name (some ((dir name).getD []))

/-- The first start, in a directory that has no log files of its own. -/
def create (dir : Directory) : LogFiles := ⟨openFile dir (getLogFilePath base 0), 0, 0, [], []⟩

/-- Run one command.  {lit}`minRevnum` is the number behind the last one that was
removed. -/
def execCmd (s : LogFiles) : FileCommand → LogFiles
  | .tar fileNum =>
      { s with
        dir := Function.update s.dir (fileName base fileNum true)
          (some ((s.dir (fileName base fileNum false)).getD [])) }
  | .rm fileNum => { s with dir := Function.update s.dir (fileName base fileNum false) none }
  | .rmRevision fileNum =>
      { s with
        dir := Function.update (Function.update s.dir (fileName base fileNum false) none)
          (fileName base fileNum true) none
        minRevnum := fileNum + 1 }

/-- A command that does not do its work. -/
def failCmd (s : LogFiles) (left : Option (List Bytes)) : FileCommand → LogFiles
  | .tar fileNum => { s with dir := Function.update s.dir (fileName base fileNum true) left }
  | .rm _ => s
  | .rmRevision fileNum => { s with minRevnum := fileNum + 1 }

/-- A new process looks for the revisions that are there. -/
def restart (dir : Directory) (names : List FileName) : LogFiles :=
  let range := findMinMaxRevNum base names
  { dir := openFile dir (getLogFilePath base range.2)
    minRevnum := range.1
    curRevnum := range.2
    compElems := []
    commands := [] }

/-- One event. -/
def step (s : LogFiles) : FileEvent → Except Unit LogFiles
  | .write records =>
      .ok { s with
        dir := Function.update s.dir (getLogFilePath base s.curRevnum)
          (some ((s.dir (getLogFilePath base s.curRevnum)).getD [] ++ records)) }
  | .rotate =>
      .ok { s with
        dir := openFile s.dir (getLogFilePath base (s.curRevnum + 1))
        curRevnum := s.curRevnum + 1
        compElems := s.compElems ++ [s.curRevnum] }
  | .take =>
      match s.compElems, s.commands with
      | fileNum :: rest, [] =>
          .ok { s with
            compElems := rest
            commands := doCompression maxLogFiles fileNum s.minRevnum }
      | _, _ => .error ()
  | .exec =>
      match s.commands with
      | [] => .error ()
      | command :: rest => .ok { s.execCmd base command with commands := rest }
  | .fail left =>
      match s.commands with
      | [] => .error ()
      | command :: rest => .ok { s.failCmd base left command with commands := rest }
  | .restart names => .ok (restart base s.dir names)
  | .kill left names =>
      match s.commands with
      | [] => .error ()
      | command :: _ => .ok (restart base (s.failCmd base left command).dir names)

end Steps

/-- The names of a directory, in any order. -/
def Lists (names : List FileName) (dir : Directory) : Prop :=
  ∀ name, name ∈ names ↔ (dir name).isSome

/-- The compressing thread has one file at a time, a new process finds the names
that are there, revision numbers stay below the largest {lit}`int`, and no command
fails but the removal of a file that has been packed. -/
def Allows (base : FileName) (s : LogFiles) : FileEvent → Prop
  | .write _ => True
  | .rotate => s.curRevnum + 1 < 2 ^ 31
  | .take => s.compElems ≠ [] ∧ s.commands = []
  | .exec => s.commands ≠ []
  | .fail _ => ∃ fileNum rest, s.commands = .rm fileNum :: rest
  | .restart names => Lists names s.dir
  | .kill left names => ∃ command rest, s.commands = command :: rest ∧
      Lists names (s.failCmd base left command).dir

end LogFiles

/-- The records that were written to each revision, from the first one on. -/
def segmentStep (segments : List (List Bytes)) : FileEvent → List (List Bytes)
  | .write records => segments.dropLast ++ [segments.getLast?.getD [] ++ records]
  | .rotate => segments ++ [[]]
  | _ => segments

/-- The records that a run has written to each revision. -/
def segmentsOf (events : List FileEvent) : List (List Bytes) := events.foldl segmentStep [[]]

/-! ## What the directory holds -/

/-- The directory holds the revisions from the smallest number to the current one.
The unpacked file of a revision is as it was written; if it is gone, the packed one
is; the other files are as they were. -/
structure Directory.Holds (base : FileName) (foreign dir : Directory) (low cur : Nat)
    (segments : List (List Bytes)) : Prop where
  length : segments.length = cur + 1
  bound : cur < 2 ^ 31
  low_le : low ≤ cur
  own : ∀ name, base <:+: name → (dir name).isSome → ∃ n compressed,
    low ≤ n ∧ n ≤ cur ∧ (compressed = true → n < cur) ∧ name = fileName base n compressed
  plain : ∀ n, low ≤ n → n ≤ cur → (dir (fileName base n false)).isSome →
    dir (fileName base n false) = segments[n]?
  packed : ∀ n, low ≤ n → n ≤ cur → dir (fileName base n false) = none →
    dir (fileName base n true) = segments[n]?
  current : (dir (fileName base cur false)).isSome
  foreign : ∀ name, ¬ base <:+: name → dir name = foreign name

theorem getLogFilePath_eq (base : FileName) (n : Nat) :
    getLogFilePath base n = fileName base n false := rfl

/-- Changing one log file leaves the others alone. -/
theorem update_fileName {base : FileName} (hbase : LogName base) (dir : Directory)
    (file : Option (List Bytes)) {n m : Nat} (hn : n < 2 ^ 31) (hm : m < 2 ^ 31)
    (compressed compressed' : Bool) :
    Function.update dir (fileName base m compressed') file (fileName base n compressed) =
      if n = m ∧ compressed = compressed' then file else dir (fileName base n compressed) := by
  by_cases hsame : n = m ∧ compressed = compressed'
  · rcases hsame with ⟨rfl, rfl⟩
    simp
  · rw [if_neg hsame, Function.update_of_ne]
    exact fun h => hsame (fileName_injective hbase hn hm h)

theorem update_foreign {base : FileName} {name : FileName} (hname : ¬ base <:+: name)
    (dir : Directory) (file : Option (List Bytes)) (n : Nat) (compressed : Bool) :
    Function.update dir (fileName base n compressed) file name = dir name := by
  apply Function.update_of_ne
  rintro rfl
  exact hname (base_infix_fileName base n compressed)

namespace Directory.Holds

variable {base : FileName} {foreign dir : Directory} {low cur : Nat}
  {segments : List (List Bytes)}

/-- The first file in a directory that has no log files. -/
theorem create (hforeign : ∀ name, (foreign name).isSome → ¬ base <:+: name) :
    Holds base foreign (LogFiles.openFile foreign (getLogFilePath base 0)) 0 0 [[]] := by
  have hnone : ∀ name, base <:+: name → foreign name = none := by
    intro name hname
    rw [← Option.not_isSome_iff_eq_none]
    exact fun hsome => hforeign name hsome hname
  have hopen : LogFiles.openFile foreign (getLogFilePath base 0) =
      Function.update foreign (fileName base 0 false) (some []) := by
    rw [LogFiles.openFile, getLogFilePath_eq, hnone _ (base_infix_fileName base 0 false)]
    rfl
  rw [hopen]
  refine ⟨rfl, by decide, Nat.le_refl 0, ?_, ?_, ?_, by simp, ?_⟩
  · intro name hname hsome
    by_cases hfirst : name = fileName base 0 false
    · exact ⟨0, false, Nat.le_refl 0, Nat.le_refl 0, nofun, hfirst⟩
    · rw [Function.update_of_ne hfirst, hnone name hname] at hsome
      cases hsome
  · intro n _ hn _
    have hzero : n = 0 := Nat.le_zero.mp hn
    subst hzero
    rw [Function.update_self]
    rfl
  · intro n _ hn hgone
    have hzero : n = 0 := Nat.le_zero.mp hn
    subst hzero
    rw [Function.update_self] at hgone
    cases hgone
  · intro name hname
    exact update_foreign hname foreign _ 0 false

/-- The records of a revision are in its unpacked file or, if that is gone, in its
packed one. -/
theorem records (h : Holds base foreign dir low cur segments) {n : Nat} (hlow : low ≤ n)
    (hn : n ≤ cur) : ∃ records, segments[n]? = some records ∧
      (dir (fileName base n false) = some records ∨
        (dir (fileName base n false) = none ∧ dir (fileName base n true) = some records)) := by
  have hlength : n < segments.length := by
    rw [h.length]
    omega
  refine ⟨segments[n], List.getElem?_eq_getElem hlength, ?_⟩
  rw [← List.getElem?_eq_getElem hlength]
  cases hplain : dir (fileName base n false) with
  | none => exact .inr ⟨rfl, h.packed n hlow hn hplain⟩
  | some records =>
      left
      rw [← hplain]
      exact h.plain n hlow hn (by rw [hplain]; rfl)

/-- The files that are there in a directory with one more file, or with other
contents of a file. -/
theorem own_update (h : Holds base foreign dir low cur segments) {cur' n : Nat}
    (hcur : cur ≤ cur') (compressed : Bool) (hlow : low ≤ n) (hn : n ≤ cur')
    (hcompressed : compressed = true → n < cur') (file : Option (List Bytes)) (name : FileName)
    (hname : base <:+: name)
    (hsome : (Function.update dir (fileName base n compressed) file name).isSome) :
    ∃ n compressed, low ≤ n ∧ n ≤ cur' ∧ (compressed = true → n < cur') ∧
      name = fileName base n compressed := by
  by_cases hsame : name = fileName base n compressed
  · exact ⟨n, compressed, hlow, hn, hcompressed, hsame⟩
  · rw [Function.update_of_ne hsame] at hsome
    rcases h.own name hname hsome with ⟨m, compressed', hlow', hm, hcompressed', rfl⟩
    exact ⟨m, compressed', hlow', hm.trans hcur, fun hc => (hcompressed' hc).trans_le hcur, rfl⟩

/-- A file that the logger has not opened yet is not there. -/
theorem next_eq_none (h : Holds base foreign dir low cur segments) (hbase : LogName base)
    (hbound : cur + 1 < 2 ^ 31) (compressed : Bool) :
    dir (fileName base (cur + 1) compressed) = none := by
  rw [← Option.not_isSome_iff_eq_none]
  intro hsome
  rcases h.own _ (base_infix_fileName base (cur + 1) compressed) hsome with
    ⟨n, compressed', -, hn, -, hname⟩
  have hnumber := (fileName_injective hbase hbound (by omega) hname).1
  omega

/-- Records go to the current file. -/
theorem write (h : Holds base foreign dir low cur segments) (hbase : LogName base)
    (records : List Bytes) :
    Holds base foreign (Function.update dir (getLogFilePath base cur)
      (some ((dir (getLogFilePath base cur)).getD [] ++ records))) low cur
      (segmentStep segments (.write records)) := by
  have hbound := h.bound
  have hlength := h.length
  have hdropped : segments.dropLast.length = cur := by
    rw [List.length_dropLast, hlength, Nat.add_sub_cancel]
  have hlast : segments.getLast? = segments[cur]? := by
    rw [List.getLast?_eq_getElem?, hlength, Nat.add_sub_cancel]
  have hnew : ∀ n, n ≤ cur → (segmentStep segments (.write records))[n]? =
      if n = cur then some (segments[cur]?.getD [] ++ records) else segments[n]? := by
    intro n hn
    simp only [segmentStep, hlast]
    by_cases hcur : n = cur
    · subst hcur
      rw [if_pos rfl, List.getElem?_append_right (by omega), hdropped, Nat.sub_self,
        List.getElem?_cons_zero]
    · rw [if_neg hcur, List.getElem?_append_left (by omega), List.getElem?_dropLast,
        if_pos (by omega)]
  rw [getLogFilePath_eq, h.plain cur h.low_le (Nat.le_refl _) h.current]
  refine ⟨?_, hbound, h.low_le, ?_, ?_, ?_, by simp, ?_⟩
  · simp only [segmentStep, List.length_append, hdropped, List.length_singleton]
  · exact h.own_update (Nat.le_refl _) false h.low_le (Nat.le_refl _) nofun _
  · intro n hlow hn hsome
    rw [update_fileName hbase dir _ (by omega) hbound] at hsome ⊢
    rw [hnew n hn]
    by_cases hcur : n = cur
    · rw [if_pos hcur, if_pos ⟨hcur, rfl⟩]
    · rw [if_neg hcur, if_neg (fun hsame => hcur hsame.1)]
      rw [if_neg (fun hsame => hcur hsame.1)] at hsome
      exact h.plain n hlow hn hsome
  · intro n hlow hn hgone
    rw [update_fileName hbase dir _ (by omega) hbound] at hgone ⊢
    rw [hnew n hn]
    by_cases hcur : n = cur
    · rw [if_pos ⟨hcur, rfl⟩] at hgone
      cases hgone
    · rw [if_neg (fun hsame => hcur hsame.1)] at hgone ⊢
      rw [if_neg hcur]
      exact h.packed n hlow hn hgone
  · intro name hname
    rw [update_foreign hname]
    exact h.foreign name hname

/-- The next file is opened. -/
theorem rotate (h : Holds base foreign dir low cur segments) (hbase : LogName base)
    (hbound : cur + 1 < 2 ^ 31) :
    Holds base foreign (LogFiles.openFile dir (getLogFilePath base (cur + 1))) low (cur + 1)
      (segmentStep segments .rotate) := by
  have hlength := h.length
  have hlow := h.low_le
  have hopen : LogFiles.openFile dir (getLogFilePath base (cur + 1)) =
      Function.update dir (fileName base (cur + 1) false) (some []) := by
    rw [LogFiles.openFile, getLogFilePath_eq, h.next_eq_none hbase hbound]
    rfl
  rw [hopen]
  refine ⟨?_, hbound, by omega, ?_, ?_, ?_, by simp, ?_⟩
  · simp only [segmentStep, List.length_append, hlength, List.length_singleton]
  · exact h.own_update (Nat.le_succ _) false (by omega) (Nat.le_refl _) nofun _
  · intro n hlow' hn hsome
    rw [update_fileName hbase dir _ (by omega) hbound] at hsome ⊢
    simp only [segmentStep]
    by_cases hlast : n = cur + 1
    · rw [if_pos ⟨hlast, trivial⟩, hlast, List.getElem?_append_right (by omega), hlength,
        Nat.sub_self, List.getElem?_cons_zero]
    · rw [if_neg (fun hsame => hlast hsame.1)] at hsome ⊢
      rw [List.getElem?_append_left (by omega)]
      exact h.plain n hlow' (by omega) hsome
  · intro n hlow' hn hgone
    rw [update_fileName hbase dir _ (by omega) hbound] at hgone ⊢
    simp only [segmentStep]
    by_cases hlast : n = cur + 1
    · rw [if_pos ⟨hlast, rfl⟩] at hgone
      cases hgone
    · rw [if_neg (fun hsame => hlast hsame.1)] at hgone ⊢
      rw [List.getElem?_append_left (by omega)]
      exact h.packed n hlow' (by omega) hgone
  · intro name hname
    rw [update_foreign hname]
    exact h.foreign name hname

/-- As long as a closed file is there, its archive may hold anything. -/
theorem archive (h : Holds base foreign dir low cur segments) (hbase : LogName base)
    {fileNum : Nat} (hlow : low ≤ fileNum) (hcur : fileNum < cur)
    (hplain : (dir (fileName base fileNum false)).isSome) (file : Option (List Bytes)) :
    Holds base foreign (Function.update dir (fileName base fileNum true) file) low cur
      segments := by
  have hbound := h.bound
  have hsame : ∀ n, n ≤ cur → Function.update dir (fileName base fileNum true) file
      (fileName base n false) = dir (fileName base n false) := by
    intro n hn
    rw [update_fileName hbase dir _ (by omega) (by omega), if_neg (by simp)]
  refine ⟨h.length, hbound, h.low_le, ?_, ?_, ?_, ?_, ?_⟩
  · exact h.own_update (Nat.le_refl _) true hlow hcur.le (fun _ => hcur) _
  · intro n hlow' hn hsome
    rw [hsame n hn] at hsome ⊢
    exact h.plain n hlow' hn hsome
  · intro n hlow' hn hgone
    rw [hsame n hn] at hgone
    have hother : n ≠ fileNum := by
      rintro rfl
      rw [hgone] at hplain
      cases hplain
    rw [update_fileName hbase dir _ (by omega) (by omega), if_neg (fun hboth => hother hboth.1)]
    exact h.packed n hlow' hn hgone
  · rw [hsame cur (Nat.le_refl _)]
    exact h.current
  · intro name hname
    rw [update_foreign hname]
    exact h.foreign name hname

/-- A closed file that has been packed is removed. -/
theorem rm (h : Holds base foreign dir low cur segments) (hbase : LogName base) {fileNum : Nat}
    (hlow : low ≤ fileNum) (hcur : fileNum < cur)
    (hpacked : dir (fileName base fileNum true) = segments[fileNum]?) :
    Holds base foreign (Function.update dir (fileName base fileNum false) none) low cur
      segments := by
  have hbound := h.bound
  have hsame : ∀ n, n ≤ cur → Function.update dir (fileName base fileNum false) none
      (fileName base n true) = dir (fileName base n true) := by
    intro n hn
    rw [update_fileName hbase dir _ (by omega) (by omega), if_neg (by simp)]
  refine ⟨h.length, hbound, h.low_le, ?_, ?_, ?_, ?_, ?_⟩
  · exact h.own_update (Nat.le_refl _) false hlow hcur.le nofun _
  · intro n hlow' hn hsome
    rw [update_fileName hbase dir _ (by omega) (by omega)] at hsome ⊢
    by_cases hfile : n = fileNum ∧ false = false
    · rw [if_pos hfile] at hsome
      cases hsome
    · rw [if_neg hfile] at hsome ⊢
      exact h.plain n hlow' hn hsome
  · intro n hlow' hn hgone
    rw [hsame n hn]
    by_cases hfile : n = fileNum
    · rw [hfile]
      exact hpacked
    · rw [update_fileName hbase dir _ (by omega) (by omega),
        if_neg (fun hboth => hfile hboth.1)] at hgone
      exact h.packed n hlow' hn hgone
  · rw [update_fileName hbase dir _ hbound (by omega), if_neg (by omega)]
    exact h.current
  · intro name hname
    rw [update_foreign hname]
    exact h.foreign name hname

/-- The oldest revision is removed. -/
theorem rmRevision (h : Holds base foreign dir low cur segments) (hbase : LogName base)
    (hcur : low < cur) :
    Holds base foreign (Function.update (Function.update dir (fileName base low false) none)
      (fileName base low true) none) (low + 1) cur segments := by
  have hbound := h.bound
  have hupdate : ∀ n compressed, n ≤ cur → Function.update (Function.update dir
      (fileName base low false) none) (fileName base low true) none (fileName base n compressed) =
      if n = low then none else dir (fileName base n compressed) := by
    intro n compressed hn
    rw [update_fileName hbase _ _ (by omega) (by omega),
      update_fileName hbase _ _ (by omega) (by omega)]
    by_cases hsame : n = low
    · cases compressed <;> simp [hsame]
    · simp [hsame]
  refine ⟨h.length, hbound, hcur, ?_, ?_, ?_, ?_, ?_⟩
  · intro name hname hsome
    by_cases hpacked : name = fileName base low true
    · rw [hpacked, Function.update_self] at hsome
      cases hsome
    · rw [Function.update_of_ne hpacked] at hsome
      by_cases hplain : name = fileName base low false
      · rw [hplain, Function.update_self] at hsome
        cases hsome
      · rw [Function.update_of_ne hplain] at hsome
        rcases h.own name hname hsome with ⟨n, compressed, hlow, hn, hcompressed, rfl⟩
        refine ⟨n, compressed, ?_, hn, hcompressed, rfl⟩
        by_contra hle
        have hlast : n = low := by omega
        subst hlast
        cases compressed with
        | false => exact hplain rfl
        | true => exact hpacked rfl
  · intro n hlow hn hsome
    rw [hupdate n false hn, if_neg (by omega)] at hsome ⊢
    exact h.plain n (by omega) hn hsome
  · intro n hlow hn hgone
    rw [hupdate n false hn, if_neg (by omega)] at hgone
    rw [hupdate n true hn, if_neg (by omega)]
    exact h.packed n (by omega) hn hgone
  · rw [hupdate cur false (Nat.le_refl _), if_neg (by omega)]
    exact h.current
  · intro name hname
    rw [update_foreign hname, update_foreign hname]
    exact h.foreign name hname

/-- A new process finds the range of revisions that is there. -/
theorem findMinMaxRevNum_eq (h : Holds base foreign dir low cur segments) (hbase : LogName base)
    {names : List FileName} (hnames : LogFiles.Lists names dir) :
    findMinMaxRevNum base names = (low, cur) := by
  have hstored : ∃ compressed, (dir (fileName base low compressed)).isSome := by
    rcases h.records (Nat.le_refl low) h.low_le with ⟨records, -, hplain | ⟨-, hpacked⟩⟩
    · exact ⟨false, by rw [hplain]; rfl⟩
    · exact ⟨true, by rw [hpacked]; rfl⟩
  rcases hstored with ⟨compressed, hlow⟩
  apply ReplicatedSplinterDB.findMinMaxRevNum_eq hbase h.bound
  · intro name hmem hname
    exact h.own name hname ((hnames name).mp hmem)
  · exact ⟨compressed, (hnames _).mpr hlow⟩
  · exact h.low_le
  · exact (hnames _).mpr h.current

/-- Opening the current file changes nothing. -/
theorem openFile_current (h : Holds base foreign dir low cur segments) :
    LogFiles.openFile dir (getLogFilePath base cur) = dir := by
  rcases Option.isSome_iff_exists.mp h.current with ⟨records, hrecords⟩
  rw [LogFiles.openFile, getLogFilePath_eq, hrecords, Option.getD_some, ← hrecords]
  exact Function.update_eq_self _ _

/-- A new process continues where the last one was. -/
theorem restart_eq (h : Holds base foreign dir low cur segments) (hbase : LogName base)
    {names : List FileName} (hnames : LogFiles.Lists names dir) :
    LogFiles.restart base dir names = ⟨dir, low, cur, [], []⟩ := by
  simp only [LogFiles.restart, h.findMinMaxRevNum_eq hbase hnames, h.openFile_current]

end Directory.Holds

/-- The archive of a revision is not its file. -/
theorem fileName_true_ne (base : FileName) (n : Nat) :
    fileName base n true ≠ fileName base n false := by
  intro h
  have hempty : archiveEnding = [] := List.append_right_eq_self.mp h
  cases hempty

/-- A file that could not be packed is removed all the same: whatever the failed
command left behind is all that there is of the revision. -/
theorem failed_tar_loses_file (base : FileName) (maxLogFiles : Nat) {s : LogFiles} {fileNum : Nat}
    {rest : List FileCommand} (h : s.commands = .tar fileNum :: .rm fileNum :: rest)
    (left : Option (List Bytes)) :
    ∃ s', runEvents (LogFiles.step base maxLogFiles) [.fail left, .exec] s = .ok s' ∧
      s'.dir (fileName base fileNum false) = none ∧
      s'.dir (fileName base fileNum true) = left := by
  simp only [runEvents, LogFiles.step, h, LogFiles.failCmd, LogFiles.execCmd]
  refine ⟨_, rfl, ?_, ?_⟩
  · simp
  · simp [fileName_true_ne]

end ReplicatedSplinterDB
