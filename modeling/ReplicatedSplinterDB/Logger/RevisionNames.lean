import Mathlib.Data.List.DropRight
import Mathlib.Data.List.Infix
import ReplicatedSplinterDB.Server.Membership

/-!
# The names of log files

The logger numbers its files.  The number is only kept in the file's name: a
logger that is started again looks through its directory and reads the numbers
back from the names, with and without the ending of compressed files.

A name is a list of characters, one for each byte of the program's string, and
stands for the file of that name in the logger's directory.

Main results:

- Theorem {lit}`revisionOf_fileName`: the number and the kind of a file are read
  back from its name.
- Theorem {lit}`findMinMaxRevNum_eq`: the range of numbers that the search through
  a directory finds.
-/

namespace ReplicatedSplinterDB

open Foundation

/-! ## Naming files -/

/-- The name of a file in the logger's directory. -/
abbrev FileName := List Char

/-- {lit}`getLogFilePath`: the first file has no number. -/
def getLogFilePath (base : FileName) (fileNum : Nat) : FileName :=
  if fileNum ≠ 0 then base ++ '.' :: Nat.toDigits 10 fileNum else base

/-- What is put behind the name of a compressed file. -/
def archiveEnding : List Char := ".tar.gz".toList

/-- The name of the file of a revision, before or after it is compressed. -/
def fileName (base : FileName) (fileNum : Nat) (compressed : Bool) : FileName :=
  if compressed then getLogFilePath base fileNum ++ archiveEnding else getLogFilePath base fileNum

/-! ## Reading names -/

/-- The text behind the last dot, if there is one. -/
def extension? (name : FileName) : Option (List Char) :=
  if '.' ∈ name then some (name.rtakeWhile (· ≠ '.')) else none

/-- {lit}`atoi`, which gives zero if there is no number.  A number that is no
{lit}`int` has no defined value; as in the usual C library it is bounded to a
{lit}`long` and then cut to an {lit}`int`. -/
def atoi (s : List Char) : Int :=
  match leadingNumber s with
  | none => 0
  | some value => (max (-2 ^ 63) (min value (2 ^ 63 - 1))).bmod (2 ^ 32)

/-- The number that stands behind the last dot, as a {lit}`size_t`. -/
def revnumOf (name : FileName) : Option Nat :=
  (extension? name).map fun ext => (atoi ext % 2 ^ 64).toNat

/-- What {lit}`findMinMaxRevNumInternal` reads from a name: the number, and whether
the file is compressed.  It returns early where this is {lit}`none`. -/
def revisionOf (fName : FileName) : Option (Nat × Bool) :=
  match extension? fName with
  | none => none
  | some ext =>
      if ext = ['g', 'z'] ∧ 7 < fName.length then
        (revnumOf (fName.take (fName.length - 7))).map (·, true)
      else (revnumOf fName).map (·, false)

/-- The three variables that the search updates. -/
structure RevRange where
  minInitialized : Bool
  minRevnum : Nat
  maxRevnum : Nat
deriving DecidableEq, Repr

/-- The end of {lit}`findMinMaxRevNumInternal`.  Behind a compressed file there
must be another one. -/
def RevRange.note (range : RevRange) (revision : Nat × Bool) : RevRange where
  minInitialized := true
  minRevnum := min (if range.minInitialized then range.minRevnum else revision.1) revision.1
  maxRevnum := max range.maxRevnum (if revision.2 then (revision.1 + 1) % 2 ^ 64 else revision.1)

/-- {lit}`findMinMaxRevNumInternal` -/
def findMinMaxRevNumInternal (range : RevRange) (fName : FileName) : RevRange :=
  match revisionOf fName with
  | none => range
  | some revision => range.note revision

/-- {lit}`findMinMaxRevNum`, for a directory with the given names.  Files whose
names do not contain the name of the log file are skipped. -/
def findMinMaxRevNum (base : FileName) (names : List FileName) : Nat × Nat :=
  let range := names.foldl (fun range fName =>
    if base <:+: fName then findMinMaxRevNumInternal range fName else range) ⟨false, 0, 0⟩
  (range.minRevnum, range.maxRevnum)

/-! ## Names are read back -/

theorem extension?_append {front ext : List Char} (h : '.' ∉ ext) :
    extension? (front ++ '.' :: ext) = some ext := by
  have hkept : ∀ c ∈ ext.reverse, decide (c ≠ '.') = true := by
    intro c hc
    rw [decide_eq_true_eq]
    rintro rfl
    exact h (List.mem_reverse.mp hc)
  have htake : (front ++ '.' :: ext).rtakeWhile (· ≠ '.') = ext := by
    unfold List.rtakeWhile
    rw [List.reverse_append, List.reverse_cons, List.append_assoc,
      List.takeWhile_append_of_pos hkept]
    simp
  rw [extension?, if_pos (by simp), htake]

theorem atoi_toDigits {n : Nat} (h : n < 2 ^ 31) : atoi (Nat.toDigits 10 n) = n := by
  have hlong : max (-2 ^ 63) (min (n : Int) (2 ^ 63 - 1)) = n := by omega
  simp only [atoi, leadingNumber_toDigits, hlong]
  exact Int.bmod_eq_of_le (by omega) (by omega)

/-- A digit is no dot. -/
theorem dot_notMem_toDigits (n : Nat) : '.' ∉ Nat.toDigits 10 n := by
  intro hmem
  have hdigit := Nat.isDigit_of_mem_toDigits (by decide) (by decide) hmem
  exact absurd hdigit (by decide)

/-- The name has an ending that is neither a number nor that of a compressed
file. -/
def LogName (base : FileName) : Prop :=
  ∃ ext, extension? base = some ext ∧ ext ≠ ['g', 'z'] ∧ atoi ext = 0

instance (base : FileName) : Decidable (LogName base) :=
  match h : extension? base with
  | none => isFalse (by rintro ⟨ext, hext, -⟩; rw [h] at hext; cases hext)
  | some ext =>
      decidable_of_iff (ext ≠ ['g', 'z'] ∧ atoi ext = 0)
        ⟨fun hext => ⟨ext, h, hext⟩, fun ⟨ext', hext', hrest⟩ => by
          rw [h] at hext'
          cases hext'
          exact hrest⟩

section Names

variable {base : FileName}

theorem revnumOf_getLogFilePath (hbase : LogName base) {n : Nat} (hn : n < 2 ^ 31) :
    revnumOf (getLogFilePath base n) = some n ∧
      ∃ ext, extension? (getLogFilePath base n) = some ext ∧ ext ≠ ['g', 'z'] := by
  unfold getLogFilePath revnumOf
  split
  · refine ⟨?_, _, extension?_append (dot_notMem_toDigits n), ?_⟩
    · rw [extension?_append (dot_notMem_toDigits n), Option.map_some, atoi_toDigits hn]
      congr 1
      omega
    · intro hgz
      have hmem : 'g' ∈ Nat.toDigits 10 n := by
        rw [hgz]
        exact List.mem_cons_self
      have hdigit := Nat.isDigit_of_mem_toDigits (by decide) (by decide) hmem
      exact absurd hdigit (by decide)
  · rename_i hzero
    rcases hbase with ⟨ext, hext, hgz, hvalue⟩
    refine ⟨?_, ext, hext, hgz⟩
    rw [hext, Option.map_some, hvalue, not_not.mp hzero]
    rfl

/-- The number and the kind of a file are read back from its name. -/
theorem revisionOf_fileName (hbase : LogName base) {n : Nat} (hn : n < 2 ^ 31)
    (compressed : Bool) : revisionOf (fileName base n compressed) = some (n, compressed) := by
  rcases revnumOf_getLogFilePath hbase hn with ⟨hnum, ext, hext, hgz⟩
  cases compressed with
  | false =>
      simp only [fileName, Bool.false_eq_true, if_false, revisionOf, hext]
      rw [if_neg (fun h => hgz h.1), hnum]
      rfl
  | true =>
      have hne : getLogFilePath base n ≠ [] := by
        intro hnil
        rw [hnil] at hext
        cases hext
      have hpos := List.length_pos_iff.mpr hne
      have hsplit : getLogFilePath base n ++ archiveEnding =
          (getLogFilePath base n ++ ".tar".toList) ++ '.' :: ['g', 'z'] := by
        rw [List.append_assoc]
        rfl
      have hending : extension? (getLogFilePath base n ++ archiveEnding) = some ['g', 'z'] := by
        rw [hsplit]
        exact extension?_append (by decide)
      have hlen : archiveEnding.length = 7 := rfl
      simp only [fileName, if_true, revisionOf, hending]
      rw [if_pos ⟨trivial, by rw [List.length_append, hlen]; omega⟩, List.length_append, hlen,
        Nat.add_sub_cancel, List.take_left, hnum]
      rfl

theorem fileName_injective (hbase : LogName base) {n m : Nat} (hn : n < 2 ^ 31) (hm : m < 2 ^ 31)
    {compressed compressed' : Bool} (h : fileName base n compressed = fileName base m compressed') :
    n = m ∧ compressed = compressed' := by
  have hread := revisionOf_fileName hbase hn compressed
  rw [h, revisionOf_fileName hbase hm compressed'] at hread
  cases hread
  exact ⟨rfl, rfl⟩

/-- The search does not skip the logger's own files. -/
theorem base_infix_fileName (base : FileName) (n : Nat) (compressed : Bool) :
    base <:+: fileName base n compressed := by
  have hpath : base <+: getLogFilePath base n := by
    unfold getLogFilePath
    split
    · exact List.prefix_append _ _
    · exact List.prefix_rfl
  cases compressed with
  | false => exact hpath.isInfix
  | true => exact (hpath.trans (List.prefix_append _ _)).isInfix

end Names

/-! ## The range of numbers -/

/-- The number of the file that a file asks for. -/
def requiredRevnum (revision : Nat × Bool) : Nat :=
  if revision.2 then (revision.1 + 1) % 2 ^ 64 else revision.1

/-- The smallest number of a search.  The induction is on the files still to
visit. -/
theorem minRevnum_foldl {revisions : List (Nat × Bool)} {range : RevRange} {low : Nat}
    (hlow : ∀ revision ∈ revisions, low ≤ revision.1)
    (hrange : range.minInitialized = true → low ≤ range.minRevnum)
    (hfound : (range.minInitialized = true ∧ range.minRevnum = low) ∨
      ∃ revision ∈ revisions, revision.1 = low) :
    (revisions.foldl RevRange.note range).minRevnum = low := by
  induction revisions generalizing range with
  | nil =>
      rcases hfound with hfound | ⟨revision, hmem, -⟩
      · exact hfound.2
      · cases hmem
  | cons first rest ih =>
      rw [List.forall_mem_cons] at hlow
      apply ih hlow.2
      · intro _
        unfold RevRange.note
        dsimp only
        split
        · rename_i h
          have := hrange h
          omega
        · omega
      · rcases hfound with ⟨hinit, hmin⟩ | ⟨revision, hmem, hrevision⟩
        · left
          refine ⟨rfl, ?_⟩
          unfold RevRange.note
          dsimp only
          rw [if_pos hinit]
          omega
        · rcases List.mem_cons.mp hmem with rfl | hlater
          · left
            refine ⟨rfl, ?_⟩
            unfold RevRange.note
            dsimp only
            split
            · rename_i h
              have := hrange h
              omega
            · omega
          · exact .inr ⟨revision, hlater, hrevision⟩

/-- The largest number of a search.  The induction is on the files still to
visit. -/
theorem maxRevnum_foldl {revisions : List (Nat × Bool)} {range : RevRange} {high : Nat}
    (hhigh : ∀ revision ∈ revisions, requiredRevnum revision ≤ high)
    (hrange : range.maxRevnum ≤ high)
    (hfound : range.maxRevnum = high ∨ ∃ revision ∈ revisions, requiredRevnum revision = high) :
    (revisions.foldl RevRange.note range).maxRevnum = high := by
  induction revisions generalizing range with
  | nil =>
      rcases hfound with hfound | ⟨revision, hmem, -⟩
      · exact hfound
      · cases hmem
  | cons first rest ih =>
      rw [List.forall_mem_cons] at hhigh
      have hmax : (range.note first).maxRevnum = max range.maxRevnum (requiredRevnum first) := rfl
      apply ih hhigh.2
      · omega
      · rcases hfound with hfound | ⟨revision, hmem, hrevision⟩
        · left
          omega
        · rcases List.mem_cons.mp hmem with rfl | hlater
          · left
            omega
          · exact .inr ⟨revision, hlater, hrevision⟩

/-- A search visits the revisions of the names that it does not skip. -/
theorem foldl_findMinMaxRevNumInternal (base : FileName) (names : List FileName)
    (range : RevRange) :
    names.foldl (fun range fName =>
        if base <:+: fName then findMinMaxRevNumInternal range fName else range) range =
      ((names.filter (base <:+: ·)).filterMap revisionOf).foldl RevRange.note range := by
  induction names generalizing range with
  | nil => rfl
  | cons fName names ih =>
      rw [List.foldl_cons, ih]
      by_cases hown : base <:+: fName
      · rw [if_pos hown, List.filter_cons_of_pos (by simpa using hown), List.filterMap_cons,
          findMinMaxRevNumInternal]
        cases revisionOf fName with
        | none => rfl
        | some revision => rfl
      · rw [if_neg hown, List.filter_cons_of_neg (by simpa using hown)]

/-- The range that a search finds, if its own files are revisions from a lowest to
a highest number, no compressed file has the highest number, and both ends are
there. -/
theorem findMinMaxRevNum_eq {base : FileName} (hbase : LogName base) {names : List FileName}
    {low high : Nat} (hhigh : high < 2 ^ 31)
    (hown : ∀ name ∈ names, base <:+: name → ∃ n compressed, low ≤ n ∧ n ≤ high ∧
      (compressed = true → n < high) ∧ name = fileName base n compressed)
    (hlow : ∃ compressed, fileName base low compressed ∈ names) (hle : low ≤ high)
    (hlast : fileName base high false ∈ names) :
    findMinMaxRevNum base names = (low, high) := by
  have hrevisions : ∀ revision ∈ (names.filter (base <:+: ·)).filterMap revisionOf,
      low ≤ revision.1 ∧ requiredRevnum revision ≤ high := by
    intro revision hmem
    rcases List.mem_filterMap.mp hmem with ⟨name, hname, hread⟩
    rw [List.mem_filter, decide_eq_true_eq] at hname
    rcases hown name hname.1 hname.2 with ⟨n, compressed, hlow, hhigh', hbelow, rfl⟩
    rw [revisionOf_fileName hbase (by omega)] at hread
    cases hread
    refine ⟨hlow, ?_⟩
    unfold requiredRevnum
    cases compressed with
    | false => exact hhigh'
    | true =>
        have hlt := hbelow rfl
        dsimp only
        rw [if_pos rfl, Nat.mod_eq_of_lt (by omega)]
        omega
  have hmem : ∀ n compressed, n < 2 ^ 31 → fileName base n compressed ∈ names →
      (n, compressed) ∈ (names.filter (base <:+: ·)).filterMap revisionOf := by
    intro n compressed hn hname
    rw [List.mem_filterMap]
    refine ⟨_, ?_, revisionOf_fileName hbase hn compressed⟩
    rw [List.mem_filter, decide_eq_true_eq]
    exact ⟨hname, base_infix_fileName base n compressed⟩
  rcases hlow with ⟨compressed, hfirst⟩
  unfold findMinMaxRevNum
  dsimp only
  rw [foldl_findMinMaxRevNumInternal]
  rw [minRevnum_foldl (fun revision h => (hrevisions revision h).1) (by simp)
    (.inr ⟨_, hmem low compressed (by omega) hfirst, rfl⟩)]
  rw [maxRevnum_foldl (fun revision h => (hrevisions revision h).2) (Nat.zero_le _)
    (.inr ⟨_, hmem high false hhigh hlast, rfl⟩)]

end ReplicatedSplinterDB
