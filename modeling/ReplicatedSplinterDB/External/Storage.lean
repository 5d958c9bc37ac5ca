import ReplicatedSplinterDB.Common.Types
import Mathlib.Logic.Function.Basic

/-!
# The SplinterDB interface

SplinterDB is a library outside the repository.  A database is a map; its
primitives are a parameter of the model, and {lit}`SplinterDB.Lawful` collects
what the code relies on: a primitive that returns zero has its effect, one that
returns anything else changes nothing, and reading a lookup result fails
exactly on an absent key.

The handle of a database also records the mutating primitives called on it, so
that theorems can speak about which primitive a commit reaches.
-/

namespace ReplicatedSplinterDB

/-- The contents of a key-value store. -/
abbrev KVMap (κ ν : Type) := κ → Option ν

namespace KVMap

variable {κ ν : Type} [DecidableEq κ]

/-- Bind a key to a value. -/
def set (m : KVMap κ ν) (k : κ) (v : ν) : KVMap κ ν := Function.update m k (some v)

/-- Remove a key. -/
def erase (m : KVMap κ ν) (k : κ) : KVMap κ ν := Function.update m k none

@[simp] theorem set_self (m : KVMap κ ν) (k : κ) (v : ν) : m.set k v k = some v := by
  simp [set]

@[simp] theorem set_of_ne {m : KVMap κ ν} {k j : κ} (v : ν) (h : j ≠ k) :
    m.set k v j = m j := by
  simp [set, h]

@[simp] theorem erase_self (m : KVMap κ ν) (k : κ) : m.erase k k = none := by
  simp [erase]

@[simp] theorem erase_of_ne {m : KVMap κ ν} {k j : κ} (h : j ≠ k) :
    m.erase k j = m j := by
  simp [erase, h]

end KVMap

/-- The SplinterDB primitives: return code and contents afterwards for the
mutations, return code and lookup result for a lookup.  Reading the value out
of a lookup result that found nothing returns {lit}`absentCode`. -/
structure SplinterDB (κ ν : Type) where
  insert : KVMap κ ν → κ → ν → Int32 × KVMap κ ν
  update : KVMap κ ν → κ → ν → Int32 × KVMap κ ν
  delete : KVMap κ ν → κ → Int32 × KVMap κ ν
  lookup : KVMap κ ν → κ → Int32 × Option ν
  absentCode : Int32

/-- What the code relies on.  Each law is about one primitive. -/
structure SplinterDB.Lawful {κ ν : Type} [DecidableEq κ] (db : SplinterDB κ ν) : Prop where
  insert_ok : ∀ m k v, (db.insert m k v).1 = 0 → (db.insert m k v).2 = m.set k v
  insert_failed : ∀ m k v, (db.insert m k v).1 ≠ 0 → (db.insert m k v).2 = m
  update_ok : ∀ m k v, (db.update m k v).1 = 0 → (db.update m k v).2 = m.set k v
  update_failed : ∀ m k v, (db.update m k v).1 ≠ 0 → (db.update m k v).2 = m
  delete_ok : ∀ m k, (db.delete m k).1 = 0 → (db.delete m k).2 = m.erase k
  delete_failed : ∀ m k, (db.delete m k).1 ≠ 0 → (db.delete m k).2 = m
  lookup_ok : ∀ m k, (db.lookup m k).1 = 0 → (db.lookup m k).2 = m k
  absentCode_ne_zero : db.absentCode ≠ 0

/-- {lit}`splinterdb_lookup_result_value`: the value found, or an error code. -/
def SplinterDB.lookupResultValue {κ ν : Type} (db : SplinterDB κ ν) :
    Option ν → Except Int32 ν
  | some v => .ok v
  | none => .error db.absentCode

/-- A mutating primitive with the arguments it was called with. -/
inductive StorageCall (κ ν : Type) where
  | insert (key : κ) (value : ν)
  | update (key : κ) (value : ν)
  | delete (key : κ)
deriving DecidableEq, Repr

/-- An open database: its contents and the mutating calls made on it. -/
structure Handle (κ ν : Type) where
  contents : KVMap κ ν
  calls : List (StorageCall κ ν)

/-- A freshly created database. -/
def Handle.create (κ ν : Type) : Handle κ ν := ⟨fun _ => none, []⟩

section Primitives

variable {κ ν : Type} (db : SplinterDB κ ν)

/-- Call one mutating primitive on an open database. -/
def Handle.call (h : Handle κ ν) : StorageCall κ ν → Int32 × Handle κ ν
  | .insert k v =>
      ((db.insert h.contents k v).1, ⟨(db.insert h.contents k v).2, h.calls ++ [.insert k v]⟩)
  | .update k v =>
      ((db.update h.contents k v).1, ⟨(db.update h.contents k v).2, h.calls ++ [.update k v]⟩)
  | .delete k =>
      ((db.delete h.contents k).1, ⟨(db.delete h.contents k).2, h.calls ++ [.delete k]⟩)

@[simp] theorem Handle.call_calls (h : Handle κ ν) (c : StorageCall κ ν) :
    (h.call db c).2.calls = h.calls ++ [c] := by
  cases c <;> rfl

/-- Delete keys one after the other.  The return codes are not looked at. -/
def Handle.deleteAll (h : Handle κ ν) (keys : List κ) : Handle κ ν :=
  keys.foldl (fun h key => (h.call db (.delete key)).2) h

/-- The effect that a successful primitive has on the contents. -/
def StorageCall.effect [DecidableEq κ] (m : KVMap κ ν) : StorageCall κ ν → KVMap κ ν
  | .insert k v => m.set k v
  | .update k v => m.set k v
  | .delete k => m.erase k

variable {db} [DecidableEq κ]

/-- A lawful primitive has its whole effect or none. -/
theorem Handle.call_contents (hdb : db.Lawful) (h : Handle κ ν) (c : StorageCall κ ν) :
    (h.call db c).2.contents =
      if (h.call db c).1 = 0 then c.effect h.contents else h.contents := by
  cases c with
  | insert k v =>
      by_cases hcode : (db.insert h.contents k v).1 = 0
      · simp [Handle.call, StorageCall.effect, hcode, hdb.insert_ok]
      · simp [Handle.call, hcode, hdb.insert_failed]
  | update k v =>
      by_cases hcode : (db.update h.contents k v).1 = 0
      · simp [Handle.call, StorageCall.effect, hcode, hdb.update_ok]
      · simp [Handle.call, hcode, hdb.update_failed]
  | delete k =>
      by_cases hcode : (db.delete h.contents k).1 = 0
      · simp [Handle.call, StorageCall.effect, hcode, hdb.delete_ok]
      · simp [Handle.call, hcode, hdb.delete_failed]

/-- Deleting keys removes none but them, whichever of the deletions fail. -/
theorem Handle.deleteAll_contents_cases (hdb : db.Lawful) (h : Handle κ ν) (keys : List κ)
    (k : κ) :
    (h.deleteAll db keys).contents k = h.contents k ∨
      (k ∈ keys ∧ (h.deleteAll db keys).contents k = none) := by
  induction keys generalizing h with
  | nil => exact .inl rfl
  | cons key keys ih =>
      have hstep := h.call_contents hdb (.delete key)
      rcases ih (h.call db (.delete key)).2 with hsame | ⟨hmem, hnone⟩
      · by_cases hcode : (h.call db (.delete key)).1 = 0
        · rw [hstep, if_pos hcode] at hsame
          by_cases hk : k = key
          · subst hk
            exact .inr ⟨List.mem_cons_self, hsame.trans (KVMap.erase_self _ _)⟩
          · exact .inl (hsame.trans (KVMap.erase_of_ne hk))
        · rw [hstep, if_neg hcode] at hsame
          exact .inl hsame
      · exact .inr ⟨List.mem_cons_of_mem _ hmem, hnone⟩

/-- Deletions that all succeed remove exactly the listed keys. -/
theorem Handle.deleteAll_contents (hdb : db.Lawful) (hdelete : ∀ m k, (db.delete m k).1 = 0)
    (h : Handle κ ν) (keys : List κ) (k : κ) :
    (h.deleteAll db keys).contents k = if k ∈ keys then none else h.contents k := by
  induction keys generalizing h with
  | nil => simp [Handle.deleteAll]
  | cons key keys ih =>
      have hstep : (h.call db (.delete key)).2.contents = h.contents.erase key :=
        hdb.delete_ok _ _ (hdelete _ _)
      change ((h.call db (.delete key)).2.deleteAll db keys).contents k = _
      rw [ih, hstep]
      by_cases hk : k = key
      · subst hk
        simp
      · simp [hk]

end Primitives

/-- A database whose primitives always succeed. -/
def SplinterDB.reliable (κ ν : Type) [DecidableEq κ] : SplinterDB κ ν where
  insert m k v := (0, m.set k v)
  update m k v := (0, m.set k v)
  delete m k := (0, m.erase k)
  lookup m k := (0, m k)
  absentCode := 22

theorem SplinterDB.reliable_lawful (κ ν : Type) [DecidableEq κ] :
    (SplinterDB.reliable κ ν).Lawful := by
  constructor <;> simp [SplinterDB.reliable]

end ReplicatedSplinterDB
