import Mathlib.Data.List.Basic
import Mathlib.Tactic.Ring

/-!
# Fixed-width byte formats

A fixed-width format writes every value of a type on the same number of bytes
and reads it back.  Decoders of larger messages only use the three laws of
{lit}`WordFormat`; which byte comes first is left to the instance.

Main results:

- Structure {lit}`WordFormat`: an encoding and a decoding of one fixed width
  that are inverse in both directions.
- Definitions {lit}`littleEndian8`, {lit}`littleEndian64` and
  {lit}`littleEndianInt32`: the little-endian formats of the machine integers.
-/

namespace Foundation

/-- A byte string. -/
abbrev Bytes := List UInt8

/-- A format of constant width whose encoder and decoder are mutually inverse. -/
structure WordFormat (α : Type) (width : Nat) where
  encode : α → Bytes
  decode : Bytes → α
  encode_length : ∀ a, (encode a).length = width
  decode_encode : ∀ a, decode (encode a) = a
  encode_decode : ∀ bytes, bytes.length = width → encode (decode bytes) = bytes

attribute [simp] WordFormat.encode_length WordFormat.decode_encode

/-! ## Little-endian digits -/

/-- The lowest {lit}`width` base-256 digits of a number, low digit first. -/
def leBytes : Nat → Nat → Bytes
  | 0, _ => []
  | width + 1, n => UInt8.ofNat (n % 256) :: leBytes width (n / 256)

/-- The number whose base-256 digits are the given bytes, low digit first. -/
def leNat : Bytes → Nat
  | [] => 0
  | b :: bytes => b.toNat + 256 * leNat bytes

@[simp] theorem leBytes_length (width n : Nat) : (leBytes width n).length = width := by
  induction width generalizing n with
  | zero => rfl
  | succ width ih => simp [leBytes, ih]

theorem leNat_lt (bytes : Bytes) : leNat bytes < 256 ^ bytes.length := by
  induction bytes with
  | nil => simp [leNat]
  | cons b bytes ih =>
      have hb : b.toNat < 256 := b.toNat_lt
      simp only [leNat, List.length_cons, Nat.pow_succ]
      omega

/-- Reading back the digits of a number that fits recovers the number. -/
theorem leNat_leBytes {width n : Nat} (hn : n < 256 ^ width) :
    leNat (leBytes width n) = n := by
  induction width generalizing n with
  | zero =>
      simp only [Nat.pow_zero, Nat.lt_one_iff] at hn
      simp [leBytes, leNat, hn]
  | succ width ih =>
      have hdiv : n / 256 < 256 ^ width := by
        apply Nat.div_lt_of_lt_mul
        rw [Nat.pow_succ] at hn
        omega
      have hlow : (UInt8.ofNat (n % 256)).toNat = n % 256 := by
        simp
      simp only [leBytes, leNat, ih hdiv, hlow]
      omega

/-- Writing the number that a byte string denotes recovers the byte string. -/
theorem leBytes_leNat (bytes : Bytes) : leBytes bytes.length (leNat bytes) = bytes := by
  induction bytes with
  | nil => rfl
  | cons b bytes ih =>
      have hb : b.toNat < 256 := b.toNat_lt
      have hlow : (b.toNat + 256 * leNat bytes) % 256 = b.toNat := by omega
      have hhigh : (b.toNat + 256 * leNat bytes) / 256 = leNat bytes := by omega
      simp only [List.length_cons, leNat, leBytes, hlow, hhigh, ih]
      simp

/-! ## Machine integers -/

/-- One byte is its own format. -/
def littleEndian8 : WordFormat UInt8 1 where
  encode b := [b]
  decode bytes := bytes.headD 0
  encode_length _ := rfl
  decode_encode _ := rfl
  encode_decode := by
    intro bytes hlen
    match bytes, hlen with
    | [b], _ => rfl

/-- Unsigned 64-bit integers, low byte first. -/
def littleEndian64 : WordFormat UInt64 8 where
  encode n := leBytes 8 n.toNat
  decode bytes := UInt64.ofNat (leNat bytes)
  encode_length _ := leBytes_length _ _
  decode_encode := by
    intro n
    have hn : n.toNat < 256 ^ 8 := n.toNat_lt
    rw [leNat_leBytes hn]
    exact UInt64.ofNat_toNat
  encode_decode := by
    intro bytes hlen
    have hlt := leNat_lt bytes
    rw [hlen] at hlt
    rw [UInt64.toNat_ofNat_of_lt' hlt, ← hlen]
    exact leBytes_leNat bytes

/-- Signed 32-bit integers in two's complement, low byte first. -/
def littleEndianInt32 : WordFormat Int32 4 where
  encode n := leBytes 4 n.toUInt32.toNat
  decode bytes := (UInt32.ofNat (leNat bytes)).toInt32
  encode_length _ := leBytes_length _ _
  decode_encode := by
    intro n
    have hn : n.toUInt32.toNat < 256 ^ 4 := n.toUInt32.toNat_lt
    rw [leNat_leBytes hn, UInt32.ofNat_toNat]
    rfl
  encode_decode := by
    intro bytes hlen
    have hlt := leNat_lt bytes
    rw [hlen] at hlt
    rw [UInt32.toUInt32_toInt32, UInt32.toNat_ofNat_of_lt' hlt, ← hlen]
    exact leBytes_leNat bytes

end Foundation
