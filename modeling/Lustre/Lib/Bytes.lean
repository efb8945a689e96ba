/-
Module: Lustre.Lib.Bytes
Purpose: Little-endian fields of a byte string, their byte order, and what words of 32 and 64 bits
  keep of an integer.
Trusted boundary: none
Main exports: le, toLe, field, writeAt, field_writeAt, swab, int32, roundUp8, u64, s64
-/
import Mathlib.Algebra.Order.Ring.Int
import Mathlib.Data.List.Basic

namespace Bytes

open List

/-- The little-endian value of a list of bytes. -/
def le : List UInt8 → Nat
  | [] => 0
  | b :: bs => b.toNat + 256 * le bs

/-- The little-endian number in `len` bytes at an offset. -/
def field (buf : List UInt8) (off len : Nat) : Nat := le ((buf.drop off).take len)

/-- The value of a number converted to a signed 32-bit integer. -/
def int32 (n : Int) : Int := Int.bmod n (2 ^ 32)

theorem int32_of_lt {n : Int} (nonneg : 0 ≤ n) (small : n < 2 ^ 31) : int32 n = n := by
  unfold int32 Int.bmod
  dsimp only
  split <;> omega

theorem int32_of_ge {n : Int} (large : 2 ^ 31 ≤ n) (word : n < 2 ^ 32) : int32 n < 0 := by
  unfold int32 Int.bmod
  dsimp only
  split <;> omega

/-- The residue decides the value. -/
theorem int32_eq (n : Int) :
    int32 n = if n % 2 ^ 32 < 2 ^ 31 then n % 2 ^ 32 else n % 2 ^ 32 - 2 ^ 32 := by
  unfold int32 Int.bmod
  dsimp only
  split <;> split <;> omega

theorem int32_emod (n : Int) : int32 n % 2 ^ 32 = n % 2 ^ 32 := Int.bmod_emod

theorem int32_congr {a b : Int} (same : a % 2 ^ 32 = b % 2 ^ 32) : int32 a = int32 b := by
  simp_all [int32, Int.bmod]

/-- Sums may be converted before or after. -/
theorem int32_add (a b : Int) : int32 (int32 a + b) = int32 (a + b) := Int.bmod_add_bmod ..

theorem int32_range (n : Int) : -2 ^ 31 ≤ int32 n ∧ int32 n < 2 ^ 31 := by
  unfold int32 Int.bmod
  dsimp only
  split <;> omega

/-- The next multiple of eight. -/
def roundUp8 (n : Nat) : Nat := (n + 7) / 8 * 8

theorem le_roundUp8 (n : Nat) : n ≤ roundUp8 n := by
  unfold roundUp8
  omega

theorem roundUp8_lt (n : Nat) : roundUp8 n < n + 8 := by
  unfold roundUp8
  omega

theorem roundUp8_mod (n : Nat) : roundUp8 n % 8 = 0 := Nat.mul_mod_left _ _

variable {n : Nat}

theorem roundUp8_mono {m : Nat} (le : m ≤ n) : roundUp8 m ≤ roundUp8 n := by
  unfold roundUp8
  omega

/-- Rounding a converted number in two's complement. -/
theorem int32_round (n : Nat) :
    int32 (int32 n + 7) - int32 (int32 n + 7) % 8 = int32 (roundUp8 n) := by
  unfold int32 Int.bmod roundUp8
  dsimp only
  split <;> split <;> omega

/-! ### Writing -/

/-- The bytes of a number, the lowest one first. -/
def toLe : Nat → Nat → List UInt8
  | _, 0 => []
  | n, len + 1 => UInt8.ofNat n :: toLe (n / 256) len

@[simp] theorem length_toLe (n len : Nat) : (toLe n len).length = len := by
  induction len generalizing n with
  | zero => rfl
  | succ len ih => rw [toLe, length_cons, ih]

variable {len : Nat}

theorem le_toLe (small : n < 256 ^ len) : le (toLe n len) = n := by
  induction len generalizing n with
  | zero =>
    rw [pow_zero, Nat.lt_one_iff] at small
    rw [small]
    rfl
  | succ len ih =>
    have rest := ih (show n / 256 < 256 ^ len by
      omega)
    have byte : (UInt8.ofNat n).toNat = n % 256 := UInt8.toNat_ofNat'
    rw [toLe, le, rest, byte]
    omega

theorem toLe_le (bs : List UInt8) : toLe (le bs) bs.length = bs := by
  induction bs with
  | nil => rfl
  | cons b bs ih =>
    have byte : b.toNat < 256 := b.toNat_lt
    have low : UInt8.ofNat (b.toNat + 256 * le bs) = b := by
      apply UInt8.toNat_inj.mp
      rw [UInt8.toNat_ofNat']
      omega
    have high : (b.toNat + 256 * le bs) / 256 = le bs := by omega
    rw [le, length_cons, toLe, low, high, ih]

/-- Bytes written over a byte string at an offset. -/
def writeAt (buf : List UInt8) (off : Nat) (bytes : List UInt8) : List UInt8 :=
  buf.take off ++ bytes ++ buf.drop (off + bytes.length)

variable {buf bytes : List UInt8} {off : Nat}

theorem length_writeAt (inside : off + bytes.length ≤ buf.length) :
    (writeAt buf off bytes).length = buf.length := by
  grind [writeAt]

theorem field_writeAt (inside : off ≤ buf.length) :
    field (writeAt buf off bytes) off bytes.length = le bytes := by
  unfold field writeAt
  rw [append_assoc, drop_left' (by rw [length_take]; omega), take_left]

section

variable {other : Nat} (inside : off + bytes.length ≤ buf.length)
  (apart : other + len ≤ off ∨ off + bytes.length ≤ other)

include inside apart

/-- Bytes apart from the written ones stay. -/
theorem take_writeAt_of_disjoint :
    ((writeAt buf off bytes).drop other).take len = (buf.drop other).take len := by
  unfold writeAt
  apply ext_getElem?
  simp only [getElem?_take, getElem?_drop, getElem?_append, length_append, length_take]
  grind

theorem field_writeAt_of_disjoint : field (writeAt buf off bytes) other len = field buf other len :=
  congrArg le (take_writeAt_of_disjoint inside apart)

end

theorem take_writeAt_inside (start : off ≤ buf.length) {i : Nat} (inside : i + len ≤ bytes.length) :
    ((writeAt buf off bytes).drop (off + i)).take len = (bytes.drop i).take len := by
  have front : (buf.take off).length = off := by
    rw [length_take]
    omega
  unfold writeAt
  rw [append_assoc, ← drop_drop, drop_left' front,
    drop_append_of_le_length (by omega), take_append_of_le_length]
  rw [length_drop]
  omega

/-- A field with its bytes in the other order. -/
def swab (buf : List UInt8) (off len : Nat) : List UInt8 :=
  writeAt buf off ((buf.drop off).take len).reverse

end Bytes

namespace Words

/-- The value of an unsigned 64-bit word that an integer is assigned to. -/
def u64 (n : Int) : Nat := (n % 2 ^ 64).toNat

/-- The value of a signed 64-bit word that an integer is assigned to. -/
def s64 (n : Int) : Int := Int.bmod n (2 ^ 64)

theorem u64_lt (n : Int) : u64 n < 2 ^ 64 := by
  unfold u64
  omega

variable {n : Int}

theorem u64_of_range (nonneg : 0 ≤ n) (small : n < 2 ^ 64) : (u64 n : Int) = n := by
  unfold u64
  omega

theorem u64_toNat (nonneg : 0 ≤ n) (small : n < 2 ^ 64) : u64 n = n.toNat := by
  unfold u64
  omega

theorem u64_natCast {n : Nat} (small : n < 2 ^ 64) : u64 n = n := by
  unfold u64
  omega

theorem u64_emod (n : Int) : (u64 n : Int) % 2 ^ 64 = n % 2 ^ 64 := by
  unfold u64
  omega

theorem s64_eq (n : Int) :
    s64 n = if n % 2 ^ 64 < 2 ^ 63 then n % 2 ^ 64 else n % 2 ^ 64 - 2 ^ 64 := by
  simp [s64, Int.bmod]

theorem s64_of_range (low : -2 ^ 63 ≤ n) (high : n < 2 ^ 63) : s64 n = n := by
  rw [s64_eq]
  split <;> omega

theorem s64_range (n : Int) : -2 ^ 63 ≤ s64 n ∧ s64 n < 2 ^ 63 := by
  rw [s64_eq]
  split <;> omega

theorem s64_emod (n : Int) : s64 n % 2 ^ 64 = n % 2 ^ 64 := by
  rw [s64_eq]
  split <;> omega

theorem u64_congr {a b : Int} (same : a % 2 ^ 64 = b % 2 ^ 64) : u64 a = u64 b := by
  unfold u64
  rw [same]

end Words
