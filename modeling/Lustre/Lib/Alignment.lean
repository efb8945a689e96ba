/-
Module: Lustre.Lib.Alignment
Purpose: Rounding a word to a multiple of a power of two with bit masks, and finding the largest
  power of two that divides it.
Trusted boundary: none
Main exports: dvd_or, dvd_succ_of_and_eq_zero, roundUp_bounds, roundDown_bounds
-/
import Mathlib.Data.Nat.Bitwise

namespace Alignment

theorem or_low (x k : Nat) : x ||| (2 ^ k - 1) = 2 ^ k * (x / 2 ^ k) + (2 ^ k - 1) := by
  have small : 2 ^ k - 1 < 2 ^ k := Nat.sub_lt (Nat.two_pow_pos k) Nat.one_pos
  refine Nat.eq_of_testBit_eq fun i => ?_
  rw [Nat.testBit_or, Nat.testBit_two_pow_mul_add _ small, Nat.testBit_two_pow_sub_one,
    Nat.testBit_div_two_pow]
  by_cases below : i < k
  · simp [below]
  · simp [below, Nat.sub_add_cancel (not_lt.mp below)]

variable {k x : Nat}

/-- Clearing the low bits of a word of `w` bits. -/
theorem and_high {w : Nat} (fits : k ≤ w) (word : x < 2 ^ w) :
    x &&& (2 ^ w - 1 - (2 ^ k - 1)) = 2 ^ k * (x / 2 ^ k) := by
  have mask : 2 ^ w - 1 - (2 ^ k - 1) = 2 ^ k * (2 ^ (w - k) - 1) := by
    have whole : 2 ^ w = 2 ^ k * 2 ^ (w - k) := by rw [← Nat.pow_add, Nat.add_sub_cancel' fits]
    rw [Nat.mul_sub, mul_one, ← whole]
    have := Nat.two_pow_pos k
    omega
  refine Nat.eq_of_testBit_eq fun i => ?_
  rw [mask, Nat.testBit_and, Nat.testBit_two_pow_mul, Nat.testBit_two_pow_mul,
    Nat.testBit_two_pow_sub_one, Nat.testBit_div_two_pow]
  by_cases below : i < k
  · simp [not_le.mpr below]
  · have above : k ≤ i := not_lt.mp below
    by_cases inWord : i < w
    · have : i - k < w - k := by omega
      simp [above, this, Nat.sub_add_cancel above]
    · grind [Nat.testBit_lt_two_pow, Nat.lt_of_lt_of_le, Nat.pow_le_pow_right, Nat.sub_add_cancel]

theorem dvd_or {y : Nat} : 2 ^ k ∣ x ||| y ↔ 2 ^ k ∣ x ∧ 2 ^ k ∣ y := by
  simp only [Nat.dvd_iff_mod_eq_zero, Nat.or_mod_two_pow, Nat.or_eq_zero_iff]

/-- A multiple of `2 ^ k` whose bit `k` is clear is a multiple of `2 ^ (k + 1)`. -/
theorem dvd_succ_of_and_eq_zero (dvd : 2 ^ k ∣ x) (zero : x &&& 2 ^ k = 0) : 2 ^ (k + 1) ∣ x := by
  obtain ⟨q, rfl⟩ := dvd
  have clear : (2 ^ k * q).testBit k = false := by simp_all [Nat.and_two_pow]
  rw [Nat.testBit_eq_decide_div_mod_eq, Nat.mul_div_cancel_left _ (Nat.two_pow_pos k)] at clear
  have even : q % 2 = 0 := by
    have : ¬ q % 2 = 1 := by simpa using clear
    omega
  exact Nat.mul_dvd_mul_left _ (Nat.dvd_of_mod_eq_zero even)

/-- Rounding up stays below every multiple that is not below the word. -/
theorem roundUp_bounds {m : Nat} (positive : 0 < x) (dvd : 2 ^ k ∣ m) (le : x ≤ m) :
    x ≤ (x - 1 ||| (2 ^ k - 1)) + 1 ∧ (x - 1 ||| (2 ^ k - 1)) + 1 ≤ m := by
  obtain ⟨q, rfl⟩ := dvd
  have unit := Nat.two_pow_pos k
  have next : (x - 1 ||| (2 ^ k - 1)) + 1 = 2 ^ k * ((x - 1) / 2 ^ k + 1) := by
    rw [or_low, mul_add, mul_one]
    omega
  rw [next]
  constructor
  · have := Nat.lt_mul_div_succ (x - 1) unit
    omega
  · refine Nat.mul_le_mul_left _ ?_
    exact Nat.div_lt_of_lt_mul (by omega)

/-- Rounding down stays above every multiple that is not above the word. -/
theorem roundDown_bounds {w m : Nat} (fits : k ≤ w) (word : x < 2 ^ w) (dvd : 2 ^ k ∣ m)
    (le : m ≤ x) : m ≤ x &&& (2 ^ w - 1 - (2 ^ k - 1)) ∧ x &&& (2 ^ w - 1 - (2 ^ k - 1)) ≤ x := by
  obtain ⟨q, rfl⟩ := dvd
  rw [and_high fits word]
  refine ⟨Nat.mul_le_mul_left _ ?_, Nat.mul_div_le x (2 ^ k)⟩
  exact (Nat.le_div_iff_mul_le (Nat.two_pow_pos k)).mpr (by rwa [mul_comm])

end Alignment
