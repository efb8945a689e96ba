/-
Module: Lustre.Lib.Accounts
Purpose: Sums over numbered items, which change with one item.
Trusted boundary: none
Main exports: total, total_update, total_update_outside, le_total
-/
import Mathlib.Algebra.Order.BigOperators.Group.Finset
import Mathlib.Algebra.Order.Ring.Int

namespace Accounts

open Function

variable {α : Type}

/-- The sum of the weights of the first `n` items. -/
def total (weight : α → Int) (items : Nat → α) (n : Nat) : Int :=
  ∑ i ∈ Finset.range n, weight (items i)

variable {n i : Nat}

/-- One item changes. -/
theorem total_update (weight : α → Int) (items : Nat → α) (inside : i < n) (a : α) :
    total weight (update items i a) n =
      total weight items n - weight (items i) + weight a := by
  have split (f : Nat → α) : total weight f n =
      weight (f i) + ∑ j ∈ (Finset.range n).erase i, weight (f j) :=
    (Finset.add_sum_erase _ _ (Finset.mem_range.mpr inside)).symm
  have others : ∑ j ∈ (Finset.range n).erase i, weight (update items i a j) =
      ∑ j ∈ (Finset.range n).erase i, weight (items j) := by
    refine Finset.sum_congr rfl fun j mem => ?_
    rw [update_of_ne (Finset.ne_of_mem_erase mem)]
  rw [split, split items, others, update_self]
  omega

/-- An item that is not counted changes. -/
theorem total_update_outside (weight : α → Int) (items : Nat → α) (outside : n ≤ i) (a : α) :
    total weight (update items i a) n = total weight items n := by
  refine Finset.sum_congr rfl fun j mem => ?_
  have below := Finset.mem_range.mp mem
  rw [update_of_ne (by omega)]

/-- The weight of one item is part of a sum of non-negative weights. -/
theorem le_total (weight : α → Int) {items : Nat → α} (nonneg : ∀ i, 0 ≤ weight (items i))
    (inside : i < n) : weight (items i) ≤ total weight items n :=
  Finset.single_le_sum (f := fun j => weight (items j)) (fun j _ => nonneg j)
    (Finset.mem_range.mpr inside)

end Accounts
