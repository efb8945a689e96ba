/-
Module: Lustre.Lib.Handout
Purpose: Giving out pieces of a set so that no element is given twice.
Trusted boundary: none
Main exports: Fresh, Fresh.shrink, Fresh.give
-/
import Mathlib.Data.Set.Lattice
import Mathlib.Order.CompletePartialOrder

namespace Handout

variable {α : Type}

/-- The pieces given out are disjoint from each other and from the reserve. -/
structure Fresh (given : List (Set α)) (reserve : Set α) : Prop where
  pairwise : given.Pairwise Disjoint
  apart : ∀ piece ∈ given, Disjoint piece reserve

theorem Fresh.nil (reserve : Set α) : Fresh [] reserve :=
  ⟨.nil, fun _ mem => nomatch mem⟩

/-- A part of the reserve may be dropped. -/
theorem Fresh.shrink {given : List (Set α)} {reserve smaller : Set α} (fresh : Fresh given reserve)
    (sub : smaller ⊆ reserve) : Fresh given smaller :=
  ⟨fresh.pairwise, fun piece mem => (fresh.apart piece mem).mono_right sub⟩

/-- A part of the reserve may be given out when it leaves the reserve. -/
theorem Fresh.give {given : List (Set α)} {reserve rest piece : Set α} (fresh : Fresh given reserve)
    (inside : piece ⊆ reserve) (sub : rest ⊆ reserve) (leaves : Disjoint piece rest) :
    Fresh (piece :: given) rest := by
  grind [List.Pairwise.cons, cases Fresh, intro Fresh]

end Handout
