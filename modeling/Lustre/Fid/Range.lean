/-
Module: Lustre.Fid.Range
Purpose: Ranges of sequence numbers with the location they belong to.
Trusted boundary: none
-/
import Mathlib.Algebra.Order.Ring.Int
import Mathlib.Data.Set.Lattice
import Mathlib.Order.CompletePartialOrder

namespace Fid

/-- `struct lu_seq_range`; `stop` is `lsr_end`, the first number behind the range. -/
structure LuSeqRange where
  start : Nat
  stop : Nat
  index : Nat
  flags : Nat
deriving DecidableEq, Repr

/-- `range_space`, a 64-bit difference. -/
def rangeSpace (range : LuSeqRange) : Nat := (range.stop + (2 ^ 64 - range.start)) % 2 ^ 64

/-- `range_within`. -/
abbrev rangeWithin (range : LuSeqRange) (s : Nat) : Prop := range.start ≤ s ∧ s < range.stop

/-- `range_is_sane`. -/
abbrev rangeIsSane (range : LuSeqRange) : Prop := range.start ≤ range.stop

/-- `range_is_zero`. -/
abbrev rangeIsZero (range : LuSeqRange) : Prop := range.start = 0 ∧ range.stop = 0

/-- `range_is_exhausted`. -/
abbrev rangeIsExhausted (range : LuSeqRange) : Prop := rangeSpace range = 0

/-- `range_compare_loc` is zero. -/
abbrev rangeSameLoc (r1 r2 : LuSeqRange) : Prop := r1.index = r2.index ∧ r1.flags = r2.flags

/-- The sequence numbers of a range. -/
def LuSeqRange.numbers (range : LuSeqRange) : Set Nat := Set.Ico range.start range.stop

/-- A range of 64-bit numbers as the code keeps them. -/
structure Wellformed (range : LuSeqRange) : Prop where
  sane : rangeIsSane range
  word : range.stop < 2 ^ 64

theorem Wellformed.space {range : LuSeqRange} (wf : Wellformed range) :
    rangeSpace range = range.stop - range.start := by
  have sane := wf.sane
  have word := wf.word
  unfold rangeSpace
  omega

end Fid
