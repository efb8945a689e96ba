/-
Module: Lustre.Lov.Striping
Purpose: The map between the bytes of a file and the bytes of its objects, and between their sizes,
  in 64-bit words.
Trusted boundary: none
-/
import Mathlib.Data.Nat.Nth
import Lustre.Lib.Bytes

namespace Lov

open Nat

/-- The value of an `obd_off`. -/
def obdOff (n : Nat) : Nat := n % 2 ^ 64

/-- `OBD_OBJECT_EOF`. -/
def obdObjectEof : Nat := 2 ^ 64 - 1

/-- The fields of a `lov_stripe_md` that place the bytes of a file.  The count is a positive `int`, and
no stripe size of zero is stored. -/
structure Layout where
  stripeSize : Nat
  stripeCount : Nat
  size_pos : 0 < stripeSize
  size_word : stripeSize < 2 ^ 32
  count_pos : 0 < stripeCount
  count_int : stripeCount < 2 ^ 31

/-- The width that `lsm_stripe_by_index_plain` and `lsm_stripe_by_offset_plain` store. -/
def swidth (lsm : Layout) : Nat := obdOff (lsm.stripeSize * lsm.stripeCount)

/-- `lov_stripe_offset`: the side on which the offset was clamped and `*obdoff`. -/
def lovStripeOffset (lsm : Layout) (lovOff stripeno : Nat) : Int × Nat :=
  if lovOff = obdObjectEof then (0, obdObjectEof)
  else
    let stripeOff := lovOff % swidth lsm
    let lovOff := lovOff / swidth lsm
    let thisStripe := obdOff (stripeno * lsm.stripeSize)
    if stripeOff < thisStripe then
      (-1, obdOff (lovOff * lsm.stripeSize + 0))
    else if stripeOff - thisStripe ≥ lsm.stripeSize then
      (1, obdOff (lovOff * lsm.stripeSize + lsm.stripeSize))
    else
      (0, obdOff (lovOff * lsm.stripeSize + (stripeOff - thisStripe)))

/-- `lov_stripe_intersects`: the result, `*obd_start` and `*obd_end`. -/
def lovStripeIntersects (lsm : Layout) (stripeno start stop : Nat) : Bool × Nat × Nat :=
  let (startSide, obdStart) := lovStripeOffset lsm start stripeno
  let (endSide, obdEnd) := lovStripeOffset lsm stop stripeno
  if startSide ≠ 0 ∧ endSide ≠ 0 ∧ obdStart = obdEnd then
    (false, obdStart, obdEnd)
  else if endSide ≠ 0 then
    (true, obdStart, obdOff (obdEnd + (2 ^ 64 - 1)))
  else
    (true, obdStart, obdEnd)

/-- `lov_stripe_number`. -/
def lovStripeNumber (lsm : Layout) (lovOff : Nat) : Nat :=
  lovOff % swidth lsm / lsm.stripeSize

/-- `lov_size_to_stripe`. -/
def lovSizeToStripe (lsm : Layout) (fileSize stripeno : Nat) : Nat :=
  if fileSize = obdObjectEof then obdObjectEof
  else
    let stripeOff := fileSize % swidth lsm
    let fileSize := fileSize / swidth lsm
    let thisStripe := obdOff (stripeno * lsm.stripeSize)
    if stripeOff < thisStripe then
      if fileSize > 0 then obdOff ((fileSize - 1) * lsm.stripeSize + lsm.stripeSize)
      else obdOff (fileSize * lsm.stripeSize + 0)
    else if stripeOff - thisStripe ≥ lsm.stripeSize then
      obdOff (fileSize * lsm.stripeSize + lsm.stripeSize)
    else
      obdOff (fileSize * lsm.stripeSize + (stripeOff - thisStripe))

/-! ### What the arithmetic computes -/

/-- The place of a byte of the file in the object of its stripe. -/
def objectOffset (lsm : Layout) (b : Nat) : Nat :=
  b / (lsm.stripeCount * lsm.stripeSize) * lsm.stripeSize + b % lsm.stripeSize

/-- The number of bytes of a stripe before an offset. -/
def bytesBefore (lsm : Layout) (stripeno off : Nat) : Nat :=
  off / swidth lsm * lsm.stripeSize + min (off % swidth lsm - stripeno * lsm.stripeSize) lsm.stripeSize

theorem obdOff_of_lt {n : Nat} (small : n < 2 ^ 64) : obdOff n = n := mod_eq_of_lt small

variable {lsm : Layout} {i : Nat}

theorem swidth_eq (lsm : Layout) : swidth lsm = lsm.stripeCount * lsm.stripeSize := by
  have bound : lsm.stripeSize * lsm.stripeCount < 2 ^ 64 :=
    calc lsm.stripeSize * lsm.stripeCount < 2 ^ 32 * 2 ^ 31 :=
          mul_lt_mul'' lsm.size_word lsm.count_int
      _ ≤ 2 ^ 64 := by decide
  rw [swidth, obdOff_of_lt bound, mul_comm]

theorem swidth_pos (lsm : Layout) : 0 < swidth lsm := by
  rw [swidth_eq]
  exact Nat.mul_pos lsm.count_pos lsm.size_pos

/-- A stripe ends within the width of all stripes. -/
theorem stripe_end_le (inRange : i < lsm.stripeCount) :
    i * lsm.stripeSize + lsm.stripeSize ≤ swidth lsm := by
  rw [swidth_eq, ← succ_mul]
  exact mul_le_mul_right _ inRange

theorem stripeNumber_lt (lsm : Layout) (b : Nat) : lovStripeNumber lsm b < lsm.stripeCount := by
  rw [lovStripeNumber, div_lt_iff_lt_mul lsm.size_pos, ← swidth_eq]
  exact mod_lt _ (swidth_pos lsm)

/-- A byte lies in a stripe when its place in the width does. -/
theorem stripeNumber_eq_iff {b : Nat} : lovStripeNumber lsm b = i ↔
    i * lsm.stripeSize ≤ b % swidth lsm ∧ b % swidth lsm < i * lsm.stripeSize + lsm.stripeSize := by
  rw [lovStripeNumber, Nat.div_eq_iff lsm.size_pos]
  have := lsm.size_pos
  omega

section

variable (inRange : i < lsm.stripeCount)

include inRange

theorem bytesBefore_le (off : Nat) : bytesBefore lsm i off ≤ off := by
  have whole := div_add_mod off (swidth lsm)
  have fits : lsm.stripeSize ≤ swidth lsm :=
    le_trans (le_add_left _ _) (stripe_end_le inRange)
  have rounds : off / swidth lsm * lsm.stripeSize ≤ swidth lsm * (off / swidth lsm) := by
    rw [mul_comm]
    exact mul_le_mul_right _ fits
  unfold bytesBefore
  omega

/-- `lov_stripe_offset` stores the stripe bytes before the offset, and reports no clamping exactly at
bytes of the stripe. -/
theorem lovStripeOffset_spec {off : Nat} (below : off < obdObjectEof) :
    (lovStripeOffset lsm off i).2 = bytesBefore lsm i off ∧
      ((lovStripeOffset lsm off i).1 = 0 ↔ lovStripeNumber lsm off = i) := by
  have small : off < 2 ^ 64 := below.trans_le (sub_le _ _)
  have le := bytesBefore_le inRange off
  have place := stripe_end_le inRange
  have width : swidth lsm < 2 ^ 64 := mod_lt _ (by decide)
  have thisStripe : obdOff (i * lsm.stripeSize) = i * lsm.stripeSize :=
    obdOff_of_lt (by omega)
  rw [stripeNumber_eq_iff]
  unfold lovStripeOffset
  rw [if_neg below.ne]
  simp only [thisStripe]
  unfold bytesBefore at le ⊢
  split
  · have clamped : min (off % swidth lsm - i * lsm.stripeSize) lsm.stripeSize = 0 := by omega
    rw [clamped] at le ⊢
    exact ⟨obdOff_of_lt (by omega), by simp; omega⟩
  · split
    · rename_i past
      have clamped : min (off % swidth lsm - i * lsm.stripeSize) lsm.stripeSize = lsm.stripeSize :=
        min_eq_right past
      rw [clamped] at le ⊢
      exact ⟨obdOff_of_lt (by omega), by simp; omega⟩
    · have exact_ : min (off % swidth lsm - i * lsm.stripeSize) lsm.stripeSize =
          off % swidth lsm - i * lsm.stripeSize := by omega
      rw [exact_] at le ⊢
      exact ⟨obdOff_of_lt (by omega), by simp; omega⟩

/-- One more byte of the file is one more byte of exactly its own stripe. -/
theorem bytesBefore_succ (off : Nat) : bytesBefore lsm i (off + 1) =
      bytesBefore lsm i off + if lovStripeNumber lsm off = i then 1 else 0 := by
  have place := stripe_end_le inRange
  have inWidth := Nat.mod_lt off (swidth_pos lsm)
  simp only [bytesBefore, stripeNumber_eq_iff]
  have whole := Nat.mod_add_div off (swidth lsm)
  -- The next offset either stays in this width of stripes or opens the next one.
  by_cases last : off % swidth lsm + 1 = swidth lsm
  · obtain ⟨div, mod⟩ : (off + 1) / swidth lsm = off / swidth lsm + 1 ∧ (off + 1) % swidth lsm = 0 :=
      (Nat.div_mod_unique (swidth_pos lsm)).mpr ⟨by rw [mul_add]; omega, swidth_pos lsm⟩
    rw [div, mod, Nat.succ_mul]
    split <;> omega
  · obtain ⟨div, mod⟩ : (off + 1) / swidth lsm = off / swidth lsm ∧
        (off + 1) % swidth lsm = off % swidth lsm + 1 :=
      (Nat.div_mod_unique (swidth_pos lsm)).mpr ⟨by omega, by omega⟩
    rw [div, mod]
    split <;> omega

/-- The clamped offset counts the bytes of the stripe. -/
theorem bytesBefore_eq_count (off : Nat) :
    bytesBefore lsm i off = Nat.count (fun b => lovStripeNumber lsm b = i) off := by
  induction off with
  | zero => simp [bytesBefore]
  | succ off ih => rw [bytesBefore_succ inRange, count_succ, ih]

end

/-- The object offset of a byte is the number of bytes of its stripe before it. -/
theorem objectOffset_eq {b : Nat} (inStripe : lovStripeNumber lsm b = i) :
    objectOffset lsm b = bytesBefore lsm i b := by
  obtain ⟨low, high⟩ := stripeNumber_eq_iff.mp inStripe
  have dvd : lsm.stripeSize ∣ swidth lsm := by
    rw [swidth_eq]
    exact Nat.dvd_mul_left _ _
  have rest : b % lsm.stripeSize = b % swidth lsm - i * lsm.stripeSize := by
    have split : b % swidth lsm = lsm.stripeSize * i + (b % swidth lsm - i * lsm.stripeSize) := by
      rw [mul_comm]
      omega
    rw [← Nat.mod_mod_of_dvd b dvd, split, Nat.mul_add_mod, Nat.mod_eq_of_lt (by omega),
      mul_comm, Nat.add_sub_cancel_left]
  rw [objectOffset, bytesBefore, swidth_eq, ← swidth_eq, rest, min_eq_left (by omega)]

/-- `lov_size_to_stripe` counts too: clamping back to the previous stripe or ahead to the next gives the
same object size. -/
theorem lovSizeToStripe_eq_count (inRange : i < lsm.stripeCount) {size : Nat}
    (below : size < obdObjectEof) :
    lovSizeToStripe lsm size i = Nat.count (fun b => lovStripeNumber lsm b = i) size := by
  rw [← bytesBefore_eq_count inRange, ← (lovStripeOffset_spec inRange below).1]
  unfold lovSizeToStripe lovStripeOffset
  rw [if_neg below.ne, if_neg below.ne]
  dsimp only
  split
  · split
    · rename_i positive
      rw [← Nat.succ_mul, Nat.succ_eq_add_one, Nat.sub_add_cancel positive, add_zero]
    · rfl
  · split <;> rfl

/-! ### Exactness -/

/-- The bytes of the extent that lie in a stripe. -/
def StripeByte (lsm : Layout) (i start stop b : Nat) : Prop :=
  start ≤ b ∧ b ≤ stop ∧ lovStripeNumber lsm b = i

variable {start stop : Nat}

/-- The object offsets of the stripe bytes of an extent are the numbers between the counts
at its two ends. -/
theorem objectOffsets_eq (inRange : i < lsm.stripeCount) (o : Nat) :
    (∃ b, StripeByte lsm i start stop b ∧ objectOffset lsm b = o) ↔
      bytesBefore lsm i start ≤ o ∧ o < bytesBefore lsm i (stop + 1) := by
  simp only [bytesBefore_eq_count inRange]
  constructor
  · rintro ⟨b, ⟨low, high, inStripe⟩, rfl⟩
    rw [objectOffset_eq inStripe, bytesBefore_eq_count inRange]
    exact ⟨count_monotone _ low, count_strict_mono inStripe (lt_succ_of_le high)⟩
  · rintro ⟨low, high⟩
    -- The byte with `o` stripe bytes before it.
    have exists_ : ∀ finite : (Set.ofPred fun b => lovStripeNumber lsm b = i).Finite,
        o < finite.toFinset.card := fun finite =>
      high.trans_le (count_le_card finite _)
    have inStripe := nth_mem o exists_
    have count := count_nth exists_
    refine ⟨nth (fun b => lovStripeNumber lsm b = i) o, ⟨?_, ?_, inStripe⟩, ?_⟩
    · by_contra before
      have earlier := count_strict_mono (p := fun b => lovStripeNumber lsm b = i) inStripe
        (lt_of_not_ge before)
      omega
    · exact le_of_lt_succ (nth_lt_of_lt_count high)
    · rw [objectOffset_eq inStripe, bytesBefore_eq_count inRange, count]

/-- What `lov_stripe_intersects` returns, in terms of the counts at the ends. -/
theorem lovStripeIntersects_spec (inRange : i < lsm.stripeCount) (ordered : start ≤ stop)
    (below : stop < obdObjectEof) : (lovStripeIntersects lsm i start stop).1 =
        decide (bytesBefore lsm i start < bytesBefore lsm i (stop + 1)) ∧
      ((lovStripeIntersects lsm i start stop).1 = true →
        (lovStripeIntersects lsm i start stop).2.1 = bytesBefore lsm i start ∧
        (lovStripeIntersects lsm i start stop).2.2 + 1 = bytesBefore lsm i (stop + 1)) := by
  obtain ⟨startOff, startSide⟩ := lovStripeOffset_spec inRange (ordered.trans_lt below)
  obtain ⟨stopOff, stopSide⟩ := lovStripeOffset_spec inRange below
  have next := bytesBefore_succ inRange stop
  have bound := bytesBefore_le inRange stop
  have eof : obdObjectEof = 2 ^ 64 - 1 := rfl
  have startNext := bytesBefore_succ inRange start
  have startBelow : start < stop → bytesBefore lsm i (start + 1) ≤ bytesBefore lsm i stop := by
    intro before
    simp only [bytesBefore_eq_count inRange]
    exact count_monotone _ before
  unfold lovStripeIntersects
  dsimp only
  rw [startOff, stopOff]
  by_cases stopIn : lovStripeNumber lsm stop = i
  · grind
  · have side : (lovStripeOffset lsm stop i).1 ≠ 0 := fun h => stopIn (stopSide.mp h)
    rw [if_neg stopIn, add_zero] at next
    by_cases missed : (lovStripeOffset lsm start i).1 ≠ 0 ∧ (lovStripeOffset lsm stop i).1 ≠ 0 ∧
        bytesBefore lsm i start = bytesBefore lsm i stop
    · rw [if_pos missed, next, missed.2.2]
      simp
    · have less : bytesBefore lsm i start < bytesBefore lsm i stop := by grind
      have word : obdOff (bytesBefore lsm i stop + (2 ^ 64 - 1)) = bytesBefore lsm i stop - 1 := by
        unfold obdOff
        omega
      rw [if_neg missed, if_pos side, next, word]
      exact ⟨(decide_eq_true less).symm, fun _ => ⟨rfl, by dsimp only; omega⟩⟩

/-- A byte is determined by its stripe and its object offset. -/
theorem placement_injective (lsm : Layout) :
    Function.Injective fun b => (lovStripeNumber lsm b, objectOffset lsm b) := by
  intro b b' same
  obtain ⟨stripe, place⟩ := Prod.mk.inj same
  have inRange := stripeNumber_lt lsm b
  rw [objectOffset_eq rfl, objectOffset_eq stripe.symm, bytesBefore_eq_count inRange,
    bytesBefore_eq_count inRange] at place
  exact count_injective (p := fun x => lovStripeNumber lsm x = lovStripeNumber lsm b)
    rfl stripe.symm place

/-- The object bytes that `lov_stripe_intersects` reports for an extent of the file. -/
def StripeExtents (lsm : Layout) (start stop : Nat) : Set (Nat × Nat) :=
  {p | p.1 < lsm.stripeCount ∧ (lovStripeIntersects lsm p.1 start stop).1 = true ∧
    (lovStripeIntersects lsm p.1 start stop).2.1 ≤ p.2 ∧
    p.2 ≤ (lovStripeIntersects lsm p.1 start stop).2.2}

/-- The reported extent of a stripe is the set of object offsets of its bytes. -/
theorem mem_stripeExtents (ordered : start ≤ stop) (below : stop < obdObjectEof) {o : Nat} :
    (i, o) ∈ StripeExtents lsm start stop ↔
      i < lsm.stripeCount ∧ ∃ b, StripeByte lsm i start stop b ∧ objectOffset lsm b = o := by
  refine and_congr_right fun inRange => ?_
  obtain ⟨hit, ends⟩ := lovStripeIntersects_spec inRange ordered below
  rw [objectOffsets_eq inRange]
  constructor
  · rintro ⟨found, low, high⟩
    obtain ⟨first, last⟩ := ends found
    omega
  · grind

/-- The striping map is exact: a stripe is reported exactly when the extent has a byte in it, its object
extent is the set of the offsets of those bytes, and the extents of all stripes hold every byte once. -/
theorem striping_exact (lsm : Layout) (start stop : Nat) (ordered : start ≤ stop)
    (below : stop < 2 ^ 64 - 1) :
    (∀ i < lsm.stripeCount,
      ((lovStripeIntersects lsm i start stop).1 = true ↔
        ∃ b, start ≤ b ∧ b ≤ stop ∧ lovStripeNumber lsm b = i) ∧
      ((lovStripeIntersects lsm i start stop).1 = true → ∀ o,
        (lovStripeIntersects lsm i start stop).2.1 ≤ o ∧
            o ≤ (lovStripeIntersects lsm i start stop).2.2 ↔
          ∃ b, (start ≤ b ∧ b ≤ stop ∧ lovStripeNumber lsm b = i) ∧
            b / (lsm.stripeCount * lsm.stripeSize) * lsm.stripeSize + b % lsm.stripeSize = o)) ∧
    Set.BijOn (fun b => (lovStripeNumber lsm b, objectOffset lsm b)) (Set.Icc start stop)
      (StripeExtents lsm start stop) := by
  refine ⟨fun i inRange => ⟨?_, fun found o => ?_⟩, fun b inside => ?_, fun b _ b' _ same => ?_, ?_⟩
  · obtain ⟨hit, -⟩ := lovStripeIntersects_spec inRange ordered below
    rw [hit, decide_eq_true_iff]
    constructor
    · intro less
      obtain ⟨b, inStripe, -⟩ := (objectOffsets_eq inRange _).mpr ⟨le_rfl, less⟩
      exact ⟨b, inStripe⟩
    · rintro ⟨b, inStripe⟩
      obtain ⟨low, high⟩ := (objectOffsets_eq inRange _).mp ⟨b, inStripe, rfl⟩
      exact low.trans_lt high
  · have reported : (i, o) ∈ StripeExtents lsm start stop ↔ _ := mem_stripeExtents ordered below
    constructor
    · intro inside
      exact (reported.mp ⟨inRange, found, inside⟩).2
    · intro place
      exact (reported.mpr ⟨inRange, place⟩).2.2
  · exact (mem_stripeExtents ordered below).mpr
      ⟨stripeNumber_lt lsm b, b, ⟨inside.1, inside.2, rfl⟩, rfl⟩
  · exact placement_injective lsm same
  · rintro ⟨i, o⟩ mem
    obtain ⟨-, b, ⟨low, high, stripe⟩, place⟩ := (mem_stripeExtents ordered below).mp mem
    exact ⟨b, ⟨low, high⟩, Prod.ext stripe place⟩

/-- Three stripes of 64 KiB. -/
def threeStripes : Layout := ⟨65536, 3, by decide, by decide, by decide, by decide⟩

/-- Two stripes of 64 KiB. -/
def twoStripes : Layout := ⟨65536, 2, by decide, by decide, by decide, by decide⟩

/-- An extent from the middle of stripe 0 to the middle of stripe 0 two widths later. -/
theorem striping_exact_threeStripes :
    lovStripeIntersects threeStripes 1 100 400000 = (true, 0, 131071) ∧
      ((lovStripeIntersects threeStripes 1 100 400000).1 = true ↔
        ∃ b, 100 ≤ b ∧ b ≤ 400000 ∧ lovStripeNumber threeStripes b = 1) :=
  ⟨by decide, ((striping_exact threeStripes 100 400000 (by decide) (by decide)).1 1 (by decide)).1⟩

open Function List

/-! ### The functions -/

/-- The value of an `unsigned long` of `w` bits. -/
def unsignedLong (w n : Nat) : Nat := n % 2 ^ w

/-- `lov_stripe_size`, where an `unsigned long` has `w` bits. -/
def lovStripeSize (w : Nat) (lsm : Layout) (ostSize stripeno : Nat) : Nat :=
  if ostSize = 0 then 0
  else
    let stripeSize := ostSize % lsm.stripeSize
    let ostSize := ostSize / lsm.stripeSize
    if stripeSize ≠ 0 then
      obdOff (ostSize * swidth lsm + unsignedLong w (stripeno * lsm.stripeSize) + stripeSize)
    else
      obdOff ((ostSize - 1) * swidth lsm + unsignedLong w ((stripeno + 1) * lsm.stripeSize))

/-- `struct ost_lvb` -/
structure OstLvb where
  size : Nat
  mtime : Int
  atime : Int
  ctime : Int
  blocks : UInt64
deriving DecidableEq, Repr

/-- The sizes in `struct lov_oinfo`. -/
structure LoiSizes where
  kmsValid : Bool
  kms : Nat
  lvb : OstLvb
deriving DecidableEq, Repr

/-- `OST_LVB_IS_ERR` -/
def ostLvbIsErr (blocks : UInt64) : Bool := blocks &&& 0xffbadbad00000000 = 0xffbadbad00000000

/-- `OST_LVB_GET_ERR` -/
def ostLvbGetErr (blocks : UInt64) : Int := Bytes.int32 (blocks - 0xffbadbad80000000).toNat

/-- What `lov_merge_lvb_kms` returns and stores. -/
structure Merged where
  rc : Int
  kms : Nat
  lvb : OstLvb
deriving DecidableEq, Repr

/-- One object of `lov_merge_lvb_kms`. -/
def mergeObject (w : Nat) (lsm : Layout) (oinfo : Nat → LoiSizes) (m : Merged) (i : Nat) : Merged :=
  let loi := oinfo i
  if ostLvbIsErr loi.lvb.blocks then { m with rc := ostLvbGetErr loi.lvb.blocks }
  else
    { rc := m.rc
      kms := max m.kms (lovStripeSize w lsm loi.kms i)
      lvb :=
        { size := max m.lvb.size (lovStripeSize w lsm (max loi.kms loi.lvb.size) i)
          mtime := max m.lvb.mtime loi.lvb.mtime
          atime := max m.lvb.atime loi.lvb.atime
          ctime := max m.lvb.ctime loi.lvb.ctime
          blocks := m.lvb.blocks + loi.lvb.blocks } }

/-- `lov_merge_lvb_kms` -/
def lovMergeLvbKms (w : Nat) (lsm : Layout) (oinfo : Nat → LoiSizes) (lvb : OstLvb) : Merged :=
  (range lsm.stripeCount).foldl (mergeObject w lsm oinfo) ⟨0, 0, { lvb with size := 0, blocks := 0 }⟩

/-- `loi_kms_set` -/
def loiKmsSet (loi : LoiSizes) (kms : Nat) : LoiSizes := { loi with kms := kms, kmsValid := true }

/-- `lov_adjust_kms` -/
def lovAdjustKms (lsm : Layout) (oinfo : Nat → LoiSizes) (size : Nat) (shrink : Bool) :
    Nat → LoiSizes :=
  if shrink then
    fun stripe =>
      if stripe < lsm.stripeCount then
        let kms := lovSizeToStripe lsm size stripe
        let loi := oinfo stripe
        loiKmsSet { loi with lvb := { loi.lvb with size := kms } } kms
      else oinfo stripe
  else
    let stripe := if 0 < size then lovStripeNumber lsm (size - 1) else 0
    let kms := lovSizeToStripe lsm size stripe
    if (oinfo stripe).kms < kms then update oinfo stripe (loiKmsSet (oinfo stripe) kms)
    else oinfo

/-! ### The end of an object in the file -/

/-- The byte of the file that is byte `o` of the object of stripe `i`. -/
def fileByte (lsm : Layout) (i o : Nat) : Nat :=
  o / lsm.stripeSize * swidth lsm + i * lsm.stripeSize + o % lsm.stripeSize

/-- The file offset just after the last byte of an object of size `s`. -/
def endOf (lsm : Layout) (i s : Nat) : Nat := if s = 0 then 0 else fileByte lsm i (s - 1) + 1

/-- The product that `lov_stripe_size` computes in an `unsigned long`. -/
def stripePlace (lsm : Layout) (i s : Nat) : Nat :=
  if s % lsm.stripeSize = 0 then (i + 1) * lsm.stripeSize else i * lsm.stripeSize

variable {s w : Nat}

section Sizes

variable {lsm : Layout} {i : Nat}

section

variable (inRange : i < lsm.stripeCount)

include inRange

theorem fileByte_div_mod (o : Nat) :
    fileByte lsm i o / swidth lsm = o / lsm.stripeSize ∧
      fileByte lsm i o % swidth lsm = i * lsm.stripeSize + o % lsm.stripeSize := by
  have place := stripe_end_le inRange
  have rest := Nat.mod_lt o lsm.size_pos
  refine (Nat.div_mod_unique (swidth_pos lsm)).mpr ⟨?_, by omega⟩
  rw [fileByte, mul_comm (swidth lsm)]
  omega

theorem fileByte_stripe (o : Nat) : lovStripeNumber lsm (fileByte lsm i o) = i := by
  have rest := Nat.mod_lt o lsm.size_pos
  rw [stripeNumber_eq_iff, (fileByte_div_mod inRange o).2]
  omega

/-- The bytes of the stripe in front of byte `o` of the object are `o`. -/
theorem count_fileByte (o : Nat) :
    Nat.count (fun b => lovStripeNumber lsm b = i) (fileByte lsm i o) = o := by
  obtain ⟨div, mod⟩ := fileByte_div_mod inRange o
  have rest := Nat.mod_lt o lsm.size_pos
  have whole := Nat.div_add_mod' o lsm.stripeSize
  rw [← bytesBefore_eq_count inRange, bytesBefore, div, mod]
  omega

/-- Byte `o` of the object lies in front of an offset exactly when the offset has more than `o` stripe
bytes in front. -/
theorem fileByte_lt_iff (o off : Nat) :
    fileByte lsm i o < off ↔ o < Nat.count (fun b => lovStripeNumber lsm b = i) off := by
  have count := count_fileByte inRange o
  constructor
  · intro before
    have more := Nat.count_strict_mono (p := fun b => lovStripeNumber lsm b = i)
      (fileByte_stripe inRange o) before
    omega
  · intro more
    by_contra behind
    have less := Nat.count_monotone (fun b => lovStripeNumber lsm b = i) (not_lt.mp behind)
    omega

/-- An object ends at most at the size of the file exactly when it is at most the bytes of its stripe. -/
theorem endOf_le_iff (s fs : Nat) :
    endOf lsm i s ≤ fs ↔ s ≤ Nat.count (fun b => lovStripeNumber lsm b = i) fs := by
  unfold endOf
  split
  · omega
  · have := fileByte_lt_iff inRange (s - 1) fs
    omega

end

/-- The object of the stripe that holds the last byte of the file ends where the file ends. -/
theorem endOf_last (lsm : Layout) (fs : Nat) {i : Nat}
    (last : i = if 0 < fs then lovStripeNumber lsm (fs - 1) else 0) :
    i < lsm.stripeCount ∧ endOf lsm i (Nat.count (fun b => lovStripeNumber lsm b = i) fs) = fs := by
  cases fs with
  | zero =>
    subst last
    exact ⟨lsm.count_pos, by simp [endOf]⟩
  | succ b =>
    have here : i = lovStripeNumber lsm b := last
    have inRange : i < lsm.stripeCount := here ▸ stripeNumber_lt lsm b
    refine ⟨inRange, le_antisymm ((endOf_le_iff inRange _ _).mpr le_rfl) ?_⟩
    by_contra before
    -- otherwise the byte `b` of the stripe would not be counted
    have less := (endOf_le_iff inRange _ _).mp (Nat.le_of_lt_succ (not_le.mp before))
    rw [Nat.count_succ, if_pos here.symm] at less
    omega

/-- What `lov_stripe_size` computes, with the product that may be too long. -/
theorem lovStripeSize_eq (lsm : Layout) (w : Nat) (positive : s ≠ 0) (i : Nat) :
    ∃ rest, lovStripeSize w lsm s i = obdOff (rest + unsignedLong w (stripePlace lsm i s)) ∧
      endOf lsm i s = rest + stripePlace lsm i s := by
  have size := lsm.size_pos
  have whole := Nat.div_add_mod' s lsm.stripeSize
  unfold lovStripeSize endOf fileByte stripePlace
  rw [if_neg positive, if_neg positive]
  by_cases exact : s % lsm.stripeSize = 0
  · simp only [exact, ne_eq, not_true_eq_false, if_false, if_true]
    refine ⟨(s / lsm.stripeSize - 1) * swidth lsm, rfl, ?_⟩
    have round : 0 < s / lsm.stripeSize :=
      Nat.div_pos (Nat.le_of_dvd (pos_of_ne_zero positive) (Nat.dvd_of_mod_eq_zero exact)) size
    obtain ⟨q, same⟩ : ∃ q, s / lsm.stripeSize = q + 1 := ⟨s / lsm.stripeSize - 1, by omega⟩
    rw [same, add_mul, one_mul] at whole
    obtain ⟨div, mod⟩ : (s - 1) / lsm.stripeSize = q ∧ (s - 1) % lsm.stripeSize = lsm.stripeSize - 1 :=
      (Nat.div_mod_unique size).mpr ⟨by rw [mul_comm]; omega, by omega⟩
    rw [div, mod, same, Nat.add_sub_cancel, add_mul i 1, one_mul]
    omega
  · simp only [exact, ne_eq, not_false_eq_true, if_true, if_false]
    refine ⟨s / lsm.stripeSize * swidth lsm + s % lsm.stripeSize, ?_, ?_⟩
    · rw [add_right_comm]
    · obtain ⟨div, mod⟩ : (s - 1) / lsm.stripeSize = s / lsm.stripeSize ∧
          (s - 1) % lsm.stripeSize = s % lsm.stripeSize - 1 :=
        (Nat.div_mod_unique size).mpr
          ⟨by rw [mul_comm]; omega, by have := Nat.mod_lt s size; omega⟩
      rw [div, mod]
      omega

/-- Without loss in the product the result is the end of the object. -/
theorem lovStripeSize_exact (product : s ≠ 0 → stripePlace lsm i s < 2 ^ w)
    (fits : endOf lsm i s < 2 ^ 64) : lovStripeSize w lsm s i = endOf lsm i s := by
  by_cases zero : s = 0
  · subst zero
    rfl
  · obtain ⟨rest, size, whole⟩ := lovStripeSize_eq lsm w zero i
    rw [size, unsignedLong, Nat.mod_eq_of_lt (product zero), ← whole, obdOff_of_lt fits]

/-- A product that is too long makes the result too small. -/
theorem lovStripeSize_lt (positive : s ≠ 0) (long : 2 ^ w ≤ stripePlace lsm i s) :
    lovStripeSize w lsm s i < endOf lsm i s := by
  obtain ⟨rest, size, whole⟩ := lovStripeSize_eq lsm w positive i
  have lost : unsignedLong w (stripePlace lsm i s) < stripePlace lsm i s :=
    lt_of_lt_of_le (Nat.mod_lt _ (Nat.two_pow_pos w)) long
  rw [size, whole]
  exact lt_of_le_of_lt (Nat.mod_le _ _) (by omega)

theorem stripePlace_le (inRange : i < lsm.stripeCount) (s : Nat) :
    stripePlace lsm i s ≤ swidth lsm := by
  have place := stripe_end_le inRange
  unfold stripePlace
  split
  · rwa [add_mul, one_mul]
  · omega

/-- Where the offsets of the stripes fit into a word no product is too long. -/
theorem lovStripeSize_eq_endOf (word : swidth lsm < 2 ^ w) (inRange : i < lsm.stripeCount)
    (fits : endOf lsm i s < 2 ^ 64) : lovStripeSize w lsm s i = endOf lsm i s :=
  lovStripeSize_exact (fun _ => (stripePlace_le inRange s).trans_lt word) fits

theorem swidth_lt (lsm : Layout) : swidth lsm < 2 ^ 64 := Nat.mod_lt _ (by decide)

theorem sizeToStripe_eq {fs : Nat} (inRange : i < lsm.stripeCount) (small : fs < 2 ^ 63) :
    lovSizeToStripe lsm fs i = Nat.count (fun b => lovStripeNumber lsm b = i) fs :=
  lovSizeToStripe_eq_count inRange (small.trans_le (by decide))

/-- The sizes of the objects do not go behind the end of the file. -/
theorem endOf_sizeToStripe_le {fs : Nat} (inRange : i < lsm.stripeCount) (small : fs < 2 ^ 63) :
    endOf lsm i (lovSizeToStripe lsm fs i) ≤ fs := by
  rw [endOf_le_iff inRange, sizeToStripe_eq inRange small]

end Sizes

/-- With a 64-bit `unsigned long` an object ends at most at the size of the file exactly when its size is
at most what `lov_size_to_stripe` gives, and the sizes of the objects give that of the file back. -/
theorem file_and_object_sizes (lsm : Layout) {fs : Nat} (small : fs < 2 ^ 63) :
    (∀ i < lsm.stripeCount, ∀ s, 0 < s → endOf lsm i s < 2 ^ 64 →
      (lovStripeSize 64 lsm s i ≤ fs ↔ s ≤ lovSizeToStripe lsm fs i)) ∧
    (∃ i < lsm.stripeCount, lovStripeSize 64 lsm (lovSizeToStripe lsm fs i) i = fs) ∧
    ∀ i < lsm.stripeCount, lovStripeSize 64 lsm (lovSizeToStripe lsm fs i) i ≤ fs := by
  have back {i : Nat} (inRange : i < lsm.stripeCount) :
      lovStripeSize 64 lsm (lovSizeToStripe lsm fs i) i = endOf lsm i (lovSizeToStripe lsm fs i) := by
    have le := endOf_sizeToStripe_le inRange small
    exact lovStripeSize_eq_endOf (swidth_lt lsm) inRange (by omega)
  refine ⟨fun i inRange s _ fits => ?_, ?_, fun i inRange => ?_⟩
  · rw [lovStripeSize_eq_endOf (swidth_lt lsm) inRange fits, endOf_le_iff inRange,
      sizeToStripe_eq inRange small]
  · obtain ⟨inRange, whole⟩ := endOf_last lsm fs rfl
    refine ⟨_, inRange, ?_⟩
    rw [back inRange, sizeToStripe_eq inRange small]
    exact whole
  · rw [back inRange]
    exact endOf_sizeToStripe_le inRange small

/-- Three stripes and a file that ends in the second one. -/
theorem file_and_object_sizes_three : (100000 : Nat) < 2 ^ 63 ∧
    lovSizeToStripe threeStripes 100000 1 = 34464 ∧
    ∃ i < 3, lovStripeSize 64 threeStripes (lovSizeToStripe threeStripes 100000 i) i = 100000 :=
  ⟨by decide, by decide, (file_and_object_sizes threeStripes (by decide)).2.1⟩

/-- A 32-bit and a 64-bit `unsigned long` give the end of the object exactly when the offset of the
stripe, or of the next one behind a whole stripe, has 32 bits. -/
theorem stripe_size_word_iff (lsm : Layout) {i s : Nat} (inRange : i < lsm.stripeCount)
    (fits : endOf lsm i s < 2 ^ 64) :
    (lovStripeSize 32 lsm s i = lovStripeSize 64 lsm s i ∧
        lovStripeSize 64 lsm s i = endOf lsm i s) ↔
      (s ≠ 0 →
        (if s % lsm.stripeSize = 0 then (i + 1) * lsm.stripeSize else i * lsm.stripeSize) < 2 ^ 32) := by
  have long : lovStripeSize 64 lsm s i = endOf lsm i s :=
    lovStripeSize_eq_endOf (swidth_lt lsm) inRange fits
  rw [long, and_iff_left rfl]
  constructor
  · intro same positive
    by_contra wide
    exact (lovStripeSize_lt positive (not_lt.mp wide)).ne same
  · exact fun product => lovStripeSize_exact product fits

/-- Stripes of one gigabyte. -/
def gigabyteStripes : Layout := ⟨2 ^ 30, 6, by decide, by decide, by decide, by decide⟩

theorem stripe_size_word_third :
    (lovStripeSize 32 gigabyteStripes 5 2 = lovStripeSize 64 gigabyteStripes 5 2 ∧
      lovStripeSize 64 gigabyteStripes 5 2 = endOf gigabyteStripes 2 5) :=
  (stripe_size_word_iff gigabyteStripes (by decide) (by decide)).mpr (by decide)

/-- The object of the fifth stripe of one gigabyte starts at four gigabytes, which is zero in 32
bits. -/
theorem fifth_stripe_wraps :
    lovStripeSize 32 gigabyteStripes 5 4 = 5 ∧ lovStripeSize 64 gigabyteStripes 5 4 = 2 ^ 32 + 5 := by
  decide

section Merge

variable {w : Nat} {lsm : Layout} {oinfo : Nat → LoiSizes}

theorem mergeObjects_le_iff (w : Nat) (lsm : Layout) (start : Merged) (n x : Nat)
    (noErr : ∀ i < n, ostLvbIsErr (oinfo i).lvb.blocks = false) :
    (((range n).foldl (mergeObject w lsm oinfo) start).kms ≤ x ↔
      start.kms ≤ x ∧ ∀ i < n, lovStripeSize w lsm (oinfo i).kms i ≤ x) ∧
    (((range n).foldl (mergeObject w lsm oinfo) start).lvb.size ≤ x ↔
      start.lvb.size ≤ x ∧
        ∀ i < n, lovStripeSize w lsm (max (oinfo i).kms (oinfo i).lvb.size) i ≤ x) := by
  induction n with
  | zero => simp
  | succ n ih =>
    obtain ⟨kms, size⟩ := ih fun i before => noErr i (Nat.lt_succ_of_lt before)
    have step (m : Merged) : mergeObject w lsm oinfo m n = _ :=
      if_neg (Bool.not_eq_true _ ▸ noErr n (Nat.lt_succ_self n))
    rw [range_succ, foldl_append, foldl_cons, foldl_nil, step]
    simp only [max_le_iff, kms, size, Nat.forall_lt_succ_right]
    exact ⟨and_assoc, and_assoc⟩

theorem lovMergeLvbKms_le_iff (lvb : OstLvb) (x : Nat)
    (noErr : ∀ i < lsm.stripeCount, ostLvbIsErr (oinfo i).lvb.blocks = false) :
    ((lovMergeLvbKms w lsm oinfo lvb).kms ≤ x ↔
      ∀ i < lsm.stripeCount, lovStripeSize w lsm (oinfo i).kms i ≤ x) ∧
    ((lovMergeLvbKms w lsm oinfo lvb).lvb.size ≤ x ↔
      ∀ i < lsm.stripeCount, lovStripeSize w lsm (max (oinfo i).kms (oinfo i).lvb.size) i ≤ x) := by
  obtain ⟨kms, size⟩ := mergeObjects_le_iff w lsm ⟨0, 0, { lvb with size := 0, blocks := 0 }⟩
    lsm.stripeCount x noErr
  exact ⟨kms.trans (and_iff_right (Nat.zero_le x)), size.trans (and_iff_right (Nat.zero_le x))⟩

end Merge

/-- For layouts whose offsets fit into an `unsigned long`: behind a shrinking adjustment the merged sizes
are the size, and behind a growing one, where the file sizes fit into 64 bits, the merged minimum is the
larger. -/
theorem adjusted_kms_merged {w : Nat} (lsm : Layout) (word : swidth lsm < 2 ^ w)
    (oinfo : Nat → LoiSizes) (lvb : OstLvb)
    (noErr : ∀ i < lsm.stripeCount, ostLvbIsErr (oinfo i).lvb.blocks = false) {size : Nat}
    (small : size < 2 ^ 63) :
    (lovMergeLvbKms w lsm (lovAdjustKms lsm oinfo size true) lvb).kms = size ∧
    (lovMergeLvbKms w lsm (lovAdjustKms lsm oinfo size true) lvb).lvb.size = size ∧
    ((∀ i < lsm.stripeCount, endOf lsm i (oinfo i).kms < 2 ^ 64) →
      (lovMergeLvbKms w lsm (lovAdjustKms lsm oinfo size false) lvb).kms =
        max (lovMergeLvbKms w lsm oinfo lvb).kms size) := by
  have exact {i s : Nat} : i < lsm.stripeCount → endOf lsm i s < 2 ^ 64 →
      lovStripeSize w lsm s i = endOf lsm i s := lovStripeSize_eq_endOf word
  obtain ⟨inRange, whole⟩ := endOf_last lsm size rfl
  rw [← sizeToStripe_eq inRange small] at whole
  generalize stripeIs : (if 0 < size then lovStripeNumber lsm (size - 1) else 0) = stripe at inRange whole
  -- the objects give the size back
  have back (x : Nat) : (∀ i < lsm.stripeCount,
      lovStripeSize w lsm (lovSizeToStripe lsm size i) i ≤ x) ↔ size ≤ x := by
    constructor
    · intro each
      have last := each stripe inRange
      rwa [exact inRange (by omega), whole] at last
    · intro le i inRange
      have within := endOf_sizeToStripe_le inRange small
      rw [exact inRange (by omega)]
      omega
  refine ⟨eq_of_forall_ge_iff fun x => ?_, eq_of_forall_ge_iff fun x => ?_,
    fun fits => eq_of_forall_ge_iff fun x => ?_⟩
  · rw [(lovMergeLvbKms_le_iff lvb x _).1, ← back x]
    · refine forall₂_congr fun i inRange => ?_
      simp [lovAdjustKms, inRange, loiKmsSet]
    · intro i inRange
      simp [lovAdjustKms, inRange, loiKmsSet, noErr]
  · rw [(lovMergeLvbKms_le_iff lvb x _).2, ← back x]
    · refine forall₂_congr fun i inRange => ?_
      simp [lovAdjustKms, inRange, loiKmsSet]
    · intro i inRange
      simp [lovAdjustKms, inRange, loiKmsSet, noErr]
  · have kept (i : Nat) : ostLvbIsErr (lovAdjustKms lsm oinfo size false i).lvb.blocks =
        ostLvbIsErr (oinfo i).lvb.blocks := by
      unfold lovAdjustKms
      grind [loiKmsSet, update_apply]
    have grown (i : Nat) : (lovAdjustKms lsm oinfo size false i).kms =
        if i = stripe then max (oinfo i).kms (lovSizeToStripe lsm size i) else (oinfo i).kms := by
      unfold lovAdjustKms
      grind [loiKmsSet, update_apply]
    have each {i : Nat} (inRange : i < lsm.stripeCount) :
        lovStripeSize w lsm (lovAdjustKms lsm oinfo size false i).kms i ≤ x ↔
          lovStripeSize w lsm (oinfo i).kms i ≤ x ∧ (i = stripe → size ≤ x) := by
      have room := fits i inRange
      rw [grown, exact inRange room]
      by_cases here : i = stripe
      · subst here
        have joined : endOf lsm i (max (oinfo i).kms (lovSizeToStripe lsm size i)) =
            max (endOf lsm i (oinfo i).kms) size :=
          (Monotone.map_max fun s s' le => (endOf_le_iff inRange s _).mpr
            (le.trans ((endOf_le_iff inRange s' _).mp le_rfl))).trans (congrArg (max _) whole)
        rw [if_pos rfl, exact inRange (by omega), joined, max_le_iff]
        exact and_congr_right fun _ => ⟨fun le _ => le, fun le => le rfl⟩
      · rw [if_neg here, exact inRange room]
        exact (and_iff_left fun same => absurd same here).symm
    rw [(lovMergeLvbKms_le_iff lvb x fun i inRange => (kept i).trans (noErr i inRange)).1, max_le_iff,
      (lovMergeLvbKms_le_iff lvb x noErr).1]
    constructor
    · exact fun all => ⟨fun i inRange => ((each inRange).mp (all i inRange)).1,
        ((each inRange).mp (all stripe inRange)).2 rfl⟩
    · exact fun ⟨old, new⟩ i inRange => (each inRange).mpr ⟨old i inRange, fun _ => new⟩

/-- An object of which nothing is known, with a known minimum size. -/
def knownObject (kms : Nat) : LoiSizes := ⟨true, kms, ⟨0, 0, 0, 0, 0⟩⟩

/-- The second object of three grows with the file. -/
theorem adjusted_kms_merged_three :
    (lovMergeLvbKms 64 threeStripes
        (lovAdjustKms threeStripes (fun _ => knownObject 5) 200000 false) ⟨0, 0, 0, 0, 0⟩).kms =
      max (lovMergeLvbKms 64 threeStripes (fun _ => knownObject 5) ⟨0, 0, 0, 0, 0⟩).kms 200000 :=
  (adjusted_kms_merged threeStripes (by decide) (fun _ => knownObject 5) ⟨0, 0, 0, 0, 0⟩ (by decide)
    (by decide)).2.2 (by decide)

/-- An object whose file size has more than 64 bits, and an empty one. -/
def wrappedObjects (i : Nat) : LoiSizes := knownObject (if i = 0 then 2 ^ 63 + 1 else 0)

/-- The first object hides the new minimum. -/
theorem wrapped_size_hides_kms :
    (∀ i < twoStripes.stripeCount, ostLvbIsErr (wrappedObjects i).lvb.blocks = false) ∧
    (lovMergeLvbKms 64 twoStripes (lovAdjustKms twoStripes wrappedObjects 100 false)
        ⟨0, 0, 0, 0, 0⟩).kms ≠
      max (lovMergeLvbKms 64 twoStripes wrappedObjects ⟨0, 0, 0, 0, 0⟩).kms 100 := by
  decide

end Lov
