/-
Module: Lustre.Lov.Unpack
Purpose: Reading the striping attribute of a file from disk or from the wire.  The bytes are
  arbitrary; a read behind the end of the buffer is a fault, also where a bad attribute is printed.
Trusted boundary: a little-endian host; the dump of an attribute with an unknown magic is left out.
-/
import Lustre.Lib.Run
import Lustre.Lov.Striping

namespace Lov

open Bytes Run

/-! ### The attribute -/

/-- What must not happen while an attribute is unpacked. -/
inductive UnpackFault where
  | lassert
  | outOfBounds (off : Nat)
deriving DecidableEq, Repr

/-- The two layouts of the attribute. -/
inductive LmmVersion where
  | v1
  | v3
deriving DecidableEq, Repr

/-- `LOV_MAGIC_V1`. -/
def lovMagicV1 : Nat := 0x0BD10BD0

/-- `LOV_MAGIC_V3`. -/
def lovMagicV3 : Nat := 0x0BD30BD0

/-- `LOV_PATTERN_RAID0`. -/
def lovPatternRaid0 : Nat := 0x001

/-- `LOV_MIN_STRIPE_SIZE`. -/
def lovMinStripeSize : Nat := 2 ^ 16

/-- `LOV_V1_INSANE_STRIPE_COUNT`. -/
def lovV1InsaneStripeCount : Int := 65532

/-- `LOV_MAXPOOLNAME`. -/
def lovMaxpoolname : Nat := 16

/-- `sizeof(struct lov_ost_data_v1)`. -/
def lovOstDataSize : Nat := 24

/-- `sizeof(struct lov_mds_md_v1)` and `sizeof(struct lov_mds_md_v3)`. -/
def LmmVersion.headerSize : LmmVersion → Nat
  | .v1 => 32
  | .v3 => 32 + lovMaxpoolname

/-- `lsm_op_find`. -/
def lsmOpFind (magic : Nat) : Option LmmVersion :=
  if magic = lovMagicV1 then some .v1
  else if magic = lovMagicV3 then some .v3
  else none

/-- A field of the attribute, read within the buffer. -/
def get (lmm : List UInt8) (off len : Nat) : Except UnpackFault Nat :=
  if off + len ≤ lmm.length then .ok (field lmm off len) else .error (.outOfBounds off)

/-- `lov_mds_md_size`: the sum is taken in `size_t` and returned as an `int`. -/
def lovMdsMdSize (stripes : Int) (version : LmmVersion) : Int :=
  int32 ((version.headerSize + stripes % 2 ^ 64 * lovOstDataSize) % 2 ^ 64)

/-- `lov_dump_lmm_common`. -/
def lovDumpLmmCommon (lmm : List UInt8) : Except UnpackFault Unit := do
  let _objectId ← get lmm 8 8
  let _magic ← get lmm 0 4
  let _pattern ← get lmm 4 4
  let _stripeSize ← get lmm 24 4
  let _stripeCount ← get lmm 28 4

/-- The loop of `lov_dump_lmm_objects` from entry `i` on, with `n` entries to go. -/
def lovDumpLmmObjects (lmm : List UInt8) (base : Nat) : Nat → Nat → Except UnpackFault Unit
  | 0, _ => .ok ()
  | n + 1, i => do
      let _ostIdx ← get lmm (base + i * lovOstDataSize + 20) 4
      let _seq ← get lmm (base + i * lovOstDataSize + 8) 8
      let _id ← get lmm (base + i * lovOstDataSize) 8
      lovDumpLmmObjects lmm base n (i + 1)

/-- The pool name, which only the second layout has. -/
def readPoolName (lmm : List UInt8) : LmmVersion → Except UnpackFault (List UInt8)
  | .v1 => .ok []
  | .v3 => do
      let _ ← get lmm 32 lovMaxpoolname
      return (lmm.drop 32).take lovMaxpoolname

/-- `lov_dump_lmm_v1` and `lov_dump_lmm_v3`, called by `lov_dump_lmm`: the count, taken as an `int`, says
how many entries are printed. -/
def lovDumpLmm (version : LmmVersion) (lmm : List UInt8) : Except UnpackFault Unit := do
  lovDumpLmmCommon lmm
  let _poolName ← readPoolName lmm version
  lovDumpLmmObjects lmm version.headerSize (int32 (← get lmm 28 4)).toNat 0

/-- `lsm_lmm_verify_common`; `false` is `-EINVAL`. -/
def lsmLmmVerifyCommon (version : LmmVersion) (lmm : List UInt8) (stripeCount : Int) :
    Except UnpackFault Bool := do
  if stripeCount = 0 ∨ stripeCount > lovV1InsaneStripeCount then
    lovDumpLmm version lmm
    return false
  if (← get lmm 8 8) = 0 then
    lovDumpLmm version lmm
    return false
  if (← get lmm 4 4) ≠ lovPatternRaid0 then
    lovDumpLmm version lmm
    return false
  let stripeSize ← get lmm 24 4
  if stripeSize = 0 ∨ stripeSize &&& (lovMinStripeSize - 1) ≠ 0 then
    lovDumpLmm version lmm
    return false
  return true

/-- `lsm_lmm_verify_v1` and `lsm_lmm_verify_v3`: the stripe count of an accepted
attribute; `none` is `-EINVAL`. -/
def lsmLmmVerify (version : LmmVersion) (lmm : List UInt8) : Except UnpackFault (Option Int) := do
  if lmm.length < version.headerSize then
    return none
  let stripeCount := int32 (← get lmm 28 4)
  if (lmm.length : Int) < lovMdsMdSize stripeCount version then
    lovDumpLmm version lmm
    return none
  if ← lsmLmmVerifyCommon version lmm stripeCount then
    return some stripeCount
  else
    return none

/-- `lov_verify_lmm`. -/
def lovVerifyLmm (lmm : List UInt8) : Except UnpackFault (Option Int) := do
  match lsmOpFind (← get lmm 0 4) with
  | none => return none
  | some version => lsmLmmVerify version lmm

/-! ### Unpacking -/

/-- The targets of the volume: `ld_tgt_count` and which `lov_tgts` are there. -/
structure Targets where
  tgtCount : Nat
  present : Nat → Bool

/-- `struct lov_oinfo`. -/
structure LovOinfo where
  id : Nat
  seq : Nat
  ostIdx : Nat
  ostGen : Nat
deriving DecidableEq, Repr

/-- `struct lov_stripe_md` as `lov_unpackmd` fills it. -/
structure LovStripeMd where
  version : LmmVersion
  objectId : Nat
  objectSeq : Nat
  stripeSize : Nat
  pattern : Nat
  stripeCount : Nat
  poolName : List UInt8
  oinfo : List LovOinfo
deriving DecidableEq, Repr

/-- The errors `lov_unpackmd` returns. -/
inductive UnpackErr where
  | einval
  | enomem
deriving DecidableEq, Repr

/-- `lsm_alloc_plain`; `memory` tells whether the allocations succeed. -/
def lsmAllocPlain (memory : Bool) (stripeCount : Int) : Except UnpackFault (Option Nat) :=
  if stripeCount > 0 then .ok (if memory then some stripeCount.toNat else none)
  else .error .lassert

/-- One `lmm_objects[i]`. -/
def readObject (lmm : List UInt8) (base i : Nat) : Except UnpackFault LovOinfo := do
  let id ← get lmm (base + i * lovOstDataSize) 8
  let seq ← get lmm (base + i * lovOstDataSize + 8) 8
  let ostIdx ← get lmm (base + i * lovOstDataSize + 20) 4
  let ostGen ← get lmm (base + i * lovOstDataSize + 16) 4
  return ⟨id, seq, ostIdx, ostGen⟩

/-- The loop over `lmm_objects` from entry `i`, `n` to go; `none` is the early return of `-EINVAL`. -/
def unpackObjects (lov : Targets) (version : LmmVersion) (lmm : List UInt8) :
    Nat → Nat → Except UnpackFault (Option (List LovOinfo))
  | 0, _ => .ok (some [])
  | n + 1, i => do
      let loi ← readObject lmm version.headerSize i
      if loi.ostIdx ≥ lov.tgtCount then
        lovDumpLmm version lmm
        return none
      if !lov.present loi.ostIdx then
        lovDumpLmm version lmm
        return none
      match ← unpackObjects lov version lmm n (i + 1) with
      | none => return none
      | some rest => return some (loi :: rest)

/-- `lsm_unpackmd_v1` and `lsm_unpackmd_v3`, which share `lsm_unpackmd_common`. -/
def lsmUnpackmd (lov : Targets) (version : LmmVersion) (lmm : List UInt8) (stripeCount : Nat) :
    Except UnpackFault (Except UnpackErr LovStripeMd) := do
  let objectId ← get lmm 8 8
  let objectSeq ← get lmm 16 8
  let stripeSize ← get lmm 24 4
  let pattern ← get lmm 4 4
  let poolName ← readPoolName lmm version
  match ← unpackObjects lov version lmm stripeCount 0 with
  | none => return .error .einval
  | some oinfo =>
    return .ok ⟨version, objectId, objectSeq, stripeSize, pattern, stripeCount, poolName, oinfo⟩

/-- `lov_unpackmd` of a given attribute into a fresh `lsm`. -/
def lovUnpackmd (lov : Targets) (memory : Bool) (lmm : List UInt8) :
    Except UnpackFault (Except UnpackErr LovStripeMd) := do
  match ← lovVerifyLmm lmm with
  | none => return .error .einval
  | some stripeCount =>
    let magic ← get lmm 0 4
    match ← lsmAllocPlain memory stripeCount with
    | none => return .error .enomem
    | some count =>
      match lsmOpFind magic with
      | none => throw .lassert
      | some version => lsmUnpackmd lov version lmm count

/-! ### What is read -/

/-- The header and the entries that the count announces lie within the attribute. -/
def Whole (version : LmmVersion) (lmm : List UInt8) : Prop :=
  version.headerSize + (int32 (field lmm 28 4)).toNat * lovOstDataSize ≤ lmm.length

instance (version : LmmVersion) (lmm : List UInt8) : Decidable (Whole version lmm) :=
  inferInstanceAs (Decidable (_ ≤ _))

/-- What an accepted count is known to satisfy. -/
structure Accepted (version : LmmVersion) (lmm : List UInt8) (stripeCount : Int) : Prop where
  count : stripeCount = int32 (field lmm 28 4)
  size : lovMdsMdSize stripeCount version ≤ lmm.length
  nonzero : stripeCount ≠ 0
  bounded : stripeCount ≤ lovV1InsaneStripeCount

variable {lmm : List UInt8} {version : LmmVersion} {Err : UnpackFault → Prop}

/-- A read within the attribute gives the field. -/
theorem get_then {α : Type} {Q : α → Prop} {next : Nat → Except UnpackFault α} {off len : Nat}
    (inside : off + len ≤ lmm.length) (rest : Outcome Q Err (next (field lmm off len))) :
    Outcome Q Err (get lmm off len >>= next) := by
  rwa [get, if_pos inside]

theorem headerSize_ge (version : LmmVersion) : 32 ≤ version.headerSize := by
  cases version <;> decide

theorem readPoolName_ok (header : version.headerSize ≤ lmm.length) :
    Outcome (fun _ => True) Err (readPoolName lmm version) := by
  cases version with
  | v1 => exact trivial
  | v3 => exact get_then header trivial

/-- The loop that prints the entries stays within the attribute exactly if they all do. -/
theorem lovDumpLmmObjects_outcome (base n i : Nat) :
    Outcome (fun _ => n = 0 ∨ base + (i + n) * lovOstDataSize ≤ lmm.length)
      (fun _ => n ≠ 0 ∧ ¬ base + (i + n) * lovOstDataSize ≤ lmm.length)
      (lovDumpLmmObjects lmm base n i) := by
  induction n generalizing i with
  | zero => exact .inl rfl
  | succ n ih =>
    unfold lovDumpLmmObjects
    have total : base + (i + (n + 1)) * lovOstDataSize =
        base + i * lovOstDataSize + 24 + n * lovOstDataSize := by
      unfold lovOstDataSize
      omega
    by_cases entry : base + i * lovOstDataSize + 24 ≤ lmm.length
    · refine get_then (by omega) ?_
      refine get_then (by omega) ?_
      refine get_then (by omega) ?_
      have next : i + 1 + n = i + (n + 1) := by omega
      refine (ih (i + 1)).mono (fun _ rest => .inr ?_) fun _ rest => ⟨Nat.succ_ne_zero n, ?_⟩
      · rcases rest with rfl | fits
        · omega
        · rwa [next] at fits
      · rw [next] at rest
        exact rest.2
    · -- the index of the target is the last field of an entry
      rw [get, if_neg (by omega)]
      exact ⟨Nat.succ_ne_zero n, by omega⟩

section

variable (header : version.headerSize ≤ lmm.length)

include header

theorem lovDumpLmm_outcome :
    Outcome (fun _ => Whole version lmm) (fun _ => ¬ Whole version lmm) (lovDumpLmm version lmm) := by
  have least := headerSize_ge version
  have common : Outcome (fun _ => True) (fun _ => ¬ Whole version lmm) (lovDumpLmmCommon lmm) := by
    refine get_then (by omega) ?_
    refine get_then (by omega) ?_
    refine get_then (by omega) ?_
    refine get_then (by omega) ?_
    exact get_then (by omega) trivial
  refine .bind common fun _ _ => .bind (readPoolName_ok header) fun _ _ => ?_
  refine get_then (by omega) ?_
  unfold Whole
  generalize (int32 (field lmm 28 4 : Nat)).toNat = n
  refine (lovDumpLmmObjects_outcome version.headerSize n 0).mono (fun _ read => ?_) fun _ behind => ?_
  · rcases read with rfl | fits
    · rwa [zero_mul]
    · rwa [zero_add] at fits
  · rw [zero_add] at behind
    exact behind.2

/-- An attribute is printed where it is rejected, which is safe exactly if it is whole. -/
theorem lsmLmmVerifyCommon_outcome (stripeCount : Int) :
    Outcome (fun accepted =>
        if accepted then stripeCount ≠ 0 ∧ stripeCount ≤ lovV1InsaneStripeCount
        else Whole version lmm)
      (fun _ => ¬ Whole version lmm) (lsmLmmVerifyCommon version lmm stripeCount) := by
  have least := headerSize_ge version
  have dump := lovDumpLmm_outcome header
  unfold lsmLmmVerifyCommon
  split
  · exact .bind dump fun _ whole => whole
  refine get_then (by omega) ?_
  split
  · exact .bind dump fun _ whole => whole
  refine get_then (by omega) ?_
  split
  · exact .bind dump fun _ whole => whole
  refine get_then (by omega) ?_
  split
  · exact .bind dump fun _ whole => whole
  · show stripeCount ≠ 0 ∧ stripeCount ≤ lovV1InsaneStripeCount
    omega

theorem lsmLmmVerify_outcome :
    Outcome (fun
        | none => Whole version lmm
        | some stripeCount => Accepted version lmm stripeCount)
      (fun _ => ¬ Whole version lmm) (lsmLmmVerify version lmm) := by
  have least := headerSize_ge version
  unfold lsmLmmVerify
  rw [if_neg (not_lt.mpr header)]
  refine get_then (by omega) ?_
  generalize counted : int32 (field lmm 28 4 : Nat) = stripeCount
  by_cases size : (lmm.length : Int) < lovMdsMdSize stripeCount version
  · rw [if_pos size]
    exact .bind (lovDumpLmm_outcome header) fun _ whole => whole
  · rw [if_neg size]
    refine .bind (lsmLmmVerifyCommon_outcome header _) fun accepted common => ?_
    cases accepted with
    | false => exact common
    | true => exact ⟨counted.symm, Int.not_lt.mp size, common.1, common.2⟩

end

/-- With a count that is not negative the accepted sizes are the sizes they look like. -/
theorem Accepted.bounds {stripeCount : Int} (accepted : Accepted version lmm stripeCount)
    (positive : 0 ≤ stripeCount) :
    1 ≤ stripeCount ∧ stripeCount ≤ lovV1InsaneStripeCount ∧
      version.headerSize + stripeCount * lovOstDataSize ≤ lmm.length := by
  have bounded := accepted.bounded
  have nonzero := accepted.nonzero
  have size := accepted.size
  have header : (version.headerSize : Int) ≤ 48 := by
    cases version <;> decide
  unfold lovV1InsaneStripeCount at bounded ⊢
  unfold lovMdsMdSize lovOstDataSize at size
  rw [Int.emod_eq_of_lt (by omega) (by omega), Int.emod_eq_of_lt (by omega) (by omega),
    int32_of_lt (by omega) (by omega)] at size
  exact ⟨by omega, bounded, size⟩

/-! ### Unpacking an accepted attribute -/

section

variable (lov : Targets) (whole : Whole version lmm)

include whole

theorem Whole.header : version.headerSize ≤ lmm.length := (Nat.le_add_right _ _).trans whole

theorem Whole.dump : Outcome (fun _ => True) (fun _ => False) (lovDumpLmm version lmm) :=
  (lovDumpLmm_outcome whole.header).mono (fun _ _ => trivial) fun _ broken => broken whole

/-- The loop stays within the entries that fit in the buffer. -/
theorem unpackObjects_ok (n i : Nat)
    (fits : version.headerSize + (i + n) * lovOstDataSize ≤ lmm.length) :
    Outcome (fun _ => True) (fun _ => False) (unpackObjects lov version lmm n i) := by
  induction n generalizing i with
  | zero => exact trivial
  | succ n ih =>
    have entry : version.headerSize + i * lovOstDataSize + 24 ≤ lmm.length := by
      unfold lovOstDataSize at fits ⊢
      omega
    have object : Outcome (fun _ => True) (fun _ => False) (readObject lmm version.headerSize i) := by
      refine get_then (by omega) ?_
      refine get_then (by omega) ?_
      refine get_then (by omega) ?_
      refine get_then (by omega) ?_
      exact trivial
    refine .bind object fun loi _ => ?_
    split
    · exact .bind whole.dump fun _ _ => trivial
    split
    · exact .bind whole.dump fun _ _ => trivial
    refine .bind (ih (i + 1) (by rwa [add_right_comm, add_assoc])) fun rest _ => ?_
    cases rest <;> exact trivial

theorem lsmUnpackmd_ok {count : Nat}
    (fits : version.headerSize + count * lovOstDataSize ≤ lmm.length) :
    Outcome (fun _ => True) (fun _ => False) (lsmUnpackmd lov version lmm count) := by
  have header := headerSize_ge version
  refine get_then (by omega) ?_
  refine get_then (by omega) ?_
  refine get_then (by omega) ?_
  refine get_then (by omega) ?_
  refine .bind (readPoolName_ok whole.header) fun _ _ => ?_
  have objects := unpackObjects_ok lov whole count 0 (by rwa [zero_add])
  refine .bind objects fun oinfo _ => ?_
  cases oinfo <;> exact trivial

end

/-- An accepted attribute has a count in range and its entries within the buffer, no assertion fails and
nothing behind the end is read. -/
def SafeAttribute (lov : Targets) (memory : Bool) (lmm : List UInt8) : Prop :=
  (∀ stripeCount, lovVerifyLmm lmm = .ok (some stripeCount) →
    1 ≤ stripeCount ∧ stripeCount ≤ 65532 ∧
    ∀ version, lsmOpFind (field lmm 0 4) = some version →
      version.headerSize + stripeCount * 24 ≤ lmm.length) ∧
  ∃ result, lovUnpackmd lov memory lmm = .ok result

/-- Unpacking is safe exactly on attributes too short for a header, and on those with as many entries as
the count, taken as an `int`, says, unless a negative count is accepted. -/
theorem unpack_safe_iff (lov : Targets) (memory : Bool) (lmm : List UInt8) (long : 4 ≤ lmm.length)
    (version : LmmVersion) (magic : lsmOpFind (field lmm 0 4) = some version) :
    SafeAttribute lov memory lmm ↔ lmm.length < version.headerSize ∨ Whole version lmm ∧
      (int32 (field lmm 28 4) < 0 → lovVerifyLmm lmm = .ok none) := by
  have first : get lmm 0 4 = .ok (field lmm 0 4) := if_pos long
  have verify : lovVerifyLmm lmm = lsmLmmVerify version lmm := by
    rw [lovVerifyLmm, first, bind_ok, magic]
  have refused (none : lovVerifyLmm lmm = .ok none) : SafeAttribute lov memory lmm := by
    refine ⟨fun _ found => (nomatch none.symm.trans found), .error .einval, ?_⟩
    rw [lovUnpackmd, none]
    rfl
  by_cases short : lmm.length < version.headerSize
  · refine ⟨fun _ => .inl short, fun _ => refused ?_⟩
    rw [verify, lsmLmmVerify, if_pos short]
    rfl
  have outcome := lsmLmmVerify_outcome (not_lt.mp short)
  rw [← verify] at outcome
  cases verdict : lovVerifyLmm lmm with
  | error fault =>
    rw [verdict] at outcome
    refine ⟨fun safe => ?_, fun whole => ?_⟩
    · obtain ⟨_, result, unpacked⟩ := safe
      rw [lovUnpackmd, verdict] at unpacked
      cases unpacked
    · rcases whole with less | ⟨whole, _⟩
      · exact absurd less short
      · exact absurd whole outcome
  | ok found =>
    rw [verdict] at outcome
    cases found with
    | none => exact ⟨fun _ => .inr ⟨outcome, fun _ => rfl⟩, fun _ => refused verdict⟩
    | some stripeCount =>
      have accepted : Accepted version lmm stripeCount := outcome
      constructor
      · intro safe
        have positive := (safe.1 stripeCount verdict).1
        have fits := (accepted.bounds (by omega)).2.2
        have count := accepted.count
        refine .inr ⟨?_, fun negative => by omega⟩
        unfold lovOstDataSize at fits
        rw [Whole, ← count, lovOstDataSize]
        omega
      · rintro (less | ⟨whole, none⟩)
        · exact absurd less short
        have positive : 0 ≤ stripeCount := by
          by_contra negative
          cases none (by rw [← accepted.count]; omega)
        obtain ⟨least, bounded, fits⟩ := accepted.bounds positive
        refine ⟨fun other again => ?_, ?_⟩
        · cases verdict.symm.trans again
          refine ⟨least, bounded, fun other same => ?_⟩
          cases magic.symm.trans same
          exact fits
        · have unpacked : Outcome (fun _ => True) (fun _ => False) (lovUnpackmd lov memory lmm) := by
            rw [lovUnpackmd, verdict, bind_ok]
            dsimp only
            rw [first, bind_ok, lsmAllocPlain, if_pos (by omega), bind_ok]
            cases memory with
            | false => exact trivial
            | true =>
              rw [if_pos rfl]
              dsimp only
              rw [magic]
              exact lsmUnpackmd_ok lov whole (by rw [accepted.count]; exact whole)
          obtain ⟨result, done, _⟩ := unpacked.exists_ok
          exact ⟨result, done⟩

/-- A V1 header of 32 bytes whose count is `0xffffffff`. -/
def negativeCount : List UInt8 :=
  [0xD0, 0x0B, 0xD1, 0x0B, 1, 0, 0, 0, 1, 0, 0, 0, 0, 0, 0, 0,
    0, 0, 0, 0, 0, 0, 0, 0, 0, 0, 1, 0, 0xFF, 0xFF, 0xFF, 0xFF]

/-- An accepted attribute of one stripe. -/
def oneStripe : List UInt8 :=
  [0xD0, 0x0B, 0xD1, 0x0B, 1, 0, 0, 0, 1, 0, 0, 0, 0, 0, 0, 0,
    0, 0, 0, 0, 0, 0, 0, 0, 0, 0, 1, 0, 1, 0, 0, 0,
    7, 0, 0, 0, 0, 0, 0, 0, 0, 0, 0, 0, 0, 0, 0, 0, 0, 0, 0, 0, 0, 0, 0, 0]

theorem unpack_safe_oneStripe :
    lovVerifyLmm oneStripe = .ok (some 1) ∧ SafeAttribute ⟨1, fun _ => true⟩ true oneStripe :=
  ⟨by decide +kernel, (unpack_safe_iff ⟨1, fun _ => true⟩ true oneStripe (by decide) .v1
    (by decide +kernel)).mpr (.inr ⟨by decide +kernel, fun negative => absurd negative (by decide +kernel)⟩)⟩

/-- The header with the negative count is accepted, and the allocation asserts that it is positive; the
attribute without its last byte is refused, and printed over its end. -/
theorem negative_count_accepted :
    (4 ≤ negativeCount.length ∧ lovVerifyLmm negativeCount = .ok (some (-1)) ∧
      lovUnpackmd ⟨1, fun _ => true⟩ true negativeCount = .error .lassert ∧
      ¬ SafeAttribute ⟨1, fun _ => true⟩ true negativeCount) ∧
    lovUnpackmd ⟨1, fun _ => true⟩ true (oneStripe.take 55) = .error (.outOfBounds 52) := by
  refine ⟨⟨by decide, by decide +kernel, by decide +kernel, fun safe => ?_⟩, by decide +kernel⟩
  exact absurd (safe.1 (-1) (by decide +kernel)).1 (by decide)

end Lov
