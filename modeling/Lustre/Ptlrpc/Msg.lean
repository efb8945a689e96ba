/-
Module: Lustre.Ptlrpc.Msg
Purpose: The v2 message format: building a message, shrinking a buffer, checking a received message
  and finding its buffers.  An access behind the end of its bytes is a fault.
Trusted boundary: signed 32-bit arithmetic wraps around; the host is little-endian
-/
import Lustre.Lib.Bytes
import Lustre.Lib.Run

namespace Ptlrpc

open Bytes

/-! ### The header -/

/-- What must not happen while a message is handled. -/
inductive MsgFault where
  | lassert
  | outOfBounds (off : Nat)
deriving DecidableEq, Repr

/-- `LUSTRE_MSG_MAGIC_V2`. -/
def lustreMsgMagicV2 : Nat := 0x0BD00BD3

/-- `LUSTRE_MSG_MAGIC_V2_SWABBED`. -/
def lustreMsgMagicV2Swabbed : Nat := 0xD30BD00B

/-- The offset of `lm_magic`; `lm_bufcount` stands at 0, `lm_secflvr` at 4, `lm_repsize` at 12,
`lm_cksum` at 16 and `lm_flags` at 20. -/
def magicOff : Nat := 8

/-- The offset of `lm_buflens[i]`. -/
def buflenOff (i : Nat) : Nat := 32 + 4 * i

/-- A word of the message. -/
def get32 (m : List UInt8) (off : Nat) : Except MsgFault Nat :=
  if off + 4 ≤ m.length then .ok (field m off 4) else .error (.outOfBounds off)

/-- An assignment to a word of the message. -/
def put32 (m : List UInt8) (off value : Nat) : Except MsgFault (List UInt8) :=
  if off + 4 ≤ m.length then .ok (writeAt m off (toLe value 4)) else .error (.outOfBounds off)

/-- `__swab32s`. -/
def swab32s (m : List UInt8) (off : Nat) : Except MsgFault (List UInt8) :=
  if off + 4 ≤ m.length then .ok (swab m off 4) else .error (.outOfBounds off)

/-- `__swab32s` on a word of a message that is swabbed. -/
def swabIf (swabbed : Bool) (m : List UInt8) (off : Nat) : Except MsgFault (List UInt8) :=
  if swabbed then swab32s m off else .ok m

/-- `memcpy` and `memmove` of bytes to a place in the message. -/
def copyTo (m : List UInt8) (off : Nat) (bytes : List UInt8) : Except MsgFault (List UInt8) :=
  if off + bytes.length ≤ m.length then .ok (writeAt m off bytes) else .error (.outOfBounds off)

/-- `cfs_size_round`. -/
def cfsSizeRound (val : Int) : Int :=
  let val := int32 (int32 val + 7)
  val - val % 8

/-- `lustre_msg_hdr_size_v2`: `offsetof` gives a `long`, the count is an `int`. -/
def lustreMsgHdrSizeV2 (count : Int) : Int := cfsSizeRound (32 + 4 * int32 count)

/-- The loop of `lustre_msg_size_v2`. -/
def addRounded (size : Int) (lengths : List Nat) : Int :=
  lengths.foldl (fun size length => int32 (size + cfsSizeRound length)) size

/-- `lustre_msg_size_v2`. -/
def lustreMsgSizeV2 (lengths : List Nat) : Int :=
  addRounded (lustreMsgHdrSizeV2 lengths.length) lengths

/-- The first `count` of `lm_buflens`, from `lm_buflens[i]` on. -/
def readBuflens (m : List UInt8) : Nat → Nat → Except MsgFault (List Nat)
  | 0, _ => .ok []
  | count + 1, i => do
      let length ← get32 m (buflenOff i)
      let lengths ← readBuflens m count (i + 1)
      .ok (length :: lengths)

/-- `lustre_msg_buf_v2`: the offset of a buffer in the message, or `NULL`. -/
def lustreMsgBufV2 (m : List UInt8) (n : Nat) (minSize : Int) : Except MsgFault (Option Int) := do
  let bufcount ← get32 m 0
  if n ≥ int32 bufcount then .ok none
  else do
    let buflen ← get32 m (buflenOff n)
    if int32 buflen < minSize then .ok none
    else do
      let lengths ← readBuflens m n 0
      .ok (some (addRounded (lustreMsgHdrSizeV2 (int32 bufcount)) lengths))

/-- The loop of `lustre_init_msg_v2` that stores the lengths. -/
def storeLens (m : List UInt8) (i : Nat) : List Nat → Except MsgFault (List UInt8)
  | [] => .ok m
  | length :: lengths => do
      let m ← put32 m (buflenOff i) length
      storeLens m (i + 1) lengths

/-- The loop of `lustre_init_msg_v2` that copies the buffers with `LOGL`. -/
def storeBufs (m : List UInt8) (ptr : Int) : List (List UInt8) → Except MsgFault (List UInt8)
  | [] => .ok m
  | buf :: bufs => do
      let m ← copyTo m ptr.toNat buf
      storeBufs m (ptr + cfsSizeRound buf.length) bufs

/-- `lustre_init_msg_v2` in memory `m` with buffers to copy. -/
def lustreInitMsgV2 (m : List UInt8) (bufs : List (List UInt8)) : Except MsgFault (List UInt8) := do
  let m ← put32 m 0 bufs.length
  let m ← put32 m magicOff lustreMsgMagicV2
  let m ← storeLens m 0 (bufs.map (·.length))
  storeBufs m (lustreMsgHdrSizeV2 bufs.length) bufs

/-- The start of the buffers behind a segment, where there are any. -/
def tailStart (m : List UInt8) (bufcount segment : Nat) : Except MsgFault (Option Int) :=
  if bufcount > segment + 1 then lustreMsgBufV2 m (segment + 1) 0 else .ok none

/-- The later buffers are moved to where they start now. -/
def moveTail (m : List UInt8) (segment : Nat) (tail tailLen : Int) :
    Except MsgFault (List UInt8) := do
  match ← lustreMsgBufV2 m (segment + 1) 0 with
  | none => .error (.outOfBounds 0)
  | some newpos =>
    if ¬ newpos ≤ tail then .error .lassert
    else if newpos = tail then .ok m
    else copyTo m newpos.toNat ((m.drop tail.toNat).take tailLen.toNat)

/-- The part of `lustre_shrink_msg_v2` after the length has changed. -/
def closeGap (m : List UInt8) (segment : Nat) (tail : Option Int) (tailLen : Int) :
    Except MsgFault (List UInt8) :=
  match tail with
  | none => .ok m
  | some tail => if tailLen = 0 then .ok m else moveTail m segment tail tailLen

/-- The size that `lustre_shrink_msg_v2` returns, with the message. -/
def packedSize (m : List UInt8) (bufcount : Nat) : Except MsgFault (Int × List UInt8) := do
  let lengths ← readBuflens m bufcount 0
  .ok (lustreMsgSizeV2 lengths, m)

/-- `lustre_shrink_msg_v2` with `move_data`. -/
def lustreShrinkMsgV2 (m : List UInt8) (segment newlen : Nat) :
    Except MsgFault (Int × List UInt8) := do
  let bufcount ← get32 m 0
  if ¬ bufcount > segment then .error .lassert
  else do
    let buflen ← get32 m (buflenOff segment)
    if ¬ buflen ≥ newlen then .error .lassert
    else if buflen = newlen then packedSize m bufcount
    else do
      let tail ← tailStart m bufcount segment
      let later ← readBuflens m (bufcount - (segment + 1)) (segment + 1)
      let m ← put32 m (buflenOff segment) newlen
      let m ← closeGap m segment tail (addRounded 0 later)
      packedSize m bufcount

/-- `-EINVAL`. -/
def einval : Int := -22

/-- The loop of `lustre_unpack_msg_v2` over the lengths. -/
def unpackBuflens (swabbed : Bool) : Nat → Nat → List UInt8 → Int →
    Except MsgFault (List UInt8 × Int)
  | 0, _, m, requiredLen => .ok (m, requiredLen)
  | count + 1, i, m, requiredLen => do
      let m ← swabIf swabbed m (buflenOff i)
      let length ← get32 m (buflenOff i)
      unpackBuflens swabbed count (i + 1) m (int32 (requiredLen + cfsSizeRound length))

/-- The header words that `lustre_unpack_msg_v2` swabs. -/
def swabHeader (swabbed : Bool) (m : List UInt8) : Except MsgFault (List UInt8) := do
  let m ← swabIf swabbed m magicOff
  let m ← swabIf swabbed m 0
  let m ← swabIf swabbed m 4
  let m ← swabIf swabbed m 12
  let m ← swabIf swabbed m 16
  swabIf swabbed m 20

/-- The part of `lustre_unpack_msg_v2` from the loop over the lengths on. -/
def unpackLens (swabbed : Bool) (bufcount : Nat) (m : List UInt8) :
    Except MsgFault (Int × List UInt8) := do
  let unpacked ← unpackBuflens swabbed bufcount 0 m (lustreMsgHdrSizeV2 bufcount)
  if (unpacked.1.length : Int) < unpacked.2 then .ok (einval, unpacked.1)
  else .ok (if swabbed then 1 else 0, unpacked.1)

/-- The part of `lustre_unpack_msg_v2` behind the look at the magic. -/
def unpackHost (swabbed : Bool) (m : List UInt8) : Except MsgFault (Int × List UInt8) := do
  let m ← swabHeader swabbed m
  let bufcount ← get32 m 0
  if (m.length : Int) < lustreMsgHdrSizeV2 bufcount then .ok (einval, m)
  else unpackLens swabbed bufcount m

/-- `lustre_unpack_msg_v2` of all the bytes received. -/
def lustreUnpackMsgV2 (m : List UInt8) : Except MsgFault (Int × List UInt8) :=
  if (m.length : Int) < lustreMsgHdrSizeV2 0 then .ok (einval, m)
  else do
    let magic ← get32 m magicOff
    unpackHost (decide (magic = lustreMsgMagicV2Swabbed)) m

/-- `__lustre_unpack_msg`; `lm_magic` ends at byte 12. -/
def lustreUnpackMsg (m : List UInt8) : Except MsgFault (Int × List UInt8) :=
  if m.length < magicOff + 4 then .ok (einval, m) else lustreUnpackMsgV2 m

open List Run

variable {m : List UInt8} {off other : Nat}

/-- A word of a message in the host's byte order. -/
def hostWord (swabbed : Bool) (m : List UInt8) (off : Nat) : Nat :=
  if swabbed then le ((m.drop off).take 4).reverse else field m off 4

section

variable (inside : off + 4 ≤ m.length)

include inside

theorem get32_ok : get32 m off = .ok (field m off 4) :=
  if_pos inside

theorem length_swabbed : ((m.drop off).take 4).reverse.length = 4 := by
  rw [length_reverse, length_take, length_drop]
  omega

theorem length_swab : (swab m off 4).length = m.length :=
  length_writeAt (by rw [length_swabbed inside]; exact inside)

theorem field_swab : field (swab m off 4) off 4 = hostWord true m off := by
  have same : field (swab m off 4) off ((m.drop off).take 4).reverse.length = hostWord true m off :=
    field_writeAt (show off ≤ m.length by omega)
  rwa [length_swabbed inside] at same

theorem take_swab {len : Nat} (apart : other + len ≤ off ∨ off + 4 ≤ other) :
    ((swab m off 4).drop other).take len = (m.drop other).take len := by
  apply take_writeAt_of_disjoint
  · rw [length_swabbed inside]
    exact inside
  · rw [length_swabbed inside]
    exact apart

end

/-! ### Sizes -/

/-- The size of header and lengths, as a number without a bound. -/
def exactHdr (count : Nat) : Nat := roundUp8 (32 + 4 * count)

/-- The room that buffers take. -/
def sumRounded (lengths : List Nat) : Nat := (lengths.map roundUp8).sum

/-- The size of a message, as a number without a bound. -/
def exactSize (lengths : List Nat) : Nat := exactHdr lengths.length + sumRounded lengths

theorem cfsSizeRound_eq (n : Nat) : cfsSizeRound n = int32 (roundUp8 n) := int32_round n

theorem lustreMsgHdrSizeV2_eq (count : Nat) :
    lustreMsgHdrSizeV2 count = int32 (exactHdr count) := by
  have same : int32 (32 + 4 * int32 count) = int32 ((32 + 4 * count : Nat) : Int) := by
    have residue := int32_emod count
    apply int32_congr
    omega
  unfold lustreMsgHdrSizeV2 cfsSizeRound
  rw [same]
  exact int32_round _

@[simp] theorem sumRounded_nil : sumRounded [] = 0 := rfl

@[simp] theorem sumRounded_cons (length : Nat) (lengths : List Nat) :
    sumRounded (length :: lengths) = roundUp8 length + sumRounded lengths := by
  simp [sumRounded]

@[simp] theorem sumRounded_append (lengths more : List Nat) :
    sumRounded (lengths ++ more) = sumRounded lengths + sumRounded more := by
  simp [sumRounded]

@[simp] theorem addRounded_nil (size : Int) : addRounded size [] = size := rfl

@[simp] theorem addRounded_cons (size : Int) (length : Nat) (lengths : List Nat) :
    addRounded size (length :: lengths) =
      addRounded (int32 (size + cfsSizeRound length)) lengths := rfl

theorem addRounded_eq (size : Nat) (lengths : List Nat) :
    addRounded (int32 size) lengths = int32 ((size + sumRounded lengths : Nat) : Int) := by
  induction lengths generalizing size with
  | nil => rw [addRounded_nil, sumRounded_nil, add_zero]
  | cons length lengths ih =>
    have step : int32 (int32 size + cfsSizeRound length) =
        int32 ((size + roundUp8 length : Nat) : Int) := by
      rw [cfsSizeRound_eq, int32_add, Int.add_comm, int32_add, Int.natCast_add, Int.add_comm]
    rw [addRounded_cons, step, ih, sumRounded_cons, add_assoc]

theorem lustreMsgSizeV2_eq (lengths : List Nat) :
    lustreMsgSizeV2 lengths = int32 (exactSize lengths) := by
  unfold lustreMsgSizeV2
  rw [lustreMsgHdrSizeV2_eq, addRounded_eq, exactSize]

theorem exactHdr_ge (count : Nat) : 32 + 4 * count ≤ exactHdr count := le_roundUp8 _

/-- Lengths of a message in the host's byte order. -/
def hostLens (swabbed : Bool) (m : List UInt8) (i count : Nat) : List Nat :=
  (List.range' i count).map fun j => hostWord swabbed m (buflenOff j)

theorem hostLens_succ (swabbed : Bool) (m : List UInt8) (i count : Nat) :
    hostLens swabbed m i (count + 1) =
      hostWord swabbed m (buflenOff i) :: hostLens swabbed m (i + 1) count := rfl

variable {m' : List UInt8} {count i : Nat}

theorem hostLens_congr {swabbed : Bool} {m : List UInt8}
    (same : ∀ j, i ≤ j → j < i + count → hostWord swabbed m (buflenOff j) = hostWord swabbed m' (buflenOff j)) :
    hostLens swabbed m i count = hostLens swabbed m' i count := by
  simp_all [hostLens, mem_range'_1]

/-- A word is brought into the host's byte order in place. -/
theorem swabIf_ok (swabbed : Bool) (inside : off + 4 ≤ m.length) :
    ∃ m', swabIf swabbed m off = .ok m' ∧ m'.length = m.length ∧
      field m' off 4 = hostWord swabbed m off ∧
      ∀ other len, other + len ≤ off ∨ off + 4 ≤ other →
        (m'.drop other).take len = (m.drop other).take len := by
  cases swabbed with
  | false => exact ⟨m, rfl, rfl, rfl, fun _ _ _ => rfl⟩
  | true =>
    exact ⟨swab m off 4, if_pos inside, length_swab inside, field_swab inside,
      fun _ _ apart => take_swab inside apart⟩

/-- What the loop over the lengths leaves. -/
structure Unswabbed (swabbed : Bool) (m : List UInt8) (i count : Nat) (m' : List UInt8) : Prop where
  length : m'.length = m.length
  fields : ∀ j, i ≤ j → j < i + count →
    field m' (buflenOff j) 4 = hostWord swabbed m (buflenOff j)
  others : ∀ other len, other + len ≤ buflenOff i ∨ buflenOff (i + count) ≤ other →
    (m'.drop other).take len = (m.drop other).take len

theorem unpackBuflens_ok (swabbed : Bool) (inside : buflenOff (i + count) ≤ m.length) (size : Nat) :
    ∃ m', unpackBuflens swabbed count i m (int32 size) =
        .ok (m', int32 ((size + sumRounded (hostLens swabbed m i count) : Nat) : Int)) ∧
      Unswabbed swabbed m i count m' := by
  induction count generalizing i m size with
  | zero =>
    refine ⟨m, ?_, rfl, fun j low high => by omega, fun _ _ _ => rfl⟩
    rw [unpackBuflens, show hostLens swabbed m i 0 = [] from rfl, sumRounded_nil, add_zero]
  | succ count ih =>
    have here : buflenOff i + 4 ≤ m.length := by
      unfold buflenOff at *
      omega
    have next : buflenOff (i + 1) = buflenOff i + 4 := by
      unfold buflenOff
      omega
    obtain ⟨m₁, swabs, length₁, field₁, others₁⟩ := swabIf_ok swabbed here
    have step : int32 (int32 size + cfsSizeRound (field m₁ (buflenOff i) 4)) =
        int32 ((size + roundUp8 (hostWord swabbed m (buflenOff i)) : Nat) : Int) := by
      rw [field₁, cfsSizeRound_eq, int32_add, Int.add_comm, int32_add, Int.natCast_add,
        Int.add_comm]
    have later : ∀ j, i + 1 ≤ j →
        hostWord swabbed m₁ (buflenOff j) = hostWord swabbed m (buflenOff j) := by
      intro j low
      unfold hostWord field
      rw [others₁ (buflenOff j) 4 (.inr (by unfold buflenOff; omega))]
    obtain ⟨m', rest, done⟩ := ih (show buflenOff (i + 1 + count) ≤ m₁.length by
      rw [length₁, add_right_comm]
      exact inside) (size + roundUp8 (hostWord swabbed m (buflenOff i)))
    refine ⟨m', ?_, done.length.trans length₁, fun j low high => ?_, fun other len apart => ?_⟩
    · rw [unpackBuflens, swabs, bind_ok, get32_ok (by rw [length₁]; exact here), bind_ok,
        step, rest, hostLens_succ, sumRounded_cons, add_assoc,
        hostLens_congr fun j low _ => later j low]
    · grind [field, cases Unswabbed]
    · grind [buflenOff, cases Unswabbed]

/-- A count that needs more lengths than were received runs out of the message. -/
theorem unpackBuflens_fault (swabbed : Bool) (start : buflenOff i ≤ m.length)
    (outside : m.length < buflenOff (i + count)) (size : Int) :
    ∃ fault, unpackBuflens swabbed count i m size = .error fault := by
  induction count generalizing i m size with
  | zero => exact absurd outside (not_lt.mpr start)
  | succ count ih =>
    by_cases here : buflenOff i + 4 ≤ m.length
    · obtain ⟨m₁, swabs, length₁, -⟩ := swabIf_ok swabbed here
      have next : buflenOff (i + 1) ≤ m₁.length := by
        unfold buflenOff at *
        omega
      rw [unpackBuflens, swabs, bind_ok, get32_ok (by rw [length₁]; exact here), bind_ok]
      exact ih next (by rw [length₁, add_right_comm]; exact outside) _
    · rw [unpackBuflens]
      cases swabbed <;> simp [swabIf, swab32s, get32, here]

/-- The header in the host's byte order: the count, and nothing changed behind `lm_flags`. -/
theorem swabHeader_ok (swabbed : Bool) (inside : 32 ≤ m.length) :
    ∃ m', swabHeader swabbed m = .ok m' ∧ m'.length = m.length ∧
      field m' 0 4 = hostWord swabbed m 0 ∧
      ∀ other len, 24 ≤ other → (m'.drop other).take len = (m.drop other).take len := by
  obtain ⟨m₁, eq₁, length₁, -, others₁⟩ :=
    swabIf_ok swabbed (show magicOff + 4 ≤ m.length by unfold magicOff; omega)
  obtain ⟨m₂, eq₂, length₂, field₂, others₂⟩ := swabIf_ok swabbed (show 0 + 4 ≤ m₁.length by omega)
  obtain ⟨m₃, eq₃, length₃, -, others₃⟩ := swabIf_ok swabbed (show 4 + 4 ≤ m₂.length by omega)
  obtain ⟨m₄, eq₄, length₄, -, others₄⟩ := swabIf_ok swabbed (show 12 + 4 ≤ m₃.length by omega)
  obtain ⟨m₅, eq₅, length₅, -, others₅⟩ := swabIf_ok swabbed (show 16 + 4 ≤ m₄.length by omega)
  obtain ⟨m₆, eq₆, length₆, -, others₆⟩ := swabIf_ok swabbed (show 20 + 4 ≤ m₅.length by omega)
  refine ⟨m₆, ?_, by omega, ?_, fun other len behind => ?_⟩
  · simp_all [swabHeader]
  · have word : hostWord swabbed m₁ 0 = hostWord swabbed m 0 := by
      unfold hostWord field
      rw [others₁ 0 4 (.inl (by decide))]
    rw [← word, ← field₂]
    unfold field
    rw [others₆ 0 4 (.inl (by decide)), others₅ 0 4 (.inl (by decide)),
      others₄ 0 4 (.inl (by decide)), others₃ 0 4 (.inl (by decide))]
  · grind [magicOff]

theorem readBuflens_ok (inside : buflenOff (i + count) ≤ m.length) :
    readBuflens m count i = .ok (hostLens false m i count) := by
  induction count generalizing i with
  | zero => rfl
  | succ count ih =>
    have here : buflenOff i + 4 ≤ m.length := by
      unfold buflenOff at *
      omega
    have rest := ih (show buflenOff (i + 1 + count) ≤ m.length by
      rw [add_right_comm]
      exact inside)
    rw [readBuflens, get32_ok here, bind_ok, rest, bind_ok, hostLens_succ]
    rfl

/-- The exact place of a buffer. -/
def exactOff (m : List UInt8) (n : Nat) : Nat :=
  exactHdr (field m 0 4) + sumRounded (hostLens false m 0 n)

variable {n : Nat}

/-- Where `lustre_msg_buf_v2` puts a buffer of a message whose count is in range. -/
theorem lustreMsgBufV2_eq (count : n < field m 0 4) (range : field m 0 4 < 2 ^ 31)
    (inside : buflenOff (field m 0 4) ≤ m.length) :
    lustreMsgBufV2 m n 0 =
      if int32 (field m (buflenOff n) 4) < 0 then .ok none
      else .ok (some (int32 (exactOff m n))) := by
  have here : buflenOff n + 4 ≤ m.length := by
    unfold buflenOff at *
    omega
  have positive : 0 + 4 ≤ m.length := by omega
  have exact : int32 (field m 0 4 : Nat) = (field m 0 4 : Nat) :=
    int32_of_lt (Int.natCast_nonneg _) (by exact_mod_cast range)
  unfold lustreMsgBufV2
  rw [get32_ok positive, bind_ok, exact, if_neg (by omega), get32_ok here, bind_ok]
  by_cases negative : int32 (field m (buflenOff n) 4) < 0
  · rw [if_pos negative, if_pos negative]
  · rw [if_neg negative, if_neg negative, readBuflens_ok (show buflenOff (0 + n) ≤ m.length by unfold buflenOff at *; omega),
      bind_ok, lustreMsgHdrSizeV2_eq, addRounded_eq, exactOff]

theorem hostLens_concat (swabbed : Bool) (m : List UInt8) (n : Nat) : hostLens swabbed m 0 (n + 1) =
      hostLens swabbed m 0 n ++ [hostWord swabbed m (buflenOff n)] := by
  unfold hostLens
  rw [range'_1_concat, map_append, map_singleton, zero_add]

theorem exactOff_succ (m : List UInt8) (n : Nat) :
    exactOff m (n + 1) = exactOff m n + roundUp8 (field m (buflenOff n) 4) := by
  unfold exactOff
  rw [hostLens_concat, sumRounded_append, sumRounded_cons, sumRounded_nil, add_assoc]
  rfl

theorem exactOff_mod (m : List UInt8) (n : Nat) : exactOff m n % 8 = 0 := by
  induction n with
  | zero => exact roundUp8_mod _
  | succ n ih =>
    have := roundUp8_mod (field m (buflenOff n) 4)
    rw [exactOff_succ]
    omega

/-- A buffer ends before a later one starts. -/
theorem exactOff_le {later : Nat} (m : List UInt8) (lt : n < later) :
    exactOff m n + field m (buflenOff n) 4 ≤ exactOff m later := by
  induction later with
  | zero => omega
  | succ later ih => grind [field, buflenOff, le_roundUp8, exactOff_succ]

/-- Whether a message comes in the other byte order. -/
def isSwabbed (m : List UInt8) : Bool := decide (field m magicOff 4 = lustreMsgMagicV2Swabbed)

/-- `lm_bufcount` of a received message. -/
def bufcount (m : List UInt8) : Nat := hostWord (isSwabbed m) m 0

/-- `lm_buflens` of a received message. -/
def buflens (m : List UInt8) : List Nat := hostLens (isSwabbed m) m 0 (bufcount m)

/-- The message after its words have been brought into the host's byte order. -/
structure Unpacked (m m' : List UInt8) : Prop where
  length : m'.length = m.length
  count : field m' 0 4 = bufcount m
  lengths : hostLens false m' 0 (bufcount m) = buflens m
  buffers : ∀ other len, buflenOff (bufcount m) ≤ other →
    (m'.drop other).take len = (m.drop other).take len

/-- Up to the comparison with the size of the header. -/
theorem lustreUnpackMsg_header (long : 32 ≤ m.length) :
    ∃ m₁, m₁.length = m.length ∧ field m₁ 0 4 = bufcount m ∧
      (∀ other len, 24 ≤ other → (m₁.drop other).take len = (m.drop other).take len) ∧
      lustreUnpackMsg m =
        if (m.length : Int) < lustreMsgHdrSizeV2 (bufcount m) then .ok (einval, m₁)
        else unpackLens (isSwabbed m) (bufcount m) m₁ := by
  obtain ⟨m₁, swabs, length₁, count₁, others₁⟩ := swabHeader_ok (isSwabbed m) long
  have magic : magicOff + 4 ≤ m.length := le_trans (by decide) long
  have header : ¬ (m.length : Int) < lustreMsgHdrSizeV2 0 := by
    have size : lustreMsgHdrSizeV2 0 = 32 := by decide +kernel
    omega
  have start : lustreUnpackMsg m = unpackHost (isSwabbed m) m := by
    unfold lustreUnpackMsg lustreUnpackMsgV2
    rw [if_neg (not_lt.mpr magic), if_neg header, get32_ok magic, bind_ok, isSwabbed]
  refine ⟨m₁, length₁, count₁, others₁, ?_⟩
  rw [start, unpackHost, swabs, bind_ok, get32_ok (by omega), bind_ok, count₁, length₁, bufcount]

theorem lustreUnpackMsg_fault (long : 32 ≤ m.length)
    (passes : ¬ (m.length : Int) < lustreMsgHdrSizeV2 (bufcount m))
    (outside : m.length < buflenOff (bufcount m)) : ∃ fault, lustreUnpackMsg m = .error fault := by
  obtain ⟨m₁, length₁, -, -, start⟩ := lustreUnpackMsg_header long
  rw [← length₁] at outside long
  rw [← zero_add (bufcount m)] at outside
  obtain ⟨fault, loop⟩ := unpackBuflens_fault (isSwabbed m) (i := 0) long outside
    (lustreMsgHdrSizeV2 (bufcount m))
  refine ⟨fault, ?_⟩
  rw [start, if_neg passes, unpackLens, loop, bind_error]

theorem lustreUnpackMsg_lens (long : 32 ≤ m.length)
    (passes : ¬ (m.length : Int) < lustreMsgHdrSizeV2 (bufcount m))
    (inside : buflenOff (bufcount m) ≤ m.length) :
    ∃ m', Unpacked m m' ∧ lustreUnpackMsg m =
      .ok (if (m.length : Int) < lustreMsgSizeV2 (buflens m) then einval
        else if isSwabbed m then 1 else 0, m') := by
  obtain ⟨m₁, length₁, count₁, others₁, start⟩ := lustreUnpackMsg_header long
  have same : hostLens (isSwabbed m) m₁ 0 (bufcount m) = buflens m := by
    refine hostLens_congr fun j _ _ => ?_
    unfold hostWord field
    rw [others₁ (buflenOff j) 4 (by unfold buflenOff; omega)]
  obtain ⟨m', loop, done⟩ := unpackBuflens_ok (isSwabbed m)
    (show buflenOff (0 + bufcount m) ≤ m₁.length by rw [length₁, zero_add]; exact inside)
    (exactHdr (bufcount m))
  refine ⟨m', ⟨done.length.trans length₁, ?_, ?_, fun other len behind => ?_⟩, ?_⟩
  · rw [← count₁]
    unfold field
    rw [done.others 0 4 (.inl (by decide))]
  · rw [← same]
    refine map_congr_left fun j mem => ?_
    obtain ⟨low, high⟩ := mem_range'_1.mp mem
    exact done.fields j low high
  · rw [done.others other len (.inr (by rw [zero_add]; exact behind)),
      others₁ other len (by unfold buflenOff at behind; omega)]
  · have count : (buflens m).length = bufcount m := by simp [buflens, hostLens]
    rw [same] at loop
    rw [start, if_neg passes, unpackLens, lustreMsgHdrSizeV2_eq, loop, bind_ok,
      lustreMsgSizeV2_eq, exactSize, count, done.length, length₁]
    split
    · rfl
    · rfl

/-! ### Safety -/

/-- The buffer of a message in the host's byte order lies in the bytes of the message. -/
def BufferInside (m : List UInt8) (n : Nat) (off : Int) : Prop :=
  lustreMsgBufV2 m n 0 = .ok (some off) ∧ 0 ≤ off ∧
    off + field m (buflenOff n) 4 ≤ m.length

/-- Header, lengths and buffers lie in the bytes of the message, and the buffers apart from
each other. -/
structure Inside (m : List UInt8) : Prop where
  header : 32 ≤ m.length
  lengths : buflenOff (field m 0 4) ≤ m.length
  buffers : ∀ n, n < field m 0 4 → ∃ off, BufferInside m n off
  disjoint : ∀ n n' off off', n ≠ n' → n < field m 0 4 → n' < field m 0 4 →
    BufferInside m n off → BufferInside m n' off' →
    off + field m (buflenOff n) 4 ≤ off' ∨ off' + field m (buflenOff n') 4 ≤ off

/-- Unpacking returns an error, or what it accepts lies in the received bytes; nothing else is
touched. -/
def UnpackSafe (m : List UInt8) : Prop :=
  Outcome (fun result => result.1 < 0 ∨ (result.2.length = m.length ∧ Inside result.2))
    (fun _ => False) (lustreUnpackMsg m)

/-- A size is an `int`, or it is 2^31 and only padding has not been received. -/
def FitsInt (size padding len : Nat) : Prop :=
  size < 2 ^ 31 ∨ (size = 2 ^ 31 ∧ size ≤ len + padding)

/-- The padding behind the last buffer. -/
def lastPadding (lengths : List Nat) : Nat :=
  match lengths.getLast? with
  | none => 0
  | some length => roundUp8 length - length

/-- The sizes that pass the comparisons have not wrapped around. -/
def SizesFit (m : List UInt8) : Prop :=
  32 ≤ m.length → lustreMsgHdrSizeV2 (bufcount m) ≤ m.length →
    FitsInt (exactHdr (bufcount m)) (exactHdr (bufcount m) - buflenOff (bufcount m)) m.length ∧
      (lustreMsgSizeV2 (buflens m) ≤ m.length →
        FitsInt (exactSize (buflens m)) (lastPadding (buflens m)) m.length)

/-- `lustre_msg_buf_v2` computes the exact place of a buffer that ends below 2^31. -/
theorem lustreMsgBufV2_exact (lengths : buflenOff (field m 0 4) ≤ m.length)
    (range : field m 0 4 < 2 ^ 31) (lt : n < field m 0 4)
    (small : exactOff m n + field m (buflenOff n) 4 < 2 ^ 31) :
    lustreMsgBufV2 m n 0 = .ok (some (exactOff m n : Int)) := by
  have len : int32 (field m (buflenOff n) 4) = (field m (buflenOff n) 4 : Nat) :=
    int32_of_lt (Int.natCast_nonneg _) (by omega)
  have off : int32 (exactOff m n) = (exactOff m n : Nat) :=
    int32_of_lt (Int.natCast_nonneg _) (by omega)
  rw [lustreMsgBufV2_eq lt range lengths, len, off, if_neg (by omega)]

/-- Where the exact places fit, the message is inside. -/
theorem inside_of_exact (int : m'.length < 2 ^ 31) (header : 32 ≤ m'.length)
    (lengths : buflenOff (field m' 0 4) ≤ m'.length)
    (ends : ∀ n, n < field m' 0 4 → exactOff m' n + field m' (buflenOff n) 4 ≤ m'.length) :
    Inside m' := by
  have place : ∀ n, n < field m' 0 4 → lustreMsgBufV2 m' n 0 = .ok (some (exactOff m' n : Int)) :=
    fun n lt => lustreMsgBufV2_exact lengths (by unfold buflenOff at lengths; omega) lt
      (lt_of_le_of_lt (ends n lt) int)
  have unique : ∀ n off, n < field m' 0 4 → BufferInside m' n off → off = exactOff m' n := by
    intro n off lt buffer
    have same := (place n lt).symm.trans buffer.1
    simp only [Except.ok.injEq, Option.some.injEq] at same
    exact same.symm
  refine ⟨header, lengths, fun n lt => ⟨exactOff m' n, place n lt, ?_, ?_⟩, ?_⟩
  · omega
  · have := ends n lt
    omega
  · intro n n' off off' different lt lt' buffer buffer'
    rw [unique n off lt buffer, unique n' off' lt' buffer']
    rcases Nat.lt_or_gt_of_ne different with before | before
    · have := exactOff_le m' before
      omega
    · have := exactOff_le m' before
      omega

theorem exactHdr_le {len : Nat} (lengths : buflenOff count ≤ len) (int : len < 2 ^ 31) :
    exactHdr count ≤ 2 ^ 31 := by
  unfold exactHdr roundUp8 buflenOff at *
  omega

/-- In a message that is inside, the exact places fit. -/
theorem exact_of_inside (int : m'.length < 2 ^ 31) (inside : Inside m') (lt : n < field m' 0 4) :
    exactOff m' n + field m' (buflenOff n) 4 ≤ m'.length := by
  have range : field m' 0 4 < 2 ^ 31 := by
    have := inside.lengths
    unfold buflenOff at this
    omega
  -- the place that is computed is the exact one, as soon as that is at most 2^31
  have computed : ∀ n, n < field m' 0 4 → exactOff m' n ≤ 2 ^ 31 →
      exactOff m' n + field m' (buflenOff n) 4 ≤ m'.length := by
    intro n lt bound
    obtain ⟨off, place, positive, fits⟩ := inside.buffers n lt
    rw [lustreMsgBufV2_eq lt range inside.lengths] at place
    split at place
    · cases place
    · simp only [Except.ok.injEq, Option.some.injEq] at place
      have small : exactOff m' n < 2 ^ 31 := by
        by_contra large
        have := int32_of_ge (show (2 : Int) ^ 31 ≤ (exactOff m' n : Nat) by omega) (by omega)
        omega
      rw [int32_of_lt (Int.natCast_nonneg _) (by omega)] at place
      omega
  induction n with
  | zero =>
    apply computed 0 lt
    exact exactHdr_le inside.lengths int
  | succ n ih => grind [roundUp8, exactOff_mod, exactOff_succ]

theorem Unpacked.exactSize_eq (unpacked : Unpacked m m') :
    exactSize (buflens m) = exactOff m' (bufcount m) := by
  have count : (buflens m).length = bufcount m := by simp [buflens, hostLens]
  unfold exactOff
  rw [unpacked.lengths, unpacked.count, exactSize, count]

theorem Unpacked.lastPadding_eq (unpacked : Unpacked m m') (count : bufcount m = n + 1) :
    lastPadding (buflens m) =
      roundUp8 (field m' (buflenOff n) 4) - field m' (buflenOff n) 4 := by
  have lengths := unpacked.lengths
  rw [count, hostLens_concat] at lengths
  unfold lastPadding
  rw [← lengths, getLast?_concat]
  rfl

theorem sizesFit_of_safe (int : m.length < 2 ^ 31) (safe : UnpackSafe m) : SizesFit m := by
  intro long passes
  have passes' : ¬ (m.length : Int) < lustreMsgHdrSizeV2 (bufcount m) := Int.not_lt.mpr passes
  have inside : buflenOff (bufcount m) ≤ m.length := by
    by_contra outside
    obtain ⟨fault, fails⟩ := lustreUnpackMsg_fault long passes' (not_le.mp outside)
    rw [UnpackSafe, fails] at safe
    exact safe
  have header := exactHdr_le inside int
  refine ⟨?_, fun sizePasses => ?_⟩
  · unfold FitsInt
    omega
  · obtain ⟨m', unpacked, accepted⟩ := lustreUnpackMsg_lens long passes' inside
    rw [UnpackSafe, accepted] at safe
    have inside' : Inside m' := by
      rcases safe with negative | ⟨-, inside'⟩
      · split at negative <;> omega
      · exact inside'
    rw [unpacked.exactSize_eq]
    cases count : bufcount m with
    | zero =>
      left
      have size : exactOff m' 0 = 32 := by
        show exactHdr (field m' 0 4) = 32
        rw [unpacked.count, count]
        rfl
      omega
    | succ n =>
      have last := exact_of_inside (unpacked.length ▸ int) inside'
        (show n < field m' 0 4 by rw [unpacked.count]; omega)
      have aligned := exactOff_mod m' n
      have padding := unpacked.lastPadding_eq count
      have round' := roundUp8_lt (field m' (buflenOff n) 4)
      have multiple := roundUp8_mod (field m' (buflenOff n) 4)
      have length := unpacked.length
      unfold FitsInt
      rw [exactOff_succ, padding]
      omega

theorem lustreUnpackMsg_tooShort (short : m.length < 32) : lustreUnpackMsg m = .ok (einval, m) := by
  have header : lustreMsgHdrSizeV2 0 = 32 := by decide +kernel
  unfold lustreUnpackMsg lustreUnpackMsgV2
  by_cases magic : m.length < magicOff + 4
  · rw [if_pos magic]
  · rw [if_neg magic, header, if_pos (by omega)]

theorem safe_of_sizesFit (int : m.length < 2 ^ 31) (fit : SizesFit m) : UnpackSafe m := by
  unfold UnpackSafe
  by_cases long : 32 ≤ m.length
  swap
  · rw [lustreUnpackMsg_tooShort (not_le.mp long)]
    exact .inl (show einval < 0 by decide)
  by_cases passes : (m.length : Int) < lustreMsgHdrSizeV2 (bufcount m)
  · obtain ⟨m', -, -, -, start⟩ := lustreUnpackMsg_header long
    rw [start, if_pos passes]
    exact .inl (show einval < 0 by decide)
  obtain ⟨header, size⟩ := fit long (Int.not_lt.mp passes)
  have least := exactHdr_ge (bufcount m)
  have inside : buflenOff (bufcount m) ≤ m.length := by
    unfold buflenOff at *
    rcases header with small | ⟨large, received⟩
    · rw [lustreMsgHdrSizeV2_eq, int32_of_lt (Int.natCast_nonneg _) (by omega)] at passes
      omega
    · omega
  obtain ⟨m', unpacked, result⟩ := lustreUnpackMsg_lens long passes inside
  rw [result]
  by_cases sizePasses : (m.length : Int) < lustreMsgSizeV2 (buflens m)
  · rw [if_pos sizePasses]
    exact .inl (show einval < 0 by decide)
  have length := unpacked.length
  have count := unpacked.count
  have lengths : buflenOff (field m' 0 4) ≤ m'.length := by
    rw [count]
    omega
  have ends : ∀ n, n < field m' 0 4 →
      exactOff m' n + field m' (buflenOff n) 4 ≤ m'.length := by
    intro n lt
    rw [count] at lt
    have fits := size (Int.not_lt.mp sizePasses)
    rw [unpacked.exactSize_eq] at fits
    have later := exactOff_le m' lt
    rcases fits with small | ⟨large, received⟩
    · rw [lustreMsgSizeV2_eq, unpacked.exactSize_eq,
        int32_of_lt (Int.natCast_nonneg _) (by omega)] at sizePasses
      omega
    · -- only the padding of the last buffer is missing
      obtain ⟨last, eq⟩ : ∃ last, bufcount m = last + 1 := ⟨bufcount m - 1, by omega⟩
      rw [unpacked.lastPadding_eq eq, eq, exactOff_succ] at received
      have round := le_roundUp8 (field m' (buflenOff last) 4)
      by_cases same : n = last
      · rw [same]
        omega
      · have := exactOff_le m' (show n < last by omega)
        omega
  exact .inr ⟨length, inside_of_exact (length ▸ int) (length ▸ long) lengths ends⟩

/-- A message is unpacked safely exactly when the sizes compared with the received length have not
wrapped around. -/
theorem unpack_msg_safe_iff (m : List UInt8) (int : m.length < 2 ^ 31) :
    UnpackSafe m ↔ SizesFit m :=
  ⟨sizesFit_of_safe int, safe_of_sizesFit int⟩

/-- A header for three buffers whose lengths add up to 2^32. -/
def wrappedLengths : List UInt8 :=
  [3, 0, 0, 0, 0, 0, 0, 0, 0xD3, 0x0B, 0xD0, 0x0B, 0, 0, 0, 0,
    0, 0, 0, 0, 0, 0, 0, 0, 0, 0, 0, 0, 0, 0, 0, 0,
    0xF8, 0xFF, 0xFF, 0x7F, 0xF8, 0xFF, 0xFF, 0x7F, 0x10, 0, 0, 0, 0, 0, 0, 0]

/-- The message of 48 bytes is accepted, and its first buffer has 2147483640 bytes. -/
theorem wrapped_lengths_accepted :
    wrappedLengths.length = 48 ∧ lustreUnpackMsg wrappedLengths = .ok (0, wrappedLengths) ∧
      lustreMsgBufV2 wrappedLengths 0 0 = .ok (some 48) ∧
      field wrappedLengths (buflenOff 0) 4 = 2147483640 ∧ ¬ UnpackSafe wrappedLengths := by
  refine ⟨by decide, by decide +kernel, by decide +kernel, by decide +kernel, fun safe => ?_⟩
  have fit := sizesFit_of_safe (by decide) safe (by decide) (by decide +kernel)
  have size : exactSize (buflens wrappedLengths) = 2 ^ 32 + 48 := by decide +kernel
  have fits := fit.2 (by decide +kernel)
  unfold FitsInt at fits
  omega

/-- A message with buffers of 4 and 8 bytes in the other byte order. -/
def twoBuffers : List UInt8 :=
  [0, 0, 0, 2, 0, 0, 0, 0, 0x0B, 0xD0, 0x0B, 0xD3, 0, 0, 0, 0,
    0, 0, 0, 0, 0, 0, 0, 0, 0, 0, 0, 0, 0, 0, 0, 0,
    0, 0, 0, 4, 0, 0, 0, 8, 1, 2, 3, 4, 0, 0, 0, 0, 5, 6, 7, 8, 9, 10, 11, 12]

theorem unpack_msg_safe_twoBuffers : twoBuffers.length < 2 ^ 31 ∧ UnpackSafe twoBuffers := by
  refine ⟨by decide, (unpack_msg_safe_iff twoBuffers (by decide)).mpr ?_⟩
  intro _ _
  exact ⟨.inl (by decide +kernel), fun _ => .inl (by decide +kernel)⟩

end Ptlrpc
