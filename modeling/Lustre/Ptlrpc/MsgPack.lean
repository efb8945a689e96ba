/-
Module: Lustre.Ptlrpc.MsgPack
Purpose: A message that is built from buffers, shrunk any number of times, sent in either byte
  order and unpacked has the buffers as they were, cut to their last lengths.
Trusted boundary: none
-/
import Lustre.Ptlrpc.Msg

namespace Ptlrpc

open Bytes List Run

variable {m : List UInt8} {lens : List Nat} {bufs : List (List UInt8)}

/-! ### Places -/

/-- The place of a buffer in a message with the given lengths. -/
def placeOf (lens : List Nat) (n : Nat) : Nat := exactHdr lens.length + sumRounded (lens.take n)

variable (lens)

theorem exactHdr_le_placeOf (n : Nat) : exactHdr lens.length ≤ placeOf lens n :=
  Nat.le_add_right _ _

theorem placeOf_length : placeOf lens lens.length = exactSize lens := by
  rw [placeOf, take_length, exactSize]

theorem placeOf_succ (n : Nat) :
    placeOf lens (n + 1) = placeOf lens n + roundUp8 (lens.getD n 0) := by
  unfold placeOf
  rw [take_add_one, sumRounded_append, getD_eq_getElem?_getD, add_assoc]
  cases lens[n]? <;> simp [roundUp8]

variable {n : Nat}

theorem placeOf_mono {later : Nat} (le : n ≤ later) :
    placeOf lens n ≤ placeOf lens later := by
  induction later with
  | zero => exact le_of_eq (by rw [Nat.le_zero.mp le])
  | succ later ih =>
    rcases Nat.lt_or_eq_of_le le with lt | rfl
    · rw [placeOf_succ]
      exact le_trans (ih (Nat.le_of_lt_succ lt)) (Nat.le_add_right _ _)
    · exact le_rfl

/-- A buffer ends before a later one starts. -/
theorem placeOf_le {later : Nat} (lt : n < later) :
    placeOf lens n + lens.getD n 0 ≤ placeOf lens later := by
  have next := placeOf_mono lens (show n + 1 ≤ later from lt)
  have round := le_roundUp8 (lens.getD n 0)
  rw [placeOf_succ] at next
  omega

variable {segment : Nat} (newlen : Nat)

theorem placeOf_set_of_le (le : n ≤ segment) :
    placeOf (lens.set segment newlen) n = placeOf lens n := by
  unfold placeOf
  rw [length_set, take_set_of_le le]

theorem getD_set_of_ne (ne : n ≠ segment) :
    (lens.set segment newlen).getD n 0 = lens.getD n 0 := by
  rw [getD_eq_getElem?_getD, getD_eq_getElem?_getD, getElem?_set_ne ne.symm]

theorem getD_set_self (lt : segment < lens.length) :
    (lens.set segment newlen).getD segment 0 = newlen := by
  rw [getD_eq_getElem?_getD, getElem?_set_self lt]
  rfl

/-- Later buffers move by the difference of the rounded lengths. -/
theorem placeOf_set_of_lt (inside : segment < lens.length)
    (lt : segment < n) : placeOf (lens.set segment newlen) n + roundUp8 (lens.getD segment 0) =
      placeOf lens n + roundUp8 newlen := by
  induction n with
  | zero => omega
  | succ n ih =>
    rw [placeOf_succ, placeOf_succ]
    by_cases here : n = segment
    · rw [here, getD_set_self lens newlen inside, placeOf_set_of_le lens newlen le_rfl]
      omega
    · rw [getD_set_of_ne lens newlen here]
      omega

theorem exactSize_set (inside : segment < lens.length) :
    exactSize (lens.set segment newlen) + roundUp8 (lens.getD segment 0) =
      exactSize lens + roundUp8 newlen := by
  grind [placeOf_set_of_lt, length_set, placeOf_length]

variable {lens newlen}

theorem placeOf_inside (lt : n < lens.length) : placeOf lens n + lens.getD n 0 ≤ exactSize lens :=
  placeOf_length lens ▸ placeOf_le lens lt

theorem lustreMsgHdrSizeV2_exact (small : exactHdr n < 2 ^ 31) : lustreMsgHdrSizeV2 n = exactHdr n := by
  rw [lustreMsgHdrSizeV2_eq]
  exact int32_of_lt (Int.natCast_nonneg _) (by omega)

theorem lustreMsgSizeV2_exact (small : exactSize lens < 2 ^ 31) :
    lustreMsgSizeV2 lens = exactSize lens := by
  rw [lustreMsgSizeV2_eq]
  exact int32_of_lt (Int.natCast_nonneg _) (by omega)

/-! ### Messages with given lengths -/

/-- The header of a message says that it has buffers of these lengths. -/
structure Headed (m : List UInt8) (lens : List Nat) : Prop where
  room : exactSize lens ≤ m.length
  count : field m 0 4 = lens.length
  lengths : ∀ n, n < lens.length → field m (buflenOff n) 4 = lens.getD n 0

namespace Headed

variable (headed : Headed m lens)

include headed

theorem buflenOff_le : buflenOff lens.length ≤ m.length :=
  le_trans (exactHdr_ge _) (le_trans (Nat.le_add_right _ _) headed.room)

theorem buflen_inside (lt : n < lens.length) : buflenOff n + 4 ≤ m.length := by
  have := headed.buflenOff_le
  unfold buflenOff at *
  omega

/-- What only the header says. -/
theorem front {m' : List UInt8} (room : exactSize lens ≤ m'.length)
    (same : ∀ off, off + 4 ≤ exactHdr lens.length → (m'.drop off).take 4 = (m.drop off).take 4) :
    Headed m' lens ∧ field m' magicOff 4 = field m magicOff 4 := by
  have header := exactHdr_ge lens.length
  have word (off : Nat) (low : off + 4 ≤ 32 + 4 * lens.length) : field m' off 4 = field m off 4 :=
    congrArg le (same off (by omega))
  refine ⟨⟨room, ?_, fun n lt => ?_⟩, word _ (by unfold magicOff; omega)⟩
  · rw [word 0 (by omega), headed.count]
  · rw [word _ (by unfold buflenOff; omega), headed.lengths n lt]

theorem hostLens_eq (le : n ≤ lens.length) : hostLens false m 0 n = lens.take n := by
  induction n with
  | zero => rfl
  | succ n ih =>
    have here : hostWord false m (buflenOff n) = lens.getD n 0 := headed.lengths n le
    rw [hostLens_concat, ih (Nat.le_of_succ_le le), here, take_add_one,
      getElem?_eq_getElem le, getD_eq_getElem?_getD, getElem?_eq_getElem le]
    rfl

theorem readBuflens_all : readBuflens m lens.length 0 = .ok lens := by
  have inside : buflenOff (0 + lens.length) ≤ m.length := by
    rw [zero_add]
    exact headed.buflenOff_le
  rw [readBuflens_ok inside, headed.hostLens_eq le_rfl, take_length]

theorem readBuflens_later (le : n ≤ lens.length) :
    readBuflens m (lens.length - n) n = .ok (lens.drop n) := by
  have total : n + (lens.length - n) = lens.length := by omega
  have inside : buflenOff (n + (lens.length - n)) ≤ m.length := by
    rw [total]
    exact headed.buflenOff_le
  rw [readBuflens_ok inside]
  congr 1
  apply ext_getElem?
  intro i
  unfold hostLens
  rw [getElem?_map, getElem?_drop]
  by_cases lt : i < lens.length - n
  · have word := headed.lengths (n + i) (by omega)
    rw [getElem?_range' lt, getElem?_eq_getElem (show n + i < lens.length by omega)]
    rw [getD_eq_getElem?_getD, getElem?_eq_getElem (show n + i < lens.length by omega)] at word
    simp only [Option.map_some, one_mul]
    exact congrArg some word
  · grind

theorem lustreMsgBufV2_place (small : exactSize lens < 2 ^ 31) (lt : n < lens.length) :
    lustreMsgBufV2 m n 0 = .ok (some (placeOf lens n : Int)) := by
  have place : exactOff m n = placeOf lens n := by
    rw [exactOff, headed.count, headed.hostLens_eq lt.le, placeOf]
  have fits := placeOf_inside lt
  have range := exactHdr_ge lens.length
  rw [← place]
  apply lustreMsgBufV2_exact
  · rw [headed.count]
    exact headed.buflenOff_le
  · rw [headed.count]
    unfold exactSize at small
    omega
  · rw [headed.count]
    exact lt
  · rw [place, headed.lengths n lt]
    omega

end Headed

/-- The message has the buffers, cut to its lengths. -/
structure Packed (m : List UInt8) (bufs : List (List UInt8)) (lens : List Nat) : Prop where
  headed : Headed m lens
  magic : field m magicOff 4 = lustreMsgMagicV2
  contents : ∀ n, n < lens.length → lens.getD n 0 ≤ (bufs.getD n []).length ∧
    (m.drop (placeOf lens n)).take (lens.getD n 0) = (bufs.getD n []).take (lens.getD n 0)

/-! ### Shrinking -/

variable {off : Nat}

section

variable (inside : off + 4 ≤ m.length)

include inside

theorem put32_ok (value : Nat) :
    put32 m off value = .ok (writeAt m off (toLe value 4)) := if_pos inside

theorem field_put32 {value : Nat} (small : value < 2 ^ 32) :
    field (writeAt m off (toLe value 4)) off 4 = value := by
  grind [field, writeAt, toLe, le, field_writeAt, length_toLe, le_toLe]

theorem take_put32 {value other len : Nat} (apart : other + len ≤ off ∨ off + 4 ≤ other) :
    ((writeAt m off (toLe value 4)).drop other).take len = (m.drop other).take len :=
  take_writeAt_of_disjoint inside apart

theorem length_put32 (value : Nat) :
    (writeAt m off (toLe value 4)).length = m.length := length_writeAt inside

end

theorem sumRounded_drop (lens : List Nat) (n : Nat) :
    placeOf lens n + sumRounded (lens.drop n) = exactSize lens := by
  have parts : sumRounded (lens.take n) + sumRounded (lens.drop n) = sumRounded lens := by
    rw [← sumRounded_append, take_append_drop]
  unfold placeOf exactSize
  omega

/-- What is left of a message after its later buffers moved from the places for `lens` to those for
`lens'`. -/
structure Moved (m : List UInt8) (segment : Nat) (lens lens' : List Nat) (m' : List UInt8) :
    Prop where
  length : m'.length = m.length
  front : ∀ off len, off + len ≤ placeOf lens' (segment + 1) →
    (m'.drop off).take len = (m.drop off).take len
  later : ∀ n, segment < n → n < lens.length →
    (m'.drop (placeOf lens' n)).take (lens.getD n 0) =
      (m.drop (placeOf lens n)).take (lens.getD n 0)

theorem moveTail_ok {lens' : List Nat} (headed : Headed m lens') (small : exactSize lens' < 2 ^ 31)
    (same : lens'.length = lens.length) (inside : segment + 1 < lens.length)
    (room : exactSize lens ≤ m.length)
    (below : ∀ n, segment < n → placeOf lens' n + placeOf lens (segment + 1) = placeOf lens n + placeOf lens' (segment + 1))
    (le : placeOf lens' (segment + 1) ≤ placeOf lens (segment + 1)) :
    ∃ m', moveTail m segment (placeOf lens (segment + 1) : Int)
        (sumRounded (lens.drop (segment + 1)) : Int) = .ok m' ∧ Moved m segment lens lens' m' := by
  have total := sumRounded_drop lens (segment + 1)
  have found := headed.lustreMsgBufV2_place small (by rw [same]; exact inside)
  unfold moveTail
  rw [found, bind_ok]
  simp only
  rw [if_neg (by omega)]
  by_cases stays : placeOf lens' (segment + 1) = placeOf lens (segment + 1)
  · rw [if_pos (by omega)]
    refine ⟨m, rfl, rfl, fun _ _ _ => rfl, fun n lt _ => ?_⟩
    have := below n lt
    rw [show placeOf lens' n = placeOf lens n by omega]
  · rw [if_neg (by omega), Int.toNat_natCast, Int.toNat_natCast, Int.toNat_natCast]
    have length : ((m.drop (placeOf lens (segment + 1))).take
        (sumRounded (lens.drop (segment + 1)))).length = sumRounded (lens.drop (segment + 1)) := by
      rw [length_take, length_drop]
      omega
    have target : placeOf lens' (segment + 1) + ((m.drop (placeOf lens (segment + 1))).take
        (sumRounded (lens.drop (segment + 1)))).length ≤ m.length := by omega
    refine ⟨_, if_pos target, length_writeAt target, fun off len before => ?_, fun n lt inside => ?_⟩
    · exact take_writeAt_of_disjoint target (.inl before)
    · have ends := placeOf_inside inside
      have start := placeOf_mono lens (show segment + 1 ≤ n from lt)
      have moved := below n lt
      obtain ⟨i, place⟩ : ∃ i, placeOf lens n = placeOf lens (segment + 1) + i :=
        ⟨placeOf lens n - placeOf lens (segment + 1), by omega⟩
      rw [show placeOf lens' n = placeOf lens' (segment + 1) + i by omega, place,
        take_writeAt_inside (by omega) (by omega), drop_take, take_take, drop_drop, min_eq_left (by omega)]

theorem packedSize_ok (headed : Headed m lens) :
    packedSize m lens.length = .ok (lustreMsgSizeV2 lens, m) := by
  rw [packedSize, headed.readBuflens_all, bind_ok]

theorem addRounded_zero {lengths : List Nat} (small : sumRounded lengths < 2 ^ 31) :
    addRounded 0 lengths = sumRounded lengths := by
  have zero : (0 : Int) = int32 ((0 : Nat) : Int) := by decide
  rw [zero, addRounded_eq, zero_add]
  exact int32_of_lt (Int.natCast_nonneg _) (by omega)

section

variable (inside : segment < lens.length)

include inside

/-- The bytes that a new length is written over lie in front of the buffers. -/
theorem take_setLength (headed : Headed m lens)
    (behind : exactHdr lens.length ≤ off) (len : Nat) :
    ((writeAt m (buflenOff segment) (toLe newlen 4)).drop off).take len = (m.drop off).take len := by
  have header := exactHdr_ge lens.length
  refine take_put32 (headed.buflen_inside inside) (.inr ?_)
  unfold buflenOff
  omega

variable (le : newlen ≤ lens.getD segment 0)

include le

theorem Headed.set (headed : Headed m lens) (word : newlen < 2 ^ 32) :
    Headed (writeAt m (buflenOff segment) (toLe newlen 4)) (lens.set segment newlen) := by
  have place := headed.buflen_inside inside
  have size := exactSize_set lens newlen inside
  have round := roundUp8_mono le
  refine ⟨?_, ?_, fun n lt => ?_⟩
  · rw [length_put32 place]
    have := headed.room
    omega
  · rw [length_set, ← headed.count]
    refine congrArg Bytes.le (take_put32 place (.inl ?_))
    unfold buflenOff
    omega
  · grind [buflenOff, length_set, getD_set_self, field_put32,
      getD_set_of_ne, field_writeAt_of_disjoint, length_toLe, cases Headed]

/-- Shrinking a buffer keeps the others and a part of its own contents. -/
theorem Packed.moved {m₂ : List UInt8} (packed : Packed m bufs lens)
    (moved : Moved (writeAt m (buflenOff segment) (toLe newlen 4)) segment lens (lens.set segment newlen) m₂)
    (word : newlen < 2 ^ 32) : Packed m₂ bufs (lens.set segment newlen) := by
  have headed := packed.headed.set inside le word
  have length : (lens.set segment newlen).length = lens.length := length_set
  obtain ⟨headed, magic⟩ := headed.front (moved.length ▸ headed.room) fun off low =>
    moved.front off 4 (low.trans (exactHdr_le_placeOf _ _))
  refine ⟨headed, magic.trans ?_, fun n lt => ?_⟩
  · rw [← packed.magic]
    refine congrArg Bytes.le (take_put32 (packed.headed.buflen_inside inside) (.inl ?_))
    unfold buflenOff magicOff
    omega
  · rw [length] at lt
    obtain ⟨fits, same⟩ := packed.contents n lt
    have behind := exactHdr_le_placeOf lens n
    rcases Nat.lt_trichotomy n segment with before | here | after
    · grind [placeOf_le, getD_set_of_ne, placeOf_set_of_le, take_setLength,
        Function.update_apply, cases Packed, cases Moved]
    · subst here
      have ends := placeOf_le (lens.set n newlen) (Nat.lt_succ_self n)
      rw [getD_set_self lens newlen inside] at ends ⊢
      rw [placeOf_set_of_le lens newlen le_rfl] at ends ⊢
      rw [moved.front _ _ ends, take_setLength inside packed.headed behind]
      refine ⟨by omega, ?_⟩
      have shorter := congrArg (take newlen) same
      rwa [take_take, take_take, min_eq_left le] at shorter
    · rw [getD_set_of_ne lens newlen (by omega), moved.later n after lt,
        take_setLength inside packed.headed behind]
      exact ⟨fits, same⟩

theorem closeGap_ok {m₁ : List UInt8} (headed : Headed m lens)
    (headed₁ : Headed m₁ (lens.set segment newlen)) (same : m₁.length = m.length)
    (small : exactSize lens < 2 ^ 31) :
    ∃ tail m₂, tailStart m lens.length segment = .ok tail ∧
      closeGap m₁ segment tail (addRounded 0 (lens.drop (segment + 1))) = .ok m₂ ∧
      Moved m₁ segment lens (lens.set segment newlen) m₂ := by
  have total := sumRounded_drop lens (segment + 1)
  have size := exactSize_set lens newlen inside
  have round := roundUp8_mono le
  unfold tailStart
  by_cases last : lens.length > segment + 1
  · rw [if_pos last, headed.lustreMsgBufV2_place small last, addRounded_zero (by omega)]
    unfold closeGap
    by_cases empty : sumRounded (lens.drop (segment + 1)) = 0
    · refine ⟨_, m₁, rfl, by simp [empty], rfl, fun _ _ _ => rfl, fun n lt inside => ?_⟩
      have ends := placeOf_inside inside
      have start := placeOf_mono lens (show segment + 1 ≤ n from lt)
      rw [show lens.getD n 0 = 0 by omega, take_zero, take_zero]
    · have moved : ∀ n, segment < n →
          placeOf (lens.set segment newlen) n + roundUp8 (lens.getD segment 0) =
            placeOf lens n + roundUp8 newlen :=
        fun n lt => placeOf_set_of_lt lens newlen inside lt
      have next := moved (segment + 1) (Nat.lt_succ_self _)
      obtain ⟨m₂, done, result⟩ := moveTail_ok headed₁ (by omega) length_set last
        (by rw [same]; exact headed.room)
        (fun n lt => by have := moved n lt; omega) (by omega)
      refine ⟨_, m₂, rfl, ?_, result⟩
      simp only
      rw [if_neg (by omega)]
      exact done
  · rw [if_neg last]
    exact ⟨none, m₁, rfl, rfl, rfl, fun _ _ _ => rfl, fun n lt inside => by omega⟩

theorem lustreShrinkMsgV2_packed (packed : Packed m bufs lens) (small : exactSize lens < 2 ^ 31) :
    ∃ m', lustreShrinkMsgV2 m segment newlen =
        .ok (lustreMsgSizeV2 (lens.set segment newlen), m') ∧
      Packed m' bufs (lens.set segment newlen) := by
  have headed := packed.headed
  have place := headed.buflen_inside inside
  have ends := placeOf_inside inside
  unfold lustreShrinkMsgV2
  rw [get32_ok (by unfold buflenOff at *; omega), bind_ok, headed.count,
    if_neg (not_not.mpr inside), get32_ok place, bind_ok, headed.lengths segment inside,
    if_neg (not_not.mpr le)]
  by_cases unchanged : lens.getD segment 0 = newlen
  · grind [getElem?_eq_getElem, set_getElem_self, packedSize_ok]
  rw [if_neg unchanged]
  have length : (lens.set segment newlen).length = lens.length := length_set
  obtain ⟨tail, m₂, start, closed, moved⟩ :=
    closeGap_ok inside le headed (headed.set inside le (by omega)) (length_put32 place _) small
  have packed₂ := packed.moved inside le moved (by omega)
  refine ⟨m₂, ?_, packed₂⟩
  rw [start, bind_ok, headed.readBuflens_later inside, bind_ok, put32_ok place,
    bind_ok, closed, bind_ok]
  have final := packedSize_ok packed₂.headed
  rwa [length] at final

end

theorem storeLens_ok {lengths : List Nat} {i : Nat}
    (inside : buflenOff (i + lengths.length) ≤ m.length)
    (words : ∀ length ∈ lengths, length < 2 ^ 32) :
    ∃ m', storeLens m i lengths = .ok m' ∧ m'.length = m.length ∧
      (∀ n, n < lengths.length → field m' (buflenOff (i + n)) 4 = lengths.getD n 0) ∧
      ∀ off len, off + len ≤ buflenOff i → (m'.drop off).take len = (m.drop off).take len := by
  induction lengths generalizing i m with
  | nil => exact ⟨m, rfl, rfl, fun n lt => absurd lt (Nat.not_lt_zero n), fun _ _ _ => rfl⟩
  | cons length lengths ih =>
    obtain ⟨word, words⟩ := forall_mem_cons.mp words
    rw [length_cons] at inside
    have here : buflenOff i + 4 ≤ m.length := by
      unfold buflenOff at *
      omega
    have same := length_put32 here length
    obtain ⟨m', stored, length', fields, front⟩ := ih
      (show buflenOff (i + 1 + lengths.length) ≤ (writeAt m (buflenOff i) (toLe length 4)).length by
        rw [same, add_right_comm]
        exact inside) words
    refine ⟨m', ?_, length'.trans same, fun n lt => ?_, fun off len before => ?_⟩
    · rw [storeLens, put32_ok here, bind_ok, stored]
    · cases n with
      | zero =>
        rw [add_zero, getD_cons_zero, ← field_put32 here word]
        unfold field
        rw [front _ 4 (by unfold buflenOff; omega)]
      | succ n => grind
    · rw [front off len (by unfold buflenOff at *; omega), take_put32 here (.inl before)]

theorem storeBufs_ok {p : Nat} (inside : p + sumRounded (bufs.map (·.length)) ≤ m.length)
    (small : sumRounded (bufs.map (·.length)) < 2 ^ 31) :
    ∃ m', storeBufs m p bufs = .ok m' ∧ m'.length = m.length ∧
      (∀ off len, off + len ≤ p → (m'.drop off).take len = (m.drop off).take len) ∧
      ∀ n, n < bufs.length → (m'.drop (p + sumRounded ((bufs.map (·.length)).take n))).take
        (bufs.getD n []).length = bufs.getD n [] := by
  induction bufs generalizing p m with
  | nil => exact ⟨m, rfl, rfl, fun _ _ _ => rfl, fun n lt => absurd lt (Nat.not_lt_zero n)⟩
  | cons buf bufs ih =>
    rw [map_cons, sumRounded_cons] at inside small
    have round := le_roundUp8 buf.length
    have here : p + buf.length ≤ m.length := by omega
    have same := length_writeAt here
    obtain ⟨m', stored, length', front, contents⟩ := ih
      (show p + roundUp8 buf.length + sumRounded (bufs.map (·.length)) ≤ (writeAt m p buf).length by
        omega) (by omega)
    refine ⟨m', ?_, length'.trans same, fun off len before => ?_, fun n lt => ?_⟩
    · rw [storeBufs, Int.toNat_natCast, copyTo, if_pos here, bind_ok,
        cfsSizeRound_eq, int32_of_lt (Int.natCast_nonneg _) (by omega)]
      exact_mod_cast stored
    · rw [front off len (by omega), take_writeAt_of_disjoint here (.inl before)]
    · cases n with
      | zero =>
        have written : ((writeAt m p buf).drop (p + 0)).take buf.length =
            (buf.drop 0).take buf.length := take_writeAt_inside (by omega) (by omega)
        rw [add_zero, drop_zero, take_length] at written
        rw [getD_cons_zero, take_zero, sumRounded_nil, add_zero,
          front p buf.length (by omega), written]
      | succ n =>
        rw [getD_cons_succ, map_cons, take_succ_cons, sumRounded_cons, ← add_assoc]
        exact contents n (by rw [length_cons] at lt; omega)

theorem le_sumRounded {length : Nat} (mem : length ∈ lens) : length ≤ sumRounded lens := by
  induction lens with
  | nil => cases mem
  | cons first lens ih => grind [le_roundUp8, sumRounded_cons]

theorem lustreInitMsgV2_packed (small : exactSize (bufs.map (·.length)) < 2 ^ 31)
    (room : exactSize (bufs.map (·.length)) ≤ m.length) :
    ∃ m', lustreInitMsgV2 m bufs = .ok m' ∧ Packed m' bufs (bufs.map (·.length)) := by
  have length : (bufs.map (·.length)).length = bufs.length := length_map _
  have header := exactHdr_ge bufs.length
  unfold exactSize at small room
  rw [length] at small room
  have count : bufs.length < 2 ^ 32 := by omega
  have words : ∀ length ∈ bufs.map (·.length), length < 2 ^ 32 := by
    intro length mem
    have := le_sumRounded mem
    omega
  have place₀ : 0 + 4 ≤ m.length := by omega
  have length₀ := length_put32 place₀ bufs.length
  have place₁ : magicOff + 4 ≤ (writeAt m 0 (toLe bufs.length 4)).length := by
    unfold magicOff
    omega
  have length₁ := length_put32 place₁ lustreMsgMagicV2
  obtain ⟨m₂, storedLens, length₂, fields₂, front₂⟩ := storeLens_ok
    (show buflenOff (0 + (bufs.map (·.length)).length) ≤
      (writeAt (writeAt m 0 (toLe bufs.length 4)) magicOff (toLe lustreMsgMagicV2 4)).length by
        unfold buflenOff
        omega) words
  obtain ⟨m₃, storedBufs, length₃, front₃, contents₃⟩ := storeBufs_ok
    (show exactHdr bufs.length + sumRounded (bufs.map (·.length)) ≤ m₂.length by omega) (by omega)
  have field₃ : ∀ off, off + 4 ≤ 32 + 4 * bufs.length → field m₃ off 4 = field m₂ off 4 := by
    intro off low
    unfold field
    rw [front₃ off 4 (by omega)]
  refine ⟨m₃, ?_, ⟨?_, ?_, fun n lt => ?_⟩, ?_, fun n lt => ?_⟩
  · unfold lustreInitMsgV2
    rw [put32_ok place₀, bind_ok, put32_ok place₁, bind_ok, storedLens, bind_ok,
      lustreMsgHdrSizeV2_exact (by omega), storedBufs]
  · unfold exactSize
    rw [length]
    omega
  · rw [field₃ 0 (by omega), length, ← field_put32 place₀ count]
    unfold field
    rw [front₂ 0 4 (by decide), take_put32 place₁ (.inl (by decide))]
  · grind [buflenOff]
  · grind [magicOff, buflenOff, lustreMsgMagicV2, field, field_put32]
  · simp_all [placeOf, getD_eq_getElem?_getD, take_length]

/-- `lustre_shrink_msg_v2` called with segments and new lengths one after the other. -/
def shrinkAll : List (Nat × Nat) → List UInt8 → Except MsgFault (List Int × List UInt8)
  | [], m => .ok ([], m)
  | cut :: cuts, m => do
      let shrunk ← lustreShrinkMsgV2 m cut.1 cut.2
      let rest ← shrinkAll cuts shrunk.2
      .ok (shrunk.1 :: rest.1, rest.2)

/-- Each segment is there and its new length is at most the current one. -/
def Shrinks (lens : List Nat) : List (Nat × Nat) → Prop
  | [] => True
  | cut :: cuts => cut.1 < lens.length ∧ cut.2 ≤ lens.getD cut.1 0 ∧
      Shrinks (lens.set cut.1 cut.2) cuts

/-- The lengths after the shrinks. -/
def lastLens (lens : List Nat) (cuts : List (Nat × Nat)) : List Nat :=
  cuts.foldl (fun lens cut => lens.set cut.1 cut.2) lens

/-- The sizes of the message after each of the shrinks. -/
def cutSizes (lens : List Nat) : List (Nat × Nat) → List Int
  | [] => []
  | cut :: cuts => lustreMsgSizeV2 (lens.set cut.1 cut.2) :: cutSizes (lens.set cut.1 cut.2) cuts

theorem shrinkAll_packed {cuts : List (Nat × Nat)} (packed : Packed m bufs lens)
    (small : exactSize lens < 2 ^ 31) (shrinks : Shrinks lens cuts) :
    ∃ m', shrinkAll cuts m = .ok (cutSizes lens cuts, m') ∧ Packed m' bufs (lastLens lens cuts) ∧
      exactSize (lastLens lens cuts) < 2 ^ 31 := by
  induction cuts generalizing m lens with
  | nil => exact ⟨m, rfl, packed, small⟩
  | cons cut cuts ih =>
    obtain ⟨inside, le, rest⟩ := shrinks
    obtain ⟨m₁, shrunk, packed₁⟩ := lustreShrinkMsgV2_packed inside le packed small
    have size := exactSize_set lens cut.2 inside
    have round := roundUp8_mono le
    obtain ⟨m', done, packed', small'⟩ := ih packed₁ (by omega) rest
    refine ⟨m', ?_, packed', small'⟩
    rw [shrinkAll, shrunk, bind_ok, done, bind_ok, cutSizes]

/-! ### Receiving -/

/-- The bytes are accepted, and the buffers that are found hold the given contents, cut to
the given lengths. -/
def Received (bytes : List UInt8) (rc : Int) (bufs : List (List UInt8)) (lens : List Nat) : Prop :=
  ∃ m', lustreUnpackMsg bytes = .ok (rc, m') ∧ field m' 0 4 = lens.length ∧
    ∀ n, n < lens.length → ∃ off : Nat, lustreMsgBufV2 m' n 0 = .ok (some (off : Int)) ∧
      field m' (buflenOff n) 4 = lens.getD n 0 ∧ lens.getD n 0 ≤ (bufs.getD n []).length ∧
      (m'.drop off).take (lens.getD n 0) = (bufs.getD n []).take (lens.getD n 0)

theorem hostLens_getD (swabbed : Bool) (m : List UInt8) {count : Nat} (lt : n < count) :
    (hostLens swabbed m 0 count).getD n 0 = hostWord swabbed m (buflenOff n) := by
  unfold hostLens
  rw [getD_eq_getElem?_getD, getElem?_map, getElem?_range' lt]
  simp

/-- Bytes with these lengths and contents are received, in either byte order. -/
theorem received_of_contents {raw : List UInt8} (length : raw.length = exactSize lens)
    (small : exactSize lens < 2 ^ 31) (count : bufcount raw = lens.length)
    (lengths : buflens raw = lens)
    (contents : ∀ n, n < lens.length → lens.getD n 0 ≤ (bufs.getD n []).length ∧
      (raw.drop (placeOf lens n)).take (lens.getD n 0) =
        (bufs.getD n []).take (lens.getD n 0)) :
    Received raw (if isSwabbed raw then 1 else 0) bufs lens := by
  have header : buflenOff lens.length ≤ exactHdr lens.length := exactHdr_ge lens.length
  have room : exactHdr lens.length ≤ raw.length := by
    rw [length]
    exact Nat.le_add_right _ _
  obtain ⟨m', unpacked, accepted⟩ := lustreUnpackMsg_lens
    (show 32 ≤ raw.length by unfold buflenOff at header; omega)
    (by rw [count, lustreMsgHdrSizeV2_exact (by omega)]; omega) (by rw [count]; omega)
  rw [lengths, lustreMsgSizeV2_exact small, if_neg (by omega)] at accepted
  have headed : Headed m' lens := by
    refine ⟨le_of_eq (by rw [unpacked.length, length]), by rw [unpacked.count, count], fun n lt => ?_⟩
    have same := unpacked.lengths
    rw [count, lengths] at same
    rw [← same, hostLens_getD false m' lt]
    rfl
  refine ⟨m', accepted, headed.count, fun n lt => ⟨placeOf lens n,
    headed.lustreMsgBufV2_place small lt, headed.lengths n lt, (contents n lt).1, ?_⟩⟩
  have behind := exactHdr_le_placeOf lens n
  rw [unpacked.buffers _ _ (by rw [count]; omega)]
  exact (contents n lt).2

/-- The bytes that a sender of the other byte order writes: the first words swabbed. -/
def otherOrder (m : List UInt8) : Nat → List UInt8
  | 0 => m
  | words + 1 => swab (otherOrder m words) (4 * words) 4

theorem otherOrder_spec {words : Nat} (inside : 4 * words ≤ m.length) :
    (otherOrder m words).length = m.length ∧
      (∀ j, j < words → hostWord true (otherOrder m words) (4 * j) = field m (4 * j) 4) ∧
      ∀ off len, 4 * words ≤ off →
        ((otherOrder m words).drop off).take len = (m.drop off).take len := by
  induction words with
  | zero => exact ⟨rfl, fun j lt => absurd lt (Nat.not_lt_zero j), fun _ _ _ => rfl⟩
  | succ words ih =>
    obtain ⟨length, fields, others⟩ := ih (by omega)
    have here : 4 * words + 4 ≤ (otherOrder m words).length := by omega
    refine ⟨(length_swab here).trans length, fun j lt => ?_, fun off len behind => ?_⟩
    · by_cases last : j = words
      · subst last
        -- reversed twice
        have bytes : ((swab (otherOrder m j) (4 * j) 4).drop (4 * j)).take 4 =
            (((otherOrder m j).drop (4 * j)).take 4).reverse := by
          have written := take_writeAt_inside (show 4 * j ≤ (otherOrder m j).length by omega)
            (show 0 + 4 ≤ (((otherOrder m j).drop (4 * j)).take 4).reverse.length by
              exact le_of_eq (by rw [length_swabbed here]))
          rw [add_zero, drop_zero] at written
          rw [swab, written, take_of_length_le (le_of_eq (length_swabbed here))]
        rw [otherOrder, hostWord, if_pos rfl, bytes, reverse_reverse, others _ 4 le_rfl]
        rfl
      · rw [otherOrder, ← fields j (by omega), hostWord, hostWord, field, field, take_swab here (by omega)]
    · rw [otherOrder, take_swab here (.inr (by omega)), others off len (by omega)]

section

variable (packed : Packed m bufs lens)

include packed

/-- The bytes behind the size of a message do not matter. -/
theorem Packed.cut : Packed (m.take (exactSize lens)) bufs lens := by
  have room := packed.headed.room
  have size : exactHdr lens.length ≤ exactSize lens := Nat.le_add_right _ _
  have part : ∀ off len, off + len ≤ exactSize lens →
      ((m.take (exactSize lens)).drop off).take len = (m.drop off).take len := by
    intro off len inside
    rw [drop_take, take_take, min_eq_left (by omega)]
  obtain ⟨headed, magic⟩ := packed.headed.front (le_of_eq (length_take_of_le room).symm) fun off low =>
    part off 4 (low.trans size)
  refine ⟨headed, magic.trans packed.magic, fun n lt => ?_⟩
  rw [part _ _ (placeOf_inside lt)]
  exact packed.contents n lt

variable (length : m.length = exactSize lens) (small : exactSize lens < 2 ^ 31)

include length small

theorem Packed.received : Received m 0 bufs lens := by
  have native : isSwabbed m = false := by
    unfold isSwabbed
    rw [packed.magic]
    decide
  have count : bufcount m = lens.length := by
    rw [bufcount, native]
    exact packed.headed.count
  have received := received_of_contents length small count
    (by rw [buflens, native, count, packed.headed.hostLens_eq le_rfl, take_length])
    packed.contents
  rwa [native] at received

theorem Packed.received_otherOrder : Received (otherOrder m (8 + lens.length)) 1 bufs lens := by
  have header := exactHdr_ge lens.length
  have size : exactHdr lens.length ≤ exactSize lens := Nat.le_add_right _ _
  have words : 4 * (8 + lens.length) ≤ m.length := by omega
  obtain ⟨length', fields, others⟩ := otherOrder_spec words
  generalize otherOrder m (8 + lens.length) = raw at *
  have magic : hostWord true raw magicOff = lustreMsgMagicV2 := by
    rw [← packed.magic]
    exact fields 2 (by omega)
  have swabbed : isSwabbed raw = true := by
    unfold isSwabbed
    have inside : magicOff + 4 ≤ raw.length := by
      unfold magicOff
      omega
    have bytes := toLe_le ((raw.drop magicOff).take 4).reverse
    rw [length_swabbed inside, show le _ = lustreMsgMagicV2 from magic] at bytes
    have reversed := congrArg reverse bytes
    rw [reverse_reverse] at reversed
    unfold field
    rw [← reversed]
    decide
  have count : bufcount raw = lens.length := by
    rw [bufcount, swabbed]
    exact (fields 0 (by omega)).trans packed.headed.count
  have lengths : buflens raw = lens := by
    have same : hostLens true raw 0 lens.length = hostLens false m 0 lens.length := by
      refine map_congr_left fun j mem => ?_
      obtain ⟨-, high⟩ := mem_range'_1.mp mem
      have place : buflenOff j = 4 * (8 + j) := by
        unfold buflenOff
        omega
      rw [place, fields (8 + j) (by omega)]
      rfl
    rw [buflens, swabbed, count, same, packed.headed.hostLens_eq le_rfl, take_length]
  have received := received_of_contents (length'.trans length) small count lengths
    fun n lt => by
      have behind := exactHdr_le_placeOf lens n
      rw [others _ _ (by omega)]
      exact packed.contents n lt
  rwa [swabbed] at received

end

theorem length_lastLens (lens : List Nat) (cuts : List (Nat × Nat)) :
    (lastLens lens cuts).length = lens.length := by
  induction cuts generalizing lens with
  | nil => rfl
  | cons cut cuts ih =>
    exact (ih _).trans length_set

/-- A message built in memory `m`, shrunk, and sent in either byte order is accepted, each buffer with
what its last length leaves. -/
theorem message_round_trip (m : List UInt8) (bufs : List (List UInt8)) (cuts : List (Nat × Nat))
    (small : exactSize (bufs.map (·.length)) < 2 ^ 31)
    (room : exactSize (bufs.map (·.length)) ≤ m.length)
    (shrinks : Shrinks (bufs.map (·.length)) cuts) :
    ∃ built sent, lustreInitMsgV2 m bufs = .ok built ∧
      shrinkAll cuts built = .ok (cutSizes (bufs.map (·.length)) cuts, sent) ∧
      Received (sent.take (lustreMsgSizeV2 (lastLens (bufs.map (·.length)) cuts)).toNat) 0 bufs
        (lastLens (bufs.map (·.length)) cuts) ∧
      Received (otherOrder
          (sent.take (lustreMsgSizeV2 (lastLens (bufs.map (·.length)) cuts)).toNat)
          (8 + bufs.length)) 1 bufs
        (lastLens (bufs.map (·.length)) cuts) := by
  obtain ⟨built, init, packed⟩ := lustreInitMsgV2_packed small room
  obtain ⟨sent, shrunk, packed', small'⟩ := shrinkAll_packed packed small shrinks
  have count : bufs.length = (lastLens (bufs.map (·.length)) cuts).length := by
    rw [length_lastLens, length_map]
  generalize lastLens (bufs.map (·.length)) cuts = lens at *
  have length : (sent.take (exactSize lens)).length = exactSize lens := by
    rw [length_take]
    exact min_eq_left packed'.headed.room
  rw [lustreMsgSizeV2_exact small', Int.toNat_natCast, count]
  exact ⟨built, sent, init, shrunk, packed'.cut.received length small',
    packed'.cut.received_otherOrder length small'⟩

/-- Two buffers of nine and two bytes. -/
def nineAndTwo : List (List UInt8) := [[1, 2, 3, 4, 5, 6, 7, 8, 9], [10, 11]]

/-- The first of the two buffers is shrunk twice. -/
theorem message_round_trip_nineAndTwo :
    ∃ built sent, lustreInitMsgV2 (List.replicate 64 0) nineAndTwo = .ok built ∧
      shrinkAll [(0, 8), (0, 3)] built = .ok ([56, 56], sent) ∧
      Received (sent.take 56) 0 nineAndTwo [3, 2] ∧
      Received (otherOrder (sent.take 56) 10) 1 nineAndTwo [3, 2] := by
  have trip := message_round_trip (replicate 64 0) nineAndTwo [(0, 8), (0, 3)] (by decide)
    (by decide) ⟨by decide, by decide, by decide, by decide, trivial⟩
  have lens : lastLens (nineAndTwo.map (·.length)) [(0, 8), (0, 3)] = [3, 2] := by decide
  have sizes : cutSizes (nineAndTwo.map (·.length)) [(0, 8), (0, 3)] = [56, 56] := by decide +kernel
  have size : (lustreMsgSizeV2 [3, 2]).toNat = 56 := by decide +kernel
  rwa [lens, sizes, size] at trip

end Ptlrpc
