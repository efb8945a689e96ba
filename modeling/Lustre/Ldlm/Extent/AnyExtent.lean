/-
Module: Lustre.Ldlm.Extent.AnyExtent
Purpose: `ldlm_extent_internal_policy_fixup` for every extent a request can carry.
Trusted boundary: none
-/
import Lustre.Ldlm.Extent.Policy

namespace Ldlm

open Run ExtentRes

/-- Whatever is left around the request, its fixup ends with a result that contains it and fits an
interval node. -/
def Grantable (r : Extent) : Prop :=
  ∀ (req : ExtentLock) (newEx : Extent) (conflicting : Int) (t : Tree Nat) (n : Nat),
    req.reqExtent = r → r.Within newEx → newEx.stop ≤ maxU64 →
      ∃ e t', extentInternalPolicyFixup req newEx conflicting = .ok e ∧ r.Within e ∧
        t.intervalSet n e.start e.stop = some t'

namespace ExtentRes

variable {r newEx : Extent} {k : Nat}

theorem alignMask_zero (fuel a : Nat) : alignMask fuel a 0 = none := by
  induction fuel with
  | zero => rfl
  | succ fuel ih => simpa [alignMask, u64] using ih

/-- The loop ends at the first bit of the word at or behind the one it starts with. -/
theorem alignMask_eq_some {a : Nat} (word : a < 2 ^ 64) (fuel : Nat) :
    ∀ {j x : Nat}, j < 64 → 64 ≤ j + fuel → (alignMask fuel a (2 ^ j) = some x ↔
      ∃ k, j ≤ k ∧ x = 2 ^ k ∧ a.testBit k = true ∧ ∀ i, j ≤ i → i < k → a.testBit i = false) := by
  induction fuel with
  | zero => exact fun small enough => by omega
  | succ fuel ih =>
    intro j x small enough
    have bit : a &&& 2 ^ j = 0 ↔ a.testBit j = false := by
      cases set : a.testBit j <;> simp [Nat.and_two_pow, set]
    have shift : 2 ^ j <<< 1 = 2 ^ (j + 1) := by rw [Nat.shiftLeft_eq, Nat.pow_one, pow_succ]
    simp only [alignMask, bit, shift]
    split
    · next clear =>
      have later : (∃ k, j ≤ k ∧ x = 2 ^ k ∧ a.testBit k = true ∧
          ∀ i, j ≤ i → i < k → a.testBit i = false) ↔ ∃ k, j + 1 ≤ k ∧ x = 2 ^ k ∧
          a.testBit k = true ∧ ∀ i, j + 1 ≤ i → i < k → a.testBit i = false := by
        grind
      rw [later]
      by_cases last : j + 1 < 64
      · rw [u64, Nat.mod_eq_of_lt (Nat.pow_lt_pow_right (by decide) last)]
        exact ih last (by omega)
      · obtain rfl : j = 63 := by omega
        rw [show u64 (2 ^ (63 + 1)) = 0 by decide, alignMask_zero]
        constructor
        · intro none
          cases none
        · rintro ⟨k, above, _, set, _⟩
          have := Nat.pow_lt_pow_iff_right (a := 2) (by decide) |>.mp
            (lt_of_le_of_lt (Nat.ge_two_pow_of_testBit set) word)
          omega
    · grind

/-! ### The rounding -/

theorem roundStart (fits : k ≤ 64) {x : Nat} (word : x ≤ maxU64) :
    u64 ((u64Pred x ||| (2 ^ k - 1)) + 1) = u64 (2 ^ k * ((x + 2 ^ k - 1) / 2 ^ k)) := by
  have unit := Nat.two_pow_pos k
  rcases Nat.eq_zero_or_pos x with rfl | positive
  · have low := alignStart (Nat.zero_le _) (Nat.dvd_zero (2 ^ k)) fits (le_refl 0)
    rw [Nat.le_zero.mp low.2, zero_add, Nat.div_eq_of_lt (by omega)]
    rfl
  · rw [u64Pred_of_pos positive word, Alignment.or_low, show x + 2 ^ k - 1 = x - 1 + 2 ^ k by omega,
      Nat.add_div_right _ unit, Nat.mul_succ]
    congr 1
    omega

theorem roundStop (fits : k ≤ 64) (x : Nat) :
    u64Pred (u64 (x + 1) &&& (maxU64 - (2 ^ k - 1))) = u64Pred (2 ^ k * (u64 (x + 1) / 2 ^ k)) := by
  have word : u64 (x + 1) < 2 ^ 64 := Nat.mod_lt _ (by decide)
  rw [maxU64, Alignment.and_high fits word]

/-- The rounding with the bit the loop found. -/
def rounded (k : Nat) (newEx : Extent) : Extent :=
  ⟨u64 (2 ^ k * ((newEx.start + 2 ^ k - 1) / 2 ^ k)), u64Pred (2 ^ k * (u64 (newEx.stop + 1) / 2 ^ k))⟩

/-- The lowest bit of a request at or above that of a page. -/
structure LowBit (r : Extent) (k : Nat) : Prop where
  page : 12 ≤ k
  word : k < 64
  set : (u64 (r.stop + 1) ||| r.start).testBit k = true
  lowest : ∀ i, 12 ≤ i → i < k → (u64 (r.stop + 1) ||| r.start).testBit i = false

/-- The loop of the fixup finds the lowest bit. -/
theorem alignMask_request (start64 : r.start ≤ maxU64) {x : Nat} :
    alignMask 64 (u64 (r.stop + 1) ||| r.start) 0x1000 = some x ↔ ∃ k, x = 2 ^ k ∧ LowBit r k := by
  have small : u64 (r.stop + 1) ||| r.start < 2 ^ 64 := by
    refine Nat.or_lt_two_pow (Nat.mod_lt _ (by decide)) ?_
    rw [maxU64] at start64
    omega
  refine (alignMask_eq_some small 64 (j := 12) (by decide) (by decide)).trans ⟨?_, ?_⟩
  · rintro ⟨k, page, rfl, set, lowest⟩
    have word := (Nat.pow_lt_pow_iff_right (by decide)).mp
      (lt_of_le_of_lt (Nat.ge_two_pow_of_testBit set) small)
    exact ⟨k, rfl, page, word, set, lowest⟩
  · rintro ⟨k, rfl, low⟩
    exact ⟨k, low.page, rfl, low.set, low.lowest⟩

/-- The fixup rounds to the lowest bit, and its assertions ask for the request. -/
theorem policyAlign_eq (low : LowBit r k) (start64 : r.start ≤ maxU64) (within : r.Within newEx) :
    policyAlign r newEx = if (rounded k newEx).start ≤ r.start ∧ r.stop ≤ (rounded k newEx).stop then
      .ok (rounded k newEx) else .error .policyFixup := by
  have other : u64 (r.stop + 1) ||| r.start ≠ 0 := by
    intro zero
    have set := low.set
    rw [zero, Nat.zero_testBit] at set
    cases set
  simp only [policyAlign, if_pos other, (alignMask_request start64).mpr ⟨k, rfl, low⟩, rounded,
    roundStart low.word.le (within.1.trans start64), roundStop low.word.le]
  rfl

theorem lowBit_of_policyAlign (start64 : r.start ≤ maxU64)
    (other : u64 (r.stop + 1) ||| r.start ≠ 0) {e : Extent} (ran : policyAlign r newEx = .ok e) :
    ∃ k, LowBit r k := by
  cases found : alignMask 64 (u64 (r.stop + 1) ||| r.start) 0x1000 with
  | none => simp [policyAlign, other, found] at ran
  | some x =>
    obtain ⟨k, _, low⟩ := (alignMask_request start64).mp found
    exact ⟨k, low⟩

/-- A request that the rounding leaves inside starts at a multiple or in the last block. -/
theorem start_of_rounded (inside : (rounded k r).start ≤ r.start) : 2 ^ k ∣ r.start ∨ 2 ^ 64 < r.start + 2 ^ k := by
  have unit := Nat.two_pow_pos k
  have low := Nat.lt_div_mul_add (a := r.start + 2 ^ k - 1) unit
  have high := Nat.div_mul_le_self (r.start + 2 ^ k - 1) (2 ^ k)
  rw [mul_comm] at low high
  by_cases word : 2 ^ k * ((r.start + 2 ^ k - 1) / 2 ^ k) ≤ maxU64
  · have same : r.start = 2 ^ k * ((r.start + 2 ^ k - 1) / 2 ^ k) := by
      have inside : u64 _ ≤ r.start := inside
      rw [u64_of_le word] at inside
      omega
    exact .inl (same ▸ Nat.dvd_mul_right _ _)
  · rw [maxU64] at word
    omega

/-- It ends at a multiple or in the first block. -/
theorem stop_of_rounded (inside : r.stop ≤ (rounded k r).stop) :
    2 ^ k ∣ u64 (r.stop + 1) ∨ u64 (r.stop + 1) < 2 ^ k := by
  have below := Nat.mul_div_le (u64 (r.stop + 1)) (2 ^ k)
  have word : u64 (r.stop + 1) ≤ maxU64 := Nat.le_pred_of_lt (Nat.mod_lt _ (by decide))
  have le : u64 (r.stop + 1) ≤ r.stop + 1 := Nat.mod_le _ _
  by_cases first : u64 (r.stop + 1) < 2 ^ k
  · exact .inr first
  · have positive : 0 < 2 ^ k * (u64 (r.stop + 1) / 2 ^ k) :=
      Nat.mul_pos (Nat.two_pow_pos k) (Nat.div_pos (not_lt.mp first) (Nat.two_pow_pos k))
    have inside : r.stop ≤ u64Pred _ := inside
    rw [u64Pred_of_pos positive (below.trans word)] at inside
    have same : u64 (r.stop + 1) = 2 ^ k * (u64 (r.stop + 1) / 2 ^ k) := by omega
    exact .inl (same ▸ Nat.dvd_mul_right _ _)

/-- The blocks from that of the start to that of the end are rounded to themselves. -/
theorem rounded_blocks {p q : Nat} (starts : 2 ^ k * p ≤ maxU64) (ends : 2 ^ k * (q + 1) ≤ maxU64) :
    rounded k ⟨2 ^ k * p, 2 ^ k * (q + 1) - 1⟩ = ⟨2 ^ k * p, 2 ^ k * (q + 1) - 1⟩ := by
  have unit := Nat.two_pow_pos k
  have positive : 0 < 2 ^ k * (q + 1) := Nat.mul_pos unit (Nat.succ_pos q)
  simp only [rounded, Nat.sub_add_cancel positive]
  rw [u64_of_le ends, Nat.mul_div_cancel_left _ unit, u64Pred_of_pos positive ends,
    Nat.add_sub_assoc unit, Nat.mul_add_div unit, Nat.div_eq_of_lt (by omega), add_zero,
    u64_of_le starts]

end ExtentRes

/-! ### Requests -/

namespace Grantable

variable {r : Extent} {k : Nat}

/-- What the fixup of one extent shows of a request. -/
theorem aligned (grantable : Grantable r) {newEx : Extent} (within : r.Within newEx)
    (word : newEx.stop ≤ maxU64) (part : ¬ (newEx.start = 0 ∧ newEx.stop = maxU64)) :
    ∃ e, policyAlign r newEx = .ok e ∧ e.start ≤ e.stop := by
  obtain ⟨e, t, fixup, _, set⟩ := grantable ⟨.ex, none, r, r, 0, none, false, false, false, none⟩
    newEx 0 ⟨fun _ => zeroNode, none⟩ 0 rfl within word
  refine ⟨e, by simpa [extentInternalPolicyFixup, policyCap, part] using fixup, ?_⟩
  by_contra reversed
  rw [Tree.intervalSet, if_neg reversed] at set
  cases set

/-- A request whose end is before its start gets into a block behind that of its end. -/
theorem proper (grantable : Grantable r) (start64 : r.start ≤ maxU64) (low : LowBit r k)
    (stop : 2 ^ k ∣ u64 (r.stop + 1) ∨ u64 (r.stop + 1) < 2 ^ k) : r.start ≤ r.stop := by
  by_contra reversed
  have unit := Nat.two_pow_pos k
  have next : u64 (r.stop + 1) = r.stop + 1 := u64_of_le (by omega)
  have inFirst := Nat.lt_mul_div_succ r.stop unit
  have inLast := Nat.mul_div_le r.start (2 ^ k)
  have blocks : r.stop / 2 ^ k + 1 ≤ r.start / 2 ^ k := by
    rw [next] at stop
    rcases stop with ⟨c, multiple⟩ | first
    · have below : r.stop / 2 ^ k < c := Nat.div_lt_of_lt_mul (by omega)
      have above : c ≤ r.start / 2 ^ k :=
        (Nat.le_div_iff_mul_le unit).mpr (by rw [mul_comm, ← multiple]; omega)
      omega
    · -- the lowest bit is one of the start
      have set := low.set
      rw [next, Nat.testBit_or, Nat.testBit_lt_two_pow first, Bool.false_or] at set
      rw [Nat.div_eq_of_lt (by omega)]
      exact Nat.div_pos (Nat.ge_two_pow_of_testBit set) unit
  have order := Nat.mul_le_mul_left (2 ^ k) blocks
  let newEx : Extent := ⟨2 ^ k * (r.start / 2 ^ k), 2 ^ k * (r.stop / 2 ^ k + 1) - 1⟩
  have within : r.Within newEx := ⟨inLast, Nat.le_pred_of_lt inFirst⟩
  have inWord : newEx.stop ≤ maxU64 := by simp only [newEx]; omega
  have later : newEx.start ≠ 0 := by simp only [newEx]; omega
  obtain ⟨e, ran, le⟩ := grantable.aligned within inWord fun zero => later zero.1
  have same : rounded k newEx = newEx := rounded_blocks (by omega) (by omega)
  rw [policyAlign_eq low start64 within, same, if_pos ⟨within.1, within.2⟩] at ran
  obtain rfl := Except.ok.inj ran
  simp only [newEx] at le
  omega

end Grantable

/-- The request is the whole file, or rounding to its lowest bit leaves both ends, also where it wraps. -/
def Roundable (r : Extent) : Prop :=
  r.start = 0 ∧ r.stop = maxU64 ∨ r.start ≤ r.stop ∧
    ∃ k, LowBit r k ∧ (2 ^ k ∣ r.start ∨ 2 ^ 64 < r.start + 2 ^ k) ∧ 2 ^ k ∣ u64 (r.stop + 1)

theorem Grantable.roundable {r : Extent} (grantable : Grantable r) (start64 : r.start ≤ maxU64)
    (stop64 : r.stop ≤ maxU64) : Roundable r := by
  by_cases whole : r.start = 0 ∧ r.stop = maxU64
  · exact .inl whole
  have other : u64 (r.stop + 1) ||| r.start ≠ 0 := by
    intro zero
    obtain ⟨stop, start⟩ := Nat.or_eq_zero_iff.mp zero
    by_cases last : r.stop = maxU64
    · exact whole ⟨start, last⟩
    · rw [u64_of_le (by omega)] at stop
      omega
  obtain ⟨e, ran, _⟩ := grantable.aligned (.refl r) stop64 whole
  obtain ⟨k, low⟩ := lowBit_of_policyAlign start64 other ran
  rw [policyAlign_eq low start64 (.refl r)] at ran
  split at ran
  case isFalse => cases ran
  next inside =>
  have stop := stop_of_rounded inside.2
  have proper := grantable.proper start64 low stop
  refine .inr ⟨proper, k, low, start_of_rounded inside.1, ?_⟩
  by_cases last : r.stop = maxU64
  · rw [last, u64_wrap]
    exact Nat.dvd_zero _
  · -- both ends in the first block would leave the lowest bit clear
    refine stop.resolve_right fun first => ?_
    have next : u64 (r.stop + 1) = r.stop + 1 := u64_of_le (by omega)
    have set := low.set
    rw [Nat.testBit_lt_two_pow (Nat.or_lt_two_pow first (by omega))] at set
    cases set

/-- Rounding an extent around such a request leaves the request inside. -/
theorem Roundable.inside {r newEx : Extent} {k : Nat} (fits : k ≤ 63) (start64 : r.start ≤ maxU64)
    (start : 2 ^ k ∣ r.start ∨ 2 ^ 64 < r.start + 2 ^ k) (stop : 2 ^ k ∣ u64 (r.stop + 1))
    (within : r.Within newEx) (word : newEx.stop ≤ maxU64) : r.Within (rounded k newEx) := by
  have fits64 : k ≤ 64 := by omega
  have high := alignStop word fits64 stop within.2
  rw [roundStop fits64] at high
  refine ⟨?_, high.1⟩
  rcases start with multiple | block
  · have low := alignStart start64 multiple fits64 within.1
    rw [roundStart fits64 (within.1.trans start64)] at low
    exact low.2
  · change u64 _ ≤ r.start
    have top := Nat.mul_div_le (newEx.start + 2 ^ k - 1) (2 ^ k)
    have start := within.1
    generalize (newEx.start + 2 ^ k - 1) / 2 ^ k = q at top ⊢
    have unit : 2 ^ k ≤ 2 ^ 63 := Nat.pow_le_pow_right (by decide) fits
    by_cases wraps : 2 ^ 64 ≤ 2 ^ k * q
    · rw [u64]
      omega
    · obtain ⟨d, whole⟩ := Nat.pow_dvd_pow 2 fits64
      have before : q < d := Nat.lt_of_mul_lt_mul_left (a := 2 ^ k) (by omega)
      have := Nat.mul_le_mul_left (2 ^ k) (Nat.succ_le_of_lt before)
      rw [Nat.mul_succ, ← whole] at this
      rw [u64_of_le (by rw [maxU64]; omega)]
      omega

/-- Granting never ends in the loop or an assertion, whatever is left around the request, exactly if both
ends stand the rounding. -/
theorem extent_grantable_iff (r : Extent) (start64 : r.start ≤ maxU64) (stop64 : r.stop ≤ maxU64) :
    Grantable r ↔ Roundable r := by
  refine ⟨fun grantable => grantable.roundable start64 stop64, ?_⟩
  intro roundable req newEx conflicting t n isRequest within word
  subst isRequest
  have proper : req.reqExtent.start ≤ req.reqExtent.stop := by
    rcases roundable with ⟨start, _⟩ | ⟨proper, _⟩ <;> omega
  obtain ⟨cap, capped⟩ := policyCap_within conflicting within
  have fixup : ∃ e, extentInternalPolicyFixup req newEx conflicting = .ok e ∧
      req.reqExtent.Within e := by
    simp only [extentInternalPolicyFixup]
    split
    · exact ⟨_, rfl, cap⟩
    next part =>
    rcases roundable with whole | ⟨_, k, low, start, stop⟩
    · -- only the whole file contains the whole file
      have := capped.2
      obtain ⟨low, high⟩ := cap
      exact absurd ⟨by omega, by omega⟩ part
    · have inside := Roundable.inside (Nat.le_of_lt_succ low.word) start64 start stop cap
        (capped.2.trans word)
      rw [policyAlign_eq low start64 cap]
      exact ⟨_, if_pos inside, inside⟩
  obtain ⟨e, ran, contains⟩ := fixup
  exact ⟨e, _, ran, contains, if_pos (contains.1.trans (proper.trans contains.2))⟩

theorem extent_grantable_page : Grantable ⟨4096, 8191⟩ ↔ Roundable ⟨4096, 8191⟩ :=
  extent_grantable_iff _ (by decide) (by decide)

/-- Without a bit at or above that of a page the loop has no end. -/
theorem alignMask_small {a : Nat} (small : a < 2 ^ 12) (fuel : Nat) :
    ∀ {mask : Nat}, 2 ^ 12 ∣ mask → alignMask fuel a mask = none := by
  induction fuel with
  | zero => exact fun _ => rfl
  | succ fuel ih =>
    rintro mask ⟨q, rfl⟩
    have apart : a &&& 2 ^ 12 * q = 0 := by
      refine Nat.eq_of_testBit_eq fun i => ?_
      rw [Nat.testBit_and, Nat.testBit_two_pow_mul, Nat.zero_testBit]
      by_cases page : 12 ≤ i
      · rw [Nat.testBit_lt_two_pow (small.trans_le (Nat.pow_le_pow_right (by decide) page)),
          Bool.false_and]
      · simp [page]
    rw [alignMask, if_pos apart]
    refine ih ?_
    rw [u64, Nat.shiftLeft_eq]
    omega

/-- A client asks for bytes 100 to 200 while the third page is locked: no bit from that of a page on
is set, so the loop shifts its mask out of the word. -/
theorem small_request_never_ends : run (ExtentRes.step ⟨32, 2, 0⟩) (ExtentRes.empty 0)
      [.enqueue ⟨.ex, ⟨8192, 12287⟩, 0, none, true⟩ {} 0,
        .enqueue ⟨.pw, ⟨100, 200⟩, 0, some 1, true⟩ {} 0] = .error .policyFixup ∧
      ∀ fuel, alignMask fuel (u64 (200 + 1) ||| 100) 0x1000 = none :=
  ⟨rfl, fun fuel => alignMask_small (by decide) fuel (by decide)⟩

end Ldlm
