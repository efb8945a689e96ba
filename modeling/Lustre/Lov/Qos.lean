/-
Module: Lustre.Lov.Qos
Purpose: The weighted choice of targets for the objects of a new file: `alloc_qos` with
  `qos_calc_weight` and `qos_used`.
Trusted boundary: the penalties of `qos_calc_ppo`, the random numbers, and what the targets report
  between two calls, are part of the label of a step
-/
import Mathlib.Data.UInt
import Lustre.Lib.Run

namespace Lov.Qos

open Function Run

/-- `struct lov_tgt_desc` with its `ltd_qos`: whether it is active, what `obd_precreate` says,
`TGT_BAVAIL`, and the weighting. -/
structure Tgt where
  active : Bool
  precreate : Nat
  bavail : UInt64
  oss : Nat
  penalty : UInt64
  penaltyPerObj : UInt64
  weight : UInt64
  usable : Bool
deriving DecidableEq, Repr

/-- `struct lov_qos_oss` -/
structure Oss where
  penalty : UInt64
  penaltyPerObj : UInt64
deriving DecidableEq, Repr

/-- `struct lov_obd` -/
structure LovObd where
  tgts : Nat → Option Tgt
  oss : Nat → Oss
  /-- `lq_oss_list` -/
  ossList : List Nat
  activeTgtCount : UInt32
  activeOssCount : UInt32
  dirty : Bool
  sameSpace : Bool

/-- What stops the machine. -/
inductive Fault where
  /-- a remainder by zero -/
  | divide
  | lassert
deriving DecidableEq, Repr

/-- `BITS_PER_LONG` -/
inductive WordSize where
  | bits32
  | bits64
deriving DecidableEq, Repr

def LovObd.setTgt (lov : LovObd) (i : Nat) (t : Tgt) : LovObd :=
  { lov with tgts := update lov.tgts i (some t) }

def LovObd.setOss (lov : LovObd) (i : Nat) (oss : Oss) : LovObd :=
  { lov with oss := update lov.oss i oss }

/-- `qos_calc_weight` -/
def qosCalcWeight (lov : LovObd) (t : Tgt) : Tgt :=
  let penalty := t.penalty + (lov.oss t.oss).penalty
  { t with weight := if t.bavail < penalty then 0 else t.bavail - penalty }

/-- A penalty that is lowered for one object. -/
def lowered (penalty perObj : UInt64) : UInt64 := if penalty < perObj then 0 else penalty - perObj

/-- The target just used is not taken again by this call; it and its server have the maximal penalty. -/
def punish (lov : LovObd) (i : Nat) (t : Tgt) : LovObd :=
  let oss := lov.oss t.oss
  let t := { t with
    usable := false
    penalty := (t.penalty >>> 1) + t.penaltyPerObj * lov.activeTgtCount.toUInt64 }
  let oss := { oss with
    penalty := (oss.penalty >>> 1) + oss.penaltyPerObj * lov.activeOssCount.toUInt64 }
  (lov.setTgt i t).setOss t.oss oss

/-- The penalties of all servers are lowered. -/
def lowerOss : LovObd → List Nat → LovObd
  | lov, [] => lov
  | lov, i :: is =>
    let oss := lov.oss i
    lowerOss (lov.setOss i { oss with penalty := lowered oss.penalty oss.penaltyPerObj }) is

/-- The penalty of an active target is lowered, and its weight is new. -/
def recalc (lov : LovObd) (t : Tgt) : Tgt :=
  qosCalcWeight lov { t with penalty := lowered t.penalty t.penaltyPerObj }

/-- The loop over the pool at the end of `qos_used`. -/
def recalcAll : LovObd → List Nat → UInt64 → LovObd × UInt64
  | lov, [], total => (lov, total)
  | lov, i :: is, total =>
    match lov.tgts i with
    | none => recalcAll lov is total
    | some t =>
      if t.active then
        let t := recalc lov t
        recalcAll (lov.setTgt i t) is (if t.usable then total + t.weight else total)
      else recalcAll lov is total

/-- `qos_used` -/
def qosUsed (lov : LovObd) (pool : List Nat) (i : Nat) (t : Tgt) : LovObd × UInt64 :=
  let lov := punish lov i t
  recalcAll (lowerOss lov lov.ossList) pool 0

/-! ### The choice -/

/-- A valid stripe candidate; `fail0` is `OBD_FAIL_MDS_OSC_PRECREATE`. -/
def candidate (fail0 : Bool) (i : Nat) (t : Tgt) : Bool :=
  t.active ∧ ¬ (fail0 ∧ i = 0) ∧ t.precreate ≤ 2

/-- The loop that marks the candidates: their total weight and their number. -/
def scan (fail0 : Bool) : LovObd → List Nat → UInt64 → Nat → LovObd × UInt64 × Nat
  | lov, [], total, good => (lov, total, good)
  | lov, i :: is, total, good =>
    match lov.tgts i with
    | none => scan fail0 lov is total good
    | some t =>
      if candidate fail0 i t then
        let t := qosCalcWeight lov { t with usable := true }
        scan fail0 (lov.setTgt i t) is (total + t.weight) (good + 1)
      else scan fail0 lov is total good

/-- The values of `cfs_rand` for one object. -/
structure Draws where
  first : UInt32
  high : UInt32
  low : UInt32
deriving DecidableEq, Repr

/-- `a % b` -/
def rem32 (a b : UInt32) : Except Fault UInt32 := if b = 0 then .error .divide else .ok (a % b)

/-- `a % b` -/
def rem64 (a b : UInt64) : Except Fault UInt64 := if b = 0 then .error .divide else .ok (a % b)

/-- The high half of the random number on a machine with 32-bit words. -/
def drawHigh (total : UInt64) (r : Draws) : Except Fault UInt64 :=
  if 0xffffffff < total then do
    let high ← rem32 r.high (total >>> 32).toUInt32
    .ok (high.toUInt64 <<< 32)
  else .ok 0

/-- The low half. -/
def drawLow (total rand : UInt64) (r : Draws) : Except Fault UInt64 :=
  if rand = total &&& 0xffffffff00000000 then do
    let low ← rem32 r.low total.toUInt32
    .ok (rand ||| low.toUInt64)
  else .ok (rand ||| r.low.toUInt64)

/-- The random number for a total weight. -/
def draw (word : WordSize) (total : UInt64) (r : Draws) : Except Fault UInt64 :=
  if total = 0 then .ok 0
  else
    match word with
    | .bits32 => do
        -- the value of this first remainder is not used
        let _ ← rem32 r.first total.toUInt32
        let rand ← drawHigh total r
        drawLow total rand r
    | .bits64 => rem64 (r.high.toUInt64 <<< 32 ||| r.low.toUInt64) total

/-- The loop that finds the target the random number falls on. -/
def pick (lov : LovObd) (rand : UInt64) : UInt64 → List Nat → Option (Nat × Tgt)
  | _, [] => none
  | cur, i :: is =>
    match lov.tgts i with
    | none => pick lov rand cur is
    | some t =>
      if t.usable then
        if rand ≤ cur + t.weight then some (i, t) else pick lov rand (cur + t.weight) is
      else pick lov rand cur is

/-- The loop over the objects, `n` still to be placed.  If no target is found it ends early, and the
assertion behind it fails. -/
def choose (word : WordSize) (pool : List Nat) (rands : Nat → Draws) :
    Nat → LovObd → UInt64 → List Nat → Except Fault (List Nat × LovObd)
  | 0, lov, _, found => .ok (found, lov)
  | n + 1, lov, total, found => do
      let rand ← draw word total (rands found.length)
      match pick lov rand 0 pool with
      | none => .error .lassert
      | some (i, t) =>
        let (lov, total) := qosUsed lov pool i t
        choose word pool rands n lov total (found ++ [i])

/-- What `qos_calc_ppo` leaves behind, and what it returns. -/
structure Ppo where
  rc : Int
  tgts : Nat → UInt64 × UInt64
  oss : Nat → Oss
  activeOssCount : UInt32
  sameSpace : Bool

/-- `qos_calc_ppo` -/
def qosCalcPpo (lov : LovObd) (ppo : Ppo) : LovObd :=
  { lov with
    tgts := fun i => (lov.tgts i).map fun t =>
      { t with penalty := (ppo.tgts i).1, penaltyPerObj := (ppo.tgts i).2 }
    oss := ppo.oss
    activeOssCount := ppo.activeOssCount
    sameSpace := ppo.sameSpace }

/-- A call of `alloc_qos`: the distinct targets of its pool, the count wanted, `LOV_USES_DEFAULT_STRIPE`,
and what it meets. -/
structure Call where
  pool : List Nat
  distinct : pool.Nodup
  stripeCnt : Int
  usesDefault : Bool
  fail0 : Bool
  ppo : Ppo
  rands : Nat → Draws

/-- What a call comes to. -/
inductive Result where
  | einval
  /-- `-EAGAIN`: the call goes on to `alloc_rr` -/
  | roundRobin
  | error (rc : Int)
  | found (idx : List Nat)
deriving DecidableEq, Repr

/-- `min_stripe_count` -/
def minStripeCount (stripeCnt : Int) (usesDefault : Bool) : Int :=
  if usesDefault then stripeCnt - stripeCnt.tdiv 4 else stripeCnt

/-- `-EAGAIN` -/
def eagain : Int := -11

/-- The part of `alloc_qos` behind the penalties. -/
def allocWeighted (word : WordSize) (lov : LovObd) (call : Call) : Except Fault (Result × LovObd) :=
  let (lov, total, good) := scan call.fail0 lov call.pool 0 0
  if (good : Int) < minStripeCount call.stripeCnt call.usesDefault then .ok (.roundRobin, lov)
  else
    let stripeCnt := if (good : Int) < call.stripeCnt then (good : Int) else call.stripeCnt
    if stripeCnt = 0 then .ok (.roundRobin, lov)
    else do
      let (found, lov) ← choose word call.pool call.rands stripeCnt.toNat lov total []
      .ok (.found found, lov)

/-- `alloc_qos` up to its call of `alloc_rr`. -/
def allocQos (word : WordSize) (lov : LovObd) (call : Call) : Except Fault (Result × LovObd) :=
  if minStripeCount call.stripeCnt call.usesDefault < 1 then .ok (.einval, lov)
  else if lov.dirty = false ∧ lov.sameSpace = true then .ok (.roundRobin, lov)
  else if lov.activeTgtCount < 2 then .ok (.roundRobin, lov)
  else
    let lov := qosCalcPpo lov call.ppo
    if call.ppo.rc = eagain then .ok (.roundRobin, lov)
    else if call.ppo.rc ≠ 0 then .ok (.error call.ppo.rc, lov)
    else allocWeighted word lov call

/-- What happens to the volume. -/
inductive Label where
  | alloc (call : Call)
  /-- a target becomes active or inactive, its objects run out or are created, its space changes -/
  | report (i : Nat) (active : Bool) (precreate : Nat) (bavail : UInt64)
  | attach (i oss : Nat)
  | detach (i : Nat)
  /-- `lov_desc` and the flags of `lov_qos` change -/
  | describe (activeTgtCount : UInt32) (dirty : Bool)

/-- A target that has just been added. -/
def Tgt.fresh (oss : Nat) : Tgt := ⟨false, 0, 0, oss, 0, 0, 0, false⟩

/-- One call, which holds `lq_rw_sem`, or one change between two calls. -/
def step (word : WordSize) (lov : LovObd) : Label → Except Fault LovObd
  | .alloc call => do
      let (_, lov) ← allocQos word lov call
      .ok lov
  | .report i active precreate bavail =>
    .ok { lov with tgts := update lov.tgts i ((lov.tgts i).map fun t =>
      { t with active := active, precreate := precreate, bavail := bavail }) }
  | .attach i oss => .ok (lov.setTgt i (Tgt.fresh oss))
  | .detach i => .ok { lov with tgts := update lov.tgts i none }
  | .describe activeTgtCount dirty => .ok { lov with activeTgtCount := activeTgtCount, dirty := dirty }

/-- A volume without targets. -/
def start : LovObd where
  tgts := fun _ => none
  oss := fun _ => ⟨0, 0⟩
  ossList := []
  activeTgtCount := 0
  activeOssCount := 0
  dirty := true
  sameSpace := false

open List

/-! ### Sums of weights -/

/-- A target that can be chosen. -/
def usableAt (lov : LovObd) (i : Nat) : Prop := ∃ t, lov.tgts i = some t ∧ t.usable = true

/-- What a target adds to the total weight. -/
def weightOf : Option Tgt → UInt64
  | some t => if t.usable then t.weight else 0
  | none => 0

/-- The total weight of a pool. -/
def sumWeights (lov : LovObd) (pool : List Nat) : UInt64 := (pool.map fun i => weightOf (lov.tgts i)).sum

/-- What a target has available. -/
def bavailOf : Option Tgt → Nat
  | some t => t.bavail.toNat
  | none => 0

theorem sumWeights_cons (lov : LovObd) (i : Nat) (pool : List Nat) :
    sumWeights lov (i :: pool) = weightOf (lov.tgts i) + sumWeights lov pool := rfl

variable {lov : LovObd} {pool : List Nat} {total rand cur : UInt64}

/-- A total that may wrap around is not more than a bound for the sum. -/
theorem sumWeights_le {bound : Nat → Nat}
    (each : ∀ i ∈ pool, (weightOf (lov.tgts i)).toNat ≤ bound i) :
    (sumWeights lov pool).toNat ≤ (pool.map bound).sum := by
  induction pool with
  | nil => exact le_rfl
  | cons i pool ih =>
    grind [weightOf, sumWeights, mem_cons_of_mem, mem_cons_self,
      UInt64.toNat_add, Nat.mod_le, sumWeights_cons]

theorem weightOf_unusable {i : Nat} (unusable : ¬ usableAt lov i) : weightOf (lov.tgts i) = 0 := by
  cases present : lov.tgts i with
  | none => rfl
  | some t =>
    have unmarked : t.usable = false :=
      Bool.eq_false_iff.mpr fun marked => unusable ⟨t, present, marked⟩
    rw [weightOf, unmarked]
    rfl

theorem sumWeights_unusable (none : ∀ i ∈ pool, ¬ usableAt lov i) : sumWeights lov pool = 0 := by
  induction pool with
  | nil => rfl
  | cons i pool ih =>
    rw [sumWeights_cons, weightOf_unusable (none i mem_cons_self), UInt64.zero_add]
    exact ih fun j mem => none j (mem_cons_of_mem i mem)

theorem high_empty (small : total.toNat < 2 ^ 32) : total &&& 0xffffffff00000000 = 0 := by
  have mask : (0xffffffff00000000 : UInt64).toNat = (2 ^ 32 - 1) * 2 ^ 32 := by decide
  refine UInt64.toNat_inj.mp (Nat.eq_of_testBit_eq fun i => ?_)
  rw [UInt64.toNat_and, mask, Nat.testBit_and, Nat.testBit_mul_two_pow]
  by_cases low : 32 ≤ i
  · have clear : total.toNat.testBit i = false :=
      Nat.testBit_lt_two_pow (small.trans_le (Nat.pow_le_pow_right (by decide) low))
    rw [clear, Bool.false_and]
    exact (Nat.zero_testBit i).symm
  · rw [decide_eq_false low, Bool.false_and, Bool.and_false]
    exact (Nat.zero_testBit i).symm

variable {word : WordSize}

/-- A random number is at most the total, if that is a word of the machine. -/
theorem draw_le (fits : word = .bits64 ∨ total.toNat < 2 ^ 32) (r : Draws) :
    ∃ rand, draw word total r = .ok rand ∧ rand ≤ total := by
  unfold draw
  by_cases zero : total = 0
  · rw [if_pos zero]
    exact ⟨0, rfl, UInt64.zero_le⟩
  · rw [if_neg zero]
    have positive : 0 < total.toNat := Nat.pos_of_ne_zero fun none => zero (UInt64.toNat_inj.mp none)
    cases word with
    | bits64 =>
      unfold rem64
      rw [if_neg zero]
      refine ⟨_, rfl, UInt64.le_iff_toNat_le.mpr ?_⟩
      exact le_of_lt (Nat.mod_lt _ positive)
    | bits32 =>
      have small : total.toNat < 2 ^ 32 := fits.resolve_left nofun
      have low : total.toUInt32.toNat = total.toNat := by
        exact Nat.mod_eq_of_lt small
      have nonzero : total.toUInt32 ≠ 0 := by
        intro none
        have : total.toUInt32.toNat = 0 := congrArg UInt32.toNat none
        omega
      have highWord : ¬ (0xffffffff : UInt64) < total := by
        rw [UInt64.lt_iff_toNat_lt]
        have : (0xffffffff : UInt64).toNat = 2 ^ 32 - 1 := by decide
        omega
      unfold rem32 drawHigh drawLow
      rw [if_neg nonzero, bind_ok, if_neg highWord, bind_ok, if_pos (high_empty small).symm]
      unfold rem32
      rw [if_neg nonzero, bind_ok]
      refine ⟨_, rfl, UInt64.le_iff_toNat_le.mpr ?_⟩
      rw [UInt64.zero_or, UInt32.toNat_toUInt64, UInt32.toNat_mod, low]
      exact le_of_lt (Nat.mod_lt _ positive)

/-- If no target is found, none can be chosen, or all together weigh too little. -/
theorem pick_none (missed : pick lov rand cur pool = none) :
    (∀ i ∈ pool, ¬ usableAt lov i) ∨ cur + sumWeights lov pool < rand := by
  induction pool generalizing cur with
  | nil => exact .inl nofun
  | cons i pool ih =>
    rw [pick] at missed
    -- a target that cannot be chosen adds nothing
    have skip (unusable : ¬ usableAt lov i) (rest : pick lov rand cur pool = none) :
        (∀ j ∈ i :: pool, ¬ usableAt lov j) ∨ cur + sumWeights lov (i :: pool) < rand := by
      rw [sumWeights_cons, weightOf_unusable unusable, UInt64.zero_add]
      exact (ih rest).imp_left fun none => forall_mem_cons.mpr ⟨unusable, none⟩
    cases present : lov.tgts i with
    | none =>
      rw [present] at missed
      refine skip ?_ missed
      rintro ⟨t, found, _⟩
      exact nomatch present.symm.trans found
    | some t =>
      rw [present] at missed
      dsimp only at missed
      cases usable : t.usable with
      | false =>
        rw [usable, if_neg Bool.false_ne_true] at missed
        refine skip ?_ missed
        rintro ⟨t', found, marked⟩
        cases present.symm.trans found
        exact nomatch usable.symm.trans marked
      | true =>
        grind [weightOf, sumWeights_cons, UInt64.add_assoc,
          sumWeights_unusable, UInt64.add_zero, UInt64.not_le]

theorem pick_some {i : Nat} {t : Tgt} (hit : pick lov rand cur pool = some (i, t)) :
    i ∈ pool ∧ lov.tgts i = some t ∧ t.usable = true := by
  induction pool generalizing cur with
  | nil => cases hit
  | cons j pool ih => grind [pick]

/-- A loop that replaces the targets that pass a test and adds up their new weights. -/
def sweep (test : Nat → Tgt → Bool) (new : LovObd → Tgt → Tgt) :
    LovObd → List Nat → UInt64 → LovObd × UInt64
  | lov, [], total => (lov, total)
  | lov, i :: is, total =>
    match lov.tgts i with
    | none => sweep test new lov is total
    | some t =>
      if test i t then
        sweep test new (lov.setTgt i (new lov t)) is (total + weightOf (some (new lov t)))
      else sweep test new lov is total

/-- What the loop makes of one target. -/
def swept (test : Nat → Tgt → Bool) (new : Tgt → Tgt) (i : Nat) (t : Tgt) : Tgt :=
  if test i t then new t else t

section

variable {test : Nat → Tgt → Bool} {new : LovObd → Tgt → Tgt}
  (apart : ∀ lov i t, new (lov.setTgt i t) = new lov) (distinct : pool.Nodup)

include apart distinct

/-- What the loop leaves when the new targets do not depend on those replaced before. -/
theorem sweep_spec :
    (∀ i ∈ pool, (sweep test new lov pool total).1.tgts i = (lov.tgts i).map (swept test (new lov) i)) ∧
      (∀ i, i ∉ pool → (sweep test new lov pool total).1.tgts i = lov.tgts i) := by
  induction pool generalizing lov total with
  | nil => exact ⟨nofun, fun _ _ => rfl⟩
  | cons j pool ih =>
    obtain ⟨fresh, rest⟩ := nodup_cons.mp distinct
    rw [sweep]
    have unchanged (same : (lov.tgts j).map (swept test (new lov) j) = lov.tgts j) :
        (∀ i ∈ j :: pool, (sweep test new lov pool total).1.tgts i =
            (lov.tgts i).map (swept test (new lov) i)) ∧
          (∀ i, i ∉ j :: pool → (sweep test new lov pool total).1.tgts i = lov.tgts i) := by
      obtain ⟨inside, outside⟩ := @ih lov total rest
      refine ⟨forall_mem_cons.mpr ⟨(outside j fresh).trans same.symm, inside⟩, fun i out => ?_⟩
      exact outside i fun mem => out (mem_cons_of_mem j mem)
    cases present : lov.tgts j with
    | none => exact unchanged (by rw [present]; rfl)
    | some t =>
      dsimp only
      split
      · next passes =>
          have here : (lov.setTgt j (new lov t)).tgts j = some (new lov t) :=
            update_self _ _ _
          have others (i : Nat) (other : i ≠ j) : (lov.setTgt j (new lov t)).tgts i = lov.tgts i :=
            update_of_ne other _ _
          obtain ⟨inside, outside⟩ := @ih (lov.setTgt j (new lov t))
            (total + weightOf (some (new lov t))) rest
          refine ⟨forall_mem_cons.mpr ⟨?_, fun i mem => ?_⟩, fun i out => ?_⟩
          · rw [outside j fresh, here, present, Option.map_some, swept, if_pos passes]
          · rw [inside i mem, apart, others i fun same => fresh (same ▸ mem)]
          · grind
      · next fails =>
          refine unchanged ?_
          rw [present, Option.map_some, swept, if_neg fails]

/-- The total of the loop, if every target that can be chosen behind it passed the test. -/
theorem sweep_total
    (only : ∀ i ∈ pool, ∀ t, lov.tgts i = some t → test i t = false → t.usable = false) :
    (sweep test new lov pool total).2 =
      total + sumWeights (sweep test new lov pool total).1 pool := by
  induction pool generalizing lov total with
  | nil => exact (UInt64.add_zero total).symm
  | cons j pool ih =>
    obtain ⟨fresh, rest⟩ := nodup_cons.mp distinct
    have later := fun i mem => only i (mem_cons_of_mem j mem)
    rw [sweep]
    have unchanged (weightless : weightOf (lov.tgts j) = 0) :
        (sweep test new lov pool total).2 =
          total + sumWeights (sweep test new lov pool total).1 (j :: pool) := by
      rw [sumWeights_cons, (sweep_spec apart rest).2 j fresh, weightless, UInt64.zero_add]
      exact ih rest later
    cases present : lov.tgts j with
    | none => exact unchanged (by rw [present]; rfl)
    | some t =>
      dsimp only
      split
      · have here : (lov.setTgt j (new lov t)).tgts j = some (new lov t) :=
          update_self _ _ _
        rw [sumWeights_cons, (sweep_spec apart rest).2 j fresh, here, ← UInt64.add_assoc]
        refine ih rest fun i mem t' found => later i mem t' ?_
        rw [← found]
        exact (update_of_ne (fun same : i = j => fresh (same ▸ mem)) _ _).symm
      · next fails => grind [weightOf]

/-- A target behind the loop comes from one before it. -/
theorem sweep_target {i : Nat} (mem : i ∈ pool) {t : Tgt}
    (present : (sweep test new lov pool total).1.tgts i = some t) :
    ∃ t₀, lov.tgts i = some t₀ ∧ t = swept test (new lov) i t₀ := by
  rw [(sweep_spec apart distinct).1 i mem] at present
  obtain ⟨t₀, before, same⟩ := Option.map_eq_some_iff.mp present
  exact ⟨t₀, before, same.symm⟩

theorem sweep_bavail (keeps : ∀ lov t, (new lov t).bavail = t.bavail) (i : Nat) :
    bavailOf ((sweep test new lov pool total).1.tgts i) = bavailOf (lov.tgts i) := by
  by_cases mem : i ∈ pool
  · rw [(sweep_spec apart distinct).1 i mem]
    cases lov.tgts i with
    | none => rfl
    | some t =>
      rw [Option.map_some, swept]
      split
      · exact congrArg UInt64.toNat (keeps lov t)
      · rfl
  · rw [(sweep_spec apart distinct).2 i mem]

end

/-- What a candidate becomes. -/
def marked (lov : LovObd) (t : Tgt) : Tgt := qosCalcWeight lov { t with usable := true }

/-- A candidate that exists. -/
def candidateAt (fail0 : Bool) (lov : LovObd) (i : Nat) : Bool :=
  match lov.tgts i with
  | some t => candidate fail0 i t
  | none => false

theorem candidateAt_iff {fail0 : Bool} {i : Nat} :
    candidateAt fail0 lov i = true ↔ ∃ t, lov.tgts i = some t ∧ candidate fail0 i t = true := by
  unfold candidateAt
  cases lov.tgts i <;> simp

/-- The candidates of a call. -/
def candidates (fail0 : Bool) (lov : LovObd) (pool : List Nat) : List Nat :=
  pool.filter (candidateAt fail0 lov)

theorem recalcAll_eq (pool : List Nat) : ∀ (lov : LovObd) (total : UInt64),
    recalcAll lov pool total = sweep (fun _ t => t.active) recalc lov pool total := by
  induction pool with
  | nil => exact fun _ _ => rfl
  | cons i pool ih => grind [recalcAll, sweep, weightOf, recalc]

theorem scan_eq (fail0 : Bool) (distinct : pool.Nodup) :
    ∀ (lov : LovObd) (total : UInt64) (good : Nat),
      scan fail0 lov pool total good =
        ((sweep (candidate fail0) marked lov pool total).1,
          (sweep (candidate fail0) marked lov pool total).2,
          good + (candidates fail0 lov pool).length) := by
  induction pool with
  | nil => exact fun _ _ _ => rfl
  | cons i pool ih =>
    intro lov total good
    obtain ⟨fresh, rest⟩ := nodup_cons.mp distinct
    rw [scan, sweep, candidates, filter_cons, candidateAt]
    cases present : lov.tgts i with
    | none =>
      exact ih rest lov total good
    | some t =>
      dsimp only
      by_cases passes : candidate fail0 i t = true
      · rw [if_pos passes, if_pos passes, if_pos passes, ih rest]
        -- the other candidates are not touched
        have others : candidates fail0 (lov.setTgt i (marked lov t)) pool =
            pool.filter (candidateAt fail0 lov) := by
          refine filter_congr fun j mem => ?_
          unfold candidateAt
          rw [show (lov.setTgt i (marked lov t)).tgts j = lov.tgts j from
            update_of_ne (fun same : j = i => fresh (same ▸ mem)) _ _]
        rw [show qosCalcWeight lov { t with usable := true } = marked lov t from rfl, others,
          length_cons, add_right_comm, add_assoc]
        rfl
      · rw [if_neg passes, if_neg passes, if_neg passes]
        exact ih rest lov total good

/-- A new weight is not more than what is available. -/
theorem qosCalcWeight_le (lov : LovObd) (t : Tgt) : (qosCalcWeight lov t).weight ≤ t.bavail := by
  grind [qosCalcWeight]

theorem lowerOss_tgts (is : List Nat) : ∀ lov : LovObd, (lowerOss lov is).tgts = lov.tgts := by
  induction is with
  | nil => exact fun _ => rfl
  | cons i is ih => exact fun lov => ih _

/-- Between two objects the targets marked are the candidates not used, with their weights. -/
structure Ready (fail0 : Bool) (pool : List Nat) (s lov : LovObd) (total : UInt64) (found : List Nat) :
    Prop where
  usable : ∀ i ∈ pool, usableAt lov i ↔ i ∈ candidates fail0 s pool ∧ i ∉ found
  active : ∀ i t, lov.tgts i = some t → t.usable = true → i ∈ pool → t.active = true
  light : ∀ i ∈ pool, (weightOf (lov.tgts i)).toNat ≤ bavailOf (s.tgts i)
  bavail : ∀ i, bavailOf (lov.tgts i) = bavailOf (s.tgts i)
  total : total = sumWeights lov pool
  nodup : found.Nodup
  subset : ∀ i ∈ found, i ∈ candidates fail0 s pool

section Call

variable {fail0 : Bool} {pool : List Nat} {s lov : LovObd} {total : UInt64} {found : List Nat}

theorem weightOf_le {o : Option Tgt} (each : ∀ t, o = some t → t.usable = true → t.weight ≤ t.bavail) :
    (weightOf o).toNat ≤ bavailOf o := by
  cases o with
  | none => exact le_rfl
  | some t =>
    rw [weightOf, bavailOf]
    split
    · next usable => exact UInt64.le_iff_toNat_le.mp (each t rfl usable)
    · exact Nat.zero_le _

/-- Before the first object, if no other target is marked. -/
theorem scan_ready (distinct : pool.Nodup)
    (unmarked : ∀ i ∈ pool, ∀ t, s.tgts i = some t → t.usable = true → candidate fail0 i t = true) :
    Ready fail0 pool s (sweep (candidate fail0) marked s pool 0).1
      (sweep (candidate fail0) marked s pool 0).2 [] := by
  have apart : ∀ lov i t, marked (lov.setTgt i t) = marked lov := fun _ _ _ => rfl
  have inside := (@sweep_spec s pool 0 (candidate fail0) marked apart distinct).1
  have sum := @sweep_total s pool 0 (candidate fail0) marked apart distinct
    fun i mem t present rejected => Bool.eq_false_iff.mpr fun usable =>
      nomatch rejected.symm.trans (unmarked i mem t present usable)
  have target := @sweep_target s pool 0 (candidate fail0) marked apart distinct
  have bavail := @sweep_bavail s pool 0 (candidate fail0) marked apart distinct fun _ _ => rfl
  generalize sweep (candidate fail0) marked s pool 0 = result at inside sum target bavail
  have light (i : Nat) (mem : i ∈ pool) (t : Tgt) (present : result.1.tgts i = some t)
      (usable : t.usable = true) : t.weight ≤ t.bavail ∧ candidateAt fail0 s i = true ∧
        t.active = true := by
    obtain ⟨t₀, before, rfl⟩ := target mem present
    by_cases passes : candidate fail0 i t₀ = true
    · rw [swept, if_pos passes]
      exact ⟨qosCalcWeight_le s _, candidateAt_iff.mpr ⟨t₀, before, passes⟩,
        (of_decide_eq_true passes).1⟩
    · simp_all [swept]
  constructor
  case usable =>
    intro i mem
    rw [candidates, mem_filter]
    constructor
    · rintro ⟨t, present, usable⟩
      exact ⟨⟨mem, (light i mem t present usable).2.1⟩, not_mem_nil⟩
    · rintro ⟨⟨_, candidate⟩, _⟩
      obtain ⟨t₀, before, passes⟩ := candidateAt_iff.mp candidate
      refine ⟨marked s t₀, ?_, rfl⟩
      rw [inside i mem, before, Option.map_some, swept, if_pos passes]
  case active => exact fun i t present usable mem => (light i mem t present usable).2.2
  case light => grind [weightOf_le]
  case bavail => exact bavail
  case total =>
    rw [sum]
    exact UInt64.zero_add _
  case nodup => exact nodup_nil
  case subset => exact nofun

theorem qosUsed_ready (distinct : pool.Nodup) (ready : Ready fail0 pool s lov total found) {i : Nat}
    {t : Tgt} (mem : i ∈ pool) (present : lov.tgts i = some t) (usable : t.usable = true) :
    Ready fail0 pool s (qosUsed lov pool i t).1 (qosUsed lov pool i t).2 (found ++ [i]) := by
  have apart : ∀ lov i t, recalc (lov.setTgt i t) = recalc lov := fun _ _ _ => rfl
  unfold qosUsed
  dsimp only
  generalize calm : lowerOss (punish lov i t) (punish lov i t).ossList = lov₁
  -- the target used is not marked any more, the others are as before
  have used : ∃ t₁, lov₁.tgts i = some t₁ ∧ t₁.usable = false ∧ t₁.active = t.active ∧
      t₁.bavail = t.bavail := by
    rw [← calm, lowerOss_tgts]
    exact ⟨_, update_self _ _ _, rfl, rfl, rfl⟩
  have others (j : Nat) (other : j ≠ i) : lov₁.tgts j = lov.tgts j := by
    rw [← calm, lowerOss_tgts]
    exact update_of_ne other _ _
  have active (j : Nat) (inside : j ∈ pool) (t' : Tgt) (found' : lov₁.tgts j = some t')
      (marked' : t'.usable = true) : t'.active = true ∧ j ≠ i := by
    by_cases same : j = i
    · grind
    · rw [others j same] at found'
      exact ⟨ready.active j t' found' marked' inside, same⟩
  have inside := (@sweep_spec lov₁ pool 0 (fun _ t => t.active) recalc apart distinct).1
  have target := @sweep_target lov₁ pool 0 (fun _ t => t.active) recalc apart distinct
  have space := @sweep_bavail lov₁ pool 0 (fun _ t => t.active) recalc apart distinct fun _ _ => rfl
  have sum := @sweep_total lov₁ pool 0 (fun _ t => t.active) recalc apart distinct
    fun j memj t' found' inactive => Bool.eq_false_iff.mpr fun marked' =>
      nomatch inactive.symm.trans (active j memj t' found' marked').1
  rw [recalcAll_eq]
  generalize sweep (fun _ t => t.active) recalc lov₁ pool 0 = result at inside target space sum
  have swept_usable (j : Nat) (t₁ : Tgt) :
      (swept (fun _ t => t.active) (recalc lov₁) j t₁).usable = t₁.usable := by
    unfold swept
    split <;> rfl
  have swept_active (j : Nat) (t₁ : Tgt) :
      (swept (fun _ t => t.active) (recalc lov₁) j t₁).active = t₁.active := by
    unfold swept
    split <;> rfl
  have bavail (j : Nat) : bavailOf (result.1.tgts j) = bavailOf (s.tgts j) := by
    grind [bavailOf, cases Ready]
  have marks (j : Nat) (memj : j ∈ pool) : usableAt result.1 j ↔ usableAt lov j ∧ j ≠ i := by
    constructor
    · rintro ⟨t', now, marked'⟩
      obtain ⟨t₁, before, rfl⟩ := target memj now
      rw [swept_usable] at marked'
      have other := (active j memj t₁ before marked').2
      exact ⟨⟨t₁, (others j other).symm.trans before, marked'⟩, other⟩
    · rintro ⟨⟨t₁, before, marked'⟩, other⟩
      rw [← others j other] at before
      refine ⟨_, ?_, (swept_usable j t₁).trans marked'⟩
      rw [inside j memj, before, Option.map_some]
  have chosen := (ready.usable i mem).mp ⟨t, present, usable⟩
  constructor
  case usable => grind [cases Ready]
  case active => grind
  case light =>
    intro j memj
    rw [← bavail j]
    refine weightOf_le fun t' now marked' => ?_
    obtain ⟨t₁, before, rfl⟩ := target memj now
    rw [swept_usable] at marked'
    rw [swept, if_pos (active j memj t₁ before marked').1]
    exact qosCalcWeight_le lov₁ _
  case bavail => exact bavail
  case total =>
    rw [sum]
    exact UInt64.zero_add _
  case nodup => grind [cases Ready]
  case subset => grind [cases Ready]

/-- What a target can add to the total. -/
def share (fail0 : Bool) (i : Nat) : Option Tgt → Nat
  | some t => if candidate fail0 i t then t.bavail.toNat else 0
  | none => 0

/-- A total that is a word of the machine, on each of the two kinds. -/
def Light (word : WordSize) (fail0 : Bool) (s : LovObd) (pool : List Nat) : Prop :=
  word = .bits64 ∨ (pool.map fun i => share fail0 i (s.tgts i)).sum < 2 ^ 32

theorem Ready.share_le (ready : Ready fail0 pool s lov total found) (i : Nat) (mem : i ∈ pool) :
    (weightOf (lov.tgts i)).toNat ≤ share fail0 i (s.tgts i) := by
  by_cases usable : usableAt lov i
  · obtain ⟨t, present, passes⟩ := candidateAt_iff.mp (mem_filter.mp ((ready.usable i mem).mp usable).1).2
    have light := ready.light i mem
    rw [present] at light ⊢
    rw [share, if_pos passes]
    exact light
  · rw [weightOf_unusable usable]
    exact Nat.zero_le _

/-- All objects are placed. -/
theorem choose_ready (distinct : pool.Nodup) (small : Light word fail0 s pool) (rands : Nat → Draws)
    (n : Nat) : ∀ {lov : LovObd} {total : UInt64} {found : List Nat},
      Ready fail0 pool s lov total found →
      found.length + n ≤ (candidates fail0 s pool).length →
      ∃ idx lov', choose word pool rands n lov total found = .ok (idx, lov') ∧ idx.Nodup ∧
        (∀ i ∈ idx, i ∈ candidates fail0 s pool) ∧ idx.length = found.length + n := by
  induction n with
  | zero =>
    intro lov total found ready _
    exact ⟨found, lov, rfl, ready.nodup, ready.subset, rfl⟩
  | succ n ih =>
    intro lov total found ready room
    have fits : word = .bits64 ∨ total.toNat < 2 ^ 32 := by
      refine small.imp_right fun bound => ?_
      rw [ready.total]
      exact lt_of_le_of_lt (sumWeights_le ready.share_le) bound
    obtain ⟨rand, drawn, le⟩ := draw_le fits (rands found.length)
    rw [choose, drawn, bind_ok]
    cases hit : pick lov rand 0 pool with
    | none =>
      -- there is a candidate left, and all of them together weigh enough
      exfalso
      rcases pick_none hit with none | below
      · have more : ¬ candidates fail0 s pool ⊆ found := by
          intro all
          have := ((distinct.filter _).subperm all).length_le
          unfold candidates at room
          omega
        obtain ⟨i, inside, missing⟩ : ∃ i, i ∈ candidates fail0 s pool ∧ i ∉ found := by grind
        have mem := (mem_filter.mp inside).1
        exact none i mem ((ready.usable i mem).mpr ⟨inside, missing⟩)
      · rw [UInt64.zero_add, ← ready.total] at below
        exact absurd le (UInt64.not_le.mpr below)
    | some choice =>
      obtain ⟨mem, present, usable⟩ := pick_some hit
      have next := qosUsed_ready distinct ready mem present usable
      obtain ⟨idx, lov', done, nodup, subset, length⟩ := ih next (by
        rw [length_append, length_singleton]
        omega)
      refine ⟨idx, lov', done, nodup, subset, ?_⟩
      rw [length, length_append, length_singleton]
      omega

end Call

/-! ### Calls -/

/-- No mark of an earlier call is left on a target that this call rejects. -/
def Unmarked (s : LovObd) (call : Call) : Prop :=
  ∀ i ∈ call.pool, ∀ t, s.tgts i = some t → t.usable = true → candidate call.fail0 i t = true

/-- A call that chooses by weight returns different targets of the pool that were active and had objects,
between the minimum and what it wanted. -/
def Valid (s : LovObd) (call : Call) : Result → Prop
  | .found idx =>
    idx.Nodup ∧
      (∀ i ∈ idx, i ∈ call.pool ∧ ∃ t, s.tgts i = some t ∧ t.active = true ∧ t.precreate ≤ 2) ∧
      minStripeCount call.stripeCnt call.usesDefault ≤ idx.length ∧ idx.length ≤ call.stripeCnt
  | _ => True

/-- What a step has to meet. -/
def Orderly (word : WordSize) (s : LovObd) : Label → Prop
  | .alloc call => Unmarked s call ∧ Light word call.fail0 s call.pool
  | _ => True

instance (s : LovObd) (call : Call) : Decidable (Unmarked s call) :=
  inferInstanceAs (Decidable (∀ i ∈ call.pool, ∀ t ∈ s.tgts i, _ → _))

instance (word : WordSize) (s : LovObd) : DecidablePred (Orderly word s)
  | .alloc _ => inferInstanceAs (Decidable (_ ∧ (_ ∨ _)))
  | .report .. | .attach .. | .detach .. | .describe .. => inferInstanceAs (Decidable True)

variable {s : LovObd}

/-- The part of a call behind the penalties. -/
theorem allocWeighted_valid {call : Call} (unmarked : Unmarked s call)
    (light : Light word call.fail0 s call.pool) (positive : 1 ≤ minStripeCount call.stripeCnt call.usesDefault) :
    ∃ result s', allocWeighted word s call = .ok (result, s') ∧ Valid s call result := by
  have most : minStripeCount call.stripeCnt call.usesDefault ≤ call.stripeCnt := by
    grind [minStripeCount]
  unfold allocWeighted
  rw [scan_eq call.fail0 call.distinct, zero_add]
  dsimp only
  split
  · exact ⟨_, _, rfl, trivial⟩
  · next enough =>
      generalize count : (if ((candidates call.fail0 s call.pool).length : Int) < call.stripeCnt then
        ((candidates call.fail0 s call.pool).length : Int) else call.stripeCnt) = stripeCnt
      rw [if_neg (by omega)]
      obtain ⟨idx, s', done, nodup, subset, length⟩ := choose_ready call.distinct light call.rands
        stripeCnt.toNat (scan_ready call.distinct unmarked) (by rw [length_nil]; omega)
      rw [done, bind_ok]
      refine ⟨_, _, rfl, nodup, fun i mem => ?_, ?_, ?_⟩
      · obtain ⟨inside, candidate⟩ := mem_filter.mp (subset i mem)
        obtain ⟨t, present, passes⟩ := candidateAt_iff.mp candidate
        obtain ⟨active, _, ready⟩ := of_decide_eq_true passes
        exact ⟨inside, t, present, active, ready⟩
      · rw [length, length_nil]
        omega
      · rw [length, length_nil]
        omega

/-- The penalties do not change what a call may choose. -/
theorem qosCalcPpo_tgts {ppo : Ppo} {i : Nat} {t : Tgt}
    (present : (qosCalcPpo s ppo).tgts i = some t) :
    ∃ t₀, s.tgts i = some t₀ ∧ t.active = t₀.active ∧ t.precreate = t₀.precreate ∧
      t.bavail = t₀.bavail ∧ t.usable = t₀.usable := by
  obtain ⟨t₀, before, rfl⟩ := Option.map_eq_some_iff.mp present
  exact ⟨t₀, before, rfl, rfl, rfl, rfl⟩

section

variable {call : Call} (unmarked : Unmarked s call) (light : Light word call.fail0 s call.pool)

include unmarked light

/-- The choice with the penalties of the call. -/
theorem qosCalcPpo_valid (positive : 1 ≤ minStripeCount call.stripeCnt call.usesDefault) :
    ∃ result s', allocWeighted word (qosCalcPpo s call.ppo) call = .ok (result, s') ∧
      Valid s call result := by
  have unmarked' : Unmarked (qosCalcPpo s call.ppo) call := by
    intro i mem t present usable
    obtain ⟨t₀, before, active, precreate, _, marks⟩ := qosCalcPpo_tgts present
    have passes := unmarked i mem t₀ before (marks ▸ usable)
    unfold candidate at passes ⊢
    rw [active, precreate]
    exact passes
  have light' : Light word call.fail0 (qosCalcPpo s call.ppo) call.pool := by
    refine light.imp_right fun bound => ?_
    have same : (fun i => share call.fail0 i ((qosCalcPpo s call.ppo).tgts i)) =
        fun i => share call.fail0 i (s.tgts i) := by
      funext i
      unfold qosCalcPpo
      dsimp only
      cases s.tgts i <;> rfl
    rw [same]
    exact bound
  obtain ⟨result, s', done, valid⟩ := allocWeighted_valid unmarked' light' positive
  refine ⟨result, s', done, ?_⟩
  cases result with
  | found idx =>
    obtain ⟨nodup, chosen, low, high⟩ := valid
    refine ⟨nodup, fun i mem => ?_, low, high⟩
    obtain ⟨inside, t, present, active, ready⟩ := chosen i mem
    obtain ⟨t₀, before, same, precreate, _⟩ := qosCalcPpo_tgts present
    exact ⟨inside, t₀, before, same ▸ active, precreate ▸ ready⟩
  | einval | roundRobin | error rc => trivial

theorem allocQos_valid :
    ∃ result s', allocQos word s call = .ok (result, s') ∧ Valid s call result := by
  unfold allocQos
  split_ifs with few
  · exact ⟨_, _, rfl, trivial⟩
  · exact ⟨_, _, rfl, trivial⟩
  · exact ⟨_, _, rfl, trivial⟩
  · exact ⟨_, _, rfl, trivial⟩
  · exact ⟨_, _, rfl, trivial⟩
  · exact qosCalcPpo_valid unmarked light (Int.not_lt.mp few)

end

/-- The calls of a run, each with what it returns. -/
def EachValid (word : WordSize) (s : LovObd) : Label → Prop
  | .alloc call => ∃ result s', allocQos word s call = .ok (result, s') ∧ Valid s call result
  | _ => True

/-- In every run, from every state of the volume and for both word sizes, in which no call finds an
earlier mark on a target it rejects, and on a 32-bit machine its candidates have no more space than a
word counts: no assertion fails, no remainder by zero is executed, and each call that chooses by weight
returns valid targets. -/
theorem weighted_allocation_valid (word : WordSize) (lov : LovObd) {labels : List Label}
    (orderly : Meets (step word) (Orderly word) lov labels) :
    Each (step word) (fun _ label s _ => EachValid word s label) [] lov labels := by
  have keep (done : List Label) (s : LovObd) (label : Label) (_ : True) (holds : Orderly word s label) :
      ∃ s', step word s label = .ok s' ∧ EachValid word s label ∧ True := by
    cases label with
    | alloc call =>
      obtain ⟨result, s', chosen, valid⟩ := allocQos_valid holds.1 holds.2
      refine ⟨s', ?_, ⟨result, s', chosen, valid⟩, trivial⟩
      rw [step, chosen]
      rfl
    | report | attach | detach | describe => exact ⟨_, rfl, trivial, trivial⟩
  exact each_of_meets keep trivial orderly

/-- A call that wants one object, with penalties that are all zero and one random number. -/
def oneObject (pool : List Nat) (distinct : pool.Nodup) (rand : UInt32) : Call :=
  ⟨pool, distinct, 1, false, false, ⟨0, fun _ => (0, 0), fun _ => ⟨0, 0⟩, 1, false⟩,
    fun _ => ⟨0, 0, rand⟩⟩

/-- A target in use. -/
def serving (bavail : UInt64) : Tgt := ⟨true, 0, bavail, 0, 0, 0, 0, false⟩

/-- A volume of three targets. -/
def threeTargets (bavail : UInt64) : LovObd :=
  { start with
    tgts := fun i => if i < 3 then some (serving bavail) else none
    activeTgtCount := 3 }

/-- Two calls, and a report between them. -/
def twoCalls : List Label :=
  [.alloc (oneObject [2, 0, 1] (by decide) 1500), .report 1 true 0 900,
    .alloc (oneObject [2, 0, 1] (by decide) 2500)]

theorem weighted_allocation_valid_two :
    ((allocQos .bits32 (threeTargets 1000) (oneObject [2, 0, 1] (by decide) 1500)).map
        Prod.fst).toOption = some (.found [0]) ∧
      Each (step .bits32) (fun _ label s _ => EachValid .bits32 s label) [] (threeTargets 1000)
        twoCalls :=
  ⟨by decide +kernel, weighted_allocation_valid .bits32 (threeTargets 1000) (by decide +kernel)⟩

/-- Three targets are marked and one is used; another becomes inactive and keeps its mark, and the next
call chooses it.  A total weight of `2^32` is a remainder by zero on 32 bits. -/
theorem stale_mark_chosen : (∃ s, run (step .bits64) (threeTargets 1000)
        [.alloc (oneObject [2, 0, 1] (by decide) 1500), .report 2 false 0 1000] = .ok s ∧
      ¬ EachValid .bits64 s (.alloc (oneObject [2, 0, 1] (by decide) 0))) ∧
      failure (allocQos .bits32 (threeTargets 0x80000000) (oneObject [0, 1] (by decide) 0)) =
        some .divide := by
  refine ⟨⟨_, rfl, ?_⟩, by decide +kernel⟩
  rintro ⟨result, s', done, valid⟩
  have chosen := congrArg (fun x => (x.map Prod.fst).toOption) done
  have same : result = .found [2] :=
    Option.some.inj (chosen.symm.trans (by decide +kernel))
  subst same
  obtain ⟨_, t, present, active, _⟩ := valid.2.1 2 mem_cons_self
  exact nomatch active.symm.trans (congrArg Tgt.active (Option.some.inj present)).symm

end Lov.Qos
