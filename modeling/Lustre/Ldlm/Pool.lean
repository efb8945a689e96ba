/-
Module: Lustre.Ldlm.Pool
Purpose: The lock pool of a server: a recalculation multiplies the server lock volume by the share
  of the limit that the grant plan left unused.
Trusted boundary: each call reads the clock once; statistics, rates and the volume in the device are
  left out
-/
import Lustre.Lib.Bytes
import Lustre.Lib.Run

namespace Ldlm

open Run

/-- What would be undefined or lost in the arithmetic of a pool, or fails an assertion. -/
inductive PoolFault where
  | int
  | u64
  | shift
  | division
  | lassert
deriving DecidableEq, Repr

/-- The result of an operation of type `int`. -/
def checkedInt (n : Int) : Except PoolFault Int :=
  if -2 ^ 31 ≤ n ∧ n < 2 ^ 31 then .ok n else .error .int

/-- The result of an operation of type `__u64`. -/
def checkedU64 (n : Nat) : Except PoolFault Nat := if n < 2 ^ 64 then .ok n else .error .u64

theorem checkedInt_eq {n : Int} (low : -2 ^ 31 ≤ n) (high : n < 2 ^ 31) : checkedInt n = .ok n :=
  if_pos ⟨low, high⟩

theorem checkedU64_eq {n : Nat} (small : n < 2 ^ 64) : checkedU64 n = .ok n := if_pos small

/-! ### The functions -/

/-- `struct ldlm_pool` -/
structure Pool where
  limit : Nat
  granted : Int
  grantPlan : Int
  serverLockVolume : Nat
  recalcTime : Int
  recalcPeriod : Int
deriving DecidableEq, Repr

/-- `dru` -/
def dru (val shift : Nat) (roundUp : Bool) : Except PoolFault Nat := do
  let sum ← checkedU64 (val + if roundUp then 2 ^ shift - 1 else 0)
  .ok (sum / 2 ^ shift)

/-- `ldlm_pool_slv_max` -/
def ldlmPoolSlvMax (limit : Nat) : Nat := limit * 36000

/-- `ldlm_pool_slv_min` -/
def ldlmPoolSlvMin (_ : Nat) : Nat := 1

/-- `ldlm_pool_t2gsp` -/
def ldlmPoolT2gsp (t : Nat) : Except PoolFault Int :=
  if t / 2 ^ 2 < 32 then .ok (30 - (30 - 1) / 2 ^ (t / 2 ^ 2)) else .error .shift

/-- `ldlm_pool_recalc_grant_plan` -/
def ldlmPoolRecalcGrantPlan (s : Pool) : Except PoolFault Pool := do
  let limit := Bytes.int32 s.limit
  let grantStep ← ldlmPoolT2gsp (s.recalcPeriod % 2 ^ 32).toNat
  let free ← checkedInt (limit - s.granted)
  let scaled ← checkedInt (free * grantStep)
  let plan ← checkedInt (s.granted + scaled.tdiv 100)
  let most ← checkedInt (limit * 5)
  .ok { s with grantPlan := min plan (most / 2 ^ 2) }

/-- The factor of `ldlm_pool_recalc_slv`, in units of 1 / 1024. -/
def slvFactor (s : Pool) : Except PoolFault Nat := do
  let excess ← checkedInt (s.granted - s.grantPlan)
  -- the difference is one of `__u32`, and `max_t` reads it as an `int`
  let grantUsage := max (Bytes.int32 (s.limit - excess)) 1
  let scaled ← checkedU64 (grantUsage.toNat * 2 ^ 10)
  if s.limit = 0 then .error .division else .ok (scaled / s.limit)

/-- `ldlm_pool_recalc_slv` -/
def ldlmPoolRecalcSlv (s : Pool) : Except PoolFault Pool := do
  let factor ← slvFactor s
  let product ← checkedU64 (s.serverLockVolume * factor)
  let slv ← dru product 10 (s.granted % 2 ^ 32 < s.limit)
  .ok { s with serverLockVolume :=
    if slv > ldlmPoolSlvMax s.limit then ldlmPoolSlvMax s.limit
    else if slv < ldlmPoolSlvMin s.limit then ldlmPoolSlvMin s.limit
    else slv }

/-- `ldlm_srv_pool_recalc` -/
def ldlmSrvPoolRecalc (now : Int) (s : Pool) : Except PoolFault Pool :=
  if now - s.recalcTime < s.recalcPeriod then .ok s
  else do
    let s ← ldlmPoolRecalcSlv s
    let s ← ldlmPoolRecalcGrantPlan s
    .ok { s with recalcTime := now }

/-- `ldlm_srv_pool_shrink` -/
def ldlmSrvPoolShrink (nr : Nat) (s : Pool) : Pool :=
  if nr = 0 ∨ s.granted = 0 then s
  else { s with serverLockVolume :=
    if nr < s.serverLockVolume then s.serverLockVolume - nr else ldlmPoolSlvMin s.limit }

/-- `ldlm_pool_add` on a server, of a lock that is an `LDLM_FLOCK` one or not. -/
def ldlmPoolAdd (flock : Bool) (now : Int) (s : Pool) : Except PoolFault Pool :=
  if flock then .ok s
  else do
    let granted ← checkedInt (s.granted + 1)
    ldlmSrvPoolRecalc now { s with granted := granted }

/-- `ldlm_pool_del` on a server. -/
def ldlmPoolDel (flock : Bool) (now : Int) (s : Pool) : Except PoolFault Pool :=
  if flock then .ok s
  else if s.granted ≤ 0 then .error .lassert
  else do
    let granted ← checkedInt (s.granted - 1)
    ldlmSrvPoolRecalc now { s with granted := granted }

/-- `ldlm_pool_init` of a server, where `LDLM_POOL_HOST_L` is `limit`. -/
def ldlmPoolInit (limit : Nat) (now : Int) : Pool :=
  ⟨limit, 0, (limit * 30 / 100 : Nat), ldlmPoolSlvMax limit, now, 1⟩

/-- What happens to a pool. -/
inductive PoolOp where
  | add (flock : Bool) (now : Int)
  | del (flock : Bool) (now : Int)
  | recalc (now : Int)
  | shrink (nr : Nat)
deriving DecidableEq, Repr

def poolStep (s : Pool) : PoolOp → Except PoolFault Pool
  | .add flock now => ldlmPoolAdd flock now s
  | .del flock now => ldlmPoolDel flock now s
  | .recalc now => ldlmSrvPoolRecalc now s
  | .shrink nr => .ok (ldlmSrvPoolShrink nr s)

/-! ### The invariant -/

/-- The volume and the plan of a pool are in their ranges. -/
structure Pool.InRange (limit : Nat) (s : Pool) : Prop where
  fixed : s.limit = limit
  period : s.recalcPeriod = 1
  granted : 0 ≤ s.granted ∧ s.granted < 2 ^ 24
  plan : 0 ≤ s.grantPlan ∧ s.grantPlan * 4 ≤ limit * 5
  volume : 1 ≤ s.serverLockVolume ∧ s.serverLockVolume ≤ limit * 36000

variable {limit : Nat} {s : Pool}

theorem Pool.InRange.regranted (range : s.InRange limit) {granted : Int} (low : 0 ≤ granted)
    (high : granted < 2 ^ 24) : Pool.InRange limit { s with granted := granted } :=
  { range with granted := ⟨low, high⟩ }

theorem dru_eq {val : Nat} (small : val < 2 ^ 63) (roundUp : Bool) :
    ∃ slv, dru val 10 roundUp = .ok slv := by
  have bound : val + (if roundUp then 2 ^ 10 - 1 else 0) < 2 ^ 64 := by split <;> omega
  exact ⟨_, by rw [dru, checkedU64_eq bound, bind_ok]⟩

section

variable (low : 1 ≤ limit) (high : limit < 2 ^ 24) (range : s.InRange limit)

include low high range

theorem slvFactor_range : ∃ factor, slvFactor s = .ok factor ∧ limit * factor < 2 ^ 36 := by
  obtain ⟨rfl, -, granted, plan, -⟩ := range
  have excess : checkedInt (s.granted - s.grantPlan) = .ok (s.granted - s.grantPlan) :=
    checkedInt_eq (by omega) (by omega)
  have usage : Bytes.int32 (s.limit - (s.granted - s.grantPlan)) =
      s.limit - (s.granted - s.grantPlan) := by
    rw [Bytes.int32_eq]
    split <;> omega
  unfold slvFactor
  rw [excess, bind_ok, usage]
  dsimp only
  rw [checkedU64_eq (by omega), bind_ok, if_neg (by omega)]
  exact ⟨_, rfl, lt_of_le_of_lt (Nat.mul_div_le _ _) (by omega)⟩

theorem ldlmPoolRecalcSlv_range :
    ∃ slv, ldlmPoolRecalcSlv s = .ok { s with serverLockVolume := slv } ∧
      1 ≤ slv ∧ slv ≤ limit * 36000 := by
  obtain ⟨factor, found, small⟩ := slvFactor_range low high range
  have product : s.serverLockVolume * factor < 2 ^ 63 := calc
    s.serverLockVolume * factor ≤ limit * 36000 * factor := Nat.mul_le_mul_right _ range.volume.2
    _ = limit * factor * 36000 := by ac_rfl
    _ < 2 ^ 63 := by omega
  obtain ⟨slv, rounded⟩ := dru_eq product (decide (s.granted % 2 ^ 32 < s.limit))
  unfold ldlmPoolRecalcSlv
  rw [found, bind_ok, checkedU64_eq (by omega), bind_ok, rounded, bind_ok]
  refine ⟨_, rfl, ?_⟩
  rw [range.fixed]
  unfold ldlmPoolSlvMax ldlmPoolSlvMin
  split_ifs <;> omega

theorem ldlmPoolRecalcGrantPlan_range :
    ∃ plan, ldlmPoolRecalcGrantPlan s = .ok { s with grantPlan := plan } ∧
      0 ≤ plan ∧ plan * 4 ≤ limit * 5 := by
  obtain ⟨rfl, period, granted, -, -⟩ := range
  have step : ldlmPoolT2gsp (s.recalcPeriod % 2 ^ 32).toNat = .ok 1 := by
    rw [period]
    rfl
  have word : Bytes.int32 s.limit = s.limit := Bytes.int32_of_lt (by omega) (by omega)
  have part : (((s.limit : Int) - s.granted) * 1).tdiv 100 * 100 +
      (((s.limit : Int) - s.granted) * 1).tmod 100 = s.limit - s.granted := by
    rw [Int.tdiv_mul_add_tmod, Int.mul_one]
  have above := Int.lt_tmod_of_pos (((s.limit : Int) - s.granted) * 1) (show (0 : Int) < 100 by decide)
  have below := Int.tmod_lt_of_pos (((s.limit : Int) - s.granted) * 1) (show (0 : Int) < 100 by decide)
  unfold ldlmPoolRecalcGrantPlan
  rw [word, step, bind_ok, checkedInt_eq (by omega) (by omega), bind_ok,
    checkedInt_eq (by omega) (by omega), bind_ok, checkedInt_eq (by omega) (by omega),
    bind_ok, checkedInt_eq (by omega) (by omega), bind_ok]
  refine ⟨_, rfl, ?_⟩
  omega

theorem ldlmSrvPoolRecalc_range (now : Int) :
    ∃ s', ldlmSrvPoolRecalc now s = .ok s' ∧ s'.InRange limit := by
  unfold ldlmSrvPoolRecalc
  split
  · exact ⟨s, rfl, range⟩
  obtain ⟨slv, first, volume⟩ := ldlmPoolRecalcSlv_range low high range
  obtain ⟨plan, second, bounds⟩ :=
    ldlmPoolRecalcGrantPlan_range (s := { s with serverLockVolume := slv }) low high
      { range with volume := volume }
  rw [first, bind_ok, second, bind_ok]
  exact ⟨_, rfl, { range with plan := bounds, volume := volume }⟩

end

/-- Fewer than 2^24 locks, a lock that goes was there, and the shrinker asks for a positive number. -/
def Pool.Within (s : Pool) : PoolOp → Prop
  | .add flock _ => flock = true ∨ s.granted + 1 < 2 ^ 24
  | .del flock _ => flock = true ∨ 0 < s.granted
  | .recalc _ => True
  | .shrink nr => 0 < nr ∧ nr < 2 ^ 31

instance (s : Pool) (op : PoolOp) : Decidable (s.Within op) := by
  cases op <;> unfold Pool.Within <;> infer_instance

theorem Pool.InRange.step (range : s.InRange limit) (low : 1 ≤ limit) (high : limit < 2 ^ 24)
    {op : PoolOp} (within : s.Within op) : ∃ s', poolStep s op = .ok s' ∧ s'.InRange limit := by
  have granted := range.granted
  cases op with
  | add flock now =>
    rw [poolStep, ldlmPoolAdd]
    split
    · exact ⟨s, rfl, range⟩
    · have room := within.resolve_left ‹_›
      rw [checkedInt_eq (by omega) (by omega), bind_ok]
      exact ldlmSrvPoolRecalc_range low high (range.regranted (by omega) room) now
  | del flock now =>
    rw [poolStep, ldlmPoolDel]
    split
    · exact ⟨s, rfl, range⟩
    · have some := within.resolve_left ‹_›
      rw [if_neg (by omega), checkedInt_eq (by omega) (by omega), bind_ok]
      exact ldlmSrvPoolRecalc_range low high (range.regranted (by omega) (by omega)) now
  | recalc now => exact ldlmSrvPoolRecalc_range low high range now
  | shrink nr =>
    obtain ⟨least, most⟩ := range.volume
    refine ⟨_, rfl, ?_⟩
    unfold ldlmSrvPoolShrink ldlmPoolSlvMin
    split
    · exact range
    · exact { range with volume := by dsimp only; split <;> omega }

theorem ldlmPoolInit_range (low : 1 ≤ limit) (now : Int) : (ldlmPoolInit limit now).InRange limit where
  fixed := rfl
  period := rfl
  granted := ⟨Int.le_refl 0, show (0 : Int) < 2 ^ 24 by decide⟩
  plan := by
    dsimp only [ldlmPoolInit]
    omega
  volume := by
    dsimp only [ldlmPoolInit, ldlmPoolSlvMax]
    omega

/-- From `ldlm_pool_init` on no operation overflows or divides by zero, and the server lock volume stays
in its range. -/
theorem server_lock_volume_range (limit : Nat) (low : 1 ≤ limit) (high : limit < 2 ^ 24) (now : Int)
    (ops : List PoolOp) (within : Meets poolStep Pool.Within (ldlmPoolInit limit now) ops) :
    ∃ s, run poolStep (ldlmPoolInit limit now) ops = .ok s ∧
      1 ≤ s.serverLockVolume ∧ s.serverLockVolume ≤ limit * 36000 := by
  obtain ⟨s, ran, range⟩ := run_ok (fun s op range within => range.step low high within)
    (ldlmPoolInit_range low now) within
  exact ⟨s, ran, range.volume⟩

/-- Two locks are granted and the pool is recalculated while the shrinker asks for them. -/
theorem server_lock_volume_range_two : ∃ s, run poolStep (ldlmPoolInit 1 0)
        [.add false 0, .add false 1, .shrink 40000, .recalc 2, .del false 3] = .ok s ∧
      1 ≤ s.serverLockVolume ∧ s.serverLockVolume ≤ 1 * 36000 :=
  server_lock_volume_range 1 (by decide) (by decide) 0 _ (by decide)

end Ldlm
