/-
Module: Lustre.Quota.Master
Purpose: The ledger of the quota master: `dqacq_handler` for the requests of the slaves about one
  id.
Trusted boundary: what stands in the way of a request before its record is read, the clock, whether
  the record can be written, and who else holds a reference to it, is part of the label of a step
-/
import Lustre.Lib.Run

namespace Quota

open Run

/-! ### Data -/

/-- One half of `struct lustre_mem_dqblk`, blocks or inodes.  The usage is `dqb_curspace`, in bytes,
or `dqb_curinodes`. -/
structure Dqb where
  hardlimit : UInt64
  softlimit : UInt64
  usage : UInt64
  time : Int
deriving DecidableEq, Repr

/-- `dq_dqb` of a `struct lustre_dquot`. -/
structure Dquot where
  block : Dqb
  inode : Dqb
deriving DecidableEq, Repr

/-- The half a request is about. -/
def Dquot.half (dquot : Dquot) (isBlk : Bool) : Dqb := if isBlk then dquot.block else dquot.inode

def Dquot.setHalf (dquot : Dquot) (isBlk : Bool) (dqb : Dqb) : Dquot :=
  if isBlk then { dquot with block := dqb } else { dquot with inode := dqb }

/-- `QUOTA_DQACQ` and `QUOTA_DQREL` -/
inductive Opc where
  | dqacq
  | dqrel
deriving DecidableEq, Repr

/-- `struct qunit_data`, with `LQUOTA_FLAGS_BLK` and `LQUOTA_FLAGS_CHG_QS`.  Users and groups have
records of their own. -/
structure Qdata where
  opc : Opc
  isBlk : Bool
  changeQs : Bool
  count : UInt64
deriving DecidableEq, Repr

/-- An error code. -/
structure Errno where
  rc : Int
  neg : rc < 0
deriving DecidableEq, Repr

def eio : Errno := ⟨-5, by decide⟩
def enoent : Errno := ⟨-2, by decide⟩
def ebusy : Errno := ⟨-16, by decide⟩
def edquot : Errno := ⟨-122, by decide⟩

/-- What `quota_search_lqs` finds: the sizes of the units, and whether the id is under recovery. -/
inductive Lqs where
  | absent
  | failed (rc : Errno)
  | found (recovery : Bool) (bunitSz iunitSz : UInt64)
deriving DecidableEq, Repr

/-- What a request meets on its way. -/
structure Env where
  obdFail : Bool
  quotaActive : Bool
  lqs : Lqs
  /-- `lustre_dqget` fails -/
  dqget : Option Errno
  now : Int
  grace : Nat
  /-- `fsfilt_dquot` fails -/
  write : Option Errno
  /-- another thread has a reference to the record behind the `lustre_dqput` of this one -/
  held : Bool
deriving DecidableEq, Repr

/-- What goes back to the slave. -/
structure Reply where
  rc : Int
  count : UInt64
  qunit : Option UInt64
deriving DecidableEq, Repr

/-- The record of one id, in the administrative file and, while a thread has a reference to it, in
memory. -/
structure Master where
  disk : Dquot
  cached : Option Dquot
deriving DecidableEq, Repr

/-- What `lustre_dqget` gives: the record in memory, or else the one that is read. -/
def Master.dquot (s : Master) : Dquot := s.cached.getD s.disk

/-! ### The handler -/

/-- `QUOTABLOCK_BITS` -/
def quotablockBits : UInt64 := 10

/-- `QUOTABLOCK_SIZE` -/
def quotablockSize : UInt64 := 1024

/-- `toqb` -/
def toqb (x : UInt64) : UInt64 := (x + quotablockSize - 1) >>> quotablockBits

/-- `QUSG` -/
def qusg (count : UInt64) (isBlk : Bool) : UInt64 := if isBlk then toqb count else count

/-- The check against the hard limit: the count that can be given, or `-EDQUOT`. -/
def hardChecked (d : Dqb) (q : Qdata) : Option UInt64 :=
  if d.hardlimit ≠ 0 ∧ d.hardlimit < qusg (d.usage + q.count) q.isBlk then
    if q.changeQs ∧ qusg d.usage q.isBlk < d.hardlimit then
      some ((d.hardlimit - qusg d.usage q.isBlk) * if q.isBlk then quotablockSize else 1)
    else none
  else some q.count

/-- The check against the soft limit: the new time limit, or `-EDQUOT`. -/
def softChecked (d : Dqb) (isBlk : Bool) (count : UInt64) (now : Int) (grace : Nat) : Option Int :=
  if d.softlimit ≠ 0 ∧ d.softlimit < qusg (d.usage + count) isBlk then
    if d.time ≠ 0 ∧ d.time ≤ now then none
    else if d.time = 0 then some (now + grace)
    else some d.time
  else some d.time

/-- The case `QUOTA_DQACQ`: the count that is returned, and the new record unless `rc` is
`-EDQUOT`. -/
def dqacq (d : Dqb) (q : Qdata) (now : Int) (grace : Nat) : UInt64 × Option Dqb :=
  match hardChecked d q with
  | none => (q.count, none)
  | some count =>
    match softChecked d q.isBlk count now grace with
    | none => (count, none)
    | some time => (count, some { d with usage := d.usage + count, time := time })

/-- The case `QUOTA_DQREL`. -/
def dqrel (d : Dqb) (q : Qdata) : Dqb :=
  -- the difference is unsigned
  let usage := if d.usage - q.count < 0 then 0 else d.usage - q.count
  { d with
    usage := usage
    time := if d.softlimit = 0 ∨ qusg usage q.isBlk ≤ d.softlimit then 0 else d.time }

/-- The switch over the operations. -/
def handled (d : Dqb) (q : Qdata) (now : Int) (grace : Nat) : UInt64 × Option Dqb :=
  match q.opc with
  | .dqacq => dqacq d q now grace
  | .dqrel => (q.count, some (dqrel d q))

/-- What stops a request before it has the record. -/
def hindered (env : Env) : Option Errno :=
  if env.obdFail then some eio
  else if ¬ env.quotaActive then some eio
  else match env.lqs with
    | .absent => some enoent
    | .failed rc => some rc
    | .found true _ _ => some ebusy
    | .found false _ _ => env.dqget

/-- `qd_qunit` of the reply. -/
def qunit (env : Env) (isBlk : Bool) : Option UInt64 :=
  match env.lqs with
  | .found _ bunitSz iunitSz => some (if isBlk then bunitSz else iunitSz)
  | _ => none

/-- The end of a request that has the record: it stays in memory while another thread has it. -/
def Master.finish (s : Master) (env : Env) (dquot : Dquot) : Master :=
  { s with cached := if env.held then some dquot else none }

/-- `dqacq_handler` -/
def dqacqHandler (s : Master) (q : Qdata) (env : Env) : Reply × Master :=
  match hindered env with
  | some errno => (⟨errno.rc, q.count, none⟩, s)
  | none =>
    let d := s.dquot.half q.isBlk
    if d.hardlimit = 0 ∧ d.softlimit = 0 then
      (⟨0, 0, qunit env q.isBlk⟩, s.finish env s.dquot)
    else
      match handled d q env.now env.grace with
      | (count, none) => (⟨edquot.rc, count, qunit env q.isBlk⟩, s.finish env s.dquot)
      | (count, some d') =>
        let dquot := s.dquot.setHalf q.isBlk d'
        match env.write with
        | some errno => (⟨errno.rc, count, qunit env q.isBlk⟩, s.finish env dquot)
        | none => (⟨0, count, qunit env q.isBlk⟩, Master.finish { s with disk := dquot } env dquot)

/-- What happens to the record. -/
inductive Label where
  | request (q : Qdata) (env : Env)
  /-- another thread takes a reference -/
  | dqget
  /-- the last reference goes -/
  | dqput
deriving DecidableEq, Repr

/-- Requests are handled one at a time, under `mds_qonoff_sem` and `dq_sem`. -/
def step (s : Master) : Label → Except Empty Master
  | .request q env => .ok (dqacqHandler s q env).2
  | .dqget => .ok { s with cached := some s.dquot }
  | .dqput => .ok { s with cached := none }

/-- The exact number of blocks, or of inodes. -/
def units (count : Nat) (isBlk : Bool) : Nat := if isBlk then (count + 1023) / 1024 else count

/-- What `toqb` adds before it shifts. -/
def rounding (isBlk : Bool) : Nat := if isBlk then 1023 else 0

/-- A request leaves the usage alone and fails, or it is accounted for exactly. -/
def AccountedBy (before : Dqb) (q : Qdata) (reply : Reply) (after : Dqb) : Prop :=
  if reply.rc ≠ 0 then after.usage = before.usage
  else
    match q.opc with
    | .dqacq =>
      after.usage.toNat = before.usage.toNat + reply.count.toNat ∧
        units after.usage.toNat q.isBlk ≤ before.hardlimit.toNat
    | .dqrel =>
      after.usage.toNat = before.usage.toNat - min before.usage.toNat q.count.toNat

/-- The same for a step, if it is a request about a hard limit. -/
def Accounted (s : Master) : Label → Prop
  | .request q env =>
    (s.dquot.half q.isBlk).hardlimit ≠ 0 →
      AccountedBy (s.dquot.half q.isBlk) q (dqacqHandler s q env).1
        ((dqacqHandler s q env).2.dquot.half q.isBlk)
  | .dqget | .dqput => True

/-- The sum for an acquire is a word, also when rounded up to blocks, a release is covered by the usage,
and a record that cannot be written is not kept in memory. -/
def Orderly (s : Master) : Label → Prop
  | .request q env =>
    (match q.opc with
      | .dqacq => (s.dquot.half q.isBlk).usage.toNat + q.count.toNat + rounding q.isBlk < 2 ^ 64
      | .dqrel => q.count ≤ (s.dquot.half q.isBlk).usage) ∧
      (env.write = none ∨ env.held = false)
  | .dqget | .dqput => True

/-- The record in memory is the one in the file. -/
def Clean (s : Master) : Prop := ∀ dquot, s.cached = some dquot → dquot = s.disk

variable {s : Master}

theorem Clean.dquot (clean : Clean s) : s.dquot = s.disk := by
  unfold Master.dquot
  cases cached : s.cached with
  | none => rfl
  | some dquot => exact clean dquot cached

theorem finish_clean (s : Master) (env : Env) : Clean (s.finish env s.disk) := by
  intro dquot cached
  unfold Master.finish at *
  split at cached
  · exact (Option.some.inj cached).symm
  · cases cached

theorem qusg_toNat {x : UInt64} {isBlk : Bool} (small : x.toNat + rounding isBlk < 2 ^ 64) :
    (qusg x isBlk).toNat = units x.toNat isBlk := by
  cases isBlk with
  | false => rfl
  | true =>
    have small : x.toNat + 1023 < 2 ^ 64 := small
    have sum : (x + quotablockSize - 1).toNat = x.toNat + 1023 := by
      have size : quotablockSize.toNat = 1024 := rfl
      have one : (1 : UInt64).toNat = 1 := rfl
      rw [UInt64.toNat_sub, UInt64.toNat_add, size, one]
      omega
    show (toqb x).toNat = (x.toNat + 1023) / 1024
    unfold toqb
    rw [UInt64.toNat_shiftRight, sum, Nat.shiftRight_eq_div_pow]
    rfl

theorem add_toNat {a b : UInt64} (small : a.toNat + b.toNat < 2 ^ 64) :
    (a + b).toNat = a.toNat + b.toNat := by
  exact Nat.mod_eq_of_lt small

variable {q : Qdata} {d : Dqb} (small : d.usage.toNat + q.count.toNat + rounding q.isBlk < 2 ^ 64)

include small

/-- The count for what is left up to the hard limit. -/
theorem remainder_fits (more : d.hardlimit < qusg (d.usage + q.count) q.isBlk)
    (less : qusg d.usage q.isBlk < d.hardlimit) :
    let count := (d.hardlimit - qusg d.usage q.isBlk) * if q.isBlk then quotablockSize else 1
    d.usage.toNat + count.toNat < 2 ^ 64 ∧
      units (d.usage.toNat + count.toNat) q.isBlk ≤ d.hardlimit.toNat := by
  have sum : (d.usage + q.count).toNat = d.usage.toNat + q.count.toNat := add_toNat (by omega)
  have left : (d.hardlimit - qusg d.usage q.isBlk).toNat =
      d.hardlimit.toNat - (qusg d.usage q.isBlk).toNat :=
    UInt64.toNat_sub_of_le _ _ (UInt64.le_of_lt less)
  rw [UInt64.lt_iff_toNat_lt, qusg_toNat (by omega), sum] at more
  rw [UInt64.lt_iff_toNat_lt, qusg_toNat (by omega)] at less
  rw [qusg_toNat (by omega)] at left
  generalize d.hardlimit - qusg d.usage q.isBlk = rest at left
  cases block : q.isBlk with
  | true =>
    rw [block] at small more less left
    simp only [units, rounding, if_true] at small more less left ⊢
    -- the limit lies below the rounded sum, so that its bytes do not wrap around
    have bytes : (rest * quotablockSize).toNat = rest.toNat * 1024 := by
      have size : quotablockSize.toNat = 1024 := rfl
      rw [UInt64.toNat_mul, size]
      omega
    omega
  | false =>
    rw [block] at small more less left
    simp only [units, rounding, Bool.false_eq_true, if_false, UInt64.mul_one] at small more less left ⊢
    omega

variable {count : UInt64} (limited : d.hardlimit ≠ 0)

include limited

/-- What passes the check against the hard limit is within it. -/
theorem hardChecked_fits (passed : hardChecked d q = some count) :
    d.usage.toNat + count.toNat < 2 ^ 64 ∧
      units (d.usage.toNat + count.toNat) q.isBlk ≤ d.hardlimit.toNat := by
  unfold hardChecked at passed
  split at passed
  · next exceeded =>
      split at passed
      · next less =>
          obtain rfl := Option.some.inj passed
          exact remainder_fits small exceeded.2 less.2
      · cases passed
  · next within =>
      obtain rfl := Option.some.inj passed
      have sum : (d.usage + q.count).toNat = d.usage.toNat + q.count.toNat := add_toNat (by omega)
      have room : qusg (d.usage + q.count) q.isBlk ≤ d.hardlimit :=
        UInt64.not_lt.mp fun more => within ⟨limited, more⟩
      rw [UInt64.le_iff_toNat_le, qusg_toNat (by omega), sum] at room
      exact ⟨by omega, room⟩

theorem dqacq_usage {d' : Dqb} {now : Int} {grace : Nat}
    (passed : dqacq d q now grace = (count, some d')) :
    d'.usage.toNat = d.usage.toNat + count.toNat ∧
      units d'.usage.toNat q.isBlk ≤ d.hardlimit.toNat := by
  unfold dqacq at passed
  split at passed
  · cases passed
  · next granted hard =>
      split at passed
      · cases passed
      · next time soft =>
          cases passed
          obtain ⟨fits, within⟩ := hardChecked_fits small limited hard
          rw [add_toNat fits]
          exact ⟨rfl, within⟩

omit small limited

/-! ### Runs -/

/-- What a request can do.  A failed one may have had the record or not. -/
inductive Handles (s : Master) (q : Qdata) (env : Env) : Reply × Master → Prop where
  | refused {reply : Reply} (failed : reply.rc ≠ 0) : Handles s q env (reply, s)
  | denied {reply : Reply} (failed : reply.rc ≠ 0) : Handles s q env (reply, s.finish env s.dquot)
  | unlimited {reply : Reply} (none : (s.dquot.half q.isBlk).hardlimit = 0) :
      Handles s q env (reply, s.finish env s.dquot)
  | unwritten {reply : Reply} (failed : reply.rc ≠ 0) (write : env.write ≠ none) (dquot : Dquot) :
      Handles s q env (reply, s.finish env dquot)
  | written {count : UInt64} {d : Dqb} {qunit : Option UInt64}
      (changed : handled (s.dquot.half q.isBlk) q env.now env.grace = (count, some d)) :
      Handles s q env (⟨0, count, qunit⟩,
        Master.finish { s with disk := s.dquot.setHalf q.isBlk d } env (s.dquot.setHalf q.isBlk d))

theorem dqacqHandler_handles (s : Master) (q : Qdata) (env : Env) :
    Handles s q env (dqacqHandler s q env) := by
  unfold dqacqHandler
  split
  · next errno _ => exact .refused (Int.ne_of_lt errno.neg)
  · dsimp only
    split
    · next unlimited => exact .unlimited unlimited.1
    · split
      · exact .denied (Int.ne_of_lt edquot.neg)
      · next count d changed =>
          split
          · next errno write =>
              exact .unwritten (Int.ne_of_lt errno.neg) (fun none => nomatch write.symm.trans none) _
          · exact .written changed

/-- A request that fails without touching the record. -/
theorem accounted_unchanged {before after : Dqb} (q : Qdata) {reply : Reply} (failed : reply.rc ≠ 0)
    (same : after.usage = before.usage) : AccountedBy before q reply after := by
  unfold AccountedBy
  rw [if_pos failed]
  exact same

/-- The arithmetic of a request that is written. -/
theorem written_accounted {before after : Dqb} {now : Int} {grace : Nat} {qunit : Option UInt64}
    (limited : before.hardlimit ≠ 0)
    (counts : match q.opc with
      | .dqacq => before.usage.toNat + q.count.toNat + rounding q.isBlk < 2 ^ 64
      | .dqrel => q.count ≤ before.usage)
    (changed : handled before q now grace = (count, some after)) :
    AccountedBy before q ⟨0, count, qunit⟩ after := by
  unfold AccountedBy
  unfold handled at changed
  cases opc : q.opc with
  | dqacq =>
    rw [opc] at counts changed
    exact dqacq_usage counts limited changed
  | dqrel =>
    rw [opc] at counts changed
    cases changed
    simp_all [dqrel, UInt64.not_lt_zero, UInt64.toNat_sub_of_le, UInt64.le_iff_toNat_le]

theorem request_accounted (clean : Clean s) {env : Env} (orderly : Orderly s (.request q env)) :
    Accounted s (.request q env) ∧ Clean (dqacqHandler s q env).2 := by
  obtain ⟨counts, alone⟩ := orderly
  have same := clean.dquot
  have kept := finish_clean s env
  have result := dqacqHandler_handles s q env
  dsimp only [Accounted]
  generalize dqacqHandler s q env = outcome at result
  cases result with
  | refused failed => exact ⟨fun _ => accounted_unchanged q failed rfl, clean⟩
  | denied failed =>
    rw [same]
    refine ⟨fun _ => accounted_unchanged q failed ?_, kept⟩
    exact congrArg (fun dquot => (dquot.half q.isBlk).usage) kept.dquot
  | unlimited none =>
    refine ⟨fun limited => absurd none limited, ?_⟩
    rw [same]
    exact kept
  | unwritten failed write dquot =>
    have single : env.held = false := alone.resolve_left write
    have dropped : s.finish env dquot = { s with cached := none } := by
      rw [Master.finish, single]
      rfl
    rw [dropped, same]
    exact ⟨fun _ => accounted_unchanged q failed rfl, fun _ cached => by cases cached⟩
  | @written count d qunit changed =>
    have clean' := finish_clean { s with disk := s.dquot.setHalf q.isBlk d } env
    refine ⟨fun limited => ?_, clean'⟩
    have after : ((Master.finish { s with disk := s.dquot.setHalf q.isBlk d } env
        (s.dquot.setHalf q.isBlk d)).dquot.half q.isBlk) = d :=
      (congrArg (·.half q.isBlk) clean'.dquot).trans (by cases q.isBlk <;> rfl)
    rw [after]
    exact written_accounted limited counts changed

theorem step_accounted {label : Label} (clean : Clean s) (orderly : Orderly s label) :
    ∃ s', step s label = .ok s' ∧ Accounted s label ∧ Clean s' := by
  cases label with
  | request q env =>
    obtain ⟨accounted, clean'⟩ := request_accounted clean orderly
    exact ⟨_, rfl, accounted, clean'⟩
  | dqget => exact ⟨_, rfl, trivial, fun _ cached => Option.some.inj cached ▸ clean.dquot⟩
  | dqput => exact ⟨_, rfl, trivial, fun _ cached => by cases cached⟩

/-- For every sequence of requests whose rounded sums are words, whose releases are covered by the usage
and whose records can be written or are in nobody else's hands: an acquire that succeeds adds exactly the
count it returns and stays within the hard limit, a release that succeeds takes its count, and a failed
request changes nothing. -/
theorem quota_master_ledger (disk : Dquot) {labels : List Label}
    (orderly : Meets step Orderly ⟨disk, none⟩ labels) :
    Each step (fun _ label s _ => Accounted s label) [] ⟨disk, none⟩ labels := by
  have clean : Clean ⟨disk, none⟩ := fun _ cached => by cases cached
  exact each_of_meets (fun _ _ _ => step_accounted) clean orderly

/-- A request that nothing hinders, for a record that nobody else has. -/
def calm : Env := ⟨false, true, .found false 0x8000000 5120, none, 1000, 604800, none, false⟩

/-- Ten blocks and five inodes at most, two blocks used. -/
def tenBlocks : Dquot := ⟨⟨10, 0, 2048, 0⟩, ⟨5, 0, 0, 0⟩⟩

/-- A slave acquires all that is left, asks for more, and releases part of it. -/
def slaveRequests : List Label :=
  [.request ⟨.dqacq, true, true, 1048576⟩ calm, .request ⟨.dqacq, true, false, 1024⟩ calm,
    .request ⟨.dqrel, true, false, 4096⟩ calm]

theorem quota_master_ledger_slave :
    ((run step ⟨tenBlocks, none⟩ slaveRequests).toOption.map fun s => s.dquot.block.usage) = some 6144 ∧
      Each step (fun _ label s _ => Accounted s label) [] ⟨tenBlocks, none⟩ slaveRequests := by
  refine ⟨by decide +kernel, quota_master_ledger tenBlocks ?_⟩
  refine ⟨by unfold Orderly; decide +kernel, fun s₁ taken => ?_⟩
  cases taken
  refine ⟨by unfold Orderly; decide +kernel, fun s₂ taken => ?_⟩
  cases taken
  exact ⟨by unfold Orderly; decide +kernel, fun _ _ => trivial⟩

/-- A release of more than is used leaves an enormous usage, an acquire that wraps around lowers it, one
that wraps when rounded up is granted whole, and one whose record cannot be written fails but stays in
the usage. -/
theorem oversized_counts_wrap :
    ¬ Accounted ⟨tenBlocks, none⟩ (.request ⟨.dqrel, true, false, 4096⟩ calm) ∧
      ¬ Accounted ⟨tenBlocks, none⟩ (.request ⟨.dqacq, true, false, 0 - 1024⟩ calm) ∧
      ¬ Accounted ⟨tenBlocks, none⟩ (.request ⟨.dqacq, true, false, 0 - 3000⟩ calm) ∧
      ¬ Accounted ⟨tenBlocks, none⟩
        (.request ⟨.dqacq, true, false, 1024⟩ { calm with write := some eio, held := true }) := by
  unfold Accounted AccountedBy
  decide +kernel

end Quota
