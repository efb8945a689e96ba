/-
Module: Lustre.Osc.Grant
Purpose: What a client gives up of its grant: `osc_release_write_grant` and
  `osc_shrink_grant_to_target`.
Trusted boundary: the other threads are the critical sections that change `cl_avail_grant`
-/
import Mathlib.Data.List.Infix
import Lustre.Obdfilter.Grant

namespace Osc.Release

open Obdfilter.Grant (Ost Page cfsPageSize pageBytes)

/-- `struct brw_page`: its place in the object, `OBD_BRW_FROM_GRANT` and `OBD_BRW_NOCACHE`. -/
structure BrwPage where
  off : UInt64
  count : Nat
  fromGrant : Bool
  nocache : Bool
  inside : off.toNat % cfsPageSize + count ≤ cfsPageSize
deriving DecidableEq, Repr

/-- The counters of `struct client_obd`, its `os_bsize`, and `obd_dirty_pages` and
`obd_dirty_transit_pages`. -/
structure ClientObd where
  dirty : Int
  dirtyTransit : Int
  lostGrant : Int
  osBsize : Nat
  dirtyPages : Int
  dirtyTransitPages : Int
deriving DecidableEq, Repr

/-- The size of the server's blocks; a guess until it is known. -/
def ClientObd.blocksize (cli : ClientObd) : Nat := if cli.osBsize = 0 then 4096 else cli.osBsize

/-- What is lost of the grant for a page that was sent. -/
def lostGrant (blocksize : Nat) (pga : BrwPage) : Int :=
  if cfsPageSize ≠ blocksize ∧ pga.count ≠ cfsPageSize then
    let offset := pga.off.toNat % cfsPageSize
    let stop := offset + pga.count &&& blocksize - 1
    let count := pga.count + (offset &&& blocksize - 1) + if stop = 0 then 0 else blocksize - stop
    cfsPageSize - count
  else 0

end Osc.Release

namespace Osc.Shrink

open Run Words Bytes
open Obdfilter.Grant (cfsPageSize)

/-- `cl_avail_grant` and `cl_max_pages_per_rpc`, the targets of calls between their sections, and the
`o_grant` of requests without an answer. -/
structure Client where
  availGrant : Int
  maxPagesPerRpc : Nat
  targets : List Int
  inFlight : List Nat
deriving DecidableEq, Repr

/-- `__osc_update_grant` -/
def Client.updateGrant (cli : Client) (grant : Nat) : Client :=
  { cli with availGrant := s64 (cli.availGrant + grant) }

/-- A target is at least a single request. -/
def Client.floor (cli : Client) (target : Int) : Int :=
  if target < cli.maxPagesPerRpc then (cli.maxPagesPerRpc : Int) else target

/-- The first section of `osc_shrink_grant_to_target`; it returns when there is nothing to shrink. -/
def Client.shrinkTest (cli : Client) (target : Int) : Client :=
  if cli.availGrant ≤ cli.floor target then cli
  else { cli with targets := cli.floor target :: cli.targets }

/-- The second section and the request: `o_grant` has 64 bits and no sign. -/
def Client.shrinkSubtract (cli : Client) (target : Int) : Client :=
  { cli with
    availGrant := target
    targets := cli.targets.erase target
    inFlight := u64 (cli.availGrant - target) :: cli.inFlight }

/-- What a thread does. -/
inductive Label where
  /-- a call of `osc_shrink_grant_to_target` -/
  | test (target : Int)
  /-- it has no memory for the request -/
  | noMemory (target : Int)
  | subtract (target : Int)
  /-- `osc_consume_write_grant` -/
  | consume
  /-- a reply to a write gives grant -/
  | reply (grant : Nat)
  /-- a shrink request could not be sent, or failed -/
  | refused (oGrant : Nat)
  /-- `osc_shrink_grant_interpret` with a reply -/
  | answered (oGrant grant : Nat)
deriving DecidableEq, Repr

/-- A thread that is not there cannot take the step. -/
inductive Fault where
  | disabled
deriving DecidableEq, Repr

/-- One critical section. -/
def step (cli : Client) : Label → Except Fault Client
  | .test target => .ok (cli.shrinkTest target)
  | .noMemory target =>
    if target ∈ cli.targets then .ok { cli with targets := cli.targets.erase target }
    else .error .disabled
  | .subtract target =>
    if target ∈ cli.targets then .ok (cli.shrinkSubtract target) else .error .disabled
  | .consume =>
    -- the writers have compared under the same lock
    if cfsPageSize ≤ cli.availGrant then .ok { cli with availGrant := cli.availGrant - cfsPageSize }
    else .error .disabled
  | .reply grant => .ok (cli.updateGrant grant)
  | .refused oGrant =>
    if oGrant ∈ cli.inFlight then
      .ok ({ cli with inFlight := cli.inFlight.erase oGrant }.updateGrant oGrant)
    else .error .disabled
  | .answered oGrant grant =>
    if oGrant ∈ cli.inFlight then
      .ok ({ cli with inFlight := cli.inFlight.erase oGrant }.updateGrant grant)
    else .error .disabled

/-- No more grant was returned than there was, the client has no more than before, and nothing is lost. -/
def Returned (cli cli' : Client) : Prop :=
  ∃ oGrant : Nat, cli'.inFlight = oGrant :: cli.inFlight ∧ (oGrant : Int) ≤ cli.availGrant ∧
    cli'.availGrant ≤ cli.availGrant ∧ cli'.availGrant + oGrant = cli.availGrant

/-- The grant is a `long`, and the targets are no less than a single request. -/
structure Sound (cli : Client) : Prop where
  avail : cli.availGrant < 2 ^ 63
  targets : ∀ target ∈ cli.targets, 0 ≤ target ∧ target < 2 ^ 63

variable {cli : Client}

theorem Sound.erase (sound : Sound cli) (target : Int) :
    ∀ other ∈ cli.targets.erase target, 0 ≤ other ∧ other < 2 ^ 63 := fun other mem =>
  sound.targets other (List.mem_of_mem_erase mem)

theorem Client.floor_nonneg (cli : Client) (target : Int) : 0 ≤ cli.floor target := by
  unfold Client.floor
  split <;> omega

theorem Sound.shrinkTest (sound : Sound cli) (target : Int) : Sound (cli.shrinkTest target) := by
  unfold Client.shrinkTest
  split
  · exact sound
  · next more =>
      exact ⟨sound.avail, List.forall_mem_cons.mpr
        ⟨⟨cli.floor_nonneg target, (not_le.mp more).trans sound.avail⟩, sound.targets⟩⟩

theorem step_sound {cli : Client} (label : Label) (sound : Sound cli) :
    Outcome Sound (fun _ => True) (step cli label) := by
  cases label with
  | test target => exact sound.shrinkTest target
  | noMemory target => exact .guard trivial fun _ => ⟨sound.avail, sound.erase target⟩
  | subtract target =>
    exact .guard trivial fun mem => ⟨(sound.targets target mem).2, sound.erase target⟩
  | consume =>
    refine .guard trivial fun _ => ⟨?_, sound.targets⟩
    exact lt_of_le_of_lt (Int.sub_le_self _ (by decide)) sound.avail
  | reply grant => exact ⟨(s64_range _).2, sound.targets⟩
  | refused oGrant | answered oGrant grant =>
    exact .guard trivial fun _ => ⟨(s64_range _).2, sound.targets⟩

/-- In every state that the threads reach, a call that passed the test returns grant as it should
exactly when the grant is still no less than its target. -/
theorem shrink_subtraction_safe_iff (start : Client) (idle : start.targets = [])
    (long : start.availGrant < 2 ^ 63) (labels : List Label) (cli : Client)
    (ran : run step start labels = .ok cli) (target : Int) (mem : target ∈ cli.targets) :
    Returned cli (cli.shrinkSubtract target) ↔ target ≤ cli.availGrant := by
  have sound : Sound cli := by
    have init : Sound start := ⟨long, by rw [idle]; exact List.forall_mem_nil _⟩
    refine reached (fun cli label cli' sound taken => ?_) init ran
    have kept := step_sound label sound
    rwa [taken] at kept
  obtain ⟨nonneg, -⟩ := sound.targets target mem
  have avail := sound.avail
  constructor
  · rintro ⟨oGrant, -, -, less, -⟩
    exact less
  · intro enough
    have exact : (u64 (cli.availGrant - target) : Int) = cli.availGrant - target :=
      u64_of_range (by omega) (by omega)
    refine ⟨_, rfl, ?_, enough, ?_⟩
    · omega
    · show target + _ = _
      omega

/-- A client with grant for a few pages. -/
def fewPages : Client := ⟨20000, 256, [], []⟩

/-- A second call and a writer come between the two sections, and leave enough. -/
theorem shrink_subtraction_safe_writer :
    run step fewPages [.test 8000, .test 12000, .consume] = .ok ⟨15904, 256, [12000, 8000], []⟩ ∧
      Returned ⟨15904, 256, [12000, 8000], []⟩
        (Client.shrinkSubtract ⟨15904, 256, [12000, 8000], []⟩ 8000) :=
  ⟨rfl, (shrink_subtraction_safe_iff fewPages rfl (by decide) [.test 8000, .test 12000, .consume] _ rfl
    8000 (by decide)).mpr (by decide)⟩

/-- Writers take grant between the two sections: the client takes back what it has spent, and sends a
negative amount, nearly `2 ^ 64`. -/
theorem shrink_with_writers_makes_grant :
    run step fewPages [.test 16000, .consume, .subtract 16000] =
      .ok ⟨16000, 256, [], [2 ^ 64 - 96]⟩ := rfl

/-! ### Targets -/

/-- How a call ends that has something to shrink. -/
inductive Ending where
  | sent
  | noMemory
  /-- `osc_set_info_async` fails -/
  | refused
deriving DecidableEq, Repr

/-- `osc_shrink_grant_to_target` while there is no other thread. -/
def Client.shrinkToTarget (cli : Client) (target : Int) (ending : Ending) : Client :=
  if cli.availGrant ≤ cli.floor target then cli
  else
    match ending with
    | .sent => cli.shrinkSubtract (cli.floor target)
    | .noMemory => cli
    | .refused =>
      { cli.shrinkSubtract (cli.floor target) with inFlight := cli.inFlight }.updateGrant
        (u64 (cli.availGrant - cli.floor target))

/-- The first target of `osc_shrink_grant`, a product of two `int`. -/
def Client.manyRpcs (cli : Client) (maxRpcsInFlight : Nat) : Int :=
  int32 ((maxRpcsInFlight + 1) * cli.maxPagesPerRpc)

/-- The target `osc_shrink_grant` settles for. -/
def Client.target (cli : Client) (maxRpcsInFlight : Nat) : Int :=
  if cli.availGrant ≤ cli.manyRpcs maxRpcsInFlight then (cli.maxPagesPerRpc : Int)
  else cli.manyRpcs maxRpcsInFlight

/-- `osc_shrink_grant` -/
def Client.oscShrinkGrant (maxRpcsInFlight : Nat) (cli : Client) (ending : Ending) : Client :=
  cli.shrinkToTarget (cli.target maxRpcsInFlight) ending

/-- The bytes of one full request. -/
def Client.fullRpc (cli : Client) : Int := cfsPageSize * cli.maxPagesPerRpc

/-- However many calls were made, there is grant for a full request; and when there was more than
for all in flight and one, the first call leaves that much. -/
def KeepsFullRpc (maxRpcsInFlight : Nat) (cli : Client) (endings : List Ending) : Prop :=
  (∀ before ∈ endings.inits,
      cli.fullRpc ≤ (before.foldl (Client.oscShrinkGrant maxRpcsInFlight) cli).availGrant) ∧
    ((maxRpcsInFlight + 1) * cli.fullRpc < cli.availGrant → ∀ ending ∈ endings.head?,
      (cli.oscShrinkGrant maxRpcsInFlight ending).availGrant = (maxRpcsInFlight + 1) * cli.fullRpc)

/-- A call changes the grant only by a request. -/
theorem shrinkToTarget_eq (ending : Ending) (long : cli.availGrant < 2 ^ 63) {target : Int}
    (less : cli.floor target < cli.availGrant) :
    (cli.shrinkToTarget target ending).maxPagesPerRpc = cli.maxPagesPerRpc ∧
      (cli.shrinkToTarget target ending).availGrant =
        if ending = .sent then cli.floor target else cli.availGrant := by
  have floor := cli.floor_nonneg target
  unfold Client.shrinkToTarget
  rw [if_neg (not_le.mpr less)]
  cases ending with
  | sent | noMemory => exact ⟨rfl, rfl⟩
  | refused =>
    have amount : (u64 (cli.availGrant - cli.floor target) : Int) = cli.availGrant - cli.floor target :=
      u64_of_range (by omega) (by omega)
    refine ⟨rfl, ?_⟩
    show s64 (cli.floor target + u64 (cli.availGrant - cli.floor target)) = cli.availGrant
    rw [amount, add_sub_cancel, s64_of_range (by omega) long]

/-- What is left is less than a full request, or the number of pages of many requests. -/
theorem floor_target (rpcs : Nat) (pages : 0 < cli.maxPagesPerRpc)
    (full : cli.fullRpc ≤ cli.availGrant) : cli.floor (cli.target rpcs) < cli.availGrant ∧
    (cli.fullRpc ≤ cli.floor (cli.target rpcs) ↔
      cli.manyRpcs rpcs < cli.availGrant ∧ cli.fullRpc ≤ cli.manyRpcs rpcs) ∧
    (cli.floor (cli.target rpcs) = cli.maxPagesPerRpc ∨
      cli.floor (cli.target rpcs) = cli.manyRpcs rpcs) := by
  unfold Client.fullRpc cfsPageSize at *
  unfold Client.floor Client.target
  split_ifs <;> omega

/-- For every client with grant for a full request, and however its calls end: `osc_shrink_grant` keeps
to whole requests exactly when no call sends a request, or one does and the pages of many requests are no
fewer than the bytes of a full one; and, if there is a call, when the grant is not for more than all
requests in flight and one. -/
theorem shrink_keeps_full_rpc_iff (rpcs : Nat) (cli : Client) (endings : List Ending)
    (pages : 0 < cli.maxPagesPerRpc) (long : cli.availGrant < 2 ^ 63)
    (full : cli.fullRpc ≤ cli.availGrant) :
    KeepsFullRpc rpcs cli endings ↔
      (endings.count .sent = 0 ∨ endings.count .sent = 1 ∧ cli.manyRpcs rpcs < cli.availGrant ∧
        cli.fullRpc ≤ cli.manyRpcs rpcs) ∧
      (endings = [] ∨ cli.availGrant ≤ (rpcs + 1) * cli.fullRpc) := by
  refine and_congr ?_ ?_
  · induction endings generalizing cli with
    | nil => simpa using full
    | cons ending endings ih =>
      obtain ⟨less, enough, which⟩ := floor_target rpcs pages full
      obtain ⟨same, avail⟩ : (cli.oscShrinkGrant rpcs ending).maxPagesPerRpc = _ ∧
          (cli.oscShrinkGrant rpcs ending).availGrant = _ := shrinkToTarget_eq ending long less
      have rest := ih (cli.oscShrinkGrant rpcs ending)
      rw [List.inits, List.forall_mem_cons, List.foldl_nil, and_iff_right full, List.forall_mem_map]
      simp only [List.foldl_cons]
      simp only [Client.fullRpc, Client.manyRpcs, same, avail] at rest
      by_cases sent : ending = .sent
      · subst sent
        rw [if_pos rfl] at avail rest
        rw [List.count_cons_self, ← enough]
        by_cases left : cli.fullRpc ≤ cli.floor (cli.target rpcs)
        · have never : ¬ int32 ((rpcs + 1) * cli.maxPagesPerRpc) < cli.floor (cli.target rpcs) := by
            unfold Client.fullRpc cfsPageSize at left
            unfold Client.manyRpcs at which
            omega
          exact (rest pages (less.trans long) left).trans (by simp [never, left])
        · refine iff_of_false (fun all => left ?_) (by simp [left])
          have first := all [] (List.mem_inits _ _ |>.mpr List.nil_prefix)
          rwa [List.foldl_nil, avail] at first
      · rw [if_neg sent] at rest
        rw [List.count_cons_of_ne sent]
        exact rest pages long full
  · -- the pages of many requests, and of one, are fewer than their bytes
    have many : (rpcs + 1) * cli.fullRpc = 4096 * ((rpcs + 1) * cli.maxPagesPerRpc) :=
      Int.mul_left_comm ..
    have low := int32_eq ((rpcs + 1) * cli.maxPagesPerRpc)
    have one : (cli.maxPagesPerRpc : Int) ≤ (rpcs + 1) * cli.maxPagesPerRpc :=
      le_mul_of_one_le_left (by omega) (by omega)
    cases endings with
    | nil => simp
    | cons ending endings =>
      obtain ⟨less, -, left⟩ := floor_target rpcs pages full
      unfold Client.manyRpcs at left
      simp only [List.head?_cons, Option.mem_def, Option.some.injEq, forall_eq', reduceCtorEq, false_or]
      rw [← not_lt, ← imp_false, Client.oscShrinkGrant,
        (shrinkToTarget_eq ending long less).2]
      refine imp_congr_right fun more => iff_of_false ?_ id
      split <;> omega

/-- A client with 32 requests' worth of grant, eight in flight, and 256 pages for each. -/
def manyMegabytes : Client := ⟨2 ^ 25, 256, [], []⟩

/-- With requests of one page, and thousands of them in flight, a call that sends leaves one page. -/
theorem shrink_keeps_full_rpc_one_page :
    KeepsFullRpc 4095 ⟨2 ^ 24, 1, [], []⟩ [.noMemory, .sent, .refused] :=
  (shrink_keeps_full_rpc_iff 4095 ⟨2 ^ 24, 1, [], []⟩ [.noMemory, .sent, .refused] (by decide)
    (by decide) (by decide)).mpr (by decide +kernel)

/-- The first call leaves 2304 bytes, not 9 MB; the second one 256. -/
theorem shrink_leaves_pages_as_bytes :
    (manyMegabytes.oscShrinkGrant 8 .sent).availGrant = 2304 ∧
      ((manyMegabytes.oscShrinkGrant 8 .sent).oscShrinkGrant 8 .sent).availGrant = 256 ∧
      ¬ KeepsFullRpc 8 manyMegabytes [.sent] := by
  refine ⟨by decide +kernel, by decide +kernel, fun keeps => ?_⟩
  have full := keeps.1 [.sent] (by decide)
  revert full
  decide +kernel

end Osc.Shrink
