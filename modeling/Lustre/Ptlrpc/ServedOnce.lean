/-
Module: Lustre.Ptlrpc.ServedOnce
Purpose: Every request that a service accepts is fetched once and leaves nothing behind, as long
  as the check of a request that its export lists does not fail.
Trusted boundary: that of Lustre.Ptlrpc.Service; list operations keep the other elements in place.
-/
import Lustre.Ptlrpc.Service

namespace Ptlrpc

open Function List Run

/-! ### Where a request is -/

/-- The stages behind `ptlrpc_hpreq_init`, without the error exit. -/
def InStage.listed : InStage → Bool
  | .inited | .added | .left => true
  | _ => false

/-- The stages behind `ptlrpc_server_request_add`. -/
def InStage.accepted : InStage → Bool
  | .added | .left => true
  | _ => false

/-- The references that `ptlrpc_server_handle_req_in` still has to drop. -/
def InStage.refs : InStage → Nat
  | .unpacking | .inited | .added | .errReq => 1
  | _ => 0

/-- The references: the extra one of `ptlrpc_server_handle_req_in`, and the first, which either function
drops. -/
def stageRefs (inStage : InStage) (outStage : OutStage) : Nat :=
  if inStage = .errLeft ∨ outStage = .gone then inStage.refs else inStage.refs + 1

/-- What is known of a request from the places where it is. -/
structure Placed (s : Server) (req : Nat) (r : Request) : Prop where
  refs : r.refcount = stageRefs r.inStage r.outStage + r.copies + r.timed
  rpc : req ∈ s.queuedRpc ↔ r.ops = true ∧ r.inStage.listed = true ∧
    (r.outStage = .waiting ∨ r.outStage = .fetched)
  phase : s.svc.phase req = .new ↔ r.outStage = .waiting
  fetched : req ∈ s.fetched ↔ r.outStage ≠ .waiting
  active : req ∈ s.active ↔
    (r.outStage = .fetched ∨ r.outStage = .handling) ∨ r.inStage = .errCounted
  waits : r.inStage.accepted = true → r.outStage = .waiting → req ∈ s.svc.queued
  plain : (r.inStage.listed = false ∨ r.inStage = .inited ∧ r.ops = false) →
    r.outStage = .waiting ∧ req ∉ s.svc.queued ∧ s.svc.hp req = false

/-- Nothing is known to the service of a request that has not arrived. -/
structure Absent (s : Server) (req : Nat) : Prop where
  queued : req ∉ s.svc.queued
  rpc : req ∉ s.queuedRpc
  fetched : req ∉ s.fetched
  active : req ∉ s.active
  hp : s.svc.hp req = false
  phase : s.svc.phase req = .new

/-- The invariant of a service whose checks do not fail. -/
structure Tidy (s : Server) : Prop where
  queues : Queues s.svc s.active
  fetchedOnce : s.fetched.Nodup
  rpcOnce : s.queuedRpc.Nodup
  placed : ∀ req r, s.requests req = some r → Placed s req r
  absent : ∀ req, s.requests req = none → Absent s req

/-- A request that a step does not touch. -/
structure Untouched (s s' : Server) (other : Nat) : Prop where
  request : s'.requests other = s.requests other
  queued : other ∈ s'.svc.queued ↔ other ∈ s.svc.queued
  rpc : other ∈ s'.queuedRpc ↔ other ∈ s.queuedRpc
  fetched : other ∈ s'.fetched ↔ other ∈ s.fetched
  active : other ∈ s'.active ↔ other ∈ s.active
  hp : s'.svc.hp other = s.svc.hp other
  phase : s'.svc.phase other = s.svc.phase other

variable {other : Nat}

section
variable {s s' : Server} {req : Nat} {r r' : Request}

theorem Placed.untouched (placed : Placed s other r) (same : Untouched s s' other) :
    Placed s' other r where
  refs := placed.refs
  rpc := same.rpc.trans placed.rpc
  phase := by rw [same.phase]; exact placed.phase
  fetched := same.fetched.trans placed.fetched
  active := same.active.trans placed.active
  waits := fun accepted waiting => same.queued.mpr (placed.waits accepted waiting)
  plain := fun plain => by rw [same.queued, same.hp]; exact placed.plain plain

theorem Absent.untouched (absent : Absent s other) (same : Untouched s s' other) :
    Absent s' other where
  queued := fun mem => absent.queued (same.queued.mp mem)
  rpc := fun mem => absent.rpc (same.rpc.mp mem)
  fetched := fun mem => absent.fetched (same.fetched.mp mem)
  active := fun mem => absent.active (same.active.mp mem)
  hp := same.hp.trans absent.hp
  phase := same.phase.trans absent.phase

/-- A step that touches one request. -/
theorem Tidy.touch (tidy : Tidy s) (req : Nat) (requests : s'.requests = (s.set req r').requests)
    (others : ∀ other, other ≠ req → s'.requests other = s.requests other → Untouched s s' other)
    (queues : Queues s'.svc s'.active) (fetchedOnce : s'.fetched.Nodup) (rpcOnce : s'.queuedRpc.Nodup)
    (placed : Placed s' req r') : Tidy s' := by
  have found : s'.requests req = some r' := requests ▸ update_self ..
  have untouched : ∀ other, other ≠ req → Untouched s s' other := fun other differs =>
    others other differs (requests ▸ update_of_ne differs ..)
  refine ⟨queues, fetchedOnce, rpcOnce, fun other x foundOther => ?_, fun other none => ?_⟩
  · by_cases same : other = req
    · subst same
      cases found.symm.trans foundOther
      exact placed
    · have same := untouched other same
      exact (tidy.placed other x (same.request ▸ foundOther)).untouched same
  · have differs : other ≠ req := by
      rintro rfl
      rw [found] at none
      cases none
    have same := untouched other differs
    exact (tidy.absent other (same.request ▸ none)).untouched same

/-- Only the record of a request changes. -/
theorem Tidy.set (tidy : Tidy s) (placed : Placed s req r') : Tidy (s.set req r') := by
  refine tidy.touch req rfl (fun other _ same => ?_) tidy.queues tidy.fetchedOnce tidy.rpcOnce
    { placed with }
  exact ⟨same, Iff.rfl, Iff.rfl, Iff.rfl, Iff.rfl, rfl, rfl⟩

end

/-! ### The steps -/

section
variable {s : Server} {req : Nat} {r : Request}

section

variable (placed : Placed s req r)

include placed

/-- A request that is still being read in, or at an error exit. -/
theorem Placed.unlisted (early : r.inStage.listed = false) :
    r.outStage = .waiting ∧ req ∉ s.svc.queued ∧ s.svc.hp req = false ∧ req ∉ s.queuedRpc := by
  grind [cases Placed]

/-- An error exit begins for a request that is on no list. -/
theorem Placed.errReq (off : r.outStage = .waiting ∧ req ∉ s.svc.queued ∧ s.svc.hp req = false ∧
      req ∉ s.queuedRpc) (early : r.inStage = .unpacking ∨ r.inStage = .inited) (ops : Bool) :
    Placed s req { r with ops := ops, inStage := .errReq } := by
  obtain ⟨waiting, notQueued, low, notRpc⟩ := off
  have counted : r.inStage ≠ .errCounted := fun counted => by simp [counted] at early
  refine ⟨?_, ⟨fun mem => (notRpc mem).elim, fun both => nomatch both.2.1⟩, placed.phase,
    placed.fetched, ?_, nofun, fun _ => ⟨waiting, notQueued, low⟩⟩
  · grind [stageRefs, InStage.refs, cases Placed]
  · rw [placed.active]
    simp [counted]

/-- `ptlrpc_server_handle_req_in` drops a reference and goes on to `stage'`. -/
theorem Placed.dropIn {stage : InStage} (here : r.inStage = stage)
    (stage' : InStage)
    (one : stage.refs = stage'.refs + 1 ∧ stage' ≠ .errLeft ∨
      stage.refs = 0 ∧ stage' = .errLeft ∧ r.outStage = .waiting)
    (rest : stage'.listed = stage.listed ∧ stage ≠ .errLeft ∧ stage' ≠ .inited ∧
      (stage = .errCounted ↔ stage' = .errCounted) ∧ (stage'.accepted = true → stage.accepted = true)) :
    Placed s req { r with inStage := stage', refcount := r.refcount - 1 } := by
  subst here
  obtain ⟨listed, last, initial, count, accepted⟩ := rest
  refine ⟨?_, ?_, placed.phase, placed.fetched, ?_, fun yes => placed.waits (accepted yes), ?_⟩
  · grind [stageRefs, InStage.refs, cases Placed]
  · rw [listed]
    exact placed.rpc
  · rw [← count]
    exact placed.active
  · grind [cases Placed]

/-- A listed request that waits is not active. -/
theorem Placed.free (listed : r.inStage.listed = true)
    (waiting : r.outStage = .waiting) : req ∉ s.active := by
  rw [placed.active, waiting]
  rintro ((taken | taken) | counted)
  · cases taken
  · cases taken
  · rw [counted] at listed
    cases listed

/-- A request that was fetched went all the way in. -/
theorem Placed.notPlain (taken : r.outStage ≠ .waiting) :
    ¬ (r.inStage.listed = false ∨ r.inStage = .inited ∧ r.ops = false) :=
  fun plain => taken (placed.plain plain).1

end

variable (tidy : Tidy s)

include tidy

theorem Tidy.onRequest {ready : Request → Bool} {next : Request → Server}
    (step : ∀ r, s.requests req = some r → Placed s req r → ready r = true → Tidy (next r)) :
    Tidy (s.onRequest req ready next) := by
  unfold Server.onRequest
  cases found : s.requests req with
  | none => exact tidy
  | some r =>
    dsimp only
    split_ifs with here
    · exact step r found (tidy.placed req r found) here
    · exact tidy

theorem Tidy.atIn {stage : InStage} {next : Request → Server}
    (step : ∀ r, s.requests req = some r → Placed s req r → r.inStage = stage → Tidy (next r)) :
    Tidy (s.atIn req stage next) :=
  tidy.onRequest fun r found placed here => step r found placed (of_decide_eq_true here)

theorem Tidy.atOut {stage : OutStage} {next : Request → Server}
    (step : ∀ r, s.requests req = some r → Placed s req r → r.outStage = stage → Tidy (next r)) :
    Tidy (s.atOut req stage next) :=
  tidy.onRequest fun r found placed here => step r found placed (of_decide_eq_true here)

theorem Tidy.arrive (none : s.requests req = none) :
    Tidy (s.set req ⟨false, 2, .unpacking, .waiting, 0, 0⟩) := by
  have absent := tidy.absent req none
  refine tidy.set ⟨rfl, ?_, ?_, ?_, ?_, nofun, fun _ => ⟨rfl, absent.queued, absent.hp⟩⟩
  · simp [absent.rpc]
  · simp [absent.phase]
  · simp [absent.fetched]
  · simp [absent.active]

/-- An active request is finished, at either end. -/
theorem Tidy.finishWith (busy : req ∈ s.active) {r' : Request}
    (placed : Placed { s with active := s.active.erase req } req r') : Tidy (s.finishWith req r') := by
  refine tidy.touch req rfl (fun other differs same => ?_) (tidy.queues.finish busy)
    tidy.fetchedOnce tidy.rpcOnce { placed with }
  exact ⟨same, Iff.rfl, Iff.rfl, Iff.rfl, mem_erase_of_ne differs, rfl, rfl⟩

theorem Tidy.reorder (mem : req ∈ s.queuedRpc) :
    Tidy { s with svc := ptlrpcHpreqReorder s.svc req } := by
  unfold ptlrpcHpreqReorder
  split_ifs with new
  swap
  · exact tidy
  cases found : s.requests req with
  | none => exact ((tidy.absent req found).rpc mem).elim
  | some r =>
    have placed := tidy.placed req r found
    obtain ⟨ops, listed, _⟩ := placed.rpc.mp mem
    have moved := tidy.queues.moved_reorderNolock req
    refine tidy.touch req (update_eq_self_iff.mpr found.symm).symm (fun other differs same => ?_)
      (tidy.queues.reorderNolock new (placed.free listed (placed.phase.mp new))) tidy.fetchedOnce
      tidy.rpcOnce ⟨placed.refs, placed.rpc, ?_, placed.fetched, placed.active,
        fun _ _ => moved.self new, ?_⟩
    · exact ⟨same, moved.queued other differs, Iff.rfl, Iff.rfl, Iff.rfl, moved.hp other differs,
        congrFun moved.phase other⟩
    · rw [moved.phase]
      exact placed.phase
    · grind

theorem Tidy.activate (found : s.requests req = some r) (mem : req ∈ s.svc.queued)
    (hpreqCount : Int) :
    Tidy { s.set req { r with outStage := .fetched } with
      svc := { s.svc with hpreqCount := hpreqCount }.activate req
      active := req :: s.active
      fetched := req :: s.fetched } := by
  have placed := tidy.placed req r found
  have waiting := placed.phase.mp (tidy.queues.new req mem)
  have notFetched : req ∉ s.fetched := fun within => placed.fetched.mp within waiting
  have notPlain : ¬ (r.inStage.listed = false ∨ r.inStage = .inited ∧ r.ops = false) :=
    fun plain => (placed.plain plain).2.1 mem
  have queues := tidy.queues.same s.svc.nActiveReqs hpreqCount s.svc.threadsRunning
  have members := fun other => queues.mem_activate req other
  refine tidy.touch req rfl (fun other differs same => ?_) (queues.activate mem)
    (nodup_cons.mpr ⟨notFetched, tidy.fetchedOnce⟩) tidy.rpcOnce
    ⟨?_, ?_, ?_, ?_, ?_, nofun, fun plain => (notPlain plain).elim⟩
  · refine ⟨same, ?_, Iff.rfl, ?_, ?_, rfl, update_of_ne differs _ _⟩
    · exact (members other).trans ⟨And.left, fun within => ⟨within, differs⟩⟩
    · simp [differs]
    · simp [differs]
  · rw [placed.refs, waiting]
    simp [stageRefs]
  · refine placed.rpc.trans ?_
    rw [waiting]
    simp
  · simp [PtlrpcService.activate]
  · simp
  · simp

theorem Tidy.fetch : Tidy s.fetch := by
  have known : ∀ req ∈ s.svc.queued, ∃ r, s.requests req = some r := by
    intro req mem
    cases found : s.requests req with
    | none => exact ((tidy.absent req found).queued mem).elim
    | some r => exact ⟨r, rfl⟩
  have fetched := ptlrpcServerFetch_fetched s.svc
  unfold Server.fetch
  generalize ptlrpcServerFetch s.svc = result at fetched
  cases fetched with
  | none => exact tidy
  | high req mem _ =>
    have queued : req ∈ s.svc.queued := mem_append_right _ mem
    obtain ⟨r, found⟩ := known req queued
    simp only [found]
    exact tidy.activate found queued _
  | normal req mem =>
    have queued : req ∈ s.svc.queued := mem_append_left _ mem
    obtain ⟨r, found⟩ := known req queued
    simp only [found]
    exact tidy.activate found queued _

theorem Tidy.threads (threadsRunning : Int) :
    Tidy { s with svc := { s.svc with threadsRunning := threadsRunning } } where
  queues := tidy.queues.same s.svc.nActiveReqs s.svc.hpreqCount threadsRunning
  fetchedOnce := tidy.fetchedOnce
  rpcOnce := tidy.rpcOnce
  placed := fun other r found => { tidy.placed other r found with }
  absent := fun other none => { tidy.absent other none with }

variable (placed : Placed s req r)

include placed

theorem Tidy.refuse (here : r.inStage = .unpacking) :
    Tidy (s.set req { r with inStage := .errReq }) := by
  exact tidy.set (placed.errReq (placed.unlisted (by rw [here]; rfl)) (.inl here) r.ops)

theorem Tidy.hpreqInit (here : r.inStage = .unpacking)
    (rc : Int) (ops : Bool) : Tidy (s.hpreqInit req rc ops r) := by
  have off := placed.unlisted (by rw [here]; rfl)
  unfold Server.hpreqInit
  by_cases failed : rc ≠ 0
  · rw [if_pos failed]
    exact tidy.set (placed.errReq off (.inl here) ops)
  rw [if_neg failed]
  obtain ⟨waiting, notQueued, low, notRpc⟩ := off
  have refs : r.refcount = stageRefs .inited r.outStage + r.copies + r.timed := by
    rw [placed.refs, here, waiting]
    rfl
  have active : req ∈ s.active ↔ (r.outStage = .fetched ∨ r.outStage = .handling) ∨
      InStage.inited = .errCounted := by
    rw [placed.active, here]
    simp
  by_cases high : ops = true
  · rw [if_pos high]
    refine tidy.touch req rfl (fun other differs same => ?_) tidy.queues tidy.fetchedOnce
      (nodup_cons.mpr ⟨notRpc, tidy.rpcOnce⟩) ?_
    · refine ⟨same, Iff.rfl, ?_, Iff.rfl, Iff.rfl, rfl, rfl⟩
      simp [differs]
    · refine ⟨refs, ?_, placed.phase, placed.fetched, active, nofun, ?_⟩
      · simp [high, waiting, InStage.listed]
      · rintro (unlisted | ⟨_, plain⟩)
        · cases unlisted
        · cases high.symm.trans plain
  · rw [if_neg high]
    refine tidy.set ⟨refs, ?_, placed.phase, placed.fetched, active, nofun,
      fun _ => ⟨waiting, notQueued, low⟩⟩
    simp [notRpc, high]

theorem Tidy.errCount (here : r.inStage = .errDropped) : Tidy (s.errCount req r) := by
  obtain ⟨waiting, notQueued, low, notRpc⟩ := placed.unlisted (by rw [here]; rfl)
  have free : req ∉ s.active := by
    rw [placed.active, waiting, here]
    simp
  have counted := tidy.queues.counted
  refine tidy.touch req rfl (fun other differs same => ?_) ?_ tidy.fetchedOnce tidy.rpcOnce ?_
  · refine ⟨same, Iff.rfl, Iff.rfl, Iff.rfl, ?_, rfl, rfl⟩
    simp [Server.errCount, differs]
  · refine ⟨tidy.queues.once, tidy.queues.new, tidy.queues.placed, tidy.queues.flagged,
      nodup_cons.mpr ⟨free, tidy.queues.distinct⟩, ?_, ?_⟩
    · exact forall_mem_cons.mpr ⟨notQueued, tidy.queues.apart⟩
    · refine counted.trans ?_
      have same : (req :: s.active).countP s.svc.hp = s.active.countP s.svc.hp :=
        countP_cons_of_neg (by rw [low]; nofun)
      exact congrArg Int.ofNat same.symm
  · refine ⟨?_, ?_, placed.phase, placed.fetched, ?_, nofun, fun _ => ⟨waiting, notQueued, low⟩⟩
    · rw [placed.refs, here, waiting]
      rfl
    · simp [Server.errCount, Server.set, notRpc, InStage.listed]
    · simp [Server.errCount]

theorem Tidy.errFinish (here : r.inStage = .errCounted) :
    Tidy (s.finishWith req { r with inStage := .errFinished }) := by
  obtain ⟨waiting, notQueued, low, notRpc⟩ := placed.unlisted (by rw [here]; rfl)
  have busy : req ∈ s.active := placed.active.mpr (.inr here)
  refine tidy.finishWith busy ⟨?_, ?_, placed.phase, placed.fetched, ?_, nofun,
    fun _ => ⟨waiting, notQueued, low⟩⟩
  · rw [placed.refs, here, waiting]
    rfl
  · simp [notRpc, InStage.listed]
  · simp [tidy.queues.distinct.not_mem_erase, waiting]

theorem Tidy.finish (here : r.outStage = .handling) :
    Tidy (s.finishWith req { r with outStage := .finished }) := by
  have busy : req ∈ s.active := placed.active.mpr (.inl (.inr here))
  have notPlain := placed.notPlain (by rw [here]; nofun)
  have notCounted : r.inStage ≠ .errCounted := fun counted =>
    notPlain (.inl (by rw [counted]; rfl))
  refine tidy.finishWith busy ⟨?_, ?_, ?_, ?_, ?_, nofun, fun plain => (notPlain plain).elim⟩
  · rw [placed.refs, here]
    simp [stageRefs]
  · simp [placed.rpc, here]
  · simp [placed.phase, here]
  · simp [placed.fetched, here]
  · simp [tidy.queues.distinct.not_mem_erase, notCounted]

theorem Tidy.drop (here : r.outStage = .finished) :
    Tidy (s.set req { r with outStage := .gone, refcount := r.refcount - 1 }) := by
  have notPlain := placed.notPlain (by rw [here]; nofun)
  have notLeft : r.inStage ≠ .errLeft := fun left => notPlain (.inl (by rw [left]; rfl))
  refine tidy.set ⟨?_, ?_, ?_, ?_, ?_, nofun, fun plain => (notPlain plain).elim⟩
  · have refs := placed.refs
    rw [here, stageRefs, if_neg (by simp [notLeft])] at refs
    rw [stageRefs, if_pos (.inr rfl), refs]
    dsimp only
    omega
  · simp [placed.rpc, here]
  · simp [placed.phase, here]
  · simp [placed.fetched, here]
  · simp [placed.active, here]

/-- A copy of a request that is being handled goes to a recovery queue. -/
theorem Tidy.copyGet : Tidy (s.copyGet req r) := by
  refine tidy.touch req rfl (fun other _ same => ?_)
    (tidy.queues.same (s.svc.nActiveReqs - 1) s.svc.hpreqCount s.svc.threadsRunning) tidy.fetchedOnce
    tidy.rpcOnce { placed with refs := ?_ }
  · exact ⟨same, Iff.rfl, Iff.rfl, Iff.rfl, Iff.rfl, rfl, rfl⟩
  · have refs := placed.refs
    dsimp only
    omega

theorem Tidy.copyPut (some : r.copies ≠ 0) : Tidy (s.copyPut req r) := by
  refine tidy.touch req rfl (fun other _ same => ?_)
    (tidy.queues.same (s.svc.nActiveReqs + 1) s.svc.hpreqCount s.svc.threadsRunning) tidy.fetchedOnce
    tidy.rpcOnce { placed with refs := ?_ }
  · exact ⟨same, Iff.rfl, Iff.rfl, Iff.rfl, Iff.rfl, rfl, rfl⟩
  · have refs := placed.refs
    dsimp only
    omega

theorem Tidy.hpreqFini (here : r.outStage = .fetched) : Tidy (s.hpreqFini req r) := by
  have notPlain := placed.notPlain (by rw [here]; nofun)
  have refs : r.refcount = stageRefs r.inStage .handling + r.copies + r.timed := by
    rw [placed.refs, here]
    simp [stageRefs]
  have phase : s.svc.phase req = .new ↔ OutStage.handling = .waiting := by simp [placed.phase, here]
  have fetched : req ∈ s.fetched ↔ OutStage.handling ≠ .waiting := by simp [placed.fetched, here]
  have active : req ∈ s.active ↔ (OutStage.handling = .fetched ∨ OutStage.handling = .handling) ∨
      r.inStage = .errCounted := by
    simp [placed.active, here]
  unfold Server.hpreqFini
  by_cases ops : r.ops = true
  · rw [if_pos ops]
    refine tidy.touch req rfl (fun other differs same => ?_) tidy.queues tidy.fetchedOnce
      (tidy.rpcOnce.erase req)
      ⟨refs, ?_, phase, fetched, active, nofun, fun plain => (notPlain plain).elim⟩
    · exact ⟨same, Iff.rfl, mem_erase_of_ne differs, Iff.rfl, Iff.rfl, rfl, rfl⟩
    · simp [tidy.rpcOnce.not_mem_erase]
  · rw [if_neg ops]
    refine tidy.set ⟨refs, ?_, phase, fetched, active, nofun, fun plain => (notPlain plain).elim⟩
    simp [placed.rpc, ops]

theorem Tidy.requestAdd (here : r.inStage = .inited)
    (rc : Int) (checked : rc < 0 → r.ops = false) : Tidy (s.requestAdd req rc r) := by
  have listed : r.inStage.listed = true := by rw [here]; rfl
  unfold Server.requestAdd
  by_cases failed : rc < 0
  · have result : (ptlrpcServerRequestAdd s.svc req rc).1 ≠ 0 := by
      rw [ptlrpcServerRequestAdd, if_pos failed]
      exact Int.ne_of_lt failed
    rw [if_pos result]
    have plain := checked failed
    obtain ⟨waiting, notQueued, low⟩ := placed.plain (.inr ⟨here, plain⟩)
    have notRpc : req ∉ s.queuedRpc := fun mem => nomatch plain.symm.trans (placed.rpc.mp mem).1
    exact tidy.set (placed.errReq ⟨waiting, notQueued, low, notRpc⟩ (.inr here) r.ops)
  · obtain ⟨result, moved⟩ := tidy.queues.moved_requestAdd req (Int.not_lt.mp failed)
    rw [if_neg (not_not.mpr result)]
    have queues : Queues (ptlrpcServerRequestAdd s.svc req rc).2 s.active := by
      by_cases waiting : r.outStage = .waiting
      · exact tidy.queues.requestAdd rc (placed.free listed waiting)
      · rw [ptlrpcServerRequestAdd, if_neg failed,
          if_neg fun absent => waiting (placed.phase.mp absent.1)]
        exact tidy.queues
    refine tidy.touch req rfl (fun other differs same => ?_) queues tidy.fetchedOnce tidy.rpcOnce
      ⟨?_, ?_, ?_, placed.fetched, ?_, ?_, ?_⟩
    · exact ⟨same, moved.queued other differs, Iff.rfl, Iff.rfl, Iff.rfl,
        moved.hp other differs, congrFun moved.phase other⟩
    · rw [placed.refs, here]
      simp [stageRefs, InStage.refs]
    · refine placed.rpc.trans ?_
      rw [here]
      rfl
    · rw [moved.phase]
      exact placed.phase
    · refine placed.active.trans ?_
      rw [here]
      simp
    · exact fun _ waiting => moved.self (placed.phase.mpr waiting)
    · rintro (unlisted | ⟨start, _⟩)
      · cases unlisted
      · cases start

end

/-! ### Runs -/

/-- `ptlrpc_server_hpreq_check` does not fail for a request that `ptlrpc_hpreq_init` put on the list. -/
def Checked (s : Server) : ReqEvent → Prop
  | .requestAdd req rc => rc < 0 → ∀ r ∈ s.requests req, r.ops = false
  | _ => True

instance (s : Server) : DecidablePred (Checked s)
  | .requestAdd _ _ => inferInstanceAs (Decidable (_ → _))
  | .arrive _ | .refuse _ | .hpreqInit _ _ _ | .dropIn _ | .errDrop _ | .errCount _ | .errFinish _
  | .errLast _ | .reorder _ | .fetch | .hpreqFini _ | .finish _ | .drop _ | .copyGet _ | .copyPut _
  | .timedGet _ | .timedPut _ | .threadStart | .threadStop => inferInstanceAs (Decidable True)

/-- Every event with the condition keeps the service tidy. -/
theorem Tidy.step {s : Server} (tidy : Tidy s) (event : ReqEvent) (checked : Checked s event) :
    Run.Outcome Tidy (fun _ => False) (reqStep s event) := by
  cases event with
  | arrive req =>
    rw [reqStep]
    split_ifs with here
    · exact tidy
    · exact tidy.arrive (Option.not_isSome_iff_eq_none.mp here)
  | refuse req => exact tidy.atIn fun _ _ placed here => tidy.refuse placed here
  | hpreqInit req rc ops =>
    exact tidy.atIn fun _ _ placed here => tidy.hpreqInit placed here rc ops
  | requestAdd req rc =>
    exact tidy.atIn fun r found placed here =>
      tidy.requestAdd placed here rc fun failed => checked failed r found
  | dropIn req =>
    exact tidy.atIn fun _ _ placed here =>
      tidy.set (placed.dropIn here .left (.inl (by decide)) (by decide))
  | errDrop req =>
    exact tidy.atIn fun _ _ placed here =>
      tidy.set (placed.dropIn here .errDropped (.inl (by decide)) (by decide))
  | errCount req => exact tidy.atIn fun _ _ placed here => tidy.errCount placed here
  | errFinish req => exact tidy.atIn fun _ _ placed here => tidy.errFinish placed here
  | errLast req =>
    refine tidy.atIn fun _ _ placed here => ?_
    have waiting := (placed.unlisted (by rw [here]; rfl)).1
    exact tidy.set (placed.dropIn here .errLeft (.inr ⟨rfl, rfl, waiting⟩) (by decide))
  | reorder req =>
    rw [reqStep]
    split_ifs with listed
    · exact tidy.reorder listed
    · exact tidy
  | fetch => exact tidy.fetch
  | hpreqFini req => exact tidy.atOut fun _ _ placed here => tidy.hpreqFini placed here
  | finish req => exact tidy.atOut fun _ _ placed here => tidy.finish placed here
  | drop req => exact tidy.atOut fun _ _ placed here => tidy.drop placed here
  | copyGet req => exact tidy.atOut fun _ _ placed _ => tidy.copyGet placed
  | copyPut req =>
    exact tidy.onRequest fun _ _ placed some => tidy.copyPut placed (of_decide_eq_true some)
  | timedGet req =>
    refine tidy.onRequest fun r _ placed _ => tidy.set { placed with refs := ?_ }
    have refs := placed.refs
    dsimp only
    omega
  | timedPut req =>
    refine tidy.onRequest fun r _ placed some => tidy.set { placed with refs := ?_ }
    have refs := placed.refs
    have positive := of_decide_eq_true some
    dsimp only
    omega
  | threadStart => exact tidy.threads (s.svc.threadsRunning + 1)
  | threadStop => exact tidy.threads (s.svc.threadsRunning - 1)

/-- Every run with the condition ends with a tidy service. -/
theorem tidy_run (threadsRunning hpreqRatio : Int) (events : List ReqEvent)
    (checked : Run.Meets reqStep Checked (newServer threadsRunning hpreqRatio) events) :
    ∃ s, run reqStep (newServer threadsRunning hpreqRatio) events = .ok s ∧ Tidy s := by
  have start : Tidy (newServer threadsRunning hpreqRatio) :=
    ⟨queues_newService _ _, nodup_nil, nodup_nil, nofun,
      fun _ _ => ⟨nofun, nofun, nofun, nofun, rfl, rfl⟩⟩
  exact (outcome_run (fun s event tidy holds => Tidy.step tidy event holds) start checked).exists_ok

/-- No request was fetched or is queued twice, an accepted request is in a queue until it is fetched,
`srv_n_active_hpreq` is the number of active high-priority requests, and one without references is on no
list and was fetched if accepted. -/
structure Served (s : Server) : Prop where
  once : s.fetched.Nodup
  oneQueue : (s.svc.requestQueue ++ s.svc.requestHpq).Nodup
  waits : ∀ req r, s.requests req = some r → r.inStage.accepted = true →
    (req ∈ s.fetched ↔ req ∉ s.svc.requestQueue ++ s.svc.requestHpq)
  counted : s.svc.nActiveHpreq = s.active.countP s.svc.hp
  traceless : ∀ req r, s.requests req = some r → r.refcount = 0 →
    req ∉ s.svc.requestQueue ∧ req ∉ s.svc.requestHpq ∧ req ∉ s.queuedRpc ∧
      (r.inStage.accepted = true → req ∈ s.fetched)

theorem Tidy.served {s : Server} (tidy : Tidy s) : Served s where
  once := tidy.fetchedOnce
  oneQueue := tidy.queues.once
  waits := by
    intro req r found accepted
    have placed := tidy.placed req r found
    rw [placed.fetched]
    constructor
    · exact fun taken mem => taken (placed.phase.mp (tidy.queues.new req mem))
    · exact fun absent waiting => absent (placed.waits accepted waiting)
  counted := tidy.queues.counted
  traceless := by
    intro req r found unreferenced
    have placed := tidy.placed req r found
    have left : r.inStage = .errLeft ∨ r.outStage = .gone := by
      have none := placed.refs ▸ unreferenced
      grind [stageRefs]
    rcases left with refused | gone
    · obtain ⟨_, notQueued, _, notRpc⟩ := placed.unlisted (by rw [refused]; rfl)
      rw [PtlrpcService.queued, mem_append, not_or] at notQueued
      exact ⟨notQueued.1, notQueued.2, notRpc, fun accepted => by rw [refused] at accepted; cases accepted⟩
    · have notQueued : req ∉ s.svc.queued := by
        intro mem
        cases gone.symm.trans (placed.phase.mp (tidy.queues.new req mem))
      rw [PtlrpcService.queued, mem_append, not_or] at notQueued
      refine ⟨notQueued.1, notQueued.2, fun mem => ?_, fun _ => placed.fetched.mpr (by rw [gone]; decide)⟩
      rcases (placed.rpc.mp mem).2.2 with waiting | taken
      · cases gone.symm.trans waiting
      · cases gone.symm.trans taken

/-- In every run in which no check of a listed request fails, every request is served once and
leaves no trace. -/
theorem served_once (threadsRunning hpreqRatio : Int) (events : List ReqEvent)
    (checked : Run.Meets reqStep Checked (newServer threadsRunning hpreqRatio) events) :
    ∃ s, run reqStep (newServer threadsRunning hpreqRatio) events = .ok s ∧ Served s := by
  obtain ⟨s, ran, tidy⟩ := tidy_run threadsRunning hpreqRatio events checked
  exact ⟨s, ran, tidy.served⟩

/-- A request that is promoted before it is queued, and served. -/
theorem served_once_promoted : ∃ s,
    run reqStep (newServer 3 1) [.arrive 1, .hpreqInit 1 0 true, .reorder 1, .fetch, .requestAdd 1 0,
      .hpreqFini 1, .finish 1, .drop 1, .dropIn 1] = .ok s ∧ Served s :=
  served_once 3 1 _ (by decide)

/-- A request with a malformed `obdo`: the handler puts it on the list of its export, its check
fails with `-EPROTO`, and the error exit releases it; in between a blocking AST promotes it, so that
the number of active high-priority requests becomes negative and the released request waits in the
queue. -/
theorem malformed_request_stays_listed : ∃ s,
    run reqStep (newServer 3 1) [.arrive 1, .hpreqInit 1 0 true, .requestAdd 1 (-71), .reorder 1,
      .errDrop 1, .errCount 1, .errFinish 1, .errLast 1] = .ok s ∧
    (∃ r, s.requests 1 = some r ∧ r.refcount = 0) ∧ 1 ∈ s.queuedRpc ∧ 1 ∈ s.svc.requestHpq ∧
    s.svc.nActiveHpreq = -1 ∧ s.active = [] :=
  ⟨_, rfl, ⟨_, rfl, rfl⟩, by decide, by decide, by decide, by decide⟩

/-- In every run in which no check of a listed request fails, the lists a request is on and its
references tell which functions still have it and how many copies and early replies. -/
theorem requests_placed (threadsRunning hpreqRatio : Int) (events : List ReqEvent)
    (checked : Run.Meets reqStep Checked (newServer threadsRunning hpreqRatio) events) :
    ∃ s, run reqStep (newServer threadsRunning hpreqRatio) events = .ok s ∧
      ∀ req r, s.requests req = some r → Placed s req r := by
  obtain ⟨s, ran, tidy⟩ := tidy_run threadsRunning hpreqRatio events checked
  exact ⟨s, ran, tidy.placed⟩

/-- A request whose copy waits for recovery while an early reply is sent, and one that is
refused. -/
theorem requests_placed_copy : ∃ s,
    run reqStep (newServer 3 1) [.arrive 1, .hpreqInit 1 0 true, .requestAdd 1 0, .dropIn 1, .fetch,
      .hpreqFini 1, .copyGet 1, .timedGet 1, .finish 1, .drop 1, .arrive 2, .refuse 2, .errDrop 2,
      .errCount 2, .copyPut 1] = .ok s ∧
      ∀ req r, s.requests req = some r → Placed s req r :=
  requests_placed 3 1 _ (by decide)

end Ptlrpc
