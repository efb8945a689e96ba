/-
Module: Lustre.Ptlrpc.Service
Purpose: The two queues of a service and the counters that decide which requests are fetched; the
  way of a request through a service, cut where other threads can come in between.
Trusted boundary: the counters do not overflow; a request that was released is not used any more.
-/
import Mathlib.Data.List.Nodup
import Mathlib.Data.List.Count
import Lustre.Lib.Run

namespace Ptlrpc

/-- `rq_phase` of a request on the server. -/
inductive RqPhase where
  | new
  | interpret
  | complete
deriving DecidableEq, Repr

/-- What `srv_rq_lock` protects in `struct ptlrpc_service`, with `rq_hp` and `rq_phase` of the requests,
each named by a number. -/
structure PtlrpcService where
  requestQueue : List Nat
  requestHpq : List Nat
  nActiveReqs : Int
  nActiveHpreq : Int
  hpreqCount : Int
  hpreqRatio : Int
  threadsRunning : Int
  hpreqHandler : Bool
  hp : Nat → Bool
  phase : Nat → RqPhase

/-- `ptlrpc_hpreq_reorder_nolock`, whatever list the request is on. -/
def ptlrpcHpreqReorderNolock (svc : PtlrpcService) (req : Nat) : PtlrpcService :=
  if svc.hp req then svc
  else
    { svc with
      requestQueue := svc.requestQueue.erase req
      requestHpq := svc.requestHpq.erase req ++ [req]
      hp := Function.update svc.hp req true }

/-- `ptlrpc_hpreq_reorder`. -/
def ptlrpcHpreqReorder (svc : PtlrpcService) (req : Nat) : PtlrpcService :=
  if svc.phase req = .new then ptlrpcHpreqReorderNolock svc req else svc

/-- `ptlrpc_server_request_add`; `rc` is what `ptlrpc_server_hpreq_check` returns. -/
def ptlrpcServerRequestAdd (svc : PtlrpcService) (req : Nat) (rc : Int) : Int × PtlrpcService :=
  if rc < 0 then (rc, svc)
  else if svc.phase req = .new ∧ req ∉ svc.requestQueue ∧ req ∉ svc.requestHpq then
    if rc ≠ 0 then (0, ptlrpcHpreqReorderNolock svc req)
    else (0, { svc with requestQueue := svc.requestQueue ++ [req] })
  else (0, svc)

/-! ### Fetching -/

/-- `ptlrpc_server_allow_high`. -/
def ptlrpcServerAllowHigh (svc : PtlrpcService) (force : Bool) : Bool :=
  if force then true
  else if svc.nActiveReqs ≥ svc.threadsRunning - 1 then false
  else svc.requestQueue.isEmpty || svc.hpreqCount < svc.hpreqRatio

/-- `ptlrpc_server_high_pending`. -/
def ptlrpcServerHighPending (svc : PtlrpcService) (force : Bool) : Bool :=
  ptlrpcServerAllowHigh svc force && !svc.requestHpq.isEmpty

/-- `ptlrpc_server_allow_normal`. -/
def ptlrpcServerAllowNormal (svc : PtlrpcService) (force : Bool) : Bool :=
  if force || svc.nActiveReqs < svc.threadsRunning - 2 then true
  else if svc.nActiveReqs ≥ svc.threadsRunning - 1 then false
  else svc.nActiveHpreq > 0 || !svc.hpreqHandler

/-- `ptlrpc_server_normal_pending`. -/
def ptlrpcServerNormalPending (svc : PtlrpcService) (force : Bool) : Bool :=
  ptlrpcServerAllowNormal svc force && !svc.requestQueue.isEmpty

/-- `ptlrpc_server_request_pending`. -/
def ptlrpcServerRequestPending (svc : PtlrpcService) (force : Bool) : Bool :=
  ptlrpcServerHighPending svc force || ptlrpcServerNormalPending svc force

/-- `ptlrpc_server_request_get`. -/
def ptlrpcServerRequestGet (svc : PtlrpcService) (force : Bool) : Option Nat × PtlrpcService :=
  if ptlrpcServerHighPending svc force then
    (svc.requestHpq.head?, { svc with hpreqCount := svc.hpreqCount + 1 })
  else if ptlrpcServerNormalPending svc force then
    (svc.requestQueue.head?, { svc with hpreqCount := 0 })
  else (none, svc)

/-- What a request adds to `srv_n_active_hpreq`. -/
def PtlrpcService.hpUnit (svc : PtlrpcService) (req : Nat) : Int := if svc.hp req then 1 else 0

/-- A request becomes active. -/
def PtlrpcService.activate (svc : PtlrpcService) (req : Nat) : PtlrpcService :=
  { svc with
    requestQueue := svc.requestQueue.erase req
    requestHpq := svc.requestHpq.erase req
    nActiveReqs := svc.nActiveReqs + 1
    nActiveHpreq := svc.nActiveHpreq + svc.hpUnit req
    phase := Function.update svc.phase req .interpret }

/-- The part of `ptlrpc_server_handle_request` under `srv_rq_lock`. -/
def ptlrpcServerFetch (svc : PtlrpcService) : Option Nat × PtlrpcService :=
  match ptlrpcServerRequestGet svc false with
  | (some req, svc) => (some req, svc.activate req)
  | (none, svc) => (none, svc)

/-- The part of `ptlrpc_server_finish_request` under `srv_rq_lock`. -/
def ptlrpcServerFinishRequest (svc : PtlrpcService) (req : Nat) : PtlrpcService :=
  { svc with
    nActiveReqs := svc.nActiveReqs - 1
    nActiveHpreq := svc.nActiveHpreq - svc.hpUnit req }

/-- `ptlrpc_server_active_request_inc`. -/
def ptlrpcServerActiveRequestInc (svc : PtlrpcService) : PtlrpcService :=
  { svc with nActiveReqs := svc.nActiveReqs + 1 }

/-- `ptlrpc_server_active_request_dec`. -/
def ptlrpcServerActiveRequestDec (svc : PtlrpcService) : PtlrpcService :=
  { svc with nActiveReqs := svc.nActiveReqs - 1 }

/-- A service with a high-priority handler, before its first request. -/
def newService (threadsRunning hpreqRatio : Int) : PtlrpcService :=
  ⟨[], [], 0, 0, 0, hpreqRatio, threadsRunning, true, fun _ => false, fun _ => .new⟩

/-! ### What is fetched -/

/-- What a service thread takes: the first request of one of the queues, or none. -/
inductive Fetched (svc : PtlrpcService) : Option Nat × PtlrpcService → Prop where
  | high (req : Nat) (mem : req ∈ svc.requestHpq)
      (pending : ptlrpcServerHighPending svc false = true) :
      Fetched svc (some req, { svc with hpreqCount := svc.hpreqCount + 1 }.activate req)
  | normal (req : Nat) (mem : req ∈ svc.requestQueue) :
      Fetched svc (some req, { svc with hpreqCount := 0 }.activate req)
  | none : Fetched svc (none, svc)

theorem ptlrpcServerFetch_fetched (svc : PtlrpcService) : Fetched svc (ptlrpcServerFetch svc) := by
  unfold ptlrpcServerFetch ptlrpcServerRequestGet
  by_cases high : ptlrpcServerHighPending svc false = true
  · rw [if_pos high]
    obtain ⟨req, rest, hpq⟩ : ∃ req rest, svc.requestHpq = req :: rest :=
      List.exists_cons_of_ne_nil (by simpa using (Bool.and_eq_true_iff.mp high).2)
    have first : svc.requestHpq.head? = some req := by rw [hpq]; rfl
    rw [first]
    exact .high req (by rw [hpq]; exact List.mem_cons_self) high
  rw [if_neg high]
  by_cases normal : ptlrpcServerNormalPending svc false = true
  · rw [if_pos normal]
    rw [ptlrpcServerNormalPending, Bool.and_eq_true] at normal
    obtain ⟨req, rest, queue⟩ : ∃ req rest, svc.requestQueue = req :: rest :=
      List.exists_cons_of_ne_nil (by simpa using normal.2)
    have first : svc.requestQueue.head? = some req := by rw [queue]; rfl
    rw [first]
    exact .normal req (by rw [queue]; exact List.mem_cons_self)
  · rw [if_neg normal]
    exact .none

open Function List

/-- The requests in the queues. -/
def PtlrpcService.queued (svc : PtlrpcService) : List Nat := svc.requestQueue ++ svc.requestHpq

/-- Every request is queued at most once and then new and not active, the new high-priority ones are
those in their queue, and `srv_n_active_hpreq` counts the active ones. -/
structure Queues (svc : PtlrpcService) (active : List Nat) : Prop where
  once : svc.queued.Nodup
  new : ∀ req ∈ svc.queued, svc.phase req = .new
  placed : ∀ req, svc.hp req = true → svc.phase req = .new → req ∈ svc.requestHpq
  flagged : ∀ req ∈ svc.requestHpq, svc.hp req = true
  distinct : active.Nodup
  apart : ∀ req ∈ active, req ∉ svc.queued
  counted : svc.nActiveHpreq = active.countP svc.hp

variable {svc : PtlrpcService} {active : List Nat} {req : Nat}

theorem queues_newService (threadsRunning hpreqRatio : Int) :
    Queues (newService threadsRunning hpreqRatio) [] :=
  ⟨nodup_nil, nofun, nofun, nofun, nodup_nil, nofun, rfl⟩

/-- The counters of requests and the choice between the queues do not matter. -/
theorem Queues.same (queues : Queues svc active) (nActiveReqs hpreqCount threadsRunning : Int) :
    Queues { svc with
      nActiveReqs := nActiveReqs, hpreqCount := hpreqCount, threadsRunning := threadsRunning }
      active :=
  { queues with }

section

variable (queues : Queues svc active)

include queues

/-- A new request is put into the queues, or moved from one to the other. -/
theorem Queues.put {queue hpq : List Nat} {hp : Nat → Bool} (new : svc.phase req = .new)
    (free : req ∉ active) (once : (queue ++ hpq).Nodup)
    (members : ∀ other, other ∈ queue ++ hpq ↔ other ∈ svc.queued ∨ other = req)
    (same : ∀ other, other ≠ req → hp other = svc.hp other)
    (placed : ∀ other, hp other = true → svc.phase other = .new → other ∈ hpq)
    (flagged : ∀ other ∈ hpq, hp other = true) :
    Queues { svc with requestQueue := queue, requestHpq := hpq, hp := hp } active := by
  refine ⟨once, fun other mem => ?_, placed, flagged, queues.distinct, fun other busy mem => ?_, ?_⟩
  · rcases (members other).mp mem with before | rfl
    · exact queues.new other before
    · exact new
  · rcases (members other).mp mem with before | rfl
    · exact queues.apart other busy before
    · exact free busy
  · have count : active.countP hp = active.countP svc.hp :=
      countP_congr fun other mem => by rw [same other (ne_of_mem_of_not_mem mem free)]
    exact queues.counted.trans (by rw [count])

theorem Queues.reorderNolock (new : svc.phase req = .new) (free : req ∉ active) :
    Queues (ptlrpcHpreqReorderNolock svc req) active := by
  unfold ptlrpcHpreqReorderNolock
  by_cases high : svc.hp req = true
  · rw [if_pos high]
    exact queues
  rw [if_neg high]
  obtain ⟨queueOnce, hpqOnce, disjoint⟩ := nodup_append.mp queues.once
  refine queues.put new free ?_ (fun other => ?_) (fun _ ne => update_of_ne ne _ _) ?_ ?_
  · grind
  · rw [PtlrpcService.queued, mem_append, mem_append, mem_append, mem_singleton,
      queueOnce.mem_erase_iff, hpqOnce.mem_erase_iff]
    by_cases same : other = req <;> simp [same]
  · grind [cases Queues]
  · grind [cases Queues]

theorem Queues.requestAdd (rc : Int) (free : req ∉ active) :
    Queues (ptlrpcServerRequestAdd svc req rc).2 active := by
  unfold ptlrpcServerRequestAdd
  by_cases failed : rc < 0
  · rw [if_pos failed]
    exact queues
  rw [if_neg failed]
  by_cases absent : svc.phase req = .new ∧ req ∉ svc.requestQueue ∧ req ∉ svc.requestHpq
  · rw [if_pos absent]
    obtain ⟨new, notQueue, notHpq⟩ := absent
    by_cases high : rc ≠ 0
    · rw [if_pos high]
      exact queues.reorderNolock new free
    · rw [if_neg high]
      obtain ⟨queueOnce, hpqOnce, disjoint⟩ := nodup_append.mp queues.once
      refine queues.put new free ?_ (fun other => ?_) (fun _ _ => rfl) queues.placed queues.flagged
      · grind
      · rw [PtlrpcService.queued, mem_append, mem_append, mem_append, mem_singleton, or_right_comm]
  · rw [if_neg absent]
    exact queues

/-- A request was put into a queue, or moved: for the others nothing changes, and a new one is
queued then. -/
structure Requeued (svc svc' : PtlrpcService) (req : Nat) : Prop where
  phase : svc'.phase = svc.phase
  hp : ∀ other, other ≠ req → svc'.hp other = svc.hp other
  queued : ∀ other, other ≠ req → (other ∈ svc'.queued ↔ other ∈ svc.queued)
  self : svc.phase req = .new → req ∈ svc'.queued

theorem Queues.moved_reorderNolock (req : Nat) :
    Requeued svc (ptlrpcHpreqReorderNolock svc req) req := by
  unfold ptlrpcHpreqReorderNolock
  split_ifs with high
  · exact ⟨rfl, fun _ _ => rfl, fun _ _ => Iff.rfl,
      fun new => mem_append_right _ (queues.placed req high new)⟩
  · grind [PtlrpcService.queued, cases Queues, cases Requeued, intro Queues, intro Requeued]

theorem Queues.moved_requestAdd (req : Nat) {rc : Int} (checked : 0 ≤ rc) :
    (ptlrpcServerRequestAdd svc req rc).1 = 0 ∧ Requeued svc (ptlrpcServerRequestAdd svc req rc).2 req := by
  unfold ptlrpcServerRequestAdd
  rw [if_neg (Int.not_lt.mpr checked)]
  by_cases absent : svc.phase req = .new ∧ req ∉ svc.requestQueue ∧ req ∉ svc.requestHpq
  · rw [if_pos absent]
    by_cases high : rc ≠ 0
    · rw [if_pos high]
      exact ⟨rfl, queues.moved_reorderNolock req⟩
    · rw [if_neg high]
      refine ⟨rfl, rfl, fun _ _ => rfl, fun other differs => ?_, fun _ => by simp [PtlrpcService.queued]⟩
      simp [PtlrpcService.queued, differs]
  · grind [PtlrpcService.queued, cases Queues, cases Requeued, intro Queues, intro Requeued]

/-- The requests that stay in the queues when one is taken out. -/
theorem Queues.mem_activate (req other : Nat) :
    other ∈ (svc.activate req).queued ↔ other ∈ svc.queued ∧ other ≠ req := by
  grind [PtlrpcService.queued, PtlrpcService.activate, cases Queues]

theorem Queues.activate (mem : req ∈ svc.queued) : Queues (svc.activate req) (req :: active) := by
  obtain ⟨queueOnce, hpqOnce, disjoint⟩ := nodup_append.mp queues.once
  have free : req ∉ active := fun busy => queues.apart req busy mem
  refine ⟨?_, ?_, ?_, fun other mem => queues.flagged other (mem_of_mem_erase mem),
    nodup_cons.mpr ⟨free, queues.distinct⟩, ?_, ?_⟩
  · refine nodup_append.mpr ⟨queueOnce.erase req, hpqOnce.erase req, ?_⟩
    rintro other queue _ hpq rfl
    exact disjoint other (mem_of_mem_erase queue) other (mem_of_mem_erase hpq) rfl
  · intro other within
    obtain ⟨before, differs⟩ := (queues.mem_activate req other).mp within
    exact (update_of_ne differs _ _).trans (queues.new other before)
  · intro other flag isNew
    by_cases same : other = req
    · subst same
      have taken : (svc.activate other).phase other = .interpret := update_self _ _ _
      rw [taken] at isNew
      cases isNew
    · have before : svc.phase other = .new := (update_of_ne same _ _).symm.trans isNew
      exact (mem_erase_of_ne same).mpr (queues.placed other flag before)
  · grind [Queues.mem_activate, cases Queues]
  · have sum : (svc.activate req).nActiveHpreq = svc.nActiveHpreq + svc.hpUnit req := rfl
    rw [sum, queues.counted, PtlrpcService.hpUnit]
    by_cases high : svc.hp req = true
    · rw [if_pos high, countP_cons_of_pos (p := (svc.activate req).hp) high, Int.natCast_succ]
      rfl
    · rw [if_neg high, countP_cons_of_neg (p := (svc.activate req).hp) high, Int.add_zero]
      rfl

theorem Queues.finish (busy : req ∈ active) :
    Queues (ptlrpcServerFinishRequest svc req) (active.erase req) := by
  refine ⟨queues.once, queues.new, queues.placed, queues.flagged, queues.distinct.erase req,
    fun other mem => queues.apart other (mem_of_mem_erase mem), ?_⟩
  have difference : (ptlrpcServerFinishRequest svc req).nActiveHpreq =
    svc.nActiveHpreq - svc.hpUnit req := rfl
  rw [difference, queues.counted, PtlrpcService.hpUnit, (perm_cons_erase busy).countP_eq svc.hp]
  by_cases high : svc.hp req = true
  · rw [if_pos high, countP_cons_of_pos high, Int.natCast_succ, Int.add_sub_cancel]
    rfl
  · rw [if_neg high, countP_cons_of_neg high, Int.sub_zero]
    rfl

end

/-- Where `ptlrpc_server_handle_req_in` is with a request.  The last five are the error exit: taken,
behind the first drop, counted as active, behind the counters of `ptlrpc_server_finish_request`, and
left. -/
inductive InStage where
  | unpacking
  | inited
  | added
  | left
  | errReq
  | errDropped
  | errCounted
  | errFinished
  | errLeft
deriving DecidableEq, Repr

/-- Where `ptlrpc_server_handle_request` is with a request. -/
inductive OutStage where
  | waiting
  | fetched
  | handling
  | finished
  | gone
deriving DecidableEq, Repr

/-- A request on the server: whether it has `rq_export` and `rq_ops`, `rq_refcount`, and where it is; for
the statements its copies in the recovery queues and the early replies being sent. -/
structure Request where
  ops : Bool
  refcount : Nat
  inStage : InStage
  outStage : OutStage
  copies : Nat
  timed : Nat
deriving DecidableEq, Repr

/-- A service with its requests and the lists `exp_queued_rpc`, and for the statements those active and
fetched. -/
structure Server where
  svc : PtlrpcService
  requests : Nat → Option Request
  queuedRpc : List Nat
  active : List Nat
  fetched : List Nat

/-- What the threads do.  `refuse` is an error exit before `ptlrpc_hpreq_init`; `hpreqInit` has what
`srv_hpreq_handler` returns and whether the request has `rq_export` and `rq_ops` then; `requestAdd`
has what `ptlrpc_server_hpreq_check` returns; `reorder` is a promotion by `ldlm_lock_reorder_req`;
`copyGet` and `copyPut` are `target_request_copy_get` and `target_request_copy_put`; `timedGet` and
`timedPut` the loops of `ptlrpc_at_check_timed`. -/
inductive ReqEvent where
  | arrive (req : Nat)
  | refuse (req : Nat)
  | hpreqInit (req : Nat) (rc : Int) (ops : Bool)
  | requestAdd (req : Nat) (rc : Int)
  | dropIn (req : Nat)
  | errDrop (req : Nat)
  | errCount (req : Nat)
  | errFinish (req : Nat)
  | errLast (req : Nat)
  | reorder (req : Nat)
  | fetch
  | hpreqFini (req : Nat)
  | finish (req : Nat)
  | drop (req : Nat)
  | copyGet (req : Nat)
  | copyPut (req : Nat)
  | timedGet (req : Nat)
  | timedPut (req : Nat)
  | threadStart
  | threadStop
deriving DecidableEq, Repr

namespace Server

/-- The record of a request changes. -/
def set (s : Server) (req : Nat) (r : Request) : Server :=
  { s with requests := Function.update s.requests req (some r) }

/-- A step on a request for which it is time. -/
def onRequest (s : Server) (req : Nat) (ready : Request → Bool) (next : Request → Server) : Server :=
  match s.requests req with
  | some r => if ready r then next r else s
  | none => s

/-- A step of `ptlrpc_server_handle_req_in` on a request that is at a stage of it. -/
def atIn (s : Server) (req : Nat) (stage : InStage) (next : Request → Server) : Server :=
  s.onRequest req (·.inStage = stage) next

/-- A step of `ptlrpc_server_handle_request` on a request that is at a stage of it. -/
def atOut (s : Server) (req : Nat) (stage : OutStage) (next : Request → Server) : Server :=
  s.onRequest req (·.outStage = stage) next

/-- `ptlrpc_hpreq_init`: the request is put on the list of its export. -/
def hpreqInit (s : Server) (req : Nat) (rc : Int) (ops : Bool) (r : Request) : Server :=
  if rc ≠ 0 then s.set req { r with ops := ops, inStage := .errReq }
  else if ops then
    { s.set req { r with ops := ops, inStage := .inited } with queuedRpc := req :: s.queuedRpc }
  else s.set req { r with ops := ops, inStage := .inited }

/-- `ptlrpc_server_request_add` and the branch on its result. -/
def requestAdd (s : Server) (req : Nat) (rc : Int) (r : Request) : Server :=
  if (ptlrpcServerRequestAdd s.svc req rc).1 ≠ 0 then s.set req { r with inStage := .errReq }
  else
    { s.set req { r with inStage := .added } with svc := (ptlrpcServerRequestAdd s.svc req rc).2 }

/-- `srv_n_active_reqs` is raised at an error exit. -/
def errCount (s : Server) (req : Nat) (r : Request) : Server :=
  { s.set req { r with inStage := .errCounted } with
    svc := ptlrpcServerActiveRequestInc s.svc
    active := req :: s.active }

/-- The part of `ptlrpc_server_finish_request` under `srv_rq_lock`. -/
def finishWith (s : Server) (req : Nat) (r : Request) : Server :=
  { s.set req r with svc := ptlrpcServerFinishRequest s.svc req, active := s.active.erase req }

/-- `ptlrpc_hpreq_fini`. -/
def hpreqFini (s : Server) (req : Nat) (r : Request) : Server :=
  if r.ops then
    { s.set req { r with outStage := .handling } with queuedRpc := s.queuedRpc.erase req }
  else s.set req { r with outStage := .handling }

/-- `target_request_copy_get`: the copy has its own reference, and the service thread does not count
while it is queued. -/
def copyGet (s : Server) (req : Nat) (r : Request) : Server :=
  { s.set req { r with refcount := r.refcount + 1, copies := r.copies + 1 } with
    svc := ptlrpcServerActiveRequestDec s.svc }

/-- What `target_request_copy_put` does to the request. -/
def copyPut (s : Server) (req : Nat) (r : Request) : Server :=
  { s.set req { r with refcount := r.refcount - 1, copies := r.copies - 1 } with
    svc := ptlrpcServerActiveRequestInc s.svc }

/-- The start of `ptlrpc_server_handle_request`. -/
def fetch (s : Server) : Server :=
  match ptlrpcServerFetch s.svc with
  | (none, _) => s
  | (some req, svc) =>
    match s.requests req with
    | none => s
    | some r =>
      { s.set req { r with outStage := .fetched } with
        svc := svc
        active := req :: s.active
        fetched := req :: s.fetched }

end Server

/-- One event.  A request is promoted while it is on the list of its export. -/
def reqStep (s : Server) : ReqEvent → Except Empty Server
  | .arrive req =>
    if (s.requests req).isSome then .ok s else .ok (s.set req ⟨false, 2, .unpacking, .waiting, 0, 0⟩)
  | .refuse req => .ok (s.atIn req .unpacking fun r => s.set req { r with inStage := .errReq })
  | .hpreqInit req rc ops => .ok (s.atIn req .unpacking (s.hpreqInit req rc ops))
  | .requestAdd req rc => .ok (s.atIn req .inited (s.requestAdd req rc))
  | .dropIn req => .ok (s.atIn req .added fun r =>
    s.set req { r with inStage := .left, refcount := r.refcount - 1 })
  | .errDrop req => .ok (s.atIn req .errReq fun r =>
    s.set req { r with inStage := .errDropped, refcount := r.refcount - 1 })
  | .errCount req => .ok (s.atIn req .errDropped (s.errCount req))
  | .errFinish req => .ok (s.atIn req .errCounted fun r =>
    s.finishWith req { r with inStage := .errFinished })
  | .errLast req => .ok (s.atIn req .errFinished fun r =>
    s.set req { r with inStage := .errLeft, refcount := r.refcount - 1 })
  | .reorder req =>
    if req ∈ s.queuedRpc then .ok { s with svc := ptlrpcHpreqReorder s.svc req } else .ok s
  | .fetch => .ok s.fetch
  | .hpreqFini req => .ok (s.atOut req .fetched (s.hpreqFini req))
  | .finish req => .ok (s.atOut req .handling fun r =>
    s.finishWith req { r with outStage := .finished })
  | .drop req => .ok (s.atOut req .finished fun r =>
    s.set req { r with outStage := .gone, refcount := r.refcount - 1 })
  | .copyGet req => .ok (s.atOut req .handling (s.copyGet req))
  | .copyPut req => .ok (s.onRequest req (·.copies ≠ 0) (s.copyPut req))
  | .timedGet req => .ok (s.onRequest req (·.refcount ≠ 0) fun r =>
    s.set req { r with refcount := r.refcount + 1, timed := r.timed + 1 })
  | .timedPut req => .ok (s.onRequest req (·.timed ≠ 0) fun r =>
    s.set req { r with refcount := r.refcount - 1, timed := r.timed - 1 })
  | .threadStart => .ok { s with svc := { s.svc with threadsRunning := s.svc.threadsRunning + 1 } }
  | .threadStop => .ok { s with svc := { s.svc with threadsRunning := s.svc.threadsRunning - 1 } }

/-- A service with no request. -/
def newServer (threadsRunning hpreqRatio : Int) : Server :=
  ⟨newService threadsRunning hpreqRatio, fun _ => none, [], [], []⟩

/-! ### Stalls -/

/-- A high-priority request waits, a thread is free for it, and no request may be fetched. -/
def Stalled (svc : PtlrpcService) : Prop :=
  svc.requestHpq ≠ [] ∧ svc.nActiveReqs < svc.threadsRunning - 1 ∧
    ptlrpcServerRequestPending svc false = false

theorem ptlrpcServerHighPending_iff (svc : PtlrpcService) :
    ptlrpcServerHighPending svc false = true ↔ svc.requestHpq ≠ [] ∧
      svc.nActiveReqs < svc.threadsRunning - 1 ∧
      (svc.requestQueue = [] ∨ svc.hpreqCount < svc.hpreqRatio) := by
  grind [ptlrpcServerHighPending, ptlrpcServerAllowHigh]

theorem ptlrpcServerNormalPending_iff (handler : svc.hpreqHandler = true) :
    ptlrpcServerNormalPending svc false = true ↔ svc.requestQueue ≠ [] ∧
      (svc.nActiveReqs < svc.threadsRunning - 2 ∨
        svc.nActiveReqs < svc.threadsRunning - 1 ∧ 0 < svc.nActiveHpreq) := by
  grind [ptlrpcServerNormalPending, ptlrpcServerAllowNormal]

/-- A stalled service has requests in both queues, one thread left for high-priority requests, none
of them active, and no ratio. -/
theorem Stalled.tight (stalled : Stalled svc) (handler : svc.hpreqHandler = true) :
    svc.requestHpq ≠ [] ∧ svc.requestQueue ≠ [] ∧ svc.threadsRunning - 2 ≤ svc.nActiveReqs ∧
      svc.nActiveHpreq ≤ 0 ∧ svc.hpreqRatio ≤ svc.hpreqCount := by
  obtain ⟨waits, free, pending⟩ := stalled
  rw [ptlrpcServerRequestPending, Bool.or_eq_false_iff, ← Bool.not_eq_true, ← Bool.not_eq_true,
    ptlrpcServerHighPending_iff, ptlrpcServerNormalPending_iff handler] at pending
  obtain ⟨noHigh, noNormal⟩ := pending
  have queue : svc.requestQueue ≠ [] := fun empty => noHigh ⟨waits, free, .inl empty⟩
  have used : ¬ svc.hpreqCount < svc.hpreqRatio := fun less => noHigh ⟨waits, free, .inr less⟩
  have reserved : ¬ svc.nActiveReqs < svc.threadsRunning - 2 := fun less => noNormal ⟨queue, .inl less⟩
  have alone : ¬ 0 < svc.nActiveHpreq := fun some => noNormal ⟨queue, .inr ⟨free, some⟩⟩
  exact ⟨waits, queue, not_lt.mp reserved, not_lt.mp alone, not_lt.mp used⟩

/-- With `more` normal requests the reservation is untouched, or `taken` more high-priority ones leave
some of the ratio. -/
def Spare (svc : PtlrpcService) (more taken : Int) : Prop :=
  svc.nActiveReqs - svc.nActiveHpreq + more ≤ svc.threadsRunning - 3 ∨
    svc.hpreqCount + taken < svc.hpreqRatio

/-- A request is queued behind waiting ones of the other kind only while there is something to spare, a
high-priority request is taken in front of a normal one only if that leaves something or no other waits,
and one more active request, or one thread less, leaves something too while both queues hold requests. -/
def Relaxed (s : Server) : ReqEvent → Prop
  | .requestAdd req rc => 0 ≤ rc → s.svc.phase req = .new → req ∉ s.svc.queued →
      Spare s.svc 0 0 ∨ if rc = 0 then s.svc.requestHpq = [] else s.svc.requestQueue = []
  | .reorder req => req ∈ s.queuedRpc → s.svc.phase req = .new → s.svc.hp req = false →
      Spare s.svc 0 0 ∨ s.svc.requestQueue.erase req = []
  | .fetch => ptlrpcServerHighPending s.svc false = true →
      Spare s.svc 0 1 ∨ s.svc.requestQueue = [] ∨ s.svc.requestHpq.length = 1
  | .errCount _ | .copyPut _ | .threadStop =>
      Spare s.svc 1 0 ∨ s.svc.requestQueue = [] ∨ s.svc.requestHpq = []
  | _ => True

instance (s : Server) (event : ReqEvent) : Decidable (Relaxed s event) := by
  cases event <;> unfold Relaxed Spare <;> infer_instance

/-- The invariant of a service that does not stall. -/
structure Calm (svc : PtlrpcService) : Prop where
  handler : svc.hpreqHandler = true
  ratio : 1 ≤ svc.hpreqRatio
  flagged : ∀ req ∈ svc.requestHpq, svc.hp req = true
  spare : Spare svc 0 0 ∨ svc.requestQueue = [] ∨ svc.requestHpq = []

section

variable (calm : Calm svc)

include calm

theorem Calm.not_stalled : ¬ Stalled svc := by
  intro stalled
  obtain ⟨waits, queue, reserved, alone, used⟩ := stalled.tight calm.handler
  rcases calm.spare with (room | left) | empty | empty
  · omega
  · omega
  · exact queue empty
  · exact waits empty

/-- A request that is moved to the high-priority queue. -/
theorem Calm.reorderNolock
    (relaxed : svc.hp req = false → Spare svc 0 0 ∨ svc.requestQueue.erase req = []) :
    Calm (ptlrpcHpreqReorderNolock svc req) := by
  unfold ptlrpcHpreqReorderNolock
  split_ifs with high
  · exact calm
  refine ⟨calm.handler, calm.ratio, fun other mem => ?_, ?_⟩
  · rcases mem_append.mp mem with before | last
    · show update svc.hp req true other = true
      rw [update_apply, calm.flagged other (mem_of_mem_erase before), ite_self]
    · rw [mem_singleton.mp last]
      exact update_self ..
  · exact (relaxed (Bool.of_not_eq_true high)).imp_right .inl

theorem Calm.requestAdd (rc : Int)
    (relaxed : 0 ≤ rc → svc.phase req = .new → req ∉ svc.queued →
      Spare svc 0 0 ∨ if rc = 0 then svc.requestHpq = [] else svc.requestQueue = []) :
    Calm (ptlrpcServerRequestAdd svc req rc).2 := by
  unfold ptlrpcServerRequestAdd
  split_ifs with failed absent high
  · exact calm
  · have room := relaxed (not_lt.mp failed) absent.1 (by simp [PtlrpcService.queued, absent.2])
    rw [if_neg high] at room
    exact calm.reorderNolock fun _ => room.imp_right (by rw [erase_of_not_mem absent.2.1]; exact id)
  · have room := relaxed (not_lt.mp failed) absent.1 (by simp [PtlrpcService.queued, absent.2])
    rw [if_pos (not_not.mp high)] at room
    exact { calm with spare := room.imp_right .inr }
  · exact calm

/-- A normal request that is fetched restarts the count; a high-priority one keeps the number of active
normal ones. -/
theorem Calm.fetch (relaxed : ptlrpcServerHighPending svc false = true →
      Spare svc 0 1 ∨ svc.requestQueue = [] ∨ svc.requestHpq.length = 1) :
    Calm (ptlrpcServerFetch svc).2 := by
  have fetched := ptlrpcServerFetch_fetched svc
  generalize ptlrpcServerFetch svc = result at fetched
  have flagged (req other : Nat) (mem : other ∈ svc.requestHpq.erase req) : svc.hp other = true :=
    calm.flagged other (mem_of_mem_erase mem)
  cases fetched with
  | none => exact calm
  | high req mem pending =>
    refine ⟨calm.handler, calm.ratio, flagged req, ?_⟩
    have unit : svc.hpUnit req = 1 := if_pos (calm.flagged req mem)
    rcases relaxed pending with (room | left) | empty | one
    · refine .inl (.inl ?_)
      show svc.nActiveReqs + 1 - (svc.nActiveHpreq + svc.hpUnit req) + 0 ≤ svc.threadsRunning - 3
      omega
    · exact .inl (.inr (by show svc.hpreqCount + 1 + 0 < svc.hpreqRatio; omega))
    · exact .inr (.inl (by show svc.requestQueue.erase req = []; rw [empty]; rfl))
    · refine .inr (.inr (length_eq_zero_iff.mp ?_))
      show (svc.requestHpq.erase req).length = 0
      rw [length_erase_of_mem mem, one]
  | normal req mem =>
    have ratio := calm.ratio
    exact ⟨calm.handler, ratio, flagged req, .inl (.inr (by show 0 + 0 < svc.hpreqRatio; omega))⟩

/-- The counters change while the queues stay. -/
theorem Calm.recount {more : Int}
    (spare : Spare svc more 0 ∨ svc.requestQueue = [] ∨ svc.requestHpq = [])
    (nActiveReqs nActiveHpreq threadsRunning : Int)
    (fewer : nActiveReqs - nActiveHpreq - threadsRunning ≤
      svc.nActiveReqs - svc.nActiveHpreq + more - svc.threadsRunning) :
    Calm { svc with
      nActiveReqs := nActiveReqs, nActiveHpreq := nActiveHpreq, threadsRunning := threadsRunning } := by
  refine { calm with spare := ?_ }
  rcases spare with (room | left) | empty
  · refine .inl (.inl ?_)
    dsimp only
    omega
  · exact .inl (.inr left)
  · exact .inr empty

theorem Calm.finish (req : Nat) : Calm (ptlrpcServerFinishRequest svc req) := by
  refine calm.recount calm.spare _ _ _ ?_
  have unit : svc.hpUnit req ≤ 1 := by
    unfold PtlrpcService.hpUnit
    split_ifs
    · exact le_rfl
    · exact zero_le_one
  omega

end

theorem Calm.onRequest {s : Server} (calm : Calm s.svc) {ready : Request → Bool} {next : Request → Server}
    (step : ∀ r, Calm (next r).svc) : Calm (s.onRequest req ready next).svc := by
  unfold Server.onRequest
  split
  · split
    · exact step _
    · exact calm
  · exact calm

/-- Every event with the condition keeps the service calm. -/
theorem Calm.step {s : Server} (calm : Calm s.svc) (event : ReqEvent) (relaxed : Relaxed s event) :
    Run.Outcome (fun s => Calm s.svc) (fun _ => False) (reqStep s event) := by
  cases event with
  | arrive req =>
    rw [reqStep]
    split_ifs
    · exact calm
    · exact calm
  | refuse | dropIn | errDrop | errLast | drop | timedGet | timedPut => exact calm.onRequest fun _ => calm
  | hpreqInit req rc ops =>
    refine calm.onRequest fun r => ?_
    unfold Server.hpreqInit
    split_ifs
    · exact calm
    · exact calm
    · exact calm
  | requestAdd req rc =>
    refine calm.onRequest fun r => ?_
    unfold Server.requestAdd
    split_ifs
    · exact calm
    · exact calm.requestAdd rc relaxed
  | errCount req =>
    exact calm.onRequest fun _ => calm.recount relaxed (s.svc.nActiveReqs + 1) _ _ (by omega)
  | errFinish req => exact calm.onRequest fun _ => calm.finish req
  | reorder req =>
    rw [reqStep]
    split_ifs with listed
    · show Calm (ptlrpcHpreqReorder s.svc req)
      unfold ptlrpcHpreqReorder
      split_ifs with new
      · exact calm.reorderNolock (relaxed listed new)
      · exact calm
    · exact calm
  | fetch =>
    have next := calm.fetch relaxed
    show Calm s.fetch.svc
    unfold Server.fetch
    split
    · exact calm
    · rename_i fetched
      rw [fetched] at next
      split
      · exact calm
      · exact next
  | hpreqFini req =>
    refine calm.onRequest fun r => ?_
    unfold Server.hpreqFini
    split_ifs
    · exact calm
    · exact calm
  | finish req => exact calm.onRequest fun _ => calm.finish req
  | copyGet req =>
    exact calm.onRequest fun _ => calm.recount calm.spare (s.svc.nActiveReqs - 1) _ _ (by omega)
  | copyPut req =>
    exact calm.onRequest fun _ => calm.recount relaxed (s.svc.nActiveReqs + 1) _ _ (by omega)
  | threadStart => exact calm.recount calm.spare _ _ (s.svc.threadsRunning + 1) (by omega)
  | threadStop => exact calm.recount relaxed _ _ (s.svc.threadsRunning - 1) (by omega)

/-- In no run of relaxed events the service stalls, with however many threads it starts. -/
theorem never_stalled (threadsRunning hpreqRatio : Int) (ratio : 1 ≤ hpreqRatio)
    (events : List ReqEvent)
    (relaxed : Run.Meets reqStep Relaxed (newServer threadsRunning hpreqRatio) events) :
    ∃ s, Run.run reqStep (newServer threadsRunning hpreqRatio) events = .ok s ∧ ¬ Stalled s.svc := by
  have start : Calm (newServer threadsRunning hpreqRatio).svc := ⟨rfl, ratio, nofun, .inr (.inl rfl)⟩
  obtain ⟨s, ran, calm⟩ :=
    (Run.outcome_run (fun _ event calm holds => Calm.step calm event holds) start relaxed).exists_ok
  exact ⟨s, ran, calm.not_stalled⟩

/-- A request arrives, and `ptlrpc_server_hpreq_check` returns `rc` for it. -/
def receive (req : Nat) (rc : Int) : List ReqEvent :=
  [.arrive req, .hpreqInit req 0 true, .requestAdd req rc, .dropIn req]

/-- Four threads: behind a normal and a high-priority request, one of each waits while a refused request
goes through its error exit. -/
theorem never_stalled_four : ∃ s,
    Run.run reqStep (newServer 4 1) (receive 1 0 ++ [.fetch] ++ receive 2 1 ++
      [.fetch, .hpreqFini 2, .finish 2, .hpreqFini 1, .finish 1] ++ receive 3 0 ++ receive 4 1 ++
      [.arrive 5, .refuse 5, .errDrop 5, .errCount 5, .errFinish 5, .fetch]) = .ok s ∧
    ¬ Stalled s.svc :=
  never_stalled 4 1 (by decide) _ (by decide)

/-- Three threads: the first normal request is still active when the only high-priority one has finished
and used up the ratio; the next two, one of each kind, wait for each other. -/
theorem ratio_and_reservation_stall : ∃ s,
    Run.run reqStep (newServer 3 1) (receive 1 0 ++ [.fetch] ++ receive 2 1 ++
      [.fetch, .hpreqFini 2, .finish 2] ++ receive 3 0 ++ receive 4 1) = .ok s ∧
    Stalled s.svc := by
  refine ⟨_, rfl, ?_⟩
  unfold Stalled
  decide

end Ptlrpc
