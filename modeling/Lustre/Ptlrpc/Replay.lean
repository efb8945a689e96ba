/-
Module: Lustre.Ptlrpc.Replay
Purpose: The replay list of a client import, and the replay of its requests to a server in recovery.
Trusted boundary: replies were unwrapped and unpacked, the import was connected before, callbacks
  leave the import and the transaction number alone, and no other request is answered while requests
  are replayed; object versions and the replay of locks are left out
-/
import Lustre.Lib.Run

namespace Ptlrpc

/-- `enum lustre_imp_state`. -/
inductive ImpState where
  | closed
  | new
  | discon
  | connecting
  | replay
  | replayLocks
  | replayWait
  | recover
  | full
  | evicted
deriving DecidableEq, Repr

/-- `struct ptlrpc_request` on the client: `rq_xid`, `rq_transno`, `rq_import_generation`, `rq_replay`,
the transaction number, `MSG_REPLAY` and `MSG_RESENT` of its message, and whether `rq_commit_cb` is set. -/
structure PtlrpcRequest where
  xid : Nat
  transno : Nat
  importGeneration : Nat
  replay : Bool
  msgTransno : Nat
  msgReplay : Bool
  msgResent : Bool
  commitCb : Bool
deriving DecidableEq, Repr

/-- `struct obd_import`.  `commitCalls` lists the requests whose `rq_commit_cb` was called,
the last one first. -/
structure ObdImport where
  replayable : Bool
  generation : Nat
  replayList : List PtlrpcRequest
  peerCommittedTransno : Nat
  lastTransnoChecked : Nat
  lastGenerationChecked : Nat
  lastReplayTransno : Nat
  resendReplay : Bool
  state : ImpState
  remoteHandle : Nat
  invalid : Bool
  commitCalls : List Nat
deriving DecidableEq, Repr

/-- The assertions of the replay code. -/
inductive ReplayFault where
  | zeroTransno
  | sameXid
  | notReplayable
  | transnoChanged
  | noLastReplay
  | transnoBehind
  | notSent
deriving DecidableEq, Repr

/-- `cfs_list_empty(&req->rq_replay_list)` is false. -/
def ObdImport.retains (imp : ObdImport) (req : PtlrpcRequest) : Prop :=
  ∃ kept ∈ imp.replayList, kept.xid = req.xid

instance (imp : ObdImport) (req : PtlrpcRequest) : Decidable (imp.retains req) :=
  inferInstanceAs (Decidable (∃ kept ∈ imp.replayList, kept.xid = req.xid))

/-- A change of one request, seen through the list it is on. -/
def ObdImport.modify (imp : ObdImport) (xid : Nat) (f : PtlrpcRequest → PtlrpcRequest) : ObdImport :=
  { imp with replayList := imp.replayList.map fun req => if req.xid = xid then f req else req }

/-- The call of `rq_commit_cb`, where there is one. -/
def ObdImport.commit (imp : ObdImport) (req : PtlrpcRequest) : ObdImport :=
  if req.commitCb then { imp with commitCalls := req.xid :: imp.commitCalls } else imp

/-- The loop of `ptlrpc_retain_replayable_request`, which walks the list from its end. -/
def insertFromEnd (req : PtlrpcRequest) : List PtlrpcRequest → Except ReplayFault (List PtlrpcRequest)
  | [] => .ok [req]
  | iter :: earlier =>
    if iter.transno > req.transno then
      match insertFromEnd req earlier with
      | .ok list => .ok (iter :: list)
      | .error fault => .error fault
    else if iter.transno = req.transno ∧ iter.xid = req.xid then .error .sameXid
    else if iter.transno = req.transno ∧ iter.xid > req.xid then
      match insertFromEnd req earlier with
      | .ok list => .ok (iter :: list)
      | .error fault => .error fault
    else .ok (req :: iter :: earlier)

/-- `ptlrpc_retain_replayable_request`. -/
def ptlrpcRetainReplayableRequest (imp : ObdImport) (req : PtlrpcRequest) :
    Except ReplayFault ObdImport :=
  if req.transno = 0 then .error .zeroTransno
  else if imp.retains req then
    .ok (imp.modify req.xid fun kept => { kept with msgResent := false })
  else if ¬ imp.replayable then .error .notReplayable
  else
    match insertFromEnd { req with msgResent := false, msgReplay := true } imp.replayList.reverse with
    | .ok list => .ok { imp with replayList := list.reverse }
    | .error fault => .error fault

/-- The loop of `ptlrpc_free_committed`: the list, and the import with the commit callbacks called. -/
def freeCommittedLoop (imp : ObdImport) :
    List PtlrpcRequest → Except ReplayFault (List PtlrpcRequest × ObdImport)
  | [] => .ok ([], imp)
  | req :: rest =>
    if req.transno = 0 then .error .zeroTransno
    else if req.importGeneration < imp.generation then freeCommittedLoop (imp.commit req) rest
    else if req.replay then
      match freeCommittedLoop imp rest with
      | .ok (kept, imp) => .ok (req :: kept, imp)
      | .error fault => .error fault
    else if req.transno > imp.peerCommittedTransno then .ok (req :: rest, imp)
    else freeCommittedLoop (imp.commit req) rest

/-- `ptlrpc_free_committed`. -/
def ptlrpcFreeCommitted (imp : ObdImport) : Except ReplayFault ObdImport :=
  if imp.peerCommittedTransno = imp.lastTransnoChecked ∧
      imp.generation = imp.lastGenerationChecked then .ok imp
  else
    let imp := { imp with
      lastTransnoChecked := imp.peerCommittedTransno, lastGenerationChecked := imp.generation }
    match freeCommittedLoop imp imp.replayList with
    | .ok (kept, imp) => .ok { imp with replayList := kept }
    | .error fault => .error fault

/-! ### Replies -/

/-- `-ENOTCONN`. -/
def enotconn : Int := -107

/-- `-ENODEV`. -/
def enodev : Int := -19

/-- `ll_rpc_recoverable_error`. -/
abbrev llRpcRecoverableError (rc : Int) : Prop := rc = enotconn ∨ rc = enodev

/-- What the client reads in a reply: status, transaction number and last committed one. -/
structure PtlrpcReply where
  status : Int
  transno : Nat
  lastCommitted : Nat
deriving DecidableEq, Repr

/-- The transaction number of a reply is stored unless the request is a replay. -/
def storeTransno (req : PtlrpcRequest) (rep : PtlrpcReply) : PtlrpcRequest :=
  if req.msgReplay then req else { req with transno := rep.transno, msgTransno := rep.transno }

/-- Whether `after_reply` keeps the request. -/
abbrev keepsRequest (req : PtlrpcRequest) (rep : PtlrpcReply) : Prop :=
  req.transno ≠ 0 ∧ (req.transno > rep.lastCommitted ∨ req.replay)

/-- The request is kept for replay, or it is committed already. -/
def keepOrCommit (imp : ObdImport) (req : PtlrpcRequest) (rep : PtlrpcReply) :
    Except ReplayFault ObdImport :=
  if keepsRequest req rep then ptlrpcRetainReplayableRequest imp req else .ok (imp.commit req)

/-- The import takes over the commit status of a reply. -/
def ObdImport.learnCommitted (imp : ObdImport) (lastCommitted : Nat) : ObdImport :=
  if lastCommitted ≠ 0 then { imp with peerCommittedTransno := lastCommitted } else imp

/-- `after_reply`. -/
def afterReply (imp : ObdImport) (req : PtlrpcRequest) (rep : PtlrpcReply) :
    Except ReplayFault ObdImport :=
  if llRpcRecoverableError rep.status then .ok imp
  else if ¬ imp.replayable then .ok imp
  else
    match keepOrCommit imp (storeTransno req rep) rep with
    | .ok imp => ptlrpcFreeCommitted (imp.learnCommitted rep.lastCommitted)
    | .error fault => .error fault

/-! ### The functions of the client -/

/-- `IMPORT_SET_STATE`: a closed import stays closed. -/
def ObdImport.setState (imp : ObdImport) (state : ImpState) : ObdImport :=
  if imp.state = .closed then imp else { imp with state := state }

/-- The request that is sent again after a reconnect is marked. -/
def markResent (imp : ObdImport) (req : PtlrpcRequest) : ObdImport :=
  if imp.resendReplay then imp.modify req.xid fun sent => { sent with msgResent := true } else imp

/-- `ptlrpc_replay_next`: the request that is sent, if there is one. -/
def ptlrpcReplayNext (imp : ObdImport) : Except ReplayFault (ObdImport × Option PtlrpcRequest) :=
  match ptlrpcFreeCommitted { imp with lastTransnoChecked := 0 } with
  | .error fault => .error fault
  | .ok imp =>
    match imp.replayList.find? (·.transno > imp.lastReplayTransno) with
    | none => .ok ({ imp with resendReplay := false }, none)
    | some req => .ok ({ markResent imp req with resendReplay := false }, some req)

/-- `ptlrpc_connect_import`. -/
def ptlrpcConnectImport (imp : ObdImport) : ObdImport :=
  if imp.state = .closed ∨ imp.state = .full ∨ imp.state = .connecting then imp
  else { imp with state := .connecting, resendReplay := false }

/-- The reply to a connect request: `MSG_CONNECT_RECONNECT` and `MSG_CONNECT_RECOVERING`, the handle
and the last committed transaction. -/
structure ConnectReply where
  reconnect : Bool
  recovering : Bool
  handle : Nat
  lastCommitted : Nat
deriving DecidableEq, Repr

/-- `ptlrpc_connect_interpret` for an import that was connected before. -/
def ptlrpcConnectInterpret (imp : ObdImport) (reply : ConnectReply) : Except ReplayFault ObdImport :=
  let taken := { imp with remoteHandle := reply.handle }
  if imp.state = .closed then .ok imp
  else if reply.reconnect then
    if reply.handle = 0 then .ok (imp.setState .discon)
    else if reply.handle ≠ imp.remoteHandle ∧ ¬ reply.recovering then .ok (taken.setState .evicted)
    else if imp.invalid then .ok (taken.setState .evicted)
    else if reply.recovering then .ok ({ taken with resendReplay := true }.setState .replay)
    else .ok (taken.setState .recover)
  else if reply.recovering ∧ ¬ imp.invalid then
    if ¬ imp.replayable then .error .notReplayable
    else .ok ({ taken with lastReplayTransno := 0 }.setState .replay)
  else .ok (taken.setState .evicted)

/-- `ptlrpc_import_recovery_state_machine` when no replay is in flight: the request that is
sent, if there is one. -/
def ptlrpcImportRecoveryStateMachine (imp : ObdImport) :
    Except ReplayFault (ObdImport × Option PtlrpcRequest) :=
  match imp.state with
  | .replay =>
    match ptlrpcReplayNext imp with
    | .error fault => .error fault
    | .ok (imp, none) => .ok (imp.setState .replayLocks, none)
    | .ok (imp, some req) => .ok (imp, some req)
  | .recover => .ok (imp.setState .full, none)
  | _ => .ok (imp, none)

/-- `-EOVERFLOW`, the status of a replay that failed because of a version. -/
def eoverflow : Int := -75

/-- The part of `ptlrpc_replay_interpret` that records a replayed request as answered. -/
def ptlrpcReplayInterpret (imp : ObdImport) (req : PtlrpcRequest) (rep : PtlrpcReply) :
    Except ReplayFault ObdImport :=
  if rep.status ≠ eoverflow ∧ ¬ (req.msgTransno = rep.transno ∨ rep.transno = 0) then
    .error .transnoChanged
  else if req.msgTransno = 0 then .error .noLastReplay
  else if req.transno > req.msgTransno then .error .transnoBehind
  else if req.transno > 0 then .ok { imp with lastReplayTransno := req.transno }
  else .ok { imp with lastReplayTransno := req.msgTransno }

/-! ### Runs -/

/-- A request by its place in the replay list. -/
def PtlrpcRequest.key (req : PtlrpcRequest) : Nat × Nat := (req.transno, req.xid)

/-- The places of the requests on the replay list. -/
def ObdImport.keys (imp : ObdImport) : List (Nat × Nat) := imp.replayList.map (·.key)

/-- What happened in a recovery: `original` is the replay list when the replay to the present instance of
the server began, `sent` and `answered` the requests sent to it and answered since, last at the end, and
`committed` the greatest commit status. -/
structure Trail where
  begun : Bool
  original : List (Nat × Nat)
  sent : List (Nat × Nat)
  answered : List (Nat × Nat)
  committed : Nat
deriving DecidableEq, Repr

/-- The import may have learned that more is committed. -/
def Trail.learn (trail : Trail) (imp : ObdImport) : Trail :=
  { trail with committed := max trail.committed imp.peerCommittedTransno }

/-- A request is sent. -/
def Trail.send (trail : Trail) (req : PtlrpcRequest) : Trail :=
  { trail with sent := trail.sent ++ [req.key] }

/-- A request is answered. -/
def Trail.answer (trail : Trail) (req : PtlrpcRequest) : Trail :=
  { trail with answered := req.key :: trail.answered }

/-- The replay begins with a whole list. -/
def Trail.begin (trail : Trail) (imp : ObdImport) : Trail :=
  { trail with begun := true, original := imp.keys, sent := [], answered := [] }

/-- An import in recovery, with the request that was sent and not yet answered. -/
structure Recovery where
  imp : ObdImport
  inflight : Option PtlrpcRequest
  trail : Trail
deriving DecidableEq, Repr

/-- What can happen to an import in recovery.  `replied` says whether the reply has the type
`PTL_RPC_MSG_ERR`. -/
inductive RecoveryEvent where
  | connect
  | connected (reply : ConnectReply)
  | replied (rep : PtlrpcReply) (err : Bool)
  | timedOut
deriving DecidableEq, Repr

/-- The import goes on; what it sends is noted down. -/
def goOn (trail : Trail) (imp : ObdImport) : Except ReplayFault Recovery :=
  match ptlrpcImportRecoveryStateMachine imp with
  | .error fault => .error fault
  | .ok (imp, none) => .ok ⟨imp, none, trail⟩
  | .ok (imp, some req) => .ok ⟨imp, some req, trail.send req⟩

/-- The reply to a connect request comes from another instance of the server than the replay goes
to. -/
abbrev Recovery.restarted (s : Recovery) (reply : ConnectReply) : Prop :=
  ¬ s.trail.begun ∨ ¬ reply.reconnect ∨ reply.handle ≠ s.imp.remoteHandle

/-- The connect request; the server gives it no transaction number. -/
def connectRequest (imp : ObdImport) : PtlrpcRequest where
  xid := 0
  transno := 0
  importGeneration := imp.generation
  replay := false
  msgTransno := 0
  msgReplay := false
  msgResent := false
  commitCb := false

/-- The import was connected; a replay to a new instance of the server begins with the list from
before. -/
def Recovery.connected (s : Recovery) (reply : ConnectReply) (imp : ObdImport) :
    Except ReplayFault Recovery :=
  if imp.state = .replay ∧ s.restarted reply then goOn ((s.trail.begin s.imp).learn imp) imp
  else goOn (s.trail.learn imp) imp

/-- One event.  Events that cannot happen in a state leave it alone. -/
def recoveryStep (s : Recovery) : RecoveryEvent → Except ReplayFault Recovery
  | .connect =>
    if s.inflight.isSome then .ok s else .ok { s with imp := ptlrpcConnectImport s.imp }
  | .connected reply =>
    if s.imp.state ≠ .connecting then .ok s
    else
      match afterReply s.imp (connectRequest s.imp) ⟨0, 0, reply.lastCommitted⟩ with
      | .error fault => .error fault
      | .ok imp =>
        match ptlrpcConnectInterpret imp reply with
        | .error fault => .error fault
        | .ok imp => s.connected reply imp
  | .replied rep err =>
    match s.inflight with
    | none => .ok s
    | some req =>
      match afterReply s.imp req rep with
      | .error fault => .error fault
      | .ok imp =>
        if err ∧ llRpcRecoverableError rep.status then
          .ok ⟨ptlrpcConnectImport imp, none, s.trail.learn imp⟩
        else
          match ptlrpcReplayInterpret imp req rep with
          | .error fault => .error fault
          | .ok imp => goOn ((s.trail.learn imp).answer req) imp
  | .timedOut =>
    match s.inflight with
    | none => .ok s
    | some _ => .ok { s with imp := ptlrpcConnectImport s.imp, inflight := none }

open List Run

/-- The order of the replay list: by transaction number, then by xid. -/
abbrev Before (a b : PtlrpcRequest) : Prop :=
  a.transno < b.transno ∨ a.transno = b.transno ∧ a.xid < b.xid

variable {req : PtlrpcRequest}

/-- A new request is put where it belongs. -/
theorem insertFromEnd_ok {rev : List PtlrpcRequest} (new : ∀ kept ∈ rev, kept.xid ≠ req.xid)
    (sorted : rev.Pairwise fun a b => Before b a) :
    ∃ out, insertFromEnd req rev = .ok out ∧ out.Perm (req :: rev) ∧
      out.Pairwise fun a b => Before b a := by
  induction rev with
  | nil => exact ⟨[req], rfl, .refl _, pairwise_singleton _ _⟩
  | cons iter earlier ih =>
    obtain ⟨above, sorted'⟩ := pairwise_cons.mp sorted
    have other := new iter mem_cons_self
    obtain ⟨out, inserted, perm, ordered⟩ :=
      ih (fun kept mem => new kept (mem_cons_of_mem _ mem)) sorted'
    -- the request belongs in front of `iter`, the walk goes on
    have goesOn : Before req iter → (iter :: out).Perm (req :: iter :: earlier) ∧
        (iter :: out).Pairwise fun a b => Before b a := by
      intro before
      refine ⟨(perm.cons iter).trans (.swap _ _ _), pairwise_cons.mpr ⟨?_, ordered⟩⟩
      intro b mem
      rcases mem_cons.mp (perm.mem_iff.mp mem) with rfl | mem
      · exact before
      · exact above b mem
    rw [insertFromEnd, inserted]
    split_ifs with later same behind
    · exact ⟨_, rfl, goesOn (.inl later)⟩
    · exact absurd same.2 other
    · exact ⟨_, rfl, goesOn (.inr ⟨behind.1.symm, behind.2⟩)⟩
    · have here : Before iter req := by omega
      refine ⟨_, rfl, .refl _, pairwise_cons.mpr ⟨?_, sorted⟩⟩
      intro b mem
      rcases mem_cons.mp mem with rfl | mem
      · exact here
      · have below := above b mem
        omega

/-- The requests that stay on the list when the server has committed `peer`. -/
abbrev stays (peer : Nat) (req : PtlrpcRequest) : Prop := req.replay ∨ peer < req.transno

theorem commit_eq (imp : ObdImport) (req : PtlrpcRequest) :
    ∃ calls, imp.commit req = { imp with commitCalls := calls } := by
  unfold ObdImport.commit
  split_ifs
  · exact ⟨_, rfl⟩
  · exact ⟨_, rfl⟩

variable {imp : ObdImport}

/-- On a sorted list of the import's generation the early stop changes nothing: what stays is
what passes the test. -/
theorem freeCommittedLoop_ok {list : List PtlrpcRequest} (sorted : list.Pairwise Before)
    (numbered : ∀ req ∈ list, req.transno ≠ 0)
    (current : ∀ req ∈ list, req.importGeneration = imp.generation) :
    ∃ calls, freeCommittedLoop imp list =
      .ok (list.filter (stays imp.peerCommittedTransno ·), { imp with commitCalls := calls }) := by
  induction list generalizing imp with
  | nil => exact ⟨_, rfl⟩
  | cons req rest ih =>
    obtain ⟨above, sorted'⟩ := pairwise_cons.mp sorted
    have numbered' : ∀ r ∈ rest, r.transno ≠ 0 := fun r mem =>
      numbered r (mem_cons_of_mem _ mem)
    have current' : ∀ r ∈ rest, r.importGeneration = imp.generation := fun r mem =>
      current r (mem_cons_of_mem _ mem)
    have nonzero := numbered req mem_cons_self
    have young : ¬ req.importGeneration < imp.generation := by
      have same := current req mem_cons_self
      omega
    rw [freeCommittedLoop, if_neg nonzero, if_neg young]
    by_cases pinned : req.replay
    · obtain ⟨calls, freed⟩ := ih sorted' numbered' current'
      refine ⟨calls, ?_⟩
      rw [if_pos pinned, freed, filter_cons_of_pos (by simp [pinned])]
    · rw [if_neg pinned]
      by_cases uncommitted : req.transno > imp.peerCommittedTransno
      · refine ⟨imp.commitCalls, ?_⟩
        have all : (req :: rest).filter (stays imp.peerCommittedTransno ·) = req :: rest := by
          grind [filter_eq_self]
        rw [if_pos uncommitted, all]
      · obtain ⟨calls, called⟩ := commit_eq imp req
        have behind : ∃ calls', freeCommittedLoop { imp with commitCalls := calls } rest =
            .ok (rest.filter (stays imp.peerCommittedTransno ·),
              { imp with commitCalls := calls' }) := ih sorted' numbered' current'
        obtain ⟨calls', freed⟩ := behind
        refine ⟨calls', ?_⟩
        rw [if_neg uncommitted, called, freed, filter_cons_of_neg (by simp [pinned, uncommitted])]

/-- What holds for the replay list of an import of one generation whenever its lock is free. -/
structure Sound (imp : ObdImport) : Prop where
  replayable : imp.replayable
  checkedGeneration : imp.lastGenerationChecked = imp.generation
  sorted : imp.replayList.Pairwise Before
  numbered : ∀ req ∈ imp.replayList, req.transno ≠ 0
  current : ∀ req ∈ imp.replayList, req.importGeneration = imp.generation

/-- Committed requests are dropped unless the commit status was checked before. -/
theorem ptlrpcFreeCommitted_ok (sound : Sound imp) :
    ∃ list calls, ptlrpcFreeCommitted imp =
        .ok { imp with
          replayList := list, lastTransnoChecked := imp.peerCommittedTransno, commitCalls := calls } ∧
      list.Sublist imp.replayList ∧
      ∀ req, req ∈ list ↔ req ∈ imp.replayList ∧
        (imp.peerCommittedTransno = imp.lastTransnoChecked ∨ stays imp.peerCommittedTransno req) := by
  unfold ptlrpcFreeCommitted
  by_cases checked : imp.peerCommittedTransno = imp.lastTransnoChecked
  · have same : imp = { imp with lastTransnoChecked := imp.peerCommittedTransno } := by
      cases imp
      cases checked
      rfl
    rw [if_pos ⟨checked, sound.checkedGeneration.symm⟩]
    exact ⟨imp.replayList, imp.commitCalls, congrArg _ same, .refl _, by simp [checked]⟩
  · rw [if_neg fun both => checked both.1]
    have loop : ∃ calls, freeCommittedLoop { imp with
          lastTransnoChecked := imp.peerCommittedTransno
          lastGenerationChecked := imp.generation } imp.replayList =
        .ok (imp.replayList.filter (stays imp.peerCommittedTransno ·),
          { imp with
            lastTransnoChecked := imp.peerCommittedTransno
            lastGenerationChecked := imp.generation
            commitCalls := calls }) :=
      freeCommittedLoop_ok sound.sorted sound.numbered sound.current
    obtain ⟨calls, freed⟩ := loop
    refine ⟨imp.replayList.filter (stays imp.peerCommittedTransno ·), calls, ?_,
      filter_sublist, fun req => ?_⟩
    · simp only [freed, sound.checkedGeneration]
    · simp [checked]

theorem Sound.sublist {imp' : ObdImport} (sound : Sound imp) (replayable : imp'.replayable)
    (generation : imp'.generation = imp.generation)
    (checked : imp'.lastGenerationChecked = imp.generation)
    (sub : imp'.replayList.Sublist imp.replayList) : Sound imp' where
  replayable := replayable
  checkedGeneration := checked.trans generation.symm
  sorted := sound.sorted.sublist sub
  numbered := fun req mem => sound.numbered req (sub.subset mem)
  current := fun req mem => (sound.current req (sub.subset mem)).trans generation.symm

/-- The request as it is put on the replay list. -/
def retained (req : PtlrpcRequest) (rep : PtlrpcReply) : PtlrpcRequest :=
  { storeTransno req rep with msgResent := false, msgReplay := true }

/-- The commit status after a reply. -/
def learned (peer lastCommitted : Nat) : Nat := if lastCommitted ≠ 0 then lastCommitted else peer

theorem learnCommitted_eq (imp : ObdImport) (lastCommitted : Nat) :
    imp.learnCommitted lastCommitted =
      { imp with peerCommittedTransno := learned imp.peerCommittedTransno lastCommitted } := by
  unfold ObdImport.learnCommitted learned
  split_ifs
  · rfl
  · rfl

/-- A request that is not on the list is put there or not. -/
theorem keepOrCommit_ok (sound : Sound imp) (rep : PtlrpcReply)
    (new : ∀ kept ∈ imp.replayList, kept.xid ≠ req.xid) :
    ∃ list calls, keepOrCommit imp (storeTransno req rep) rep =
        .ok { imp with replayList := list, commitCalls := calls } ∧ list.Pairwise Before ∧
      ∀ q, q ∈ list ↔
        q ∈ imp.replayList ∨ keepsRequest (storeTransno req rep) rep ∧ q = retained req rep := by
  unfold keepOrCommit
  have xid : (storeTransno req rep).xid = req.xid := by
    unfold storeTransno
    split_ifs
    · rfl
    · rfl
  by_cases keeps : keepsRequest (storeTransno req rep) rep
  · have absent : ¬ imp.retains (storeTransno req rep) := by
      rintro ⟨kept, mem, same⟩
      exact new kept mem (same.trans xid)
    have order : imp.replayList.reverse.Pairwise fun a b => Before b a :=
      pairwise_reverse.mpr sound.sorted
    have others : ∀ kept ∈ imp.replayList.reverse, kept.xid ≠ (retained req rep).xid :=
      fun kept mem same => new kept (mem_reverse.mp mem) (same.trans xid)
    obtain ⟨out, inserted, perm, ordered⟩ := insertFromEnd_ok others order
    refine ⟨out.reverse, imp.commitCalls, ?_, pairwise_reverse.mpr ordered, fun q => ?_⟩
    · rw [if_pos keeps, ptlrpcRetainReplayableRequest, if_neg keeps.1, if_neg absent,
        if_neg (not_not_intro sound.replayable)]
      have same : insertFromEnd { storeTransno req rep with msgResent := false, msgReplay := true }
          imp.replayList.reverse = .ok out := inserted
      rw [same]
    · rw [mem_reverse, perm.mem_iff, mem_cons, mem_reverse]
      tauto
  · obtain ⟨calls, called⟩ := commit_eq imp (storeTransno req rep)
    refine ⟨imp.replayList, calls, ?_, sound.sorted, fun q => ?_⟩
    · rw [if_neg keeps, called]
    · simp [keeps]

/-- What a reply does to the import. -/
structure Took (imp : ObdImport) (req : PtlrpcRequest) (rep : PtlrpcReply) (imp' : ObdImport) :
    Prop where
  sound : Sound imp'
  generation : imp'.generation = imp.generation
  peer : imp'.peerCommittedTransno = learned imp.peerCommittedTransno rep.lastCommitted
  checked : imp'.lastTransnoChecked = imp'.peerCommittedTransno
  mem : ∀ q, q ∈ imp'.replayList ↔
    (q ∈ imp.replayList ∨ keepsRequest (storeTransno req rep) rep ∧ q = retained req rep) ∧
      (imp'.peerCommittedTransno = imp.lastTransnoChecked ∨ stays imp'.peerCommittedTransno q)

/-- `after_reply` for a request that is not on the replay list. -/
theorem afterReply_took (sound : Sound imp) {rep : PtlrpcReply}
    (unrecoverable : ¬ llRpcRecoverableError rep.status)
    (current : req.importGeneration = imp.generation)
    (new : ∀ kept ∈ imp.replayList, kept.xid ≠ req.xid) :
    ∃ imp', afterReply imp req rep = .ok imp' ∧ Took imp req rep imp' := by
  obtain ⟨list, calls, kept, sorted, mem⟩ := keepOrCommit_ok sound rep new
  have generation : (retained req rep).importGeneration = req.importGeneration := by
    unfold retained storeTransno
    split_ifs
    · rfl
    · rfl
  have sound' : Sound { imp with
      replayList := list
      commitCalls := calls
      peerCommittedTransno := learned imp.peerCommittedTransno rep.lastCommitted } :=
    { replayable := sound.replayable
      checkedGeneration := sound.checkedGeneration
      sorted := sorted
      numbered := fun q inList => by
        rcases (mem q).mp inList with old | ⟨keeps, rfl⟩
        · exact sound.numbered q old
        · exact keeps.1
      current := fun q inList => by
        rcases (mem q).mp inList with old | ⟨-, rfl⟩
        · exact sound.current q old
        · exact generation.trans current }
  obtain ⟨list', calls', freed, sub, mem'⟩ := ptlrpcFreeCommitted_ok sound'
  refine ⟨{ imp with
      replayList := list'
      commitCalls := calls'
      peerCommittedTransno := learned imp.peerCommittedTransno rep.lastCommitted
      lastTransnoChecked := learned imp.peerCommittedTransno rep.lastCommitted }, ?_, ?_⟩
  · rw [afterReply, if_neg unrecoverable, if_neg (not_not_intro sound.replayable), kept]
    simp only [learnCommitted_eq]
    exact freed
  · grind [cases Sound, cases Took, intro Sound, intro Took]

/-! ### Sequences of replies -/

/-- A reply to a request without one: `rq_xid`, `rq_replay`, `MSG_RESENT` and `rq_commit_cb`, and what it
carries. -/
structure Replied where
  xid : Nat
  replay : Bool
  resent : Bool
  commitCb : Bool
  transno : Nat
  lastCommitted : Nat
deriving DecidableEq, Repr

/-- The request, sent in the given generation. -/
def Replied.request (reply : Replied) (generation : Nat) : PtlrpcRequest where
  xid := reply.xid
  transno := 0
  importGeneration := generation
  replay := reply.replay
  msgTransno := 0
  msgReplay := false
  msgResent := reply.resent
  commitCb := reply.commitCb

/-- The reply's message. -/
def Replied.reply (reply : Replied) : PtlrpcReply := ⟨0, reply.transno, reply.lastCommitted⟩

/-- A reply is processed, or a file whose open or setattr was replied is closed. -/
inductive ReplayEvent where
  | reply (reply : Replied)
  /-- `mdc_close` or `mdc_done_writing` clears `rq_replay` -/
  | close (xid : Nat)
deriving DecidableEq, Repr

/-- One event. -/
def replayStep (imp : ObdImport) : ReplayEvent → Except ReplayFault ObdImport
  | .reply reply => afterReply imp (reply.request imp.generation) reply.reply
  | .close xid => .ok (imp.modify xid fun req => { req with replay := false })

/-- Behind an event with its number a request is not replied. -/
def ReplayEvent.Precedes : ReplayEvent → ReplayEvent → Prop
  | .reply earlier, .reply later => earlier.xid ≠ later.xid
  | .close xid, .reply later => xid ≠ later.xid
  | _, .close _ => True

instance : DecidableRel ReplayEvent.Precedes
  | .reply _, .reply _ | .close _, .reply _ => inferInstanceAs (Decidable (_ ≠ _))
  | .reply _, .close _ | .close _, .close _ => inferInstanceAs (Decidable True)

/-- The request as it stands on the replay list after the events `done`. -/
def Replied.kept (reply : Replied) (generation : Nat) (done : List ReplayEvent) : PtlrpcRequest :=
  { retained (reply.request generation) reply.reply with
    replay := reply.replay && !decide (ReplayEvent.close reply.xid ∈ done) }

/-- A replayable import at the start of a generation: its replay list is empty. -/
structure Fresh (imp : ObdImport) : Prop where
  replayable : imp.replayable
  checkedGeneration : imp.lastGenerationChecked = imp.generation
  checked : imp.lastTransnoChecked = imp.peerCommittedTransno
  empty : imp.replayList = []

/-- The import knew or received this commit number. -/
def Reported (start : ObdImport) (done : List ReplayEvent) (committed : Nat) : Prop :=
  committed = start.peerCommittedTransno ∨
    ∃ reply, ReplayEvent.reply reply ∈ done ∧ reply.lastCommitted = committed

/-- What the replay list is after the events `done`. -/
structure ReplaySet (start : ObdImport) (done : List ReplayEvent) (imp : ObdImport) : Prop where
  sorted : imp.replayList.Pairwise Before
  complete : ∀ reply, .reply reply ∈ done → reply.transno ≠ 0 →
    (∀ committed, Reported start done committed → committed < reply.transno) →
    reply.kept start.generation done ∈ imp.replayList
  pruned : ∀ req ∈ imp.replayList, ¬ req.replay →
    ∀ committed, Reported start done committed → committed < req.transno

/-- After a reply the replay list is what it should be, and the commit status did not go back. -/
def Settles (start : ObdImport) (done : List ReplayEvent) : ReplayEvent → ObdImport → ObdImport → Prop
  | .reply reply, imp, imp' => ReplaySet start (done ++ [.reply reply]) imp' ∧
      imp.peerCommittedTransno ≤ imp'.peerCommittedTransno
  | .close _, _, _ => True

/-- The reply does not report less as committed than the import knows.  One without commit status is in
order if that does not affect its request.  One that reports nothing new finds no committed request that
was closed. -/
def InOrder (imp : ObdImport) : ReplayEvent → Prop
  | .reply reply =>
    (imp.peerCommittedTransno ≤ reply.lastCommitted ∨
      reply.lastCommitted = 0 ∧
        (reply.transno = 0 ∨ reply.replay ∨ imp.peerCommittedTransno < reply.transno)) ∧
    (learned imp.peerCommittedTransno reply.lastCommitted = imp.peerCommittedTransno →
      ∀ req ∈ imp.replayList, ¬ req.replay → imp.peerCommittedTransno < req.transno)
  | .close _ => True

instance (imp : ObdImport) : DecidablePred (InOrder imp)
  | .reply _ => inferInstanceAs (Decidable (_ ∧ (_ → _)))
  | .close _ => inferInstanceAs (Decidable True)

/-- A new import, connected to a replayable target. -/
def newImport : ObdImport where
  replayable := true
  generation := 1
  replayList := []
  peerCommittedTransno := 0
  lastTransnoChecked := 0
  lastGenerationChecked := 1
  lastReplayTransno := 0
  resendReplay := false
  state := .full
  remoteHandle := 1
  invalid := false
  commitCalls := []

/-- What holds after the events `done`, in whatever order the replies came. -/
structure Recorded (start : ObdImport) (done : List ReplayEvent) (imp : ObdImport) : Prop where
  sound : Sound imp
  generation : imp.generation = start.generation
  checked : imp.lastTransnoChecked = imp.peerCommittedTransno
  listed : ∀ req ∈ imp.replayList, ∃ reply, .reply reply ∈ done ∧
    req = reply.kept start.generation done
  complete : ∀ reply, .reply reply ∈ done → reply.transno ≠ 0 →
    (∀ committed, Reported start done committed → committed < reply.transno) →
    reply.kept start.generation done ∈ imp.replayList
  known : Reported start done imp.peerCommittedTransno

variable {start : ObdImport}

theorem Fresh.recorded (fresh : Fresh start) : Recorded start [] start where
  sound :=
    { replayable := fresh.replayable
      checkedGeneration := fresh.checkedGeneration
      sorted := by rw [fresh.empty]; exact .nil
      numbered := by simp [fresh.empty]
      current := by simp [fresh.empty] }
  generation := rfl
  checked := fresh.checked
  listed := by simp [fresh.empty]
  complete := by simp
  known := .inl rfl

variable {done : List ReplayEvent} {reply : Replied} {xid : Nat}

theorem reported_reply {c : Nat} : Reported start (done ++ [.reply reply]) c ↔
    Reported start done c ∨ c = reply.lastCommitted := by
  simp only [Reported, mem_append, mem_singleton, ReplayEvent.reply.injEq, or_and_right, exists_or,
    exists_eq_left, or_assoc, eq_comm (a := c)]

theorem reported_close {c : Nat} : Reported start (done ++ [.close xid]) c ↔ Reported start done c := by
  simp [Reported]

/-- A later reply does not close a request. -/
theorem kept_reply (earlier : Replied) (generation : Nat) :
    earlier.kept generation (done ++ [.reply reply]) = earlier.kept generation done := by
  simp [Replied.kept]

theorem kept_new (new : ∀ earlier ∈ done, earlier.Precedes (.reply reply)) (generation : Nat) :
    reply.kept generation done = retained (reply.request generation) reply.reply := by
  have open' : ReplayEvent.close reply.xid ∉ done := fun mem => new _ mem rfl
  simp only [Replied.kept, open', decide_false, Bool.not_false, Bool.and_true]
  unfold retained storeTransno
  split_ifs
  · rfl
  · rfl

theorem kept_close (earlier : Replied) (generation : Nat) :
    earlier.kept generation (done ++ [.close xid]) =
      if (earlier.kept generation done).xid = xid then
        { earlier.kept generation done with replay := false }
      else earlier.kept generation done := by
  have same : (earlier.kept generation done).xid = earlier.xid := by
    show (storeTransno _ _).xid = _
    unfold storeTransno
    split_ifs
    · rfl
    · rfl
  rw [same]
  split_ifs with here
  · simp [Replied.kept, here]
  · simp [Replied.kept, here]

theorem Replied.unrecoverable (reply : Replied) : ¬ llRpcRecoverableError reply.reply.status :=
  show ¬ ((0 : Int) = enotconn ∨ (0 : Int) = enodev) by decide

/-- Whether the request of a reply is kept. -/
abbrev Replied.keeps (reply : Replied) : Prop :=
  reply.transno ≠ 0 ∧ (reply.transno > reply.lastCommitted ∨ reply.replay)

section

variable (recorded : Recorded start done imp)

include recorded

/-- Which requests are on the list after one more reply. -/
theorem Recorded.step (new : ∀ earlier ∈ done, earlier.Precedes (.reply reply)) :
    ∃ imp', replayStep imp (.reply reply) = .ok imp' ∧ Recorded start (done ++ [.reply reply]) imp' ∧
      imp'.peerCommittedTransno = learned imp.peerCommittedTransno reply.lastCommitted ∧
      ∀ q, q ∈ imp'.replayList ↔
        (q ∈ imp.replayList ∨ reply.keeps ∧ q = reply.kept start.generation done) ∧
        (imp'.peerCommittedTransno = imp.peerCommittedTransno ∨ stays imp'.peerCommittedTransno q) := by
  have absent : ∀ q ∈ imp.replayList, q.xid ≠ (reply.request imp.generation).xid := by
    intro q mem
    obtain ⟨earlier, before, rfl⟩ := recorded.listed q mem
    exact new _ before
  obtain ⟨imp', taken, took⟩ :=
    afterReply_took recorded.sound reply.unrecoverable rfl absent
  have mem : ∀ q, q ∈ imp'.replayList ↔
      (q ∈ imp.replayList ∨ reply.keeps ∧ q = reply.kept start.generation done) ∧
      (imp'.peerCommittedTransno = imp.peerCommittedTransno ∨
        stays imp'.peerCommittedTransno q) := by
    intro q
    rw [took.mem, recorded.checked, recorded.generation, kept_new new]
    exact Iff.rfl
  refine ⟨imp', taken, ?_, took.peer, mem⟩
  have known : Reported start (done ++ [.reply reply]) imp'.peerCommittedTransno := by
    rw [reported_reply, took.peer]
    unfold learned
    split_ifs
    · exact .inr rfl
    · exact .inl recorded.known
  exact {
    sound := took.sound
    generation := took.generation.trans recorded.generation
    checked := took.checked
    listed := fun q inList => by
      simp only [kept_reply]
      rcases ((mem q).mp inList).1 with old | ⟨-, rfl⟩
      · obtain ⟨earlier, before, same⟩ := recorded.listed q old
        exact ⟨earlier, mem_append_left _ before, same⟩
      · exact ⟨reply, mem_append_right _ mem_cons_self, rfl⟩
    complete := fun earlier before nonzero above => by
      have later := above imp'.peerCommittedTransno known
      rw [kept_reply]
      refine (mem _).mpr ⟨?_, .inr (.inr later)⟩
      rcases mem_append.mp before with before | last
      · exact .inl (recorded.complete earlier before nonzero fun c was =>
          above c (reported_reply.mpr (.inl was)))
      · cases mem_singleton.mp last
        exact .inr ⟨⟨nonzero, .inl (above _ (reported_reply.mpr (.inr rfl)))⟩, rfl⟩
    known := known }

/-- A request that is closed stays where it is. -/
theorem Recorded.close (xid : Nat) : Recorded start (done ++ [.close xid])
    (imp.modify xid fun req => { req with replay := false }) := by
  have sound := recorded.sound
  have list : (imp.modify xid fun req => { req with replay := false }).replayList =
      imp.replayList.map fun req => { req with replay := if req.xid = xid then false else req.replay } :=
    map_congr_left fun req _ => by split_ifs <;> rfl
  exact {
    sound :=
      { replayable := sound.replayable
        checkedGeneration := sound.checkedGeneration
        sorted := list ▸ pairwise_map.mpr sound.sorted
        numbered := list ▸ forall_mem_map.mpr sound.numbered
        current := list ▸ forall_mem_map.mpr sound.current }
    generation := recorded.generation
    checked := recorded.checked
    listed := fun q inList => by
      obtain ⟨old, mem, rfl⟩ := mem_map.mp inList
      obtain ⟨earlier, before, rfl⟩ := recorded.listed old mem
      exact ⟨earlier, mem_append_left _ before, (kept_close earlier _).symm⟩
    complete := fun earlier before nonzero above => by
      have before : ReplayEvent.reply earlier ∈ done := by simpa using before
      rw [kept_close]
      exact mem_map_of_mem (recorded.complete earlier before nonzero fun c was =>
        above c (reported_close.mpr was))
    known := reported_close.mpr recorded.known }

end

/-- The commit status is the greatest commit number. -/
structure Highest (start : ObdImport) (done : List ReplayEvent) (imp : ObdImport) : Prop where
  recorded : Recorded start done imp
  highest : ∀ committed, Reported start done committed → committed ≤ imp.peerCommittedTransno

/-- One reply keeps what should hold exactly if it is in order. -/
theorem Highest.step (before : Highest start done imp)
    (new : ∀ earlier ∈ done, earlier.Precedes (.reply reply)) :
    ∃ imp', replayStep imp (.reply reply) = .ok imp' ∧
      (Settles start done (.reply reply) imp imp' ↔ InOrder imp (.reply reply)) ∧
      (InOrder imp (.reply reply) → Highest start (done ++ [.reply reply]) imp') := by
  obtain ⟨imp', taken, recorded, peer, mem⟩ := before.recorded.step new
  have keep : InOrder imp (.reply reply) → Highest start (done ++ [.reply reply]) imp' ∧
      imp.peerCommittedTransno ≤ imp'.peerCommittedTransno := by
    rintro ⟨order, -⟩
    have forward : imp.peerCommittedTransno ≤ imp'.peerCommittedTransno ∧
        reply.lastCommitted ≤ imp'.peerCommittedTransno := by
      rw [peer]
      unfold learned
      split_ifs <;> omega
    refine ⟨⟨recorded, fun c was => ?_⟩, forward.1⟩
    rcases reported_reply.mp was with old | rfl
    · exact le_trans (before.highest c old) forward.1
    · exact forward.2
  refine ⟨imp', taken, ⟨?_, fun order => ?_⟩, fun order => (keep order).1⟩
  · rintro ⟨set, forward⟩
    refine ⟨?_, fun same req inList unpinned => ?_⟩
    · by_contra disorder
      obtain ⟨back, affected⟩ := not_or.mp disorder
      by_cases silent : reply.lastCommitted = 0
      · -- the request is put on a list that is not checked again
        have unchanged : imp'.peerCommittedTransno = imp.peerCommittedTransno := by
          rw [peer, learned, if_neg (not_not_intro silent)]
        have numbered : reply.transno ≠ 0 := fun none => affected ⟨silent, .inl none⟩
        have unpinned : ¬ reply.replay := fun pinned => affected ⟨silent, .inr (.inl pinned)⟩
        have committed : ¬ imp.peerCommittedTransno < reply.transno := fun later =>
          affected ⟨silent, .inr (.inr later)⟩
        have inList : reply.kept start.generation done ∈ imp'.replayList :=
          (mem _).mpr ⟨.inr ⟨⟨numbered, .inl (by omega)⟩, rfl⟩, .inl unchanged⟩
        have later := set.pruned _ inList (by simp [Replied.kept, unpinned]) imp.peerCommittedTransno
          (reported_reply.mpr (.inl before.recorded.known))
        exact committed later
      · simp_all [learned]
    · -- nothing is dropped while the commit status stays
      have stayed : req ∈ imp'.replayList := (mem req).mpr ⟨.inl inList, .inl (peer.trans same)⟩
      exact set.pruned req stayed unpinned _ (reported_reply.mpr (.inl before.recorded.known))
  · obtain ⟨highest, forward⟩ := keep order
    refine ⟨⟨recorded.sound.sorted, recorded.complete, fun req inList unpinned c was => ?_⟩, forward⟩
    refine lt_of_le_of_lt (highest.highest c was) ?_
    obtain ⟨origin, unchanged | pinned | later⟩ := (mem req).mp inList
    · rw [unchanged]
      rcases origin with old | ⟨keeps, rfl⟩
      · exact order.2 (peer.symm.trans unchanged) req old unpinned
      · rw [kept_new new] at unpinned
        have above : reply.transno > reply.lastCommitted := keeps.2.resolve_right unpinned
        have numbered := keeps.1
        rcases order.1 with forward | ⟨-, none | pinned | later⟩
        · exact forward.trans_lt above
        · exact absurd none numbered
        · exact absurd pinned unpinned
        · exact later
    · exact absurd pinned unpinned
    · exact later

/-- Over any sequence of replies to different requests, and of closes behind them, the replay list is
sorted, complete and pruned after each reply and the commit status never goes back, exactly if
every reply comes in order. -/
theorem replay_set_iff (start : ObdImport) (fresh : Fresh start) (events : List ReplayEvent)
    (distinct : events.Pairwise ReplayEvent.Precedes) :
    Run.Each replayStep (Settles start) [] start events ↔
      Run.Meets replayStep InOrder start events := by
  have init : Highest start [] start :=
    { recorded := fresh.recorded
      highest := by simp [Reported] }
  have steps : ∀ done imp event, Highest start done imp → (∀ earlier ∈ done, earlier.Precedes event) →
      ∃ imp', replayStep imp event = .ok imp' ∧
        (Settles start done event imp imp' ↔ InOrder imp event) ∧
        (InOrder imp event → Highest start (done ++ [event]) imp') := by
    intro done imp event known new
    cases event with
    | reply reply => exact known.step new
    | close xid =>
      exact ⟨_, rfl, Iff.rfl, fun _ =>
        ⟨known.recorded.close xid, fun c was => known.highest c (reported_close.mp was)⟩⟩
  refine each_iff_meets steps init ?_
  intro before event after split earlier mem
  rw [split] at distinct
  exact (pairwise_append.mp distinct).2.2 earlier mem event mem_cons_self

/-- Three replies in order, the second to an open request that is pinned until it is closed, and a
fourth that drops it. -/
theorem replay_set_iff_open : Run.Each replayStep (Settles newImport) [] newImport
      [.reply ⟨1, false, false, true, 5, 0⟩, .reply ⟨2, true, false, true, 6, 6⟩,
        .reply ⟨3, false, true, false, 9, 7⟩, .close 2, .reply ⟨4, false, false, false, 10, 8⟩] :=
  (replay_set_iff newImport ⟨rfl, rfl, rfl, rfl⟩ _ (by decide)).mpr (by decide)

/-- The reply to the request with transaction 9, sent when 8 is committed, overtakes the one with 7,
sent when 5 is. -/
def overtaken : List ReplayEvent :=
  [.reply ⟨2, false, false, false, 9, 8⟩, .reply ⟨1, false, false, false, 7, 5⟩]

/-- A committed open is closed, and the next reply reports nothing new. -/
def closedOpen : List ReplayEvent :=
  [.reply ⟨1, true, false, false, 5, 6⟩, .close 1, .reply ⟨2, false, false, false, 0, 6⟩]

/-- The commit status has gone back from 8 to 5, and the list holds the committed transaction 7.  A
closed open stays on a list that is not checked again. -/
theorem overtaken_replies_break_the_set :
    ¬ Run.Each replayStep (Settles newImport) [] newImport overtaken ∧
      (∃ imp, run replayStep newImport overtaken = .ok imp ∧ imp.peerCommittedTransno = 5 ∧
        imp.replayList.map (fun req => (req.transno, req.replay)) = [(7, false), (9, false)]) ∧
      ∃ imp, run replayStep newImport closedOpen = .ok imp ∧ imp.peerCommittedTransno = 6 ∧
        imp.replayList.map (fun req => (req.transno, req.replay)) = [(5, false)] := by
  refine ⟨?_, ⟨_, rfl, rfl, rfl⟩, _, rfl, rfl, rfl⟩
  rintro ⟨first, taken, -, second, taken', ⟨-, forward⟩, -⟩
  cases taken
  cases taken'
  exact absurd forward (by decide)

end Ptlrpc
