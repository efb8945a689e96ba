/-
Module: Lustre.Ptlrpc.ReplyState
Purpose: Difficult replies, which hold locks until the client has got them, with all that can
  complete or schedule them, each cut at the locks it takes.
Trusted boundary: the replies are those of one export and one service, and their commits come
  through `lut_cb_last_committed`; the requests of the replies end behind `target_send_reply`
-/
import Mathlib.Data.List.Nodup
import Lustre.Lib.Run

namespace Ptlrpc

/-- The list `rs_list` is on: none, `srv_active_replies`, a batch, or the queue of a thread. -/
inductive RsPlace where
  | none
  | active
  | batch
  | queue
deriving DecidableEq, Repr

/-- Where `target_send_reply` is: before it, behind the set-up, `exp_uncommitted_replies_lock`,
`exp_lock`, the send with or without success, at its end. -/
inductive SendStage where
  | fresh
  | started
  | uncommitted
  | outstanding
  | sent
  | failed
  | done
deriving DecidableEq, Repr

/-- Where `ptlrpc_handle_rs` is: not there, called, behind `exp_lock`, behind
`exp_uncommitted_replies_lock`, or dropping locks. -/
inductive HandleStage where
  | idle
  | taken
  | unlisted
  | uncommitted
  | dropping
deriving DecidableEq, Repr

/-- `struct ptlrpc_reply_state`: `obdList` and `expList` say whether it is on `rs_obd_list` and
`rs_exp_list`, `locks` are those up to `rs_nlocks`.  The rest is where the threads are: `net` while the
final event is to come, `dropping` the locks that `ptlrpc_handle_rs` took, `reqRef` the reference of the
request, and the releases. -/
structure ReplyState where
  transno : Nat
  noAck : Bool
  difficult : Bool
  locks : List Nat
  scheduled : Bool
  onNet : Bool
  handled : Bool
  committed : Bool
  hasExport : Bool
  obdList : Bool
  expList : Bool
  list : RsPlace
  refcount : Nat
  send : SendStage
  net : Bool
  handle : HandleStage
  dropping : List Nat
  reqRef : Bool
  released : Nat
deriving DecidableEq, Repr

/-- A reply as it is allocated, with the number its request gets. -/
def newReply (transno : Nat) : ReplyState :=
  { transno := transno, noAck := false, difficult := false, locks := [], scheduled := false
    onNet := false, handled := false, committed := false, hasExport := false, obdList := false
    expList := false, list := .none, refcount := 1, send := .fresh, net := false, handle := .idle
    dropping := [], reqRef := true, released := 0 }

/-- The replies of an export, `exp_last_committed`, `obd_last_committed`, `exp_disconnected` and
`srv_n_difficult_replies`; for the statements the locks saved and dropped. -/
structure ReplyService where
  replies : List ReplyState
  lastCommitted : Nat
  obdLastCommitted : Nat
  disconnected : Bool
  nDifficultReplies : Int
  saved : List Nat
  dropped : List Nat
deriving DecidableEq, Repr

/-- The assertions of `ptlrpc_save_lock`, `ptlrpc_dispatch_difficult_reply`, `ptlrpc_handle_rs`
and `lustre_free_reply_state`. -/
inductive ReplyFault where
  | tooManyLocks
  | dispatchListed
  | handleReply
  | freeReply
deriving DecidableEq, Repr

/-- `RS_MAX_LOCKS`. -/
def rsMaxLocks : Nat := 8

/-- `ptlrpc_schedule_difficult_reply`. -/
def ptlrpcScheduleDifficultReply (rs : ReplyState) : ReplyState :=
  if rs.scheduled then rs else { rs with scheduled := true, list := .queue }

/-- `lustre_free_reply_state` when the last reference is gone. -/
def lustreFreeReplyState (rs : ReplyState) : Except ReplyFault ReplyState :=
  if rs.refcount ≠ 0 then .ok rs
  else if (rs.difficult ∧ ¬ rs.handled) ∨ rs.onNet ∨ rs.scheduled ∨ rs.hasExport ∨ rs.locks ≠ [] ∨
      rs.expList ∨ rs.obdList then .error .freeReply
  else .ok rs

/-- `ptlrpc_rs_decref`. -/
def ptlrpcRsDecref (rs : ReplyState) : Except ReplyFault ReplyState :=
  lustreFreeReplyState { rs with refcount := rs.refcount - 1 }

/-! ### Sending -/

/-- `target_send_reply_msg`: the reply is on the net; it was refused before a reference was taken; or
`sptlrpc_svc_wrap_reply` or `LNetMDBind` failed. -/
inductive SendResult where
  | sent
  | refused
  | failed
deriving DecidableEq, Repr

/-- `target_send_reply_msg` with `ptlrpc_send_reply`: behind the reference for the net an error drops
that of the request, which forgets the reply. -/
def targetSendReplyMsg (rs : ReplyState) : SendResult → Except ReplyFault ReplyState
  | .sent => .ok { rs with refcount := rs.refcount + 1, net := true, send := .sent }
  | .refused => .ok { rs with send := .failed }
  | .failed =>
    ptlrpcRsDecref { rs with refcount := rs.refcount + 1, reqRef := false, send := .failed }

/-- `target_send_reply` when the reply could not be sent: it is off the net, and gets the reference for
it. -/
def markUnsent (rs : ReplyState) : ReplyState :=
  if rs.send = .failed then { rs with onNet := false, refcount := rs.refcount + 1 } else rs

/-- The reply is dispatched at once, or the notifiers may schedule it from now on. -/
def dispatchOrWait (lastCommitted : Nat) (rs : ReplyState) : Except ReplyFault ReplyState :=
  if rs.transno ≤ lastCommitted ∨ (¬ rs.onNet ∧ ¬ rs.noAck) ∨ ¬ rs.expList ∨ ¬ rs.obdList then
    if rs.list ≠ .none then .error .dispatchListed
    else .ok { rs with list := .queue, send := .done }
  else .ok { rs with list := .active, scheduled := false, send := .done }

/-- The last part of `target_send_reply`; `exp_last_committed` is read there again. -/
def targetSendReplyEnd (lastCommitted : Nat) (rs : ReplyState) : Except ReplyFault ReplyState :=
  dispatchOrWait lastCommitted (markUnsent rs)

/-- The final event in `reply_out_callback`. -/
def replyOutCallback (obdLastCommitted : Nat) (rs : ReplyState) : ReplyState :=
  let rs := { rs with net := false, onNet := false }
  if ¬ rs.noAck ∨ rs.transno ≤ obdLastCommitted then ptlrpcScheduleDifficultReply rs else rs

/-- `rs_batch_add`, with the removal from `exp_uncommitted_replies` before it. -/
def rsBatchAdd (rs : ReplyState) : ReplyState :=
  let rs := { rs with obdList := false, committed := true }
  if rs.scheduled then rs else { rs with scheduled := true, list := .batch }

/-- The start of `ptlrpc_handle_rs` on a reply that was taken from the queue. -/
def ptlrpcHandleRs (rs : ReplyState) : Except ReplyFault ReplyState :=
  let rs := { rs with list := RsPlace.none }
  if ¬ rs.difficult ∨ ¬ rs.scheduled ∨ rs.list ≠ .none then .error .handleReply
  else .ok { rs with handle := .taken }

/-- The end of `ptlrpc_handle_rs`, with the release, as no list leads to the reply any more. -/
def ptlrpcHandleRsEnd (rs : ReplyState) : Except ReplyFault ReplyState :=
  let rs := { rs with scheduled := false, handle := HandleStage.idle }
  if rs.onNet then .ok rs
  else ptlrpcRsDecref { rs with hasExport := false, released := rs.released + 1 }

/-! ### Events -/

/-- What happens to the replies, each named by its place in the list. -/
inductive ReplyEvent where
  | alloc (transno : Nat)
  | saveLock (n lock : Nat) (noAck : Bool)
  | sendStart (n : Nat)
  | sendUncommitted (n : Nat)
  | sendOutstanding (n : Nat)
  | sendMsg (n : Nat) (result : SendResult)
  | sendEnd (n : Nat)
  | replyOut (n : Nat)
  | commit (transno : Nat)
  | obdCommit (transno : Nat)
  | commitReply (n : Nat)
  | dispatch (n : Nat)
  | steal (old new : Nat)
  | disconnect
  | disconnectReply (n : Nat)
  | handle (n : Nat)
  | handleUnlist (n : Nat)
  | handleUncommitted (n : Nat)
  | handleSteal (n : Nat)
  | handleDecref (n : Nat)
  | handleEnd (n : Nat)
  | requestDone (n : Nat)
deriving DecidableEq, Repr

namespace ReplyService

/-- A reply changes. -/
def put (s : ReplyService) (n : Nat) (rs : ReplyState) : ReplyService :=
  { s with replies := s.replies.set n rs }

/-- A reply changes or an assertion about it fails. -/
def update (s : ReplyService) (n : Nat) (result : Except ReplyFault ReplyState) :
    Except ReplyFault ReplyService :=
  match result with
  | .ok rs => .ok (s.put n rs)
  | .error fault => .error fault

/-- A step on a reply that is in the right place for it. -/
def onReply (s : ReplyService) (n : Nat) (ready : ReplyState → Bool)
    (next : ReplyState → Except ReplyFault ReplyService) : Except ReplyFault ReplyService :=
  match s.replies[n]? with
  | some rs => if ready rs then next rs else .ok s
  | none => .ok s

/-- `ptlrpc_save_lock` for locks that the request holds. -/
def saveLocks (s : ReplyService) (n : Nat) (locks : List Nat) (noAck : Bool) (rs : ReplyState) :
    Except ReplyFault ReplyService :=
  if locks = [] then .ok s
  else if s.disconnected then
    if rs.locks.length ≥ rsMaxLocks then .error .tooManyLocks
    else .ok { s with dropped := s.dropped ++ locks }
  else if rs.locks.length + locks.length > rsMaxLocks then .error .tooManyLocks
  else .ok (s.put n { rs with locks := rs.locks ++ locks, difficult := true, noAck := noAck })

/-- `mdt_steal_ack_locks` on the old reply, for the reply of the resend. -/
def stealAckLocks (s : ReplyService) (old new : Nat) (rs : ReplyState) :
    Except ReplyFault ReplyService :=
  match s.replies[new]? with
  | none => .ok s
  | some resend =>
    if resend.send ≠ .fresh then .ok s
    else
      (s.put old (ptlrpcScheduleDifficultReply { rs with expList := false, locks := [] })).saveLocks
        new rs.locks false resend

/-- A saved lock is dropped. -/
def decref (s : ReplyService) (n : Nat) (rs : ReplyState) : Except ReplyFault ReplyService :=
  match rs.dropping with
  | [] => .ok s
  | lock :: rest => .ok { s.put n { rs with dropping := rest } with dropped := s.dropped ++ [lock] }

/-- The end of `target_send_reply` with its counter. -/
def sendEnd (s : ReplyService) (n : Nat) (rs : ReplyState) : Except ReplyFault ReplyService :=
  { s with nDifficultReplies := s.nDifficultReplies + 1 }.update n
    (targetSendReplyEnd s.lastCommitted rs)

/-- The end of `ptlrpc_handle_rs` with its counter. -/
def handleEnd (s : ReplyService) (n : Nat) (rs : ReplyState) : Except ReplyFault ReplyService :=
  if rs.onNet then s.update n (ptlrpcHandleRsEnd rs)
  else { s with nDifficultReplies := s.nDifficultReplies - 1 }.update n (ptlrpcHandleRsEnd rs)

end ReplyService

/-- One event.  A lock is saved once for a request, and `target_send_reply` sends a difficult
reply once. -/
def replyStep (s : ReplyService) : ReplyEvent → Except ReplyFault ReplyService
  | .alloc transno => .ok { s with replies := s.replies ++ [newReply transno] }
  | .saveLock n lock noAck =>
    if lock ∈ s.saved then .ok s
    else s.onReply n (·.send = .fresh) fun rs =>
      { s with saved := s.saved ++ [lock] }.saveLocks n [lock] noAck rs
  | .sendStart n => s.onReply n (fun rs => rs.send = .fresh ∧ rs.difficult) fun rs =>
    .ok (s.put n { rs with scheduled := true, onNet := true, hasExport := true, send := .started })
  | .sendUncommitted n => s.onReply n (·.send = .started) fun rs =>
    .ok (s.put n { rs with obdList := s.lastCommitted < rs.transno, send := .uncommitted })
  | .sendOutstanding n => s.onReply n (·.send = .uncommitted) fun rs =>
    .ok (s.put n { rs with expList := true, send := .outstanding })
  | .sendMsg n result => s.onReply n (·.send = .outstanding) fun rs =>
    s.update n (targetSendReplyMsg rs result)
  | .sendEnd n => s.onReply n (fun rs => rs.send = .sent ∨ rs.send = .failed) (s.sendEnd n)
  | .replyOut n => s.onReply n (·.net) fun rs =>
    .ok (s.put n (replyOutCallback s.obdLastCommitted rs))
  | .commit transno =>
    .ok { s with
      lastCommitted := max s.lastCommitted transno
      obdLastCommitted := max s.obdLastCommitted transno }
  | .obdCommit transno => .ok { s with obdLastCommitted := max s.obdLastCommitted transno }
  | .commitReply n => s.onReply n (fun rs => rs.obdList ∧ rs.transno ≤ s.lastCommitted) fun rs =>
    .ok (s.put n (rsBatchAdd rs))
  | .dispatch n => s.onReply n (·.list = .batch) fun rs => .ok (s.put n { rs with list := .queue })
  | .steal old new => s.onReply old (·.expList) (s.stealAckLocks old new)
  | .disconnect => .ok { s with disconnected := true }
  | .disconnectReply n => s.onReply n (fun rs => s.disconnected ∧ rs.expList) fun rs =>
    .ok (s.put n (ptlrpcScheduleDifficultReply { rs with expList := false }))
  | .handle n => s.onReply n (·.list = .queue) fun rs => s.update n (ptlrpcHandleRs rs)
  | .handleUnlist n => s.onReply n (·.handle = .taken) fun rs =>
    .ok (s.put n { rs with expList := false, handle := .unlisted })
  | .handleUncommitted n => s.onReply n (·.handle = .unlisted) fun rs =>
    .ok (s.put n { rs with obdList := rs.obdList && rs.committed, handle := .uncommitted })
  | .handleSteal n => s.onReply n (·.handle = .uncommitted) fun rs =>
    .ok (s.put n { rs with handled := true, locks := [], dropping := rs.locks, handle := .dropping })
  | .handleDecref n => s.onReply n (·.handle = .dropping) (s.decref n)
  | .handleEnd n => s.onReply n (fun rs => rs.handle = .dropping ∧ rs.dropping = []) (s.handleEnd n)
  | .requestDone n => s.onReply n (fun rs => rs.send = .done ∧ rs.reqRef) fun rs =>
    s.update n (ptlrpcRsDecref { rs with reqRef := false })

/-- A service before its first reply. -/
def noReplies (lastCommitted obdLastCommitted : Nat) : ReplyService :=
  ⟨[], lastCommitted, obdLastCommitted, false, 0, [], []⟩

open List Run

/-! ### One reply -/

/-- The final event of the network will schedule the reply, if it is still to come. -/
def Safe (obdLastCommitted : Nat) (rs : ReplyState) : Prop :=
  rs.noAck = true → rs.onNet = true → rs.transno ≤ obdLastCommitted

/-- A reply is taken off a list only when that is safe. -/
def SafeOff (obd : Nat) (rs : ReplyState) : Prop :=
  rs.obdList = false ∨ rs.expList = false → Safe obd rs

/-- A reply that is set up and not sent. -/
def Unsent (rs : ReplyState) : Prop :=
  (rs.scheduled = true ∧ rs.difficult = true) ∧ rs.refcount = 1 ∧ rs.net = false ∧ rs.onNet = true

/-- What `target_send_reply` has done to a reply at its stages. -/
def SendsAt (obd : Nat) (rs : ReplyState) : SendStage → Prop
  | .fresh => rs.refcount = 1 ∧ rs.net = false ∧ rs.obdList = false ∧ rs.expList = false ∧
      rs.committed = false
  | .started => Unsent rs ∧ rs.obdList = false ∧ rs.expList = false ∧ rs.committed = false
  | .uncommitted => Unsent rs ∧ rs.expList = false ∧ (rs.obdList = false → Safe obd rs)
  | .outstanding | .failed => Unsent rs ∧ SafeOff obd rs
  | .sent => (rs.scheduled = true ∧ rs.difficult = true) ∧ rs.refcount = 2 ∧ rs.onNet = rs.net ∧
      SafeOff obd rs
  | .done => False

/-- A reply that `target_send_reply` has not left: notifiers can change it, but not schedule it. -/
structure Sending (obd : Nat) (rs : ReplyState) : Prop where
  idle : rs.handle = .idle ∧ rs.list = .none ∧ rs.dropping = []
  held : rs.released = 0 ∧ rs.reqRef = true
  commit : rs.committed = true → rs.obdList = false
  stage : SendsAt obd rs rs.send

/-- What a released reply has lost. -/
structure Clean (rs : ReplyState) : Prop where
  scheduled : rs.scheduled = false
  onNet : rs.onNet = false
  hasExport : rs.hasExport = false
  expList : rs.expList = false
  obdList : rs.obdList = false
  handled : rs.handled = true
  locks : rs.locks = []

/-- What `ptlrpc_handle_rs` has done to a reply at its stages. -/
def AtStage (rs : ReplyState) : HandleStage → Prop
  | .idle | .taken => rs.dropping = []
  | .unlisted => rs.dropping = [] ∧ rs.expList = false
  | .uncommitted => rs.dropping = [] ∧ rs.expList = false ∧ rs.obdList = false
  | .dropping => rs.expList = false ∧ rs.obdList = false ∧ rs.handled = true ∧ rs.locks = []

/-- A reply behind `target_send_reply`: it is scheduled while on the way to `ptlrpc_handle_rs` or there,
and off the net and not scheduled it waits for its commit. -/
structure Done (obd : Nat) (rs : ReplyState) : Prop where
  send : rs.send = .done
  difficult : rs.difficult = true
  wire : rs.onNet = rs.net
  placed : rs.scheduled = true ↔ (rs.list = .batch ∨ rs.list = .queue) ∨ rs.handle ≠ .idle
  single : rs.handle ≠ .idle → rs.list = .none
  refs : rs.refcount = (if rs.reqRef = true then 1 else 0) + if rs.released = 0 then 1 else 0
  once : rs.released = 0 ∨ rs.released = 1 ∧ Clean rs
  stage : AtStage rs rs.handle
  commit : rs.committed = true → rs.obdList = false
  safe : rs.obdList = false ∨ rs.expList = false ∨ rs.scheduled = true → Safe obd rs
  waits : rs.scheduled = false → rs.released = 0 → rs.onNet = false → rs.obdList = true

/-- What is known of a reply from the places where it is. -/
inductive ReplySound (obd : Nat) (rs : ReplyState) : Prop where
  | sending (setup : Sending obd rs)
  | done (behind : Done obd rs)

/-- The references to a reply: that of its request, and one from the send on until the release. -/
def references (rs : ReplyState) : Nat :=
  (if rs.reqRef then 1 else 0) +
    if (rs.send = .sent ∨ rs.send = .done) ∧ rs.released = 0 then 1 else 0

/-- What a step makes of a reply that keeps its locks. -/
inductive ReplyMove (exp obd : Nat) (rs : ReplyState) : ReplyState → Prop where
  | sendStart : rs.send = .fresh → rs.difficult = true → ReplyMove exp obd rs
      { rs with scheduled := true, onNet := true, hasExport := true, send := .started }
  | sendUncommitted : rs.send = .started →
      ReplyMove exp obd rs { rs with obdList := exp < rs.transno, send := .uncommitted }
  | sendOutstanding : rs.send = .uncommitted →
      ReplyMove exp obd rs { rs with expList := true, send := .outstanding }
  | sent : rs.send = .outstanding →
      ReplyMove exp obd rs { rs with refcount := rs.refcount + 1, net := true, send := .sent }
  | refused : rs.send = .outstanding → ReplyMove exp obd rs { rs with send := .failed }
  | replyOut : rs.net = true → ReplyMove exp obd rs (replyOutCallback obd rs)
  | commitReply : rs.obdList = true → rs.transno ≤ obd → ReplyMove exp obd rs (rsBatchAdd rs)
  | dispatch : rs.list = .batch → ReplyMove exp obd rs { rs with list := .queue }
  /-- The reply is completed early. -/
  | complete : rs.expList = true → Safe obd rs →
      ReplyMove exp obd rs (ptlrpcScheduleDifficultReply { rs with expList := false })
  | handle : rs.list = .queue → ReplyMove exp obd rs { rs with list := .none, handle := .taken }
  | handleUnlist : rs.handle = .taken →
      ReplyMove exp obd rs { rs with expList := false, handle := .unlisted }
  | handleUncommitted : rs.handle = .unlisted → ReplyMove exp obd rs
      { rs with obdList := rs.obdList && rs.committed, handle := .uncommitted }
  | requestDone : rs.send = .done → rs.reqRef = true →
      ReplyMove exp obd rs { rs with reqRef := false, refcount := rs.refcount - 1 }

section
variable {exp obd obd' : Nat} {rs rs' : ReplyState}

theorem rsBatchAdd_scheduled (scheduled : rs.scheduled = true) :
    rsBatchAdd rs = { rs with obdList := false, committed := true } := if_pos scheduled

theorem replyOutCallback_scheduled (scheduled : rs.scheduled = true) :
    replyOutCallback obd rs = { rs with net := false, onNet := false } := by
  unfold replyOutCallback ptlrpcScheduleDifficultReply
  simp [scheduled]

theorem SendsAt.scheduled {stage : SendStage} (here : SendsAt obd rs stage) (late : stage ≠ .fresh) :
    rs.scheduled = true ∧ rs.difficult = true := by
  cases stage with
  | fresh => exact absurd rfl late
  | done => exact here.elim
  | sent => exact here.1
  | _ => exact here.1.1

theorem SendsAt.mono {stage : SendStage} (here : SendsAt obd rs stage)
    (safe : Safe obd rs → Safe obd' rs) : SendsAt obd' rs stage := by
  cases stage with
  | fresh | started | done => exact here
  | uncommitted => exact ⟨here.1, here.2.1, fun off => safe (here.2.2 off)⟩
  | outstanding | failed => exact ⟨here.1, fun off => safe (here.2 off)⟩
  | sent => exact ⟨here.1, here.2.1, here.2.2.1, fun off => safe (here.2.2.2 off)⟩

/-- A notifier takes a reply off a list that is being sent. -/
theorem Sending.unlist (setup : Sending obd rs) (safe : Safe obd rs) {obdList expList committed : Bool}
    (listed : rs.obdList = true ∨ rs.expList = true) (exp : rs.expList = false → expList = false)
    (commit : committed = true → obdList = false) : rs.scheduled = true ∧ Sending obd
      { rs with obdList := obdList, expList := expList, committed := committed } := by
  have stage := setup.stage
  suffices late : rs.send ≠ .fresh ∧ SendsAt obd
      { rs with obdList := obdList, expList := expList, committed := committed } rs.send from
    ⟨(stage.scheduled late.1).1, { setup with commit := commit, stage := late.2 }⟩
  generalize rs.send = now at stage
  cases now with
  | fresh => simp [stage.2.2.1, stage.2.2.2.1] at listed
  | started => simp [stage.2.1, stage.2.2.1] at listed
  | uncommitted => exact ⟨nofun, stage.1, exp stage.2.1, fun _ => safe⟩
  | outstanding | failed => exact ⟨nofun, stage.1, fun _ => safe⟩
  | sent => exact ⟨nofun, stage.1, stage.2.1, stage.2.2.1, fun _ => safe⟩
  | done => exact stage.elim

section

variable (behind : Done obd rs)

include behind

theorem Done.unreleased
    (busy : rs.scheduled = true ∨ rs.onNet = true ∨ rs.obdList = true ∨ rs.expList = true) :
    rs.released = 0 := by
  rcases behind.once with unreleased | ⟨_, clean⟩
  · exact unreleased
  rcases busy with busy | busy | busy | busy
  · cases clean.scheduled.symm.trans busy
  · cases clean.onNet.symm.trans busy
  · cases clean.obdList.symm.trans busy
  · cases clean.expList.symm.trans busy

/-- A reply at a stage of `ptlrpc_handle_rs` is scheduled and on no list. -/
theorem Done.busy {stage : HandleStage} (here : rs.handle = stage) (not : stage ≠ .idle) :
    rs.scheduled = true ∧ rs.list = .none ∧ rs.released = 0 ∧ AtStage rs stage := by
  subst here
  have scheduled := behind.placed.mpr (.inr not)
  exact ⟨scheduled, behind.single not, behind.unreleased (.inl scheduled), behind.stage⟩

theorem Done.schedule (unreleased : rs.released = 0) (safe : Safe obd rs) {list : RsPlace}
    (listed : list = .batch ∨ list = .queue) (waiting : ¬ rs.scheduled = true) :
    Done obd { rs with scheduled := true, list := list } := { behind with
  placed := ⟨fun _ => .inl listed, fun _ => rfl⟩
  single := fun busy => absurd (behind.placed.mpr (.inr busy)) waiting
  once := .inl unreleased
  safe := fun _ => safe
  waits := nofun }

theorem Done.offNet (unreleased : rs.released = 0) (waits : rs.scheduled = false → rs.obdList = true) :
    Done obd { rs with net := false, onNet := false } := { behind with
  wire := rfl
  once := .inl unreleased
  safe := fun _ _ => nofun
  waits := fun waiting _ _ => waits waiting }

theorem Done.replyOut (net : rs.net = true) : Done obd (replyOutCallback obd rs) := by
  have onNet : rs.onNet = true := behind.wire.trans net
  have unreleased := behind.unreleased (.inr (.inl onNet))
  by_cases scheduled : rs.scheduled = true
  · rw [replyOutCallback_scheduled scheduled]
    exact behind.offNet unreleased fun waiting => nomatch scheduled.symm.trans waiting
  unfold replyOutCallback
  dsimp only
  split_ifs with ready
  · have safe : Safe obd rs := fun noAck _ => ready.resolve_left (not_not.mpr noAck)
    rw [ptlrpcScheduleDifficultReply, if_neg scheduled]
    exact (behind.schedule unreleased safe (.inr rfl) scheduled).offNet unreleased nofun
  · -- nobody but the commit can schedule the reply now
    refine behind.offNet unreleased fun _ => Bool.not_eq_false _ ▸ fun unlisted => ready ?_
    exact not_or_of_imp fun noAck => behind.safe (.inl unlisted) noAck onNet

theorem Done.committed (unreleased : rs.released = 0) (scheduled : rs.scheduled = true)
    (committed : rs.transno ≤ obd) : Done obd { rs with obdList := false, committed := true } :=
  { behind with
    once := .inl unreleased
    stage := by
      have stage := behind.stage
      revert stage
      cases rs.handle <;> simp +contextual [AtStage]
    commit := fun _ => rfl
    safe := fun _ _ _ => committed
    waits := fun waiting => nomatch scheduled.symm.trans waiting }

theorem Done.commitReply (listed : rs.obdList = true) (committed : rs.transno ≤ obd) :
    Done obd (rsBatchAdd rs) := by
  have unreleased := behind.unreleased (.inr (.inr (.inl listed)))
  unfold rsBatchAdd
  dsimp only
  split_ifs with scheduled
  · exact behind.committed unreleased scheduled committed
  · have queued := behind.schedule unreleased (fun _ _ => committed) (.inl rfl) scheduled
    exact queued.committed unreleased rfl committed

theorem Done.unexport (unreleased : rs.released = 0) (safe : Safe obd rs) :
    Done obd { rs with expList := false } := { behind with
  once := .inl unreleased
  stage := by
    have stage := behind.stage
    revert stage
    cases rs.handle <;> simp +contextual [AtStage]
  safe := fun _ => safe }

theorem Done.complete (listed : rs.expList = true) (safe : Safe obd rs) :
    Done obd (ptlrpcScheduleDifficultReply { rs with expList := false }) := by
  have unreleased := behind.unreleased (.inr (.inr (.inr listed)))
  unfold ptlrpcScheduleDifficultReply
  split_ifs with scheduled
  · exact behind.unexport unreleased safe
  · exact (behind.schedule unreleased safe (.inr rfl) scheduled).unexport unreleased safe

/-- The reply goes on to a stage of `ptlrpc_handle_rs`, which may take it off lists. -/
theorem Done.advance {list : RsPlace} {stage : HandleStage} {expList obdList : Bool}
    (scheduled : rs.scheduled = true) (off : list = .none) (busy : stage ≠ .idle)
    (commit : obdList = true → rs.obdList = true)
    (there : AtStage { rs with expList := expList, obdList := obdList } stage) :
    Done obd { rs with list := list, expList := expList, obdList := obdList, handle := stage } :=
  { behind with
    placed := ⟨fun _ => .inr busy, fun _ => scheduled⟩
    single := fun _ => off
    once := .inl (behind.unreleased (.inl scheduled))
    stage := there
    commit := fun committed => Bool.eq_false_iff.mpr fun listed =>
      nomatch (behind.commit committed).symm.trans (commit listed)
    safe := fun _ => behind.safe (.inr (.inr scheduled))
    waits := fun waiting => nomatch scheduled.symm.trans waiting }

theorem Done.requestDone (held : rs.reqRef = true) :
    Done obd { rs with reqRef := false, refcount := rs.refcount - 1 } := { behind with
  refs := by simp [behind.refs, held]
  once := behind.once.imp_right fun ⟨released, clean⟩ => ⟨released, { clean with }⟩
  stage := by
    have stage := behind.stage
    revert stage
    cases rs.handle <;> exact id }

end

/-! ### All replies -/

theorem replySound_newReply (obd transno : Nat) : ReplySound obd (newReply transno) :=
  .sending ⟨⟨rfl, rfl, rfl⟩, ⟨rfl, rfl⟩, nofun, rfl, rfl, rfl, rfl, rfl⟩

section

variable (sound : ReplySound obd rs)

include sound

theorem ReplySound.sending_of (here : rs.send ≠ .done) : Sending obd rs := by
  cases sound with
  | sending setup => exact setup
  | done behind => exact absurd behind.send here

theorem ReplySound.done_of (here : rs.send = .done ∨ rs.list ≠ .none ∨ rs.handle ≠ .idle) :
    Done obd rs := by
  cases sound with
  | sending setup =>
    rcases here with here | here | here
    · have stage := setup.stage
      rw [here] at stage
      exact stage.elim
    · exact absurd setup.idle.2.1 here
    · exact absurd setup.idle.1 here
  | done behind => exact behind

theorem ReplySound.sends {stage : SendStage} (here : rs.send = stage) (not : stage ≠ .done) :
    Sending obd rs ∧ SendsAt obd rs stage := by
  subst here
  have setup := sound.sending_of not
  exact ⟨setup, setup.stage⟩

theorem ReplySound.move (move : ReplyMove exp obd rs rs') (order : exp ≤ obd) :
    ReplySound obd rs' := by
  cases move with
  | sendStart here hard =>
    obtain ⟨setup, refs, net, obdList, expList, committed⟩ := sound.sends here nofun
    exact .sending { setup with stage := ⟨⟨⟨rfl, hard⟩, refs, net, rfl⟩, obdList, expList, committed⟩ }
  | sendUncommitted here =>
    obtain ⟨setup, unsent, _, expList, committed⟩ := sound.sends here nofun
    exact .sending { setup with
      commit := fun done => nomatch committed.symm.trans done
      stage := ⟨unsent, expList, fun off _ _ => (not_lt.mp (of_decide_eq_false off)).trans order⟩ }
  | sendOutstanding here =>
    obtain ⟨setup, unsent, _, safe⟩ := sound.sends here nofun
    exact .sending { setup with stage := ⟨unsent, fun off => safe (off.resolve_right nofun)⟩ }
  | sent here =>
    obtain ⟨setup, ⟨scheduled, refs, _, onNet⟩, safe⟩ := sound.sends here nofun
    exact .sending { setup with stage := ⟨scheduled, congrArg Nat.succ refs, onNet, safe⟩ }
  | refused here =>
    obtain ⟨setup, stage⟩ := sound.sends here nofun
    exact .sending { setup with stage := stage }
  | replyOut net =>
    cases sound with
    | done behind => exact .done (behind.replyOut net)
    | sending setup =>
      have stage := setup.stage
      have sent : rs.send = .sent := by
        by_contra other
        cases here : rs.send <;> grind [SendsAt, Unsent]
      rw [sent] at stage
      rw [replyOutCallback_scheduled stage.1.1]
      refine .sending { setup with stage := ?_ }
      rw [sent]
      exact ⟨stage.1, stage.2.1, rfl, fun _ _ => nofun⟩
  | commitReply listed committed =>
    cases sound with
    | done behind => exact .done (behind.commitReply listed committed)
    | sending setup =>
      obtain ⟨scheduled, after⟩ := setup.unlist (fun _ _ => committed) (.inl listed) id fun _ => rfl
      rw [rsBatchAdd_scheduled scheduled]
      exact .sending after
  | complete listed safe =>
    cases sound with
    | done behind => exact .done (behind.complete listed safe)
    | sending setup =>
      obtain ⟨scheduled, after⟩ := setup.unlist safe (.inr listed) (fun _ => rfl) setup.commit
      rw [ptlrpcScheduleDifficultReply, if_pos scheduled]
      exact .sending after
  | dispatch here =>
    have behind := sound.done_of (.inr (.inl (by rw [here]; nofun)))
    exact .done { behind with
      placed := ⟨fun _ => .inl (.inr rfl), fun _ => behind.placed.mpr (.inl (.inl here))⟩
      single := fun busy => nomatch here.symm.trans (behind.single busy)
      once := behind.once.imp_right fun ⟨released, clean⟩ => ⟨released, { clean with }⟩
      stage := by
        have stage := behind.stage
        revert stage
        cases rs.handle <;> exact id }
  | handle here =>
    have behind := sound.done_of (.inr (.inl (by rw [here]; nofun)))
    have idle : rs.handle = .idle := by
      by_contra busy
      cases here.symm.trans (behind.single busy)
    have stage := behind.stage
    rw [idle] at stage
    exact .done (behind.advance (behind.placed.mpr (.inl (.inr here))) rfl nofun id stage)
  | handleUnlist here =>
    have behind := sound.done_of (.inr (.inr (by rw [here]; nofun)))
    obtain ⟨scheduled, list, _, stage⟩ := behind.busy here nofun
    exact .done (behind.advance scheduled list nofun id ⟨stage, rfl⟩)
  | handleUncommitted here =>
    have behind := sound.done_of (.inr (.inr (by rw [here]; nofun)))
    obtain ⟨scheduled, list, _, empty, unlisted⟩ := behind.busy here nofun
    refine .done (behind.advance scheduled list nofun (fun both => (Bool.and_eq_true_iff.mp both).1)
      ⟨empty, unlisted, ?_⟩)
    cases committed : rs.committed with
    | false => exact Bool.and_false _
    | true => rw [behind.commit committed, Bool.false_and]
  | requestDone here held => exact .done ((sound.done_of (.inl here)).requestDone held)

theorem ReplySound.mono (grows : obd ≤ obd') : ReplySound obd' rs := by
  have safe (before : Safe obd rs) : Safe obd' rs :=
    fun noAck onNet => (before noAck onNet).trans grows
  cases sound with
  | sending setup =>
    exact .sending { setup with stage := setup.stage.mono safe }
  | done behind => exact .done { behind with safe := fun some => safe (behind.safe some) }

theorem ReplySound.saveLocks (here : rs.send = .fresh) (locks : List Nat) (noAck : Bool) :
    ReplySound obd { rs with locks := locks, difficult := true, noAck := noAck } := by
  obtain ⟨setup, stage⟩ := sound.sends here nofun
  refine .sending { setup with stage := ?_ }
  rw [here]
  exact stage

theorem ReplySound.noLocks : ReplySound obd { rs with locks := [] } := by
  cases sound with
  | sending setup =>
    have stage := setup.stage
    refine .sending { setup with stage := ?_ }
    revert stage
    cases rs.send <;> exact id
  | done behind =>
    exact .done { behind with
      once := behind.once.imp_right fun ⟨released, clean⟩ => ⟨released, { clean with locks := rfl }⟩
      stage := by
        have stage := behind.stage
        revert stage
        cases rs.handle <;> simp +contextual [AtStage] }

theorem ReplySound.handle (here : rs.list = .queue) :
    ptlrpcHandleRs rs = .ok { rs with list := .none, handle := .taken } := by
  have behind := sound.done_of (.inr (.inl (by rw [here]; nofun)))
  have scheduled := behind.placed.mpr (.inl (.inr here))
  unfold ptlrpcHandleRs
  rw [if_neg (by simp [behind.difficult, scheduled])]

theorem ReplySound.once : rs.released ≤ 1 := by
  cases sound with
  | sending setup => simp [setup.held]
  | done behind => rcases behind.once with unreleased | ⟨released, _⟩ <;> omega

theorem ReplySound.unlocked (released : rs.released = 1) : rs.locks = [] ∧ rs.dropping = [] := by
  cases sound with
  | sending setup => cases setup.held.1.symm.trans released
  | done behind =>
    rcases behind.once with unreleased | ⟨_, clean⟩
    · cases unreleased.symm.trans released
    have idle : rs.handle = .idle := by
      by_contra busy
      cases clean.scheduled.symm.trans (behind.placed.mpr (.inr busy))
    have stage := behind.stage
    rw [idle] at stage
    exact ⟨clean.locks, stage⟩

theorem ReplySound.references : rs.refcount = references rs := by
  unfold Ptlrpc.references
  cases sound with
  | sending setup =>
    have stage := setup.stage
    cases here : rs.send <;> rw [here] at stage
    case done => exact stage.elim
    case fresh => simp [stage.1, setup.held]
    all_goals simp [stage.1.2, stage.2, setup.held]
  | done behind => simp [behind.refs, behind.send]

end

section

variable (setup : Sending obd rs) (here : rs.send = .sent ∨ rs.send = .failed)

include setup here

/-- Sent or not, the reply is on the net while the final event is to come, with a reference for it. -/
theorem Sending.markUnsent : markUnsent rs = { rs with onNet := rs.net, refcount := 2 } ∧
    SafeOff obd { rs with onNet := rs.net } ∧ rs.scheduled = true ∧ rs.difficult = true := by
  have stage := setup.stage
  unfold Ptlrpc.markUnsent
  rcases here with sent | failed
  · rw [sent] at stage
    obtain ⟨begun, refs, wire, safe⟩ := stage
    rw [if_neg (by rw [sent]; nofun)]
    refine ⟨?_, fun off noAck net => safe off noAck (wire.trans net), begun⟩
    cases rs
    cases refs
    cases wire
    rfl
  · rw [failed] at stage
    obtain ⟨⟨begun, refs, net, _⟩, _⟩ := stage
    rw [if_pos failed, refs, net]
    exact ⟨rfl, fun _ _ => nofun, begun⟩

/-- The end of `target_send_reply`: the reply is queued, or the notifiers may schedule it. -/
theorem Sending.sendEnd (order : exp ≤ obd) :
    ∃ rs', targetSendReplyEnd exp rs = .ok rs' ∧ Done obd rs' ∧ rs'.locks = rs.locks ∧
      rs'.dropping = rs.dropping ∧ rs'.released = 0 := by
  obtain ⟨idle, list, empty⟩ := setup.idle
  obtain ⟨unreleased, held⟩ := setup.held
  obtain ⟨marked, safe, scheduled, difficult⟩ := setup.markUnsent here
  have stage : AtStage rs rs.handle := by rwa [idle]
  have refs : 2 = (if rs.reqRef = true then 1 else 0) + if rs.released = 0 then 1 else 0 := by
    simp [held, unreleased]
  have single (list : RsPlace) (busy : rs.handle ≠ .idle) : list = .none := absurd idle busy
  rw [targetSendReplyEnd, marked, dispatchOrWait]
  split_ifs with ready listed
  · exact absurd list listed
  · refine ⟨_, rfl, ⟨rfl, difficult, rfl, by simp [scheduled], single _, refs, .inl unreleased, ?_,
      setup.commit, fun _ noAck net => ?_, fun waiting => nomatch scheduled.symm.trans waiting⟩, rfl,
      rfl, unreleased⟩
    · rwa [idle] at stage ⊢
    rcases ready with committed | ⟨off, _⟩ | unlisted | unlisted
    · exact committed.trans order
    · exact absurd net off
    · exact safe (.inr (Bool.eq_false_iff.mpr unlisted)) noAck net
    · exact safe (.inl (Bool.eq_false_iff.mpr unlisted)) noAck net
  · refine ⟨_, rfl, ⟨rfl, difficult, rfl, by simp [idle], single _, refs, .inl unreleased, ?_,
      setup.commit, fun off => ?_, fun _ _ _ => ?_⟩, rfl, rfl, unreleased⟩
    · rwa [idle] at stage ⊢
    · rcases off with unlisted | unlisted | waiting
      · exact safe (.inl unlisted)
      · exact safe (.inr unlisted)
      · cases waiting
    · exact not_not.mp fun unlisted => ready (.inr (.inr (.inr unlisted)))

end

section

variable (behind : Done obd rs)

include behind

theorem Done.free : lustreFreeReplyState rs = .ok rs := by
  unfold lustreFreeReplyState
  split_ifs with held failed
  · rfl
  · rcases behind.once with unreleased | ⟨_, clean⟩
    · have refs := behind.refs
      rw [if_pos unreleased] at refs
      omega
    · obtain ⟨scheduled, onNet, hasExport, expList, obdList, handled, locks⟩ := clean
      simp [*] at failed
  · rfl

theorem Done.handleSteal (here : rs.handle = .uncommitted) :
    Done obd { rs with handled := true, locks := [], dropping := rs.locks, handle := .dropping } := by
  obtain ⟨scheduled, list, unreleased, _, unlisted, off⟩ := behind.busy here nofun
  exact { behind with
    placed := ⟨fun _ => .inr nofun, fun _ => scheduled⟩
    single := fun _ => list
    once := .inl unreleased
    stage := ⟨unlisted, off, rfl, rfl⟩ }

section

variable (here : rs.handle = .dropping)

include here

theorem Done.decref (rest : List Nat) : Done obd { rs with dropping := rest } := by
  obtain ⟨_, _, unreleased, stage⟩ := behind.busy here nofun
  refine { behind with once := .inl unreleased, stage := ?_ }
  rwa [here]

theorem Done.handleEnd (empty : rs.dropping = []) :
    ∃ rs', ptlrpcHandleRsEnd rs = .ok rs' ∧ Done obd rs' ∧ rs'.locks = rs.locks ∧
      rs'.dropping = rs.dropping ∧ rs.released = 0 ∧ (rs'.released = if rs.onNet then 0 else 1) := by
  obtain ⟨scheduled, list, unreleased, unlisted, off, handled, locks⟩ := behind.busy here nofun
  unfold ptlrpcHandleRsEnd ptlrpcRsDecref
  by_cases onNet : rs.onNet = true
  · rw [if_pos onNet, if_pos onNet]
    refine ⟨_, rfl, { behind with
      placed := by simp [list]
      single := fun busy => absurd rfl busy
      once := .inl unreleased
      stage := empty
      safe := fun _ => behind.safe (.inr (.inr scheduled))
      waits := fun _ _ offNet => nomatch onNet.symm.trans offNet }, rfl, rfl, unreleased, unreleased⟩
  · rw [if_neg onNet, if_neg onNet]
    have next : Done obd { rs with
        scheduled := false, handle := .idle, hasExport := false, released := rs.released + 1
        refcount := rs.refcount - 1 } := { behind with
      placed := by simp [list]
      single := fun busy => absurd rfl busy
      refs := by simp [behind.refs, unreleased]
      once := .inr ⟨by simp [unreleased], rfl, Bool.eq_false_iff.mpr onNet, rfl, unlisted, off, handled, locks⟩
      stage := empty
      safe := fun _ => behind.safe (.inr (.inr scheduled))
      waits := fun _ released => absurd released (Nat.succ_ne_zero _) }
    exact ⟨_, next.free, next, rfl, rfl, unreleased, by simp [unreleased]⟩

end

end

end

/-- A sum over the replies when one of them changes. -/
theorem sum_map_set {α : Type} (f : α → Nat) {xs : List α} {n : Nat} {x : α} (found : xs[n]? = some x)
    (y : α) : ((xs.set n y).map f).sum + f x = (xs.map f).sum + f y := by
  induction xs generalizing n with
  | nil => cases found
  | cons head rest ih =>
    cases n with
    | zero =>
      cases found
      simp only [set_cons_zero, map_cons, sum_cons]
      omega
    | succ n => grind

/-- How often a reply has a lock. -/
def held (lock : Nat) (rs : ReplyState) : Nat := rs.locks.count lock + rs.dropping.count lock

/-- Whether a reply is counted in `srv_n_difficult_replies`. -/
def counted (rs : ReplyState) : Nat := if rs.send = .done ∧ rs.released = 0 then 1 else 0

theorem ReplyMove.keeps {exp obd : Nat} {rs rs' : ReplyState} (move : ReplyMove exp obd rs rs') :
    rs'.locks = rs.locks ∧ rs'.dropping = rs.dropping ∧ counted rs' = counted rs := by
  cases move with
  | replyOut | commitReply | complete =>
    grind [counted, replyOutCallback, rsBatchAdd, ptlrpcScheduleDifficultReply]
  | _ => simp [counted, *]

/-! ### The service -/

/-- Every reply is where it can be, and every saved lock is with one reply, was dropped once, or is one
of the `moving` ones. -/
structure ReplyInv (s : ReplyService) (moving : List Nat) : Prop where
  order : s.lastCommitted ≤ s.obdLastCommitted
  sound : ∀ rs ∈ s.replies, ReplySound s.obdLastCommitted rs
  savedOnce : s.saved.Nodup
  locks : ∀ lock, s.saved.count lock =
    s.dropped.count lock + (s.replies.map (held lock)).sum + moving.count lock
  difficult : s.nDifficultReplies = ((s.replies.map counted).sum : Nat)

/-- The invariant holds behind a step, or the reply has too many locks. -/
abbrev Kept : Except ReplyFault ReplyService → Prop := Outcome (ReplyInv · []) (· = .tooManyLocks)

section
variable {s : ReplyService} {n : Nat} {rs rs' : ReplyState} {moving : List Nat}

section

variable (inv : ReplyInv s moving) (found : s.replies[n]? = some rs)

include inv found

/-- A reply changes, with the locks and the counter as they have to. -/
theorem ReplyInv.change (sound : ReplySound s.obdLastCommitted rs') {dropped moving' : List Nat}
    {nDifficultReplies : Int}
    (locks : ∀ lock, dropped.count lock + held lock rs' + moving'.count lock = s.dropped.count lock + held lock rs + moving.count lock)
    (difficult : nDifficultReplies + counted rs = s.nDifficultReplies + counted rs') :
    ReplyInv { s.put n rs' with dropped := dropped, nDifficultReplies := nDifficultReplies } moving' :=
  { inv with
    sound := by
      intro other mem
      rcases mem_or_eq_of_mem_set mem with old | rfl
      · exact inv.sound other old
      · exact sound
    locks := by
      intro lock
      have before := inv.locks lock
      have change := sum_map_set (held lock) found rs'
      have balance := locks lock
      dsimp only [ReplyService.put]
      omega
    difficult := by
      have before := inv.difficult
      have change := sum_map_set counted found rs'
      dsimp only [ReplyService.put]
      omega }

theorem ReplyInv.get : ReplySound s.obdLastCommitted rs :=
  inv.sound rs (mem_of_getElem? found)

theorem ReplyInv.move (move : ReplyMove s.lastCommitted s.obdLastCommitted rs rs') :
    ReplyInv (s.put n rs') moving := by
  obtain ⟨locks, dropping, same⟩ := move.keeps
  exact inv.change found ((inv.get found).move move inv.order)
    (fun lock => by rw [held, held, locks, dropping]) (by rw [same])

/-- The moving locks are saved in a fresh reply. -/
theorem ReplyInv.saveLocks (fresh : rs.send = .fresh) (noAck : Bool) :
    Kept (s.saveLocks n moving noAck rs) := by
  unfold ReplyService.saveLocks
  split_ifs with none gone full many
  · subst none
    exact inv
  · rfl
  · refine ⟨inv.order, inv.sound, inv.savedOnce, fun lock => ?_, inv.difficult⟩
    have before := inv.locks lock
    dsimp only
    rw [count_append, count_nil]
    omega
  · rfl
  · refine inv.change found ((inv.get found).saveLocks fresh (rs.locks ++ moving) noAck)
      (fun lock => ?_) rfl
    rw [held, held, count_append, count_nil]
    dsimp only
    omega

end

theorem ReplyInv.saveLock (inv : ReplyInv s []) (found : s.replies[n]? = some rs)
    (fresh : rs.send = .fresh) {lock : Nat} (new : lock ∉ s.saved) (noAck : Bool) :
    Kept ({ s with saved := s.saved ++ [lock] }.saveLocks n [lock] noAck rs) := by
  grind [ReplyInv.saveLocks, ReplySound.saveLocks, cases ReplyInv, intro ReplyInv]

section

variable (inv : ReplyInv s []) (found : s.replies[n]? = some rs)

include inv found

theorem ReplyInv.steal (new : Nat) (listed : rs.expList = true) (safe : Safe s.obdLastCommitted rs) :
    Kept (s.stealAckLocks n new rs) := by
  unfold ReplyService.stealAckLocks
  cases other : s.replies[new]? with
  | none => exact inv
  | some resend =>
    dsimp only
    by_cases sent : resend.send ≠ .fresh
    · rw [if_pos sent]
      exact inv
    rw [if_neg sent]
    have fresh := not_not.mp sent
    -- a reply on the list of the export is being sent, so the two are not the same
    have differs : n ≠ new := by
      rintro rfl
      cases found.symm.trans other
      obtain ⟨_, _, _, _, unlisted, _⟩ := (inv.get found).sends fresh nofun
      cases unlisted.symm.trans listed
    have move : ReplyMove s.lastCommitted s.obdLastCommitted { rs with locks := [] }
        (ptlrpcScheduleDifficultReply { rs with expList := false, locks := [] }) := .complete listed safe
    obtain ⟨locks, dropping, same⟩ := move.keeps
    have taken : ReplyInv
        (s.put n (ptlrpcScheduleDifficultReply { rs with expList := false, locks := [] })) rs.locks := by
      refine inv.change found ((inv.get found).noLocks.move move inv.order) (fun lock => ?_)
        (by rw [same]; rfl)
      rw [held, held, locks, dropping, count_nil]
      dsimp only
      omega
    exact taken.saveLocks ((getElem?_set_ne differs).trans other) fresh false

theorem ReplyInv.decref (here : rs.handle = .dropping) : Kept (s.decref n rs) := by
  unfold ReplyService.decref
  cases locks : rs.dropping with
  | nil => exact inv
  | cons lock rest =>
    have behind := (inv.get found).done_of (.inr (.inr (by rw [here]; nofun)))
    refine inv.change found (.done (behind.decref here rest)) (fun other => ?_) rfl
    rw [held, held, locks, count_append, count_cons, count_cons, count_nil]
    dsimp only
    omega

theorem ReplyInv.sendEnd (here : rs.send = .sent ∨ rs.send = .failed) : Kept (s.sendEnd n rs) := by
  have unfinished : rs.send ≠ .done := by
    rcases here with stage | stage <;> simp [stage]
  have setup := (inv.get found).sending_of unfinished
  obtain ⟨rs', ended, behind, locks, dropping, unreleased⟩ := setup.sendEnd here inv.order
  unfold ReplyService.sendEnd ReplyService.update
  rw [ended]
  refine inv.change found (.done behind) (fun lock => by rw [held, held, locks, dropping]) ?_
  have before : counted rs = 0 := by simp [counted, unfinished]
  have after : counted rs' = 1 := by simp [counted, behind.send, unreleased]
  dsimp only
  omega

theorem ReplyInv.handleEnd (here : rs.handle = .dropping) (empty : rs.dropping = []) :
    Kept (s.handleEnd n rs) := by
  have before := (inv.get found).done_of (.inr (.inr (by rw [here]; nofun)))
  obtain ⟨rs', ended, behind, locks, dropping, unreleased, released⟩ := before.handleEnd here empty
  have held_same : ∀ lock, held lock rs' = held lock rs := fun lock => by
    rw [held, held, locks, dropping]
  have one : counted rs = 1 := by simp [counted, before.send, unreleased]
  unfold ReplyService.handleEnd ReplyService.update
  rw [ended]
  by_cases onNet : rs.onNet = true
  · rw [if_pos onNet] at released ⊢
    refine inv.change found (.done behind) (fun lock => by rw [held_same]) ?_
    have still : counted rs' = 1 := by simp [counted, behind.send, released]
    rw [one, still]
  · rw [if_neg onNet] at released ⊢
    refine inv.change found (.done behind) (fun lock => by rw [held_same]) ?_
    have none : counted rs' = 0 := by simp [counted, released]
    dsimp only
    omega

end

end

/-! ### Runs -/

/-- A reply without an acknowledgement is completed by the stealing of its locks or the disconnect only
when it is off the net or committed, and `ptlrpc_send_reply` does not fail behind the reference for the
net. -/
def Patient (s : ReplyService) : ReplyEvent → Prop
  | .sendMsg _ result => result ≠ .failed
  | .steal n _ => ∀ rs ∈ s.replies[n]?, rs.noAck = true → rs.onNet = true → rs.transno ≤ s.obdLastCommitted
  | .disconnectReply n =>
    ∀ rs ∈ s.replies[n]?, rs.noAck = true → rs.onNet = true → rs.transno ≤ s.obdLastCommitted
  | _ => True

instance (s : ReplyService) (event : ReplyEvent) : Decidable (Patient s event) := by
  cases event <;> unfold Patient <;> infer_instance

variable {s : ReplyService}

/-- A step on one reply. -/
theorem ReplyInv.onReply {n : Nat} (inv : ReplyInv s []) {ready : ReplyState → Bool}
    {next : ReplyState → Except ReplyFault ReplyService}
    (step : ∀ rs, s.replies[n]? = some rs → ready rs = true → Kept (next rs)) :
    Kept (s.onReply n ready next) := by
  unfold ReplyService.onReply
  cases found : s.replies[n]? with
  | none => exact inv
  | some rs =>
    dsimp only
    split_ifs with yes
    · exact step rs found yes
    · exact inv

/-- Every event with the condition keeps the invariant. -/
theorem ReplyInv.step (inv : ReplyInv s []) (event : ReplyEvent) (patient : Patient s event) :
    Kept (replyStep s event) := by
  cases event with
  | alloc transno =>
    refine ⟨inv.order, fun rs mem => ?_, inv.savedOnce, fun lock => ?_, ?_⟩
    · rcases mem_append.mp mem with before | last
      · exact inv.sound rs before
      · rw [mem_singleton.mp last]
        exact replySound_newReply _ _
    · have before := inv.locks lock
      simpa [held, newReply] using before
    · have before := inv.difficult
      simpa [counted, newReply] using before
  | saveLock n lock noAck =>
    rw [replyStep]
    split_ifs with known
    · exact inv
    · exact inv.onReply fun rs found here =>
        inv.saveLock found (of_decide_eq_true here) known noAck
  | sendStart n =>
    refine inv.onReply fun rs found here => ?_
    obtain ⟨fresh, hard⟩ := of_decide_eq_true here
    exact inv.move found (.sendStart fresh hard)
  | sendUncommitted n =>
    exact inv.onReply fun rs found here =>
      inv.move found (.sendUncommitted (of_decide_eq_true here))
  | sendOutstanding n =>
    exact inv.onReply fun rs found here =>
      inv.move found (.sendOutstanding (of_decide_eq_true here))
  | sendMsg n result =>
    refine inv.onReply fun rs found here => ?_
    cases result with
    | sent => exact inv.move found (.sent (of_decide_eq_true here))
    | refused => exact inv.move found (.refused (of_decide_eq_true here))
    | failed => exact absurd rfl patient
  | sendEnd n => exact inv.onReply fun rs found here => inv.sendEnd found (of_decide_eq_true here)
  | replyOut n => exact inv.onReply fun rs found here => inv.move found (.replyOut here)
  | commit | obdCommit =>
    refine ⟨?_, fun rs mem => (inv.sound rs mem).mono (le_max_left _ _), inv.savedOnce, inv.locks,
      inv.difficult⟩
    have order := inv.order
    dsimp only
    omega
  | commitReply n =>
    refine inv.onReply fun rs found here => ?_
    obtain ⟨listed, done⟩ := of_decide_eq_true here
    exact inv.move found (.commitReply listed (done.trans inv.order))
  | dispatch n =>
    exact inv.onReply fun rs found here => inv.move found (.dispatch (of_decide_eq_true here))
  | steal old new =>
    exact inv.onReply fun rs found here => inv.steal found new here (patient rs found)
  | disconnect => exact { inv with }
  | disconnectReply n =>
    refine inv.onReply fun rs found here => ?_
    exact inv.move found (.complete (of_decide_eq_true here).2 (patient rs found))
  | handle n =>
    refine inv.onReply fun rs found here => ?_
    have queued := of_decide_eq_true here
    rw [(inv.get found).handle queued]
    exact inv.move found (.handle queued)
  | handleUnlist n =>
    exact inv.onReply fun rs found here => inv.move found (.handleUnlist (of_decide_eq_true here))
  | handleUncommitted n =>
    exact inv.onReply fun rs found here =>
      inv.move found (.handleUncommitted (of_decide_eq_true here))
  | handleSteal n =>
    refine inv.onReply fun rs found here => ?_
    have stage := of_decide_eq_true here
    have behind := (inv.get found).done_of (.inr (.inr (by rw [stage]; nofun)))
    have none : rs.dropping = [] := (behind.busy stage nofun).2.2.2.1
    refine inv.change found (.done (behind.handleSteal stage)) (fun lock => ?_) rfl
    rw [held, held, none, count_nil]
    dsimp only
    omega
  | handleDecref n => exact inv.onReply fun rs found here => inv.decref found (of_decide_eq_true here)
  | handleEnd n =>
    refine inv.onReply fun rs found here => ?_
    obtain ⟨stage, empty⟩ := of_decide_eq_true here
    exact inv.handleEnd found stage empty
  | requestDone n =>
    refine inv.onReply fun rs found here => ?_
    obtain ⟨done, referenced⟩ := of_decide_eq_true here
    have freed := ((inv.get found).done_of (.inl done)).requestDone referenced
    rw [ptlrpcRsDecref, freed.free]
    exact inv.move found (.requestDone done referenced)

/-- A saved lock is in one place or was dropped once; a reply is released at most once and has no lock
then, and the others that were sent are counted; its references are that of the request and one from the
send until the release; the final event is still to come for a reply on the net; and none is forgotten:
off the net, not scheduled, not released and not waiting for its commit. -/
structure Settled (s : ReplyService) : Prop where
  locks : ∀ lock ∈ s.saved, s.dropped.count lock + (s.replies.map (held lock)).sum = 1
  released : ∀ rs ∈ s.replies, rs.released ≤ 1
  unlocked : ∀ rs ∈ s.replies, rs.released = 1 → rs.locks = [] ∧ rs.dropping = []
  difficult : s.nDifficultReplies = ((s.replies.map counted).sum : Nat)
  references : ∀ rs ∈ s.replies, rs.refcount = references rs
  event : ∀ rs ∈ s.replies, rs.send = .done → rs.onNet = true → rs.net = true
  remembered : ∀ rs ∈ s.replies, rs.send ≠ .fresh → rs.onNet = false → rs.scheduled = false →
    rs.released = 0 → rs.obdList = true

theorem ReplyInv.settled (inv : ReplyInv s []) : Settled s where
  locks := by
    intro lock mem
    have once := count_eq_one_of_mem inv.savedOnce mem
    have total := inv.locks lock
    exact total.symm.trans once
  released := fun rs mem => (inv.sound rs mem).once
  unlocked := fun rs mem released => (inv.sound rs mem).unlocked released
  difficult := inv.difficult
  references := fun rs mem => (inv.sound rs mem).references
  event := by
    intro rs mem done onNet
    exact ((inv.sound rs mem).done_of (.inl done)).wire.symm.trans onNet
  remembered := by
    intro rs mem sent offNet unscheduled unreleased
    by_cases done : rs.send = .done
    · exact ((inv.sound rs mem).done_of (.inl done)).waits unscheduled unreleased offNet
    · cases unscheduled.symm.trans (((inv.sound rs mem).sending_of done).stage.scheduled sent).1

/-- In every run in which no reply without an acknowledgement is completed early and no send fails
half-way, the replies are settled, and the assertions of `ptlrpc_handle_rs` and `lustre_free_reply_state` hold. -/
theorem replies_released_once (lastCommitted obdLastCommitted : Nat)
    (order : lastCommitted ≤ obdLastCommitted) (events : List ReplyEvent)
    (patient : Meets replyStep Patient (noReplies lastCommitted obdLastCommitted) events) :
    Outcome Settled (· = .tooManyLocks)
      (run replyStep (noReplies lastCommitted obdLastCommitted) events) := by
  have start : ReplyInv (noReplies lastCommitted obdLastCommitted) [] :=
    ⟨order, forall_mem_nil _, nodup_nil, fun _ => rfl, rfl⟩
  have kept : Kept (run replyStep (noReplies lastCommitted obdLastCommitted) events) :=
    outcome_run (fun _ event inv holds => ReplyInv.step inv event holds) start patient
  exact kept.mono fun _ inv => inv.settled

/-- The final event comes early for the first reply, and the second one is not sent. -/
theorem replies_released_once_early_event : Outcome Settled (· = .tooManyLocks)
      (run replyStep (noReplies 4 4)
        [.alloc 5, .saveLock 0 1 true, .sendStart 0, .sendUncommitted 0, .sendOutstanding 0,
          .sendMsg 0 .sent, .replyOut 0, .sendEnd 0, .alloc 6, .saveLock 1 2 false, .sendStart 1,
          .sendUncommitted 1, .sendOutstanding 1, .sendMsg 1 .refused, .sendEnd 1, .disconnect,
          .disconnectReply 0, .handle 0, .handleUnlist 0, .handleUncommitted 0, .handleSteal 0,
          .handleDecref 0, .handleEnd 0, .requestDone 0, .handle 1]) :=
  replies_released_once 4 4 (by decide) _ (by decide)

/-- A reply without an acknowledgement is on the net when its export is disconnected: `ptlrpc_handle_rs`
leaves the release to the final event, but `reply_out_callback` does not schedule a reply that is not
committed, so that it stays for ever.  A reply that could not be bound is released, but keeps the
reference for the net. -/
theorem reply_of_lost_export_is_forgotten :
    (∃ s, run replyStep (noReplies 4 4)
        [.alloc 5, .saveLock 0 1 true, .sendStart 0, .sendUncommitted 0, .sendOutstanding 0,
          .sendMsg 0 .sent, .sendEnd 0, .disconnect, .disconnectReply 0, .handle 0,
          .handleUnlist 0, .handleUncommitted 0, .handleSteal 0, .handleDecref 0, .handleEnd 0,
          .replyOut 0] = .ok s ∧
      ∃ rs ∈ s.replies, rs.send ≠ .fresh ∧ rs.onNet = false ∧ rs.scheduled = false ∧
        rs.released = 0 ∧ rs.obdList = false) ∧
    ∃ s, run replyStep (noReplies 4 4)
        [.alloc 5, .saveLock 0 1 false, .sendStart 0, .sendUncommitted 0, .sendOutstanding 0,
          .sendMsg 0 .failed, .sendEnd 0, .handle 0, .handleUnlist 0, .handleUncommitted 0,
          .handleSteal 0, .handleDecref 0, .handleEnd 0] = .ok s ∧
      ∃ rs ∈ s.replies, rs.released = 1 ∧ rs.reqRef = false ∧ rs.refcount = 1 :=
  ⟨⟨_, rfl, by decide⟩, _, rfl, by decide⟩

end Ptlrpc
