/-
Module: Lustre.Target.ReplayQueue
Purpose: The queue of replayed requests of a target in recovery: service threads cut at
  `obd_recovery_task_lock` and `exp_lock`, and the recovery thread in its first stage.
Trusted boundary: transaction numbers do not overflow; all clients are connected.
-/
import Lustre.Lib.Run

namespace Target

open Function

/-- A replayed request: its client and its transaction number. -/
structure Replay where
  client : Nat
  transno : Nat
deriving DecidableEq, Repr

/-- A service thread in `target_queue_recovery_request`, behind the check for old numbers; `listed`:
it is on `exp_req_replay_queue`. -/
structure Sending where
  replay : Replay
  listed : Bool
deriving DecidableEq, Repr

/-- Where the recovery thread is: before `check_for_next_transno`, woken by it, in
`abort_req_replay_queue` with the requests left there, before it takes a request, with one, behind the
increment of `obd_next_recovery_transno`, or behind the stage. -/
inductive RecoveryStage where
  | waiting
  | woken
  | aborting (left : List Replay)
  | ready
  | processing (replay : Replay)
  | advanced (replay : Replay)
  | finished
deriving DecidableEq, Repr

/-- `struct obd_device` in recovery with its exports: `exp_in_recovery`, `exp_req_replay_needed`,
`exp_req_replay_queue`; the threads; and for the statements the numbers taken from the queue. -/
structure ObdDevice where
  nextRecoveryTransno : Nat
  reqReplayQueue : List Replay
  requestsQueuedForRecovery : Int
  reqReplayClients : Int
  abortRecovery : Bool
  recoveryExpired : Bool
  inRecovery : Nat → Bool
  reqReplayNeeded : Nat → Bool
  expReplayQueue : Nat → List Nat
  sending : List Sending
  stage : RecoveryStage
  taken : List Nat

/-- The assertions of these functions. -/
inductive RecoveryFault where
  | transnoBelowNext
  | replayNotNeeded
  | clientsLeft
deriving DecidableEq, Repr

/-- The loop of `target_queue_recovery_request` that finds the place in the queue; none if the number is
there. -/
def insertReplay (req : Replay) : List Replay → Option (List Replay)
  | [] => some [req]
  | reqiter :: rest =>
    if reqiter.transno > req.transno then some (req :: reqiter :: rest)
    else if reqiter.transno = req.transno then none
    else (insertReplay req rest).map (reqiter :: ·)

/-- `target_exp_dequeue_req_replay`. -/
def targetExpDequeueReqReplay (obd : ObdDevice) (req : Replay) : ObdDevice :=
  { obd with
    expReplayQueue := update obd.expReplayQueue req.client
      ((obd.expReplayQueue req.client).erase req.transno) }

/-- The part of `target_queue_recovery_request` around `target_exp_enqueue_req_replay`. -/
def targetEnqueue (obd : ObdDevice) (n : Nat) (req : Replay) : Except RecoveryFault ObdDevice :=
  if ¬ obd.inRecovery req.client then .ok { obd with sending := obd.sending.eraseIdx n }
  else if ¬ obd.reqReplayNeeded req.client then .error .replayNotNeeded
  else if req.transno ∈ obd.expReplayQueue req.client then
    .ok { obd with sending := obd.sending.eraseIdx n }
  else
    .ok { obd with
      expReplayQueue := update obd.expReplayQueue req.client
        (obd.expReplayQueue req.client ++ [req.transno])
      sending := obd.sending.set n ⟨req, true⟩ }

/-- The last part of `target_queue_recovery_request`. -/
def targetInsert (obd : ObdDevice) (n : Nat) (req : Replay) : ObdDevice :=
  match insertReplay req obd.reqReplayQueue with
  | none => targetExpDequeueReqReplay { obd with sending := obd.sending.eraseIdx n } req
  | some queue =>
    { obd with
      reqReplayQueue := queue
      requestsQueuedForRecovery := obd.requestsQueuedForRecovery + 1
      sending := obd.sending.eraseIdx n }

/-- `lustre_msg_get_transno` of the first request in the queue, or 0. -/
def ObdDevice.reqTransno (obd : ObdDevice) : Nat :=
  match obd.reqReplayQueue with
  | [] => 0
  | req :: _ => req.transno

/-- `check_for_next_transno` as the recovery thread calls it. -/
def checkForNextTransno (obd : ObdDevice) : Except RecoveryFault ObdDevice :=
  if obd.abortRecovery ∨ obd.recoveryExpired ∨ obd.reqReplayClients = 0 ∨
      obd.reqTransno = obd.nextRecoveryTransno then
    .ok { obd with stage := .woken }
  else if obd.requestsQueuedForRecovery = obd.reqReplayClients then
    if ¬ obd.reqTransno ≥ obd.nextRecoveryTransno then .error .transnoBelowNext
    else .ok { obd with nextRecoveryTransno := obd.reqTransno, stage := .woken }
  else .ok obd

/-- The rest of `target_recovery_overseer` and the start of `abort_req_replay_queue`; evictions are
other events. -/
def targetRecoveryOverseer (obd : ObdDevice) : ObdDevice :=
  if obd.abortRecovery then
    { obd with reqReplayQueue := [], stage := .aborting obd.reqReplayQueue }
  else if obd.recoveryExpired then { obd with recoveryExpired := false, stage := .waiting }
  else { obd with stage := .ready }

/-- The last part of `target_next_replay_req`. -/
def targetNextReplayReq (obd : ObdDevice) : Except RecoveryFault ObdDevice :=
  match obd.reqReplayQueue with
  | [] => if obd.reqReplayClients ≠ 0 then .error .clientsLeft else .ok { obd with stage := .finished }
  | req :: rest =>
    .ok { obd with
      reqReplayQueue := rest
      requestsQueuedForRecovery := obd.requestsQueuedForRecovery - 1
      stage := .processing req
      taken := obd.taken ++ [req.transno] }

/-- A client has no more requests to replay, or is evicted. -/
def replayComplete (obd : ObdDevice) (client : Nat) : ObdDevice :=
  if obd.reqReplayNeeded client then
    { obd with
      reqReplayNeeded := update obd.reqReplayNeeded client false
      reqReplayClients := obd.reqReplayClients - 1 }
  else obd

/-- What happens in the first stage of recovery.  `check`, `enqueue` and `insert` are the parts of
`target_queue_recovery_request`, the last two for the `n`-th thread there; `replayDone` has
`MSG_REQ_REPLAY_DONE`; the last six are the parts of the loop of the recovery thread. -/
inductive ReplayQueueEvent where
  | check (req : Replay)
  | enqueue (n : Nat)
  | insert (n : Nat)
  | replayDone (client : Nat)
  | disconnect (client : Nat)
  | abort
  | expire
  | checkNext
  | oversee
  | release
  | take
  | advance
  | dequeue
deriving DecidableEq, Repr

/-- One event.  A request without a number, or with one below the next, is handled at once. -/
def replayQueueStep (obd : ObdDevice) : ReplayQueueEvent → Except RecoveryFault ObdDevice
  | .check req =>
    if req.transno = 0 ∨ req.transno < obd.nextRecoveryTransno then .ok obd
    else .ok { obd with sending := obd.sending ++ [⟨req, false⟩] }
  | .enqueue n =>
    match obd.sending[n]? with
    | some ⟨req, false⟩ => targetEnqueue obd n req
    | _ => .ok obd
  | .insert n =>
    match obd.sending[n]? with
    | some ⟨req, true⟩ => .ok (targetInsert obd n req)
    | _ => .ok obd
  | .replayDone client => .ok (replayComplete obd client)
  | .disconnect client =>
    .ok { replayComplete obd client with inRecovery := update obd.inRecovery client false }
  | .abort => .ok { obd with abortRecovery := true }
  | .expire => .ok { obd with recoveryExpired := true }
  | .checkNext =>
    match obd.stage with
    | .waiting => checkForNextTransno obd
    | _ => .ok obd
  | .oversee =>
    match obd.stage with
    | .woken => .ok (targetRecoveryOverseer obd)
    | _ => .ok obd
  | .release =>
    match obd.stage with
    | .aborting (req :: left) => .ok { targetExpDequeueReqReplay obd req with stage := .aborting left }
    | .aborting [] => .ok { obd with stage := .ready }
    | _ => .ok obd
  | .take =>
    match obd.stage with
    | .ready => targetNextReplayReq obd
    | _ => .ok obd
  | .advance =>
    match obd.stage with
    | .processing req =>
      .ok { obd with nextRecoveryTransno := obd.nextRecoveryTransno + 1, stage := .advanced req }
    | _ => .ok obd
  | .dequeue =>
    match obd.stage with
    | .advanced req => .ok { targetExpDequeueReqReplay obd req with stage := .waiting }
    | _ => .ok obd

/-- A target at the start of the stage; the number of replay clients is `obd_connected_clients`. -/
def startReplay (nextRecoveryTransno : Nat) (clients : List Nat) : ObdDevice :=
  { nextRecoveryTransno := nextRecoveryTransno
    reqReplayQueue := []
    requestsQueuedForRecovery := 0
    reqReplayClients := clients.length
    abortRecovery := false
    recoveryExpired := false
    inRecovery := fun client => client ∈ clients
    reqReplayNeeded := fun client => client ∈ clients
    expReplayQueue := fun _ => []
    sending := []
    stage := .waiting
    taken := [] }

open List Run

variable {req : Replay}

/-- A request is put into an increasing queue at its place. -/
theorem insertReplay_spec {queue queue' : List Replay}
    (sorted : queue.Pairwise (·.transno < ·.transno))
    (inserted : insertReplay req queue = some queue') :
    queue'.Pairwise (·.transno < ·.transno) ∧ queue'.length = queue.length + 1 ∧
      ∀ other, other ∈ queue' ↔ other = req ∨ other ∈ queue := by
  induction queue generalizing queue' with
  | nil =>
    cases inserted
    exact ⟨pairwise_singleton _ _, rfl, fun other => by simp⟩
  | cons reqiter rest ih =>
    grind [insertReplay, pairwise_cons, lt_trans, Option.map_eq_some_iff, length_cons]

/-! ### The condition -/

/-- Where a request is inserted, the recovery thread has not passed it since its check, neither with the
next number nor with one taken. -/
def InTime (obd : ObdDevice) : ReplayQueueEvent → Prop
  | .insert n => ∀ sending ∈ obd.sending[n]?,
      obd.nextRecoveryTransno ≤ sending.replay.transno ∧
        ∀ transno ∈ obd.taken, transno < sending.replay.transno
  | _ => True

instance (obd : ObdDevice) (event : ReplayQueueEvent) : Decidable (InTime obd event) := by
  cases event <;> unfold InTime <;> infer_instance

/-- The queue is strictly increasing and not behind the next number, and the numbers taken are
increasing and before it. -/
structure ReplayOrder (obd : ObdDevice) : Prop where
  sorted : obd.reqReplayQueue.Pairwise (·.transno < ·.transno)
  next : ∀ req ∈ obd.reqReplayQueue, obd.nextRecoveryTransno ≤ req.transno
  taken : obd.taken.Pairwise (· < ·)

/-- The invariant: the order, with what the recovery thread relies on. -/
structure Inv (obd : ObdDevice) : Prop extends ReplayOrder obd where
  before : ∀ transno ∈ obd.taken, ∀ req ∈ obd.reqReplayQueue, transno < req.transno
  processing : ∀ req, obd.stage = .processing req →
    obd.nextRecoveryTransno ≤ req.transno ∧ req.transno ∈ obd.taken
  counted : obd.abortRecovery = false →
    obd.requestsQueuedForRecovery = obd.reqReplayQueue.length

section
variable {obd obd' : ObdDevice}

section

variable (inv : Inv obd)

include inv

theorem Inv.enqueue (n : Nat) (req : Replay) :
    Outcome Inv (· ≠ .transnoBelowNext) (targetEnqueue obd n req) := by
  unfold targetEnqueue
  split_ifs
  · exact { inv with }
  · exact { inv with }
  · exact nofun
  · exact { inv with }

theorem Inv.insert (n : Nat) (next : obd.nextRecoveryTransno ≤ req.transno)
    (above : ∀ transno ∈ obd.taken, transno < req.transno) : Inv (targetInsert obd n req) := by
  unfold targetInsert
  cases inserted : insertReplay req obd.reqReplayQueue with
  | none => exact { inv with }
  | some queue =>
    obtain ⟨sorted, length, members⟩ := insertReplay_spec inv.sorted inserted
    refine ⟨⟨sorted, fun other mem => ?_, inv.taken⟩, fun transno old other mem => ?_,
      inv.processing, fun no => ?_⟩
    · rcases (members other).mp mem with rfl | before
      · exact next
      · exact inv.next other before
    · grind [cases Inv]
    · have counted := inv.counted no
      rw [counted, length]
      rfl

theorem Inv.replayComplete (client : Nat) : Inv (replayComplete obd client) := by
  unfold Target.replayComplete
  split_ifs
  · exact { inv with }
  · exact inv

theorem Inv.checkNext : Outcome Inv (· ≠ .transnoBelowNext) (checkForNextTransno obd) := by
  unfold checkForNextTransno
  split_ifs with wake gap above
  · exact { inv with processing := nofun }
  · refine ⟨⟨inv.sorted, fun other mem => ?_, inv.taken⟩, inv.before, nofun, inv.counted⟩
    unfold ObdDevice.reqTransno
    cases queue : obd.reqReplayQueue with
    | nil =>
      rw [queue] at mem
      cases mem
    | cons req rest =>
      have sorted := inv.sorted
      rw [queue] at mem sorted
      rcases mem_cons.mp mem with rfl | behind
      · exact le_rfl
      · exact le_of_lt ((pairwise_cons.mp sorted).1 other behind)
  · -- every replaying client has a request in the queue, so there is a first one
    exfalso
    simp only [not_or, Bool.not_eq_true] at wake
    obtain ⟨running, _, clients, _⟩ := wake
    have counted := inv.counted running
    unfold ObdDevice.reqTransno at above
    cases queue : obd.reqReplayQueue with
    | nil =>
      rw [queue] at counted
      exact clients (gap ▸ counted)
    | cons req rest =>
      rw [queue] at above
      exact above (inv.next req (by rw [queue]; exact mem_cons_self))
  · exact inv

theorem Inv.oversee : Inv (targetRecoveryOverseer obd) := by
  unfold targetRecoveryOverseer
  split_ifs with abort
  · refine ⟨⟨.nil, nofun, inv.taken⟩, ?_, nofun, fun no => ?_⟩
    · intro transno _ req mem
      cases mem
    · cases abort.symm.trans no
  · exact { inv with processing := nofun }
  · exact { inv with processing := nofun }

theorem Inv.take : Outcome Inv (· ≠ .transnoBelowNext) (targetNextReplayReq obd) := by
  unfold targetNextReplayReq
  cases queue : obd.reqReplayQueue with
  | nil =>
    split_ifs
    · exact nofun
    · have finished : Inv { obd with stage := .finished } := { inv with processing := nofun }
      rwa [queue] at finished
  | cons req rest =>
    have sorted := inv.sorted
    have next := inv.next
    have before := inv.before
    rw [queue] at sorted next before
    obtain ⟨least, sortedRest⟩ := pairwise_cons.mp sorted
    refine ⟨⟨sortedRest, fun other mem => next other (mem_cons_of_mem _ mem), ?_⟩, ?_, ?_, ?_⟩
    · refine pairwise_append.mpr ⟨inv.taken, pairwise_singleton _ _, fun transno old _ new => ?_⟩
      rw [mem_singleton] at new
      subst new
      exact before transno old req mem_cons_self
    · grind
    · grind
    · grind [cases Inv]

theorem Inv.advance (here : obd.stage = .processing req) :
    Inv { obd with nextRecoveryTransno := obd.nextRecoveryTransno + 1, stage := .advanced req } := by
  obtain ⟨next, mem⟩ := inv.processing req here
  refine ⟨⟨inv.sorted, fun other within => ?_, inv.taken⟩, inv.before, nofun, inv.counted⟩
  have above := inv.before req.transno mem other within
  dsimp only
  omega

end

end

/-- Every event in time keeps the invariant, and passes the assertion of `check_for_next_transno`. -/
theorem Inv.step {obd : ObdDevice} (inv : Inv obd) (event : ReplayQueueEvent)
    (inTime : InTime obd event) :
    Outcome Inv (· ≠ .transnoBelowNext) (replayQueueStep obd event) := by
  cases event with
  | check req =>
    rw [replayQueueStep]
    split_ifs
    · exact inv
    · exact { inv with }
  | enqueue n =>
    rw [replayQueueStep]
    split
    · exact inv.enqueue n _
    · exact inv
  | insert n =>
    rw [replayQueueStep]
    split
    · next req here =>
        obtain ⟨next, above⟩ := inTime _ here
        exact inv.insert n next above
    · exact inv
  | replayDone client => exact inv.replayComplete client
  | disconnect client => exact { inv.replayComplete client with }
  | abort => exact { inv with counted := nofun }
  | expire => exact { inv with }
  | checkNext =>
    rw [replayQueueStep]
    split
    · exact inv.checkNext
    · exact inv
  | oversee =>
    rw [replayQueueStep]
    split
    · exact inv.oversee
    · exact inv
  | release =>
    rw [replayQueueStep]
    split
    · exact { inv with processing := nofun }
    · exact { inv with processing := nofun }
    · exact inv
  | take =>
    rw [replayQueueStep]
    split
    · exact inv.take
    · exact inv
  | advance =>
    rw [replayQueueStep]
    split
    · next req here => exact inv.advance here
    · exact inv
  | dequeue =>
    rw [replayQueueStep]
    split
    · exact { inv with processing := nofun }
    · exact inv

/-- In every run in which requests are inserted in time, the queue is strictly increasing and not behind
the next number, the numbers are taken in increasing order, and `check_for_next_transno` does not assert. -/
theorem replay_queue_order (nextRecoveryTransno : Nat) (clients : List Nat)
    (events : List ReplayQueueEvent)
    (inTime : Meets replayQueueStep InTime (startReplay nextRecoveryTransno clients) events) :
    Outcome ReplayOrder (· ≠ .transnoBelowNext)
      (run replayQueueStep (startReplay nextRecoveryTransno clients) events) := by
  have start : Inv (startReplay nextRecoveryTransno clients) :=
    ⟨⟨.nil, nofun, .nil⟩, nofun, nofun, fun _ => rfl⟩
  exact (outcome_run (fun obd event inv holds => Inv.step inv event holds) start inTime).mono
    (fun _ inv => inv.toReplayOrder) fun _ => id

/-- Two clients replay one request each, the second one behind a gap. -/
theorem replay_queue_order_gap : Outcome ReplayOrder (· ≠ .transnoBelowNext)
    (run replayQueueStep (startReplay 5 [1, 2]) [.check ⟨2, 9⟩, .enqueue 0, .check ⟨1, 5⟩, .enqueue 1,
      .insert 1, .insert 0, .checkNext, .oversee, .take, .advance, .dequeue, .replayDone 1, .checkNext,
      .oversee, .take]) :=
  replay_queue_order 5 [1, 2] _ (by decide)

/-- A client sends its request again.  The copy is checked while the recovery thread handles the first
one, and looked up in the list of the export when that has left it: the number is inserted again, behind
the next one, and the assertion fails. -/
theorem resent_replay_is_queued_again :
    (∃ obd, run replayQueueStep (startReplay 5 [1]) [.check ⟨1, 5⟩, .enqueue 0, .insert 0, .checkNext,
      .oversee, .take, .check ⟨1, 5⟩, .advance, .dequeue, .enqueue 0, .insert 0] = .ok obd ∧
      obd.reqReplayQueue = [⟨1, 5⟩] ∧ obd.nextRecoveryTransno = 6 ∧ obd.taken = [5]) ∧
    failure (run replayQueueStep (startReplay 5 [1]) [.check ⟨1, 5⟩, .enqueue 0, .insert 0,
      .checkNext, .oversee, .take, .check ⟨1, 5⟩, .advance, .dequeue, .enqueue 0, .insert 0, .checkNext]) =
      some .transnoBelowNext :=
  ⟨⟨_, rfl, rfl, rfl, rfl⟩, rfl⟩

/-- In every run, also with requests that come too late, the queue is strictly increasing, and until an
abort `obd_requests_queued_for_recovery` is its length. -/
theorem replay_queue_counted (nextRecoveryTransno : Nat) (clients : List Nat)
    (events : List ReplayQueueEvent) :
    Outcome (fun obd => obd.reqReplayQueue.Pairwise (·.transno < ·.transno) ∧
        (obd.abortRecovery = false → obd.requestsQueuedForRecovery = obd.reqReplayQueue.length))
      (fun _ => True) (run replayQueueStep (startReplay nextRecoveryTransno clients) events) := by
  refine outcome_run (fun obd event inv _ => ?_) ⟨.nil, fun _ => rfl⟩
    (meets_of_forall _ fun _ _ => trivial)
  obtain ⟨sorted, counted⟩ := inv
  cases event with
  | insert n =>
    rw [replayQueueStep]
    split
    · rw [targetInsert]
      split
      · exact ⟨sorted, counted⟩
      · next inserted =>
        obtain ⟨sorted', length, _⟩ := insertReplay_spec sorted inserted
        refine ⟨sorted', fun goes => ?_⟩
        rw [counted goes, length, Int.natCast_succ]
    · exact ⟨sorted, counted⟩
  | _ =>
    -- `take` removes the first request with its count, an aborted recovery empties the queue
    simp only [replayQueueStep, targetEnqueue, checkForNextTransno, targetRecoveryOverseer,
      targetNextReplayReq, replayComplete]
    grind [Outcome, targetExpDequeueReqReplay]

end Target
