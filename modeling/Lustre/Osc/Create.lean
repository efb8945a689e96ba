/-
Module: Lustre.Osc.Create
Purpose: Preallocation of objects: the creator of the metadata server, the requests on the wire and
  the object server.  One label is one section under `oscc_lock`, one message or one event.
Trusted boundary: the server executes `filter_handle_precreate` in one step; a request is sent once
  (`rq_no_resend`); a reconnect keeps the export and raises its count; identifiers are far from
  the end of 64 bits
-/
import Lustre.Lib.Run
import Lustre.Obdfilter.Precreate

namespace Osc

open Bytes Obdfilter

/-- `OST_MIN_PRECREATE`. -/
def ostMinPrecreate : Nat := 32

/-- `-EINTR`. -/
def eintr : Int := -4

/-- `-EIO`. -/
def eio : Int := -5

/-- `-EFBIG`. -/
def efbig : Int := -27

/-- `-EROFS`. -/
def erofs : Int := -30

/-- `-EPROTO`. -/
def eproto : Int := -71

/-! ### The creator -/

/-- `oscc_flags` but for `OSCC_FLAG_CREATING` and `OSCC_FLAG_SYNC_IN_PROGRESS`, set while `Oscc.create`
or `Oscc.sync` is not idle. -/
structure OsccFlags where
  recovering : Bool
  nospc : Bool
  low : Bool
  exiting : Bool
  degraded : Bool
  rdonly : Bool
deriving DecidableEq, Repr

/-- A reply: status and `o_id`.  `executed` and `cleanups` are not in it: whether the server ran the
request, and its orphan cleanups by then. -/
structure Answer where
  rc : Int
  body : Option Nat
  executed : Bool
  cleanups : Nat
deriving DecidableEq, Repr

/-- The precreate request of `oscc_internal_create`: none, one without a body, one with its `o_id`,
or one that was sent, with the reply if it is there.  `space` is `rq_async_args.space[0]`. -/
inductive CreateState where
  | idle
  | filling
  | filled (oId space : Nat)
  | sent (xid space : Nat) (answer : Option Answer)
deriving DecidableEq, Repr

/-- The thread of `osc_create` that removes orphans: none, one before its request, or one that waits,
with connection and `o_id` of the request and the reply if it is there. -/
inductive SyncState where
  | idle
  | started
  | sent (xid connCnt oId : Nat) (answer : Option Answer)
deriving DecidableEq, Repr

/-- `struct osc_creator`. -/
structure Oscc where
  nextId : Nat
  lastId : Nat
  growCount : Nat
  maxGrowCount : Nat
  flags : OsccFlags
  create : CreateState
  sync : SyncState
deriving DecidableEq, Repr

/-- `oscc_has_objects_nolock`. -/
def osccHasObjectsNolock (oscc : Oscc) (count : Nat) : Bool :=
  (oscc.lastId : Int) - oscc.nextId ≥ count

/-- The first test of `oscc_internal_create`: ask for more objects from now on. -/
def growMore (oscc : Oscc) : Oscc :=
  if oscc.growCount < oscc.maxGrowCount ∧ ¬ oscc.flags.low ∧
      (oscc.lastId : Int) - oscc.nextId ≤ oscc.growCount / 4 + 1 then
    { oscc with growCount := oscc.growCount * 2, flags := { oscc.flags with low := true } }
  else oscc

/-- `oscc_internal_create` up to where it drops the lock and allocates the request. -/
def osccInternalCreate (oscc : Oscc) : Oscc :=
  if oscc.flags.recovering then oscc
  else
    let grown := growMore oscc
    if grown.create ≠ .idle then grown
    else { grown with growCount := min grown.growCount (grown.maxGrowCount / 2), create := .filling }

/-- What a consumer gets: an object, an error, or nothing yet. -/
inductive Handout where
  | id (id : Nat)
  | wake (rc : Int)
  | wait
deriving DecidableEq, Repr

/-- The next object is handed out. -/
def takeNext (oscc : Oscc) : Handout × Oscc :=
  if osccHasObjectsNolock oscc 1 then (.id oscc.nextId, { oscc with nextId := oscc.nextId + 1 })
  else (.wait, oscc)

/-- `handle_async_create`; `wait` is `-EAGAIN`. -/
def handleAsyncCreate (oscc : Oscc) (rc : Int) : Handout × Oscc :=
  if rc ≠ 0 then (.wake rc, oscc)
  else if oscc.flags.exiting then (.wake eio, oscc)
  else if oscc.flags.nospc then (.wake enospc, oscc)
  else if oscc.flags.rdonly then (.wake erofs, oscc)
  else if oscc.flags.recovering ∨ oscc.flags.degraded then (.wait, oscc)
  else takeNext oscc

/-- A round of the loop of `osc_create` behind `oscc_precreate`, which returned `rc`; `wait` is another
round. -/
def oscCreateTry (oscc : Oscc) (impInvalid : Bool) (rc : Int) : Handout × Oscc :=
  if impInvalid ∨ oscc.flags.recovering then (.wake eio, oscc)
  else if oscc.flags.nospc then (.wake enospc, oscc)
  else if oscc.flags.rdonly then (.wake erofs, oscc)
  else if oscc.flags.exiting then (.wake rc, oscc)
  else takeNext oscc

/-- `oscc_wait_for_objects`. -/
def osccWaitForObjects (oscc : Oscc) (impInvalid : Bool) (count : Nat) : Oscc :=
  let unusable := impInvalid || oscc.flags.nospc || oscc.flags.rdonly || oscc.flags.exiting
  if ¬ unusable ∧ ¬ osccHasObjectsNolock oscc count then osccInternalCreate oscc else oscc

/-- `osc_precreate` on an import that is active. -/
def oscPrecreate (oscc : Oscc) : Oscc :=
  if oscc.flags.nospc ∨ oscc.flags.rdonly ∨ oscc.flags.exiting then oscc
  else if oscc.flags.recovering ∨ oscc.flags.degraded then oscc
  else if osccHasObjectsNolock oscc (oscc.growCount / 2) then oscc
  else if oscc.sync ≠ .idle then oscc
  else osccInternalCreate oscc

/-- `case 0` of `osc_interpret_create`. -/
def interpretCreated (oscc : Oscc) (oId space : Nat) : Oscc :=
  let diff := int32 ((oId : Int) - oscc.lastId)
  if diff < int32 space then
    { oscc with
      lastId := oId
      growCount := (max diff ostMinPrecreate).toNat
      flags := { oscc.flags with low := true } }
  else { oscc with lastId := oId, flags := { oscc.flags with low := false } }

/-- `case -ENOSPC`. -/
def interpretNoSpace (oscc : Oscc) (body : Option Nat) : Oscc :=
  let full := { oscc with flags := { oscc.flags with nospc := true } }
  match body with
  | some oId => { full with lastId := oId, growCount := ostMinPrecreate }
  | none => full

/-- `case -EIO`. -/
def interpretIo (oscc : Oscc) (body : Option Nat) : Oscc :=
  match body with
  | some oId => if oId > oscc.lastId then { oscc with lastId := oId } else oscc
  | none => oscc

/-- The first section of `osc_interpret_create`; the second wakes the consumers and calls
`oscc_internal_create`. -/
def oscInterpretCreate (oscc : Oscc) (rc : Int) (body : Option Nat) (space : Nat) : Oscc :=
  let oscc := { oscc with create := .idle }
  let rc := if rc = 0 ∧ body = none then eproto else rc
  if rc = 0 then
    match body with
    | some oId => interpretCreated oscc oId space
    | none => oscc
  else if rc = erofs then { oscc with flags := { oscc.flags with rdonly := true } }
  else if rc = enospc then interpretNoSpace oscc body
  else if rc = efbig then { oscc with flags := { oscc.flags with nospc := true } }
  else if rc = eio then interpretIo oscc body
  else if rc = eintr ∨ rc = eagain then { oscc with flags := { oscc.flags with recovering := true } }
  else
    { oscc with growCount := ostMinPrecreate, flags := { oscc.flags with recovering := true } }

/-- `osc_create` with `OBD_FL_DELORPHAN`, up to the request. -/
def delorphanStart (oscc : Oscc) : Oscc :=
  if oscc.sync ≠ .idle then oscc
  else if ¬ oscc.flags.recovering then oscc
  else { oscc with sync := .started, flags := { oscc.flags with low := true } }

/-- The section of `osc_create` behind the request, which left `oId` in `oa`; `none` is a failure of
`LASSERT(oscc_next_id == oa->o_id + 1)`. -/
def delorphanEnd (skipOrphan : Bool) (oscc : Oscc) (rc : Int) (oId : Nat) : Option Oscc :=
  let oscc := { oscc with sync := .idle }
  if rc = 0 ∨ rc = enospc then
    let nextId := if skipOrphan then oId + 1 else oscc.nextId
    if nextId = oId + 1 then
      some { oscc with
        nextId := nextId
        lastId := oId
        flags := { oscc.flags with
          recovering := false
          nospc := oscc.flags.nospc || rc = enospc } }
    else none
  else some oscc

/-! ### The two servers and the wire -/

/-- The group of objects, `OBD_CONNECT_SKIP_ORPHAN`, and where in memory the creator is. -/
structure Config where
  group : Nat
  skipOrphan : Bool
  address : Nat
deriving DecidableEq, Repr

/-- `imp_state` as far as it matters. -/
inductive ImpState where
  | full
  | discon
  | connecting
deriving DecidableEq, Repr

/-- A request on the way. -/
structure Sent where
  xid : Nat
  req : CreateReq
deriving DecidableEq, Repr

/-- The creator with its import, the requests not executed, the object server with `exp_conn_cnt`, its
orphan cleanups, and what was handed out, and whether it existed. -/
structure System where
  oscc : Oscc
  impState : ImpState
  impConnCnt : Nat
  nextXid : Nat
  wire : List Sent
  filter : FilterObd
  expConnCnt : Nat
  cleanups : Nat
  handed : List (Nat × Bool)

/-- What happens. -/
inductive Label where
  /-- `handle_async_create` -/
  | asyncCreate (rc : Int)
  /-- the loop of `osc_create` -/
  | syncCreate (impInvalid : Bool) (rc : Int)
  /-- `oscc_wait_for_objects` -/
  | waitForObjects (impInvalid : Bool)
  /-- `osc_precreate` -/
  | precreate
  /-- `oscc_internal_create` from `osc_interpret_create` -/
  | internalCreate
  /-- the allocation of the request fails -/
  | allocFails
  /-- the second section of `oscc_internal_create` under the lock -/
  | fillCreate
  /-- the rest of `oscc_internal_create` -/
  | sendCreate
  /-- `osc_interpret_create` with a reply -/
  | createAnswered
  /-- `osc_interpret_create` without a reply -/
  | createFails (rc : Int)
  /-- `osc_create` with `OBD_FL_DELORPHAN` -/
  | delorphan
  /-- `osc_real_create` fails before it sends the request -/
  | delorphanUnsent (rc : Int)
  /-- `osc_real_create` sends the request -/
  | sendDelorphan
  /-- the rest of `osc_create` with a reply -/
  | delorphanAnswered
  /-- the rest of `osc_create` without a reply, after the connection was lost -/
  | delorphanFails (rc : Int)
  /-- the server executes a request -/
  | execute (xid : Nat) (io : FilterIo)
  /-- the server answers a request with an error and does not execute it -/
  | refuse (xid : Nat) (rc : Int)
  /-- a request is lost -/
  | lose (xid : Nat)
  /-- `IMP_EVENT_DISCON` -/
  | disconnect
  /-- a connect request is sent -/
  | connect
  /-- the server handles a connect request -/
  | ostConnect (connCnt : Nat)
  /-- the connect reply arrives -/
  | connected
  /-- what a statfs reply does to the flags -/
  | statfs (nospc rdonly degraded : Bool)
  /-- a client writes to an object that was handed out, or destroys it -/
  | clientObject (id : Nat) (size : Option Nat)

/-- What stops a run. -/
inductive Fault where
  /-- `LASSERT(oscc_next_id == oa->o_id + 1)` -/
  | nextId
  /-- an assertion of the object server -/
  | ost (fault : FilterFault)
  /-- the label is not possible here -/
  | disabled
deriving DecidableEq, Repr

/-- The consumer's object is noted. -/
def System.hand (s : System) (got : Handout × Oscc) : System :=
  match got with
  | (.id id, oscc) => { s with oscc := oscc, handed := (id, (s.filter.objects id).isSome) :: s.handed }
  | (.wake _, oscc) => { s with oscc := oscc }
  | (.wait, oscc) => { s with oscc := oscc }

/-- The reply reaches a precreate request that waits for it. -/
def CreateState.receive (state : CreateState) (xid : Nat) (answer : Answer) : CreateState :=
  match state with
  | .sent x space none => if x = xid then .sent x space (some answer) else state
  | state => state

/-- The reply reaches an orphan request that waits for it. -/
def SyncState.receive (state : SyncState) (xid : Nat) (answer : Answer) : SyncState :=
  match state with
  | .sent x connCnt oId none => if x = xid then .sent x connCnt oId (some answer) else state
  | state => state

/-- The reply of a request reaches the creator. -/
def Oscc.receive (oscc : Oscc) (sent : Sent) (answer : Answer) : Oscc :=
  if sent.req.delorphan then { oscc with sync := oscc.sync.receive sent.xid answer }
  else { oscc with create := oscc.create.receive sent.xid answer }

/-- No other request sets `fo_destroys_in_progress` while this one is executed. -/
def atomicIo (io : FilterIo) : FilterIo :=
  { io with round := fun i => { io.round i with destroyAsked := false } }

/-- The request comes from an older connection. -/
def stale (s : System) (sent : Sent) : Bool := sent.req.connCnt < s.expConnCnt

/-- The group when the lock is taken: an orphan request that is not dropped has set
`fo_destroys_in_progress`. -/
def lockedFilter (s : System) (sent : Sent) : FilterObd :=
  if sent.req.delorphan ∧ ¬ stale s sent then { s.filter with destroysInProgress := true } else s.filter

/-- The server executes a request and answers it. -/
def executeSent (cfg : Config) (s : System) (sent : Sent) (io : FilterIo) : Except Fault System :=
  match filterHandlePrecreate ⟨s.expConnCnt, cfg.skipOrphan⟩ sent.req s.filter.lastId (atomicIo io)
      (lockedFilter s sent) with
  | .error fault => .error (.ost fault)
  | .ok out =>
    let cleanups := if sent.req.delorphan ∧ ¬ stale s sent then s.cleanups + 1 else s.cleanups
    .ok { s with
      wire := s.wire.filter (·.xid ≠ sent.xid)
      filter := out.filter
      cleanups := cleanups
      oscc := s.oscc.receive sent ⟨out.rc, some out.oId, ¬ stale s sent, cleanups⟩ }

/-- `o_id` of a precreate request. -/
def createOId (cfg : Config) (oscc : Oscc) : Nat :=
  if fidSeqIsMdt cfg.group then oscc.lastId + oscc.growCount else 0

/-- The rest of `oscc_internal_create`; without a connection the request fails at once.
`rq_async_args` is a union: `pointer_arg[0]` takes the place of the grow count. -/
def sendCreate (cfg : Config) (s : System) (oId : Nat) : System :=
  let req : CreateReq := ⟨false, oId, cfg.group, s.impConnCnt⟩
  { s with
    oscc := { s.oscc with create := .sent s.nextXid cfg.address none }
    nextXid := s.nextXid + 1
    wire := if s.impState = .full then ⟨s.nextXid, req⟩ :: s.wire else s.wire }

/-- The orphan request is sent. -/
def sendDelorphan (cfg : Config) (s : System) : System :=
  let oId := s.oscc.nextId - 1
  { s with
    oscc := { s.oscc with sync := .sent s.nextXid s.impConnCnt oId none }
    nextXid := s.nextXid + 1
    wire := ⟨s.nextXid, true, oId, cfg.group, s.impConnCnt⟩ :: s.wire }

/-- The end of the orphan request with what `osc_real_create` returned. -/
def System.endDelorphan (cfg : Config) (s : System) (rc : Int) (oId : Nat) : Except Fault System :=
  match delorphanEnd cfg.skipOrphan s.oscc rc oId with
  | some oscc => .ok { s with oscc := oscc }
  | none => .error .nextId

/-- What `osc_real_create` returns, and `oa->o_id` behind it: the body is used if there was no
error. -/
def realCreate (answer : Answer) (oId : Nat) : Int × Nat :=
  if answer.rc ≠ 0 then (answer.rc, oId)
  else
    match answer.body with
    | some id => (0, id)
    | none => (eproto, oId)

/-- An error that is made up without executing a request. -/
def plainError (rc : Int) : Prop := rc ≠ 0 ∧ rc ≠ enospc

instance (rc : Int) : Decidable (plainError rc) := inferInstanceAs (Decidable (_ ∧ _))

/-- A request of the wire. -/
def findSent (s : System) (xid : Nat) : Option Sent := s.wire.find? (·.xid = xid)

/-- The steps of the object server and of the wire. -/
def serverStep (cfg : Config) (s : System) (sent : Sent) : Label → Except Fault System
  | .execute _ io => executeSent cfg s sent io
  | .refuse _ rc =>
    if plainError rc then
      .ok { s with
        wire := s.wire.filter (·.xid ≠ sent.xid)
        oscc := s.oscc.receive sent ⟨rc, none, false, s.cleanups⟩ }
    else .error .disabled
  | .lose _ => .ok { s with wire := s.wire.filter (·.xid ≠ sent.xid) }
  | _ => .error .disabled

/-- The steps of the precreate request at the creator. -/
def createStep (cfg : Config) (s : System) : Label → Except Fault System
  | .allocFails =>
    if s.oscc.create = .filling then .ok { s with oscc := { s.oscc with create := .idle } }
    else .error .disabled
  | .fillCreate =>
    if s.oscc.create = .filling then
      .ok { s with
        oscc := { s.oscc with create := .filled (createOId cfg s.oscc) s.oscc.growCount } }
    else .error .disabled
  | .sendCreate =>
    match s.oscc.create with
    | .filled oId _ => .ok (sendCreate cfg s oId)
    | _ => .error .disabled
  | .createAnswered =>
    match s.oscc.create with
    | .sent _ space (some answer) =>
      .ok { s with oscc := oscInterpretCreate s.oscc answer.rc answer.body space }
    | _ => .error .disabled
  | .createFails rc =>
    match s.oscc.create with
    | .sent _ space none =>
      if rc = 0 then .error .disabled
      else .ok { s with oscc := oscInterpretCreate s.oscc rc none space }
    | _ => .error .disabled
  | _ => .error .disabled

/-- The steps of the orphan request at the creator. -/
def syncStep (cfg : Config) (s : System) : Label → Except Fault System
  | .delorphan => .ok { s with oscc := delorphanStart s.oscc }
  | .delorphanUnsent rc =>
    if s.oscc.sync = .started ∧ plainError rc then s.endDelorphan cfg rc (s.oscc.nextId - 1)
    else .error .disabled
  | .sendDelorphan =>
    if s.oscc.sync = .started ∧ s.impState = .full then .ok (sendDelorphan cfg s)
    else .error .disabled
  | .delorphanAnswered =>
    match s.oscc.sync with
    | .sent _ _ oId (some answer) =>
      let (rc, oId) := realCreate answer oId
      s.endDelorphan cfg rc oId
    | _ => .error .disabled
  | .delorphanFails rc =>
    match s.oscc.sync with
    | .sent _ connCnt oId none =>
      if plainError rc ∧ ¬ (s.impState = .full ∧ s.impConnCnt = connCnt) then
        s.endDelorphan cfg rc oId
      else .error .disabled
    | _ => .error .disabled
  | _ => .error .disabled

/-- The steps of the connection. -/
def connectStep (s : System) : Label → Except Fault System
  | .disconnect =>
    if s.impState = .full then
      .ok { s with
        impState := .discon
        oscc := { s.oscc with flags := { s.oscc.flags with recovering := true } } }
    else .error .disabled
  | .connect =>
    if s.impState = .full then .error .disabled
    else .ok { s with impState := .connecting, impConnCnt := s.impConnCnt + 1 }
  | .ostConnect connCnt =>
    if s.expConnCnt ≤ connCnt ∧ connCnt ≤ s.impConnCnt then .ok { s with expConnCnt := connCnt }
    else .error .disabled
  | .connected =>
    if s.impState = .connecting ∧ s.expConnCnt = s.impConnCnt then .ok { s with impState := .full }
    else .error .disabled
  | _ => .error .disabled

/-- A step of the system. -/
def step (cfg : Config) (s : System) (label : Label) : Except Fault System :=
  match label with
  | .asyncCreate rc => .ok (s.hand (handleAsyncCreate s.oscc rc))
  | .syncCreate impInvalid rc => .ok (s.hand (oscCreateTry s.oscc impInvalid rc))
  | .waitForObjects impInvalid => .ok { s with oscc := osccWaitForObjects s.oscc impInvalid 1 }
  | .precreate => .ok { s with oscc := oscPrecreate s.oscc }
  | .internalCreate => .ok { s with oscc := osccInternalCreate s.oscc }
  | .allocFails | .fillCreate | .sendCreate | .createAnswered | .createFails _ =>
    createStep cfg s label
  | .delorphan | .delorphanUnsent _ | .sendDelorphan | .delorphanAnswered | .delorphanFails _ =>
    syncStep cfg s label
  | .execute xid _ | .refuse xid _ | .lose xid =>
    match findSent s xid with
    | some sent => serverStep cfg s sent label
    | none => .error .disabled
  | .disconnect | .connect | .ostConnect _ | .connected => connectStep s label
  | .statfs nospc rdonly degraded =>
    .ok { s with oscc := { s.oscc with flags := { s.oscc.flags with
      nospc := nospc
      rdonly := rdonly
      degraded := degraded } } }
  | .clientObject id size =>
    if id ∈ s.handed.map Prod.fst then .ok { s with filter := s.filter.setObject id size }
    else .error .disabled

/-- Before the first connection nothing is on the way, the creator is recovering, and the server has its
`LAST_ID`; a new server is one object behind. -/
structure Initial (s : System) : Prop where
  recovering : s.oscc.flags.recovering = true
  create : s.oscc.create = .idle
  sync : s.oscc.sync = .idle
  wire : s.wire = []
  handed : s.handed = []
  positive : 1 ≤ s.oscc.nextId
  near : s.oscc.nextId ≤ s.filter.lastId + 2
  word : s.filter.lastId + 1 < 2 ^ 64
  older : s.expConnCnt ≤ s.impConnCnt
  same : s.impState = .full → s.expConnCnt = s.impConnCnt

end Osc
