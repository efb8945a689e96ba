/-
Module: Lustre.Mdt.Target
Purpose: The `last_rcvd` file of a metadata target: the slots of the clients, the replies rebuilt
  from them, and the highest transaction number in use, with crashes after any prefix of the
  journal.
Trusted boundary: reads and writes of `last_rcvd` succeed, the header is copied and written in one
  step, and the journal makes transactions durable in order; the target's export of itself is left
  out
-/
import Lustre.Lib.Run

namespace Mdt

/-! ### The client's slot -/

/-- `MDS_CLOSE`. -/
def mdsClose : Nat := 35

/-- `MDS_DONE_WRITING`. -/
def mdsDoneWriting : Nat := 45

/-- `struct lsd_client_data`.  An empty `lcd_uuid` is 0. -/
structure LsdClientData where
  uuid : Nat
  lastTransno : Nat
  lastXid : Nat
  lastResult : UInt32
  lastData : Nat
  lastCloseTransno : Nat
  lastCloseXid : Nat
  lastCloseResult : UInt32
  preVersions : List Nat
  lastEpoch : Nat
deriving DecidableEq, Repr

/-- A slot as it is allocated for a client. -/
def newLcd (uuid : Nat) : LsdClientData := ⟨uuid, 0, 0, 0, 0, 0, 0, 0, [0, 0, 0, 0], 0⟩

/-- `lcd_last_transno`. -/
def lcdLastTransno (lcd : LsdClientData) : Nat :=
  if lcd.lastTransno > lcd.lastCloseTransno then lcd.lastTransno else lcd.lastCloseTransno

/-- A transaction at its end: opcode, `rq_xid`, `mti_transno`, `th_result`, `mti_opdata`, and the
versions in the reply, if any. -/
structure Txn where
  opc : Nat
  xid : Nat
  transno : Nat
  result : Int32
  opdata : Nat
  versions : Option (List Nat)
deriving DecidableEq, Repr

/-- The assertions of the functions on `last_rcvd`. -/
inductive MdtFault where
  | noTransno
  | bitAlreadySet
  | bitAlreadyClear
deriving DecidableEq, Repr

/-- A transaction without a number leaves the number of the one before it. -/
def Txn.transnoOr (txn : Txn) (before : Nat) : Nat := if txn.transno ≠ 0 then txn.transno else before

/-- What `mdt_last_rcvd_update` stores in the slot. -/
def lcdUpdate (lcd : LsdClientData) (txn : Txn) : Except MdtFault LsdClientData :=
  if txn.transno = 0 ∧ txn.result = 0 then .error .noTransno
  else if txn.opc = mdsClose ∨ txn.opc = mdsDoneWriting then
    .ok { lcd with
      lastCloseTransno := txn.transnoOr lcd.lastCloseTransno
      lastCloseXid := txn.xid
      lastCloseResult := txn.result.toUInt32 }
  else
    .ok { lcd with
      preVersions := txn.versions.getD lcd.preVersions
      lastTransno := txn.transnoOr lcd.lastTransno
      lastXid := txn.xid
      lastResult := txn.result.toUInt32
      lastData := txn.opdata }

/-- A reply message. -/
structure RepMsg where
  opc : Nat
  transno : Nat
  status : Int32
  versions : List Nat
deriving DecidableEq, Repr

/-- A request on the server: its opcode, `rq_xid`, the flag `MSG_RESENT`, `rq_transno`, `rq_status`
and `rq_repmsg`. -/
structure ServerRequest where
  opc : Nat
  xid : Nat
  resent : Bool
  transno : Nat
  status : Int32
  repmsg : RepMsg
deriving DecidableEq, Repr

/-- A request that was received, with its reply message, whose fields are zero until they are set. -/
def receive (opc xid : Nat) (resent : Bool) : ServerRequest :=
  ⟨opc, xid, resent, 0, 0, ⟨0, 0, 0, []⟩⟩

/-- `req_xid_is_last`. -/
abbrev reqXidIsLast (req : ServerRequest) (lcd : LsdClientData) : Prop :=
  req.xid = lcd.lastXid ∨ req.xid = lcd.lastCloseXid

/-- The choice `mdt_req_from_lcd` makes between the two histories; the second test reads the reply's
opcode. -/
def takeFromLcd (req : ServerRequest) (lcd : LsdClientData) : ServerRequest :=
  if req.opc = mdsClose ∨ req.repmsg.opc = mdsDoneWriting then
    { req with transno := lcd.lastCloseTransno, status := lcd.lastCloseResult.toInt32 }
  else
    { req with
      transno := lcd.lastTransno
      status := lcd.lastResult.toInt32
      repmsg := { req.repmsg with versions := lcd.preVersions } }

/-- `mdt_req_from_lcd`. -/
def mdtReqFromLcd (req : ServerRequest) (lcd : LsdClientData) : ServerRequest :=
  let req := takeFromLcd req lcd
  let req := { req with transno := if req.status ≠ 0 then 0 else req.transno }
  { req with repmsg := { req.repmsg with transno := req.transno, status := req.status } }

/-- `mdt_check_resent` with `mdt_reconstruct_generic`: the reply rebuilt, or nothing if the request
has to be executed. -/
def mdtCheckResent (req : ServerRequest) (lcd : LsdClientData) : Option ServerRequest :=
  if req.resent ∧ reqXidIsLast req lcd then some (mdtReqFromLcd req lcd) else none

/-- The reply's status and opcode are set when `ptlrpc_send_reply` sends it. -/
def ptlrpcSendReply (req : ServerRequest) : RepMsg :=
  { req.repmsg with status := req.status, opc := req.opc }

open Function

/-! ### The file -/

/-- The fields of `struct lr_server_data` that change while the target runs. -/
structure LrServerData where
  lastTransno : Nat
  startEpoch : Nat
deriving DecidableEq, Repr

/-- The file `last_rcvd`: the header and the slots up to its end. -/
structure LastRcvd where
  header : LrServerData
  slots : List LsdClientData
deriving DecidableEq, Repr

/-- A slot that was never written. -/
def emptyLcd : LsdClientData := newLcd 0

/-- The slot with the given index. -/
def slotAt (slots : List LsdClientData) (i : Nat) : LsdClientData := slots.getD i emptyLcd

/-- What a transaction writes to the file. -/
inductive Write where
  | header (lsd : LrServerData)
  | slot (i : Nat) (lcd : LsdClientData)
deriving DecidableEq, Repr

/-- The file after a write; a hole in front of a slot reads as empty slots. -/
def LastRcvd.apply (file : LastRcvd) : Write → LastRcvd
  | .header lsd => { file with header := lsd }
  | .slot i lcd =>
    { file with slots := (file.slots ++ List.replicate (i + 1 - file.slots.length) emptyLcd).set i lcd }

/-- A transaction in the journal: its number, 0 if it has none, and its write. -/
structure Entry where
  transno : Nat
  write : Write
deriving DecidableEq, Repr

/-- The file of a new target. -/
def newFile : LastRcvd := ⟨⟨0, 0⟩, []⟩

/-- The file after the transactions of a journal. -/
def fileOf (journal : List Entry) : LastRcvd :=
  journal.foldl (fun file entry => file.apply entry.write) newFile

/-- The loop of `mdt_clients_data_init` from slot `i` on: the slots that get an export, and
`lut_last_transno`.  A slot whose client has an export is passed over. -/
def clientsDataLoop : Nat → List LsdClientData → List (Nat × LsdClientData) → Nat →
    List (Nat × LsdClientData) × Nat
  | _, [], loaded, last => (loaded, last)
  | i, lcd :: rest, loaded, last =>
    if lcd.uuid = 0 then clientsDataLoop (i + 1) rest loaded last
    else if loaded.any (·.2.uuid = lcd.uuid) then clientsDataLoop (i + 1) rest loaded last
    else clientsDataLoop (i + 1) rest (loaded ++ [(i, lcd)]) (max (lcdLastTransno lcd) last)

/-- `mdt_clients_data_init`. -/
def mdtClientsDataInit (file : LastRcvd) : List (Nat × LsdClientData) × Nat :=
  clientsDataLoop 0 file.slots [] file.header.lastTransno

/-- How far `mdt_client_del` has come for an export. -/
inductive DelStage where
  | connected
  | updated
  | saved
  | zeroed
deriving DecidableEq, Repr

/-- `struct obd_export` with its `tg_export_data`: `ted_lr_idx`, `ted_lcd`, whether the slot was written,
and its deletion. -/
structure Export where
  lrIdx : Nat
  lcd : Option LsdClientData
  written : Bool
  del : DelStage
deriving DecidableEq, Repr

/-- A transaction that has its number and has not updated `last_rcvd` yet. -/
structure Running where
  exp : Nat
  txn : Txn
deriving DecidableEq, Repr

/-- A metadata target: the journal from the start, `lut_last_transno`, `lut_lsd`, the exports,
`lut_client_bitmap` and the transactions about to end. -/
structure MdtTarget where
  journal : List Entry
  lastTransno : Nat
  lsd : LrServerData
  exports : Nat → Option Export
  bitmap : Nat → Bool
  running : List Running

/-- The target after `mdt_server_data_init` on the file of a journal; the export of a slot is named by
its index. -/
def mdtServerDataInit (journal : List Entry) : MdtTarget :=
  let file := fileOf journal
  let loaded := (mdtClientsDataInit file).1
  let last := (mdtClientsDataInit file).2
  let lsd := { file.header with lastTransno := last }
  { journal := journal ++ [⟨0, .header lsd⟩]
    lastTransno := last
    lsd := lsd
    exports := fun exp =>
      (loaded.find? (·.1 = exp)).map fun slot => ⟨slot.1, some slot.2, true, .connected⟩
    bitmap := fun i => loaded.any (·.1 = i)
    running := [] }

/-! ### Clients and transactions -/

/-- What can happen to a target.  `txnStop` gives a transaction its number, `lastRcvdUpdate` ends
the `n`-th one that has a number; `delUpdate`, `delWrite` and `delZero` are the parts of
`mdt_client_del`, `lsdUpdate` and `lsdWrite` those of `lut_server_data_update`. -/
inductive MdtEvent where
  | txnStop (exp : Nat) (txn : Txn)
  | lastRcvdUpdate (n : Nat)
  | emptyTransno (transno : Nat)
  | clientNew (exp uuid : Nat)
  | clientWrite (exp : Nat)
  | delUpdate (exp : Nat)
  | delWrite (exp : Nat)
  | delZero (exp : Nat)
  | clientFree (exp : Nat)
  | epochUpdate
  | epochClient (exp : Nat)
  | lsdUpdate
  | lsdWrite
  | crash (n : Nat)
deriving DecidableEq, Repr

/-- `LR_MAX_CLIENTS`. -/
def lrMaxClients : Nat := 128 * 1024

/-- `cfs_find_first_zero_bit` on the `n` bits from `i` on. -/
def findFirstZeroBit (bitmap : Nat → Bool) : Nat → Nat → Option Nat
  | _, 0 => none
  | i, n + 1 => if bitmap i then findFirstZeroBit bitmap (i + 1) n else some i

/-- A number is taken, or that of a replayed request noted: the number and `lut_last_transno`, of 64
bits. -/
def takeTransno (last transno : Nat) : Nat × Nat :=
  if transno = 0 then ((last + 1) % 2 ^ 64, (last + 1) % 2 ^ 64)
  else (transno, if transno > last then transno else last)

/-- The part of `mdt_txn_stop_cb` under `lut_translock`; `txn.transno` is the number of a replayed
request or 0. -/
def mdtTxnStopCb (s : MdtTarget) (exp : Nat) (txn : Txn) : MdtTarget :=
  if txn.result ≠ 0 then { s with running := s.running ++ [⟨exp, txn⟩] }
  else
    { s with
      lastTransno := (takeTransno s.lastTransno txn.transno).2
      running := s.running ++
        [⟨exp, { txn with transno := (takeTransno s.lastTransno txn.transno).1 }⟩] }

/-- The number under which a transaction is committed; a failed one changed nothing. -/
def Txn.committed (txn : Txn) : Nat := if txn.result = 0 then txn.transno else 0

/-- A write in a transaction of its own, or at the end of one. -/
def MdtTarget.journaled (s : MdtTarget) (transno : Nat) (write : Write) : MdtTarget :=
  { s with journal := s.journal ++ [⟨transno, write⟩] }

/-- An export is changed. -/
def MdtTarget.setExport (s : MdtTarget) (exp : Nat) (e : Export) : MdtTarget :=
  { s with exports := update s.exports exp (some e) }

/-- `mdt_last_rcvd_update`. -/
def mdtLastRcvdUpdate (s : MdtTarget) (run : Running) : Except MdtFault MdtTarget :=
  match s.exports run.exp with
  | none => .ok s
  | some e =>
    match e.lcd with
    | none => .ok (s.journaled run.txn.committed (.header s.lsd))
    | some lcd =>
      match lcdUpdate lcd run.txn with
      | .error fault => .error fault
      | .ok lcd =>
        .ok ((s.setExport run.exp { e with lcd := some lcd }).journaled run.txn.committed
          (.slot e.lrIdx lcd))

/-- `mdt_client_new` up to the start of its transaction. -/
def mdtClientNew (s : MdtTarget) (exp uuid : Nat) : MdtTarget :=
  match findFirstZeroBit s.bitmap 0 lrMaxClients with
  | none => s
  | some i =>
    { s.setExport exp ⟨i, some (newLcd uuid), false, .connected⟩ with
      bitmap := update s.bitmap i true }

/-- `lut_client_free`. -/
def lutClientFree (s : MdtTarget) (exp : Nat) (e : Export) : Except MdtFault MdtTarget :=
  if ¬ s.bitmap e.lrIdx then .error .bitAlreadyClear
  else
    .ok { s.setExport exp { e with lcd := none } with
      bitmap := update s.bitmap e.lrIdx false }

/-- The part of `lut_boot_epoch_update` under `lut_translock`; epochs have 32 bits. -/
def lutBootEpochUpdate (s : MdtTarget) : MdtTarget :=
  let startEpoch := (s.lastTransno / 2 ^ 32 + 1) % 2 ^ 32
  { s with lastTransno := startEpoch * 2 ^ 32, lsd := { s.lsd with startEpoch := startEpoch } }

/-- `lut_client_epoch_update`. -/
def lutClientEpochUpdate (s : MdtTarget) (exp : Nat) (e : Export) (lcd : LsdClientData) : MdtTarget :=
  if lcd.lastEpoch ≥ s.lsd.startEpoch then s
  else
    let lcd := { lcd with lastEpoch := s.lsd.startEpoch }
    (s.setExport exp { e with lcd := some lcd }).journaled 0 (.slot e.lrIdx lcd)

/-- `lut_lsd` takes over `lut_last_transno`. -/
def MdtTarget.updateLsd (s : MdtTarget) : MdtTarget :=
  { s with lsd := { s.lsd with lastTransno := s.lastTransno } }

/-- `mdt_last_rcvd_header_write`. -/
def mdtLastRcvdHeaderWrite (s : MdtTarget) : MdtTarget := s.journaled 0 (.header s.lsd)

/-- One event; one that cannot happen changes nothing.  A client has one name and a UUID that is not
empty, its first transaction comes after its slot was written, and an export is freed when it was deleted
and no transaction refers to it. -/
def mdtStep (s : MdtTarget) : MdtEvent → Except MdtFault MdtTarget
  | .txnStop exp txn =>
    match s.exports exp with
    | some ⟨_, some _, true, _⟩ => .ok (mdtTxnStopCb s exp txn)
    | _ => .ok s
  | .lastRcvdUpdate n =>
    match s.running[n]? with
    | none => .ok s
    | some run => mdtLastRcvdUpdate { s with running := s.running.eraseIdx n } run
  | .emptyTransno transno => .ok { s with lastTransno := (takeTransno s.lastTransno transno).2 }
  | .clientNew exp uuid =>
    if uuid = 0 ∨ (s.exports exp).isSome then .ok s else .ok (mdtClientNew s exp uuid)
  | .clientWrite exp =>
    match s.exports exp with
    | some ⟨i, some lcd, false, del⟩ =>
      .ok ((s.setExport exp ⟨i, some lcd, true, del⟩).journaled 0 (.slot i lcd))
    | _ => .ok s
  | .delUpdate exp =>
    match s.exports exp with
    | some ⟨i, some lcd, true, .connected⟩ =>
      if ¬ s.bitmap i then .error .bitAlreadyClear
      else .ok (s.updateLsd.setExport exp ⟨i, some lcd, true, .updated⟩)
    | _ => .ok s
  | .delWrite exp =>
    match s.exports exp with
    | some ⟨i, some lcd, true, .updated⟩ =>
      .ok ((mdtLastRcvdHeaderWrite s).setExport exp ⟨i, some lcd, true, .saved⟩)
    | _ => .ok s
  | .delZero exp =>
    match s.exports exp with
    | some ⟨i, some lcd, true, .saved⟩ =>
      let lcd := { lcd with uuid := 0 }
      .ok ((s.setExport exp ⟨i, some lcd, true, .zeroed⟩).journaled 0 (.slot i lcd))
    | _ => .ok s
  | .clientFree exp =>
    match s.exports exp with
    | some ⟨i, some lcd, true, .zeroed⟩ =>
      if s.running.any (·.exp = exp) then .ok s
      else lutClientFree s exp ⟨i, some lcd, true, .zeroed⟩
    | _ => .ok s
  | .epochUpdate => .ok (lutBootEpochUpdate s)
  | .epochClient exp =>
    match s.exports exp with
    | some ⟨i, some lcd, true, del⟩ => .ok (lutClientEpochUpdate s exp ⟨i, some lcd, true, del⟩ lcd)
    | _ => .ok s
  | .lsdUpdate => .ok s.updateLsd
  | .lsdWrite => .ok (mdtLastRcvdHeaderWrite s)
  | .crash n => .ok (mdtServerDataInit (s.journal.take n))

open List Run

/-- The two classes of requests that have a place each in the slot. -/
abbrev isClose (opc : Nat) : Prop := opc = mdsClose ∨ opc = mdsDoneWriting

/-- What the client is told of an executed request: transaction number, none on an error, and status. -/
def Txn.answer (txn : Txn) : Nat × Int32 := (if txn.result = 0 then txn.transno else 0, txn.result)

/-- The answer in the place of the close requests. -/
def closeAnswer (lcd : LsdClientData) : Nat × Int32 :=
  (if lcd.lastCloseResult.toInt32 = 0 then lcd.lastCloseTransno else 0, lcd.lastCloseResult.toInt32)

/-- The answer in the place of the other requests. -/
def otherAnswer (lcd : LsdClientData) : Nat × Int32 :=
  (if lcd.lastResult.toInt32 = 0 then lcd.lastTransno else 0, lcd.lastResult.toInt32)

/-- The answer of the last request of a class, or what was there before. -/
def lastAnswer (close : Bool) (before : Nat × Int32) (history : List Txn) : Nat × Int32 :=
  (((history.filter fun txn => decide (isClose txn.opc) = close).getLast?).map (·.answer)).getD before

/-! ### What the slot remembers -/

variable {txn : Txn}

/-- The number and the result that are stored give the answer back. -/
theorem stored_answer (valid : ¬ (txn.transno = 0 ∧ txn.result = 0)) (before : Nat) :
    (if txn.result = 0 then txn.transnoOr before else 0, txn.result) = txn.answer := by
  grind [Txn.answer, Txn.transnoOr]

variable {lcd lcd' : LsdClientData}

/-- One request changes the place of its own class only. -/
theorem lcdUpdate_answers (updated : lcdUpdate lcd txn = .ok lcd') :
    (isClose txn.opc → closeAnswer lcd' = txn.answer ∧ lcd'.lastCloseXid = txn.xid ∧
      otherAnswer lcd' = otherAnswer lcd ∧ lcd'.lastXid = lcd.lastXid) ∧
    (¬ isClose txn.opc → otherAnswer lcd' = txn.answer ∧ lcd'.lastXid = txn.xid ∧
      closeAnswer lcd' = closeAnswer lcd ∧ lcd'.lastCloseXid = lcd.lastCloseXid) := by
  unfold lcdUpdate at updated
  split_ifs at updated with missing close
  · cases updated
    refine ⟨fun _ => ⟨?_, rfl, rfl, rfl⟩, fun other => absurd close other⟩
    exact stored_answer missing _
  · cases updated
    refine ⟨fun isclose => absurd isclose close, fun _ => ⟨?_, rfl, rfl, rfl⟩⟩
    exact stored_answer missing _

variable {close : Bool} {history : List Txn} {before : Nat × Int32}

theorem lastAnswer_cons_same (same : decide (isClose txn.opc) = close) :
    lastAnswer close before (txn :: history) = lastAnswer close txn.answer history := by
  simp_all [lastAnswer, isClose, filter_cons_of_pos, getLast?_cons]

theorem lastAnswer_cons_other (other : decide (isClose txn.opc) ≠ close) :
    lastAnswer close before (txn :: history) = lastAnswer close before history := by
  unfold lastAnswer
  rw [filter_cons_of_neg (by simpa using other)]

/-- The slot holds the answer of the last request of each class. -/
theorem run_answers (ran : run lcdUpdate lcd history = .ok lcd') :
    closeAnswer lcd' = lastAnswer true (closeAnswer lcd) history ∧
      otherAnswer lcd' = lastAnswer false (otherAnswer lcd) history := by
  induction history generalizing lcd with
  | nil =>
    cases ran
    exact ⟨rfl, rfl⟩
  | cons txn history ih =>
    rw [run_cons] at ran
    obtain ⟨next, updated, ran⟩ := bind_eq_ok ran
    obtain ⟨closes, others⟩ := lcdUpdate_answers updated
    obtain ⟨ihClose, ihOther⟩ := ih ran
    by_cases close : isClose txn.opc
    · simp_all [lastAnswer_cons_same, lastAnswer_cons_other]
    · simp_all [lastAnswer_cons_same, lastAnswer_cons_other]

/-- Requests of the other class leave the place of a class alone. -/
theorem lastAnswer_between (others : ∀ txn ∈ history, decide (isClose txn.opc) ≠ close) :
    lastAnswer close before history = before := by
  induction history with
  | nil => rfl
  | cons txn history ih =>
    rw [lastAnswer_cons_other (others txn mem_cons_self)]
    exact ih fun later mem => others later (mem_cons_of_mem _ mem)

theorem lastAnswer_append (close : Bool) (before : Nat × Int32) (first second : List Txn) :
    lastAnswer close before (first ++ second) = lastAnswer close (lastAnswer close before first) second := by
  induction first generalizing before with
  | nil => rfl
  | cons txn first ih =>
    by_cases same : decide (isClose txn.opc) = close
    · rw [cons_append, lastAnswer_cons_same same, lastAnswer_cons_same same, ih]
    · rw [cons_append, lastAnswer_cons_other same, lastAnswer_cons_other same, ih]

/-- The xid in the place of a class. -/
def slotXid (close : Bool) (lcd : LsdClientData) : Nat := if close then lcd.lastCloseXid else lcd.lastXid

theorem lcdUpdate_xid_same (updated : lcdUpdate lcd txn = .ok lcd')
    (same : decide (isClose txn.opc) = close) : slotXid close lcd' = txn.xid := by
  obtain ⟨closes, others⟩ := lcdUpdate_answers updated
  cases close with
  | true => exact (closes (of_decide_eq_true same)).2.1
  | false => exact (others (of_decide_eq_false same)).2.1

theorem lcdUpdate_xid_other (updated : lcdUpdate lcd txn = .ok lcd')
    (other : decide (isClose txn.opc) ≠ close) : slotXid close lcd' = slotXid close lcd := by
  obtain ⟨closes, others⟩ := lcdUpdate_answers updated
  cases close with
  | true => exact (others (of_decide_eq_false (Bool.of_not_eq_true other))).2.2.2
  | false => exact (closes (of_decide_eq_true (Bool.of_not_eq_false other))).2.2.2

/-- Requests of the other class leave the xid of a class alone. -/
theorem run_xid (ran : run lcdUpdate lcd history = .ok lcd')
    (others : ∀ txn ∈ history, decide (isClose txn.opc) ≠ close) :
    slotXid close lcd' = slotXid close lcd := by
  induction history generalizing lcd with
  | nil =>
    cases ran
    rfl
  | cons txn history ih =>
    rw [run_cons] at ran
    obtain ⟨next, updated, ran⟩ := bind_eq_ok ran
    rw [ih ran fun later mem => others later (mem_cons_of_mem _ mem),
      lcdUpdate_xid_other updated (others txn mem_cons_self)]

/-- The reply that a request gets when it is sent again. -/
def resentAnswer (opc xid : Nat) (lcd : LsdClientData) : Option (Nat × Int32) :=
  (mdtCheckResent (receive opc xid true) lcd).map fun req =>
    ((ptlrpcSendReply req).transno, (ptlrpcSendReply req).status)

/-- Only `MDS_CLOSE` is answered from the place of the close requests. -/
theorem resentAnswer_eq {opc xid : Nat} (last : xid = lcd.lastXid ∨ xid = lcd.lastCloseXid) :
    resentAnswer opc xid lcd = some (if opc = mdsClose then closeAnswer lcd else otherAnswer lcd) := by
  have found : (receive opc xid true).resent ∧ reqXidIsLast (receive opc xid true) lcd := ⟨rfl, last⟩
  have unset : ¬ (receive opc xid true).repmsg.opc = mdsDoneWriting :=
    show ¬ (0 = mdsDoneWriting) by decide
  rw [resentAnswer, mdtCheckResent, if_pos found, Option.map_some]
  by_cases close : opc = mdsClose
  · simp_all [takeFromLcd, receive, mdtReqFromLcd, ptlrpcSendReply, closeAnswer]
  · simp_all [takeFromLcd, receive, mdtReqFromLcd, ptlrpcSendReply, otherAnswer]

/-- For every history of a client and every request sent again before the next one of its class: it is
recognised, and answered with its own transaction number and status exactly if it is no
`MDS_DONE_WRITING` or the last request of the other class, if any, had the same answer. -/
theorem resent_reply_iff (uuid : Nat) (before : List Txn) (txn : Txn) (between : List Txn)
    (others : ∀ later ∈ between, ¬ (isClose later.opc ↔ isClose txn.opc)) (lcd : LsdClientData)
    (ran : run lcdUpdate (newLcd uuid) (before ++ txn :: between) = .ok lcd) :
    resentAnswer txn.opc txn.xid lcd = some txn.answer ↔
      txn.opc ≠ mdsDoneWriting ∨ lastAnswer false (0, 0) (before ++ between) = txn.answer := by
  have otherClass : ∀ later ∈ between, decide (isClose later.opc) ≠ decide (isClose txn.opc) :=
    fun later mem same => others later mem (decide_eq_decide.mp same)
  -- the request is found by its xid
  have found : txn.xid = lcd.lastXid ∨ txn.xid = lcd.lastCloseXid := by
    rw [run_append] at ran
    obtain ⟨start, -, rest⟩ := bind_eq_ok ran
    rw [run_cons] at rest
    obtain ⟨next, updated, rest⟩ := bind_eq_ok rest
    have kept := (run_xid rest otherClass).trans (lcdUpdate_xid_same updated rfl)
    unfold slotXid at kept
    split_ifs at kept
    · exact .inr kept.symm
    · exact .inl kept.symm
  obtain ⟨closes, rest⟩ := run_answers ran
  rw [lastAnswer_append] at closes rest
  rw [resentAnswer_eq found, Option.some_inj]
  by_cases close : isClose txn.opc
  · have mine := decide_eq_true close
    rw [lastAnswer_cons_same mine, lastAnswer_between (by rw [← mine]; exact otherClass)] at closes
    rw [lastAnswer_cons_other (by rw [mine]; decide), ← lastAnswer_append] at rest
    rcases close with isClose | isDone
    · rw [if_pos isClose, closes, isClose]
      exact ⟨fun _ => .inl (by decide), fun _ => rfl⟩
    · rw [if_neg (by rw [isDone]; decide), rest]
      exact ⟨fun same => .inr same, fun either => either.resolve_left (not_not_intro isDone)⟩
  · simp_all [lastAnswer_cons_same, lastAnswer_between]

/-- A history with an open, a close and an unlink; the close is sent again. -/
theorem resent_reply_iff_close :
    resentAnswer mdsClose 11 ⟨7, 5, 12, 0, 3, 4, 11, 0, [0, 0, 0, 0], 0⟩ = some (4, 0) :=
  (resent_reply_iff 7 [⟨36, 10, 3, 0, 3, none⟩] ⟨mdsClose, 11, 4, 0, 0, none⟩
    [⟨36, 12, 5, 0, 3, none⟩] (by decide) ⟨7, 5, 12, 0, 3, 4, 11, 0, [0, 0, 0, 0], 0⟩
    (by decide)).mpr (.inl (by decide))

/-- Transaction 5 of an unlink ends before transaction 6 of an `MDS_DONE_WRITING`, which is sent again
and gets the number of the first. -/
theorem done_writing_answered_from_the_other_place : ∃ lcd, run lcdUpdate (newLcd 7)
        ([⟨36, 10, 5, 0, 0, none⟩] ++ ⟨mdsDoneWriting, 11, 6, 0, 0, none⟩ :: []) = .ok lcd ∧
      resentAnswer mdsDoneWriting 11 lcd = some (5, 0) ∧
      Txn.answer ⟨mdsDoneWriting, 11, 6, 0, 0, none⟩ = (6, 0) :=
  ⟨_, rfl, by decide, by decide⟩

end Mdt
