/-
Module: Lustre.Ldlm.Extent.Model
Purpose: Extent locks of one server resource.  Locks and interval nodes are named by numbers, queues
  are lists of them; the labels of `step` are what can happen while the resource lock is free.
Trusted boundary: `OBD_FAIL_CHECK` hooks never fire, allocations succeed
-/
import Lustre.Ldlm.IntervalTree.Model

namespace Ldlm

/-! ### Modes -/

/-- `ldlm_mode_t` without `LCK_MINMODE`. -/
inductive Mode where
  | ex
  | pw
  | pr
  | cw
  | cr
  | nl
  | group
  | cos
deriving DecidableEq, Repr

/-- The modes in the order of `lr_itree`. -/
def Mode.all : List Mode := [.ex, .pw, .pr, .cw, .cr, .nl, .group, .cos]

/-- The bit of a mode in `ldlm_mode_t`. -/
def Mode.bit : Mode → Nat
  | .ex => 1
  | .pw => 2
  | .pr => 4
  | .cw => 8
  | .cr => 16
  | .nl => 32
  | .group => 64
  | .cos => 128

/-- `LCK_COMPAT_EX`, which the next masks extend one by one. -/
def lckCompatEx : Nat := Mode.nl.bit

def lckCompatPw : Nat := lckCompatEx ||| Mode.cr.bit

def lckCompatPr : Nat := lckCompatPw ||| Mode.pr.bit

def lckCompatCw : Nat := lckCompatPw ||| Mode.cw.bit

def lckCompatCr : Nat := lckCompatCw ||| Mode.pr.bit ||| Mode.pw.bit

def lckCompatNl : Nat := lckCompatCr ||| Mode.ex.bit ||| Mode.group.bit

/-- `lck_compat_array`. -/
def lckCompatArray : Mode → Nat
  | .ex => lckCompatEx
  | .pw => lckCompatPw
  | .pr => lckCompatPr
  | .cw => lckCompatCw
  | .cr => lckCompatCr
  | .nl => lckCompatNl
  | .group => Mode.group.bit ||| Mode.nl.bit
  | .cos => Mode.cos.bit

/-- `lockmode_compat`. -/
def lockmodeCompat (existMode newMode : Mode) : Bool :=
  lckCompatArray existMode &&& newMode.bit ≠ 0

/-- Compatibility does not depend on which of the two locks came first. -/
theorem lockmodeCompat_comm (a b : Mode) : lockmodeCompat a b = lockmodeCompat b a := by
  cases a <;> cases b <;> rfl

theorem Mode.mem_all (m : Mode) : m ∈ Mode.all := by
  cases m <;> decide

/-- The bits of an enqueue's `*flags` that the processing policies read or set. -/
structure EnqFlags where
  lockChanged : Bool := false
  blockGranted : Bool := false
  blockConv : Bool := false
  blockWait : Bool := false
  blockNowait : Bool := false
  noTimeout : Bool := false
  denyOnContention : Bool := false
  astDiscardData : Bool := false
deriving DecidableEq, Repr

/-- The assertions that stop the server. -/
inductive Fault where
  /-- `ldlm_resource_add_lock` or `ldlm_resource_insert_lock_after` of a linked lock -/
  | resLinkBusy
  /-- `ldlm_lock_destroy_internal` of a linked lock -/
  | lockOnResource
  /-- an assertion on `l_tree_node`, `li_group`, `lit_root` or `l_granted_mode` -/
  | intervalNode
  /-- an assertion or an endless loop in the interval tree, `interval_expand` apart -/
  | intervalTree
  /-- an assertion or an endless loop in `interval_expand` -/
  | intervalExpand
  /-- an assertion of `ldlm_extent_internal_policy_granted` -/
  | policyGranted
  /-- an assertion or an endless loop of `ldlm_extent_internal_policy_fixup` -/
  | policyFixup
  /-- a request with `LDLM_AST_DISCARD_DATA` that may be denied or has callbacks to drop -/
  | discardData
  /-- `discard_bl_list` of a lock without `LDLM_FL_AST_SENT` -/
  | astNotSent
  /-- `ldlm_pool_del` from an empty pool -/
  | poolEmpty
deriving DecidableEq, Repr

/-- What `ldlm_run_ast_work` returns for a nonempty list: zero, `-ERESTART` from a callback, or
`-ERESTART` without memory, which keeps the list. -/
inductive AstOutcome where
  | sent
  | restart
  | noSet
deriving DecidableEq, Repr

def eWouldBlock : Int := 11

def eUsers : Int := 87

theorem eWouldBlock_neg : -eWouldBlock < 0 := by decide

theorem eUsers_neg : -eUsers < 0 := by decide

/-! ### Queues -/

/-- `cfs_list_add` behind an entry of the queue. -/
def insertAfter (original new : Nat) : List Nat → List Nat
  | [] => []
  | x :: xs => if x = original then x :: new :: xs else x :: insertAfter original new xs

/-- The entry after the given one, if the queue has one. -/
def nextIn (x : Nat) : List Nat → Option Nat
  | [] => none
  | y :: ys => if y = x then ys.head? else nextIn x ys

theorem insertAfter_split {original new : Nat} {pre post : List Nat} (first : original ∉ pre) :
    insertAfter original new (pre ++ original :: post) = pre ++ original :: new :: post := by
  induction pre with
  | nil => simp [insertAfter]
  | cons x pre ih =>
    simp only [List.mem_cons, not_or] at first
    simp [insertAfter, Ne.symm first.1, ih first.2]

open Function PointerHeap RedBlack

/-- What extent locks use of `struct ldlm_lock`; `LDLM_FL_AST_SENT`, which scans set on many, is kept in
the resource. -/
structure ExtentLock where
  reqMode : Mode
  grantedMode : Option Mode
  reqExtent : Extent
  extent : Extent
  gid : Nat
  exp : Option Nat
  blockingAst : Bool
  astDiscardData : Bool
  destroyed : Bool
  treeNode : Option Nat
deriving DecidableEq, Repr

/-- A call of `ldlm_process_extent_lock` that dropped the resource lock around `ldlm_run_ast_work`. -/
structure Suspended where
  lock : Nat
  flags : EnqFlags
  rpcList : List Nat
deriving DecidableEq, Repr

/-- An extent resource, its interval nodes and the granted counter of the pool of its
namespace. -/
structure ExtentRes where
  locks : Nat → ExtentLock
  nextLock : Nat
  granted : List Nat
  waiting : List Nat
  nodes : Nat → Cell Nat NodeData
  litRoot : Mode → Option Nat
  litSize : Mode → Int
  liGroup : Nat → List Nat
  nextNode : Nat
  astSent : Nat → Bool
  contentionTime : Nat
  plGranted : Nat
  suspended : List Suspended

/-- The namespace's contention parameters; the time is in the unit of the clock. -/
structure Namespace where
  contendedLocks : Nat
  contentionTime : Nat
  maxNolockSize : Nat
deriving DecidableEq, Repr

/-- Unsigned 64-bit arithmetic. -/
def u64 (n : Nat) : Nat := n % 2 ^ 64

/-- `x - 1` in unsigned 64-bit arithmetic. -/
def u64Pred (n : Nat) : Nat := u64 (n + maxU64)

/-- `LDLM_MAX_GROWN_EXTENT`. -/
def maxGrownExtent : Nat := 32 * 1024 * 1024 - 1

namespace ExtentRes

/-- Fuel for the loops over interval nodes. -/
def fuel (s : ExtentRes) : Nat := 2 * s.nextNode + 2

/-- `lr_itree[idx]` as a tree in the shared heap of nodes. -/
def tree (s : ExtentRes) (m : Mode) : Tree Nat := ⟨s.nodes, s.litRoot m⟩

def setTree (s : ExtentRes) (m : Mode) (t : Tree Nat) : ExtentRes :=
  { s with nodes := t.heap, litRoot := update s.litRoot m t.root }

def modifyLock (s : ExtentRes) (id : Nat) (f : ExtentLock → ExtentLock) : ExtentRes :=
  { s with locks := update s.locks id (f (s.locks id)) }

def setGroup (s : ExtentRes) (n : Nat) (group : List Nat) : ExtentRes :=
  { s with liGroup := update s.liGroup n group }

def addSize (s : ExtentRes) (m : Mode) (d : Int) : ExtentRes :=
  { s with litSize := update s.litSize m (s.litSize m + d) }

/-- `!cfs_list_empty(&lock->l_res_link)`. -/
def linked (s : ExtentRes) (id : Nat) : Bool := id ∈ s.granted || id ∈ s.waiting

/-- `ldlm_resource_add_lock` to `lr_granted`. -/
def addGranted (s : ExtentRes) (id : Nat) : Except Fault ExtentRes :=
  if (s.locks id).destroyed then .ok s
  else if s.linked id then .error .resLinkBusy
  else .ok { s with granted := s.granted ++ [id] }

/-- `ldlm_resource_add_lock` to `lr_waiting`. -/
def addWaiting (s : ExtentRes) (id : Nat) : Except Fault ExtentRes :=
  if (s.locks id).destroyed then .ok s
  else if s.linked id then .error .resLinkBusy
  else .ok { s with waiting := s.waiting ++ [id] }

/-- `ldlm_resource_insert_lock_after` next to a lock on `lr_waiting`. -/
def insertLockAfter (s : ExtentRes) (original new : Nat) : Except Fault ExtentRes :=
  if (s.locks new).destroyed then .ok s
  else if s.linked new then .error .resLinkBusy
  else .ok { s with waiting := insertAfter original new s.waiting }

/-- `cfs_list_del_init(&lock->l_res_link)`. -/
def delInit (s : ExtentRes) (id : Nat) : ExtentRes :=
  { s with granted := s.granted.filter (· ≠ id), waiting := s.waiting.filter (· ≠ id) }

/-- `ldlm_lock_destroy_nolock`; a server lock has no readers and writers. -/
def destroyNolock (s : ExtentRes) (id : Nat) : Except Fault ExtentRes :=
  if s.linked id then .error .lockOnResource
  else .ok (s.modifyLock id fun l => { l with destroyed := true })

/-- `ldlm_pool_add`. -/
def poolAdd (s : ExtentRes) : ExtentRes := { s with plGranted := s.plGranted + 1 }

/-- `ldlm_pool_del`. -/
def poolDel (s : ExtentRes) : Except Fault ExtentRes :=
  if s.plGranted = 0 then .error .poolEmpty else .ok { s with plGranted := s.plGranted - 1 }

/-! ### Interval nodes of locks -/

/-- `ldlm_interval_attach`. -/
def intervalAttach (s : ExtentRes) (n id : Nat) : Except Fault ExtentRes :=
  if (s.locks id).treeNode.isSome then .error .intervalNode
  else
    let s := s.setGroup n (s.liGroup n ++ [id])
    .ok (s.modifyLock id fun l => { l with treeNode := some n })

/-- `ldlm_interval_detach`: also the node, if its group is now empty. -/
def intervalDetach (s : ExtentRes) (id : Nat) : Except Fault (ExtentRes × Option Nat) :=
  match (s.locks id).treeNode with
  | none => .ok (s, none)
  | some n =>
    if s.liGroup n = [] then .error .intervalNode
    else
      let s := s.modifyLock id fun l => { l with treeNode := none }
      let s := s.setGroup n ((s.liGroup n).filter (· ≠ id))
      .ok (s, if s.liGroup n = [] then some n else none)

/-- The assertions of `ldlm_interval_free`; a freed number is not used again. -/
def intervalFree (s : ExtentRes) (n : Nat) : Except Fault Unit :=
  if s.liGroup n ≠ [] then .error .intervalNode
  else if (s.nodes n).data.intree then .error .intervalNode
  else .ok ()

/-- `ldlm_interval_extent`, as the lock whose extent it returns. -/
def intervalExtent (s : ExtentRes) (n : Nat) : Except Fault ExtentLock :=
  match s.liGroup n with
  | [] => .error .intervalNode
  | id :: _ => .ok (s.locks id)

/-- `ldlm_extent_add_lock`. -/
def extentAddLock (s : ExtentRes) (id : Nat) : Except Fault ExtentRes := do
  let lock := s.locks id
  if lock.grantedMode ≠ some lock.reqMode then .error .intervalNode
  else
    match lock.treeNode with
    | none => .error .intervalNode
    | some n =>
      if (s.nodes n).data.intree then .error .intervalNode
      else
        match (s.tree lock.reqMode).intervalSet n lock.extent.start lock.extent.stop with
        | none => .error .intervalTree
        | some t =>
          match t.intervalInsert s.fuel n with
          | none => .error .intervalTree
          | some (t, found) => do
              let s := s.setTree lock.reqMode t
              let s ← match found with
                | none => .ok s
                | some other => do
                    let (s, own) ← s.intervalDetach id
                    match own with
                    | none => .error .intervalNode
                    | some own => do
                        s.intervalFree own
                        s.intervalAttach other id
              (s.addSize lock.reqMode 1).addGranted id

/-- `ldlm_extent_unlink_lock`. -/
def extentUnlinkLock (s : ExtentRes) (id : Nat) : Except Fault ExtentRes :=
  match (s.locks id).treeNode with
  | none => .ok s
  | some n =>
    if (s.nodes n).data.intree then
      match (s.locks id).grantedMode with
      | none => .error .intervalNode
      | some m =>
        if s.litRoot m = none then .error .intervalNode
        else do
          let (s, node) ← (s.addSize m (-1)).intervalDetach id
          match node with
          | none => .ok s
          | some n =>
            match (s.tree m).intervalErase s.fuel n with
            | none => .error .intervalTree
            | some t => do
                let s := s.setTree m t
                s.intervalFree n
                .ok s
    else .ok s

/-- `ldlm_resource_unlink_lock`. -/
def resourceUnlinkLock (s : ExtentRes) (id : Nat) : Except Fault ExtentRes := do
  let s ← s.extentUnlinkLock id
  .ok (s.delInit id)

/-- `ldlm_grant_lock`. -/
def grantLock (s : ExtentRes) (id : Nat) : Except Fault ExtentRes := do
  let s := s.modifyLock id fun l => { l with grantedMode := some l.reqMode }
  let s ← s.extentAddLock id
  .ok s.poolAdd

/-- `ldlm_lock_cancel`. -/
def lockCancel (s : ExtentRes) (id : Nat) : Except Fault ExtentRes := do
  let s ← s.resourceUnlinkLock id
  let s ← s.destroyNolock id
  let s ← if (s.locks id).grantedMode = some (s.locks id).reqMode then s.poolDel else .ok s
  .ok (s.modifyLock id fun l => { l with grantedMode := none })

/-! ### The extent to grant -/

/-- The loop of `ldlm_extent_internal_policy_fixup` that finds the alignment; behind the last bit it
never ends. -/
def alignMask : Nat → Nat → Nat → Option Nat
  | 0, _, _ => none
  | fuel + 1, reqAlign, mask =>
    if reqAlign &&& mask = 0 then alignMask fuel reqAlign (u64 (mask <<< 1)) else some mask

/-- The alignment part of `ldlm_extent_internal_policy_fixup`. -/
def policyAlign (req newEx : Extent) : Except Fault Extent :=
  let reqAlign := u64 (req.stop + 1) ||| req.start
  match if reqAlign ≠ 0 then alignMask 64 reqAlign 0x1000 else some 0x1000 with
  | none => .error .policyFixup
  | some bit =>
    let mask := bit - 1
    let newEx : Extent :=
      ⟨u64 ((u64Pred newEx.start ||| mask) + 1), u64Pred (u64 (newEx.stop + 1) &&& (maxU64 - mask))⟩
    if newEx.start ≤ req.start ∧ req.stop ≤ newEx.stop then .ok newEx else .error .policyFixup

/-- The limit on the growth of writers among many conflicting locks. -/
def policyCap (req : ExtentLock) (newEx : Extent) (conflicting : Int) : Extent :=
  let grown := u64 (req.reqExtent.start + maxGrownExtent)
  if conflicting > 32 ∧ (req.reqMode = .pw ∨ req.reqMode = .cw) ∧ req.reqExtent.stop < grown then
    { newEx with stop := min grown newEx.stop }
  else newEx

/-- `ldlm_extent_internal_policy_fixup`. -/
def extentInternalPolicyFixup (req : ExtentLock) (newEx : Extent) (conflicting : Int) :
    Except Fault Extent :=
  let newEx := policyCap req newEx conflicting
  if newEx.start = 0 ∧ newEx.stop = maxU64 then .ok newEx
  else policyAlign req.reqExtent newEx

/-- More than four conflicting locks stop the growth downwards. -/
def policyStart (req : ExtentLock) (newEx : Extent) (conflicting : Int) : Extent :=
  if conflicting > 4 then { newEx with start := req.reqExtent.start } else newEx

/-- The loop of `ldlm_extent_internal_policy_granted`: the limiter and the number of conflicting
locks. -/
def policyGrantedLoop (s : ExtentRes) (req : ExtentLock) :
    List Mode → Extent → Int → Except Fault (Extent × Int)
  | [], limiter, conflicting => .ok (limiter, conflicting)
  | m :: ms, limiter, conflicting =>
    if lockmodeCompat m req.reqMode then policyGrantedLoop s req ms limiter conflicting
    else
      let conflicting := conflicting + s.litSize m
      let limiter := policyStart req limiter conflicting
      match (s.tree m).intervalExpand s.fuel (s.litRoot m) req.reqExtent (some limiter) with
      | none => .error .intervalExpand
      | some ext =>
        let limiter : Extent := ⟨max limiter.start ext.start, min limiter.stop ext.stop⟩
        if limiter = req.reqExtent then .ok (limiter, conflicting)
        else policyGrantedLoop s req ms limiter conflicting

/-- `ldlm_extent_internal_policy_granted`. -/
def extentInternalPolicyGranted (s : ExtentRes) (req : ExtentLock) (newEx : Extent) :
    Except Fault Extent := do
  let (newEx, conflicting) ← s.policyGrantedLoop req Mode.all newEx 0
  if newEx.start ≤ req.reqExtent.start ∧ req.reqExtent.stop ≤ newEx.stop then
    extentInternalPolicyFixup req newEx conflicting
  else .error .policyGranted

/-- How `ldlm_extent_internal_policy_waiting` cuts the extent down for a conflicting waiting lock. -/
def policyShrink (req lock : ExtentLock) (newEx : Extent) : Extent :=
  let reqStart := req.reqExtent.start
  let reqEnd := req.reqExtent.stop
  let newEx :=
    if lock.extent.start < reqStart ∧ newEx.start ≠ reqStart then
      if lock.extent.stop ≥ reqStart then { newEx with start := reqStart }
      else { newEx with start := min (u64 (lock.extent.stop + 1)) reqStart }
    else newEx
  if lock.extent.stop > reqEnd then
    if lock.extent.start ≤ reqEnd then
      { newEx with stop := max (u64Pred lock.reqExtent.start) reqEnd }
    else { newEx with stop := max (u64Pred lock.extent.start) reqEnd }
  else newEx

/-- The loop of `ldlm_extent_internal_policy_waiting`; without a number of conflicting locks when it
returned from inside. -/
def policyWaitingLoop (s : ExtentRes) (id : Nat) :
    List Nat → Extent → Int → Extent × Option Int
  | [], newEx, conflicting => (newEx, some conflicting)
  | other :: rest, newEx, conflicting =>
    let req := s.locks id
    let lock := s.locks other
    if newEx = req.reqExtent then (newEx, none)
    else if id = other then policyWaitingLoop s id rest newEx conflicting
    else if lockmodeCompat lock.reqMode req.reqMode ∧ lock.exp ≠ req.exp then
      policyWaitingLoop s id rest newEx conflicting
    else
      let conflicting := conflicting + 1
      let newEx := policyStart req newEx conflicting
      if extentOverlapped lock.extent newEx = false then
        policyWaitingLoop s id rest newEx conflicting
      else if extentOverlapped lock.reqExtent req.reqExtent then
        policyWaitingLoop s id rest newEx conflicting
      else policyWaitingLoop s id rest (policyShrink req lock newEx) conflicting

/-- `ldlm_extent_internal_policy_waiting`. -/
def extentInternalPolicyWaiting (s : ExtentRes) (id : Nat) (newEx : Extent) :
    Except Fault Extent :=
  match s.policyWaitingLoop id s.waiting newEx 0 with
  | (newEx, none) => .ok newEx
  | (newEx, some conflicting) => extentInternalPolicyFixup (s.locks id) newEx conflicting

/-- `ldlm_extent_policy`. -/
def extentPolicy (s : ExtentRes) (id : Nat) (flags : EnqFlags) :
    Except Fault (ExtentRes × EnqFlags) :=
  let lock := s.locks id
  if lock.exp = none then .ok (s, flags)
  else if lock.extent.start = 0 ∧ lock.extent.stop = maxU64 then .ok (s, flags)
  else do
    let newEx ← s.extentInternalPolicyGranted lock ⟨0, maxU64⟩
    let newEx ← s.extentInternalPolicyWaiting id newEx
    if newEx ≠ lock.extent then
      .ok (s.modifyLock id fun l => { l with extent := newEx }, { flags with lockChanged := true })
    else .ok (s, flags)

/-! ### Compatibility scans -/

/-- The variables a scan of `ldlm_extent_compat_queue` changes; `workList` is missing for a
null pointer. -/
structure Compat where
  flags : EnqFlags
  workList : Option (List Nat)
  contended : Nat
  astSent : Nat → Bool
  compat : Int

/-- How an iteration of a scan ends: go on, `break`, `RETURN(rc)`, or `goto destroylock` with `compat`
set. -/
inductive Scan where
  | next
  | brk
  | ret (rc : Int)
  | destroy (rc : Int)
deriving DecidableEq, Repr

/-- `ldlm_add_bl_work_item`; the list is null only in scans that do not call it. -/
def addBlWorkItem (c : Compat) (lock : Nat) : Compat :=
  if c.astSent lock then c
  else { c with astSent := update c.astSent lock true
                workList := c.workList.map (lock :: ·) }

/-- The loop of `ldlm_extent_compat_cb` over a group. -/
def compatGroup (s : ExtentRes) (mode : Mode) : List Nat → Compat → Except Fault Compat
  | [], c => .ok c
  | id :: ids, c =>
    if (s.locks id).grantedMode = some mode then
      compatGroup s mode ids (if (s.locks id).blockingAst then addBlWorkItem c id else c)
    else .error .intervalNode

/-- The body of `ldlm_extent_compat_cb`. -/
def compatNode (s : ExtentRes) (mode : Mode) (n : Nat) (c : Compat) : Except Fault Compat := do
  let first ← s.intervalExtent n
  let c ← s.compatGroup mode (s.liGroup n) c
  let c := if mode = .pr ∧ first.extent.start = 0 ∧ first.extent.stop = maxU64 then c
    else { c with contended := c.contended + (s.liGroup n).length }
  .ok { c with compat := 0 }

/-- `ldlm_extent_compat_cb`; after a failed assertion the tree is not walked further. -/
def extentCompatCb (s : ExtentRes) (mode : Mode) (n : Nat) (data : Except Fault Compat) :
    Tree.Iter × Except Fault Compat :=
  match data with
  | .error e => (.stop, .error e)
  | .ok c =>
    match s.compatNode mode n c with
    | .error e => (.stop, .error e)
    | .ok c => (.cont, .ok c)

/-- The result of a walk over a tree with `ldlm_extent_compat_cb`. -/
def walked : Option (Tree.Iter × Except Fault Compat) → Except Fault Compat
  | none => .error .intervalTree
  | some (_, data) => data

/-- `tree->lit_mode == LCK_GROUP` in the scan of the granted locks. -/
def compatGroupTree (s : ExtentRes) (mode : Mode) (c : Compat) : Except Fault (Compat × Scan) :=
  if c.flags.blockNowait then .ok (c, .destroy (-eWouldBlock))
  else
    let c := { c with flags := { c.flags with noTimeout := true } }
    if c.workList = none then .ok (c, .ret 0)
    else do
      let c ← walked ((s.tree mode).intervalIterateAll s.fuel (s.litRoot mode)
        (s.extentCompatCb mode) (.ok { c with compat := 0 }))
      .ok (c, .next)

/-- The search of another tree in the scan of the granted locks. -/
def compatOtherTree (s : ExtentRes) (req : ExtentLock) (mode : Mode) (c : Compat) :
    Except Fault (Compat × Scan) :=
  if c.workList = none then
    match (s.tree mode).intervalIsOverlapped s.fuel (s.litRoot mode) req.reqExtent with
    | none => .error .intervalTree
    | some true => .ok (c, .ret 0)
    | some false => .ok (c, .next)
  else do
    let c ← walked ((s.tree mode).intervalSearch s.fuel (s.litRoot mode) req.reqExtent
      (s.extentCompatCb mode) (.ok c))
    .ok (if c.workList ≠ some [] ∧ c.compat ≠ 0 then { c with compat := 0 } else c, .next)

/-- One tree in the scan of the granted locks. -/
def compatTree (s : ExtentRes) (req : ExtentLock) (mode : Mode) (c : Compat) :
    Except Fault (Compat × Scan) :=
  match s.litRoot mode with
  | none => .ok (c, .next)
  | some root =>
    if lockmodeCompat req.reqMode mode then
      if req.reqMode ≠ .group then .ok (c, .next)
      else do
        let extent ← s.intervalExtent root
        if req.gid = extent.gid then .ok (c, .ret 2)
        else if mode = .group then s.compatGroupTree mode c
        else s.compatOtherTree req mode c
    else if mode = .group then s.compatGroupTree mode c
    else s.compatOtherTree req mode c

/-- The scan of the granted locks. -/
def compatGranted (s : ExtentRes) (req : ExtentLock) :
    List Mode → Compat → Except Fault (Compat × Scan)
  | [], c => .ok (c, .brk)
  | mode :: modes, c => do
      let (c, scan) ← s.compatTree req mode c
      match scan with
      | .next => compatGranted s req modes c
      | scan => .ok (c, scan)

/-- Queue a group lock in front of a waiting lock. -/
def queueBefore (s : ExtentRes) (lock req : Nat) : Except Fault ExtentRes := do
  let s ← s.insertLockAfter lock req
  let s := s.delInit lock
  s.insertLockAfter req lock

/-- A group request whose scan looks for its place meets a waiting lock. -/
def compatScanned (s : ExtentRes) (id other : Nat) (c : Compat) :
    Except Fault (ExtentRes × Compat × Scan) :=
  let req := s.locks id
  let lock := s.locks other
  if lock.reqMode ≠ .group then do
    let s ← s.queueBefore other id
    .ok (s, { c with compat := 0 }, .brk)
  else if req.gid = lock.gid then do
    let s ← s.insertLockAfter other id
    .ok (s, { c with compat := 0 }, .brk)
  else .ok (s, c, .next)

/-- A request meets a waiting lock it conflicts with by mode. -/
def compatConflict (s : ExtentRes) (id other : Nat) (c : Compat) : Compat × Scan :=
  let req := s.locks id
  let lock := s.locks other
  let count (c : Compat) (check : Bool) : Compat × Scan :=
    if c.workList = none then (c, .ret 0)
    else
      let glimpse : Bool :=
        lock.reqMode = .pr ∧ lock.extent.start = 0 ∧ lock.extent.stop = maxU64
      let c := { c with contended := c.contended + (if check ∧ ¬ glimpse then 1 else 0), compat := 0 }
      (if lock.blockingAst then addBlWorkItem c other else c, .next)
  if lock.reqMode = .group then
    if c.flags.blockNowait then (c, .destroy (-eWouldBlock))
    else count { c with flags := { c.flags with noTimeout := true } } true
  else if lock.extent.stop < req.reqExtent.start ∨ req.reqExtent.stop < lock.extent.start then
    (c, .next)
  else
    count c (¬ (lock.reqExtent.stop < req.reqExtent.start ∨
      req.reqExtent.stop < lock.reqExtent.start))

/-- One lock in the scan of the waiting locks; the Boolean is `scan` of the next
iteration. -/
def compatWaitingLock (s : ExtentRes) (id other : Nat) (scan : Bool) (c : Compat) :
    Except Fault (ExtentRes × Compat × Bool × Scan) := do
  let req := s.locks id
  let lock := s.locks other
  if id = other then .ok (s, c, scan, .brk)
  else if scan then do
    let (s, c, go) ← s.compatScanned id other c
    .ok (s, c, true, go)
  else if lockmodeCompat lock.reqMode req.reqMode ∧ req.reqMode = .pr ∧
      lock.extent.start ≤ req.extent.start ∧ req.extent.stop ≤ lock.extent.stop ∧
      c.astSent other = false then .ok (s, c, false, .ret c.compat)
  else if lockmodeCompat lock.reqMode req.reqMode ∧ req.reqMode ≠ .group then
    .ok (s, c, false, .next)
  else if lockmodeCompat lock.reqMode req.reqMode ∧ req.gid = lock.gid then
    if lock.grantedMode = some lock.reqMode then .ok (s, c, false, .ret 2)
    else if c.flags.blockNowait then .ok (s, c, false, .destroy (-eWouldBlock))
    else do
      let s ← s.insertLockAfter other id
      .ok (s, c, false, .ret 0)
  else if req.reqMode = .group ∧ lock.grantedMode ≠ some lock.reqMode then do
    let (s, c, go) ← s.compatScanned id other { c with compat := 0 }
    .ok (s, c, true, go)
  else
    let (c, go) := s.compatConflict id other c
    .ok (s, c, false, go)

/-- The scan of the waiting locks; the queue changes only in the iteration that ends it. -/
def compatWaiting (id : Nat) :
    List Nat → Bool → ExtentRes → Compat → Except Fault (ExtentRes × Compat × Scan)
  | [], _, s, c => .ok (s, c, .brk)
  | other :: rest, scan, s, c => do
      let (s, c, scan, go) ← s.compatWaitingLock id other scan c
      match go with
      | .next => compatWaiting id rest scan s c
      | go => .ok (s, c, go)

/-- `ldlm_check_contention`. -/
def checkContention (ns : Namespace) (now : Nat) (s : ExtentRes) (contended : Nat) :
    ExtentRes × Bool :=
  let s := if contended > ns.contendedLocks then { s with contentionTime := now } else s
  (s, now < s.contentionTime + ns.contentionTime)

/-- What `ldlm_extent_compat_queue` does after its loop. -/
def compatFinish (ns : Namespace) (now : Nat) (s : ExtentRes) (id : Nat) (c : Compat) (scan : Scan) :
    Except Fault (ExtentRes × Compat × Int) :=
  let s := { s with astSent := c.astSent }
  let destroyLock (s : ExtentRes) (rc : Int) : Except Fault (ExtentRes × Compat × Int) := do
    let s ← (s.delInit id).destroyNolock id
    .ok (s, c, rc)
  match scan with
  | .ret rc => .ok (s, c, rc)
  | .destroy rc => destroyLock s rc
  | _ =>
    let (s, contention) := checkContention ns now s c.contended
    let req := s.locks id
    if contention ∧ c.compat = 0 ∧ c.flags.denyOnContention ∧ req.reqMode ≠ .group ∧
        u64 (req.reqExtent.stop + 2 ^ 64 - req.reqExtent.start) ≤ ns.maxNolockSize then
      destroyLock s (-eUsers)
    else .ok (s, c, c.compat)

/-- `ldlm_extent_compat_queue` on `lr_granted`. -/
def compatQueueGranted (ns : Namespace) (now : Nat) (s : ExtentRes) (id : Nat) (flags : EnqFlags)
    (workList : Option (List Nat)) (contended : Nat) :
    Except Fault (ExtentRes × Compat × Int) := do
  let (c, scan) ← s.compatGranted (s.locks id) Mode.all ⟨flags, workList, contended, s.astSent, 1⟩
  s.compatFinish ns now id c scan

/-- `ldlm_extent_compat_queue` on `lr_waiting`. -/
def compatQueueWaiting (ns : Namespace) (now : Nat) (s : ExtentRes) (id : Nat) (flags : EnqFlags)
    (workList : Option (List Nat)) (contended : Nat) :
    Except Fault (ExtentRes × Compat × Int) := do
  let (s, c, scan) ← compatWaiting id s.waiting false s ⟨flags, workList, contended, s.astSent, 1⟩
  s.compatFinish ns now id c scan

/-! ### Processing a request -/

/-- `discard_bl_list`. -/
def discardBlList : List Nat → ExtentRes → Except Fault ExtentRes
  | [], s => .ok s
  | id :: ids, s =>
    if s.astSent id then
      discardBlList ids { s with astSent := update s.astSent id false }
    else .error .astNotSent

/-- The label `out` of `ldlm_process_extent_lock`. -/
def processOut (s : ExtentRes) (id : Nat) (rpcList : List Nat) : Except Fault ExtentRes :=
  if rpcList = [] then .ok s
  else if (s.locks id).astDiscardData then .error .discardData
  else discardBlList rpcList s

/-- The label `grant` of `ldlm_process_extent_lock`. -/
def processGrant (s : ExtentRes) (id : Nat) (flags : EnqFlags) : Except Fault ExtentRes := do
  let (s, _) ← s.extentPolicy id flags
  let s ← s.resourceUnlinkLock id
  s.grantLock id

/-- The end of a pass that waits: the lock goes to `lr_waiting` unless it is queued, and the resource
lock is dropped. -/
def processWait (s : ExtentRes) (id : Nat) (c : Compat) : Except Fault ExtentRes := do
  let s ← if s.linked id then .ok s else s.addWaiting id
  .ok { s with suspended := ⟨id, c.flags, c.workList.getD []⟩ :: s.suspended }

/-- `ldlm_process_extent_lock` for a first enqueue, from `restart` until it ends or drops the
resource lock. -/
def processFirst (ns : Namespace) (now : Nat) (s : ExtentRes) (id : Nat) (flags : EnqFlags)
    (rpcList : List Nat) : Except Fault ExtentRes := do
  let (s, c, rc) ← s.compatQueueGranted ns now id flags (some rpcList) 0
  if rc < 0 then s.processOut id (c.workList.getD [])
  else if rc = 2 then s.processGrant id c.flags
  else do
    let (s, c, rc2) ← s.compatQueueWaiting ns now id c.flags c.workList c.contended
    if rc2 < 0 then s.processOut id (c.workList.getD [])
    else if rc + rc2 = 2 then s.processGrant id c.flags
    else s.processWait id c

/-- `ldlm_process_extent_lock` for a waiting lock; the Boolean tells whether the pass goes on. -/
def processAgain (ns : Namespace) (now : Nat) (s : ExtentRes) (id : Nat) :
    Except Fault (ExtentRes × Bool) := do
  let (s, c, rc) ← s.compatQueueGranted ns now id {} none 0
  let (s, c, rc) ←
    if rc = 1 then s.compatQueueWaiting ns now id c.flags none c.contended else .ok (s, c, rc)
  if rc = 0 then .ok (s, false)
  else do
    let s ← s.resourceUnlinkLock id
    let (s, _) ← s.extentPolicy id c.flags
    let s ← s.grantLock id
    .ok (s, true)

/-- `ldlm_reprocess_queue` on `lr_waiting`, from its current entry. -/
def reprocessFrom (ns : Namespace) (now : Nat) : Nat → ExtentRes → Option Nat →
    Except Fault ExtentRes
  | 0, s, _ => .ok s
  | _ + 1, s, none => .ok s
  | fuel + 1, s, some id => do
      let pos := nextIn id s.waiting
      let (s, goOn) ← s.processAgain ns now id
      if goOn then reprocessFrom ns now fuel s pos else .ok s

/-- A request as `ldlm_handle_enqueue0` receives it. -/
structure Request where
  mode : Mode
  extent : Extent
  gid : Nat
  exp : Option Nat
  blockingAst : Bool
deriving DecidableEq, Repr

/-- The memory of a new interval node. -/
def zeroNode : Cell Nat NodeData := ⟨none, none, none, ⟨.red, false, 0, ⟨0, 0⟩⟩⟩

/-- `ldlm_lock_create` with what `ldlm_handle_enqueue0` and `ldlm_lock_enqueue` set before the policy. -/
def lockCreate (s : ExtentRes) (r : Request) (flags : EnqFlags) : ExtentRes :=
  let lock : ExtentLock :=
    { reqMode := r.mode, grantedMode := none, reqExtent := r.extent, extent := r.extent,
      gid := r.gid, exp := r.exp, blockingAst := r.blockingAst,
      astDiscardData := flags.astDiscardData, destroyed := false, treeNode := some s.nextNode }
  { s with
    locks := update s.locks s.nextLock lock
    nextLock := s.nextLock + 1
    nodes := update s.nodes s.nextNode zeroNode
    liGroup := update s.liGroup s.nextNode [s.nextLock]
    nextNode := s.nextNode + 1 }

/-- The first pass of a new request. -/
def enqueue (ns : Namespace) (now : Nat) (s : ExtentRes) (r : Request) (flags : EnqFlags) :
    Except Fault ExtentRes :=
  if flags.denyOnContention ∧ flags.astDiscardData then .error .discardData
  else (s.lockCreate r flags).processFirst ns now s.nextLock flags []

/-- `ldlm_process_extent_lock` after `ldlm_run_ast_work`. -/
def resume (ns : Namespace) (now : Nat) (s : ExtentRes) (x : Suspended) (outcome : AstOutcome) :
    Except Fault ExtentRes :=
  let rpcList := if outcome = .noSet then x.rpcList else []
  if x.rpcList = [] ∨ outcome = .sent then .ok s
  else if (s.locks x.lock).destroyed then s.processOut x.lock rpcList
  else if (s.locks x.lock).grantedMode = some (s.locks x.lock).reqMode then
    s.processOut x.lock rpcList
  else s.processFirst ns now x.lock x.flags rpcList

end ExtentRes

/-- What can happen on the resource while its lock is free. -/
inductive Label where
  | enqueue (r : ExtentRes.Request) (flags : EnqFlags) (now : Nat)
  | resume (lock : Nat) (outcome : AstOutcome) (now : Nat)
  | reprocess (now : Nat)
  | cancel (lock : Nat)
deriving DecidableEq, Repr

/-- One step of the resource; a label that names no lock or no suspended call changes
nothing. -/
def ExtentRes.step (ns : Namespace) (s : ExtentRes) : Label → Except Fault ExtentRes
  | .enqueue r flags now => s.enqueue ns now r flags
  | .resume lock outcome now =>
    match s.suspended.find? (·.lock = lock) with
    | none => .ok s
    | some x => { s with suspended := s.suspended.filter (·.lock ≠ lock) }.resume ns now x outcome
  | .reprocess now => s.reprocessFrom ns now s.waiting.length s.waiting.head?
  | .cancel lock => if lock < s.nextLock then s.lockCancel lock else .ok s

/-- A resource without locks in a namespace whose pool counts `others` locks. -/
def ExtentRes.empty (others : Nat) : ExtentRes where
  locks := fun _ => ⟨.nl, none, ⟨0, 0⟩, ⟨0, 0⟩, 0, none, false, false, true, none⟩
  nextLock := 0
  granted := []
  waiting := []
  nodes := fun _ => zeroNode
  litRoot := fun _ => none
  litSize := fun _ => 0
  liGroup := fun _ => []
  nextNode := 0
  astSent := fun _ => false
  contentionTime := 0
  plGranted := others
  suspended := []

end Ldlm
