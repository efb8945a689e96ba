/-
Module: Lustre.Ldlm.Lru
Purpose: `ldlm_prepare_lru_list`: the scan of the unused locks of a client namespace, which marks
  the locks it has passed with `LDLM_FL_SKIPPED`.
Trusted boundary: nothing else works on the namespace during a scan; the clock stands still; less
  than 2^31 locks
-/
import Mathlib.Algebra.Order.Ring.Int
import Mathlib.Data.List.Basic

namespace Ldlm.Lru

open List

/-- `ldlm_type_t` without `LDLM_FLOCK`, which is never on the list of unused locks. -/
inductive LdlmType where
  | plain
  | extent
  | ibits
deriving DecidableEq, Repr

/-- `struct ldlm_lock` on the list: not in use, and without a blocking request, as the scan asserts. -/
structure Lock where
  handle : Nat
  lrType : LdlmType
  lastUsed : Int
  canceling : Bool
  cbPending : Bool
  cancelOnBlock : Bool
  skipped : Bool
deriving DecidableEq, Repr

/-- `struct ldlm_namespace` with the volumes of its pool; `ns_nr_unused` is the length of the list. -/
structure Namespace where
  unusedList : List Lock
  maxUnused : Int
  maxAge : Int
  connectLruResize : Bool
  serverLockVolume : Nat
  lockVolumeFactor : Nat
  cancelForRecovery : Option (Lock → Bool)

/-- The arguments of a scan, `LDLM_CANCEL_*` by their names; the time in jiffies, `hz` a second. -/
structure Scan where
  count : Int
  max : Int
  aged : Bool
  passed : Bool
  shrink : Bool
  lrur : Bool
  noWait : Bool
  now : Int
  hz : Int
deriving DecidableEq, Repr

/-- `ldlm_policy_res_t` -/
inductive PolicyRes where
  | cancelLock
  | keepLock
  | skipLock
deriving DecidableEq, Repr

/-- `ns_cancel_for_recovery` answers yes for an extent or inodebits lock. -/
def Namespace.wants (ns : Namespace) (lock : Lock) : Bool :=
  (lock.lrType = .extent || lock.lrType = .ibits) && ns.cancelForRecovery.any (· lock)

/-- `ldlm_cancel_no_wait_policy` -/
def ldlmCancelNoWaitPolicy (ns : Namespace) (lock : Lock) : PolicyRes × Lock :=
  if ns.wants lock then (.cancelLock, lock) else (.skipLock, { lock with skipped := true })

/-- `ldlm_cancel_lrur_policy`; the volume is a `__u64`. -/
def ldlmCancelLrurPolicy (ns : Namespace) (scan : Scan) (lock : Lock) (unused added count : Int) :
    PolicyRes :=
  let la := (scan.now - lock.lastUsed).tdiv scan.hz
  let lv : Int := ns.lockVolumeFactor * la * unused % 2 ^ 64
  if count ≠ 0 ∧ count ≤ added then .keepLock
  else if ns.serverLockVolume = 0 ∨ lv < ns.serverLockVolume then .keepLock
  else .cancelLock

/-- `ldlm_cancel_passed_policy` -/
def ldlmCancelPassedPolicy (added count : Int) : PolicyRes :=
  if count ≤ added then .keepLock else .cancelLock

/-- `ldlm_cancel_aged_policy` -/
def ldlmCancelAgedPolicy (ns : Namespace) (scan : Scan) (lock : Lock) (added count : Int) :
    PolicyRes :=
  if count ≤ added ∧ scan.now < lock.lastUsed + ns.maxAge then .keepLock else .cancelLock

/-- `ldlm_cancel_default_policy` -/
def ldlmCancelDefaultPolicy (added count : Int) : PolicyRes := ldlmCancelPassedPolicy added count

/-- The policy that `ldlm_cancel_lru_policy` chooses, and what it says about a lock. -/
def ldlmCancelLruPolicy (ns : Namespace) (scan : Scan) (lock : Lock) (unused added count : Int) :
    PolicyRes × Lock :=
  if scan.noWait then ldlmCancelNoWaitPolicy ns lock
  else if ns.connectLruResize then
    if scan.shrink then (ldlmCancelPassedPolicy added count, lock)
    else if scan.lrur then (ldlmCancelLrurPolicy ns scan lock unused added count, lock)
    else if scan.passed then (ldlmCancelPassedPolicy added count, lock)
    else (ldlmCancelDefaultPolicy added count, lock)
  else if scan.aged then (ldlmCancelAgedPolicy ns scan lock added count, lock)
  else (ldlmCancelDefaultPolicy added count, lock)

/-- `ldlm_lock_remove_from_lru_nolock` on a lock that it takes off the list. -/
def ldlmLockRemoveFromLruNolock (lock : Lock) : Lock := { lock with skipped := false }

/-- The inner loop: the locks that stay in front of the one it stops at, and the list from there on. -/
def passLocks (noWait : Bool) : List Lock → List Lock × List Lock
  | [] => ([], [])
  | lock :: rest =>
    if noWait && lock.skipped then (lock :: (passLocks noWait rest).1, (passLocks noWait rest).2)
    -- somebody is already doing CANCEL: off the list
    else if lock.canceling then passLocks noWait rest
    else ([], lock :: rest)

/-- What a scan changes: the list, the cancel list, and two counters. -/
structure Scanned where
  unusedList : List Lock
  cancels : List Lock
  added : Int
  unused : Int
deriving DecidableEq, Repr

/-- A lock goes to the cancel list. -/
def Scanned.cancel (s : Scanned) (lock : Lock) (others : List Lock) : Scanned :=
  let lock := { ldlmLockRemoveFromLruNolock lock with
    cancelOnBlock := false, cbPending := true, canceling := true }
  ⟨others, lock :: s.cancels, s.added + 1, s.unused - 1⟩

/-- The outer loop, with `remained` more locks to look at. -/
def scanLoop (ns : Namespace) (scan : Scan) (count : Int) : Nat → Scanned → Scanned
  | 0, s => s
  | remained + 1, s =>
    if scan.max ≠ 0 ∧ scan.max ≤ s.added then s
    else
      match passLocks scan.noWait s.unusedList with
      | (passed, []) => { s with unusedList := passed }
      | (passed, lock :: rest) =>
        match ldlmCancelLruPolicy ns scan lock s.unused s.added count with
        | (.keepLock, lock) => { s with unusedList := passed ++ lock :: rest }
        | (.skipLock, lock) =>
          scanLoop ns scan count remained { s with unusedList := passed ++ lock :: rest }
        | (.cancelLock, lock) => scanLoop ns scan count remained (s.cancel lock (passed ++ rest))

/-- `ldlm_prepare_lru_list` -/
def ldlmPrepareLruList (ns : Namespace) (cancels : List Lock) (scan : Scan) : Scanned :=
  let unused : Int := ns.unusedList.length
  let count := if ns.connectLruResize then scan.count else scan.count + (unused - ns.maxUnused)
  scanLoop ns scan count ns.unusedList.length ⟨ns.unusedList, cancels, 0, unused⟩

/-! ### Scans before recovery -/

/-- A lock that a scan before recovery looks at. -/
def Lock.fresh (lock : Lock) : Bool := !lock.canceling && !lock.skipped

/-- A lock that it moves to the cancel list. -/
def Namespace.moves (ns : Namespace) (lock : Lock) : Bool :=
  !lock.canceling && (!lock.skipped && ns.wants lock)

/-- A lock that it leaves, of those that are not being cancelled. -/
def Namespace.leaves (ns : Namespace) (lock : Lock) : Bool :=
  !lock.canceling && (lock.skipped || !ns.wants lock)

/-- What the inner loop leaves of a list. -/
structure Passed (list passed rest : List Lock) : Prop where
  keeps : ∀ p : Lock → Bool, list.filter (fun lock => !lock.canceling && p lock) =
    (passed ++ rest).filter fun lock => !lock.canceling && p lock
  skipped : ∀ lock ∈ passed, lock.skipped = true
  head : ∀ lock ∈ rest.head?, lock.canceling = false ∧ lock.skipped = false

theorem passLocks_passed (list : List Lock) :
    Passed list (passLocks true list).1 (passLocks true list).2 := by
  induction list with
  | nil => exact ⟨fun _ => rfl, nofun, nofun⟩
  | cons lock list ih =>
    rw [passLocks]
    split
    · rename_i skip
      refine ⟨fun p => ?_, forall_mem_cons.mpr ⟨skip, ih.skipped⟩, ih.head⟩
      rw [cons_append, filter_cons, filter_cons, ih.keeps p]
    · rename_i fresh
      split
      · rename_i canceling
        refine ⟨fun p => ?_, ih.skipped, ih.head⟩
        rw [filter_cons, canceling, ← ih.keeps p]
        rfl
      · rename_i going
        refine ⟨fun _ => rfl, nofun, fun other same => ?_⟩
        cases Option.some.inj same
        exact ⟨Bool.eq_false_iff.mpr going, Bool.eq_false_iff.mpr fresh⟩

/-- What a scan before recovery does to a list, the locks by their handles. -/
structure Recovered (ns : Namespace) (list cancels : List Lock) (t : Scanned) : Prop where
  moved : t.cancels.map (·.handle) =
    ((list.filter ns.moves).map (·.handle)).reverse ++ cancels.map (·.handle)
  left : (t.unusedList.filter (!·.canceling)).map (·.handle) =
    (list.filter ns.leaves).map (·.handle)

section

variable {ns : Namespace} {s : Scanned}

/-- Nothing is left to look at. -/
theorem recovered_of_none (none : s.unusedList.filter Lock.fresh = []) :
    Recovered ns s.unusedList s.cancels s := by
  have seen := filter_eq_nil_iff.mp none
  have moves : s.unusedList.filter ns.moves = [] := by
    refine filter_eq_nil_iff.mpr fun lock mem => ?_
    have := seen lock mem
    grind [Lock.fresh, Namespace.moves]
  have leaves : s.unusedList.filter (!·.canceling) = s.unusedList.filter ns.leaves := by
    refine filter_congr fun lock mem => ?_
    have := seen lock mem
    grind [Lock.fresh, Namespace.leaves]
  exact ⟨by rw [moves]; rfl, by rw [leaves]⟩

/-- A scan before recovery that may look at every lock moves and leaves what it has to. -/
theorem scanLoop_recovered {scan : Scan} (noWait : scan.noWait = true) (unbounded : scan.max = 0)
    (count : Int) (remained : Nat) (enough : (s.unusedList.filter Lock.fresh).length ≤ remained) :
    Recovered ns s.unusedList s.cancels (scanLoop ns scan count remained s) := by
  induction remained generalizing s with
  | zero => exact recovered_of_none (eq_nil_of_length_eq_zero (Nat.le_zero.mp enough))
  | succ remained ih =>
    rw [scanLoop, if_neg fun full => full.1 unbounded, noWait]
    have kept := passLocks_passed s.unusedList
    generalize passLocks true s.unusedList = result at kept
    obtain ⟨passed, rest⟩ := result
    have seen : passed.filter Lock.fresh = [] := by
      refine filter_eq_nil_iff.mpr fun lock mem => ?_
      have := kept.skipped lock mem
      grind [Lock.fresh]
    have same : s.unusedList.filter Lock.fresh = (passed ++ rest).filter Lock.fresh := kept.keeps _
    have moves : s.unusedList.filter ns.moves = (passed ++ rest).filter ns.moves := kept.keeps _
    have leaves : s.unusedList.filter ns.leaves = (passed ++ rest).filter ns.leaves := kept.keeps _
    suffices rounds : Recovered ns (passed ++ rest) s.cancels _ from
      ⟨moves ▸ rounds.moved, leaves ▸ rounds.left⟩
    rw [same, filter_append, seen, nil_append] at enough
    cases rest with
    | nil =>
      rw [append_nil]
      exact recovered_of_none (s := { s with unusedList := passed }) seen
    | cons lock rest =>
      obtain ⟨going, unskipped⟩ := kept.head lock rfl
      rw [filter_cons, if_pos (by rw [Lock.fresh, going, unskipped]; rfl)] at enough
      dsimp only
      rw [ldlmCancelLruPolicy, if_pos noWait, ldlmCancelNoWaitPolicy]
      split_ifs with wanted
      · have rest := @ih (s.cancel lock (passed ++ rest))
          (by rw [Scanned.cancel, filter_append, seen]; exact Nat.le_of_succ_le_succ enough)
        have none : passed.filter ns.moves = [] := by
          refine filter_eq_nil_iff.mpr fun lock mem => ?_
          have := kept.skipped lock mem
          grind [Namespace.moves]
        refine ⟨rest.moved.trans ?_, rest.left.trans ?_⟩
        · simp [Scanned.cancel, ldlmLockRemoveFromLruNolock, Namespace.moves, none, going, unskipped, wanted]
        · simp [Scanned.cancel, Namespace.leaves, going, unskipped, wanted]
      · have rest := @ih { s with unusedList := passed ++ { lock with skipped := true } :: rest } (by
          rw [filter_append, seen, filter_cons, if_neg (by simp [Lock.fresh])]
          exact Nat.le_of_succ_le_succ enough)
        refine ⟨rest.moved.trans ?_, rest.left.trans ?_⟩
        · simp [Namespace.moves, going, wanted]
        · simp [Namespace.leaves, going, wanted]

end

/-- A lock that a scan before recovery is to cancel. -/
def Namespace.due (ns : Namespace) (lock : Lock) : Bool := !lock.canceling && ns.wants lock

/-- A scan before recovery moves the locks that are due and leaves the others that are not being
cancelled, exactly when no earlier scan has skipped one that is due. -/
theorem no_wait_scan_complete_iff (ns : Namespace) (cancels : List Lock) (scan : Scan) :
    let t := ldlmPrepareLruList ns cancels { scan with noWait := true, max := 0 }
    (t.cancels.map (·.handle)).Perm
        ((ns.unusedList.filter ns.due).map (·.handle) ++ cancels.map (·.handle)) ∧
      (t.unusedList.filter (!·.canceling)).map (·.handle) =
        (ns.unusedList.filter fun lock => !lock.canceling && !ns.wants lock).map (·.handle) ↔
    ∀ lock ∈ ns.unusedList, ns.due lock = true → lock.skipped = false := by
  intro t
  obtain ⟨moved, left⟩ : Recovered ns ns.unusedList cancels t :=
    @scanLoop_recovered ns ⟨ns.unusedList, cancels, 0, ns.unusedList.length⟩ _ rfl rfl _ _
      (length_filter_le ..)
  have moves : ns.moves = fun lock => !lock.skipped && ns.due lock := by
    funext lock
    exact Bool.and_left_comm ..
  rw [moved, left]
  constructor
  · rintro ⟨perm, _⟩ lock mem due
    have lengths := perm.length_eq
    rw [length_append, length_append, Nat.add_right_cancel_iff, length_reverse, length_map, length_map,
      moves, ← filter_filter, length_filter_eq_length_iff] at lengths
    exact Bool.not_eq_true' _ ▸ lengths lock (mem_filter.mpr ⟨mem, due⟩)
  · intro unskipped
    have same : ns.unusedList.filter ns.moves = ns.unusedList.filter ns.due := by
      refine filter_congr fun lock mem => ?_
      have := unskipped lock mem
      grind [Namespace.moves, Namespace.due]
    have others : ns.unusedList.filter ns.leaves =
        ns.unusedList.filter fun lock => !lock.canceling && !ns.wants lock := by
      refine filter_congr fun lock mem => ?_
      have := unskipped lock mem
      grind [Namespace.leaves, Namespace.due]
    rw [same, others]
    exact ⟨(reverse_perm _).append_right _, rfl⟩

/-- A client namespace whose callback answers the same for all locks. -/
def clientOf (locks : List Lock) (answer : Bool) : Namespace :=
  ⟨locks, 0, 0, true, 0, 0, some fun _ => answer⟩

/-- The pages under an extent lock are in use in one recovery but not in the next, which does not cancel
it either. -/
theorem skipped_lock_never_cancelled :
    let scan : Scan := ⟨1, 0, false, false, false, false, true, 0, 1⟩
    let first := ldlmPrepareLruList (clientOf [⟨1, .extent, 0, false, false, false, false⟩] false) [] scan
    let ns := clientOf first.unusedList true
    ns.unusedList.map ns.due = [true] ∧ (ldlmPrepareLruList ns [] scan).cancels = [] := by
  decide

end Ldlm.Lru
