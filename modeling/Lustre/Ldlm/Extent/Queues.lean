/-
Module: Lustre.Ldlm.Extent.Queues
Purpose: What the operations on extent locks do to the queues and to the fields of the locks,
  whatever happens inside the interval trees.
Trusted boundary: none
-/
import Lustre.Lib.Run
import Lustre.Ldlm.Extent.Model
import Lustre.Ldlm.IntervalTree.Search

namespace Ldlm

open PointerHeap Run List

/-- The assertions of the interval trees and of the extent policy. -/
def Fault.ofTree : Fault → Bool
  | .intervalNode | .intervalTree | .intervalExpand | .policyGranted | .policyFixup => true
  | _ => false

/-- A result with a property, or one of these assertions fails. -/
abbrev OrTree {σ : Type} (P : σ → Prop) : Except Fault σ → Prop := Outcome P (·.ofTree = true)

variable {s s' : ExtentRes} {id : Nat}

namespace ExtentRes

/-- The two states differ at most in the interval nodes and in the links to them. -/
structure TreeOnly (s s' : ExtentRes) : Prop where
  locks : ∀ id, s'.locks id = { s.locks id with treeNode := (s'.locks id).treeNode }
  nextLock : s'.nextLock = s.nextLock
  granted : s'.granted = s.granted
  waiting : s'.waiting = s.waiting
  nextNode : s'.nextNode = s.nextNode
  astSent : s'.astSent = s.astSent
  contentionTime : s'.contentionTime = s.contentionTime
  plGranted : s'.plGranted = s.plGranted
  suspended : s'.suspended = s.suspended

theorem TreeOnly.trans {s'' : ExtentRes} (h : TreeOnly s s') (h' : TreeOnly s' s'') :
    TreeOnly s s'' where
  locks id := by rw [h'.locks id, h.locks id]
  nextLock := h'.nextLock.trans h.nextLock
  granted := h'.granted.trans h.granted
  waiting := h'.waiting.trans h.waiting
  nextNode := h'.nextNode.trans h.nextNode
  astSent := h'.astSent.trans h.astSent
  contentionTime := h'.contentionTime.trans h.contentionTime
  plGranted := h'.plGranted.trans h.plGranted
  suspended := h'.suspended.trans h.suspended

theorem TreeOnly.linked (h : TreeOnly s s') (id : Nat) : s'.linked id = s.linked id := by
  rw [ExtentRes.linked, ExtentRes.linked, h.granted, h.waiting]

theorem TreeOnly.destroyed (h : TreeOnly s s') (id : Nat) :
    (s'.locks id).destroyed = (s.locks id).destroyed := by rw [h.locks id]

variable (s)

theorem TreeOnly.refl : TreeOnly s s := by
  constructor <;> intros <;> rfl

theorem modifyLock_locks (id other : Nat) (f : ExtentLock → ExtentLock) :
    (s.modifyLock id f).locks other = if other = id then f (s.locks id) else s.locks other := by
  simp [modifyLock, Function.update_apply]

theorem TreeOnly.setNode (id : Nat) (n : Option Nat) :
    TreeOnly s (s.modifyLock id fun l => { l with treeNode := n }) := by
  refine { TreeOnly.refl s with locks := fun other => ?_ }
  rw [modifyLock_locks]
  split
  · next same => rw [same]
  · rfl

theorem TreeOnly.setGroup (n : Nat) (group : List Nat) :
    TreeOnly s (s.setGroup n group) := { TreeOnly.refl s with }

theorem TreeOnly.setTree (m : Mode) (t : Tree Nat) : TreeOnly s (s.setTree m t) :=
  { TreeOnly.refl s with }

theorem TreeOnly.addSize (m : Mode) (d : Int) : TreeOnly s (s.addSize m d) :=
  { TreeOnly.refl s with }

/-! ### Interval nodes -/

theorem intervalAttach_effect (n id : Nat) :
    OrTree (TreeOnly s) (s.intervalAttach n id) := by
  rw [intervalAttach]
  split
  · rfl
  · exact (TreeOnly.setGroup s n _).trans (TreeOnly.setNode _ id _)

theorem intervalDetach_effect (id : Nat) :
    OrTree (fun x => TreeOnly s x.1) (s.intervalDetach id) := by
  rw [intervalDetach]
  split
  · exact .refl s
  · split
    · rfl
    · exact (TreeOnly.setNode s id _).trans (TreeOnly.setGroup _ _ _)

theorem intervalFree_effect (n : Nat) :
    OrTree (fun _ => True) (s.intervalFree n) := by
  rw [intervalFree]
  split
  · rfl
  · split
    · rfl
    · trivial

theorem extentUnlinkLock_effect (id : Nat) :
    OrTree (TreeOnly s) (s.extentUnlinkLock id) := by
  rw [extentUnlinkLock]
  split
  · exact .refl s
  split
  · split
    · rfl
    split
    · rfl
    next m _ _ =>
    refine (intervalDetach_effect (s.addSize m (-1)) id).bind ?_
    rintro ⟨s', node⟩ detached
    have same : TreeOnly s s' := (TreeOnly.addSize s m (-1)).trans detached
    cases node with
    | none => exact same
    | some n =>
      dsimp only
      split
      · rfl
      · refine (intervalFree_effect _ _).bind fun _ _ => ?_
        exact same.trans (.setTree s' m _)
  · exact .refl s

/-- `ldlm_resource_unlink_lock` takes a lock from its queue. -/
theorem resourceUnlinkLock_effect (id : Nat) :
    OrTree (TreeOnly (s.delInit id)) (s.resourceUnlinkLock id) := by
  refine (extentUnlinkLock_effect s id).bind fun s' same => ?_
  refine { same with granted := ?_, waiting := ?_ }
  · simp only [delInit, same.granted]
  · simp only [delInit, same.waiting]

variable {s}

section

variable (alive : (s.locks id).destroyed = false) (free : s.linked id = false)

include alive free

/-- A lock on no queue is added at the end of `lr_granted`. -/
theorem addGranted_eq :
    s.addGranted id = .ok { s with granted := s.granted ++ [id] } := by
  simp [addGranted, alive, free]

theorem addSize_addGranted_effect (m : Mode) (same : TreeOnly s s') :
    OrTree (TreeOnly { s with granted := s.granted ++ [id] }) ((s'.addSize m 1).addGranted id) := by
  have same : TreeOnly s (s'.addSize m 1) := same.trans (.addSize s' m 1)
  rw [addGranted_eq (by rw [same.destroyed, alive]) (by rw [same.linked, free])]
  exact { same with granted := by rw [same.granted] }

theorem extentAddLock_effect :
    OrTree (TreeOnly { s with granted := s.granted ++ [id] }) (s.extentAddLock id) := by
  simp only [extentAddLock]
  split
  · rfl
  split
  · rfl
  split
  · rfl
  split
  · rfl
  split
  · rfl
  next t found _ =>
  have set := TreeOnly.setTree s (s.locks id).reqMode t
  cases found with
  | none => exact addSize_addGranted_effect alive free _ set
  | some other =>
    refine (intervalDetach_effect _ id).bind ?_
    rintro ⟨s₁, own⟩ same₁
    cases own with
    | none => rfl
    | some own =>
      refine (intervalFree_effect s₁ own).bind fun _ _ => ?_
      refine (intervalAttach_effect s₁ other id).bind fun s₂ same₂ => ?_
      exact addSize_addGranted_effect alive free _ ((set.trans same₁).trans same₂)

/-- The state after a lock was granted, as far as it is visible outside the trees. -/
def grantedState (s : ExtentRes) (id : Nat) : ExtentRes :=
  { s.modifyLock id (fun l => { l with grantedMode := some l.reqMode }) with
    granted := s.granted ++ [id], plGranted := s.plGranted + 1 }

/-- `ldlm_grant_lock` of a lock on no queue. -/
theorem grantLock_effect :
    OrTree (TreeOnly (s.grantedState id)) (s.grantLock id) := by
  let s₁ := s.modifyLock id fun l => { l with grantedMode := some l.reqMode }
  have alive₁ : (s₁.locks id).destroyed = false := by
    rw [modifyLock_locks, if_pos rfl]
    exact alive
  have free₁ : s₁.linked id = false := free
  refine (extentAddLock_effect alive₁ free₁).bind fun s' same => ?_
  exact { same with plGranted := congrArg (· + 1) same.plGranted }

end

/-- The state after a cancelled lock was destroyed. -/
def cancelledState (s : ExtentRes) (id pool : Nat) : ExtentRes :=
  { s.modifyLock id (fun l => { l with destroyed := true, grantedMode := none }) with
    plGranted := pool }

/-- `ldlm_lock_cancel` after the lock left its queue. -/
theorem lockCancel_eq (unlink : s.resourceUnlinkLock id = .ok s') (free : s'.linked id = false) :
    s.lockCancel id =
      if (s'.locks id).grantedMode = some (s'.locks id).reqMode then
        if s'.plGranted = 0 then .error .poolEmpty
        else .ok (s'.cancelledState id (s'.plGranted - 1))
      else .ok (s'.cancelledState id s'.plGranted) := by
  let s₁ := s'.modifyLock id fun l => { l with destroyed := true }
  have gone : s'.destroyNolock id = .ok s₁ := by
    rw [destroyNolock, free]
    rfl
  have mode : ((s₁.locks id).grantedMode = some (s₁.locks id).reqMode) =
      ((s'.locks id).grantedMode = some (s'.locks id).reqMode) := by
    rw [modifyLock_locks, if_pos rfl]
  have done : ∀ pool, ({ s₁ with plGranted := pool } : ExtentRes).modifyLock id
      (fun l => { l with grantedMode := none }) = s'.cancelledState id pool := by
    simp [s₁, cancelledState, modifyLock]
  rw [lockCancel, unlink]
  change (s'.destroyNolock id >>= fun s => _) = _
  rw [gone]
  change (if (s₁.locks id).grantedMode = some (s₁.locks id).reqMode then
    s₁.poolDel >>= fun s => Except.ok (s.modifyLock id fun l => { l with grantedMode := none })
    else Except.ok (s₁.modifyLock id fun l => { l with grantedMode := none })) = _
  rw [if_congr (iff_of_eq mode) rfl rfl]
  split
  · change (if s'.plGranted = 0 then _ else _) >>= _ = _
    split
    · rfl
    · exact congrArg Except.ok (done _)
  · exact congrArg Except.ok (done _)

theorem policyGrantedLoop_effect (s : ExtentRes) (req : ExtentLock) (modes : List Mode)
    (limiter : Extent) (conflicting : Int) :
    OrTree (fun _ => True) (s.policyGrantedLoop req modes limiter conflicting) := by
  induction modes generalizing limiter conflicting with
  | nil => trivial
  | cons m modes ih =>
    rw [policyGrantedLoop]
    split
    · exact ih _ _
    · dsimp only
      split
      · rfl
      · split
        · trivial
        · exact ih _ _

theorem policyFixup_effect (req : ExtentLock) (newEx : Extent) (conflicting : Int) :
    OrTree (fun _ => True) (extentInternalPolicyFixup req newEx conflicting) := by
  simp only [extentInternalPolicyFixup]
  split
  · trivial
  · rw [policyAlign]
    split
    · rfl
    · dsimp only
      split
      · trivial
      · rfl

/-- `ldlm_extent_policy` changes at most the extent of the lock. -/
theorem extentPolicy_effect (s : ExtentRes) (id : Nat) (flags : EnqFlags) :
    OrTree (fun x => ∃ e, x.1 = s.modifyLock id fun l => { l with extent := e })
      (s.extentPolicy id flags) := by
  have unchanged : s = s.modifyLock id fun l => { l with extent := (s.locks id).extent } := by
    simp [modifyLock]
  simp only [extentPolicy]
  split
  · exact ⟨_, unchanged⟩
  split
  · exact ⟨_, unchanged⟩
  have granted : OrTree (fun _ : Extent => True)
      (s.extentInternalPolicyGranted (s.locks id) ⟨0, maxU64⟩) := by
    refine (policyGrantedLoop_effect s _ _ _ _).bind fun x _ => ?_
    dsimp only
    split
    · exact policyFixup_effect _ _ _
    · rfl
  refine granted.bind fun e _ => ?_
  have waiting : OrTree (fun _ : Extent => True) (s.extentInternalPolicyWaiting id e) := by
    rw [extentInternalPolicyWaiting]
    split
    · trivial
    · exact policyFixup_effect _ _ _
  refine waiting.bind fun e _ => ?_
  split
  · exact ⟨e, rfl⟩
  · exact ⟨_, unchanged⟩

/-! ### Scans -/

/-- A part of a scan may find a conflict or set `LDLM_FL_NO_TIMEOUT`, and lists the locks that it marks
`LDLM_FL_AST_SENT`. -/
structure Compat.Step (c c' : Compat) : Prop where
  compat : c'.compat = c.compat ∨ c'.compat = 0
  flags : c'.flags = { c.flags with noTimeout := c'.flags.noTimeout }
  sent : ∀ id, c.astSent id = true → c'.astSent id = true
  marks : ∃ new : List Nat, c'.workList = c.workList.map (new ++ ·) ∧ new.Nodup ∧
    ∀ id ∈ new, c.astSent id = false ∧ c'.astSent id = true

open Compat

theorem Compat.Step.refl (c : Compat) : Step c c where
  compat := .inl rfl
  flags := rfl
  sent _ h := h
  marks := ⟨[], by simp, nodup_nil, by simp⟩

/-- What a first scan marked is not marked again by a second one. -/
theorem marked_append {a a' a'' : Nat → Bool} {new new' : List Nat}
    (sent : ∀ id, a id = true → a' id = true) (sent' : ∀ id, a' id = true → a'' id = true)
    (first : new.Nodup ∧ ∀ id ∈ new, a id = false ∧ a' id = true)
    (second : new'.Nodup ∧ ∀ id ∈ new', a' id = false ∧ a'' id = true) :
    (new' ++ new).Nodup ∧ ∀ id ∈ new' ++ new, a id = false ∧ a'' id = true := by
  refine ⟨nodup_append.mpr ⟨second.1, first.1, ?_⟩, forall_mem_append.mpr
    ⟨fun id mem => ⟨Bool.eq_false_iff.mpr fun set => ?_, (second.2 id mem).2⟩,
      fun id mem => ⟨(first.2 id mem).1, sent' id (first.2 id mem).2⟩⟩⟩
  · rintro id inNew' _ inNew rfl
    cases (second.2 id inNew').1.symm.trans (first.2 id inNew).2
  · cases (second.2 id mem).1.symm.trans (sent id set)

theorem Compat.Step.trans {c c' c'' : Compat} (h : Step c c') (h' : Step c' c'') :
    Step c c'' where
  compat := by
    rcases h'.compat with same | zero
    · rw [same]
      exact h.compat
    · exact .inr zero
  flags := by rw [h'.flags, h.flags]
  sent id set := h'.sent id (h.sent id set)
  marks := by
    obtain ⟨new, list, first⟩ := h.marks
    obtain ⟨new', list', second⟩ := h'.marks
    refine ⟨new' ++ new, ?_, marked_append h.sent h'.sent first second⟩
    rw [list', list, Option.map_map]
    simp [Function.comp_def]

theorem Compat.Step.contended (c : Compat) (n : Nat) : Step c { c with contended := n } :=
  { Step.refl c with }

theorem Compat.Step.zero (c : Compat) : Step c { c with compat := 0 } :=
  { Step.refl c with compat := .inr rfl }

theorem Compat.Step.count (c : Compat) (n : Nat) : Step c { c with contended := n, compat := 0 } :=
  (Step.contended c n).trans (Step.zero _)

theorem Compat.Step.noTimeout (c : Compat) :
    Step c { c with flags := { c.flags with noTimeout := true } } :=
  { Step.refl c with flags := rfl }

theorem addBlWorkItem_step (c : Compat) (id : Nat) : Step c (addBlWorkItem c id) := by
  rw [addBlWorkItem]
  split
  · exact .refl c
  · next unset =>
    refine ⟨.inl rfl, rfl, fun other set => ?_, [id], by simp, by simp, ?_⟩
    · simp only [Function.update_apply]
      split
      · rfl
      · exact set
    · intro other mem
      rw [mem_singleton.mp mem]
      simpa using unset

section

variable (s) (mode : Mode) (c : Compat)

theorem compatGroup_effect (ids : List Nat) :
    OrTree (Step c) (s.compatGroup mode ids c) := by
  induction ids generalizing c with
  | nil => exact .refl c
  | cons id ids ih =>
    rw [compatGroup]
    split
    · have marked : Step c (if (s.locks id).blockingAst then addBlWorkItem c id else c) := by
        split
        · exact addBlWorkItem_step c id
        · exact .refl c
      exact (ih _).mono fun _ step => marked.trans step
    · rfl

theorem intervalExtent_effect (n : Nat) :
    OrTree (fun _ => True) (s.intervalExtent n) := by
  rw [intervalExtent]
  split
  · rfl
  · trivial

theorem compatNode_effect (n : Nat) :
    OrTree (fun c' => Step c c' ∧ c'.compat = 0) (s.compatNode mode n c) := by
  refine (intervalExtent_effect s n).bind fun first _ => ?_
  refine (compatGroup_effect s mode c _).bind fun c' step => ?_
  split
  · exact ⟨step.trans (.zero c'), rfl⟩
  · exact ⟨(step.trans (.contended c' _)).trans (.zero _), rfl⟩

theorem extentCompatCb_effect (n : Nat) (data : Except Fault Compat)
    (kept : OrTree (Step c) data) :
    OrTree (Step c) (s.extentCompatCb mode n data).2 := by
  cases data with
  | error e => exact kept
  | ok c' =>
    have called := compatNode_effect s mode c' n
    rw [extentCompatCb]
    cases result : s.compatNode mode n c' with
    | error e => rwa [result] at called
    | ok c'' =>
      rw [result] at called
      exact .trans kept called.1

theorem walked_effect {c : Compat} {result : Option (Tree.Iter × Except Fault Compat)}
    (kept : ∀ x, result = some x → OrTree (Step c) x.2) :
    OrTree (Step c) (walked result) := by
  cases result with
  | none => rfl
  | some x => exact kept x rfl

/-- How the scan of a queue can end, seen from the variables it leaves. -/
def ScanEnd (c' : Compat) (scan : Scan) : Prop :=
  scan = .next ∨ scan = .brk ∨ scan = .ret 0 ∨ scan = .ret 2 ∨
    scan = .destroy (-eWouldBlock) ∧ c'.flags.blockNowait = true

theorem compatGroupTree_effect :
    OrTree (fun x => Step c x.1 ∧ ScanEnd x.1 x.2) (s.compatGroupTree mode c) := by
  rw [compatGroupTree]
  split
  · next nowait => exact ⟨.refl c, by simp [ScanEnd, nowait]⟩
  · dsimp only
    split
    · exact ⟨.noTimeout c, by simp [ScanEnd]⟩
    · let c₁ : Compat := { c with flags := { c.flags with noTimeout := true }, compat := 0 }
      have start : Step c c₁ := (Step.noTimeout c).trans (Step.zero _)
      have fromHere : OrTree (Step c₁) (.ok c₁) := Step.refl c₁
      refine .bind (P := Step c₁) (walked_effect fun x run => ?_) fun c' step => ?_
      · exact intervalIterateAll_keeps (extentCompatCb_effect s mode c₁) fromHere run
      · exact ⟨start.trans step, by simp [ScanEnd]⟩

theorem compatOtherTree_effect (req : ExtentLock) :
    OrTree (fun x => Step c x.1 ∧ ScanEnd x.1 x.2) (s.compatOtherTree req mode c) := by
  rw [compatOtherTree]
  split
  · split
    · rfl
    · exact ⟨.refl c, by simp [ScanEnd]⟩
    · exact ⟨.refl c, by simp [ScanEnd]⟩
  · have fromHere : OrTree (Step c) (.ok c) := Step.refl c
    refine .bind (P := Step c) (walked_effect fun x run => ?_) fun c' step => ?_
    · exact intervalSearch_keeps (extentCompatCb_effect s mode c) _ fromHere run
    · refine ⟨?_, by simp [ScanEnd]⟩
      split
      · exact step.trans (.zero c')
      · exact step

theorem compatTree_effect (req : ExtentLock) :
    OrTree (fun x => Step c x.1 ∧ ScanEnd x.1 x.2) (s.compatTree req mode c) := by
  rw [compatTree]
  split
  · exact ⟨.refl c, by simp [ScanEnd]⟩
  split
  · split
    · exact ⟨.refl c, by simp [ScanEnd]⟩
    · next root _ _ _ =>
      refine (intervalExtent_effect s root).bind fun extent _ => ?_
      split
      · exact ⟨.refl c, by simp [ScanEnd]⟩
      split
      · exact compatGroupTree_effect s mode c
      · exact compatOtherTree_effect s mode c req
  split
  · exact compatGroupTree_effect s mode c
  · exact compatOtherTree_effect s mode c req

end

theorem compatGranted_effect (s : ExtentRes) (req : ExtentLock) (modes : List Mode) (c : Compat) :
    OrTree (fun x => Step c x.1 ∧ ScanEnd x.1 x.2 ∧ x.2 ≠ .next) (s.compatGranted req modes c) := by
  induction modes generalizing c with
  | nil => exact ⟨Step.refl c, by simp [ScanEnd], Scan.noConfusion⟩
  | cons mode modes ih =>
    refine (compatTree_effect s mode c req).bind ?_
    rintro ⟨c', scan⟩ ⟨step, ends⟩
    cases scan with
    | next => exact (ih c').mono fun x h => ⟨step.trans h.1, h.2⟩
    | brk | ret | destroy => exact ⟨step, ends, Scan.noConfusion⟩

end ExtentRes

open ExtentRes.Compat

variable {s : ExtentRes} {id : Nat} {cur : Option Nat}

namespace ExtentRes

/-! ### The invariant -/

/-- A lock may stand in front of a group lock only if it is one too or shares its id. -/
def GroupFirst (locks : Nat → ExtentLock) (a r : Nat) : Prop :=
  (locks r).reqMode = .group → (locks a).reqMode = .group ∨ (locks a).gid = (locks r).gid

/-- The queues are consistent; `cur` is a request in processing that need not be queued. -/
structure Queued (s : ExtentRes) (cur : Option Nat) : Prop where
  grantedNodup : s.granted.Nodup
  waitingNodup : s.waiting.Nodup
  apart : ∀ id ∈ s.granted, id ∉ s.waiting
  known : ∀ id, s.linked id = true → id < s.nextLock
  alive : ∀ id, s.linked id = true → (s.locks id).destroyed = false
  held : ∀ id ∈ s.granted, (s.locks id).grantedMode = some (s.locks id).reqMode
  blocked : ∀ id ∈ s.waiting, (s.locks id).grantedMode = none
  groupFirst : s.waiting.Pairwise (GroupFirst s.locks)
  complete : ∀ id < s.nextLock, some id ≠ cur → (s.locks id).destroyed = true ∨ s.linked id = true
  suspended : ∀ x ∈ s.suspended, x.lock < s.nextLock

/-- No lock of its own group is in front of a queued group lock. -/
def Clear (s : ExtentRes) (id : Nat) : Prop :=
  (s.locks id).reqMode = .group → id ∈ s.waiting →
    ∀ a ∈ s.waiting.takeWhile (· ≠ id), (s.locks a).gid ≠ (s.locks id).gid

instance (s : ExtentRes) (id : Nat) : Decidable (s.Clear id) :=
  inferInstanceAs (Decidable (_ → _ → _))

theorem linked_iff : s.linked id = true ↔ id ∈ s.granted ∨ id ∈ s.waiting := by
  simp [linked]

theorem not_linked_iff : s.linked id = false ↔ id ∉ s.granted ∧ id ∉ s.waiting := by
  simp [linked]

/-- The invariant reads only the queues and four fields of the locks. -/
theorem Queued.congr {s' : ExtentRes} (h : Queued s cur) (granted : s'.granted = s.granted)
    (waiting : s'.waiting = s.waiting) (nextLock : s'.nextLock = s.nextLock)
    (suspended : s'.suspended = s.suspended)
    (fields : ∀ id, (s'.locks id).reqMode = (s.locks id).reqMode ∧ (s'.locks id).grantedMode = (s.locks id).grantedMode ∧ (s'.locks id).gid = (s.locks id).gid ∧ (s'.locks id).destroyed = (s.locks id).destroyed) :
    Queued s' cur := by
  have linked : ∀ id, s'.linked id = s.linked id := fun id => by
    rw [ExtentRes.linked, ExtentRes.linked, granted, waiting]
  refine ⟨granted ▸ h.grantedNodup, waiting ▸ h.waitingNodup, ?_, ?_, ?_, ?_, ?_, ?_, ?_, ?_⟩
  · rw [granted, waiting]
    exact h.apart
  · intro id isLinked
    rw [linked] at isLinked
    exact nextLock ▸ h.known id isLinked
  · grind [cases Queued]
  · intro id mem
    rw [granted] at mem
    rw [(fields id).1, (fields id).2.1]
    exact h.held id mem
  · intro id mem
    rw [waiting] at mem
    rw [(fields id).2.1]
    exact h.blocked id mem
  · rw [waiting]
    refine h.groupFirst.imp fun {a r} first isGroup => ?_
    rw [(fields r).1] at isGroup
    rw [(fields a).1, (fields a).2.2.1, (fields r).2.2.1]
    exact first isGroup
  · grind [cases Queued]
  · rw [suspended, nextLock]
    exact h.suspended

theorem TreeOnly.queued {s' : ExtentRes} (same : TreeOnly s s') (h : Queued s cur) :
    Queued s' cur := by
  refine h.congr same.granted same.waiting same.nextLock same.suspended fun id => ?_
  rw [same.locks id]
  exact ⟨rfl, rfl, rfl, rfl⟩

/-- The state after a scan that changed only the marks for callbacks and the contention
time. -/
def marked (s : ExtentRes) (astSent : Nat → Bool) (contentionTime : Nat) : ExtentRes :=
  { s with astSent := astSent, contentionTime := contentionTime }

theorem Queued.marked (h : Queued s cur) (a : Nat → Bool) (t : Nat) : Queued (s.marked a t) cur :=
  { h with }

/-- The policy writes only the extent of a lock. -/
theorem Queued.setExtent (h : Queued s cur) (id : Nat) (e : Extent) :
    Queued (s.modifyLock id fun l => { l with extent := e }) cur := by
  refine h.congr rfl rfl rfl rfl fun other => ?_
  rw [modifyLock_locks]
  split
  · next same =>
    rw [same]
    exact ⟨rfl, rfl, rfl, rfl⟩
  · exact ⟨rfl, rfl, rfl, rfl⟩

/-- A lock that leaves its queue becomes the one that is being processed. -/
theorem Queued.delInit (h : Queued s cur) (only : cur = none ∨ cur = some id) :
    Queued (s.delInit id) (some id) := by
  have still : ∀ {other}, (s.delInit id).linked other = true → s.linked other = true := by
    intro other isLinked
    simp only [linked_iff, ExtentRes.delInit, mem_filter] at isLinked ⊢
    exact isLinked.imp And.left And.left
  refine ⟨h.grantedNodup.filter _, h.waitingNodup.filter _, ?_, fun other isLinked =>
    h.known other (still isLinked), fun other isLinked => h.alive other (still isLinked), ?_, ?_,
    h.groupFirst.filter _, ?_, h.suspended⟩
  · intro other inGranted inWaiting
    exact h.apart other (mem_of_mem_filter inGranted) (mem_of_mem_filter inWaiting)
  · exact fun other mem => h.held other (mem_of_mem_filter mem)
  · exact fun other mem => h.blocked other (mem_of_mem_filter mem)
  · intro other known different
    have notCur : some other ≠ cur := by grind
    refine (h.complete other known notCur).imp_right fun isLinked => ?_
    simp only [linked_iff, ExtentRes.delInit, mem_filter] at isLinked ⊢
    exact isLinked.imp (fun mem => ⟨mem, by simpa using different⟩)
      fun mem => ⟨mem, by simpa using different⟩

theorem delInit_free (s : ExtentRes) (id : Nat) : (s.delInit id).linked id = false := by
  simp [not_linked_iff, delInit]

section Settle

variable {s : ExtentRes} {id : Nat}

/-- Locks that are as they were for the waiting requests. -/
theorem Queued.waiters {cur : Option Nat} {f : Nat → ExtentLock} (h : Queued s cur)
    (same : ∀ a ∈ s.waiting, f a = s.locks a) :
    (∀ a ∈ s.waiting, (f a).grantedMode = none) ∧ s.waiting.Pairwise (GroupFirst f) := by
  constructor
  · intro a mem
    rw [same a mem]
    exact h.blocked a mem
  · refine h.groupFirst.imp_of_mem fun {a r} inA inR first => ?_
    rw [GroupFirst, same a inA, same r inR]
    exact first

/-- A destroyed request needs no queue. -/
theorem Queued.destroy (h : Queued s (some id)) (free : s.linked id = false)
    {f : ExtentLock → ExtentLock} (gone : (f (s.locks id)).destroyed = true) :
    Queued (s.modifyLock id f) none := by
  have off : ∀ {other}, s.linked other = true → other ≠ id := by
    rintro other isLinked rfl
    rw [free] at isLinked
    cases isLinked
  have other : ∀ {a}, s.linked a = true → (s.modifyLock id f).locks a = s.locks a := by
    intro a isLinked
    rw [modifyLock_locks, if_neg (off isLinked)]
  obtain ⟨blocked, groupFirst⟩ := h.waiters fun a mem => other (linked_iff.mpr (.inr mem))
  refine ⟨h.grantedNodup, h.waitingNodup, h.apart, h.known, ?_, ?_, blocked, groupFirst, ?_,
    h.suspended⟩
  · intro a isLinked
    rw [other isLinked]
    exact h.alive a isLinked
  · intro a mem
    rw [other (linked_iff.mpr (.inl mem))]
    exact h.held a mem
  · intro a known _
    by_cases same : a = id
    · left
      rw [modifyLock_locks, if_pos same]
      exact gone
    · have notCur : some a ≠ some id := fun eq => same (Option.some.inj eq)
      rw [modifyLock_locks, if_neg same]
      exact h.complete a known notCur

/-- Without a request in processing, any request may be taken for one. -/
theorem Queued.open (h : Queued s none) (id : Nat) : Queued s (some id) :=
  { h with complete := fun other known _ => h.complete other known (Option.some_ne_none _) }

/-- A queued request need not be in processing. -/
theorem Queued.close (h : Queued s (some id)) (isLinked : s.linked id = true) : Queued s none := by
  grind [cases Queued, intro Queued]

variable (h : Queued s (some id)) (known : id < s.nextLock)
  (alive : (s.locks id).destroyed = false) (free : s.linked id = false)
include h known alive free

/-- A request is put on `lr_waiting` behind `pre`. -/
theorem Queued.insert (fresh : (s.locks id).grantedMode = none)
    {pre post : List Nat} (split : s.waiting = pre ++ post)
    (front : ∀ a ∈ pre, GroupFirst s.locks a id) (back : ∀ b ∈ post, GroupFirst s.locks id b) :
    Queued { s with waiting := pre ++ id :: post } none := by
  grind [perm_middle, linked_iff, nodup_cons,
    pairwise_cons, Option.some.inj, cases Queued, intro Queued]

theorem Queued.grant : Queued (s.grantedState id) none := by
  obtain ⟨notGranted, notWaiting⟩ := not_linked_iff.mp free
  have other : ∀ {a}, a ≠ id → (s.grantedState id).locks a = s.locks a := by
    intro a different
    exact Function.update_of_ne different _ _
  have here : (s.grantedState id).locks id =
      { s.locks id with grantedMode := some (s.locks id).reqMode } :=
    Function.update_self _ _ _
  have granted : (s.grantedState id).granted = s.granted ++ [id] := rfl
  have linked : ∀ {a}, (s.grantedState id).linked a = true ↔ a = id ∨ s.linked a = true := by
    simp only [linked_iff, granted, mem_append, mem_singleton]
    tauto
  obtain ⟨blocked, groupFirst⟩ := h.waiters fun a mem => other (ne_of_mem_of_not_mem mem notWaiting)
  refine ⟨?_, h.waitingNodup, ?_, ?_, ?_, ?_, blocked, groupFirst, ?_, h.suspended⟩
  · grind [cases Queued]
  · intro a mem
    rw [granted, mem_append, mem_singleton] at mem
    rcases mem with mem | rfl
    · exact h.apart a mem
    · exact notWaiting
  · intro a isLinked
    rcases linked.mp isLinked with rfl | isLinked
    · exact known
    · exact h.known a isLinked
  · grind [cases Queued]
  · grind [cases Queued]
  · intro a known _
    by_cases same : a = id
    · exact .inr (linked.mpr (.inl same))
    · have notCur : some a ≠ some id := fun eq => same (Option.some.inj eq)
      rw [other same]
      exact (h.complete a known notCur).imp_right fun isLinked => linked.mpr (.inr isLinked)

end Settle

/-! ### Queueing group locks -/

section Place

variable {s : ExtentRes} {id other : Nat} {pre post : List Nat}

theorem insertLockAfter_free (alive : (s.locks id).destroyed = false) (free : s.linked id = false)
    (split : s.waiting = pre ++ other :: post) (first : other ∉ pre) :
    s.insertLockAfter other id = .ok { s with waiting := pre ++ other :: id :: post } := by
  simp only [insertLockAfter, alive, free, split, insertAfter_split first]
  rfl

theorem insertLockAfter_busy (alive : (s.locks id).destroyed = false) (busy : s.linked id = true) :
    s.insertLockAfter other id = .error .resLinkBusy := by
  simp [insertLockAfter, alive, busy]

theorem not_mem_front (h : Queued s cur) (split : s.waiting = pre ++ other :: post) : other ∉ pre := by
  have nodup := h.waitingNodup
  rw [split, nodup_append] at nodup
  exact fun mem => nodup.2.2 other mem other mem_cons_self rfl

/-- How the scan of `lr_waiting` for a group request ends. -/
def Placed (s : ExtentRes) (id : Nat) (s' : ExtentRes) (c' : Compat) (go : Scan) : Prop :=
  (s' = s ∧ go = .brk ∧ (s.linked id = true ∨ ∀ a ∈ s.waiting, (s.locks a).reqMode = .group)) ∨
  (s' = s ∧ go = .destroy (-eWouldBlock) ∧ c'.flags.blockNowait = true) ∨
  (s.linked id = false ∧ (go = .ret 0 ∨ go = .brk ∧ c'.compat = 0) ∧
    ∃ pre post, s.waiting = pre ++ post ∧ s' = { s with waiting := pre ++ id :: post } ∧
      ∀ a ∈ pre, (s.locks a).reqMode = .group ∨ (s.locks a).gid = (s.locks id).gid)

/-- A queued group request meets a lock behind which it would be linked again. -/
def LinkedAgain (s : ExtentRes) (id other : Nat) (e : Fault) : Prop :=
  e = .resLinkBusy ∧ s.linked id = true ∧
    ((s.locks other).reqMode ≠ .group ∨ (s.locks other).gid = (s.locks id).gid)

/-- What a waiting lock means for a group request: the scan goes on behind a group lock, or ends. -/
def Met (s : ExtentRes) (id other : Nat) (c : Compat) (x : ExtentRes × Compat × Bool × Scan) : Prop :=
  Step c x.2.1 ∧
    (x.2.2.2 = .next ∧ x.1 = s ∧ (s.locks other).reqMode = .group ∧ x.2.2.1 = true ∧
        x.2.1.compat = 0 ∨
      x.2.2.2 ≠ .next ∧ Placed s id x.1 x.2.1 x.2.2.2)

section Meeting

variable (h : Queued s (some id)) (alive : (s.locks id).destroyed = false)
  (split : s.waiting = pre ++ other :: post)

include h alive split

/-- Queueing in front of a waiting lock links the request, and the lock again behind it. -/
theorem queueBefore_free (free : s.linked id = false) :
    s.queueBefore other id = .ok { s with waiting := pre ++ id :: other :: post } := by
  obtain ⟨notGranted, notWaiting⟩ := not_linked_iff.mp free
  have nodup := h.waitingNodup
  rw [split, nodup_append, nodup_cons] at nodup
  obtain ⟨_, ⟨notPost, _⟩, _⟩ := nodup
  have notPre := not_mem_front h split
  rw [split, mem_append, mem_cons] at notWaiting
  have idPre : id ∉ pre := fun mem => notWaiting (.inl mem)
  have inWaiting : other ∈ s.waiting := by simp [split]
  have otherGranted : other ∉ s.granted := fun mem => h.apart other mem inWaiting
  have otherAlive : (s.locks other).destroyed = false :=
    h.alive other (linked_iff.mpr (.inr inWaiting))
  let s₁ : ExtentRes := { s with waiting := pre ++ id :: post }
  have taken : ({ s with waiting := pre ++ other :: id :: post } : ExtentRes).delInit other = s₁ := by
    grind [delInit, filter_eq_self, filter_cons_of_neg, filter_cons_of_pos]
  have free₁ : s₁.linked other = false := by grind [not_linked_iff]
  rw [queueBefore, insertLockAfter_free alive free split notPre]
  refine Eq.trans ?_ (insertLockAfter_free (s := s₁) otherAlive free₁ rfl idPre)
  exact congrArg (fun x : ExtentRes => x.insertLockAfter id other) taken

variable (passed : ∀ a ∈ pre, (s.locks a).reqMode = .group) (c : Compat)

include passed

/-- A group request looking for its place meets a waiting lock. -/
theorem compatScanned_group (zero : c.compat = 0) :
    Outcome (fun x => Step c x.2.1 ∧ x.2.1.compat = 0 ∧
        (x.2.2 = .next ∧ x.1 = s ∧ (s.locks other).reqMode = .group ∨
          x.2.2 ≠ .next ∧ Placed s id x.1 x.2.1 x.2.2))
      (LinkedAgain s id other) (s.compatScanned id other c) := by
  simp only [compatScanned]
  by_cases notGroup : (s.locks other).reqMode ≠ .group
  · rw [if_pos notGroup]
    by_cases busy : s.linked id = true
    · rw [queueBefore, insertLockAfter_busy alive busy]
      exact ⟨rfl, busy, .inl notGroup⟩
    · have free : s.linked id = false := by simpa using busy
      rw [queueBefore_free h alive split free]
      refine ⟨Step.zero c, rfl, .inr ⟨Scan.noConfusion, .inr (.inr ⟨free, .inr ⟨rfl, rfl⟩, ?_⟩)⟩⟩
      exact ⟨pre, other :: post, split, rfl, fun a mem => .inl (passed a mem)⟩
  · rw [if_neg notGroup]
    have isGroup : (s.locks other).reqMode = .group := by simpa using notGroup
    by_cases same : (s.locks id).gid = (s.locks other).gid
    · rw [if_pos same]
      by_cases busy : s.linked id = true
      · rw [insertLockAfter_busy alive busy]
        exact ⟨rfl, busy, .inr same.symm⟩
      · have free : s.linked id = false := by simpa using busy
        rw [insertLockAfter_free alive free split (not_mem_front h split)]
        refine ⟨.zero c, rfl,
          .inr ⟨Scan.noConfusion, .inr (.inr ⟨free, .inr ⟨rfl, rfl⟩, ?_⟩)⟩⟩
        exact ⟨pre ++ [other], post, by simp [split], by simp, forall_mem_append.mpr
          ⟨fun a mem => .inl (passed a mem), forall_mem_singleton.mpr (.inl isGroup)⟩⟩
    · rw [if_neg same]
      exact ⟨.refl c, zero, .inl ⟨rfl, rfl, isGroup⟩⟩

theorem compatWaitingLock_group (isGroup : (s.locks id).reqMode = .group) (different : id ≠ other)
    (scan : Bool) (scanned : scan = true → c.compat = 0) :
    Outcome (Met s id other c) (LinkedAgain s id other) (s.compatWaitingLock id other scan c) := by
  have waits : (s.locks other).grantedMode = none := h.blocked other (by simp [split])
  have look : ∀ c₁ : Compat, Step c c₁ → c₁.compat = 0 →
      Outcome (Met s id other c) (LinkedAgain s id other)
        (s.compatScanned id other c₁ >>= fun x => .ok (x.1, x.2.1, true, x.2.2)) := by
    intro c₁ step zero
    refine (compatScanned_group h alive split passed c₁ zero).bind ?_
    rintro ⟨s', c', go⟩ ⟨step', zero', result⟩
    refine ⟨step.trans step', ?_⟩
    rcases result with ⟨isNext, same, otherGroup⟩ | ended
    · exact .inl ⟨isNext, same, otherGroup, rfl, zero'⟩
    · exact .inr ended
  simp only [compatWaitingLock]
  rw [if_neg different]
  cases scan with
  | true => exact look c (.refl c) (scanned rfl)
  | false =>
    rw [if_neg (by simp), if_neg (by simp [isGroup]), if_neg (by simp [isGroup])]
    by_cases own : lockmodeCompat (s.locks other).reqMode (s.locks id).reqMode = true ∧
        (s.locks id).gid = (s.locks other).gid
    · rw [if_pos own, if_neg (by simp [waits])]
      split
      · next nowait =>
        exact ⟨Step.refl c, .inr ⟨Scan.noConfusion, .inr (.inl ⟨rfl, rfl, nowait⟩)⟩⟩
      · by_cases busy : s.linked id = true
        · rw [insertLockAfter_busy alive busy]
          exact ⟨rfl, busy, .inr own.2.symm⟩
        · have free : s.linked id = false := by simpa using busy
          rw [insertLockAfter_free alive free split (not_mem_front h split)]
          refine ⟨Step.refl c, .inr ⟨Scan.noConfusion, .inr (.inr ⟨free, .inl rfl, ?_⟩)⟩⟩
          exact ⟨pre ++ [other], post, by simp [split], by simp, forall_mem_append.mpr
            ⟨fun a mem => .inl (passed a mem), forall_mem_singleton.mpr (.inr own.2.symm)⟩⟩
    · rw [if_neg own, if_pos ⟨isGroup, by simp [waits]⟩]
      exact look _ (.zero c) rfl

end Meeting

/-- The scan of `lr_waiting` for a group request places it or leaves the queue alone; it fails only for a
queued one behind its own group. -/
theorem compatWaiting_group (h : Queued s (some id)) (isGroup : (s.locks id).reqMode = .group)
    (alive : (s.locks id).destroyed = false) (place : s.linked id = true → id ∈ s.waiting)
    (queue : List Nat) :
    ∀ (pre : List Nat) (scan : Bool) (c : Compat), s.waiting = pre ++ queue →
      (∀ a ∈ pre, (s.locks a).reqMode = .group) → id ∉ pre → (scan = true → c.compat = 0) →
      Outcome (fun x => Step c x.2.1 ∧ Placed s id x.1 x.2.1 x.2.2)
        (fun e => e = .resLinkBusy ∧ ¬ Clear s id) (compatWaiting id queue scan s c) := by
  induction queue with
  | nil =>
    intro pre scan c split passed _ _
    refine ⟨.refl c, .inl ⟨rfl, rfl, .inr fun a mem => passed a ?_⟩⟩
    simpa [split] using mem
  | cons other queue ih =>
    intro pre scan c split passed notYet scanned
    by_cases different : id = other
    · have isLinked : s.linked id = true := linked_iff.mpr (.inr (by simp [split, different]))
      have meet : compatWaitingLock s id other scan c = .ok (s, c, scan, .brk) := by
        simp only [compatWaitingLock]
        rw [if_pos different]
      rw [compatWaiting, meet]
      exact ⟨.refl c, .inl ⟨rfl, rfl, .inl isLinked⟩⟩
    · have one := compatWaitingLock_group h alive split passed c isGroup different scan scanned
      -- a failure happens in front of the queued request, at a lock of its group
      have fewer : ∀ e, LinkedAgain s id other e → e = Fault.resLinkBusy ∧ ¬ Clear s id := by
        rintro e ⟨busy, isLinked, conflict⟩
        refine ⟨busy, fun clear => ?_⟩
        have mem : id ∈ queue := by grind
        obtain ⟨front, back, rfl⟩ := append_of_mem mem
        have whole : s.waiting = (pre ++ other :: front) ++ id :: back := by simp [split]
        have inFront : other ∈ pre ++ other :: front := by simp
        have notFront := not_mem_front h whole
        have before : other ∈ s.waiting.takeWhile (· ≠ id) := by
          rw [whole, takeWhile_append_of_pos fun a mem =>
            decide_eq_true (ne_of_mem_of_not_mem mem notFront)]
          exact mem_append_left _ inFront
        refine clear isGroup (place isLinked) other before ?_
        rcases conflict with notGroup | same
        · have order := h.groupFirst
          rw [whole] at order
          have first := (pairwise_append.mp order).2.2 other inFront id mem_cons_self
          exact (first isGroup).resolve_left notGroup
        · exact same
      refine (one.mono (fun _ p => p) fewer).bind ?_
      rintro ⟨s', c', scan', go⟩ ⟨step, result⟩
      rcases result with ⟨isNext, same, otherGroup, scans, zero⟩ | ⟨notNext, placed⟩
      · dsimp only at isNext same scans zero step
        rw [isNext, same, scans]
        have passed' : ∀ a ∈ pre ++ [other], (s.locks a).reqMode = .group := by grind
        have notYet' : id ∉ pre ++ [other] := by simp [notYet, different]
        have onward := ih (pre ++ [other]) true c' (by simp [split]) passed' notYet' fun _ => zero
        exact onward.mono fun x p => ⟨step.trans p.1, p.2⟩
      · simp_all

end Place

/-- How the scan of `lr_waiting` for another request ends. -/
def WaitEnd (c' : Compat) (scan : Scan) : Prop :=
  scan = .brk ∨ scan = .ret 0 ∨ scan = .ret 1 ∨
    scan = .destroy (-eWouldBlock) ∧ c'.flags.blockNowait = true

theorem compatConflict_effect (s : ExtentRes) (id other : Nat) (c : Compat) :
    Step c (s.compatConflict id other c).1 ∧
      ((s.compatConflict id other c).2 = .next ∨
        WaitEnd (s.compatConflict id other c).1 (s.compatConflict id other c).2) := by
  have marked : ∀ c₁ : Compat, Step c c₁ →
      Step c (if (s.locks other).blockingAst then addBlWorkItem c₁ other else c₁) := by
    intro c₁ step
    split
    · exact step.trans (addBlWorkItem_step c₁ other)
    · exact step
  simp only [compatConflict]
  split
  · split
    · next nowait => exact ⟨.refl c, by simp [WaitEnd, nowait]⟩
    · split
      · exact ⟨.noTimeout c, by simp [WaitEnd]⟩
      · exact ⟨marked _ ((Step.noTimeout c).trans (Step.count _ _)), .inl rfl⟩
  · split
    · exact ⟨.refl c, .inl rfl⟩
    · split
      · exact ⟨.refl c, by simp [WaitEnd]⟩
      · exact ⟨marked _ (.count c _), .inl rfl⟩

/-- The scan of `lr_waiting` for a request that is no group lock leaves the queue alone. -/
theorem compatWaiting_other (notGroup : (s.locks id).reqMode ≠ .group) (queue : List Nat) :
    ∀ c : Compat, c.compat = 0 ∨ c.compat = 1 →
      Outcome (fun x => x.1 = s ∧ Step c x.2.1 ∧ WaitEnd x.2.1 x.2.2) (fun _ => False)
        (compatWaiting id queue false s c) := by
  induction queue with
  | nil => exact fun c _ => ⟨rfl, .refl c, by simp [WaitEnd]⟩
  | cons other queue ih =>
    intro c binary
    have one : Outcome (fun x => x.1 = s ∧ x.2.2.1 = false ∧ Step c x.2.1 ∧
        (x.2.2.2 = .next ∨ WaitEnd x.2.1 x.2.2.2)) (fun _ => False)
        (s.compatWaitingLock id other false c) := by
      have byMode : ¬ (lockmodeCompat (s.locks other).reqMode (s.locks id).reqMode = true ∧
          (s.locks id).reqMode ≠ .group) →
          ¬ (lockmodeCompat (s.locks other).reqMode (s.locks id).reqMode = true ∧
            (s.locks id).gid = (s.locks other).gid) := fun no both => no ⟨both.1, notGroup⟩
      simp only [compatWaitingLock]
      split
      · exact ⟨rfl, rfl, .refl c, by simp [WaitEnd]⟩
      rw [if_neg (by simp)]
      split
      · refine ⟨rfl, rfl, .refl c, .inr ?_⟩
        rcases binary with zero | one
        · rw [zero]
          simp [WaitEnd]
        · rw [one]
          simp [WaitEnd]
      split
      · exact ⟨rfl, rfl, .refl c, .inl rfl⟩
      next incompatible =>
      rw [if_neg (byMode incompatible), if_neg (by simp [notGroup])]
      exact ⟨rfl, rfl, compatConflict_effect s id other c⟩
    refine one.bind ?_
    rintro ⟨s', c', scan', go⟩ ⟨rfl, rfl, step, result⟩
    have binary' : c'.compat = 0 ∨ c'.compat = 1 := by
      rcases step.compat with same | zero
      · rw [same]
        exact binary
      · exact .inl zero
    cases go with
    | next => exact (ih c' binary').mono fun x p => ⟨p.1, step.trans p.2.1, p.2.2⟩
    | brk | ret | destroy => exact ⟨rfl, step, result.resolve_left Scan.noConfusion⟩

end ExtentRes

end Ldlm
