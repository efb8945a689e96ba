/-
Module: Lustre.Ldlm.Extent.Passes
Purpose: Everything a pass of `ldlm_process_extent_lock` can do, said once.
Trusted boundary: none
-/
import Lustre.Ldlm.Extent.Queues

namespace Ldlm

open Run

variable {w : List Nat} {c : Compat} {a : Nat → Bool} {rc : Int}

namespace ExtentRes

/-- A scan adds to a work list exactly the locks it marks, and keeps all older marks. -/
structure Marks (a : Nat → Bool) (w : List Nat) (a' : Nat → Bool) (w' : List Nat) : Prop where
  sent : ∀ id, a id = true → a' id = true
  marks : ∃ new : List Nat, w' = new ++ w ∧ new.Nodup ∧ ∀ id ∈ new, a id = false ∧ a' id = true

theorem Marks.trans {a' a'' : Nat → Bool} {w' w'' : List Nat} (h : Marks a w a' w')
    (h' : Marks a' w' a'' w'') : Marks a w a'' w'' where
  sent id set := h'.sent id (h.sent id set)
  marks := by
    obtain ⟨new, rfl, first⟩ := h.marks
    obtain ⟨new', rfl, second⟩ := h'.marks
    exact ⟨new' ++ new, by simp, marked_append h.sent h'.sent first second⟩

theorem Compat.Step.toMarks {c' : Compat} (h : Compat.Step c c') (list : c.workList = some w) :
    ∃ w', c'.workList = some w' ∧ Marks c.astSent w c'.astSent w' := by
  obtain ⟨new, same, nodup, fresh⟩ := h.marks
  rw [list] at same
  exact ⟨new ++ w, same, h.sent, new, rfl, nodup, fresh⟩

/-- The state after `destroylock`. -/
def destroyedState (s : ExtentRes) (id : Nat) : ExtentRes :=
  (s.delInit id).modifyLock id fun l => { l with destroyed := true }

theorem destroyNolock_delInit (s : ExtentRes) (id : Nat) :
    (s.delInit id).destroyNolock id = .ok (s.destroyedState id) := by
  rw [destroyNolock, delInit_free]
  rfl

section Finish

variable (ns : Namespace) (now : Nat) (s : ExtentRes) (id : Nat) (c : Compat)

theorem compatFinish_ret (rc : Int) :
    s.compatFinish ns now id c (.ret rc) = .ok (s.marked c.astSent s.contentionTime, c, rc) := rfl

theorem compatFinish_destroy (rc : Int) : s.compatFinish ns now id c (.destroy rc) =
      .ok ((s.marked c.astSent s.contentionTime).destroyedState id, c, rc) := by
  have gone := destroyNolock_delInit (s.marked c.astSent s.contentionTime) id
  exact congrArg (fun x : Except Fault ExtentRes => x >>= fun s => Except.ok (s, c, rc)) gone

/-- After a loop that ran to its end or was left by `break`. -/
theorem compatFinish_done {scan : Scan} (done : scan = .next ∨ scan = .brk) :
    ∃ t, s.compatFinish ns now id c scan = .ok (s.marked c.astSent t, c, c.compat) ∨
      ((s.locks id).reqMode ≠ .group ∧ c.flags.denyOnContention = true ∧
        s.compatFinish ns now id c scan =
          .ok ((s.marked c.astSent t).destroyedState id, c, -eUsers)) := by
  obtain ⟨t, time, checked⟩ : ∃ t : Nat, ∃ b : Bool,
      checkContention ns now { s with astSent := c.astSent } c.contended = (s.marked c.astSent t, b) := by
    simp only [checkContention]
    split
    · exact ⟨now, _, rfl⟩
    · exact ⟨s.contentionTime, _, rfl⟩
  refine ⟨t, ?_⟩
  have finish : s.compatFinish ns now id c scan =
      if time ∧ c.compat = 0 ∧ c.flags.denyOnContention ∧ (s.locks id).reqMode ≠ .group ∧
          u64 ((s.locks id).reqExtent.stop + 2 ^ 64 - (s.locks id).reqExtent.start) ≤
            ns.maxNolockSize then
        .ok ((s.marked c.astSent t).destroyedState id, c, -eUsers)
      else .ok (s.marked c.astSent t, c, c.compat) := by
    have gone := destroyNolock_delInit (s.marked c.astSent t) id
    rcases done with rfl | rfl <;> simp only [compatFinish, checked, gone] <;> rfl
  rw [finish]
  split
  · next denied => exact .inr ⟨denied.2.2.2.1, denied.2.2.1, rfl⟩
  · exact .inl rfl

end Finish

/-- Callbacks are dropped from a list without repetitions whose locks are all marked. -/
theorem discardBlList_effect (w : List Nat) :
    ∀ s : ExtentRes, Outcome (fun s' => ∃ a, s' = s.marked a s.contentionTime ∧
        ∀ other, other ∉ w → a other = s.astSent other)
      (fun e => e = .astNotSent ∧ ¬ (w.Nodup ∧ ∀ id ∈ w, s.astSent id = true))
      (discardBlList w s) := by
  induction w with
  | nil => exact fun s => ⟨s.astSent, rfl, fun _ _ => rfl⟩
  | cons id w ih =>
    intro s
    rw [discardBlList]
    split
    · next set =>
      refine (ih _).mono ?_ ?_
      · rintro s' ⟨a, rfl, same⟩
        refine ⟨a, rfl, fun other absent => ?_⟩
        simp only [List.mem_cons, not_or] at absent
        rw [same other absent.2]
        exact Function.update_of_ne absent.1 _ _
      · grind
    · next unset => exact ⟨rfl, fun good => unset (good.2 id List.mem_cons_self)⟩

/-- The label `out` changes only marks. -/
theorem processOut_effect (s : ExtentRes) (id : Nat) (w : List Nat) :
    Outcome (fun s' => ∃ a, s' = s.marked a s.contentionTime ∧
        ∀ other, other ∉ w → a other = s.astSent other)
      (fun e => e = .discardData ∨ e = .astNotSent ∧ ¬ (w.Nodup ∧ ∀ id ∈ w, s.astSent id = true))
      (s.processOut id w) := by
  rw [processOut]
  split
  · exact ⟨s.astSent, rfl, fun _ _ => rfl⟩
  split
  · exact .inl rfl
  · exact (discardBlList_effect w s).mono (fun _ h => h) fun _ h => .inr h

/-! ### First passes -/

/-- The variables of a scan when it starts. -/
def scanStart (s : ExtentRes) (flags : EnqFlags) (workList : Option (List Nat)) : Compat :=
  ⟨flags, workList, 0, s.astSent, 1⟩

/-- The scan of the granted locks found nothing against the request. -/
def Compatible (s : ExtentRes) (id : Nat) (flags : EnqFlags) (workList : Option (List Nat)) : Prop :=
  ∃ c scan, s.compatGranted (s.locks id) Mode.all (s.scanStart flags workList) = .ok (c, scan) ∧
    (scan = .ret 2 ∨ scan = .brk ∧ c.compat = 1)

/-- Where a request stands on `lr_waiting` after a pass that did not grant it. -/
def Waits (s : ExtentRes) (id : Nat) (queue : List Nat) : Prop :=
  s.linked id = true ∧ queue = s.waiting ∨
  s.linked id = false ∧ ∃ pre post, s.waiting = pre ++ post ∧ queue = pre ++ id :: post ∧
    (∀ a ∈ pre, GroupFirst s.locks a id) ∧ ∀ b ∈ post, GroupFirst s.locks id b

/-- What a pass for a first enqueue does. -/
inductive Pass (s : ExtentRes) (id : Nat) (flags : EnqFlags) (rpcList : List Nat) :
    Except Fault ExtentRes → Prop where
  | scanFails {e : Fault} (ofTree : e.ofTree = true)
      (fails : s.compatGranted (s.locks id) Mode.all (s.scanStart flags (some rpcList)) = .error e) :
      Pass s id flags rpcList (.error e)
  | linkFails (behind : ¬ s.Clear id) : Pass s id flags rpcList (.error .resLinkBusy)
  | gone {a : Nat → Bool} (t : Nat) {w : List Nat} (marks : Marks s.astSent rpcList a w) :
      Pass s id flags rpcList (((s.marked a t).destroyedState id).processOut id w)
  | grants {a : Nat → Bool} (t : Nat) {w : List Nat} (f : EnqFlags)
      (marks : Marks s.astSent rpcList a w) (compatible : s.Compatible id flags (some rpcList)) :
      Pass s id flags rpcList ((s.marked a t).processGrant id f)
  | waits {a : Nat → Bool} (t : Nat) {w : List Nat} (f : EnqFlags) {queue : List Nat}
      (marks : Marks s.astSent rpcList a w) (place : s.Waits id queue) :
      Pass s id flags rpcList
        (.ok { s.marked a t with waiting := queue, suspended := ⟨id, f, w⟩ :: s.suspended })

section FirstPass

variable {s : ExtentRes} {id : Nat} {flags : EnqFlags} {rpcList : List Nat}

/-- What follows the two scans; `rc` is the value of the first one. -/
def passEnd (id : Nat) (rc : Int) (x : ExtentRes × Compat × Int) : Except Fault ExtentRes :=
  if x.2.2 < 0 then x.1.processOut id (x.2.1.workList.getD [])
  else if rc + x.2.2 = 2 then x.1.processGrant id x.2.1.flags
  else x.1.processWait id x.2.1

/-- A request that is on a queue stays where it is. -/
theorem processWait_linked (linked : s.linked id = true) (list : c.workList = some w) :
    s.processWait id c = .ok { s with suspended := ⟨id, c.flags, w⟩ :: s.suspended } := by
  simp only [processWait, linked, if_true, list, Option.getD_some]
  rfl

section Ends

variable (marks : Marks s.astSent rpcList a w) (list : c.workList = some w) (t : Nat)

include marks list

/-- A request that has to wait joins the end of `lr_waiting` unless it is on the queue. -/
theorem processWait_pass (alive : (s.locks id).destroyed = false)
    (last : s.linked id = true ∨ ∀ b ∈ s.waiting, GroupFirst s.locks b id) :
    Pass s id flags rpcList ((s.marked a t).processWait id c) := by
  by_cases busy : s.linked id = true
  · rw [processWait_linked (s := s.marked a t) busy list]
    exact .waits t c.flags marks (.inl ⟨busy, rfl⟩)
  · have free : s.linked id = false := by simpa using busy
    have free' : (s.marked a t).linked id = false := free
    have alive' : ((s.marked a t).locks id).destroyed = false := alive
    have result : (s.marked a t).processWait id c =
        .ok { s.marked a t with
          waiting := s.waiting ++ [id], suspended := ⟨id, c.flags, w⟩ :: s.suspended } := by
      simp only [processWait, free', Bool.false_eq_true, if_false, addWaiting, alive', list,
        Option.getD_some]
      rfl
    rw [result]
    refine .waits t c.flags marks (.inr ⟨free, s.waiting, [], by simp, rfl, ?_, by simp⟩)
    exact last.resolve_left busy

/-- The end of a pass that was given up in the scan of the waiting locks. -/
theorem passEnd_gone (rc : Int) {rc2 : Int} (negative : rc2 < 0) :
    Pass s id flags rpcList (passEnd id rc ((s.marked a t).destroyedState id, c, rc2)) := by
  simp only [passEnd, negative, if_true, list, Option.getD_some]
  exact .gone t marks

/-- The end of a pass in which the scan of the waiting locks returned `rc2`. -/
theorem passEnd_value {rc2 : Int} (alive : (s.locks id).destroyed = false)
    (first : rc = 0 ∨ rc = 1 ∧ s.Compatible id flags (some rpcList)) (binary : rc2 = 0 ∨ rc2 = 1)
    (last : s.linked id = true ∨ ∀ b ∈ s.waiting, GroupFirst s.locks b id) :
    Pass s id flags rpcList (passEnd id rc (s.marked a t, c, rc2)) := by
  simp only [passEnd]
  rw [if_neg (by omega)]
  split
  · next both =>
    rcases first with zero | ⟨_, compatible⟩
    · omega
    · exact .grants t c.flags marks compatible
  · exact processWait_pass marks list t alive last

/-- The end of a pass in which the scan of the waiting locks queued the request. -/
theorem passEnd_placed {pre post : List Nat} (first : rc = 0 ∨ rc = 1)
    (isGroup : (s.locks id).reqMode = .group) (free : s.linked id = false)
    (split : s.waiting = pre ++ post)
    (front : ∀ b ∈ pre, (s.locks b).reqMode = .group ∨ (s.locks b).gid = (s.locks id).gid) :
    Pass s id flags rpcList
      (passEnd id rc ({ s.marked a t with waiting := pre ++ id :: post }, c, 0)) := by
  simp only [passEnd]
  rw [if_neg (by omega), if_neg (by omega), processWait_linked (linked_iff.mpr (.inr (by simp))) list]
  refine .waits t c.flags marks (.inr ⟨free, pre, post, split, rfl, fun b mem _ => front b mem, ?_⟩)
  exact fun _ _ _ => .inl isGroup

end Ends

section SecondScan

variable (ns : Namespace) (now t : Nat) (alive : (s.locks id).destroyed = false)
  (marks : Marks s.astSent rpcList c.astSent w) (list : c.workList = some w)
  (first : rc = 0 ∨ rc = 1 ∧ s.Compatible id flags (some rpcList))

include alive marks list first

theorem secondScan_group (h : Queued s (some id)) (isGroup : (s.locks id).reqMode = .group)
    (place : s.linked id = true → id ∈ s.waiting) :
    Pass s id flags rpcList ((s.marked c.astSent t).compatQueueWaiting ns now id c.flags c.workList
      c.contended >>= passEnd id rc) := by
  let s₁ := s.marked c.astSent t
  let c₀ : Compat := ⟨c.flags, c.workList, c.contended, c.astSent, 1⟩
  have scan := compatWaiting_group (h.marked c.astSent t) isGroup alive place s.waiting [] false c₀
    rfl (by simp) (by simp) (by simp)
  change Pass s id flags rpcList ((compatWaiting id s.waiting false s₁ c₀ >>=
    fun x => x.1.compatFinish ns now id x.2.1 x.2.2) >>= passEnd id rc)
  cases scanned : compatWaiting id s.waiting false s₁ c₀ with
  | error e =>
    rw [scanned] at scan
    obtain ⟨rfl, behind⟩ := scan
    exact .linkFails behind
  | ok x =>
    obtain ⟨s₂, c₂, go⟩ := x
    rw [scanned] at scan
    obtain ⟨step, placed⟩ := scan
    obtain ⟨w₂, list₂, more⟩ := step.toMarks list
    have all : Marks s.astSent rpcList c₂.astSent w₂ := marks.trans more
    change Pass s id flags rpcList (s₂.compatFinish ns now id c₂ go >>= passEnd id rc)
    change Placed s₁ id s₂ c₂ go at placed
    rcases placed with ⟨same, isBrk, queue⟩ | ⟨same, isDestroy, _⟩ |
      ⟨free, ended, pre, post, split, same, front⟩
    · -- the whole queue was scanned
      obtain ⟨t', finish | ⟨notGroup, _⟩⟩ := compatFinish_done ns now s₁ id c₂ (.inr isBrk)
      · rw [same, finish]
        refine passEnd_value all list₂ t' alive first step.compat.symm ?_
        exact queue.imp_right fun groups b mem _ => .inl (groups b mem)
      · exact absurd isGroup notGroup
    · rw [same, isDestroy, compatFinish_destroy]
      exact passEnd_gone all list₂ t rc eWouldBlock_neg
    · -- the scan queued the request
      have first' : rc = 0 ∨ rc = 1 := first.imp_right And.left
      rcases ended with isRet | ⟨isBrk, zero⟩
      · rw [same, isRet, compatFinish_ret]
        exact passEnd_placed all list₂ t first' isGroup free split front
      · obtain ⟨t', finish | ⟨notGroup, _⟩⟩ :=
          compatFinish_done ns now { s₁ with waiting := pre ++ id :: post } id c₂ (.inr isBrk)
        · rw [same, finish, zero]
          exact passEnd_placed all list₂ t' first' isGroup free split front
        · exact absurd isGroup notGroup

theorem secondScan_other (notGroup : (s.locks id).reqMode ≠ .group) :
    Pass s id flags rpcList ((s.marked c.astSent t).compatQueueWaiting ns now id c.flags c.workList
      c.contended >>= passEnd id rc) := by
  let s₁ := s.marked c.astSent t
  let c₀ : Compat := ⟨c.flags, c.workList, c.contended, c.astSent, 1⟩
  have last : s.linked id = true ∨ ∀ b ∈ s.waiting, GroupFirst s.locks b id :=
    .inr fun b _ isGroup => absurd isGroup notGroup
  have scan := compatWaiting_other (s := s₁) notGroup s.waiting c₀ (.inr rfl)
  obtain ⟨⟨s₂, c₂, go⟩, scanned, same, step, ended⟩ := scan.exists_ok
  obtain ⟨w₂, list₂, more⟩ := step.toMarks list
  have all : Marks s.astSent rpcList c₂.astSent w₂ := marks.trans more
  change Pass s id flags rpcList ((compatWaiting id s.waiting false s₁ c₀ >>=
    fun x => x.1.compatFinish ns now id x.2.1 x.2.2) >>= passEnd id rc)
  rw [scanned]
  change s₂ = s₁ at same
  change WaitEnd c₂ go at ended
  change Pass s id flags rpcList (s₂.compatFinish ns now id c₂ go >>= passEnd id rc)
  rw [same]
  rcases ended with isBrk | isRet | isRet | ⟨isDestroy, _⟩
  · obtain ⟨t', finish | ⟨_, _, finish⟩⟩ := compatFinish_done ns now s₁ id c₂ (.inr isBrk)
    · rw [finish]
      exact passEnd_value all list₂ t' alive first step.compat.symm last
    · rw [finish]
      exact passEnd_gone all list₂ t' rc eUsers_neg
  · rw [isRet, compatFinish_ret]
    exact passEnd_value all list₂ t alive first (.inl rfl) last
  · rw [isRet, compatFinish_ret]
    exact passEnd_value all list₂ t alive first (.inr rfl) last
  · rw [isDestroy, compatFinish_destroy]
    exact passEnd_gone all list₂ t rc eWouldBlock_neg

theorem secondScan_pass (h : Queued s (some id)) (place : s.linked id = true → id ∈ s.waiting) :
    Pass s id flags rpcList ((s.marked c.astSent t).compatQueueWaiting ns now id c.flags c.workList
      c.contended >>= passEnd id rc) := by
  by_cases isGroup : (s.locks id).reqMode = .group
  · exact secondScan_group ns now t alive marks list first h isGroup place
  · exact secondScan_other ns now t alive marks list first isGroup

end SecondScan

/-- What follows the scan of the granted locks. -/
def firstEnd (ns : Namespace) (now id : Nat) (x : ExtentRes × Compat × Int) :
    Except Fault ExtentRes :=
  if x.2.2 < 0 then x.1.processOut id (x.2.1.workList.getD [])
  else if x.2.2 = 2 then x.1.processGrant id x.2.1.flags
  else x.1.compatQueueWaiting ns now id x.2.1.flags x.2.1.workList x.2.1.contended >>= passEnd id x.2.2

/-- Everything a pass for a first enqueue can do. -/
theorem processFirst_pass (ns : Namespace) (now : Nat) (h : Queued s (some id))
    (alive : (s.locks id).destroyed = false) (place : s.linked id = true → id ∈ s.waiting)
    (flags : EnqFlags) (rpcList : List Nat) :
    Pass s id flags rpcList (s.processFirst ns now id flags rpcList) := by
  let c₀ := s.scanStart flags (some rpcList)
  have scan := compatGranted_effect s (s.locks id) Mode.all c₀
  change Pass s id flags rpcList ((s.compatGranted (s.locks id) Mode.all c₀ >>=
    fun x => s.compatFinish ns now id x.1 x.2) >>= firstEnd ns now id)
  cases scanned : s.compatGranted (s.locks id) Mode.all c₀ with
  | error e =>
    rw [scanned] at scan
    exact .scanFails scan scanned
  | ok x =>
    obtain ⟨c, go⟩ := x
    rw [scanned] at scan
    obtain ⟨step, ended, notNext⟩ := scan
    obtain ⟨w, list, marks⟩ := step.toMarks (w := rpcList) rfl
    change ScanEnd c go at ended
    change c.workList = some w at list
    have gone : ∀ (t : Nat) {rc : Int}, rc < 0 → Pass s id flags rpcList
        (firstEnd ns now id ((s.marked c.astSent t).destroyedState id, c, rc)) := by
      intro t rc negative
      simp only [firstEnd, negative, if_true, list, Option.getD_some]
      exact .gone t marks
    change Pass s id flags rpcList (s.compatFinish ns now id c go >>= firstEnd ns now id)
    rcases ended with isNext | isBrk | isRet | isRet | ⟨isDestroy, _⟩
    · exact absurd isNext notNext
    · obtain ⟨t, finish | ⟨_, _, finish⟩⟩ := compatFinish_done ns now s id c (.inr isBrk)
      · rw [finish]
        have binary : c.compat = 1 ∨ c.compat = 0 := step.compat
        have goes : firstEnd ns now id (s.marked c.astSent t, c, c.compat) =
            (s.marked c.astSent t).compatQueueWaiting ns now id c.flags c.workList c.contended >>=
              passEnd id c.compat := by
          simp only [firstEnd]
          rw [if_neg (by omega), if_neg (by omega)]
        change Pass s id flags rpcList (firstEnd ns now id (s.marked c.astSent t, c, c.compat))
        rw [goes]
        refine secondScan_pass ns now t alive marks list (binary.symm.imp_right fun one => ?_) h place
        exact ⟨one, c, go, scanned, .inr ⟨isBrk, one⟩⟩
      · rw [finish]
        exact gone t eUsers_neg
    · rw [isRet, compatFinish_ret]
      exact secondScan_pass ns now _ alive marks list (.inl rfl) h place
    · rw [isRet, compatFinish_ret]
      exact .grants s.contentionTime c.flags marks ⟨c, go, scanned, .inl isRet⟩
    · rw [isDestroy, compatFinish_destroy]
      exact gone s.contentionTime eWouldBlock_neg

end FirstPass

/-- The grant of a waiting lock. -/
def grantAgain (s : ExtentRes) (id : Nat) (flags : EnqFlags) : Except Fault (ExtentRes × Bool) := do
  let s ← s.resourceUnlinkLock id
  let (s, _) ← s.extentPolicy id flags
  let s ← s.grantLock id
  .ok (s, true)

/-- What a pass for the first waiting lock does. -/
inductive Again (s : ExtentRes) (id : Nat) : Except Fault (ExtentRes × Bool) → Prop where
  | scanFails {e : Fault} (ofTree : e.ofTree = true)
      (fails : s.compatGranted (s.locks id) Mode.all (s.scanStart {} none) = .error e) :
      Again s id (.error e)
  | stops {a : Nat → Bool} (t : Nat) (sent : ∀ other, s.astSent other = true → a other = true) :
      Again s id (.ok (s.marked a t, false))
  | grants {a : Nat → Bool} (t : Nat) (f : EnqFlags)
      (sent : ∀ other, s.astSent other = true → a other = true)
      (compatible : s.Compatible id {} none) : Again s id ((s.marked a t).grantAgain id f)

/-- What follows the scans of a pass for a waiting lock. -/
def againEnd (id : Nat) (x : ExtentRes × Compat × Int) : Except Fault (ExtentRes × Bool) :=
  if x.2.2 = 0 then .ok (x.1, false) else x.1.grantAgain id x.2.1.flags

theorem processAgain_eq (ns : Namespace) (now : Nat) (s : ExtentRes) (id : Nat) :
    s.processAgain ns now id = s.compatQueueGranted ns now id {} none 0 >>= fun x =>
      (if x.2.2 = 1 then x.1.compatQueueWaiting ns now id x.2.1.flags none x.2.1.contended
        else .ok x) >>= againEnd id := by
  refine congrArg (s.compatQueueGranted ns now id {} none 0 >>= ·) (funext fun x => ?_)
  dsimp only
  split <;> rfl

/-- Everything a pass for the first waiting lock can do. -/
theorem processAgain_again (ns : Namespace) (now : Nat) {s : ExtentRes} {id : Nat} {rest : List Nat}
    (first : s.waiting = id :: rest) : Again s id (s.processAgain ns now id) := by
  let c₀ := s.scanStart {} none
  have scan := compatGranted_effect s (s.locks id) Mode.all c₀
  rw [processAgain_eq]
  change Again s id ((s.compatGranted (s.locks id) Mode.all c₀ >>=
    fun x => s.compatFinish ns now id x.1 x.2) >>= fun x =>
      (if x.2.2 = 1 then x.1.compatQueueWaiting ns now id x.2.1.flags none x.2.1.contended
        else .ok x) >>= againEnd id)
  cases scanned : s.compatGranted (s.locks id) Mode.all c₀ with
  | error e =>
    rw [scanned] at scan
    exact .scanFails scan scanned
  | ok x =>
    obtain ⟨c, go⟩ := x
    rw [scanned] at scan
    obtain ⟨step, ended, notNext⟩ := scan
    change ScanEnd c go at ended
    have noWait : c.flags.blockNowait = false := by rw [step.flags]; rfl
    have noDeny : c.flags.denyOnContention = false := by rw [step.flags]; rfl
    change Again s id (s.compatFinish ns now id c go >>= _)
    rcases ended with isNext | isBrk | isRet | isRet | ⟨_, nowait⟩
    · exact absurd isNext notNext
    · obtain ⟨t, finish | ⟨_, deny, _⟩⟩ := compatFinish_done ns now s id c (.inr isBrk)
      · rw [finish]
        rcases step.compat with one | zero
        · -- the waiting locks are scanned up to the lock itself, which is the first
          have one : c.compat = 1 := one
          let s₁ := s.marked c.astSent t
          let c₁ : Compat := ⟨c.flags, none, c.contended, c.astSent, 1⟩
          have meet : compatWaitingLock s₁ id id false c₁ = .ok (s₁, c₁, false, .brk) := by
            simp only [compatWaitingLock]
            rw [if_pos trivial]
          have queue : compatWaiting id s₁.waiting false s₁ c₁ = .ok (s₁, c₁, .brk) := by
            change compatWaiting id s.waiting false s₁ c₁ = _
            rw [first, compatWaiting, meet]
            rfl
          obtain ⟨t', finish' | ⟨_, deny, _⟩⟩ := compatFinish_done ns now s₁ id c₁ (.inr rfl)
          · have goes : s₁.compatQueueWaiting ns now id c.flags none c.contended =
                .ok (s₁.marked c₁.astSent t', c₁, 1) := by
              change (compatWaiting id s₁.waiting false s₁ c₁ >>= _) = _
              rw [queue]
              exact finish'
            change Again s id ((if c.compat = 1 then
              s₁.compatQueueWaiting ns now id c.flags none c.contended else _) >>= againEnd id)
            rw [if_pos one, goes]
            exact .grants t' c.flags step.sent ⟨c, go, scanned, .inr ⟨isBrk, one⟩⟩
          · rw [show c₁.flags = c.flags from rfl, noDeny] at deny
            cases deny
        · rw [zero]
          exact .stops t step.sent
      · rw [noDeny] at deny
        cases deny
    · rw [isRet, compatFinish_ret]
      exact .stops s.contentionTime step.sent
    · rw [isRet, compatFinish_ret]
      exact .grants s.contentionTime c.flags step.sent ⟨c, go, scanned, .inl isRet⟩
    · rw [noWait] at nowait
      cases nowait

end ExtentRes

end Ldlm
