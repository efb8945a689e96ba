/-
Module: Lustre.Ldlm.Extent.LinkedOnce
Purpose: Each waiting lock is on `lr_waiting` once, unless a group request restarts behind a waiting
  lock of its group.
Trusted boundary: none
-/
import Mathlib.Data.List.Nodup
import Lustre.Ldlm.Extent.Passes

namespace Ldlm

open Run List

namespace ExtentRes

variable {s : ExtentRes} {id : Nat}

/-- Only the list assertion is told apart here. -/
theorem ne_of_ofTree {e : Fault} (h : e.ofTree = true) : e ≠ .resLinkBusy := by
  rintro rfl
  cases h

section

variable {σ : Type} {P : σ → Prop} {x : Except Fault σ}

theorem notBusy (h : OrTree P x) : Outcome P (· ≠ .resLinkBusy) x :=
  h.mono (fun _ p => p) fun _ => ne_of_ofTree

theorem unlessBusy {p : Prop} (h : Outcome P (· ≠ .resLinkBusy) x) :
    Outcome P (fun e => e = .resLinkBusy → p) x :=
  h.mono (fun _ p => p) fun _ ne busy => absurd busy ne

end

theorem resourceUnlinkLock_queued (id : Nat) {cur : Option Nat} (h : Queued s cur)
    (only : cur = none ∨ cur = some id) :
    OrTree (fun s' => Queued s' (some id) ∧ s'.linked id = false ∧ s'.nextLock = s.nextLock ∧
        (s'.locks id).destroyed = (s.locks id).destroyed ∧
        s'.waiting = s.waiting.filter (· ≠ id)) (s.resourceUnlinkLock id) := by
  refine (resourceUnlinkLock_effect s id).mono fun s' same => ?_
  refine ⟨same.queued (h.delInit only), ?_, same.nextLock, same.destroyed id, same.waiting⟩
  rw [same.linked, delInit_free]

theorem processGrant_queued (h : Queued s (some id)) (known : id < s.nextLock)
    (alive : (s.locks id).destroyed = false) (flags : EnqFlags) :
    Outcome (Queued · none) (· ≠ .resLinkBusy) (s.processGrant id flags) := by
  refine (notBusy (extentPolicy_effect s id flags)).bind ?_
  rintro ⟨s₁, _⟩ ⟨e, policy⟩
  obtain rfl : s₁ = s.modifyLock id fun l => { l with extent := e } := policy
  have alive₁ : ((s.modifyLock id fun l => { l with extent := e }).locks id).destroyed = false := by
    rw [modifyLock_locks, if_pos rfl]
    exact alive
  refine (notBusy (resourceUnlinkLock_queued id (h.setExtent id e) (.inr rfl))).bind ?_
  rintro s₂ ⟨h₂, free₂, next₂, alive₂, _⟩
  have alive₃ : (s₂.locks id).destroyed = false := by rw [alive₂, alive₁]
  refine (notBusy (grantLock_effect alive₃ free₂)).mono fun s' same => ?_
  exact same.queued (h₂.grant (by rw [next₂]; exact known) alive₃ free₂)

theorem grantAgain_queued (h : Queued s none) (known : id < s.nextLock)
    (alive : (s.locks id).destroyed = false) (flags : EnqFlags) {rest : List Nat}
    (first : s.waiting = id :: rest) :
    Outcome (fun x => Queued x.1 none ∧ x.1.waiting = rest) (· ≠ .resLinkBusy)
      (s.grantAgain id flags) := by
  have left : s.waiting.filter (· ≠ id) = rest := by
    grind [nodup_cons, filter_cons_of_neg, filter_eq_self, cases Queued]
  refine (notBusy (resourceUnlinkLock_queued id h (.inl rfl))).bind ?_
  rintro s₁ ⟨h₁, free₁, next₁, alive₁, waiting₁⟩
  refine (notBusy (extentPolicy_effect s₁ id flags)).bind ?_
  rintro ⟨s₂, _⟩ ⟨e, policy⟩
  obtain rfl : s₂ = s₁.modifyLock id fun l => { l with extent := e } := policy
  have alive₂ : ((s₁.modifyLock id fun l => { l with extent := e }).locks id).destroyed = false := by
    rw [modifyLock_locks, if_pos rfl]
    exact alive₁.trans alive
  have known₂ : id < s₁.nextLock := by rw [next₁]; exact known
  refine (notBusy (grantLock_effect alive₂ free₁)).bind ?_
  intro s₃ same
  refine ⟨same.queued ((h₁.setExtent id e).grant known₂ alive₂ free₁), ?_⟩
  exact same.waiting.trans (waiting₁.trans left)

theorem processOut_queued {w : List Nat} (h : Queued s none) :
    Outcome (Queued · none) (· ≠ .resLinkBusy) (s.processOut id w) := by
  refine (processOut_effect s id w).mono ?_ ?_
  · rintro s' ⟨a, rfl, _⟩
    exact h.marked a _
  · rintro e (rfl | ⟨rfl, _⟩) <;> exact Fault.noConfusion

/-! ### Steps -/

variable (ns : Namespace) (now : Nat)

/-- A pass keeps the queues consistent; it links a linked lock only behind its group. -/
theorem processFirst_queued (h : Queued s (some id))
    (known : id < s.nextLock) (alive : (s.locks id).destroyed = false)
    (fresh : (s.locks id).grantedMode = none) (place : s.linked id = true → id ∈ s.waiting)
    (flags : EnqFlags) (rpcList : List Nat) :
    Outcome (Queued · none) (fun e => e = .resLinkBusy → ¬ s.Clear id)
      (s.processFirst ns now id flags rpcList) := by
  have pass := processFirst_pass ns now h alive place flags rpcList
  generalize s.processFirst ns now id flags rpcList = result at pass ⊢
  cases pass with
  | scanFails ofTree _ => exact fun busy => absurd busy (ne_of_ofTree ofTree)
  | linkFails behind => exact fun _ => behind
  | @gone a t w _ =>
    have destroyed : Queued ((s.marked a t).destroyedState id) none :=
      ((h.marked a t).delInit (.inr rfl)).destroy (delInit_free _ id) rfl
    exact unlessBusy (processOut_queued destroyed)
  | grants t f _ _ =>
    exact unlessBusy (processGrant_queued (h.marked _ t) known alive f)
  | @waits a t w f queue _ place' =>
    have queued : Queued { s.marked a t with waiting := queue } none := by
      rcases place' with ⟨isLinked, rfl⟩ | ⟨free, pre, post, split, rfl, front, back⟩
      · exact (h.marked a t).close isLinked
      · exact (h.marked a t).insert known alive free fresh split front back
    exact { queued with suspended := forall_mem_cons.mpr ⟨known, h.suspended⟩ }

theorem lockCreate_queued (h : Queued s none) (r : Request) (flags : EnqFlags) :
    Queued (s.lockCreate r flags) (some s.nextLock) := by
  have other : ∀ {a}, a ≠ s.nextLock → (s.lockCreate r flags).locks a = s.locks a :=
    fun different => Function.update_of_ne different _ _
  have old : ∀ {a}, s.linked a = true → a ≠ s.nextLock := by
    rintro a isLinked rfl
    exact lt_irrefl _ (h.known _ isLinked)
  have waits : ∀ {a}, a ∈ s.waiting → (s.lockCreate r flags).locks a = s.locks a :=
    fun mem => other (old (linked_iff.mpr (.inr mem)))
  refine ⟨h.grantedNodup, h.waitingNodup, h.apart, ?_, ?_, ?_, ?_, ?_, ?_, ?_⟩
  · exact fun a isLinked => Nat.lt_succ_of_lt (h.known a isLinked)
  · intro a isLinked
    rw [other (old isLinked)]
    exact h.alive a isLinked
  · intro a mem
    rw [other (old (linked_iff.mpr (.inl mem)))]
    exact h.held a mem
  · intro a mem
    rw [waits mem]
    exact h.blocked a mem
  · refine h.groupFirst.imp_of_mem fun {a b} inA inB first => ?_
    rw [GroupFirst, waits inA, waits inB]
    exact first
  · intro a known notCur
    have different : a ≠ s.nextLock := fun same => notCur (congrArg some same)
    have known : a < s.nextLock := lt_of_le_of_ne (Nat.lt_succ_iff.mp known) different
    rw [other different]
    exact h.complete a known (Option.some_ne_none a)
  · exact fun x mem => Nat.lt_succ_of_lt (h.suspended x mem)

theorem enqueue_queued (h : Queued s none) (r : Request)
    (flags : EnqFlags) : Outcome (Queued · none) (· ≠ .resLinkBusy) (s.enqueue ns now r flags) := by
  rw [enqueue]
  split
  · exact Fault.noConfusion
  · have lock : (s.lockCreate r flags).locks s.nextLock = _ := Function.update_self _ _ _
    have free : s.linked s.nextLock = false := by
      by_contra isLinked
      exact lt_irrefl _ (h.known s.nextLock (by simpa using isLinked))
    have notQueued : s.nextLock ∉ s.waiting := (not_linked_iff.mp free).2
    have clear : (s.lockCreate r flags).Clear s.nextLock := fun _ mem => absurd mem notQueued
    refine (processFirst_queued ns now (lockCreate_queued h r flags) (Nat.lt_succ_self _) ?_ ?_ ?_ _
      _).mono (fun _ p => p) fun _ behind busy => behind busy clear
    · rw [lock]
    · rw [lock]
    · intro isLinked
      exact absurd (free.symm.trans isLinked) Bool.false_ne_true

/-- A lock that is not granted waits. -/
theorem Queued.waiting_mem (h : Queued s none) (known : id < s.nextLock)
    (alive : (s.locks id).destroyed = false) (notGranted : id ∉ s.granted) : id ∈ s.waiting := by
  have isLinked := (h.complete id known (Option.some_ne_none _)).resolve_left (by simp [alive])
  exact (linked_iff.mp isLinked).resolve_left notGranted

theorem resume_queued (h : Queued s none) {x : Suspended}
    (known : x.lock < s.nextLock) (outcome : AstOutcome) :
    Outcome (Queued · none) (fun e => e = .resLinkBusy → outcome ≠ .sent ∧ ¬ s.Clear x.lock)
      (s.resume ns now x outcome) := by
  have out : ∀ w, Outcome (Queued · none)
      (fun e => e = .resLinkBusy → outcome ≠ .sent ∧ ¬ s.Clear x.lock) (s.processOut x.lock w) :=
    fun w => unlessBusy (processOut_queued h)
  simp only [resume]
  split
  · exact h
  next active =>
  split
  · exact out _
  next alive =>
  split
  · exact out _
  next notGranted =>
  have alive : (s.locks x.lock).destroyed = false := by simpa using alive
  have waits := h.waiting_mem known alive fun mem => notGranted (h.held _ mem)
  refine (processFirst_queued ns now (h.open x.lock) known alive (h.blocked _ waits) (fun _ => waits)
    _ _).mono (fun _ p => p) fun _ behind busy => ⟨?_, behind busy⟩
  exact fun sent => active (.inr sent)

/-- A pass over the queue always looks at its first lock, so it keeps what the pass for the
first lock keeps. -/
theorem reprocessFrom_keeps {I : ExtentRes → Prop} {E : Fault → Prop}
    (one : ∀ {s : ExtentRes} {id : Nat} {rest : List Nat}, I s → s.waiting = id :: rest →
      Outcome (fun x => I x.1 ∧ (x.2 = true → x.1.waiting = rest)) E (s.processAgain ns now id))
    (fuel : Nat) :
    ∀ {s : ExtentRes}, I s → Outcome I E (reprocessFrom ns now fuel s s.waiting.head?) := by
  induction fuel with
  | zero => exact fun h => h
  | succ fuel ih =>
    intro s h
    cases first : s.waiting with
    | nil => exact h
    | cons id rest =>
      have pos : nextIn id s.waiting = rest.head? := by simp [first, nextIn]
      refine (one h first).bind ?_
      rintro ⟨s', goOn⟩ ⟨h', left⟩
      dsimp only
      split
      · next isTrue => grind
      · exact h'

theorem processAgain_queued {rest : List Nat} (h : Queued s none)
    (first : s.waiting = id :: rest) :
    Outcome (fun x => Queued x.1 none ∧ (x.2 = true → x.1.waiting = rest)) (· ≠ .resLinkBusy)
      (s.processAgain ns now id) := by
  have isLinked : s.linked id = true := linked_iff.mpr (.inr (by simp [first]))
  have pass := processAgain_again ns now first
  generalize s.processAgain ns now id = result at pass ⊢
  cases pass with
  | scanFails ofTree _ => exact ne_of_ofTree ofTree
  | stops t _ => exact ⟨h.marked _ t, Bool.noConfusion⟩
  | grants t f _ _ =>
    exact (grantAgain_queued (h.marked _ t) (h.known id isLinked) (h.alive id isLinked) f
      first).mono fun x p => ⟨p.1, fun _ => p.2⟩

theorem lockCancel_queued (h : Queued s none) :
    Outcome (Queued · none) (· ≠ .resLinkBusy) (s.lockCancel id) := by
  have unlinked := resourceUnlinkLock_queued id h (.inl rfl)
  cases unlink : s.resourceUnlinkLock id with
  | error e =>
    rw [unlink] at unlinked
    rw [lockCancel, unlink]
    exact ne_of_ofTree unlinked
  | ok s₁ =>
    rw [unlink] at unlinked
    obtain ⟨h₁, free₁, _⟩ := unlinked
    have done : ∀ pool, Queued (s₁.cancelledState id pool) none := by
      intro pool
      have gone : Queued (s₁.modifyLock id fun l => { l with destroyed := true, grantedMode := none })
          none := h₁.destroy free₁ rfl
      exact { gone with }
    rw [lockCancel_eq unlink free₁]
    split
    · split
      · exact Fault.noConfusion
      · exact done _
    · exact done _

end ExtentRes

/-- A group request is restarted only when no waiting lock of its group precedes it. -/
def Label.RestartsClear (s : ExtentRes) : Label → Prop
  | .resume lock outcome _ => outcome ≠ .sent → s.Clear lock
  | _ => True

instance (s : ExtentRes) : (label : Label) → Decidable (label.RestartsClear s)
  | .resume lock outcome _ => inferInstanceAs (Decidable (outcome ≠ .sent → s.Clear lock))
  | .enqueue .. => isTrue trivial
  | .reprocess _ => isTrue trivial
  | .cancel _ => isTrue trivial

namespace ExtentRes

variable {s : ExtentRes}

/-- Every step keeps the queues consistent, or stops at a restart that is not clear. -/
theorem step_queued (ns : Namespace) (h : Queued s none) (label : Label) :
    Outcome (Queued · none) (fun e => e = .resLinkBusy → ¬ label.RestartsClear s)
      (s.step ns label) := by
  cases label with
  | enqueue r flags now => exact unlessBusy (enqueue_queued ns now h r flags)
  | resume lock outcome now =>
    rw [step]
    split
    · exact h
    · next x found =>
      have here : x.lock = lock := by simpa using find?_some found
      have known : x.lock < s.nextLock := h.suspended x (mem_of_find?_eq_some found)
      have h' : Queued { s with suspended := s.suspended.filter (·.lock ≠ lock) } none :=
        { h with suspended := fun x mem => h.suspended x (mem_of_mem_filter mem) }
      refine (resume_queued ns now h' known outcome).mono (fun _ p => p) fun _ behind busy clear => ?_
      obtain ⟨restarts, notClear⟩ := behind busy
      exact notClear (here ▸ clear restarts)
  | reprocess now =>
    refine unlessBusy (reprocessFrom_keeps ns now (fun h first => ?_) _ h)
    exact processAgain_queued ns now h first
  | cancel lock =>
    rw [step]
    split
    · exact unlessBusy (lockCancel_queued h)
    · exact h

theorem empty_queued (others : Nat) : Queued (empty others) none where
  grantedNodup := nodup_nil
  waitingNodup := nodup_nil
  apart := by simp [empty]
  known := by simp [empty, linked]
  alive := by simp [empty, linked]
  held := by simp [empty]
  blocked := by simp [empty]
  groupFirst := .nil
  complete := by simp [empty]
  suspended := by simp [empty]

end ExtentRes

open ExtentRes in
/-- In every run whose restarts are clear no queued lock is linked, and every waiting lock is on
`lr_waiting` once. -/
theorem extent_lock_linked_once (ns : Namespace) (others : Nat) (labels : List Label)
    (clear : Meets (ExtentRes.step ns) (fun s label => label.RestartsClear s) (empty others) labels) :
    Outcome (fun s => s.waiting.Nodup ∧ ∀ id < s.nextLock, (s.locks id).destroyed = false →
        (s.locks id).grantedMode ≠ some (s.locks id).reqMode →
        s.waiting.count id = 1 ∧ id ∉ s.granted)
      (· ≠ .resLinkBusy) (run (ExtentRes.step ns) (empty others) labels) := by
  have keep : ∀ s label, Queued s none → label.RestartsClear s →
      Outcome (Queued · none) (· ≠ .resLinkBusy) (ExtentRes.step ns s label) :=
    fun s label h clear => (step_queued ns h label).mono (fun _ p => p) fun _ behind busy =>
      behind busy clear
  refine (outcome_run keep (empty_queued others) clear).mono fun s h => ?_
  refine ⟨h.waitingNodup, fun id known alive waits => ?_⟩
  have notGranted : id ∉ s.granted := fun mem => waits (h.held id mem)
  exact ⟨count_eq_one_of_mem h.waitingNodup (h.waiting_mem known alive notGranted), notGranted⟩

/-- A writer waits for another one, restarts twice, and is granted after the cancel. -/
theorem extent_lock_linked_once_run :
    Outcome (fun s => s.waiting.Nodup ∧ ∀ id < s.nextLock, (s.locks id).destroyed = false →
        (s.locks id).grantedMode ≠ some (s.locks id).reqMode →
        s.waiting.count id = 1 ∧ id ∉ s.granted)
      (· ≠ .resLinkBusy)
      (run (ExtentRes.step ⟨32, 2, 0⟩) (ExtentRes.empty 0)
        [.enqueue ⟨.pw, ⟨0, 4095⟩, 0, some 1, true⟩ {} 0,
          .enqueue ⟨.pw, ⟨0, 8191⟩, 0, some 2, true⟩ {} 0,
          .resume 1 .restart 1, .resume 1 .restart 2, .cancel 0, .reprocess 3]) :=
  extent_lock_linked_once _ _ _ (by decide +kernel)

/-- The request for a group lock over the whole file. -/
def groupRequest (gid : Nat) : ExtentRes.Request :=
  ⟨.group, ⟨0, maxU64⟩, gid, some 1, true⟩

/-- Group 1 waits for group 5, which gets a second lock; the next request of group 1 goes behind the
first and sends a callback for that lock.  The client has lost it, so the error handler cancels it and
asks for a restart, which links the request again. -/
theorem restart_links_twice : run (ExtentRes.step ⟨32, 2, 0⟩) (ExtentRes.empty 0)
      [.enqueue (groupRequest 5) {} 0, .enqueue (groupRequest 1) {} 0,
        .enqueue (groupRequest 5) {} 0, .enqueue (groupRequest 1) {} 0,
        .cancel 2, .resume 3 .restart 0] = .error .resLinkBusy := by
  rfl

open ExtentRes in
/-- In every run each lock that is created and not destroyed is on one queue, once, and only group locks
and locks with the same gid stand before a waiting group lock. -/
theorem extent_queue_discipline (ns : Namespace) (others : Nat) (labels : List Label) :
    Outcome (fun s => (s.granted ++ s.waiting).Nodup ∧ s.waiting.Pairwise (GroupFirst s.locks) ∧
        ∀ id, id ∈ s.granted ++ s.waiting ↔ id < s.nextLock ∧ (s.locks id).destroyed = false)
      (fun _ => True) (run (ExtentRes.step ns) (empty others) labels) := by
  have keep : ∀ s label, Queued s none → True →
      Outcome (Queued · none) (fun _ => True) (ExtentRes.step ns s label) :=
    fun s label h _ => (step_queued ns h label).mono (fun _ p => p) fun _ _ => trivial
  refine (outcome_run keep (empty_queued others) (meets_of_forall _ fun _ _ => trivial)).mono ?_
  intro s h
  refine ⟨nodup_append'.mpr ⟨h.grantedNodup, h.waitingNodup, h.apart⟩, h.groupFirst, fun id => ?_⟩
  rw [mem_append, ← linked_iff]
  refine ⟨fun isLinked => ⟨h.known id isLinked, h.alive id isLinked⟩, fun ⟨known, alive⟩ => ?_⟩
  exact (h.complete id known (by simp)).resolve_left (by simp [alive])

end Ldlm
