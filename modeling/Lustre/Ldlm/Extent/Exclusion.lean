/-
Module: Lustre.Ldlm.Extent.Exclusion
Purpose: Mutual exclusion of extent locks over all runs on one resource, including what other
  requests do while the resource lock is dropped.
Trusted boundary: none
-/
import Lustre.Ldlm.Extent.LinkedOnce
import Lustre.Ldlm.Extent.Sound

namespace Ldlm

open Run List

namespace ExtentRes

/-! ### Marks of suspended calls -/

/-- The lists of callbacks in progress: no lock is on two, and all on one carry `LDLM_FL_AST_SENT`. -/
structure Sent (astSent : Nat → Bool) (lists : List (List Nat)) : Prop where
  apart : lists.Pairwise List.Disjoint
  marked : ∀ w ∈ lists, w.Nodup ∧ ∀ id ∈ w, astSent id = true

namespace Sent

variable {a a' : Nat → Bool} {w w' : List Nat} {rest : List (List Nat)}

theorem tail (h : Sent a (w :: rest)) : Sent a rest :=
  ⟨(pairwise_cons.mp h.apart).2, fun v mem => h.marked v (mem_cons_of_mem _ mem)⟩

theorem mono (h : Sent a rest) (sent : ∀ id, a id = true → a' id = true) : Sent a' rest :=
  ⟨h.apart, fun v mem => ⟨(h.marked v mem).1, fun id inV => sent id ((h.marked v mem).2 id inV)⟩⟩

theorem cons_nil (h : Sent a rest) : Sent a ([] :: rest) where
  apart := pairwise_cons.mpr ⟨fun _ _ => disjoint_nil_left _, h.apart⟩
  marked := forall_mem_cons.mpr ⟨⟨nodup_nil, by simp⟩, h.marked⟩

/-- A scan extends the list of its call. -/
theorem scan (h : Sent a (w :: rest)) (marks : Marks a w a' w') : Sent a' (w' :: rest) := by
  obtain ⟨new, rfl, nodup, fresh⟩ := marks.marks
  have notOld : ∀ v ∈ w :: rest, ∀ id ∈ new, id ∉ v := by grind [cases Sent, cases Marks]
  refine ⟨pairwise_cons.mpr ⟨?_, h.tail.apart⟩, ?_⟩
  · intro v mem id inNew inV
    rcases mem_append.mp inNew with inNew | inW
    · exact notOld v (mem_cons_of_mem _ mem) id inNew inV
    · exact (pairwise_cons.mp h.apart).1 v mem inW inV
  · grind [marked, cases Sent, cases Marks]

theorem discard (h : Sent a (w :: rest)) (others : ∀ id, id ∉ w → a' id = a id) : Sent a' rest := by
  refine ⟨h.tail.apart, fun v mem => ⟨(h.tail.marked v mem).1, fun id inV => ?_⟩⟩
  have notIn : id ∉ w := fun inW => (pairwise_cons.mp h.apart).1 v mem inW inV
  rw [others id notIn]
  exact (h.tail.marked v mem).2 id inV

theorem resume {calls : List Suspended} (h : Sent a (calls.map (·.rpcList))) {x : Suspended}
    {lock : Nat} (found : calls.find? (·.lock = lock) = some x) :
    Sent a (x.rpcList :: (calls.filter (·.lock ≠ lock)).map (·.rpcList)) := by
  have mem := mem_of_find?_eq_some found
  have here : x.lock = lock := by simpa using find?_some found
  have apart : calls.Pairwise fun y z => List.Disjoint y.rpcList z.rpcList :=
    pairwise_map.mp h.apart
  refine ⟨pairwise_cons.mpr ⟨?_, ?_⟩, ?_⟩
  · intro w inRest
    obtain ⟨y, inFilter, rfl⟩ := mem_map.mp inRest
    obtain ⟨inCalls, other⟩ := mem_filter.mp inFilter
    have different : x ≠ y := by
      rintro rfl
      simp [here] at other
    have : Std.Symm fun y z : Suspended => List.Disjoint y.rpcList z.rpcList :=
      ⟨fun _ _ disjoint _ inZ inY => disjoint inY inZ⟩
    exact apart.forall mem inCalls different
  · exact pairwise_map.mpr (apart.filter _)
  · grind [cases Sent]

end Sent

/-- What every part of a step keeps. -/
def Stays (others : Nat) (s : ExtentRes) : Prop :=
  Sound others s ∧ Sent s.astSent (s.suspended.map (·.rpcList))

/-- The two assertions outside the trees and the extent policy that a run can meet. -/
def Stops (e : Fault) : Prop := e = .resLinkBusy ∨ e = .discardData

section Parts

variable {others : Nat} {s : ExtentRes} {id : Nat}

theorem processOut_stays {w : List Nat} (h : Sound others s)
    (sent : Sent s.astSent (w :: s.suspended.map (·.rpcList))) :
    Outcome (Stays others) Stops (s.processOut id w) := by
  refine (processOut_effect s id w).mono ?_ ?_
  · rintro s' ⟨a, rfl, same⟩
    exact ⟨h.marked a _, sent.discard same⟩
  · rintro e (isDiscard | ⟨_, bad⟩)
    · exact .inr isDiscard
    · exact absurd (sent.marked w mem_cons_self) bad

/-- The waiting locks still have the extents they asked for. -/
theorem Queued.waits {cur : Option Nat} (h : Queued s cur) :
    ∀ a ∈ s.waiting, a < s.nextLock ∧ a ∉ s.granted ∧ (s.locks a).destroyed = false := by
  intro a mem
  have isLinked : s.linked a = true := linked_iff.mpr (.inr mem)
  exact ⟨h.known a isLinked, fun inGranted => h.apart a inGranted mem, h.alive a isLinked⟩

section Grant

variable (h : Sound others s) (known : id < s.nextLock) (notGranted : id ∉ s.granted)
  (alive : (s.locks id).destroyed = false)

include h known notGranted alive

/-- The end of both ways to grant a lock. -/
theorem grantFree {e : Extent} (allowed : s.Allowed id e) :
    Outcome (fun s' => Sound others s' ∧ s'.astSent = s.astSent ∧ s'.suspended = s.suspended)
      (fun _ => False)
      (((s.delInit id).modifyLock id fun l => { l with extent := e }).grantLock id) := by
  have allowed' : (s.delInit id).Allowed id e :=
    ⟨allowed.covers, allowed.bounded, fun a mem => allowed.clear a (mem_of_mem_filter mem)⟩
  have alive' : (((s.delInit id).modifyLock id fun l => { l with extent := e }).locks id).destroyed =
      false := by
    rw [modifyLock_locks, if_pos rfl]
    exact alive
  have free := delInit_free s id
  refine (((h.delInit notGranted).grantLock known free alive allowed').and
    (grantLock_effect alive' free)).mono (fun s' both => ?_) fun _ never => never.1
  exact ⟨both.1, both.2.astSent, both.2.suspended⟩

variable (clear : ∀ a ∈ s.granted, Conflicting (s.locks a) (s.locks id) →
  extentOverlapped (s.locks id).reqExtent (s.locks a).extent = false) (flags : EnqFlags)

include clear

theorem processGrant_sound (queued : Queued s (some id)) :
    Outcome (fun s' => Sound others s' ∧ s'.astSent = s.astSent ∧ s'.suspended = s.suspended)
      (fun _ => False) (s.processGrant id flags) := by
  refine (h.extentPolicy known notGranted alive queued.waits clear flags).bind ?_
  rintro ⟨s₁, _⟩ ⟨e, result, allowed⟩
  obtain ⟨held, tied⟩ := h.tied
  obtain rfl : s₁ = s.modifyLock id fun l => { l with extent := e } := result
  have tied₁ : Tied (s.modifyLock id fun l => { l with extent := e }) held := by
    refine tied.relock (fun a => ?_) (fun a mem => ?_) fun a => ?_
    · rw [Function.update_apply]
      split
      · next same => rw [same]
      · rfl
    · grind [Function.update_apply]
    · grind [Function.update_apply]
  change Outcome _ _ ((s.modifyLock id fun l => { l with extent := e }).resourceUnlinkLock id >>= _)
  rw [tied₁.resourceUnlinkLock_eq notGranted]
  exact grantFree h known notGranted alive allowed

theorem grantAgain_sound (queued : Queued s none) :
    Outcome (fun x => Sound others x.1 ∧ x.1.astSent = s.astSent ∧ x.1.suspended = s.suspended)
      (fun _ => False) (s.grantAgain id flags) := by
  obtain ⟨held, tied⟩ := h.tied
  have notGranted' : id ∉ (s.delInit id).granted := fun mem => notGranted (mem_of_mem_filter mem)
  change Outcome _ _ (s.resourceUnlinkLock id >>= _)
  rw [tied.resourceUnlinkLock_eq notGranted]
  refine ((h.delInit notGranted).extentPolicy known notGranted' alive ?_ ?_ flags).bind ?_
  · intro a mem
    obtain ⟨known, notIn, alive⟩ := queued.waits a (mem_of_mem_filter mem)
    exact ⟨known, fun inGranted => notIn (mem_of_mem_filter inGranted), alive⟩
  · exact fun a mem => clear a (mem_of_mem_filter mem)
  · rintro ⟨s₁, _⟩ ⟨e, result, allowed⟩
    obtain rfl : s₁ = (s.delInit id).modifyLock id fun l => { l with extent := e } := result
    have allowed : s.Allowed id e := by
      refine ⟨allowed.covers, allowed.bounded, fun a mem => allowed.clear a ?_⟩
      exact mem_filter.mpr ⟨mem, by simpa using fun same : a = id => notGranted (same ▸ mem)⟩
    exact (grantFree h known notGranted alive allowed).bind fun s' both => both

end Grant

/-- The scan of the granted locks passes its assertions. -/
theorem scan_passes (h : Sound others s) {flags : EnqFlags} {workList : Option (List Nat)} {e : Fault}
    (fails : s.compatGranted (s.locks id) Mode.all (s.scanStart flags workList) = .error e) : False := by
  obtain ⟨held, tied⟩ := h.tied
  obtain ⟨x, run, _⟩ := compatGranted_ok tied h.mode (s.locks id) Mode.all (s.scanStart flags workList)
  rw [fails] at run
  cases run

variable (ns : Namespace) (now : Nat)

theorem processFirst_stays (h : Sound others s) {rpcList : List Nat}
    (sent : Sent s.astSent (rpcList :: s.suspended.map (·.rpcList))) (queued : Queued s (some id))
    (known : id < s.nextLock) (notGranted : id ∉ s.granted)
    (alive : (s.locks id).destroyed = false) (place : s.linked id = true → id ∈ s.waiting)
    (flags : EnqFlags) : Outcome (Stays others) Stops (s.processFirst ns now id flags rpcList) := by
  have pass := processFirst_pass ns now queued alive place flags rpcList
  generalize s.processFirst ns now id flags rpcList = result at pass ⊢
  cases pass with
  | scanFails _ fails => exact (scan_passes h fails).elim
  | linkFails _ => exact .inl rfl
  | @gone a t w marks =>
    exact processOut_stays ((h.marked a t).destroyedState notGranted) (sent.scan marks)
  | @grants a t w f marks compatible =>
    refine (processGrant_sound (h.marked a t) known notGranted alive (h.compatible compatible) f
      (queued.marked a t)).mono ?_ fun _ never => never.elim
    rintro s' ⟨sound, sameSent, sameCalls⟩
    refine ⟨sound, ?_⟩
    rw [sameSent, sameCalls]
    exact (sent.scan marks).tail
  | @waits a t w f queue marks _ => exact ⟨h.rewrite a t queue _, sent.scan marks⟩

theorem processAgain_stays {rest : List Nat} (h : Stays others s)
    (queued : Queued s none) (first : s.waiting = id :: rest) :
    Outcome (fun x => Stays others x.1) Stops (s.processAgain ns now id) := by
  obtain ⟨known, notGranted, alive⟩ := queued.waits id (by simp [first])
  have pass := processAgain_again ns now first
  generalize s.processAgain ns now id = result at pass ⊢
  cases pass with
  | scanFails _ fails => exact (scan_passes h.1 fails).elim
  | @stops a t sent => exact ⟨h.1.marked a t, h.2.mono sent⟩
  | @grants a t f sent compatible =>
    refine (grantAgain_sound (h.1.marked a t) known notGranted alive (h.1.compatible compatible) f
      (queued.marked a t)).mono ?_ fun _ never => never.elim
    rintro x ⟨sound, sameSent, sameCalls⟩
    refine ⟨sound, ?_⟩
    rw [sameSent, sameCalls]
    exact h.2.mono sent

end Parts

/-! ### Steps -/

/-- A request for whole pages in a mode of extent locks, for the whole file if it is a group lock. -/
def Request.InScope (r : Request) : Prop :=
  r.extent.PageAligned ∧ r.mode ∈ [.ex, .pw, .pr, .cw, .cr, .group] ∧
    (r.mode = .group → r.extent = ⟨0, maxU64⟩)

instance (r : Request) : Decidable r.InScope := inferInstanceAs (Decidable (_ ∧ _ ∧ _))

end ExtentRes

/-- The requests of the run are in scope. -/
def Label.InScope : Label → Prop
  | .enqueue r _ _ => r.InScope
  | _ => True

instance : (label : Label) → Decidable label.InScope
  | .enqueue r _ _ => inferInstanceAs (Decidable r.InScope)
  | .resume .. => isTrue trivial
  | .reprocess _ => isTrue trivial
  | .cancel _ => isTrue trivial

namespace ExtentRes

variable {others : Nat} {s : ExtentRes}

theorem enqueue_stays (ns : Namespace) (now : Nat) (h : Stays others s) (queued : Queued s none)
    {r : Request} (scope : r.InScope) (flags : EnqFlags) :
    Outcome (Stays others) Stops (s.enqueue ns now r flags) := by
  rw [enqueue]
  split
  · exact .inr rfl
  · have lock : (s.lockCreate r flags).locks s.nextLock = _ := Function.update_self _ _ _
    have unknown : ∀ {a}, s.linked a = true → a ≠ s.nextLock := by
      rintro a isLinked rfl
      exact lt_irrefl _ (queued.known _ isLinked)
    refine processFirst_stays ns now (h.1.lockCreate flags scope.1 scope.2.1 scope.2.2) h.2.cons_nil
      (lockCreate_queued queued r flags) (Nat.lt_succ_self _) ?_ ?_ ?_ flags
    · exact fun mem => unknown (linked_iff.mpr (.inl mem)) rfl
    · rw [lock]
    · exact fun isLinked => absurd rfl (unknown isLinked)

theorem resume_stays (ns : Namespace) (now : Nat) (h : Sound others s) (queued : Queued s none)
    {x : Suspended} (sent : Sent s.astSent (x.rpcList :: s.suspended.map (·.rpcList)))
    (known : x.lock < s.nextLock) (outcome : AstOutcome) :
    Outcome (Stays others) Stops (s.resume ns now x outcome) := by
  have sent' : Sent s.astSent ((if outcome = .noSet then x.rpcList else []) ::
      s.suspended.map (·.rpcList)) := by
    split
    · exact sent
    · exact sent.tail.cons_nil
  simp only [resume]
  split
  · exact ⟨h, sent.tail⟩
  split
  · exact processOut_stays h sent'
  next alive =>
  split
  · exact processOut_stays h sent'
  next waits =>
  have alive : (s.locks x.lock).destroyed = false := by simpa using alive
  have notGranted : x.lock ∉ s.granted := fun mem => waits (h.mode _ mem)
  exact processFirst_stays ns now h sent' (queued.open x.lock) known notGranted alive
    (fun _ => queued.waiting_mem known alive notGranted) x.flags

/-- Every step with a request in scope keeps the invariant. -/
theorem step_stays (ns : Namespace) (h : Stays others s) (queued : Queued s none) {label : Label}
    (scope : label.InScope) : Outcome (Stays others) Stops (s.step ns label) := by
  cases label with
  | enqueue r flags now => exact enqueue_stays ns now h queued scope flags
  | resume lock outcome now =>
    rw [step]
    split
    · exact h
    · next x found =>
      have known : x.lock < s.nextLock := queued.suspended x (mem_of_find?_eq_some found)
      let calls := s.suspended.filter (·.lock ≠ lock)
      have queued' : Queued { s with suspended := calls } none :=
        { queued with suspended := fun x mem => queued.suspended x (mem_of_mem_filter mem) }
      exact resume_stays ns now (h.1.rewrite s.astSent s.contentionTime s.waiting calls) queued'
        (h.2.resume found) known outcome
  | reprocess now =>
    refine (reprocessFrom_keeps (I := fun s => Stays others s ∧ Queued s none) ns now
      (fun both first => ?_) _ ⟨h, queued⟩).mono fun _ p => p.1
    refine ((processAgain_stays ns now both.1 both.2 first).and
      (processAgain_queued ns now both.2 first)).mono (fun x p => ?_) fun _ p => p.1
    exact ⟨⟨p.1, p.2.1⟩, p.2.2⟩
  | cancel lock =>
    rw [step]
    split
    · next known =>
      obtain ⟨s', run, sound, sameSent, sameCalls⟩ := h.1.lockCancel known queued.grantedNodup
      rw [run]
      refine ⟨sound, ?_⟩
      rw [sameSent, sameCalls]
      exact h.2
    · exact h

theorem empty_tied (others : Nat) : Tied (empty others) fun _ => none where
  forest :=
    { trees := fun m => by
        refine ⟨.nil, ⟨⟨rfl, trivial, nodup_nil⟩, .nil, ⟨0, .nil⟩, trivial, ?_, ?_⟩, ?_⟩
          <;> simp
      clear := fun _ _ => rfl
      known := by simp }
  group := by simp [empty]
  known := by simp [empty]
  members := by simp
  inTree := by simp [empty]
  own := by simp [empty]
  attached := by simp [empty]
  unborn := by simp [empty]

theorem empty_stays (others : Nat) : Stays others (empty others) := by
  refine ⟨⟨⟨_, empty_tied others⟩, ?_, ?_, ?_, ?_, ?_, ?_, ?_, rfl⟩, .nil, ?_⟩ <;> simp [empty]

/-- A run with requests in scope keeps the invariant. -/
theorem run_stays (ns : Namespace) (others : Nat) (labels : List Label)
    (scope : ∀ label ∈ labels, label.InScope) :
    Outcome (Stays others) Stops (run (step ns) (empty others) labels) := by
  have keep : ∀ s (label : Label), Stays others s ∧ Queued s none → label.InScope →
      Outcome (fun s => Stays others s ∧ Queued s none) Stops (step ns s label) := by
    intro s label both scope
    exact ((step_stays ns both.1 both.2 scope).and (step_queued ns both.2 label)).mono (fun _ p => p)
      fun _ p => p.1
  exact (outcome_run keep ⟨empty_stays others, empty_queued others⟩
    (meets_of_forall _ scope)).mono fun _ both => both.1

end ExtentRes

open ExtentRes in
/-- In every run with requests in scope granted locks that conflict have disjoint extents, and each
contains the requested one.  A run fails only by linking a lock twice or a forbidden combination of
flags. -/
theorem extent_exclusion (ns : Namespace) (others : Nat) (labels : List Label)
    (scope : ∀ label ∈ labels, label.InScope) :
    Outcome (fun s =>
        (∀ a ∈ s.granted, ∀ b ∈ s.granted, a ≠ b → Conflicting (s.locks a) (s.locks b) →
          extentOverlapped (s.locks a).extent (s.locks b).extent = false) ∧
        ∀ id ∈ s.granted, (s.locks id).grantedMode = some (s.locks id).reqMode ∧
          (s.locks id).reqExtent.Within (s.locks id).extent)
      (fun e => e = .resLinkBusy ∨ e = .discardData)
      (run (ExtentRes.step ns) (empty others) labels) := by
  refine (run_stays ns others labels scope).mono fun s stays => ?_
  obtain ⟨sound, _⟩ := stays
  exact ⟨sound.exclusive, fun id mem => ⟨sound.mode id mem, (sound.covers id mem).1⟩⟩

/-- A writer gets the whole file; when it is cancelled, the first of two waiting locks grows up to the
other. -/
theorem extent_exclusion_run :
    Outcome (fun s =>
        (∀ a ∈ s.granted, ∀ b ∈ s.granted, a ≠ b → Conflicting (s.locks a) (s.locks b) →
          extentOverlapped (s.locks a).extent (s.locks b).extent = false) ∧
        ∀ id ∈ s.granted, (s.locks id).grantedMode = some (s.locks id).reqMode ∧
          (s.locks id).reqExtent.Within (s.locks id).extent)
      (fun e => e = .resLinkBusy ∨ e = .discardData)
      (run (ExtentRes.step ⟨32, 2, 0⟩) (ExtentRes.empty 0)
        [.enqueue ⟨.pw, ⟨0, 4095⟩, 0, some 1, true⟩ {} 0,
          .enqueue ⟨.pw, ⟨8192, 12287⟩, 0, some 2, true⟩ {} 0,
          .enqueue ⟨.pw, ⟨0, 4095⟩, 0, some 3, true⟩ {} 1, .resume 1 .restart 2, .cancel 0,
          .reprocess 3]) :=
  extent_exclusion _ _ _ (by decide)

open ExtentRes in
/-- In every run with requests in scope the trees hold exactly the granted locks with modes and extents,
and the pool counts them. -/
theorem extent_trees_hold_granted (ns : Namespace) (others : Nat)
    (labels : List {label : Label // label.InScope}) :
    Outcome (fun s => (∃ held, Tied s held) ∧ s.plGranted = others + s.granted.length) Stops
      (run (ExtentRes.step ns) (empty others) (labels.map (·.1))) :=
  (run_stays ns others _ (forall_mem_map.mpr fun label _ => label.2)).mono fun _ stays =>
    ⟨stays.1.tied, stays.1.pool⟩

open ExtentRes in
/-- In every run with requests in scope no lock is twice on the lists of blocking callbacks, and all
there are marked as sent. -/
theorem blocking_callbacks_apart (ns : Namespace) (others : Nat)
    (labels : List {label : Label // label.InScope}) :
    Outcome (fun s => Sent s.astSent (s.suspended.map (·.rpcList))) Stops
      (run (ExtentRes.step ns) (empty others) (labels.map (·.1))) :=
  (run_stays ns others _ (forall_mem_map.mpr fun label _ => label.2)).mono fun _ stays => stays.2

/-- A granted lock that a request has to wait for. -/
def Blocks (lock req : ExtentLock) : Prop :=
  lockmodeCompat req.reqMode lock.reqMode = false ∧
      extentOverlapped req.reqExtent lock.extent = true ∨
    req.reqMode = .group ∧ lock.reqMode = .group ∧ lock.gid ≠ req.gid

instance (lock req : ExtentLock) : Decidable (Blocks lock req) := inferInstanceAs (Decidable (_ ∨ _))

namespace ExtentRes

/-- The gid of the first lock at the root of a tree. -/
def rootGid (s : ExtentRes) (m : Mode) : Option Nat :=
  (s.litRoot m).bind fun root => (s.liGroup root).head?.map fun id => (s.locks id).gid

/-- The root of a tree of a compatible mode has the gid of a group request. -/
def Answers (s : ExtentRes) (req : ExtentLock) (m : Mode) : Prop :=
  req.reqMode = .group ∧ lockmodeCompat req.reqMode m = true ∧ s.rootGid m = some req.gid

/-- A granted lock of the mode overlaps the request. -/
def Touched (s : ExtentRes) (req : ExtentLock) (m : Mode) : Prop :=
  ∃ id ∈ s.granted, (s.locks id).reqMode = m ∧
    extentOverlapped req.reqExtent (s.locks id).extent = true

/-- A tree answers for a group request before the scan ends: without a work list an overlapping lock ends
it. -/
def Answered (s : ExtentRes) (req : ExtentLock) (listed : Bool) (ms : List Mode) : Prop :=
  ∃ m ∈ ms, s.Answers req m ∧ (listed = true ∨ ∀ m' ∈ ms.takeWhile (· ≠ m), ¬ s.Touched req m')

theorem answered_cons {s : ExtentRes} {req : ExtentLock} {listed : Bool} {m : Mode} {ms : List Mode}
    (other : ¬ s.Answers req m) : s.Answered req listed (m :: ms) ↔
      (listed = true ∨ ¬ s.Touched req m) ∧ s.Answered req listed ms := by
  have different : ∀ m', s.Answers req m' → m ≠ m' := by
    rintro m' answers rfl
    exact other answers
  constructor
  · rintro ⟨m', mem, answers, before⟩
    rcases mem_cons.mp mem with rfl | mem
    · exact absurd answers other
    rw [takeWhile_cons_of_pos (by simpa using different m' answers)] at before
    rcases before with listed | before
    · exact ⟨.inl listed, m', mem, answers, .inl listed⟩
    · exact ⟨.inr (before m mem_cons_self), m', mem, answers,
        .inr fun m'' inTail => before m'' (mem_cons_of_mem _ inTail)⟩
  · rintro ⟨here, m', mem, answers, before⟩
    refine ⟨m', mem_cons_of_mem _ mem, answers, ?_⟩
    rw [takeWhile_cons_of_pos (by simpa using different m' answers)]
    rcases here with listed | clear
    · exact .inl listed
    · exact before.imp_right fun before => forall_mem_cons.mpr ⟨clear, before⟩

/-- What the scan of a tree shows of the answer for a group and the locks in the way. -/
structure TreeAnswer (s : ExtentRes) (req : ExtentLock) (m : Mode) (c : Compat) (x : Compat × Scan) :
    Prop where
  two : x.2 = .ret 2 ↔ s.Answers req m
  passed : req.reqMode = .group → x.2 = .next → c.workList ≠ none ∨ ¬ s.Touched req m
  ended : m ≠ .group → ¬ s.Answers req m → x.2 ≠ .next → c.workList = none ∧ s.Touched req m
  free : x.2 = .next → x.1.compat = 1 → ∀ id ∈ s.granted, (s.locks id).reqMode = m →
    ¬ Blocks (s.locks id) req

section Scan

variable {s : ExtentRes} {held : Nat → Option (Mode × Extent)} {m : Mode} {req : ExtentLock}
  (tied : Tied s held)
  (modes : ∀ id ∈ s.granted, (s.locks id).grantedMode = some (s.locks id).reqMode)

include tied

/-- The nodes of a tree overlap the request where its locks do. -/
theorem touched_iff : s.Touched req m ↔
    ∃ n e, held n = some (m, e) ∧ extentOverlapped req.reqExtent e = true := by
  constructor
  · rintro ⟨id, mem, rfl, overlaps⟩
    obtain ⟨n, _, isHeld⟩ := tied.inTree id mem
    exact ⟨n, _, isHeld, overlaps⟩
  · rintro ⟨n, e, isHeld, overlaps⟩
    obtain ⟨nonempty, all⟩ := tied.members n m e isHeld
    obtain ⟨id, inGroup⟩ := exists_mem_of_ne_nil _ nonempty
    obtain ⟨mem, mode, extent⟩ := all id inGroup
    exact ⟨id, mem, mode, by rw [extent, overlaps]⟩

include modes

/-- A tree that is searched and does not answer. -/
theorem searched_answer {c : Compat} (silent : ¬ s.Answers req m) :
    ∃ x, (if m = .group then s.compatGroupTree m c else s.compatOtherTree req m c) = .ok x ∧
      s.TreeAnswer req m c x := by
  by_cases isGroup : m = .group
  · obtain ⟨x, run, _, notTwo, passed⟩ := compatGroupTree_ok (m := m) tied modes c
    refine ⟨x, by rw [if_pos isGroup, run], ⟨fun two => absurd two notTwo, fun h => absurd h silent⟩,
      fun _ isNext => .inl (passed isNext).2, fun other => absurd isGroup other, fun isNext one => ?_⟩
    rw [(passed isNext).1] at one
    cases one
  · obtain ⟨x, run, _, notTwo, clear, goesOn⟩ := compatOtherTree_ok (m := m) tied modes req c
    have touched : s.Touched req m ↔
        ¬ ∀ n e, held n = some (m, e) → extentOverlapped req.reqExtent e = false := by
      rw [touched_iff tied]
      simp
    refine ⟨x, by rw [if_neg isGroup, run], ⟨fun two => absurd two notTwo, fun h => absurd h silent⟩,
      fun _ isNext => ?_, fun _ _ ends => ?_, fun isNext one id mem mode blocks => ?_⟩
    · rw [touched, not_not]
      exact goesOn.mp isNext
    · rw [Ne, goesOn, not_or, not_not] at ends
      exact ⟨ends.1, touched.mpr ends.2⟩
    · rcases blocks with ⟨_, overlaps⟩ | ⟨_, lockGroup, _⟩
      · exact (touched.mp ⟨id, mem, mode, overlaps⟩) (clear isNext one)
      · exact isGroup (mode.symm.trans lockGroup)

/-- A tree ends the scan with the answer for a group exactly if its root has the gid. -/
theorem compatTree_answer (req : ExtentLock) (c : Compat) :
    ∃ x, s.compatTree req m c = .ok x ∧ s.TreeAnswer req m c x := by
  rw [compatTree]
  cases root : s.litRoot m with
  | none =>
    have empty : ∀ id ∈ s.granted, (s.locks id).reqMode ≠ m := by
      rintro id mem rfl
      obtain ⟨n, _, isHeld⟩ := tied.inTree id mem
      exact tied.forest.root_of_held isHeld root
    refine ⟨_, rfl, ⟨Scan.noConfusion, fun answers => ?_⟩, fun _ _ => .inr ?_,
      fun _ _ ends => absurd rfl ends, fun _ _ id mem mode => absurd mode (empty id mem)⟩
    · simp [Answers, rootGid, root] at answers
    · rintro ⟨id, mem, mode, _⟩
      exact empty id mem mode
  | some n =>
    obtain ⟨lock, first, gid⟩ : ∃ lock, s.intervalExtent n = .ok lock ∧ s.rootGid m = some lock.gid := by
      obtain ⟨e, isHeld⟩ := tied.forest.root_held root
      cases group : s.liGroup n with
      | nil => exact absurd group (tied.members n m e isHeld).1
      | cons id rest => exact ⟨s.locks id, by rw [intervalExtent, group], by simp [rootGid, root, group]⟩
    simp only [first, bind_ok]
    split
    · next compat =>
      split
      · next notGroup =>
        refine ⟨_, rfl, ⟨Scan.noConfusion, fun answers => absurd answers.1 notGroup⟩,
          fun isGroup => absurd isGroup notGroup, fun _ _ ends => absurd rfl ends, ?_⟩
        rintro _ _ id mem rfl (⟨incompat, _⟩ | ⟨isGroup, _⟩)
        · rw [compat] at incompat
          cases incompat
        · exact notGroup isGroup
      · next isGroup =>
        split
        · next same =>
          have answers : s.Answers req m := ⟨not_not.mp isGroup, compat, by rw [gid, same]⟩
          exact ⟨_, rfl, ⟨fun _ => answers, fun _ => rfl⟩, fun _ => Scan.noConfusion,
            fun _ silent => absurd answers silent, Scan.noConfusion⟩
        · next differ =>
          refine searched_answer tied modes ?_
          rintro ⟨_, _, same⟩
          rw [gid] at same
          exact differ (Option.some.inj same).symm
    · next incompat => exact searched_answer tied modes fun answers => incompat answers.2.1

/-- The scan ends with the answer for a group exactly if one of its trees gives it. -/
theorem compatGranted_answer (req : ExtentLock) {ms : List Mode}
    (ordered : ms.Pairwise fun m m' => m = .group → lockmodeCompat .group m' = false) (c : Compat) :
    ∃ x, s.compatGranted req ms c = .ok x ∧
      (x.2 = .ret 2 ↔ s.Answered req c.workList.isSome ms) := by
  induction ms generalizing c with
  | nil => exact ⟨_, rfl, by simp [Answered]⟩
  | cons m ms ih =>
    obtain ⟨behind, ordered⟩ := pairwise_cons.mp ordered
    obtain ⟨⟨c₁, scan⟩, run, tree⟩ := compatTree_answer (m := m) tied modes req c
    rw [compatGranted, run]
    by_cases answers : s.Answers req m
    · obtain rfl : scan = .ret 2 := tree.two.mpr answers
      exact ⟨_, rfl, fun _ => ⟨m, mem_cons_self, answers, .inr (by simp)⟩, fun _ => rfl⟩
    rw [answered_cons answers]
    by_cases isNext : scan = .next
    · subst isNext
      obtain ⟨x, run₂, answered⟩ := ih ordered c₁
      have step := compatTree_effect s m c req
      rw [run] at step
      obtain ⟨new, list, _⟩ := step.1.marks
      have listed : c₁.workList.isSome = c.workList.isSome := by
        rw [show c₁.workList = c.workList.map (new ++ ·) from list, Option.isSome_map]
      refine ⟨x, run₂, answered.trans ?_⟩
      rw [listed, iff_and_self]
      rintro ⟨m', _, ⟨isGroup, _⟩, _⟩
      simpa [Option.isSome_iff_ne_none] using tree.passed isGroup rfl
    · have notTwo : scan ≠ .ret 2 := fun two => answers (tree.two.mp two)
      refine ⟨(c₁, scan), by cases scan <;> first | rfl | exact absurd rfl isNext,
        fun two => absurd two notTwo, ?_⟩
      rintro ⟨goesOn, m', mem, ⟨isGroup, compat, _⟩, _⟩
      have notGroup : m ≠ .group := by
        intro group
        rw [isGroup, behind m' mem group] at compat
        cases compat
      obtain ⟨noList, touched⟩ := tree.ended notGroup answers isNext
      simp [noList, touched] at goesOn

/-- `ldlm_extent_compat_queue` on the granted locks: one if it found nothing, two if a tree answered for
the group. -/
theorem compatQueueGranted_answer (ns : Namespace) (now id : Nat) (flags : EnqFlags)
    (workList : Option (List Nat)) (contended : Nat) :
    ∃ s' c rc, s.compatQueueGranted ns now id flags workList contended = .ok (s', c, rc) ∧
      (rc = 1 → ∀ other ∈ s.granted, ¬ Blocks (s.locks other) (s.locks id)) ∧
      (rc = 2 ↔ s.Answered (s.locks id) workList.isSome Mode.all) := by
  let c : Compat := ⟨flags, workList, contended, s.astSent, 1⟩
  have ordered : Mode.all.Pairwise fun m m' => m = .group → lockmodeCompat .group m' = false := by
    decide
  obtain ⟨⟨c₁, scan⟩, run, two⟩ := compatGranted_answer tied modes (s.locks id) ordered c
  have trees : ∀ m c, ∃ x, s.compatTree (s.locks id) m c = .ok x ∧ x.2 ≠ .brk ∧
      (x.2 = .next → x.1.compat = 1 → ∀ other ∈ s.granted, (s.locks other).reqMode = m →
        ¬ Blocks (s.locks other) (s.locks id)) ∧ (x.2 = .ret 2 → True) := by
    intro m c
    obtain ⟨y, ran, answer⟩ := compatTree_answer (m := m) tied modes (s.locks id) c
    obtain ⟨z, ran', notBrk, _⟩ := compatTree_ok (m := m) tied modes (s.locks id) c
    obtain rfl := Except.ok.inj (ran'.symm.trans ran)
    exact ⟨_, ran, notBrk, answer.free, fun _ => trivial⟩
  obtain ⟨x, run', free, _⟩ := compatGranted_trees trees Mode.all c
  obtain rfl := Except.ok.inj (run'.symm.trans run)
  have effect := compatGranted_effect s (s.locks id) Mode.all c
  rw [run] at effect
  obtain ⟨step, ends, notNext⟩ := effect
  have queue : s.compatQueueGranted ns now id flags workList contended =
      s.compatFinish ns now id c₁ scan := by
    rw [compatQueueGranted, run, bind_ok]
  obtain ⟨s', c', rc, done, isOne, isTwo⟩ : ∃ s' c' rc, s.compatFinish ns now id c₁ scan =
      .ok (s', c', rc) ∧ (rc = 1 → scan = .brk ∧ c₁.compat = 1) ∧ (rc = 2 ↔ scan = .ret 2) := by
    rcases ends with next | brk | zero | two | ⟨destroy, _⟩
    · exact absurd next notNext
    · obtain rfl : scan = .brk := brk
      obtain ⟨t, done | ⟨_, _, denied⟩⟩ := compatFinish_done ns now s id c₁ (.inr rfl)
      · have binary : c₁.compat = 1 ∨ c₁.compat = 0 := step.compat
        exact ⟨_, _, _, done, fun one => ⟨rfl, one⟩, by omega, Scan.noConfusion⟩
      · exact ⟨_, _, _, denied, fun one => absurd one (by decide), by decide⟩
    · obtain rfl : scan = .ret 0 := zero
      exact ⟨_, _, _, rfl, fun one => absurd one (by decide), by decide⟩
    · obtain rfl : scan = .ret 2 := two
      exact ⟨_, _, _, rfl, fun one => absurd one (by decide), by decide⟩
    · obtain rfl : scan = .destroy (-eWouldBlock) := destroy
      exact ⟨_, _, _, compatFinish_destroy ns now s id c₁ _, fun one => absurd one (by decide),
        by decide⟩
  refine ⟨s', c', rc, queue.trans done, fun one other mem => ?_, isTwo.trans two⟩
  obtain ⟨rfl, one⟩ := isOne one
  exact free rfl one (s.locks other).reqMode (Mode.mem_all _) other mem rfl

end Scan

end ExtentRes

open ExtentRes in
/-- For every state of the trees and every request, the scan of the granted locks returns one or two only
if none stands in the way, exactly if so whenever a tree answers for the group. -/
theorem granted_scan_sound_iff {s : ExtentRes} {held : Nat → Option (Mode × Extent)}
    (tied : Tied s held)
    (modes : ∀ id ∈ s.granted, (s.locks id).grantedMode = some (s.locks id).reqMode)
    (ns : Namespace) (now id : Nat) (flags : EnqFlags) (workList : Option (List Nat))
    (contended : Nat) :
    ∃ s' c rc, s.compatQueueGranted ns now id flags workList contended = .ok (s', c, rc) ∧
      ((rc = 1 ∨ rc = 2 → ∀ other ∈ s.granted, ¬ Blocks (s.locks other) (s.locks id)) ↔
        (s.Answered (s.locks id) workList.isSome Mode.all →
          ∀ other ∈ s.granted, ¬ Blocks (s.locks other) (s.locks id))) := by
  obtain ⟨s', c, rc, run, one, two⟩ :=
    compatQueueGranted_answer tied modes ns now id flags workList contended
  refine ⟨s', c, rc, run, fun sound answered => sound (.inr (two.mpr answered)), ?_⟩
  rintro sound (isOne | isTwo)
  · exact one isOne
  · exact sound (two.mp isTwo)

/-- A request of group 7 waits for an exclusive lock. -/
theorem granted_scan_sound_exclusive : ∃ s, run (ExtentRes.step ⟨32, 2, 0⟩) (ExtentRes.empty 0)
        [.enqueue ⟨.ex, ⟨0, 4095⟩, 0, some 1, true⟩ {} 0, .enqueue (groupRequest 7) {} 0] = .ok s ∧
      ∃ s' c rc, s.compatQueueGranted ⟨32, 2, 0⟩ 0 1 {} (some []) 0 = .ok (s', c, rc) ∧
        ((rc = 1 ∨ rc = 2 → ∀ other ∈ s.granted, ¬ Blocks (s.locks other) (s.locks 1)) ↔
          (s.Answered (s.locks 1) true Mode.all →
            ∀ other ∈ s.granted, ¬ Blocks (s.locks other) (s.locks 1))) := by
  have stays := ExtentRes.run_stays ⟨32, 2, 0⟩ 0
    [.enqueue ⟨.ex, ⟨0, 4095⟩, 0, some 1, true⟩ {} 0, .enqueue (groupRequest 7) {} 0] (by decide)
  obtain ⟨s, ran⟩ : ∃ s, run (ExtentRes.step ⟨32, 2, 0⟩) (ExtentRes.empty 0)
      [.enqueue ⟨.ex, ⟨0, 4095⟩, 0, some 1, true⟩ {} 0, .enqueue (groupRequest 7) {} 0] = .ok s :=
    ⟨_, rfl⟩
  rw [ran] at stays
  obtain ⟨held, tied⟩ := stays.1.tied
  exact ⟨s, ran, granted_scan_sound_iff tied stays.1.mode _ 0 1 {} (some []) 0⟩

/-- An exclusive lock and a null lock with gid 7 are granted: the scan for group 7 lists the first, and
then the second answers. -/
theorem null_lock_answers_for_group : ∃ s, run (ExtentRes.step ⟨32, 2, 0⟩) (ExtentRes.empty 0)
        [.enqueue ⟨.ex, ⟨0, 4095⟩, 0, some 1, true⟩ {} 0,
          .enqueue ⟨.nl, ⟨0, 4095⟩, 7, some 2, true⟩ {} 0] = .ok s ∧
      ∃ s' c, (s.lockCreate (groupRequest 7) {}).compatQueueGranted ⟨32, 2, 0⟩ 0 2 {} (some []) 0 =
          .ok (s', c, 2) ∧ c.workList = some [0] ∧ 0 ∈ s'.granted ∧
        Blocks (s'.locks 0) (s'.locks 2) :=
  ⟨_, rfl, _, _, rfl, rfl, by decide, by decide⟩

end Ldlm
