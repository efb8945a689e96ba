/-
Module: Lustre.Ldlm.Extent.Sound
Purpose: The invariant behind the mutual exclusion of extent locks; the parts of a pass and of a
  cancel keep it.
Trusted boundary: none
-/
import Lustre.Ldlm.Extent.Policy

namespace Ldlm

open Function Run List

/-- The lock asks for whole pages in one of the modes of extent locks, and a group lock for
the whole file. -/
def ExtentLock.InScope (l : ExtentLock) : Prop :=
  l.reqExtent.PageAligned ∧ l.reqMode ∈ [.ex, .pw, .pr, .cw, .cr, .group] ∧
    (l.reqMode = .group → l.reqExtent = ⟨0, maxU64⟩)

/-- Of the modes in scope only that of group locks is compatible with it. -/
theorem ExtentLock.InScope.eq_group {l : ExtentLock} (h : l.InScope)
    (compat : lockmodeCompat .group l.reqMode = true) : l.reqMode = .group := by
  have mode := h.2.1
  cases same : l.reqMode <;> rw [same] at mode compat
  case nl => simp at mode
  all_goals cases compat

namespace ExtentRes

/-- The invariant of an extent resource in a namespace with `others` other granted locks. -/
structure Sound (others : Nat) (s : ExtentRes) : Prop where
  tied : ∃ held, Tied s held
  scope : ∀ id < s.nextLock, (s.locks id).InScope
  known : ∀ id ∈ s.granted, id < s.nextLock
  mode : ∀ id ∈ s.granted, (s.locks id).grantedMode = some (s.locks id).reqMode
  idle : ∀ id < s.nextLock, id ∉ s.granted → (s.locks id).grantedMode = none
  fresh : ∀ id < s.nextLock, id ∉ s.granted → (s.locks id).destroyed = false →
    (s.locks id).extent = (s.locks id).reqExtent
  covers : ∀ id ∈ s.granted, (s.locks id).reqExtent.Within (s.locks id).extent ∧
    (s.locks id).extent.stop ≤ maxU64
  exclusive : ∀ a ∈ s.granted, ∀ b ∈ s.granted, a ≠ b → Conflicting (s.locks a) (s.locks b) →
    extentOverlapped (s.locks a).extent (s.locks b).extent = false
  pool : s.plGranted = others + s.granted.length

/-- The extent may be granted to the lock. -/
structure Allowed (s : ExtentRes) (id : Nat) (e : Extent) : Prop where
  covers : (s.locks id).reqExtent.Within e
  bounded : e.stop ≤ maxU64
  clear : ∀ a ∈ s.granted, Conflicting (s.locks a) (s.locks id) →
    extentOverlapped e (s.locks a).extent = false

namespace Sound

variable {others : Nat} {s : ExtentRes} {id : Nat}

/-- The invariant does not depend on the waiting queue and on what scans write. -/
theorem rewrite (h : Sound others s) (a : Nat → Bool) (t : Nat) (queue : List Nat)
    (suspended : List Suspended) : Sound others
      { s with astSent := a, contentionTime := t, waiting := queue, suspended := suspended } := by
  obtain ⟨held, tied⟩ := h.tied
  exact { h with tied := ⟨held, { tied with }⟩ }

theorem marked (h : Sound others s) (a : Nat → Bool) (t : Nat) : Sound others (s.marked a t) :=
  h.rewrite a t s.waiting s.suspended

theorem filter_granted (notGranted : id ∉ s.granted) : s.granted.filter (· ≠ id) = s.granted := by
  rw [filter_eq_self]
  intro a mem
  simpa using fun same : a = id => notGranted (same ▸ mem)

section

variable (h : Sound others s)

include h

theorem delInit (notGranted : id ∉ s.granted) : Sound others (s.delInit id) := by
  have h' := h.rewrite s.astSent s.contentionTime (s.waiting.filter (· ≠ id)) s.suspended
  rw [ExtentRes.delInit, filter_granted notGranted]
  exact h'

/-- Granted extents are not empty. -/
theorem proper (mem : id ∈ s.granted) : (s.locks id).extent.start ≤ (s.locks id).extent.stop := by
  have page := (h.scope id (h.known id mem)).1
  have covers := (h.covers id mem).1
  exact covers.1.trans (page.1.trans covers.2)

/-- If the scan of the granted locks finds nothing, no conflicting one overlaps the request. -/
theorem compatible {flags : EnqFlags} {workList : Option (List Nat)}
    (compatible : s.Compatible id flags workList) :
    ∀ a ∈ s.granted, Conflicting (s.locks a) (s.locks id) →
      extentOverlapped (s.locks id).reqExtent (s.locks a).extent = false := by
  obtain ⟨held, tied⟩ := h.tied
  obtain ⟨c, scan, run, ends⟩ := compatible
  obtain ⟨x, run', clear, group⟩ := compatGranted_ok tied h.mode (s.locks id) Mode.all
    (s.scanStart flags workList)
  rw [run] at run'
  cases run'
  intro a mem conflict
  rcases ends with isTwo | ⟨isBrk, one⟩
  · -- the answer for a group: every granted lock belongs to it
    obtain ⟨isGroup, b, memB, compat, gid⟩ := group isTwo
    have groupB := (h.scope b (h.known b memB)).eq_group compat
    have conflictB : Conflicting (s.locks a) (s.locks b) := by
      rcases conflict with modes | ⟨groupA, _, different⟩
      · left
        rw [groupB, ← isGroup]
        exact modes
      · exact .inr ⟨groupA, groupB, by rwa [gid]⟩
    have different : a ≠ b := by
      rintro rfl
      rcases conflict with modes | ⟨_, _, different⟩
      · rw [groupB, isGroup] at modes
        cases modes
      · exact different gid
    have apart := h.exclusive a mem b memB different conflictB
    have whole := (h.scope b (h.known b memB)).2.2 groupB
    have covers := (h.covers b memB).1
    rw [whole] at covers
    have low : (s.locks b).extent.start = 0 := Nat.le_zero.mp covers.1
    have high : maxU64 ≤ (s.locks b).extent.stop := covers.2
    have proper := h.proper mem
    have top := (h.covers a mem).2
    simp only [extentOverlapped, Bool.and_eq_false_iff, decide_eq_false_iff_not] at apart
    omega
  · exact clear isBrk one _ (Mode.mem_all _) a mem rfl conflict

/-- The policy chooses an extent that may be granted. -/
theorem extentPolicy (known : id < s.nextLock) (notGranted : id ∉ s.granted)
    (alive : (s.locks id).destroyed = false)
    (waits : ∀ a ∈ s.waiting, a < s.nextLock ∧ a ∉ s.granted ∧ (s.locks a).destroyed = false)
    (clear : ∀ a ∈ s.granted, Conflicting (s.locks a) (s.locks id) → extentOverlapped (s.locks id).reqExtent (s.locks a).extent = false)
    (flags : EnqFlags) :
    Outcome (fun x => ∃ e, x.1 = s.modifyLock id (fun l => { l with extent := e }) ∧ s.Allowed id e)
      (fun _ => False) (s.extentPolicy id flags) := by
  obtain ⟨held, tied⟩ := h.tied
  obtain ⟨page, _, whole⟩ := h.scope id known
  have starts : ∀ n m e, held n = some (m, e) → e.start ≤ maxU64 := by
    intro n m e isHeld
    obtain ⟨nonempty, all⟩ := tied.members n m e isHeld
    obtain ⟨a, mem⟩ := exists_mem_of_ne_nil _ nonempty
    obtain ⟨isGranted, _, rfl⟩ := all a mem
    exact le_trans (h.proper isGranted) (h.covers a isGranted).2
  have clearOf : ClearOf held (s.locks id).reqMode (s.locks id).reqExtent := by
    intro m conflict n e isHeld
    obtain ⟨nonempty, all⟩ := tied.members n m e isHeld
    obtain ⟨a, mem⟩ := exists_mem_of_ne_nil _ nonempty
    obtain ⟨isGranted, rfl, rfl⟩ := all a mem
    exact clear a isGranted (.inl conflict)
  have queue : ∀ a ∈ s.waiting, a ≠ id → (s.locks a).extent = (s.locks a).reqExtent ∧
      (s.locks a).reqExtent.PageAligned := by
    intro a mem _
    obtain ⟨known, notGranted, alive⟩ := waits a mem
    exact ⟨h.fresh a known notGranted alive, (h.scope a known).1⟩
  refine (extentPolicy_ok tied.forest starts page (h.fresh id known notGranted alive) queue clearOf
    flags).mono ?_
  rintro x ⟨e, result, covers, bounded, free⟩
  refine ⟨e, result, covers, bounded, fun a mem conflict => ?_⟩
  rcases conflict with modes | ⟨groupA, isGroup, different⟩
  · obtain ⟨n, _, isHeld⟩ := tied.inTree a mem
    exact free _ modes n _ isHeld
  · -- a group lock has the whole file
    have same : e = (s.locks id).reqExtent := by
      rw [whole isGroup] at covers ⊢
      obtain ⟨start, stop⟩ := e
      have low : start = 0 := Nat.le_zero.mp covers.1
      have high : stop = maxU64 := le_antisymm bounded covers.2
      rw [low, high]
    rw [same]
    exact clear a mem (.inr ⟨groupA, isGroup, different⟩)

/-- `ldlm_grant_lock` of a lock on no queue with an extent that may be granted. -/
theorem grantLock (known : id < s.nextLock) (free : s.linked id = false)
    (alive : (s.locks id).destroyed = false) {e : Extent} (allowed : s.Allowed id e) :
    Outcome (Sound others) (fun _ => False)
      ((s.modifyLock id fun l => { l with extent := e }).grantLock id) := by
  obtain ⟨held, tied⟩ := h.tied
  have notGranted : id ∉ s.granted := (not_linked_iff.mp free).1
  let s₁ := s.modifyLock id fun l => { l with extent := e }
  let s₂ := s₁.modifyLock id fun l => { l with grantedMode := some l.reqMode }
  let lock : ExtentLock :=
    { s.locks id with extent := e, grantedMode := some (s.locks id).reqMode }
  have here : s₂.locks id = lock := by simp [s₂, s₁, lock, modifyLock]
  have there : ∀ {a}, a ≠ id → s₂.locks a = s.locks a := by
    intro a different
    simp [s₂, s₁, modifyLock, different]
  have ofGranted : ∀ {a}, a ∈ s.granted → s₂.locks a = s.locks a := by
    intro a mem
    exact there fun same => notGranted (same ▸ mem)
  have alive₁ : (s₁.locks id).destroyed = false := by
    rw [modifyLock_locks, if_pos rfl]
    exact alive
  have tied₂ : Tied s₂ held := by
    refine tied.relock (f := s₂.locks) (fun a => ?_) (fun a mem => ?_) fun a => ?_
    · by_cases same : a = id
      · rw [same, here]
      · rw [there same]
    · rw [ofGranted mem]
      exact ⟨rfl, rfl⟩
    · grind
  have tie : Outcome (fun s' => ∃ held', Tied s' held') (fun _ => False) (s₁.grantLock id) := by
    refine (tied₂.extentAddLock known ?_ free ?_ ?_).bind fun s' tied' => ?_
    · rw [here]
      exact alive
    · rw [here]
    · rw [here]
      have page := (h.scope id known).1
      exact allowed.covers.1.trans (page.1.trans allowed.covers.2)
    · obtain ⟨held', tied'⟩ := tied'
      exact ⟨held', { tied' with }⟩
  refine ((grantLock_effect alive₁ free).and tie).mono (fun s' both => ?_) fun _ never => never.2
  obtain ⟨same, tied'⟩ := both
  have locks : ∀ a, s'.locks a = { s₂.locks a with treeNode := (s'.locks a).treeNode } := same.locks
  have granted : s'.granted = s.granted ++ [id] := same.granted
  have nextLock : s'.nextLock = s.nextLock := same.nextLock
  have mem_granted : ∀ {a}, a ∈ s'.granted → a ∈ s.granted ∨ a = id := by
    intro a mem
    rwa [granted, mem_append, mem_singleton] at mem
  have conflict_iff : ∀ {a b}, Conflicting (s'.locks a) (s'.locks b) →
      Conflicting (s₂.locks a) (s₂.locks b) := by
    intro a b conflict
    rwa [locks a, locks b] at conflict
  refine ⟨tied', ?_, ?_, ?_, ?_, ?_, ?_, ?_, ?_⟩
  · intro a below
    rw [nextLock] at below
    rw [locks]
    by_cases isId : a = id
    · rw [isId, here]
      exact h.scope id known
    · rw [there isId]
      exact h.scope a below
  · grind [cases Sound, cases Tied]
  · grind [cases Sound, cases Tied]
  · grind [cases Sound, cases Tied]
  · grind [cases Sound, cases Tied]
  · intro a mem
    rw [locks]
    rcases mem_granted mem with mem | rfl
    · rw [ofGranted mem]
      exact h.covers a mem
    · rw [here]
      exact ⟨allowed.covers, allowed.bounded⟩
  · intro a memA b memB different conflict
    have conflict := conflict_iff conflict
    rw [locks a, locks b]
    rcases mem_granted memA with memA | rfl <;> rcases mem_granted memB with memB | rfl
    · rw [ofGranted memA, ofGranted memB] at conflict ⊢
      exact h.exclusive a memA b memB different conflict
    · rw [ofGranted memA, here] at conflict ⊢
      rw [extentOverlapped, Bool.and_comm]
      exact allowed.clear a memA conflict
    · rw [ofGranted memB, here] at conflict ⊢
      exact allowed.clear b memB conflict.symm
    · exact absurd rfl different
  · have pool : s'.plGranted = s.plGranted + 1 := same.plGranted
    rw [pool, h.pool, granted, length_append]
    rfl

/-- Marking a lock that is not granted as destroyed. -/
theorem destroy (notGranted : id ∉ s.granted) :
    Sound others (s.modifyLock id fun l => { l with destroyed := true }) := by
  obtain ⟨held, tied⟩ := h.tied
  let s' := s.modifyLock id fun l => { l with destroyed := true }
  have fields : ∀ a, s'.locks a = { s.locks a with destroyed := (s'.locks a).destroyed } := by
    intro a
    rw [modifyLock_locks]
    split
    · next same => rw [same]
    · rfl
  have ofGranted : ∀ {a}, a ∈ s.granted → s'.locks a = s.locks a := by
    intro a mem
    rw [modifyLock_locks, if_neg (show ¬ a = id from fun same => notGranted (same ▸ mem))]
  have monotone : ∀ a, (s'.locks a).destroyed = false → (s.locks a).destroyed = false := by
    intro a alive
    rw [modifyLock_locks] at alive
    split at alive
    · cases alive
    · exact alive
  refine ⟨⟨held, ?_⟩, ?_, h.known, ?_, ?_, ?_, ?_, ?_, h.pool⟩
  · refine tied.relock (f := s'.locks) (fun a => ?_) (fun a mem => ?_) monotone
    · rw [fields]
    · rw [ofGranted mem]
      exact ⟨rfl, rfl⟩
  · intro a below
    rw [fields]
    exact h.scope a below
  · intro a mem
    rw [ofGranted mem]
    exact h.mode a mem
  · intro a below notIn
    rw [fields]
    exact h.idle a below notIn
  · intro a below notIn alive
    have alive := monotone a alive
    rw [fields]
    exact h.fresh a below notIn alive
  · intro a mem
    rw [ofGranted mem]
    exact h.covers a mem
  · intro a memA b memB different
    rw [ofGranted memA, ofGranted memB]
    exact h.exclusive a memA b memB different

theorem destroyedState (notGranted : id ∉ s.granted) : Sound others (s.destroyedState id) := by
  refine (h.delInit notGranted).destroy ?_
  rw [ExtentRes.delInit, filter_granted notGranted]
  exact notGranted

theorem lockCreate {r : Request} (flags : EnqFlags) (page : r.extent.PageAligned)
    (mode : r.mode ∈ [.ex, .pw, .pr, .cw, .cr, .group])
    (whole : r.mode = .group → r.extent = ⟨0, maxU64⟩) : Sound others (s.lockCreate r flags) := by
  obtain ⟨held, tied⟩ := h.tied
  have new : (s.lockCreate r flags).locks s.nextLock = _ := update_self _ _ _
  have old : ∀ {a}, a ≠ s.nextLock → (s.lockCreate r flags).locks a = s.locks a :=
    fun different => update_of_ne different _ _
  have ofGranted : ∀ {a}, a ∈ s.granted → (s.lockCreate r flags).locks a = s.locks a :=
    fun mem => old (ne_of_lt (h.known _ mem))
  have below : ∀ {a}, a < (s.lockCreate r flags).nextLock → a = s.nextLock ∨ a < s.nextLock :=
    fun known => (Nat.lt_or_eq_of_le (Nat.lt_succ_iff.mp known)).symm
  refine ⟨⟨held, tied.lockCreate h.known r flags⟩, ?_, ?_, ?_, ?_, ?_, ?_, ?_, h.pool⟩
  · intro a known
    rcases below known with rfl | known
    · rw [new]
      exact ⟨page, mode, whole⟩
    · rw [old known.ne]
      exact h.scope a known
  · exact fun a mem => Nat.lt_succ_of_lt (h.known a mem)
  · intro a mem
    rw [ofGranted mem]
    exact h.mode a mem
  · intro a known notIn
    rcases below known with rfl | known
    · rw [new]
    · rw [old known.ne]
      exact h.idle a known notIn
  · intro a known notIn alive
    rcases below known with rfl | known
    · rw [new]
    · rw [old known.ne] at alive ⊢
      exact h.fresh a known notIn alive
  · intro a mem
    rw [ofGranted mem]
    exact h.covers a mem
  · intro a memA b memB different
    rw [ofGranted memA, ofGranted memB]
    exact h.exclusive a memA b memB different

/-- A granted lock has left its queue and its node and is destroyed. -/
theorem leave (mem : id ∈ s.granted) (nodup : s.granted.Nodup) {s' : ExtentRes}
    (tied : ∃ held, Tied s' held)
    (here : (s'.locks id).InScope ∧ (s'.locks id).grantedMode = none ∧ (s'.locks id).destroyed = true)
    (there : ∀ a, a ≠ id → s'.locks a = s.locks a)
    (granted : s'.granted = s.granted.filter (· ≠ id)) (nextLock : s'.nextLock = s.nextLock)
    (pool : s'.plGranted = s.plGranted - 1) : Sound others s' := by
  have mem_granted : ∀ {a}, a ∈ s'.granted → a ≠ id ∧ a ∈ s.granted := by grind
  refine ⟨tied, ?_, ?_, ?_, ?_, ?_, ?_, ?_, ?_⟩
  · grind [cases Sound, cases Tied]
  · intro a mem
    rw [nextLock]
    exact h.known a (mem_granted mem).2
  · intro a mem
    rw [there a (mem_granted mem).1]
    exact h.mode a (mem_granted mem).2
  · grind [cases Sound, cases Tied]
  · grind [cases Sound, cases Tied]
  · intro a mem
    rw [there a (mem_granted mem).1]
    exact h.covers a (mem_granted mem).2
  · grind [cases Sound, cases Tied]
  · have size : (s.granted.filter (· ≠ id)).length = s.granted.length - 1 := by
      rw [← length_erase_of_mem mem, nodup.erase_eq_filter]
      congr 2
      funext a
      by_cases same : a = id <;> simp [same]
    have positive : 0 < s.granted.length := length_pos_of_mem mem
    rw [pool, h.pool, granted, size]
    omega

theorem lockCancel_granted (mem : id ∈ s.granted) (nodup : s.granted.Nodup) :
    ∃ s', s.lockCancel id = .ok s' ∧ Sound others s' ∧ s'.astSent = s.astSent ∧
      s'.suspended = s.suspended := by
  obtain ⟨held, tied⟩ := h.tied
  obtain ⟨n, s₁, held', node, unlink, locks, groups, forest, same, left⟩ :=
    tied.extentUnlinkLock_granted mem (h.mode id mem)
  have only := extentUnlinkLock_effect s id
  rw [unlink] at only
  have unlinked : s.resourceUnlinkLock id = .ok (s₁.delInit id) := by
    rw [resourceUnlinkLock, unlink]
    rfl
  have mode : ((s₁.delInit id).locks id).grantedMode = some ((s₁.delInit id).locks id).reqMode := by
    change (s₁.locks id).grantedMode = some (s₁.locks id).reqMode
    rw [only.locks]
    exact h.mode id mem
  have pool : (s₁.delInit id).plGranted = s.plGranted := only.plGranted
  have positive : ¬ (s₁.delInit id).plGranted = 0 := by
    have := length_pos_of_mem mem
    rw [pool, h.pool]
    omega
  let s₂ := (s₁.delInit id).cancelledState id ((s₁.delInit id).plGranted - 1)
  have here : s₂.locks id = { s₁.locks id with destroyed := true, grantedMode := none } :=
    update_self _ _ _
  have there : ∀ a, a ≠ id → s₂.locks a = s.locks a := by
    intro a different
    have other : s₂.locks a = s₁.locks a := update_of_ne different _ _
    rw [other, locks]
    exact update_of_ne different _ _
  have noNode : (s₁.locks id).treeNode = none := by
    rw [locks]
    change ((s.modifyLock id fun l => { l with treeNode := none }).locks id).treeNode = none
    rw [modifyLock_locks, if_pos rfl]
  have granted : s₂.granted = s.granted.filter (· ≠ id) := by
    change s₁.granted.filter (· ≠ id) = _
    rw [only.granted]
  refine ⟨s₂, ?_, h.leave mem nodup ⟨held', ?_⟩ ?_ there granted only.nextLock ?_, only.astSent,
    only.suspended⟩
  · rw [lockCancel_eq unlinked (delInit_free s₁ id), if_pos mode, if_neg positive]
  · refine tied.leave node ?_ there groups granted only.nextLock only.nextNode forest same left
    rw [here]
    exact ⟨noNode, rfl⟩
  · rw [here, only.locks]
    exact ⟨h.scope id (h.known id mem), rfl, rfl⟩
  · change (s₁.delInit id).plGranted - 1 = _
    rw [pool]

theorem lockCancel_idle (known : id < s.nextLock) (notGranted : id ∉ s.granted) :
    ∃ s', s.lockCancel id = .ok s' ∧ Sound others s' ∧ s'.astSent = s.astSent ∧
      s'.suspended = s.suspended := by
  obtain ⟨held, tied⟩ := h.tied
  have idle := h.idle id known notGranted
  have mode : ¬ ((s.delInit id).locks id).grantedMode = some ((s.delInit id).locks id).reqMode := by
    change ¬ (s.locks id).grantedMode = some (s.locks id).reqMode
    rw [idle]
    exact (Option.some_ne_none _).symm
  have result : (s.delInit id).cancelledState id (s.delInit id).plGranted = s.destroyedState id := by
    have lock : { s.locks id with destroyed := true, grantedMode := none } =
        { s.locks id with destroyed := true } := by rw [← idle]
    exact congrArg (fun l => ({ s.delInit id with locks := update s.locks id l } : ExtentRes)) lock
  refine ⟨s.destroyedState id, ?_, h.destroyedState notGranted, rfl, rfl⟩
  rw [lockCancel_eq (tied.resourceUnlinkLock_eq notGranted) (delInit_free s id), if_neg mode, result]

theorem lockCancel (known : id < s.nextLock) (nodup : s.granted.Nodup) :
    ∃ s', s.lockCancel id = .ok s' ∧ Sound others s' ∧ s'.astSent = s.astSent ∧
      s'.suspended = s.suspended := by
  by_cases mem : id ∈ s.granted
  · exact h.lockCancel_granted mem nodup
  · exact h.lockCancel_idle known mem

end

end Sound

end ExtentRes

end Ldlm
