/-
Module: Lustre.Ldlm.Extent.Policy
Purpose: The scan of the granted locks finds every conflicting lock, and `ldlm_extent_policy` grows
  a request without leaving the gap between them.
Trusted boundary: none
-/
import Lustre.Ldlm.Extent.Groups
import Lustre.Ldlm.Extent.Passes
import Lustre.Lib.Alignment

namespace Ldlm

open Run

/-- Two locks that must not be granted on overlapping extents. -/
def Conflicting (a b : ExtentLock) : Prop :=
  lockmodeCompat a.reqMode b.reqMode = false ∨
    a.reqMode = .group ∧ b.reqMode = .group ∧ a.gid ≠ b.gid

instance (a b : ExtentLock) : Decidable (Conflicting a b) := inferInstanceAs (Decidable (_ ∨ _))

theorem Conflicting.symm {a b : ExtentLock} (h : Conflicting a b) : Conflicting b a := by
  rcases h with modes | ⟨groupA, groupB, different⟩
  · left
    rw [lockmodeCompat_comm]
    exact modes
  · exact .inr ⟨groupB, groupA, Ne.symm different⟩

namespace ExtentRes

/-- The granted locks of a mode that conflict with the request do not overlap it. -/
def ClearMode (s : ExtentRes) (req : ExtentLock) (m : Mode) : Prop :=
  ∀ id ∈ s.granted, (s.locks id).reqMode = m → Conflicting (s.locks id) req →
    extentOverlapped req.reqExtent (s.locks id).extent = false

/-- A granted lock answers for the group of the request. -/
def GroupHeld (s : ExtentRes) (req : ExtentLock) : Prop :=
  req.reqMode = .group ∧ ∃ id ∈ s.granted,
    lockmodeCompat .group (s.locks id).reqMode = true ∧ (s.locks id).gid = req.gid

/-- The scan of a tree goes on without a conflict only if the tree is clear of the request. -/
def TreeScanned (s : ExtentRes) (req : ExtentLock) (m : Mode) (x : Compat × Scan) : Prop :=
  x.2 ≠ .brk ∧ (x.2 = .next → x.1.compat = 1 → s.ClearMode req m) ∧ (x.2 = .ret 2 → s.GroupHeld req)

section Scan

variable {s : ExtentRes} {held : Nat → Option (Mode × Extent)} {m : Mode}

theorem compatGroup_ok {ids : List Nat} (all : ∀ id ∈ ids, (s.locks id).grantedMode = some m)
    (c : Compat) : ∃ c', s.compatGroup m ids c = .ok c' := by
  induction ids generalizing c with
  | nil => exact ⟨c, rfl⟩
  | cons id ids ih => simp_all [compatGroup]

theorem intervalExtent_ok (tied : Tied s held) {n : Nat} {e : Extent}
    (isHeld : held n = some (m, e)) :
    ∃ id ∈ s.granted, s.intervalExtent n = .ok (s.locks id) ∧ (s.locks id).reqMode = m := by
  obtain ⟨nonempty, all⟩ := tied.members n m e isHeld
  cases group : s.liGroup n with
  | nil => exact absurd group nonempty
  | cons id rest =>
    obtain ⟨mem, mode, _⟩ := all id (by simp [group])
    exact ⟨id, mem, by rw [intervalExtent, group], mode⟩

variable (tied : Tied s held)
  (modes : ∀ id ∈ s.granted, (s.locks id).grantedMode = some (s.locks id).reqMode)

include tied modes

theorem compatNode_ok {n : Nat} {e : Extent} (isHeld : held n = some (m, e)) (c : Compat) :
    ∃ c', s.compatNode m n c = .ok c' ∧ c'.compat = 0 := by
  obtain ⟨id, _, first, _⟩ := intervalExtent_ok tied isHeld
  have all : ∀ id ∈ s.liGroup n, (s.locks id).grantedMode = some m := by
    intro id mem
    obtain ⟨isGranted, mode, _⟩ := (tied.members n m e isHeld).2 id mem
    rw [modes id isGranted, mode]
  obtain ⟨c', group⟩ := compatGroup_ok all c
  have effect := compatNode_effect s m c n
  cases result : s.compatNode m n c with
  | ok c' =>
    rw [result] at effect
    exact ⟨c', rfl, effect.2⟩
  | error e => simp_all [compatNode]

/-- A walk over nodes of a tree finds a conflict unless there is none to visit. -/
theorem visit_ok {ns : List Nat} (inTree : ∀ n ∈ ns, ∃ e, held n = some (m, e)) (c : Compat) :
    ∃ c', (visit (s.extentCompatCb m) ns (.ok c)).2 = .ok c' ∧ (ns = [] ∧ c' = c ∨ c'.compat = 0) := by
  induction ns generalizing c with
  | nil => exact ⟨c, rfl, .inl ⟨rfl, rfl⟩⟩
  | cons n ns ih =>
    obtain ⟨e, isHeld⟩ := inTree n List.mem_cons_self
    obtain ⟨c₁, node, zero⟩ := compatNode_ok tied modes isHeld c
    have call : s.extentCompatCb m n (.ok c) = (.cont, .ok c₁) := by
      simp only [extentCompatCb, node]
    obtain ⟨c₂, rest, ends⟩ := ih (fun n mem => inTree n (List.mem_cons_of_mem _ mem)) c₁
    refine ⟨c₂, by rw [visit, call]; exact rest, .inr ?_⟩
    rcases ends with ⟨_, same⟩ | zero₂
    · rw [same, zero]
    · exact zero₂

/-! ### Trees -/

/-- The tree of the group locks always stands in the way. -/
theorem compatGroupTree_ok (c : Compat) :
    ∃ x, s.compatGroupTree m c = .ok x ∧ x.2 ≠ .brk ∧ x.2 ≠ .ret 2 ∧
      (x.2 = .next → x.1.compat = 0 ∧ c.workList ≠ none) := by
  rw [compatGroupTree]
  split
  · exact ⟨_, rfl, Scan.noConfusion, Scan.noConfusion, Scan.noConfusion⟩
  dsimp only
  split
  · exact ⟨_, rfl, Scan.noConfusion, by simp, Scan.noConfusion⟩
  next listed =>
  let c₁ : Compat := { c with flags := { c.flags with noTimeout := true }, compat := 0 }
  obtain ⟨ns, run, mem⟩ := tied.forest.iterateAll (Tied.fuel_enough s) m (s.extentCompatCb m)
    (.ok c₁)
  obtain ⟨c₂, walk, ends⟩ := visit_ok tied modes (fun n inTree => (mem n).mp inTree) c₁
  refine ⟨(c₂, .next), ?_, Scan.noConfusion, Scan.noConfusion, fun _ => ⟨?_, listed⟩⟩
  · have run : (s.tree m).intervalIterateAll s.fuel (s.litRoot m) (s.extentCompatCb m) (.ok c₁) =
      some (visit (s.extentCompatCb m) ns (.ok c₁)) := run
    rw [run, walked, walk]
    rfl
  · rcases ends with ⟨_, rfl⟩ | zero
    · rfl
    · exact zero

/-- Another tree is passed without a conflict only if none of its nodes overlaps; only such a node ends
the scan. -/
theorem compatOtherTree_ok (req : ExtentLock) (c : Compat) :
    ∃ x, s.compatOtherTree req m c = .ok x ∧ x.2 ≠ .brk ∧ x.2 ≠ .ret 2 ∧
      (x.2 = .next → x.1.compat = 1 →
        ∀ n e, held n = some (m, e) → extentOverlapped req.reqExtent e = false) ∧
      (x.2 = .next ↔ c.workList ≠ none ∨
        ∀ n e, held n = some (m, e) → extentOverlapped req.reqExtent e = false) := by
  rw [compatOtherTree]
  split
  · next noList =>
    obtain ⟨b, run, overlap⟩ := tied.forest.isOverlapped (Tied.fuel_enough s) m req.reqExtent
    have run : (s.tree m).intervalIsOverlapped s.fuel (s.litRoot m) req.reqExtent = some b := run
    rw [run]
    cases b with
    | true =>
      obtain ⟨n, e, isHeld, overlaps⟩ := overlap.mp rfl
      refine ⟨_, rfl, Scan.noConfusion, by simp, Scan.noConfusion, Scan.noConfusion, fun clear => ?_⟩
      rw [(clear.resolve_left (absurd noList)) n e isHeld] at overlaps
      cases overlaps
    | false => grind
  · next listed =>
    obtain ⟨ns, run, mem⟩ := tied.forest.search (Tied.fuel_enough s) m req.reqExtent
      (s.extentCompatCb m) (.ok c)
    obtain ⟨c', walk, ends⟩ := visit_ok tied modes
      (fun n inTree => ((mem n).mp inTree).imp fun _ h => h.1) c
    let c₁ := if c'.workList ≠ some [] ∧ c'.compat ≠ 0 then { c' with compat := 0 } else c'
    refine ⟨(c₁, .next), ?_, Scan.noConfusion, Scan.noConfusion, fun _ one n e isHeld => ?_,
      fun _ => .inl listed, fun _ => rfl⟩
    · have run : (s.tree m).intervalSearch s.fuel (s.litRoot m) req.reqExtent (s.extentCompatCb m)
        (.ok c) = some (visit (s.extentCompatCb m) ns (.ok c)) := run
      rw [run, walked, walk]
      rfl
    · have one' : c'.compat ≠ 0 := by
        intro zero
        simp [c₁, zero] at one
      obtain ⟨rfl, _⟩ := ends.resolve_right one'
      by_contra overlaps
      have := (mem n).mpr ⟨e, isHeld, by simpa using overlaps⟩
      simp at this

theorem compatTree_ok (req : ExtentLock) (c : Compat) :
    ∃ x, s.compatTree req m c = .ok x ∧ s.TreeScanned req m x := by
  have clearOfNodes : (∀ n e, held n = some (m, e) → extentOverlapped req.reqExtent e = false) →
      s.ClearMode req m := by
    intro clear id mem mode _
    obtain ⟨n, _, isHeld⟩ := tied.inTree id mem
    exact clear n _ (mode ▸ isHeld)
  have groupTree : ∃ x, s.compatGroupTree m c = .ok x ∧ s.TreeScanned req m x := by
    obtain ⟨x, run, notBrk, notTwo, zero⟩ := compatGroupTree_ok (m := m) tied modes c
    refine ⟨x, run, notBrk, fun isNext one => ?_, fun two => absurd two notTwo⟩
    rw [(zero isNext).1] at one
    cases one
  have otherTree : ∃ x, s.compatOtherTree req m c = .ok x ∧ s.TreeScanned req m x := by
    obtain ⟨x, run, notBrk, notTwo, clear, _⟩ := compatOtherTree_ok (m := m) tied modes req c
    exact ⟨x, run, notBrk, fun isNext one => clearOfNodes (clear isNext one),
      fun two => absurd two notTwo⟩
  rw [compatTree]
  split
  · next empty =>
    refine ⟨_, rfl, Scan.noConfusion, fun _ _ => clearOfNodes fun n e isHeld => ?_, Scan.noConfusion⟩
    exact absurd empty (tied.forest.root_of_held isHeld)
  next root isRoot =>
  split
  · next compat =>
    split
    · next notGroup =>
      refine ⟨_, rfl, Scan.noConfusion, fun _ _ id _ mode conflict => ?_, Scan.noConfusion⟩
      rcases conflict with modes | ⟨_, isGroup, _⟩
      · rw [mode, lockmodeCompat_comm, compat] at modes
        cases modes
      · exact absurd isGroup notGroup
    · next isGroup =>
      have isGroup : req.reqMode = .group := by simpa using isGroup
      obtain ⟨e, isHeld⟩ := tied.forest.root_held isRoot
      obtain ⟨id, mem, first, mode⟩ := intervalExtent_ok tied isHeld
      rw [first]
      change ∃ x, (if req.gid = (s.locks id).gid then .ok (c, .ret 2)
        else if m = .group then s.compatGroupTree m c else s.compatOtherTree req m c :
          Except Fault (Compat × Scan)) = .ok x ∧ _
      split
      · next sameGid =>
        refine ⟨_, rfl, Scan.noConfusion, Scan.noConfusion, fun _ => ⟨isGroup, id, mem, ?_, sameGid.symm⟩⟩
        rw [mode, ← isGroup]
        exact compat
      · split
        · exact groupTree
        · exact otherTree
  · split
    · exact groupTree
    · exact otherTree

omit tied modes in
/-- What each tree tells when it is passed without a conflict holds of all when the scan ends without
one. -/
theorem compatGranted_trees {req : ExtentLock} {Q : Mode → Prop} {R : Prop}
    (tree : ∀ m c, ∃ x, s.compatTree req m c = .ok x ∧ x.2 ≠ .brk ∧
      (x.2 = .next → x.1.compat = 1 → Q m) ∧ (x.2 = .ret 2 → R)) (ms : List Mode) (c : Compat) :
    ∃ x, s.compatGranted req ms c = .ok x ∧ (x.2 = .brk → x.1.compat = 1 → ∀ m ∈ ms, Q m) ∧
      (x.2 = .ret 2 → R) := by
  induction ms generalizing c with
  | nil => exact ⟨_, rfl, by simp, Scan.noConfusion⟩
  | cons m ms ih =>
    obtain ⟨⟨c₁, scan⟩, run, notBrk, clear, group⟩ := tree m c
    rw [compatGranted, run]
    cases scan with
    | next =>
      obtain ⟨⟨c₂, scan₂⟩, run₂, clear₂, group₂⟩ := ih c₁
      refine ⟨(c₂, scan₂), run₂, fun isBrk one m' mem => ?_, group₂⟩
      -- a conflict in this tree would not be forgotten by the rest of the scan
      have step := compatGranted_effect s req ms c₁
      rw [run₂] at step
      have one₁ : c₁.compat = 1 := by
        rcases step.1.compat with same | zero
        · rw [← same]
          exact one
        · rw [show c₂.compat = 0 from zero] at one
          cases one
      rcases List.mem_cons.mp mem with rfl | mem
      · exact clear rfl one₁
      · exact clear₂ isBrk one m' mem
    | brk => exact absurd rfl notBrk
    | ret rc => exact ⟨(c₁, .ret rc), rfl, Scan.noConfusion, group⟩
    | destroy rc => exact ⟨(c₁, .destroy rc), rfl, Scan.noConfusion, Scan.noConfusion⟩

/-- The whole scan passes its assertions, and tells what stands in the way of the
request. -/
theorem compatGranted_ok (req : ExtentLock) (ms : List Mode) (c : Compat) :
    ∃ x, s.compatGranted req ms c = .ok x ∧
      (x.2 = .brk → x.1.compat = 1 → ∀ m ∈ ms, s.ClearMode req m) ∧
      (x.2 = .ret 2 → s.GroupHeld req) :=
  compatGranted_trees (fun _ c => compatTree_ok tied modes req c) ms c

end Scan

end ExtentRes

open Nat

/-- The first extent lies in the second one. -/
def Extent.Within (inner outer : Extent) : Prop :=
  outer.start ≤ inner.start ∧ inner.stop ≤ outer.stop

theorem Extent.Within.refl (e : Extent) : e.Within e := ⟨le_rfl, le_rfl⟩

theorem Extent.Within.trans {a b c : Extent} (h : a.Within b) (h' : b.Within c) : a.Within c :=
  ⟨h'.1.trans h.1, h.2.trans h'.2⟩

/-- What an extent is clear of, its parts are clear of. -/
theorem Extent.Within.clear {inner outer e : Extent} (h : inner.Within outer)
    (clear : extentOverlapped outer e = false) : extentOverlapped inner e = false := by
  simp only [extentOverlapped, Extent.Within, Bool.and_eq_false_iff, decide_eq_false_iff_not] at *
  omega

/-- A nonempty extent of whole pages in the 64-bit address space. -/
def Extent.PageAligned (e : Extent) : Prop :=
  e.start ≤ e.stop ∧ e.stop ≤ maxU64 ∧ 4096 ∣ e.start ∧ 4096 ∣ u64 (e.stop + 1)

instance (e : Extent) : Decidable e.PageAligned := inferInstanceAs (Decidable (_ ∧ _ ∧ _ ∧ _))

theorem u64_of_le {n : Nat} (h : n ≤ maxU64) : u64 n = n := by
  refine mod_eq_of_lt ?_
  rw [maxU64] at h
  omega

theorem u64_wrap : u64 (maxU64 + 1) = 0 := by decide

theorem u64Pred_zero : u64Pred 0 = maxU64 := by decide

theorem u64Pred_of_pos {n : Nat} (positive : 0 < n) (h : n ≤ maxU64) : u64Pred n = n - 1 := by
  grind [maxU64, u64Pred, u64]

variable {newEx : Extent} {req : ExtentLock}

namespace ExtentRes

/-- The loop finds a power of two that divides the word. -/
theorem alignMask_finds {a : Nat} (nonzero : a ≠ 0) (word : a < 2 ^ 64) (fuel : Nat) :
    ∀ {j : Nat}, 2 ^ j ∣ a → 64 ≤ j + fuel →
      ∃ k, alignMask fuel a (2 ^ j) = some (2 ^ k) ∧ k < 64 ∧ 2 ^ k ∣ a := by
  have small : ∀ {j}, 2 ^ j ∣ a → j < 64 := by
    intro j dvd
    have le := Nat.le_of_dvd (Nat.pos_of_ne_zero nonzero) dvd
    exact (Nat.pow_lt_pow_iff_right (by decide)).mp (le.trans_lt word)
  induction fuel with
  | zero =>
    intro j dvd enough
    have := small dvd
    omega
  | succ fuel ih =>
    intro j dvd enough
    rw [alignMask]
    split
    · next zero =>
      have dvd := Alignment.dvd_succ_of_and_eq_zero dvd zero
      have shifted : u64 (2 ^ j <<< 1) = 2 ^ (j + 1) := by
        have shift : 2 ^ j <<< 1 = 2 ^ (j + 1) := by
          rw [Nat.shiftLeft_eq, Nat.pow_one, pow_succ]
        rw [shift, u64]
        exact Nat.mod_eq_of_lt (Nat.pow_lt_pow_right (by decide) (small dvd))
      rw [shifted]
      exact ih dvd (by omega)
    · exact ⟨j, rfl, small dvd, dvd⟩

/-- The alignment the fixup uses divides both ends of the request. -/
theorem alignBit (req : Extent) (page : req.PageAligned) :
    ∃ k, (if u64 (req.stop + 1) ||| req.start ≠ 0 then
        alignMask 64 (u64 (req.stop + 1) ||| req.start) 0x1000 else some 0x1000) = some (2 ^ k) ∧
      k ≤ 64 ∧ 2 ^ k ∣ req.start ∧ 2 ^ k ∣ u64 (req.stop + 1) := by
  obtain ⟨le, bounded, dvdStart, dvdStop⟩ := page
  have dvd : 2 ^ 12 ∣ u64 (req.stop + 1) ||| req.start := Alignment.dvd_or.mpr ⟨dvdStop, dvdStart⟩
  by_cases nonzero : u64 (req.stop + 1) ||| req.start ≠ 0
  · have word : u64 (req.stop + 1) ||| req.start < 2 ^ 64 := by
      refine or_lt_two_pow (mod_lt _ (by decide)) ?_
      rw [maxU64] at bounded
      omega
    obtain ⟨k, found, small, dvd⟩ := alignMask_finds nonzero word 64 dvd (by decide)
    rw [if_pos nonzero]
    exact ⟨k, found, by omega, (Alignment.dvd_or.mp dvd).2, (Alignment.dvd_or.mp dvd).1⟩
  · rw [if_neg nonzero]
    exact ⟨12, rfl, by decide, dvdStart, dvdStop⟩

/-- The start is rounded up, but not beyond the request. -/
theorem alignStart {k start reqStart : Nat} (bounded : reqStart ≤ maxU64) (dvd : 2 ^ k ∣ reqStart)
    (fits : k ≤ 64) (le : start ≤ reqStart) :
    start ≤ u64 ((u64Pred start ||| (2 ^ k - 1)) + 1) ∧
      u64 ((u64Pred start ||| (2 ^ k - 1)) + 1) ≤ reqStart := by
  rcases Nat.eq_zero_or_pos start with rfl | positive
  · have full : maxU64 ||| (2 ^ k - 1) = maxU64 := by
      refine eq_of_testBit_eq fun i => ?_
      rw [testBit_or, maxU64, testBit_two_pow_sub_one, testBit_two_pow_sub_one]
      by_cases below : i < 64
      · simp [below]
      · simp [below]
        omega
    rw [u64Pred_zero, full, u64_wrap]
    exact ⟨le_rfl, zero_le _⟩
  · have bounds := Alignment.roundUp_bounds positive dvd le
    rw [u64Pred_of_pos positive (le.trans bounded), u64_of_le (bounds.2.trans bounded)]
    exact bounds

/-- The end is rounded down, but not below the request. -/
theorem alignStop {k stop reqStop : Nat} (bounded : stop ≤ maxU64) (fits : k ≤ 64)
    (dvd : 2 ^ k ∣ u64 (reqStop + 1)) (le : reqStop ≤ stop) :
    reqStop ≤ u64Pred (u64 (stop + 1) &&& (maxU64 - (2 ^ k - 1))) ∧
      u64Pred (u64 (stop + 1) &&& (maxU64 - (2 ^ k - 1))) ≤ stop := by
  rcases eq_or_lt_of_le bounded with rfl | below
  · rw [u64_wrap, zero_and, u64Pred_zero]
    exact ⟨le, le_rfl⟩
  · have word : stop + 1 < 2 ^ 64 := by
      rw [maxU64] at below
      omega
    rw [u64_of_le (by omega)] at dvd
    rw [u64_of_le (by omega)]
    have bounds := Alignment.roundDown_bounds fits word dvd (by omega)
    rw [← maxU64] at bounds
    rw [u64Pred_of_pos (by omega) (by omega)]
    omega

/-- The fixup's rounding passes its assertion and only shrinks the extent. -/
theorem policyAlign_ok {req : Extent} (page : req.PageAligned) (within : req.Within newEx)
    (bounded : newEx.stop ≤ maxU64) :
    ∃ e, policyAlign req newEx = .ok e ∧ req.Within e ∧ e.Within newEx := by
  obtain ⟨k, bit, fits, dvdStart, dvdStop⟩ := alignBit req page
  have low := alignStart (page.1.trans page.2.1) dvdStart fits within.1
  have high := alignStop bounded fits dvdStop within.2
  let e : Extent := ⟨u64 ((u64Pred newEx.start ||| (2 ^ k - 1)) + 1),
    u64Pred (u64 (newEx.stop + 1) &&& (maxU64 - (2 ^ k - 1)))⟩
  have checks : e.start ≤ req.start ∧ req.stop ≤ e.stop := ⟨low.2, high.1⟩
  refine ⟨e, ?_, checks, low.1, high.2⟩
  simp only [policyAlign, bit]
  exact if_pos checks

theorem policyCap_within (conflicting : Int) (within : req.reqExtent.Within newEx) :
    req.reqExtent.Within (policyCap req newEx conflicting) ∧
      (policyCap req newEx conflicting).Within newEx := by
  simp only [policyCap]
  split
  · next cap =>
    refine ⟨⟨within.1, ?_⟩, le_rfl, min_le_right _ _⟩
    exact Nat.le_min.mpr ⟨cap.2.2.le, within.2⟩
  · exact ⟨within, .refl _⟩

theorem fixup_ok (page : req.reqExtent.PageAligned) (within : req.reqExtent.Within newEx)
    (bounded : newEx.stop ≤ maxU64) (conflicting : Int) :
    ∃ e, extentInternalPolicyFixup req newEx conflicting = .ok e ∧ req.reqExtent.Within e ∧
      e.Within newEx := by
  obtain ⟨cap, capped⟩ := policyCap_within conflicting within
  simp only [extentInternalPolicyFixup]
  split
  · exact ⟨_, rfl, cap, capped⟩
  · obtain ⟨e, run, low, high⟩ := policyAlign_ok page cap (capped.2.trans bounded)
    exact ⟨e, run, low, high.trans capped⟩

theorem policyStart_within (conflicting : Int) (within : req.reqExtent.Within newEx) :
    req.reqExtent.Within (policyStart req newEx conflicting) ∧
      (policyStart req newEx conflicting).Within newEx := by
  rw [policyStart]
  split
  · exact ⟨⟨le_rfl, within.2⟩, within.1, le_rfl⟩
  · exact ⟨within, .refl _⟩

/-- The extent is clear of the nodes of every tree whose mode conflicts with `mode`. -/
def ClearOf (held : Nat → Option (Mode × Extent)) (mode : Mode) (ext : Extent) : Prop :=
  ∀ m, lockmodeCompat m mode = false → ∀ n e, held n = some (m, e) → extentOverlapped ext e = false

theorem ClearOf.within {held : Nat → Option (Mode × Extent)} {mode : Mode} {inner outer : Extent}
    (h : ClearOf held mode outer) (within : inner.Within outer) : ClearOf held mode inner :=
  fun m conflict n e isHeld => within.clear (h m conflict n e isHeld)

section Granted

variable {s : ExtentRes} {held : Nat → Option (Mode × Extent)} {req : ExtentLock}

section

variable (forest : Forest s.nodes s.litRoot held s.nextNode)
  (starts : ∀ n m e, held n = some (m, e) → e.start ≤ maxU64)

include forest starts

/-- The loop over the trees cuts the limiter to a gap around the request. -/
theorem policyGrantedLoop_ok (bounded : req.reqExtent.stop ≤ maxU64)
    (clear : ClearOf held req.reqMode req.reqExtent) (modes : List Mode) :
    ∀ {limiter : Extent} (conflicting : Int), req.reqExtent.Within limiter →
      ∃ x, s.policyGrantedLoop req modes limiter conflicting = .ok x ∧
        req.reqExtent.Within x.1 ∧ x.1.Within limiter ∧
        ∀ m ∈ modes, lockmodeCompat m req.reqMode = false → ∀ n e, held n = some (m, e) →
          extentOverlapped x.1 e = false := by
  induction modes with
  | nil => exact fun conflicting within => ⟨_, rfl, within, .refl _, by simp⟩
  | cons m modes ih =>
    intro limiter conflicting within
    rw [policyGrantedLoop]
    split
    · next compat => simp_all [List.mem_cons]
    next conflict =>
    have conflict : lockmodeCompat m req.reqMode = false := by simpa using conflict
    dsimp only
    let start := policyStart req limiter (conflicting + s.litSize m)
    obtain ⟨within₁, inLimiter⟩ := policyStart_within (conflicting + s.litSize m) within
    obtain ⟨ext, run, low, high, _, free⟩ := forest.expand (Tied.fuel_enough s) start bounded
      (fun n e => starts n m e) (clear m conflict)
    have run : (s.tree m).intervalExpand s.fuel (s.litRoot m) req.reqExtent (some start) = some ext :=
      run
    rw [run]
    dsimp only
    let limiter₁ : Extent := ⟨max start.start ext.start, min start.stop ext.stop⟩
    have within₂ : req.reqExtent.Within limiter₁ :=
      ⟨Nat.max_le.mpr ⟨within₁.1, low⟩, Nat.le_min.mpr ⟨within₁.2, high⟩⟩
    have inStart : limiter₁.Within start := ⟨le_max_left _ _, min_le_left _ _⟩
    have inExt : limiter₁.Within ext := ⟨le_max_right _ _, min_le_right _ _⟩
    split
    · next exact =>
      -- no room is left, so the remaining trees are not asked
      refine ⟨_, rfl, within₂, inStart.trans inLimiter, fun m' _ conflict' n e isHeld => ?_⟩
      change extentOverlapped limiter₁ e = false
      rw [show limiter₁ = req.reqExtent from exact]
      exact clear m' conflict' n e isHeld
    · obtain ⟨x, run, low, high, others⟩ := ih (conflicting + s.litSize m) within₂
      refine ⟨x, run, low, (high.trans inStart).trans inLimiter, fun m' mem conflict' => ?_⟩
      rcases List.mem_cons.mp mem with rfl | mem
      · exact fun n e isHeld => (high.trans inExt).clear (free n e isHeld)
      · exact others m' mem conflict'

theorem policyGranted_ok (page : req.reqExtent.PageAligned)
    (clear : ClearOf held req.reqMode req.reqExtent) :
    ∃ e, s.extentInternalPolicyGranted req ⟨0, maxU64⟩ = .ok e ∧ req.reqExtent.Within e ∧
      e.stop ≤ maxU64 ∧ ClearOf held req.reqMode e := by
  have whole : req.reqExtent.Within ⟨0, maxU64⟩ := ⟨zero_le _, page.2.1⟩
  obtain ⟨⟨gap, conflicting⟩, run, low, high, free⟩ :=
    policyGrantedLoop_ok forest starts page.2.1 clear Mode.all 0 whole
  obtain ⟨e, fixup, low', high'⟩ := fixup_ok page low high.2 conflicting
  refine ⟨e, ?_, low', high'.2.trans high.2, fun m conflict n f isHeld => ?_⟩
  · rw [extentInternalPolicyGranted, run]
    change (if gap.start ≤ req.reqExtent.start ∧ req.reqExtent.stop ≤ gap.stop then
      extentInternalPolicyFixup req gap conflicting else _) = _
    rw [if_pos ⟨low.1, low.2⟩, fixup]
  · exact high'.clear (free m (Mode.mem_all m) conflict n f isHeld)

end

end Granted

/-- A waiting lock with its requested extent beside the request cuts the extent on one
side. -/
theorem policyShrink_within {lock : ExtentLock} (page : req.reqExtent.PageAligned)
    (same : lock.extent = lock.reqExtent) (top : lock.extent.stop ≤ maxU64)
    (proper : lock.extent.start ≤ lock.extent.stop)
    (overlap : extentOverlapped lock.extent newEx = true)
    (beside : extentOverlapped lock.reqExtent req.reqExtent = false)
    (within : req.reqExtent.Within newEx) :
    req.reqExtent.Within (policyShrink req lock newEx) ∧ (policyShrink req lock newEx).Within newEx := by
  rw [← same] at beside
  simp only [extentOverlapped, Bool.and_eq_true, Bool.and_eq_false_iff, decide_eq_true_eq,
    decide_eq_false_iff_not, not_le] at overlap beside
  obtain ⟨low, high⟩ := within
  have le := page.1
  simp only [policyShrink]
  rcases beside with after | before
  · -- the waiting lock starts behind the request
    have prev : u64Pred lock.extent.start = lock.extent.start - 1 :=
      u64Pred_of_pos (by omega) (proper.trans top)
    rw [if_pos (show lock.extent.stop > req.reqExtent.stop by omega),
      if_neg (show ¬ lock.extent.start ≤ req.reqExtent.stop by omega), prev,
      if_neg (show ¬ (lock.extent.start < req.reqExtent.start ∧ newEx.start ≠ req.reqExtent.start) by
        omega)]
    exact ⟨⟨low, le_max_right _ _⟩, le_rfl, Nat.max_le.mpr ⟨by omega, high⟩⟩
  · have next : u64 (lock.extent.stop + 1) = lock.extent.stop + 1 :=
      u64_of_le (Nat.le_trans before (le.trans page.2.1))
    rw [if_neg (show ¬ lock.extent.stop > req.reqExtent.stop by omega)]
    split
    · rw [if_neg (show ¬ lock.extent.stop ≥ req.reqExtent.start by omega), next]
      exact ⟨⟨min_le_right _ _, high⟩, Nat.le_min.mpr ⟨by omega, low⟩, le_rfl⟩
    · exact ⟨⟨low, high⟩, .refl _⟩

/-- The loop over the waiting locks only shrinks the extent. -/
theorem policyWaitingLoop_within {s : ExtentRes} {id : Nat} (page : (s.locks id).reqExtent.PageAligned)
    (queue : List Nat) (waits : ∀ a ∈ queue, a ≠ id → (s.locks a).extent = (s.locks a).reqExtent ∧
      (s.locks a).reqExtent.PageAligned) :
    ∀ (newEx : Extent) (conflicting : Int), (s.locks id).reqExtent.Within newEx →
      (s.locks id).reqExtent.Within (s.policyWaitingLoop id queue newEx conflicting).1 ∧
        (s.policyWaitingLoop id queue newEx conflicting).1.Within newEx := by
  induction queue with
  | nil => exact fun _ _ within => ⟨within, .refl _⟩
  | cons other rest ih =>
    intro newEx conflicting within
    have ih := ih fun a mem => waits a (List.mem_cons_of_mem _ mem)
    have shrinks : ∀ {e : Extent} (c : Int), (s.locks id).reqExtent.Within e → e.Within newEx →
        (s.locks id).reqExtent.Within (s.policyWaitingLoop id rest e c).1 ∧
          (s.policyWaitingLoop id rest e c).1.Within newEx :=
      fun c low high => ⟨(ih _ c low).1, (ih _ c low).2.trans high⟩
    rw [policyWaitingLoop]
    dsimp only
    split
    · exact ⟨within, .refl _⟩
    split
    · exact ih _ _ within
    next different =>
    split
    · exact ih _ _ within
    obtain ⟨low, high⟩ := policyStart_within (conflicting + 1) within
    split
    · exact shrinks _ low high
    next overlap =>
    split
    · exact shrinks _ low high
    next beside =>
    obtain ⟨same, pageOther⟩ := waits other List.mem_cons_self (Ne.symm different)
    have top : (s.locks other).extent.stop ≤ maxU64 := by rw [same]; exact pageOther.2.1
    have proper : (s.locks other).extent.start ≤ (s.locks other).extent.stop := by
      rw [same]
      exact pageOther.1
    have cut := policyShrink_within page same top proper (by simpa using overlap)
      (by simpa using beside) low
    exact shrinks _ cut.1 (cut.2.trans high)

/-- `ldlm_extent_policy` of a request clear of the granted locks passes its assertions, and grants what
is clear of them. -/
theorem extentPolicy_ok {s : ExtentRes} {held : Nat → Option (Mode × Extent)} {id : Nat}
    (forest : Forest s.nodes s.litRoot held s.nextNode)
    (starts : ∀ n m e, held n = some (m, e) → e.start ≤ maxU64)
    (page : (s.locks id).reqExtent.PageAligned) (fresh : (s.locks id).extent = (s.locks id).reqExtent)
    (waits : ∀ a ∈ s.waiting, a ≠ id → (s.locks a).extent = (s.locks a).reqExtent ∧
      (s.locks a).reqExtent.PageAligned)
    (clear : ClearOf held (s.locks id).reqMode (s.locks id).reqExtent) (flags : EnqFlags) :
    Outcome (fun x => ∃ e, x.1 = s.modifyLock id (fun l => { l with extent := e }) ∧
        (s.locks id).reqExtent.Within e ∧ e.stop ≤ maxU64 ∧ ClearOf held (s.locks id).reqMode e)
      (fun _ => False) (s.extentPolicy id flags) := by
  have unchanged : s = s.modifyLock id fun l => { l with extent := (s.locks id).reqExtent } := by
    rw [← fresh]
    simp [modifyLock]
  simp only [extentPolicy]
  split
  · exact ⟨_, unchanged, .refl _, page.2.1, clear⟩
  split
  · exact ⟨_, unchanged, .refl _, page.2.1, clear⟩
  obtain ⟨gap, run, low, top, free⟩ := policyGranted_ok forest starts page clear
  obtain ⟨low', high'⟩ := policyWaitingLoop_within page s.waiting waits gap 0 low
  have waiting : ∃ e, s.extentInternalPolicyWaiting id gap = .ok e ∧
      (s.locks id).reqExtent.Within e ∧ e.Within gap := by
    rw [extentInternalPolicyWaiting]
    generalize s.policyWaitingLoop id s.waiting gap 0 = cut at low' high' ⊢
    obtain ⟨e, conflicting⟩ := cut
    cases conflicting with
    | none => exact ⟨e, rfl, low', high'⟩
    | some conflicting =>
      obtain ⟨e', fixup, low'', high''⟩ := fixup_ok page low' (high'.2.trans top) conflicting
      exact ⟨e', fixup, low'', high''.trans high'⟩
  obtain ⟨e, cut, inner, outer⟩ := waiting
  rw [run]
  change Outcome _ _ (s.extentInternalPolicyWaiting id gap >>= _)
  rw [cut]
  change Outcome _ _ (if e ≠ (s.locks id).extent then _ else _)
  split
  · exact ⟨e, rfl, inner, outer.2.trans top, free.within outer⟩
  · exact ⟨_, unchanged, .refl _, page.2.1, clear⟩

end ExtentRes

end Ldlm
