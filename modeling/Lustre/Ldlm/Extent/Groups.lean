/-
Module: Lustre.Ldlm.Extent.Groups
Purpose: The interval trees of an extent resource hold exactly its granted locks; granting and
  unlinking a lock keep this.
Trusted boundary: none
-/
import Lustre.Ldlm.IntervalTree.Forest
import Lustre.Ldlm.Extent.Queues

namespace Ldlm

open Function PointerHeap Run

variable {n : Nat} {s' : ExtentRes}

namespace ExtentRes

/-- The nodes in the trees carry the granted locks of their mode and extent. -/
structure Tied (s : ExtentRes) (held : Nat → Option (Mode × Extent)) : Prop where
  forest : Forest s.nodes s.litRoot held s.nextNode
  group : ∀ id n, id ∈ s.liGroup n ↔ (s.locks id).treeNode = some n
  known : ∀ id n, (s.locks id).treeNode = some n → n < s.nextNode
  members : ∀ n m e, held n = some (m, e) → s.liGroup n ≠ [] ∧ ∀ id ∈ s.liGroup n,
    id ∈ s.granted ∧ (s.locks id).reqMode = m ∧ (s.locks id).extent = e
  inTree : ∀ id ∈ s.granted, ∃ n, (s.locks id).treeNode = some n ∧
    held n = some ((s.locks id).reqMode, (s.locks id).extent)
  own : ∀ id, id ∉ s.granted → ∀ n, (s.locks id).treeNode = some n → s.liGroup n = [id]
  attached : ∀ id < s.nextLock, (s.locks id).destroyed = false → (s.locks id).treeNode ≠ none
  unborn : ∀ id, s.nextLock ≤ id → (s.locks id).treeNode = none

/-- The state in which a lock has left its node. -/
def detached (s : ExtentRes) (id n : Nat) : ExtentRes :=
  (s.modifyLock id fun l => { l with treeNode := none }).setGroup n
    ((s.liGroup n).filter (· ≠ id))

/-- What is done with a node that no lock is left on. -/
def dropNode (s : ExtentRes) (m : Mode) : Option Nat → Except Fault ExtentRes
  | none => .ok s
  | some n => match (s.tree m).intervalErase s.fuel n with
    | none => .error .intervalTree
    | some t => (s.setTree m t).intervalFree n >>= fun _ => .ok (s.setTree m t)

theorem intervalDetach_eq {s : ExtentRes} {id : Nat} (node : (s.locks id).treeNode = some n)
    (mem : id ∈ s.liGroup n) :
    s.intervalDetach id = .ok (s.detached id n,
      if (s.liGroup n).filter (· ≠ id) = [] then some n else none) := by
  have nonempty : s.liGroup n ≠ [] := List.ne_nil_of_mem mem
  have here : (s.detached id n).liGroup n = (s.liGroup n).filter (· ≠ id) :=
    update_self _ _ _
  rw [intervalDetach, node]
  simp only [nonempty, if_false]
  rw [← here]
  rfl

namespace Tied

variable {s : ExtentRes} {held : Nat → Option (Mode × Extent)} {id : Nat}

/-- The invariant reads some fields of the locks. -/
theorem relock (h : Tied s held) {f : Nat → ExtentLock}
    (treeNode : ∀ id, (f id).treeNode = (s.locks id).treeNode)
    (fields : ∀ id ∈ s.granted, (f id).reqMode = (s.locks id).reqMode ∧ (f id).extent = (s.locks id).extent)
    (destroyed : ∀ id, (f id).destroyed = false → (s.locks id).destroyed = false) :
    Tied { s with locks := f } held where
  forest := h.forest
  group id n := by
    rw [treeNode]
    exact h.group id n
  known id n node := by
    rw [treeNode] at node
    exact h.known id n node
  members n m e isHeld := by
    obtain ⟨nonempty, all⟩ := h.members n m e isHeld
    refine ⟨nonempty, fun id mem => ?_⟩
    rw [(fields id (all id mem).1).1, (fields id (all id mem).1).2]
    exact all id mem
  inTree id mem := by
    rw [treeNode, (fields id mem).1, (fields id mem).2]
    exact h.inTree id mem
  own id notGranted n node := by
    rw [treeNode] at node
    exact h.own id notGranted n node
  attached id known alive := by
    rw [treeNode]
    exact h.attached id known (destroyed id alive)
  unborn id above := by
    rw [treeNode]
    exact h.unborn id above

theorem fuel_enough (s : ExtentRes) : 2 * s.nextNode < s.fuel := by
  rw [fuel]
  omega

section

variable (h : Tied s held)

include h

theorem lockCreate (below : ∀ id ∈ s.granted, id < s.nextLock) (r : Request) (flags : EnqFlags) :
    Tied (s.lockCreate r flags) held := by
  have lock : ((s.lockCreate r flags).locks s.nextLock).treeNode = some s.nextNode := by
    simp [ExtentRes.lockCreate]
  have other : ∀ {a}, a ≠ s.nextLock → (s.lockCreate r flags).locks a = s.locks a :=
    fun different => update_of_ne different _ _
  have newNode : (s.lockCreate r flags).liGroup s.nextNode = [s.nextLock] :=
    update_self _ _ _
  have oldNode : ∀ {n}, n ≠ s.nextNode → (s.lockCreate r flags).liGroup n = s.liGroup n :=
    fun different => update_of_ne different _ _
  have ofGranted : ∀ {a}, a ∈ s.granted → (s.lockCreate r flags).locks a = s.locks a :=
    fun mem => other (ne_of_lt (below _ mem))
  have unused : held s.nextNode = none := by
    cases isHeld : held s.nextNode with
    | none => rfl
    | some x => exact absurd (h.forest.known _ x isHeld) (lt_irrefl _)
  have heldBelow : ∀ {n x}, held n = some x → n ≠ s.nextNode :=
    fun isHeld => ne_of_lt (h.forest.known _ _ isHeld)
  refine ⟨?_, ?_, ?_, ?_, ?_, ?_, ?_, ?_⟩
  · have grown : Forest s.nodes s.litRoot held (s.nextNode + 1) :=
      { h.forest with known := fun n x isHeld => Nat.lt_succ_of_lt (h.forest.known n x isHeld) }
    refine grown.writeOutside unused (fun p different => update_of_ne different _ _) ?_
    simp [ExtentRes.lockCreate, zeroNode]
  · grind [cases Forest, cases Tied]
  · intro a n node
    by_cases isLock : a = s.nextLock
    · rw [isLock, lock] at node
      cases node
      exact Nat.lt_succ_self _
    · rw [other isLock] at node
      exact Nat.lt_succ_of_lt (h.known a n node)
  · intro n m e isHeld
    obtain ⟨nonempty, all⟩ := h.members n m e isHeld
    rw [oldNode (heldBelow isHeld)]
    refine ⟨nonempty, fun a mem => ?_⟩
    rw [ofGranted (all a mem).1]
    exact all a mem
  · intro a mem
    rw [ofGranted mem]
    exact h.inTree a mem
  · intro a notGranted n node
    by_cases isLock : a = s.nextLock
    · rw [isLock, lock] at node
      cases node
      rw [newNode, isLock]
    · rw [other isLock] at node
      rw [oldNode (ne_of_lt (h.known a n node))]
      exact h.own a notGranted n node
  · intro a known alive
    by_cases isLock : a = s.nextLock
    · rw [isLock, lock]
      exact Option.some_ne_none _
    · rw [other isLock] at alive ⊢
      exact h.attached a (lt_of_le_of_ne (Nat.lt_succ_iff.mp known) isLock) alive
  · intro a above
    have above : s.nextLock + 1 ≤ a := above
    rw [other (by omega)]
    exact h.unborn a (by omega)

/-- Unlinking a granted lock takes it from its node, and the node from its tree behind its last lock. -/
theorem extentUnlinkLock_granted (mem : id ∈ s.granted)
    (mode : (s.locks id).grantedMode = some (s.locks id).reqMode) :
    ∃ n s' held', (s.locks id).treeNode = some n ∧ s.extentUnlinkLock id = .ok s' ∧
      s'.locks = (s.detached id n).locks ∧ s'.liGroup = (s.detached id n).liGroup ∧
      Forest s'.nodes s'.litRoot held' s'.nextNode ∧ (∀ p, p ≠ n → held' p = held p) ∧
      held' n = if (s.liGroup n).filter (· ≠ id) = [] then none else held n := by
  obtain ⟨n, node, isHeld⟩ := h.inTree id mem
  let m := (s.locks id).reqMode
  let s₁ := (s.addSize m (-1)).detached id n
  have isIn : (s.nodes n).data.intree = true := h.forest.intree_iff.mpr ⟨_, isHeld⟩
  have hasRoot : s.litRoot m ≠ none := h.forest.root_of_held isHeld
  have detach : (s.addSize m (-1)).intervalDetach id = .ok (s₁,
      if (s.liGroup n).filter (· ≠ id) = [] then some n else none) :=
    intervalDetach_eq (s := s.addSize m (-1)) node ((h.group id n).mpr node)
  have unfolded : s.extentUnlinkLock id =
      (s.addSize m (-1)).intervalDetach id >>= fun x => x.1.dropNode m x.2 := by
    rw [extentUnlinkLock, node]
    dsimp only
    rw [isIn, if_pos rfl, mode]
    exact if_neg hasRoot
  rw [unfolded, detach]
  by_cases last : (s.liGroup n).filter (· ≠ id) = []
  · have enough : s.nextNode < s₁.fuel := by
      have := fuel_enough s
      change s.nextNode < s.fuel
      omega
    obtain ⟨t, run, forest, unset⟩ := h.forest.erase enough isHeld
    refine ⟨n, s₁.setTree m t, update held n none, node, ?_, rfl, rfl, forest, ?_, ?_⟩
    · change s₁.dropNode m (if (s.liGroup n).filter (· ≠ id) = [] then some n else none) = _
      rw [if_pos last]
      have run : (s₁.tree m).intervalErase s₁.fuel n = some t := run
      simp only [dropNode, run]
      have empty : (s₁.setTree m t).liGroup n = [] := (update_self _ _ _).trans last
      have free : (s₁.setTree m t).intervalFree n = .ok () := by
        rw [intervalFree, if_neg (by simp [empty]), if_neg]
        exact ne_true_of_eq_false unset
      rw [free]
      rfl
    · exact fun p different => update_of_ne different _ _
    · rw [if_pos last, update_self]
  · refine ⟨n, s₁, held, node, ?_, rfl, rfl, h.forest, fun _ _ => rfl, by rw [if_neg last]⟩
    rw [if_neg last]
    rfl

/-- What a granted lock leaves behind once it is destroyed. -/
theorem leave (node : (s.locks id).treeNode = some n) {held' : Nat → Option (Mode × Extent)}
    (here : (s'.locks id).treeNode = none ∧ (s'.locks id).destroyed = true)
    (others : ∀ a, a ≠ id → s'.locks a = s.locks a)
    (groups : s'.liGroup = (s.detached id n).liGroup)
    (granted : s'.granted = s.granted.filter (· ≠ id)) (nextLock : s'.nextLock = s.nextLock)
    (nextNode : s'.nextNode = s.nextNode) (forest : Forest s'.nodes s'.litRoot held' s'.nextNode)
    (same : ∀ p, p ≠ n → held' p = held p)
    (left : held' n = if (s.liGroup n).filter (· ≠ id) = [] then none else held n) :
    Tied s' held' := by
  have groupHere : s'.liGroup n = (s.liGroup n).filter (· ≠ id) := by
    rw [groups]
    exact update_self _ _ _
  have groupOther : ∀ {p}, p ≠ n → s'.liGroup p = s.liGroup p := by
    intro p different
    rw [groups]
    exact update_of_ne different _ _
  have group' : ∀ a p, a ∈ s'.liGroup p ↔ a ≠ id ∧ a ∈ s.liGroup p := by
    grind [cases Forest, cases Tied]
  refine ⟨forest, ?_, ?_, ?_, ?_, ?_, ?_, ?_⟩
  all_goals grind [cases Forest, cases Tied]

section

variable {nodes : Nat → Cell Nat NodeData} {litRoot : Mode → Option Nat}
  (notGranted : id ∉ s.granted) (node : (s.locks id).treeNode = some n)

include notGranted node

/-- The node of a lock that is not granted is in no tree. -/
theorem outside : held n = none := by
  cases isHeld : held n with
  | none => rfl
  | some x => exact absurd ((h.members n x.1 x.2 isHeld).2 id ((h.group id n).mpr node)).1 notGranted

theorem not_intree : (s.nodes n).data.intree = false :=
  h.forest.clear n (h.outside notGranted node)

/-- A lock joins the granted ones with its own node, which is now in the tree. -/
theorem joinOwn (forest : Forest nodes litRoot
      (update held n (some ((s.locks id).reqMode, (s.locks id).extent))) s.nextNode) :
    Tied { s with granted := s.granted ++ [id], nodes := nodes, litRoot := litRoot }
      (update held n (some ((s.locks id).reqMode, (s.locks id).extent))) := by
  have alone := h.own id notGranted n node
  refine { h with forest := forest, members := fun p m e isHeld => ?_, inTree := ?_, own := ?_ }
  · by_cases isNode : p = n
    · simp_all
    · grind [cases Forest, cases Tied]
  · grind [cases Forest, cases Tied]
  · grind [cases Forest, cases Tied]

/-- A lock joins the granted ones on the node that has its extent. -/
theorem joinOther {q : Nat}
    (present : held q = some ((s.locks id).reqMode, (s.locks id).extent))
    {locks : Nat → ExtentLock} (here : locks id = { s.locks id with treeNode := some q })
    (others : ∀ a, a ≠ id → locks a = s.locks a) {liGroup : Nat → List Nat}
    (groups : liGroup = update (update s.liGroup n []) q (s.liGroup q ++ [id]))
    (forest : Forest nodes litRoot held s.nextNode) : Tied { s with
      locks := locks, liGroup := liGroup, granted := s.granted ++ [id], nodes := nodes
      litRoot := litRoot } held := by
  have alone := h.own id notGranted n node
  have group' : ∀ a p, a ∈ liGroup p ↔ a ≠ id ∧ a ∈ s.liGroup p ∨ a = id ∧ p = q := by
    intro a p
    rw [groups]
    by_cases isQ : p = q
    · grind
    · grind [cases Forest, cases Tied]
  refine ⟨forest, ?_, ?_, ?_, ?_, ?_, ?_, ?_⟩
  · grind [cases Forest, cases Tied]
  · grind [cases Forest, cases Tied]
  · grind [List.exists_mem_of_ne_nil, List.ne_nil_of_mem, cases Forest, cases Tied]
  · grind [cases Forest, cases Tied]
  · intro a notIn p nodeA
    rw [List.mem_append, List.mem_singleton, not_or] at notIn
    dsimp only at nodeA ⊢
    rw [others a notIn.2] at nodeA
    have aloneA := h.own a notIn.1 p nodeA
    have notQ : p ≠ q := by
      rintro rfl
      have := (h.members p _ _ present).2 a ((h.group a p).mpr nodeA)
      exact notIn.1 this.1
    have notN : p ≠ n := by
      rintro rfl
      rw [alone] at aloneA
      exact notIn.2 (List.cons.inj aloneA).1.symm
    rw [groups, update_of_ne notQ, update_of_ne notN]
    exact aloneA
  · grind [cases Forest, cases Tied]
  · grind [cases Forest, cases Tied]

end

/-- The unlinking of a lock that is not granted does not touch the trees. -/
theorem extentUnlinkLock_eq (notGranted : id ∉ s.granted) : s.extentUnlinkLock id = .ok s := by
  rw [extentUnlinkLock]
  cases node : (s.locks id).treeNode with
  | none => rfl
  | some n =>
    dsimp only
    rw [h.not_intree notGranted node]
    rfl

theorem resourceUnlinkLock_eq (notGranted : id ∉ s.granted) :
    s.resourceUnlinkLock id = .ok (s.delInit id) := by
  rw [resourceUnlinkLock, h.extentUnlinkLock_eq notGranted]
  rfl

/-- `ldlm_extent_add_lock` of a lock whose extent was fixed passes its assertions. -/
theorem extentAddLock (known : id < s.nextLock) (alive : (s.locks id).destroyed = false)
    (free : s.linked id = false) (mode : (s.locks id).grantedMode = some (s.locks id).reqMode)
    (proper : (s.locks id).extent.start ≤ (s.locks id).extent.stop) :
    Outcome (fun s' => ∃ held', Tied s' held') (fun _ => False) (s.extentAddLock id) := by
  have notGranted : id ∉ s.granted := (not_linked_iff.mp free).1
  obtain ⟨n, node⟩ := Option.ne_none_iff_exists'.mp (h.attached id known alive)
  have out := h.outside notGranted node
  have unset := h.not_intree notGranted node
  have enough : s.nextNode + 1 < s.fuel := by
    rw [fuel]
    omega
  let m := (s.locks id).reqMode
  let e := (s.locks id).extent
  by_cases present : ∃ q, held q = some (m, e)
  · obtain ⟨q, present⟩ := present
    have enough : s.nextNode < s.fuel := by omega
    obtain ⟨t, set, sameRoot, run, forest⟩ := h.forest.insert_present enough out present
    have set : (s.tree m).intervalSet n e.start e.stop = some t := set
    -- the lock gives up its own node and joins the one that was found
    let s₁ := (s.setTree m t).detached id n
    have alone := h.own id notGranted n node
    have detach : (s.setTree m t).intervalDetach id = .ok (s₁, some n) := by
      rw [intervalDetach_eq (s := s.setTree m t) node ((h.group id n).mpr node)]
      change Except.ok (s₁, if (s.liGroup n).filter (· ≠ id) = [] then some n else none) = _
      rw [alone, if_pos (by simp)]
    have empty : s₁.liGroup n = [] := by
      refine (update_self _ _ _).trans ?_
      change (s.liGroup n).filter (· ≠ id) = []
      rw [alone]
      simp
    have free₁ : s₁.intervalFree n = .ok () := by
      rw [intervalFree, if_neg (by simp [empty]), if_neg]
      exact ne_true_of_eq_false (forest.clear n out)
    have noNode : (s₁.locks id).treeNode = none := by
      change ((s.modifyLock id fun l => { l with treeNode := none }).locks id).treeNode = none
      rw [modifyLock_locks, if_pos rfl]
    let s₂ := (s₁.setGroup q (s₁.liGroup q ++ [id])).modifyLock id fun l => { l with treeNode := some q }
    have attach : s₁.intervalAttach q id = .ok s₂ := by
      rw [intervalAttach, noNode]
      rfl
    have here : s₂.locks id = { s.locks id with treeNode := some q } := by
      simp [s₂, s₁, modifyLock, setGroup, detached, setTree]
    have others : ∀ a, a ≠ id → s₂.locks a = s.locks a := by
      intro a different
      simp [s₂, s₁, modifyLock, setGroup, detached, setTree, different]
    have alive₂ : (s₂.locks id).destroyed = false := by
      rw [here]
      exact alive
    have result : s.extentAddLock id = (s₂.addSize m 1).addGranted id := by
      simp only [ExtentRes.extentAddLock, mode, node, unset]
      simp only [ne_eq, not_true_eq_false, if_false, Bool.false_eq_true]
      rw [set]
      dsimp only
      rw [run]
      change (s.setTree m t).intervalDetach id >>= _ = _
      rw [detach]
      change s₁.intervalFree n >>= _ = _
      rw [free₁]
      rw [attach]
      rfl
    rw [result, addGranted_eq (s := s₂.addSize m 1) alive₂ free]
    have isOther : q ≠ n := by
      rintro rfl
      rw [out] at present
      cases present
    refine ⟨held, { h.joinOther notGranted node present here others ?_ ?_ with }⟩
    · change update (update s.liGroup n ((s.liGroup n).filter (· ≠ id))) q
        (update s.liGroup n ((s.liGroup n).filter (· ≠ id)) q ++ [id]) = _
      rw [alone, update_of_ne isOther]
      simp
    · change Forest t.heap (update s.litRoot m t.root) held s.nextNode
      rw [sameRoot, update_eq_self]
      exact forest
  · obtain ⟨t, t', set, run, forest⟩ := h.forest.insert_fresh enough out (h.known id n node) proper
      fun q isHeld => present ⟨q, isHeld⟩
    have set : (s.tree m).intervalSet n e.start e.stop = some t := set
    have result : s.extentAddLock id = ((s.setTree m t').addSize m 1).addGranted id := by
      simp only [ExtentRes.extentAddLock, mode, node, unset]
      simp only [ne_eq, not_true_eq_false, if_false, Bool.false_eq_true]
      rw [set]
      dsimp only
      rw [run]
      rfl
    rw [result, addGranted_eq (s := (s.setTree m t').addSize m 1) alive free]
    exact ⟨_, { h.joinOwn notGranted node forest with }⟩

end

end Tied

end ExtentRes

end Ldlm
