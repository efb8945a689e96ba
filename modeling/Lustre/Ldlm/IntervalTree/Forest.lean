/-
Module: Lustre.Ldlm.IntervalTree.Forest
Purpose: Several interval trees over one heap of numbered nodes, one tree for each mode.
Trusted boundary: none
-/
import Mathlib.Data.List.Range
import Mathlib.Data.List.Nodup
import Mathlib.Data.List.Perm.Subperm
import Lustre.Ldlm.IntervalTree.Insert
import Lustre.Ldlm.IntervalTree.Search

namespace Ldlm

open Function PointerHeap RedBlack List Ldlm.Tree

variable {M : Type}

/-- The trees over a heap hold exactly the nodes, all below `limit`, that `held` gives a mode and an
extent. -/
structure Forest (heap : Nat → Cell Nat NodeData) (root : M → Option Nat)
    (held : Nat → Option (M × Extent)) (limit : Nat) : Prop where
  trees : ∀ m, ∃ t, WellFormed (⟨heap, root m⟩ : Tree Nat) t ∧
    ∀ n e, (n, true, e) ∈ contents t ↔ held n = some (m, e)
  clear : ∀ n, held n = none → (heap n).data.intree = false
  known : ∀ n x, held n = some x → n < limit

theorem Holds.data_eq {P : Type} {heap : P → Cell P NodeData} {t : Shape P NodeData}
    {parent : Option P} (h : Holds heap parent t) {x : P × NodeData} (mem : x ∈ t.items) :
    (heap x.1).data = x.2 := by
  induction t generalizing parent with
  | nil => simp [Shape.items] at mem
  | node p d l r ihl ihr =>
    obtain ⟨here, hl, hr⟩ := h
    simp only [Shape.items, mem_append, mem_cons] at mem
    rcases mem with mem | rfl | mem
    · exact ihl hl mem
    · rw [here]
    · exact ihr hr mem

/-- A tree reads only its own nodes. -/
theorem WellFormed.congr {P : Type} {heap heap' : P → Cell P NodeData} {root : Option P}
    {t : Shape P NodeData} (wf : WellFormed (⟨heap, root⟩ : Tree P) t)
    (same : ∀ p ∈ t.ptrs, heap' p = heap p) : WellFormed (⟨heap', root⟩ : Tree P) t :=
  { wf with represents := ⟨wf.represents.root, wf.represents.holds.congr same, wf.represents.nodup⟩ }

variable {m : M} {n fuel : Nat} {e : Extent}

namespace Forest

variable {heap : Nat → Cell Nat NodeData} {root : M → Option Nat}
  {held : Nat → Option (M × Extent)} {limit : Nat}

section

variable (h : Forest heap root held limit)

include h

/-- A tree of the forest with its nodes and its size. -/
theorem tree (m : M) :
    ∃ t, WellFormed (⟨heap, root m⟩ : Tree Nat) t ∧
      (∀ x, x ∈ contents t ↔ x.2.1 = true ∧ held x.1 = some (m, x.2.2)) ∧
      (∀ n, n ∈ t.ptrs ↔ ∃ e, held n = some (m, e)) ∧ t.ptrs.length ≤ limit := by
  obtain ⟨t, wf, mem⟩ := h.trees m
  have mem' : ∀ x, x ∈ contents t ↔ x.2.1 = true ∧ held x.1 = some (m, x.2.2) := by
    grind [cases Forest, cases WellFormed]
  have ptrs : ∀ n, n ∈ t.ptrs ↔ ∃ e, held n = some (m, e) := by simp_all [ptrs_eq_contents, mem_map]
  refine ⟨t, wf, mem', ptrs, ?_⟩
  have inRange : t.ptrs ⊆ range limit := by
    intro n inTree
    obtain ⟨e, isHeld⟩ := (ptrs n).mp inTree
    exact mem_range.mpr (h.known n _ isHeld)
  simpa using (subperm_of_subset wf.represents.nodup inRange).length_le

/-- A node of a tree carries the flag and its extent. -/
theorem data (isHeld : held n = some (m, e)) : (heap n).data.intree = true ∧ e.start ≤ e.stop := by
  obtain ⟨t, wf, mem, _⟩ := h.tree m
  have inTree : (n, true, e) ∈ contents t := (mem _).mpr ⟨rfl, isHeld⟩
  refine ⟨?_, wf.proper _ inTree⟩
  obtain ⟨⟨p, d⟩, item, same⟩ := mem_map.mp inTree
  obtain ⟨rfl, isIn, _⟩ : p = n ∧ d.intree = true ∧ d.extent = e := by simpa using same
  rw [Holds.data_eq wf.represents.holds item]
  exact isIn

/-- The flag tells whether a node is in a tree. -/
theorem intree_iff : (heap n).data.intree = true ↔ ∃ x, held n = some x := by
  constructor
  · intro isIn
    by_contra absent
    have out : held n = none := Option.eq_none_iff_forall_ne_some.mpr fun x isHeld =>
      absent ⟨x, isHeld⟩
    rw [h.clear n out] at isIn
    cases isIn
  · rintro ⟨x, isHeld⟩
    exact (h.data isHeld).1

theorem root_held {r : Nat} (isRoot : root m = some r) : ∃ e, held r = some (m, e) := by
  obtain ⟨t, wf, _, ptrs, _⟩ := h.tree m
  have link : root m = t.ptr? := wf.represents.root
  exact (ptrs r).mp (Shape.mem_ptrs_of_ptr? (link.symm.trans isRoot))

theorem root_of_held (isHeld : held n = some (m, e)) : root m ≠ none := by
  obtain ⟨t, wf, _, ptrs, _⟩ := h.tree m
  have link : root m = t.ptr? := wf.represents.root
  intro empty
  have isNil := Shape.ptr?_eq_none.mp (link.symm.trans empty)
  have inTree := (ptrs n).mpr ⟨e, isHeld⟩
  simp [isNil] at inTree

theorem writeOutside (out : held n = none) {heap' : Nat → Cell Nat NodeData}
    (same : ∀ p, p ≠ n → heap' p = heap p) (unset : (heap' n).data.intree = false) :
    Forest heap' root held limit where
  trees m := by
    obtain ⟨t, wf, mem, ptrs, _⟩ := h.tree m
    refine ⟨t, wf.congr fun p inTree => same p ?_, fun p e => by rw [mem]; simp⟩
    rintro rfl
    obtain ⟨e, isHeld⟩ := (ptrs p).mp inTree
    rw [out] at isHeld
    cases isHeld
  clear p notHeld := by
    by_cases isNode : p = n
    · rw [isNode, unset]
    · rw [same p isNode]
      exact h.clear p notHeld
  known := h.known

/-- One tree is replaced by another one; its new nodes come from outside the trees. -/
theorem replace [DecidableEq M] {s' : Tree Nat} {t' : Shape Nat NodeData} (ps : List Nat)
    {held' : Nat → Option (M × Extent)} (wf' : WellFormed s' t')
    (mem' : ∀ n e, (n, true, e) ∈ contents t' ↔ held' n = some (m, e))
    (outside : ∀ n, n ∉ ps → s'.heap n = heap n)
    (others : ∀ n m' e, m' ≠ m → (held' n = some (m', e) ↔ held n = some (m', e)))
    (apart : ∀ n m' e, m' ≠ m → held n = some (m', e) → n ∉ ps)
    (clear : ∀ n, held' n = none → (s'.heap n).data.intree = false)
    (known : ∀ n x, held' n = some x → n < limit) :
    Forest s'.heap (update root m s'.root) held' limit where
  trees m' := by
    by_cases same : m' = m
    · subst same
      rw [update_self]
      exact ⟨t', wf', mem'⟩
    · obtain ⟨t₁, wf, mem, ptrs, _⟩ := h.tree m'
      rw [update_of_ne same]
      refine ⟨t₁, wf.congr fun p inTree => ?_, fun n e => ?_⟩
      · obtain ⟨e, isHeld⟩ := (ptrs p).mp inTree
        exact outside p (apart p m' e same isHeld)
      · rw [others n m' e same, mem]
        simp
  clear := clear
  known := known

/-- `interval_set` writes a node outside the trees. -/
theorem prepared (m : M) (out : held n = none) (proper : e.start ≤ e.stop) :
    ∃ s, intervalSet ⟨heap, root m⟩ n e.start e.stop = some s ∧ s.root = root m ∧
      (s.node n).intree = false ∧ (s.node n).extent = e ∧ (s.node n).maxHigh = e.stop ∧
      Forest s.heap root held limit := by
  let f : NodeData → NodeData := fun d => { d with extent := e, maxHigh := e.stop }
  let s : Tree Nat := Store.modifyData ⟨heap, root m⟩ n f
  have here : s.node n = f (heap n).data := by
    rw [Tree.node, Store.modifyData_heap, if_pos rfl]
  have unset : (s.node n).intree = false := by
    rw [here]
    exact h.clear n out
  refine ⟨s, by rw [intervalSet, if_pos proper], rfl, unset, by rw [here], by rw [here], ?_⟩
  refine h.writeOutside out (fun p different => ?_) unset
  rw [Store.modifyData_heap, if_neg different]

/-- Inserting an extent that is held finds its node. -/
theorem insert_present {q : Nat} (enough : limit < fuel) (out : held n = none)
    (present : held q = some (m, e)) :
    ∃ s, intervalSet ⟨heap, root m⟩ n e.start e.stop = some s ∧ s.root = root m ∧
      intervalInsert fuel s n = some (s, some q) ∧ Forest s.heap root held limit := by
  obtain ⟨s, set, sameRoot, unset, here, _, h'⟩ := h.prepared m out (h.data present).2
  obtain ⟨t, wf, mem, _, size⟩ := h'.tree m
  have wf : WellFormed s t := by rwa [← sameRoot] at wf
  have inTree : (_, true, e) ∈ contents t := (mem _).mpr ⟨rfl, present⟩
  exact ⟨s, set, sameRoot, intervalInsert_present wf (by omega) unset here inTree, h'⟩

/-- Inserting a new extent adds a node to its tree. -/
theorem insert_fresh [DecidableEq M] (enough : limit + 1 < fuel) (out : held n = none)
    (inRange : n < limit) (proper : e.start ≤ e.stop) (absent : ∀ q, held q ≠ some (m, e)) :
    ∃ s s', intervalSet ⟨heap, root m⟩ n e.start e.stop = some s ∧
      intervalInsert fuel s n = some (s', none) ∧
      Forest s'.heap (update root m s'.root) (update held n (some (m, e))) limit := by
  obtain ⟨s, set, sameRoot, unset, here, high, h'⟩ := h.prepared m out proper
  obtain ⟨t, wf, mem, ptrs, size⟩ := h'.tree m
  have wf : WellFormed s t := by rwa [← sameRoot] at wf
  have fresh : n ∉ t.ptrs := by grind
  have enough : t.ptrs.length + 1 < fuel := by omega
  obtain ⟨s', t', run, wf', perm, outside⟩ := intervalInsert_fresh (e := e) wf enough fresh unset
    here high proper fun x inTree same => absent x.1 (same ▸ ((mem x).mp inTree).2)
  have mem' : ∀ p f, (p, true, f) ∈ contents t' ↔
      update held n (some (m, e)) p = some (m, f) := by
    intro p f
    rw [perm.mem_iff, mem_cons, mem]
    by_cases isNode : p = n
    · subst isNode
      simp [out, eq_comm]
    · simp [isNode]
  have apart : ∀ p m' f, m' ≠ m → held p = some (m', f) → p ∉ n :: t.ptrs := by grind
  refine ⟨s, s', set, run, h'.replace (n :: t.ptrs) wf' mem' outside ?_ apart ?_ ?_⟩
  · grind
  · intro p notHeld
    have different : p ≠ n := by
      rintro rfl
      simp at notHeld
    rw [update_of_ne different] at notHeld
    have notIn : p ∉ n :: t.ptrs := by simp_all [mem_cons]
    rw [outside p notIn]
    exact h'.clear p notHeld
  · grind [cases Forest, cases WellFormed]

theorem erase [DecidableEq M] (enough : limit < fuel) (isHeld : held n = some (m, e)) :
    ∃ s', intervalErase fuel ⟨heap, root m⟩ n = some s' ∧
      Forest s'.heap (update root m s'.root) (update held n none) limit ∧
      (s'.heap n).data.intree = false := by
  obtain ⟨t, wf, mem, ptrs, size⟩ := h.tree m
  have enough : t.ptrs.length < fuel := by omega
  obtain ⟨s', t', run, wf', left, outside, unset⟩ :=
    intervalErase_wellFormed wf enough ((ptrs n).mpr ⟨e, isHeld⟩)
  have mem' : ∀ p f, (p, true, f) ∈ contents t' ↔ update held n none p = some (m, f) := by grind
  have apart : ∀ p m' f, m' ≠ m → held p = some (m', f) → p ∉ t.ptrs := by simp_all
  refine ⟨s', run, h.replace t.ptrs wf' mem' outside ?_ apart ?_ ?_, unset⟩
  · grind
  · intro p notHeld
    by_cases isNode : p = n
    · rw [isNode]
      exact unset
    · rw [update_of_ne isNode] at notHeld
      have notIn : p ∉ t.ptrs := by grind
      rw [outside p notIn]
      exact h.clear p notHeld
  · grind [cases Forest]

end

section Queries

variable {fuel : Nat} {β : Type}

section

variable (h : Forest heap root held limit) (enough : 2 * limit < fuel)

include h enough

/-- A search visits the nodes of the tree whose extents overlap the given one. -/
theorem search (m : M) (ext : Extent) (func : Nat → β → Tree.Iter × β) (data : β) :
    ∃ ps, intervalSearch fuel ⟨heap, root m⟩ (root m) ext func data = some (visit func ps data) ∧
      ∀ n, n ∈ ps ↔ ∃ e, held n = some (m, e) ∧ extentOverlapped ext e = true := by
  obtain ⟨t, wf, mem, _, size⟩ := h.tree m
  have enough : 2 * t.ptrs.length < fuel := by omega
  refine ⟨hits ext t, intervalSearch_eq wf enough ext func data, fun n => ?_⟩
  rw [mem_hits]
  constructor
  · rintro ⟨x, inTree, rfl, overlap⟩
    exact ⟨x.2.2, ((mem x).mp inTree).2, overlap⟩
  · simp_all

theorem iterateAll (m : M) (func : Nat → β → Tree.Iter × β) (data : β) :
    ∃ ps, intervalIterateAll fuel ⟨heap, root m⟩ (root m) func data =
        some (visit func ps data) ∧ ∀ n, n ∈ ps ↔ ∃ e, held n = some (m, e) := by
  obtain ⟨t, wf, _, ptrs, size⟩ := h.tree m
  have enough : 2 * t.ptrs.length < fuel := by omega
  exact ⟨t.ptrs, intervalIterateAll_eq wf enough func data, ptrs⟩

theorem isOverlapped (m : M) (ext : Extent) :
    ∃ b, intervalIsOverlapped fuel ⟨heap, root m⟩ (root m) ext = some b ∧
      (b = true ↔ ∃ n e, held n = some (m, e) ∧ extentOverlapped ext e = true) := by
  obtain ⟨t, wf, mem, _, size⟩ := h.tree m
  have enough : 2 * t.ptrs.length < fuel := by omega
  refine ⟨_, intervalIsOverlapped_eq wf enough ext, ?_⟩
  rw [any_eq_true]
  constructor
  · rintro ⟨x, inTree, overlap⟩
    exact ⟨x.1, x.2.2, ((mem x).mp inTree).2, overlap⟩
  · simp_all

/-- An extent clear of a tree is expanded to one that is clear of it too. -/
theorem expand {ext : Extent} (limiter : Extent) (bounded : ext.stop ≤ maxU64)
    (starts : ∀ n e, held n = some (m, e) → e.start ≤ maxU64)
    (clear : ∀ n e, held n = some (m, e) → extentOverlapped ext e = false) :
    ∃ ext', intervalExpand fuel ⟨heap, root m⟩ (root m) ext (some limiter) = some ext' ∧
      ext'.start ≤ ext.start ∧ ext.stop ≤ ext'.stop ∧ ext'.stop ≤ maxU64 ∧
      ∀ n e, held n = some (m, e) → extentOverlapped ext' e = false := by
  obtain ⟨t, wf, mem, _, size⟩ := h.tree m
  have enough : 2 * t.ptrs.length < fuel := by omega
  obtain ⟨ext', run, low, expanded, free⟩ := intervalExpand_clear wf enough (some limiter) bounded
    (fun x inTree => starts x.1 x.2.2 ((mem x).mp inTree).2)
    (fun x inTree => clear x.1 x.2.2 ((mem x).mp inTree).2)
  refine ⟨ext', run, low, expanded.above, expanded.word, fun n e isHeld => ?_⟩
  exact free (n, true, e) ((mem _).mpr ⟨rfl, isHeld⟩)

end

end Queries

end Forest

end Ldlm
