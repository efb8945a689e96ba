/-
Module: Lustre.Ldlm.IntervalTree.Calls
Purpose: What every sequence of `interval_insert` and `interval_erase` calls keeps, and what
  searches and `interval_expand` then return.
Trusted boundary: none
-/
import Lustre.Lib.Run
import Lustre.Ldlm.IntervalTree.Insert
import Lustre.Ldlm.IntervalTree.Search

namespace Ldlm

open PointerHeap RedBlack List

variable {P : Type} [DecidableEq P]

/-- A call on the tree; a node gets its extent by `interval_set` right before it is inserted. -/
inductive Call (P : Type) where
  | insert (node : P) (start stop : Nat)
  | erase (node : P)
deriving DecidableEq, Repr

/-- The tree together with the nodes that were inserted and not erased. -/
structure TreeState (P : Type) where
  tree : Tree P
  held : List (P × Extent)

/-- What a call does to the nodes that are held: an extent is held at most once. -/
def Call.apply (held : List (P × Extent)) : Call P → List (P × Extent)
  | .insert node start stop =>
    if held.any (fun x => x.2 = ⟨start, stop⟩) then held else (node, ⟨start, stop⟩) :: held
  | .erase node => held.filter fun x => x.1 ≠ node

/-- The callers' obligation: `start ≤ end`, and a node is inserted only when not in the tree and erased
only when it is. -/
def Call.Allowed (x : TreeState P) : Call P → Prop
  | .insert node start stop => start ≤ stop ∧ node ∉ x.held.map Prod.fst
  | .erase node => node ∈ x.held.map Prod.fst

/-- The tree after a call. -/
def Call.exec (fuel : Nat) (s : Tree P) : Call P → Option (Tree P)
  | .insert node start stop => do
      let s ← s.intervalSet node start stop
      let (s, _) ← s.intervalInsert fuel node
      some s
  | .erase node => s.intervalErase fuel node

/-- One call, with more fuel than nodes; a failed assertion, a null dereference and missing fuel end the
run. -/
def TreeState.step (slack : Nat) (x : TreeState P) (c : Call P) : Except Unit (TreeState P) :=
  match c.exec (x.held.length + 2 + slack) x.tree with
  | some s => .ok ⟨s, c.apply x.held⟩
  | none => .error ()

theorem TreeState.step_held {slack : Nat} {x x' : TreeState P} {c : Call P}
    (h : TreeState.step slack x c = .ok x') : x'.held = c.apply x.held := by
  rw [TreeState.step] at h
  split at h
  · cases h
    rfl
  · cases h

/-- The nodes of a shape with their extents. -/
def extents (t : Shape P NodeData) : List (P × Extent) :=
  (contents t).map fun x => (x.1, x.2.2)

/-- Between calls the tree is well formed, holds what they left in it, and only its nodes carry the flag. -/
structure Good (x : TreeState P) (t : Shape P NodeData) : Prop where
  wellFormed : WellFormed x.tree t
  holds : (extents t).Perm x.held
  clear : ∀ p, p ∉ t.ptrs → (Tree.node x.tree p).intree = false

variable {node : P} {start stop fuel : Nat}

namespace Good

variable {x : TreeState P} {t : Shape P NodeData}

omit [DecidableEq P] in
theorem extents_fst (t : Shape P NodeData) : (extents t).map Prod.fst = t.ptrs := by
  rw [ptrs_eq_contents, extents, map_map]
  rfl

section

variable (good : Good x t)

include good

omit [DecidableEq P] in
theorem mem_ptrs {p : P} : p ∈ t.ptrs ↔ p ∈ x.held.map Prod.fst := by
  rw [← extents_fst, (good.holds.map Prod.fst).mem_iff]

omit [DecidableEq P] in
theorem size : t.ptrs.length = x.held.length := by
  rw [← extents_fst, length_map, good.holds.length_eq]

/-- Setting the extent of a node outside the tree changes only that node. -/
theorem intervalSet (proper : start ≤ stop) (out : node ∉ t.ptrs) :
    ∃ s, Tree.intervalSet x.tree node start stop = some s ∧ Good ⟨s, x.held⟩ t ∧
      (Tree.node s node).extent = ⟨start, stop⟩ ∧ (Tree.node s node).maxHigh = stop := by
  let f : NodeData → NodeData := fun d => { d with extent := ⟨start, stop⟩, maxHigh := stop }
  have same : ∀ p, p ≠ node → (x.tree.modifyData node f).heap p = x.tree.heap p := by
    intro p different
    rw [Store.modifyData_heap, if_neg different]
  have rep : Represents (x.tree.modifyData node f) t := by
    have := good.wellFormed.represents.modifyData node f
    rwa [Shape.modify_of_not_mem out] at this
  have here : Tree.node (x.tree.modifyData node f) node = f (Tree.node x.tree node) := by
    rw [Tree.node, Store.modifyData_heap, if_pos rfl]
    rfl
  refine ⟨x.tree.modifyData node f, by rw [Tree.intervalSet, if_pos proper],
    ⟨{ good.wellFormed with represents := rep }, good.holds, fun p notIn => ?_⟩, ?_, ?_⟩
  · by_cases isNode : p = node
    · rw [isNode, here]
      exact good.clear node out
    · rw [Tree.node, same p isNode]
      exact good.clear p notIn
  · rw [here]
  · rw [here]

/-- An allowed insertion of an extent that is held. -/
theorem insert_present {q : P} (enough : x.held.length < fuel)
    (proper : start ≤ stop) (out : node ∉ t.ptrs) (mem : (q, ⟨start, stop⟩) ∈ x.held) :
    ∃ s, Tree.intervalSet x.tree node start stop = some s ∧
      Tree.intervalInsert fuel s node = some (s, some q) ∧ Good ⟨s, x.held⟩ t := by
  obtain ⟨s, set, good₁, ext, _⟩ := good.intervalSet proper out
  have inTree : (q, ⟨start, stop⟩) ∈ extents t := good.holds.mem_iff.mpr mem
  obtain ⟨⟨q', b, e⟩, mem', same⟩ := mem_map.mp inTree
  obtain ⟨rfl, rfl⟩ : q' = q ∧ e = ⟨start, stop⟩ := by simpa using same
  have enough : t.ptrs.length < fuel := by rwa [good.size]
  exact ⟨s, set, intervalInsert_present good₁.wellFormed enough (good₁.clear node out) ext mem',
    good₁⟩

/-- An allowed insertion of an extent that is not held. -/
theorem insert_fresh (enough : x.held.length + 1 < fuel) (proper : start ≤ stop)
    (out : node ∉ t.ptrs) (absent : ∀ y ∈ x.held, y.2 ≠ ⟨start, stop⟩) :
    ∃ s s' t', Tree.intervalSet x.tree node start stop = some s ∧
      Tree.intervalInsert fuel s node = some (s', none) ∧
      Good ⟨s', (node, ⟨start, stop⟩) :: x.held⟩ t' := by
  obtain ⟨s, set, good₁, ext, ownMax⟩ := good.intervalSet proper out
  have enough : t.ptrs.length + 1 < fuel := by rwa [good.size]
  have absentTree : ∀ y ∈ contents t, y.2.2 ≠ ⟨start, stop⟩ := by
    intro y mem
    exact absent (y.1, y.2.2) (good.holds.mem_iff.mp (mem_map_of_mem mem))
  obtain ⟨s', t', run, wf, perm, outside⟩ := intervalInsert_fresh good₁.wellFormed enough out
    (good₁.clear node out) ext ownMax proper absentTree
  have ptrs' : t'.ptrs.Perm (node :: t.ptrs) := by
    rw [ptrs_eq_contents, ptrs_eq_contents]
    exact perm.map Prod.fst
  refine ⟨s, s', t', set, run, wf, ?_, fun p notIn => ?_⟩
  · grind [extents, cases Good]
  · have notIn : p ∉ node :: t.ptrs := fun mem => notIn (ptrs'.mem_iff.mpr mem)
    rw [Tree.node, outside p notIn]
    exact good₁.clear p fun mem => notIn (mem_cons_of_mem _ mem)

theorem erase (enough : x.held.length < fuel) (mem : node ∈ t.ptrs) :
    ∃ s' t', Tree.intervalErase fuel x.tree node = some s' ∧
      Good ⟨s', x.held.filter fun y => y.1 ≠ node⟩ t' := by
  have enough : t.ptrs.length < fuel := by rwa [good.size]
  obtain ⟨s', t', run, wf, left, outside, cleared⟩ :=
    intervalErase_wellFormed good.wellFormed enough mem
  have extents' : extents t' = (extents t).filter fun y => y.1 ≠ node := by
    rw [extents, left, extents, filter_map]
    rfl
  refine ⟨s', t', run, wf, ?_, fun p notIn => ?_⟩
  · rw [extents']
    exact good.holds.filter _
  · by_cases isNode : p = node
    · rw [isNode]
      exact cleared
    · have notBefore : p ∉ t.ptrs := by
        intro inTree
        refine notIn ?_
        rw [← extents_fst, extents', mem_map]
        obtain ⟨y, hy, same⟩ := mem_map.mp ((extents_fst t).symm ▸ inTree)
        refine ⟨y, mem_filter.mpr ⟨hy, ?_⟩, same⟩
        simpa [same] using isNode
      rw [Tree.node, outside p notBefore]
      exact good.clear p notBefore

theorem step (slack : Nat) {c : Call P} (allowed : c.Allowed x) :
    ∃ x', TreeState.step slack x c = .ok x' ∧ ∃ t', Good x' t' := by
  have enough : x.held.length + 1 < x.held.length + 2 + slack := by omega
  have enough' : x.held.length < x.held.length + 2 + slack := by omega
  cases c with
  | erase node =>
    obtain ⟨s', t', run, good'⟩ := good.erase enough' (good.mem_ptrs.mpr allowed)
    refine ⟨_, ?_, t', good'⟩
    simp only [TreeState.step, Call.exec, run, Call.apply]
  | insert node start stop =>
    obtain ⟨proper, out⟩ := allowed
    have out : node ∉ t.ptrs := fun mem => out (good.mem_ptrs.mp mem)
    by_cases present : ∃ y ∈ x.held, y.2 = ⟨start, stop⟩
    · obtain ⟨⟨q, e⟩, mem, rfl⟩ := present
      obtain ⟨s, set, run, good'⟩ := good.insert_present enough' proper out mem
      have kept : x.held.any (fun y => y.2 = ⟨start, stop⟩) = true := by
        rw [any_eq_true]
        exact ⟨_, mem, by simp⟩
      refine ⟨⟨s, x.held⟩, ?_, t, good'⟩
      simp only [TreeState.step, Call.exec, set, Option.bind_eq_bind, Option.bind_some, run,
        Call.apply, kept, if_true]
    · have absent : ∀ y ∈ x.held, y.2 ≠ ⟨start, stop⟩ := fun y mem same => present ⟨y, mem, same⟩
      obtain ⟨s, s', t', set, run, good'⟩ := good.insert_fresh enough proper out absent
      have added : x.held.any (fun y => y.2 = ⟨start, stop⟩) = false := by
        rw [any_eq_false]
        intro y mem
        simpa using absent y mem
      refine ⟨⟨s', (node, ⟨start, stop⟩) :: x.held⟩, ?_, t', good'⟩
      simp [TreeState.step, Call.exec, set, run, Call.apply, added]

end

end Good

/-- The empty tree over nodes that are in no tree. -/
def TreeState.empty (heap : P → Cell P NodeData) : TreeState P := ⟨⟨heap, none⟩, []⟩

omit [DecidableEq P] in
theorem TreeState.empty_good {heap : P → Cell P NodeData}
    (clear : ∀ p, (heap p).data.intree = false) : Good (TreeState.empty heap) .nil where
  wellFormed :=
    { represents := ⟨rfl, trivial, nodup_nil⟩
      ordered := .nil
      balanced := ⟨0, .nil⟩
      maxExact := trivial
      proper := by simp
      intree := by simp }
  holds := .nil
  clear := fun p _ => clear p

/-- Allowed calls from the empty tree do not fail. -/
theorem run_good {heap : P → Cell P NodeData} (clear : ∀ p, (heap p).data.intree = false)
    (slack : Nat) {calls : List (Call P)}
    (allowed : Run.Meets (TreeState.step slack) (fun x c => c.Allowed x)
      (TreeState.empty heap) calls) :
    ∃ x, Run.run (TreeState.step slack) (TreeState.empty heap) calls = .ok x ∧ ∃ t, Good x t := by
  refine Run.run_ok ?_ ⟨.nil, TreeState.empty_good clear⟩ allowed
  rintro x c ⟨t, good⟩ allowed
  exact good.step slack allowed

/-- After every sequence of allowed calls none has failed, the tree is well formed and holds the
nodes inserted and not erased; inserting an extent that is held returns its node and writes nothing. -/
theorem interval_tree_invariant {heap : P → Cell P NodeData}
    (clear : ∀ p, (heap p).data.intree = false) (slack : Nat) (calls : List (Call P))
    (allowed : Run.Meets (TreeState.step slack) (fun x c => c.Allowed x)
      (TreeState.empty heap) calls) :
    ∃ x t, Run.run (TreeState.step slack) (TreeState.empty heap) calls = .ok x ∧
      WellFormed x.tree t ∧ (extents t).Perm x.held ∧
      ∀ node q start stop, (Call.insert node start stop).Allowed x →
        (q, ⟨start, stop⟩) ∈ x.held →
        ∃ s, Tree.intervalSet x.tree node start stop = some s ∧
          Tree.intervalInsert (x.held.length + 2 + slack) s node = some (s, some q) ∧
          WellFormed s t := by
  obtain ⟨x, run, t, good⟩ := run_good clear slack allowed
  refine ⟨x, t, run, good.wellFormed, good.holds, ?_⟩
  intro node q start stop ⟨proper, out⟩ mem
  have out : node ∉ t.ptrs := fun inTree => out (good.mem_ptrs.mp inTree)
  have enough : x.held.length < x.held.length + 2 + slack := by omega
  obtain ⟨s, set, again, good'⟩ := good.insert_present enough proper out mem
  exact ⟨s, set, again, good'.wellFormed⟩

/-- Nodes that are in no tree. -/
def freeNodes (_ : Nat) : Cell Nat NodeData := ⟨none, none, none, ⟨.black, false, 0, ⟨0, 0⟩⟩⟩

/-- Two insertions, one of an extent that is present, and a deletion. -/
def mixedCalls : List (Call Nat) := [.insert 0 3 9, .insert 1 0 5, .insert 2 3 9, .erase 0]

theorem mixedCalls_allowed :
    Run.Meets (TreeState.step 0) (fun x c => c.Allowed x) (TreeState.empty freeNodes) mixedCalls := by
  refine ⟨⟨by decide, by decide⟩, fun x₁ taken₁ => ?_⟩
  have held₁ : x₁.held = [(0, ⟨3, 9⟩)] := TreeState.step_held taken₁
  refine ⟨⟨by decide, by rw [held₁]; decide⟩, fun x₂ taken₂ => ?_⟩
  have held₂ : x₂.held = [(1, ⟨0, 5⟩), (0, ⟨3, 9⟩)] := by
    rw [TreeState.step_held taken₂, held₁]
    rfl
  refine ⟨⟨by decide, by rw [held₂]; decide⟩, fun x₃ taken₃ => ?_⟩
  have held₃ : x₃.held = [(1, ⟨0, 5⟩), (0, ⟨3, 9⟩)] := by
    rw [TreeState.step_held taken₃, held₂]
    rfl
  have present : 0 ∈ x₃.held.map Prod.fst := by
    rw [held₃]
    decide
  exact ⟨present, fun _ _ => trivial⟩

theorem interval_tree_invariant_run :
    ∃ x t, Run.run (TreeState.step 0) (TreeState.empty freeNodes) mixedCalls = .ok x ∧
      WellFormed x.tree t ∧ (extents t).Perm x.held ∧
      ∀ node q start stop, (Call.insert node start stop).Allowed x →
        (q, ⟨start, stop⟩) ∈ x.held →
        ∃ s, Tree.intervalSet x.tree node start stop = some s ∧
          Tree.intervalInsert (x.held.length + 2 + 0) s node = some (s, some q) ∧
          WellFormed s t :=
  interval_tree_invariant (fun _ => rfl) 0 _ mixedCalls_allowed

/-- After every sequence of allowed calls no way down is longer than twice the logarithm of the number of
nodes. -/
theorem interval_tree_height {heap : P → Cell P NodeData}
    (clear : ∀ p, (heap p).data.intree = false) (slack : Nat) (calls : List (Call P))
    (allowed : Run.Meets (TreeState.step slack) (fun x c => c.Allowed x)
      (TreeState.empty heap) calls) :
    ∃ x t, Run.run (TreeState.step slack) (TreeState.empty heap) calls = .ok x ∧
      Represents x.tree t ∧ height t ≤ 2 * (x.held.length + 1).log2 := by
  obtain ⟨x, run, t, good⟩ := run_good clear slack allowed
  obtain ⟨k, balanced⟩ := good.wellFormed.balanced
  obtain ⟨size, high⟩ := balanced.bounds
  rw [good.size, ← Nat.le_log2 (Nat.add_one_ne_zero _)] at size
  simp only [reduceCtorEq, if_false] at high
  exact ⟨x, t, run, good.wellFormed.represents, by omega⟩

theorem interval_tree_height_run :
    ∃ x t, Run.run (TreeState.step 0) (TreeState.empty freeNodes) mixedCalls = .ok x ∧
      Represents x.tree t ∧ height t ≤ 2 * (x.held.length + 1).log2 :=
  interval_tree_height (fun _ => rfl) 0 _ mixedCalls_allowed

open PointerHeap.Shape

variable {P β : Type}

theorem hits_subset {ext : Extent} {t : Shape P NodeData} {p : P} (mem : p ∈ hits ext t) :
    p ∈ t.ptrs := by
  obtain ⟨x, inTree, rfl, _⟩ := mem_hits.mp mem
  rw [ptrs_eq_contents]
  exact mem_map_of_mem inTree

theorem hits_nodup {ext : Extent} {t : Shape P NodeData} (nodup : t.ptrs.Nodup) :
    (hits ext t).Nodup := by
  induction t with
  | nil => exact nodup_nil
  | node p d l r ihl ihr =>
    rw [ptrs_node] at nodup
    obtain ⟨left, rest, apart⟩ := nodup_append.mp nodup
    obtain ⟨notRight, right⟩ := nodup_cons.mp rest
    have below : (hits ext l ++ hits ext r).Nodup := by
      refine nodup_append.mpr ⟨ihl left, ihr right, fun a inLeft b inRight => ?_⟩
      exact apart a (hits_subset inLeft) b (mem_cons_of_mem _ (hits_subset inRight))
    rw [hits]
    split
    · grind [singleton_append, nodup_cons, hits_subset, mem_cons_self]
    · exact below

/-- The callback with a note of the nodes it is called on. -/
def logged (func : P → β → Tree.Iter × β) (p : P) (data : β × List P) : Tree.Iter × (β × List P) :=
  let (rc, after) := func p data.1
  (rc, after, data.2 ++ [p])

/-- What calls in turn leave: all went on, or the last one made is the first that stopped. -/
inductive Visited (func : P → β → Tree.Iter × β) (data : β) (ps : List P) :
    Tree.Iter → β → List P → Prop where
  | all {after : β} (none : visit func ps data = (.cont, after)) : Visited func data ps .cont after ps
  | stopped {before : List P} {p : P} {later : List P} {middle after : β}
      (order : ps = before ++ p :: later) (went : visit func before data = (.cont, middle))
      (stop : func p middle = (.stop, after)) :
      Visited func data ps .stop after (before ++ [p])

theorem visit_logged (func : P → β → Tree.Iter × β) (ps : List P) :
    ∀ (data : β) (done : List P), ∃ rc after calls,
      visit (logged func) ps (data, done) = (rc, after, done ++ calls) ∧
        Visited func data ps rc after calls := by
  induction ps with
  | nil =>
    intro data done
    exact ⟨.cont, data, [], by rw [append_nil]; rfl, .all rfl⟩
  | cons p ps ih =>
    intro data done
    cases called : func p data with
    | mk rc after =>
      cases rc with
      | stop =>
        have visited : Visited func data (p :: ps) .stop after ([] ++ [p]) :=
          .stopped rfl rfl called
        refine ⟨.stop, after, [p], ?_, visited⟩
        simp only [visit, logged, called]
      | cont =>
        obtain ⟨rc, last, calls, run, visited⟩ := ih after (done ++ [p])
        refine ⟨rc, last, p :: calls, ?_, ?_⟩
        · simp only [visit, logged, called]
          rw [run, append_assoc]
          rfl
        · cases visited with
          | all none =>
            refine .all ?_
            simp only [visit, called]
            exact none
          | @stopped before q later middle _ order went stop =>
            have longer : visit func (p :: before) data = (.cont, middle) := by
              simp only [visit, called]
              exact went
            have order : p :: ps = (p :: before) ++ q :: later := by rw [order]; rfl
            exact .stopped order longer stop

variable {func : P → β → Tree.Iter × β} {data after : β} {ps calls : List P} {rc : Tree.Iter}

/-- The calls are the first ones of the order. -/
theorem Visited.front (visited : Visited func data ps rc after calls) : calls <+: ps := by
  cases visited with
  | all none => exact prefix_rfl
  | stopped order went stop => exact ⟨_, by rw [order, append_assoc]; rfl⟩

/-- A callback that never stops is called on every node. -/
theorem Visited.all_of_cont (visited : Visited func data ps rc after calls)
    (goes : ∀ p data, (func p data).1 = .cont) : rc = .cont ∧ calls = ps := by
  cases visited with
  | all none => exact ⟨rfl, rfl⟩
  | @stopped _ p _ middle _ order went stop =>
    have cont := goes p middle
    rw [stop] at cont
    cases cont

section SearchCalls

variable [DecidableEq P]

/-- What `interval_search` does for an extent: `ps` are the nodes it can visit, in order. -/
structure SearchCalls (fuel : Nat) (s : Tree P) (t : Shape P NodeData) (ext : Extent) (ps : List P) :
    Prop where
  once : ps.Nodup
  overlapping : ∀ p, p ∈ ps ↔ ∃ x ∈ contents t, x.1 = p ∧ extentOverlapped ext x.2.2 = true
  goesOn : ∀ {β : Type} (func : P → β → Tree.Iter × β) (data : β),
    (∀ p data, (func p data).1 = .cont) →
      ∃ after, Tree.intervalSearch fuel s s.root ext (logged func) (data, []) =
        some (.cont, after, ps)
  stops : ∀ {β : Type} (func : P → β → Tree.Iter × β) (data : β), ∃ rc after calls,
    Tree.intervalSearch fuel s s.root ext (logged func) (data, []) = some (rc, after, calls) ∧
      calls <+: ps ∧ Visited func data ps rc after calls
  isOverlapped : ∃ has, Tree.intervalIsOverlapped fuel s s.root ext = some has ∧
    (has = true ↔ ∃ x ∈ contents t, extentOverlapped ext x.2.2 = true)

/-- The search calls back once on each node that overlaps the extent and on no other, up to the first
call that stops it; so `interval_is_overlapped` finds whether there is one. -/
theorem interval_search_calls {s : Tree P} {t : Shape P NodeData} (wf : WellFormed s t)
    (ext : Extent) : ∃ ps, ∀ fuel, 2 * t.ptrs.length < fuel → SearchCalls fuel s t ext ps := by
  refine ⟨hits ext t, fun fuel enough => ?_⟩
  have called {β : Type} (func : P → β → Tree.Iter × β) (data : β) : ∃ rc after calls,
      Tree.intervalSearch fuel s s.root ext (logged func) (data, []) = some (rc, after, calls) ∧
        Visited func data (hits ext t) rc after calls := by
    obtain ⟨rc, after, calls, run, visited⟩ := visit_logged func (hits ext t) data []
    exact ⟨rc, after, calls, by rw [intervalSearch_eq wf enough, run, nil_append], visited⟩
  constructor
  case once => exact hits_nodup wf.represents.nodup
  case overlapping => exact fun p => mem_hits
  case goesOn =>
    intro β func data goes
    obtain ⟨rc, after, calls, run, visited⟩ := called func data
    obtain ⟨rfl, rfl⟩ := visited.all_of_cont goes
    exact ⟨after, run⟩
  case stops =>
    intro β func data
    obtain ⟨rc, after, calls, run, visited⟩ := called func data
    exact ⟨rc, after, calls, run, visited.front, visited⟩
  case isOverlapped =>
    exact ⟨_, intervalIsOverlapped_eq wf enough ext, any_eq_true⟩

end SearchCalls

/-- A tree of two nodes: the extent `[0, 9]`, and `[20, 29]` to its right. -/
def twoNodes : Shape Nat NodeData :=
  .node 0 ⟨.black, true, 29, ⟨0, 9⟩⟩ .nil (.node 1 ⟨.red, true, 29, ⟨20, 29⟩⟩ .nil .nil)

/-- The heap of the two nodes. -/
def twoNodesTree : Tree Nat where
  heap := fun p => if p = 0 then ⟨none, some 1, none, ⟨.black, true, 29, ⟨0, 9⟩⟩⟩
    else ⟨none, none, some 0, ⟨.red, true, 29, ⟨20, 29⟩⟩⟩
  root := some 0

theorem twoNodes_wellFormed : WellFormed twoNodesTree twoNodes where
  represents := ⟨rfl, ⟨rfl, trivial, rfl, trivial, trivial⟩, by decide⟩
  ordered := by simp [twoNodes, Ordered, Extent.Before]
  balanced := ⟨1, .black rfl .nil (.red rfl .nil .nil)⟩
  maxExact := by simp [twoNodes, MaxExact, high]
  proper := by simp [twoNodes]
  intree := by simp [twoNodes]

theorem interval_search_calls_two : ∃ ps, ∀ fuel, 2 * twoNodes.ptrs.length < fuel →
    SearchCalls fuel twoNodesTree twoNodes ⟨5, 25⟩ ps :=
  interval_search_calls twoNodes_wellFormed ⟨5, 25⟩

/-- An extent that overlaps no stored one is expanded to one around it that overlaps none; its end stays
if the limiter is not above it, and is otherwise the largest number, or below the least start above it. -/
theorem interval_expand_maximal [DecidableEq P] {s : Tree P} {t : Shape P NodeData}
    (wf : WellFormed s t) (words : ∀ x ∈ contents t, x.2.2.stop ≤ maxU64) (limiter : Option Extent)
    {ext : Extent} (bounded : ext.stop ≤ maxU64)
    (clear : ∀ x ∈ contents t, extentOverlapped ext x.2.2 = false) {fuel : Nat}
    (enough : 2 * t.ptrs.length < fuel) :
    ∃ ext', Tree.intervalExpand fuel s s.root ext limiter = some ext' ∧
      ext'.start ≤ ext.start ∧ ext.stop ≤ ext'.stop ∧
      (∀ x ∈ contents t, extentOverlapped ext' x.2.2 = false) ∧
      (∀ l ∈ limiter, l.stop ≤ ext.stop → ext'.stop = ext.stop) ∧
      ((∀ l ∈ limiter, ext.stop < l.stop) →
        ((∀ x ∈ contents t, x.2.2.start ≤ ext.stop) → ext'.stop = maxU64) ∧
        ∀ x ∈ contents t, ext.stop < x.2.2.start →
          (∀ y ∈ contents t, ext.stop < y.2.2.start → x.2.2.start ≤ y.2.2.start) →
          ext'.stop + 1 = x.2.2.start) := by
  have starts : ∀ x ∈ contents t, x.2.2.start ≤ maxU64 :=
    fun x mem => le_trans (wf.proper x mem) (words x mem)
  obtain ⟨ext', run, low, expanded, free⟩ :=
    intervalExpand_clear wf enough limiter bounded starts clear
  refine ⟨ext', run, low, expanded.above, free, expanded.limited, fun high => ⟨fun none => ?_,
    fun x mem after least => ?_⟩⟩
  · rcases expanded.first high with top | ⟨x, mem, after, _⟩
    · exact top
    · have := none x mem
      omega
  · have below := expanded.clear x mem after
    rcases expanded.first high with top | ⟨y, memY, afterY, next⟩
    · have := starts x mem
      omega
    · have := least y memY afterY
      omega

theorem interval_expand_maximal_two : ∃ ext',
    Tree.intervalExpand 5 twoNodesTree twoNodesTree.root ⟨10, 12⟩ none = some ext' ∧
      ext'.start ≤ 10 ∧ 12 ≤ ext'.stop := by
  obtain ⟨ext', run, low, high, _⟩ := interval_expand_maximal twoNodes_wellFormed
    (by simp [twoNodes, maxU64]) none (show (⟨10, 12⟩ : Extent).stop ≤ maxU64 by decide)
    (by simp [twoNodes, extentOverlapped]) (show 2 * twoNodes.ptrs.length < 5 by decide)
  exact ⟨ext', run, low, high⟩

end Ldlm
