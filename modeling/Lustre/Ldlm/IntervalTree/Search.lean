/-
Module: Lustre.Ldlm.IntervalTree.Search
Purpose: What the read-only loops of the interval tree compute: searches, iterations and
  `interval_expand`.
Trusted boundary: none
-/
import Lustre.Ldlm.IntervalTree.EraseTwoChildren

namespace Ldlm

open PointerHeap PointerHeap.Shape RedBlack List Ldlm.Tree

variable {P β : Type}

/-- Call a callback on nodes in turn until it stops. -/
def visit (func : P → β → Tree.Iter × β) : List P → β → Tree.Iter × β
  | [], data => (.cont, data)
  | p :: ps, data =>
    match func p data with
    | (.stop, data) => (.stop, data)
    | (.cont, data) => visit func ps data

/-- The nodes that overlap an extent, in preorder. -/
def hits (ext : Extent) : Shape P NodeData → List P
  | .nil => []
  | .node p d l r =>
    (if extentOverlapped ext d.extent then [p] else []) ++ (hits ext l ++ hits ext r)

variable {ext : Extent} {t : Shape P NodeData} {p : P}

theorem mem_hits :
    p ∈ hits ext t ↔ ∃ x ∈ contents t, x.1 = p ∧ extentOverlapped ext x.2.2 = true := by
  induction t with
  | nil => simp [hits]
  | node q d l r ihl ihr =>
    simp only [hits, mem_append, ihl, ihr, contents_node, mem_cons]
    constructor
    · rintro (here | ⟨x, mem, rest⟩ | ⟨x, mem, rest⟩)
      · split at here
        · next overlap => exact ⟨_, .inr (.inl rfl), (mem_singleton.mp here).symm, overlap⟩
        · simp at here
      · exact ⟨x, .inl mem, rest⟩
      · exact ⟨x, .inr (.inr mem), rest⟩
    · grind

/-- Without an overlapping node there is nothing to visit. -/
theorem hits_eq_nil (clear : ∀ x ∈ contents t, extentOverlapped ext x.2.2 = false) :
    hits ext t = [] := by
  rw [eq_nil_iff_forall_not_mem]
  intro p mem
  obtain ⟨x, inTree, _, overlap⟩ := mem_hits.mp mem
  simp [clear x inTree] at overlap

theorem extentOverlapped_of_after {e : Extent} (h : ext.stop < e.start) :
    extentOverlapped ext e = false := by
  simp only [extentOverlapped, Bool.and_eq_false_iff, decide_eq_false_iff_not]
  omega

/-- A subtree that ends before the extent is skipped. -/
theorem hits_of_high (h : high t < ext.start) : hits ext t = [] := by
  refine hits_eq_nil fun x mem => ?_
  have := le_high mem
  simp only [extentOverlapped, Bool.and_eq_false_iff, decide_eq_false_iff_not]
  omega

/-! ### The search -/

/-- The nodes the search still has to visit after the subtree in the hole. -/
def pendingHits (ext : Extent) : Context P NodeData → List P
  | [] => []
  | ⟨.left, _, _, r⟩ :: ctx => hits ext r ++ pendingHits ext ctx
  | ⟨.right, _, _, _⟩ :: ctx => pendingHits ext ctx

/-- How many nodes there are in the subtrees that the search may still enter. -/
def pendingSize : Context P NodeData → Nat
  | [] => 0
  | ⟨.left, _, _, r⟩ :: ctx => r.ptrs.length + pendingSize ctx
  | ⟨.right, _, _, _⟩ :: ctx => pendingSize ctx

variable {ctx : Context P NodeData}

theorem mem_pendingHits (mem : p ∈ pendingHits ext ctx) :
    ∃ x ∈ contentsAfter ctx, x.1 = p ∧ extentOverlapped ext x.2.2 = true := by
  induction ctx with
  | nil => simp [pendingHits] at mem
  | cons frame ctx ih =>
    obtain ⟨side, q, d, sibling⟩ := frame
    cases side with
    | left =>
      rw [contentsAfter_left]
      rcases mem_append.mp mem with mem | mem
      · obtain ⟨x, inside, rest⟩ := mem_hits.mp mem
        exact ⟨x, by simp [inside], rest⟩
      · obtain ⟨x, inside, rest⟩ := ih mem
        exact ⟨x, by simp [inside], rest⟩
    | right =>
      exact ih mem

/-- The search went left of a node only if the extent ends before it, or if it may overlap it. -/
def Entered (ext : Extent) (ctx : Context P NodeData) : Prop :=
  ∀ frame ∈ ctx, frame.side = .left → ext.stop < frame.data.extent.start ∨
    ext.start ≤ frame.data.maxHigh ∧ frame.data.extent.start ≤ ext.stop

theorem Entered.cons_right (h : Entered ext ctx) (p : P) (d : NodeData) (l : Shape P NodeData) :
    Entered ext (⟨.right, p, d, l⟩ :: ctx) := forall_mem_cons.mpr ⟨nofun, h⟩

variable {d : NodeData} {r : Shape P NodeData}

/-- Nothing right of a node that starts after the extent is still to be visited. -/
theorem pendingHits_of_after (order : Ordered (contents (plug (⟨.left, p, d, r⟩ :: ctx) t)))
    (after : ext.stop < d.extent.start) : hits ext r ++ pendingHits ext ctx = [] := by
  rw [contents_plug, contentsAfter_left] at order
  have behind := (pairwise_cons.mp (pairwise_append.mp order).2.1).1
  have clear : ∀ x ∈ contents r ++ contentsAfter ctx, extentOverlapped ext x.2.2 = false := by
    intro x mem
    refine extentOverlapped_of_after ?_
    have : d.extent.Before x.2.2 := behind x mem
    unfold Extent.Before at this
    omega
  rw [append_eq_nil_iff]
  constructor
  · exact hits_eq_nil fun x mem => clear x (mem_append_left _ mem)
  · rw [eq_nil_iff_forall_not_mem]
    intro q mem
    obtain ⟨x, inside, _, overlap⟩ := mem_pendingHits mem
    simp [clear x (mem_append_right _ inside)] at overlap

variable {s : Tree P} {fuel : Nat} {node : P}

variable {func : P → β → Tree.Iter × β} {keep : β → Prop}

section

variable [DecidableEq P]

/-- The inner loop climbs to the innermost node whose right subtree is still to be entered, if any. -/
theorem searchClimb_eq (h : Represents s (plug ctx t)) (root : t.ptr? = some node)
    (enough : ctx.length < fuel) :
    (∃ top, searchClimb fuel s node ctx.parent = some (none, top) ∧
      ∀ ext, pendingHits ext ctx = []) ∨
    ∃ p d r q t' ctx', searchClimb fuel s node ctx.parent = some (some p, q) ∧
      r.ptr? = some q ∧ plug ctx t = plug (⟨.left, p, d, r⟩ :: ctx') t' ∧
      (∀ ext, pendingHits ext ctx = hits ext r ++ pendingHits ext ctx') ∧
      pendingSize ctx = r.ptrs.length + pendingSize ctx' ∧ ⟨.left, p, d, r⟩ :: ctx' <:+ ctx := by
  induction ctx generalizing fuel t node with
  | nil =>
    obtain ⟨rest, rfl⟩ : ∃ rest, fuel = rest + 1 := ⟨fuel - 1, by simp at enough; omega⟩
    exact .inl ⟨node, rfl, fun _ => rfl⟩
  | cons frame ctx ih =>
    obtain ⟨side, p, d, sibling⟩ := frame
    obtain _ | rest := fuel
    · omega
    have cell := h.cell_parent
    have apart : sibling.ptr? ≠ some node := by
      have := ptr_ne_sibling h root
      rwa [root] at this
    have up : Represents s (plug ctx (sided side p d t sibling)) := h
    have enoughUp : ctx.length < rest := by
      simp only [length_cons] at enough
      omega
    have climbed := ih up (ptr?_sided side p d t sibling) enoughUp
    have above : (s.heap p).parent = Context.parent ctx := by rw [cell, Cell.parent_sided]
    cases side with
    | right =>
      have notLeft : (s.heap p).left ≠ some node := by rwa [cell]
      have step : searchClimb (rest + 1) s node (some p) =
          searchClimb rest s p (Context.parent ctx) := by
        simp [searchClimb, notLeft, above]
      rw [Context.parent_cons, step]
      rcases climbed with ⟨top, run, none⟩ | ⟨p', d', r, q, t', ctx', run, link, same, hit, size, suf⟩
      · exact .inl ⟨top, run, none⟩
      · exact .inr ⟨p', d', r, q, t', ctx', run, link, same, hit, size,
          suf.trans (suffix_cons _ _)⟩
    | left =>
      have isLeft : (s.heap p).left = some node := by rw [cell, ← root]; rfl
      have rightLink : (s.heap p).right = sibling.ptr? := by rw [cell]; rfl
      cases link : sibling.ptr? with
      | some q =>
        refine .inr ⟨p, d, sibling, q, t, ctx, ?_, link, rfl, fun _ => rfl, rfl,
          suffix_rfl⟩
        simp [searchClimb, isLeft, rightLink, link]
      | none =>
        obtain rfl := ptr?_eq_none.mp link
        have step : searchClimb (rest + 1) s node (some p) =
            searchClimb rest s p (Context.parent ctx) := by
          simp [searchClimb, isLeft, rightLink, above]
        rw [Context.parent_cons, step]
        rcases climbed with ⟨top, run, none⟩ | ⟨p', d', r, q, t', ctx', run, link, same, hit, size, suf⟩
        · exact .inl ⟨top, run, fun ext => by simp [pendingHits, hits, none ext]⟩
        · exact .inr ⟨p', d', r, q, t', ctx', run, link, same,
            fun ext => by simp [pendingHits, hits, hit ext], by simp [pendingSize, size],
            suf.trans (suffix_cons _ _)⟩

/-- After a subtree the search goes on with the next one that may hold overlapping nodes, if any. -/
theorem searchNext_eq (h : Represents s (plug ctx t))
    (order : Ordered (contents (plug ctx t))) (entered : Entered ext ctx)
    (root : t.ptr? = some node) (enough : ctx.length < fuel) :
    (searchNext fuel s node ext = some none ∧ pendingHits ext ctx = []) ∨
    ∃ q r ctx', searchNext fuel s node ext = some (some q) ∧ r.ptr? = some q ∧
      plug ctx t = plug ctx' r ∧ pendingHits ext ctx = hits ext r ++ pendingHits ext ctx' ∧
      pendingSize ctx = r.ptrs.length + pendingSize ctx' ∧ ctx'.length ≤ ctx.length ∧
      Entered ext ctx' := by
  have parentLink := parent_eq h root
  rcases searchClimb_eq h root enough with
    ⟨top, run, none⟩ | ⟨p, d, r, q, t', ctx', run, link, same, hit, size, suf⟩
  · refine .inl ⟨?_, none ext⟩
    simp [searchNext, parentLink, run]
  · rw [same] at h order
    have data : Tree.node s p = d := by
      have : Represents s (plug ctx' (sided .left p d t' r)) := h
      exact node_eq this
    have visited := entered _ (suf.subset (mem_cons_self)) rfl
    by_cases may : intervalMayOverlap s p ext = true
    · refine .inr ⟨q, r, ⟨.right, p, d, t'⟩ :: ctx', ?_, link, same, hit ext, size, ?_, ?_⟩
      · simp [searchNext, parentLink, run, may]
      · exact suf.length_le
      · refine Entered.cons_right (fun frame mem => entered frame ?_) p d t'
        exact suf.subset (mem_cons_of_mem _ mem)
    · refine .inl ⟨?_, ?_⟩
      · simp [searchNext, parentLink, run, may]
      · rw [hit ext]
        refine pendingHits_of_after order ?_
        simp only [intervalMayOverlap, intervalLow, data, Bool.and_eq_true,
          decide_eq_true_eq] at may
        exact visited.resolve_right may

/-- What the search does once it is done with a subtree. -/
def searchOn (fuel : Nat) (s : Tree P) (node : P) (ext : Extent)
    (func : P → β → Tree.Iter × β) (data : β) : Option (Tree.Iter × β) := do
  let next ← searchNext fuel s node ext
  intervalSearch fuel s next ext func data

/-- What the search does once it has called its callback on a node that may overlap. -/
def searchDown (fuel : Nat) (s : Tree P) (node : P) (ext : Extent)
    (func : P → β → Tree.Iter × β) (left right : Option P) (data : β) :
    Option (Tree.Iter × β) :=
  match left, right with
  | some left, _ => intervalSearch fuel s (some left) ext func data
  | none, some right => intervalSearch fuel s (some right) ext func data
  | none, none => searchOn fuel s node ext func data

section SearchStep

variable {fuel : Nat} {s : Tree P} {ext : Extent} {q : P}
  (func : P → β → Tree.Iter × β) (data : β)

theorem intervalSearch_after (after : ext.stop < intervalLow s q) :
    intervalSearch (fuel + 1) s (some q) ext func data =
      searchDown fuel s q ext func (s.heap q).left none data := by
  rw [intervalSearch, if_pos after]
  cases (s.heap q).left <;> rfl

theorem intervalSearch_skip (notAfter : ¬ ext.stop < intervalLow s q)
    (skip : (Tree.node s q).maxHigh < ext.start) :
    intervalSearch (fuel + 1) s (some q) ext func data = searchOn fuel s q ext func data := by
  have notMay : ¬ intervalMayOverlap s q ext = true := by
    simp only [intervalMayOverlap, Bool.and_eq_true, decide_eq_true_eq]
    omega
  rw [intervalSearch, if_neg notAfter, if_neg notMay]
  rfl

theorem intervalSearch_may (notAfter : ¬ ext.stop < intervalLow s q)
    (may : ext.start ≤ (Tree.node s q).maxHigh) (ps : List P)
    (down : ∀ data, searchDown fuel s q ext func (s.heap q).left (s.heap q).right data =
      some (visit func ps data)) :
    intervalSearch (fuel + 1) s (some q) ext func data =
      some (visit func ((if extentOverlapped ext (Tree.node s q).extent then [q] else []) ++ ps)
        data) := by
  have mayOverlap : intervalMayOverlap s q ext = true := by
    simp only [intervalMayOverlap, Bool.and_eq_true, decide_eq_true_eq]
    omega
  have goOn : ∀ data, (match (s.heap q).left, (s.heap q).right with
      | some left, _ => intervalSearch fuel s (some left) ext func data
      | none, some right => intervalSearch fuel s (some right) ext func data
      | none, none => do
          let next ← searchNext fuel s q ext
          intervalSearch fuel s next ext func data) = some (visit func ps data) := by
    intro data
    rw [← down data]
    cases (s.heap q).left with
    | some left => rfl
    | none => cases (s.heap q).right <;> rfl
  rw [intervalSearch, if_neg notAfter, if_pos mayOverlap]
  by_cases overlap : extentOverlapped ext (Tree.node s q).extent = true
  · grind [visit]
  · simp only [overlap]
    exact goOn data

end SearchStep

/-- The search from a node visits its subtree and then what its context leaves pending. -/
theorem intervalSearch_focus (func : P → β → Tree.Iter × β) (fuel : Nat) :
    ∀ (ctx : Context P NodeData) {t : Shape P NodeData} {node : P} (data : β),
      Represents s (plug ctx t) → Ordered (contents (plug ctx t)) → MaxExact (plug ctx t) →
      Entered ext ctx → t.ptr? = some node →
      2 * (t.ptrs.length + pendingSize ctx) + ctx.length < fuel →
      intervalSearch fuel s (some node) ext func data =
        some (visit func (hits ext t ++ pendingHits ext ctx) data) := by
  induction fuel with
  | zero => intros; omega
  | succ fuel ih =>
  intro ctx t node data h order exactMax entered root enough
  cases t with
  | nil => simp at root
  | node q d l r =>
  obtain rfl : q = node := by simpa using root
  have focus : Represents s (plug ctx (sided .left q d l r)) := h
  have payload : Tree.node s q = d := node_eq focus
  have leftLink : (s.heap q).left = l.ptr? := by rw [focus.cell]; rfl
  have rightLink : (s.heap q).right = r.ptr? := by rw [focus.cell]; rfl
  simp only [ptrs_node, length_append, length_cons] at enough
  -- what each way to go on from here visits
  have goLeft : ∀ (data : β) (p : P), l.ptr? = some p →
      (ext.stop < d.extent.start ∨ ext.start ≤ d.maxHigh ∧ d.extent.start ≤ ext.stop) →
      intervalSearch fuel s (some p) ext func data =
        some (visit func (hits ext l ++ (hits ext r ++ pendingHits ext ctx)) data) := by
    intro data p link here
    have down : Represents s (plug (⟨.left, q, d, r⟩ :: ctx) l) := h
    refine ih (⟨.left, q, d, r⟩ :: ctx) data down order exactMax (forall_mem_cons.mpr ⟨fun _ => here, entered⟩) link ?_
    simp only [pendingSize, length_cons]
    omega
  have goRight : ∀ (data : β) (p : P), r.ptr? = some p →
      intervalSearch fuel s (some p) ext func data =
        some (visit func (hits ext r ++ pendingHits ext ctx) data) := by
    intro data p link
    have down : Represents s (plug (⟨.right, q, d, l⟩ :: ctx) r) := h
    refine ih (⟨.right, q, d, l⟩ :: ctx) data down order exactMax (entered.cons_right q d l) link ?_
    simp only [pendingSize, length_cons]
    omega
  have goOn : ∀ data : β,
      searchOn fuel s q ext func data = some (visit func (pendingHits ext ctx) data) := by
    have short : ctx.length < fuel := by omega
    rcases searchNext_eq h order entered root short with
      ⟨run, nothing⟩ | ⟨p, r', ctx', run, link, same, hit, size, short, entered'⟩
    · obtain _ | rest := fuel
      · omega
      simp [searchOn, run, nothing, intervalSearch, visit]
    · grind [searchOn]
  have low : intervalLow s q = d.extent.start := by rw [intervalLow, payload]
  by_cases after : ext.stop < d.extent.start
  · have nothing : hits ext r ++ pendingHits ext ctx = [] := pendingHits_of_after order after
    have here : extentOverlapped ext d.extent = false := extentOverlapped_of_after after
    have list : hits ext (.node q d l r) ++ pendingHits ext ctx =
        hits ext l ++ (hits ext r ++ pendingHits ext ctx) := by
      simp [hits, here]
    rw [intervalSearch_after func data (low ▸ after), leftLink, list]
    cases link : l.ptr? with
    | some p => exact goLeft data p link (.inl after)
    | none =>
      obtain rfl := ptr?_eq_none.mp link
      rw [nothing, searchDown, goOn data, (append_eq_nil_iff.mp nothing).2]
      rfl
  · by_cases may : ext.start ≤ d.maxHigh
    · have down : ∀ data, searchDown fuel s q ext func (s.heap q).left (s.heap q).right data =
          some (visit func (hits ext l ++ (hits ext r ++ pendingHits ext ctx)) data) := by
        intro data
        rw [leftLink, rightLink]
        cases link : l.ptr? with
        | some p => exact goLeft data p link (.inr ⟨may, by omega⟩)
        | none =>
          obtain rfl := ptr?_eq_none.mp link
          cases link' : r.ptr? with
          | some p => exact goRight data p link'
          | none =>
            obtain rfl := ptr?_eq_none.mp link'
            exact goOn data
      rw [intervalSearch_may func data (low ▸ after) (payload ▸ may) _ down, payload]
      simp [hits]
    · have exactHere := (maxExact_plug.mp exactMax).2.1
      have skip : hits ext (.node q d l r) = [] := hits_of_high (by omega)
      have before : (Tree.node s q).maxHigh < ext.start := by
        rw [payload]
        omega
      rw [intervalSearch_skip func data (low ▸ after) before, skip]
      exact goOn data

/-- What a callback keeps, a search keeps, in any heap. -/
theorem intervalSearch_keeps (step : ∀ p data, keep data → keep (func p data).2) (fuel : Nat) :
    ∀ {node : Option P} {data : β} {result : Tree.Iter × β}, keep data →
      intervalSearch fuel s node ext func data = some result → keep result.2 := by
  induction fuel with
  | zero => intro node data result _ run; cases run
  | succ fuel ih =>
    have onward : ∀ {node : P} {data : β} {result : Tree.Iter × β}, keep data →
        searchOn fuel s node ext func data = some result → keep result.2 := by
      intro node data result kept run
      obtain ⟨next, _, run⟩ := Option.bind_eq_some_iff.mp run
      exact ih kept run
    have down : ∀ (node : P) (left right : Option P) {data : β} {result : Tree.Iter × β},
        keep data → searchDown fuel s node ext func left right data = some result →
        keep result.2 := by
      intro node left right data result kept run
      rw [searchDown.eq_def] at run
      split at run
      · exact ih kept run
      · exact ih kept run
      · exact onward kept run
    intro node data result kept run
    cases node with
    | none =>
      cases run
      exact kept
    | some node =>
      by_cases after : ext.stop < intervalLow s node
      · rw [intervalSearch_after func data after] at run
        exact down node _ _ kept run
      · rw [intervalSearch, if_neg after] at run
        split at run
        · have called : keep (if extentOverlapped ext (Tree.node s node).extent then func node data
              else (.cont, data)).2 := by
            split
            · exact step node data kept
            · exact kept
          split at run
          next rc data' eq =>
          rw [eq] at called
          split at run
          · cases run
            exact called
          · refine down node (s.heap node).left (s.heap node).right called ?_
            exact run
        · exact onward kept run

/-- `interval_search` calls back on exactly the nodes that overlap, in preorder, until it stops. -/
theorem intervalSearch_eq (wf : WellFormed s t) (enough : 2 * t.ptrs.length < fuel)
    (ext : Extent) (func : P → β → Tree.Iter × β) (data : β) :
    intervalSearch fuel s s.root ext func data = some (visit func (hits ext t) data) := by
  rw [wf.represents.root]
  cases root : t.ptr? with
  | none =>
    obtain rfl := ptr?_eq_none.mp root
    obtain _ | rest := fuel
    · omega
    rfl
  | some p =>
    have entered : Entered ext ([] : Context P NodeData) := by simp [Entered]
    have whole := intervalSearch_focus func fuel [] data wf.represents wf.ordered wf.maxExact
      entered root (by simpa [pendingSize] using enough)
    rwa [pendingHits, append_nil] at whole

/-- `interval_is_overlapped` tells whether some node overlaps. -/
theorem intervalIsOverlapped_eq (wf : WellFormed s t)
    (enough : 2 * t.ptrs.length < fuel) (ext : Extent) :
    intervalIsOverlapped fuel s s.root ext =
      some ((contents t).any fun x => extentOverlapped ext x.2.2) := by
  rw [intervalIsOverlapped, intervalSearch_eq wf enough, Option.bind_eq_bind, Option.bind_some]
  cases found : hits ext t with
  | nil =>
    have clear : (contents t).any (fun x => extentOverlapped ext x.2.2) = false := by
      rw [any_eq_false]
      intro x mem overlap
      have : x.1 ∈ hits ext t := mem_hits.mpr ⟨x, mem, rfl, overlap⟩
      rw [found] at this
      cases this
    rw [clear]
    rfl
  | cons p ps =>
    obtain ⟨x, mem, _, overlap⟩ := mem_hits.mp (found ▸ mem_cons_self : p ∈ hits ext t)
    have any : (contents t).any (fun x => extentOverlapped ext x.2.2) = true :=
      any_eq_true.mpr ⟨x, mem, overlap⟩
    rw [any]
    rfl

end

theorem after_append (inner outer : Context P NodeData) :
    Context.after (inner ++ outer) = Context.after inner ++ Context.after outer := by
  induction inner with
  | nil => rfl
  | cons frame inner ih =>
    obtain ⟨side, p, d, sibling⟩ := frame
    cases side <;> simp [Context.after, ih]

section

variable [DecidableEq P]

/-- The upward loop of `interval_next` ends at the innermost node with the hole on its left, if any. -/
theorem nextClimb_eq (h : Represents s (plug ctx t)) (root : t.ptr? = some node)
    (enough : ctx.length < fuel) :
    (nextClimb fuel s node = some none ∧ ctx.after = []) ∨
    ∃ p d l r ctx', nextClimb fuel s node = some (some p) ∧
      plug ctx t = plug ctx' (.node p d l r) ∧
      ctx.after = (p, d) :: r.items ++ ctx'.after := by
  have parentLink := parent_eq h root
  obtain _ | rest := fuel
  · omega
  induction ctx generalizing rest t node with
  | nil => exact .inl ⟨by simp [nextClimb, parentLink], rfl⟩
  | cons frame ctx ih =>
    obtain ⟨side, p, d, sibling⟩ := frame
    have cell := h.cell_parent
    have apart : sibling.ptr? ≠ some node := by
      have := ptr_ne_sibling h root
      rwa [root] at this
    cases side with
    | left =>
      have notRight : (s.heap p).right ≠ some node := by rwa [cell]
      exact .inr ⟨p, d, t, sibling, ctx, by simp [nextClimb, parentLink, notRight], rfl, rfl⟩
    | right =>
      have isRight : (s.heap p).right = some node := by rw [cell, ← root]; rfl
      have up : Represents s (plug ctx (sided .right p d t sibling)) := h
      have above : (s.heap p).parent = Context.parent ctx := by rw [cell, Cell.parent_sided]
      simp only [length_cons] at enough
      obtain ⟨rest, rfl⟩ : ∃ rest', rest = rest' + 1 := ⟨rest - 1, by omega⟩
      have step : nextClimb (rest + 1 + 1) s node = nextClimb (rest + 1) s p := by
        rw [nextClimb, parentLink]
        simp [isRight]
      rw [step]
      exact ih up rfl above rest (by omega)

/-- `interval_next` of a node, in terms of what follows it in symmetric order. -/
theorem intervalNext_eq {l : Shape P NodeData} (h : Represents s (plug ctx (.node p d l r)))
    (enough : (plug ctx (.node p d l r)).ptrs.length ≤ fuel) :
    (intervalNext fuel s p = some none ∧ r.items ++ ctx.after = []) ∨
    ∃ q dq lq rq ctx', intervalNext fuel s p = some (some q) ∧
      plug ctx (.node p d l r) = plug ctx' (.node q dq lq rq) ∧
      r.items ++ ctx.after = (q, dq) :: (rq.items ++ ctx'.after) := by
  have focus : Represents s (plug ctx (sided .left p d l r)) := h
  have rightLink : (s.heap p).right = r.ptr? := by rw [focus.cell]; rfl
  have size := length_plug ctx (.node p d l r)
  simp only [ptrs_node, length_append, length_cons] at size
  cases link : r.ptr? with
  | none =>
    obtain rfl := ptr?_eq_none.mp link
    have step : intervalNext fuel s p = nextClimb fuel s p := by simp [intervalNext, rightLink]
    have short : ctx.length < fuel := by omega
    rw [step]
    rcases nextClimb_eq h rfl short with ⟨run, nothing⟩ | ⟨q, dq, lq, rq, ctx', run, same, rest⟩
    · exact .inl ⟨run, by simpa [Shape.items] using nothing⟩
    · exact .inr ⟨q, dq, lq, rq, ctx', run, same, by simpa [Shape.items] using rest⟩
  | some right =>
    have down : Represents s (plug (⟨.right, p, d, l⟩ :: ctx) r) := h
    obtain ⟨spine, q, dq, child, rfl, sides, _, first⟩ :=
      intervalFirst_spine (by omega : r.ptrs.length ≤ fuel) down link
    have nothing : spine.before = [] := map_eq_nil_iff.mp (before_of_left sides)
    refine .inr ⟨q, dq, .nil, child, spine ++ ⟨.right, p, d, l⟩ :: ctx, ?_, ?_, ?_⟩
    · simp [intervalNext, rightLink, link, first]
    · rw [plug_append]
      rfl
    · rw [items_plug, nothing, after_append]
      simp [Shape.items, Context.after]

/-- The loop of `interval_iterate` visits its node and everything after it. -/
theorem intervalIterate_focus (func : P → β → Tree.Iter × β) {whole : Nat} (fuel : Nat) :
    ∀ {ctx : Context P NodeData} {p : P} {d : NodeData} {l r : Shape P NodeData} (data : β),
      Represents s (plug ctx (.node p d l r)) → (plug ctx (.node p d l r)).ptrs.length = whole →
      (r.items ++ ctx.after).length + 1 + whole < fuel →
      intervalIterate fuel s (some p) func data =
        some (visit func (p :: (r.items ++ ctx.after).map Prod.fst) data) := by
  induction fuel with
  | zero => intros; omega
  | succ fuel ih =>
  intro ctx p d l r data h size enough
  rw [intervalIterate, visit]
  rcases func p data with ⟨rc, data'⟩
  cases rc with
  | stop => rfl
  | cont =>
    have fits : (plug ctx (.node p d l r)).ptrs.length ≤ fuel := by omega
    rcases intervalNext_eq h fits with ⟨run, nothing⟩ | ⟨q, dq, lq, rq, ctx', run, same, rest⟩
    · obtain _ | fuel := fuel
      · omega
      simp [run, nothing, intervalIterate, visit]
    · grind

/-- What a callback keeps, an iteration keeps, in any heap. -/
theorem intervalIterate_keeps (step : ∀ p data, keep data → keep (func p data).2) (fuel : Nat) :
    ∀ {node : Option P} {data : β} {result : Tree.Iter × β}, keep data →
      intervalIterate fuel s node func data = some result → keep result.2 := by
  induction fuel with
  | zero => intro node data result _ run; cases run
  | succ fuel ih =>
    intro node data result kept run
    cases node with
    | none =>
      cases run
      exact kept
    | some node =>
      have called := step node data kept
      rw [intervalIterate] at run
      split at run
      next rc data' eq =>
      rw [eq] at called
      split at run
      · cases run
        exact called
      · obtain ⟨next, _, run⟩ := Option.bind_eq_some_iff.mp run
        exact ih called run

theorem intervalIterateAll_keeps (step : ∀ p data, keep data → keep (func p data).2)
    {root : Option P} {data : β} {result : Tree.Iter × β} (kept : keep data)
    (run : intervalIterateAll fuel s root func data = some result) : keep result.2 := by
  cases root with
  | none =>
    cases run
    exact kept
  | some root =>
    obtain ⟨first, _, run⟩ := Option.bind_eq_some_iff.mp run
    exact intervalIterate_keeps step fuel kept run

/-- `interval_iterate` calls its callback on every node in symmetric order until it
stops. -/
theorem intervalIterateAll_eq (wf : WellFormed s t)
    (enough : 2 * t.ptrs.length < fuel) (func : P → β → Tree.Iter × β) (data : β) :
    intervalIterateAll fuel s s.root func data = some (visit func t.ptrs data) := by
  rw [wf.represents.root]
  cases root : t.ptr? with
  | none =>
    obtain rfl := ptr?_eq_none.mp root
    rfl
  | some p =>
    have whole : Represents s (plug [] t) := wf.represents
    obtain ⟨spine, q, dq, child, rfl, sides, _, first⟩ :=
      intervalFirst_spine (by omega : t.ptrs.length ≤ fuel) whole root
    have nothing : spine.before = [] := map_eq_nil_iff.mp (before_of_left sides)
    have list : (plug spine (.node q dq .nil child)).items =
        (q, dq) :: (child.items ++ spine.after) := by
      rw [items_plug, nothing]
      simp [Shape.items]
    have size : (plug spine (.node q dq .nil child)).ptrs.length =
        (child.items ++ spine.after).length + 1 := by
      rw [Shape.ptrs, length_map, list, length_cons]
    have onward := intervalIterate_focus func fuel data whole rfl (by omega)
    rw [intervalIterateAll, first, Option.bind_eq_bind, Option.bind_some, onward,
      Shape.ptrs, list, map_cons]

end

/-- `interval_expand_high` stays below every node that starts after `high`, up to the first of them. -/
theorem intervalExpandHigh_eq [DecidableEq P] {parent : Option P} {above result : Nat}
    (holds : Holds s.heap parent t) (order : Ordered (contents t)) (exactMax : MaxExact t)
    (proper : ∀ x ∈ contents t, x.2.2.start ≤ x.2.2.stop)
    (limit : ∀ x ∈ contents t, x.2.2.start ≤ result + 1) (fits : above ≤ result)
    (enough : t.ptrs.length < fuel) :
    ∃ v, intervalExpandHigh fuel s t.ptr? above result = some v ∧ above ≤ v ∧ v ≤ result ∧
      (v = result ∨ ∃ x ∈ contents t, above < x.2.2.start ∧ v + 1 = x.2.2.start) ∧
      ∀ x ∈ contents t, above < x.2.2.start → v < x.2.2.start := by
  induction t generalizing fuel parent result with
  | nil =>
    obtain _ | rest := fuel
    · omega
    exact ⟨result, rfl, fits, le_rfl, .inl rfl, by simp⟩
  | node p d l r ihl ihr =>
    obtain _ | rest := fuel
    · omega
    obtain ⟨cell, holdsL, holdsR⟩ := holds
    obtain ⟨exactHere, exactL, exactR⟩ := exactMax
    have payload : Tree.node s p = d := by rw [Tree.node, cell]
    simp only [ptrs_node, length_append, length_cons] at enough
    rw [contents_node] at order proper limit ⊢
    obtain ⟨orderL, orderR, across⟩ := pairwise_append.mp order
    obtain ⟨orderHere, orderR⟩ := pairwise_cons.mp orderR
    simp only [ptr?_node, intervalExpandHigh, payload, intervalLow, cell]
    by_cases low : d.maxHigh < above
    · -- every node of this subtree ends, and so starts, below `high`
      refine ⟨result, by rw [if_pos low], fits, le_rfl, .inl rfl, fun x mem after => ?_⟩
      have inside : x ∈ contents (.node p d l r) := by rwa [contents_node]
      have := le_high inside
      have := proper x mem
      omega
    · rw [if_neg low]
      by_cases here : d.extent.start > above
      · rw [if_pos here]
        have limitL : ∀ x ∈ contents l, x.2.2.start ≤ d.extent.start - 1 + 1 := by
          grind [Extent.Before, mem_cons_self]
        have properL : ∀ x ∈ contents l, x.2.2.start ≤ x.2.2.stop :=
          fun x mem => proper x (mem_append_left _ mem)
        obtain ⟨v, run, le, ge, first, clear⟩ := ihl holdsL orderL exactL properL limitL
          (by omega : above ≤ d.extent.start - 1) (by omega : l.ptrs.length < rest)
        have hereLimit := limit (p, d.intree, d.extent) (by simp)
        refine ⟨v, run, le, by simp only at hereLimit; omega, .inr ?_, fun x mem after => ?_⟩
        · rcases first with same | ⟨x, mem, after, next⟩
          · exact ⟨(p, d.intree, d.extent), by simp, here, by simp only; omega⟩
          · exact ⟨x, mem_append_left _ mem, after, next⟩
        rcases mem_append.mp mem with mem | mem
        · exact clear x mem after
        · grind [Extent.Before]
      · rw [if_neg here]
        obtain ⟨v, run, le, ge, first, clear⟩ := ihr holdsR orderR exactR
          (fun x mem => proper x (by simp [mem])) (fun x mem => limit x (by simp [mem])) fits
          (by omega : r.ptrs.length < rest)
        refine ⟨v, run, le, ge, first.imp_right ?_, fun x mem after => ?_⟩
        · rintro ⟨x, mem, rest⟩
          exact ⟨x, by simp [mem], rest⟩
        rcases mem_append.mp mem with mem | mem
        · have : x.2.2.Before d.extent := across x mem _ mem_cons_self
          unfold Extent.Before at this
          omega
        · grind

/-- The end that `interval_expand` gives: unchanged if the limiter is not above it, else as far as
the first node that starts after it. -/
structure ExpandedStop (t : Shape P NodeData) (limiter : Option Extent) (stop stop' : Nat) : Prop where
  above : stop ≤ stop'
  word : stop' ≤ maxU64
  clear : ∀ x ∈ contents t, stop < x.2.2.start → stop' < x.2.2.start
  limited : ∀ l ∈ limiter, l.stop ≤ stop → stop' = stop
  first : (∀ l ∈ limiter, stop < l.stop) →
    stop' = maxU64 ∨ ∃ x ∈ contents t, stop < x.2.2.start ∧ stop' + 1 = x.2.2.start

/-- `interval_expand` of an extent that no node overlaps passes its assertions and returns a clear one
around it. -/
theorem intervalExpand_clear [DecidableEq P] (wf : WellFormed s t)
    (enough : 2 * t.ptrs.length < fuel) (limiter : Option Extent) (bounded : ext.stop ≤ maxU64)
    (starts : ∀ x ∈ contents t, x.2.2.start ≤ maxU64)
    (clear : ∀ x ∈ contents t, extentOverlapped ext x.2.2 = false) :
    ∃ ext', intervalExpand fuel s s.root ext limiter = some ext' ∧ ext'.start ≤ ext.start ∧
      ExpandedStop t limiter ext.stop ext'.stop ∧
      ∀ x ∈ contents t, extentOverlapped ext' x.2.2 = false := by
  have free (e : Extent) (clear : ∀ x ∈ contents t, extentOverlapped e x.2.2 = false) :
      intervalIsOverlapped fuel s s.root e = some false := by
    rw [intervalIsOverlapped_eq wf enough e]
    congr 1
    rw [any_eq_false]
    intro x mem
    simp [clear x mem]
  -- the new start
  obtain ⟨start, startIs, startLe, lowIs⟩ : ∃ start,
      (if limiter.all (fun l : Extent => decide (l.start < ext.start)) then
        { ext with start := intervalExpandLow s.root ext.start } else ext) =
          (⟨start, ext.stop⟩ : Extent) ∧
      start ≤ ext.start ∧ (start = ext.start ∨ contents t = []) := by
    rw [wf.represents.root]
    split
    · cases t with
      | nil => exact ⟨0, rfl, by omega, .inr rfl⟩
      | node p d l r => exact ⟨ext.start, rfl, le_rfl, .inl rfl⟩
    · exact ⟨ext.start, rfl, le_rfl, .inl rfl⟩
  -- the new end
  obtain ⟨stop, grown, kept, expanded⟩ : ∃ stop,
      (limiter.all (fun l => decide (l.stop > ext.stop)) = true →
        intervalExpandHigh fuel s s.root ext.stop maxU64 = some stop) ∧
      (¬ limiter.all (fun l => decide (l.stop > ext.stop)) = true → stop = ext.stop) ∧
      ExpandedStop t limiter ext.stop stop := by
    by_cases up : limiter.all (fun l => decide (l.stop > ext.stop)) = true
    · obtain ⟨v, run, le, ge, first, after⟩ := intervalExpandHigh_eq wf.represents.holds wf.ordered
        wf.maxExact wf.proper (fun x mem => Nat.le_succ_of_le (starts x mem)) bounded
        (by omega : t.ptrs.length < fuel)
      refine ⟨v, fun _ => ?_, fun down => absurd up down, le, ge, after, fun l mem low => ?_,
        fun _ => first⟩
      · rw [wf.represents.root, run]
      · cases mem
        exact absurd (of_decide_eq_true up) (not_lt.mpr low)
    · refine ⟨ext.stop, fun h => absurd h up, fun _ => rfl, le_rfl, bounded,
        fun x _ after => after, fun _ _ _ => rfl, fun high => absurd ?_ up⟩
      cases limiter with
      | none => rfl
      | some l => exact decide_eq_true (high l rfl)
  have clear' : ∀ x ∈ contents t, extentOverlapped ⟨start, stop⟩ x.2.2 = false := by
    have high := expanded.clear
    grind [extentOverlapped]
  refine ⟨⟨start, stop⟩, ?_, startLe, expanded, clear'⟩
  have after := free _ clear'
  rw [intervalExpand, free ext clear]
  simp only [Option.bind_eq_bind, Option.bind_some, Bool.false_eq_true, if_false, startIs]
  by_cases up : limiter.all (fun l => decide (l.stop > ext.stop)) = true
  · simp [up, grown up, after]
  · rw [kept up] at after ⊢
    simp [up, after]

end Ldlm
