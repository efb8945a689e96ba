/-
Module: Lustre.Ldlm.IntervalTree.EraseTwoChildren
Purpose: `interval_erase` of a node with two children: its successor takes over its place.
Trusted boundary: none
-/
import Lustre.Ldlm.IntervalTree.Erase

namespace Ldlm

open PointerHeap PointerHeap.Shape RedBlack List Ldlm.Tree Store

variable {P : Type}

variable {spine : Context P NodeData}

/-- A context all of whose frames are left ones has nothing before its hole. -/
theorem before_of_left (h : ∀ frame ∈ spine, frame.side = .left) : contentsBefore spine = [] := by
  induction spine with
  | nil => rfl
  | cons frame spine ih =>
    obtain ⟨side, p, d, sibling⟩ := frame
    obtain rfl : side = .left := h ⟨side, p, d, sibling⟩ (by simp)
    exact ih fun frame mem => h frame (by simp [mem])

/-- The contents around a node whose right subtree is focused. -/
theorem contents_place (spine ctx : Context P NodeData) (p : P) (d : NodeData)
    (l t : Shape P NodeData) : contents (plug (spine ++ ⟨.right, p, d, l⟩ :: ctx) t) =
      contentsBefore ctx ++ contents l ++ (p, d.intree, d.extent) ::
        (contentsBefore spine ++ contents t ++ contentsAfter spine ++ contentsAfter ctx) := by
  rw [plug_append]
  change contents (plug ctx (.node p d l (plug spine t))) = _
  rw [contents_plug, contents_node, contents_plug]
  simp

/-- The contents around a node do not change with the maxima. -/
theorem contents_exchange {spine spine' ctx ctx' : Context P NodeData} {p : P} {d d' : NodeData}
    {l t : Shape P NodeData} (hctx : ∀ t, contents (plug ctx' t) = contents (plug ctx t))
    (hspine : ∀ t, contents (plug spine' t) = contents (plug spine t))
    (flag : d'.intree = d.intree) (extent : d'.extent = d.extent) :
    contents (plug (spine' ++ ⟨.right, p, d', l⟩ :: ctx') t) =
      contents (plug (spine ++ ⟨.right, p, d, l⟩ :: ctx) t) := by
  rw [plug_append, plug_append]
  refine (hctx _).trans (contents_plug_congr ?_ ctx)
  change contents (.node p d' l (plug spine' t)) = contents (.node p d l (plug spine t))
  rw [contents_node, contents_node, hspine, flag, extent]

variable {s : Tree P} {ctx : Context P NodeData} {fuel : Nat}

/-- `interval_first` walks down the left links to a node without a left child. -/
theorem intervalFirst_spine {t : Shape P NodeData} {p : P} (enough : t.ptrs.length ≤ fuel)
    (h : Represents s (plug ctx t)) (root : t.ptr? = some p) :
    ∃ spine next dn child, t = plug spine (.node next dn .nil child) ∧
      (∀ frame ∈ spine, frame.side = .left) ∧ spine.length < t.ptrs.length ∧
      intervalFirst fuel s p = some next := by
  induction t generalizing fuel ctx p with
  | nil => simp at root
  | node q d l r ihl _ =>
    obtain rfl : q = p := by simpa using root
    simp only [ptrs_node, length_append, length_cons] at enough
    obtain _ | rest := fuel
    · omega
    have focus : Represents s (plug ctx (sided .left q d l r)) := h
    have link : (s.heap q).left = l.ptr? := by rw [focus.cell]; rfl
    cases left : l.ptr? with
    | none =>
      obtain rfl := ptr?_eq_none.mp left
      refine ⟨[], q, d, r, rfl, by simp, by simp, ?_⟩
      simp [intervalFirst, link]
    | some q' =>
      have down : Represents s (plug (⟨.left, q, d, r⟩ :: ctx) l) := h
      have enoughLeft : l.ptrs.length ≤ rest := by omega
      obtain ⟨spine, next, dn, child, same, sides, short, run⟩ := ihl enoughLeft down left
      refine ⟨spine ++ [⟨.left, q, d, r⟩], next, dn, child, ?_, ?_, ?_, ?_⟩
      · rw [plug_append, ← same]
        rfl
      · grind
      · simp only [length_append, length_cons, length_nil, ptrs_node]
        omega
      · rw [left] at link
        simpa [intervalFirst, link] using run

variable [DecidableEq P]

variable {old next parent : P} {d dn : NodeData} {l child : Shape P NodeData}

/-- The relinking moves the successor into the place of the removed node, whose fields stay. -/
theorem eraseReplace_represents
    (h : Represents s (plug (spine ++ ⟨.right, old, d, l⟩ :: ctx) (sided .left next dn .nil child)))
    (sides : ∀ frame ∈ spine, frame.side = .left)
    (above : Context.parent (spine ++ ⟨.right, old, d, l⟩ :: ctx) = some parent) :
    let s' := eraseReplace s old next parent child.ptr?
    Represents s' (plug (spine ++ ⟨.right, next, { dn with color := d.color }, l⟩ :: ctx) child) ∧
      SameOutside s s'
        (plug (spine ++ ⟨.right, old, d, l⟩ :: ctx) (sided .left next dn .nil child)).ptrs ∧
      s'.heap old = ⟨l.ptr?, (plug spine child).ptr?, ctx.parent, d⟩ := by
  intro s'
  obtain ⟨_, spliced, out₁, same₁⟩ := h.splice
  have gone : next ∉ (plug (spine ++ ⟨.right, old, d, l⟩ :: ctx) child).ptrs := by
    rw [mem_ptrs_plug, not_or]
    exact ⟨fun mem => h.disjoint next mem (by simp), (nodup_sided.mp h.nodup_focus).2.1⟩
  -- the first two assignments splice the successor out
  let s₁ : Tree P := (s.setParent? child.ptr? (some parent)).writeSlot
    (Context.slot (spine ++ ⟨.right, old, d, l⟩ :: ctx)) child.ptr?
  rw [above] at spliced out₁ same₁
  have unlink : (if parent = old then (s.setParent? child.ptr? (some parent)).setChild .right parent
        child.ptr?
      else (s.setParent? child.ptr? (some parent)).setChild .left parent child.ptr?) = s₁ := by
    cases spine with
    | nil =>
      obtain rfl : old = parent := by simpa using above
      simp [s₁, writeSlot]
    | cons frame spine =>
      obtain rfl : frame.ptr = parent := by simpa using above
      have isLeft : frame.side = .left := sides frame (by simp)
      have different : frame.ptr ≠ old := by
        intro same
        have nodup := (nodup_plug.mp h.nodup).1
        simp only [cons_append, Context.ptrs, nodup_cons, mem_append] at nodup
        have mem : (⟨.right, old, d, l⟩ : Frame P NodeData) ∈
            spine ++ ⟨.right, old, d, l⟩ :: ctx := by simp
        have below := Context.frame_mem_ptrs mem
        rw [← same] at below
        exact nodup.1 (.inr (by rwa [← same]))
      simp [s₁, writeSlot, different, isLeft]
  -- the others put it in the place of the removed node
  have rep₁ : Represents s₁ (plug ctx (.node old d l (plug spine child))) := spliced.append
  have fresh : next ∉ (plug ctx (.node old d l (plug spine child))).ptrs := by
    have := gone
    rwa [plug_append] at this
  let cell : Cell P NodeData := ⟨l.ptr?, (plug spine child).ptr?, ctx.parent, d⟩
  have oldCell : s₁.heap old = cell := by
    have focus : Represents s₁ (plug ctx (sided .left old d l (plug spine child))) := rep₁
    exact focus.cell
  have nextData : (s₁.heap next).data = dn := by rw [same₁, h.cell, Cell.data_sided]
  obtain ⟨linked, replaced, out₂, keep₂, keep₃⟩ :=
    rep₁.substitute { dn with color := d.color } fresh
  have oldFresh : old ∉ ctx.ptrs := fun mem => rep₁.disjoint old mem (by simp)
  have different : old ≠ next := by
    rintro rfl
    exact fresh (mem_ptrs_plug.mpr (.inr (by simp)))
  have apart : l.ptr? ≠ some old := by
    intro same
    exact (nodup_node.mp rep₁.nodup_focus).1 (mem_ptrs_of_ptr? same)
  let newCell : Cell P NodeData :=
    ⟨l.ptr?, (plug spine child).ptr?, ctx.parent, { dn with color := d.color }⟩
  let s₂ : Tree P := { s₁ with heap := Function.update s₁.heap next newCell }
  have store : s' = ((s₂.writeSlot ctx.slot (some next)).setParent? l.ptr?
      (some next)).setParent? (plug spine child).ptr? (some next) := by
    -- the fields of the removed node are read between the assignments
    have read₀ : (setColor s₁ next d.color).heap old = cell := by
      rw [setColor, modifyData_heap, if_neg different, oldCell]
    have read₁ : (setChild (setColor s₁ next d.color) .right next
        (plug spine child).ptr?).heap old = cell := by
      rw [setChild_heap, if_neg different, read₀]
    have read₂ : (setChild (setChild (setColor s₁ next d.color) .right next
        (plug spine child).ptr?) .left next l.ptr?).heap old = cell := by
      rw [setChild_heap, if_neg different, read₁]
    have written : setParent (setChild (setChild (setColor s₁ next d.color)
        .right next (plug spine child).ptr?) .left next l.ptr?) next ctx.parent = s₂ := by
      rw [setColor, assign_cell, nextData]
    have read₃ : s₂.heap old = cell := by
      rw [← oldCell]
      exact Function.update_of_ne different _ _
    have redirect : s₂.replaceChild .left ctx.parent old (some next) =
        s₂.writeSlot ctx.slot (some next) :=
      replaceChild_eq_writeSlot linked oldFresh
    have read₄ : (s₂.writeSlot ctx.slot (some next)).heap old = cell :=
      keep₂.trans oldCell
    have read₅ : ((s₂.writeSlot ctx.slot (some next)).setParent? l.ptr?
        (some next)).heap old = cell := by
      rw [setParent?_heap, if_neg apart, read₄]
    have nodeOld : Tree.node s₁ old = d := by rw [Tree.node, oldCell]
    simp only [s', eraseReplace, unlink, nodeOld, read₀, read₁, read₂, cell, written, read₃,
      redirect, read₄, read₅]
  refine ⟨?_, ?_, ?_⟩
  · rw [store, plug_append]
    exact replaced
  · rw [store]
    refine out₁.trans (out₂.mono fun x hx => ?_)
    rcases mem_cons.mp hx with rfl | hx
    · exact mem_ptrs_plug.mpr (.inr (by simp))
    · have hx : x ∈ (plug (spine ++ ⟨.right, old, d, l⟩ :: ctx) child).ptrs := by
        rw [plug_append]
        exact hx
      rcases mem_ptrs_plug.mp hx with hx | hx
      · exact mem_ptrs_plug.mpr (.inl hx)
      · exact mem_ptrs_plug.mpr (.inr (by simp [hx]))
  · rw [store]
    exact keep₃.trans oldCell

/-! ### Repairing the maxima -/

/-- After the relinking `next` holds the place of `old` with the maximum of its own, and `old` keeps its
fields. -/
structure Exchanged (s : Tree P) (ctx spine : Context P NodeData) (old next : P)
    (d dn : NodeData) (l child : Shape P NodeData) : Prop where
  represents : Represents s
    (plug (spine ++ ⟨.right, next, { dn with color := d.color }, l⟩ :: ctx) child)
  oldCell : s.heap old = ⟨l.ptr?, (plug spine child).ptr?, ctx.parent, d⟩
  oldGone : old ∉
    (plug (spine ++ ⟨.right, next, { dn with color := d.color }, l⟩ :: ctx) child).ptrs
  childExact : MaxExact child
  leftExact : MaxExact l
  spineExact : ContextExact spine dn.maxHigh
  ctxExact : ContextExact ctx d.maxHigh
  nextMax : dn.maxHigh = max dn.extent.stop (high child)
  oldMax : d.maxHigh = max d.extent.stop (max (high l) (max dn.maxHigh (highContext spine)))

/-- The largest end below the successor in its new place. -/
def nextHigh (spine : Context P NodeData) (dn : NodeData) (l child : Shape P NodeData) : Nat :=
  max dn.extent.stop (max (max (high child) (highContext spine)) (high l))

omit [DecidableEq P] in
theorem nextHigh_eq (spine : Context P NodeData) (dn : NodeData) (l child : Shape P NodeData) :
    nextHigh spine dn l child =
      max dn.extent.stop (max (high (plug (refit (high child) spine) child)) (high l)) := by
  rw [high_plug, highContext_refit]
  rfl

/-- What the first walk leaves for the second one. -/
structure Halfway (s s' : Tree P) (ctx ctx' spine : Context P NodeData) (old next : P)
    (d dn dn' : NodeData) (l child : Shape P NodeData) : Prop where
  represents : Represents s'
    (plug (refit (high child) spine ++ ⟨.right, next, dn', l⟩ :: ctx') child)
  data : dn' = { dn with color := d.color, maxHigh := dn'.maxHigh }
  context : ∃ m, ctx' = refit m ctx
  exact : ContextExact ctx' (max (Tree.node s' old).maxHigh (nextHigh spine dn l child))
  outside : SameOutside s s'
    (old :: (plug (spine ++ ⟨.right, next, { dn with color := d.color }, l⟩ :: ctx) child).ptrs)
  flag : (Tree.node s' old).intree = d.intree

/-- The first walk when the successor was a leaf below the removed node: it starts there, outside
the tree. -/
theorem firstUpdate_unlinked (enough : ctx.length + 2 < fuel)
    (h : Exchanged s ctx [] old next d dn l .nil) :
    ∃ s' ctx' dn', updateMaxhigh fuel s (some old) dn.maxHigh = some s' ∧
      Halfway s s' ctx ctx' [] old next d dn dn' l .nil := by
  obtain _ | rest := fuel
  · omega
  have nextMax := h.nextMax
  have oldMax := h.oldMax
  simp only [high, highContext] at nextMax oldMax
  let m := max d.extent.stop (high l)
  let t : Shape P NodeData := .node next { dn with color := d.color } l .nil
  have rep : Represents s (plug ctx t) := h.represents
  have gone : old ∉ (plug ctx t).ptrs := h.oldGone
  have computed : childrenMax s old = m := by
    have left : Tree.maxHighOr0 s l.ptr? = high l := by
      rw [maxHighOr0_eq rfl ((holds_plug _ _ _).mp rep.holds).2.2.1, h.leftExact.storedHigh]
    have right : Tree.maxHighOr0 s none = 0 := rfl
    simp [childrenMax, intervalHigh, Tree.node, h.oldCell, left, right, m, plug]
  let s₁ : Tree P := setMaxHigh s old m
  have oldData : Tree.node s₁ old = { d with maxHigh := m } := by
    simp [s₁, Tree.node, setMaxHigh, modifyData_heap, h.oldCell]
  have rep₁ : Represents s₁ (plug ctx t) := by
    have := rep.modifyData old fun d => { d with maxHigh := m }
    rwa [Shape.modify_of_not_mem gone] at this
  have out₁ : SameOutside s s₁ (old :: (plug ctx t).ptrs) :=
    modifyData_same s _ (by simp)
  have up : (s₁.heap old).parent = ctx.parent := by
    simp [s₁, setMaxHigh, modifyData_heap, h.oldCell]
  by_cases stop : dn.maxHigh ≤ m
  · have context : ctx = refit d.maxHigh ctx := (refit_of_exact h.ctxExact).symm
    refine ⟨s₁, ctx, { dn with color := d.color }, ?_, rep₁, rfl, ⟨_, context⟩, ?_, out₁,
      by rw [oldData]⟩
    · simp [updateMaxhigh, computed, stop, s₁]
    · grind [nextHigh, high, highContext, cases Exchanged, cases Halfway, cases Represents]
  · -- the end of the successor is the largest one of all, so every maximum is exact already
    have tHigh : high t = dn.maxHigh := by
      simp only [t, high, m] at *
      omega
    have tExact : MaxExact t := ⟨tHigh.symm, h.leftExact, trivial⟩
    have exactCtx : ContextExact ctx (max dn.maxHigh (high t)) := by
      have same : max dn.maxHigh (high t) = d.maxHigh := by omega
      rw [same]
      exact h.ctxExact
    have enoughUp : ctx.length + 1 < rest := by omega
    obtain ⟨s₂, run, rep₂, out₂⟩ := updateMaxhigh_parent enoughUp rep₁ tExact exactCtx
    have oldData₂ : Tree.node s₂ old = { d with maxHigh := m } := by
      rw [← oldData, Tree.node, out₂ old gone]
      rfl
    refine ⟨s₂, refit (high t) ctx, { dn with color := d.color }, ?_, rep₂, rfl, ⟨_, rfl⟩, ?_,
      out₁.trans (out₂.mono fun x hx => mem_cons_of_mem _ hx), by rw [oldData₂]⟩
    · have step : updateMaxhigh (rest + 1) s (some old) dn.maxHigh =
          updateMaxhigh rest s₁ (s₁.heap old).parent dn.maxHigh := by
        simp [updateMaxhigh, computed, stop, s₁]
      rw [step, up, run]
    · grind [nextHigh, high, highContext, ContextExact.refit]

/-- The first walk when it starts inside the tree. -/
theorem firstUpdate_linked (enough : spine.length + 1 < fuel) (start : child = .nil → spine ≠ [])
    (h : Exchanged s ctx spine old next d dn l child) :
    ∃ s' ctx' dn', updateMaxhigh fuel s (child.ptr?.or (Context.parent
        (spine ++ ⟨.right, next, { dn with color := d.color }, l⟩ :: ctx))) dn.maxHigh = some s' ∧
      Halfway s s' ctx ctx' spine old next d dn dn' l child := by
  have nextMax := h.nextMax
  let dn₁ : NodeData := { dn with color := d.color }
  have exactSpine : ContextExact spine (max dn.maxHigh (high child)) := by
    have same : max dn.maxHigh (high child) = dn.maxHigh := by omega
    rw [same]
    exact h.spineExact
  have enoughSpine : spine.length < fuel := by omega
  obtain ⟨s₁, rep₁, out₁, done⟩ := updateMaxhigh_holeInner (⟨.right, next, dn₁, l⟩ :: ctx)
    enoughSpine start h.represents h.childExact exactSpine
  have oldData : Tree.node s₁ old = d := by
    rw [Tree.node, out₁ old h.oldGone, h.oldCell]
  have context : ctx = refit d.maxHigh ctx := (refit_of_exact h.ctxExact).symm
  have exactCtx : ContextExact ctx (max (Tree.node s₁ old).maxHigh (nextHigh spine dn l child)) := by
    grind [nextHigh, cases Exchanged, cases Halfway, cases Represents]
  have out₁ : SameOutside s s₁
      (old :: (plug (spine ++ ⟨.right, next, dn₁, l⟩ :: ctx) child).ptrs) :=
    out₁.mono fun x hx => mem_cons_of_mem _ hx
  rcases done with done | ⟨small, fuel', bound, done⟩
  · exact ⟨s₁, ctx, dn₁, done, rep₁, rfl, ⟨_, context⟩, exactCtx, out₁, by rw [oldData]⟩
  · -- the walk reaches the successor in its new place, whose own end stops it
    obtain ⟨rest, rfl⟩ : ∃ rest, fuel' = rest + 1 := ⟨fuel' - 1, by omega⟩
    let below : Shape P NodeData := plug (refit (high child) spine) child
    have belowExact : MaxExact below :=
      maxExact_plug.mpr ⟨exactSpine.refit _, h.childExact⟩
    have focus : Represents s₁ (plug ctx (sided .right next dn₁ below l)) := rep₁.append
    obtain ⟨rep₂, out₂, run⟩ := updateMaxhigh_step (d := dn₁) belowExact h.leftExact
      (nextHigh_eq spine dn l child) rest dn.maxHigh focus
    have stop : dn.maxHigh ≤ nextHigh spine dn l child := by
      rw [nextHigh]
      omega
    rw [if_pos stop] at run
    have samePtrs : (plug ctx (sided .right next dn₁ below l)).ptrs =
        (plug (spine ++ ⟨.right, next, dn₁, l⟩ :: ctx) child).ptrs := by
      rw [← contents_ptrs (contents_exchange (fun _ => rfl) (contents_refit (high child) spine) rfl rfl),
        plug_append]
      rfl
    have gone : old ∉ (plug ctx (sided .right next dn₁ below l)).ptrs := samePtrs ▸ h.oldGone
    have oldData₂ : Tree.node (setMaxHigh s₁ next (nextHigh spine dn l child)) old = d := by
      rw [← oldData, Tree.node, out₂ old gone]
      rfl
    refine ⟨_, ctx, { dn₁ with maxHigh := nextHigh spine dn l child }, done.trans run, ?_, rfl,
      ⟨_, context⟩, ?_, ?_, by rw [oldData₂]⟩
    · rw [plug_append]
      exact rep₂
    · rw [oldData₂, ← oldData]
      exact exactCtx
    · refine out₁.trans (out₂.mono fun x hx => ?_)
      rw [samePtrs] at hx
      exact mem_cons_of_mem _ hx

theorem firstUpdate (enough : spine.length + ctx.length + 2 < fuel)
    (above : Context.parent (spine ++ ⟨.right, old, d, l⟩ :: ctx) = some parent)
    (h : Exchanged s ctx spine old next d dn l child) :
    ∃ s' ctx' dn', updateMaxhigh fuel s (child.ptr?.or (some parent)) dn.maxHigh = some s' ∧
      Halfway s s' ctx ctx' spine old next d dn dn' l child := by
  by_cases unlinked : child = .nil ∧ spine = []
  · obtain ⟨rfl, rfl⟩ := unlinked
    obtain rfl : old = parent := by simpa using above
    have enoughUp : ctx.length + 2 < fuel := by simpa using enough
    exact firstUpdate_unlinked enoughUp h
  · have start : child = .nil → spine ≠ [] := fun isNil isEmpty => unlinked ⟨isNil, isEmpty⟩
    have enoughSpine : spine.length + 1 < fuel := by omega
    obtain ⟨s', ctx', dn', run, half⟩ := firstUpdate_linked enoughSpine start h
    refine ⟨s', ctx', dn', ?_, half⟩
    rw [← run]
    cases child with
    | node p d l r => rfl
    | nil =>
      cases spine with
      | nil => exact absurd rfl (start rfl)
      | cons frame spine =>
        rw [cons_append, Context.parent_cons] at above ⊢
        rw [above]

/-- The parent of the spliced subtree after the relinking. -/
theorem parent_exchanged {ctx' : Context P NodeData} {d' : NodeData} {m : Nat}
    (above : Context.parent (spine ++ ⟨.right, old, d, l⟩ :: ctx) = some parent)
    (gone : ∀ frame ∈ spine, frame.ptr ≠ old) :
    Context.parent (refit m spine ++ ⟨.right, next, d', l⟩ :: ctx') =
      some (if parent = old then next else parent) := by
  cases spine with
  | nil =>
    obtain rfl : old = parent := by simpa using above
    simp [refit]
  | cons frame spine =>
    obtain rfl : frame.ptr = parent := by simpa using above
    simp [refit, gone frame (by simp)]

theorem eraseTwoChildren_removed {rp : P} {r : Shape P NodeData} {k : Nat}
    (enough : (plug ctx (.node old d l r)).ptrs.length < fuel) (right : r.ptr? = some rp)
    (h : Represents s (plug ctx (.node old d l r))) (exact : MaxExact (plug ctx (.node old d l r)))
    (balanced : Balanced NodeData.color (plug ctx (.node old d l r)) .black k) :
    ∃ s' t', eraseTwoChildren fuel s old = some s' ∧
      Removed s s' old (plug ctx (.node old d l r)) t' := by
  have size := length_plug ctx (.node old d l r)
  simp only [ptrs_node, length_append, length_cons] at size
  have down : Represents s (plug (⟨.right, old, d, l⟩ :: ctx) r) := h
  have enoughRight : r.ptrs.length ≤ fuel := by omega
  obtain ⟨spine, next, dn, child, rfl, sides, short, first⟩ :=
    intervalFirst_spine enoughRight down right
  have enoughAll : spine.length + ctx.length + 2 < fuel := by omega
  have focus : Represents s (plug (spine ++ ⟨.right, old, d, l⟩ :: ctx)
      (sided .left next dn .nil child)) := by
    rw [plug_append]
    exact h
  obtain ⟨parent, above⟩ :
      ∃ parent, Context.parent (spine ++ ⟨.right, old, d, l⟩ :: ctx) = some parent := by
    cases spine with
    | nil => exact ⟨old, rfl⟩
    | cons frame spine => exact ⟨frame.ptr, rfl⟩
  -- relink
  obtain ⟨rep₁, out₁, oldCell⟩ := eraseReplace_represents focus sides above
  let s₁ : Tree P := eraseReplace s old next parent child.ptr?
  let dn₁ : NodeData := { dn with color := d.color }
  let t₁ : Shape P NodeData := plug (spine ++ ⟨.right, next, dn₁, l⟩ :: ctx) child
  let after := (next, dn.intree, dn.extent) :: (contents child ++ contentsAfter spine ++
    contentsAfter ctx)
  have contentsT : contents (plug ctx (.node old d l (plug spine (.node next dn .nil child)))) =
      (contentsBefore ctx ++ contents l) ++ (old, d.intree, d.extent) :: after := by
    have place := contents_place spine ctx old d l (.node next dn .nil child)
    rw [plug_append] at place
    exact place.trans (by simp [before_of_left sides, after])
  have contents₁ : contents t₁ = (contentsBefore ctx ++ contents l) ++ after := by
    rw [contents_place, before_of_left sides]
    simp [dn₁, after]
  have gone : old ∉ t₁.ptrs := by
    have nodup := h.nodup
    rw [ptrs_eq_contents, contentsT, map_append, map_cons, perm_middle.nodup_iff,
      nodup_cons] at nodup
    rw [ptrs_eq_contents, contents₁, map_append]
    exact nodup.1
  have sub₁ : ∀ x ∈ t₁.ptrs,
      x ∈ (plug ctx (.node old d l (plug spine (.node next dn .nil child)))).ptrs := by
    intro x hx
    rw [ptrs_eq_contents, contents₁, map_append, mem_append] at hx
    rw [ptrs_eq_contents, contentsT, map_append, map_cons, mem_append, mem_cons]
    tauto
  -- the maxima before the deletion
  obtain ⟨ctxExact, oldMax, leftExact, rightExact⟩ := maxExact_plug.mp exact
  obtain ⟨spineExact, nextMax, _, childExact⟩ := maxExact_plug.mp rightExact
  have exchanged : Exchanged s₁ ctx spine old next d dn l child := by
    grind [high, high_plug, cases Removed, cases Exchanged, cases Represents,
      intro Removed, intro Exchanged, intro Represents]
  obtain ⟨s₂, ctx', dn', walk₁, half⟩ := firstUpdate enoughAll above exchanged
  obtain ⟨m', rfl⟩ := half.context
  let below : Shape P NodeData := plug (refit (high child) spine) child
  have belowExact : MaxExact below :=
    maxExact_plug.mpr ⟨exchanged.spineExact.refit _, childExact⟩
  have focus₂ : Represents s₂ (plug (refit m' ctx) (sided .right next dn' below l)) :=
    half.represents.append
  have sameExtent : dn'.extent = dn.extent := by rw [half.data]
  have value : nextHigh spine dn l child = max dn'.extent.stop (max (high below) (high l)) := by
    rw [sameExtent, nextHigh_eq]
  have enoughUp : (refit m' ctx).length + 1 < fuel := by
    rw [length_refit]
    omega
  obtain ⟨s₃, walk₂, rep₃, out₃⟩ :=
    updateMaxhigh_node belowExact leftExact value enoughUp focus₂ half.exact
  -- the context of the spliced subtree after both walks
  let dn₃ : NodeData := { dn' with maxHigh := nextHigh spine dn l child }
  let outer : Context P NodeData := refit (nextHigh spine dn l child) ctx
  let whole : Context P NodeData := refit (high child) spine ++ ⟨.right, next, dn₃, l⟩ :: outer
  rw [refit_refit] at rep₃
  have rep₃ : Represents s₃ (plug whole child) := by
    rw [plug_append]
    exact rep₃
  have exact₃ : MaxExact (plug whole child) := by
    rw [plug_append]
    change MaxExact (plug outer (sided .right next dn₃ below l))
    refine maxExact_plug.mpr ⟨?_, maxExact_sided.mpr ⟨value, belowExact, leftExact⟩⟩
    rw [high_sided, ← value]
    exact exchanged.ctxExact.refit _
  have balancedFocus : Balanced NodeData.color (plug (spine ++ ⟨.right, old, d, l⟩ :: ctx)
      (sided .left next dn .nil child)) .black k := by
    rw [plug_append]
    exact balanced
  obtain ⟨cc, j, bchild, isBlack, accepts⟩ := balanced_child balancedFocus
  have colors : SameColors NodeData.color (spine ++ ⟨.right, old, d, l⟩ :: ctx) whole := by
    refine (sameColors_refit _ _).append (.cons ⟨?_, rfl⟩ (sameColors_refit _ _))
    change dn'.color = d.color
    rw [half.data]
  have enoughFix : whole.length + 1 < fuel := by
    simp only [whole, outer, length_append, length_cons, length_refit]
    omega
  obtain ⟨s₄, t', fix, rebuilt, done⟩ :=
    eraseColor_if enoughFix rep₃ exact₃ bchild isBlack (accepts.congr colors)
  have sameFlag : dn'.intree = dn.intree := by rw [half.data]
  have ptrs₂ : (plug (refit (high child) spine ++ ⟨.right, next, dn', l⟩ :: refit m' ctx) child).ptrs =
      t₁.ptrs :=
    contents_ptrs (contents_exchange (contents_refit _ _) (contents_refit _ _) sameFlag sameExtent)
  have contents₃ : contents (plug whole child) = contents t₁ :=
    contents_exchange (contents_refit _ _) (contents_refit _ _) sameFlag sameExtent
  rw [plug_append] at ptrs₂
  have ptrs₃ := contents_ptrs contents₃
  have out₃ : SameOutside s₂ s₃ t₁.ptrs := ptrs₂ ▸ out₃
  have out₄ : SameOutside s₃ s₄ t₁.ptrs := ptrs₃ ▸ rebuilt.outside
  have node : Represents s (plug ctx (sided .left old d l
      (plug spine (.node next dn .nil child)))) := h
  refine ⟨s₄, t', ?_, rebuilt.represents, rebuilt.maxExact, done, ?_, ?_, ?_⟩
  · have link : (s.heap old).right = some rp := by
      rw [node.cell, ← right]
      rfl
    have nextLink : intervalNext fuel s old = some (some next) := by
      simp [intervalNext, link, first]
    have place₁ : Represents s₁ (plug ctx (sided .right next dn₁ (plug spine child) l)) := rep₁.append
    have nextParent : Context.parent whole = some (if parent = old then next else parent) :=
      parent_exchanged above fun frame mem same =>
        gone (same ▸ mem_ptrs_plug.mpr (.inl (Context.frame_mem_ptrs (by simp [mem]))))
    have cell := focus.cell
    rw [above] at cell
    rw [nextParent] at fix
    have nextMaxHigh : (Tree.node s₁ next).maxHigh = dn.maxHigh := by rw [node_eq place₁]
    rw [eraseTwoChildren, nextLink]
    simp only [Option.bind_eq_bind, Option.bind_some, cell, Cell.sided, node_eq focus]
    rw [nextMaxHigh, walk₁, Option.bind_some, walk₂, Option.bind_some, fix]
  · have nodup := h.nodup
    rw [ptrs_eq_contents, contentsT] at nodup
    rw [rebuilt.contents, contents₃, contents₁, contentsT, filter_ne_split nodup]
  · rw [plug_append] at out₁
    have out₂ := half.outside.mono
      (forall_mem_cons.mpr ⟨mem_ptrs_plug.mpr (.inr (by simp)), sub₁⟩)
    exact ((out₁.trans out₂).trans (out₃.mono sub₁)).trans (out₄.mono sub₁)
  · have oldFlag : (Tree.node s₄ old).intree = d.intree := by
      rw [Tree.node, out₄ old gone, out₃ old gone]
      exact half.flag
    rw [oldFlag, node_eq node]

/-- `interval_erase` of a node in the tree removes it and keeps the invariant. -/
theorem intervalErase_wellFormed {t : Shape P NodeData} {p : P} (wf : WellFormed s t)
    (enough : t.ptrs.length < fuel) (mem : p ∈ t.ptrs) :
    ∃ s' t', intervalErase fuel s p = some s' ∧ WellFormed s' t' ∧
      contents t' = (contents t).filter (fun x => x.1 ≠ p) ∧ SameOutside s s' t.ptrs ∧
      (Tree.node s' p).intree = false := by
  obtain ⟨ctx, d, l, r, rfl⟩ := exists_plug mem
  obtain ⟨k, balanced⟩ := wf.balanced
  have focus : Represents s (plug ctx (sided .left p d l r)) := wf.represents
  have isIn : d.intree = true := by
    refine wf.intree (p, d.intree, d.extent) ?_
    rw [contents_plug, contents_node]
    simp
  -- the flag is cleared first
  let d₁ : NodeData := { d with intree := false }
  let s₁ : Tree P := setIntree s p false
  have rep₁ : Represents s₁ (plug ctx (sided .left p d₁ l r)) := focus.modifyFocus _
  have out₁ : SameOutside s s₁ (plug ctx (.node p d l r)).ptrs := modifyData_same s _ mem
  have exact₁ : MaxExact (plug ctx (.node p d₁ l r)) := by
    obtain ⟨hctx, stored, hl, hr⟩ := maxExact_plug.mp wf.maxExact
    exact maxExact_plug.mpr ⟨hctx, stored, hl, hr⟩
  obtain ⟨k₁, balanced₁⟩ := balanced_plug_data d₁ balanced rfl
  have contents₁ : (contents (plug ctx (.node p d₁ l r))).filter (fun x => x.1 ≠ p) =
      (contents (plug ctx (.node p d l r))).filter (fun x => x.1 ≠ p) := by
    rw [contents_plug, contents_plug, contents_node, contents_node]
    simp [filter_append]
  have ptrs₁ : (plug ctx (.node p d₁ l r)).ptrs = (plug ctx (.node p d l r)).ptrs := by
    rw [ptrs_eq_contents, ptrs_eq_contents, contents_plug, contents_plug]
    simp
  have flag₁ : (Tree.node s₁ p).intree = false := by rw [node_eq rep₁]
  have cell := rep₁.cell
  have size := length_plug ctx (.node p d l r)
  simp only [ptrs_node, length_append, length_cons] at size
  have enoughUp : ctx.length + 1 < fuel := by omega
  have removed : ∃ s' t', intervalErase fuel s p = some s' ∧
      Removed s₁ s' p (plug ctx (.node p d₁ l r)) t' := by
    simp only [intervalErase, node_eq focus, isIn, if_true]
    rw [show setIntree s p false = s₁ from rfl, cell]
    cases left : l.ptr? with
    | none =>
      obtain rfl := ptr?_eq_none.mp left
      exact eraseOneChild_removed enoughUp rep₁ exact₁ balanced₁
    | some lp =>
      cases right : r.ptr? with
      | none =>
        obtain rfl := ptr?_eq_none.mp right
        have mirrored : Represents s₁ (plug ctx (sided .right p d₁ .nil l)) := rep₁
        have := eraseOneChild_removed enoughUp mirrored exact₁ balanced₁
        rwa [left] at this
      | some rp => exact eraseTwoChildren_removed (ptrs₁ ▸ enough) right rep₁ exact₁ balanced₁
  obtain ⟨s', t', run, gone⟩ := removed
  have contents' : contents t' =
      (contents (plug ctx (.node p d l r))).filter (fun x => x.1 ≠ p) :=
    gone.contents.trans contents₁
  have inside : ∀ x ∈ contents t', x ∈ contents (plug ctx (.node p d l r)) := by
    intro x hx
    rw [contents'] at hx
    exact mem_of_mem_filter hx
  refine ⟨s', t', run, ⟨gone.represents, ?_, gone.balanced, gone.maxExact,
    fun x hx => wf.proper x (inside x hx), fun x hx => wf.intree x (inside x hx)⟩, contents',
    out₁.trans (ptrs₁ ▸ gone.outside), gone.flag.trans flag₁⟩
  rw [contents']
  exact wf.ordered.sublist filter_sublist

end Ldlm
