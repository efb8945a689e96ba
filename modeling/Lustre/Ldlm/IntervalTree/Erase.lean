/-
Module: Lustre.Ldlm.IntervalTree.Erase
Purpose: `interval_erase`: `interval_erase_color` repairs a missing black node, the walk of
  `update_maxhigh` the maxima above a removed extent.
Trusted boundary: none
-/
import Lustre.Ldlm.IntervalTree.Invariant

namespace Ldlm

open PointerHeap PointerHeap.Shape RedBlack Context Ldlm.Tree NodeData

variable {P : Type} [DecidableEq P]

variable {s : Tree P} {k : Nat} {side : Side} {cn cf : Color} {ctx : Context P NodeData}

/-- The loop ends at a red node, which is painted black. -/
theorem eraseColor_red (fuel : Nat) (parent : Option P) {p : P} {d : NodeData}
    {n f : Shape P NodeData} (h : Represents s (plug ctx (sided side p d n f)))
    (exact : MaxExact (plug ctx (sided side p d n f))) (isRed : d.color = .red)
    (hn : Balanced color n cn k) (hf : Balanced color f cf k)
    (hctx : Accepts color ctx .black (k + 1)) :
    Fixes s (plug ctx (sided side p d n f)) (intervalEraseColor (fuel + 1) s (some p) parent) := by
  have step := Rebuilt.recolor ctx h exact .black
  refine ⟨setColor s p .black, _, ?_, step, (Balanced.blackSided rfl hn hf).plug hctx⟩
  simp [intervalEraseColor, Tree.nodeIsBlackOr0, node_eq h, isRed, setColor?]

variable {t : Shape P NodeData}

/-- The loop ends at the root. -/
theorem eraseColor_root (fuel : Nat) (parent : Option P) (h : Represents s t) (exact : MaxExact t)
    (ht : Balanced color t .black k) : Fixes s t (intervalEraseColor (fuel + 1) s t.ptr? parent) := by
  have step : Rebuilt s (setColor? s t.ptr? .black) t (paint .black t) :=
    .paint [] h exact .black
  refine ⟨_, _, ?_, step, balanced_paint_black ht⟩
  simp [intervalEraseColor, h.root]

variable {w g : P} {dw dg : NodeData} {near far : Shape P NodeData}

omit [DecidableEq P] in
/-- The two tests on the nephews, from the sibling's side. -/
theorem nephews_eq (h : Represents s (plug ctx (sided side w dw near far)))
    (hnear : Balanced color near cn k) (hfar : Balanced color far cf k) :
    (Tree.nodeIsBlackOr0 s (s.heap w).left && Tree.nodeIsBlackOr0 s (s.heap w).right) =
      (decide (cn = .black) && decide (cf = .black)) := by
  have atNear : Represents s (plug (⟨side, w, dw, far⟩ :: ctx) near) := h
  have atFar : Represents s (plug (⟨side.flip, w, dw, near⟩ :: ctx) far) := by
    rwa [plug, sided_flip]
  have nearColor := nodeIsBlackOr0_eq atNear hnear
  have farColor := nodeIsBlackOr0_eq atFar hfar
  rw [h.cell]
  cases side with
  | left => simp only [Cell.sided, nearColor, farColor]
  | right => simp only [Cell.sided, nearColor, farColor, Bool.and_comm]

section Iteration

variable (ctx : Context P NodeData)
  (h : Represents s (plug ctx (sided side g dg t (sided side w dw near far))))
  (exact : MaxExact (plug ctx (sided side g dg t (sided side w dw near far))))

include h exact

/-- The last rotation of the loop: the sibling is black and its outer child is red. -/
theorem eraseColor_outer (ht : Balanced color t .black k) (hnear : Balanced color near cn k)
    (hfar : Balanced color far .red k)
    (hctx : Accepts color ctx dg.color (heightOver dg.color (k + 1))) :
    ∃ s₃ s₄, setColor? (setColor (setColor s w dg.color) g .black)
          (((setColor (setColor s w dg.color) g .black).heap w).child side.flip) .black =
        s₃ ∧ rotateToward side s₃ g = some s₄ ∧
      Fixes s (plug ctx (sided side g dg t (sided side w dw near far)))
        (some (setColor? s₄ s₄.root .black)) := by
  let dw₁ : NodeData := { dw with color := dg.color }
  let dg₁ : NodeData := { dg with color := .black }
  have step₁ : Rebuilt s (setColor s w dg.color)
      (plug ctx (sided side g dg t (sided side w dw near far)))
      (plug ctx (sided side g dg t (sided side w dw₁ near far))) := by
    rw [← sided_flip, ← sided_flip side g]
    exact Rebuilt.recolor (⟨side.flip, g, dg, t⟩ :: ctx) (by rwa [plug, sided_flip])
      (by rwa [plug, sided_flip]) dg.color
  have step₂ := Rebuilt.recolor ctx step₁.represents step₁.maxExact .black
  -- the outer child, seen from the sibling
  have atFar : Represents (setColor (setColor s w dg.color) g .black)
      (plug (⟨side.flip, w, dw₁, near⟩ :: ⟨side.flip, g, dg₁, t⟩ :: ctx) far) := by
    simpa only [plug, sided_flip] using step₂.represents
  have farLink : ((setColor (setColor s w dg.color) g .black).heap w).child side.flip =
      far.ptr? := by
    rw [atFar.cell_parent, Cell.child_sided]
  have step₃ := Rebuilt.paint (⟨side.flip, w, dw₁, near⟩ :: ⟨side.flip, g, dg₁, t⟩ :: ctx) atFar
    (by simpa only [plug, sided_flip] using step₂.maxExact) .black
  simp only [plug, sided_flip] at step₃
  obtain ⟨s₄, dg₄, dw₄, run, gColor, wColor, step₄⟩ :=
    Rebuilt.rotateToward ctx step₃.represents step₃.maxExact
  have rebuilt := ((step₁.trans step₂).trans step₃).trans step₄
  have low : Balanced color (sided side g dg₄ t near) .black (k + 1) :=
    .blackSided gColor ht hnear
  have top : Balanced color
      (sided side w dw₄ (sided side g dg₄ t near) (paint .black far)) dg.color
      (heightOver dg.color (k + 1)) := by
    have same : dw₄.color = dg.color := wColor
    rw [← same]
    exact Balanced.over low (paintBlack_of_red hfar)
  obtain ⟨m, whole⟩ := top.plug hctx
  have step₅ := Rebuilt.paint [] rebuilt.represents rebuilt.maxExact .black
  refine ⟨_, s₄, rfl, by rwa [farLink], _, _, rfl, ?_, balanced_paint_black whole⟩
  have rootLink := rebuilt.represents.root
  rw [rootLink]
  exact rebuilt.trans step₅

/-- The case of a red inner nephew: one rotation makes the outer nephew red. -/
theorem eraseColorInner_rebuilds (someRed : cf = .black → Balanced color near .red k)
    (hnear : Balanced color near cn k) (hfar : Balanced color far cf k) :
    ∃ s' w' dw' near' far' cn', eraseColorInner side s g w = some (s', w') ∧
      Rebuilt s s' (plug ctx (sided side g dg t (sided side w dw near far)))
        (plug ctx (sided side g dg t (sided side w' dw' near' far'))) ∧
      Balanced color near' cn' k ∧ Balanced color far' .red k := by
  have atW : Represents s (plug (⟨side.flip, g, dg, t⟩ :: ctx) (sided side w dw near far)) := by
    rwa [plug, sided_flip]
  have atFar : Represents s
      (plug (⟨side.flip, w, dw, near⟩ :: ⟨side.flip, g, dg, t⟩ :: ctx) far) := by
    rwa [plug, sided_flip]
  have farLink : (s.heap w).child side.flip = far.ptr? := by
    rw [atW.cell, Cell.child_flip_sided]
  have farColor := nodeIsBlackOr0_eq atFar hfar
  cases cf with
  | red =>
    refine ⟨s, w, dw, near, far, cn, ?_, .refl h exact, hnear, hfar⟩
    simp [eraseColorInner, farLink, farColor]
  | black =>
    have nearRed := someRed rfl
    have nearLink : (s.heap w).child side = near.ptr? := by rw [atW.cell, Cell.child_sided]
    have atNear : Represents s
        (plug (⟨side, w, dw, far⟩ :: ⟨side.flip, g, dg, t⟩ :: ctx) near) := atW
    have exactNear : MaxExact
        (plug (⟨side, w, dw, far⟩ :: ⟨side.flip, g, dg, t⟩ :: ctx) near) := by
      simpa only [plug, sided_flip] using exact
    -- the inner nephew becomes black, the sibling red, and they swap levels
    have step₁ := Rebuilt.paint _ atNear exactNear .black
    obtain ⟨v, dv, a, b, rfl, _, ha, hb⟩ := nearRed.red_inv side.flip
    rw [paint_sided, ptr?_sided] at step₁
    let dv₁ : NodeData := { dv with color := .black }
    let dw₁ : NodeData := { dw with color := .red }
    have step₂ : Rebuilt (setColor? s (some v) .black)
        (setColor (setColor? s (some v) .black) w .red)
        (plug (⟨side, w, dw, far⟩ :: ⟨side.flip, g, dg, t⟩ :: ctx) (sided side.flip v dv₁ a b))
        (plug (⟨side.flip, g, dg, t⟩ :: ctx)
          (sided side.flip w dw₁ far (sided side.flip v dv₁ a b))) := by
      rw [sided_flip side w]
      exact Rebuilt.recolor (⟨side.flip, g, dg, t⟩ :: ctx) step₁.represents step₁.maxExact .red
    obtain ⟨s₃, dw₃, dv₃, run, wColor, vColor, step₃⟩ :=
      Rebuilt.rotateToward (⟨side.flip, g, dg, t⟩ :: ctx) step₂.represents step₂.maxExact
    have rebuilt := (step₁.trans step₂).trans step₃
    have newLink : (s₃.heap g).child side.flip = some v := by
      rw [rebuilt.represents.cell_parent, Cell.child_sided, ptr?_sided]
    refine ⟨s₃, v, dv₃, b, sided side.flip w dw₃ far a, .black, ?_, ?_, hb,
      .redSided wColor hfar ha⟩
    · simp [eraseColorInner, farLink, farColor, nearLink, run, newLink]
    · simpa only [plug, sided_flip] using rebuilt

/-- The end of an iteration with a black sibling; `next` is the following one when the parent is black. -/
theorem eraseColorBlack_rebuilds {fuel : Nat} (ht : Balanced color t .black k)
    (hnear : Balanced color near cn k) (hfar : Balanced color far cf k)
    (hctx : Accepts color ctx dg.color (heightOver dg.color (k + 1)))
    (next : dg.color = .black → ∀ (s : Tree P) (u : Shape P NodeData), Represents s (plug ctx u) →
      MaxExact (plug ctx u) → Balanced color u .black (k + 1) →
        Fixes s (plug ctx u) (intervalEraseColor (fuel + 1) s u.ptr? (parent ctx))) :
    Fixes s (plug ctx (sided side g dg t (sided side w dw near far)))
      (eraseColorBlack (intervalEraseColor (fuel + 1)) side s g w) := by
  have atW : Represents s (plug (⟨side.flip, g, dg, t⟩ :: ctx) (sided side w dw near far)) := by
    rwa [plug, sided_flip]
  have nephews := nephews_eq atW hnear hfar
  by_cases bothBlack : cn = .black ∧ cf = .black
  · obtain ⟨rfl, rfl⟩ := bothBlack
    have step : Rebuilt s (setColor s w .red)
        (plug ctx (sided side g dg t (sided side w dw near far)))
        (plug ctx (sided side g dg t (sided side w { dw with color := .red } near far))) := by
      have exactW : MaxExact (plug (⟨side.flip, g, dg, t⟩ :: ctx) (sided side w dw near far)) := by
        rwa [plug, sided_flip]
      have := Rebuilt.recolor (⟨side.flip, g, dg, t⟩ :: ctx) atW exactW .red
      simpa only [plug, sided_flip] using this
    have redW : Balanced color (sided side w { dw with color := .red } near far) .red k :=
      .redSided rfl hnear hfar
    have up : ((setColor s w .red).heap g).parent = parent ctx := by
      rw [step.represents.cell, Cell.parent_sided]
    cases color : dg.color with
    | red =>
      rw [color] at hctx
      obtain ⟨s', t', run, rest, done⟩ := eraseColor_red fuel
        (parent ctx) step.represents step.maxExact color ht redW hctx.of_red
      refine ⟨s', t', ?_, step.trans rest, done⟩
      simp [eraseColorBlack, nephews, up, run]
    | black =>
      obtain ⟨s', t', run, rest, done⟩ := next color _ _ step.represents step.maxExact
        (.blackSided color ht redW)
      rw [ptr?_sided] at run
      refine ⟨s', t', ?_, step.trans rest, done⟩
      simp [eraseColorBlack, nephews, up, run]
  · have someRed : cf = .black → Balanced color near .red k := by
      rintro rfl
      cases cn with
      | red => exact hnear
      | black => exact absurd ⟨rfl, rfl⟩ bothBlack
    obtain ⟨s₁, w₁, dw₁, near₁, far₁, cn₁, inner, step, hnear₁, hfar₁⟩ :=
      eraseColorInner_rebuilds ctx h exact someRed hnear hfar
    obtain ⟨s₃, s₄, painted, turn, _, t', ended, rest, done⟩ :=
      eraseColor_outer ctx step.represents step.maxExact ht hnear₁ hfar₁ hctx
    have notBoth : (decide (cn = .black) && decide (cf = .black)) = false := by
      simpa using fun c c' => bothBlack ⟨c, c'⟩
    refine ⟨_, t', .trans ?_ ended, step.trans rest, done⟩
    have color : (Tree.node s₁ g).color = dg.color := by rw [node_eq step.represents]
    simp [eraseColorBlack, nephews, notBoth, inner, color, painted, turn]

end Iteration

/-- `interval_erase_color` with enough fuel ends in a red-black tree with the same contents and exact
maxima, when the subtree is one black node short. -/
theorem intervalEraseColor_rebuilds {fuel : Nat} {c : Color} (enough : ctx.length + 1 < fuel)
    (h : Represents s (plug ctx t)) (exact : MaxExact (plug ctx t))
    (ht : Balanced color t c k) (hctx : Accepts color ctx .black (k + 1)) :
    Fixes s (plug ctx t) (intervalEraseColor fuel s t.ptr? (parent ctx)) := by
  -- an iteration that continues below a black parent moves one frame up
  induction fuel generalizing s ctx t c k with
  | zero => omega
  | succ fuel ih =>
    cases c with
    | red =>
      obtain ⟨p, d, l, r, rfl, isRed, hl, hr⟩ := ht.red_inv .left
      exact eraseColor_red fuel _ h exact isRed hl hr hctx
    | black =>
      cases ctx with
      | nil => exact eraseColor_root fuel _ h exact ht
      | cons frame ctx =>
        obtain ⟨side, g, dg, w⟩ := frame
        obtain _ | rest := fuel
        · omega
        simp only [List.length_cons] at enough
        obtain ⟨cw, hw, whenRed, above⟩ := hctx.frame
        obtain ⟨wp, wRoot⟩ : ∃ wp, w.ptr? = some wp := by cases hw <;> exact ⟨_, rfl⟩
        -- a null node and its sibling differ because the sibling is not null
        have apart : w.ptr? ≠ t.ptr? := by
          cases root : t.ptr? with
          | none => simp [wRoot]
          | some p => exact root ▸ ptr_ne_sibling h root
        have sideG := sideOf_eq h apart
        have notRoot : ¬ t.ptr? = s.root := fun same => by
          simpa using h.root_eq_focus.mp same.symm
        have black : Tree.nodeIsBlackOr0 s t.ptr? = true := by
          simpa using nodeIsBlackOr0_eq h ht
        have wLink : (s.heap g).child side.flip = some wp := by
          rw [h.cell_parent, Cell.child_flip_sided, wRoot]
        have unfolded : intervalEraseColor (rest + 1 + 1) s t.ptr? (some g) =
            (eraseColorRed side s g wp).bind fun x =>
              eraseColorBlack (intervalEraseColor (rest + 1)) side x.1 g x.2 := by
          rw [intervalEraseColor]
          simp [black, notRoot, sideG, wLink]
        rw [parent_cons, unfolded]
        cases cw with
        | black =>
          obtain ⟨wp', dw, near, far, cn, cf, rfl, wBlack, hnear, hfar⟩ := hw.black_inv side
          obtain rfl : wp' = wp := by simpa using wRoot
          have atW : Represents s
              (plug (⟨side.flip, g, dg, t⟩ :: ctx) (sided side wp' dw near far)) := by
            rwa [plug, sided_flip]
          have keep : eraseColorRed side s g wp' = some (s, wp') := by
            simp [eraseColorRed, nodeIsRed, node_eq atW, wBlack]
          rw [keep, Option.bind_some]
          refine eraseColorBlack_rebuilds ctx h exact ht hnear hfar above ?_
          intro gBlack s₁ u rep exact₁ hu
          have shorter : ctx.length + 1 < rest + 1 := by omega
          have accepts : Accepts color ctx .black (k + 1 + 1) := by
            rwa [show color dg = .black from gBlack] at above
          exact ih shorter rep exact₁ hu accepts
        | red =>
          have gBlack : dg.color = .black := whenRed rfl
          have outerAccepts : Accepts color ctx .black (k + 1 + 1) := by
            rwa [show color dg = .black from gBlack] at above
          obtain ⟨wp', dw, near, far, rfl, wRed, hnear, hfar⟩ := hw.red_inv side
          obtain rfl : wp' = wp := by simpa using wRoot
          obtain ⟨np, dn, inner, outer, ci, co, rfl, _, hinner, houter⟩ :=
            hnear.black_inv side
          have atW : Represents s (plug (⟨side.flip, g, dg, t⟩ :: ctx)
              (sided side wp' dw (sided side np dn inner outer) far)) := by
            rwa [plug, sided_flip]
          have step₁ := Rebuilt.recolor (⟨side.flip, g, dg, t⟩ :: ctx) atW
            (by rwa [plug, sided_flip]) .black
          simp only [plug, sided_flip] at step₁
          have step₂ := Rebuilt.recolor ctx step₁.represents step₁.maxExact .red
          obtain ⟨s₃, dg₃, dw₃, run, gColor, wColor, step₃⟩ :=
            Rebuilt.rotateToward ctx step₂.represents step₂.maxExact
          have rebuilt := (step₁.trans step₂).trans step₃
          have atG : Represents s₃ (plug (⟨side, wp', dw₃, far⟩ :: ctx)
              (sided side g dg₃ t (sided side np dn inner outer))) := rebuilt.represents
          have newLink : (s₃.heap g).child side.flip = some np := by
            rw [atG.cell, Cell.child_flip_sided, ptr?_sided]
          have turned : eraseColorRed side s g wp' = some (s₃, np) := by
            simp [eraseColorRed, nodeIsRed, node_eq atW, wRed, run, newLink]
          have gRed : dg₃.color = .red := gColor
          have accepts : Accepts color (⟨side, wp', dw₃, far⟩ :: ctx) dg₃.color
              (heightOver dg₃.color (k + 1)) := by
            rw [gRed]
            exact .black wColor hfar outerAccepts
          have notBlack : ¬ dg₃.color = .black := by simp [gRed]
          obtain ⟨s', t', run', rest', done⟩ := eraseColorBlack_rebuilds
            (⟨side, wp', dw₃, far⟩ :: ctx) atG rebuilt.maxExact ht hinner houter accepts
            fun isBlack => absurd isBlack notBlack
          refine ⟨s', t', ?_, rebuilt.trans rest', done⟩
          rw [turned, Option.bind_some]
          exact run'

open List

variable {P : Type}

/-! ### Contexts with recomputed maxima -/

/-- Recompute the maxima of a context whose hole has the largest end `m`. -/
def refit : Nat → Context P NodeData → Context P NodeData
  | _, [] => []
  | m, frame :: ctx =>
    let h := max frame.data.extent.stop (max m (high frame.sibling))
    { frame with data := { frame.data with maxHigh := h } } :: refit h ctx

variable {m : Nat} {ctx : Context P NodeData}

theorem refit_of_exact (h : ContextExact ctx m) : refit m ctx = ctx := by
  induction ctx generalizing m with
  | nil => rfl
  | cons frame ctx ih =>
    obtain ⟨stored, _, hctx⟩ := h
    simp only [refit, ← stored, ih hctx]

theorem ContextExact.refit (h : ContextExact ctx m) (m' : Nat) :
    ContextExact (refit m' ctx) m' := by
  induction ctx generalizing m m' with
  | nil => trivial
  | cons frame ctx ih => exact ⟨rfl, h.2.1, ih h.2.2 _⟩

theorem contents_maxHigh (side : Side) (p : P) (d : NodeData) (n f : Shape P NodeData) :
    contents (sided side p { d with maxHigh := m } n f) = contents (sided side p d n f) := by
  cases side <;> simp [sided]

/-- The largest end in a context. -/
def highContext : Context P NodeData → Nat
  | [] => 0
  | frame :: ctx => max (max frame.data.extent.stop (high frame.sibling)) (highContext ctx)

section

variable (m ctx)

theorem refit_refit (m' : Nat) : refit m (refit m' ctx) = refit m ctx := by
  induction ctx generalizing m m' with
  | nil => rfl
  | cons frame ctx ih => simp only [refit, ih]

@[simp] theorem parent_refit : parent (refit m ctx) = parent ctx := by
  cases ctx <;> rfl

@[simp] theorem length_refit : (refit m ctx).length = ctx.length := by
  induction ctx generalizing m with
  | nil => rfl
  | cons frame ctx ih => simp [refit, ih]

theorem contents_refit (t : Shape P NodeData) :
    contents (plug (refit m ctx) t) = contents (plug ctx t) := by
  induction ctx generalizing m t with
  | nil => rfl
  | cons frame ctx ih => exact (ih _ _).trans (contents_plug_congr (contents_maxHigh ..) ctx)

theorem sameColors_refit : SameColors color ctx (refit m ctx) := by
  induction ctx generalizing m with
  | nil => exact .nil
  | cons frame ctx ih => exact .cons ⟨rfl, rfl⟩ (ih _)

theorem high_plug (t : Shape P NodeData) :
    high (plug ctx t) = max (high t) (highContext ctx) := by
  induction ctx generalizing t with
  | nil => simp [plug, highContext]
  | cons frame ctx ih =>
    rw [plug, ih, high_sided, highContext]
    omega

theorem highContext_refit : highContext (refit m ctx) = highContext ctx := by
  induction ctx generalizing m with
  | nil => rfl
  | cons frame ctx ih => simp only [refit, highContext, ih]

end

/-- The maxima above a frame, when an end `v` was removed below it. -/
theorem ContextExact.above {frame : Frame P NodeData} {v : Nat}
    (h : ContextExact (frame :: ctx) (max v m)) :
    ContextExact ctx (max v (max frame.data.extent.stop (max m (high frame.sibling)))) := by
  obtain ⟨stored, _, rest⟩ := h
  have same : max v (max frame.data.extent.stop (max m (high frame.sibling))) =
      frame.data.maxHigh := by omega
  rwa [same]

theorem MaxExact.same {p : P} {d : NodeData} {l r : Shape P NodeData}
    (h : MaxExact (.node p d l r)) :
    { d with maxHigh := max d.extent.stop (max (high l) (high r)) } = d := by
  rw [show max d.extent.stop (max (high l) (high r)) = d.maxHigh from h.1.symm]

variable [DecidableEq P]

variable {s : Tree P} {p : P} {side : Side} {d : NodeData} {n f : Shape P NodeData}

section

variable (hn : MaxExact n) (hf : MaxExact f) (value : m = max d.extent.stop (max (high n) (high f)))

include hn hf value

/-- One iteration writes the maximum of the children and stops if nothing larger was
removed. -/
theorem updateMaxhigh_step (rest v : Nat) (h : Represents s (plug ctx (sided side p d n f))) :
    Represents (setMaxHigh s p m) (plug ctx (sided side p { d with maxHigh := m } n f)) ∧
      SameOutside s (setMaxHigh s p m) (plug ctx (sided side p d n f)).ptrs ∧
      updateMaxhigh (rest + 1) s (some p) v =
        if v ≤ m then some (setMaxHigh s p m)
        else updateMaxhigh rest (setMaxHigh s p m) (parent ctx) v := by
  have written : Represents (setMaxHigh s p m)
      (plug ctx (sided side p { d with maxHigh := m } n f)) := h.modifyFocus _
  have computed : childrenMax s p = m := by
    rw [childrenMax_eq h, hn.storedHigh, hf.storedHigh, value]
  have up := parent_eq written (ptr?_sided ..)
  refine ⟨written, Store.modifyData_same s _ (mem_ptrs_plug.mpr (.inr (by simp))), ?_⟩
  simp [updateMaxhigh, computed, up]

variable {fuel v : Nat}

/-- The walk through an inner context with maxima exact before `v` was removed stops there, or goes on
with the outer one because `v` was larger than everything left. -/
theorem updateMaxhigh_inner {inner : Context P NodeData} (outer : Context P NodeData)
    (enough : inner.length < fuel) (h : Represents s (plug (inner ++ outer) (sided side p d n f)))
    (hinner : ContextExact inner (max v m)) :
    ∃ s', Represents s' (plug (refit m inner ++ outer) (sided side p { d with maxHigh := m } n f)) ∧
      SameOutside s s' (plug (inner ++ outer) (sided side p d n f)).ptrs ∧
      (updateMaxhigh fuel s (some p) v = some s' ∨
        m < v ∧ ∃ fuel', fuel ≤ fuel' + inner.length + 1 ∧
          updateMaxhigh fuel s (some p) v =
            updateMaxhigh fuel' s' (parent outer) v) := by
  induction inner generalizing fuel s side p d n f m with
  | nil =>
    obtain _ | rest := fuel
    · omega
    obtain ⟨written, outside, run⟩ := updateMaxhigh_step hn hf value rest v h
    refine ⟨_, written, outside, ?_⟩
    by_cases stop : v ≤ m
    · exact .inl (by rw [run, if_pos stop])
    · exact .inr ⟨by omega, rest, by simp, by rw [run, if_neg stop]; rfl⟩
  | cons frame inner ih =>
    obtain _ | rest := fuel
    · omega
    obtain ⟨written, outside, run⟩ := updateMaxhigh_step hn hf value rest v h
    by_cases stop : v ≤ m
    · refine ⟨_, ?_, outside, .inl (by rw [run, if_pos stop])⟩
      rw [max_eq_right stop] at hinner
      rwa [refit_of_exact hinner]
    · -- one frame up, the focus is exact and its largest end is `m`
      have focusExact : MaxExact (sided side p { d with maxHigh := m } n f) :=
        maxExact_sided.mpr ⟨value, hn, hf⟩
      have focusHigh : high (sided side p { d with maxHigh := m } n f) = m := by
        rw [high_sided, value]
      have above : Represents (setMaxHigh s p m) (plug (inner ++ outer)
          (sided frame.side frame.ptr frame.data (sided side p { d with maxHigh := m } n f)
            frame.sibling)) := written
      have shorter : inner.length < rest := by simpa using enough
      obtain ⟨s', rep, outside', done⟩ := ih focusExact hinner.2.1
        (by rw [focusHigh]) shorter above hinner.above
      have samePtrs : (plug (inner ++ outer) (sided frame.side frame.ptr frame.data
          (sided side p { d with maxHigh := m } n f) frame.sibling)).ptrs =
          (plug (frame :: inner ++ outer) (sided side p d n f)).ptrs :=
        contents_ptrs (contents_plug_congr (contents_maxHigh ..) (frame :: inner ++ outer))
      refine ⟨s', rep, outside.trans (samePtrs ▸ outside'), ?_⟩
      rw [run, if_neg stop]
      rcases done with done | ⟨_, fuel', bound, done⟩
      · exact .inl done
      · refine .inr ⟨by omega, fuel', ?_, done⟩
        simp only [length_cons]
        omega

/-- The walk to the root, from a node whose own maximum may be stale. -/
theorem updateMaxhigh_node (enough : ctx.length + 1 < fuel)
    (h : Represents s (plug ctx (sided side p d n f))) (hctx : ContextExact ctx (max v m)) :
    ∃ s', updateMaxhigh fuel s (some p) v = some s' ∧
      Represents s' (plug (refit m ctx) (sided side p { d with maxHigh := m } n f)) ∧
      SameOutside s s' (plug ctx (sided side p d n f)).ptrs := by
  have whole : Represents s (plug (ctx ++ []) (sided side p d n f)) := by rwa [append_nil]
  have shorter : ctx.length < fuel := by omega
  obtain ⟨s', rep, outside, done⟩ := updateMaxhigh_inner hn hf value [] shorter whole hctx
  rw [append_nil] at rep outside
  refine ⟨s', ?_, rep, outside⟩
  rcases done with done | ⟨_, fuel', bound, done⟩
  · exact done
  · obtain ⟨rest, rfl⟩ : ∃ rest, fuel' = rest + 1 := ⟨fuel' - 1, by omega⟩
    rw [done]
    rfl

end

variable {t : Shape P NodeData}

section

variable (enough : ctx.length + 1 < fuel) (h : Represents s (plug ctx t)) (ht : MaxExact t)
  (hctx : ContextExact ctx (max v (high t)))

include enough h ht hctx

/-- The walk to the root from the parent of a hole with exact contents. -/
theorem updateMaxhigh_parent :
    ∃ s', updateMaxhigh fuel s (parent ctx) v = some s' ∧
      Represents s' (plug (refit (high t) ctx) t) ∧ SameOutside s s' (plug ctx t).ptrs := by
  cases ctx with
  | nil =>
    obtain _ | rest := fuel
    · omega
    exact ⟨s, rfl, h, .refl s _⟩
  | cons frame ctx =>
    have focus : Represents s (plug ctx
        (sided frame.side frame.ptr frame.data t frame.sibling)) := h
    simp only [length_cons] at enough
    have shorter : ctx.length + 1 < fuel := by omega
    exact updateMaxhigh_node ht hctx.2.1 rfl shorter focus hctx.above

/-- The walk of `update_maxhigh(child ? : parent, v)` above a hole with exact contents. -/
theorem updateMaxhigh_hole :
    ∃ s', updateMaxhigh fuel s (t.ptr?.or (parent ctx)) v = some s' ∧
      Represents s' (plug (refit (high t) ctx) t) ∧ SameOutside s s' (plug ctx t).ptrs := by
  cases t with
  | nil => exact updateMaxhigh_parent enough h ht hctx
  | node p d l r =>
    have focus : Represents s (plug ctx (sided .left p d l r)) := h
    obtain ⟨s', run, rep, outside⟩ := updateMaxhigh_node ht.2.1 ht.2.2 rfl enough focus hctx
    refine ⟨s', run, ?_, outside⟩
    rwa [ht.same] at rep

end

/-- The same walk through an inner context only, from a hole that is not empty or below a frame of
it. -/
theorem updateMaxhigh_holeInner {inner : Context P NodeData} (outer : Context P NodeData)
    (enough : inner.length < fuel) (start : t = .nil → inner ≠ [])
    (h : Represents s (plug (inner ++ outer) t)) (ht : MaxExact t)
    (hinner : ContextExact inner (max v (high t))) :
    ∃ s', Represents s' (plug (refit (high t) inner ++ outer) t) ∧
      SameOutside s s' (plug (inner ++ outer) t).ptrs ∧
      (updateMaxhigh fuel s (t.ptr?.or (parent (inner ++ outer))) v = some s' ∨
        high t < v ∧ ∃ fuel', fuel ≤ fuel' + inner.length + 1 ∧
          updateMaxhigh fuel s (t.ptr?.or (parent (inner ++ outer))) v =
            updateMaxhigh fuel' s' (parent outer) v) := by
  cases t with
  | node p d l r =>
    have focus : Represents s (plug (inner ++ outer) (sided .left p d l r)) := h
    obtain ⟨s', rep, outside, done⟩ :=
      updateMaxhigh_inner ht.2.1 ht.2.2 rfl outer enough focus hinner
    rw [ht.same] at rep
    exact ⟨s', rep, outside, done⟩
  | nil =>
    cases inner with
    | nil => exact absurd rfl (start rfl)
    | cons frame inner =>
      have focus : Represents s (plug (inner ++ outer)
          (sided frame.side frame.ptr frame.data .nil frame.sibling)) := h
      simp only [length_cons] at enough
      have shorter : inner.length < fuel := by omega
      obtain ⟨s', rep, outside, done⟩ :=
        updateMaxhigh_inner ht hinner.2.1 rfl outer shorter focus hinner.above
      refine ⟨s', rep, outside, ?_⟩
      rcases done with done | ⟨small, fuel', bound, done⟩
      · exact .inl done
      · refine .inr ⟨?_, fuel', ?_, done⟩
        · omega
        · simp only [length_cons]
          omega

/-- In a list without repeated addresses the filter drops one entry. -/
theorem filter_ne_split {x : Bool × Extent} {pre post : List (P × Bool × Extent)}
    (nodup : ((pre ++ (p, x) :: post).map Prod.fst).Nodup) :
    (pre ++ (p, x) :: post).filter (fun y => y.1 ≠ p) = pre ++ post := by
  grind [perm_middle.nodup_iff, nodup_cons, filter_eq_self, mem_map_of_mem, filter_cons_of_neg]

/-- What deletion of `p` leaves behind. -/
structure Removed (s s' : Tree P) (p : P) (t t' : Shape P NodeData) : Prop where
  represents : Represents s' t'
  maxExact : MaxExact t'
  balanced : ∃ k, Balanced color t' .black k
  contents : contents t' = (contents t).filter fun x => x.1 ≠ p
  outside : SameOutside s s' t.ptrs
  flag : (Tree.node s' p).intree = (Tree.node s p).intree

variable {k : Nat}

/-- The colour fixup after a node of colour `c` was taken out above `child`. -/
theorem eraseColor_if {c : Color} {child : Shape P NodeData} {cc : Color}
    (enough : ctx.length + 1 < fuel) (h : Represents s (plug ctx child))
    (exact : MaxExact (plug ctx child)) (hchild : Balanced color child cc k)
    (isBlack : c = .red → cc = .black) (hctx : Accepts color ctx c (heightOver c k)) :
    Fixes s (plug ctx child)
      (if c = .black then intervalEraseColor fuel s child.ptr? (parent ctx) else some s) := by
  cases c with
  | red =>
    obtain rfl := isBlack rfl
    exact ⟨s, _, by simp, .refl h exact, hchild.plug hctx.of_red⟩
  | black => simpa using intervalEraseColor_rebuilds enough h exact hchild hctx

omit [DecidableEq P] in
/-- The subtrees of a balanced node, with what its context accepts. -/
theorem balanced_child (h : Balanced color (plug ctx (sided side p d n f)) .black k) :
    ∃ cf j, Balanced color f cf j ∧ (d.color = .red → cf = .black) ∧
      Accepts color ctx d.color (heightOver d.color j) := by
  obtain ⟨c, m, focus, hctx⟩ := h.unplug
  have own : d.color = c := by cases side <;> cases focus <;> assumption
  cases c with
  | red =>
    obtain ⟨_, _, _, f', same, _, _, hf⟩ := focus.red_inv side
    have : f = f' := by cases side <;> cases same <;> rfl
    refine ⟨.black, m, this ▸ hf, fun _ => rfl, ?_⟩
    rwa [own]
  | black =>
    cases m with
    | zero => cases side <;> cases focus
    | succ m =>
      obtain ⟨_, _, _, f', _, cf, same, _, _, hf⟩ := focus.black_inv side
      have : f = f' := by cases side <;> cases same <;> rfl
      refine ⟨cf, m, this ▸ hf, fun isRed => ?_, ?_⟩
      · rw [own] at isRed
        cases isRed
      · rwa [own]

theorem eraseOneChild_removed {child : Shape P NodeData} (enough : ctx.length + 1 < fuel)
    (h : Represents s (plug ctx (sided side p d .nil child)))
    (exact : MaxExact (plug ctx (sided side p d .nil child)))
    (balanced : Balanced color (plug ctx (sided side p d .nil child)) .black k) :
    ∃ s' t', eraseOneChild fuel s p child.ptr? = some s' ∧
      Removed s s' p (plug ctx (sided side p d .nil child)) t' := by
  obtain ⟨hctx, hfocus⟩ := maxExact_plug.mp exact
  obtain ⟨stored, _, hchild⟩ := maxExact_sided.mp hfocus
  obtain ⟨cc, j, bchild, isBlack, accepts⟩ := balanced_child balanced
  have fresh : p ∉ ptrs ctx := fun mem => h.disjoint p mem (by simp)
  have notChild : p ∉ child.ptrs := (nodup_sided.mp h.nodup_focus).2.1
  obtain ⟨linked, spliced, out₁, same₁⟩ := h.splice
  let s₁ : Tree P := (s.setParent? child.ptr? (parent ctx)).writeSlot (slot ctx)
    child.ptr?
  have redirect : (s.setParent? child.ptr? (parent ctx)).replaceChild .left
      (parent ctx) p child.ptr? = s₁ := Store.replaceChild_eq_writeSlot linked fresh
  -- the removed node held the largest end of its subtree
  have oldMax : (Tree.node s₁ p).maxHigh = d.maxHigh := by
    rw [Tree.node, same₁, h.cell, Cell.data_sided]
  have exactCtx : ContextExact ctx (max d.maxHigh (high child)) := by
    grind [high, sided, high_sided]
  obtain ⟨s₂, walk, rep₂, out₂⟩ := updateMaxhigh_hole enough spliced hchild exactCtx
  have exact₂ : MaxExact (plug (refit (high child) ctx) child) :=
    maxExact_plug.mpr ⟨exactCtx.refit _, hchild⟩
  have accepts₂ : Accepts color (refit (high child) ctx) d.color
      (heightOver d.color j) := accepts.congr (sameColors_refit _ _)
  have enough₂ : (refit (high child) ctx).length + 1 < fuel := by rwa [length_refit]
  obtain ⟨s₃, t', fix, rebuilt, done⟩ := eraseColor_if enough₂ rep₂ exact₂ bchild isBlack accepts₂
  rw [parent_refit] at fix
  have contents₂ := contents_refit (high child) ctx child
  have ptrs₂ := contents_ptrs contents₂
  have sub : ∀ x ∈ (plug ctx child).ptrs, x ∈ (plug ctx (sided side p d .nil child)).ptrs := by
    intro x hx
    rcases mem_ptrs_plug.mp hx with hx | hx
    · exact mem_ptrs_plug.mpr (.inl hx)
    · exact mem_ptrs_plug.mpr (.inr (by simp [hx]))
  have gone : p ∉ (plug ctx child).ptrs := by
    rw [mem_ptrs_plug, not_or]
    exact ⟨fresh, notChild⟩
  refine ⟨s₃, t', ?_, rebuilt.represents, rebuilt.maxExact, done, ?_, ?_, ?_⟩
  · have up := parent_eq h (ptr?_sided ..)
    have walk : updateMaxhigh fuel s₁ (child.ptr?.or (parent ctx)) d.maxHigh =
        some s₂ := walk
    simp [eraseOneChild, up, node_eq h, redirect, oldMax, walk, fix]
  · have nodup := h.nodup
    rw [ptrs_eq_contents] at nodup
    rw [rebuilt.contents, contents₂, contents_plug]
    cases side with
    | left =>
      have split : contents (plug ctx (sided .left p d .nil child)) = contentsBefore ctx ++
          (p, d.intree, d.extent) :: (contents child ++ contentsAfter ctx) := by
        rw [contents_plug]
        simp [sided]
      rw [split] at nodup ⊢
      rw [filter_ne_split nodup, append_assoc]
    | right =>
      have split : contents (plug ctx (sided .right p d .nil child)) =
          (contentsBefore ctx ++ contents child) ++
            (p, d.intree, d.extent) :: contentsAfter ctx := by
        rw [contents_plug]
        simp [sided]
      rw [split] at nodup ⊢
      rw [filter_ne_split nodup]
  · have outAfter : SameOutside s₂ s₃ (plug ctx child).ptrs := ptrs₂ ▸ rebuilt.outside
    exact (out₁.trans (out₂.mono sub)).trans (outAfter.mono sub)
  · have outAfter : SameOutside s₂ s₃ (plug ctx child).ptrs := ptrs₂ ▸ rebuilt.outside
    rw [Tree.node, outAfter p gone, out₂ p gone, same₁]
    rfl

end Ldlm
