/-
Module: Lustre.Ldlm.IntervalTree.Insert
Purpose: `interval_insert` and `interval_insert_color`.
Trusted boundary: none
-/
import Lustre.Ldlm.IntervalTree.Invariant

namespace Ldlm

open PointerHeap PointerHeap.Shape RedBlack List Ldlm.Tree NodeData

variable {P : Type} [DecidableEq P]

variable {s : Tree P} {t : Shape P NodeData} {p : P} {k : Nat}

/-- The final assignment paints the root of a balanced tree black. -/
theorem blackenRoot_rebuilds {c : Color} (h : Represents s t) (exact : MaxExact t)
    (nonempty : t.ptr? = some p) (balanced : Balanced color t c k) : Fixes s t (blackenRoot s) := by
  have step : Rebuilt s (setColor? s t.ptr? .black) t (paint .black t) :=
    .paint [] h exact .black
  refine ⟨setColor? s t.ptr? .black, paint .black t, ?_, step, balanced_paint_black balanced⟩
  simp [blackenRoot, h.root, nonempty, setColor?]

variable {ctx : Context P NodeData} {x : Shape P NodeData}

/-- The loop stops at a red node that hangs on a black parent. -/
theorem insertColor_blackParent (fuel : Nat) {frame : Frame P NodeData}
    (h : Represents s (plug (frame :: ctx) x)) (exact : MaxExact (plug (frame :: ctx) x))
    (root : x.ptr? = some p) (balanced : Balanced color x .red k)
    (isBlack : frame.data.color = .black) {cs : Color} (hs : Balanced color frame.sibling cs k)
    (hctx : Accepts color ctx .black (k + 1)) :
    Fixes s (plug (frame :: ctx) x) (intervalInsertColor (fuel + 1) s p) := by
  obtain ⟨n, whole⟩ := balanced.plug (.black isBlack hs hctx)
  obtain ⟨q, nonempty⟩ := exists_ptr?_plug root (frame :: ctx)
  obtain ⟨s', t', run, rebuilt, done⟩ := blackenRoot_rebuilds h exact nonempty whole
  refine ⟨s', t', ?_, rebuilt, done⟩
  have above : (s.heap frame.ptr).data = frame.data := by
    rw [Represents.cell_parent h, Cell.data_sided]
  simp [intervalInsertColor, parent_eq h root, nodeIsRed, Tree.node, above, isBlack, run]

variable {q : P}

/-- The last rotation of the fixup: `q` is red, on the same side as its red child, and its sibling black. -/
theorem insertColor_outer (fuel : Nat) (ctx : Context P NodeData) {side : Side} {g : P}
    {dg dq : NodeData} {inner uncle : Shape P NodeData}
    (whole : t = plug ctx (sided side g dg (sided side q dq x inner) uncle)) (h : Represents s t)
    (exact : MaxExact t) (root : x.ptr? = some p) (hx : Balanced color x .red k) (hinner : Balanced color inner .black k)
    (huncle : Balanced color uncle .black k) (hctx : Accepts color ctx .black (k + 1)) :
    ∃ s₃, rotateToward side.flip (setColor (setColor s q .black) g .red) g = some s₃ ∧
      Fixes s t (intervalInsertColor (fuel + 1) s₃ p) := by
  subst whole
  let dq₁ : NodeData := { dq with color := .black }
  let dg₁ : NodeData := { dg with color := .red }
  have step₁ := Rebuilt.recolor (⟨side, g, dg, uncle⟩ :: ctx) h exact .black
  have step₂ : Rebuilt (setColor s q .black) (setColor (setColor s q .black) g .red)
      (plug ctx (sided side g dg (sided side q dq₁ x inner) uncle))
      (plug ctx (sided side.flip g dg₁ uncle (sided side.flip q dq₁ inner x))) := by
    rw [sided_flip, sided_flip]
    exact Rebuilt.recolor ctx step₁.represents step₁.maxExact .red
  obtain ⟨s₃, dg₃, dq₃, run, gColor, qColor, step₃⟩ :=
    Rebuilt.rotateToward ctx step₂.represents step₂.maxExact
  have rebuilt := (step₁.trans step₂).trans step₃
  -- the new grandparent is a red node over two black trees
  have low : Balanced color (sided side.flip g dg₃ uncle inner) .red k :=
    .redSided gColor huncle hinner
  have top : plug ctx (sided side.flip q dq₃ (sided side.flip g dg₃ uncle inner) x) =
      plug (⟨side, q, dq₃, sided side.flip g dg₃ uncle inner⟩ :: ctx) x := by
    rw [plug, sided_flip side q]
  rw [top] at rebuilt
  obtain ⟨s', t', stop, step₄, done⟩ := insertColor_blackParent fuel
    rebuilt.represents rebuilt.maxExact root hx qColor low hctx
  exact ⟨s₃, run, s', t', stop, rebuilt.trans step₄, done⟩

variable {fuel : Nat}

/-- `interval_insert_color` ends with enough fuel, in a red-black tree with the same contents and exact
maxima. -/
theorem intervalInsertColor_rebuilds (enough : ctx.length + 1 < fuel)
    (h : Represents s (plug ctx x)) (exact : MaxExact (plug ctx x)) (root : x.ptr? = some p)
    (hx : Balanced color x .red k) (hctx : Accepts color ctx .black k) :
    Fixes s (plug ctx x) (intervalInsertColor fuel s p) := by
  -- each iteration that continues moves two frames up
  induction fuel generalizing s ctx p x k with
  | zero => omega
  | succ fuel ih =>
    cases hctx with
    | root =>
      obtain ⟨s', t', run, rebuilt, done⟩ := blackenRoot_rebuilds h exact root hx
      refine ⟨s', t', ?_, rebuilt, done⟩
      have top : (s.heap p).parent = none := parent_eq h root
      simp [intervalInsertColor, top, run]
    | @black frame ctx _ _ _ isBlack hs hctx =>
      exact insertColor_blackParent fuel h exact root hx isBlack hs hctx
    | @red frame ctx _ isRed hs hctx =>
      obtain ⟨side, q, dq, inner⟩ := frame
      cases hctx with
      | @black gframe ctx _ cu _ gBlack hu hctx =>
        obtain ⟨gside, g, dg, uncle⟩ := gframe
        have atQ : Represents s (plug (⟨gside, g, dg, uncle⟩ :: ctx)
            (sided side q dq x inner)) := h
        have atUncle : Represents s (plug (⟨gside.flip, g, dg, sided side q dq x inner⟩ :: ctx)
            uncle) := by
          rwa [plug, sided_flip]
        have parentOfP : (s.heap p).parent = some q := parent_eq h root
        have sideG : sideOf s g (some q) = gside := by
          have apart := ptr_ne_sibling atQ (ptr?_sided side q dq x inner)
          simpa using sideOf_eq atQ apart
        have uncleLink : (s.heap g).child gside.flip = uncle.ptr? := by
          rw [atQ.cell_parent, Cell.child_flip_sided]
        have uncleColor := nodeIsBlackOr0_eq atUncle hu
        have qRed : nodeIsRed s q = true := by
          simp [nodeIsRed, node_eq atQ, show dq.color = .red from isRed]
        have parentOfQ : (s.heap q).parent = some g := by simp [atQ.cell]
        cases cu with
        | red =>
          let dq₁ : NodeData := { dq with color := .black }
          let dg₁ : NodeData := { dg with color := .red }
          have step₁ := Rebuilt.paint _ atUncle (by rwa [plug, sided_flip]) .black
          rw [plug, plug, sided_flip, sided_flip] at step₁
          have step₂ := Rebuilt.recolor (⟨gside, g, dg, paint .black uncle⟩ :: ctx)
            step₁.represents step₁.maxExact .black
          have step₃ := Rebuilt.recolor ctx step₂.represents step₂.maxExact .red
          have rebuilt := (step₁.trans step₂).trans step₃
          have uncleBlack := paintBlack_of_red hu
          have qBlack : Balanced color (sided side q dq₁ x inner) .black (k + 1) :=
            .blackSided rfl hx hs
          have gRed : Balanced color (sided gside g dg₁ (sided side q dq₁ x inner)
              (paint .black uncle)) .red (k + 1) :=
            .redSided rfl qBlack uncleBlack
          obtain ⟨s', t', run, rest, done⟩ := ih (by simp at enough; omega)
            rebuilt.represents rebuilt.maxExact (ptr?_sided ..) gRed hctx
          refine ⟨s', t', ?_, rebuilt.trans rest, done⟩
          simp [intervalInsertColor, parentOfP, qRed, parentOfQ, sideG, uncleLink, uncleColor, run]
        | black =>
          obtain _ | rest := fuel
          · omega
          have qCell := atQ.cell
          by_cases straight : side = gside
          · subst straight
            have notInner : (s.heap q).child side.flip ≠ some p := by
              rw [qCell, Cell.child_flip_sided, ← root]
              exact ptr_ne_sibling h root
            obtain ⟨s₃, turn, s', t', run, rebuilt, done⟩ :=
              insertColor_outer rest ctx rfl atQ exact root hx hs hu hctx
            refine ⟨s', t', ?_, rebuilt, done⟩
            rw [intervalInsertColor]
            simp [parentOfP, qRed, parentOfQ, sideG, uncleLink, uncleColor,
              insertColorInner, notInner, turn, run]
          · obtain rfl : side = gside.flip := by
              cases side <;> cases gside <;> simp_all [Side.flip]
            obtain ⟨p', d, near, far, rfl, xRed, hnear, hfar⟩ := hx.red_inv gside
            obtain rfl : p' = p := by simpa using root
            have inner' : (s.heap q).child gside.flip = some p' := by
              rw [qCell, Cell.child_sided, ptr?_sided]
            -- the first rotation brings the red child to the outer side
            rw [sided_flip] at atQ
            have exactQ : MaxExact (plug (⟨gside, g, dg, uncle⟩ :: ctx)
                (sided gside q dq inner (sided gside p' d near far))) := by
              rwa [← sided_flip]
            obtain ⟨s₁, dq₁, d₁, turn₁, qColor, _, step⟩ :=
              Rebuilt.rotateToward (⟨gside, g, dg, uncle⟩ :: ctx) atQ exactQ
            have lowered : Balanced color (sided gside q dq₁ inner near) .red k :=
              .redSided (qColor.trans isRed) hs hnear
            obtain ⟨s₃, turn, s', t', run, rebuilt, done⟩ :=
              insertColor_outer rest ctx rfl step.represents step.maxExact (ptr?_sided ..) lowered
                hfar hu hctx
            refine ⟨s', t', ?_, ?_, done⟩
            · rw [intervalInsertColor]
              simp [parentOfP, qRed, parentOfQ, sideG, uncleLink, uncleColor,
                insertColorInner, inner', turn₁, turn, run]
            · have whole := step.trans rebuilt
              rwa [← sided_flip] at whole

/-! ### The descent -/

omit [DecidableEq P] in
theorem ordered_node {d : NodeData} {l r : Shape P NodeData}
    (h : Ordered (contents (.node p d l r))) :
    Ordered (contents l) ∧ Ordered (contents r) ∧
      (∀ x ∈ contents l, x.2.2.Before d.extent) ∧ ∀ x ∈ contents r, d.extent.Before x.2.2 := by
  rw [contents_node, Ordered, pairwise_append, pairwise_cons] at h
  obtain ⟨hl, ⟨hpr, hr⟩, across⟩ := h
  exact ⟨hl, hr, fun x hx => across x hx (p, d.intree, d.extent) (by simp), hpr⟩

variable {node : P} {e : Extent}

theorem Extent.Before.not_equal {e' : Extent} (before : e.Before e') :
    ¬ extentEqual e e' = true ∧ ¬ extentEqual e' e = true := by
  rw [extentEqual_iff, extentEqual_iff]
  constructor <;> rintro rfl <;> exact Extent.Before.irrefl _ before

theorem Extent.Before.not_lt {e' : Extent} (before : e.Before e') : extentCompare e' e ≠ .lt := by
  rw [Ne, extentCompare_lt]
  exact fun back => Extent.Before.irrefl _ (back.trans before)

/-- An extent that is present is found, and the walk writes nothing: the maxima already cover it. -/
theorem insertDescend_present {b : Bool} (enough : t.ptrs.length < fuel)
    (h : Represents s (plug ctx t)) (exact : MaxExact t) (ordered : Ordered (contents t))
    (ext : (Tree.node s node).extent = e) (mem : (q, b, e) ∈ contents t) :
    ∃ slot, insertDescend fuel s node ctx.slot = some (s, some q, slot) := by
  induction t generalizing fuel ctx with
  | nil => simp at mem
  | node p d l r ihl ihr =>
    obtain _ | rest := fuel
    · omega
    have focus : Represents s (plug ctx (sided .left p d l r)) := h
    have here : Tree.node s p = d := node_eq focus
    have link : s.readSlot ctx.slot = some p := h.readSlot
    obtain ⟨ol, or, below, above⟩ := ordered_node ordered
    obtain ⟨stored, el, er⟩ := exact
    have covered := le_high mem
    have noWrite : ¬ d.maxHigh < e.stop := by
      rw [stored]
      exact not_lt.mpr covered
    simp only [ptrs_node, length_append, length_cons] at enough
    rw [contents_node, mem_append, mem_cons] at mem
    rcases mem with inLeft | atRoot | inRight
    · have before : e.Before d.extent := below _ inLeft
      have down : Represents s (plug (⟨.left, p, d, r⟩ :: ctx) l) := h
      have enoughLeft : l.ptrs.length < rest := by omega
      obtain ⟨slot, run⟩ := ihl enoughLeft down el ol inLeft
      refine ⟨slot, ?_⟩
      rw [insertDescend]
      simpa [link, here, ext, before.not_equal.2, intervalHigh, noWrite,
        extentCompare_lt.mpr before] using run
    · obtain ⟨rfl, -, rfl⟩ : q = p ∧ b = d.intree ∧ e = d.extent := by simpa using atRoot
      simp [insertDescend, link, here, ext, extentEqual]
    · have after : d.extent.Before e := above _ inRight
      have down : Represents s (plug (⟨.right, p, d, l⟩ :: ctx) r) := h
      have enoughRight : r.ptrs.length < rest := by omega
      obtain ⟨slot, run⟩ := ihr enoughRight down er or inRight
      refine ⟨slot, ?_⟩
      rw [insertDescend]
      simpa [link, here, ext, after.not_equal.1, intervalHigh, noWrite, after.not_lt] using run

/-- What the descent leaves for a new extent `e`: an empty link in its place, with every maximum above
raised to its end. -/
structure Descended (s s' : Tree P) (t : Shape P NodeData) (ctx : Context P NodeData) (e : Extent) :
    Prop where
  represents : Represents s' (plug ctx .nil)
  exact : ContextExact ctx e.stop
  balanced : ∃ k, Balanced color (plug ctx .nil) .black k
  outside : SameOutside s s' t.ptrs
  same : contents (plug ctx .nil) = contents t
  before : ∀ x ∈ contentsBefore ctx, x.2.2.Before e
  after : ∀ x ∈ contentsAfter ctx, e.Before x.2.2

/-- The maximum of a node is raised. -/
theorem raiseMaxHigh {d : NodeData} {l r : Shape P NodeData}
    (focus : Represents s (plug ctx (sided .left p d l r))) (v : Nat) :
    Represents (if d.maxHigh < v then setMaxHigh s p v else s)
        (plug ctx (sided .left p { d with maxHigh := max d.maxHigh v } l r)) ∧
      SameOutside s (if d.maxHigh < v then setMaxHigh s p v else s) (plug ctx (.node p d l r)).ptrs := by
  split_ifs with low
  · rw [max_eq_right low.le]
    exact ⟨focus.modifyFocus fun d => { d with maxHigh := v },
      Store.modifyData_same s _ (mem_ptrs_plug.mpr (.inr (by simp)))⟩
  · rw [max_eq_left (not_lt.mp low)]
    exact ⟨focus, SameOutside.refl s _⟩

/-- An extent that is not present is given an empty link. -/
theorem insertDescend_absent (enough : t.ptrs.length < fuel) (h : Represents s (plug ctx t))
    (fresh : node ∉ (plug ctx t).ptrs) (ext : (Tree.node s node).extent = e) (exact : MaxExact t)
    (hctx : ContextExact ctx (max (high t) e.stop))
    (balanced : Balanced color (plug ctx t) .black k) (ordered : Ordered (contents t))
    (absent : ∀ x ∈ contents t, x.2.2 ≠ e) (lower : ∀ x ∈ contentsBefore ctx, x.2.2.Before e)
    (upper : ∀ x ∈ contentsAfter ctx, e.Before x.2.2) :
    ∃ s' ctx', insertDescend fuel s node ctx.slot = some (s', none, ctx'.slot) ∧
      Descended s s' (plug ctx t) ctx' e := by
  induction t generalizing fuel ctx s k with
  | nil =>
    obtain _ | rest := fuel
    · omega
    have link : s.readSlot ctx.slot = none := h.readSlot
    refine ⟨s, ctx, by simp [insertDescend, link], h, ?_, ⟨k, balanced⟩, SameOutside.refl s _, rfl,
      lower, upper⟩
    simpa [high] using hctx
  | node p d l r ihl ihr =>
    obtain _ | rest := fuel
    · omega
    have focus : Represents s (plug ctx (sided .left p d l r)) := h
    have here : Tree.node s p = d := node_eq focus
    have link : s.readSlot ctx.slot = some p := h.readSlot
    obtain ⟨ol, or, below, above⟩ := ordered_node ordered
    obtain ⟨stored, el, er⟩ := exact
    simp only [ptrs_node, length_append, length_cons] at enough
    have different : d.extent ≠ e := absent (p, d.intree, d.extent) (by simp)
    have notEqual : ¬ extentEqual d.extent e = true := by rwa [extentEqual_iff]
    -- the node after its maximum was raised
    let d₁ : NodeData := { d with maxHigh := max d.maxHigh e.stop }
    let s₁ : Tree P := if d.maxHigh < e.stop then setMaxHigh s p e.stop else s
    obtain ⟨rep₁, out₁⟩ := raiseMaxHigh focus e.stop
    have raised : d₁.maxHigh = max (high (.node p d l r)) e.stop := by simp [d₁, stored]
    have same : contents (plug ctx (.node p d₁ l r)) = contents (plug ctx (.node p d l r)) :=
      contents_plug_congr (by simp [d₁]) ctx
    have fresh₁ : node ∉ (plug ctx (.node p d₁ l r)).ptrs := contents_ptrs same ▸ fresh
    have ext₁ : (Tree.node s₁ node).extent = e := by
      rw [Tree.node, out₁ node fresh]
      exact ext
    obtain ⟨k₁, balanced₁⟩ := balanced_plug_data d₁ balanced rfl
    have unfolded : insertDescend (rest + 1) s node ctx.slot =
        insertDescend rest s₁ node (some (p,
          if extentCompare (Tree.node s₁ node).extent (Tree.node s₁ p).extent = .lt then .left
          else .right)) := by
      rw [insertDescend]
      simp [link, here, ext, notEqual, intervalHigh, s₁]
    rw [ext₁, show Tree.node s₁ p = d₁ from node_eq rep₁] at unfolded
    have back {s' : Tree P} {ctx' : Context P NodeData}
        (inner : Descended s₁ s' (plug ctx (.node p d₁ l r)) ctx' e) :
        Descended s s' (plug ctx (.node p d l r)) ctx' e :=
      { inner with
        outside := out₁.trans (contents_ptrs same ▸ inner.outside)
        same := inner.same.trans same }
    rcases Extent.before_total different with after | before
    · have exactDown : ContextExact (⟨.right, p, d₁, l⟩ :: ctx) (max (high r) e.stop) := by
        refine ⟨?_, el, by rwa [raised]⟩
        simp only [d₁, stored, high]
        omega
      have lower₁ : ∀ x ∈ contentsBefore (⟨.right, p, d₁, l⟩ :: ctx), x.2.2.Before e := by
        intro x hx
        rw [contentsBefore_right, mem_append, mem_append, mem_singleton] at hx
        rcases hx with (outer | left) | rfl
        · exact lower x outer
        · exact (below x left).trans after
        · exact after
      have down : Represents s₁ (plug (⟨.right, p, d₁, l⟩ :: ctx) r) := rep₁
      have enoughRight : r.ptrs.length < rest := by omega
      obtain ⟨s', ctx', run, inner⟩ := ihr enoughRight down fresh₁ ext₁ er exactDown balanced₁ or
        (fun x hx => absent x (by simp [hx])) lower₁ upper
      refine ⟨s', ctx', ?_, back inner⟩
      rwa [unfolded, if_neg after.not_lt]
    · have exactDown : ContextExact (⟨.left, p, d₁, r⟩ :: ctx) (max (high l) e.stop) := by
        refine ⟨?_, er, by rwa [raised]⟩
        simp only [d₁, stored, high]
        omega
      have upper₁ : ∀ x ∈ contentsAfter (⟨.left, p, d₁, r⟩ :: ctx), e.Before x.2.2 := by
        rw [contentsAfter_left]
        exact forall_mem_cons.mpr ⟨before, forall_mem_append.mpr
          ⟨fun x hx => before.trans (above x hx), upper⟩⟩
      have down : Represents s₁ (plug (⟨.left, p, d₁, r⟩ :: ctx) l) := rep₁
      have enoughLeft : l.ptrs.length < rest := by omega
      obtain ⟨s', ctx', run, inner⟩ := ihl enoughLeft down fresh₁ ext₁ el exactDown balanced₁ ol
        (fun x hx => absent x (by simp [hx])) lower upper₁
      refine ⟨s', ctx', ?_, back inner⟩
      rwa [unfolded, if_pos (extentCompare_lt.mpr before)]

/-- Inserting an extent that is present returns its node and leaves the store as it is. -/
theorem intervalInsert_present {b : Bool} (wf : WellFormed s t) (enough : t.ptrs.length < fuel)
    (notIn : (Tree.node s node).intree = false) (ext : (Tree.node s node).extent = e)
    (mem : (q, b, e) ∈ contents t) : intervalInsert fuel s node = some (s, some q) := by
  have focus : Represents s (plug [] t) := wf.represents
  obtain ⟨slot, run⟩ := insertDescend_present enough focus wf.maxExact wf.ordered ext mem
  have run : insertDescend fuel s node none = some (s, some q, slot) := run
  simp [intervalInsert, notIn, run]

/-- Inserting a new extent adds the node and keeps the invariant. -/
theorem intervalInsert_fresh (wf : WellFormed s t) (enough : t.ptrs.length + 1 < fuel)
    (fresh : node ∉ t.ptrs) (notIn : (Tree.node s node).intree = false)
    (ext : (Tree.node s node).extent = e) (ownMax : (Tree.node s node).maxHigh = e.stop)
    (proper : e.start ≤ e.stop) (absent : ∀ x ∈ contents t, x.2.2 ≠ e) :
    ∃ s' t', intervalInsert fuel s node = some (s', none) ∧ WellFormed s' t' ∧
      (contents t').Perm ((node, true, e) :: contents t) ∧ SameOutside s s' (node :: t.ptrs) := by
  obtain ⟨k, balanced⟩ := wf.balanced
  have focus : Represents s (plug [] t) := wf.represents
  have enoughDown : t.ptrs.length < fuel := by omega
  obtain ⟨s₁, ctx, run, down⟩ :=
    insertDescend_absent enoughDown focus fresh ext wf.maxExact trivial balanced wf.ordered absent
      nofun nofun
  have run : insertDescend fuel s node none = some (s₁, none, ctx.slot) := run
  have whole : contents t = contentsBefore ctx ++ contentsAfter ctx := by
    rw [← show contents (plug ctx .nil) = contents t from down.same, contents_plug]
    simp
  have samePtrs : (plug ctx .nil).ptrs = t.ptrs := contents_ptrs down.same
  have inCtx : ∀ x ∈ ctx.ptrs, x ∈ t.ptrs := by
    intro x hx
    exact samePtrs ▸ mem_ptrs_plug.mpr (.inl hx)
  have freshCtx : node ∉ ctx.ptrs := fun mem => fresh (inCtx node mem)
  have unchanged : Tree.node s₁ node = Tree.node s node := by
    rw [Tree.node, down.outside node fresh]
    rfl
  -- link the red leaf
  let d : NodeData := { Tree.node s node with color := .red }
  obtain ⟨linked, out₂⟩ := down.represents.linkLeaf d freshCtx
  let s₂ : Tree P := initLeaf s₁ node ctx.parent
  let s₃ : Tree P := s₂.writeSlot ctx.slot (some node)
  have store : (Store.writeSlot
      { s₁ with heap := Function.update s₁.heap node ⟨none, none, ctx.parent, d⟩ }
      ctx.slot (some node)) = s₃ := by
    simp only [s₃, s₂, initLeaf, unchanged, d]
  rw [store] at linked out₂
  have leafHigh : high (.node node d .nil .nil) = e.stop := by simp [high, d, ext]
  have exact : MaxExact (plug ctx (.node node d .nil .nil)) := by
    refine maxExact_plug.mpr ⟨leafHigh ▸ down.exact, ?_, trivial, trivial⟩
    rw [leafHigh]
    exact ownMax
  -- repair the colours
  obtain ⟨n, balanced₁⟩ := down.balanced
  obtain ⟨_, _, hole, accepts⟩ := balanced₁.unplug
  cases hole
  have enoughUp : ctx.length + 1 < fuel := by
    have := length_plug ctx (.nil : Shape P NodeData)
    rw [samePtrs] at this
    omega
  obtain ⟨s₄, t₄, fix, rebuilt, k', balanced₄⟩ := intervalInsertColor_rebuilds enoughUp linked exact
    rfl (Balanced.red rfl .nil .nil) accepts
  have contents₄ : contents t₄ = contentsBefore ctx ++ (node, false, e) :: contentsAfter ctx := by
    rw [rebuilt.contents, contents_plug]
    simp [d, notIn, ext]
  have away : ∀ x ∈ contents t, x.1 ≠ node := by grind [contents, ptrs]
  have final : contents (flag node true t₄) =
      contentsBefore ctx ++ (node, true, e) :: contentsAfter ctx := by
    have keep : ∀ part : List (P × Bool × Extent), (∀ x ∈ part, x ∈ contents t) →
        part.map (fun x => if x.1 = node then (x.1, true, x.2.2) else x) = part := by
      intro part sub
      refine map_congr_left (fun x hx => if_neg (away x (sub x hx))) |>.trans ?_
      simp
    rw [contents_flag, contents₄, map_append, map_cons,
      keep _ fun x hx => by simp [whole, hx], keep _ fun x hx => by simp [whole, hx]]
    simp
  have perm : (contents (flag node true t₄)).Perm ((node, true, e) :: contents t) := by
    rw [final, whole]
    exact perm_middle
  have ordered := wf.ordered
  rw [whole, Ordered, pairwise_append] at ordered
  refine ⟨setIntree s₄ node true, flag node true t₄, ?_, ⟨?_, ?_, ?_, ?_, ?_, ?_⟩, ?_, ?_⟩
  · have slotParent : ctx.slot.map Prod.fst = ctx.parent := by
      cases ctx <;> rfl
    have fix : intervalInsertColor fuel ((initLeaf s₁ node ctx.parent).writeSlot
        ctx.slot (some node)) node = some s₄ := fix
    simp [intervalInsert, notIn, run, slotParent, fix]
  · exact rebuilt.represents.modifyData node _
  · rw [final, Ordered, pairwise_append, pairwise_cons]
    exact ⟨ordered.1, ⟨down.after, ordered.2.1⟩, fun x hx =>
      forall_mem_cons.mpr ⟨down.before x hx, ordered.2.2 x hx⟩⟩
  · exact ⟨k', balanced_flag balanced₄ node true⟩
  · exact rebuilt.maxExact.flag node true
  · exact fun x hx => (mem_cons.mp (perm.subset hx)).elim (fun new => new ▸ proper) (wf.proper x)
  · exact fun x hx => (mem_cons.mp (perm.subset hx)).elim (fun new => new ▸ rfl) (wf.intree x)
  · exact perm
  · have out₁ : SameOutside s s₁ (node :: t.ptrs) :=
      down.outside.mono fun x hx => mem_cons_of_mem _ hx
    have out₂ : SameOutside s₁ s₃ (node :: t.ptrs) := out₂.mono fun x hx => by
      rcases mem_cons.mp hx with rfl | hx
      · simp
      · simp [inCtx x hx]
    have out₃ : SameOutside s₃ s₄ (node :: t.ptrs) := rebuilt.outside.mono fun x hx => by
      rcases mem_ptrs_plug.mp hx with hx | hx
      · simp [inCtx x hx]
      · obtain rfl : x = node := by simpa using hx
        simp
    exact ((out₁.trans out₂).trans out₃).trans (Store.modifyData_same s₄ _ (by simp))

end Ldlm
