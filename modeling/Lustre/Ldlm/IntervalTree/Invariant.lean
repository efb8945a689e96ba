/-
Module: Lustre.Ldlm.IntervalTree.Invariant
Purpose: The representation invariant of the interval tree: exact subtree maxima, strict order of
  the extents and red-black balance.
Trusted boundary: none
-/
import Lustre.Ldlm.IntervalTree.Model

namespace Ldlm

open PointerHeap PointerHeap.Shape RedBlack NodeData

variable {P : Type}

/-- The largest end in a shape, zero for the empty one. -/
def high : Shape P NodeData → Nat
  | .nil => 0
  | .node _ d l r => max d.extent.stop (max (high l) (high r))

/-- The field `in_max_high` at the root, zero for a null link. -/
def storedHigh : Shape P NodeData → Nat
  | .nil => 0
  | .node _ d _ _ => d.maxHigh

/-- Every `in_max_high` is the largest end in its subtree. -/
def MaxExact : Shape P NodeData → Prop
  | .nil => True
  | .node p d l r => d.maxHigh = high (.node p d l r) ∧ MaxExact l ∧ MaxExact r

/-- The fields `in_max_high` of a context are exact when the largest end in its hole
is `m`. -/
def ContextExact : Context P NodeData → Nat → Prop
  | [], _ => True
  | frame :: ctx, m =>
    frame.data.maxHigh = max frame.data.extent.stop (max m (high frame.sibling)) ∧
      MaxExact frame.sibling ∧ ContextExact ctx frame.data.maxHigh

theorem high_sided (side : Side) (p : P) (d : NodeData) (n f : Shape P NodeData) :
    high (sided side p d n f) = max d.extent.stop (max (high n) (high f)) := by
  cases side with
  | left => rfl
  | right => simp only [sided, high, max_comm (high f)]

variable {p : P} {side : Side} {d : NodeData}

theorem maxExact_sided {n f : Shape P NodeData} :
    MaxExact (sided side p d n f) ↔
      d.maxHigh = max d.extent.stop (max (high n) (high f)) ∧ MaxExact n ∧ MaxExact f := by
  cases side with
  | left => rfl
  | right => simp only [sided, MaxExact, high, max_comm (high f), and_comm (a := MaxExact f)]

variable {t : Shape P NodeData}

theorem MaxExact.storedHigh (h : MaxExact t) : storedHigh t = high t := by
  cases t with
  | nil => rfl
  | node p d l r => exact h.1

variable {ctx : Context P NodeData}

theorem maxExact_plug : MaxExact (plug ctx t) ↔ ContextExact ctx (high t) ∧ MaxExact t := by
  induction ctx generalizing t with
  | nil => simp [plug, ContextExact]
  | cons frame ctx ih =>
    rw [plug, ih, maxExact_sided, high_sided]
    constructor
    · rintro ⟨hctx, exact, ht, hs⟩
      exact ⟨⟨exact, hs, exact ▸ hctx⟩, ht⟩
    · rintro ⟨⟨exact, hs, hctx⟩, ht⟩
      exact ⟨exact ▸ hctx, exact, ht, hs⟩

/-! ### Contents and order -/

/-- The nodes of a shape in symmetric order, with the fields that no recolouring or rotation touches. -/
def contents (t : Shape P NodeData) : List (P × Bool × Extent) :=
  t.items.map fun x => (x.1, x.2.intree, x.2.extent)

/-- The strict order of `extent_compare`. -/
def Extent.Before (e₁ e₂ : Extent) : Prop :=
  e₁.start < e₂.start ∨ e₁.start = e₂.start ∧ e₁.stop < e₂.stop

instance (e₁ e₂ : Extent) : Decidable (e₁.Before e₂) := inferInstanceAs (Decidable (_ ∨ _))

variable {e₁ e₂ : Extent}

theorem Extent.Before.trans {e₃ : Extent} (h : e₁.Before e₂) (h' : e₂.Before e₃) :
    e₁.Before e₃ := by
  unfold Extent.Before at *
  omega

theorem Extent.Before.irrefl (e : Extent) : ¬ e.Before e := by
  unfold Extent.Before
  omega

theorem extentCompare_lt : extentCompare e₁ e₂ = .lt ↔ e₁.Before e₂ := by
  unfold extentCompare Extent.Before
  split_ifs <;> simp <;> omega

theorem extentEqual_iff : extentEqual e₁ e₂ = true ↔ e₁ = e₂ := by
  obtain ⟨a, b⟩ := e₁
  obtain ⟨c, d⟩ := e₂
  simp [extentEqual]

/-- Different extents are ordered one way or the other. -/
theorem Extent.before_total (h : e₁ ≠ e₂) : e₁.Before e₂ ∨ e₂.Before e₁ := by
  obtain ⟨a, b⟩ := e₁
  obtain ⟨c, d⟩ := e₂
  simp only [ne_eq, Extent.mk.injEq] at h
  simp only [Extent.Before]
  omega

/-- The nodes are strictly ordered by their extents. -/
def Ordered (c : List (P × Bool × Extent)) : Prop :=
  c.Pairwise fun a b => a.2.2.Before b.2.2

@[simp] theorem contents_nil : contents (.nil : Shape P NodeData) = [] := rfl

@[simp] theorem contents_node (p : P) (d : NodeData) (l r : Shape P NodeData) :
    contents (.node p d l r) = contents l ++ (p, d.intree, d.extent) :: contents r := by
  simp [contents, items]

theorem ptrs_eq_contents (t : Shape P NodeData) : t.ptrs = (contents t).map Prod.fst := by
  simp [contents, ptrs, Function.comp_def]

variable {t' : Shape P NodeData}

theorem contents_ptrs (h : contents t' = contents t) : t'.ptrs = t.ptrs := by
  rw [ptrs_eq_contents, ptrs_eq_contents, h]

/-- The contents of a context left of its hole. -/
def contentsBefore (ctx : Context P NodeData) : List (P × Bool × Extent) :=
  ctx.before.map fun x => (x.1, x.2.intree, x.2.extent)

/-- The contents of a context right of its hole. -/
def contentsAfter (ctx : Context P NodeData) : List (P × Bool × Extent) :=
  ctx.after.map fun x => (x.1, x.2.intree, x.2.extent)

theorem contents_plug (ctx : Context P NodeData) (t : Shape P NodeData) :
    contents (plug ctx t) = contentsBefore ctx ++ contents t ++ contentsAfter ctx := by
  simp [contents, contentsBefore, contentsAfter, items_plug]

theorem contentsAfter_left (p : P) (d : NodeData) (r : Shape P NodeData)
    (ctx : Context P NodeData) : contentsAfter (⟨.left, p, d, r⟩ :: ctx) =
      (p, d.intree, d.extent) :: contents r ++ contentsAfter ctx := by
  simp [contentsAfter, contents, Context.after]

theorem contentsBefore_right (p : P) (d : NodeData) (l : Shape P NodeData)
    (ctx : Context P NodeData) : contentsBefore (⟨.right, p, d, l⟩ :: ctx) =
      contentsBefore ctx ++ contents l ++ [(p, d.intree, d.extent)] := by
  simp [contentsBefore, contents, Context.before]

/-- Equal contents of the focus give equal contents of the whole. -/
theorem contents_plug_congr (h : contents t' = contents t) (ctx : Context P NodeData) :
    contents (plug ctx t') = contents (plug ctx t) := by
  rw [contents_plug, contents_plug, h]

/-- Every largest end is attained or the shape is empty. -/
theorem le_high {x : P × Bool × Extent} (h : x ∈ contents t) : x.2.2.stop ≤ high t := by
  induction t with
  | nil => simp at h
  | node p d l r ihl ihr =>
    grind [high, contents_node, le_max_left]

/-- What a store holds between two operations. -/
structure WellFormed (s : Tree P) (t : Shape P NodeData) : Prop where
  represents : Represents s t
  ordered : Ordered (contents t)
  balanced : ∃ n, Balanced color t .black n
  maxExact : MaxExact t
  proper : ∀ x ∈ contents t, x.2.2.start ≤ x.2.2.stop
  intree : ∀ x ∈ contents t, x.2.1 = true

/-- What a step of a fixup loop keeps, whatever it does to colours and links. -/
structure Rebuilt (s s' : Tree P) (t t' : Shape P NodeData) : Prop where
  represents : Represents s' t'
  contents : contents t' = contents t
  maxExact : MaxExact t'
  outside : SameOutside s s' t.ptrs

variable {s : Tree P}

/-- A colour fixup succeeds, in a red-black tree with a black root. -/
abbrev Fixes (s : Tree P) (t : Shape P NodeData) (fixed : Option (Tree P)) : Prop :=
  ∃ s' t', fixed = some s' ∧ Rebuilt s s' t t' ∧ ∃ n, Balanced color t' .black n

theorem Rebuilt.refl (h : Represents s t) (exact : MaxExact t) : Rebuilt s s t t :=
  ⟨h, rfl, exact, .refl s _⟩

theorem Rebuilt.trans {s' s'' : Tree P} {t'' : Shape P NodeData} (h : Rebuilt s s' t t')
    (h' : Rebuilt s' s'' t' t'') : Rebuilt s s'' t t'' where
  represents := h'.represents
  contents := h'.contents.trans h.contents
  maxExact := h'.maxExact
  outside := h.outside.trans (contents_ptrs h.contents ▸ h'.outside)

variable {k : Nat}

/-- Balance reads only the colours. -/
theorem balanced_plug_data (d' : NodeData) {l r : Shape P NodeData}
    (h : Balanced color (plug ctx (.node p d l r)) .black k) (same : d'.color = d.color) :
    ∃ k', Balanced color (plug ctx (.node p d' l r)) .black k' := by
  obtain ⟨c, n, focus, hctx⟩ := h.unplug
  cases focus with
  | red isRed hl hr => exact (Balanced.red (same.trans isRed) hl hr).plug hctx
  | black isBlack hl hr => exact (Balanced.black (same.trans isBlack) hl hr).plug hctx

variable [DecidableEq P]

variable {c : Color}

section Reads

omit [DecidableEq P]

variable {s : Tree P} {ctx : Context P NodeData} {side : Side} {p : P} {d : NodeData}
  {n f t : Shape P NodeData}

theorem node_eq (h : Represents s (plug ctx (sided side p d n f))) : Tree.node s p = d := by
  rw [Tree.node, h.cell, Cell.data_sided]

theorem parent_eq (h : Represents s (plug ctx t)) (root : t.ptr? = some p) :
    (s.heap p).parent = ctx.parent := by
  obtain ⟨d, l, r, rfl⟩ := exists_sided root .left
  rw [h.cell, Cell.parent_sided]

theorem maxHighOr0_eq {heap : P → Cell P NodeData} {parent : Option P} (same : s.heap = heap)
    (h : Holds heap parent t) : Tree.maxHighOr0 s t.ptr? = storedHigh t := by
  cases t with
  | nil => rfl
  | node q d l r => simp [Tree.maxHighOr0, Tree.node, storedHigh, same, h.1]

theorem childrenMax_eq (h : Represents s (plug ctx (sided side p d n f))) :
    Tree.childrenMax s p = max d.extent.stop (max (storedHigh n) (storedHigh f)) := by
  obtain ⟨_, hn, hf⟩ := holds_sided.mp ((holds_plug _ _ _).mp h.holds).2
  have near := maxHighOr0_eq rfl hn
  have far := maxHighOr0_eq rfl hf
  rw [Tree.childrenMax, Tree.intervalHigh, node_eq h, h.cell]
  cases side with
  | left => simp only [Cell.sided, near, far]
  | right => simp only [Cell.sided, near, far, max_comm (storedHigh f)]

theorem nodeIsBlackOr0_eq (h : Represents s (plug ctx t)) (ht : Balanced color t c k) :
    Tree.nodeIsBlackOr0 s t.ptr? = decide (c = .black) := by
  have hold := ((holds_plug _ _ _).mp h.holds).2
  cases ht with
  | nil => rfl
  | red isRed _ _ => simp [Tree.nodeIsBlackOr0, Tree.node, hold.1, isRed]
  | black isBlack _ _ => simp [Tree.nodeIsBlackOr0, Tree.node, hold.1, isBlack]

end Reads

theorem sideOf_eq {g : P} {sibling : Shape P NodeData}
    (h : Represents s (plug (⟨side, g, d, sibling⟩ :: ctx) t)) (apart : sibling.ptr? ≠ t.ptr?) :
    Tree.sideOf s g t.ptr? = side := by
  rw [Tree.sideOf, h.cell_parent]
  cases side with
  | left => simp [Cell.sided]
  | right => simp [Cell.sided, apart]

omit [DecidableEq P] in
theorem ptr_ne_sibling {frame : Frame P NodeData} (h : Represents s (plug (frame :: ctx) t))
    (root : t.ptr? = some p) : frame.sibling.ptr? ≠ t.ptr? := by
  intro same
  have inSibling : p ∈ Context.ptrs (frame :: ctx) := by
    simp [Context.ptrs, mem_ptrs_of_ptr? (same.trans root)]
  exact h.disjoint p inSibling (mem_ptrs_of_ptr? root)

/-! ### Recolouring -/

/-- Give the root another colour. -/
def paint (c : Color) : Shape P NodeData → Shape P NodeData
  | .nil => .nil
  | .node p d l r => .node p { d with color := c } l r

section Paint

omit [DecidableEq P]

@[simp] theorem paint_sided (c : Color) (side : Side) (p : P) (d : NodeData)
    (n f : Shape P NodeData) :
    paint c (sided side p d n f) = sided side p { d with color := c } n f := by
  cases side <;> rfl

@[simp] theorem contents_paint (c : Color) (t : Shape P NodeData) :
    contents (paint c t) = contents t := by
  cases t <;> simp [paint]

@[simp] theorem high_paint (c : Color) (t : Shape P NodeData) : high (paint c t) = high t := by
  cases t <;> rfl

theorem MaxExact.paint (h : MaxExact t) (c : Color) : MaxExact (paint c t) := by
  cases t with
  | nil => trivial
  | node p d l r => exact h

/-- A red root painted black adds one to the black height. -/
theorem paintBlack_of_red (h : Balanced color t .red k) :
    Balanced color (paint .black t) .black (k + 1) := by
  cases h with
  | red _ hl hr => exact .black rfl hl hr

/-- Painting a balanced tree black keeps it balanced. -/
theorem balanced_paint_black (h : Balanced color t c k) :
    ∃ k', Balanced color (paint .black t) .black k' := by
  cases h with
  | nil => exact ⟨0, .nil⟩
  | red _ hl hr => exact ⟨_, .black rfl hl hr⟩
  | black _ hl hr => exact ⟨_, .black rfl hl hr⟩

end Paint

/-- Painting the root of the focus is a rebuilding step. -/
theorem Rebuilt.paint (ctx : Context P NodeData) (h : Represents s (plug ctx t))
    (exact : MaxExact (plug ctx t)) (c : Color) :
    Rebuilt s (Tree.setColor? s t.ptr? c) (plug ctx t) (plug ctx (paint c t)) := by
  cases t with
  | nil => exact .refl h exact
  | node p d l r =>
    obtain ⟨hctx, ht⟩ := maxExact_plug.mp exact
    have focus : Represents s (plug ctx (sided .left p d l r)) := h
    refine ⟨focus.modifyFocus fun d => { d with color := c }, ?_, ?_, ?_⟩
    · exact contents_plug_congr (contents_paint c _) ctx
    · refine maxExact_plug.mpr ⟨?_, ht.paint c⟩
      rwa [high_paint]
    · have mem : p ∈ (plug ctx (.node p d l r)).ptrs := mem_ptrs_plug.mpr (.inr (by simp))
      exact Store.modifyData_same s (fun d => { d with color := c }) mem

theorem Rebuilt.recolor (ctx : Context P NodeData) {n f : Shape P NodeData}
    (h : Represents s (plug ctx (sided side p d n f)))
    (exact : MaxExact (plug ctx (sided side p d n f))) (c : Color) :
    Rebuilt s (Tree.setColor s p c) (plug ctx (sided side p d n f))
      (plug ctx (sided side p { d with color := c } n f)) := by
  have step := Rebuilt.paint ctx h exact c
  rwa [ptr?_sided, paint_sided] at step

/-- Set the flag of one node in a shape. -/
def flag (p : P) (b : Bool) (t : Shape P NodeData) : Shape P NodeData :=
  t.modify p fun d => { d with intree := b }

theorem contents_flag (p : P) (b : Bool) (t : Shape P NodeData) :
    contents (flag p b t) =
      (contents t).map fun x => if x.1 = p then (x.1, b, x.2.2) else x := by
  induction t with
  | nil => rfl
  | node q d l r ihl ihr =>
    simp only [flag, Shape.modify, contents_node, List.map_append, List.map_cons] at *
    rw [ihl, ihr]
    split_ifs <;> simp

theorem high_flag (p : P) (b : Bool) (t : Shape P NodeData) : high (flag p b t) = high t := by
  induction t with
  | nil => rfl
  | node q d l r ihl ihr =>
    simp only [flag, Shape.modify, high] at *
    rw [ihl, ihr]
    split_ifs <;> rfl

theorem MaxExact.flag (h : MaxExact t) (p : P) (b : Bool) : MaxExact (flag p b t) := by
  induction t with
  | nil => trivial
  | node q d l r ihl ihr =>
    obtain ⟨stored, hl, hr⟩ := h
    refine ⟨?_, ihl hl, ihr hr⟩
    have whole := high_flag p b (.node q d l r)
    simp only [Ldlm.flag, Shape.modify] at whole
    rw [whole, ← stored]
    split_ifs <;> rfl

theorem balanced_flag (h : Balanced color t c k) (p : P) (b : Bool) :
    Balanced color (flag p b t) c k := by
  induction h with
  | nil => exact .nil
  | red isRed _ _ ihl ihr =>
    refine .red ?_ ihl ihr
    split_ifs <;> exact isRed
  | black isBlack _ _ ihl ihr =>
    refine .black ?_ ihl ihr
    split_ifs <;> exact isBlack

/-- A rotation with its repair of the maxima. -/
theorem Rebuilt.rotateToward (ctx : Context P NodeData) {q : P} {dp dq : NodeData}
    {a b c : Shape P NodeData}
    (h : Represents s (plug ctx (sided side p dp a (sided side q dq b c))))
    (exact : MaxExact (plug ctx (sided side p dp a (sided side q dq b c)))) :
    ∃ s' dp' dq', Tree.rotateToward side s p = some s' ∧ dp'.color = dp.color ∧
      dq'.color = dq.color ∧
      Rebuilt s s' (plug ctx (sided side p dp a (sided side q dq b c)))
        (plug ctx (sided side q dq' (sided side p dp' a b) c)) := by
  obtain ⟨s₁, run, rep₁, out₁⟩ := h.rotate
  obtain ⟨hctx, ht⟩ := maxExact_plug.mp exact
  obtain ⟨topMax, ha, hinner⟩ := maxExact_sided.mp ht
  obtain ⟨_, hb, hc⟩ := maxExact_sided.mp hinner
  have cell : s.heap p = .sided side a.ptr? (some q) ctx.parent dp := by
    simpa using h.cell
  let dq' : NodeData := { dq with maxHigh := dp.maxHigh }
  let dp' : NodeData := { dp with maxHigh := max dp.extent.stop (max (high a) (high b)) }
  have lowered₁ : Represents s₁ (plug (⟨side, q, dq, c⟩ :: ctx) (sided side p dp a b)) := rep₁
  -- the lifted node takes over the maximum of the subtree
  have rep₂ : Represents (Tree.setMaxHigh s₁ q dp.maxHigh)
      (plug ctx (sided side q dq' (sided side p dp a b) c)) := rep₁.modifyFocus _
  -- the lowered node gets the maximum of its new children
  have lowered₂ : Represents (Tree.setMaxHigh s₁ q dp.maxHigh)
      (plug (⟨side, q, dq', c⟩ :: ctx) (sided side p dp a b)) := rep₂
  have value : Tree.childrenMax (Tree.setMaxHigh s₁ q dp.maxHigh) p =
      max dp.extent.stop (max (high a) (high b)) := by
    rw [childrenMax_eq lowered₂, ha.storedHigh, hb.storedHigh]
  have rep₃ : Represents (Tree.rotateChangeMaxhigh s₁ p q)
      (plug ctx (sided side q dq' (sided side p dp' a b) c)) := by
    simp only [Tree.rotateChangeMaxhigh, node_eq lowered₁, value]
    exact lowered₂.modifyFocus _
  have sameHigh : high (sided side q dq' (sided side p dp' a b) c) =
      high (sided side p dp a (sided side q dq b c)) := by
    simp only [high_sided, dq', dp']
    omega
  refine ⟨.rotateChangeMaxhigh s₁ p q, dp', dq', ?_, rfl, rfl, rep₃, ?_, ?_, ?_⟩
  · simp [Tree.rotateToward, cell, run]
  · refine contents_plug_congr ?_ ctx
    cases side <;> simp [sided, dp', dq']
  · refine maxExact_plug.mpr ⟨sameHigh ▸ hctx, maxExact_sided.mpr ⟨?_, ?_, hc⟩⟩
    · simp only [high_sided, dq', dp'] at *
      omega
    · exact maxExact_sided.mpr ⟨rfl, ha, hb⟩
  · have memp : p ∈ (plug ctx (sided side p dp a (sided side q dq b c))).ptrs :=
      mem_ptrs_plug.mpr (.inr (by simp))
    have memq : q ∈ (plug ctx (sided side p dp a (sided side q dq b c))).ptrs :=
      mem_ptrs_plug.mpr (.inr (by simp))
    simp only [Tree.rotateChangeMaxhigh, Tree.setMaxHigh]
    exact out₁.trans ((Store.modifyData_same _ _ memq).trans (Store.modifyData_same _ _ memp))

end Ldlm
