/-
Module: Lustre.Lib.PointerHeap
Purpose: Binary trees in a heap of cells with left, right and parent links, contexts around a
  focused subtree, and relinking, stated once for a side.
Trusted boundary: none
Main exports: Side, Store, Shape, plug, Represents, Represents.rotate, Represents.splice
-/
import Mathlib.Algebra.Order.Ring.Int
import Mathlib.Data.List.Basic

namespace PointerHeap

/-- A child position. -/
inductive Side where
  | left
  | right
deriving DecidableEq, Repr

/-- The other child position. -/
def Side.flip : Side → Side
  | .left => .right
  | .right => .left

/-- One heap cell: three nullable links and a payload. -/
structure Cell (P δ : Type) where
  left : Option P
  right : Option P
  parent : Option P
  data : δ
deriving DecidableEq, Repr

variable {P δ : Type}

namespace Cell

/-- The child link on a side. -/
def child (c : Cell P δ) : Side → Option P
  | .left => c.left
  | .right => c.right

/-- Overwrite the child link on a side. -/
def setChild (c : Cell P δ) (v : Option P) : Side → Cell P δ
  | .left => { c with left := v }
  | .right => { c with right := v }

/-- The cell with child `near` on the given side and `far` on the other one. -/
def sided (side : Side) (near far parent : Option P) (d : δ) : Cell P δ :=
  match side with
  | .left => ⟨near, far, parent, d⟩
  | .right => ⟨far, near, parent, d⟩

variable (side : Side) (near far parent v : Option P) (d : δ)

@[simp] theorem child_sided : (sided side near far parent d).child side = near := by
  cases side <;> rfl
@[simp] theorem child_flip_sided : (sided side near far parent d).child side.flip = far := by
  cases side <;> rfl
@[simp] theorem parent_sided : (sided side near far parent d).parent = parent := by
  cases side <;> rfl
@[simp] theorem data_sided : (sided side near far parent d).data = d := by
  cases side <;> rfl
@[simp] theorem setChild_sided :
    (sided side near far parent d).setChild v side = sided side v far parent d := by
  cases side <;> rfl
@[simp] theorem setChild_flip_sided :
    (sided side near far parent d).setChild v side.flip = sided side near v parent d := by
  cases side <;> rfl

end Cell

/-- A heap together with the variable that holds the root link. -/
structure Store (P δ : Type) where
  heap : P → Cell P δ
  root : Option P

/-- The finite tree a store stands for: every node keeps the address it lives at. -/
inductive Shape (P δ : Type) where
  | nil
  | node (ptr : P) (data : δ) (left right : Shape P δ)
deriving DecidableEq, Repr

variable {x p : P} {d : δ} {side : Side} {n f l r t : Shape P δ}

namespace Shape

/-- The link that points at a shape. -/
def ptr? : Shape P δ → Option P
  | nil => none
  | node p _ _ _ => some p

/-- Addresses and payloads in symmetric order. -/
def items : Shape P δ → List (P × δ)
  | nil => []
  | node p d l r => l.items ++ (p, d) :: r.items

/-- Addresses in symmetric order. -/
def ptrs (t : Shape P δ) : List P := t.items.map Prod.fst

/-- The node with subtree `near` on the given side and `far` on the other one. -/
def sided (side : Side) (p : P) (d : δ) (near far : Shape P δ) : Shape P δ :=
  match side with
  | .left => node p d near far
  | .right => node p d far near

@[simp] theorem ptr?_nil : (nil : Shape P δ).ptr? = none := rfl
@[simp] theorem ptr?_node (p : P) (d : δ) (l r : Shape P δ) : (node p d l r).ptr? = some p := rfl
@[simp] theorem ptr?_sided (side : Side) (p : P) (d : δ) (n f : Shape P δ) :
    (sided side p d n f).ptr? = some p := by cases side <;> rfl
@[simp] theorem ptrs_nil : (nil : Shape P δ).ptrs = [] := rfl
@[simp] theorem ptrs_node (p : P) (d : δ) (l r : Shape P δ) :
    (node p d l r).ptrs = l.ptrs ++ p :: r.ptrs := by simp [ptrs, items]

/-- The same node read from the other side. -/
theorem sided_flip (side : Side) (p : P) (d : δ) (n f : Shape P δ) :
    sided side.flip p d n f = sided side p d f n := by cases side <;> rfl

theorem ptr?_eq_none : t.ptr? = none ↔ t = nil := by
  cases t <;> simp

theorem mem_ptrs_of_ptr? (h : t.ptr? = some p) : p ∈ t.ptrs := by
  cases t with
  | nil => simp at h
  | node q d l r =>
    simp only [ptr?_node, Option.some.injEq] at h
    simp [h]

@[simp] theorem mem_ptrs_sided :
    x ∈ (sided side p d n f).ptrs ↔ x = p ∨ x ∈ n.ptrs ∨ x ∈ f.ptrs := by
  cases side <;> simp only [sided, ptrs_node, List.mem_append, List.mem_cons] <;> tauto

theorem ptrs_sided_perm (side : Side) (p : P) (d : δ) (n f : Shape P δ) :
    (sided side p d n f).ptrs.Perm (p :: (n.ptrs ++ f.ptrs)) := by
  cases side with
  | left => simp [sided]
  | right =>
    simp only [sided, ptrs_node]
    exact List.perm_middle.trans (.cons p List.perm_append_comm)

/-- An address occurs once in a node exactly when it occurs once in one of its parts. -/
theorem nodup_sided : (sided side p d n f).ptrs.Nodup ↔
      p ∉ n.ptrs ∧ p ∉ f.ptrs ∧ n.ptrs.Nodup ∧ f.ptrs.Nodup ∧ ∀ x ∈ n.ptrs, x ∉ f.ptrs := by
  grind [ptrs_sided_perm, List.nodup_cons, List.nodup_append]

theorem mem_ptrs_node : x ∈ (node p d l r).ptrs ↔ x = p ∨ x ∈ l.ptrs ∨ x ∈ r.ptrs := by
  rw [show node p d l r = sided .left p d l r from rfl, mem_ptrs_sided]

theorem nodup_node : (node p d l r).ptrs.Nodup ↔
      p ∉ l.ptrs ∧ p ∉ r.ptrs ∧ l.ptrs.Nodup ∧ r.ptrs.Nodup ∧ ∀ x ∈ l.ptrs, x ∉ r.ptrs := by
  rw [show node p d l r = sided .left p d l r from rfl, nodup_sided]

/-- A nonempty shape can be read from either side. -/
theorem exists_sided (h : t.ptr? = some p) (side : Side) : ∃ d n f, t = sided side p d n f := by
  cases t with
  | nil => simp at h
  | node q d l r =>
    simp only [ptr?_node, Option.some.injEq] at h
    subst h
    cases side with
    | left => exact ⟨d, l, r, rfl⟩
    | right => exact ⟨d, r, l, rfl⟩

end Shape

open Function Shape List

/-- A heap holds a shape whose root has parent link `parent`. -/
def Holds (heap : P → Cell P δ) : Option P → Shape P δ → Prop
  | _, .nil => True
  | parent, .node p d l r =>
    heap p = ⟨l.ptr?, r.ptr?, parent, d⟩ ∧ Holds heap (some p) l ∧ Holds heap (some p) r

theorem holds_sided {heap : P → Cell P δ} {parent : Option P} :
    Holds heap parent (sided side p d n f) ↔
      heap p = Cell.sided side n.ptr? f.ptr? parent d ∧ Holds heap (some p) n ∧
        Holds heap (some p) f := by
  cases side with
  | left => exact Iff.rfl
  | right => simp only [sided, Holds, Cell.sided, and_comm (a := Holds heap (some p) f)]

/-- A step of the path from a hole to the root: the side of its parent the hole hangs on, and the
sibling. -/
structure Frame (P δ : Type) where
  side : Side
  ptr : P
  data : δ
  sibling : Shape P δ

/-- A path from a hole to the root, innermost frame first. -/
abbrev Context (P δ : Type) := List (Frame P δ)

/-- Put a shape into the hole. -/
def plug : Context P δ → Shape P δ → Shape P δ
  | [], t => t
  | frame :: ctx, t => plug ctx (sided frame.side frame.ptr frame.data t frame.sibling)

namespace Context

/-- Address of the hole's parent. -/
def parent : Context P δ → Option P
  | [] => none
  | frame :: _ => some frame.ptr

@[simp] theorem parent_nil : parent ([] : Context P δ) = none := rfl
@[simp] theorem parent_cons (frame : Frame P δ) (ctx : Context P δ) :
    parent (frame :: ctx) = some frame.ptr := rfl

/-- Items of a context left of its hole. -/
def before : Context P δ → List (P × δ)
  | [] => []
  | ⟨.left, _, _, _⟩ :: ctx => before ctx
  | ⟨.right, p, d, l⟩ :: ctx => before ctx ++ l.items ++ [(p, d)]

/-- Items of a context right of its hole. -/
def after : Context P δ → List (P × δ)
  | [] => []
  | ⟨.left, p, d, r⟩ :: ctx => (p, d) :: r.items ++ after ctx
  | ⟨.right, _, _, _⟩ :: ctx => after ctx

/-- Addresses of a context. -/
def ptrs : Context P δ → List P
  | [] => []
  | frame :: ctx => frame.ptr :: (frame.sibling.ptrs ++ ptrs ctx)

/-- The root link of a filled context. -/
def rootOr : Context P δ → Option P → Option P
  | [], hole => hole
  | frame :: ctx, _ => rootOr ctx (some frame.ptr)

theorem frame_mem_ptrs {frame : Frame P δ} {ctx : Context P δ} (h : frame ∈ ctx) :
    frame.ptr ∈ ptrs ctx := by
  induction ctx with
  | nil => simp at h
  | cons other ctx ih =>
    rcases mem_cons.mp h with rfl | h
    · simp [ptrs]
    · simp [ptrs, ih h]

theorem parent_mem_ptrs {ctx : Context P δ} (h : parent ctx = some p) : p ∈ ptrs ctx := by
  cases ctx with
  | nil => simp [parent] at h
  | cons frame ctx =>
    simp only [parent, Option.some.injEq] at h
    simp [ptrs, h]

end Context

/-- A heap holds a context whose hole is linked as `hole`. -/
def HoldsContext (heap : P → Cell P δ) : Context P δ → Option P → Prop
  | [], _ => True
  | frame :: ctx, hole =>
    heap frame.ptr =
        Cell.sided frame.side hole frame.sibling.ptr? (Context.parent ctx) frame.data ∧
      Holds heap (some frame.ptr) frame.sibling ∧ HoldsContext heap ctx (some frame.ptr)

variable {ctx : Context P δ}

theorem items_plug (ctx : Context P δ) (t : Shape P δ) :
    (plug ctx t).items = ctx.before ++ t.items ++ ctx.after := by
  induction ctx generalizing t with
  | nil => simp [plug, Context.before, Context.after]
  | cons frame ctx ih =>
    obtain ⟨side, p, d, sibling⟩ := frame
    cases side <;> simp [plug, Context.before, Context.after, ih, sided, Shape.items]

theorem plug_append (inner outer : Context P δ) (t : Shape P δ) :
    plug (inner ++ outer) t = plug outer (plug inner t) := by
  induction inner generalizing t with
  | nil => rfl
  | cons frame inner ih => exact ih _

/-- Frames can be moved between the focus and its context. -/
theorem holds_plug (heap : P → Cell P δ) (ctx : Context P δ) (t : Shape P δ) :
    Holds heap none (plug ctx t) ↔
      HoldsContext heap ctx t.ptr? ∧ Holds heap (Context.parent ctx) t := by
  induction ctx generalizing t with
  | nil => simp [plug, HoldsContext, Context.parent]
  | cons frame ctx ih =>
    simp only [plug, ih, HoldsContext, Context.parent, holds_sided, ptr?_sided]
    tauto

theorem ptr?_plug (ctx : Context P δ) (t : Shape P δ) :
    (plug ctx t).ptr? = Context.rootOr ctx t.ptr? := by
  induction ctx generalizing t with
  | nil => rfl
  | cons frame ctx ih => simp [plug, Context.rootOr, ih]

theorem exists_ptr?_plug (root : t.ptr? = some p) (ctx : Context P δ) :
    ∃ q, (plug ctx t).ptr? = some q := by
  induction ctx generalizing t p with
  | nil => exact ⟨p, root⟩
  | cons frame ctx ih => exact ih (ptr?_sided ..)

theorem ptrs_plug_perm (ctx : Context P δ) (t : Shape P δ) :
    (plug ctx t).ptrs.Perm (ctx.ptrs ++ t.ptrs) := by
  induction ctx generalizing t with
  | nil => simp [plug, Context.ptrs]
  | cons frame ctx ih =>
    refine (ih _).trans ?_
    refine (List.Perm.append_left _ (ptrs_sided_perm _ _ _ _ _)).trans ?_
    refine perm_middle.trans ?_
    refine List.Perm.cons _ ?_
    refine perm_append_comm.trans ?_
    rw [append_assoc]
    exact perm_append_comm.trans (by simp)

theorem exists_plug (h : p ∈ t.ptrs) : ∃ ctx d l r, t = plug ctx (.node p d l r) := by
  have inside : ∀ (t : Shape P δ) (outer : Context P δ), p ∈ t.ptrs →
      ∃ ctx d l r, plug outer t = plug ctx (.node p d l r) := by
    intro t
    induction t with
    | nil => simp
    | node q d l r ihl ihr =>
      intro outer mem
      rcases mem_ptrs_node.mp mem with rfl | mem | mem
      · exact ⟨outer, d, l, r, rfl⟩
      · exact ihl (⟨.left, q, d, r⟩ :: outer) mem
      · exact ihr (⟨.right, q, d, l⟩ :: outer) mem
  exact inside t [] h

/-- A path visits at most as many nodes as the tree has. -/
theorem length_plug (ctx : Context P δ) (t : Shape P δ) :
    ctx.length + t.ptrs.length ≤ (plug ctx t).ptrs.length := by
  have frames : ∀ ctx : Context P δ, ctx.length ≤ ctx.ptrs.length := by
    intro ctx
    induction ctx with
    | nil => simp
    | cons frame ctx ih =>
      simp only [Context.ptrs, length_cons, length_append]
      omega
  rw [(ptrs_plug_perm ctx t).length_eq, length_append]
  have := frames ctx
  omega

theorem mem_ptrs_plug : x ∈ (plug ctx t).ptrs ↔ x ∈ ctx.ptrs ∨ x ∈ t.ptrs := by
  rw [(ptrs_plug_perm ctx t).mem_iff, mem_append]

theorem nodup_plug : (plug ctx t).ptrs.Nodup ↔
      ctx.ptrs.Nodup ∧ t.ptrs.Nodup ∧ ∀ p ∈ ctx.ptrs, p ∉ t.ptrs := by
  grind [ptrs_plug_perm, nodup_append]

section Heaps

variable {heap heap' : P → Cell P δ} {parent : Option P}

theorem Holds.congr (h : Holds heap parent t) (same : ∀ x ∈ t.ptrs, heap' x = heap x) :
    Holds heap' parent t := by
  induction t generalizing parent with
  | nil => trivial
  | node p d l r ihl ihr =>
    obtain ⟨hp, hl, hr⟩ := h
    refine ⟨?_, ihl hl fun x hx => same x ?_, ihr hr fun x hx => same x ?_⟩
    · rw [same p (by simp), hp]
    · simp [hx]
    · simp [hx]

theorem HoldsContext.congr {hole : Option P}
    (h : HoldsContext heap ctx hole) (same : ∀ x ∈ ctx.ptrs, heap' x = heap x) :
    HoldsContext heap' ctx hole := by
  induction ctx generalizing hole with
  | nil => trivial
  | cons frame ctx ih =>
    obtain ⟨hp, hs, hctx⟩ := h
    refine ⟨?_, hs.congr fun x hx => same x ?_, ih hctx fun x hx => same x ?_⟩
    · rw [same _ (by simp [Context.ptrs]), hp]
    · simp [Context.ptrs, hx]
    · simp [Context.ptrs, hx]

/-- Moving a subtree under another parent only rewrites the parent link of its root. -/
theorem Holds.reparent {old new : Option P} (h : Holds heap old t) (nodup : t.ptrs.Nodup)
    (root : ∀ p, t.ptr? = some p → heap' p = { heap p with parent := new })
    (same : ∀ x ∈ t.ptrs, t.ptr? ≠ some x → heap' x = heap x) : Holds heap' new t := by
  cases t with
  | nil => trivial
  | node p d l r =>
    obtain ⟨hp, hl, hr⟩ := h
    simp only [ptrs_node, nodup_append, nodup_cons, mem_cons] at nodup
    obtain ⟨_, ⟨hpr, _⟩, disjoint⟩ := nodup
    refine ⟨by rw [root p rfl, hp], hl.congr fun x hx => ?_, hr.congr fun x hx => ?_⟩
    · refine same x (by simp [hx]) ?_
      rintro ⟨rfl⟩
      exact disjoint _ hx _ (.inl rfl) rfl
    · refine same x (by simp [hx]) ?_
      rintro ⟨rfl⟩
      exact hpr hx

/-! ### Operations on a store -/

variable [DecidableEq P]

namespace Store

/-- Write one child link. -/
def setChild (s : Store P δ) (side : Side) (p : P) (v : Option P) : Store P δ :=
  { s with heap := update s.heap p ((s.heap p).setChild v side) }

/-- Write one parent link. -/
def setParent (s : Store P δ) (p : P) (v : Option P) : Store P δ :=
  { s with heap := update s.heap p { s.heap p with parent := v } }

/-- Write the parent link of a cell if there is one. -/
def setParent? (s : Store P δ) (p v : Option P) : Store P δ :=
  match p with
  | some p => s.setParent p v
  | none => s

/-- Rewrite one payload. -/
def modifyData (s : Store P δ) (p : P) (f : δ → δ) : Store P δ :=
  { s with heap := update s.heap p { s.heap p with data := f (s.heap p).data } }

/-- Redirect the link to `old`, in its parent, where the `first` side is tried first, or in the root
variable. -/
def replaceChild (s : Store P δ) (first : Side) (parent : Option P) (old : P)
    (new : Option P) : Store P δ :=
  match parent with
  | some g =>
    if (s.heap g).child first = some old then s.setChild first g new
    else s.setChild first.flip g new
  | none => { s with root := new }

/-- Move `node` down to the given side, under its child on the other side. -/
def rotate (s : Store P δ) (side : Side) (node : P) : Option (Store P δ) := do
  let up ← (s.heap node).child side.flip
  let parent := (s.heap node).parent
  let s := s.setChild side.flip node ((s.heap up).child side)
  let s := s.setParent? ((s.heap node).child side.flip) (some node)
  let s := s.setChild side up (some node)
  let s := s.setParent up parent
  let s := s.replaceChild side parent node (some up)
  some (s.setParent node (some up))

section

variable (s : Store P δ)

include s

@[simp] theorem setChild_root (side : Side) (p : P) (v : Option P) :
    (s.setChild side p v).root = s.root := rfl
@[simp] theorem setParent_root (p : P) (v : Option P) : (s.setParent p v).root = s.root := rfl
@[simp] theorem setParent?_root (p v : Option P) :
    (s.setParent? p v).root = s.root := by cases p <;> rfl
@[simp] theorem modifyData_root (p : P) (f : δ → δ) : (s.modifyData p f).root = s.root := rfl

theorem setChild_heap (side : Side) (p : P) (v : Option P) (x : P) : (s.setChild side p v).heap x =
      if x = p then (s.heap p).setChild v side else s.heap x := by
  simp [setChild, update_apply]
theorem setParent_heap (p : P) (v : Option P) (x : P) :
    (s.setParent p v).heap x = if x = p then { s.heap p with parent := v } else s.heap x := by
  simp [setParent, update_apply]
theorem setParent?_heap (p v : Option P) (x : P) : (s.setParent? p v).heap x =
      if p = some x then { s.heap x with parent := v } else s.heap x := by
  cases p with
  | none => simp [setParent?]
  | some p =>
    simp only [setParent?, setParent_heap, Option.some.injEq, eq_comm (a := p)]
    split_ifs with h
    · rw [h]
    · rfl
theorem modifyData_heap (p : P) (f : δ → δ) (x : P) : (s.modifyData p f).heap x =
      if x = p then { s.heap p with data := f (s.heap p).data } else s.heap x := by
  simp [modifyData, update_apply]

/-- Redirecting a child link leaves every cell but the parent alone. -/
theorem replaceChild_heap_of_ne {first : Side} {old : P} {new : Option P} (h : parent ≠ some x) :
    (s.replaceChild first parent old new).heap x = s.heap x := by
  cases parent with
  | none => rfl
  | some g =>
    have hx : x ≠ g := fun e => h (e ▸ rfl)
    simp only [replaceChild]
    split_ifs <;> simp [setChild_heap, hx]

end

end Store

/-- The store holds exactly this tree: the root variable points at it, every link agrees both ways, and
no address occurs twice. -/
structure Represents (s : Store P δ) (t : Shape P δ) : Prop where
  root : s.root = t.ptr?
  holds : Holds s.heap none t
  nodup : t.ptrs.Nodup

/-- Outside the listed addresses the two stores have the same cells. -/
def SameOutside (s s' : Store P δ) (ps : List P) : Prop :=
  ∀ x, x ∉ ps → s'.heap x = s.heap x

variable {ps : List P}

section Focus

omit [DecidableEq P]

theorem SameOutside.refl (s : Store P δ) (ps : List P) : SameOutside s s ps := fun _ _ => rfl

variable {s s' s'' : Store P δ} {sibling : Shape P δ}

theorem SameOutside.trans (h : SameOutside s s' ps) (h' : SameOutside s' s'' ps) :
    SameOutside s s'' ps :=
  fun x hx => (h' x hx).trans (h x hx)

theorem SameOutside.mono {qs : List P} (h : SameOutside s s' ps) (sub : ∀ x ∈ ps, x ∈ qs) :
    SameOutside s s' qs :=
  fun x hx => h x fun hp => hx (sub x hp)

theorem Represents.append {inner outer : Context P δ}
    (h : Represents s (plug (inner ++ outer) t)) : Represents s (plug outer (plug inner t)) :=
  plug_append inner outer t ▸ h

/-- The cell of a focused node. -/
theorem Represents.cell (h : Represents s (plug ctx (sided side p d n f))) :
    s.heap p = Cell.sided side n.ptr? f.ptr? ctx.parent d :=
  (holds_sided.mp ((holds_plug _ _ _).mp h.holds).2).1

theorem Represents.cell_parent (h : Represents s (plug (⟨side, p, d, sibling⟩ :: ctx) t)) :
    s.heap p = Cell.sided side t.ptr? sibling.ptr? ctx.parent d :=
  (holds_sided.mp ((holds_plug _ ctx _).mp h.holds).2).1

/-- The focused subtree and its context share no address. -/
theorem Represents.disjoint (h : Represents s (plug ctx t)) : ∀ p ∈ ctx.ptrs, p ∉ t.ptrs :=
  (nodup_plug.mp h.nodup).2.2

theorem Represents.nodup_focus (h : Represents s (plug ctx t)) : t.ptrs.Nodup :=
  (nodup_plug.mp h.nodup).2.1

theorem Context.mem_of_rootOr {q : P} (h : Context.rootOr ctx (some q) = some x) :
    x = q ∨ x ∈ ctx.ptrs := by
  induction ctx generalizing q with
  | nil =>
    simp only [Context.rootOr, Option.some.injEq] at h
    exact .inl h.symm
  | cons frame ctx ih =>
    rcases ih h with rfl | mem
    · simp [Context.ptrs]
    · simp [Context.ptrs, mem]

/-- A focus is the root exactly when its context is empty. -/
theorem Represents.root_eq_focus (h : Represents s (plug ctx t)) : s.root = t.ptr? ↔ ctx = [] := by
  have linked := h.root
  constructor
  · intro atFocus
    cases ctx with
    | nil => rfl
    | cons frame ctx =>
      exfalso
      rw [atFocus] at linked
      cases root : t.ptr? with
      | none =>
        obtain ⟨q, top⟩ := exists_ptr?_plug (ptr?_sided frame.side frame.ptr frame.data t _) ctx
        cases root.symm.trans (linked.trans top)
      | some p =>
        rw [root, ptr?_plug, Context.rootOr] at linked
        have mem : p ∈ Context.ptrs (frame :: ctx) := by
          rcases Context.mem_of_rootOr linked.symm with rfl | mem
          · simp [Context.ptrs]
          · simp [Context.ptrs, mem]
        exact h.disjoint p mem (mem_ptrs_of_ptr? root)
  · rintro rfl
    exact linked

end Focus

/-! ### Writing payloads -/

/-- Apply `f` to the payload of the node at address `p`. -/
def Shape.modify (p : P) (f : δ → δ) : Shape P δ → Shape P δ
  | .nil => .nil
  | .node q d l r => .node q (if q = p then f d else d) (l.modify p f) (r.modify p f)

variable {f : δ → δ}

namespace Shape

theorem modify_sided (p : P) (f : δ → δ) (side : Side) (q : P) (d : δ) (n g : Shape P δ) :
    (sided side q d n g).modify p f =
      sided side q (if q = p then f d else d) (n.modify p f) (g.modify p f) := by
  cases side <;> rfl

@[simp] theorem ptr?_modify (p : P) (f : δ → δ) (t : Shape P δ) :
    (t.modify p f).ptr? = t.ptr? := by cases t <;> rfl

@[simp] theorem ptrs_modify (p : P) (f : δ → δ) (t : Shape P δ) :
    (t.modify p f).ptrs = t.ptrs := by
  induction t with
  | nil => rfl
  | node q d l r ihl ihr => simp [modify, ihl, ihr]

theorem modify_of_not_mem (h : p ∉ t.ptrs) : t.modify p f = t := by
  induction t with
  | nil => rfl
  | node q d l r ihl ihr =>
    simp only [ptrs_node, mem_append, mem_cons, not_or] at h
    rw [modify, ihl h.1, ihr h.2.2, if_neg (Ne.symm h.2.1)]

end Shape

theorem Holds.modifyData {s : Store P δ}
    (h : Holds s.heap parent t) : Holds (s.modifyData p f).heap parent (t.modify p f) := by
  induction t generalizing parent with
  | nil => trivial
  | node q d l r ihl ihr =>
    obtain ⟨hq, hl, hr⟩ := h
    refine ⟨?_, ihl hl, ihr hr⟩
    rw [Store.modifyData_heap, Shape.ptr?_modify, Shape.ptr?_modify]
    by_cases e : q = p
    · subst e
      simp [hq]
    · simp [e, hq]

/-- Rewriting one payload rewrites it in the shape. -/
theorem Represents.modifyData {s : Store P δ} (h : Represents s t) (p : P)
    (f : δ → δ) : Represents (s.modifyData p f) (t.modify p f) where
  root := by simpa using h.root
  holds := h.holds.modifyData
  nodup := by simpa using h.nodup

theorem Store.modifyData_same (s : Store P δ) (f : δ → δ) (h : p ∈ ps) :
    SameOutside s (s.modifyData p f) ps := by
  intro x hx
  rw [Store.modifyData_heap, if_neg]
  rintro rfl
  exact hx h

/-- Payload rewriting below a hole does not reach the context. -/
theorem modify_plug (nodup : (plug ctx t).ptrs.Nodup) (mem : p ∈ t.ptrs) :
    (plug ctx t).modify p f = plug ctx (t.modify p f) := by
  induction ctx generalizing t with
  | nil => rfl
  | cons frame ctx ih =>
    have disjoint := (nodup_plug.mp nodup).2.2
    have hq : frame.ptr ≠ p := by
      intro e
      exact disjoint p (by simp [Context.ptrs, e]) mem
    have hs : p ∉ frame.sibling.ptrs := fun hp => disjoint p (by simp [Context.ptrs, hp]) mem
    rw [plug, ih nodup (by simp [mem]), modify_sided, Shape.modify_of_not_mem hs, if_neg hq, plug]

theorem Represents.modifyFocus {s : Store P δ}
    {g : Shape P δ} (h : Represents s (plug ctx (sided side p d n g))) (f : δ → δ) :
    Represents (s.modifyData p f) (plug ctx (sided side p (f d) n g)) := by
  have step := h.modifyData p f
  obtain ⟨hn, hg, _⟩ := nodup_sided.mp h.nodup_focus
  rwa [modify_plug h.nodup (by simp), modify_sided, if_pos rfl, Shape.modify_of_not_mem hn,
    Shape.modify_of_not_mem hg] at step

end Heaps

open Context Store

variable [DecidableEq P]

/-! ### Pointers to links

A walk down the tree often keeps the address of the link it came through. -/

/-- The address of a link: the root variable or a child field. -/
abbrev Slot (P : Type) := Option (P × Side)

/-- Read a link through its address. -/
def Store.readSlot (s : Store P δ) : Slot P → Option P
  | none => s.root
  | some (p, side) => (s.heap p).child side

/-- Write a link through its address. -/
def Store.writeSlot (s : Store P δ) (slot : Slot P) (v : Option P) : Store P δ :=
  match slot with
  | none => { s with root := v }
  | some (p, side) => s.setChild side p v

/-- The link a context's hole hangs on. -/
def Context.slot : Context P δ → Slot P
  | [] => none
  | frame :: _ => some (frame.ptr, frame.side)

omit [DecidableEq P] in
@[simp] theorem Context.slot_cons (frame : Frame P δ) (ctx : Context P δ) :
    slot (frame :: ctx) = some (frame.ptr, frame.side) := rfl

variable {s : Store P δ}

omit [DecidableEq P] in
theorem Represents.readSlot (h : Represents s (plug ctx t)) : s.readSlot (slot ctx) = t.ptr? := by
  cases ctx with
  | nil => exact h.root
  | cons frame ctx => rw [slot, readSlot, h.cell_parent, Cell.child_sided]

variable {new : Option P}

theorem HoldsContext.writeSlot {old : Option P} (h : HoldsContext s.heap ctx old)
    (nodup : (ptrs ctx).Nodup) : HoldsContext (s.writeSlot (slot ctx) new).heap ctx new := by
  cases ctx with
  | nil => trivial
  | cons frame ctx =>
    obtain ⟨hp, hs, hctx⟩ := h
    simp only [Context.ptrs, List.nodup_cons, List.mem_append, not_or] at nodup
    have away : ∀ x, x ≠ frame.ptr →
        (s.setChild frame.side frame.ptr new).heap x = s.heap x := by
      intro x hx
      rw [setChild_heap, if_neg hx]
    refine ⟨?_, hs.congr fun x hx => away x ?_, hctx.congr fun x hx => away x ?_⟩
    · simp [slot, writeSlot, setChild_heap, hp]
    · rintro rfl
      exact nodup.1.1 hx
    · rintro rfl
      exact nodup.1.2 hx

theorem Store.writeSlot_root {old : Option P} (h : s.root = rootOr ctx old) :
    (s.writeSlot (slot ctx) new).root = rootOr ctx new := by
  cases ctx with
  | nil => rfl
  | cons frame ctx => exact h

theorem Store.writeSlot_heap_of_ne {x : P} (h : x ∉ ptrs ctx) :
    (s.writeSlot (slot ctx) new).heap x = s.heap x := by
  cases ctx with
  | nil => rfl
  | cons frame ctx =>
    have hx : x ≠ frame.ptr := fun e => h (by simp [Context.ptrs, e])
    simp [slot, writeSlot, setChild_heap, hx]

/-- Redirecting the link to a node is a write through the address of that link. -/
theorem Store.replaceChild_eq_writeSlot {first : Side} {old : P}
    (h : HoldsContext s.heap ctx (some old)) (fresh : old ∉ ptrs ctx) :
    s.replaceChild first (parent ctx) old new = s.writeSlot (slot ctx) new := by
  cases ctx with
  | nil => rfl
  | cons frame ctx =>
    obtain ⟨side, p, d, sibling⟩ := frame
    have far : sibling.ptr? ≠ some old := by
      intro same
      exact fresh (by simp [Context.ptrs, mem_ptrs_of_ptr? same])
    simp only [parent_cons, slot_cons, replaceChild, writeSlot, h.1]
    cases first <;> cases side <;> simp [Cell.sided, Cell.child, far, Side.flip]

/-- A rotation lifts the child on the far side above the focused node; payloads and the symmetric
order stay. -/
theorem Represents.rotate {side : Side} {q : P} {dp dq : δ} {a b c : Shape P δ}
    (h : Represents s (plug ctx (sided side p dp a (sided side q dq b c)))) :
    ∃ s', s.rotate side p = some s' ∧
      Represents s' (plug ctx (sided side q dq (sided side p dp a b) c)) ∧
      SameOutside s s' (plug ctx (sided side p dp a (sided side q dq b c))).ptrs := by
  obtain ⟨hctx, hfocus⟩ := (holds_plug _ _ _).mp h.holds
  obtain ⟨nctx, nfocus, disjoint⟩ := nodup_plug.mp h.nodup
  obtain ⟨hp, ha, hinner⟩ := holds_sided.mp hfocus
  obtain ⟨hq, hb, hc⟩ := holds_sided.mp hinner
  obtain ⟨pa, pfar, na, nfar, afar⟩ := nodup_sided.mp nfocus
  obtain ⟨qb, qc, nb, nc, bc⟩ := nodup_sided.mp nfar
  simp only [mem_ptrs_sided, not_or, ptr?_sided] at *
  obtain ⟨pq, pb, pc⟩ := pfar
  have qa : q ∉ a.ptrs := fun e => (afar q e).1 rfl
  have pctx : p ∉ ptrs ctx := fun e => (disjoint p e).1 rfl
  have qctx : q ∉ ptrs ctx := fun e => (disjoint q e).2.2.1 rfl
  -- the three stages: below the parent, at the parent, and the final parent link
  let s₁ := (((s.setChild side.flip p b.ptr?).setParent? b.ptr? (some p)).setChild side q
    (some p)).setParent q (parent ctx)
  let s₂ := s₁.replaceChild side (parent ctx) p (some q)
  let s₃ := s₂.setParent p (some q)
  have bp : b.ptr? ≠ some p := fun e => pb (mem_ptrs_of_ptr? e)
  have bq : b.ptr? ≠ some q := fun e => qb (mem_ptrs_of_ptr? e)
  have run : s.rotate side p = some s₃ := by simp [Store.rotate, hp, hq, setChild_heap, s₃, s₂, s₁]
  have heap₁ : ∀ x, x ≠ p → x ≠ q → b.ptr? ≠ some x → s₁.heap x = s.heap x := by
    intro x xp xq xb
    simp [s₁, setParent_heap, setChild_heap, setParent?_heap, xp, xq, xb]
  have heap₃ : ∀ x, x ≠ p → parent ctx ≠ some x → s₃.heap x = s₁.heap x := by
    intro x xp xctx
    simp only [s₃, s₂, setParent_heap, if_neg xp]
    exact s₁.replaceChild_heap_of_ne xctx
  have notParent : ∀ x, x ∉ ptrs ctx → parent ctx ≠ some x :=
    fun x hx e => hx (parent_mem_ptrs e)
  have keep : ∀ x, x ≠ p → x ≠ q → b.ptr? ≠ some x → x ∉ ptrs ctx →
      s₃.heap x = s.heap x := fun x xp xq xb xctx =>
    (heap₃ x xp (notParent x xctx)).trans (heap₁ x xp xq xb)
  have cellp : s₃.heap p = .sided side a.ptr? b.ptr? (some q) dp := by
    simp only [s₃, s₂, setParent_heap, if_true]
    rw [s₁.replaceChild_heap_of_ne (notParent p pctx)]
    simp [s₁, setParent_heap, setChild_heap, setParent?_heap, pq, hp, bp]
    cases side <;> rfl
  have cellq : s₃.heap q = .sided side (some p) c.ptr? (parent ctx) dq := by
    rw [heap₃ q (Ne.symm pq) (notParent q qctx)]
    simp [s₁, setParent_heap, setChild_heap, setParent?_heap, Ne.symm pq, hq, bq]
    cases side <;> rfl
  have bctx : ∀ x ∈ b.ptrs, x ∉ ptrs ctx := fun x hx e => (disjoint x e).2.2.2.1 hx
  have cctx : ∀ x ∈ c.ptrs, x ∉ ptrs ctx := fun x hx e => (disjoint x e).2.2.2.2 hx
  have before : HoldsContext s₁.heap ctx (some p) := hctx.congr fun x hx =>
    heap₁ x (fun e => pctx (e ▸ hx)) (fun e => qctx (e ▸ hx))
      (fun e => bctx x (mem_ptrs_of_ptr? e) hx)
  have redirect : s₂ = s₁.writeSlot (slot ctx) (some q) :=
    replaceChild_eq_writeSlot before pctx
  refine ⟨s₃, run, ⟨?_, ?_, ?_⟩, ?_⟩
  · have linked : s₁.root = rootOr ctx (some p) := by
      simpa [s₁, ptr?_plug] using h.root
    rw [ptr?_plug, ptr?_sided, setParent_root, redirect]
    exact writeSlot_root linked
  · refine (holds_plug _ _ _).mpr ⟨?_, holds_sided.mpr ⟨?_, holds_sided.mpr ⟨?_, ?_, ?_⟩, ?_⟩⟩
    · rw [ptr?_sided]
      have redirected : HoldsContext s₂.heap ctx (some q) := by
        rw [redirect]
        exact before.writeSlot nctx
      refine redirected.congr fun x hx => ?_
      simp only [s₃, setParent_heap]
      rw [if_neg]
      rintro rfl
      exact pctx hx
    · simpa using cellq
    · simpa using cellp
    · grind [mem_ptrs_of_ptr?, Holds.congr, HoldsContext.congr]
    · refine hb.reparent nb (fun x hx => ?_) fun x hx xb => keep x ?_ ?_ xb (bctx x hx)
      · have mem := mem_ptrs_of_ptr? hx
        have xp : x ≠ p := by rintro rfl; exact pb mem
        have xq : x ≠ q := by rintro rfl; exact qb mem
        rw [heap₃ x xp (notParent x (bctx x mem))]
        simp [s₁, setParent_heap, setChild_heap, setParent?_heap, xp, xq, hx]
      · rintro rfl; exact pb hx
      · rintro rfl; exact qb hx
    · refine hc.congr fun x hx => keep x ?_ ?_ ?_ (cctx x hx)
      · rintro rfl; exact pc hx
      · rintro rfl; exact qc hx
      · exact fun e => bc x (mem_ptrs_of_ptr? e) hx
  · refine nodup_plug.mpr ⟨nctx, ?_, fun x hx => ?_⟩
    · refine nodup_sided.mpr ⟨?_, qc, nodup_sided.mpr ⟨pa, pb, na, nb, fun x hx => (afar x hx).2.1⟩,
        nc, fun x hx => ?_⟩
      · simp [Ne.symm pq, qa, qb]
      · rcases mem_ptrs_sided.mp hx with rfl | hx | hx
        · exact pc
        · exact (afar x hx).2.2
        · exact bc x hx
    · have := disjoint x hx
      simp only [mem_ptrs_sided, not_or]
      tauto
  · intro x hx
    simp only [mem_ptrs_plug, mem_ptrs_sided, not_or] at hx
    obtain ⟨xctx, xp, xa, xq, xb, xc⟩ := hx
    exact keep x xp xq (fun e => xb (mem_ptrs_of_ptr? e)) xctx

theorem Represents.linkLeaf (d : δ) (h : Represents s (plug ctx .nil))
    (fresh : p ∉ ptrs ctx) :
    Represents (writeSlot
        { s with heap := update s.heap p ⟨none, none, parent ctx, d⟩ }
        (slot ctx) (some p)) (plug ctx (.node p d .nil .nil)) ∧
      SameOutside s (writeSlot
        { s with heap := update s.heap p ⟨none, none, parent ctx, d⟩ }
        (slot ctx) (some p)) (p :: ptrs ctx) := by
  obtain ⟨hctx, _⟩ := (holds_plug _ _ _).mp h.holds
  obtain ⟨nctx, _, _⟩ := nodup_plug.mp h.nodup
  let s₁ : Store P δ :=
    { s with heap := update s.heap p ⟨none, none, parent ctx, d⟩ }
  have away : ∀ x, x ≠ p → s₁.heap x = s.heap x := fun x hx => update_of_ne hx _ _
  have hctx₁ : HoldsContext s₁.heap ctx none := hctx.congr fun x hx => away x (by
    rintro rfl
    exact fresh hx)
  refine ⟨⟨?_, ?_, ?_⟩, ?_⟩
  · have linked : s₁.root = rootOr ctx none := by simpa [s₁, ptr?_plug] using h.root
    rw [ptr?_plug]
    exact writeSlot_root linked
  · refine (holds_plug _ _ _).mpr ⟨hctx₁.writeSlot nctx, ?_, trivial, trivial⟩
    rw [writeSlot_heap_of_ne fresh]
    simp
  · refine nodup_plug.mpr ⟨nctx, by simp, fun x hx => ?_⟩
    simp only [ptrs_node, ptrs_nil, List.nil_append, List.mem_singleton]
    rintro rfl
    exact fresh hx
  · intro x hx
    simp only [List.mem_cons, not_or] at hx
    rw [writeSlot_heap_of_ne hx.2]
    exact away x hx.1

/-- Four field assignments to one cell write the cell. -/
theorem Store.assign_cell (s : Store P δ) (p : P) (f : δ → δ) (l r u : Option P) :
    (((s.modifyData p f).setChild .right p r).setChild .left p l).setParent p u =
      { s with heap := update s.heap p ⟨l, r, u, f (s.heap p).data⟩ } := by
  simp [modifyData, setChild, setParent, Cell.setChild]

/-- The context of a focused node survives a new parent link at the root of one of its
subtrees. -/
theorem HoldsContext.setParent? {hole v : Option P} (h : HoldsContext s.heap ctx hole)
    (apart : ∀ x ∈ ptrs ctx, x ∉ t.ptrs) : HoldsContext (s.setParent? t.ptr? v).heap ctx hole := by
  refine h.congr fun x hx => ?_
  rw [setParent?_heap, if_neg]
  intro same
  exact apart x hx (mem_ptrs_of_ptr? same)

/-- Removing a node with at most one child: the child moves up. -/
theorem Represents.splice {side : Side} {d : δ}
    (h : Represents s (plug ctx (sided side p d .nil t))) :
    let s₁ := s.setParent? t.ptr? (parent ctx)
    let s₂ := s₁.writeSlot (slot ctx) t.ptr?
    HoldsContext s₁.heap ctx (some p) ∧ Represents s₂ (plug ctx t) ∧
      SameOutside s s₂ (plug ctx (sided side p d .nil t)).ptrs ∧ s₂.heap p = s.heap p := by
  intro s₁ s₂
  obtain ⟨hctx, hfocus⟩ := (holds_plug _ _ _).mp h.holds
  obtain ⟨nctx, nfocus, disjoint⟩ := nodup_plug.mp h.nodup
  obtain ⟨_, _, ht⟩ := holds_sided.mp hfocus
  obtain ⟨_, pt, _, nt, _⟩ := nodup_sided.mp nfocus
  simp only [mem_ptrs_sided, not_or, ptr?_sided] at *
  have pctx : p ∉ ptrs ctx := fun e => (disjoint p e).1 rfl
  have tctx : ∀ x ∈ ptrs ctx, x ∉ t.ptrs := fun x hx => (disjoint x hx).2.2
  have before : HoldsContext s₁.heap ctx (some p) := hctx.setParent? tctx
  have away : ∀ x, x ∉ ptrs ctx → t.ptr? ≠ some x → s₂.heap x = s.heap x := by
    intro x xctx xt
    rw [writeSlot_heap_of_ne xctx, setParent?_heap, if_neg xt]
  refine ⟨before, ⟨?_, ?_, ?_⟩, ?_, ?_⟩
  · have linked : s₁.root = rootOr ctx (some p) := by simpa [s₁, ptr?_plug] using h.root
    rw [ptr?_plug]
    exact writeSlot_root linked
  · refine (holds_plug _ _ _).mpr ⟨before.writeSlot nctx, ht.reparent nt (fun x hx => ?_) ?_⟩
    · have xctx : x ∉ ptrs ctx := fun e => tctx x e (mem_ptrs_of_ptr? hx)
      rw [writeSlot_heap_of_ne xctx, setParent?_heap, if_pos hx]
    · exact fun x hx => away x fun e => tctx x e hx
  · exact nodup_plug.mpr ⟨nctx, nt, tctx⟩
  · intro x hx
    simp only [mem_ptrs_plug, mem_ptrs_sided, not_or] at hx
    exact away x hx.1 fun e => hx.2.2.2 (mem_ptrs_of_ptr? e)
  · exact away p pctx fun e => pt (mem_ptrs_of_ptr? e)

/-- Putting a fresh node in the place of another one. -/
theorem Represents.substitute {old new : P} {d : δ} {l r : Shape P δ} (d' : δ)
    (h : Represents s (plug ctx (.node old d l r)))
    (fresh : new ∉ (plug ctx (.node old d l r)).ptrs) : let s₁ : Store P δ :=
      { s with heap := update s.heap new ⟨l.ptr?, r.ptr?, parent ctx, d'⟩ }
    let s₂ := s₁.writeSlot (slot ctx) (some new)
    let s₃ := (s₂.setParent? l.ptr? (some new)).setParent? r.ptr? (some new)
    HoldsContext s₁.heap ctx (some old) ∧ Represents s₃ (plug ctx (.node new d' l r)) ∧
      SameOutside s s₃ (new :: (plug ctx (.node old d l r)).ptrs) ∧ s₂.heap old = s.heap old ∧
      s₃.heap old = s.heap old := by
  intro s₁ s₂ s₃
  obtain ⟨hctx, hfocus⟩ := (holds_plug _ _ _).mp h.holds
  obtain ⟨nctx, nfocus, disjoint⟩ := nodup_plug.mp h.nodup
  obtain ⟨_, hl, hr⟩ := hfocus
  obtain ⟨oldl, oldr, nl, nr, lr⟩ := nodup_node.mp nfocus
  simp only [mem_ptrs_plug, mem_ptrs_node, not_or] at disjoint fresh
  have apart : ∀ x ∈ ptrs ctx, x ≠ old ∧ x ∉ l.ptrs ∧ x ∉ r.ptrs := disjoint
  obtain ⟨newctx, newold, newl, newr⟩ := fresh
  have oldctx : old ∉ ptrs ctx := fun e => (apart old e).1 rfl
  have before : HoldsContext s₁.heap ctx (some old) := by
    refine hctx.congr fun x hx => update_of_ne ?_ _ _
    rintro rfl
    exact newctx hx
  have heap₂ : ∀ x, x ∉ ptrs ctx → x ≠ new → s₂.heap x = s.heap x := by
    intro x xctx xnew
    rw [writeSlot_heap_of_ne xctx]
    exact update_of_ne xnew _ _
  have heap₃ : ∀ x, l.ptr? ≠ some x → r.ptr? ≠ some x → s₃.heap x = s₂.heap x := by
    intro x xl xr
    rw [setParent?_heap, if_neg xr, setParent?_heap, if_neg xl]
  have notRoot : ∀ {t : Shape P δ} {x : P}, x ∉ t.ptrs → t.ptr? ≠ some x :=
    fun hx e => hx (mem_ptrs_of_ptr? e)
  refine ⟨before, ⟨?_, ?_, ?_⟩, ?_, ?_, ?_⟩
  · have linked : s₁.root = rootOr ctx (some old) := by simpa [s₁, ptr?_plug] using h.root
    rw [ptr?_plug, ptr?_node, setParent?_root, setParent?_root]
    exact writeSlot_root linked
  · refine (holds_plug _ _ _).mpr ⟨?_, ?_, ?_, ?_⟩
    · have redirected : HoldsContext s₂.heap ctx (some new) := before.writeSlot nctx
      exact (redirected.setParent? fun x hx => (apart x hx).2.1).setParent?
        fun x hx => (apart x hx).2.2
    · rw [heap₃ new (notRoot newl) (notRoot newr), writeSlot_heap_of_ne newctx]
      exact update_self _ _ _
    · refine hl.reparent nl (fun x hx => ?_) fun x hx xl => ?_
      · have mem := mem_ptrs_of_ptr? hx
        rw [setParent?_heap, if_neg (notRoot (lr x mem)), setParent?_heap, if_pos hx,
          heap₂ x (fun e => (apart x e).2.1 mem) fun e => newl (e ▸ mem)]
      · grind
    · refine hr.reparent nr (fun x hx => ?_) fun x hx xr => ?_
      · have mem := mem_ptrs_of_ptr? hx
        have xl : l.ptr? ≠ some x := notRoot fun inl => lr x inl mem
        rw [setParent?_heap, if_pos hx, setParent?_heap, if_neg xl,
          heap₂ x (fun e => (apart x e).2.2 mem) fun e => newr (e ▸ mem)]
      · grind
  · refine nodup_plug.mpr ⟨nctx, nodup_node.mpr ⟨newl, newr, nl, nr, lr⟩, fun x hx => ?_⟩
    rw [mem_ptrs_node]
    rintro (rfl | inl | inr)
    · exact newctx hx
    · exact (apart x hx).2.1 inl
    · exact (apart x hx).2.2 inr
  · intro x hx
    simp only [List.mem_cons, not_or, mem_ptrs_plug, mem_ptrs_node] at hx
    obtain ⟨xnew, xctx, _, xl, xr⟩ := hx
    rw [heap₃ x (notRoot xl) (notRoot xr), heap₂ x xctx xnew]
  · exact heap₂ old oldctx (Ne.symm newold)
  · rw [heap₃ old (notRoot oldl) (notRoot oldr)]
    exact heap₂ old oldctx (Ne.symm newold)

end PointerHeap
