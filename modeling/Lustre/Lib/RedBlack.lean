/-
Module: Lustre.Lib.RedBlack
Purpose: Red-black balance of the shapes of `PointerHeap`, and of the contexts around them.
Trusted boundary: none
Main exports: Color, Balanced, Accepts, Balanced.plug, Balanced.unplug, Balanced.bounds
-/
import Lustre.Lib.PointerHeap
import Mathlib.Data.List.Forall2

namespace RedBlack

open PointerHeap PointerHeap.Shape

/-- Node colours. -/
inductive Color where
  | red
  | black
deriving DecidableEq, Repr

variable {P δ : Type} (color : δ → Color)

/-- A red-black tree with the given root colour and black height.  The empty tree
counts as black. -/
inductive Balanced : Shape P δ → Color → Nat → Prop where
  | nil : Balanced .nil .black 0
  | red {p : P} {d : δ} {l r : Shape P δ} {n : Nat} : color d = .red →
      Balanced l .black n → Balanced r .black n → Balanced (.node p d l r) .red n
  | black {p : P} {d : δ} {l r : Shape P δ} {cl cr : Color} {n : Nat} : color d = .black →
      Balanced l cl n → Balanced r cr n → Balanced (.node p d l r) .black (n + 1)

/-- A context that becomes a red-black tree with a black root around a tree of the given root colour and
black height. -/
inductive Accepts : Context P δ → Color → Nat → Prop where
  | root {n : Nat} : Accepts [] .black n
  | red {frame : Frame P δ} {ctx : Context P δ} {n : Nat} : color frame.data = .red →
      Balanced color frame.sibling .black n → Accepts ctx .red n → Accepts (frame :: ctx) .black n
  | black {frame : Frame P δ} {ctx : Context P δ} {c c' : Color} {n : Nat} :
      color frame.data = .black → Balanced color frame.sibling c' n → Accepts ctx .black (n + 1) →
      Accepts (frame :: ctx) c n

/-- The black height of a node of colour `c` over subtrees of height `k`. -/
def heightOver (c : Color) (k : Nat) : Nat :=
  match c with
  | .red => k
  | .black => k + 1

variable {color}

variable {k : Nat} {side : Side} {p : P} {d : δ} {n f : Shape P δ}

theorem Balanced.redSided (isRed : color d = .red) (hn : Balanced color n .black k)
    (hf : Balanced color f .black k) : Balanced color (sided side p d n f) .red k := by
  cases side with
  | left => exact .red isRed hn hf
  | right => exact .red isRed hf hn

theorem Balanced.blackSided {cn cf : Color} (isBlack : color d = .black)
    (hn : Balanced color n cn k) (hf : Balanced color f cf k) :
    Balanced color (sided side p d n f) .black (k + 1) := by
  cases side with
  | left => exact .black isBlack hn hf
  | right => exact .black isBlack hf hn

variable {t : Shape P δ}

/-- A balanced tree with a red root has black subtrees of the same height. -/
theorem Balanced.red_inv (h : Balanced color t .red k) (side : Side) :
    ∃ p d n f, t = sided side p d n f ∧ color d = .red ∧ Balanced color n .black k ∧
      Balanced color f .black k := by
  cases h with
  | @red p d l r _ isRed hl hr =>
    cases side with
    | left => exact ⟨p, d, l, r, rfl, isRed, hl, hr⟩
    | right => exact ⟨p, d, r, l, rfl, isRed, hr, hl⟩

/-- A balanced black tree of positive height is a node over trees one lower. -/
theorem Balanced.black_inv (h : Balanced color t .black (k + 1)) (side : Side) :
    ∃ p d n f cn cf, t = sided side p d n f ∧ color d = .black ∧ Balanced color n cn k ∧
      Balanced color f cf k := by
  cases h with
  | @black p d l r cl cr _ isBlack hl hr =>
    cases side with
    | left => exact ⟨p, d, l, r, cl, cr, rfl, isBlack, hl, hr⟩
    | right => exact ⟨p, d, r, l, cr, cl, rfl, isBlack, hr, hl⟩

variable {c : Color}

/-! ### Trees and contexts -/

variable {ctx : Context P δ}

/-- A hole that accepts a red tree accepts a black one of the same height. -/
theorem Accepts.of_red (h : Accepts color ctx .red k) : Accepts color ctx .black k := by
  cases h with
  | black isBlack hs hctx => exact .black isBlack hs hctx

/-- Filling a hole with what it accepts gives a red-black tree with a black root. -/
theorem Balanced.plug (ht : Balanced color t c k) (hctx : Accepts color ctx c k) :
    ∃ n, Balanced color (PointerHeap.plug ctx t) .black n := by
  induction hctx generalizing t with
  | root => exact ⟨_, ht⟩
  | red isRed hs _ ih => exact ih (.redSided isRed ht hs)
  | black isBlack hs _ ih => exact ih (.blackSided isBlack ht hs)

/-- A subtree of a red-black tree is balanced, and its context accepts it. -/
theorem Balanced.unplug (h : Balanced color (PointerHeap.plug ctx t) .black k) :
    ∃ c n, Balanced color t c n ∧ Accepts color ctx c n := by
  induction ctx generalizing t with
  | nil => exact ⟨_, _, h, .root⟩
  | cons frame ctx ih =>
    obtain ⟨c, n, ht, hctx⟩ := ih h
    obtain ⟨side, p, d, sibling⟩ := frame
    cases c with
    | red =>
      obtain ⟨_, _, _, _, same, isRed, hn, hf⟩ := ht.red_inv side
      cases side <;> cases same <;> exact ⟨_, _, hn, .red isRed hf hctx⟩
    | black =>
      cases n with
      | zero =>
        cases side <;> cases ht
      | succ n =>
        obtain ⟨_, _, _, _, _, _, same, isBlack, hn, hf⟩ := ht.black_inv side
        cases side <;> cases same <;> exact ⟨_, _, hn, .black isBlack hf hctx⟩

/-- What a context that accepts a black tree says about its innermost frame. -/
theorem Accepts.frame {frame : Frame P δ} (h : Accepts color (frame :: ctx) .black k) :
    ∃ c, Balanced color frame.sibling c k ∧ (c = .red → color frame.data = .black) ∧
      Accepts color ctx (color frame.data) (heightOver (color frame.data) k) := by
  cases h with
  | red isRed hs hctx =>
    refine ⟨.black, hs, by simp, ?_⟩
    rwa [isRed]
  | @black _ _ _ c _ isBlack hs hctx =>
    refine ⟨c, hs, fun _ => isBlack, ?_⟩
    rwa [isBlack]

/-- A node over two black trees of height `k`. -/
theorem Balanced.over (hn : Balanced color n .black k) (hf : Balanced color f .black k) :
    Balanced color (sided side p d n f) (color d) (heightOver (color d) k) := by
  cases isColor : color d with
  | red => exact .redSided isColor hn hf
  | black => exact .blackSided isColor hn hf

/-- Two contexts with the same colours and the same siblings. -/
def SameColors (color : δ → Color) (ctx ctx' : Context P δ) : Prop :=
  List.Forall₂ (fun a b => color b.data = color a.data ∧ b.sibling = a.sibling) ctx ctx'

/-- Balance of a context reads only its colours and its siblings. -/
theorem Accepts.congr {ctx' : Context P δ} (h : Accepts color ctx c k)
    (same : SameColors color ctx ctx') : Accepts color ctx' c k := by
  induction same generalizing c k with
  | nil =>
    cases h with
    | root => exact .root
  | cons frame _ ih =>
    obtain ⟨sameColor, sameSibling⟩ := frame
    cases h with
    | red isRed hs hctx => exact .red (sameColor.trans isRed) (sameSibling ▸ hs) (ih hctx)
    | black isBlack hs hctx => exact .black (sameColor.trans isBlack) (sameSibling ▸ hs) (ih hctx)

theorem SameColors.append {inner inner' outer outer' : Context P δ}
    (h : SameColors color inner inner') (h' : SameColors color outer outer') :
    SameColors color (inner ++ outer) (inner' ++ outer') := by
  induction h with
  | nil => exact h'
  | cons frame _ ih => exact .cons frame ih

/-- The number of nodes on the longest way down. -/
def height : Shape P δ → Nat
  | .nil => 0
  | .node _ _ l r => max (height l) (height r) + 1

/-- The black height bounds the size from below and, as no red node has a red child, the height
from above. -/
theorem Balanced.bounds (h : Balanced color t c k) :
    2 ^ k ≤ t.ptrs.length + 1 ∧ height t ≤ 2 * k + if c = .red then 1 else 0 := by
  induction h with
  | nil => simp [height]
  | red _ _ _ ihl ihr =>
    simp only [reduceCtorEq, if_false] at ihl ihr
    simp only [height, ptrs_node, List.length_append, List.length_cons, if_true]
    omega
  | black _ _ _ ihl ihr =>
    simp only [height, ptrs_node, List.length_append, List.length_cons, pow_succ]
    grind

end RedBlack
