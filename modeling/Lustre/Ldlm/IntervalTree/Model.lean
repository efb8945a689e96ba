/-
Module: Lustre.Ldlm.IntervalTree.Model
Purpose: The augmented red-black tree of `ldlm/interval_tree.c`, in a heap of cells.  `none` stands
  for a failed `LASSERT`, a null dereference or missing fuel; mirrored branches are written once.
Trusted boundary: none
-/
import Lustre.Lib.RedBlack

namespace Ldlm

open PointerHeap RedBlack

/-- `struct interval_node_extent`; `stop` is its field `end`. -/
structure Extent where
  start : Nat
  stop : Nat
deriving DecidableEq, Repr

/-- The fields of `struct interval_node` other than its three links. -/
structure NodeData where
  color : Color
  intree : Bool
  maxHigh : Nat
  extent : Extent
deriving DecidableEq, Repr

/-- A heap of interval nodes and one root variable. -/
abbrev Tree (P : Type) := Store P NodeData

/-- The value of an unsigned 64-bit `~0`, which is also `OBD_OBJECT_EOF`. -/
def maxU64 : Nat := 2 ^ 64 - 1

/-- `extent_compare`. -/
def extentCompare (e₁ e₂ : Extent) : Ordering :=
  if e₁.start = e₂.start then
    if e₁.stop < e₂.stop then .lt
    else if e₁.stop > e₂.stop then .gt
    else .eq
  else if e₁.start < e₂.start then .lt
  else .gt

/-- `extent_equal`. -/
def extentEqual (e₁ e₂ : Extent) : Bool :=
  e₁.start = e₂.start && e₁.stop = e₂.stop

/-- `extent_overlapped`. -/
def extentOverlapped (e₁ e₂ : Extent) : Bool :=
  e₁.start ≤ e₂.stop && e₂.start ≤ e₁.stop

variable {P : Type} [DecidableEq P]

namespace Tree

/-- The payload of a node. -/
def node (s : Tree P) (p : P) : NodeData := (s.heap p).data

/-- `interval_low`. -/
def intervalLow (s : Tree P) (p : P) : Nat := (s.node p).extent.start

/-- `interval_high`. -/
def intervalHigh (s : Tree P) (p : P) : Nat := (s.node p).extent.stop

/-- `node_is_red`. -/
def nodeIsRed (s : Tree P) (p : P) : Bool := (s.node p).color = .red

/-- `node_is_black_or_0`. -/
def nodeIsBlackOr0 (s : Tree P) : Option P → Bool
  | none => true
  | some p => (s.node p).color = .black

/-- `link ? link->in_max_high : 0`. -/
def maxHighOr0 (s : Tree P) : Option P → Nat
  | none => 0
  | some p => (s.node p).maxHigh

/-- Assignment to `in_color`. -/
def setColor (s : Tree P) (p : P) (c : Color) : Tree P :=
  s.modifyData p fun d => { d with color := c }

/-- Assignment to `in_color` of the node behind a nullable link. -/
def setColor? (s : Tree P) (p : Option P) (c : Color) : Tree P :=
  match p with
  | some p => s.setColor p c
  | none => s

/-- Assignment to `in_max_high`. -/
def setMaxHigh (s : Tree P) (p : P) (m : Nat) : Tree P :=
  s.modifyData p fun d => { d with maxHigh := m }

/-- Assignment to `in_intree`. -/
def setIntree (s : Tree P) (p : P) (b : Bool) : Tree P :=
  s.modifyData p fun d => { d with intree := b }

/-- The maximum for `in_max_high` of a node, from its own end and the fields of its children. -/
def childrenMax (s : Tree P) (p : P) : Nat :=
  max (s.intervalHigh p) (max (s.maxHighOr0 (s.heap p).left) (s.maxHighOr0 (s.heap p).right))

/-- `interval_set`. -/
def intervalSet (s : Tree P) (p : P) (start stop : Nat) : Option (Tree P) :=
  if start ≤ stop then
    some (s.modifyData p fun d => { d with extent := ⟨start, stop⟩, maxHigh := stop })
  else none

/-- `__rotate_change_maxhigh`. -/
def rotateChangeMaxhigh (s : Tree P) (p rotate : P) : Tree P :=
  let s := s.setMaxHigh rotate (s.node p).maxHigh
  s.setMaxHigh p (s.childrenMax p)

/-- Both rotations: `p` moves down to `side`. -/
def rotateToward (side : Side) (s : Tree P) (p : P) : Option (Tree P) := do
  let up ← (s.heap p).child side.flip
  let s : Tree P ← s.rotate side p
  some (s.rotateChangeMaxhigh p up)

/-- `__rotate_left`. -/
def rotateLeft (s : Tree P) (p : P) : Option (Tree P) := s.rotateToward .left p

/-- `__rotate_right`. -/
def rotateRight (s : Tree P) (p : P) : Option (Tree P) := s.rotateToward .right p

/-- The side of `parent` where the code looks for `child`: the left if its link matches, else the right. -/
def sideOf (s : Tree P) (parent : P) (child : Option P) : Side :=
  if (s.heap parent).left = child then .left else .right

/-- The last assignment of `interval_insert_color`. -/
def blackenRoot (s : Tree P) : Option (Tree P) := do
  let root ← s.root
  some (s.setColor root .black)

/-- The inner rotation of `interval_insert_color` with its `interval_swap`. -/
def insertColorInner (side : Side) (s : Tree P) (node parent : P) : Option (Tree P × P × P) :=
  if (s.heap parent).child side.flip = some node then do
    let s ← s.rotateToward side parent
    some (s, parent, node)
  else some (s, node, parent)

/-- `interval_insert_color`. -/
def intervalInsertColor : Nat → Tree P → P → Option (Tree P)
  | 0, _, _ => none
  | fuel + 1, s, node =>
    match (s.heap node).parent with
    | none => s.blackenRoot
    | some parent =>
      if s.nodeIsRed parent then do
        let gparent ← (s.heap parent).parent
        let side := s.sideOf gparent (some parent)
        let uncle := (s.heap gparent).child side.flip
        if s.nodeIsBlackOr0 uncle then do
          let (s, node, parent) ← insertColorInner side s node parent
          let s := s.setColor parent .black
          let s := s.setColor gparent .red
          let s ← s.rotateToward side.flip gparent
          intervalInsertColor fuel s node
        else
          let s := s.setColor? uncle .black
          let s := s.setColor parent .black
          let s := s.setColor gparent .red
          intervalInsertColor fuel s gparent
      else s.blackenRoot

/-- The descent of `interval_insert`: the store, the equal node if met, and the link where it ended. -/
def insertDescend : Nat → Tree P → P → Slot P → Option (Tree P × Option P × Slot P)
  | 0, _, _, _ => none
  | fuel + 1, s, node, slot =>
    match s.readSlot slot with
    | none => some (s, none, slot)
    | some parent =>
      if extentEqual (s.node parent).extent (s.node node).extent then
        some (s, some parent, slot)
      else
        let s := if (s.node parent).maxHigh < s.intervalHigh node then
            s.setMaxHigh parent (s.intervalHigh node)
          else s
        let side := if extentCompare (s.node node).extent (s.node parent).extent = .lt then
            Side.left else Side.right
        insertDescend fuel s node (some (parent, side))

/-- Initialisation of the new node in `interval_insert`. -/
def initLeaf (s : Tree P) (node : P) (parent : Option P) : Tree P :=
  let cell := { left := none, right := none, parent := parent,
                data := { s.node node with color := .red } }
  { s with heap := Function.update s.heap node cell }

/-- `interval_insert`: the store and the returned node. -/
def intervalInsert (fuel : Nat) (s : Tree P) (node : P) : Option (Tree P × Option P) :=
  if (s.node node).intree then none
  else do
    let (s, found, slot) ← s.insertDescend fuel node none
    match found with
    | some p => some (s, some p)
    | none =>
      let s := s.initLeaf node (slot.map Prod.fst)
      let s : Tree P := s.writeSlot slot (some node)
      let s ← s.intervalInsertColor fuel node
      some (s.setIntree node true, none)

/-! ### Deletion -/

/-- The case of a red sibling in `interval_erase_color`: the store and the new `tmp`. -/
def eraseColorRed (side : Side) (s : Tree P) (parent tmp : P) : Option (Tree P × P) :=
  if s.nodeIsRed tmp then do
    let s := s.setColor tmp .black
    let s := s.setColor parent .red
    let s ← s.rotateToward side parent
    let tmp ← (s.heap parent).child side.flip
    some (s, tmp)
  else some (s, tmp)

/-- The case of a red inner nephew in `interval_erase_color`. -/
def eraseColorInner (side : Side) (s : Tree P) (parent tmp : P) : Option (Tree P × P) :=
  if s.nodeIsBlackOr0 ((s.heap tmp).child side.flip) then do
    let s := s.setColor? ((s.heap tmp).child side) .black
    let s := s.setColor tmp .red
    let s ← s.rotateToward side.flip tmp
    let tmp ← (s.heap parent).child side.flip
    some (s, tmp)
  else some (s, tmp)

/-- The end of an iteration of `interval_erase_color` with a black sibling `tmp`; `again` is the next
one. -/
def eraseColorBlack (again : Tree P → Option P → Option P → Option (Tree P)) (side : Side)
    (s : Tree P) (parent tmp : P) : Option (Tree P) :=
  if s.nodeIsBlackOr0 (s.heap tmp).left && s.nodeIsBlackOr0 (s.heap tmp).right then
    let s := s.setColor tmp .red
    again s (some parent) (s.heap parent).parent
  else do
    let (s, tmp) ← eraseColorInner side s parent tmp
    let s := s.setColor tmp (s.node parent).color
    let s := s.setColor parent .black
    let s := s.setColor? ((s.heap tmp).child side.flip) .black
    let s ← s.rotateToward side parent
    some (s.setColor? s.root .black)

/-- `interval_erase_color`. -/
def intervalEraseColor : Nat → Tree P → Option P → Option P → Option (Tree P)
  | 0, _, _, _ => none
  | fuel + 1, s, node, parent =>
    if s.nodeIsBlackOr0 node && node ≠ s.root then do
      let parent ← parent
      let side := s.sideOf parent node
      let tmp ← (s.heap parent).child side.flip
      let (s, tmp) ← eraseColorRed side s parent tmp
      eraseColorBlack (intervalEraseColor fuel) side s parent tmp
    else some (s.setColor? node .black)

/-- `update_maxhigh`. -/
def updateMaxhigh : Nat → Tree P → Option P → Nat → Option (Tree P)
  | 0, _, _, _ => none
  | _ + 1, s, none, _ => some s
  | fuel + 1, s, some node, oldMaxhigh =>
    let m := s.childrenMax node
    let s := s.setMaxHigh node m
    if m ≥ oldMaxhigh then some s
    else updateMaxhigh fuel s (s.heap node).parent oldMaxhigh

/-- The loop of `interval_first`. -/
def intervalFirst : Nat → Tree P → P → Option P
  | 0, _, _ => none
  | fuel + 1, s, node =>
    match (s.heap node).left with
    | some left => intervalFirst fuel s left
    | none => some node

/-- The upward loop of `interval_next`; the inner option is the returned link. -/
def nextClimb : Nat → Tree P → P → Option (Option P)
  | 0, _, _ => none
  | fuel + 1, s, node =>
    match (s.heap node).parent with
    | none => some none
    | some parent =>
      if (s.heap parent).right = some node then nextClimb fuel s parent
      else some (some parent)

/-- `interval_next`. -/
def intervalNext (fuel : Nat) (s : Tree P) (node : P) : Option (Option P) :=
  match (s.heap node).right with
  | some right => (s.intervalFirst fuel right).map some
  | none => s.nextClimb fuel node

/-- `interval_erase` of a node with at most one child, from `parent = node->in_parent`. -/
def eraseOneChild (fuel : Nat) (s : Tree P) (node : P) (child : Option P) : Option (Tree P) := do
  let parent := (s.heap node).parent
  let color := (s.node node).color
  let s := s.setParent? child parent
  let s : Tree P := s.replaceChild .left parent node child
  let s ← s.updateMaxhigh fuel (child.or parent) (s.node node).maxHigh
  if color = .black then s.intervalEraseColor fuel child parent else some s

/-- The relinking for a node with two children: `node` leaves its place to `child` and takes the
place of `old`. -/
def eraseReplace (s : Tree P) (old node parent : P) (child : Option P) : Tree P :=
  let s := s.setParent? child (some parent)
  let s : Tree P :=
    if parent = old then s.setChild .right parent child else s.setChild .left parent child
  let s := s.setColor node (s.node old).color
  let s := s.setChild .right node (s.heap old).right
  let s := s.setChild .left node (s.heap old).left
  let s := s.setParent node (s.heap old).parent
  let s := s.replaceChild .left (s.heap old).parent old (some node)
  let s := s.setParent? (s.heap old).left (some node)
  s.setParent? (s.heap old).right (some node)

/-- `interval_erase` of a node with two children. -/
def eraseTwoChildren (fuel : Nat) (s : Tree P) (old : P) : Option (Tree P) := do
  let next ← s.intervalNext fuel old
  let node ← next
  let child := (s.heap node).right
  let parent ← (s.heap node).parent
  let color := (s.node node).color
  let s := s.eraseReplace old node parent child
  let s ← s.updateMaxhigh fuel (child.or (some parent)) (s.node node).maxHigh
  let s ← s.updateMaxhigh fuel (some node) (s.node old).maxHigh
  let parent := if parent = old then node else parent
  if color = .black then s.intervalEraseColor fuel child (some parent) else some s

/-- `interval_erase`. -/
def intervalErase (fuel : Nat) (s : Tree P) (node : P) : Option (Tree P) :=
  if (s.node node).intree then
    let s := s.setIntree node false
    match (s.heap node).left, (s.heap node).right with
    | none, right => s.eraseOneChild fuel node right
    | some left, none => s.eraseOneChild fuel node (some left)
    | some _, some _ => s.eraseTwoChildren fuel node
  else none

/-! ### Searching and expanding -/

/-- `enum interval_iter`. -/
inductive Iter where
  | cont
  | stop
deriving DecidableEq, Repr

/-- `interval_may_overlap`. -/
def intervalMayOverlap (s : Tree P) (node : P) (ext : Extent) : Bool :=
  ext.start ≤ (s.node node).maxHigh && s.intervalLow node ≤ ext.stop

/-- The inner loop of `interval_search`: the final `parent` and `node`. -/
def searchClimb : Nat → Tree P → P → Option P → Option (Option P × P)
  | 0, _, _, _ => none
  | _ + 1, _, node, none => some (none, node)
  | fuel + 1, s, node, some parent =>
    if (s.heap parent).left = some node then
      match (s.heap parent).right with
      | some right => some (some parent, right)
      | none => searchClimb fuel s parent (s.heap parent).parent
    else searchClimb fuel s parent (s.heap parent).parent

/-- The rest of an iteration of `interval_search`: the next node, or null when the search breaks
off. -/
def searchNext (fuel : Nat) (s : Tree P) (node : P) (ext : Extent) : Option (Option P) := do
  let (parent, node) ← s.searchClimb fuel node (s.heap node).parent
  match parent with
  | none => some none
  | some parent => some (if s.intervalMayOverlap parent ext then some node else none)

/-- `interval_search`: what it returns and the data its callback left behind. -/
def intervalSearch {β : Type} : Nat → Tree P → Option P → Extent → (P → β → Iter × β) → β →
    Option (Iter × β)
  | 0, _, _, _, _, _ => none
  | _ + 1, _, none, _, _, data => some (.cont, data)
  | fuel + 1, s, some node, ext, func, data =>
    if ext.stop < s.intervalLow node then
      match (s.heap node).left with
      | some left => intervalSearch fuel s (some left) ext func data
      | none => do
          let next ← s.searchNext fuel node ext
          intervalSearch fuel s next ext func data
    else if s.intervalMayOverlap node ext then
      let (rc, data) := if extentOverlapped ext (s.node node).extent then func node data
        else (.cont, data)
      if rc = .stop then some (.stop, data)
      else
        match (s.heap node).left, (s.heap node).right with
        | some left, _ => intervalSearch fuel s (some left) ext func data
        | none, some right => intervalSearch fuel s (some right) ext func data
        | none, none => do
            let next ← s.searchNext fuel node ext
            intervalSearch fuel s next ext func data
    else do
      let next ← s.searchNext fuel node ext
      intervalSearch fuel s next ext func data

/-- The loop of `interval_iterate`, from its current node. -/
def intervalIterate {β : Type} : Nat → Tree P → Option P → (P → β → Iter × β) → β →
    Option (Iter × β)
  | 0, _, _, _, _ => none
  | _ + 1, _, none, _, data => some (.cont, data)
  | fuel + 1, s, some node, func, data =>
    let (rc, data) := func node data
    if rc = .stop then some (.stop, data)
    else do
      let next ← s.intervalNext fuel node
      intervalIterate fuel s next func data

/-- `interval_iterate`. -/
def intervalIterateAll {β : Type} (fuel : Nat) (s : Tree P) (root : Option P)
    (func : P → β → Iter × β) (data : β) : Option (Iter × β) :=
  match root with
  | none => some (.cont, data)
  | some root => do
      let first ← s.intervalFirst fuel root
      s.intervalIterate fuel (some first) func data

/-- `interval_is_overlapped`, with its callback `interval_overlap_cb`. -/
def intervalIsOverlapped (fuel : Nat) (s : Tree P) (root : Option P) (ext : Extent) :
    Option Bool := do
  let (_, has) ← s.intervalSearch fuel root ext (fun _ _ => (Iter.stop, true)) false
  some has

/-- `interval_expand_low`. -/
def intervalExpandLow (root : Option P) (low : Nat) : Nat :=
  match root with
  | none => 0
  | some _ => low

/-- The loop of `interval_expand_high`, from its current `result`. -/
def intervalExpandHigh : Nat → Tree P → Option P → Nat → Nat → Option Nat
  | 0, _, _, _, _ => none
  | _ + 1, _, none, _, result => some result
  | fuel + 1, s, some node, high, result =>
    if (s.node node).maxHigh < high then some result
    else if s.intervalLow node > high then
      intervalExpandHigh fuel s (s.heap node).left high (s.intervalLow node - 1)
    else intervalExpandHigh fuel s (s.heap node).right high result

/-- `interval_expand`, both assertions included. -/
def intervalExpand (fuel : Nat) (s : Tree P) (root : Option P) (ext : Extent)
    (limiter : Option Extent) : Option Extent := do
  let before ← s.intervalIsOverlapped fuel root ext
  if before then none
  else do
    let ext := if limiter.all (fun l => l.start < ext.start) then
        { ext with start := intervalExpandLow root ext.start }
      else ext
    let ext ← if limiter.all (fun l => l.stop > ext.stop) then do
        let stop ← s.intervalExpandHigh fuel root ext.stop maxU64
        some { ext with stop := stop }
      else some ext
    let after ← s.intervalIsOverlapped fuel root ext
    if after then none else some ext

end Tree

end Ldlm
