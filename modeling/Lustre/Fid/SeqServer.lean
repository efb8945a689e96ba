/-
Module: Lustre.Fid.SeqServer
Purpose: The sequence server with its two water-mark sets, its store and the controller that refills
  it: which runs, with crashes and restarts, hand no number out twice.
Trusted boundary: none
-/
import Lustre.Fid.Range
import Lustre.Lib.Handout
import Lustre.Lib.Run

namespace Fid

/-- The assertions of the allocation path. -/
inductive SeqFault where
  | insaneSpace
  | insaneSet
deriving DecidableEq, Repr

/-- `struct lu_server_seq`. -/
structure LuServerSeq where
  space : LuSeqRange
  lowaterSet : LuSeqRange
  hiwaterSet : LuSeqRange
  width : Nat
  setWidth : Nat
  setTransno : Nat
deriving DecidableEq, Repr

/-- A sequence server with its target and store: `disk` is the committed sequence file, `pending` the
writes not yet committed, oldest first, `control` the space of the controller, `handed` the ranges given
to clients. -/
structure SeqNode where
  seq : LuServerSeq
  nodeId : Nat
  lastTransno : Nat
  lastCommitted : Nat
  disk : Option LuSeqRange
  pending : List (Nat × LuSeqRange)
  control : LuSeqRange
  superWidth : Nat
  handed : List LuSeqRange
deriving DecidableEq, Repr

/-- The server data of a node is replaced. -/
def SeqNode.withSeq (s : SeqNode) (seq : LuServerSeq) : SeqNode := { s with seq }

/-- What an allocation meets: the caller's range, whether a controller is attached and answers, the
exports, the failure injection, the store updates, and the `others` transactions that end before the
number is read. -/
structure AllocInput where
  out : LuSeqRange
  attached : Bool
  superOk : Bool
  numExports : Nat
  failAlloc : Bool
  initStored : Bool
  stored : Bool
  others : Nat
deriving DecidableEq, Repr

/-- `LUSTRE_SEQ_ZERO_RANGE`. -/
def lustreSeqZeroRange : LuSeqRange := ⟨0, 0, 0, 0⟩

/-- `LUSTRE_SEQ_SPACE_RANGE`. -/
def lustreSeqSpaceRange : LuSeqRange := ⟨0x200000400, 2 ^ 64 - 1, 0, 0⟩

/-! ### Allocation -/

/-- `range_alloc`: the filled range and what is left. -/
def rangeAlloc (dest source : LuSeqRange) (width : Nat) : LuSeqRange × LuSeqRange :=
  let width := min (rangeSpace source) width
  ({ dest with start := source.start, stop := (source.start + width) % 2 ^ 64 },
    { source with start := (source.start + width) % 2 ^ 64 })

/-- `seq_store_update`.  A synchronous transaction and everything before it is durable when
it returns. -/
def seqStoreUpdate (s : SeqNode) (sync stored : Bool) : SeqNode :=
  if stored then
    let transno := s.lastTransno + 1
    if sync then
      { s with lastTransno := transno, lastCommitted := transno, disk := some s.seq.space,
               pending := [] }
    else
      { s with lastTransno := transno, pending := s.pending ++ [(transno, s.seq.space)] }
  else s

/-- Other transactions of the target end. -/
def endTransactions (s : SeqNode) (others : Nat) : SeqNode :=
  { s with lastTransno := s.lastTransno + others }

/-- `lss_set_transno` is set. -/
def SeqNode.markSet (s : SeqNode) (transno : Nat) : SeqNode :=
  s.withSeq { s.seq with setTransno := transno }

/-- Both sets are taken from the space. -/
def initSets (seq : LuServerSeq) : LuServerSeq :=
  let lowater := rangeAlloc seq.lowaterSet seq.space seq.setWidth
  let hiwater := rangeAlloc seq.hiwaterSet lowater.2 seq.setWidth
  { seq with lowaterSet := lowater.1, hiwaterSet := hiwater.1, space := hiwater.2 }

/-- `__seq_set_init`. -/
def seqSetInit (s : SeqNode) (stored : Bool) : SeqNode :=
  (seqStoreUpdate (s.withSeq (initSets s.seq)) true stored).markSet 0

/-- The end of `range_alloc_set` on the low-water set. -/
def allocFromLowater (s : SeqNode) (out : LuSeqRange) : Except SeqFault (SeqNode × Option LuSeqRange) :=
  if ¬ rangeIsExhausted s.seq.lowaterSet ∨ rangeIsSane s.seq.lowaterSet then
    let given := rangeAlloc out s.seq.lowaterSet s.seq.width
    .ok (s.withSeq { s.seq with lowaterSet := given.2 }, some given.1)
  else .error .insaneSet

/-- The end of `range_alloc_set` once `loset` is the high-water set; `rc` is that of the store update. -/
def allocFromHiwater (s : SeqNode) (out : LuSeqRange) (rc : Bool) :
    Except SeqFault (SeqNode × Option LuSeqRange) :=
  if ¬ rangeIsExhausted s.seq.hiwaterSet ∨ rangeIsSane s.seq.hiwaterSet then
    if rc then
      let given := rangeAlloc out s.seq.hiwaterSet s.seq.width
      .ok (s.withSeq { s.seq with hiwaterSet := given.2 }, some given.1)
    else .ok (s, none)
  else .error .insaneSet

/-- A new high-water set from the space; its size grows with the number of clients. -/
def newHiwater (seq : LuServerSeq) (numExports : Nat) : LuServerSeq :=
  let setSz := max seq.setWidth (numExports * seq.width % 2 ^ 64)
  let setSz := min (rangeSpace seq.space) setSz
  let hiset := rangeAlloc seq.hiwaterSet seq.space setSz
  { seq with hiwaterSet := hiset.1, space := hiset.2 }

/-- The branch at the high-water mark.  `loset = hiset` moves the local pointer only:
`lss_lowater_set` keeps its value. -/
def reachHiwater (s : SeqNode) (input : AllocInput) : SeqNode :=
  let sync := decide (s.seq.setTransno > s.lastCommitted)
  let s := seqStoreUpdate (s.withSeq (newHiwater s.seq input.numExports)) sync input.stored
  let s := endTransactions s input.others
  s.markSet s.lastTransno

/-- `range_alloc_set` up to the test for the high-water mark. -/
def prepareSet (s : SeqNode) (input : AllocInput) : SeqNode :=
  let s := if rangeIsZero s.seq.lowaterSet then seqSetInit s input.initStored else s
  if input.failAlloc then
    s.withSeq { s.seq with
      lowaterSet := { s.seq.lowaterSet with start := s.seq.lowaterSet.stop } }
  else s

/-- `range_alloc_set`: the range that is handed out, unless the store update fails. -/
def rangeAllocSet (s : SeqNode) (input : AllocInput) : Except SeqFault (SeqNode × Option LuSeqRange) :=
  let s := prepareSet s input
  if rangeIsExhausted s.seq.lowaterSet then
    allocFromHiwater (reachHiwater s input) input.out input.stored
  else
    allocFromLowater s input.out

/-- `__seq_server_alloc_super`: the new super-sequence, unless the space is exhausted or the store
update fails. -/
def seqServerAllocSuper (s : SeqNode) (superOk : Bool) : Except SeqFault (SeqNode × Option LuSeqRange) :=
  if rangeIsSane s.control then
    if rangeIsExhausted s.control then .ok (s, none)
    else
      let given := rangeAlloc s.seq.space s.control s.superWidth
      .ok ({ s with control := given.2 }, if superOk then some given.1 else none)
  else .error .insaneSpace

/-- The refill of `__seq_server_alloc_meta`; `none` is an error return. -/
def refillSpace (s : SeqNode) (input : AllocInput) : Except SeqFault (SeqNode × Bool) := do
  if rangeIsExhausted s.seq.space then
    if !input.attached then
      return (s, false)
    match ← seqServerAllocSuper s input.superOk with
    | (s, none) => return (s, false)
    | (s, some space) =>
      if rangeIsSane space then
        return (s.withSeq { s.seq with space }, true)
      else
        throw .insaneSpace
  else
    return (s, true)

/-- `__seq_server_alloc_meta`. -/
def seqServerAllocMeta (s : SeqNode) (input : AllocInput) : Except SeqFault SeqNode := do
  if rangeIsSane s.seq.space then
    match ← refillSpace s input with
    | (s, false) => return s
    | (s, true) =>
      match ← rangeAllocSet s input with
      | (s, none) => return s
      | (s, some out) => return { s with handed := out :: s.handed }
  else
    throw .insaneSpace

/-- The transactions up to a number become durable, in their order. -/
def commit (s : SeqNode) (transno : Nat) : SeqNode :=
  let durable := s.pending.takeWhile (·.1 ≤ transno)
  { s with
    disk := (durable.getLast?.map Prod.snd).or s.disk
    pending := s.pending.dropWhile (·.1 ≤ transno)
    lastCommitted := max s.lastCommitted transno }

/-- A crash and `seq_server_init`: what was not committed is lost, the sets start at zero, and the space
is what `seq_store_read` finds, or the default, which is stored.  Transaction numbers go on in a new
epoch. -/
def restart (s : SeqNode) (epoch : Nat) : SeqNode :=
  let seq := { s.seq with
    space := s.disk.getD { lustreSeqZeroRange with index := s.nodeId }
    lowaterSet := lustreSeqZeroRange
    hiwaterSet := lustreSeqZeroRange
    setTransno := 0 }
  let s := { s with seq, lastTransno := epoch, lastCommitted := epoch, pending := [] }
  if s.disk.isNone then seqStoreUpdate s false true else s

/-- One step of the system. -/
inductive SeqLabel where
  | alloc (input : AllocInput)
  | commit (transno : Nat)
  | transaction
  | crash (epoch : Nat)
  | superElsewhere
  | setWidth (width : Nat)
deriving DecidableEq, Repr

/-- A step.  `superElsewhere` gives a super-sequence to another server, `setWidth` is the `width`
file in `/proc`. -/
def seqStep (s : SeqNode) : SeqLabel → Except SeqFault SeqNode
  | .alloc input => seqServerAllocMeta s input
  | .commit transno => .ok (commit s (min transno s.lastTransno))
  | .transaction => .ok (endTransactions s 1)
  | .crash epoch => .ok (restart s epoch)
  | .superElsewhere => do
      let (s, _) ← seqServerAllocSuper s true
      return s
  | .setWidth width => .ok (s.withSeq { s.seq with width })

/-- A server that has never run, next to a controller with its whole space. -/
def blankNode (nodeId width setWidth superWidth : Nat) : SeqNode where
  seq := ⟨lustreSeqZeroRange, lustreSeqZeroRange, lustreSeqZeroRange, width, setWidth, 0⟩
  nodeId := nodeId
  lastTransno := 0
  lastCommitted := 0
  disk := none
  pending := []
  control := lustreSeqSpaceRange
  superWidth := superWidth
  handed := []

/-- The server after its first start. -/
def startNode (nodeId width setWidth superWidth : Nat) : SeqNode :=
  restart (blankNode nodeId width setWidth superWidth) 0

open List Run

/-- A range cut into a first piece and the rest. -/
structure Cut (source piece rest : LuSeqRange) : Prop where
  pieceWf : Wellformed piece
  restWf : Wellformed rest
  pieceSub : piece.numbers ⊆ source.numbers
  restSub : rest.numbers ⊆ source.numbers
  apart : Disjoint piece.numbers rest.numbers

theorem mem_numbers {range : LuSeqRange} {n : Nat} :
    n ∈ range.numbers ↔ range.start ≤ n ∧ n < range.stop := Iff.rfl

theorem rangeAlloc_cut (dest : LuSeqRange) {source : LuSeqRange} (wf : Wellformed source)
    (width : Nat) :
    Cut source (rangeAlloc dest source width).1 (rangeAlloc dest source width).2 := by
  have sane : source.start ≤ source.stop := wf.sane
  have word := wf.word
  have bound : source.start + min (rangeSpace source) width ≤ source.stop := by
    rw [wf.space]
    omega
  have small : (source.start + min (rangeSpace source) width) % 2 ^ 64 =
      source.start + min (rangeSpace source) width := Nat.mod_eq_of_lt (by omega)
  unfold rangeAlloc
  simp only [small]
  refine ⟨⟨Nat.le_add_right _ _, by dsimp only; omega⟩, ⟨bound, word⟩, ?_, ?_, ?_⟩
  · intro n mem
    have := mem_numbers.mp mem
    exact ⟨this.1, by dsimp only at this; omega⟩
  · intro n mem
    have := mem_numbers.mp mem
    exact ⟨by dsimp only at this; omega, this.2⟩
  · refine Set.disjoint_left.mpr fun n first second => ?_
    have := mem_numbers.mp first
    have := mem_numbers.mp second
    dsimp only at *
    omega

theorem Cut.trans {source piece rest inner last : LuSeqRange} (outer : Cut source piece rest)
    (again : Cut rest inner last) : Cut source piece last :=
  ⟨outer.pieceWf, again.restWf, outer.pieceSub, again.restSub.trans outer.restSub,
    outer.apart.mono_right again.restSub⟩

/-! ### The parts of the state -/

/-- The space that a restart would read if every pending write were committed. -/
def latest (s : SeqNode) : LuSeqRange :=
  match s.pending.getLast? with
  | some write => write.2
  | none => s.disk.getD { lustreSeqZeroRange with index := s.nodeId }

/-- The numbers that may still be handed out. -/
def reserve (space lowater control stored : LuSeqRange) : Set Nat :=
  {n | n ∈ space.numbers ∨ n ∈ lowater.numbers ∨ n ∈ control.numbers ∨ n ∈ stored.numbers}

/-- The places that numbers come from are apart from each other, but for the space and its stored copy,
and from all handed out. -/
structure Parts (space lowater control stored : LuSeqRange) (handed : List LuSeqRange) : Prop where
  spaceWf : Wellformed space
  lowaterWf : Wellformed lowater
  controlWf : Wellformed control
  storedWf : Wellformed stored
  lowaterSpace : Disjoint lowater.numbers space.numbers
  lowaterStored : Disjoint lowater.numbers stored.numbers
  controlSpace : Disjoint control.numbers space.numbers
  controlLowater : Disjoint control.numbers lowater.numbers
  controlStored : Disjoint control.numbers stored.numbers
  fresh : Handout.Fresh (handed.map LuSeqRange.numbers) (reserve space lowater control stored)

section Parts

variable {space lowater control stored piece rest : LuSeqRange} {handed : List LuSeqRange}

theorem empty_numbers {range : LuSeqRange} (same : range.start = range.stop) :
    range.numbers = ∅ := by
  rw [LuSeqRange.numbers, same, Set.Ico_self]

theorem space_reserve : space.numbers ⊆ reserve space lowater control stored :=
  fun _ mem => .inl mem

theorem lowater_reserve : lowater.numbers ⊆ reserve space lowater control stored :=
  fun _ mem => .inr (.inl mem)

theorem control_reserve : control.numbers ⊆ reserve space lowater control stored :=
  fun _ mem => .inr (.inr (.inl mem))

theorem stored_reserve : stored.numbers ⊆ reserve space lowater control stored :=
  fun _ mem => .inr (.inr (.inr mem))

theorem reserve_subset {whole : Set Nat} (inSpace : space.numbers ⊆ whole)
    (inLowater : lowater.numbers ⊆ whole) (inControl : control.numbers ⊆ whole)
    (inStored : stored.numbers ⊆ whole) : reserve space lowater control stored ⊆ whole := by
  rintro n (mem | mem | mem | mem)
  · exact inSpace mem
  · exact inLowater mem
  · exact inControl mem
  · exact inStored mem

theorem disjoint_reserve {piece : Set Nat} (fromSpace : Disjoint piece space.numbers)
    (fromLowater : Disjoint piece lowater.numbers) (fromControl : Disjoint piece control.numbers)
    (fromStored : Disjoint piece stored.numbers) :
    Disjoint piece (reserve space lowater control stored) := by
  refine Set.disjoint_left.mpr fun n given => ?_
  rintro (mem | mem | mem | mem)
  · exact Set.disjoint_left.mp fromSpace given mem
  · exact Set.disjoint_left.mp fromLowater given mem
  · exact Set.disjoint_left.mp fromControl given mem
  · exact Set.disjoint_left.mp fromStored given mem

theorem zero_wf (index : Nat) : Wellformed { lustreSeqZeroRange with index } :=
  ⟨le_rfl, Nat.two_pow_pos 64⟩

section

variable (parts : Parts space lowater control stored handed)

include parts

/-- A piece of the low-water set is handed out. -/
theorem Parts.giveLowater (cut : Cut lowater piece rest) :
    Parts space rest control stored (piece :: handed) :=
  { parts with
    lowaterWf := cut.restWf
    lowaterSpace := parts.lowaterSpace.mono_left cut.restSub
    lowaterStored := parts.lowaterStored.mono_left cut.restSub
    controlLowater := parts.controlLowater.mono_right cut.restSub
    fresh := by
      refine parts.fresh.give (cut.pieceSub.trans lowater_reserve) ?_ ?_
      · exact reserve_subset space_reserve (cut.restSub.trans lowater_reserve) control_reserve
          stored_reserve
      · exact disjoint_reserve (parts.lowaterSpace.mono_left cut.pieceSub) cut.apart
          (parts.controlLowater.mono_right cut.pieceSub).symm
          (parts.lowaterStored.mono_left cut.pieceSub) }

/-- A piece of the space is handed out after the rest was stored. -/
theorem Parts.giveSpace {out : LuSeqRange} (cut : Cut space piece rest)
    (sub : out.numbers ⊆ piece.numbers) :
    Parts rest lowater control rest (out :: handed) := { parts with
  spaceWf := cut.restWf
  storedWf := cut.restWf
  lowaterSpace := parts.lowaterSpace.mono_right cut.restSub
  lowaterStored := parts.lowaterSpace.mono_right cut.restSub
  controlSpace := parts.controlSpace.mono_right cut.restSub
  controlStored := parts.controlSpace.mono_right cut.restSub
  fresh := by
    have inSpace : out.numbers ⊆ space.numbers := sub.trans cut.pieceSub
    have restReserve := cut.restSub.trans (@space_reserve space lowater control stored)
    have apart := cut.apart.mono_left sub
    refine parts.fresh.give (inSpace.trans space_reserve) ?_ ?_
    · exact reserve_subset restReserve lowater_reserve control_reserve restReserve
    · exact disjoint_reserve apart (parts.lowaterSpace.mono_right inSpace).symm
        (parts.controlSpace.mono_right inSpace).symm apart }

theorem Parts.dropSpace (cut : Cut space piece rest) :
    Parts rest lowater control stored handed := { parts with
  spaceWf := cut.restWf
  lowaterSpace := parts.lowaterSpace.mono_right cut.restSub
  controlSpace := parts.controlSpace.mono_right cut.restSub
  fresh := parts.fresh.shrink (reserve_subset (cut.restSub.trans space_reserve) lowater_reserve
    control_reserve stored_reserve) }

/-- The low-water set is taken from the space and the rest is stored. -/
theorem Parts.newLowater (cut : Cut space piece rest) : Parts rest piece control rest handed where
  spaceWf := cut.restWf
  lowaterWf := cut.pieceWf
  controlWf := parts.controlWf
  storedWf := cut.restWf
  lowaterSpace := cut.apart
  lowaterStored := cut.apart
  controlSpace := parts.controlSpace.mono_right cut.restSub
  controlLowater := parts.controlSpace.mono_right cut.pieceSub
  controlStored := parts.controlSpace.mono_right cut.restSub
  fresh := parts.fresh.shrink (reserve_subset (cut.restSub.trans space_reserve)
    (cut.pieceSub.trans space_reserve) control_reserve (cut.restSub.trans space_reserve))

/-- The low-water set is replaced by an empty one. -/
theorem Parts.emptyLowater {empty : LuSeqRange} (same : empty.start = empty.stop)
    (word : empty.stop < 2 ^ 64) : Parts space empty control stored handed := by
  have none := empty_numbers same
  refine ⟨parts.spaceWf, ⟨same.le, word⟩, parts.controlWf, parts.storedWf,
    by simp [none], by simp [none], parts.controlSpace, by simp [none], parts.controlStored,
    parts.fresh.shrink ?_⟩
  exact reserve_subset space_reserve (by simp [none]) control_reserve stored_reserve

theorem Parts.dropControl (cut : Cut control piece rest) :
    Parts space lowater rest stored handed := { parts with
  controlWf := cut.restWf
  controlSpace := parts.controlSpace.mono_left cut.restSub
  controlLowater := parts.controlLowater.mono_left cut.restSub
  controlStored := parts.controlStored.mono_left cut.restSub
  fresh := parts.fresh.shrink (reserve_subset space_reserve lowater_reserve
    (cut.restSub.trans control_reserve) stored_reserve) }

theorem Parts.refill (cut : Cut control piece rest) :
    Parts piece lowater rest stored handed := { parts with
  spaceWf := cut.pieceWf
  controlWf := cut.restWf
  lowaterSpace := (parts.controlLowater.mono_left cut.pieceSub).symm
  controlSpace := cut.apart.symm
  controlLowater := parts.controlLowater.mono_left cut.restSub
  controlStored := parts.controlStored.mono_left cut.restSub
  fresh := parts.fresh.shrink (reserve_subset (cut.pieceSub.trans control_reserve) lowater_reserve
    (cut.restSub.trans control_reserve) stored_reserve) }

theorem Parts.reload :
    Parts stored lowater control stored handed := { parts with
  spaceWf := parts.storedWf
  lowaterSpace := parts.lowaterStored
  controlSpace := parts.controlStored
  fresh := parts.fresh.shrink (reserve_subset stored_reserve lowater_reserve control_reserve
    stored_reserve) }

end

end Parts

/-! ### Steps -/

/-- The invariant of a sequence server. -/
def SeqInv (s : SeqNode) : Prop :=
  Parts s.seq.space s.seq.lowaterSet s.control (latest s) s.handed

/-- A store update that succeeds makes the space in memory the latest one. -/
theorem latest_update (s : SeqNode) (sync stored : Bool) :
    latest (seqStoreUpdate s sync stored) = if stored then s.seq.space else latest s := by
  cases stored <;> cases sync <;> simp [seqStoreUpdate, latest]

theorem update_seq (s : SeqNode) (sync stored : Bool) :
    (seqStoreUpdate s sync stored).seq = s.seq := by
  cases stored <;> cases sync <;> rfl

theorem update_control (s : SeqNode) (sync stored : Bool) :
    (seqStoreUpdate s sync stored).control = s.control := by
  cases stored <;> cases sync <;> rfl

theorem update_handed (s : SeqNode) (sync stored : Bool) :
    (seqStoreUpdate s sync stored).handed = s.handed := by
  cases stored <;> cases sync <;> rfl

variable {s : SeqNode}

/-- The water-mark sets are replaced and the space is stored. -/
theorem storeSets_inv {sets : LuServerSeq} (sync : Bool)
    (parts : Parts sets.space sets.lowaterSet s.control sets.space s.handed) (transno : Nat) :
    SeqInv ((seqStoreUpdate (s.withSeq sets) sync true).markSet transno) := by
  unfold SeqInv SeqNode.markSet SeqNode.withSeq
  show Parts _ _ _ (latest (seqStoreUpdate _ sync true)) _
  rw [latest_update, update_seq, update_control, update_handed, if_pos rfl]
  exact parts

theorem seqSetInit_inv (inv : SeqInv s) : SeqInv (seqSetInit s true) := by
  have first := rangeAlloc_cut s.seq.lowaterSet inv.spaceWf s.seq.setWidth
  have second := rangeAlloc_cut s.seq.hiwaterSet first.restWf s.seq.setWidth
  exact storeSets_inv true (inv.newLowater (first.trans second)) 0

variable {input : AllocInput}

theorem prepareSet_inv (inv : SeqInv s) (stored : input.initStored = true) :
    SeqInv (prepareSet s input) := by
  have filled : SeqInv (if rangeIsZero s.seq.lowaterSet then seqSetInit s input.initStored else s) := by
    rw [stored]
    split
    · exact seqSetInit_inv inv
    · exact inv
  unfold prepareSet
  dsimp only
  split
  · exact filled.emptyLowater rfl filled.lowaterWf.word
  · exact filled


/-- The high-water branch: a set is cut from the space, and the space is stored or the stored copy stays. -/
theorem reachHiwater_cut (wf : Wellformed s.seq.space) (input : AllocInput) :
    Cut s.seq.space (reachHiwater s input).seq.hiwaterSet (reachHiwater s input).seq.space ∧
      (reachHiwater s input).seq.lowaterSet = s.seq.lowaterSet ∧
      (reachHiwater s input).control = s.control ∧ (reachHiwater s input).handed = s.handed ∧
      latest (reachHiwater s input) =
        if input.stored then (reachHiwater s input).seq.space else latest s := by
  have cut : Cut s.seq.space (newHiwater s.seq input.numExports).hiwaterSet
      (newHiwater s.seq input.numExports).space := rangeAlloc_cut s.seq.hiwaterSet wf _
  have low : (newHiwater s.seq input.numExports).lowaterSet = s.seq.lowaterSet := rfl
  unfold reachHiwater
  dsimp only
  generalize newHiwater s.seq input.numExports = seq at cut low ⊢
  generalize decide (s.seq.setTransno > s.lastCommitted) = sync
  have last := latest_update (s.withSeq seq) sync input.stored
  have sets := update_seq (s.withSeq seq) sync input.stored
  have control := update_control (s.withSeq seq) sync input.stored
  have handed := update_handed (s.withSeq seq) sync input.stored
  generalize seqStoreUpdate (s.withSeq seq) sync input.stored = s' at last sets control handed ⊢
  unfold SeqNode.markSet endTransactions SeqNode.withSeq
  rw [sets]
  exact ⟨cut, low, control, handed, last⟩

/-- What an allocation that ends without a fault leaves. -/
def Allocated (result : SeqNode × Option LuSeqRange) : Prop :=
  match result.2 with
  | none => SeqInv result.1
  | some out => SeqInv { result.1 with handed := out :: result.1.handed }

section

variable (inv : SeqInv s)

include inv

theorem allocFromLowater_inv (out : LuSeqRange) :
    Outcome Allocated (fun _ => False) (allocFromLowater s out) := by
  unfold allocFromLowater
  rw [if_pos (.inr inv.lowaterWf.sane)]
  have cut := rangeAlloc_cut out inv.lowaterWf s.seq.width
  exact inv.giveLowater cut

theorem allocFromHiwater_inv (input : AllocInput) :
    Outcome Allocated (fun _ => False)
      (allocFromHiwater (reachHiwater s input) input.out input.stored) := by
  obtain ⟨cut, low, control, handed, last⟩ := reachHiwater_cut inv.spaceWf input
  generalize reachHiwater s input = s' at cut low control handed last ⊢
  unfold allocFromHiwater
  rw [if_pos (.inr cut.pieceWf.sane)]
  cases stored : input.stored with
  | false =>
    rw [stored] at last
    have dropped := inv.dropSpace cut
    rw [← low, ← control, ← handed] at dropped
    show Parts s'.seq.space s'.seq.lowaterSet s'.control (latest s') s'.handed
    rwa [last]
  | true =>
    rw [stored] at last
    have piece := rangeAlloc_cut input.out cut.pieceWf s'.seq.width
    generalize rangeAlloc input.out s'.seq.hiwaterSet s'.seq.width = given at piece ⊢
    have parts := inv.giveSpace cut piece.pieceSub
    rw [← low, ← control, ← handed] at parts
    show Parts s'.seq.space s'.seq.lowaterSet s'.control (latest s') (given.1 :: s'.handed)
    rwa [last]

theorem rangeAllocSet_inv (stored : input.initStored = true) :
    Outcome Allocated (fun _ => False) (rangeAllocSet s input) := by
  grind [rangeAllocSet, prepareSet, prepareSet_inv, allocFromHiwater_inv, allocFromLowater_inv]

theorem seqServerAllocSuper_inv (superOk : Bool) :
    Outcome (fun result => SeqInv result.1 ∧ ∀ space, result.2 = some space →
        rangeIsSane space ∧ SeqInv (result.1.withSeq { result.1.seq with space }))
      (fun _ => False) (seqServerAllocSuper s superOk) := by
  unfold seqServerAllocSuper
  rw [if_pos inv.controlWf.sane]
  split
  · exact ⟨inv, fun _ found => nomatch found⟩
  · have cut := rangeAlloc_cut s.seq.space inv.controlWf s.superWidth
    refine ⟨inv.dropControl cut, fun space found => ?_⟩
    cases superOk with
    | false => cases found
    | true =>
      obtain rfl := Option.some.inj found
      exact ⟨cut.pieceWf.sane, inv.refill cut⟩

theorem refillSpace_inv (input : AllocInput) :
    Outcome (fun result => SeqInv result.1) (fun _ => False) (refillSpace s input) := by
  unfold refillSpace
  split
  · split
    · exact inv
    · refine .bind (seqServerAllocSuper_inv inv input.superOk) fun result kept => ?_
      obtain ⟨s', _ | space⟩ := result
      · exact kept.1
      · obtain ⟨sane, refilled⟩ := kept.2 space rfl
        dsimp only
        rw [if_pos sane]
        exact refilled
  · exact inv

theorem seqServerAllocMeta_inv (stored : input.initStored = true) :
    Outcome SeqInv (fun _ => False) (seqServerAllocMeta s input) := by
  unfold seqServerAllocMeta
  rw [if_pos inv.spaceWf.sane]
  refine .bind (refillSpace_inv inv input) fun result refilled => ?_
  obtain ⟨s', _ | _⟩ := result
  · exact refilled
  · refine .bind (rangeAllocSet_inv refilled stored) fun result allocated => ?_
    obtain ⟨s'', _ | out⟩ := result
    · exact allocated
    · exact allocated

/-- A restart that loses nothing. -/
theorem restart_inv (committed : s.pending = []) (epoch : Nat) : SeqInv (restart s epoch) := by
  have found : latest s = s.disk.getD { lustreSeqZeroRange with index := s.nodeId } := by
    rw [latest, committed]
    rfl
  have parts : Parts (latest s) lustreSeqZeroRange s.control (latest s) s.handed :=
    inv.reload.emptyLowater rfl (Nat.two_pow_pos 64)
  rw [found] at parts
  unfold restart
  cases disk : s.disk with
  | none | some =>
    rw [disk] at parts
    exact parts

end

/-- A step that loses no update: a crash comes only when all are committed, and the unchecked one in
`__seq_set_init` succeeds. -/
def Kept (s : SeqNode) : SeqLabel → Prop
  | .alloc input => input.initStored = true
  | .crash _ => s.pending = []
  | _ => True

instance (s : SeqNode) (label : SeqLabel) : Decidable (Kept s label) := by
  cases label <;> unfold Kept <;> infer_instance

/-- Such a step passes every assertion and keeps the invariant. -/
theorem seqStep_keeps (s : SeqNode) (label : SeqLabel) (inv : SeqInv s) (kept : Kept s label) :
    Outcome SeqInv (fun _ => False) (seqStep s label) := by
  cases label with
  | alloc input => exact seqServerAllocMeta_inv inv kept
  | commit transno =>
    have same (k : Nat) : latest (commit s k) = latest s := by
      grind [latest, commit, takeWhile_append_dropWhile, getLast?_append]
    show Parts _ _ _ (latest (commit s _)) _
    rw [same]
    exact inv
  | transaction | setWidth => exact inv
  | crash epoch => exact restart_inv inv kept epoch
  | superElsewhere =>
    exact .bind (seqServerAllocSuper_inv inv true) fun result given => given.1

theorem startNode_inv (nodeId width setWidth superWidth : Nat) :
    SeqInv (startNode nodeId width setWidth superWidth) := by
  have none : lustreSeqZeroRange.numbers = ∅ := empty_numbers rfl
  have default : LuSeqRange.numbers { lustreSeqZeroRange with index := nodeId } = ∅ :=
    empty_numbers rfl
  have control : Wellformed lustreSeqSpaceRange := ⟨by decide, by decide⟩
  refine restart_inv (s := blankNode nodeId width setWidth superWidth) ?_ rfl 0
  refine ⟨zero_wf 0, zero_wf 0, control, zero_wf nodeId, ?_, ?_, ?_, ?_, ?_, Handout.Fresh.nil _⟩
  · exact none ▸ Set.empty_disjoint _
  · exact none ▸ Set.empty_disjoint _
  · exact none ▸ Set.disjoint_empty _
  · exact none ▸ Set.disjoint_empty _
  · exact default ▸ Set.disjoint_empty _

/-- In every run that loses no update no assertion fails and no sequence number is handed out twice. -/
theorem sequences_handed_once (nodeId width setWidth superWidth : Nat) (labels : List SeqLabel)
    (kept : Meets seqStep Kept (startNode nodeId width setWidth superWidth) labels) :
    ∃ s, run seqStep (startNode nodeId width setWidth superWidth) labels = .ok s ∧
      s.handed.Pairwise fun r r' => ∀ n, ¬ (rangeWithin r n ∧ rangeWithin r' n) := by
  have whole := outcome_run seqStep_keeps (startNode_inv nodeId width setWidth superWidth) kept
  obtain ⟨s, done, inv⟩ := whole.exists_ok
  refine ⟨s, done, ?_⟩
  have apart := pairwise_map.mp inv.fresh.pairwise
  exact apart.imp fun disjoint n both => Set.disjoint_left.mp disjoint both.1 both.2

/-- An allocation in which everything succeeds. -/
def plainAlloc : SeqLabel := .alloc ⟨lustreSeqZeroRange, true, true, 1, false, true, true, 0⟩

/-- Two allocations around a crash that comes after a commit. -/
theorem sequences_handed_once_restart :
    Meets seqStep Kept (startNode 0 1 1000 (2 ^ 30))
        [plainAlloc, .commit 9, .crash 9, plainAlloc] ∧
      ∃ s, run seqStep (startNode 0 1 1000 (2 ^ 30))
          [plainAlloc, .commit 9, .crash 9, plainAlloc] = .ok s ∧
        s.handed.Pairwise fun r r' => ∀ n, ¬ (rangeWithin r n ∧ rangeWithin r' n) :=
  ⟨by decide +kernel, sequences_handed_once 0 1 1000 (2 ^ 30) _ (by decide +kernel)⟩

/-- The allocation after a thousand others takes its range from a set whose update is not committed;
after a crash the number is handed out again. -/
theorem crash_hands_out_twice :
    ∃ s, run seqStep (startNode 0 1 1000 (2 ^ 30))
        (List.replicate 1001 plainAlloc ++ [.crash 9, plainAlloc]) = .ok s ∧
      ¬ s.handed.Pairwise fun r r' => ∀ n, ¬ (rangeWithin r n ∧ rangeWithin r' n) := by
  have last : ((run seqStep (startNode 0 1 1000 (2 ^ 30))
      (replicate 1001 plainAlloc ++ [.crash 9, plainAlloc])).toOption.map
        fun s => s.handed.take 2) =
      some [⟨0x200000400 + 2000, 0x200000400 + 2001, 0, 0⟩,
        ⟨0x200000400 + 2000, 0x200000400 + 2001, 0, 0⟩] := by
    decide +kernel
  generalize run seqStep (startNode 0 1 1000 (2 ^ 30))
    (replicate 1001 plainAlloc ++ [.crash 9, plainAlloc]) = result at last ⊢
  obtain _ | s := result
  · cases last
  · refine ⟨s, rfl, fun apart => ?_⟩
    have both := apart.sublist (take_sublist 2 s.handed)
    have pair : s.handed.take 2 = _ := Option.some.inj last
    rw [pair] at both
    exact (pairwise_pair.mp both) (0x200000400 + 2000) (by decide)

end Fid
