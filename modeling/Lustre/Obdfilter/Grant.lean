/-
Module: Lustre.Obdfilter.Grant
Purpose: The space an object server has promised to its clients.  One step is one section under
  `obd_osfs_lock`.
Trusted boundary: what the file system says about its free space is part of the label of a step
-/
import Lustre.Lib.Bytes
import Lustre.Lib.Run

namespace Obdfilter.Grant

open Bytes Words

/-! ### Data -/

/-- `FILTER_GRANT_CHUNK` -/
def filterGrantChunk : Nat := 2 * 2 ^ 20

/-- `FILTER_GRANT_SHRINK_LIMIT` -/
def filterGrantShrinkLimit : Nat := 16 * filterGrantChunk

/-- `GRANT_FOR_LLOG` -/
def grantForLlog : Nat := 16

/-- `CFS_PAGE_SIZE` -/
def cfsPageSize : Nat := 4096

/-- The file system of the server: the size of its blocks and their number; offsets on it fit a `loff_t`. -/
structure Ost where
  blockbits : Nat
  blocks : Nat
  indirect : 3 ≤ blockbits
  fits : blocks * 2 ^ blockbits < 2 ^ 63

/-- `os_blocks * os_bsize` -/
def Ost.size (ost : Ost) : Nat := ost.blocks * 2 ^ ost.blockbits

/-- `struct filter_export_data`.  An export is linked while on `obd_exports`, and live until destroyed;
`shrink` is `OBD_CONNECT_GRANT_SHRINK`. -/
structure Fed where
  dirty : Int
  grant : Int
  pending : Int
  live : Bool
  linked : Bool
  shrink : Bool
deriving DecidableEq, Repr

/-- A number that no export has yet. -/
def Fed.none : Fed := ⟨0, 0, 0, false, false, false⟩

/-- What the grant code reads of a `struct obdo`: the bits `OBD_MD_FLBLOCKS`, `OBD_MD_FLGRANT` and
`OBD_MD_FLFLAGS` of `o_valid`, `OBD_FL_SHRINK_GRANT` of `o_flags`, and the amounts. -/
structure Oa where
  flBlocks : Bool
  flGrant : Bool
  flFlags : Bool
  shrinkGrant : Bool
  dirty : UInt64
  grant : UInt64
  dropped : UInt32
  undirty : UInt32
deriving DecidableEq, Repr

/-- `struct niobuf_local` before the write: its place in the object, and `OBD_BRW_FROM_GRANT`. -/
structure Page where
  offset : UInt64
  len : Nat
  fromGrant : Bool
  small : len ≤ cfsPageSize
deriving DecidableEq, Repr

/-- A write between `filter_preprw_write` and `filter_commitrw_write`, with `lnb_grant_used` of its
pages. -/
structure Write where
  exp : Nat
  grantUsed : List Nat
deriving DecidableEq, Repr

/-- The counters of `struct filter_obd` and `obd_osfs`.  Exports are numbered in the order of their
connects. -/
structure Server where
  feds : Nat → Fed
  nextExp : Nat
  totDirty : Nat
  totGranted : Nat
  totPending : Nat
  /-- `fo_tot_granted_clients` -/
  clients : Int
  /-- `obd_osfs.os_bavail` -/
  bavail : Nat
  /-- `obd_osfs` has been filled in -/
  statfsDone : Bool
  writes : List Write

/-- What stops a run. -/
inductive Fault where
  | lbug
  | lassert
  /-- the label is not possible here -/
  | disabled
deriving DecidableEq, Repr

/-- What the file system answers: whether the values known are too old, and the new ones. -/
structure Statfs where
  aged : Bool
  fails : Bool
  bavail : Nat
deriving DecidableEq, Repr

/-- `LASSERTF` -/
def lassert (p : Prop) [Decidable p] : Except Fault Unit :=
  if p then .ok () else .error .lassert

/-- The counters of one export change. -/
def Server.setFed (s : Server) (e : Nat) (fed : Fed) : Server :=
  { s with feds := Function.update s.feds e fed }

/-- The check at the end of `filter_grant_incoming` and `filter_grant_check`. -/
def Fed.negative (fed : Fed) : Bool := fed.dirty < 0 ∨ fed.grant < 0 ∨ fed.pending < 0

/-- The bytes that can be granted when `bavail` blocks are free. -/
def freeSpace (ost : Ost) (bavail : Nat) : Nat :=
  let left := bavail - bavail / 2 ^ (ost.blockbits - 3)
  if grantForLlog < left then (left - grantForLlog) * 2 ^ ost.blockbits else 0

/-- `filter_grant_space_left` -/
def filterGrantSpaceLeft (ost : Ost) (s : Server) (st : Statfs) : Nat × Server :=
  if st.aged ∨ freeSpace ost s.bavail < u64 (32 * filterGrantChunk + s.totGranted : Nat) then
    if st.fails then (0, s)
    else
      (freeSpace ost st.bavail - s.totGranted,
        { s with bavail := st.bavail, statfsDone := true })
  else (freeSpace ost s.bavail - s.totGranted, s)

/-- The dirty bytes `filter_grant_incoming` believes. -/
def believedDirty (fed : Fed) (oa : Oa) : Nat :=
  if 2 ^ 63 ≤ oa.dirty.toNat then 0
  else min oa.dirty.toNat (u64 (fed.grant + (4 * filterGrantChunk : Nat)))

/-- The dropped grant it believes. -/
def believedDropped (s : Server) (fed : Fed) (oa : Oa) : Nat :=
  if fed.grant < oa.dropped.toNat ∨ s.totGranted < oa.dropped.toNat then 0 else oa.dropped.toNat

/-- The first half of `filter_grant_incoming`: dirty and dropped. -/
def announce (s : Server) (e : Nat) (oa : Oa) : Server :=
  let fed := s.feds e
  let dirty := believedDirty fed oa
  let dropped := believedDropped s fed oa
  { s.setFed e { fed with grant := s64 (fed.grant - dropped), dirty := s64 dirty } with
    totDirty := u64 (s.totDirty + dirty - fed.dirty)
    totGranted := u64 (s.totGranted - dropped) }

/-- The second half: the grant a client gives back, when space is short. -/
def shrink (ost : Ost) (s : Server) (e : Nat) (oa : Oa) (st : Statfs) : Oa × Server :=
  if oa.flFlags ∧ oa.shrinkGrant then
    let (left, s) := filterGrantSpaceLeft ost s st
    if left < u64 (s.clients * filterGrantShrinkLimit) then
      let fed := s.feds e
      ({ oa with grant := 0 },
        { s.setFed e { fed with grant := s64 (fed.grant - oa.grant.toNat) } with
          totGranted := u64 (s.totGranted - oa.grant.toNat) })
    else (oa, s)
  else (oa, s)

/-- `filter_grant_incoming` -/
def filterGrantIncoming (ost : Ost) (s : Server) (e : Nat) (oa : Oa) (st : Statfs) :
    Except Fault (Oa × Server) :=
  if oa.flBlocks ∧ oa.flGrant then
    let (oa, s) := shrink ost (announce s e oa) e oa st
    if (s.feds e).negative then .error .lbug else .ok (oa, s)
  else .ok ({ oa with flGrant := false }, s)

/-- The amount `filter_grant` adds. -/
def newGrant (ost : Ost) (fed : Fed) (currentGrant want left : Nat) (conservative : Bool) : Nat :=
  if 0x7fffffff < want then 0
  else if currentGrant < want ∧ currentGrant < u64 (fed.grant + filterGrantChunk) then
    let grant := min (want + 2 ^ ost.blockbits - 1) (left / 8) / 2 ^ ost.blockbits * 2 ^ ost.blockbits
    if filterGrantChunk < grant ∧ conservative then filterGrantChunk else grant
  else 0

/-- `filter_grant` -/
def filterGrant (ost : Ost) (s : Server) (e : Nat) (currentGrant want left : Nat)
    (conservative : Bool) : Except Fault Server :=
  let fed := s.feds e
  let grant := newGrant ost fed currentGrant want left conservative
  if grant = 0 then .ok s
  else
    let fed := { fed with grant := s64 (fed.grant + grant) }
    if fed.grant < 0 then .error .lbug
    else .ok { s.setFed e fed with totGranted := u64 (s.totGranted + grant : Nat) }

/-! ### Writes -/

/-- The bytes of whole blocks that a page touches. -/
def pageBytes (ost : Ost) (page : Page) : Nat :=
  let blocksize := 2 ^ ost.blockbits
  let tail := (page.offset.toNat + page.len) % 2 ^ 64 % blocksize
  page.len + page.offset.toNat % blocksize + (if tail = 0 then 0 else blocksize - tail)

/-- The sums of the loop of `filter_grant_check`, `lnb_grant_used` of the pages, last first, and whether
`rc` is `0`. -/
structure Checked where
  used : Nat
  ungranted : Nat
  grantUsed : List Nat
  paid : Bool

/-- One page: it is paid from the grant, or from space that is free, or not at all. -/
def checkPage (fedGrant : Int) (flGrant : Bool) (left : Nat) (c : Checked) (fromGrant : Bool)
    (bytes : Nat) : Checked :=
  if fromGrant ∧ flGrant ∧ c.used + bytes ≤ u64 fedGrant then
    { c with used := c.used + bytes, grantUsed := bytes :: c.grantUsed, paid := true }
  else if c.ungranted + bytes < left then
    { c with ungranted := c.ungranted + bytes, grantUsed := bytes :: c.grantUsed, paid := true }
  else { c with grantUsed := 0 :: c.grantUsed }

/-- The loop of `filter_grant_check`. -/
def checkPages (ost : Ost) (fedGrant : Int) (flGrant : Bool) (left : Nat) :
    Checked → List Page → Checked
  | c, [] => c
  | c, page :: pages =>
    checkPages ost fedGrant flGrant left
      (checkPage fedGrant flGrant left c page.fromGrant (pageBytes ost page)) pages

/-- `filter_grant_check`: the space that is left behind it, and the pages if it succeeds. -/
def filterGrantCheck (ost : Ost) (s : Server) (e : Nat) (oa : Oa) (left : Nat) (pages : List Page) :
    Except Fault (Nat × Option (List Nat) × Server) :=
  let fed := s.feds e
  let c := checkPages ost fed.grant oa.flGrant left ⟨0, 0, [], false⟩ pages
  let spent := (c.used + c.ungranted + 1) / 2 ^ ost.blockbits
  -- `used` counts against the dirty bytes as far as there are any
  let cleaned := min c.used (u64 fed.dirty)
  let fed := { fed with
    grant := s64 (fed.grant - c.used)
    pending := s64 (fed.pending + (c.used + c.ungranted : Nat))
    dirty := s64 (fed.dirty - cleaned) }
  let s := { s.setFed e fed with
    totGranted := u64 (s.totGranted + c.ungranted : Nat)
    totPending := u64 (s.totPending + (c.used + c.ungranted) : Nat)
    totDirty := u64 (s.totDirty - cleaned)
    bavail := s.bavail - spent }
  if fed.negative then .error .lbug
  else .ok (left - c.ungranted, if c.paid then some c.grantUsed else none, s)

/-- New grant for a write that is not giving grant back. -/
def grantWrite (ost : Ost) (s : Server) (e : Nat) (oa : Oa) (left : Nat) : Except Fault Server :=
  if oa.flGrant ∧ ¬ (oa.flFlags ∧ oa.shrinkGrant) then
    filterGrant ost s e oa.grant.toNat oa.undirty.toNat left true
  else .ok s

/-- The write waits for its data, unless `rc` is `-ENOSPC`. -/
def Server.addWrite (s : Server) (e : Nat) : Option (List Nat) → Server
  | some grantUsed => { s with writes := ⟨e, grantUsed⟩ :: s.writes }
  | none => s

/-- The section of `filter_preprw_write`; a write none of whose pages was paid for ends with `-ENOSPC`. -/
def preprwWrite (ost : Ost) (s : Server) (e : Nat) (oa : Oa) (pages : List Page) (st st' : Statfs) :
    Except Fault Server := do
  let (oa, s) ← filterGrantIncoming ost s e oa st
  let (left, s) := filterGrantSpaceLeft ost s st'
  let (left, grantUsed, s) ← filterGrantCheck ost s e oa left pages
  let s ← grantWrite ost s e oa left
  .ok (s.addWrite e grantUsed)

/-- `filter_grant_commit` -/
def filterGrantCommit (s : Server) (w : Write) : Except Fault Server := do
  let fed := s.feds w.exp
  let pending := u64 (w.grantUsed.sum : Nat)
  lassert (pending ≤ u64 fed.pending)
  lassert (pending ≤ s.totGranted)
  lassert (pending ≤ s.totPending)
  .ok { s.setFed w.exp { fed with pending := s64 (fed.pending - pending) } with
    totGranted := s.totGranted - pending
    totPending := s.totPending - pending }

/-- `filter_grant_discard` -/
def filterGrantDiscard (s : Server) (e : Nat) : Except Fault Server := do
  let fed := s.feds e
  lassert (u64 fed.grant ≤ s.totGranted)
  lassert (u64 fed.pending ≤ s.totPending)
  lassert (u64 fed.dirty ≤ s.totDirty)
  .ok { s.setFed e { fed with dirty := 0, grant := 0 } with
    totGranted := u64 (s.totGranted - fed.grant)
    totDirty := u64 (s.totDirty - fed.dirty) }

/-- `obd_exports` -/
def Server.linked (s : Server) : List Nat :=
  (List.range s.nextExp).filter fun e => (s.feds e).linked

/-- The two assertions of `filter_grant_sanity_check` about one export. -/
def withinSize (ost : Ost) (fed : Fed) : Bool :=
  u64 (fed.grant + fed.pending) ≤ ost.size ∧ u64 fed.dirty ≤ ost.size

/-- `filter_grant_sanity_check`; the sums it compares are only reported. -/
def filterGrantSanityCheck (ost : Ost) (s : Server) : Except Fault Server := do
  if 100 < s.linked.length then .ok s
  else
    lassert (s.statfsDone = true → 0 < ost.size → s.linked.all (fun e => withinSize ost (s.feds e)))
    .ok s

/-- The section of `filter_connect_internal`. -/
def connectInternal (ost : Ost) (s : Server) (e : Nat) (want : UInt32) (reconnect : Bool)
    (st : Statfs) : Except Fault Server := do
  let (left, s) := filterGrantSpaceLeft ost s st
  let s ← filterGrant ost s e (u64 (s.feds e).grant) want.toNat left (!reconnect)
  .ok { s with clients := int32 (s.clients + 1) }

/-- What happens on the server. -/
inductive Label where
  /-- a read, a request to shrink the grant, or a write that fails early -/
  | incoming (e : Nat) (oa : Oa) (st : Statfs)
  /-- a write is prepared -/
  | write (e : Nat) (oa : Oa) (pages : List Page) (st st' : Statfs)
  /-- a prepared write is committed -/
  | commit (w : Write)
  /-- a prepared write fails before `filter_commitrw_write`: no memory for its pages, or the bulk
  transfer cannot be set up -/
  | abandon (w : Write)
  /-- a new client connects, with `OBD_CONNECT_GRANT` or without -/
  | connect (grant shrink : Bool) (want : UInt32) (st : Statfs)
  | reconnect (e : Nat) (grant : Bool) (want : UInt32) (st : Statfs)
  /-- `filter_grant_sanity_check`, from a disconnect, a destroyed export or a statfs -/
  | sanityCheck
  /-- `filter_grant_discard` of `filter_disconnect` -/
  | disconnect (e : Nat)
  /-- `server_disconnect_export`, some time behind it -/
  | unlink (e : Nat)
  /-- the last reference to an export is gone -/
  | destroy (e : Nat)
  /-- `filter_statfs` -/
  | statfs (bavail : Nat)
deriving DecidableEq, Repr

/-- A file system has no more blocks available than it has. -/
def Statfs.possible (ost : Ost) (st : Statfs) : Bool := st.bavail ≤ ost.blocks

/-- An export goes; a client whose grant could shrink is not counted any more. -/
def filterDestroyExport (s : Server) (e : Nat) : Except Fault Server := do
  let s ← filterGrantDiscard s e
  let fed := s.feds e
  .ok { s.setFed e { fed with live := false, linked := false } with
    clients := if fed.shrink ∧ 0 < s.clients then s.clients - 1 else s.clients }

/-- One section under `obd_osfs_lock`. -/
def step (ost : Ost) (s : Server) : Label → Except Fault Server
  | .incoming e oa st =>
    if (s.feds e).live ∧ st.possible ost then do
      let (_, s) ← filterGrantIncoming ost s e oa st
      .ok s
    else .error .disabled
  | .write e oa pages st st' =>
    if (s.feds e).live ∧ st.possible ost ∧ st'.possible ost then
      preprwWrite ost s e oa pages st st'
    else .error .disabled
  | .commit w =>
    if w ∈ s.writes then filterGrantCommit { s with writes := s.writes.erase w } w
    else .error .disabled
  | .abandon w =>
    if w ∈ s.writes then .ok { s with writes := s.writes.erase w } else .error .disabled
  | .connect grant shrink want st =>
    if st.possible ost then
      let e := s.nextExp
      let s := { s.setFed e ⟨0, 0, 0, true, true, shrink⟩ with nextExp := e + 1 }
      if grant then connectInternal ost s e want false st else .ok s
    else .error .disabled
  | .reconnect e grant want st =>
    if (s.feds e).linked ∧ st.possible ost then
      if grant then connectInternal ost s e want true st else .ok s
    else .error .disabled
  | .sanityCheck => filterGrantSanityCheck ost s
  | .disconnect e => if (s.feds e).linked then filterGrantDiscard s e else .error .disabled
  | .unlink e =>
    if (s.feds e).linked then .ok (s.setFed e { s.feds e with linked := false })
    else .error .disabled
  | .destroy e =>
    if (s.feds e).live ∧ ∀ w ∈ s.writes, w.exp ≠ e then filterDestroyExport s e
    else .error .disabled
  | .statfs bavail =>
    if bavail ≤ ost.blocks then .ok { s with bavail := bavail, statfsDone := true }
    else .error .disabled

/-- The server before its first client. -/
def start : Server where
  feds := fun _ => Fed.none
  nextExp := 0
  totDirty := 0
  totGranted := 0
  totPending := 0
  clients := 0
  bavail := 0
  statfsDone := false
  writes := []

open Function Run

/-- The counters of an export, as `long`s, are not negative. -/
structure Fed.Nonneg (fed : Fed) : Prop where
  dirty : 0 ≤ fed.dirty
  grant : 0 ≤ fed.grant
  pending : 0 ≤ fed.pending
  dirtyFits : fed.dirty < 2 ^ 63
  grantFits : fed.grant < 2 ^ 63
  pendingFits : fed.pending < 2 ^ 63

/-- No counter of an export is negative, and the total is a 64-bit word. -/
structure Sane (s : Server) : Prop where
  feds : ∀ e, (s.feds e).Nonneg
  word : s.totGranted < 2 ^ 64

@[simp] theorem setFed_same (s : Server) (e : Nat) (fed : Fed) : (s.setFed e fed).feds e = fed :=
  update_self ..

variable {s s' : Server} {e : Nat} {fed : Fed}

/-- The counters of one export change to others that are not negative. -/
theorem Sane.update (sane : Sane s) (changed : s'.feds = update s.feds e fed)
    (nonneg : fed.Nonneg) (word : s'.totGranted < 2 ^ 64) : Sane s' := by
  refine ⟨fun e' => ?_, word⟩
  rw [changed]
  by_cases same : e' = e
  · rw [same, update_self]
    exact nonneg
  · rw [update_of_ne same]
    exact sane.feds e'

theorem zero_fits : (0 : Int) < 2 ^ 63 := by decide

/-- What the check of the source lets pass. -/
theorem nonneg_of_not_negative (passed : fed.negative = false) (dirty : fed.dirty < 2 ^ 63)
    (grant : fed.grant < 2 ^ 63) (pending : fed.pending < 2 ^ 63) : fed.Nonneg := by
  simp only [Fed.negative, decide_eq_false_iff_not, not_or] at passed
  exact ⟨by omega, by omega, by omega, dirty, grant, pending⟩

theorem Fed.Nonneg.not_negative (h : fed.Nonneg) : fed.negative = false := by
  simp only [Fed.negative, decide_eq_false_iff_not, not_or]
  exact ⟨by have := h.dirty; omega, by have := h.grant; omega, by have := h.pending; omega⟩

/-- What `filter_grant_space_left` returns, from the values it reads. -/
def spaceLeft (ost : Ost) (bavail totGranted : Nat) (st : Statfs) : Nat :=
  if st.aged ∨ freeSpace ost bavail < u64 (32 * filterGrantChunk + totGranted : Nat) then
    if st.fails then 0 else freeSpace ost st.bavail - totGranted
  else freeSpace ost bavail - totGranted

theorem filterGrantSpaceLeft_fst (ost : Ost) (s : Server) (st : Statfs) :
    (filterGrantSpaceLeft ost s st).1 = spaceLeft ost s.bavail s.totGranted st := by
  unfold filterGrantSpaceLeft spaceLeft
  split
  · split <;> rfl
  · rfl

/-- Only what is known of the file system changes. -/
theorem filterGrantSpaceLeft_snd (ost : Ost) (s : Server) (st : Statfs) :
    ∃ bavail statfsDone, (filterGrantSpaceLeft ost s st).2 =
      { s with bavail := bavail, statfsDone := statfsDone } := by
  unfold filterGrantSpaceLeft
  split
  · split
    · exact ⟨s.bavail, s.statfsDone, rfl⟩
    · exact ⟨st.bavail, true, rfl⟩
  · exact ⟨s.bavail, s.statfsDone, rfl⟩

theorem believedDirty_lt (fed : Fed) (oa : Oa) : believedDirty fed oa < 2 ^ 63 := by
  unfold believedDirty
  split <;> omega

theorem believedDropped_le (s : Server) (nonneg : fed.Nonneg) (oa : Oa) :
    (believedDropped s fed oa : Int) ≤ fed.grant := by
  have := nonneg.grant
  unfold believedDropped
  split <;> omega

/-- The counters behind the first half. -/
def announced (s : Server) (e : Nat) (oa : Oa) : Fed :=
  { s.feds e with
    grant := (s.feds e).grant - believedDropped s (s.feds e) oa
    dirty := believedDirty (s.feds e) oa }

theorem announce_feds (e : Nat) (oa : Oa) (nonneg : (s.feds e).Nonneg) :
    (announce s e oa).feds = update s.feds e (announced s e oa) := by
  have dropped := believedDropped_le s nonneg oa
  have dirty := believedDirty_lt (s.feds e) oa
  have := nonneg.grantFits
  have grant : s64 ((s.feds e).grant - believedDropped s (s.feds e) oa) =
      (s.feds e).grant - believedDropped s (s.feds e) oa := s64_of_range (by omega) (by omega)
  have dirty : s64 (believedDirty (s.feds e) oa : Int) = believedDirty (s.feds e) oa :=
    s64_of_range (by omega) (by omega)
  rw [announce, announced]
  simp only [Server.setFed, grant, dirty]

theorem announce_fed (e : Nat) (oa : Oa) (nonneg : (s.feds e).Nonneg) :
    (announce s e oa).feds e = announced s e oa := by
  rw [announce_feds e oa nonneg, update_self]

theorem announce_nonneg (e : Nat) (oa : Oa) (nonneg : (s.feds e).Nonneg) :
    ((announce s e oa).feds e).Nonneg := by
  have dropped := believedDropped_le s nonneg oa
  have dirty := believedDirty_lt (s.feds e) oa
  have := nonneg.grantFits
  rw [announce_fed e oa nonneg, announced]
  constructor
  case pending => exact nonneg.pending
  case pendingFits => exact nonneg.pendingFits
  all_goals
    dsimp only
    omega

/-- `filter_grant_incoming` takes `o_grant` from the grant: the message has the bits and the flag, and
space is short. -/
def Shrinks (ost : Ost) (s : Server) (e : Nat) (oa : Oa) (st : Statfs) : Prop :=
  oa.flBlocks = true ∧ oa.flGrant = true ∧ oa.flFlags = true ∧ oa.shrinkGrant = true ∧
    spaceLeft ost s.bavail (s.totGranted - believedDropped s (s.feds e) oa) st <
      u64 (s.clients * filterGrantShrinkLimit)

/-- The total behind the first half. -/
theorem announce_totGranted (e : Nat) (oa : Oa) (word : s.totGranted < 2 ^ 64) :
    (announce s e oa).totGranted = s.totGranted - believedDropped s (s.feds e) oa := by
  grind [u64, believedDropped, announce]

/-- What the second half does, in the two cases. -/
theorem shrink_eq (ost : Ost) (s : Server) (e : Nat) (oa : Oa) (st : Statfs) :
    ∃ bavail statfsDone, shrink ost s e oa st =
      if oa.flFlags = true ∧ oa.shrinkGrant = true ∧
          spaceLeft ost s.bavail s.totGranted st < u64 (s.clients * filterGrantShrinkLimit) then
        ({ oa with grant := 0 },
          { s.setFed e { s.feds e with grant := s64 ((s.feds e).grant - oa.grant.toNat) } with
            totGranted := u64 (s.totGranted - oa.grant.toNat)
            bavail := bavail
            statfsDone := statfsDone })
      else (oa, { s with bavail := bavail, statfsDone := statfsDone }) := by
  obtain ⟨bavail, statfsDone, same⟩ := filterGrantSpaceLeft_snd ost s st
  have left := filterGrantSpaceLeft_fst ost s st
  unfold shrink
  by_cases asked : oa.flFlags = true ∧ oa.shrinkGrant = true
  · refine ⟨bavail, statfsDone, ?_⟩
    generalize filterGrantSpaceLeft ost s st = result at same left
    obtain ⟨room, s'⟩ := result
    dsimp only at same left ⊢
    subst same
    rw [left]
    simp only [asked, true_and]
    rfl
  · refine ⟨s.bavail, s.statfsDone, ?_⟩
    rw [if_neg asked, if_neg fun all => asked ⟨all.1, all.2.1⟩]

/-! ### What a section can do -/

variable {ost : Ost} {oa : Oa} {st : Statfs} {n : Int} {left : Nat} {w : Write}

/-- A section changes the counters of one export, which stay in their range, and what is pending by
`n`. -/
structure Moves (s s' : Server) (e : Nat) (n : Int) : Prop where
  others : ∀ e', e' ≠ e → s'.feds e' = s.feds e'
  fed : (s'.feds e).Nonneg
  live : (s'.feds e).live = (s.feds e).live
  pending : (s'.feds e).pending % 2 ^ 64 = ((s.feds e).pending + n) % 2 ^ 64
  word : s'.totGranted < 2 ^ 64
  total : (s'.totPending : Int) % 2 ^ 64 = (s.totPending + n) % 2 ^ 64
  next : s'.nextExp = s.nextExp
  writes : s'.writes = s.writes

theorem moves_update (feds : s'.feds = update s.feds e fed) (nonneg : fed.Nonneg)
    (live : fed.live = (s.feds e).live)
    (pending : fed.pending % 2 ^ 64 = ((s.feds e).pending + n) % 2 ^ 64)
    (word : s'.totGranted < 2 ^ 64)
    (total : (s'.totPending : Int) % 2 ^ 64 = (s.totPending + n) % 2 ^ 64)
    (next : s'.nextExp = s.nextExp) (writes : s'.writes = s.writes) : Moves s s' e n := by
  have same : s'.feds e = fed := by rw [feds, update_self]
  subst same
  exact ⟨fun e' other => by rw [feds, update_of_ne other], nonneg, live, pending, word, total, next,
    writes⟩

theorem Moves.trans {s₁ : Server} {first : Int} (h : Moves s s₁ e first) (h' : Moves s₁ s' e n) :
    Moves s s' e (first + n) where
  others e' other := (h'.others e' other).trans (h.others e' other)
  fed := h'.fed
  live := h'.live.trans h.live
  pending := by have := h.pending; have := h'.pending; omega
  word := h'.word
  total := by have := h.total; have := h'.total; omega
  next := h'.next.trans h.next
  writes := h'.writes.trans h.writes

theorem Moves.sane (moves : Moves s s' e n) (sane : Sane s) : Sane s' := by
  refine ⟨fun e' => ?_, moves.word⟩
  by_cases same : e' = e
  · exact same ▸ moves.fed
  · rw [moves.others e' same]
    exact sane.feds e'

section

variable (sane : Sane s)

include sane

/-- Nothing changes. -/
theorem Moves.refl : Moves s s e 0 :=
  moves_update (update_eq_self _ _).symm (sane.feds e) rfl (by simp) sane.word (by simp) rfl rfl

theorem filterGrantIncoming_moves {oa' : Oa}
    (run : filterGrantIncoming ost s e oa st = .ok (oa', s')) : Moves s s' e 0 := by
  unfold filterGrantIncoming at run
  split at run
  · have announced : Moves s (announce s e oa) e 0 := by
      refine moves_update (announce_feds e oa (sane.feds e)) ?_ rfl (by simp [announced]) (u64_lt _)
        (by simp [announce, Server.setFed]) rfl rfl
      have nonneg := announce_nonneg e oa (sane.feds e)
      rwa [announce_fed e oa (sane.feds e)] at nonneg
    obtain ⟨b, d, eq⟩ := shrink_eq ost (announce s e oa) e oa st
    split at eq
    · rw [eq] at run
      dsimp only at run
      split at run
      · cases run
      · next passed =>
          cases run
          simp only [Server.setFed, update_self, Bool.not_eq_true] at passed
          refine announced.trans (n := 0) (moves_update rfl ?_ rfl (by simp) (u64_lt _)
            (by simp [Server.setFed]) rfl rfl)
          exact nonneg_of_not_negative passed announced.fed.dirtyFits (s64_range _).2
            announced.fed.pendingFits
    · rw [eq] at run
      dsimp only at run
      rw [announced.fed.not_negative] at run
      cases run
      exact { announced with }
  · cases run
    exact .refl sane

theorem filterGrantSpaceLeft_moves (ost : Ost) (e : Nat) (st : Statfs) :
    Moves s (filterGrantSpaceLeft ost s st).2 e 0 := by
  obtain ⟨b, d, same⟩ := filterGrantSpaceLeft_snd ost s st
  rw [same]
  exact { Moves.refl sane with }

theorem filterGrant_moves {current want : Nat} {conservative : Bool}
    (run : filterGrant ost s e current want left conservative = .ok s') : Moves s s' e 0 := by
  unfold filterGrant at run
  dsimp only at run
  split at run
  · cases run
    exact .refl sane
  split at run
  · cases run
  · next passed =>
      cases run
      exact moves_update rfl ⟨(sane.feds e).dirty, Int.not_lt.mp passed, (sane.feds e).pending,
        (sane.feds e).dirtyFits, (s64_range _).2, (sane.feds e).pendingFits⟩ rfl (by simp)
        (by dsimp only; exact u64_lt _)
        (by simp [Server.setFed]) rfl rfl

theorem grantWrite_moves (run : grantWrite ost s e oa left = .ok s') : Moves s s' e 0 := by
  unfold grantWrite at run
  split at run
  · exact filterGrant_moves sane run
  · cases run
    exact .refl sane

end

/-- What the pages hold is what was used and what was not granted, and neither is more than there is. -/
structure CheckedSums (fedGrant : Int) (left : Nat) (c : Checked) : Prop where
  sum : c.grantUsed.sum = c.used + c.ungranted
  used : c.used ≤ u64 fedGrant
  ungranted : c.ungranted ≤ left
  unpaid : c.paid = false → c.used = 0 ∧ c.ungranted = 0

theorem checkPages_sums {fedGrant : Int} {flGrant : Bool} (pages : List Page) :
    ∀ {c : Checked}, CheckedSums fedGrant left c →
      CheckedSums fedGrant left (checkPages ost fedGrant flGrant left c pages) := by
  induction pages with
  | nil => exact fun sums => sums
  | cons page pages ih => exact fun sums => ih (by
    grind [checkPage, cases CheckedSums, intro CheckedSums])

/-- What the pages of a write that goes on hold. -/
def heldBy : Option (List Nat) → Nat
  | some grantUsed => grantUsed.sum
  | none => 0

theorem CheckedSums.held {fedGrant : Int} {c : Checked} (sums : CheckedSums fedGrant left c) :
    heldBy (if c.paid then some c.grantUsed else none) = c.used + c.ungranted := by
  grind [heldBy, cases CheckedSums]

theorem checked_sums (ost : Ost) (fedGrant : Int) (flGrant : Bool) (left : Nat) (pages : List Page) :
    CheckedSums fedGrant left (checkPages ost fedGrant flGrant left ⟨0, 0, [], false⟩ pages) :=
  checkPages_sums pages ⟨rfl, Nat.zero_le _, Nat.zero_le _, fun _ => ⟨rfl, rfl⟩⟩

theorem filterGrantCheck_moves {left' : Nat} {pages : List Page} {paid : Option (List Nat)}
    (run : filterGrantCheck ost s e oa left pages = .ok (left', paid, s')) :
    Moves s s' e (heldBy paid) := by
  have sums := checked_sums ost (s.feds e).grant oa.flGrant left pages
  unfold filterGrantCheck at run
  dsimp only at run
  generalize checkPages ost _ _ _ _ pages = c at sums run
  split at run
  · cases run
  · next passed =>
      cases run
      rw [sums.held]
      refine moves_update rfl ?_ rfl (s64_emod _) ?_ ?_ rfl rfl
      · exact nonneg_of_not_negative (Bool.not_eq_true _ ▸ passed) (s64_range _).2 (s64_range _).2
          (s64_range _).2
      · dsimp only
        exact u64_lt _
      · rw [u64_emod, Int.natCast_add]

theorem lassert_ok {p : Prop} [Decidable p] {u : Unit} (run : lassert p = .ok u) : p := by
  unfold lassert at run
  split at run
  · assumption
  · cases run

section

variable (sane : Sane s)

include sane

theorem filterGrantCommit_moves (run : filterGrantCommit s w = .ok s') :
    Moves s s' w.exp (-w.grantUsed.sum) := by
  obtain ⟨_, covered, run⟩ := bind_eq_ok run
  obtain ⟨_, _, run⟩ := bind_eq_ok run
  obtain ⟨_, counted, run⟩ := bind_eq_ok run
  cases run
  have fed := sane.feds w.exp
  have covered := lassert_ok covered
  have counted := lassert_ok counted
  have := fed.pending
  have := fed.pendingFits
  have same : (u64 (s.feds w.exp).pending : Int) = (s.feds w.exp).pending :=
    u64_of_range (by omega) (by omega)
  have word := u64_emod (w.grantUsed.sum : Nat)
  have exact : s64 ((s.feds w.exp).pending - u64 (w.grantUsed.sum : Nat)) =
      (s.feds w.exp).pending - u64 (w.grantUsed.sum : Nat) := s64_of_range (by omega) (by omega)
  refine moves_update rfl ⟨fed.dirty, fed.grant, ?_, fed.dirtyFits, fed.grantFits, ?_⟩ rfl ?_
    (lt_of_le_of_lt (Nat.sub_le _ _) sane.word) ?_ rfl rfl <;> dsimp only <;> omega

theorem filterGrantDiscard_moves (run : filterGrantDiscard s e = .ok s') : Moves s s' e 0 := by
  obtain ⟨_, _, run⟩ := bind_eq_ok run
  obtain ⟨_, _, run⟩ := bind_eq_ok run
  obtain ⟨_, _, run⟩ := bind_eq_ok run
  cases run
  exact moves_update rfl ⟨Int.le_refl 0, Int.le_refl 0, (sane.feds e).pending, zero_fits, zero_fits,
    (sane.feds e).pendingFits⟩ rfl (by simp) (u64_lt _) (by simp [Server.setFed]) rfl rfl

theorem connectInternal_moves {want : UInt32} {reconnect : Bool}
    (run : connectInternal ost s e want reconnect st = .ok s') : Moves s s' e 0 := by
  obtain ⟨s₁, granted, run⟩ := bind_eq_ok run
  cases run
  have found := filterGrantSpaceLeft_moves sane ost e st
  exact { found.trans (filterGrant_moves (found.sane sane) granted) with }

end

/-- A new client, before it has any grant. -/
def Server.accept (s : Server) (shrink : Bool) : Server :=
  { s.setFed s.nextExp ⟨0, 0, 0, true, true, shrink⟩ with nextExp := s.nextExp + 1 }

theorem Sane.accept (sane : Sane s) (shrink : Bool) : Sane (s.accept shrink) :=
  sane.update rfl ⟨Int.le_refl 0, Int.le_refl 0, Int.le_refl 0, zero_fits, zero_fits, zero_fits⟩
    sane.word

/-- What a step can do. -/
inductive Effect (s : Server) : Label → Server → Prop where
  | moves {label : Label} {s' : Server} {e : Nat} (moves : Moves s s' e 0) : Effect s label s'
  | write {label : Label} {s' : Server} {e : Nat} {grantUsed : List Nat} (live : (s.feds e).live = true)
      (moves : Moves { s with writes := ⟨e, grantUsed⟩ :: s.writes } s' e grantUsed.sum) :
      Effect s label s'
  | commit {s' : Server} {w : Write} (mem : w ∈ s.writes)
      (moves : Moves { s with writes := s.writes.erase w } s' w.exp (-w.grantUsed.sum)) :
      Effect s (.commit w) s'
  | abandon {s' : Server} {w : Write} (mem : w ∈ s.writes)
      (moves : Moves { s with writes := s.writes.erase w } s' w.exp 0) :
      Effect s (.abandon w) s'
  | connect {label : Label} {s' : Server} {shrink : Bool} (moves : Moves (s.accept shrink) s' s.nextExp 0) :
      Effect s label s'
  | destroy {s' : Server} {e : Nat} {clients : Int} (none : ∀ w ∈ s.writes, w.exp ≠ e) (moves : Moves s s' e 0) :
      Effect s (.destroy e) { s'.setFed e { s'.feds e with live := false, linked := false } with
        clients := clients }

section

variable {label : Label} (sane : Sane s)

include sane

theorem preprwWrite_effect {pages : List Page} {st' : Statfs} (live : (s.feds e).live = true)
    (run : preprwWrite ost s e oa pages st st' = .ok s') : Effect s label s' := by
  obtain ⟨⟨oa₁, s₁⟩, incoming, run⟩ := bind_eq_ok run
  obtain ⟨⟨left, paid, s₂⟩, checked, run⟩ := bind_eq_ok run
  obtain ⟨s₃, granted, run⟩ := bind_eq_ok run
  have moves₁ := filterGrantIncoming_moves sane incoming
  have found := moves₁.trans (filterGrantSpaceLeft_moves (moves₁.sane sane) ost e st')
  have moves₂ := found.trans (filterGrantCheck_moves checked)
  have moves := moves₂.trans (grantWrite_moves (moves₂.sane sane) granted)
  rw [Int.add_zero, Int.add_zero, Int.zero_add] at moves
  cases run
  cases paid with
  | none => exact .moves moves
  | some grantUsed => exact .write live { moves with writes := congrArg (_ :: ·) moves.writes }

theorem step_effect (run : step ost s label = .ok s') : Effect s label s' := by
  have same : Moves s s 0 0 := .refl sane
  cases label with
  | incoming e oa st =>
    obtain ⟨_, run⟩ := ite_eq_ok run
    obtain ⟨⟨oa', s₁⟩, incoming, run⟩ := bind_eq_ok run
    cases run
    exact .moves (filterGrantIncoming_moves sane incoming)
  | write e oa pages st st' =>
    obtain ⟨enabled, run⟩ := ite_eq_ok run
    exact preprwWrite_effect sane enabled.1 run
  | commit w =>
    obtain ⟨mem, run⟩ := ite_eq_ok run
    exact .commit mem (filterGrantCommit_moves { sane with } run)
  | abandon w =>
    obtain ⟨mem, run⟩ := ite_eq_ok run
    cases run
    exact .abandon mem (.refl { sane with })
  | connect grant shrink want st =>
    obtain ⟨_, run⟩ := ite_eq_ok run
    have fresh := sane.accept shrink
    cases grant with
    | true => exact .connect (connectInternal_moves fresh run)
    | false =>
      cases run
      exact .connect (.refl fresh)
  | reconnect e grant want st =>
    obtain ⟨_, run⟩ := ite_eq_ok run
    cases grant with
    | true => exact .moves (connectInternal_moves sane run)
    | false =>
      cases run
      exact .moves same
  | sanityCheck =>
    have unchanged : s' = s := by grind [step, filterGrantSanityCheck, lassert, bind_ok, bind_error]
    rw [unchanged]
    exact .moves same
  | disconnect e =>
    obtain ⟨_, run⟩ := ite_eq_ok run
    exact .moves (filterGrantDiscard_moves sane run)
  | unlink e =>
    obtain ⟨_, run⟩ := ite_eq_ok run
    cases run
    exact .moves (e := e) (moves_update rfl { sane.feds e with } rfl (by simp) sane.word
      (by simp [Server.setFed]) rfl rfl)
  | destroy e =>
    obtain ⟨enabled, run⟩ := ite_eq_ok run
    obtain ⟨s₁, discarded, run⟩ := bind_eq_ok run
    cases run
    exact .destroy enabled.2 (filterGrantDiscard_moves sane discarded)
  | statfs bavail =>
    obtain ⟨_, run⟩ := ite_eq_ok run
    cases run
    exact .moves { same with }

theorem step_sane (run : step ost s label = .ok s') : Sane s' := by
  cases step_effect sane run with
  | moves moves => exact moves.sane sane
  | write _ moves | commit _ moves | abandon _ moves => exact moves.sane { sane with }
  | connect moves => exact moves.sane (sane.accept _)
  | destroy _ moves =>
    have sane := moves.sane sane
    exact sane.update rfl { sane.feds _ with } sane.word

end

theorem start_sane : Sane start :=
  ⟨fun _ => ⟨le_rfl, le_rfl, le_rfl, zero_fits, zero_fits, zero_fits⟩, by decide⟩

/-- In every state a server reaches no counter of an export is negative. -/
theorem run_sane {labels : List Label} (reached : run (step ost) start labels = .ok s) :
    Sane s :=
  Run.reached (fun _ _ _ sane taken => step_sane sane taken) start_sane reached

/-! ### What a message does -/

/-- The grant of the export shrinks to what is not negative, and the total with it. -/
structure Reduced (s s' : Server) (e : Nat) : Prop where
  nonneg : 0 ≤ (s'.feds e).grant
  le : (s'.feds e).grant ≤ (s.feds e).grant
  total : s'.totGranted = u64 (s.totGranted - ((s.feds e).grant - (s'.feds e).grant))

/-- `filter_grant_incoming` reduces the grant, and does not reach its `LBUG`. -/
def Reduces (s : Server) (e : Nat) : Except Fault (Oa × Server) → Prop
  | .ok (_, s') => Reduced s s' e
  | .error _ => False

/-- Without the shrinking only what was dropped is taken. -/
theorem announce_reduced (sane : Sane s) (e : Nat) (oa : Oa) : Reduced s (announce s e oa) e := by
  have dropped := believedDropped_le s (sane.feds e) oa
  have fed := announce_fed e oa (sane.feds e)
  constructor
  · rw [fed, announced]
    dsimp only
    omega
  · rw [fed, announced]
    dsimp only
    omega
  · rw [fed, announced]
    show u64 _ = u64 _
    congr 1
    dsimp only
    omega

/-- A 64-bit amount taken from a grant that was `dropped` larger leaves something between zero and that
if it is not more than the grant, or wraps around by no more than what was dropped. -/
theorem taken_iff {grant dropped amount : Int} (nonneg : 0 ≤ dropped) (covered : dropped ≤ grant)
    (small : grant < 2 ^ 63) (positive : 0 ≤ amount) (word : amount < 2 ^ 64) :
    (0 ≤ s64 (grant - dropped - amount) ∧ s64 (grant - dropped - amount) ≤ grant) ↔
      amount ≤ grant - dropped ∨ 2 ^ 64 - dropped ≤ amount := by
  grind [s64_of_range, s64_eq]

/-- The totals of a counter and of what is taken from it agree. -/
theorem total_taken (total grant dropped amount : Int) : u64 (u64 (total - dropped) - amount) =
      u64 (total - (grant - s64 (grant - dropped - amount))) := by
  grind [u64_emod, s64_emod, u64_congr]

/-- In every state a server can reach and for every message, `filter_grant_incoming` only reduces the
grant exactly when it does not shrink it, or the amount is covered or wraps around within what the same
message has dropped. -/
theorem incoming_reduces_iff {ost : Ost} {labels : List Label} {s : Server}
    (reached : run (step ost) start labels = .ok s) (e : Nat) (oa : Oa) (st : Statfs) :
    Reduces s e (filterGrantIncoming ost s e oa st) ↔
      (Shrinks ost s e oa st →
        (oa.grant.toNat : Int) ≤ (s.feds e).grant - believedDropped s (s.feds e) oa ∨
          (2 : Int) ^ 64 - believedDropped s (s.feds e) oa ≤ oa.grant.toNat) := by
  have sane := run_sane reached
  have only := announce_reduced sane e oa
  unfold filterGrantIncoming
  by_cases bits : oa.flBlocks = true ∧ oa.flGrant = true
  · rw [if_pos bits]
    obtain ⟨b, d, eq⟩ := shrink_eq ost (announce s e oa) e oa st
    split at eq
    swap
    · rename_i idle
      rw [eq]
      dsimp only
      rw [(announce_nonneg e oa (sane.feds e)).not_negative]
      refine ⟨fun _ shrinks => ?_, fun _ => ?_⟩
      · refine absurd ⟨shrinks.2.2.1, shrinks.2.2.2.1, ?_⟩ idle
        rw [announce_totGranted e oa sane.word]
        exact shrinks.2.2.2.2
      · exact { only with }
    · rename_i busy
      rw [eq]
      have shrinks : Shrinks ost s e oa st := by
        refine ⟨bits.1, bits.2, busy.1, busy.2.1, ?_⟩
        rw [← announce_totGranted e oa sane.word]
        exact busy.2.2
      have word : (oa.grant.toNat : Int) < 2 ^ 64 := by
        have := oa.grant.toNat_lt
        omega
      have taken := taken_iff (Int.natCast_nonneg _) (believedDropped_le s (sane.feds e) oa)
        (sane.feds e).grantFits (Int.natCast_nonneg _) word
      have before := announce_nonneg e oa (sane.feds e)
      rw [announce_fed e oa (sane.feds e), announced] at before ⊢
      dsimp only at before ⊢
      rw [setFed_same]
      refine ⟨fun reduces _ => taken.mp ?_, fun covered => ?_⟩
      · split at reduces
        · exact reduces.elim
        · have nonneg := reduces.nonneg
          have le := reduces.le
          simp only [setFed_same] at nonneg le
          exact ⟨nonneg, le⟩
      · obtain ⟨nonneg, le⟩ := taken.mpr (covered shrinks)
        have passed : Fed.Nonneg { s.feds e with
            grant := s64 ((s.feds e).grant - believedDropped s (s.feds e) oa - oa.grant.toNat)
            dirty := believedDirty (s.feds e) oa } :=
          ⟨before.dirty, nonneg, before.pending, before.dirtyFits, (s64_range _).2,
            before.pendingFits⟩
        rw [passed.not_negative]
        refine ⟨?_, ?_, ?_⟩
        · simpa only [setFed_same] using nonneg
        · simpa only [setFed_same] using le
        · have total := total_taken s.totGranted (s.feds e).grant (believedDropped s (s.feds e) oa)
            oa.grant.toNat
          rw [setFed_same]
          exact total
  · rw [if_neg bits]
    refine ⟨fun _ shrinks => absurd ⟨shrinks.1, shrinks.2.1⟩ bits, fun _ => ?_⟩
    refine ⟨(sane.feds e).grant, Int.le_refl _, ?_⟩
    have := sane.word
    have exact := u64_natCast this
    rw [Int.sub_self, Int.sub_zero, exact]

/-- A file system of 5000 blocks of 4096 bytes. -/
def smallOst : Ost := ⟨12, 5000, by decide, by decide⟩

/-- A client connects and gets 2 MiB. -/
def firstConnect : Label := .connect true true 0x400000 ⟨true, false, 5000⟩

/-- The server behind that. -/
def connected : Server where
  feds := update (update start.feds 0 ⟨0, 0, 0, true, true, true⟩) 0
    ⟨0, 0x200000, 0, true, true, true⟩
  nextExp := 1
  totDirty := 0
  totGranted := 0x200000
  totPending := 0
  clients := 1
  bavail := 5000
  statfsDone := true
  writes := []

/-- A message that gives grant back. -/
def shrinkOa (grant : UInt64) : Oa := ⟨true, true, true, true, 0, grant, 0, 0⟩

theorem connected_reached : run (step smallOst) start [firstConnect] = .ok connected := rfl

theorem incoming_reduces_small :
    Reduces connected 0 (filterGrantIncoming smallOst connected 0 (shrinkOa 0x100000)
      ⟨false, false, 5000⟩) :=
  (incoming_reduces_iff connected_reached 0 (shrinkOa 0x100000) ⟨false, false, 5000⟩).mpr
    fun _ => .inl (by decide +kernel)

/-- A client that gives back more than it has stops the server; one that gives back nearly `2^64`
enlarges its grant. -/
theorem shrink_stops_server :
    run (step smallOst) start [firstConnect] = .ok connected ∧
      failure (filterGrantIncoming smallOst connected 0 (shrinkOa 0x400000) ⟨false, false, 5000⟩) =
        some .lbug ∧
      ((filterGrantIncoming smallOst connected 0 (shrinkOa (0 - 0x1000)) ⟨false, false, 5000⟩).map
        fun result => (result.2.feds 0).grant).toOption = some 0x201000 :=
  ⟨connected_reached, by decide +kernel, by decide +kernel⟩

end Obdfilter.Grant
