/-
Module: Lustre.Lnet.Portal
Purpose: Portals with their match entries, memory descriptors and waiting messages, and the events
  of completed operations.
Trusted boundary: the hash of a match is a parameter; a network driver completes each message it was
  given once; reference counts of event queues and peers are left out; version counters do not wrap
-/
import Lustre.Lib.Bytes
import Lustre.Lib.Run

namespace Lnet

open Bytes

/-! ### Data -/

/-- `lnet_process_id_t`. -/
structure ProcessId where
  nid : UInt64
  pid : UInt32
deriving DecidableEq, Repr

/-- `LNET_NID_ANY`. -/
def lnetNidAny : UInt64 := 0xffffffffffffffff

/-- `LNET_PID_ANY`. -/
def lnetPidAny : UInt32 := 0xffffffff

/-- `LNET_MD_THRESH_INF`. -/
def lnetMdThreshInf : Int := -1

/-- `CFS_PAGE_SIZE`. -/
def cfsPageSize : Nat := 4096

/-- `-EINVAL`. -/
def einval : Int := -22

/-- The operations of a header. -/
inductive MdOp where
  | put
  | get
deriving DecidableEq, Repr

/-- `md_options`. -/
structure MdOptions where
  opPut : Bool
  opGet : Bool
  manageRemote : Bool
  truncate : Bool
  iovec : Bool
  maxSize : Bool
  kiov : Bool
deriving DecidableEq, Repr

/-- `md_options & op_mask`. -/
def MdOptions.allows (options : MdOptions) : MdOp → Bool
  | .put => options.opPut
  | .get => options.opGet

/-- `lnet_md_t`: what a user asks for.  `length` counts bytes, or fragments, each an offset in the page
and a length. -/
structure Umd where
  length : UInt32
  threshold : Int
  maxSize : Int
  options : MdOptions
  frags : List (Nat × Nat)
  eq : Option Nat
deriving DecidableEq, Repr

/-- `lnet_libmd_t`: `md_me`, the counters, the flags and `md_eq`; lengths and offsets are unsigned 32-bit
numbers. -/
structure Md where
  me : Option Nat
  offset : Nat
  length : Nat
  maxSize : Nat
  threshold : Int
  refcount : Int
  options : MdOptions
  zombie : Bool
  autoUnlink : Bool
  eq : Option Nat
deriving DecidableEq, Repr

/-- `lnet_me_t`. -/
structure Me where
  portal : Nat
  matchId : ProcessId
  matchBits : UInt64
  ignoreBits : UInt64
  unlink : Bool
  md : Option Nat
deriving DecidableEq, Repr

/-- What `lnet_try_match_md` reads of an incoming PUT or GET. -/
structure Hdr where
  op : MdOp
  src : ProcessId
  length : UInt32
  offset : UInt32
  matchBits : UInt64
  portal : Nat
deriving DecidableEq, Repr

/-- The assertions of these functions. -/
inductive LnetFault where
  /-- `LASSERT (md->md_offset + mlength <= md->md_length)` -/
  | matchOffset
  /-- `LASSERT (md->md_threshold > 0)` -/
  | threshold
  /-- `LASSERT (md->md_refcount >= 0)` -/
  | refcount
  /-- an assertion of `lnet_match_blocked_msg` -/
  | blocked
  /-- `LASSERT (md->md_offset == 0)` for a reply -/
  | replyOffset
  /-- `LASSERT (rc == LNET_MATCHMD_OK)` for a GET -/
  | getUnmatched
  /-- `LASSERT (me == md->md_me)`, or a pointer of an entry or a descriptor to a freed one -/
  | dangling
deriving DecidableEq, Repr

/-- Unsigned 32-bit arithmetic. -/
def u32 (n : Nat) : Nat := n % 2 ^ 32

/-- The sum of the fragments, in an `int`. -/
def totalLength (frags : List (Nat × Nat)) : Int :=
  frags.foldl (fun total frag => int32 (total + frag.2)) 0

/-- The fields that `lib_md_build` sets whatever the memory is. -/
def newMd (umd : Umd) (unlink : Bool) (length : Nat) : Md where
  me := none
  offset := 0
  length := length
  maxSize := (umd.maxSize % 2 ^ 32).toNat
  threshold := umd.threshold
  refcount := 0
  options := umd.options
  zombie := false
  autoUnlink := unlink
  eq := umd.eq

/-- The test of `max_size`. -/
def badMaxSize (umd : Umd) (length : Int) : Bool :=
  umd.options.maxSize ∧ (umd.maxSize < 0 ∨ umd.maxSize > length)

/-- `lib_md_build` of a kernel. -/
def libMdBuild (umd : Umd) (unlink : Bool) : Except Int Md :=
  if umd.options.iovec then
    if umd.options.kiov then .error einval
    else if umd.frags.any (fun frag => frag.2 = 0) then .error einval
    else if badMaxSize umd (totalLength umd.frags) then .error einval
    else .ok (newMd umd unlink (totalLength umd.frags % 2 ^ 32).toNat)
  else if umd.options.kiov then
    if umd.frags.any (fun frag => u32 (frag.1 + frag.2) > cfsPageSize) then .error einval
    else if badMaxSize umd (totalLength umd.frags) then .error einval
    else .ok (newMd umd unlink (totalLength umd.frags % 2 ^ 32).toNat)
  else if badMaxSize umd (int32 umd.length.toNat) then .error einval
  else .ok (newMd umd unlink umd.length.toNat)

/-! ### Using it -/

/-- `lnet_md_exhausted`. -/
def Md.exhausted (md : Md) : Bool :=
  md.threshold = 0 ∨ md.options.maxSize ∧ u32 (md.offset + md.maxSize) > md.length

/-- `lnet_md_unlinkable`. -/
def Md.unlinkable (md : Md) : Bool :=
  md.refcount = 0 ∧ (md.zombie ∨ md.autoUnlink ∧ md.exhausted)

/-- `lnet_commit_md`, as far as the descriptor goes. -/
def lnetCommitMd (md : Md) : Except LnetFault Md :=
  let md := { md with refcount := md.refcount + 1 }
  if md.threshold = lnetMdThreshInf then .ok md
  else if md.threshold > 0 then .ok { md with threshold := md.threshold - 1 }
  else .error .threshold

/-- What `lnet_try_match_md` returns; a match with the descriptor after it, the offset and `mlength`. -/
inductive MatchMd where
  | none
  | drop
  | ok (md : Md) (offset mlength : Nat)
deriving DecidableEq, Repr

/-- The tests of `lnet_try_match_md` that decide whether a header is for the descriptor. -/
def selects (me : Me) (md : Md) (hdr : Hdr) : Bool :=
  md.options.allows hdr.op ∧ ¬ md.exhausted ∧
    (me.matchId.nid = lnetNidAny ∨ me.matchId.nid = hdr.src.nid) ∧
    (me.matchId.pid = lnetPidAny ∨ me.matchId.pid = hdr.src.pid) ∧
    (me.matchBits ^^^ hdr.matchBits) &&& ~~~ me.ignoreBits = 0

/-- Where the data goes. -/
def matchOffset (md : Md) (hdr : Hdr) : Nat :=
  if md.options.manageRemote then hdr.offset.toNat else md.offset

/-- The length allowed at an offset. -/
def allowedLength (md : Md) (offset : Nat) : Nat :=
  if md.options.maxSize then md.maxSize else u32 (md.length + 2 ^ 32 - offset)

/-- The descriptor takes `mlength` bytes at `offset`. -/
def commitMatch (md : Md) (offset mlength : Nat) : Except LnetFault MatchMd :=
  match lnetCommitMd md with
  | .error fault => .error fault
  | .ok md => .ok (.ok { md with offset := u32 (offset + mlength) } offset mlength)

/-- `lnet_try_match_md` up to the automatic unlink. -/
def lnetTryMatchMd (me : Me) (md : Md) (hdr : Hdr) : Except LnetFault MatchMd :=
  if ¬ selects me md hdr then .ok .none
  else if md.options.maxSize ∧ ¬ u32 (md.offset + md.maxSize) ≤ md.length then
    .error .matchOffset
  else if hdr.length.toNat ≤ allowedLength md (matchOffset md hdr) then
    commitMatch md (matchOffset md hdr) hdr.length.toNat
  else if ¬ md.options.truncate then .ok .drop
  else commitMatch md (matchOffset md hdr) (allowedLength md (matchOffset md hdr))

open Run

/-- A header arrives for the descriptor of an entry; one exhausted by it that unlinks itself is off the
entry then. -/
def receiveHdr (me : Me) (md : Md) (hdr : Hdr) : Except LnetFault Md :=
  if md.zombie then .ok md
  else
    match lnetTryMatchMd me md hdr with
    | .error fault => .error fault
    | .ok .none => .ok md
    | .ok .drop => .ok md
    | .ok (.ok md _ _) => .ok { md with zombie := md.autoUnlink && md.exhausted }

/-- A match lies inside the descriptor and is no longer than asked for, and the offset stays inside. -/
def WithinMd (md : Md) (hdr : Hdr) : Except LnetFault MatchMd → Prop
  | .ok (.ok after offset mlength) =>
    offset + mlength ≤ md.length ∧ mlength ≤ hdr.length.toNat ∧ after.offset ≤ after.length
  | .ok .none => True
  | .ok .drop => True
  | .error fault => fault ≠ .matchOffset

/-- A header that meets a descriptor on its match entry stays inside it. -/
def Inside (me : Me) (md : Md) (hdr : Hdr) : Prop :=
  md.zombie = false → WithinMd md hdr (lnetTryMatchMd me md hdr)

/-- An accepted header for a remotely managed descriptor names an offset with room for what `max_size`
lets through. -/
def Covered (me : Me) (md : Md) (hdr : Hdr) : Prop :=
  md.zombie = false → selects me md hdr → md.options.manageRemote → -1 ≤ md.threshold →
    if md.options.maxSize then
      (hdr.length.toNat ≤ md.maxSize ∨ md.options.truncate) →
        hdr.offset.toNat + min hdr.length.toNat md.maxSize ≤ md.length
    else
      (hdr.length.toNat ≤ u32 (md.length + 2 ^ 32 - hdr.offset.toNat) ∨ md.options.truncate) →
        hdr.offset.toNat ≤ md.length

/-- The offset is inside the descriptor and `max_size` fits in it. -/
structure Sized (md : Md) : Prop where
  word : md.length < 2 ^ 32
  offset : md.offset ≤ md.length
  maxSize : md.options.maxSize → md.maxSize ≤ md.length ∧ md.length < 2 ^ 31

theorem totalLength_range (frags : List (Nat × Nat)) :
    -2 ^ 31 ≤ totalLength frags ∧ totalLength frags < 2 ^ 31 := by
  unfold totalLength
  rcases List.eq_nil_or_concat frags with rfl | ⟨front, last, rfl⟩
  · simp
  · rw [List.concat_eq_append, List.foldl_append]
    exact int32_range _

/-- `max_size` of a descriptor that is built fits in its length. -/
theorem newMd_sized {umd : Umd} {unlink : Bool} {total : Int} {length : Nat}
    (good : badMaxSize umd total = false) (same : (length : Int) = total % 2 ^ 32)
    (range : total < 2 ^ 31) : Sized (newMd umd unlink length) where
  word := by
    show length < 2 ^ 32
    omega
  offset := Nat.zero_le _
  maxSize := by
    intro used
    have uses : umd.options.maxSize = true := used
    simp only [badMaxSize, uses, true_and, decide_eq_false_iff_not, not_or, Int.not_lt,
      gt_iff_lt] at good
    show (umd.maxSize % 2 ^ 32).toNat ≤ length ∧ length < 2 ^ 31
    omega

variable {md : Md}

theorem sized_of_build {umd : Umd} {unlink : Bool} (built : libMdBuild umd unlink = .ok md) :
    Sized md := by
  have range := totalLength_range umd.frags
  unfold libMdBuild at built
  split at built
  · split at built
    · cases built
    split at built
    · cases built
    split at built
    · cases built
    · rename_i good
      cases built
      exact newMd_sized (Bool.eq_false_iff.mpr good) (Int.toNat_of_nonneg (by omega)) range.2
  split at built
  · split at built
    · cases built
    split at built
    · cases built
    · rename_i good
      cases built
      exact newMd_sized (Bool.eq_false_iff.mpr good) (Int.toNat_of_nonneg (by omega)) range.2
  split at built
  · cases built
  · rename_i good
    cases built
    have word := umd.length.toNat_lt
    have reading := int32_range umd.length.toNat
    have residue := int32_emod umd.length.toNat
    exact newMd_sized (Bool.eq_false_iff.mpr good) (by omega) reading.2

variable {hdr : Hdr} {me : Me}

theorem not_exhausted (selected : selects me md hdr) :
    md.threshold ≠ 0 ∧ (md.options.maxSize → u32 (md.offset + md.maxSize) ≤ md.length) := by
  grind [selects, Md.exhausted]

/-- A descriptor that can be used takes the data, and nothing else of it changes. -/
theorem commitMatch_ok (usable : -1 ≤ md.threshold) (left : md.threshold ≠ 0) (offset mlength : Nat)
    : ∃ after, commitMatch md offset mlength = .ok (.ok after offset mlength) ∧
      after.offset = u32 (offset + mlength) ∧ after.length = md.length ∧ after.maxSize = md.maxSize ∧
      after.options = md.options := by
  grind [commitMatch, lnetCommitMd, lnetMdThreshInf]

theorem commitMatch_negative (bad : md.threshold < -1) (offset mlength : Nat) :
    commitMatch md offset mlength = .error .threshold := by
  unfold commitMatch lnetCommitMd
  dsimp only
  rw [if_neg (by unfold lnetMdThreshInf; omega), if_neg (by omega)]

/-- A header for the descriptor is taken at its offset with the shorter of the two lengths, or dropped. -/
theorem lnetTryMatchMd_selected (selected : selects me md hdr) :
    lnetTryMatchMd me md hdr =
      if hdr.length.toNat ≤ allowedLength md (matchOffset md hdr) ∨ md.options.truncate then
        commitMatch md (matchOffset md hdr)
          (min hdr.length.toNat (allowedLength md (matchOffset md hdr)))
      else .ok .drop := by
  have room := (not_exhausted selected).2
  unfold lnetTryMatchMd
  rw [if_neg (not_not.mpr selected), if_neg (fun full => full.2 (room full.1))]
  by_cases fits : hdr.length.toNat ≤ allowedLength md (matchOffset md hdr)
  · rw [if_pos fits, if_pos (.inl fits), min_eq_left fits]
  rw [if_neg fits, min_eq_right (le_of_lt (not_le.mp fits))]
  by_cases cut : md.options.truncate = true
  · rw [if_neg (not_not.mpr cut), if_pos (.inr cut)]
  · rw [if_pos cut, if_neg (fun either => either.elim fits cut)]

/-- The offset of a locally managed descriptor leaves room for what is allowed. -/
theorem local_offset_inside (sized : Sized md) (selected : selects me md hdr)
    (here : md.options.manageRemote = false) :
    matchOffset md hdr + min hdr.length.toNat (allowedLength md (matchOffset md hdr)) ≤ md.length := by
  have offset : matchOffset md hdr = md.offset := if_neg (by rw [here]; decide)
  have start := sized.offset
  unfold allowedLength
  by_cases limited : md.options.maxSize = true
  · have room := (not_exhausted selected).2 limited
    have small := sized.maxSize limited
    rw [if_pos limited]
    unfold u32 at room
    omega
  · rw [if_neg limited]
    unfold u32
    omega

/-- For a remotely managed descriptor the offset of the header decides. -/
theorem remote_offset_inside_iff (remote : md.options.manageRemote = true) :
    (hdr.length.toNat ≤ allowedLength md (matchOffset md hdr) ∨ md.options.truncate = true →
      matchOffset md hdr + min hdr.length.toNat (allowedLength md (matchOffset md hdr)) ≤ md.length) ↔
    if md.options.maxSize then
      (hdr.length.toNat ≤ md.maxSize ∨ md.options.truncate) →
        hdr.offset.toNat + min hdr.length.toNat md.maxSize ≤ md.length
    else
      (hdr.length.toNat ≤ u32 (md.length + 2 ^ 32 - hdr.offset.toNat) ∨ md.options.truncate) →
        hdr.offset.toNat ≤ md.length := by
  grind [matchOffset, allowedLength, u32]

theorem inside_iff_covered (sized : Sized md) : Inside me md hdr ↔ Covered me md hdr := by
  refine imp_congr_right fun _ => ?_
  by_cases selected : selects me md hdr = true
  swap
  · rw [lnetTryMatchMd, if_pos selected]
    exact ⟨fun _ other => absurd other selected, fun _ => trivial⟩
  rw [lnetTryMatchMd_selected selected]
  by_cases accepted : hdr.length.toNat ≤ allowedLength md (matchOffset md hdr) ∨
      md.options.truncate = true
  swap
  · rw [if_neg accepted]
    refine ⟨fun _ _ remote _ => ?_, fun _ => trivial⟩
    exact (remote_offset_inside_iff remote).mp fun other => absurd other accepted
  rw [if_pos accepted]
  by_cases usable : -1 ≤ md.threshold
  swap
  · rw [commitMatch_negative (by omega)]
    exact ⟨fun _ _ _ other => absurd other usable, fun _ => nofun⟩
  obtain ⟨after, taken, offset, length, _, _⟩ := commitMatch_ok usable (not_exhausted selected).1
    (matchOffset md hdr) (min hdr.length.toNat (allowedLength md (matchOffset md hdr)))
  rw [taken]
  constructor
  · rintro ⟨inside, _, _⟩ _ remote _
    exact (remote_offset_inside_iff remote).mp fun _ => inside
  · intro covered
    have inside : matchOffset md hdr +
        min hdr.length.toNat (allowedLength md (matchOffset md hdr)) ≤ md.length := by
      by_cases remote : md.options.manageRemote = true
      · exact (remote_offset_inside_iff remote).mpr (covered selected remote usable) accepted
      · exact local_offset_inside sized selected (Bool.eq_false_iff.mpr remote)
    refine ⟨inside, min_le_left _ _, ?_⟩
    rw [offset, length]
    exact le_trans (Nat.mod_le _ _) inside

/-- A header that stays inside leaves a descriptor of the same size, its offset inside. -/
theorem Sized.receiveHdr {after : Md} (sized : Sized md) (covered : Covered me md hdr)
    (taken : receiveHdr me md hdr = .ok after) : Sized after := by
  have inside := (inside_iff_covered sized).mpr covered
  unfold Lnet.receiveHdr at taken
  by_cases zombie : md.zombie = true
  · rw [if_pos zombie] at taken
    cases taken
    exact sized
  rw [if_neg zombie] at taken
  have within := inside (Bool.eq_false_iff.mpr zombie)
  by_cases selected : selects me md hdr = true
  swap
  · rw [lnetTryMatchMd, if_pos selected] at taken
    cases taken
    exact sized
  rw [lnetTryMatchMd_selected selected] at taken within
  split at taken
  · cases taken
  · cases taken
    exact sized
  · cases taken
    exact sized
  · rename_i result used offset mlength met
    rw [met] at within
    split at met
    · rcases Int.lt_or_le md.threshold (-1) with bad | usable
      · rw [commitMatch_negative bad] at met
        cases met
      · obtain ⟨other, committed, _, length, maxSize, options⟩ := commitMatch_ok usable
          (not_exhausted selected).1 (matchOffset md hdr)
          (min hdr.length.toNat (allowedLength md (matchOffset md hdr)))
        rw [committed] at met
        cases met
        cases taken
        refine ⟨?_, within.2.2, fun limited => ?_⟩
        · rw [length]
          exact sized.word
        · have limited' : md.options.maxSize = true := options ▸ limited
          rw [length, maxSize]
          exact sized.maxSize limited'
    · cases met

/-- Along every sequence of headers each match of a descriptor and its offset stay inside it, and no
assertion on the offset fails, exactly if every header for a remotely managed one names an offset inside
it. -/
theorem matches_inside_iff (umd : Umd) (unlink : Bool) (me : Me) (hdrs : List Hdr) (md : Md)
    (built : libMdBuild umd unlink = .ok md) :
    Meets (receiveHdr me) (Inside me) md hdrs ↔ Meets (receiveHdr me) (Covered me) md hdrs := by
  have agree : ∀ md hdr, Sized md → (Inside me md hdr ↔ Covered me md hdr) :=
    fun _ _ sized => inside_iff_covered sized
  have keep : ∀ md hdr after, Sized md → Covered me md hdr → receiveHdr me md hdr = .ok after →
      Sized after := fun _ _ _ sized covered taken => sized.receiveHdr covered taken
  exact meets_iff agree keep (sized_of_build built)

/-- A descriptor of sixteen bytes that takes what fits at an offset of the sender's choice. -/
def remoteUmd : Umd :=
  ⟨16, -1, 0, ⟨true, false, true, true, false, false, false⟩, [], none⟩

/-- A match entry for everything. -/
def anyMe : Me := ⟨0, ⟨lnetNidAny, lnetPidAny⟩, 0, 0xffffffffffffffff, false, some 0⟩

/-- A PUT of the given length at the given offset. -/
def putAt (length offset : UInt32) : Hdr := ⟨.put, ⟨7, 3⟩, length, offset, 5, 0⟩

/-- Two messages inside the descriptor, the second one cut short. -/
theorem matches_inside_two :
    Meets (receiveHdr anyMe) (Inside anyMe) (newMd remoteUmd false 16) [putAt 4 12, putAt 20 8] := by
  refine (matches_inside_iff remoteUmd false anyMe [putAt 4 12, putAt 20 8]
    (newMd remoteUmd false 16) rfl).mpr ?_
  refine ⟨fun _ _ _ _ _ => by decide, fun after taken => ⟨fun _ _ _ _ => ?_, fun _ _ => trivial⟩⟩
  cases taken
  exact fun _ => by decide

/-- An offset behind the end is taken: four bytes land past the descriptor. -/
theorem remote_offset_leaves_descriptor :
    ¬ Meets (receiveHdr anyMe) (Inside anyMe) (newMd remoteUmd false 16) [putAt 4 20] := by
  rintro ⟨inside, _⟩
  have within := (inside rfl).1
  exact absurd within (by decide)

/-! ### The state -/

/-- A place of memory: not used yet, in use, or freed with the contents it had. -/
inductive Slot (α : Type) where
  | unused
  | live (a : α)
  | freed (a : α)
deriving DecidableEq, Repr

/-- An incoming PUT or GET. -/
structure Msg where
  id : Nat
  hdr : Hdr
deriving DecidableEq, Repr

/-- A PUT without a match, received early with the lock dropped; `version` is the old `ptl_ml_version`. -/
structure EagerMsg where
  msg : Msg
  version : Nat
deriving DecidableEq, Repr

/-- `lnet_event_kind_t`. -/
inductive EventKind where
  | get
  | put
  | reply
  | ack
  | sendPut
  | sendGet
  | unlink
deriving DecidableEq, Repr

/-- An operation in progress: `msg_md` and the kind of its event; `LNET_EVENT_SEND` tells a PUT from a
GET here. -/
structure ActiveMsg where
  id : Nat
  md : Nat
  kind : EventKind
deriving DecidableEq, Repr

/-- What is enqueued of an event: the descriptor, the kind and `unlinked`. -/
structure Event where
  md : Nat
  kind : EventKind
  unlinked : Bool
deriving DecidableEq, Repr

/-- What becomes of an incoming message: a descriptor takes it, the search or a descriptor attached later
drops it, the early receive fails, or the portal is no longer lazy. -/
inductive Fate where
  | matched (md : Nat)
  | refused
  | badMatch
  | notReceived
  | lazyCleared
deriving DecidableEq, Repr

/-- `lnet_portal_t`. -/
structure Portal where
  lazy : Bool
  unique : Bool
  wildcard : Bool
  mlist : List Nat
  mhash : Nat → List Nat
  msgq : List Msg
  mlVersion : Nat

/-- `the_lnet`, with the messages under way, the events enqueued and what became of incoming messages. -/
structure Node where
  nportals : Nat
  portals : Nat → Portal
  mes : Nat → Slot Me
  mds : Nat → Slot Md
  eager : List EagerMsg
  active : List ActiveMsg
  events : List Event
  fates : List (Nat × Fate)
  nextMe : Nat
  nextMd : Nat
  nextMsg : Nat
  shutdown : Bool

namespace Node

def setMe (s : Node) (m : Nat) (me : Slot Me) : Node :=
  { s with mes := fun i => if i = m then me else s.mes i }

def setMd (s : Node) (d : Nat) (md : Slot Md) : Node :=
  { s with mds := fun i => if i = d then md else s.mds i }

def setPortal (s : Node) (p : Nat) (ptl : Portal) : Node :=
  { s with portals := fun i => if i = p then ptl else s.portals i }

def addFate (s : Node) (id : Nat) (fate : Fate) : Node :=
  { s with fates := (id, fate) :: s.fates }

def addEvent (s : Node) (event : Event) : Node := { s with events := s.events ++ [event] }

end Node

/-! ### Unlinking -/

/-- `cfs_list_del` of `me_list`. -/
def Portal.unlist (ptl : Portal) (m : Nat) : Portal :=
  { ptl with
    mlist := ptl.mlist.filter (· ≠ m)
    mhash := fun h => (ptl.mhash h).filter (· ≠ m) }

/-- `lnet_me_unlink` of an entry whose descriptor is off. -/
def dropMe (s : Node) (m : Nat) (me : Me) : Node :=
  { s.setMe m (.freed me) with portals := fun p => (s.portals p).unlist m }

/-- The entry of a descriptor that goes. -/
def detachMe (s : Node) (m : Nat) (me : Me) : Node :=
  if me.unlink then dropMe s m { me with md := none }
  else s.setMe m (.live { me with md := none })

/-- The end of `lnet_md_unlink`: a busy descriptor stays until it is finalized. -/
def releaseMd (s : Node) (d : Nat) (md : Md) : Node :=
  if md.refcount ≠ 0 then s.setMd d (.live md) else s.setMd d (.freed md)

/-- `lnet_md_unlink`. -/
def lnetMdUnlink (s : Node) (d : Nat) : Except LnetFault Node :=
  match s.mds d with
  | .live md =>
    if md.zombie then .ok (releaseMd s d md)
    else
      match md.me with
      | none => .ok (releaseMd s d { md with zombie := true })
      | some m =>
        match s.mes m with
        | .live me => .ok (releaseMd (detachMe s m me) d { md with zombie := true, me := none })
        | _ => .error .dangling
  | _ => .error .dangling

/-- `lnet_me_unlink`. -/
def lnetMeUnlink (s : Node) (m : Nat) (me : Me) : Except LnetFault Node :=
  match me.md with
  | none => .ok (dropMe s m me)
  | some d =>
    match s.mds d with
    | .live md => lnetMdUnlink ((dropMe s m me).setMd d (.live { md with me := none })) d
    | _ => .error .dangling

/-- `LNetMDUnlink`; the handle of a zombie is not found. -/
def lnetMDUnlink (s : Node) (d : Nat) : Except LnetFault Node :=
  match s.mds d with
  | .live md =>
    if md.zombie then .ok s
    else if md.eq.isSome ∧ md.refcount = 0 then lnetMdUnlink (s.addEvent ⟨d, .unlink, true⟩) d
    else lnetMdUnlink s d
  | _ => .ok s

/-- The descriptor of an entry, when it has an event queue and nothing is in progress. -/
def idleMd (s : Node) (me : Me) : Option Nat :=
  match me.md with
  | none => none
  | some d =>
    match s.mds d with
    | .live md => if md.eq.isSome ∧ md.refcount = 0 then some d else none
    | _ => none

/-- `LNetMEUnlink`. -/
def lnetMEUnlink (s : Node) (m : Nat) : Except LnetFault Node :=
  match s.mes m with
  | .live me =>
    match idleMd s me with
    | some d => lnetMeUnlink (s.addEvent ⟨d, .unlink, true⟩) m me
    | none => lnetMeUnlink s m me
  | _ => .ok s

/-- What `lnet_match_md` finds; a match comes with the descriptor after it. -/
inductive Found where
  | none
  | drop
  | ok (d : Nat) (md : Md)
deriving DecidableEq, Repr

/-- `lnet_match_to_hash`. -/
def lnetMatchToHash (hashLong : UInt64 → Nat) (id : ProcessId) (matchBits : UInt64) : Nat :=
  hashLong (matchBits + (id.nid + id.pid.toUInt64))

/-- `lnet_portal_me_head`; a portal of neither kind has no entries. -/
def Portal.meHead (hashLong : UInt64 → Nat) (ptl : Portal) (id : ProcessId)
    (matchBits : UInt64) : List Nat :=
  if ptl.wildcard then ptl.mlist
  else if ptl.unique then ptl.mhash (lnetMatchToHash hashLong id matchBits)
  else []

/-- The loop of `lnet_match_md`. -/
def matchLoop (s : Node) (hdr : Hdr) : List Nat → Except LnetFault Found
  | [] => .ok .none
  | m :: rest =>
    match s.mes m with
    | .live me =>
      match me.md with
      | none => matchLoop s hdr rest
      | some d =>
        match s.mds d with
        | .live md =>
          if md.me ≠ some m then .error .dangling
          else
            match lnetTryMatchMd me md hdr with
            | .error fault => .error fault
            | .ok .none => matchLoop s hdr rest
            | .ok .drop => .ok .drop
            | .ok (.ok md _ _) => .ok (.ok d md)
        | _ => .error .dangling
    | _ => .error .dangling

/-- `lnet_match_md`. -/
def lnetMatchMd (hashLong : UInt64 → Nat) (s : Node) (hdr : Hdr) : Except LnetFault Found :=
  if hdr.portal ≥ s.nportals then .ok .drop
  else
    match matchLoop s hdr ((s.portals hdr.portal).meHead hashLong hdr.src hdr.matchBits) with
    | .ok .none =>
      if hdr.op = .get ∨ ¬ (s.portals hdr.portal).lazy then .ok .drop else .ok .none
    | other => other

/-- The end of `lnet_try_match_md`: the message holds the descriptor, which is unlinked if exhausted and
made so. -/
def takeMatch (s : Node) (id : Nat) (kind : EventKind) (d : Nat) (md : Md) :
    Except LnetFault Node :=
  let taken := { (s.setMd d (.live md)).addFate id (.matched d) with
    active := ⟨id, d, kind⟩ :: s.active }
  if md.autoUnlink ∧ md.exhausted then lnetMdUnlink taken d else .ok taken

/-- A message waits on a lazy portal. -/
def queueMsg (s : Node) (msg : Msg) : Node :=
  s.setPortal msg.hdr.portal { s.portals msg.hdr.portal with
    msgq := (s.portals msg.hdr.portal).msgq ++ [msg] }

/-- `lnet_parse_put` of a message received already: without a match it waits, unless the node shuts down. -/
def parseDelayed (hashLong : UInt64 → Nat) (s : Node) (msg : Msg) : Except LnetFault Node :=
  match lnetMatchMd hashLong s msg.hdr with
  | .error fault => .error fault
  | .ok (.ok d md) => takeMatch s msg.id .put d md
  | .ok .drop => .ok (s.addFate msg.id .refused)
  | .ok .none =>
    if s.shutdown then .ok (s.addFate msg.id .refused) else .ok (queueMsg s msg)

/-- `lnet_parse_put`; `eager` says whether the driver has `lnd_eager_recv`. -/
def lnetParsePut (hashLong : UInt64 → Nat) (s : Node) (msg : Msg) (eager : Bool) :
    Except LnetFault Node :=
  if eager then
    match lnetMatchMd hashLong s msg.hdr with
    | .error fault => .error fault
    | .ok (.ok d md) => takeMatch s msg.id .put d md
    | .ok .drop => .ok (s.addFate msg.id .refused)
    | .ok .none =>
      .ok { s with eager := ⟨msg, (s.portals msg.hdr.portal).mlVersion⟩ :: s.eager }
  else parseDelayed hashLong s msg

/-- `lnet_parse_put` behind `lnd_eager_recv`; a descriptor attached in between changes the version and
restarts the search. -/
def resumePut (hashLong : UInt64 → Nat) (s : Node) (early : EagerMsg) (received : Bool) :
    Except LnetFault Node :=
  if received ∧ ¬ s.shutdown ∧ (s.portals early.msg.hdr.portal).lazy then
    if early.version ≠ (s.portals early.msg.hdr.portal).mlVersion then
      parseDelayed hashLong s early.msg
    else .ok (queueMsg s early.msg)
  else .ok (s.addFate early.msg.id .notReceived)

/-- `lnet_parse_get`. -/
def lnetParseGet (hashLong : UInt64 → Nat) (s : Node) (msg : Msg) : Except LnetFault Node :=
  match lnetMatchMd hashLong s msg.hdr with
  | .error fault => .error fault
  | .ok (.ok d md) => takeMatch s msg.id .get d md
  | .ok .drop => .ok (s.addFate msg.id .refused)
  | .ok .none => .error .getUnmatched

/-! ### Attaching -/

/-- `lnet_match_is_unique`. -/
def lnetMatchIsUnique (matchId : ProcessId) (ignoreBits : UInt64) : Bool :=
  ignoreBits = 0 ∧ matchId.nid ≠ lnetNidAny ∧ matchId.pid ≠ lnetPidAny

/-- `lnet_me_match_portal`: the first entry decides the kind of a portal, and no other is accepted then. -/
def lnetMeMatchPortal (ptl : Portal) (unique : Bool) : Option Portal :=
  if ptl.unique ∨ ptl.wildcard then
    if ptl.unique ∧ ¬ unique ∨ ptl.wildcard ∧ unique then none else some ptl
  else if unique then some { ptl with unique := true }
  else some { ptl with wildcard := true }

/-- `cfs_list_add_tail` or `cfs_list_add`. -/
def addAtEnd (after : Bool) (m : Nat) (list : List Nat) : List Nat :=
  if after then list ++ [m] else m :: list

/-- A new entry on the list of its match. -/
def Portal.addMe (hashLong : UInt64 → Nat) (ptl : Portal) (m : Nat) (me : Me) (after : Bool) :
    Portal :=
  if ptl.wildcard then { ptl with mlist := addAtEnd after m ptl.mlist }
  else
    { ptl with mhash := fun h =>
        if h = lnetMatchToHash hashLong me.matchId me.matchBits then
          addAtEnd after m (ptl.mhash h)
        else ptl.mhash h }

/-- `LNetMEAttach`. -/
def lnetMEAttach (hashLong : UInt64 → Nat) (s : Node) (me : Me) (after : Bool) : Node :=
  if me.portal ≥ s.nportals then s
  else
    match lnetMeMatchPortal (s.portals me.portal) (lnetMatchIsUnique me.matchId me.ignoreBits) with
    | none => s
    | some ptl =>
      { (s.setMe s.nextMe (.live { me with md := none })).setPortal me.portal
          (ptl.addMe hashLong s.nextMe me after) with
        nextMe := s.nextMe + 1 }

/-- `cfs_list_add` or `cfs_list_add_tail` at an entry of a list. -/
def insertAt (after : Bool) (m current : Nat) : List Nat → List Nat
  | [] => []
  | x :: xs =>
    if x = current then
      if after then x :: m :: xs else m :: x :: xs
    else x :: insertAt after m current xs

/-- `LNetMEInsert`. -/
def lnetMEInsert (s : Node) (current : Nat) (new : Me) (after : Bool) : Node :=
  match s.mes current with
  | .live me =>
    if (s.portals me.portal).unique then s
    else
      { (s.setMe s.nextMe (.live { new with md := none, portal := me.portal })).setPortal me.portal
          { s.portals me.portal with
            mlist := insertAt after s.nextMe current (s.portals me.portal).mlist } with
        nextMe := s.nextMe + 1 }
  | _ => s

/-- The loop of `lnet_match_blocked_msg`, with the messages that keep waiting; behind the one that
exhausts the descriptor none is tried. -/
def blockedLoop (d : Nat) (me : Me) : List Msg → Node → Except LnetFault (Node × List Msg)
  | [], s => .ok (s, [])
  | msg :: rest, s =>
    match s.mds d with
    | .live md =>
      match lnetTryMatchMd me md msg.hdr with
      | .error fault => .error fault
      | .ok .none =>
        match blockedLoop d me rest s with
        | .error fault => .error fault
        | .ok (s, kept) => .ok (s, msg :: kept)
      | .ok .drop => blockedLoop d me rest (s.addFate msg.id .badMatch)
      | .ok (.ok md _ _) =>
        match takeMatch s msg.id .put d md with
        | .error fault => .error fault
        | .ok s => if md.exhausted then .ok (s, rest) else blockedLoop d me rest s
    | _ => .error .dangling

/-- `lnet_match_blocked_msg`. -/
def lnetMatchBlockedMsg (s : Node) (d : Nat) (me : Me) : Except LnetFault Node :=
  if ¬ (s.portals me.portal).lazy then
    if (s.portals me.portal).msgq ≠ [] then .error .blocked else .ok s
  else
    match blockedLoop d me (s.portals me.portal).msgq s with
    | .error fault => .error fault
    | .ok (s, kept) => .ok (s.setPortal me.portal { s.portals me.portal with msgq := kept })

/-- A descriptor is attached to an entry. -/
def linkMd (s : Node) (m : Nat) (me : Me) (md : Md) : Node :=
  { ((s.setMd s.nextMd (.live { md with me := some m })).setMe m
      (.live { me with md := some s.nextMd })).setPortal me.portal
      { s.portals me.portal with mlVersion := (s.portals me.portal).mlVersion + 1 } with
    nextMd := s.nextMd + 1 }

/-- `lnet_md_validate`: at most `LNET_MAX_IOV` fragments. -/
def lnetMdValidate (umd : Umd) : Bool :=
  ¬ ((umd.options.kiov ∨ umd.options.iovec) ∧ umd.frags.length > 256)

/-- `LNetMDAttach`. -/
def lnetMDAttach (s : Node) (m : Nat) (umd : Umd) (unlink : Bool) : Except LnetFault Node :=
  if ¬ lnetMdValidate umd ∨ ¬ (umd.options.opPut ∨ umd.options.opGet) then .ok s
  else
    match s.mes m with
    | .live me =>
      if me.md.isSome then .ok s
      else
        match libMdBuild umd unlink with
        | .error _ => .ok s
        | .ok md =>
          lnetMatchBlockedMsg (linkMd s m me md) s.nextMd { me with md := some s.nextMd }
    | _ => .ok s

/-- `LNetMDBind`. -/
def lnetMDBind (s : Node) (umd : Umd) (unlink : Bool) : Node :=
  if ¬ lnetMdValidate umd ∨ umd.options.opPut ∨ umd.options.opGet then s
  else
    match libMdBuild umd unlink with
    | .error _ => s
    | .ok md => { s.setMd s.nextMd (.live md) with nextMd := s.nextMd + 1 }

/-! ### Operations of bound descriptors -/

/-- An operation holds a descriptor. -/
def startOp (s : Node) (d : Nat) (md : Md) (kind : EventKind) : Except LnetFault Node :=
  match lnetCommitMd md with
  | .error fault => .error fault
  | .ok md =>
    .ok { s.setMd d (.live md) with
      active := ⟨s.nextMsg, d, kind⟩ :: s.active, nextMsg := s.nextMsg + 1 }

/-- The descriptor of a handle that `LNetPut`, `LNetGet`, `lnet_parse_ack` and `lnet_parse_reply` can
use. -/
def boundMd (s : Node) (d : Nat) : Option Md :=
  match s.mds d with
  | .live md => if md.zombie ∨ md.threshold = 0 ∨ md.me.isSome then none else some md
  | _ => none

/-- `LNetPut` and `LNetGet` up to the send. -/
def lnetPutGet (s : Node) (d : Nat) (get : Bool) : Except LnetFault Node :=
  match boundMd s d with
  | none => .ok s
  | some md => startOp s d md (if get then .sendGet else .sendPut)

/-- `lnet_parse_ack`. -/
def lnetParseAck (s : Node) (d : Nat) : Except LnetFault Node :=
  match boundMd s d with
  | none => .ok s
  | some md => startOp s d md .ack

/-- `lnet_parse_reply`; a reply that is too long for the descriptor is dropped. -/
def lnetParseReply (s : Node) (d length : Nat) : Except LnetFault Node :=
  match boundMd s d with
  | none => .ok s
  | some md =>
    if md.offset ≠ 0 then .error .replyOffset
    else if md.length < length ∧ ¬ md.options.truncate then .ok s
    else startOp s d md .reply

/-- `lnet_create_reply_msg` for a GET in progress. -/
def lnetCreateReplyMsg (s : Node) (getMsg : ActiveMsg) : Except LnetFault Node :=
  if getMsg ∉ s.active ∨ getMsg.kind ≠ .sendGet then .ok s
  else
    match s.mds getMsg.md with
    | .live md =>
      if md.threshold = 0 then .ok s
      else if md.offset ≠ 0 then .error .replyOffset
      else startOp s getMsg.md md .reply
    | _ => .error .dangling

/-- `lnet_finalize`, as far as the descriptor goes. -/
def lnetFinalize (s : Node) (msg : ActiveMsg) : Except LnetFault Node :=
  if msg ∉ s.active then .ok s
  else
    match s.mds msg.md with
    | .live old =>
      let md := { old with refcount := old.refcount - 1 }
      if md.refcount < 0 then .error .refcount
      else
        let done := { s.setMd msg.md (.live md) with active := s.active.erase msg }
        let told :=
          if md.eq.isSome then done.addEvent ⟨msg.md, msg.kind, md.unlinkable⟩ else done
        if md.unlinkable then lnetMdUnlink told msg.md else .ok told
    | _ => .error .dangling

/-- `LNetSetLazyPortal`. -/
def lnetSetLazyPortal (s : Node) (p : Nat) : Node :=
  if p ≥ s.nportals then s else s.setPortal p { s.portals p with lazy := true }

/-- `LNetClearLazyPortal`. -/
def lnetClearLazyPortal (s : Node) (p : Nat) : Node :=
  if p ≥ s.nportals ∨ ¬ (s.portals p).lazy then s
  else
    { s.setPortal p { s.portals p with lazy := false, msgq := [] } with
      fates := (s.portals p).msgq.map (fun msg => (msg.id, .lazyCleared)) ++ s.fates }

/-- What happens with the lock taken once. -/
inductive LnetOp where
  | meAttach (me : Me) (after : Bool)
  | meInsert (current : Nat) (me : Me) (after : Bool)
  | mdAttach (m : Nat) (umd : Umd) (unlink : Bool)
  | mdBind (umd : Umd) (unlink : Bool)
  | mdUnlink (d : Nat)
  | meUnlink (m : Nat)
  | setLazy (p : Nat)
  | clearLazy (p : Nat)
  | shutdown
  | arrive (hdr : Hdr) (eager : Bool)
  | resume (early : EagerMsg) (received : Bool)
  | putGet (d : Nat) (get : Bool)
  | ack (d : Nat)
  | reply (d length : Nat)
  | createReply (getMsg : ActiveMsg)
  | finalize (msg : ActiveMsg)
deriving DecidableEq, Repr

/-- An incoming PUT or GET. -/
def lnetParse (hashLong : UInt64 → Nat) (s : Node) (hdr : Hdr) (eager : Bool) :
    Except LnetFault Node :=
  let next := { s with nextMsg := s.nextMsg + 1 }
  match hdr.op with
  | .put => lnetParsePut hashLong next ⟨s.nextMsg, hdr⟩ eager
  | .get => lnetParseGet hashLong next ⟨s.nextMsg, hdr⟩

/-- One of them. -/
def lnetStep (hashLong : UInt64 → Nat) (s : Node) : LnetOp → Except LnetFault Node
  | .meAttach me after => .ok (lnetMEAttach hashLong s me after)
  | .meInsert current me after => .ok (lnetMEInsert s current me after)
  | .mdAttach m umd unlink => lnetMDAttach s m umd unlink
  | .mdBind umd unlink => .ok (lnetMDBind s umd unlink)
  | .mdUnlink d => lnetMDUnlink s d
  | .meUnlink m => lnetMEUnlink s m
  | .setLazy p => .ok (lnetSetLazyPortal s p)
  | .clearLazy p => .ok (lnetClearLazyPortal s p)
  | .shutdown => .ok { s with shutdown := true }
  | .arrive hdr eager => lnetParse hashLong s hdr eager
  | .resume early received =>
    if early ∈ s.eager then resumePut hashLong { s with eager := s.eager.erase early } early received
    else .ok s
  | .putGet d get => lnetPutGet s d get
  | .ack d => lnetParseAck s d
  | .reply d length => lnetParseReply s d length
  | .createReply getMsg => lnetCreateReplyMsg s getMsg
  | .finalize msg => lnetFinalize s msg

/-- A node without entries. -/
def newNode (nportals : Nat) : Node :=
  ⟨nportals, fun _ => ⟨false, false, false, [], fun _ => [], [], 0⟩, fun _ => .unused,
    fun _ => .unused, [], [], [], [], 0, 0, 0, false⟩

end Lnet
