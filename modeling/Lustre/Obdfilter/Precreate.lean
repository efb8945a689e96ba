/-
Module: Lustre.Obdfilter.Precreate
Purpose: Object creation and destruction on the server of one group: `filter_handle_precreate`.
Trusted boundary: what the disk and the file system answer is a parameter; requests with
  `OBD_FL_RECREATE_OBJS` take another path of `filter_create`
-/
import Lustre.Lib.Bytes

namespace Obdfilter

open Bytes

/-- `OST_MAX_PRECREATE`. -/
def ostMaxPrecreate : Int := 20000

/-- `fid_seq_is_mdt0`. -/
def fidSeqIsMdt0 (seq : Nat) : Bool := seq = 0

/-- `fid_seq_is_mdt`: `FID_SEQ_OST_MDT0`, or between `FID_SEQ_OST_MDT1` and
`FID_SEQ_OST_MAX`. -/
def fidSeqIsMdt (seq : Nat) : Bool := seq = 0 ∨ 3 ≤ seq ∧ seq ≤ 9

/-- `IDIF_MAX_OID` and `OBIF_MAX_OID`. -/
def maxOid (group : Nat) : Nat := if fidSeqIsMdt0 group then 2 ^ 48 else 2 ^ 32

/-- `-EINVAL`. -/
def einval : Int := -22

/-- `-EAGAIN`. -/
def eagain : Int := -11

/-- `-ENOSPC`. -/
def enospc : Int := -28

/-- What `struct filter_obd` and the disk hold of a group: `fo_last_objids`, the sizes of its objects,
and the bit of `fo_destroys_in_progress`. -/
structure FilterObd where
  lastId : Nat
  objects : Nat → Option Nat
  destroysInProgress : Bool

/-- `exp_conn_cnt`, and whether `OBD_CONNECT_SKIP_ORPHAN` was agreed on. -/
structure Export where
  connCnt : Nat
  skipOrphan : Bool
deriving DecidableEq, Repr

/-- A request: `OBD_FL_DELORPHAN`, `o_id`, the group and `oti_conn_cnt`. -/
structure CreateReq where
  delorphan : Bool
  oId : Nat
  group : Nat
  connCnt : Nat
deriving DecidableEq, Repr

/-- What a round of `filter_precreate` meets: whether an orphan request sets `fo_destroys_in_progress`,
the results of the lookup, `fsfilt_start_log`, `ll_vfs_create` or `filter_use_existing_obj`,
`filter_update_last_objid` and `fsfilt_commit`, whether an existing object is marked, and whether the
time is up. -/
structure RoundIo where
  destroyAsked : Bool
  lookup : Int
  start : Int
  create : Int
  marked : Bool
  update : Int
  commit : Int
  slow : Bool
deriving DecidableEq, Repr

/-- What a request meets: the check of the free space, the rounds, each `filter_destroy`, and the
last `filter_update_last_objid`. -/
structure FilterIo where
  statfs : Int
  round : Nat → RoundIo
  destroy : Nat → Int
  update : Int

/-- The assertions of these functions. -/
inductive FilterFault where
  /-- `LASSERTF(diff >= 0)` -/
  | diffNegative
  /-- `LBUG` on an object with data behind `LAST_ID` -/
  | objectExists
deriving DecidableEq, Repr

/-- What a request ends with: the return code, `o_id` of the reply, the group, the objects
`filter_destroy` was called for, and those created. -/
structure Outcome where
  rc : Int
  oId : Nat
  filter : FilterObd
  destroyed : List Nat
  created : List Nat

/-- An object with the given size, or none. -/
def FilterObd.setObject (filter : FilterObd) (id : Nat) (size : Option Nat) : FilterObd :=
  { filter with objects := fun i => if i = id then size else filter.objects i }

/-- `filter_destroy`; an error other than `-ENOENT` leaves the object. -/
def filterDestroy (rc : Int) (filter : FilterObd) (id : Nat) : FilterObd :=
  if rc = 0 then filter.setObject id none else filter

/-- `LAST_ID` is written now and then while the objects go. -/
def saveLastId (skipOrphan : Bool) (id : Nat) (filter : FilterObd) : FilterObd :=
  if id % 512 = 0 ∧ ¬ skipOrphan then { filter with lastId := id - 1 } else filter

/-- The loop of `filter_destroy_precreated` from `id` down to `oId`. -/
def destroyLoop (destroy : Nat → Int) (skipOrphan : Bool) (oId : Nat) :
    Nat → FilterObd → FilterObd × List Nat
  | 0, filter => (filter, [])
  | id + 1, filter =>
    if id + 1 > oId then
      let rest := destroyLoop destroy skipOrphan oId id
        (saveLastId skipOrphan (id + 1) (filterDestroy (destroy (id + 1)) filter (id + 1)))
      (rest.1, (id + 1) :: rest.2)
    else (filter, [])

/-- `filter_destroy_precreated` with the bit set.  Behind the loop `id` is `oId`, or `LAST_ID` if not
larger. -/
def filterDestroyPrecreated (exp : Export) (oId : Nat) (io : FilterIo) (filter : FilterObd) :
    Outcome :=
  let last := filter.lastId
  let (destroyed, ids) := destroyLoop io.destroy exp.skipOrphan oId last filter
  if exp.skipOrphan then
    ⟨0, last, { destroyed with destroysInProgress := false }, ids, []⟩
  else
    ⟨io.update, oId, { destroyed with lastId := min oId last, destroysInProgress := false },
      ids, []⟩

/-- The end of a round of `filter_precreate`: `rc`, `err`, the group and the object made. -/
structure Round where
  rc : Int
  err : Int
  filter : FilterObd
  created : List Nat

/-- `set_last_id` and what follows; `err` of a commit replaces that of the update. -/
def setLastId (filter : FilterObd) (id : Nat) (update : Int) (commit : Option Int) : Round :=
  let made := { filter.setObject id (some 0) with lastId := id }
  match commit with
  | some commit => ⟨commit, commit, made, [id]⟩
  | none => ⟨0, update, made, [id]⟩

/-- The round behind the test of `fo_destroys_in_progress`. -/
def createNext (group : Nat) (io : RoundIo) (filter : FilterObd) : Except FilterFault Round :=
  let nextId := (filter.lastId + 1) % 2 ^ 64
  if nextId ≥ maxOid group then .ok ⟨enospc, 0, filter, []⟩
  else if io.lookup ≠ 0 then .ok ⟨io.lookup, 0, filter, []⟩
  else
    match filter.objects nextId with
    | some size =>
      if size ≠ 0 then .error .objectExists
      else if io.marked then .ok (setLastId filter nextId io.update none)
      else if io.create ≠ 0 then .ok ⟨io.create, 0, filter, []⟩
      else .ok (setLastId filter nextId io.update (some io.commit))
    | none =>
      if io.start ≠ 0 then .ok ⟨io.start, 0, filter, []⟩
      else if io.create ≠ 0 then .ok ⟨io.create, io.commit, filter, []⟩
      else .ok (setLastId filter nextId io.update (some io.commit))

/-- A round of the loop of `filter_precreate`. -/
def precreateRound (group : Nat) (io : RoundIo) (filter : FilterObd) :
    Except FilterFault Round :=
  let filter := { filter with
    destroysInProgress := filter.destroysInProgress || io.destroyAsked }
  if filter.destroysInProgress then .ok ⟨eagain, 0, filter, []⟩
  else createNext group io filter

/-- The loop of `filter_precreate` with `left` rounds to go. -/
def precreateLoop (group : Nat) (round : Nat → RoundIo) :
    Nat → Nat → FilterObd → Except FilterFault Round
  | 0, _, filter => .ok ⟨0, 0, filter, []⟩
  | left + 1, i, filter =>
    match precreateRound group (round i) filter with
    | .error fault => .error fault
    | .ok done =>
      if done.rc ≠ 0 ∨ done.err ≠ 0 ∨ (round i).slow then .ok done
      else
        match precreateLoop group round left (i + 1) done.filter with
        | .error fault => .error fault
        | .ok rest => .ok { rest with created := done.created ++ rest.created }

/-- `filter_precreate`. -/
def filterPrecreate (group num : Nat) (io : FilterIo) (filter : FilterObd) :
    Except FilterFault Round :=
  if io.statfs ≠ 0 then .ok ⟨io.statfs, 0, filter, []⟩
  else precreateLoop group io.round num 0 filter

/-- The end of `filter_handle_precreate`: `diff` objects are created. -/
def createMissing (req : CreateReq) (diff : Int) (io : FilterIo) (filter : FilterObd) :
    Except FilterFault Outcome :=
  if diff > 0 then
    match filterPrecreate req.group diff.toNat io filter with
    | .error fault => .error fault
    | .ok done => .ok ⟨done.rc, done.filter.lastId, done.filter, [], done.created⟩
  else .ok ⟨0, req.oId, filter, [], []⟩

/-- The first part of `filter_handle_precreate`, for `OBD_FL_DELORPHAN`.  `last` was read before the lock
was taken, `filter` is the group behind that; a bit clear then was cleared by another request. -/
def handleDelorphan (exp : Export) (req : CreateReq) (last : Nat) (io : FilterIo)
    (filter : FilterObd) : Except FilterFault Outcome :=
  if req.connCnt < exp.connCnt ∨ ¬ filter.destroysInProgress then
    .ok ⟨0, req.oId, filter, [], []⟩
  else
    let diff := int32 ((req.oId : Int) - last)
    -- `-INT_MIN` is no `int`; the compiler compares `diff` with `-OST_MAX_PRECREATE`
    if -diff > ostMaxPrecreate then .ok ⟨einval, req.oId, filter, [], []⟩
    else if diff < 0 then .ok (filterDestroyPrecreated exp req.oId io filter)
    else createMissing req diff io { filter with destroysInProgress := false }

/-- `diff` of a request to create. -/
def precreateDiff (req : CreateReq) (lastId : Nat) : Int :=
  if ¬ fidSeqIsMdt req.group ∨ req.oId = 0 then 1 else int32 ((req.oId : Int) - lastId)

/-- The second part, for a request to create. -/
def handleCreate (exp : Export) (req : CreateReq) (io : FilterIo) (filter : FilterObd) :
    Except FilterFault Outcome :=
  if req.connCnt < exp.connCnt then .ok ⟨0, req.oId, filter, [], []⟩
  else if precreateDiff req filter.lastId < 0 then .error .diffNegative
  else createMissing req (precreateDiff req filter.lastId) io filter

/-- `filter_handle_precreate`. -/
def filterHandlePrecreate (exp : Export) (req : CreateReq) (last : Nat) (io : FilterIo)
    (filter : FilterObd) : Except FilterFault Outcome :=
  if req.delorphan then handleDelorphan exp req last io filter
  else handleCreate exp req io filter

open List

/-- Orphans are destroyed all or not at all, a request to create destroys nothing, and nothing is created
up to an identifier that `LAST_ID` has reached. -/
structure Bounded (req : CreateReq) (filter : FilterObd) (out : Outcome) : Prop where
  creates : out.created ≠ [] → filter.lastId < req.oId
  keeps : ¬ req.delorphan → out.destroyed = []
  few : req.delorphan → (filter.lastId : Int) - req.oId ≤ ostMaxPrecreate →
    out.destroyed.Nodup ∧ ∀ id, id ∈ out.destroyed ↔ req.oId < id ∧ id ≤ filter.lastId
  many : req.delorphan → (filter.lastId : Int) - req.oId > ostMaxPrecreate →
    out.destroyed = [] ∧ out.rc ≠ 0

/-- On the disk the objects created are there and empty, those destroyed are gone, unless
`filter_destroy` failed, and the others are as they were.  `LAST_ID` is the last one created; with
orphans destroyed it is `o_id`, unless they are to be skipped. -/
structure Effects (exp : Export) (req : CreateReq) (io : FilterIo) (filter : FilterObd) (out : Outcome) :
    Prop where
  objects : ∀ id, out.filter.objects id =
    if id ∈ out.created then some 0
    else if id ∈ out.destroyed ∧ io.destroy id = 0 then none else filter.objects id
  lastId : out.filter.lastId = out.created.getLast?.getD
    (if out.destroyed = [] ∨ exp.skipOrphan then filter.lastId else req.oId)

/-- No assertion fails, the request is bounded and the disk shows it, whatever the disk answers. -/
def Safe (exp : Export) (req : CreateReq) (last : Nat) (filter : FilterObd) : Prop :=
  ∀ io, ∃ out, filterHandlePrecreate exp req last io filter = .ok out ∧ Bounded req filter out ∧
    Effects exp req io filter out

theorem int32_neg_iff (d : Int) : int32 d < 0 ↔ 2 ^ 31 ≤ d % 2 ^ 32 := by
  rw [int32_eq]
  split <;> omega

theorem int32_of_residue {d : Int} (small : d % 2 ^ 32 < 2 ^ 31) : int32 d = d % 2 ^ 32 := by
  rw [int32_eq, if_pos small]

/-- The limit is seen only for residues between `INT_MIN` and the limit. -/
theorem beyond_limit_iff (d : Int) :
    -int32 d > ostMaxPrecreate ↔ 2 ^ 31 ≤ d % 2 ^ 32 ∧ d % 2 ^ 32 < 2 ^ 32 - 20000 := by
  rw [int32_eq, ostMaxPrecreate]
  split <;> omega

variable {filter : FilterObd}

section

variable {destroy : Nat → Int} {skipOrphan : Bool} {oId : Nat}

theorem mem_destroyLoop {id last : Nat} :
    id ∈ (destroyLoop destroy skipOrphan oId last filter).2 ↔ oId < id ∧ id ≤ last := by
  induction last generalizing filter with
  | zero =>
    simp only [destroyLoop, not_mem_nil, false_iff]
    omega
  | succ last ih => grind [destroyLoop]

theorem nodup_destroyLoop (last : Nat) (filter : FilterObd) :
    (destroyLoop destroy skipOrphan oId last filter).2.Nodup := by
  induction last generalizing filter with
  | zero => exact nodup_nil
  | succ last ih =>
    rw [destroyLoop]
    split
    · refine nodup_cons.mpr ⟨fun mem => ?_, ih _⟩
      have := (mem_destroyLoop.mp mem).2
      omega
    · exact nodup_nil

theorem saveLastId_objects (id : Nat) (filter : FilterObd) :
    (saveLastId skipOrphan id filter).objects = filter.objects := by
  unfold saveLastId
  split <;> rfl

theorem filterDestroy_objects (filter : FilterObd) (gone id : Nat) :
    (filterDestroy (destroy gone) filter gone).objects id =
      if id = gone ∧ destroy id = 0 then none else filter.objects id := by
  unfold filterDestroy FilterObd.setObject
  by_cases here : id = gone
  · split <;> simp_all
  · split <;> simp [here]

theorem destroyLoop_objects (last : Nat) (filter : FilterObd) (id : Nat) :
    (destroyLoop destroy skipOrphan oId last filter).1.objects id =
      if id ∈ (destroyLoop destroy skipOrphan oId last filter).2 ∧ destroy id = 0 then none
      else filter.objects id := by
  induction last generalizing filter with
  | zero => simp [destroyLoop]
  | succ last ih =>
    rw [destroyLoop]
    split
    · simp only [ih, saveLastId_objects, filterDestroy_objects, mem_cons, or_and_right]
      rw [← ite_or]
      exact if_congr or_comm rfl rfl
    · simp

theorem destroyLoop_skip_lastId {last : Nat} :
    (destroyLoop destroy true oId last filter).1.lastId = filter.lastId := by
  induction last generalizing filter with
  | zero => rfl
  | succ last ih =>
    grind [destroyLoop, saveLastId, filterDestroy, FilterObd.setObject]

end

theorem destroyed_eq (exp : Export) (oId : Nat) (io : FilterIo) (filter : FilterObd) :
    (filterDestroyPrecreated exp oId io filter).destroyed =
      (destroyLoop io.destroy exp.skipOrphan oId filter.lastId filter).2 := by
  unfold filterDestroyPrecreated
  split <;> rfl

/-! ### Creating -/

/-- Nothing can be created: an orphan request is waiting, or the group has no identifier
left. -/
def Blocked (group : Nat) (filter : FilterObd) : Prop :=
  filter.destroysInProgress = true ∨ maxOid group ≤ (filter.lastId + 1) % 2 ^ 64

/-- None of the next objects holds data already. -/
def NoData (group : Nat) (filter : FilterObd) (count : Nat) : Prop :=
  ∀ id, filter.lastId < id → id ≤ filter.lastId + count → id < maxOid group →
    ∀ size, filter.objects id = some size → size = 0

theorem maxOid_le (group : Nat) : maxOid group ≤ 2 ^ 48 := by
  unfold maxOid
  split <;> omega

/-- The round behind the test stops before an object, meets an object with data, or makes the next
one. -/
theorem createNext_cases (group : Nat) (io : RoundIo) (filter : FilterObd) :
    (∃ rc err, rc ≠ 0 ∧ createNext group io filter = .ok ⟨rc, err, filter, []⟩) ∨
    ((filter.lastId + 1) % 2 ^ 64 < maxOid group ∧
      ((∃ size, size ≠ 0 ∧ filter.objects ((filter.lastId + 1) % 2 ^ 64) = some size ∧
          createNext group io filter = .error .objectExists) ∨
        ∃ update commit, createNext group io filter =
          .ok (setLastId filter ((filter.lastId + 1) % 2 ^ 64) update commit))) := by
  have space : enospc ≠ 0 := by decide
  unfold createNext
  by_cases full : (filter.lastId + 1) % 2 ^ 64 ≥ maxOid group
  · exact .inl ⟨enospc, 0, space, if_pos full⟩
  rw [if_neg full]
  by_cases found : io.lookup ≠ 0
  · exact .inl ⟨_, _, found, if_pos found⟩
  rw [if_neg found]
  have room : (filter.lastId + 1) % 2 ^ 64 < maxOid group := not_le.mp full
  cases object : filter.objects ((filter.lastId + 1) % 2 ^ 64) with
  | none =>
    dsimp only
    by_cases started : io.start ≠ 0
    · exact .inl ⟨_, _, started, if_pos started⟩
    rw [if_neg started]
    by_cases made : io.create ≠ 0
    · exact .inl ⟨_, _, made, if_pos made⟩
    rw [if_neg made]
    exact .inr ⟨room, .inr ⟨_, _, rfl⟩⟩
  | some size => grind

theorem unasked {asked : Bool} (quiet : asked = false) :
    { filter with destroysInProgress := filter.destroysInProgress || asked } = filter := by
  simp only [quiet, Bool.or_false]

/-- What a round does; only one of a group that is not blocked gets as far as an object. -/
theorem precreateRound_cases (group : Nat) (io : RoundIo) (filter : FilterObd) :
    (∃ rc err bit, rc ≠ 0 ∧ precreateRound group io filter =
      .ok ⟨rc, err, { filter with destroysInProgress := bit }, []⟩) ∨
    (¬ Blocked group filter ∧
      ((∃ size, size ≠ 0 ∧ filter.objects ((filter.lastId + 1) % 2 ^ 64) = some size ∧
          precreateRound group io filter = .error .objectExists) ∨
        ∃ update commit, precreateRound group io filter =
          .ok (setLastId filter ((filter.lastId + 1) % 2 ^ 64) update commit))) := by
  have again : eagain ≠ 0 := by decide
  unfold precreateRound
  by_cases asked : (filter.destroysInProgress || io.destroyAsked) = true
  · exact .inl ⟨_, _, _, again, if_pos asked⟩
  rw [if_neg asked]
  have clear := Bool.or_eq_false_iff.mp (Bool.eq_false_iff.mpr asked)
  rw [unasked clear.2]
  rcases createNext_cases group io filter with ⟨rc, err, fails, made⟩ | ⟨room, rest⟩
  · exact .inl ⟨rc, err, _, fails, made⟩
  · refine .inr ⟨?_, rest⟩
    rintro (bit | full)
    · rw [clear.1] at bit
      cases bit
    · exact absurd full (not_le.mpr room)

/-- The group behind a new object. -/
def FilterObd.withObject (filter : FilterObd) (id : Nat) : FilterObd :=
  { filter.setObject id (some 0) with lastId := id }

@[simp] theorem setLastId_filter (filter : FilterObd) (id : Nat) (update : Int)
    (commit : Option Int) :
    (setLastId filter id update commit).filter = filter.withObject id := by
  cases commit <;> rfl

theorem withObject_other {id other : Nat} (ne : other ≠ id) :
    (filter.withObject id).objects other = filter.objects other :=
  if_neg ne

variable {group : Nat}

/-- A request to a blocked group makes nothing and says so. -/
theorem filterPrecreate_blocked (blocked : Blocked group filter) {num : Nat} (asked : 0 < num)
    (io : FilterIo) : ∃ done, filterPrecreate group num io filter =
      .ok done ∧ done.rc ≠ 0 ∧ done.created = [] := by
  unfold filterPrecreate
  split
  · rename_i fails
    exact ⟨_, rfl, fails, rfl⟩
  · obtain ⟨left, rfl⟩ := Nat.exists_eq_succ_of_ne_zero asked.ne'
    rcases precreateRound_cases group (io.round 0) filter with
      ⟨rc, err, bit, fails, round⟩ | ⟨free, _⟩
    · rw [precreateLoop, round]
      exact ⟨_, if_pos (.inl fails), fails, rfl⟩
    · exact absurd blocked free

/-- Behind a new object the next ones are as they were. -/
theorem NoData.next {count : Nat} (clean : NoData group filter (count + 1)) :
    NoData group (filter.withObject (filter.lastId + 1)) count := by
  intro id after within below size object
  have after' : filter.lastId + 1 < id := after
  have within' : id ≤ filter.lastId + 1 + count := within
  rw [withObject_other (by omega)] at object
  exact clean id (by omega) (by omega) below size object

/-- Where no object with data stands in the way, no assertion fails. -/
theorem precreateLoop_clean {round : Nat → RoundIo} {left i : Nat}
    (word : filter.lastId + 1 < 2 ^ 64) (clean : NoData group filter left) :
    ∃ done, precreateLoop group round left i filter = .ok done := by
  induction left generalizing i filter with
  | zero => exact ⟨_, rfl⟩
  | succ left ih =>
    rw [precreateLoop]
    rcases precreateRound_cases group (round i) filter with
      ⟨rc, err, bit, fails, made⟩ | ⟨free, ⟨size, data, object, met⟩ | ⟨update, commit, made⟩⟩
    · rw [made]
      exact ⟨_, if_pos (.inl fails)⟩
    · rw [Blocked, not_or, not_le, Nat.mod_eq_of_lt word] at free
      rw [Nat.mod_eq_of_lt word] at object
      exact absurd (clean _ (by omega) (by omega) free.2 size object) data
    · rw [Blocked, not_or, not_le, Nat.mod_eq_of_lt word] at free
      rw [made, Nat.mod_eq_of_lt word]
      dsimp only
      split
      · exact ⟨_, rfl⟩
      · have bound := maxOid_le group
        have next : (filter.withObject (filter.lastId + 1)).lastId + 1 < 2 ^ 64 := by
          show filter.lastId + 1 + 1 < 2 ^ 64
          omega
        obtain ⟨rest, ran⟩ := ih (i := i + 1) next clean.next
        rw [setLastId_filter, ran]
        exact ⟨_, rfl⟩

/-- A disk on which everything succeeds in time. -/
def smooth : FilterIo := ⟨0, fun _ => ⟨false, 0, 0, 0, false, 0, 0, false⟩, fun _ => 0, 0⟩

instance : Nonempty FilterIo := ⟨smooth⟩

/-- On such a disk a round of a group not blocked makes the next object, unless it meets data. -/
theorem precreateRound_smooth (free : ¬ Blocked group filter) (i : Nat) :
    precreateRound group (smooth.round i) filter = .error .objectExists ∨
      ((∀ size, filter.objects ((filter.lastId + 1) % 2 ^ 64) = some size → size = 0) ∧
        precreateRound group (smooth.round i) filter =
          .ok (setLastId filter ((filter.lastId + 1) % 2 ^ 64) 0 (some 0))) := by
  rw [Blocked, not_or, Bool.not_eq_true, not_le] at free
  have quiet : (filter.destroysInProgress || (smooth.round i).destroyAsked) = false := by
    rw [free.1]
    rfl
  unfold precreateRound
  dsimp only
  rw [quiet, if_neg (by decide), ← quiet,
    unasked (show (smooth.round i).destroyAsked = false from rfl), createNext]
  dsimp only [smooth]
  rw [if_neg (not_le.mpr free.2)]
  cases filter.objects ((filter.lastId + 1) % 2 ^ 64) with
  | none => exact .inr ⟨nofun, rfl⟩
  | some size => grind

/-- On such a disk a group that is not blocked gets an object, or an assertion fails. -/
theorem smooth_creates {num : Nat} (free : ¬ Blocked group filter) (asked : 0 < num) {done : Round}
    (ran : filterPrecreate group num smooth filter = .ok done) : done.created ≠ [] := by
  obtain ⟨left, rfl⟩ := Nat.exists_eq_succ_of_ne_zero asked.ne'
  rw [filterPrecreate, if_neg (by decide), precreateLoop] at ran
  rcases precreateRound_smooth free 0 with met | ⟨_, made⟩
  · rw [met] at ran
    cases ran
  · rw [made] at ran
    dsimp only at ran
    split at ran
    · cases ran
      exact cons_ne_nil _ _
    · split at ran
      · cases ran
      · cases ran
        exact cons_ne_nil _ _

/-- On such a disk an object with data among the next ones is met. -/
theorem smooth_meets {left i : Nat} (clear : filter.destroysInProgress = false)
    (word : filter.lastId + 1 < 2 ^ 64) (data : ¬ NoData group filter left) :
    ∃ fault, precreateLoop group smooth.round left i filter = .error fault := by
  induction left generalizing i filter with
  | zero =>
    refine absurd ?_ data
    intro id after within
    omega
  | succ left ih =>
    rw [NoData] at data
    push Not at data
    obtain ⟨id, after, within, below, size, object, some⟩ := data
    have room : filter.lastId + 1 < maxOid group := by omega
    have free : ¬ Blocked group filter := by
      rw [Blocked, clear, Nat.mod_eq_of_lt word]
      simp only [Bool.false_eq_true, false_or, not_le]
      exact room
    rw [precreateLoop]
    rcases precreateRound_smooth free i with met | ⟨clean, made⟩
    · rw [met]
      exact ⟨_, rfl⟩
    · rw [made, Nat.mod_eq_of_lt word]
      dsimp only
      rw [if_neg (by simp [setLastId, smooth]), setLastId_filter]
      have bound := maxOid_le group
      have next : (filter.withObject (filter.lastId + 1)).lastId + 1 < 2 ^ 64 := by
        show filter.lastId + 1 + 1 < 2 ^ 64
        omega
      have rest : ¬ NoData group (filter.withObject (filter.lastId + 1)) left := by
        intro others
        have ne : id ≠ filter.lastId + 1 := by grind
        refine some (others id ?_ ?_ below size ?_)
        · show filter.lastId + 1 < id
          omega
        · show id ≤ filter.lastId + 1 + left
          omega
        · rwa [withObject_other ne]
      obtain ⟨fault, ran⟩ : ∃ fault, precreateLoop group smooth.round left (i + 1)
          (filter.withObject (filter.lastId + 1)) = .error fault := ih clear next rest
      rw [ran]
      exact ⟨_, rfl⟩

/-- `o_id - LAST_ID` modulo `2 ^ 32`. -/
def distance (oId last : Nat) : Int := ((oId : Int) - last) % 2 ^ 32

/-- Nothing can be created, or the objects asked for are missing and hold no data. -/
def MayCreate (req : CreateReq) (filter : FilterObd) (count : Nat) : Prop :=
  Blocked req.group filter ∨ filter.lastId < req.oId ∧ NoData req.group filter count

/-- There are no orphans, or too many. -/
def NoneToDestroy (req : CreateReq) (filter : FilterObd) : Prop :=
  filter.lastId ≤ req.oId ∨ (filter.lastId : Int) - req.oId > ostMaxPrecreate

/-- An orphan request, by the distance to the `LAST_ID` read before the lock was taken. -/
def OrphansHandled (req : CreateReq) (last : Nat) (filter : FilterObd) : Prop :=
  if distance req.oId last = 0 then filter.lastId ≤ req.oId
  else if distance req.oId last < 2 ^ 31 then
    NoneToDestroy req filter ∧
      MayCreate req { filter with destroysInProgress := false } (distance req.oId last).toNat
  else if 2 ^ 32 - 20000 ≤ distance req.oId last then
    (filter.lastId : Int) - req.oId ≤ ostMaxPrecreate
  else NoneToDestroy req filter

/-- A request to create. -/
def CreateHandled (req : CreateReq) (filter : FilterObd) : Prop :=
  if ¬ fidSeqIsMdt req.group ∨ req.oId = 0 then MayCreate req filter 1
  else
    distance req.oId filter.lastId < 2 ^ 31 ∧ (distance req.oId filter.lastId ≠ 0 →
      MayCreate req filter (distance req.oId filter.lastId).toNat)

/-- Requests handled as they should be; an orphan request of an older connection, or with its bit
cleared, is dropped. -/
def Handled (exp : Export) (req : CreateReq) (last : Nat) (filter : FilterObd) : Prop :=
  if req.delorphan then
    if req.connCnt < exp.connCnt ∨ ¬ filter.destroysInProgress then filter.lastId ≤ req.oId
    else OrphansHandled req last filter
  else req.connCnt < exp.connCnt ∨ CreateHandled req filter

variable {req : CreateReq}

/-- An outcome that destroys nothing. -/
theorem bounded_idle_iff {out : Outcome} (idle : out.destroyed = []) :
    Bounded req filter out ↔ (out.created ≠ [] → filter.lastId < req.oId) ∧
      (req.delorphan → NoneToDestroy req filter ∧
        ((filter.lastId : Int) - req.oId > ostMaxPrecreate → out.rc ≠ 0)) := by
  constructor
  · intro bounded
    refine ⟨bounded.creates, fun orphans => ⟨?_, fun many => (bounded.many orphans many).2⟩⟩
    by_cases many : (filter.lastId : Int) - req.oId > ostMaxPrecreate
    · exact .inr many
    · have exact := (bounded.few orphans (Int.not_lt.mp many)).2 filter.lastId
      rw [idle] at exact
      simp only [not_mem_nil, le_refl, and_true, false_iff, not_lt] at exact
      exact .inl exact
  · rintro ⟨creates, none⟩
    refine ⟨creates, fun _ => idle, fun orphans few => ?_, fun orphans many =>
      ⟨idle, (none orphans).2 many⟩⟩
    rw [idle]
    refine ⟨nodup_nil, fun id => ?_⟩
    simp only [not_mem_nil, false_iff, not_and, not_le]
    rcases (none orphans).1 with above | many
    · omega
    · omega

theorem createMissing_iff {diff : Int} {before : FilterObd} (asked : 0 < diff)
    (word : req.oId < 2 ^ 64) (same : before.lastId = filter.lastId) :
    (∀ io, ∃ out, createMissing req diff io filter = .ok out ∧ Bounded req before out) ↔
      (req.delorphan → NoneToDestroy req before) ∧ MayCreate req filter diff.toNat := by
  have count : 0 < diff.toNat := by omega
  constructor
  · intro safe
    obtain ⟨out, ran, bounded⟩ := safe smooth
    rw [createMissing, if_pos asked] at ran
    cases made : filterPrecreate req.group diff.toNat smooth filter with
    | error fault =>
      rw [made] at ran
      cases ran
    | ok done =>
      rw [made] at ran
      cases ran
      have spec := (bounded_idle_iff rfl).mp bounded
      refine ⟨fun orphans => (spec.2 orphans).1, ?_⟩
      by_cases free : Blocked req.group filter
      · exact .inl free
      · have below : filter.lastId < req.oId := same ▸ spec.1 (smooth_creates free count made)
        refine .inr ⟨below, Classical.byContradiction fun data => ?_⟩
        rw [Blocked, not_or, Bool.not_eq_true] at free
        obtain ⟨fault, met⟩ := smooth_meets (i := 0) free.1 (by omega) data
        rw [filterPrecreate, if_neg (by decide), met] at made
        cases made
  · rintro ⟨none, may⟩ io
    rw [createMissing, if_pos asked]
    rcases may with blocked | ⟨below, clean⟩
    · obtain ⟨done, made, fails, empty⟩ := filterPrecreate_blocked blocked count io
      rw [made]
      refine ⟨_, rfl, (bounded_idle_iff rfl).mpr ⟨fun some => absurd empty some, fun orphans =>
        ⟨none orphans, fun _ => fails⟩⟩⟩
    · have ran : ∃ done, filterPrecreate req.group diff.toNat io filter = .ok done := by
        rw [filterPrecreate]
        split
        · exact ⟨_, rfl⟩
        · exact precreateLoop_clean (by omega) clean
      obtain ⟨done, made⟩ := ran
      rw [made]
      refine ⟨_, rfl, (bounded_idle_iff rfl).mpr ⟨fun _ => same ▸ below, fun orphans =>
        ⟨none orphans, fun many => ?_⟩⟩⟩
      have limit : ostMaxPrecreate = 20000 := rfl
      omega

/-- Nothing is destroyed, nothing is created, and no error is returned. -/
theorem nothing_done_iff {after : FilterObd} {oId : Nat} :
    Bounded req filter ⟨0, oId, after, [], []⟩ ↔ (req.delorphan → filter.lastId ≤ req.oId) := by
  rw [bounded_idle_iff rfl]
  constructor
  · rintro ⟨_, spec⟩ orphans
    rcases (spec orphans).1 with above | many
    · exact above
    · exact absurd rfl ((spec orphans).2 many)
  · refine fun above => ⟨fun some => absurd rfl some, fun orphans => ⟨.inl (above orphans), fun many => ?_⟩⟩
    have limit : ostMaxPrecreate = 20000 := rfl
    have := above orphans
    omega

variable {exp : Export}

theorem destroyer_iff {io : FilterIo} (orphans : req.delorphan) :
    Bounded req filter (filterDestroyPrecreated exp req.oId io filter) ↔
      (filter.lastId : Int) - req.oId ≤ ostMaxPrecreate := by
  constructor
  · intro bounded
    by_contra many
    have none := (bounded.many orphans (Int.not_le.mp many)).1
    have limit : ostMaxPrecreate = 20000 := rfl
    have last : filter.lastId ∈ (filterDestroyPrecreated exp req.oId io filter).destroyed := by
      rw [destroyed_eq, mem_destroyLoop]
      omega
    rw [none] at last
    cases last
  · intro few
    have none : (filterDestroyPrecreated exp req.oId io filter).created = [] := by
      unfold filterDestroyPrecreated
      split <;> rfl
    refine ⟨fun made => absurd none made, fun create => absurd orphans create,
      fun _ _ => ?_, fun _ many => absurd few (Int.not_le.mpr many)⟩
    rw [destroyed_eq]
    exact ⟨nodup_destroyLoop _ _, fun _ => mem_destroyLoop⟩

theorem distance_range (oId last : Nat) : 0 ≤ distance oId last ∧ distance oId last < 2 ^ 32 := by
  unfold distance
  omega

/-- The ways of an orphan request that is not dropped, by its distance. -/
theorem handleDelorphan_eq (taken : ¬ (req.connCnt < exp.connCnt ∨ ¬ filter.destroysInProgress))
    (last : Nat) (io : FilterIo) :
    handleDelorphan exp req last io filter =
      if 2 ^ 31 ≤ distance req.oId last ∧ distance req.oId last < 2 ^ 32 - 20000 then
        .ok ⟨einval, req.oId, filter, [], []⟩
      else if 2 ^ 31 ≤ distance req.oId last then
        .ok (filterDestroyPrecreated exp req.oId io filter)
      else createMissing req (distance req.oId last) io
        { filter with destroysInProgress := false } := by
  grind [handleDelorphan, distance, beyond_limit_iff, int32_neg_iff, int32_of_residue, Int.not_le]

theorem handleDelorphan_iff {last : Nat} (orphans : req.delorphan) (word : req.oId < 2 ^ 64)
    (taken : ¬ (req.connCnt < exp.connCnt ∨ ¬ filter.destroysInProgress)) :
    (∀ io, ∃ out, handleDelorphan exp req last io filter = .ok out ∧ Bounded req filter out) ↔
      OrphansHandled req last filter := by
  have range := distance_range req.oId last
  simp only [handleDelorphan_eq taken]
  unfold OrphansHandled
  generalize distance req.oId last = d at range ⊢
  by_cases zero : d = 0
  · simp_all [createMissing, nothing_done_iff]
  rw [if_neg zero]
  by_cases small : d < 2 ^ 31
  · rw [if_pos small]
    simp only [if_neg (show ¬ (2 ^ 31 ≤ d ∧ d < 2 ^ 32 - 20000) by omega),
      if_neg (show ¬ 2 ^ 31 ≤ d by omega)]
    have asked : 0 < d := by omega
    have same : filter.lastId = ({ filter with destroysInProgress := false } : FilterObd).lastId := rfl
    rw [createMissing_iff asked word same]
    simp only [orphans, forall_const]
  rw [if_neg small]
  by_cases near : 2 ^ 32 - 20000 ≤ d
  · rw [if_pos near]
    simp only [if_neg (show ¬ (2 ^ 31 ≤ d ∧ d < 2 ^ 32 - 20000) by omega),
      if_pos (show 2 ^ 31 ≤ d by omega), Except.ok.injEq, exists_eq_left', destroyer_iff orphans,
      forall_const]
  · rw [if_neg near]
    simp only [if_pos (show 2 ^ 31 ≤ d ∧ d < 2 ^ 32 - 20000 by omega), Except.ok.injEq,
      exists_eq_left', forall_const, bounded_idle_iff]
    have refused : einval ≠ 0 := by decide
    simp only [ne_eq, not_true_eq_false, false_implies, true_and, orphans, forall_const, refused,
      not_false_eq_true, implies_true, and_true]

theorem handleCreate_iff (create : ¬ req.delorphan) (word : req.oId < 2 ^ 64)
    (taken : ¬ req.connCnt < exp.connCnt) :
    (∀ io, ∃ out, handleCreate exp req io filter = .ok out ∧ Bounded req filter out) ↔
      CreateHandled req filter := by
  unfold handleCreate CreateHandled precreateDiff
  simp only [if_neg taken]
  by_cases single : ¬ fidSeqIsMdt req.group ∨ req.oId = 0
  · simp_all [createMissing_iff, Bool.false_eq_true]
  · simp only [if_neg single]
    have range := distance_range req.oId filter.lastId
    have negative := int32_neg_iff ((req.oId : Int) - filter.lastId)
    have residue : ((req.oId : Int) - filter.lastId) % 2 ^ 32 = distance req.oId filter.lastId := rfl
    by_cases large : 2 ^ 31 ≤ distance req.oId filter.lastId
    · simp only [if_pos (negative.mpr large)]
      constructor
      · intro safe
        obtain ⟨out, failed, _⟩ := safe smooth
        cases failed
      · exact fun small => absurd small.1 (Int.not_lt.mpr large)
    · rw [int32_of_residue (residue ▸ Int.not_le.mp large), residue]
      simp only [if_neg (show ¬ distance req.oId filter.lastId < 0 by omega)]
      generalize distance req.oId filter.lastId = d at range large ⊢
      by_cases zero : d = 0
      · constructor
        · exact fun _ => ⟨by omega, fun other => absurd zero other⟩
        · refine fun _ io => ⟨_, if_neg (show ¬ d > 0 by omega), ?_⟩
          exact nothing_done_iff.mpr fun orphans => absurd orphans create
      · have asked : 0 < d := by omega
        have same : filter.lastId = filter.lastId := rfl
        rw [createMissing_iff asked word same]
        simp only [create, Bool.false_eq_true, false_implies, true_and, ne_eq, zero, not_false_eq_true,
          forall_const, Int.not_le.mp large]

/-- The objects made are there, and `LAST_ID` is the last of them. -/
def Makes (filter : FilterObd) (done : Round) : Prop :=
  (∀ id, done.filter.objects id = if id ∈ done.created then some 0 else filter.objects id) ∧
    done.filter.lastId = done.created.getLast?.getD filter.lastId

theorem precreateRound_makes {io : RoundIo} {done : Round}
    (ran : precreateRound group io filter = .ok done) : Makes filter done := by
  rcases precreateRound_cases group io filter with
    ⟨rc, err, bit, -, made⟩ | ⟨-, ⟨size, -, -, met⟩ | ⟨update, commit, made⟩⟩
  · cases made.symm.trans ran
    exact ⟨fun id => rfl, rfl⟩
  · cases met.symm.trans ran
  · cases made.symm.trans ran
    cases commit <;> exact ⟨fun id => by simp [setLastId, FilterObd.setObject], rfl⟩

theorem precreateLoop_makes {round : Nat → RoundIo} {left i : Nat} {done : Round}
    (ran : precreateLoop group round left i filter = .ok done) : Makes filter done := by
  induction left generalizing i filter done with
  | zero =>
    cases ran
    exact ⟨fun id => rfl, rfl⟩
  | succ left ih =>
    rw [precreateLoop] at ran
    split at ran
    · cases ran
    rename_i first made
    obtain ⟨objects, last⟩ := precreateRound_makes made
    split at ran
    · cases ran
      exact ⟨objects, last⟩
    split at ran
    · cases ran
    rename_i rest more
    cases ran
    obtain ⟨objects', last'⟩ := ih more
    refine ⟨fun id => ?_, ?_⟩
    · simp only [objects', objects, mem_append]
      split_ifs <;> simp_all
    · simp only [last', last, getLast?_append]
      cases rest.created.getLast? <;> rfl

theorem createMissing_effects {diff : Int} {io : FilterIo} {bit : Bool} {out : Outcome}
    (ran : createMissing req diff io { filter with destroysInProgress := bit } = .ok out) :
    Effects exp req io filter out := by
  unfold createMissing at ran
  split at ran
  · split at ran
    · cases ran
    rename_i done made
    cases ran
    have makes : Makes { filter with destroysInProgress := bit } done := by
      unfold filterPrecreate at made
      split at made
      · cases made
        exact ⟨fun id => rfl, rfl⟩
      · exact precreateLoop_makes made
    exact ⟨fun id => by simpa using makes.1 id, by simpa using makes.2⟩
  · cases ran
    exact ⟨fun id => by simp, by simp⟩

theorem filterDestroyPrecreated_effects (io : FilterIo) :
    Effects exp req io filter (filterDestroyPrecreated exp req.oId io filter) := by
  have none : (destroyLoop io.destroy exp.skipOrphan req.oId filter.lastId filter).2 = [] ↔
      filter.lastId ≤ req.oId := by
    simp only [eq_nil_iff_forall_not_mem, mem_destroyLoop]
    exact ⟨fun all => not_lt.mp fun less => all _ ⟨less, le_rfl⟩, fun le id => by omega⟩
  unfold filterDestroyPrecreated
  cases skip : exp.skipOrphan with
  | true =>
    refine ⟨fun id => ?_, ?_⟩
    · simp [destroyLoop_objects]
    · simp [skip, destroyLoop_skip_lastId]
  | false =>
    rw [skip] at none
    refine ⟨fun id => ?_, ?_⟩
    · simp [destroyLoop_objects]
    · simp only [skip, none, Bool.false_eq_true, or_false, getLast?_nil, Option.getD_none, if_false]
      split <;> omega

/-- Whatever a request does can be seen on the disk. -/
theorem filterHandlePrecreate_effects {last : Nat} {io : FilterIo} {out : Outcome}
    (ran : filterHandlePrecreate exp req last io filter = .ok out) : Effects exp req io filter out := by
  have idle (rc : Int) (oId : Nat) : Effects exp req io filter ⟨rc, oId, filter, [], []⟩ :=
    ⟨fun id => by simp, by simp⟩
  unfold filterHandlePrecreate at ran
  split at ran
  · unfold handleDelorphan at ran
    split at ran
    · cases ran
      exact idle _ _
    dsimp only at ran
    split at ran
    · cases ran
      exact idle _ _
    split at ran
    · cases ran
      exact filterDestroyPrecreated_effects io
    · exact createMissing_effects ran
  · unfold handleCreate at ran
    split at ran
    · cases ran
      exact idle _ _
    split at ran
    · cases ran
    · exact createMissing_effects ran

/-- `filter_handle_precreate` fails no assertion, destroys exactly the orphans or none, and creates only
missing objects, whatever the disk answers, exactly for these requests. -/
theorem precreate_request_bounded_iff (exp : Export) (req : CreateReq) (last : Nat)
    (filter : FilterObd) (word : req.oId < 2 ^ 64) :
    Safe exp req last filter ↔ Handled exp req last filter := by
  have shown : Safe exp req last filter ↔ ∀ io, ∃ out,
      filterHandlePrecreate exp req last io filter = .ok out ∧ Bounded req filter out :=
    forall_congr' fun io => exists_congr fun out => and_congr_right fun ran =>
      and_iff_left (filterHandlePrecreate_effects ran)
  rw [shown]
  unfold Handled filterHandlePrecreate
  by_cases orphans : req.delorphan = true
  · simp only [if_pos orphans]
    by_cases dropped : req.connCnt < exp.connCnt ∨ ¬ filter.destroysInProgress
    · simp_all [handleDelorphan, nothing_done_iff]
    · rw [if_neg dropped]
      exact handleDelorphan_iff orphans word dropped
  · simp only [if_neg orphans]
    by_cases dropped : req.connCnt < exp.connCnt
    · constructor
      · exact fun _ => .inl dropped
      · refine fun _ io => ⟨_, if_pos dropped, ?_⟩
        exact nothing_done_iff.mpr fun asked => absurd asked orphans
    · rw [or_iff_right dropped]
      exact handleCreate_iff orphans word dropped

/-- Three orphans behind a connection that was set up again. -/
theorem precreate_request_bounded_three :
    Safe ⟨1, false⟩ ⟨true, 7, 0, 1⟩ 10 ⟨10, fun _ => some 0, true⟩ := by
  refine (precreate_request_bounded_iff ⟨1, false⟩ ⟨true, 7, 0, 1⟩ 10 ⟨10, fun _ => some 0, true⟩
    (by decide)).mpr ?_
  show OrphansHandled ⟨true, 7, 0, 1⟩ 10 ⟨10, fun _ => some 0, true⟩
  have far : distance 7 10 = 4294967293 := by decide
  rw [OrphansHandled, far, if_neg (by decide), if_neg (by decide), if_pos (by decide)]
  decide

/-- With `2 ^ 32` orphans the distance is 0, and the request succeeds; with one more it is -1, and
all of them are destroyed. -/
theorem far_orphans_are_destroyed :
    (filterHandlePrecreate ⟨1, false⟩ ⟨true, 5, 0, 1⟩ 4294967301 smooth
      ⟨4294967301, fun _ => some 0, true⟩).map (fun out => (out.rc, out.destroyed)) = .ok (0, []) ∧
    ¬ Safe ⟨1, false⟩ ⟨true, 5, 0, 1⟩ 4294967301 ⟨4294967301, fun _ => some 0, true⟩ ∧
    ∃ out, filterHandlePrecreate ⟨1, false⟩ ⟨true, 5, 0, 1⟩ 4294967302 smooth
        ⟨4294967302, fun _ => some 0, true⟩ = .ok out ∧
      ∀ id, 5 < id → id ≤ 4294967302 → out.filter.objects id = none := by
  refine ⟨rfl, fun safe => ?_, _, rfl, fun id low high => ?_⟩
  · obtain ⟨out, ran, bounded, -⟩ := safe smooth
    cases ran
    exact (bounded.many rfl (by decide)).2 rfl
  · have gone := (@filterDestroyPrecreated_effects ⟨4294967302, fun _ => some 0, true⟩ ⟨true, 5, 0, 1⟩
      ⟨1, false⟩ smooth).objects id
    rwa [destroyed_eq, if_neg, if_pos ⟨mem_destroyLoop.mpr ⟨low, high⟩, rfl⟩] at gone
    exact not_mem_nil

/-- The object is on the disk. -/
def FilterObd.Has (filter : FilterObd) (id : Nat) : Prop := (filter.objects id).isSome = true

/-- `LAST_ID` is raised over objects that are there. -/
structure Grows (filter filter' : FilterObd) : Prop where
  raised : filter.lastId ≤ filter'.lastId
  keeps : ∀ id, filter.Has id → filter'.Has id
  adds : ∀ id, filter.lastId < id → id ≤ filter'.lastId → filter'.Has id
  word : filter'.lastId + 1 < 2 ^ 64

variable {filter : FilterObd}

theorem Grows.withObject (room : filter.lastId + 2 < 2 ^ 64) :
    Grows filter (filter.withObject (filter.lastId + 1)) where
  raised := Nat.le_succ filter.lastId
  keeps := fun id has => by
    by_cases here : id = filter.lastId + 1
    · subst here
      simp [FilterObd.Has, FilterObd.withObject, FilterObd.setObject]
    · rw [FilterObd.Has, withObject_other here]
      exact has
  adds := fun id low high => by
    have here : id = filter.lastId + 1 := le_antisymm high low
    subst here
    simp [FilterObd.Has, FilterObd.withObject, FilterObd.setObject]
  word := room

/-- The distance between an identifier and `LAST_ID` fits into an `int`. -/
def Fits (oId last : Nat) : Prop := -(2 ^ 31) < (oId : Int) - last ∧ (oId : Int) - last < 2 ^ 31

instance (oId last : Nat) : Decidable (Fits oId last) := inferInstanceAs (Decidable (_ ∧ _))

theorem int32_of_small {d : Int} (low : -(2 ^ 31) < d) (high : d < 2 ^ 31) : int32 d = d := by
  rw [int32_eq]
  split <;> omega

/-- What an orphan request leaves: behind `o_id` of a successful reply there are objects up to
`LAST_ID`. -/
structure Cleaned (skipOrphan : Bool) (oId : Nat) (filter : FilterObd) (out : Outcome) : Prop where
  near : oId ≤ out.filter.lastId + 1
  word : out.filter.lastId + 1 < 2 ^ 64
  kept : skipOrphan = true → filter.lastId ≤ out.filter.lastId
  ahead : out.rc = 0 → oId ≤ out.oId
  same : skipOrphan = false → out.rc = 0 → out.oId = oId
  reached : out.rc = 0 → out.oId ≤ out.filter.lastId + 1
  exact : out.rc = 0 → ∀ id, out.oId < id → id ≤ out.filter.lastId → out.filter.Has id
  noSpace : out.rc = enospc → ∀ id, oId < id → id ≤ out.filter.lastId → out.filter.Has id

variable {group : Nat} {done : Round} {io : FilterIo} {exp : Export}
  (word : filter.lastId + 1 < 2 ^ 64)

include word

theorem Grows.of_same {filter' : FilterObd} (last : filter'.lastId = filter.lastId)
    (objects : filter'.objects = filter.objects) :
    Grows filter filter' where
  raised := last.symm.le
  keeps := fun id has => by
    rw [FilterObd.Has, objects]
    exact has
  adds := fun id low high => by omega
  word := by rwa [last]

/-- A round makes one object at most, and one if it succeeds. -/
theorem precreateRound_grows {io : RoundIo}
    (ran : precreateRound group io filter = .ok done) :
    Grows filter done.filter ∧ done.filter.lastId ≤ filter.lastId + 1 ∧
      (done.rc = 0 → filter.lastId + 1 ≤ done.filter.lastId) := by
  rcases precreateRound_cases group io filter with
    ⟨rc, err, bit, fails, made⟩ | ⟨free, ⟨size, -, -, met⟩ | ⟨update, commit, made⟩⟩
  · cases made.symm.trans ran
    exact ⟨.of_same word rfl rfl, Nat.le_succ _, fun fine => absurd fine fails⟩
  · cases met.symm.trans ran
  · have limit := maxOid_le group
    rw [Blocked, not_or, not_le, Nat.mod_eq_of_lt word] at free
    rw [Nat.mod_eq_of_lt word] at made
    cases made.symm.trans ran
    rw [setLastId_filter]
    exact ⟨.withObject (by omega), le_rfl, fun _ => le_rfl⟩

theorem precreateLoop_grows {round : Nat → RoundIo} {left i : Nat}
    (ran : precreateLoop group round left i filter = .ok done) :
    Grows filter done.filter ∧ done.filter.lastId ≤ filter.lastId + left ∧
      (0 < left → done.rc = 0 → filter.lastId + 1 ≤ done.filter.lastId) := by
  induction left generalizing i filter done with
  | zero =>
    cases ran
    exact ⟨.of_same word rfl rfl, le_rfl, fun some => absurd some (lt_irrefl 0)⟩
  | succ left ih =>
    rw [precreateLoop] at ran
    split at ran
    · cases ran
    rename_i first made
    obtain ⟨grows, few, one⟩ := precreateRound_grows word made
    split at ran
    · cases ran
      exact ⟨grows, by omega, fun _ => one⟩
    · grind [cases Grows, intro Grows]

theorem filterPrecreate_grows {num : Nat}
    (ran : filterPrecreate group num io filter = .ok done) :
    Grows filter done.filter ∧ done.filter.lastId ≤ filter.lastId + num ∧
      (0 < num → done.rc = 0 → filter.lastId + 1 ≤ done.filter.lastId) := by
  unfold filterPrecreate at ran
  split at ran
  · grind [cases Grows, intro Grows]
  · exact precreateLoop_grows word ran

/-- A request to create that is not dropped answers with `LAST_ID`. -/
theorem handleCreate_grows {req : CreateReq} {out : Outcome}
    (fresh : ¬ req.connCnt < exp.connCnt) (fits : Fits req.oId filter.lastId)
    (ran : handleCreate exp req io filter = .ok out) :
    Grows filter out.filter ∧ out.oId ≤ out.filter.lastId := by
  unfold handleCreate at ran
  rw [if_neg fresh] at ran
  split at ran
  · cases ran
  rename_i nonneg
  unfold createMissing at ran
  split at ran
  · split at ran
    · cases ran
    · rename_i done made
      cases ran
      exact ⟨(filterPrecreate_grows word made).1, le_rfl⟩
  · rename_i none
    cases ran
    refine ⟨.of_same word rfl rfl, ?_⟩
    unfold precreateDiff at none nonneg
    split at none
    · exact absurd (by decide) none
    · rw [int32_of_small fits.1 fits.2] at none
      dsimp only
      omega

/-- Orphans behind `o_id` are destroyed. -/
theorem filterDestroyPrecreated_cleaned {oId : Nat} (orphans : oId < filter.lastId)
    (io : FilterIo) :
    Cleaned exp.skipOrphan oId filter (filterDestroyPrecreated exp oId io filter) := by
  unfold filterDestroyPrecreated
  cases skip : exp.skipOrphan with
  | true =>
    have last : (destroyLoop io.destroy true oId filter.lastId filter).1.lastId = filter.lastId :=
      destroyLoop_skip_lastId
    have noSpace : (0 : Int) ≠ enospc := by decide
    dsimp only
    rw [if_pos rfl]
    constructor <;> dsimp only <;> try rw [last]
    case near => omega
    case word => exact word
    case kept => exact fun _ => le_rfl
    case ahead => exact fun _ => orphans.le
    case same => exact nofun
    case reached => exact fun _ => Nat.le_succ _
    case exact => exact fun _ id low high => absurd low (not_lt.mpr high)
    case noSpace => exact fun full => absurd full noSpace
  | false =>
    have least : min oId filter.lastId = oId := min_eq_left orphans.le
    dsimp only
    rw [if_neg (by decide), least]
    constructor <;> dsimp only
    case near => exact Nat.le_succ _
    case word => omega
    case kept => exact nofun
    case ahead => exact fun _ => le_rfl
    case same => exact fun _ _ => rfl
    case reached => exact fun _ => Nat.le_succ _
    case exact => exact fun _ id low high => absurd low (not_lt.mpr high)
    case noSpace => exact fun _ id low high => absurd low (not_lt.mpr high)

theorem handleDelorphan_cleaned {req : CreateReq} {out : Outcome}
    (fresh : ¬ req.connCnt < exp.connCnt) (bit : filter.destroysInProgress = true) (near : req.oId ≤ filter.lastId + 1)
    (fits : Fits req.oId filter.lastId)
    (ran : handleDelorphan exp req filter.lastId io filter = .ok out) :
    Cleaned exp.skipOrphan req.oId filter out := by
  have known : ¬ (req.connCnt < exp.connCnt ∨ ¬ filter.destroysInProgress = true) := by
    rw [bit]
    simpa using fresh
  unfold handleDelorphan at ran
  rw [if_neg known] at ran
  dsimp only at ran
  rw [int32_of_small fits.1 fits.2] at ran
  have noError : einval ≠ 0 ∧ einval ≠ enospc := by decide
  split at ran
  · grind [cases Cleaned, intro Cleaned]
  split at ran
  · cases ran
    exact filterDestroyPrecreated_cleaned word (by omega) io
  unfold createMissing at ran
  split at ran
  · -- the creator is one object ahead
    split at ran
    · cases ran
    rename_i done made
    cases ran
    obtain ⟨grows, few, all⟩ := filterPrecreate_grows (by exact word) made
    have low := grows.raised
    refine ⟨?_, grows.word, fun _ => low, fun fine => ?_, fun _ fine => ?_, fun _ => Nat.le_succ _,
      fun _ id low high => ?_, fun _ id low high => ?_⟩ <;> dsimp only at *
    · omega
    · omega
    · omega
    · omega
    · omega
  · cases ran
    have noSpace : (0 : Int) ≠ enospc := by decide
    refine ⟨near, word, fun _ => le_rfl, fun _ => le_rfl, fun _ _ => rfl, fun _ => near,
      fun _ id low high => ?_, fun full => absurd full noSpace⟩
    dsimp only at low high
    omega

end Obdfilter
