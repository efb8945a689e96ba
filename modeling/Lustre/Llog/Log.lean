/-
Module: Lustre.Llog.Log
Purpose: A plain log file with the bitmap of its live records, and a catalog, whose records name
  plain logs.
Trusted boundary: only the writes of an append may fail; the header block is kept decoded in the
  handle; the byte order is the host's; plain logs are processed by the caller's functions
-/
import Lustre.Lib.Run

namespace Llog

/-! ### Constants and records -/

/-- Eight bytes of a log file as two 32-bit words; records are multiples of eight bytes. -/
abbrev Cell := Nat × Nat

/-- `LLOG_CHUNK_SIZE`. -/
def llogChunkSize : Nat := 8192

/-- `LLOG_MIN_REC_SIZE`. -/
def llogMinRecSize : Nat := 24

/-- `LLOG_HEADER_SIZE`. -/
def llogHeaderSize : Nat := 96

/-- `LLOG_BITMAP_BYTES`. -/
def llogBitmapBytes : Nat := llogChunkSize - llogHeaderSize

/-- `LLOG_BITMAP_SIZE` of an initialised header: `llh_bitmap_offset` is 88 and the tail has
8 bytes. -/
def llogBitmapSize : Nat := (llogChunkSize - 88 - 8) * 8

/-- `llog_op_type`. -/
inductive LlogOpType where
  | pad
  | ostSz
  | ostRaid1
  | mdsUnlink
  | mdsSetattr
  | mdsSetattr64
  | obdCfg
  | ptlCfg
  | llogGen
  | llogJoin
  | changelog
  | changelogUser
  | llogHdr
  | llogLogid
deriving DecidableEq, Repr

/-- The values of `llog_op_type`; `MDS_REINT` is 36, `REINT_SETATTR` 1, `REINT_UNLINK` 4. -/
def LlogOpType.value : LlogOpType → Nat
  | .pad => 0x10600000
  | .ostSz => 0x10600f00
  | .ostRaid1 => 0x10601000
  | .mdsUnlink => 0x10612404
  | .mdsSetattr => 0x10612401
  | .mdsSetattr64 => 0x10692401
  | .obdCfg => 0x10620000
  | .ptlCfg => 0x10630000
  | .llogGen => 0x10640000
  | .llogJoin => 0x10650000
  | .changelog => 0x10660000
  | .changelogUser => 0x10670000
  | .llogHdr => 0x10645539
  | .llogLogid => 0x1064553b

/-- A record: `lrh_len`, `lrh_index`, `lrh_type`, `padding` and what stands between the
header and the tail. -/
structure LlogRec where
  len : Nat
  index : Nat
  type : Nat
  padding : Nat
  payload : List Cell
deriving DecidableEq, Repr

/-- The bytes of a record; the tail repeats length and index. -/
def LlogRec.cells (rec : LlogRec) : List Cell :=
  (rec.len, rec.index) :: (rec.type, rec.padding) :: rec.payload ++ [(rec.len, rec.index)]

/-- A record to append.  With `buf` the payload comes separately and `lrh_len` counts it alone; `cookie`
asks for a cookie. -/
structure NewRec where
  type : LlogOpType
  padding : Nat
  payload : List Cell
  buf : Bool
  cookie : Bool
deriving DecidableEq, Repr

/-- The record's length in the log. -/
def NewRec.reclen (new : NewRec) : Nat := 8 * new.payload.length + 24

/-- The caller's `lrh_len`. -/
def NewRec.lrhLen (new : NewRec) : Nat :=
  if new.buf then 8 * new.payload.length else new.reclen

/-- The record as it is written. -/
def NewRec.record (new : NewRec) (index : Nat) : LlogRec :=
  ⟨new.reclen, index, new.type.value, new.padding, new.payload⟩

/-! ### The file -/

/-- `struct llog_handle` of a plain log with its file: `f_pos`, `lgh_last_idx`, `llh_bitmap`,
`llh_count`, `LLOG_F_ZAP_WHEN_EMPTY`, and its destruction. -/
structure LlogHandle where
  file : List Cell
  fPos : Nat
  lastIdx : Nat
  bitmap : Nat → Bool
  count : Nat
  zapWhenEmpty : Bool
  destroyed : Bool

/-- `i_size_read`. -/
def LlogHandle.size (log : LlogHandle) : Nat := 8 * log.file.length

/-- `ext2_set_bit` and `ext2_clear_bit`. -/
def assignBit (bitmap : Nat → Bool) (index : Nat) (value : Bool) : Nat → Bool := fun i =>
  if i = index then value else bitmap i

/-- `fsfilt_write_record` at `pos`; a hole before `pos` reads as zeros. -/
def writeRecord (file : List Cell) (pos : Nat) (cells : List Cell) : List Cell :=
  (file ++ List.replicate (pos / 8 - file.length) (0, 0)).take (pos / 8) ++ cells ++
    file.drop (pos / 8 + cells.length)

/-- `llog_lvfs_write_blob` at `off`; `f_pos` is left at the end of what was written or where it was, if
further. -/
def llogLvfsWriteBlob (log : LlogHandle) (cells : List Cell) (off : Nat) : LlogHandle :=
  { log with
    file := writeRecord log.file off cells
    fPos := max log.fPos (off + 8 * cells.length) }

/-- The header block as a record of the file. -/
def headerCells : List Cell := List.replicate (llogChunkSize / 8) (0, 0)

/-- The assertions of the log functions. -/
inductive LlogFault where
  | shortPad
  | bitAlreadySet
  | emptyLog
  | indexRange
  | otherByteOrder
  | outsideBuffer
  | loops
deriving DecidableEq, Repr

/-- `-E2BIG`. -/
def e2big : Int := -7

/-- `-ENOSPC`. -/
def enospc : Int := -28

/-- `-EINVAL`. -/
def einval : Int := -22

/-- `-ENOENT`. -/
def enoent : Int := -2

/-- `-EIO`. -/
def eio : Int := -5

/-! ### Appending -/

/-- `llog_lvfs_pad`: header and tail of the padding record, with a hole between them. -/
def llogLvfsPad (log : LlogHandle) (len index : Nat) : Except LlogFault LlogHandle :=
  if ¬ (len ≥ llogMinRecSize ∧ len % 8 = 0) then .error .shortPad
  else
    let file := writeRecord log.file log.fPos [(len, index), (LlogOpType.pad.value, 0)]
    let fPos := log.fPos + 16 + (len - 16 - 8)
    .ok { log with file := writeRecord file fPos [(len, index)], fPos := fPos + 8 }

/-- What an append returns: `rc`, the handle, and the cookie's `lgc_index` and
`lgc_subsys`. -/
structure Written where
  rc : Int
  log : LlogHandle
  cookie : Option (Nat × Int)

/-- The subsystem of a cookie: `LLOG_MDS_OST_ORIG_CTXT` is 2, `LLOG_SIZE_ORIG_CTXT` 4 and
`LLOG_RD1_ORIG_CTXT` 6. -/
def cookieSubsys : LlogOpType → Int
  | .mdsUnlink => 2
  | .mdsSetattr => 2
  | .mdsSetattr64 => 2
  | .ostSz => 4
  | .ostRaid1 => 6
  | _ => -1

/-- The size check of `llog_lvfs_write_rec`. -/
def NewRec.tooBig (new : NewRec) : Prop :=
  if new.buf then new.lrhLen > llogChunkSize - 16 - 8 else new.lrhLen > llogChunkSize

instance (new : NewRec) : Decidable new.tooBig :=
  inferInstanceAs (Decidable (if new.buf then _ else _))

/-- The bytes left in the chunk of `f_pos`. -/
def LlogHandle.left (log : LlogHandle) : Nat := llogChunkSize - log.fPos % llogChunkSize

/-- The padding step of `llog_lvfs_write_rec`.  The padding is a record, but no bit is
set. -/
def padChunk (log : LlogHandle) (reclen : Nat) : Except LlogFault LlogHandle :=
  if log.left ≠ 0 ∧ log.left ≠ reclen ∧ log.left < reclen + llogMinRecSize then
    match llogLvfsPad log log.left (log.lastIdx + 1) with
    | .ok log => .ok { log with lastIdx := log.lastIdx + 1 }
    | .error fault => .error fault
  else .ok log

/-- How the two writes of an append end: their results, and the cells of the record written when the
second fails. -/
structure BlobWrites where
  header : Int
  record : Int
  part : Nat
  errors : header ≤ 0 ∧ record ≤ 0

/-- Both succeed. -/
def BlobWrites.done : BlobWrites := ⟨0, 0, 0, le_rfl, le_rfl⟩

/-- The end of an append: the record takes the next index and its bit, then header and record are
written. -/
def writeNextBlobs (log : LlogHandle) (new : NewRec) (writes : BlobWrites) : Written :=
  let index := log.lastIdx + 1
  let log := { log with
    lastIdx := index, bitmap := assignBit log.bitmap index true, count := log.count + 1 }
  if writes.header ≠ 0 then ⟨writes.header, log, none⟩
  else
    let log := llogLvfsWriteBlob log headerCells 0
    let cells := (new.record index).cells
    if writes.record ≠ 0 then
      ⟨writes.record, llogLvfsWriteBlob log (cells.take writes.part) log.fPos, none⟩
    else
      ⟨if new.cookie ∨ new.type = .llogGen then 1 else 0, llogLvfsWriteBlob log cells log.fPos,
        if new.cookie then some (index, cookieSubsys new.type) else none⟩

/-- `llog_lvfs_write_rec` with index -1. -/
def llogLvfsWriteRecBlobs (log : LlogHandle) (new : NewRec) (writes : BlobWrites) :
    Except LlogFault Written :=
  if new.tooBig then .ok ⟨e2big, log, none⟩
  else
    match padChunk log new.reclen with
    | .error fault => .error fault
    | .ok log =>
      if log.lastIdx ≥ llogBitmapSize - 1 then .ok ⟨enospc, log, none⟩
      else if log.bitmap (log.lastIdx + 1) then .error .bitAlreadySet
      else .ok (writeNextBlobs log new writes)

/-- With writes that succeed. -/
def llogLvfsWriteRec (log : LlogHandle) (new : NewRec) : Except LlogFault Written :=
  llogLvfsWriteRecBlobs log new .done

/-- The log behind it. -/
def writeNext (log : LlogHandle) (new : NewRec) : LlogHandle := (writeNextBlobs log new .done).log

/-- `llog_cancel_rec`; `stored` says whether the header is rewritten or the log destroyed
without an error. -/
def llogCancelRec (log : LlogHandle) (index : Nat) (stored : Bool) :
    Except LlogFault (Int × LlogHandle) :=
  if index = 0 then .ok (einval, log)
  else if ¬ log.bitmap index then .ok (enoent, log)
  else
    let cleared := { log with
      bitmap := assignBit log.bitmap index false, count := log.count - 1 }
    if log.zapWhenEmpty ∧ cleared.count = 1 ∧ log.lastIdx = llogBitmapBytes * 8 - 1 then
      if stored then .ok (1, { cleared with destroyed := true }) else .ok (eio, log)
    else if log.file = [] then .error .emptyLog
    else if stored then .ok (0, llogLvfsWriteBlob cleared headerCells 0)
    else .ok (eio, log)

/-- `llog_init_handle` on a new file. -/
def newLog (zapWhenEmpty : Bool) : LlogHandle :=
  ⟨[], 0, 0, fun i => i = 0, 1, zapWhenEmpty, false⟩

/-- The operations on a plain log. -/
inductive LogOp where
  | append (new : NewRec)
  | cancel (index : Nat) (stored : Bool)
deriving DecidableEq, Repr

/-- What was appended and what was cancelled with success. -/
structure Journal where
  appended : List LlogRec
  cancelled : List Nat
deriving DecidableEq, Repr

/-- The records that were appended and not cancelled. -/
def Journal.live (journal : Journal) : List LlogRec :=
  journal.appended.filter (·.index ∉ journal.cancelled)

/-- One operation.  A destroyed log has no handle any more. -/
def logStep (state : LlogHandle × Journal) (op : LogOp) :
    Except LlogFault (LlogHandle × Journal) :=
  if state.1.destroyed then .ok state
  else
    match op with
    | .append new =>
      match llogLvfsWriteRec state.1 new with
      | .error fault => .error fault
      | .ok written =>
        if written.rc < 0 then .ok (written.log, state.2)
        else
          .ok (written.log,
            { state.2 with
              appended := state.2.appended ++ [new.record written.log.lastIdx] })
    | .cancel index stored =>
      match llogCancelRec state.1 index stored with
      | .error fault => .error fault
      | .ok (rc, log) =>
        if rc < 0 then .ok (log, state.2)
        else .ok (log, { state.2 with cancelled := index :: state.2.cancelled })

/-- `LLOG_REC_HDR_NEEDS_SWABBING`; 0xf0ff and 0x6010 are `LLOG_OP_MASK` and `LLOG_OP_MAGIC`
in the other byte order. -/
def needsSwabbing (type len : Nat) : Prop :=
  type &&& 0xf0ff = 0x6010 ∨ (type = 0 ∧ len > llogChunkSize)

instance (type len : Nat) : Decidable (needsSwabbing type len) :=
  inferInstanceAs (Decidable (_ ∨ _))

/-- Eight bytes of a buffer: length and index, of a record's header or of its tail. -/
def cellAt (buf : List Cell) (off : Nat) : Except LlogFault Cell :=
  match buf[off / 8]? with
  | some cell => .ok cell
  | none => .error .outsideBuffer

/-- The bytes that a pointer to a record stands for. -/
def recordAt (buf : List Cell) (off len : Nat) : List Cell := (buf.drop (off / 8)).take (len / 8)

/-- `fsfilt_read_record` of one chunk at `off`: what there is of it. -/
def readRecord (file : List Cell) (off : Nat) : List Cell :=
  (file.drop (off / 8)).take (llogChunkSize / 8)

/-- A chunk that was read, with zeros behind the end of the file. -/
def zeroFill (read : List Cell) : List Cell :=
  read ++ List.replicate (llogChunkSize / 8 - read.length) (0, 0)

/-- `llog_skip_over`. -/
def llogSkipOver (off curr goal : Nat) : Nat :=
  if goal ≤ curr then off
  else (off + (goal - curr - 1) * llogMinRecSize) / llogChunkSize * llogChunkSize

/-- What `llog_lvfs_next_block` returns and sets. -/
structure Block where
  rc : Int
  curIdx : Nat
  curOffset : Nat
  buf : List Cell
deriving DecidableEq, Repr

/-- `llog_lvfs_next_block` with a buffer of one chunk. -/
def llogLvfsNextBlock (log : LlogHandle) (nextIdx : Nat) :
    Nat → Nat → Nat → Except LlogFault Block
  | 0, _, _ => .error .loops
  | fuel + 1, curIdx, curOffset =>
    if curOffset < log.size then
      let off := llogSkipOver curOffset curIdx nextIdx
      let read := readRecord log.file off
      let curOffset := off + 8 * read.length
      match read.getLast? with
      | none => .ok ⟨0, curIdx, curOffset, zeroFill read⟩
      | some tail => do
          let first ← cellAt (zeroFill read) 0
          let second ← cellAt (zeroFill read) 8
          if needsSwabbing second.1 first.1 then .error .otherByteOrder
          else if tail.2 = 0 then .ok ⟨einval, tail.2, curOffset, zeroFill read⟩
          else if tail.2 < nextIdx then llogLvfsNextBlock log nextIdx fuel tail.2 curOffset
          else if first.2 > nextIdx then .ok ⟨enoent, tail.2, curOffset, zeroFill read⟩
          else .ok ⟨0, tail.2, curOffset, zeroFill read⟩
    else .ok ⟨eio, curIdx, curOffset, zeroFill []⟩

/-- The loop of `llog_lvfs_prev_block`; the caller has cleared the buffer. -/
def prevBlockLoop (log : LlogHandle) (prevIdx : Nat) :
    Nat → Nat → Except LlogFault (Int × List Cell)
  | 0, _ => .error .loops
  | fuel + 1, curOffset =>
    if curOffset < log.size then
      let read := readRecord log.file curOffset
      match read.getLast? with
      | none => .ok (0, zeroFill read)
      | some tail => do
          let first ← cellAt (zeroFill read) 0
          if tail.2 = 0 then .ok (einval, zeroFill read)
          else if tail.2 < prevIdx then
            prevBlockLoop log prevIdx fuel (curOffset + 8 * read.length)
          else if first.2 > prevIdx then .ok (enoent, zeroFill read)
          else .ok (0, zeroFill read)
    else .ok (eio, zeroFill [])

/-- `llog_lvfs_prev_block`. -/
def llogLvfsPrevBlock (log : LlogHandle) (prevIdx : Nat) : Except LlogFault (Int × List Cell) :=
  prevBlockLoop log prevIdx (log.file.length + 1) (llogSkipOver llogChunkSize 0 prevIdx)

/-! ### Processing forward -/

/-- `llog_cb_t`: the callback's data and the bytes of the record. -/
abbrev LlogCb (σ : Type) := σ → List Cell → Int × σ

/-- `LLOG_DEL_RECORD`. -/
def llogDelRecord : Int := 2

/-- `struct llog_process_cat_data`. -/
structure CatData where
  firstIdx : Nat
  lastIdx : Nat
deriving DecidableEq, Repr

/-- The first index to look at. -/
def CatData.start : Option CatData → Nat
  | none => 1
  | some cd => cd.firstIdx + 1

/-- The last index to look at. -/
def CatData.last : Option CatData → Nat
  | none => llogBitmapBytes * 8 - 1
  | some cd => if cd.lastIdx ≠ 0 then cd.lastIdx else llogBitmapBytes * 8 - 1

/-- The handle, the callback's data, `index` and `last_called_index`. -/
structure Scan (σ : Type) where
  log : LlogHandle
  data : σ
  index : Nat
  lastCalled : Nat

/-- The loop over clear bits, for so many indices from `index` on. -/
def skipClear (bitmap : Nat → Bool) (index : Nat) : Nat → Nat
  | 0 => index
  | n + 1 => if bitmap index then index else skipClear bitmap (index + 1) n

variable {σ : Type}

/-- The callback on a record whose bit is set.  `stored` is how a cancel that the callback
asks for ends. -/
def callSet (cb : LlogCb σ) (stored : Bool) (scan : Scan σ) (bytes : List Cell)
    (recIndex : Nat) : Except LlogFault (Int × Scan σ) :=
  if scan.log.bitmap scan.index then
    let called := cb scan.data bytes
    let scan := { scan with data := called.2, lastCalled := scan.index }
    if called.1 = llogDelRecord then do
      let cancelled ← llogCancelRec scan.log recIndex stored
      .ok (0, { scan with log := cancelled.2 })
    else .ok (called.1, scan)
  else .ok (0, scan)

/-- The loop over the records of a buffer; without a return code the buffer is used up. -/
def processBuf (cb : LlogCb σ) (stored : Bool) (buf : List Cell) (last : Nat) :
    Nat → Nat → Scan σ → Except LlogFault (Option Int × Scan σ)
  | 0, _, _ => .error .loops
  | fuel + 1, off, scan =>
    if off ≥ llogChunkSize then .ok (none, scan)
    else do
      let first ← cellAt buf off
      let second ← cellAt buf (off + 8)
      if needsSwabbing second.1 first.1 then .error .otherByteOrder
      else if first.2 = 0 then .ok (some 0, scan)
      else if first.1 = 0 ∨ first.1 > llogChunkSize then .ok (some einval, scan)
      else if first.2 < scan.index then processBuf cb stored buf last fuel (off + first.1) scan
      else do
        let called ← callSet cb stored scan (recordAt buf off first.1) first.2
        if called.1 ≠ 0 then .ok (some called.1, called.2)
        else
          let scan := { called.2 with index := called.2.index + 1 }
          if scan.index > last then .ok (some 0, scan)
          else processBuf cb stored buf last fuel (off + first.1) scan

/-- The outer loop of `llog_process_thread`. -/
def processLoop (cb : LlogCb σ) (stored : Bool) (last : Nat) :
    Nat → Nat → Nat → Scan σ → Except LlogFault (Int × Scan σ)
  | 0, _, _, _ => .error .loops
  | fuel + 1, savedIndex, curOffset, scan =>
    let index := skipClear scan.log.bitmap scan.index (last + 1 - scan.index)
    let scan := { scan with index := index }
    if index > last + 1 then .error .indexRange
    else if index = last + 1 then .ok (0, scan)
    else do
      let block ← llogLvfsNextBlock scan.log index (scan.log.file.length + 1) savedIndex curOffset
      if block.rc ≠ 0 then .ok (block.rc, scan)
      else do
        let done ← processBuf cb stored block.buf last (llogChunkSize + 1) 0 scan
        match done.1 with
        | some rc => .ok (rc, done.2)
        | none => processLoop cb stored last fuel block.curIdx block.curOffset done.2

/-- `llog_process`; the last index the callback was called with is what `catdata` gets. -/
def llogProcess (cb : LlogCb σ) (stored : Bool) (log : LlogHandle) (data : σ)
    (cd : Option CatData) : Except LlogFault (Int × Scan σ) :=
  processLoop cb stored (CatData.last cd) (llogBitmapSize + 1) 0 llogChunkSize
    ⟨log, data, CatData.start cd, CatData.start cd - 1⟩

/-- The loop over clear bits, for so many indices from `index` down. -/
def skipClearDown (bitmap : Nat → Bool) (index : Nat) : Nat → Nat
  | 0 => index
  | n + 1 => if bitmap index then index else skipClearDown bitmap (index - 1) n

/-- The walk over so many records of a buffer. -/
def walkRecords (buf : List Cell) : Nat → Nat → Except LlogFault Nat
  | 0, off => .ok off
  | n + 1, off => do
      let first ← cellAt buf off
      walkRecords buf n (off + first.1)

/-- The loop over the records of a buffer from the one that ends at `stop` back, by the tails. -/
def reverseBuf (cb : LlogCb σ) (bitmap : Nat → Bool) (buf : List Cell) (first : Nat) :
    Nat → Nat → Nat → σ → Except LlogFault (Option Int × Nat × σ)
  | 0, _, _, _ => .error .loops
  | fuel + 1, stop, index, data =>
    if stop ≤ 8 then .ok (none, index, data)
    else do
      let tail ← cellAt buf (stop - 8)
      if tail.1 > stop then .error .outsideBuffer
      else do
        let hdr ← cellAt buf (stop - tail.1)
        if hdr.2 = 0 then .ok (some 0, index, data)
        else
          let called :=
            if bitmap index then cb data (recordAt buf (stop - tail.1) hdr.1) else (0, data)
          if called.1 ≠ 0 then .ok (some called.1, index, called.2)
          else if index - 1 < first then .ok (some 0, index - 1, called.2)
          else reverseBuf cb bitmap buf first fuel (stop - tail.1) (index - 1) called.2

/-- The outer loop of `llog_reverse_process`. -/
def reverseLoop (cb : LlogCb σ) (log : LlogHandle) (first : Nat) :
    Nat → Nat → σ → Except LlogFault (Int × σ)
  | 0, _, _ => .error .loops
  | fuel + 1, index, data =>
    let index := skipClearDown log.bitmap index (index + 1 - first)
    if index < first - 1 then .error .indexRange
    else if index = first - 1 then .ok (0, data)
    else do
      let block ← llogLvfsPrevBlock log index
      if block.1 ≠ 0 then .ok (block.1, data)
      else do
        let hdr ← cellAt block.2 0
        let off ← walkRecords block.2 (index - hdr.2) 0
        let here ← cellAt block.2 off
        let done ← reverseBuf cb log.bitmap block.2 first (index + 1) (off + here.1) index data
        match done.1 with
        | some rc => .ok (rc, done.2.2)
        | none => reverseLoop cb log first fuel done.2.1 done.2.2

/-- `llog_reverse_process`. -/
def llogReverseProcess (cb : LlogCb σ) (log : LlogHandle) (data : σ) (cd : Option CatData) :
    Except LlogFault (Int × σ) :=
  reverseLoop cb log (CatData.start cd) (llogBitmapSize + 1) (CatData.last cd) data

/-- `struct llog_logid`. -/
structure LlogLogid where
  oid : Cell
  oseq : Cell
  ogen : Nat
deriving DecidableEq, Repr

/-- `struct llog_logid_rec` for a slot; `sizeof` is 64, five words of padding stand behind the
name. -/
def logidRec (id : LlogLogid) (index : Nat) : LlogRec :=
  ⟨64, index, LlogOpType.llogLogid.value, 0, [id.oid, id.oseq, (id.ogen, 0), (0, 0), (0, 0)]⟩

/-- `struct llog_handle` of a catalog with `llh_cat_idx`. -/
structure Catalog where
  log : LlogHandle
  catIdx : Nat

/-- How far the creation of a plain log gets: to its end, or the log, the header of the catalog or the
record fails. -/
inductive NewLogIo where
  | done
  | noLog
  | noHeader
  | noRecord
deriving DecidableEq, Repr

/-- `llog_lvfs_write_rec` for a slot; `llh_size` of a catalog is the length of its records. -/
def llogLvfsWriteSlot (log : LlogHandle) (rec : LlogRec) (index : Nat) (io : NewLogIo) :
    Except LlogFault (Int × LlogHandle) :=
  if rec.len > llogChunkSize then .ok (e2big, log)
  else if index ≠ 1 ∧ log.file = [] then .error .emptyLog
  else if io = .noHeader then .ok (eio, log)
  else
    let headed := llogLvfsWriteBlob log headerCells 0
    if io = .noRecord then .ok (eio, headed)
    else .ok (1, llogLvfsWriteBlob headed rec.cells (llogChunkSize + (index - 1) * rec.len))

/-- The slot that `llog_cat_new_log` takes: the next one, but never slot 0. -/
def Catalog.nextSlot (cat : Catalog) : Nat :=
  if (cat.log.lastIdx + 1) % llogBitmapSize = 0 then 1
  else (cat.log.lastIdx + 1) % llogBitmapSize

/-- `llog_cat_new_log`.  The new log is returned when the code is not negative. -/
def llogCatNewLog (cat : Catalog) (id : LlogLogid) (io : NewLogIo) :
    Except LlogFault (Int × Catalog) :=
  if cat.catIdx = (cat.log.lastIdx + 1) % llogBitmapSize then .ok (enospc, cat)
  else if io = .noLog then .ok (eio, cat)
  else if cat.log.bitmap cat.nextSlot then .error .bitAlreadySet
  else
    let log := { cat.log with
      lastIdx := cat.nextSlot
      bitmap := assignBit cat.log.bitmap cat.nextSlot true
      count := cat.log.count + 1 }
    match llogLvfsWriteSlot log (logidRec id cat.nextSlot) cat.nextSlot io with
    | .ok (rc, log) => .ok (rc, { cat with log := log })
    | .error fault => .error fault

/-- The loop of `llog_cat_set_first_idx` from slot `i` on. -/
def firstIdxLoop (bitmap : Nat → Bool) (last : Nat) : Nat → Nat → Nat → Except LlogFault Nat
  | 0, _, _ => .error .loops
  | fuel + 1, i, catIdx =>
    if i = last then .ok catIdx
    else if ¬ bitmap i then firstIdxLoop bitmap last fuel ((i + 1) % llogBitmapSize) (catIdx + 1)
    else if i = 0 then firstIdxLoop bitmap last fuel ((i + 1) % llogBitmapSize) 0
    else .ok catIdx

/-- `llog_cat_set_first_idx`. -/
def llogCatSetFirstIdx (cat : Catalog) (index : Nat) : Except LlogFault Catalog :=
  if cat.catIdx + 1 = index then
    if index = cat.log.lastIdx then .ok { cat with catIdx := index }
    else
      match firstIdxLoop cat.log.bitmap cat.log.lastIdx (2 * llogBitmapSize)
          ((index + 1) % llogBitmapSize) index with
      | .ok catIdx => .ok { cat with catIdx := catIdx }
      | .error fault => .error fault
  else .ok cat

/-- What `llog_cat_cancel_records` does with the slot of a log that was destroyed. -/
def cancelSlot (cat : Catalog) (index : Nat) (stored : Bool) : Except LlogFault Catalog :=
  match llogCatSetFirstIdx cat index with
  | .error fault => .error fault
  | .ok cat =>
    match llogCancelRec cat.log index stored with
    | .ok (_, log) => .ok { cat with log := log }
    | .error fault => .error fault

/-- A catalog on a new file. -/
def newCatalog : Catalog := ⟨newLog false, 0⟩

/-- A catalog with the slots and names of its plain logs, in creation order. -/
structure CatState where
  cat : Catalog
  live : List (Nat × LlogLogid)

/-- The operations on a catalog. -/
inductive CatOp where
  | newLog (id : LlogLogid) (io : NewLogIo)
  | destroy (slot : Nat) (stored : Bool)
deriving DecidableEq, Repr

/-- One operation. -/
def catStep (s : CatState) : CatOp → Except LlogFault CatState
  | .newLog id io =>
    match llogCatNewLog s.cat id io with
    | .error fault => .error fault
    | .ok (rc, cat) =>
      if rc < 0 then .ok { s with cat := cat }
      else .ok ⟨cat, s.live ++ [(cat.log.lastIdx, id)]⟩
  | .destroy slot stored =>
    if slot ∈ s.live.map (·.1) then
      match cancelSlot s.cat slot stored with
      | .error fault => .error fault
      | .ok cat => .ok ⟨cat, s.live.filter (·.1 ≠ slot)⟩
    else .ok s

/-- A new catalog without logs. -/
def noLogs : CatState := ⟨newCatalog, []⟩

section

variable {σ : Type}

/-- The name in a record of a catalog. -/
def logidOf : List Cell → Option (Nat × Nat × LlogLogid)
  | (_, index) :: (type, _) :: oid :: oseq :: (ogen, _) :: _ => some (index, type, ⟨oid, oseq, ogen⟩)
  | _ => none

/-- The data of `llog_cat_process_cb`: `lpd_startidx` and the data of the caller. -/
structure CatScan (σ : Type) where
  startidx : Nat
  data : σ

/-- `llog_cat_process_cb`; `find` is `llog_cat_id2handle`, `visit` is `llog_process_flags` from an index
on. -/
def llogCatProcessCb (find : LlogLogid → Int) (visit : LlogLogid → Nat → σ → Int × σ)
    (startcat : Nat) : LlogCb (CatScan σ) := fun scan bytes =>
  match logidOf bytes with
  | none => (einval, scan)
  | some (index, type, id) =>
    if type ≠ LlogOpType.llogLogid.value then (einval, scan)
    else if find id ≠ 0 then (find id, scan)
    else if index < startcat then (0, scan)
    else ((visit id scan.startidx scan.data).1, ⟨0, (visit id scan.startidx scan.data).2⟩)

/-- `llog_cat_process_flags`. -/
def llogCatProcessFlags (find : LlogLogid → Int) (visit : LlogLogid → Nat → σ → Int × σ)
    (stored : Bool) (cat : Catalog) (data : σ) (startcat startidx : Nat) :
    Except LlogFault (Int × σ) :=
  if cat.catIdx > cat.log.lastIdx then
    match llogProcess (llogCatProcessCb find visit startcat) stored cat.log ⟨startidx, data⟩
        (some ⟨cat.catIdx, 0⟩) with
    | .error fault => .error fault
    | .ok (rc, scan) =>
      if rc ≠ 0 then .ok (rc, scan.data.data)
      else
        match llogProcess (llogCatProcessCb find visit startcat) stored scan.log scan.data
            (some ⟨0, scan.log.lastIdx⟩) with
        | .error fault => .error fault
        | .ok (rc, scan) => .ok (rc, scan.data.data)
  else
    match llogProcess (llogCatProcessCb find visit startcat) stored cat.log ⟨startidx, data⟩ none with
    | .error fault => .error fault
    | .ok (rc, scan) => .ok (rc, scan.data.data)

/-- `llog_cat_process`. -/
def llogCatProcess (find : LlogLogid → Int) (visit : LlogLogid → Nat → σ → Int × σ) (stored : Bool)
    (cat : Catalog) (data : σ) (startcat startidx : Nat) : Except LlogFault (Int × σ) :=
  llogCatProcessFlags find visit stored cat data startcat startidx

/-- `llog_cat_reverse_process_cb`; `visit` is `llog_reverse_process` on the plain log. -/
def llogCatReverseProcessCb (find : LlogLogid → Int) (visit : LlogLogid → σ → Int × σ) :
    LlogCb σ := fun data bytes =>
  match logidOf bytes with
  | none => (einval, data)
  | some (_, type, id) =>
    if type ≠ LlogOpType.llogLogid.value then (einval, data)
    else if find id ≠ 0 then (find id, data)
    else visit id data

/-- `llog_cat_reverse_process`. -/
def llogCatReverseProcess (find : LlogLogid → Int) (visit : LlogLogid → σ → Int × σ) (cat : Catalog)
    (data : σ) : Except LlogFault (Int × σ) :=
  if cat.catIdx > cat.log.lastIdx then
    match llogReverseProcess (llogCatReverseProcessCb find visit) cat.log data
        (some ⟨0, cat.log.lastIdx⟩) with
    | .error fault => .error fault
    | .ok (rc, data) =>
      if rc ≠ 0 then .ok (rc, data)
      else
        llogReverseProcess (llogCatReverseProcessCb find visit) cat.log data (some ⟨cat.catIdx, 0⟩)
  else llogReverseProcess (llogCatReverseProcessCb find visit) cat.log data none

end

end Llog
