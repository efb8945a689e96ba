/-
Module: Lustre.Llog.Chunks
Purpose: The layout of a plain log: records never cross chunks, as long as none leaves 8 or 16 bytes
  of its chunk.
Trusted boundary: none
-/
import Lustre.Llog.Log
import Mathlib.Tactic.Ring

namespace Llog

open List Run

variable {log : LlogHandle} {rec : LlogRec} {recs : List LlogRec} {new : NewRec}

/-! ### Records and chunks -/

/-- The length of a record says how many bytes it has. -/
def LlogRec.Sized (rec : LlogRec) : Prop := rec.len = 8 * rec.payload.length + 24

/-- The record has one of the types of `llog_op_type`. -/
def LlogRec.Typed (rec : LlogRec) : Prop := ∃ type : LlogOpType, rec.type = type.value

/-- The bytes of records one behind the other. -/
def chunkCells (recs : List LlogRec) : List Cell := recs.flatMap LlogRec.cells

/-- The lengths of records added up. -/
def chunkTotal (recs : List LlogRec) : Nat := (recs.map (·.len)).sum

theorem LlogRec.Sized.length (sized : rec.Sized) : 8 * rec.cells.length = rec.len := by
  grind [LlogRec.Sized, LlogRec.cells]

@[simp] theorem chunkTotal_append (recs more : List LlogRec) :
    chunkTotal (recs ++ more) = chunkTotal recs + chunkTotal more := by
  simp [chunkTotal]

theorem chunkCells_length (sized : ∀ rec ∈ recs, rec.Sized) :
    8 * (chunkCells recs).length = chunkTotal recs := by
  induction recs with
  | nil => rfl
  | cons rec recs ih =>
    obtain ⟨first, others⟩ := forall_mem_cons.mp sized
    have := first.length
    have := ih others
    simp only [chunkCells, chunkTotal, flatMap_cons, length_append, map_cons, sum_cons] at *
    omega

/-- The padding record of a length. -/
def padRec (len index : Nat) : LlogRec :=
  ⟨len, index, LlogOpType.pad.value, 0, List.replicate (len / 8 - 3) (0, 0)⟩

variable {index : Nat}

theorem padRec_sized {len : Nat} (long : 24 ≤ len) (whole : len % 8 = 0) :
    (padRec len index).Sized := by
  unfold LlogRec.Sized padRec
  simp only [length_replicate]
  omega

theorem writeRecord_gap (file cells : List Cell) (gap : Nat) :
    writeRecord file (8 * (file.length + gap)) cells =
      file ++ List.replicate gap (0, 0) ++ cells := by
  unfold writeRecord
  rw [Nat.mul_div_cancel_left _ (by decide), Nat.add_sub_cancel_left, take_of_length_le,
    drop_eq_nil_of_le, append_nil]
  · omega
  · simp

theorem writeRecord_end (file cells : List Cell) :
    writeRecord file (8 * file.length) cells = file ++ cells := by
  simpa using writeRecord_gap file cells 0

theorem headerCells_length : headerCells.length = 1024 := length_replicate

/-- Rewriting the header changes nothing behind it. -/
theorem writeRecord_header (body : List Cell) :
    writeRecord (headerCells ++ body) 0 headerCells = headerCells ++ body := by
  unfold writeRecord
  simp

theorem writeRecord_newHeader : writeRecord [] 0 headerCells = headerCells := by
  unfold writeRecord
  simp

/-- What `llog_lvfs_pad` writes at the end of the file. -/
theorem llogLvfsPad_end {len : Nat} (pos : log.fPos = log.size) (long : 24 ≤ len)
    (whole : len % 8 = 0) : llogLvfsPad log len index =
      .ok { log with
        file := log.file ++ (padRec len index).cells, fPos := log.fPos + len } := by
  unfold llogLvfsPad
  rw [if_neg (not_not.mpr ⟨long, whole⟩)]
  have first : writeRecord log.file log.fPos [(len, index), (LlogOpType.pad.value, 0)] =
      log.file ++ [(len, index), (LlogOpType.pad.value, 0)] := by
    rw [pos]
    exact writeRecord_end _ _
  have place : log.fPos + 16 + (len - 16 - 8) =
      8 * ((log.file ++ [(len, index), (LlogOpType.pad.value, 0)]).length + (len / 8 - 3)) := by
    rw [pos, LlogHandle.size, length_append]
    simp only [length_cons, length_nil]
    omega
  simp only
  rw [first, place, writeRecord_gap]
  congr 2
  · unfold LlogRec.cells padRec
    simp
  · omega

/-! ### The layout -/

/-- The body of the file: full chunks and the chunk that is being filled. -/
def bodyCells (front : List (List LlogRec)) (cur : List LlogRec) : List Cell :=
  (front.map chunkCells).flatten ++ chunkCells cur

/-- The layout of a log: a file without even a header, or header and body; the chunk being filled is full
or has room for padding. -/
structure Laid (log : LlogHandle) (front : List (List LlogRec)) (cur : List LlogRec) : Prop where
  file : (log.file = [] ∧ front = [] ∧ cur = []) ∨
    (log.file = headerCells ++ bodyCells front cur ∧ cur ≠ [])
  pos : log.fPos = log.size
  sized : ∀ rec ∈ front.flatten ++ cur, rec.Sized
  typed : ∀ rec ∈ front.flatten ++ cur, rec.Typed
  full : ∀ chunk ∈ front, chunkTotal chunk = llogChunkSize
  room : chunkTotal cur = llogChunkSize ∨ chunkTotal cur + llogMinRecSize ≤ llogChunkSize
  numbered : (front.flatten ++ cur).map (·.index) = List.range' 1 log.lastIdx
  clear : ∀ i, log.lastIdx < i → log.bitmap i = false

variable {front : List (List LlogRec)} {cur : List LlogRec}

theorem bodyCells_length (sized : ∀ rec ∈ front.flatten ++ cur, rec.Sized)
    (full : ∀ chunk ∈ front, chunkTotal chunk = llogChunkSize) :
    8 * (bodyCells front cur).length = llogChunkSize * front.length + chunkTotal cur := by
  have whole : 8 * ((front.map chunkCells).flatten).length = llogChunkSize * front.length := by
    induction front with
    | nil => rfl
    | cons chunk front ih =>
      obtain ⟨first, others⟩ := forall_mem_cons.mp full
      have sized' : ∀ rec ∈ front.flatten ++ cur, rec.Sized := fun rec mem =>
        sized rec (by simp only [flatten_cons, append_assoc]; exact mem_append_right _ mem)
      have head : 8 * (chunkCells chunk).length = chunkTotal chunk :=
        chunkCells_length fun rec mem => sized rec (by simp [mem])
      have rest := ih sized' others
      simp only [map_cons, flatten_cons, length_append, length_cons] at *
      rw [mul_add, head, rest, first]
      ring
  have last : 8 * (chunkCells cur).length = chunkTotal cur :=
    chunkCells_length fun rec mem => sized rec (mem_append_right _ mem)
  unfold bodyCells
  rw [length_append]
  omega

variable {log' : LlogHandle}

namespace Laid

variable (laid : Laid log front cur)

include laid

/-- What is left of the chunk at `f_pos`. -/
theorem left_eq : log.left = if chunkTotal cur = llogChunkSize then llogChunkSize
      else llogChunkSize - chunkTotal cur := by
  have body := bodyCells_length laid.sized laid.full
  have room := laid.room
  unfold LlogHandle.left
  rw [laid.pos, LlogHandle.size]
  unfold llogChunkSize llogMinRecSize at *
  rcases laid.file with ⟨empty, -, rfl⟩ | ⟨file, -⟩
  · rw [empty]
    simp [chunkTotal]
  · rw [file, length_append, headerCells_length]
    split <;> omega

section

variable (sized : rec.Sized) (typed : rec.Typed) (number : rec.index = log.lastIdx + 1)
  (file : log'.file = headerCells ++ bodyCells front cur ++ rec.cells)
  (pos : log'.fPos = log'.size) (last : log'.lastIdx = log.lastIdx + 1)
  (clear : ∀ i, log'.lastIdx < i → log'.bitmap i = false)

include sized typed number file pos last clear

/-- One more record behind the others, in a layout that is filled as it should be. -/
theorem grow {front' : List (List LlogRec)} {cur' : List LlogRec}
    (records : front'.flatten ++ cur' = front.flatten ++ cur ++ [rec])
    (body : bodyCells front' cur' = bodyCells front cur ++ rec.cells) (some : cur' ≠ [])
    (full : ∀ chunk ∈ front', chunkTotal chunk = llogChunkSize)
    (room : chunkTotal cur' = llogChunkSize ∨ chunkTotal cur' + llogMinRecSize ≤ llogChunkSize) :
    Laid log' front' cur' := by
  refine ⟨.inr ⟨?_, some⟩, pos, ?_, ?_, full, room, ?_, clear⟩
  · rw [file, append_assoc, body]
  · grind [cases Laid]
  · grind [cases Laid]
  · rw [records, map_append, laid.numbered, last, range'_concat]
    simp [number, add_comm]

/-- A record that fits is written into the chunk. -/
theorem snoc (fits : chunkTotal cur + rec.len = llogChunkSize ∨
    chunkTotal cur + rec.len + llogMinRecSize ≤ llogChunkSize) : Laid log' front (cur ++ [rec]) := by
  refine laid.grow sized typed number file pos last clear ?_ ?_ (by simp) laid.full ?_
  · simp
  · simp [bodyCells, chunkCells]
  · simpa [chunkTotal] using fits

/-- A full chunk is followed by a new one. -/
theorem turn (filled : chunkTotal cur = llogChunkSize)
    (fits : rec.len = llogChunkSize ∨ rec.len + llogMinRecSize ≤ llogChunkSize) :
    Laid log' (front ++ [cur]) [rec] := by
  refine laid.grow sized typed number file pos last clear ?_ ?_ (by simp) ?_ ?_
  · simp
  · simp [bodyCells, chunkCells]
  · exact forall_mem_append.mpr ⟨laid.full, forall_mem_singleton.mpr filled⟩
  · simpa [chunkTotal] using fits

end

theorem headed : writeRecord log.file 0 headerCells = headerCells ++ bodyCells front cur := by
  rcases laid.file with ⟨empty, rfl, rfl⟩ | ⟨file, -⟩
  · rw [empty, writeRecord_newHeader]
    simp [bodyCells, chunkCells]
  · rw [file, writeRecord_header]

theorem pads (some : cur ≠ []) (free : chunkTotal cur ≠ llogChunkSize) :
    ∃ log' pad, llogLvfsPad log log.left (log.lastIdx + 1) = .ok log' ∧
      log'.lastIdx = log.lastIdx ∧ log'.bitmap = log.bitmap ∧ pad.index = log.lastIdx + 1 ∧
      Laid { log' with lastIdx := log'.lastIdx + 1 } front (cur ++ [pad]) ∧
      chunkTotal (cur ++ [pad]) = llogChunkSize := by
  have room := laid.room.resolve_left free
  have left : log.left = llogChunkSize - chunkTotal cur := by
    rw [laid.left_eq, if_neg free]
  have whole := chunkCells_length fun rec mem => laid.sized rec (mem_append_right _ mem)
  have file := (laid.file.resolve_left fun empty => some empty.2.2).1
  unfold llogChunkSize llogMinRecSize at room
  unfold llogChunkSize at left
  have sized : (padRec log.left (log.lastIdx + 1)).Sized := padRec_sized (by omega) (by omega)
  have total : chunkTotal (cur ++ [padRec log.left (log.lastIdx + 1)]) = llogChunkSize := by
    rw [chunkTotal_append]
    simp only [chunkTotal, padRec, map_cons, map_nil, sum_cons, sum_nil]
    unfold chunkTotal at left room
    unfold llogChunkSize
    omega
  refine ⟨_, padRec log.left (log.lastIdx + 1), llogLvfsPad_end laid.pos (by omega) (by omega),
    rfl, rfl, rfl, ?_, total⟩
  refine laid.snoc sized ⟨.pad, rfl⟩ rfl (by rw [file]) ?_ rfl (fun i lt => laid.clear i (by
    have : log.lastIdx + 1 < i := lt
    omega)) (.inl (by simpa [chunkTotal] using total))
  · have length : 8 * (padRec log.left (log.lastIdx + 1)).cells.length = log.left := sized.length
    show log.fPos + log.left = 8 * (log.file ++ (padRec log.left (log.lastIdx + 1)).cells).length
    rw [laid.pos, LlogHandle.size, length_append]
    omega

/-- Once the header is there the file ends at `f_pos`. -/
theorem headed_pos :
    max log.fPos (0 + 8 * headerCells.length) = 8 * (headerCells ++ bodyCells front cur).length := by
  rw [laid.pos, LlogHandle.size, length_append, headerCells_length]
  rcases laid.file with ⟨empty, rfl, rfl⟩ | ⟨file, -⟩
  · rw [empty]
    simp [bodyCells, chunkCells]
  · rw [file, length_append, headerCells_length]
    omega

theorem writeNext_eq (new : NewRec) : (writeNext log new).file =
        headerCells ++ bodyCells front cur ++ (new.record (log.lastIdx + 1)).cells ∧
      (writeNext log new).fPos = (writeNext log new).size ∧
      ∀ i, (writeNext log new).lastIdx < i → (writeNext log new).bitmap i = false := by
  have file : (writeNext log new).file =
      headerCells ++ bodyCells front cur ++ (new.record (log.lastIdx + 1)).cells := by
    show writeRecord (writeRecord log.file 0 headerCells)
      (max log.fPos (0 + 8 * headerCells.length)) _ = _
    rw [laid.headed, laid.headed_pos, writeRecord_end]
  refine ⟨file, ?_, fun i lt => ?_⟩
  · rw [LlogHandle.size, file, length_append, mul_add, ← laid.headed_pos]
    exact max_eq_right (Nat.le_add_right _ _)
  · have later : log.lastIdx + 1 < i := lt
    show assignBit log.bitmap (log.lastIdx + 1) true i = false
    rw [assignBit, if_neg (by omega)]
    exact laid.clear i (by omega)

end Laid

/-! ### One operation -/

/-- The record does not leave 8 or 16 bytes of a chunk that it starts. -/
def NewRec.Roomy (new : NewRec) : Prop := new.reclen ≠ 8176 ∧ new.reclen ≠ 8184

theorem NewRec.reclen_le (small : ¬ new.tooBig) : new.reclen ≤ llogChunkSize := by
  unfold NewRec.tooBig NewRec.lrhLen NewRec.reclen llogChunkSize at *
  split at small <;> omega

/-- Writes that succeed end an append without an error. -/
theorem writeNextBlobs_rc (log : LlogHandle) (new : NewRec) : 0 ≤ (writeNextBlobs log new .done).rc := by
  show 0 ≤ if new.cookie ∨ new.type = .llogGen then (1 : Int) else 0
  split <;> decide

section

variable (laid : Laid log front cur)

include laid

/-- The padding step leaves a chunk that the record fits into, or a full one. -/
theorem padChunk_laid (roomy : new.Roomy) (small : ¬ new.tooBig) :
    ∃ log' pads, padChunk log new.reclen = .ok log' ∧ Laid log' front (cur ++ pads) ∧
      (∀ pad ∈ pads, log.lastIdx < pad.index ∧ pad.index ≤ log'.lastIdx) ∧
      log.lastIdx ≤ log'.lastIdx ∧ log'.bitmap = log.bitmap ∧
      (chunkTotal (cur ++ pads) = llogChunkSize ∨
        chunkTotal (cur ++ pads) + new.reclen = llogChunkSize ∨
        chunkTotal (cur ++ pads) + new.reclen + llogMinRecSize ≤ llogChunkSize) := by
  have left := laid.left_eq
  have room := laid.room
  have bound := NewRec.reclen_le small
  have whole : new.reclen % 8 = 0 := by
    unfold NewRec.reclen
    omega
  unfold padChunk
  split_ifs with tight
  · -- only the lengths that are excluded ask for padding at the start of a chunk
    have free : chunkTotal cur ≠ llogChunkSize ∧ chunkTotal cur ≠ 0 := by
      unfold NewRec.Roomy at roomy
      unfold llogChunkSize llogMinRecSize at *
      split at left <;> omega
    have some : cur ≠ [] := fun empty => free.2 (by rw [empty]; rfl)
    obtain ⟨log', pad, done, last, bitmap, index, laid', total⟩ := laid.pads some free.1
    rw [done]
    refine ⟨_, [pad], rfl, laid', ?_, ?_, bitmap, .inl total⟩
    · grind
    · show log.lastIdx ≤ log'.lastIdx + 1
      omega
  · refine ⟨log, [], rfl, by simpa using laid, by simp, le_rfl, rfl, ?_⟩
    rw [append_nil]
    split at left <;> omega

/-- An append does nothing to the layout, only pads when the indices are used up, or adds the record,
behind padding if needed. -/
structure Appended (log : LlogHandle) (front : List (List LlogRec)) (cur : List LlogRec)
    (new : NewRec) (written : Written) : Prop where
  failed : written.rc < 0 → ∃ front' cur' pads, Laid written.log front' cur' ∧
    front'.flatten ++ cur' = front.flatten ++ cur ++ pads ∧
    (∀ pad ∈ pads, log.lastIdx < pad.index) ∧ log.lastIdx ≤ written.log.lastIdx ∧
    written.log.bitmap = log.bitmap
  done : ¬ written.rc < 0 → ∃ front' cur' pads, Laid written.log front' cur' ∧
    front'.flatten ++ cur' = front.flatten ++ cur ++ pads ++ [new.record written.log.lastIdx] ∧
    (∀ pad ∈ pads, log.lastIdx < pad.index ∧ pad.index < written.log.lastIdx) ∧
    log.lastIdx < written.log.lastIdx ∧
    written.log.bitmap = assignBit log.bitmap written.log.lastIdx true ∧
    written.log.lastIdx < llogBitmapSize

theorem llogLvfsWriteRec_laid (roomy : new.Roomy) :
    ∃ written, llogLvfsWriteRec log new = .ok written ∧ Appended log front cur new written := by
  unfold llogLvfsWriteRec llogLvfsWriteRecBlobs
  by_cases big : new.tooBig
  · rw [if_pos big]
    exact ⟨_, rfl, fun _ => ⟨front, cur, [], laid, by simp, by simp, le_rfl, rfl⟩,
      fun ok => absurd (show e2big < 0 by decide) ok⟩
  rw [if_neg big]
  obtain ⟨log₁, pads, done, laid₁, padIdx, last, bitmap, fits⟩ :=
    padChunk_laid laid roomy big
  simp only [done]
  have records : front.flatten ++ (cur ++ pads) = front.flatten ++ cur ++ pads :=
    (append_assoc _ _ _).symm
  by_cases full : log₁.lastIdx ≥ llogBitmapSize - 1
  · rw [if_pos full]
    exact ⟨_, rfl, fun _ => ⟨front, cur ++ pads, pads, laid₁, records,
      fun pad mem => (padIdx pad mem).1, last, bitmap⟩,
      fun ok => absurd (show enospc < 0 by decide) ok⟩
  rw [if_neg full, if_neg (by rw [laid₁.clear _ (Nat.lt_succ_self _)]; simp)]
  obtain ⟨file, pos, clear⟩ := laid₁.writeNext_eq new
  have sized : (new.record (log₁.lastIdx + 1)).Sized := rfl
  refine ⟨_, rfl, fun bad => ?_, fun _ => ?_⟩
  · exact absurd bad (writeNextBlobs_rc log₁ new).not_gt
  · have padIdx' : ∀ pad ∈ pads, log.lastIdx < pad.index ∧
        pad.index < (writeNext log₁ new).lastIdx := fun pad mem =>
      ⟨(padIdx pad mem).1, Nat.lt_succ_of_le (padIdx pad mem).2⟩
    have later : log.lastIdx < (writeNext log₁ new).lastIdx := Nat.lt_succ_of_le last
    have bound : (writeNext log₁ new).lastIdx < llogBitmapSize := by
      show log₁.lastIdx + 1 < llogBitmapSize
      omega
    have bits : (writeNext log₁ new).bitmap =
        assignBit log.bitmap (writeNext log₁ new).lastIdx true := by
      show assignBit log₁.bitmap _ true = _
      rw [bitmap]
      rfl
    rcases fits with filled | fits
    · have fits : new.reclen = llogChunkSize ∨ new.reclen + llogMinRecSize ≤ llogChunkSize := by
        have bound := NewRec.reclen_le big
        unfold NewRec.Roomy NewRec.reclen at *
        unfold llogChunkSize llogMinRecSize at *
        omega
      refine ⟨_, _, pads, laid₁.turn sized ⟨new.type, rfl⟩ rfl file pos rfl clear filled fits, ?_,
        padIdx', later, bits, bound⟩
      simp [writeNextBlobs, BlobWrites.done, llogLvfsWriteBlob]
    · refine ⟨_, _, pads, laid₁.snoc sized ⟨new.type, rfl⟩ rfl file pos rfl clear fits, ?_,
        padIdx', later, bits, bound⟩
      simp [writeNextBlobs, BlobWrites.done, llogLvfsWriteBlob]

/-- What a cancel does to the layout. -/
structure Cancelled (log : LlogHandle) (index : Nat) (result : Int × LlogHandle) : Prop where
  failed : result.1 < 0 → result.2 = log
  done : ¬ result.1 < 0 → log.bitmap index = true ∧ index ≠ 0 ∧
    result.2.bitmap = assignBit log.bitmap index false ∧ result.2.lastIdx = log.lastIdx

/-- The layout does not depend on bits that are cleared. -/
theorem Laid.clearBit (index : Nat) (file : log'.file = log.file)
    (pos : log'.fPos = log.fPos) (last : log'.lastIdx = log.lastIdx)
    (bitmap : log'.bitmap = assignBit log.bitmap index false) : Laid log' front cur := by
  refine ⟨by rw [file]; exact laid.file, ?_, laid.sized, laid.typed, laid.full, laid.room, ?_,
    fun i lt => ?_⟩
  · rw [pos, laid.pos, LlogHandle.size, LlogHandle.size, file]
  · rw [last]
    exact laid.numbered
  · rw [bitmap, assignBit]
    split
    · rfl
    · exact laid.clear i (last ▸ lt)

theorem llogCancelRec_laid (index : Nat) (stored : Bool) :
    ∃ result, llogCancelRec log index stored = .ok result ∧ Laid result.2 front cur ∧
      Cancelled log index result := by
  have unchanged : ∀ rc : Int, rc < 0 → Cancelled log index (rc, log) := fun rc bad =>
    ⟨fun _ => rfl, fun ok => absurd bad ok⟩
  unfold llogCancelRec
  by_cases zero : index = 0
  · rw [if_pos zero]
    exact ⟨_, rfl, laid, unchanged _ (by decide)⟩
  rw [if_neg zero]
  by_cases set : log.bitmap index = true
  swap
  · rw [if_pos set]
    exact ⟨_, rfl, laid, unchanged _ (by decide)⟩
  rw [if_neg (not_not.mpr set)]
  have cleared : ∀ rc : Int, 0 ≤ rc → ∀ log' : LlogHandle,
      log'.bitmap = assignBit log.bitmap index false → log'.lastIdx = log.lastIdx →
      Cancelled log index (rc, log') := fun rc good log' bits last =>
    ⟨fun bad => absurd bad (not_lt.mpr good), fun _ => ⟨set, zero, bits, last⟩⟩
  by_cases zap : log.zapWhenEmpty ∧ log.count - 1 = 1 ∧ log.lastIdx = llogBitmapBytes * 8 - 1
  · rw [if_pos zap]
    cases stored with
    | true =>
      exact ⟨_, rfl, laid.clearBit index rfl rfl rfl rfl, cleared 1 (by decide) _ rfl rfl⟩
    | false => exact ⟨_, rfl, laid, unchanged _ (by decide)⟩
  rw [if_neg zap]
  -- a set bit belongs to a record, so the file is there
  have file : log.file = headerCells ++ bodyCells front cur := by
    grind [cases Laid, cases Cancelled]
  have some : log.file ≠ [] := by
    rw [file]
    exact append_ne_nil_of_left_ne_nil (by unfold headerCells; decide) _
  rw [if_neg some]
  cases stored with
  | false => exact ⟨_, rfl, laid, unchanged _ (by decide)⟩
  | true =>
    refine ⟨_, rfl, laid.clearBit index ?_ ?_ rfl rfl, cleared 0 (by decide) _ rfl rfl⟩
    · show writeRecord log.file 0 headerCells = log.file
      rw [file, writeRecord_header]
    · show max log.fPos (0 + 8 * headerCells.length) = log.fPos
      rw [laid.headed_pos, laid.pos, LlogHandle.size, file]

/-! ### Runs -/

/-- The records with their bit set are those appended and not cancelled, and all appended ones are in the
file. -/
structure Kept (state : LlogHandle × Journal) : Prop where
  laid : ∃ front cur, Laid state.1 front cur ∧
    (front.flatten ++ cur).filter (fun rec => state.1.bitmap rec.index) = state.2.live ∧
    state.2.appended.Sublist (front.flatten ++ cur)
  cancelled : ∀ i ∈ state.2.cancelled, i ≤ state.1.lastIdx
  bounded : ∀ i, state.1.bitmap i = true → i < llogBitmapSize

/-- An append of a record that leaves room, or a cancel. -/
def LogOp.Roomy : LogOp → Prop
  | .append new => new.Roomy
  | .cancel _ _ => True

instance (op : LogOp) : Decidable op.Roomy :=
  match op with
  | .append new => inferInstanceAs (Decidable (new.reclen ≠ 8176 ∧ new.reclen ≠ 8184))
  | .cancel _ _ => inferInstanceAs (Decidable True)

theorem Laid.index_bounds (mem : rec ∈ front.flatten ++ cur) :
    1 ≤ rec.index ∧ rec.index ≤ log.lastIdx := by
  grind [mem_map_of_mem, cases Laid]

variable {journal : Journal} {written : Written}
  (live : (front.flatten ++ cur).filter (fun rec => log.bitmap rec.index) = journal.live)
  (inside : journal.appended.Sublist (front.flatten ++ cur))
  (cancelled : ∀ i ∈ journal.cancelled, i ≤ log.lastIdx)
  (bounded : ∀ i, log.bitmap i = true → i < llogBitmapSize)

include live inside cancelled bounded

/-- An append that fails may leave a padding record, whose bit is clear. -/
theorem Appended.keptFailed (appended : Appended log front cur new written)
    (bad : written.rc < 0) : Kept (written.log, journal) := by
  obtain ⟨front', cur', pads, laid', records, padIdx, last, bitmap⟩ := appended.failed bad
  refine ⟨⟨front', cur', laid', ?_, records ▸ sublist_append_of_sublist_left inside⟩,
    fun i mem => (cancelled i mem).trans last, by simpa only [bitmap] using bounded⟩
  have none : pads.filter (fun pad => log.bitmap pad.index) = [] := by
    rw [filter_eq_nil_iff]
    intro pad mem
    rw [laid.clear _ (padIdx pad mem)]
    simp
  rw [records, bitmap, filter_append, none, append_nil, live]

/-- A successful append adds the record to what is live. -/
theorem Appended.keptDone (appended : Appended log front cur new written)
    (good : ¬ written.rc < 0) : Kept (written.log, { journal with
      appended := journal.appended ++ [new.record written.log.lastIdx] }) := by
  obtain ⟨front', cur', pads, laid', records, padIdx, last, bitmap, bound⟩ := appended.done good
  refine ⟨⟨front', cur', laid', ?_, records ▸
    (sublist_append_of_sublist_left inside).append (.refl _)⟩, fun i mem =>
      (cancelled i mem).trans last.le, ?_⟩
  swap
  · simp_all [assignBit]
  have old : (front.flatten ++ cur).filter (fun rec => written.log.bitmap rec.index) =
      (front.flatten ++ cur).filter (fun rec => log.bitmap rec.index) := by
    refine filter_congr fun rec mem => ?_
    have bound : rec.index ≤ log.lastIdx := (laid.index_bounds mem).2
    rw [bitmap, assignBit, if_neg (by omega)]
  have none : pads.filter (fun pad => written.log.bitmap pad.index) = [] := by
    rw [filter_eq_nil_iff]
    intro pad mem
    obtain ⟨above, below⟩ := padIdx pad mem
    rw [bitmap, assignBit, if_neg (by omega), laid.clear _ above]
    simp
  have new' : [new.record written.log.lastIdx].filter
      (fun rec => written.log.bitmap rec.index) = [new.record written.log.lastIdx] := by
    rw [filter_singleton, bitmap]
    simp [NewRec.record, assignBit]
  have fresh : written.log.lastIdx ∉ journal.cancelled := fun mem =>
    absurd (cancelled _ mem) (not_le.mpr last)
  rw [records, filter_append, filter_append, old, none, new', append_nil, live]
  unfold Journal.live
  simp [NewRec.record, fresh]

omit laid in
/-- A successful cancel takes the record from what is live. -/
theorem Laid.keptCancel (laid' : Laid log' front cur)
    (bitmap : log'.bitmap = assignBit log.bitmap index false) (last : log'.lastIdx = log.lastIdx)
    (bound : index ≤ log.lastIdx) :
    Kept (log', { journal with cancelled := index :: journal.cancelled }) := by
  refine ⟨⟨front, cur, laid', ?_, inside⟩, ?_, ?_⟩
  · have both : (front.flatten ++ cur).filter (fun rec => log'.bitmap rec.index) =
        ((front.flatten ++ cur).filter (fun rec => log.bitmap rec.index)).filter
          (fun rec => decide (rec.index ≠ index)) := by
      rw [filter_filter]
      refine filter_congr fun rec mem => ?_
      rw [bitmap, assignBit]
      by_cases same : rec.index = index <;> simp [same]
    rw [both, live]
    unfold Journal.live
    simp [not_or]
  · grind
  · simp_all [assignBit]

end

theorem logStep_kept {state : LlogHandle × Journal} {op : LogOp} (kept : Kept state)
    (roomy : op.Roomy) : ∃ state', logStep state op = .ok state' ∧ Kept state' := by
  obtain ⟨log, journal⟩ := state
  have ⟨⟨front, cur, laid, live, inside⟩, cancelled, bounded⟩ := kept
  unfold logStep
  by_cases gone : log.destroyed = true
  · rw [if_pos gone]
    exact ⟨_, rfl, kept⟩
  cases op with
  | append new =>
    obtain ⟨written, eq, appended⟩ := llogLvfsWriteRec_laid laid roomy
    simp only [eq]
    split_ifs with bad
    · exact ⟨_, rfl, appended.keptFailed laid live inside cancelled bounded bad⟩
    · exact ⟨_, rfl, appended.keptDone laid live inside cancelled bounded bad⟩
  | cancel index stored =>
    obtain ⟨⟨rc, log'⟩, eq, laid', result⟩ := llogCancelRec_laid laid index stored
    simp only [eq]
    split_ifs with bad
    · have same : log' = log := result.failed bad
      rw [same]
      exact ⟨_, rfl, kept⟩
    · obtain ⟨set, zero, bitmap, last⟩ := result.done bad
      refine ⟨_, rfl, laid'.keptCancel live inside cancelled bounded bitmap last ?_⟩
      by_contra above
      rw [laid.clear index (not_le.mp above)] at set
      cases set

theorem newLog_kept (zap : Bool) : Kept (newLog zap, ⟨[], []⟩) where
  laid := by
    refine ⟨[], [], ⟨.inl ⟨rfl, rfl, rfl⟩, rfl, by simp, by simp, by simp, .inr (by decide), rfl,
      ?_⟩, rfl, .refl _⟩
    intro i pos
    exact decide_eq_false pos.ne'
  cancelled := by simp
  bounded := by
    intro i set
    rw [of_decide_eq_true set]
    decide

/-- Every run of operations on a new log goes through. -/
theorem run_kept (zap : Bool) {ops : List LogOp} (roomy : ∀ op ∈ ops, op.Roomy) :
    ∃ state, run logStep (newLog zap, ⟨[], []⟩) ops = .ok state ∧ Kept state :=
  run_ok (fun _ _ kept roomy => logStep_kept kept roomy) (newLog_kept zap)
    (meets_of_forall _ roomy)

/-! ### Records and chunk boundaries -/

/-- Records one behind the other, each with its offset in the file. -/
def placed : Nat → List LlogRec → List (Nat × LlogRec)
  | _, [] => []
  | offset, rec :: recs => (offset, rec) :: placed (offset + rec.len) recs

theorem placed_append (offset : Nat) (recs more : List LlogRec) :
    placed offset (recs ++ more) = placed offset recs ++ placed (offset + chunkTotal recs) more := by
  induction recs generalizing offset with
  | nil => rfl
  | cons rec recs ih =>
    simp only [cons_append, placed, ih, chunkTotal, map_cons, sum_cons, add_assoc]

variable {offset : Nat}

theorem placed_bounds {place : Nat} (mem : (place, rec) ∈ placed offset recs) :
    offset ≤ place ∧ place + rec.len ≤ offset + chunkTotal recs := by
  induction recs generalizing offset with
  | nil => cases mem
  | cons first recs ih =>
    simp only [chunkTotal, map_cons, sum_cons]
    rcases mem_cons.mp mem with here | later
    · cases here
      omega
    · have := ih later
      unfold chunkTotal at this
      omega

theorem placed_member {place : Nat × LlogRec} (mem : place ∈ placed offset recs) :
    place.2 ∈ recs := by
  induction recs generalizing offset with
  | nil => cases mem
  | cons rec recs ih =>
    rcases mem_cons.mp mem with here | later
    · exact here ▸ mem_cons_self
    · exact mem_cons_of_mem _ (ih later)

/-- The record's bytes lie in one chunk of the file. -/
def Inside (place : Nat × LlogRec) : Prop :=
  place.1 / llogChunkSize = (place.1 + place.2.len - 1) / llogChunkSize

/-- Records that follow the start of a chunk and do not fill more than it. -/
theorem inside_chunk (start : offset % llogChunkSize = 0) (sized : ∀ rec ∈ recs, rec.Sized)
    (fits : chunkTotal recs ≤ llogChunkSize) {place : Nat × LlogRec}
    (mem : place ∈ placed offset recs) : Inside place := by
  obtain ⟨above, below⟩ := placed_bounds mem
  have long := sized _ (placed_member mem)
  unfold LlogRec.Sized at long
  unfold Inside
  unfold llogChunkSize at *
  omega

theorem inside_layout (start : offset % llogChunkSize = 0)
    (sized : ∀ rec ∈ front.flatten ++ cur, rec.Sized)
    (full : ∀ chunk ∈ front, chunkTotal chunk = llogChunkSize)
    (fits : chunkTotal cur ≤ llogChunkSize) :
    ∀ place ∈ placed offset (front.flatten ++ cur), Inside place := by
  induction front generalizing offset with
  | nil => exact fun place mem => inside_chunk start (by simpa using sized) fits (by simpa using mem)
  | cons chunk front ih =>
    obtain ⟨first, others⟩ := forall_mem_cons.mp full
    rw [flatten_cons, append_assoc] at sized ⊢
    obtain ⟨here, later⟩ := forall_mem_append.mp sized
    rw [placed_append]
    refine forall_mem_append.mpr
      ⟨fun place mem => inside_chunk start here first.le mem, ?_⟩
    apply ih _ later others
    rw [first, Nat.add_mod_right, start]

/-- The file is empty, or its chunks behind the header are whole records that fill all but the last. -/
structure Chunked (file : List Cell) (appended : List LlogRec) (front : List (List LlogRec))
    (cur : List LlogRec) : Prop where
  file : (file = [] ∧ front = [] ∧ cur = []) ∨ file = headerCells ++ bodyCells front cur
  appended : appended.Sublist (front.flatten ++ cur)
  sized : ∀ rec ∈ front.flatten ++ cur, rec.Sized
  full : ∀ chunk ∈ front, chunkTotal chunk = llogChunkSize
  last : chunkTotal cur ≤ llogChunkSize
  inside : ∀ place ∈ placed llogChunkSize (front.flatten ++ cur), Inside place

theorem Kept.chunked {state : LlogHandle × Journal} (kept : Kept state) :
    ∃ front cur, Chunked state.1.file state.2.appended front cur := by
  obtain ⟨front, cur, laid, -, appended⟩ := kept.laid
  have last : chunkTotal cur ≤ llogChunkSize := by
    have := laid.room
    omega
  refine ⟨front, cur, ?_, appended, laid.sized, laid.full, last, ?_⟩
  · exact laid.file.imp_right And.left
  · exact inside_layout rfl laid.sized laid.full last

/-- Appends and cancels on a new log fail no assertion and keep the records in their chunks, as long
as none leaves 8 or 16 bytes of a chunk that it starts. -/
theorem chunk_discipline (zap : Bool) (ops : List LogOp) (roomy : ∀ op ∈ ops, op.Roomy) :
    ∃ log journal, run logStep (newLog zap, ⟨[], []⟩) ops = .ok (log, journal) ∧
      ∃ front cur, Chunked log.file journal.appended front cur := by
  obtain ⟨⟨log, journal⟩, done, kept⟩ := run_kept zap roomy
  exact ⟨log, journal, done, kept.chunked⟩

/-- A record with so many cells of payload. -/
def plainRec (cells : Nat) : NewRec := ⟨.llogGen, 0, List.replicate cells (0, 0), false, false⟩

/-- Two records that share a chunk and one that fills the next one. -/
theorem chunk_discipline_three : ∃ log journal, run logStep (newLog false, ⟨[], []⟩)
        [.append (plainRec 0), .append (plainRec 5), .append (plainRec 1021)] =
          .ok (log, journal) ∧
      ∃ front cur, Chunked log.file journal.appended front cur := by
  apply chunk_discipline
  decide +kernel

/-- A record of 8176 bytes leaves 16 bytes of its chunk, too few for a padding record. -/
theorem pad_assertion_fails :
    (plainRec 1019).reclen = 8176 ∧ ¬ (plainRec 1019).tooBig ∧ ¬ (plainRec 0).tooBig ∧
      run logStep (newLog false, ⟨[], []⟩)
        [.append (plainRec 1019), .append (plainRec 0)] = .error .shortPad :=
  ⟨by decide +kernel, by decide +kernel, by decide +kernel,
    eq_error_of_failure (by decide +kernel)⟩

end Llog
