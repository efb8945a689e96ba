/-
Module: Lustre.Llog.Blocks
Purpose: A log file as a chain of chunks with consecutively numbered records, and the search
  for the chunk that has a given index.
Trusted boundary: none
-/
import Lustre.Llog.Chunks

namespace Llog

open List

variable {log : LlogHandle} {rec : LlogRec} {recs chunk : List LlogRec}
  {chunks before rest : List (List LlogRec)}

theorem cellAt_append (front back : List Cell) (cell : Cell) {off : Nat}
    (place : off = 8 * front.length) : cellAt (front ++ cell :: back) off = .ok cell := by
  unfold cellAt
  rw [place, Nat.mul_div_cancel_left _ (by decide), getElem?_append_right le_rfl, Nat.sub_self]
  rfl

/-- Header, bytes and tail of a record that stands in a buffer. -/
theorem record_cells (front back : List Cell) (sized : rec.Sized) {off : Nat}
    (place : off = 8 * front.length) :
    cellAt (front ++ rec.cells ++ back) off = .ok (rec.len, rec.index) ∧
      cellAt (front ++ rec.cells ++ back) (off + 8) = .ok (rec.type, rec.padding) ∧
      cellAt (front ++ rec.cells ++ back) (off + rec.len - 8) = .ok (rec.len, rec.index) ∧
      recordAt (front ++ rec.cells ++ back) off rec.len = rec.cells := by
  have length := sized.length
  refine ⟨?_, ?_, ?_, ?_⟩
  · simpa [LlogRec.cells] using cellAt_append front _ (rec.len, rec.index) place
  · have split : front ++ rec.cells ++ back = (front ++ [(rec.len, rec.index)]) ++
        (rec.type, rec.padding) :: (rec.payload ++ [(rec.len, rec.index)] ++ back) := by
      simp [LlogRec.cells]
    rw [split]
    apply cellAt_append
    rw [place, length_append, length_singleton]
    omega
  · grind [LlogRec.cells, LlogRec.Sized, cellAt_append, length_append, length_cons]
  · grind [recordAt, Nat.mul_div_cancel_left, append_assoc, drop_left, take_left]

/-! ### Chains of chunks -/

/-- The records have consecutive indices. -/
def Numbered (start : Nat) (recs : List LlogRec) : Prop :=
  recs.map (·.index) = List.range' start recs.length

variable {start : Nat}

theorem numbered_append {more : List LlogRec} :
    Numbered start (recs ++ more) ↔ Numbered start recs ∧ Numbered (start + recs.length) more := by
  unfold Numbered
  rw [map_append, length_append, ← range'_append_1]
  exact ⟨fun same => append_inj same (by simp), fun ⟨left, right⟩ => by rw [left, right]⟩

theorem numbered_cons :
    Numbered start (rec :: recs) ↔ rec.index = start ∧ Numbered (start + 1) recs := by
  unfold Numbered
  rw [map_cons, length_cons, range'_succ, cons.injEq]

theorem Numbered.bounds (numbered : Numbered start recs) (mem : rec ∈ recs) :
    start ≤ rec.index ∧ rec.index < start + recs.length := by
  have listed : rec.index ∈ recs.map (·.index) := mem_map_of_mem mem
  rwa [numbered, mem_range'_1] at listed

/-- A file whose chunks hold whole records, numbered from 1 on: all but the last are full, and behind its
last record a header would fit. -/
structure Chain (file : List Cell) (chunks : List (List LlogRec)) : Prop where
  file : chunks ≠ [] → file = headerCells ++ (chunks.map chunkCells).flatten
  sized : ∀ rec ∈ chunks.flatten, rec.Sized
  typed : ∀ rec ∈ chunks.flatten, rec.Typed
  nonempty : ∀ chunk ∈ chunks, chunk ≠ []
  full : ∀ chunk ∈ chunks.dropLast, chunkTotal chunk = llogChunkSize
  room : ∀ chunk ∈ chunks,
    chunkTotal chunk = llogChunkSize ∨ chunkTotal chunk + llogMinRecSize ≤ llogChunkSize
  numbered : Numbered 1 chunks.flatten

theorem native_of_typed (typed : rec.Typed) (len : Nat) : ¬ needsSwabbing rec.type len := by
  obtain ⟨type, eq⟩ := typed
  unfold needsSwabbing
  rw [eq]
  cases type <;> simp [LlogOpType.value]

theorem length_le_total (sized : ∀ rec ∈ recs, rec.Sized) : 24 * recs.length ≤ chunkTotal recs := by
  induction recs with
  | nil => exact Nat.zero_le _
  | cons rec recs ih =>
    obtain ⟨first, others⟩ := forall_mem_cons.mp sized
    have := ih others
    unfold LlogRec.Sized at first
    simp only [chunkTotal, map_cons, sum_cons, length_cons] at *
    omega

theorem fullCells_length (sized : ∀ rec ∈ before.flatten, rec.Sized)
    (full : ∀ chunk ∈ before, chunkTotal chunk = llogChunkSize) :
    8 * ((before.map chunkCells).flatten).length = llogChunkSize * before.length := by
  have body : 8 * (bodyCells before []).length = llogChunkSize * before.length + chunkTotal [] :=
    bodyCells_length (by simpa using sized) full
  simpa [bodyCells, chunkCells, chunkTotal] using body

namespace Chain

variable {file : List Cell} {after : List (List LlogRec)} (chain : Chain file chunks)
  (split : chunks = before ++ chunk :: after)

include chain split

theorem sized_chunk : ∀ rec ∈ chunk, rec.Sized := fun rec mem =>
  chain.sized rec (by rw [split]; simp [mem])

theorem typed_chunk : ∀ rec ∈ chunk, rec.Typed := fun rec mem =>
  chain.typed rec (by rw [split]; simp [mem])

theorem nonempty_chunk : chunk ≠ [] := chain.nonempty chunk (by rw [split]; simp)

theorem room_chunk : chunkTotal chunk = llogChunkSize ∨
    chunkTotal chunk + llogMinRecSize ≤ llogChunkSize :=
  chain.room chunk (by rw [split]; simp)

theorem total_le : chunkTotal chunk ≤ llogChunkSize := by
  have := chain.room_chunk split
  omega

theorem full_before : ∀ chunk ∈ before, chunkTotal chunk = llogChunkSize := fun front mem =>
  chain.full front (by rw [split, dropLast_append_cons]; exact mem_append_left _ mem)

/-- Only the last chunk can have room. -/
theorem last_of_room (room : chunkTotal chunk ≠ llogChunkSize) : after = [] := by
  cases after with
  | nil => rfl
  | cons next after =>
    refine absurd (chain.full chunk ?_) room
    rw [split, dropLast_append_cons, dropLast_cons_cons]
    simp

theorem numbered_parts : Numbered 1 before.flatten ∧
    Numbered (1 + before.flatten.length) chunk ∧
    Numbered (1 + before.flatten.length + chunk.length) after.flatten := by
  have numbered := chain.numbered
  rwa [split, flatten_append, flatten_cons, numbered_append, numbered_append] at numbered

theorem readRecord_eq :
    readRecord file (llogChunkSize * (before.length + 1)) = chunkCells chunk := by
  have cells := fullCells_length (fun rec mem => chain.sized rec (by
    rw [split, flatten_append]; exact mem_append_left _ mem)) (chain.full_before split)
  have here := chunkCells_length (chain.sized_chunk split)
  have total := chain.total_le split
  have whole : file = (headerCells ++ (before.map chunkCells).flatten) ++
      (chunkCells chunk ++ (after.map chunkCells).flatten) := by
    rw [chain.file (by rw [split]; simp), split]
    simp
  have place : llogChunkSize * (before.length + 1) / 8 =
      (headerCells ++ (before.map chunkCells).flatten).length := by
    rw [length_append, headerCells_length]
    unfold llogChunkSize at *
    omega
  unfold readRecord
  rw [whole, place, drop_left]
  by_cases filled : chunkTotal chunk = llogChunkSize
  · apply take_left'
    omega
  · rw [chain.last_of_room split filled]
    simp only [map_nil, flatten_nil, append_nil]
    apply take_of_length_le
    omega

/-- The end of a chunk that was read: the tail of its last record. -/
theorem getLast_eq : ∃ tail : Cell, (chunkCells chunk).getLast? = some tail ∧
    tail.2 = before.flatten.length + chunk.length := by
  obtain ⟨-, numbered, -⟩ := chain.numbered_parts split
  obtain ⟨recs, last, rfl⟩ : ∃ recs last, chunk = recs ++ [last] :=
    ⟨_, _, (dropLast_append_getLast (chain.nonempty_chunk split)).symm⟩
  refine ⟨(last.len, last.index), ?_, ?_⟩
  · grind [chunkCells, LlogRec.cells]
  · have index := (numbered_cons.mp (numbered_append.mp numbered).2).1
    rw [length_append, length_singleton]
    omega

/-- The start of a chunk that was read: the header of its first record. -/
theorem first_eq : ∃ first : LlogRec, first ∈ chunk ∧
    first.index = before.flatten.length + 1 ∧
    cellAt (zeroFill (chunkCells chunk)) 0 = .ok (first.len, first.index) ∧
    cellAt (zeroFill (chunkCells chunk)) 8 = .ok (first.type, first.padding) := by
  obtain ⟨-, numbered, -⟩ := chain.numbered_parts split
  obtain ⟨first, recs, rfl⟩ := exists_cons_of_ne_nil (chain.nonempty_chunk split)
  have sized := chain.sized_chunk split first mem_cons_self
  obtain ⟨hdr, type, -, -⟩ := record_cells [] (chunkCells recs ++ replicate
    (llogChunkSize / 8 - (chunkCells (first :: recs)).length) (0, 0)) sized
    (show 0 = 8 * ([] : List Cell).length from rfl)
  refine ⟨first, mem_cons_self, ?_, hdr, type⟩
  rw [(numbered_cons.mp numbered).1]
  omega

theorem size_gt (log : LlogHandle) (same : log.file = file) :
    llogChunkSize * (before.length + 1) < log.size := by
  have read := chain.readRecord_eq split
  have filled : 0 < (chunkCells chunk).length := by
    obtain ⟨tail, last, -⟩ := chain.getLast_eq split
    exact length_pos_of_mem (mem_of_getLast? last)
  rw [← read, readRecord, length_take, length_drop] at filled
  rw [LlogHandle.size, same]
  omega

/-- A chunk with records behind it is full, and the next one starts where it ends. -/
theorem whole_of_later (later : before.flatten.length + chunk.length < chunks.flatten.length) :
    chunkTotal chunk = llogChunkSize := by
  by_contra room
  rw [split, chain.last_of_room split room, flatten_append, length_append,
    flatten_cons, flatten_nil, append_nil] at later
  exact lt_irrefl _ later

theorem next_start (whole : chunkTotal chunk = llogChunkSize) :
    llogChunkSize * (before.length + 1) + 8 * (chunkCells chunk).length =
      llogChunkSize * ((before ++ [chunk]).length + 1) := by
  rw [chunkCells_length (chain.sized_chunk split), whole]
  simp only [length_append, length_singleton]
  ring

end Chain

theorem Chain.length_le {file : List Cell} (chain : Chain file chunks) (log : LlogHandle)
    (same : log.file = file) : chunks.length ≤ log.file.length := by
  by_cases none : chunks = []
  · simp [none]
  · have split : chunks = chunks.dropLast ++ chunks.getLast none :: [] :=
      (dropLast_append_getLast none).symm
    have := chain.size_gt split log same
    rw [length_dropLast, LlogHandle.size] at this
    unfold llogChunkSize at *
    omega

/-! ### Searching -/

theorem exists_split_at {α : Type} {l : List α} {n : Nat} (inside : n < l.length) :
    ∃ pre x post, l = pre ++ x :: post ∧ pre = l.take n ∧ pre.length = n := by
  refine ⟨l.take n, l[n], l.drop (n + 1), ?_, rfl, ?_⟩
  · rw [getElem_cons_drop, take_append_drop]
  · rw [length_take]
    omega

theorem count_le {l : List (List LlogRec)} (fits : ∀ chunk ∈ l, 24 * chunk.length ≤ llogChunkSize) :
    24 * l.flatten.length ≤ llogChunkSize * l.length := by
  induction l with
  | nil => simp
  | cons chunk l ih =>
    obtain ⟨first, others⟩ := forall_mem_cons.mp fits
    have := ih others
    simp only [flatten_cons, length_append, length_cons, mul_add, mul_one]
    omega

/-- The chunks that a search for the record after the next `ahead` ones may skip. -/
theorem skip_split (fits : ∀ chunk ∈ rest, 24 * chunk.length ≤ llogChunkSize) {ahead : Nat}
    (further : ahead < rest.flatten.length) :
    ∃ mid chunk after, rest = mid ++ chunk :: after ∧
      mid.length = ahead * llogMinRecSize / llogChunkSize ∧ mid.flatten.length ≤ ahead := by
  have bound : ∀ k, k ≤ ahead * llogMinRecSize / llogChunkSize →
      (rest.take k).flatten.length ≤ ahead := by
    intro k small
    have count := count_le fun chunk (mem : chunk ∈ rest.take k) =>
      fits chunk (mem_of_mem_take mem)
    have length : (rest.take k).length ≤ k := by
      rw [length_take]
      exact min_le_left _ _
    unfold llogChunkSize llogMinRecSize at *
    omega
  obtain ⟨k, skipped⟩ : ∃ k, k = ahead * llogMinRecSize / llogChunkSize := ⟨_, rfl⟩
  rw [← skipped] at bound ⊢
  have inside : k < rest.length := by grind
  obtain ⟨mid, chunk, after, parts, taken, length⟩ := exists_split_at inside
  exact ⟨mid, chunk, after, parts, length, taken ▸ bound k (le_refl k)⟩

theorem Chain.fits {file : List Cell} (chain : Chain file chunks) :
    ∀ chunk ∈ chunks, 24 * chunk.length ≤ llogChunkSize := by
  intro chunk mem
  obtain ⟨before, after, split⟩ := append_of_mem mem
  exact (length_le_total (chain.sized_chunk split)).trans (chain.total_le split)

/-- The chunk of an index, with the chunks in front of it and behind it. -/
structure Found (chunks : List (List LlogRec)) (goal : Nat) (front : List (List LlogRec))
    (chunk : List LlogRec) (after : List (List LlogRec)) : Prop where
  split : chunks = front ++ chunk :: after
  above : front.flatten.length < goal
  below : goal ≤ front.flatten.length + chunk.length

/-- What a search returns that has read a chunk. -/
def readBlock (front : List (List LlogRec)) (chunk : List LlogRec) : Block :=
  ⟨0, front.flatten.length + chunk.length,
    llogChunkSize * (front.length + 1) + chunkTotal chunk, zeroFill (chunkCells chunk)⟩

variable {goal : Nat}

section

variable {fuel : Nat} (chain : Chain log.file chunks) (split : chunks = before ++ rest)
  (above : before.flatten.length < goal) (below : goal ≤ chunks.flatten.length)
  (enough : rest.length ≤ fuel)

include chain split above below enough

/-- The search forward reads the chunk of an index that a later chunk has. -/
theorem nextBlock_found :
    ∃ mid chunk after, Found chunks goal (before ++ mid) chunk after ∧
      llogLvfsNextBlock log goal fuel before.flatten.length (llogChunkSize * (before.length + 1)) =
        .ok (readBlock (before ++ mid) chunk) := by
  induction fuel generalizing before rest with
  | zero => grind
  | succ fuel ih =>
    have total : chunks.flatten.length = before.flatten.length + rest.flatten.length := by
      rw [split, flatten_append, length_append]
    obtain ⟨mid, chunk, after, parts, length, count⟩ :=
      skip_split (fun chunk mem => chain.fits chunk (by rw [split]; exact mem_append_right _ mem))
        (show goal - before.flatten.length - 1 < rest.flatten.length by omega)
    have split' : chunks = (before ++ mid) ++ chunk :: after := by
      rw [split, parts, append_assoc]
    have base : (before ++ mid).flatten.length =
        before.flatten.length + mid.flatten.length := by
      rw [flatten_append, length_append]
    have offset : llogSkipOver (llogChunkSize * (before.length + 1)) before.flatten.length goal =
        llogChunkSize * ((before ++ mid).length + 1) := by
      unfold llogSkipOver
      rw [if_neg (by omega), length_append, length]
      unfold llogChunkSize
      omega
    obtain ⟨tail, last, tailIdx⟩ := chain.getLast_eq split'
    obtain ⟨first, mem, firstIdx, hdr, type⟩ := chain.first_eq split'
    have native := native_of_typed (chain.typed_chunk split' first mem) first.len
    have cells := chunkCells_length (chain.sized_chunk split')
    have filled : 0 < chunk.length := length_pos_of_mem mem
    have inside : llogChunkSize * (before.length + 1) < log.size := by
      have := chain.size_gt split' log rfl
      rw [length_append] at this
      unfold llogChunkSize at *
      omega
    rw [llogLvfsNextBlock, if_pos inside]
    simp only [offset, chain.readRecord_eq split', last, hdr, type, bind, Except.bind, if_neg native]
    rw [if_neg (by omega)]
    by_cases early : tail.2 < goal
    · -- not far enough: the next round starts behind this chunk
      rw [if_pos early]
      have whole := chain.whole_of_later split' (by omega)
      have base' : (before ++ mid ++ [chunk]).flatten.length = tail.2 := by
        rw [tailIdx, flatten_append, length_append, flatten_singleton]
      have next := ih (show chunks = before ++ mid ++ [chunk] ++ after by rw [split']; simp)
        (base' ▸ early) (by
          rw [parts, length_append, length_cons] at enough
          omega)
      obtain ⟨mid', chunk', after', found, eq⟩ := next
      have front : before ++ mid ++ [chunk] ++ mid' = before ++ (mid ++ chunk :: mid') := by simp
      rw [chain.next_start split' whole, ← base', eq, front]
      exact ⟨_, chunk', after', front ▸ found, rfl⟩
    · rw [if_neg early, if_neg (by omega)]
      refine ⟨mid, chunk, after, ⟨split', by omega, by omega⟩, ?_⟩
      rw [tailIdx, cells, readBlock]

/-- The search backward goes through the chunks up to the one with the index. -/
theorem prevBlockLoop_found :
    ∃ front chunk after, Found chunks goal front chunk after ∧
      prevBlockLoop log goal fuel (llogChunkSize * (before.length + 1)) =
        .ok (0, zeroFill (chunkCells chunk)) := by
  induction fuel generalizing before rest with
  | zero => grind
  | succ fuel ih =>
    obtain ⟨chunk, after, rfl⟩ : ∃ chunk after, rest = chunk :: after := by
      cases rest with
      | nil =>
        rw [split, append_nil] at below
        exact absurd below (not_le.mpr above)
      | cons chunk after => exact ⟨chunk, after, rfl⟩
    obtain ⟨tail, last, tailIdx⟩ := chain.getLast_eq split
    obtain ⟨first, mem, firstIdx, hdr, -⟩ := chain.first_eq split
    have filled : 0 < chunk.length := length_pos_of_mem mem
    rw [prevBlockLoop, if_pos (chain.size_gt split log rfl)]
    simp only [chain.readRecord_eq split, last, hdr, bind, Except.bind]
    rw [if_neg (by omega)]
    by_cases early : tail.2 < goal
    · rw [if_pos early]
      have base : (before ++ [chunk]).flatten.length = tail.2 := by
        rw [tailIdx, flatten_append, length_append, flatten_singleton]
      rw [chain.next_start split (chain.whole_of_later split (by omega))]
      exact ih (show chunks = before ++ [chunk] ++ after by rw [split]; simp) (base ▸ early)
        (Nat.le_of_succ_le_succ enough)
    · rw [if_neg early, if_neg (by omega)]
      exact ⟨before, chunk, after, ⟨split, above, by omega⟩, rfl⟩

end

theorem prevBlock_found (chain : Chain log.file chunks) (above : 0 < goal)
    (below : goal ≤ chunks.flatten.length) :
    ∃ front chunk after, Found chunks goal front chunk after ∧
      llogLvfsPrevBlock log goal = .ok (0, zeroFill (chunkCells chunk)) := by
  obtain ⟨mid, chunk, after, parts, length, count⟩ :=
    skip_split chain.fits (show goal - 0 - 1 < chunks.flatten.length by omega)
  have offset : llogSkipOver llogChunkSize 0 goal = llogChunkSize * (mid.length + 1) := by
    unfold llogSkipOver
    rw [if_neg (by omega), length]
    unfold llogChunkSize
    omega
  unfold llogLvfsPrevBlock
  rw [offset]
  apply prevBlockLoop_found chain parts (by omega) below
  have := chain.length_le log rfl
  rw [parts, length_append] at this
  omega

end Llog
