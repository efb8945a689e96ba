/-
Module: Lustre.Llog.Scan
Purpose: The callback gets every record with its bit set, once and in order, forward and backward.
Trusted boundary: none
-/
import Lustre.Llog.Blocks
import Mathlib.Data.List.Induction

namespace Llog

open List

variable {σ : Type} {log : LlogHandle} {rec : LlogRec} {chunk : List LlogRec}
  {chunks before rest : List (List LlogRec)}

/-! ### Calls -/

/-- The callback's data after calls on records. -/
def called (cb : LlogCb σ) (data : σ) (recs : List LlogRec) : σ :=
  recs.foldl (fun data rec => (cb data rec.cells).2) data

theorem called_append (cb : LlogCb σ) (data : σ) (recs more : List LlogRec) :
    called cb data (recs ++ more) = called cb (called cb data recs) more :=
  foldl_append

/-- The records in a range of indices that have their bit set. -/
def wanted (bitmap : Nat → Bool) (first last : Nat) (recs : List LlogRec) : List LlogRec :=
  recs.filter fun rec => decide (first ≤ rec.index ∧ rec.index ≤ last) && bitmap rec.index

section Wanted

variable {bitmap : Nat → Bool} {first last start : Nat} {recs more : List LlogRec}

theorem wanted_append : wanted bitmap first last (recs ++ more) =
    wanted bitmap first last recs ++ wanted bitmap first last more := filter_append ..

theorem wanted_none (none : ∀ rec ∈ recs, first ≤ rec.index → rec.index ≤ last →
    bitmap rec.index = false) : wanted bitmap first last recs = [] := by
  simp_all [wanted, filter_eq_nil_iff, Bool.and_eq_true]

/-- Bounds matter only for the records that have their bit set. -/
theorem wanted_congr {first' last' : Nat} (same : ∀ rec ∈ recs, bitmap rec.index = true →
    (first ≤ rec.index ∧ rec.index ≤ last ↔ first' ≤ rec.index ∧ rec.index ≤ last')) :
    wanted bitmap first last recs = wanted bitmap first' last' recs := by
  refine filter_congr fun rec mem => ?_
  cases set : bitmap rec.index with
  | false => simp
  | true => simp only [same rec mem set]

theorem Numbered.wanted_nil (numbered : Numbered start recs)
    (outside : last < start ∨ start + recs.length ≤ first) : wanted bitmap first last recs = [] := by
  refine wanted_none fun rec mem low high => ?_
  have := numbered.bounds mem
  omega

theorem wanted_cons : wanted bitmap first last (rec :: recs) =
    (if first ≤ rec.index ∧ rec.index ≤ last ∧ bitmap rec.index = true then [rec] else []) ++
      wanted bitmap first last recs := by grind [wanted]

/-- The record at the lower bound and what follows it. -/
theorem wanted_head (numbered : Numbered first (rec :: recs)) (inside : first ≤ last) :
    wanted bitmap first last (rec :: recs) =
      (if bitmap first then [rec] else []) ++ wanted bitmap (first + 1) last recs := by
  obtain ⟨index, later⟩ := numbered_cons.mp numbered
  have rest : wanted bitmap first last recs = wanted bitmap (first + 1) last recs :=
    wanted_congr fun rec mem _ => by
      have := (later.bounds mem).1
      omega
  rw [wanted_cons, rest, index]
  simp [inside]

end Wanted

theorem skipClear_spec (bitmap : Nat → Bool) (index n : Nat) :
    index ≤ skipClear bitmap index n ∧ skipClear bitmap index n ≤ index + n ∧
      (∀ i, index ≤ i → bitmap i = true → skipClear bitmap index n ≤ i) ∧
      (skipClear bitmap index n < index + n → bitmap (skipClear bitmap index n) = true) := by
  induction n generalizing index with
  | zero =>
    exact ⟨le_rfl, le_rfl, fun i low _ => low, fun lt => absurd lt (lt_irrefl _)⟩
  | succ n ih =>
    obtain ⟨low, high, clear, set⟩ := ih (index + 1)
    rw [skipClear]
    split
    · grind
    · rename_i here
      refine ⟨by omega, by omega, fun i low bit => clear i ?_ bit, fun lt => set (by omega)⟩
      exact lt_of_le_of_ne low fun same => here (same ▸ bit)

theorem skipClearDown_spec (bitmap : Nat → Bool) (index n : Nat) (bound : n ≤ index) :
    skipClearDown bitmap index n ≤ index ∧ index ≤ skipClearDown bitmap index n + n ∧
      (∀ i, i ≤ index → bitmap i = true → i ≤ skipClearDown bitmap index n) ∧
      (index < skipClearDown bitmap index n + n →
        bitmap (skipClearDown bitmap index n) = true) := by
  induction n generalizing index with
  | zero =>
    exact ⟨le_rfl, le_rfl, fun i high _ => high, fun lt => absurd lt (lt_irrefl _)⟩
  | succ n ih =>
    rw [skipClearDown]
    split
    · grind
    · rename_i here
      obtain ⟨low, high, clear, set⟩ := ih (index - 1) (by omega)
      refine ⟨by omega, by omega, fun i high bit => clear i ?_ bit, fun lt => set (by omega)⟩
      exact Nat.le_sub_one_of_lt (lt_of_le_of_ne high fun same => here (same ▸ bit))

/-- The callback lets the processing go on. -/
def GoesOn (cb : LlogCb σ) : Prop := ∀ data bytes, (cb data bytes).1 = 0

/-- The callback lets the processing go on at those records that have their bit set. -/
def GoesOnAt (cb : LlogCb σ) (bitmap : Nat → Bool) (recs : List LlogRec) : Prop :=
  ∀ data, ∀ rec ∈ recs, bitmap rec.index = true → (cb data rec.cells).1 = 0

variable {cb : LlogCb σ} {front : List (List LlogRec)}

theorem GoesOnAt.inChunk {bitmap : Nat → Bool} (on : GoesOnAt cb bitmap chunks.flatten)
    {after : List (List LlogRec)} (split : chunks = front ++ chunk :: after) :
    GoesOnAt cb bitmap chunk := fun data rec mem =>
  on data rec (mem_flatten_of_mem (by rw [split]; simp) mem)

theorem callSet_goesOn {rec : LlogRec} (stored : Bool) (scan : Scan σ)
    (on : scan.log.bitmap scan.index = true → ∀ data, (cb data rec.cells).1 = 0) (recIndex : Nat) :
    ∃ scan', callSet cb stored scan rec.cells recIndex = .ok (0, scan') ∧ scan'.log = scan.log ∧
      scan'.index = scan.index ∧
      scan'.data = called cb scan.data (if scan.log.bitmap scan.index then [rec] else []) := by
  unfold callSet
  split
  · rename_i set
    simp only [on set scan.data]
    exact ⟨_, rfl, rfl, rfl, rfl⟩
  · exact ⟨scan, rfl, rfl, rfl, rfl⟩

/-- How the loop over a buffer ends: the buffer is used up, or nothing more is to come. -/
structure BufDone (chunk : List LlogRec) (last top : Nat) (out : Option Int) (index : Nat) :
    Prop where
  more : out = none → index = top + 1 ∧ index ≤ last ∧ chunkTotal chunk = llogChunkSize
  done : ∀ rc, out = some rc → rc = 0 ∧ (last ≤ top ∨ chunkTotal chunk ≠ llogChunkSize)

/-- Every set bit of the range has a record. -/
def Covered (bitmap : Nat → Bool) (first last : Nat) (chunks : List (List LlogRec)) : Prop :=
  ∀ i, first ≤ i → i ≤ last → bitmap i = true → i ≤ chunks.flatten.length

/-! ### The buffer -/

section

variable {pre post : List LlogRec} {fuel : Nat} (sized : ∀ rec ∈ chunk, rec.Sized)

include sized

/-- Header, tail and bytes of a record in a buffer that holds its chunk. -/
theorem record_inBuffer (split : chunk = pre ++ rec :: post) :
    cellAt (zeroFill (chunkCells chunk)) (chunkTotal pre) = .ok (rec.len, rec.index) ∧
      cellAt (zeroFill (chunkCells chunk)) (chunkTotal pre + 8) = .ok (rec.type, rec.padding) ∧
      cellAt (zeroFill (chunkCells chunk)) (chunkTotal pre + rec.len - 8) =
        .ok (rec.len, rec.index) ∧
      recordAt (zeroFill (chunkCells chunk)) (chunkTotal pre) rec.len = rec.cells := by
  have place : chunkTotal pre = 8 * (chunkCells pre).length :=
    (chunkCells_length fun rec mem => sized rec (by simp [split, mem])).symm
  have buffer : zeroFill (chunkCells chunk) = chunkCells pre ++ rec.cells ++ (chunkCells post ++
      replicate (llogChunkSize / 8 - (chunkCells chunk).length) (0, 0)) := by
    unfold zeroFill
    simp [split, chunkCells]
  rw [buffer]
  exact record_cells _ _ (sized rec (by simp [split])) place

/-- A record is at least as long as header and tail, and inside its chunk. -/
theorem record_inChunk (split : chunk = pre ++ rec :: post) :
    24 ≤ rec.len ∧ chunkTotal pre + rec.len ≤ chunkTotal chunk := by
  have long : rec.len = 8 * rec.payload.length + 24 := sized rec (by simp [split])
  have total : chunkTotal chunk = chunkTotal pre + rec.len + chunkTotal post := by
    simp [split, chunkTotal, add_assoc]
  omega

/-- Behind the last record of a chunk with room stand zeros. -/
theorem cellAt_end (room : chunkTotal chunk + llogMinRecSize ≤ llogChunkSize) :
    cellAt (zeroFill (chunkCells chunk)) (chunkTotal chunk) = .ok (0, 0) ∧
      cellAt (zeroFill (chunkCells chunk)) (chunkTotal chunk + 8) = .ok (0, 0) := by
  have cells := chunkCells_length sized
  obtain ⟨n, zeros⟩ : ∃ n, llogChunkSize / 8 - (chunkCells chunk).length = n + 2 := by
    refine ⟨llogChunkSize / 8 - (chunkCells chunk).length - 2, ?_⟩
    unfold llogChunkSize llogMinRecSize at *
    omega
  unfold zeroFill
  rw [zeros, replicate_succ, replicate_succ]
  refine ⟨cellAt_append _ _ _ cells.symm, ?_⟩
  rw [← concat_append]
  apply cellAt_append
  rw [concat_eq_append, length_append, length_singleton]
  omega

/-- The loop over a buffer from a place between two records on. -/
theorem processBuf_calls (stored : Bool)
    (typed : ∀ rec ∈ chunk, rec.Typed)
    (room : chunkTotal chunk = llogChunkSize ∨ chunkTotal chunk + llogMinRecSize ≤ llogChunkSize)
    {last base : Nat} (split : chunk = pre ++ post)
    (numbered : Numbered (base + pre.length + 1) post) (scan : Scan σ)
    (on : GoesOnAt cb scan.log.bitmap chunk) (low : base + pre.length + 1 ≤ scan.index)
    (high : scan.index ≤ base + chunk.length + 1) (inside : scan.index ≤ last)
    (enough : post.length < fuel) :
    ∃ out scan', processBuf cb stored (zeroFill (chunkCells chunk)) last fuel (chunkTotal pre) scan =
        .ok (out, scan') ∧ scan'.log = scan.log ∧
      scan'.data = called cb scan.data (wanted scan.log.bitmap scan.index last post) ∧
      BufDone chunk last (base + chunk.length) out scan'.index := by
  obtain _ | fuel := fuel
  · omega
  induction post generalizing pre scan fuel with
  | nil =>
    rw [append_nil] at split
    rw [← split] at low ⊢
    rw [processBuf]
    rcases room with full | room
    · rw [if_pos full.symm.le]
      exact ⟨none, scan, rfl, rfl, rfl, fun _ => ⟨by omega, inside, full⟩, nofun⟩
    · obtain ⟨first, second⟩ := cellAt_end sized room
      have short : chunkTotal chunk < llogChunkSize := by
        unfold llogChunkSize llogMinRecSize at *
        omega
      rw [if_neg (not_le.mpr short)]
      simp only [first, second, bind, Except.bind]
      refine ⟨some 0, scan, rfl, rfl, rfl, nofun, fun rc eq => ?_⟩
      exact ⟨(Option.some.inj eq).symm, .inr short.ne⟩
  | cons rec post ih =>
    have split' : chunk = (pre ++ [rec]) ++ post := by simp [split]
    obtain ⟨index, later⟩ := numbered_cons.mp numbered
    obtain ⟨first, second, -, bytes⟩ := record_inBuffer sized split
    obtain ⟨long, fits⟩ := record_inChunk sized split
    have native := native_of_typed (typed rec (by simp [split])) rec.len
    have next : chunkTotal (pre ++ [rec]) = chunkTotal pre + rec.len := by simp [chunkTotal]
    have length : chunk.length = pre.length + (1 + post.length) := by
      rw [split, length_append, length_cons, add_comm post.length]
    have front : (pre ++ [rec]).length = pre.length + 1 := by simp
    have numbered' : Numbered (base + (pre ++ [rec]).length + 1) post := by
      rw [front]
      exact later
    rw [length_cons] at enough
    obtain _ | fuel := fuel
    · omega
    rw [processBuf, if_neg (by omega)]
    simp only [first, second, bytes, bind, Except.bind]
    rw [if_neg native, if_neg (by omega), if_neg (by omega), ← next]
    by_cases skipped : rec.index < scan.index
    · grind [wanted_cons]
    · rw [if_neg skipped]
      have here : scan.index = base + pre.length + 1 := by omega
      obtain ⟨scan', call, log, index', data⟩ := callSet_goesOn stored scan
        (fun set data => on data rec (by simp [split]) (by rwa [index, ← here])) rec.index
      have calls : called cb scan.data (wanted scan.log.bitmap scan.index last (rec :: post)) =
          called cb scan'.data (wanted scan.log.bitmap (scan.index + 1) last post) := by
        rw [wanted_head (here ▸ numbered) inside, called_append, ← data]
      rw [call, calls]
      simp only
      rw [if_neg (by decide), index']
      by_cases beyond : scan.index + 1 > last
      · rw [if_pos beyond]
        refine ⟨some 0, _, rfl, log, ?_, nofun, fun rc eq => ?_⟩
        · rw [wanted_none fun rec mem _ high => ?_]
          · rfl
          · omega
        · exact ⟨(Option.some.inj eq).symm, .inl (by omega)⟩
      · rw [if_neg beyond, ← log]
        exact ih split' numbered' _ (by rw [← log] at on; exact on) (by simp only; omega)
          (by simp only; omega) (by simp only; omega) fuel (by omega)

theorem walkRecords_eq {mid : List LlogRec} (split : chunk = pre ++ mid ++ post) :
    walkRecords (zeroFill (chunkCells chunk)) mid.length (chunkTotal pre) =
      .ok (chunkTotal (pre ++ mid)) := by
  induction mid generalizing pre with
  | nil => rw [append_nil]; rfl
  | cons rec mid ih =>
    obtain ⟨hdr, -⟩ := record_inBuffer sized
      (show chunk = pre ++ rec :: (mid ++ post) by rw [split]; simp)
    have next : chunkTotal (pre ++ [rec]) = chunkTotal pre + rec.len := by simp [chunkTotal]
    have step := ih (show chunk = pre ++ [rec] ++ mid ++ post by rw [split]; simp)
    rw [length_cons, walkRecords, hdr]
    simp only [bind, Except.bind]
    rw [← next, step]
    simp

/-- The loop over a buffer from the end of one of its records back. -/
theorem reverseBuf_calls {bitmap : Nat → Bool} (on : GoesOnAt cb bitmap chunk)
    {first base : Nat} (split : chunk = pre ++ post)
    (numbered : Numbered (base + 1) pre) (data : σ) (inside : first ≤ base + pre.length)
    (enough : pre.length < fuel) :
    ∃ out index' data', reverseBuf cb bitmap (zeroFill (chunkCells chunk)) first fuel
        (chunkTotal pre) (base + pre.length) data = .ok (out, index', data') ∧
      data' = called cb data (wanted bitmap first (base + pre.length) pre).reverse ∧
      (out = none → index' = base ∧ first ≤ base) ∧
      (∀ rc, out = some rc → rc = 0 ∧ base < first) := by
  induction pre using reverseRecOn generalizing post data fuel with
  | nil =>
    obtain _ | fuel := fuel
    · omega
    exact ⟨none, base, data, rfl, rfl, fun _ => ⟨rfl, inside⟩, fun rc eq => by cases eq⟩
  | append_singleton pre rec ih =>
    obtain _ | fuel := fuel
    · omega
    rw [append_assoc, singleton_append] at split
    obtain ⟨hdr, -, tail, bytes⟩ := record_inBuffer sized split
    obtain ⟨long, -⟩ := record_inChunk sized split
    obtain ⟨earlier, last⟩ := numbered_append.mp numbered
    have index : rec.index = base + pre.length + 1 := by
      have := (numbered_cons.mp last).1
      omega
    have total : chunkTotal (pre ++ [rec]) = chunkTotal pre + rec.len := by simp [chunkTotal]
    have length : (pre ++ [rec]).length = pre.length + 1 := by simp
    have upper : wanted bitmap first (base + (pre.length + 1)) pre =
        wanted bitmap first (base + pre.length) pre :=
      wanted_congr fun rec mem _ => by
        have := (earlier.bounds mem).2
        omega
    have calls : called cb data (wanted bitmap first (base + (pre.length + 1)) (pre ++ [rec])).reverse =
        called cb (if bitmap (base + (pre.length + 1)) then cb data rec.cells else (0, data)).2
          (wanted bitmap first (base + pre.length) pre).reverse := by
      have here : first ≤ rec.index ∧ rec.index ≤ base + (pre.length + 1) := by omega
      have bit : rec.index = base + (pre.length + 1) := by omega
      have single : wanted bitmap first (base + (pre.length + 1)) [rec] =
          if bitmap (base + (pre.length + 1)) then [rec] else [] := by
        rw [wanted_cons, bit]
        simp [wanted, bit ▸ here.1]
      rw [wanted_append, upper, single, reverse_append, called_append]
      split <;> rfl
    rw [length] at inside enough ⊢
    rw [reverseBuf, if_neg (by omega), total, calls]
    simp only [tail, bind, Except.bind]
    rw [if_neg (by omega), Nat.add_sub_cancel]
    simp only [hdr, bytes]
    rw [if_neg (by omega)]
    have on' : (if bitmap (base + (pre.length + 1)) then cb data rec.cells else (0, data)).1 = 0 := by
      split
      · next set => exact on _ _ (by simp [split]) (by rwa [index])
      · rfl
    rw [if_neg (by simp [on'])]
    by_cases low : base + (pre.length + 1) - 1 < first
    · rw [if_pos low]
      refine ⟨some 0, _, _, rfl, ?_, (fun eq => by cases eq),
        fun rc eq => ⟨(Option.some.inj eq).symm, by omega⟩⟩
      rw [wanted_none fun rec mem _ high => by omega]
      rfl
    · rw [if_neg low]
      exact ih split earlier _ (by omega) (by omega)

end

theorem CatData.start_pos (cd : Option CatData) : 1 ≤ CatData.start cd := by
  cases cd <;> simp [CatData.start]

section

variable {fuel : Nat} (on : GoesOnAt cb log.bitmap chunks.flatten) (chain : Chain log.file chunks)

include on chain

theorem processLoop_calls (stored : Bool) {last : Nat} (split : chunks = before ++ rest) (scan : Scan σ)
    (same : scan.log = log) (low : before.flatten.length < scan.index)
    (high : scan.index ≤ last + 1) (covered : Covered log.bitmap scan.index last chunks)
    (enough : last + 1 - scan.index < fuel) :
    ∃ scan', processLoop cb stored last fuel before.flatten.length
        (llogChunkSize * (before.length + 1)) scan = .ok (0, scan') ∧ scan'.log = log ∧
      scan'.data = called cb scan.data (wanted log.bitmap scan.index last rest.flatten) := by
  induction fuel generalizing before rest scan with
  | zero => omega
  | succ fuel ih =>
    subst same
    obtain ⟨index, skip⟩ : ∃ i, i = skipClear scan.log.bitmap scan.index (last + 1 - scan.index) :=
      ⟨_, rfl⟩
    obtain ⟨from_le, le_to, clear, set⟩ :=
      skipClear_spec scan.log.bitmap scan.index (last + 1 - scan.index)
    rw [← skip] at from_le le_to clear set
    have lower : wanted scan.log.bitmap scan.index last rest.flatten =
        wanted scan.log.bitmap index last rest.flatten :=
      wanted_congr fun rec _ bit => by
        have := (clear rec.index · bit)
        omega
    rw [processLoop]
    simp only [← skip]
    rw [if_neg (by omega), lower]
    by_cases finished : index = last + 1
    · rw [if_pos finished]
      refine ⟨_, rfl, ?_⟩
      rw [wanted_none fun rec _ low high => by omega]
      exact ⟨rfl, rfl⟩
    · rw [if_neg finished]
      have bit := set (by omega)
      have below : index ≤ chunks.flatten.length := covered index from_le (by omega) bit
      have room : rest.length ≤ scan.log.file.length + 1 := by
        have := chain.length_le scan.log rfl
        rw [split, length_append] at this
        omega
      obtain ⟨mid, chunk, after, found, read⟩ := nextBlock_found chain split
        (low.trans_le from_le) below room
      have parts : rest.flatten = mid.flatten ++ (chunk ++ after.flatten) := by
        have tails := append_cancel_left
          (split.symm.trans (found.split.trans (append_assoc _ _ _)))
        rw [tails, flatten_append, flatten_cons]
      obtain ⟨numbered₁, numbered₂, numbered₃⟩ := chain.numbered_parts found.split
      have skipped : wanted scan.log.bitmap index last mid.flatten = [] := by
        have above := found.above
        rw [flatten_append] at numbered₁ above
        rw [length_append] at above
        exact (numbered_append.mp numbered₁).2.wanted_nil (.inr (by omega))
      rw [parts, wanted_append, wanted_append, skipped, nil_append, called_append]
      have := found.above
      have := found.below
      have short := chain.fits chunk (by rw [found.split]; simp)
      obtain ⟨out, scan', ended, log, data, done⟩ := processBuf_calls
        (chain.sized_chunk found.split) stored (chain.typed_chunk found.split)
        (chain.room_chunk found.split) (nil_append chunk).symm
        (show Numbered ((before ++ mid).flatten.length + ([] : List LlogRec).length + 1) chunk by
          rw [length_nil, add_zero, add_comm]
          exact numbered₂)
        { scan with index := index } (on.inChunk found.split) (show _ ≤ index by rw [length_nil]; omega)
        (show index ≤ _ by omega) (show index ≤ last by omega)
        (show chunk.length < llogChunkSize + 1 by omega)
      simp only [read, bind, Except.bind, readBlock]
      simp only [chunkTotal, map_nil, sum_nil] at ended
      rw [ended]
      cases out with
      | some rc =>
        obtain ⟨rfl, why⟩ := done.done rc rfl
        refine ⟨scan', rfl, log, ?_⟩
        have rest : wanted scan.log.bitmap index last after.flatten = [] := by
          rcases why with ended | room
          · exact numbered₃.wanted_nil (.inl (by omega))
          · rw [chain.last_of_room found.split room]
            rfl
        rw [rest, data]
        rfl
      | none =>
        obtain ⟨index', inside, whole⟩ := done.more rfl
        have base : (before ++ mid ++ [chunk]).flatten.length =
            (before ++ mid).flatten.length + chunk.length := by
          rw [flatten_append, length_append, flatten_singleton]
        have start := chain.next_start found.split whole
        rw [chunkCells_length (chain.sized_chunk found.split)] at start
        have rest : wanted scan.log.bitmap index last after.flatten =
            wanted scan.log.bitmap scan'.index last after.flatten :=
          wanted_congr fun rec mem _ => by
            have := (numbered₃.bounds mem).1
            omega
        have log' : scan'.log = scan.log := log
        rw [start, ← base, rest, ← data]
        exact ih (by rw [found.split]; simp) scan' log' (by omega) (by omega)
          (fun i low => covered i (by omega)) (by omega)

theorem reverseLoop_calls {first : Nat} (positive : 1 ≤ first) (index : Nat) (data : σ)
    (range : first ≤ index + 1) (covered : Covered log.bitmap first index chunks)
    (enough : index + 1 - first < fuel) :
    ∃ data', reverseLoop cb log first fuel index data = .ok (0, data') ∧
      data' = called cb data (wanted log.bitmap first index chunks.flatten).reverse := by
  induction fuel generalizing index data with
  | zero => omega
  | succ fuel ih =>
    obtain ⟨goal, skip⟩ : ∃ i, i = skipClearDown log.bitmap index (index + 1 - first) := ⟨_, rfl⟩
    obtain ⟨le_from, to_le, clear, set⟩ :=
      skipClearDown_spec log.bitmap index (index + 1 - first) (by omega)
    rw [← skip] at le_from to_le clear set
    have upper : wanted log.bitmap first index chunks.flatten =
        wanted log.bitmap first goal chunks.flatten := wanted_congr fun rec _ bit => by
      have := (clear rec.index · bit)
      omega
    rw [reverseLoop]
    simp only [← skip]
    rw [if_neg (by omega), upper]
    by_cases finished : goal = first - 1
    · rw [if_pos finished]
      refine ⟨data, rfl, ?_⟩
      rw [wanted_none fun rec _ low high => by omega]
      rfl
    · rw [if_neg finished]
      have bit := set (by omega)
      have below : goal ≤ chunks.flatten.length := covered goal (by omega) le_from bit
      obtain ⟨front, chunk, after, found, read⟩ :=
        prevBlock_found chain (show 0 < goal by omega) below
      have above := found.above
      have inside := found.below
      obtain ⟨pre, rec, post, split, -, length⟩ :=
        exists_split_at (show goal - front.flatten.length - 1 < chunk.length by omega)
      have sized := chain.sized_chunk found.split
      obtain ⟨numbered₁, numbered₂, numbered₃⟩ := chain.numbered_parts found.split
      obtain ⟨head, -, headIdx, headHdr, -⟩ := chain.first_eq found.split
      obtain ⟨hdr, -⟩ := record_inBuffer sized split
      have split' : chunk = (pre ++ [rec]) ++ post := by simp [split]
      have total : chunkTotal (pre ++ [rec]) = chunkTotal pre + rec.len := by simp [chunkTotal]
      have top : front.flatten.length + (pre ++ [rec]).length = goal := by
        rw [length_append, length_singleton]
        omega
      have walk : walkRecords (zeroFill (chunkCells chunk)) (goal - head.index) 0 =
          .ok (chunkTotal pre) := by
        have steps : goal - head.index = pre.length := by omega
        rw [steps]
        exact walkRecords_eq sized (show chunk = [] ++ pre ++ rec :: post by simp [split])
      obtain ⟨numbered, behind⟩ := numbered_append.mp (split' ▸ numbered₂)
      rw [add_comm] at numbered
      obtain ⟨out, index', data', ended, calls, more, done⟩ := reverseBuf_calls
        sized (on.inChunk found.split) split' numbered data (show first ≤ _ by omega)
        (show (pre ++ [rec]).length < goal + 1 by omega)
      rw [top] at ended calls
      simp only [read, bind, Except.bind]
      rw [if_neg (by simp), headHdr]
      simp only
      rw [walk]
      simp only
      rw [hdr]
      simp only
      rw [← total, ended]
      simp only
      -- what lies behind the record is above the bound, what lies in front of the chunk below
      have beyond : wanted log.bitmap first front.flatten.length (chunk ++ after.flatten) = [] := by
        rw [wanted_append, numbered₂.wanted_nil (.inl (by omega)),
          numbered₃.wanted_nil (.inl (by omega)), append_nil]
      have parts : chunks.flatten = front.flatten ++ (chunk ++ after.flatten) := by
        rw [found.split, flatten_append, flatten_cons]
      have lower : wanted log.bitmap first goal front.flatten =
          wanted log.bitmap first front.flatten.length chunks.flatten := by
        rw [parts, wanted_append, beyond, append_nil]
        refine wanted_congr fun r mem _ => ?_
        have := (numbered₁.bounds mem).2
        omega
      have upper : wanted log.bitmap first goal (chunk ++ after.flatten) =
          wanted log.bitmap first goal (pre ++ [rec]) := by
        rw [wanted_append, numbered₃.wanted_nil (.inl (by omega)), append_nil, split',
          wanted_append, behind.wanted_nil (.inl (by omega)), append_nil]
      rw [parts, wanted_append, upper, lower, reverse_append, called_append, ← calls]
      cases out with
      | some rc =>
        obtain ⟨rfl, low⟩ := done rc rfl
        refine ⟨data', rfl, ?_⟩
        rw [wanted_none fun r _ _ high => by omega]
        rfl
      | none =>
        obtain ⟨rfl, inside⟩ := more rfl
        exact ih _ data' (by omega)
          (fun i low high => covered i low (by omega)) (by omega)

variable (data : σ) (cd : Option CatData) (range : CatData.start cd ≤ CatData.last cd + 1)
  (bound : CatData.last cd < llogBitmapSize)
  (covered : Covered log.bitmap (CatData.start cd) (CatData.last cd) chunks)

include range bound covered

theorem llogProcess_calls (stored : Bool) :
    ∃ scan, llogProcess cb stored log data cd = .ok (0, scan) ∧ scan.log = log ∧
      scan.data = called cb data
        (wanted log.bitmap (CatData.start cd) (CatData.last cd) chunks.flatten) :=
  processLoop_calls on chain stored (nil_append chunks).symm
    ⟨log, data, CatData.start cd, CatData.start cd - 1⟩ rfl (CatData.start_pos cd) range covered
    (by omega)

theorem llogReverseProcess_calls : llogReverseProcess cb log data cd = .ok (0, called cb data
      (wanted log.bitmap (CatData.start cd) (CatData.last cd) chunks.flatten).reverse) := by
  obtain ⟨data', done, calls⟩ := reverseLoop_calls on chain (CatData.start_pos cd) (CatData.last cd)
    data range covered (show _ < llogBitmapSize + 1 by omega)
  rw [← calls]
  exact done

end

theorem Laid.count {cur : List LlogRec} (laid : Laid log front cur) :
    (front.flatten ++ cur).length = log.lastIdx := by
  have lengths := congrArg length laid.numbered
  rwa [length_map, length_range'] at lengths

theorem Laid.chain {cur : List LlogRec} (laid : Laid log front cur) :
    ∃ chunks, Chain log.file chunks ∧ chunks.flatten = front.flatten ++ cur := by
  have numbered : Numbered 1 (front.flatten ++ cur) := by
    unfold Numbered
    rw [laid.count]
    exact laid.numbered
  rcases laid.file with ⟨-, rfl, rfl⟩ | ⟨file, some⟩
  · exact ⟨[], ⟨fun none => absurd rfl none, by simp, by simp, by simp, by simp, by simp, rfl⟩, rfl⟩
  · have flat : (front ++ [cur]).flatten = front.flatten ++ cur := by simp
    have chunk_cases : ∀ chunk ∈ front ++ [cur], chunkTotal chunk = llogChunkSize ∨ chunk = cur := by
      grind [cases Laid, cases Chain]
    refine ⟨front ++ [cur], ⟨fun _ => ?_, ?_, ?_, fun chunk mem => ?_, ?_, fun chunk mem => ?_, ?_⟩,
      flat⟩
    · rw [file]
      simp [bodyCells]
    · rw [flat]
      exact laid.sized
    · rw [flat]
      exact laid.typed
    · rcases chunk_cases chunk mem with full | rfl
      · intro empty
        rw [empty] at full
        exact absurd full (by decide)
      · exact some
    · rw [dropLast_concat]
      exact laid.full
    · rcases chunk_cases chunk mem with full | rfl
      · exact .inl full
      · exact laid.room
    · rw [flat]
      exact numbered

/-- The chunks of a log, and the records that its bitmap and its journal speak of. -/
theorem Kept.readable {journal : Journal} (kept : Kept (log, journal)) :
    ∃ chunks, Chain log.file chunks ∧ Covered log.bitmap 1 (CatData.last none) chunks ∧
      wanted log.bitmap 1 (CatData.last none) chunks.flatten = journal.live := by
  obtain ⟨front, cur, laid, live, -⟩ := kept.laid
  obtain ⟨chunks, chain, flat⟩ := laid.chain
  have count : chunks.flatten.length = log.lastIdx := by
    rw [flat]
    exact laid.count
  have top : CatData.last none + 1 = llogBitmapSize := rfl
  refine ⟨chunks, chain, fun i _ _ set => ?_, ?_⟩
  · by_contra above
    rw [laid.clear i (show log.lastIdx < i by omega)] at set
    cases set
  · rw [← live, flat]
    refine filter_congr fun rec mem => ?_
    have low := (laid.index_bounds mem).1
    have high := kept.bounded rec.index
    cases set : log.bitmap rec.index with
    | false => simp
    | true => grind

/-- Processing a log that appends and cancels built calls back once on every record appended and not
cancelled, in the order of the appends, or backward. -/
theorem append_scan_agreement (zap : Bool) (ops : List LogOp)
    (lengths : ∀ new, LogOp.append new ∈ ops → new.reclen ≤ 8168) (cb : LlogCb σ)
    (on : GoesOn cb) (stored : Bool) (data : σ) :
    ∃ log journal, Run.run logStep (newLog zap, ⟨[], []⟩) ops = .ok (log, journal) ∧
      (log.destroyed = false →
        (∃ scan, llogProcess cb stored log data none = .ok (0, scan) ∧
          scan.data = called cb data journal.live) ∧
        llogReverseProcess cb log data none = .ok (0, called cb data journal.live.reverse)) := by
  have roomy : ∀ op ∈ ops, op.Roomy := by
    intro op mem
    cases op with
    | append new =>
      have := lengths new mem
      exact ⟨by omega, by omega⟩
    | cancel index stored => trivial
  obtain ⟨⟨log, journal⟩, done, kept⟩ := run_kept zap roomy
  obtain ⟨chunks, chain, covered, live⟩ := kept.readable
  refine ⟨log, journal, done, fun _ => ?_⟩
  rw [← live]
  have onAt : GoesOnAt cb log.bitmap chunks.flatten := fun data rec _ _ => on data rec.cells
  obtain ⟨scan, processed, -, calls⟩ :=
    llogProcess_calls onAt chain data none (by decide) (by decide) covered stored
  exact ⟨⟨scan, processed, calls⟩, llogReverseProcess_calls onAt chain data none (by decide) (by decide) covered⟩

/-- The callback that collects the records. -/
def collect : LlogCb (List (List Cell)) := fun seen bytes => (0, seen ++ [bytes])

/-- Three records, the second one cancelled. -/
theorem append_scan_agreement_cancelled : ∃ log journal, Run.run logStep (newLog false, ⟨[], []⟩)
        [.append (plainRec 0), .append (plainRec 1018), .append (plainRec 5), .cancel 2 true] =
          .ok (log, journal) ∧
      (log.destroyed = false →
        (∃ scan, llogProcess collect true log [] none = .ok (0, scan) ∧
          scan.data = called collect [] journal.live) ∧
        llogReverseProcess collect log [] none =
          .ok (0, called collect [] journal.live.reverse)) := by
  apply append_scan_agreement
  · intro new mem
    simp only [mem_cons, LogOp.append.injEq, not_mem_nil, reduceCtorEq, or_false] at mem
    rcases mem with rfl | rfl | rfl <;> decide +kernel
  · exact fun _ _ => rfl

end Llog
