/-
Module: Lustre.Llog.CatalogRing
Purpose: The ring of a catalog: the slots of its logs go around the bitmap, and a new log finds its
  slot free.
Trusted boundary: none
-/
import Lustre.Llog.Chunks

namespace Llog

open List Run

/-! ### Positions -/

/-- The slots that logs can have: 1 to `slots`. -/
def slots : Nat := llogBitmapSize - 1

/-- The slot of the log at a position. -/
def slotOf (p : Nat) : Nat := (p - 1) % slots + 1

theorem slots_eq : slots = 64767 := rfl

theorem bitmapSize_eq : llogBitmapSize = slots + 1 := rfl

theorem slotOf_pos (p : Nat) : 1 ≤ slotOf p := Nat.le_add_left 1 _

theorem slotOf_le (p : Nat) : slotOf p ≤ slots := by
  have := Nat.mod_lt (p - 1) (show 0 < slots by decide)
  unfold slotOf
  omega

variable {p : Nat}

theorem slotOf_le_self (positive : 1 ≤ p) : slotOf p ≤ p := by
  have := Nat.mod_le (p - 1) slots
  unfold slotOf
  omega

variable {q : Nat}

/-- Positions that are not a whole turn apart have different slots. -/
theorem slotOf_inj (positive : 1 ≤ p) (le : p ≤ q) (near : q < p + slots)
    (same : slotOf p = slotOf q) : p = q := by
  unfold slotOf at same
  rw [slots_eq] at same near
  omega

theorem slotOf_succ (positive : 1 ≤ p) :
    slotOf (p + 1) = if slotOf p = slots then 1 else slotOf p + 1 := by
  unfold slotOf
  rw [slots_eq]
  split_ifs <;> omega

/-- `llh_cat_idx` at a position: it is the slot, but slot 0 may stand for the last one. -/
def HeadAt (catIdx h : Nat) : Prop := catIdx = h % slots ∨ (catIdx = slots ∧ h % slots = 0)

theorem headAt_slotOf (positive : 1 ≤ p) : HeadAt (slotOf p) p := by
  unfold HeadAt slotOf
  rw [slots_eq]
  omega

theorem headAt_before (p : Nat) : HeadAt (slotOf p - 1) (p - 1) := by
  unfold HeadAt slotOf
  omega

/-! ### The ring -/

/-- `lgh_last_idx` of a catalog that got so many logs. -/
def lastSlot (t : Nat) : Nat := if t = 0 then 0 else slotOf t

/-- The head is at `h`, the newest log was at `t`, and the set bits are those of the positions `used`
between them. -/
structure Ringed (cat : Catalog) (used : List Nat) (h t : Nat) : Prop where
  last : cat.log.lastIdx = lastSlot t
  head : HeadAt cat.catIdx h
  le : h ≤ t
  room : t ≤ h + slots
  full : t = h + slots → cat.catIdx = 0
  inside : ∀ p ∈ used, h < p ∧ p ≤ t
  bits : ∀ i, cat.log.bitmap i = true ↔ i = 0 ∨ ∃ p ∈ used, slotOf p = i
  plain : cat.log.zapWhenEmpty = false

theorem newCatalog_ringed : Ringed newCatalog [] 0 0 where
  last := rfl
  head := .inl rfl
  le := le_refl 0
  room := Nat.zero_le _
  full := fun _ => rfl
  inside := forall_mem_nil _
  bits := by simp [newCatalog, newLog]
  plain := rfl

variable {t : Nat} {io : NewLogIo}

section

variable {cat : Catalog} {used : List Nat} {h t : Nat}

/-- The fields of a handle that the ring is about. -/
structure SameBits (log log' : LlogHandle) : Prop where
  lastIdx : log'.lastIdx = log.lastIdx
  bitmap : log'.bitmap = log.bitmap
  zap : log'.zapWhenEmpty = log.zapWhenEmpty

theorem headerCells_ne_nil : headerCells ≠ [] := fun none => by
  have length := headerCells_length
  rw [none] at length
  cases length

theorem writeRecord_ne_nil {file cells : List Cell} {pos : Nat} (some : cells ≠ []) :
    writeRecord file pos cells ≠ [] := by
  unfold writeRecord
  simp [some]

/-- The file of a catalog after the record of a slot was written. -/
def slotFile (file : List Cell) (id : LlogLogid) (slot : Nat) : List Cell :=
  writeRecord (writeRecord file 0 headerCells) (llogChunkSize + (slot - 1) * 64)
    (logidRec id slot).cells

/-- Writing a slot changes the file only, and succeeds when nothing fails. -/
theorem llogLvfsWriteSlot_bits (log : LlogHandle) (id : LlogLogid) (slot : Nat) (io : NewLogIo) :
    Outcome (fun r => SameBits log r.2 ∧ (r.1 < 0 ↔ io = .noHeader ∨ io = .noRecord) ∧
        (0 ≤ r.1 ∨ log.file ≠ [] → r.2.file ≠ []) ∧ r.1 ≠ enospc ∧
        (0 ≤ r.1 → r.2.file = slotFile log.file id slot))
      (fun fault => fault = .emptyLog ∧ slot ≠ 1 ∧ log.file = [])
      (llogLvfsWriteSlot log (logidRec id slot) slot io) := by
  have fails : eio < 0 := by decide
  have other : eio ≠ enospc := by decide
  have failed : ¬ 0 ≤ eio := by decide
  have small : ¬ 64 > llogChunkSize := by decide
  unfold llogLvfsWriteSlot
  rw [if_neg (show ¬ (logidRec id slot).len > llogChunkSize from small)]
  split_ifs with empty header record
  · exact ⟨rfl, empty⟩
  · refine ⟨⟨rfl, rfl, rfl⟩, ⟨fun _ => .inl header, fun _ => fails⟩, fun written => ?_, other,
      fun done => absurd done failed⟩
    exact written.resolve_left failed
  · exact ⟨⟨rfl, rfl, rfl⟩, ⟨fun _ => .inr record, fun _ => fails⟩,
      fun _ => writeRecord_ne_nil headerCells_ne_nil, other, fun done => absurd done failed⟩
  · refine ⟨⟨rfl, rfl, rfl⟩, ⟨fun negative => ?_, fun failed => ?_⟩,
      fun _ => writeRecord_ne_nil (cons_ne_nil _ _), show (1 : Int) ≠ enospc by decide,
      fun _ => rfl⟩
    · exact absurd negative (show ¬ (1 : Int) < 0 by decide)
    · exact absurd failed (not_or.mpr ⟨header, record⟩)

/-- The handle of a catalog with the next slot taken. -/
def Catalog.taken (cat : Catalog) : LlogHandle :=
  { cat.log with
    lastIdx := cat.nextSlot
    bitmap := assignBit cat.log.bitmap cat.nextSlot true
    count := cat.log.count + 1 }

/-- What `llog_cat_new_log` does with a free slot. -/
theorem llogCatNewLog_free (free : cat.catIdx ≠ (cat.log.lastIdx + 1) % llogBitmapSize)
    (clear : cat.log.bitmap cat.nextSlot = false) (id : LlogLogid) (created : io ≠ .noLog) :
    Outcome (fun r => r.2.catIdx = cat.catIdx ∧ SameBits cat.taken r.2.log ∧
        (r.1 < 0 ↔ io = .noHeader ∨ io = .noRecord) ∧
        (0 ≤ r.1 ∨ cat.log.file ≠ [] → r.2.log.file ≠ []) ∧ r.1 ≠ enospc ∧
        (0 ≤ r.1 → r.2.log.file = slotFile cat.log.file id cat.nextSlot))
      (fun fault => fault = .emptyLog ∧ cat.nextSlot ≠ 1 ∧ cat.log.file = [])
      (llogCatNewLog cat id io) := by
  have written := llogLvfsWriteSlot_bits cat.taken id cat.nextSlot io
  unfold llogCatNewLog
  rw [if_neg free, if_neg created, clear, if_neg (by nofun)]
  unfold Catalog.taken at *
  dsimp only
  split
  · next rc log result =>
    rw [result] at written
    exact ⟨rfl, written⟩
  · next fault result =>
    rw [result] at written
    exact written

/-- `llog_cat_new_log` finds no slot, gets no log, stops at a log without a header, or takes the free
slot of the next position. -/
inductive NewLog (cat : Catalog) (used : List Nat) (h t : Nat) (id : LlogLogid) (io : NewLogIo) :
    Except LlogFault (Int × Catalog) → Prop where
  | noSpace (head : cat.catIdx = (cat.log.lastIdx + 1) % llogBitmapSize) :
      NewLog cat used h t id io (.ok (enospc, cat))
  | noLog (failed : io = .noLog) : NewLog cat used h t id io (.ok (eio, cat))
  | empty (slot : cat.nextSlot ≠ 1) (empty : cat.log.file = []) :
      NewLog cat used h t id io (.error .emptyLog)
  | taken (rc : Int) (cat' : Catalog) (clear : cat.log.bitmap (slotOf (t + 1)) = false)
      (ring : Ringed cat' (used ++ [t + 1]) h (t + 1)) (head : cat'.catIdx = cat.catIdx)
      (code : rc < 0 ↔ io = .noHeader ∨ io = .noRecord)
      (file : 0 ≤ rc ∨ cat.log.file ≠ [] → cat'.log.file ≠ [])
      (written : 0 ≤ rc → cat'.log.file = slotFile cat.log.file id (slotOf (t + 1))) : NewLog cat used h t id io (.ok (rc, cat'))

/-- Behind the last slot `llog_cat_set_first_idx` looks at slot 0, whose bit is set, and goes on with
slot 1. -/
theorem firstIdxLoop_next {bitmap : Nat → Bool} (zero : bitmap 0 = true) {last : Nat}
    (positive : 1 ≤ q) (some : last ≠ 0) (fuel : Nat) :
    ∃ fuel', fuel ≤ fuel' ∧
      firstIdxLoop bitmap last (fuel + 1) ((slotOf q + 1) % llogBitmapSize) (slotOf q) =
        firstIdxLoop bitmap last fuel' (slotOf (q + 1)) (slotOf (q + 1) - 1) := by
  have next := slotOf_succ positive
  have le := slotOf_le q
  by_cases wraps : slotOf q = slots
  · refine ⟨fuel, le_rfl, ?_⟩
    rw [next, wraps, bitmapSize_eq, Nat.mod_self, firstIdxLoop, if_neg some.symm, zero]
    rfl
  · rw [if_neg wraps] at next
    refine ⟨fuel + 1, Nat.le_succ _, ?_⟩
    rw [next, bitmapSize_eq, Nat.mod_eq_of_lt (by omega), Nat.add_sub_cancel]

/-- The loop of `llog_cat_set_first_idx` goes on to the next set position, and stops before the newest
log. -/
theorem firstIdxLoop_spec {bitmap : Nat → Bool} (zero : bitmap 0 = true) (positive : 1 ≤ q)
    (le : q ≤ t) (near : t < q + slots) {fuel : Nat} (enough : 2 * (t - q) < fuel) :
    ∃ catIdx h, firstIdxLoop bitmap (slotOf t) fuel (slotOf q) (slotOf q - 1) = .ok catIdx ∧
      HeadAt catIdx h ∧ q ≤ h + 1 ∧ h < t ∧ (∀ p, q ≤ p → p ≤ h → bitmap (slotOf p) = false) ∧
      (h + 1 = t ∨ bitmap (slotOf (h + 1)) = true) ∧ catIdx < slots := by
  obtain ⟨ahead, rfl⟩ := Nat.exists_eq_add_of_le le
  -- The induction is on how far the newest log is ahead; at the last slot the loop takes two turns.
  induction ahead generalizing q fuel with
  | zero =>
    obtain ⟨fuel, rfl⟩ := Nat.exists_eq_add_of_lt enough
    refine ⟨slotOf q - 1, q - 1, ?_, headAt_before q, by omega, by omega, ?_, by omega, ?_⟩
    · rw [add_zero, firstIdxLoop, if_pos rfl]
    · omega
    · have := slotOf_le q
      omega
  | succ ahead ih =>
    obtain ⟨fuel, rfl⟩ : ∃ n, fuel = n + 2 := ⟨fuel - 2, by omega⟩
    have other : slotOf q ≠ slotOf (q + (ahead + 1)) := fun same => by
      have := slotOf_inj positive (by omega) near same
      omega
    have some : slotOf (q + (ahead + 1)) ≠ 0 := ne_of_gt (slotOf_pos _)
    rw [firstIdxLoop, if_neg other]
    cases set : bitmap (slotOf q) with
    | true =>
      refine ⟨_, q - 1, rfl, headAt_before q, by omega, by omega, fun p low high => ?_,
        .inr ?_, ?_⟩
      · omega
      · rwa [Nat.sub_add_cancel positive]
      · have := slotOf_le q
        omega
    | false =>
      obtain ⟨fuel', more, next⟩ := firstIdxLoop_next zero positive some fuel
      have newest : q + (ahead + 1) = q + 1 + ahead := by omega
      obtain ⟨catIdx, h, found, head, low, high, passed, stop, small⟩ :=
        ih (show 1 ≤ q + 1 by omega) (by omega) (by omega)
          (show 2 * (q + 1 + ahead - (q + 1)) < fuel' by omega)
      refine ⟨catIdx, h, ?_, head, by omega, by omega, fun p low' high' => ?_, ?_, small⟩
      · rw [newest] at next ⊢
        exact next.trans found
      · grind
      · rw [newest]
        exact stop

/-- The head after `llog_cat_set_first_idx` on the slot of a position. -/
structure HeadMoved (cat : Catalog) (used : List Nat) (h t p : Nat) (cat' : Catalog) (h' : Nat) :
    Prop where
  log : cat'.log = cat.log
  head : HeadAt cat'.catIdx h'
  before : p ≤ h'
  le : h' ≤ t
  passed : ∀ q ∈ used, q ≠ p → h' < q
  stop : p < t → h' + 1 = t ∨ h' + 1 ∈ used
  newest : p = t → cat'.catIdx = cat.log.lastIdx

variable (ring : Ringed cat used h t)

include ring

theorem Ringed.head_le : cat.catIdx ≤ slots := by
  have bound := Nat.mod_lt h (show 0 < slots by decide)
  rcases ring.head with at' | ⟨at', -⟩ <;> omega

theorem Ringed.last_le : cat.log.lastIdx ≤ slots := by
  rw [ring.last]
  unfold lastSlot
  split_ifs
  · exact Nat.zero_le _
  · exact slotOf_le t

/-- A position between the head and the newest log is determined by its slot. -/
theorem Ringed.unique (usedP : p ∈ used) (usedQ : q ∈ used) (same : slotOf p = slotOf q) : p = q := by
  have := ring.inside p usedP
  have := ring.inside q usedQ
  have := ring.room
  rcases le_total p q with le | le
  · exact slotOf_inj (by omega) le (by omega) same
  · exact (slotOf_inj (by omega) le (by omega) same.symm).symm

theorem Ringed.nextSlot_eq : cat.nextSlot = slotOf (t + 1) := by
  have last := ring.last
  unfold Catalog.nextSlot
  unfold lastSlot slotOf at *
  rw [bitmapSize_eq]
  rw [slots_eq] at *
  split_ifs at * <;> omega

section

variable (free : cat.catIdx ≠ (cat.log.lastIdx + 1) % llogBitmapSize)
  (hidden : ¬ (cat.log.lastIdx = llogBitmapSize - 1 ∧ cat.catIdx = 1))

include free

/-- Behind a full ring `llog_cat_new_log` sees the head. -/
theorem Ringed.room_of_free : t < h + slots := by
  have room := ring.room
  have full := ring.full
  have head := ring.head
  have last := ring.last
  unfold HeadAt at head
  unfold lastSlot slotOf at last
  rw [bitmapSize_eq] at free
  rw [slots_eq] at *
  split_ifs at last <;> omega

theorem Ringed.nextSlot_clear : cat.log.bitmap cat.nextSlot = false := by
  have room := ring.room_of_free free
  rw [ring.nextSlot_eq, Bool.eq_false_iff]
  intro set
  rcases (ring.bits _).mp set with zero | ⟨p, mem, same⟩
  · exact absurd zero (ne_of_gt (slotOf_pos _))
  · have inside := ring.inside p mem
    have := slotOf_inj (by omega) (by omega) (by omega) same
    omega

include hidden

/-- The head is not met by the newest log, except where slot 0 hides it. -/
theorem Ringed.full_next (whole : t + 1 = h + slots) : cat.catIdx = 0 := by
  have head := ring.head
  have last := ring.last
  unfold HeadAt at head
  unfold lastSlot slotOf at last
  rw [bitmapSize_eq] at free hidden
  rw [slots_eq] at *
  split_ifs at last <;> omega

theorem Ringed.take {cat' : Catalog} (head : cat'.catIdx = cat.catIdx)
    (same : SameBits cat.taken cat'.log) : Ringed cat' (used ++ [t + 1]) h (t + 1) where
  last := same.lastIdx.trans ring.nextSlot_eq
  head := by
    rw [head]
    exact ring.head
  le := Nat.le_succ_of_le ring.le
  room := ring.room_of_free free
  full := fun whole => head.trans (ring.full_next free hidden whole)
  inside := by
    intro p mem
    have le := ring.le
    rcases mem_append.mp mem with old | new
    · have := ring.inside p old
      omega
    · rw [mem_singleton] at new
      omega
  bits := by
    intro i
    have old := ring.bits i
    rw [same.bitmap]
    dsimp only [Catalog.taken, assignBit]
    rw [ring.nextSlot_eq]
    split_ifs with here
    · simp [here]
    · have other : slotOf (t + 1) ≠ i := fun same => here same.symm
      simp [old, other]
  plain := same.zap.trans ring.plain

omit free in
theorem Ringed.newLog (id : LlogLogid) (io : NewLogIo) :
    NewLog cat used h t id io (llogCatNewLog cat id io) := by
  by_cases head : cat.catIdx = (cat.log.lastIdx + 1) % llogBitmapSize
  · unfold llogCatNewLog
    rw [if_pos head]
    exact .noSpace head
  by_cases failed : io = .noLog
  · unfold llogCatNewLog
    rw [if_neg head, if_pos failed]
    exact .noLog failed
  have clear := ring.nextSlot_clear head
  have result := llogCatNewLog_free head clear id failed
  rw [ring.nextSlot_eq] at clear
  generalize llogCatNewLog cat id io = out at result
  match out with
  | .ok (rc, cat') =>
    obtain ⟨same, bits, code, file, -, written⟩ := result
    rw [ring.nextSlot_eq] at written
    exact .taken rc cat' clear (ring.take head hidden same bits) same code file written
  | .error fault =>
    obtain ⟨rfl, slot, empty⟩ := result
    exact .empty slot empty

end

/-- The slot behind the head is that of the position behind it. -/
theorem Ringed.slot_next (mem : p ∈ used) (here : cat.catIdx + 1 = slotOf p) : p = h + 1 := by
  have inside := ring.inside p mem
  have room := ring.room
  have head := ring.head
  unfold HeadAt at head
  unfold slotOf at here
  rw [slots_eq] at *
  omega

theorem Ringed.moveHead (mem : p ∈ used) (here : cat.catIdx + 1 = slotOf p) :
    ∃ cat' h', llogCatSetFirstIdx cat (slotOf p) = .ok cat' ∧ HeadMoved cat used h t p cat' h' := by
  have inside := ring.inside p mem
  have first := ring.slot_next mem here
  have room := ring.room
  have last : cat.log.lastIdx = slotOf t := by
    rw [ring.last, lastSlot, if_neg (by omega)]
  have zero : cat.log.bitmap 0 = true := (ring.bits 0).mpr (.inl rfl)
  unfold llogCatSetFirstIdx
  rw [if_pos here]
  by_cases newest : p = t
  · subst newest
    rw [if_pos last.symm]
    refine ⟨_, p, rfl, rfl, headAt_slotOf (by omega), le_rfl, le_rfl, fun q usedQ ne => ?_,
      fun lt => absurd lt (lt_irrefl _), fun _ => last.symm⟩
    have := ring.inside q usedQ
    omega
  · have other : slotOf p ≠ cat.log.lastIdx := fun same => by
      rw [last] at same
      have := slotOf_inj (by omega) inside.2 (by omega) same
      omega
    rw [if_neg other, last]
    obtain ⟨fuel', more, next⟩ := firstIdxLoop_next zero (show 1 ≤ p by omega)
      (ne_of_gt (slotOf_pos t)) (2 * llogBitmapSize - 1)
    obtain ⟨catIdx, h', found, head, low, high, clear, stop, small⟩ :=
      firstIdxLoop_spec zero (show 1 ≤ p + 1 by omega) (show p + 1 ≤ t by omega) (by omega)
        (show 2 * (t - (p + 1)) < fuel' by
          rw [bitmapSize_eq] at more
          omega)
    have loop : firstIdxLoop cat.log.bitmap (slotOf t) (2 * llogBitmapSize)
        ((slotOf p + 1) % llogBitmapSize) (slotOf p) = .ok catIdx := next.trans found
    rw [loop]
    refine ⟨_, h', rfl, rfl, head, by omega, by omega, fun q usedQ ne => ?_, fun _ => ?_,
      fun same => absurd same newest⟩
    · grind [slotOf, cases Ringed, cases HeadMoved]
    · rcases stop with end' | set
      · exact .inl end'
      · refine .inr ?_
        rcases (ring.bits _).mp set with none | ⟨q, usedQ, same⟩
        · exact absurd none (ne_of_gt (slotOf_pos _))
        · have insideQ := ring.inside q usedQ
          have : q = h' + 1 := by
            rcases le_total q (h' + 1) with le | le
            · exact slotOf_inj (by omega) le (by omega) same
            · exact (slotOf_inj (by omega) le (by omega) same.symm).symm
          exact this ▸ usedQ

/-- `llog_cancel_rec` on a catalog whose file has a header. -/
theorem Ringed.cancelRec {slot : Nat} (some : slot ≠ 0) (set : cat.log.bitmap slot = true)
    (written : cat.log.file ≠ []) (stored : Bool) :
    ∃ rc log, llogCancelRec cat.log slot stored = .ok (rc, log) ∧ log.lastIdx = cat.log.lastIdx ∧
      log.zapWhenEmpty = false ∧
      log.file = (if stored then writeRecord cat.log.file 0 headerCells else cat.log.file) ∧
      log.bitmap = if stored then assignBit cat.log.bitmap slot false else cat.log.bitmap := by
  unfold llogCancelRec
  rw [if_neg some, if_neg (by simp [set]), if_neg (by simp [ring.plain]), if_neg written]
  cases stored with
  | true | false => exact ⟨_, _, rfl, rfl, ring.plain, rfl, rfl⟩

/-- The position of a destroyed log is given up. -/
theorem Ringed.release {h' : Nat} {cat' : Catalog} (mem : p ∈ used) (head : HeadAt cat'.catIdx h')
    (low : h ≤ h') (high : h' ≤ t) (small : h < h' ∨ cat'.catIdx = cat.catIdx)
    (last : cat'.log.lastIdx = cat.log.lastIdx)
    (bitmap : cat'.log.bitmap = assignBit cat.log.bitmap (slotOf p) false)
    (plain : cat'.log.zapWhenEmpty = false) (later : ∀ q ∈ used, q ≠ p → h' < q) :
    Ringed cat' (used.filter (· ≠ p)) h' t where
  last := last.trans ring.last
  head := head
  le := high
  room := by
    have := ring.room
    omega
  full := by
    intro whole
    have room := ring.room
    rcases small with moved | same
    · omega
    · exact same.trans (ring.full (by omega))
  inside := by
    intro q memQ
    obtain ⟨usedQ, ne⟩ := mem_filter.mp memQ
    exact ⟨later q usedQ (by simpa using ne), (ring.inside q usedQ).2⟩
  bits := by
    intro i
    rw [bitmap]
    unfold assignBit
    split_ifs with here
    · subst here
      have gone : ¬ ∃ q ∈ used.filter (· ≠ p), slotOf q = slotOf p := by
        rintro ⟨q, memQ, same⟩
        obtain ⟨usedQ, ne⟩ := mem_filter.mp memQ
        exact absurd (ring.unique usedQ mem same) (by simpa using ne)
      have some : slotOf p ≠ 0 := ne_of_gt (slotOf_pos p)
      simp only [false_iff, not_or]
      exact ⟨some, gone⟩
    · rw [ring.bits i]
      refine or_congr Iff.rfl ⟨?_, ?_⟩
      · rintro ⟨q, usedQ, same⟩
        refine ⟨q, mem_filter.mpr ⟨usedQ, ?_⟩, same⟩
        have : q ≠ p := fun eq => here (eq ▸ same.symm)
        simpa using this
      · rintro ⟨q, memQ, same⟩
        exact ⟨q, (mem_filter.mp memQ).1, same⟩
  plain := plain

/-- A log is destroyed: its position is given up, and the head moves if it stands right before it. -/
theorem Ringed.cancelSlot (mem : p ∈ used) (written : cat.log.file ≠ []) :
    ∃ cat' h', Llog.cancelSlot cat (slotOf p) true = .ok cat' ∧
      Ringed cat' (used.filter (· ≠ p)) h' t ∧
      cat'.log.file = writeRecord cat.log.file 0 headerCells ∧
      (cat.catIdx + 1 = slotOf p → HeadMoved cat used h t p { cat' with log := cat.log } h') ∧
      (cat.catIdx + 1 ≠ slotOf p → cat'.catIdx = cat.catIdx ∧ h' = h) := by
  have set : cat.log.bitmap (slotOf p) = true := (ring.bits _).mpr (.inr ⟨p, mem, rfl⟩)
  have some : slotOf p ≠ 0 := ne_of_gt (slotOf_pos p)
  obtain ⟨rc, log, cancelled, last, plain, file, bitmap⟩ := ring.cancelRec some set written true
  unfold Llog.cancelSlot
  by_cases here : cat.catIdx + 1 = slotOf p
  · obtain ⟨cat', h', moved, spec⟩ := ring.moveHead mem here
    have first := ring.slot_next mem here
    rw [moved]
    dsimp only
    rw [spec.log, cancelled]
    refine ⟨_, h', rfl, ?_, file, fun _ => ?_, fun other => absurd here other⟩
    · have before := spec.before
      exact ring.release mem spec.head (by omega) spec.le (.inl (by omega)) last bitmap plain
        spec.passed
    · exact ⟨rfl, spec.head, spec.before, spec.le, spec.passed, spec.stop, spec.newest⟩
  · have still : llogCatSetFirstIdx cat (slotOf p) = .ok cat := by
      unfold llogCatSetFirstIdx
      rw [if_neg here]
    rw [still]
    dsimp only
    rw [cancelled]
    refine ⟨_, h, rfl, ?_, file, fun same => absurd same here, fun _ => ⟨rfl, rfl⟩⟩
    exact ring.release mem ring.head le_rfl ring.le (.inr rfl) last bitmap plain
      fun q usedQ _ => (ring.inside q usedQ).1

theorem Ringed.cancelSlot_failed (mem : p ∈ used) (written : cat.log.file ≠ [])
    (behind : cat.catIdx + 1 ≠ slotOf p) : Llog.cancelSlot cat (slotOf p) false = .ok cat := by
  have set : cat.log.bitmap (slotOf p) = true := (ring.bits _).mpr (.inr ⟨p, mem, rfl⟩)
  have some : slotOf p ≠ 0 := ne_of_gt (slotOf_pos p)
  unfold Llog.cancelSlot llogCatSetFirstIdx
  rw [if_neg behind]
  dsimp only
  unfold llogCancelRec
  rw [if_neg some, if_neg (by simp [set]), if_neg (by simp [ring.plain]), if_neg written]
  rfl

end

/-! ### Free slots -/

/-- `llog_cat_new_log` is not called with the newest log in the last slot and the head at slot 1, and the
header can be written if the head moves. -/
def Careful (s : CatState) : CatOp → Prop
  | .newLog _ _ => ¬ (s.cat.log.lastIdx = llogBitmapSize - 1 ∧ s.cat.catIdx = 1)
  | .destroy slot stored => stored = true ∨ s.cat.catIdx + 1 ≠ slot

instance (s : CatState) (op : CatOp) : Decidable (Careful s op) :=
  match op with
  | .newLog _ _ => inferInstanceAs (Decidable (¬ (_ ∧ _)))
  | .destroy _ _ => inferInstanceAs (Decidable (_ ∨ _ ≠ _))

/-- `llog_cat_new_log` finds no slot, gets no log, or takes a slot whose bit is clear. -/
def TakesClear (cat : Catalog) : Except LlogFault (Int × Catalog) → Prop
  | .ok (rc, cat') => (rc = enospc ∧ cat' = cat) ∨ (rc = eio ∧ cat' = cat) ∨
      (cat.log.bitmap cat'.log.lastIdx = false ∧ cat'.log.bitmap cat'.log.lastIdx = true)
  | .error fault => fault = .emptyLog

/-- The logs of a catalog are at positions in use. -/
structure Placed (s : CatState) (used : List Nat) (h t : Nat) : Prop where
  ring : Ringed s.cat used h t
  live : ∀ log ∈ s.live, ∃ p ∈ used, slotOf p = log.1
  file : s.live ≠ [] → s.cat.log.file ≠ []

variable {used : List Nat} {h : Nat}

theorem NewLog.takesClear {cat : Catalog} {id : LlogLogid}
    {result : Except LlogFault (Int × Catalog)} (new : NewLog cat used h t id io result) :
    TakesClear cat result := by
  cases new with
  | noSpace head => exact .inl ⟨rfl, rfl⟩
  | noLog failed => exact .inr (.inl ⟨rfl, rfl⟩)
  | empty slot empty => rfl
  | taken rc cat' clear ring head code file written =>
    have last : cat'.log.lastIdx = slotOf (t + 1) := ring.last
    refine .inr (.inr ?_)
    rw [last]
    exact ⟨clear, (ring.bits _).mpr (.inr ⟨t + 1, by simp, rfl⟩)⟩

section

variable {s : CatState} {used : List Nat} {h t : Nat}

theorem Placed.newLog (placed : Placed s used h t) {id : LlogLogid}
    (careful : Careful s (.newLog id io)) :
    Outcome (fun s' => ∃ used h t, Placed s' used h t) (· = .emptyLog)
      (catStep s (.newLog id io)) := by
  have new := placed.ring.newLog careful id io
  rw [catStep]
  generalize llogCatNewLog s.cat id io = result at new
  cases new with
  | noSpace | noLog => exact ⟨used, h, t, placed⟩
  | empty slot empty => rfl
  | taken rc cat' clear ring head code file written =>
    have old : ∀ log ∈ s.live, ∃ p ∈ used ++ [t + 1], slotOf p = log.1 := fun log mem =>
      have ⟨p, used, same⟩ := placed.live log mem
      ⟨p, mem_append_left _ used, same⟩
    dsimp only
    split_ifs with failed
    · exact ⟨_, _, _, ring, old, fun some => file (.inr (placed.file some))⟩
    · refine ⟨_, _, _, ring, forall_mem_append.mpr ⟨old, forall_mem_singleton.mpr ?_⟩,
        fun _ => file (.inl (Int.not_lt.mp failed))⟩
      exact ⟨t + 1, by simp, ring.last.symm⟩

theorem Placed.destroy (placed : Placed s used h t) {slot : Nat} {stored : Bool}
    (careful : Careful s (.destroy slot stored)) :
    Outcome (fun s' => ∃ used h t, Placed s' used h t) (· = .emptyLog)
      (catStep s (.destroy slot stored)) := by
  rw [catStep]
  split_ifs with known
  · obtain ⟨log, mem, rfl⟩ := mem_map.mp known
    obtain ⟨p, usedP, same⟩ := placed.live log mem
    have file := placed.file (ne_nil_of_mem mem)
    rw [← same] at careful ⊢
    by_cases ok : stored = true
    · subst ok
      obtain ⟨cat', h', cancelled, ring, headed, -⟩ := placed.ring.cancelSlot usedP file
      have written : cat'.log.file ≠ [] := headed ▸ writeRecord_ne_nil headerCells_ne_nil
      rw [cancelled]
      refine ⟨_, _, _, ring, fun other memOther => ?_, fun _ => written⟩
      obtain ⟨memLive, ne⟩ := mem_filter.mp memOther
      obtain ⟨q, usedQ, sameQ⟩ := placed.live other memLive
      refine ⟨q, mem_filter.mpr ⟨usedQ, ?_⟩, sameQ⟩
      have : q ≠ p := fun eq => by
        rw [← sameQ, eq] at ne
        simp at ne
      simpa using this
    · have failed := Bool.eq_false_iff.mpr ok
      subst failed
      rw [placed.ring.cancelSlot_failed usedP file (careful.resolve_left ok)]
      exact ⟨_, _, _, placed.ring, fun other memOther => placed.live other (mem_filter.mp memOther).1,
        fun _ => file⟩
  · exact ⟨used, h, t, placed⟩

end

/-- In every run of careful operations `llog_cat_new_log` never takes a slot whose bit is set. -/
theorem new_log_takes_clear_slot (ops : List CatOp)
    (careful : Meets catStep Careful noLogs ops) :
    Outcome (fun s => ∀ id io, Careful s (.newLog id io) →
        TakesClear s.cat (llogCatNewLog s.cat id io))
      (· = .emptyLog) (run catStep noLogs ops) := by
  have kept : Outcome (fun s => ∃ used h t, Placed s used h t) (· = .emptyLog)
      (run catStep noLogs ops) := by
    refine outcome_run (fun s op inv holds => ?_) ⟨[], 0, 0,
      newCatalog_ringed, forall_mem_nil _, fun some => absurd rfl some⟩ careful
    obtain ⟨used, h, t, placed⟩ := inv
    cases op with
    | newLog id io => exact placed.newLog holds
    | destroy slot stored => exact placed.destroy holds
  refine kept.mono fun s inv id io holds => ?_
  obtain ⟨used, h, t, placed⟩ := inv
  exact (placed.ring.newLog holds id io).takesClear

/-- Two logs, the older one destroyed. -/
theorem new_log_takes_clear_slot_two :
    Outcome (fun s => ∀ id io, Careful s (.newLog id io) →
        TakesClear s.cat (llogCatNewLog s.cat id io))
      (· = .emptyLog)
      (run catStep noLogs [.newLog ⟨(1, 0), (0, 0), 0⟩ .done, .newLog ⟨(2, 0), (0, 0), 0⟩ .done,
        .destroy 1 true]) :=
  new_log_takes_clear_slot _ (by decide)

/-- So many logs in a new catalog, none destroyed. -/
structure Filled (k : Nat) (used : List Nat) (s : CatState) : Prop where
  ring : Ringed s.cat used 0 k
  all : ∀ p, 1 ≤ p → p ≤ k → p ∈ used
  head : s.cat.catIdx = 0
  file : k ≠ 0 → s.cat.log.file ≠ []
  live : ∀ i, 1 ≤ i → i ≤ k → i ∈ s.live.map (·.1)

variable {s : CatState}

/-- A log is created in a catalog that has room. -/
theorem Ringed.addLog (ring : Ringed s.cat used h t)
    (free : s.cat.catIdx ≠ (s.cat.log.lastIdx + 1) % llogBitmapSize)
    (hidden : ¬ (s.cat.log.lastIdx = llogBitmapSize - 1 ∧ s.cat.catIdx = 1))
    (written : t ≠ 0 → s.cat.log.file ≠ []) (id : LlogLogid) :
    ∃ cat, catStep s (.newLog id .done) = .ok ⟨cat, s.live ++ [(slotOf (t + 1), id)]⟩ ∧
      Ringed cat (used ++ [t + 1]) h (t + 1) ∧ cat.catIdx = s.cat.catIdx ∧ cat.log.file ≠ [] := by
  have new := ring.newLog hidden id .done
  rw [catStep]
  generalize llogCatNewLog s.cat id .done = result at new
  cases new with
  | noSpace full => exact absurd full free
  | noLog failed => cases failed
  | empty slot empty =>
    by_cases none : t = 0
    · rw [ring.nextSlot_eq, none] at slot
      exact absurd rfl slot
    · exact absurd empty (written none)
  | taken rc cat' clear next same code file =>
    have done : ¬ rc < 0 := fun negative => by
      rcases code.mp negative with failed | failed <;> cases failed
    have last : cat'.log.lastIdx = slotOf (t + 1) := next.last
    dsimp only
    rw [if_neg done, last]
    exact ⟨cat', rfl, next, same, file (.inl (Int.not_lt.mp done))⟩

theorem Filled.step {k : Nat} (filled : Filled k used s) (room : k < slots) (id : LlogLogid) :
    ∃ s', catStep s (.newLog id .done) = .ok s' ∧ Filled (k + 1) (used ++ [k + 1]) s' := by
  have head := filled.head
  have free : s.cat.catIdx ≠ (s.cat.log.lastIdx + 1) % llogBitmapSize := by
    rw [filled.ring.last, head, bitmapSize_eq]
    unfold lastSlot slotOf
    rw [slots_eq] at *
    split_ifs <;> omega
  obtain ⟨cat, step, ring, same, file⟩ :=
    filled.ring.addLog free (fun hidden => by omega) filled.file id
  have slot : slotOf (k + 1) = k + 1 := by
    rw [slotOf, Nat.add_sub_cancel, Nat.mod_eq_of_lt room]
  refine ⟨_, step, ring, fun p low high => ?_, same.trans head, fun _ => file, fun i low high => ?_⟩
  · rcases Nat.lt_or_eq_of_le high with before | here
    · exact mem_append_left _ (filled.all p low (by omega))
    · exact mem_append_right _ (mem_singleton.mpr here)
  · rw [map_append]
    rcases Nat.lt_or_eq_of_le high with before | here
    · exact mem_append_left _ (filled.live i low (by omega))
    · grind

theorem filled_run (id : LlogLogid) {k : Nat} (room : k ≤ slots) :
    ∃ s used, run catStep noLogs (List.replicate k (.newLog id .done)) = .ok s ∧
      Filled k used s := by
  induction k with
  | zero =>
    exact ⟨noLogs, [], rfl, newCatalog_ringed, fun p low high => by omega, rfl,
      fun none => absurd rfl none, fun i low high => by omega⟩
  | succ k ih =>
    obtain ⟨s, used, ran, filled⟩ := ih (by omega)
    obtain ⟨s', step, next⟩ := filled.step (by omega) id
    refine ⟨s', _, ?_, next⟩
    rw [replicate_succ', run_append, ran, bind_ok, run, step]
    rfl

/-- The oldest of several logs is destroyed: the head goes to its slot. -/
theorem Ringed.destroyOldest (ring : Ringed s.cat used h t) (oldest : h + 1 ∈ used)
    (next : h + 2 ∈ used) (live : slotOf (h + 1) ∈ s.live.map (·.1)) (file : s.cat.log.file ≠ [])
    (here : s.cat.catIdx + 1 = slotOf (h + 1)) :
    ∃ s', catStep s (.destroy (slotOf (h + 1)) true) = .ok s' ∧ s'.cat.log.file ≠ [] ∧
      Ringed s'.cat (used.filter (· ≠ h + 1)) (h + 1) t ∧
      s'.live = s.live.filter (·.1 ≠ slotOf (h + 1)) := by
  obtain ⟨cat', h', cancelled, kept, headed, moved, -⟩ := ring.cancelSlot oldest file
  have spec := moved here
  have stop : h' = h + 1 := by
    have before := spec.before
    have := spec.passed (h + 2) next (by omega)
    omega
  subst stop
  refine ⟨_, by rw [catStep, if_pos live, cancelled], ?_, kept, rfl⟩
  rw [headed]
  exact writeRecord_ne_nil headerCells_ne_nil

/-- With the newest log in the last slot and the head at slot 1, slot 1 is used again, and then slot 2,
whose bit is set. -/
theorem full_catalog_takes_used_slot :
    run catStep noLogs (List.replicate slots (.newLog ⟨(1, 0), (0, 0), 0⟩ .done) ++
      [.destroy 1 true, .newLog ⟨(2, 0), (0, 0), 0⟩ .done, .newLog ⟨(3, 0), (0, 0), 0⟩ .done]) =
      .error .bitAlreadySet := by
  obtain ⟨s, used, ran, filled⟩ := filled_run ⟨(1, 0), (0, 0), 0⟩ (le_refl slots)
  obtain ⟨s₁, destroyed, file, ring, -⟩ := filled.ring.destroyOldest
    (filled.all 1 (by decide) (by decide)) (filled.all 2 (by decide) (by decide))
    (filled.live 1 (by decide) (by decide)) (filled.file (by decide)) (by rw [filled.head]; decide)
  have slot₁ : slotOf (0 + 1) = 1 := by decide
  rw [slot₁] at destroyed
  have head : s₁.cat.catIdx = 1 := by
    rcases ring.head with at' | ⟨-, none⟩
    · exact at'
    · exact absurd none (by decide)
  have last : s₁.cat.log.lastIdx = slots := ring.last
  have index : (s₁.cat.log.lastIdx + 1) % llogBitmapSize = 0 := by
    rw [last]
    decide
  have slot : s₁.cat.nextSlot = 1 := by
    unfold Catalog.nextSlot
    rw [index, if_pos rfl]
  have free : s₁.cat.catIdx ≠ (s₁.cat.log.lastIdx + 1) % llogBitmapSize := by
    rw [head, index]
    decide
  have taken := llogCatNewLog_free free (ring.nextSlot_clear free) ⟨(2, 0), (0, 0), 0⟩
    (show NewLogIo.done ≠ .noLog by decide)
  have set : s₁.cat.log.bitmap 2 = true := by
    refine (ring.bits 2).mpr (.inr ⟨2, mem_filter.mpr ⟨?_, by decide⟩, by decide⟩)
    exact filled.all 2 (by decide) (by decide)
  rw [run_append, ran, bind_ok, run, destroyed]
  dsimp only
  rw [run, catStep]
  generalize llogCatNewLog s₁.cat ⟨(2, 0), (0, 0), 0⟩ .done = result at taken
  cases result with
  | error fault => exact absurd taken.2.2 file
  | ok result =>
    obtain ⟨rc, cat⟩ := result
    obtain ⟨sameHead, bits, code, -⟩ := taken
    have done : ¬ rc < 0 := fun negative => by
      rcases code.mp negative with failed | failed <;> cases failed
    have last₂ : cat.log.lastIdx = 1 := bits.lastIdx.trans slot
    have set₂ : cat.log.bitmap 2 = true := by
      rw [bits.bitmap]
      unfold Catalog.taken assignBit
      dsimp only
      rw [slot, if_neg (by decide)]
      exact set
    have index₂ : (cat.log.lastIdx + 1) % llogBitmapSize = 2 := by
      rw [last₂]
      decide
    have slot₂ : cat.nextSlot = 2 := by
      unfold Catalog.nextSlot
      rw [index₂, if_neg (by decide)]
    dsimp only
    rw [if_neg done]
    dsimp only
    rw [run, catStep]
    unfold llogCatNewLog
    rw [index₂, sameHead, head, if_neg (by decide), if_neg (by decide), slot₂, set₂, if_pos rfl]

end Llog
