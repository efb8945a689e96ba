/-
Module: Lustre.Llog.CatalogHead
Purpose: The head of a catalog stands before the oldest log, and the record of a log stays in the
  file until its slot is used again.
Trusted boundary: none
-/
import Mathlib.Data.List.Nodup
import Lustre.Llog.CatalogRing
import Lustre.Llog.Scan

namespace Llog

open List Run

/-! ### Logs and positions -/

/-- For the logs to be where the bits are: what the catalog writes is written, and the ring has room. -/
def Tended (s : CatState) : CatOp → Prop
  | .newLog _ io => (io = .done ∨ io = .noLog) ∧
      ¬ (s.cat.log.lastIdx = llogBitmapSize - 1 ∧ s.cat.catIdx = 1)
  | .destroy _ stored => stored = true

instance (s : CatState) (op : CatOp) : Decidable (Tended s op) := by
  cases op <;> unfold Tended <;> infer_instance

/-- The logs of a catalog are at the positions in use, in their order. -/
structure Lives (s : CatState) (ps : List Nat) (h t : Nat) : Prop where
  ring : Ringed s.cat ps h t
  slots : s.live.map (·.1) = ps.map slotOf
  sorted : ps.Pairwise (· < ·)
  file : t ≠ 0 → s.cat.log.file ≠ []

theorem noLogs_lives : Lives noLogs [] 0 0 :=
  ⟨newCatalog_ringed, rfl, .nil, fun none => absurd rfl none⟩

variable {p : Nat} {id : LlogLogid} {io : NewLogIo} {cat' : Catalog}

section

variable {s : CatState} {ps : List Nat} {h t : Nat}

/-- What a new log does: nothing, or it stands behind all others. -/
inductive LogAdded (s : CatState) (ps : List Nat) (h t : Nat) (id : LlogLogid) : CatState → Prop where
  | same : LogAdded s ps h t id s
  | added (cat : Catalog) (file : cat.log.file = slotFile s.cat.log.file id (slotOf (t + 1)))
      (lives : Lives ⟨cat, s.live ++ [(slotOf (t + 1), id)]⟩ (ps ++ [t + 1]) h (t + 1)) :
      LogAdded s ps h t id ⟨cat, s.live ++ [(slotOf (t + 1), id)]⟩

theorem Lives.newLog (lives : Lives s ps h t) (tended : Tended s (.newLog id io)) :
    ∃ s', catStep s (.newLog id io) = .ok s' ∧ LogAdded s ps h t id s' := by
  obtain ⟨stored, hidden⟩ := tended
  have new := lives.ring.newLog hidden id io
  rw [catStep]
  generalize llogCatNewLog s.cat id io = result at new
  cases new with
  | noSpace | noLog => exact ⟨s, rfl, .same⟩
  | empty slot empty =>
    by_cases none : t = 0
    · rw [lives.ring.nextSlot_eq, none] at slot
      exact absurd rfl slot
    · exact absurd empty (lives.file none)
  | taken rc cat clear ring head code file written =>
    have done : ¬ rc < 0 := fun negative => by
      rcases stored with rfl | rfl <;> rcases code.mp negative with failed | failed <;> cases failed
    have last : cat.log.lastIdx = slotOf (t + 1) := ring.last
    dsimp only
    rw [if_neg done, last]
    refine ⟨_, rfl, .added cat (written (Int.not_lt.mp done)) ⟨ring, ?_, ?_, fun _ => file (.inl (Int.not_lt.mp done))⟩⟩
    · rw [map_append, map_append, lives.slots]
      rfl
    · refine pairwise_append.mpr ⟨lives.sorted, pairwise_singleton _ _, fun p mem q new => ?_⟩
      have := lives.ring.inside p mem
      rw [mem_singleton] at new
      omega

/-- The logs that stay when one is destroyed. -/
theorem Lives.filter_slots (lives : Lives s ps h t) (mem : p ∈ ps) :
    (s.live.filter (·.1 ≠ slotOf p)).map (·.1) = (ps.filter (· ≠ p)).map slotOf := by
  have left : (s.live.filter (·.1 ≠ slotOf p)).map (·.1) =
      (s.live.map (·.1)).filter (· ≠ slotOf p) := by
    rw [filter_map]
    rfl
  rw [left, lives.slots, filter_map]
  refine congrArg _ (filter_congr fun q memQ => ?_)
  have : slotOf q = slotOf p ↔ q = p :=
    ⟨fun same => lives.ring.unique memQ mem same, fun same => by rw [same]⟩
  simp [this]

theorem Lives.destroy (lives : Lives s ps h t) (mem : p ∈ ps) :
    ∃ cat' h', catStep s (.destroy (slotOf p) true) =
        .ok ⟨cat', s.live.filter (·.1 ≠ slotOf p)⟩ ∧
      Lives ⟨cat', s.live.filter (·.1 ≠ slotOf p)⟩ (ps.filter (· ≠ p)) h' t ∧
      cat'.log.file = writeRecord s.cat.log.file 0 headerCells ∧
      (s.cat.catIdx + 1 = slotOf p → HeadMoved s.cat ps h t p { cat' with log := s.cat.log } h') ∧
      (s.cat.catIdx + 1 ≠ slotOf p → cat'.catIdx = s.cat.catIdx ∧ h' = h) := by
  have inside := lives.ring.inside p mem
  have known : slotOf p ∈ s.live.map (·.1) := by
    rw [lives.slots]
    exact mem_map_of_mem mem
  obtain ⟨cat', h', cancelled, ring, file, moved, still⟩ :=
    lives.ring.cancelSlot mem (lives.file (by omega))
  have written : cat'.log.file ≠ [] := file ▸ writeRecord_ne_nil headerCells_ne_nil
  refine ⟨cat', h', ?_, ⟨ring, lives.filter_slots mem, lives.sorted.filter _, fun _ => written⟩, file,
    moved, still⟩
  rw [catStep, if_pos known, cancelled]

theorem Lives.position (lives : Lives s ps h t) {slot : Nat} (known : slot ∈ s.live.map (·.1)) :
    ∃ p ∈ ps, slotOf p = slot := by
  rw [lives.slots] at known
  exact mem_map.mp known

/-! ### The head -/

/-- The slot behind one in the ring, without slot 0. -/
def ringNext (slot : Nat) : Nat := if slot + 1 = llogBitmapSize then 1 else slot + 1

/-- For the head to follow the oldest log: what the catalog writes is written and the ring has room; the
log in slot 1 is not destroyed while the head is at the last slot, nor the only log after a newer one. -/
def Orderly (s : CatState) : CatOp → Prop
  | .newLog id io => Tended s (.newLog id io)
  | .destroy slot stored => stored = true ∧ (s.cat.catIdx = llogBitmapSize - 1 → slot ≠ 1) ∧
      ((∀ log ∈ s.live, log.1 = slot) → slot = s.cat.log.lastIdx)

instance (s : CatState) (op : CatOp) : Decidable (Orderly s op) := by
  cases op <;> unfold Orderly <;> infer_instance

/-- The head is right before the first position in use, or at the newest log. -/
structure Tracking (s : CatState) (ps : List Nat) (h t : Nat) : Prop where
  lives : Lives s ps h t
  first : ∀ p, ps.head? = some p → p = h + 1
  empty : ps = [] → h = t ∧ s.cat.catIdx = s.cat.log.lastIdx

theorem headAt_next {catIdx h : Nat} (head : HeadAt catIdx h) : slotOf (h + 1) = ringNext catIdx := by
  have bound := Nat.mod_lt h (show 0 < slots by decide)
  unfold HeadAt at head
  unfold ringNext slotOf
  rw [bitmapSize_eq, Nat.add_sub_cancel]
  split_ifs <;> omega

section

variable (track : Tracking s ps h t)

include track

/-- The head sees that the log behind it is destroyed, unless slot 0 is between them. -/
theorem Tracking.seen (here : p = h + 1) (wraps : s.cat.catIdx = llogBitmapSize - 1 → slotOf p ≠ 1)
    : s.cat.catIdx + 1 = slotOf p := by
  have next := headAt_next track.lives.ring.head
  rw [← here] at next
  unfold ringNext at next
  split_ifs at next with last
  · exact absurd next (wraps (by omega))
  · exact next.symm

/-- The log right behind the head is destroyed while others stay. -/
theorem Tracking.next {h' : Nat} (moved : HeadMoved s.cat ps h t p cat' h') (here : p = h + 1) :
    ∀ q, (ps.filter (· ≠ p)).head? = some q → q = h' + 1 := by
  intro q first
  have memQ : q ∈ ps.filter (· ≠ p) := mem_of_head? first
  obtain ⟨usedQ, ne⟩ := mem_filter.mp memQ
  have ne : q ≠ p := by simpa using ne
  have later := moved.passed q usedQ ne
  have inside := track.lives.ring.inside q usedQ
  rcases moved.stop (by omega) with newest | used
  · omega
  · have before := moved.before
    have memNext : h' + 1 ∈ ps.filter (· ≠ p) := mem_filter.mpr ⟨used, by
      have : h' + 1 ≠ p := by omega
      simpa using this⟩
    have sorted := track.lives.sorted.filter (· ≠ p)
    obtain ⟨rest, split⟩ := head?_eq_some_iff.mp first
    rw [split] at memNext sorted
    rcases mem_cons.mp memNext with same | behind
    · exact same.symm
    · have := rel_of_pairwise_cons sorted behind
      omega

/-- The first position in use stays when another log is destroyed. -/
theorem Tracking.stays (other : p ≠ h + 1) :
    ∀ q, (ps.filter (· ≠ p)).head? = some q → q = h + 1 := by
  intro q first
  cases ps with
  | nil => cases first
  | cons r rest => grind [cases Tracking]

/-- The only log is destroyed and was the newest one: the head goes to it. -/
theorem Tracking.last_gone (mem : p ∈ ps) (only : ∀ q ∈ ps, q = p)
    (newest : (∀ log ∈ s.live, log.1 = slotOf p) → slotOf p = s.cat.log.lastIdx)
    (wraps : s.cat.catIdx = llogBitmapSize - 1 → slotOf p ≠ 1) {h' : Nat}
    {live : List (Nat × LlogLogid)} (lives : Lives ⟨cat', live⟩ (ps.filter (· ≠ p)) h' t)
    (moved : s.cat.catIdx + 1 = slotOf p → HeadMoved s.cat ps h t p { cat' with log := s.cat.log } h') :
    h' = t ∧ cat'.catIdx = cat'.log.lastIdx := by
  have inside := track.lives.ring.inside p mem
  have room := track.lives.ring.room
  have first : p = h + 1 := by
    cases ps with
    | nil => cases mem
    | cons r rest =>
      rw [← only r mem_cons_self]
      exact track.first r rfl
  have all : ∀ log ∈ s.live, log.1 = slotOf p := by
    intro log memLog
    obtain ⟨q, memQ, same⟩ := track.lives.position (mem_map_of_mem memLog)
    rw [← same, only q memQ]
  have last : s.cat.log.lastIdx = slotOf t := by
    rw [track.lives.ring.last, lastSlot, if_neg (by omega)]
  have top : p = t := slotOf_inj (by omega) inside.2 (by omega) ((newest all).trans last)
  have spec := moved (track.seen first wraps)
  have before := spec.before
  have le := spec.le
  refine ⟨by omega, ?_⟩
  have same : cat'.log.lastIdx = s.cat.log.lastIdx := lives.ring.last.trans track.lives.ring.last.symm
  rw [same]
  exact spec.newest top

theorem Tracking.newLog (orderly : Orderly s (.newLog id io)) :
    ∃ s', catStep s (.newLog id io) = .ok s' ∧ ∃ ps h t, Tracking s' ps h t := by
  obtain ⟨s', step, result⟩ := track.lives.newLog orderly
  refine ⟨s', step, ?_⟩
  cases result with
  | same => exact ⟨ps, h, t, track⟩
  | added cat head lives =>
    refine ⟨_, _, _, lives, fun p first => ?_, fun none => absurd none (by simp)⟩
    cases ps with
    | nil =>
      have := (track.empty rfl).1
      cases first
      omega
    | cons q rest => exact track.first p first

theorem Tracking.destroy {slot : Nat} {stored : Bool} (orderly : Orderly s (.destroy slot stored)) :
    ∃ s', catStep s (.destroy slot stored) = .ok s' ∧ ∃ ps h t, Tracking s' ps h t := by
  obtain ⟨rfl, wraps, newest⟩ := orderly
  by_cases known : slot ∈ s.live.map (·.1)
  · obtain ⟨p, mem, rfl⟩ := track.lives.position known
    obtain ⟨cat', h', step, lives, -, moved, still⟩ := track.lives.destroy mem
    refine ⟨_, step, _, h', t, lives, ?_, fun none => ?_⟩
    · by_cases here : s.cat.catIdx + 1 = slotOf p
      · exact track.next (moved here) (track.lives.ring.slot_next mem here)
      · obtain ⟨-, rfl⟩ := still here
        have other : p ≠ h' + 1 := fun first => here (track.seen first wraps)
        exact track.stays other
    · have only : ∀ q ∈ ps, q = p := by simp_all
      exact track.last_gone mem only newest wraps lives moved
  · refine ⟨s, ?_, ps, h, t, track⟩
    rw [catStep, if_neg known]

end

end

/-- The head is right before the oldest log, or at the newest slot if there is none; and no slot is
refused without a log, or while the slot behind the newest is not the one before the oldest. -/
structure HeadTracked (s : CatState) : Prop where
  oldest : ∀ log, s.live.head? = some log → log.1 = ringNext s.cat.catIdx
  empty : s.live = [] → s.cat.catIdx = s.cat.log.lastIdx
  noSpace : ∀ id io cat, llogCatNewLog s.cat id io = .ok (enospc, cat) →
    ∃ log, s.live.head? = some log ∧ log.1 = ringNext ((s.cat.log.lastIdx + 1) % llogBitmapSize)

/-- Only a head behind the newest log makes `llog_cat_new_log` refuse a slot. -/
theorem head_of_noSpace {cat : Catalog} (refused : llogCatNewLog cat id io = .ok (enospc, cat')) :
    cat.catIdx = (cat.log.lastIdx + 1) % llogBitmapSize := by
  have other : eio ≠ enospc := by decide
  by_contra free
  have created : io ≠ .noLog := fun failed => by
    unfold llogCatNewLog at refused
    rw [if_neg free, if_pos failed] at refused
    exact other (Prod.mk.inj (Except.ok.inj refused)).1
  cases set : cat.log.bitmap cat.nextSlot with
  | true => simp_all [llogCatNewLog]
  | false =>
    have taken := llogCatNewLog_free free set id created
    rw [refused] at taken
    exact taken.2.2.2.2.1 rfl

theorem Tracking.tracked {s : CatState} {ps : List Nat} {h t : Nat} (track : Tracking s ps h t) :
    HeadTracked s := by
  have oldest : ∀ log, s.live.head? = some log → log.1 = ringNext s.cat.catIdx := by
    intro log first
    have slots := congrArg head? track.lives.slots
    rw [head?_map, head?_map, first] at slots
    cases ps with
    | nil => cases slots
    | cons p rest =>
      have same : log.1 = slotOf p := Option.some.inj slots
      rw [same, track.first p rfl]
      exact headAt_next track.lives.ring.head
  have empty : s.live = [] → s.cat.catIdx = s.cat.log.lastIdx := by
    intro none
    have slots := track.lives.slots
    rw [none] at slots
    exact (track.empty (map_eq_nil_iff.mp slots.symm)).2
  refine ⟨oldest, empty, fun id io cat refused => ?_⟩
  have full := head_of_noSpace refused
  cases live : s.live with
  | nil =>
    rw [empty live, bitmapSize_eq] at full
    rw [slots_eq] at *
    omega
  | cons log rest =>
    refine ⟨log, rfl, ?_⟩
    rw [← full]
    exact oldest log (by rw [live]; rfl)

/-- In every run of orderly operations the head tracks the oldest log. -/
theorem head_before_oldest (ops : List CatOp) (orderly : Run.Meets catStep Orderly noLogs ops) :
    ∃ s, run catStep noLogs ops = .ok s ∧ HeadTracked s := by
  have start : Tracking noLogs [] 0 0 := ⟨noLogs_lives, nofun, fun _ => ⟨rfl, rfl⟩⟩
  obtain ⟨s, ran, ps, h, t, track⟩ : ∃ s, run catStep noLogs ops = .ok s ∧
      ∃ ps h t, Tracking s ps h t := by
    refine run_ok (fun s op inv holds => ?_) ⟨[], 0, 0, start⟩ orderly
    obtain ⟨ps, h, t, track⟩ := inv
    cases op with
    | newLog id io => exact track.newLog holds
    | destroy slot stored => exact track.destroy holds
  exact ⟨s, ran, track.tracked⟩

/-- Three logs; the second one is destroyed before the first. -/
theorem head_before_oldest_three :
    ∃ s, run catStep noLogs [.newLog ⟨(1, 0), (0, 0), 0⟩ .done, .newLog ⟨(2, 0), (0, 0), 0⟩ .done,
        .newLog ⟨(3, 0), (0, 0), 0⟩ .done, .destroy 2 true, .destroy 1 true, .destroy 3 true] = .ok s ∧
      HeadTracked s :=
  head_before_oldest _ (by decide)

/-- Two logs, the newer destroyed first: `llog_cat_set_first_idx` stops before the newest slot, and no
later destruction moves the head. -/
theorem head_left_behind :
    ∃ s, run catStep noLogs [.newLog ⟨(1, 0), (0, 0), 0⟩ .done, .newLog ⟨(2, 0), (0, 0), 0⟩ .done,
        .destroy 2 true, .destroy 1 true, .newLog ⟨(3, 0), (0, 0), 0⟩ .done, .destroy 3 true] = .ok s ∧
      s.live = [] ∧ s.cat.catIdx ≠ s.cat.log.lastIdx :=
  ⟨_, rfl, by decide, by decide⟩

/-! ### The file of a catalog -/

/-- A record as catalogs have it. -/
def LlogRec.Slot (rec : LlogRec) : Prop := ∃ id, rec = logidRec id rec.index

variable {rec : LlogRec} {k : Nat}

section

variable {recs : List LlogRec}

theorem LlogRec.Slot.cells_length (slot : rec.Slot) : rec.cells.length = 8 := by
  obtain ⟨id, made⟩ := slot
  rw [made]
  rfl

theorem LlogRec.Slot.sized (slot : rec.Slot) : rec.Sized := by
  obtain ⟨id, made⟩ := slot
  rw [made]
  rfl

theorem LlogRec.Slot.typed (slot : rec.Slot) : rec.Typed := by
  obtain ⟨id, made⟩ := slot
  exact ⟨.llogLogid, by rw [made]; rfl⟩

theorem LlogRec.Slot.len (slot : rec.Slot) : rec.len = 64 := by
  obtain ⟨id, made⟩ := slot
  rw [made]
  rfl

/-- Records cut into chunks of 128. -/
theorem exists_chunks (n : Nat) : ∀ recs : List LlogRec, recs.length ≤ n →
    ∃ chunks : List (List LlogRec), chunks.flatten = recs ∧ (∀ chunk ∈ chunks, chunk ≠ []) ∧
      (∀ chunk ∈ chunks, chunk.length ≤ 128) ∧ ∀ chunk ∈ chunks.dropLast, chunk.length = 128 := by
  induction n with
  | zero =>
    intro recs short
    rw [length_eq_zero_iff.mp (Nat.le_zero.mp short)]
    exact ⟨[], rfl, nofun, nofun, nofun⟩
  | succ n ih =>
    intro recs short
    by_cases fits : recs.length ≤ 128
    · by_cases none : recs = []
      · subst none
        exact ⟨[], rfl, nofun, nofun, nofun⟩
      · exact ⟨[recs], by simp, by simpa using none, by simpa using fits, nofun⟩
    · obtain ⟨chunks, flat, some, small, full⟩ := ih (recs.drop 128) (by
        rw [length_drop]
        omega)
      have more : chunks ≠ [] := fun none => by
        rw [none] at flat
        have := congrArg length flat
        rw [length_drop] at this
        simp only [flatten_nil, length_nil] at this
        omega
      have length : (recs.take 128).length = 128 := by
        rw [length_take]
        omega
      refine ⟨recs.take 128 :: chunks, ?_, ?_, ?_, ?_⟩
      · rw [flatten_cons, flat, take_append_drop]
      · grind
      · exact forall_mem_cons.mpr ⟨length.le, small⟩
      · rw [dropLast_cons_of_ne_nil more]
        exact forall_mem_cons.mpr ⟨length, full⟩

theorem chunkCells_flatten (chunks : List (List LlogRec)) :
    chunkCells chunks.flatten = (chunks.map chunkCells).flatten := by
  induction chunks with
  | nil => rfl
  | cons chunk chunks ih =>
    rw [flatten_cons, map_cons, flatten_cons, ← ih]
    exact flatMap_append

variable (slots : ∀ rec ∈ recs, rec.Slot)

include slots

theorem chunkCells_slots : (chunkCells recs).length = 8 * recs.length := by
  unfold chunkCells
  induction recs with
  | nil => rfl
  | cons rec recs ih =>
    obtain ⟨first, rest⟩ := forall_mem_cons.mp slots
    rw [flatMap_cons, length_append, first.cells_length, ih rest, length_cons]
    omega

theorem chunkTotal_slots : chunkTotal recs = 64 * recs.length := by
  unfold chunkTotal
  induction recs with
  | nil => rfl
  | cons rec recs ih =>
    obtain ⟨first, rest⟩ := forall_mem_cons.mp slots
    rw [map_cons, sum_cons, first.len, ih rest, length_cons]
    omega

/-- Writing the record of a slot replaces the record that was there, or appends it. -/
theorem writeRecord_slot (slot : rec.Slot) (inside : k ≤ recs.length) :
    writeRecord (headerCells ++ chunkCells recs) (llogChunkSize + k * 64) rec.cells =
      headerCells ++ chunkCells (recs.take k ++ rec :: recs.drop (k + 1)) := by
  have front : (headerCells ++ chunkCells (recs.take k)).length = 1024 + 8 * k := by
    rw [length_append, headerCells_length,
      chunkCells_slots fun rec mem => slots rec (mem_of_mem_take mem), length_take,
      min_eq_left inside]
  have whole : (headerCells ++ chunkCells recs).length = 1024 + 8 * recs.length := by
    rw [length_append, headerCells_length, chunkCells_slots slots]
  have place : (llogChunkSize + k * 64) / 8 = 1024 + 8 * k := by
    unfold llogChunkSize
    omega
  have split : headerCells ++ chunkCells recs =
      (headerCells ++ chunkCells (recs.take k)) ++ chunkCells (recs.drop k) := by
    rw [append_assoc]
    unfold chunkCells
    rw [← flatMap_append, take_append_drop]
  have dropped : (chunkCells (recs.drop k)).drop 8 = chunkCells (recs.drop (k + 1)) := by
    cases rest : recs.drop k with
    | nil =>
      have : recs.drop (k + 1) = [] := by
        rw [drop_eq_nil_iff] at rest ⊢
        omega
      rw [this]
      rfl
    | cons first rest' =>
      grind [chunkCells, tail_drop, mem_of_mem_drop, mem_cons_self, drop_left',
        LlogRec.Slot.cells_length]
  unfold writeRecord
  rw [place, whole, show 1024 + 8 * k - (1024 + 8 * recs.length) = 0 by omega, replicate_zero,
    append_nil, split, take_left' front, slot.cells_length, ← drop_drop, drop_left' front, dropped]
  unfold chunkCells
  rw [flatMap_append, flatMap_cons]
  simp only [append_assoc]

/-- A file of numbered records is a chain of chunks. -/
theorem chain_of_slots (numbered : Numbered 1 recs) {file : List Cell}
    (whole : recs ≠ [] → file = headerCells ++ chunkCells recs) :
    ∃ chunks, Chain file chunks ∧ chunks.flatten = recs := by
  obtain ⟨chunks, flat, some, small, full⟩ := exists_chunks recs.length recs le_rfl
  have inside : ∀ chunk ∈ chunks, ∀ rec ∈ chunk, rec.Slot := fun chunk mem rec here =>
    slots rec (flat ▸ mem_flatten_of_mem mem here)
  refine ⟨chunks, ⟨fun more => ?_, ?_, ?_, some, ?_, ?_, ?_⟩, flat⟩
  · grind [exists_mem_of_ne_nil, flatten_eq_nil_iff, chunkCells_flatten]
  · rw [flat]
    exact fun rec mem => (slots rec mem).sized
  · rw [flat]
    exact fun rec mem => (slots rec mem).typed
  · intro chunk mem
    rw [chunkTotal_slots (inside chunk ((dropLast_sublist _).mem mem)), full chunk mem]
    rfl
  · grind [llogChunkSize, llogMinRecSize, chunkTotal_slots]
  · rw [flat]
    exact numbered

end

/-- The record of a log. -/
def logRec (log : Nat × LlogLogid) : LlogRec := logidRec log.2 log.1

/-- The file of a catalog has a record for every slot used, and those of the logs. -/
structure Filed (s : CatState) (t : Nat) (recs : List LlogRec) : Prop where
  file : recs ≠ [] → s.cat.log.file = headerCells ++ chunkCells recs
  slot : ∀ rec ∈ recs, rec.Slot
  numbered : Numbered 1 recs
  count : recs.length = min t slots
  live : ∀ log ∈ s.live, logRec log ∈ recs

/-- A record is determined by its index. -/
theorem Numbered.unique {start : Nat} {recs : List LlogRec} (numbered : Numbered start recs)
    {rec' : LlogRec} (mem : rec ∈ recs) (mem' : rec' ∈ recs) (same : rec.index = rec'.index) :
    rec = rec' := by
  have distinct : (recs.map (·.index)).Nodup := by
    rw [numbered]
    exact nodup_range'
  exact inj_on_of_nodup_map distinct mem mem' same

/-- A record that takes the place of the one with its index, or the next place. -/
theorem numbered_replace {recs : List LlogRec} (numbered : Numbered 1 recs)
    (inside : k ≤ recs.length) (index : rec.index = k + 1) :
    Numbered 1 (recs.take k ++ rec :: recs.drop (k + 1)) ∧
      ∀ other ∈ recs, other.index ≠ k + 1 → other ∈ recs.take k ++ rec :: recs.drop (k + 1) := by
  have length : (recs.take k).length = k := by
    rw [length_take, min_eq_left inside]
  have halves := numbered_append.mp ((take_append_drop k recs).symm ▸ numbered)
  rw [length] at halves
  cases rest : recs.drop k with
  | nil =>
    have behind : recs.drop (k + 1) = [] := by
      rw [drop_eq_nil_iff] at rest ⊢
      omega
    rw [behind]
    constructor
    · rw [numbered_append, length]
      exact ⟨halves.1, numbered_cons.mpr ⟨by omega, rfl⟩⟩
    · intro other mem _
      rw [← take_append_drop k recs, rest, append_nil] at mem
      exact mem_append_left _ mem
  | cons old rest' =>
    have behind : recs.drop (k + 1) = rest' := by
      rw [← tail_drop, rest]
      rfl
    rw [rest] at halves
    obtain ⟨oldIndex, later⟩ := numbered_cons.mp halves.2
    rw [behind]
    constructor
    · rw [numbered_append, length]
      exact ⟨halves.1, numbered_cons.mpr ⟨by omega, later⟩⟩
    · grind [take_append_drop, mem_append_left, mem_append_right, mem_cons_of_mem]

section

variable {s : CatState} {ps : List Nat} {h t : Nat} {recs : List LlogRec}

/-- The file with a header that is written again. -/
theorem Filed.headed (filed : Filed s t recs) (some : recs ≠ []) :
    writeRecord s.cat.log.file 0 headerCells = headerCells ++ chunkCells recs := by
  rw [filed.file some, writeRecord_header]

/-- The file after the record of a slot was written. -/
theorem Filed.slotFile (filed : Filed s t recs) (empty : t = 0 → s.cat.log.file = [])
    (id : LlogLogid) (inside : k ≤ recs.length) : Llog.slotFile s.cat.log.file id (k + 1) =
      headerCells ++ chunkCells (recs.take k ++ logidRec id (k + 1) :: recs.drop (k + 1)) := by
  have headed : writeRecord s.cat.log.file 0 headerCells = headerCells ++ chunkCells recs := by
    by_cases none : recs = []
    · have count := filed.count
      rw [none, length_nil, slots_eq] at count
      rw [empty (by omega), none, writeRecord_newHeader]
      exact (append_nil _).symm
    · exact filed.headed none
  unfold Llog.slotFile
  rw [headed, Nat.add_sub_cancel]
  exact writeRecord_slot filed.slot ⟨id, rfl⟩ inside

theorem Filed.newLog (filed : Filed s t recs) (lives : Lives s ps h t) {id : LlogLogid}
    {cat : Catalog} (empty : t = 0 → s.cat.log.file = [])
    (file : cat.log.file = Llog.slotFile s.cat.log.file id (slotOf (t + 1)))
    (next : Lives ⟨cat, s.live ++ [(slotOf (t + 1), id)]⟩ (ps ++ [t + 1]) h (t + 1)) :
    ∃ recs, Filed ⟨cat, s.live ++ [(slotOf (t + 1), id)]⟩ (t + 1) recs := by
  obtain ⟨k, slot⟩ : ∃ k, slotOf (t + 1) = k + 1 := ⟨t % slots, rfl⟩
  have count := filed.count
  have place : k = t % slots := Nat.succ.inj slot.symm
  have inside : k ≤ recs.length := by
    have := Nat.mod_le t slots
    have := Nat.mod_lt t (show 0 < slots by decide)
    omega
  obtain ⟨numbered, kept⟩ := numbered_replace filed.numbered inside
    (show (logidRec id (k + 1)).index = k + 1 from rfl)
  rw [slot] at file
  refine ⟨recs.take k ++ logidRec id (k + 1) :: recs.drop (k + 1), fun _ => ?_, ?_, numbered, ?_, ?_⟩
  · exact file.trans (filed.slotFile empty id inside)
  · exact forall_mem_append.mpr ⟨fun rec front => filed.slot rec (mem_of_mem_take front),
      forall_mem_cons.mpr ⟨⟨id, rfl⟩, fun rec behind =>
        filed.slot rec (mem_of_mem_drop behind)⟩⟩
  · rw [length_append, length_take, length_cons, length_drop, count, place]
    rw [slots_eq]
    omega
  · intro log mem
    rcases mem_append.mp mem with old | new
    · refine kept _ (filed.live log old) fun same => ?_
      obtain ⟨p, used, here⟩ := lives.position (mem_map_of_mem old)
      have ahead := (lives.ring.inside p used).2
      have : slotOf p = slotOf (t + 1) := here.trans (same.trans slot.symm)
      have := next.ring.unique (mem_append_left _ used) (by simp) this
      omega
    · rw [mem_singleton] at new
      subst new
      rw [slot]
      simp [logRec]

theorem Filed.destroy (filed : Filed s t recs) {cat : Catalog} {p : Nat}
    (file : cat.log.file = writeRecord s.cat.log.file 0 headerCells) :
    Filed ⟨cat, s.live.filter (·.1 ≠ slotOf p)⟩ t recs := { filed with
  file := fun some => file.trans (filed.headed some)
  live := fun log mem => filed.live log (mem_filter.mp mem).1 }

end

end Llog
