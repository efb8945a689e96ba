/-
Module: Lustre.Fld.CacheLaw
Purpose: The update law of the location cache, and exactly when an insertion keeps it.
Trusted boundary: none
-/
import Mathlib.Data.List.Induction
import Lustre.Lib.Run
import Lustre.Fld.Cache

namespace Fld

open Fid List Run

variable {cache : FldCache} {new curr : FldCacheEntry} {before after list : List FldCacheEntry}

/-- The operation succeeds and leaves these ranges. -/
def Leaves (result : Except FldCacheFault FldCache) (ranges : List LuSeqRange) : Prop :=
  ∃ cache', result = .ok cache' ∧ Linked cache' ∧ entryRanges cache'.entries = ranges

theorem Linked.add (linked : Linked cache) (fresh : new.id ∉ entryIds cache.entries)
    (allocated : new.id < cache.next)
    (ids : (entryIds list).Perm (new.id :: entryIds cache.entries)) :
    Linked { cache with
      entries := list, lru := new.id :: cache.lru, count := cache.count + 1 } := by
  refine ⟨ids.nodup_iff.mpr (nodup_cons.mpr ⟨fresh, linked.distinct⟩),
    (linked.lru.cons new.id).trans ids.symm, ?_, fun id mem => ?_⟩
  · have length := ids.length_eq
    simp only [length_map, length_cons] at length
    have := linked.count
    show cache.count + 1 = (list.length : Int)
    omega
  · grind [cases Linked]

/-- The repair of a list with changed ranges. -/
theorem fldFixNewList_leaves {ranges : List LuSeqRange} (linked : Linked cache)
    (same : entryIds list = entryIds cache.entries) (nearly : Nearly (entryRanges list))
    (settles : settled (entryRanges list) = ranges) :
    Leaves (fldFixNewList { cache with entries := list }) ranges := by
  have kept : Linked { cache with entries := list } := by
    grind [length, length_map, cases Linked, intro Linked]
  obtain ⟨cache', done, repaired⟩ := fldFixNewList_spec nearly kept
  exact ⟨cache', done, repaired.linked, by rw [repaired.entries, ranges_settledEntries, settles]⟩

section

variable (linked : Linked cache) (fresh : new.id ∉ entryIds cache.entries)
  (allocated : new.id < cache.next) (ids : (entryIds list).Perm (new.id :: entryIds cache.entries))
  (nearly : Nearly (entryRanges list))

include linked fresh allocated ids nearly

theorem fldCacheEntryAdd_spec : ∃ cache', fldCacheEntryAdd cache new list = .ok cache' ∧
      Repaired cache (settledEntries list) cache' := by
  obtain ⟨cache', done, repaired⟩ := fldFixNewList_spec nearly (linked.add fresh allocated ids)
  exact ⟨cache', done, repaired.entries, repaired.linked, repaired.next⟩

theorem fldCacheEntryAdd_leaves {ranges : List LuSeqRange}
    (settles : settled (entryRanges list) = ranges) :
    Leaves (fldCacheEntryAdd cache new list) ranges := by
  obtain ⟨cache', done, repaired⟩ := fldCacheEntryAdd_spec linked fresh allocated ids nearly
  exact ⟨cache', done, repaired.linked, by rw [repaired.entries, ranges_settledEntries, settles]⟩

end

theorem linkAfter_eq {entry : FldCacheEntry} (fresh : new.id ∉ entryIds before) :
    linkAfter entry new.id (before ++ new :: after) = before ++ new :: entry :: after := by
  induction before with
  | nil => exact if_pos rfl
  | cons e before ih => grind [linkAfter]

theorem entryRanges_append {e : FldCacheEntry} :
    entryRanges (before ++ e :: after) = entryRanges before ++ e.range :: entryRanges after := by
  simp [entryRanges]

/-- An entry linked behind another one, where there is room for it. -/
theorem linkAfter_leaves (entry : FldCacheEntry) (linked : Linked cache)
    (entries : cache.entries = before ++ new :: after)
    (fresh : entry.id ∉ entryIds cache.entries) (allocated : entry.id < cache.next)
    (tidy : Tidy (entryRanges cache.entries)) (sane : rangeIsSane entry.range)
    (low : new.range.stop ≤ entry.range.start)
    (high : ∀ b ∈ entryRanges after, entry.range.stop ≤ b.start) :
    Leaves (fldCacheEntryAdd cache entry (linkAfter entry new.id cache.entries))
      (settled (entryRanges before ++ ([new.range, entry.range] ++ entryRanges after))) := by
  have distinct := linked.distinct
  rw [entries, entryIds, map_append, nodup_append] at distinct
  have apart : new.id ∉ entryIds before := fun mem =>
    distinct.2.2 new.id mem new.id mem_cons_self rfl
  have ranges : entryRanges (before ++ new :: entry :: after) =
      entryRanges before ++ ([new.range, entry.range] ++ entryRanges after) := entryRanges_append
  have link : linkAfter entry new.id cache.entries = before ++ new :: entry :: after := by
    rw [entries, linkAfter_eq apart]
  rw [link]
  refine fldCacheEntryAdd_leaves linked fresh allocated ?_ ?_ (by rw [ranges])
  · grind
  · rw [entries, entryRanges_append] at tidy
    obtain ⟨tidyFront, tidyBack, across⟩ := tidy_append.mp tidy
    obtain ⟨saneNew, -, tidyRest⟩ := tidy_cons.mp tidyBack
    rw [entryRanges_append]
    refine Tidy.nearly_of_ne_nil (tidy_append.mpr ⟨tidyFront, tidy_cons.mpr ⟨saneNew, ?_,
      tidy_cons.mpr ⟨sane, high, tidyRest⟩⟩, fun a mem => ?_⟩) (by simp)
    · exact forall_mem_cons.mpr ⟨low, fun b mem => (low.trans sane).trans (high b mem)⟩
    · grind

/-! ### The range that is met -/

section

variable (cache : FldCache) (before : List FldCacheEntry) (curr : FldCacheEntry)
  (after : List FldCacheEntry) (new : FldCacheEntry)

/-- A new entry and the entry its range meets. -/
structure Placed : Prop where
  linked : Linked cache
  entries : cache.entries = before ++ curr :: after
  fresh : new.id ∉ entryIds cache.entries
  allocated : new.id < cache.next
  meet : Meet new.range curr.range (entryRanges before) (entryRanges after)

/-- The ranges an insertion should settle. -/
abbrev placedRanges : List LuSeqRange :=
  entryRanges before ++ meetRanges new.range curr.range (entryRanges after)

/-- The entries with the end of `curr` cut off and the new one behind. -/
abbrev Placed.cutEntries : List FldCacheEntry :=
  before ++ { curr with range := { curr.range with stop := new.range.start } } :: new :: after

end

variable {range : LuSeqRange}

namespace Placed

theorem cutRanges : entryRanges (cutEntries before curr after new) =
      (entryRanges before ++ [{ curr.range with stop := new.range.start }]) ++
        new.range :: entryRanges after := by
  rw [entryRanges_append, append_assoc]
  rfl

/-- The new range is the end of one of another index: the third case fails its assertion. -/
theorem asserts (allocSplit : Bool) (differ : curr.range.index ≠ new.range.index)
    (start : curr.range.start < new.range.start) (stop : curr.range.stop = new.range.stop) :
    fldCacheOverlapHandle cache before curr after new allocSplit = .error .startsBelow := by
  simp_all [fldCacheOverlapHandle]

variable (placed : Placed cache before curr after new)

include placed

theorem addIds : (entryIds (before ++ { curr with range := range } :: new :: after)).Perm
      (new.id :: entryIds cache.entries) := by
  rw [placed.entries]
  have moved : (before.map (·.id) ++ [curr.id] ++ new.id :: after.map (·.id)).Perm _ :=
    perm_middle
  simpa using moved

theorem addIds' : (entryIds (before ++ new :: { curr with range := range } :: after)).Perm
      (new.id :: entryIds cache.entries) := by
  rw [placed.entries]
  simp only [entryIds, map_append, map_cons]
  exact perm_middle

theorem relabels :
    entryIds (before ++ { curr with range := range } :: after) = entryIds cache.entries := by
  rw [placed.entries]
  simp [entryIds]

theorem grows (same : curr.range.index = new.range.index) : Leaves (fldFixNewList { cache with
        entries := before ++ { curr with range := grownOver new.range curr.range } :: after })
      (settled (placedRanges before curr after new)) := by
  have meet := placed.meet
  have sane : rangeIsSane (grownOver new.range curr.range) :=
    (min_le_left _ _).trans (meet.saneMet.trans (le_max_left _ _))
  refine fldFixNewList_leaves placed.linked placed.relabels ?_ ?_
  · rw [entryRanges_append]
    exact meet.nearly sane le_rfl ((min_le_left _ _).trans meet.saneMet)
  · rw [entryRanges_append]
    exact (meet.settles_grown same).append fun p mem =>
      Nat.le_min.mpr ⟨meet.below p mem, meet.passed p mem⟩

theorem replaces (differ : curr.range.index ≠ new.range.index)
    (start : new.range.start ≤ curr.range.start) (stop : curr.range.stop ≤ new.range.stop) :
    Leaves (fldFixNewList { cache with
        entries := before ++ { curr with range := new.range } :: after })
      (settled (placedRanges before curr after new)) := by
  have meet := placed.meet
  refine fldFixNewList_leaves placed.linked placed.relabels ?_ ?_
  · rw [entryRanges_append]
    exact meet.nearly meet.sane (min_le_right _ _) meet.reach.le
  · unfold placedRanges meetRanges
    rw [entryRanges_append, Meet.leftPiece_none start]
    exact (meet.settles_covered differ stop).append meet.passed

/-- The new range takes the start of one that it meets. -/
theorem trims (start : new.range.start ≤ curr.range.start)
    (stop : new.range.stop < curr.range.stop) :
    Leaves (fldCacheEntryAdd cache new (before ++ new ::
        { curr with range := { curr.range with start := new.range.stop } } :: after))
      (settled (placedRanges before curr after new)) := by
  have meet := placed.meet
  have ranges : entryRanges (before ++ new ::
      { curr with range := { curr.range with start := new.range.stop } } :: after) =
      placedRanges before curr after new := by
    unfold placedRanges meetRanges
    rw [Meet.leftPiece_none start, meet.rightPiece_eq stop curr.range.flags
      (if_neg fun split => not_lt.mpr start split.2).symm,
      meet.cutRight_eq stop.le, entryRanges_append]
    rfl
  refine fldCacheEntryAdd_leaves placed.linked placed.fresh placed.allocated placed.addIds' ?_ ?_
  · rw [ranges]
    exact meet.nearly_meetRanges
  · rw [ranges]

theorem cutFront_stop : ∀ p ∈ entryRanges before ++ [{ curr.range with stop := new.range.start }],
      p.stop ≤ new.range.start :=
  forall_mem_append.mpr
    ⟨placed.meet.passed, forall_mem_singleton.mpr le_rfl⟩

section Hole

variable (start : curr.range.start < new.range.start)

include start

theorem cutFront_tidy :
    Tidy (entryRanges before ++ [{ curr.range with stop := new.range.start }]) := by
  refine tidy_append.mpr ⟨placed.meet.tidyFront,
    tidy_cons.mpr ⟨start.le, by simp, tidy_nil⟩, fun a mem b last => ?_⟩
  rw [mem_singleton.mp last]
  exact placed.meet.below a mem

theorem cut_nearly : Nearly (entryRanges (cutEntries before curr after new)) := by
  have meet := placed.meet
  have starts : ∀ b ∈ entryRanges after, new.range.start ≤ b.start := fun b mem =>
    meet.reach.le.trans (meet.behind b mem)
  rw [cutRanges]
  refine (Nearly.front meet.sane starts meet.tidyRest).append (placed.cutFront_tidy start)
    fun a mem => ?_
  have stop := placed.cutFront_stop a mem
  exact forall_mem_cons.mpr ⟨stop, fun b inRest => stop.trans (starts b inRest)⟩

variable (differ : curr.range.index ≠ new.range.index)

include differ

/-- The new range takes the end of one that it meets, and reaches further. -/
theorem cutsEnd (stop : curr.range.stop ≤ new.range.stop) :
    Leaves (fldCacheEntryAdd cache new (cutEntries before curr after new))
      (settled (placedRanges before curr after new)) := by
  refine fldCacheEntryAdd_leaves placed.linked placed.fresh placed.allocated placed.addIds
    (placed.cut_nearly start) ?_
  rw [cutRanges, (placed.meet.settles_covered differ stop).append placed.cutFront_stop]
  unfold placedRanges meetRanges
  rw [Meet.leftPiece_eq start, append_assoc]

variable (stop : new.range.stop < curr.range.stop)

include stop

/-- The first step of a hole: the end of the entry is cut off and the new one linked. -/
theorem openHole : ∃ cache', fldCacheEntryAdd { cache with next := cache.next + 1 } new
        (cutEntries before curr after new) = .ok cache' ∧
      Linked cache' ∧ cache'.next = cache.next + 1 ∧
      cache'.entries = settledEntries (before ++
        [{ curr with range := { curr.range with stop := new.range.start } }]) ++
          new :: settledEntries after ∧
      Tidy (entryRanges cache'.entries) ∧ ∀ id ∈ entryIds cache'.entries, id < cache.next := by
  have meet := placed.meet
  have linked : Linked { cache with next := cache.next + 1 } := { placed.linked with
    allocated := fun id mem => Nat.lt_succ_of_lt (placed.linked.allocated id mem) }
  have gap : ∀ b ∈ entryRanges after, new.range.stop < b.start := fun b mem =>
    stop.trans_le (meet.behind b mem)
  obtain ⟨cache', done, repaired⟩ := fldCacheEntryAdd_spec linked placed.fresh
    (Nat.lt_succ_of_lt placed.allocated) placed.addIds (placed.cut_nearly start)
  have split : settledEntries (cutEntries before curr after new) =
      settledEntries (before ++
        [{ curr with range := { curr.range with stop := new.range.start } }]) ++
        settleEntries new after :=
    settledEntries_split (fun p mem => meet.below p.range (mem_map_of_mem mem))
      start.le le_rfl differ
  refine ⟨cache', done, repaired.linked, repaired.next, ?_, ?_, fun id mem => ?_⟩
  · rw [repaired.entries, split, settleEntries_gap gap]
  · rw [repaired.entries, ranges_settledEntries]
    exact settled_tidy (placed.cut_nearly start)
  · rw [repaired.entries] at mem
    rcases mem_cons.mp (placed.addIds.mem_iff.mp (ids_settledEntries id mem)) with rfl | mem
    · exact placed.allocated
    · exact placed.linked.allocated id mem

theorem holeRanges : placedRanges before curr after new =
      (entryRanges before ++ [{ curr.range with stop := new.range.start }]) ++
        ([new.range, ⟨new.range.stop, curr.range.stop, curr.range.index, 0⟩] ++
          entryRanges after) := by
  unfold placedRanges meetRanges
  rw [Meet.leftPiece_eq start, placed.meet.rightPiece_eq stop 0 (if_pos ⟨differ, start⟩).symm,
    placed.meet.cutRight_eq stop.le, append_assoc]
  rfl

/-- Settled front and rest around a hole settle like the pieces. -/
theorem settled_hole :
    settled (settled (entryRanges before ++ [{ curr.range with stop := new.range.start }]) ++
      ([new.range, ⟨new.range.stop, curr.range.stop, curr.range.index, 0⟩] ++
        settled (entryRanges after))) = settled (placedRanges before curr after new) := by
  have meet := placed.meet
  rw [settled_append _ (placed.cutFront_tidy start), placed.holeRanges start differ stop,
    ← append_assoc, settled_append_settled meet.tidyRest, append_assoc]
  intro p mem b inRest
  refine le_trans ?_ (meet.behind b inRest)
  rcases mem_append.mp mem with mem | mem
  · exact (placed.cutFront_stop p mem).trans meet.reach.le
  · grind

/-- A new range inside one of another index punches a hole in it. -/
theorem punches : Leaves (fldCachePunchHole cache before curr after new true)
      (settled (placedRanges before curr after new)) := by
  obtain ⟨cache', done, linked, next, entries, tidy, old⟩ := placed.openHole start differ stop
  unfold fldCachePunchHole
  simp only [done]
  rw [← placed.settled_hole start differ stop]
  have leaves := linkAfter_leaves
    ⟨cache.next, ⟨new.range.stop, curr.range.stop, curr.range.index, 0⟩⟩
    linked entries (fun mem => lt_irrefl _ (old _ mem)) (by rw [next]; exact Nat.lt_succ_self _)
    tidy stop.le le_rfl (by
      rw [ranges_settledEntries]
      exact settled_start placed.meet.behind)
  rw [ranges_settledEntries, ranges_settledEntries, entryRanges_append] at leaves
  exact leaves

end Hole

/-- `fld_cache_overlap_handle` leaves the settled pieces, or the list if a right part cannot be
allocated. -/
theorem overlapHandle (allocSplit : Bool)
    (noSuffix : ¬ (curr.range.index ≠ new.range.index ∧ curr.range.start < new.range.start ∧
      curr.range.stop = new.range.stop)) :
    Leaves (fldCacheOverlapHandle cache before curr after new allocSplit)
        (settled (placedRanges before curr after new)) ∨
      (allocSplit = false ∧
        fldCacheOverlapHandle cache before curr after new allocSplit = .ok cache) := by
  unfold fldCacheOverlapHandle
  by_cases same : curr.range.index = new.range.index
  · rw [if_pos same]
    exact .inl (placed.grows same)
  rw [if_neg same]
  by_cases covered : new.range.start ≤ curr.range.start ∧ curr.range.stop ≤ new.range.stop
  · rw [if_pos covered]
    exact .inl (placed.replaces same covered.1 covered.2)
  rw [if_neg covered]
  by_cases inside : curr.range.start < new.range.start ∧ new.range.stop < curr.range.stop
  · rw [if_pos inside]
    cases allocSplit with
    | true => exact .inl (placed.punches inside.1 same inside.2)
    | false => exact .inr ⟨rfl, if_pos (by simp)⟩
  rw [if_neg inside]
  by_cases ends : new.range.stop ≤ curr.range.stop
  · have start : new.range.start ≤ curr.range.start := by
      by_contra less
      exact noSuffix ⟨same, by omega, by omega⟩
    rw [if_pos ends, if_neg (not_not.mpr start)]
    exact .inl (placed.trims start (by omega))
  · have start : curr.range.start ≤ new.range.start := by omega
    have stop : curr.range.stop ≤ new.range.stop := by omega
    rw [if_neg ends, if_pos start, if_neg (not_not.mpr stop)]
    exact .inl (placed.cutsEnd (by omega) same stop)

end Placed

variable {r : LuSeqRange}

/-- Where the search of `fld_cache_insert` ends. -/
theorem insertSearch_spec (sane : rangeIsSane r) (tidy : Tidy (entryRanges list)) :
    (∃ before after, insertSearch r list = (before, none, after) ∧ list = before ++ after ∧
      (∀ e ∈ entryRanges list, e.stop ≤ r.start ∨ r.stop < e.start) ∧
      pieceRanges (pieces r (entryRanges list)) =
        entryRanges before ++ r :: entryRanges after) ∨
    (∃ before curr after, insertSearch r list = (before, some curr, after) ∧
      list = before ++ curr :: after ∧
      Meet r curr.range (entryRanges before) (entryRanges after)) := by
  induction list with
  | nil => exact .inl ⟨[], [], rfl, rfl, by simp, rfl⟩
  | cons e list ih =>
    obtain ⟨saneE, first, tidyRest⟩ := tidy_cons.mp tidy
    unfold insertSearch
    by_cases past : r.stop < e.range.start
    · rw [if_pos past]
      refine .inl ⟨[], e :: list, rfl, rfl, ?_, ?_⟩
      · grind
      have notBefore : ¬ e.range.stop ≤ r.start := fun le =>
        not_lt.mpr ((saneE.trans le).trans sane) past
      rw [entryRanges, map_cons, pieces, if_neg notBefore, if_pos past]
      exact congrArg (r :: ·) pieceRanges_whole
    rw [if_neg past]
    by_cases met : r.start < e.range.stop
    · rw [if_pos met]
      exact .inr ⟨[], e, list, rfl, rfl, sane, tidy, by simp, not_lt.mp past, met⟩
    rw [if_neg met]
    have before : e.range.stop ≤ r.start := not_lt.mp met
    rcases ih tidyRest with ⟨front, after, eq, split, clear, ranges⟩ |
      ⟨front, curr, after, eq, split, meet⟩
    · refine .inl ⟨e :: front, after, by rw [eq], by rw [split]; rfl,
        forall_mem_cons.mpr ⟨.inl before, clear⟩, ?_⟩
      rw [entryRanges, map_cons, pieces, if_pos before]
      exact congrArg (e.range :: ·) ranges
    · refine .inr ⟨e :: front, curr, after, by rw [eq], by rw [split]; rfl, sane, ?_, ?_,
        meet.start, meet.reach⟩
      · simp_all [entryRanges, map_cons]
      · exact forall_mem_cons.mpr ⟨before, meet.passed⟩

/-- The counter of the allocator plays no part in shrinking. -/
theorem shrinkLoop_next (ids : List Nat) (cache : FldCache) (k : Nat) :
    shrinkLoop ids { cache with next := k } = { shrinkLoop ids cache with next := k } := by
  induction ids generalizing cache with
  | nil => rfl
  | cons id ids ih =>
    simp only [shrinkLoop]
    split_ifs
    · exact ih (fldCacheEntryDelete cache id)
    · rfl

theorem fldCacheShrink_next (cache : FldCache) (k : Nat) :
    fldCacheShrink { cache with next := k } = { fldCacheShrink cache with next := k } := by
  unfold fldCacheShrink
  split_ifs
  · rfl
  · exact shrinkLoop_next _ cache k

theorem Tidy.sublist {these those : List LuSeqRange} (tidy : Tidy those) (sub : these.Sublist those) :
    Tidy these :=
  ⟨fun r mem => tidy.sane r (sub.subset mem), tidy.ordered.sublist sub⟩

section

variable (linked : Linked cache)

include linked

theorem Linked.delete {id : Nat} (mem : id ∈ entryIds cache.entries) :
    Linked (fldCacheEntryDelete cache id) := by
  have scan : fldCacheEntryDelete cache id =
      cache.scanned ⟨cache.entries.filter (·.id ≠ id), [id], false⟩ := by
    simp [fldCacheEntryDelete, FldCache.scanned]
  rw [scan]
  refine linked.scanned ?_
  have rest : entryIds (cache.entries.filter (·.id ≠ id)) = (entryIds cache.entries).erase id := by
    rw [linked.distinct.erase_eq_filter, entryIds, entryIds, filter_map]
    congr 1
    refine filter_congr fun e _ => ?_
    by_cases same : e.id = id <;> simp [same]
  rw [rest]
  exact perm_cons_erase mem

/-- Shrinking deletes entries from both lists. -/
theorem shrinkLoop_spec {ids : List Nat} (distinct : ids.Nodup)
    (stored : ∀ id ∈ ids, id ∈ entryIds cache.entries) :
    Linked (shrinkLoop ids cache) ∧ (shrinkLoop ids cache).entries.Sublist cache.entries := by
  induction ids generalizing cache with
  | nil => exact ⟨linked, .refl _⟩
  | cons id ids ih =>
    obtain ⟨fresh, distinct⟩ := nodup_cons.mp distinct
    unfold shrinkLoop
    split_ifs
    · have linked' := linked.delete (stored id mem_cons_self)
      obtain ⟨kept, sub⟩ := ih linked' distinct fun id' mem => by
        have inIds := stored id' (mem_cons_of_mem _ mem)
        obtain ⟨e, inList, rfl⟩ := mem_map.mp inIds
        refine mem_map_of_mem (mem_filter.mpr ⟨inList, decide_eq_true fun same => ?_⟩)
        exact fresh (same ▸ mem)
      exact ⟨kept, sub.trans filter_sublist⟩
    · exact ⟨linked, .refl _⟩

theorem fldCacheShrink_spec :
    Linked (fldCacheShrink cache) ∧ (fldCacheShrink cache).entries.Sublist cache.entries := by
  grind [fldCacheShrink, shrinkLoop_spec, cases Linked]

/-- No range of another index that starts before `r` ends with it. -/
def NoSuffix (ranges : List LuSeqRange) (r : LuSeqRange) : Prop :=
  ∀ c ∈ ranges, c.start < r.start → r.start < c.stop → c.stop = r.stop → c.index = r.index

omit linked in
/-- A range that `r` cuts a part from is the one the search stops at. -/
theorem Meet.first {c e : LuSeqRange} {front rest : List LuSeqRange} (meet : Meet r c front rest)
    (mem : e ∈ front ++ c :: rest) (start : e.start < r.start) (reach : r.start < e.stop) :
    e = c := by
  rcases mem_append.mp mem with inFront | inBack
  · have := meet.passed e inFront
    omega
  · rcases mem_cons.mp inBack with same | inRest
    · exact same
    · have := meet.behind e inRest
      have := meet.reach
      omega

/-- The cache an insertion works on: shrunk, with the new entry allocated. -/
abbrev insertCache (cache : FldCache) : FldCache :=
  fldCacheShrink { cache with next := cache.next + 1 }

theorem insertCache_linked :
    Linked (insertCache cache) ∧ (insertCache cache).entries = (fldCacheShrink cache).entries ∧
      cache.next < (insertCache cache).next ∧ cache.next ∉ entryIds (insertCache cache).entries := by
  obtain ⟨kept, sub⟩ := fldCacheShrink_spec linked
  have eq := fldCacheShrink_next cache (cache.next + 1)
  have allocated : ∀ id ∈ entryIds (fldCacheShrink cache).entries, id < cache.next := fun id mem =>
    linked.allocated id ((sub.map _).subset mem)
  rw [insertCache, eq]
  exact ⟨{ kept with allocated := fun id mem => Nat.lt_succ_of_lt (allocated id mem) }, rfl,
    Nat.lt_succ_self _, fun mem => lt_irrefl _ (allocated _ mem)⟩

/-- `fld_cache_insert` leaves the settled pieces of the shrunk list, or that list if a right part cannot
be allocated; at a suffix it asserts. -/
theorem fldCacheInsert_spec (tidy : Tidy (entryRanges cache.entries))
    (sane : rangeIsSane r) (allocSplit : Bool) :
    (NoSuffix (entryRanges (fldCacheShrink cache).entries) r ∧
      (Leaves (fldCacheInsert cache r true allocSplit)
          (settled (pieceRanges (pieces r (entryRanges (fldCacheShrink cache).entries)))) ∨
        (allocSplit = false ∧ Leaves (fldCacheInsert cache r true allocSplit)
          (entryRanges (fldCacheShrink cache).entries)))) ∨
    (¬ NoSuffix (entryRanges (fldCacheShrink cache).entries) r ∧
      fldCacheInsert cache r true allocSplit = .error .startsBelow) := by
  obtain ⟨kept, entries, allocated, fresh⟩ := insertCache_linked linked
  have tidy' : Tidy (entryRanges (insertCache cache).entries) := by
    rw [entries]
    exact tidy.sublist ((fldCacheShrink_spec linked).2.map _)
  rw [← entries]
  unfold fldCacheInsert
  rw [if_neg (not_not.mpr sane), if_neg (by simp)]
  simp only
  rcases insertSearch_spec sane tidy' with
    ⟨before, after, found, list, clear, ranges⟩ | ⟨before, curr, after, found, list, meet⟩
  · -- the new range meets nothing and is linked in
    refine .inl ⟨fun c mem start reach _ => ?_, .inl ?_⟩
    · have := clear c mem
      omega
    · rw [found]
      refine fldCacheEntryAdd_leaves kept fresh allocated ?_ ?_ ?_
      · grind
      · rw [entryRanges_append, ← ranges]
        exact pieces_nearly sane tidy'
      · rw [entryRanges_append, ranges]
  · have placed : Placed (insertCache cache) before curr after ⟨cache.next, r⟩ :=
      ⟨kept, list, fresh, allocated, meet⟩
    have ranges : entryRanges (insertCache cache).entries =
        entryRanges before ++ curr.range :: entryRanges after := by
      rw [list, entryRanges_append]
    rw [found, ranges]
    by_cases suffix : curr.range.index ≠ r.index ∧ curr.range.start < r.start ∧
        curr.range.stop = r.stop
    · refine .inr ⟨fun none => ?_, Placed.asserts allocSplit suffix.1 suffix.2.1 suffix.2.2⟩
      exact suffix.1 (none curr.range (by simp) suffix.2.1 meet.reach suffix.2.2)
    · refine .inl ⟨fun e mem start reach stop => ?_, ?_⟩
      · grind [Meet.first]
      · rw [meet.pieceRanges_pieces]
        refine (placed.overlapHandle allocSplit suffix).imp id fun failed => ⟨failed.1, ?_⟩
        exact ⟨_, failed.2, kept, ranges⟩

end

/-! ### The law -/

/-- The location a lookup in the cache answers with. -/
def cacheAnswer (cache : FldCache) (seq : Nat) : Option (Nat × Nat) :=
  (fldCacheLookup cache seq).1.map fun range => (range.index, range.flags)

/-- A lookup in a tidy cache answers what its ranges say. -/
theorem findEntry_eq_some {seq i f : Nat} (tidy : Tidy (entryRanges list)) :
    (findEntry seq list).map (fun e => (e.range.index, e.range.flags)) = some (i, f) ↔
      Says (entryRanges list) seq i f := by
  induction list with
  | nil => exact iff_of_false nofun fun ⟨_, mem, _⟩ => nomatch mem
  | cons e list ih =>
    obtain ⟨saneE, first, tidyRest⟩ := tidy_cons.mp tidy
    have behind : Says (entryRanges list) seq i f → e.range.stop ≤ seq := fun said =>
      said.behind first
    have said : Says (entryRanges (e :: list)) seq i f ↔ _ := says_cons
    rw [said, findEntry]
    split_ifs with late inside
    · grind
    · grind
    · rw [ih tidyRest, or_iff_right fun here => inside here.1]

theorem cacheAnswer_eq_some {seq i f : Nat} (tidy : Tidy (entryRanges cache.entries)) :
    cacheAnswer cache seq = some (i, f) ↔ Says (entryRanges cache.entries) seq i f := by
  rw [← findEntry_eq_some tidy]
  unfold cacheAnswer fldCacheLookup
  cases findEntry seq cache.entries <;> rfl

/-- The insertion ends and fails no assertion, the list is again tidy and linked, and when the
allocations succeed and nothing is shrunk, lookups give the new location inside the range and the old
answer outside. -/
def InsertLaw (cache : FldCache) (r : LuSeqRange) (allocNew allocSplit : Bool) : Prop :=
  ∃ cache', fldCacheInsert cache r allocNew allocSplit = .ok cache' ∧
    Tidy (entryRanges cache'.entries) ∧ Linked cache' ∧
    (allocNew = true → allocSplit = true → fldCacheShrink cache = cache →
      ∀ seq, cacheAnswer cache' seq =
        if rangeWithin r seq then some (r.index, r.flags) else cacheAnswer cache seq)

/-- In the shrunk list no range of another index that starts before the new one ends with it, and the
flags agree along each run of touching pieces of one index. -/
def Insertable (cache : FldCache) (r : LuSeqRange) (allocNew allocSplit : Bool) : Prop :=
  allocNew = true →
    NoSuffix (entryRanges (fldCacheShrink cache).entries) r ∧
      (allocSplit = true → fldCacheShrink cache = cache →
        Agree (pieces r (entryRanges cache.entries)))

/-- The answers after an insertion are the law's exactly when the flags agree. -/
theorem answers_iff_agree {cache' : FldCache} (sane : rangeIsSane r)
    (tidy : Tidy (entryRanges cache.entries))
    (left : entryRanges cache'.entries =
      settled (pieceRanges (pieces r (entryRanges cache.entries)))) :
    (∀ seq, cacheAnswer cache' seq =
      if rangeWithin r seq then some (r.index, r.flags) else cacheAnswer cache seq) ↔
    Agree (pieces r (entryRanges cache.entries)) := by
  have tidyPieces := pieces_tidy sane tidy
  have wants : ∀ seq i f, Wants (pieces r (entryRanges cache.entries)) seq i f ↔
      (if rangeWithin r seq then some (r.index, r.flags) else cacheAnswer cache seq) =
        some (i, f) := by
    intro seq i f
    rw [wants_pieces tidy]
    split_ifs with inside
    · rw [or_iff_left fun outside => outside.2 inside, and_iff_right inside]
      simp
    · rw [or_iff_right fun here => inside here.1, and_iff_left inside, cacheAnswer_eq_some tidy]
  have tidy' : Tidy (entryRanges cache'.entries) := by
    rw [left]
    exact settled_tidy (pieces_nearly sane tidy)
  rw [← settled_wants_iff pieces_ne_nil tidyPieces, ← left]
  constructor
  · intro law seq i f
    rw [wants, ← law, cacheAnswer_eq_some tidy']
  · intro law seq
    refine Option.ext fun ⟨i, f⟩ => ?_
    rw [cacheAnswer_eq_some tidy', law, wants]

/-- The cache update law holds exactly for insertable inputs. -/
theorem insert_law_iff (cache : FldCache) (r : LuSeqRange) (allocNew allocSplit : Bool)
    (linked : Linked cache) (tidy : Tidy (entryRanges cache.entries)) (sane : rangeIsSane r) :
    InsertLaw cache r allocNew allocSplit ↔ Insertable cache r allocNew allocSplit := by
  cases allocNew with
  | false =>
    refine iff_of_true ⟨cache, ?_, tidy, linked, nofun⟩ nofun
    unfold fldCacheInsert
    rw [if_neg (not_not.mpr sane), if_pos (by simp)]
  | true =>
    have tidy' : Tidy (entryRanges (fldCacheShrink cache).entries) :=
      tidy.sublist ((fldCacheShrink_spec linked).2.map _)
    rcases fldCacheInsert_spec linked tidy sane allocSplit with
      ⟨noSuffix, ⟨cache', done, linked', ranges⟩ | ⟨failed, cache', done, linked', ranges⟩⟩ |
      ⟨suffix, failed⟩
    · have agree : fldCacheShrink cache = cache → _ := fun same =>
        answers_iff_agree sane tidy (same ▸ ranges)
      constructor
      · rintro ⟨cache'', done', -, -, answers⟩ -
        refine ⟨noSuffix, fun split same => (agree same).mp ?_⟩
        rw [done] at done'
        cases done'
        exact answers rfl split same
      · intro insertable
        refine ⟨cache', done, ?_, linked', fun _ split same =>
          (agree same).mpr ((insertable rfl).2 split same)⟩
        rw [ranges]
        exact settled_tidy (pieces_nearly sane tidy')
    · have noSplit : allocSplit ≠ true := by simp [failed]
      refine iff_of_true ⟨cache', done, ranges ▸ tidy', linked', fun _ split => ?_⟩ fun _ =>
        ⟨noSuffix, fun split => absurd split noSplit⟩
      exact absurd split noSplit
    · refine iff_of_false ?_ fun insertable => suffix (insertable rfl).1
      rintro ⟨cache', done, -⟩
      rw [failed] at done
      cases done

/-- A cache with the one range `[0, 10)` of server 1. -/
def oneEntry (flags : Nat) : FldCache := ⟨[⟨0, ⟨0, 10, 1, flags⟩⟩], [0], 1, 16, 2, 1⟩

theorem oneEntry_linked (flags : Nat) : Linked (oneEntry flags) :=
  ⟨nodup_singleton _, .refl _, rfl, by simp [oneEntry]⟩

theorem oneEntry_tidy (flags : Nat) : Tidy (entryRanges (oneEntry flags).entries) :=
  tidy_cons.mpr ⟨by simp, by simp, tidy_nil⟩

/-- A range of another server that overlaps the end of the stored one. -/
theorem insert_law_overlapping : InsertLaw (oneEntry 0) ⟨5, 20, 2, 0⟩ true true := by
  refine (insert_law_iff _ _ _ _ (oneEntry_linked 0) (oneEntry_tidy 0) (by decide)).mpr fun _ =>
    ⟨by unfold NoSuffix; decide, fun _ _ => ⟨fun _ => by decide, fun _ => by decide, trivial⟩⟩

/-- A range of another server at the end of a stored one fails an assertion; one inside it leaves
the right part with other flags. -/
theorem suffix_asserts_and_hole_drops_flags :
    (Linked (oneEntry 0) ∧ Tidy (entryRanges (oneEntry 0).entries) ∧
      fldCacheInsert (oneEntry 0) ⟨5, 10, 2, 0⟩ true true = .error .startsBelow ∧
      ¬ InsertLaw (oneEntry 0) ⟨5, 10, 2, 0⟩ true true) ∧
    (Linked (oneEntry 1) ∧ Tidy (entryRanges (oneEntry 1).entries) ∧
      fldCacheShrink (oneEntry 1) = oneEntry 1 ∧
      cacheAnswer (oneEntry 1) 7 = some (1, 1) ∧
      ∃ cache', fldCacheInsert (oneEntry 1) ⟨3, 5, 2, 1⟩ true true = .ok cache' ∧
        cacheAnswer cache' 7 = some (1, 0)) := by
  have asserts : fldCacheInsert (oneEntry 0) ⟨5, 10, 2, 0⟩ true true = .error .startsBelow := by
    decide
  refine ⟨⟨oneEntry_linked 0, oneEntry_tidy 0, asserts, ?_⟩, oneEntry_linked 1, oneEntry_tidy 1,
    by decide, by decide, ⟨[⟨0, ⟨0, 3, 1, 1⟩⟩, ⟨1, ⟨3, 5, 2, 1⟩⟩, ⟨2, ⟨5, 10, 1, 0⟩⟩], [2, 1, 0],
      3, 16, 2, 3⟩, by decide, by decide⟩
  rintro ⟨cache', done, -⟩
  rw [asserts] at done
  cases done

/-- A settled list names no server that no piece with the sequence is of. -/
theorem wants_of_settled {ps : List Piece} (tidy : Tidy (pieceRanges ps)) {seq i f : Nat}
    (said : Says (settled (pieceRanges ps)) seq i f) : ∃ f, Wants ps seq i f := by
  have last : SaysLast (pieceRanges ps) seq i f := by
    cases ps with
    | nil => simp [settled, Says] at said
    | cons p ps => exact (settle_said tidy).mp said
  clear tidy said
  induction ps with
  | nil => exact last.elim
  | cons p ps ih =>
    rcases last with ⟨inside, index, -⟩ | later
    · exact ⟨_, p, mem_cons_self, inside, index, rfl⟩
    · exact (ih later).imp fun f wants => wants_cons.mpr (.inr wants)

/-- The server that the last of the ranges with `seq` is of. -/
def lastIndex (ranges : List LuSeqRange) (seq : Nat) : Option Nat :=
  (ranges.reverse.find? (rangeWithin · seq)).map (·.index)

/-- The cache answers from the ranges that were inserted. -/
def Answers (ranges : List LuSeqRange) (cache : FldCache) : Prop :=
  Linked cache ∧ Tidy (entryRanges cache.entries) ∧
    ∀ seq i f, Says (entryRanges cache.entries) seq i f → lastIndex ranges seq = some i

theorem Answers.insert {ranges : List LuSeqRange} (answers : Answers ranges cache) (r : LuSeqRange) :
    Outcome (Answers (ranges ++ [r])) (· ∈ [.insaneRange, .startsBelow])
      (fldCacheInsert cache r true true) := by
  obtain ⟨linked, tidy, said⟩ := answers
  by_cases sane : rangeIsSane r
  swap
  · rw [fldCacheInsert, if_pos sane]
    exact mem_cons_self
  have sub := (fldCacheShrink_spec linked).2.map FldCacheEntry.range
  have tidy' := tidy.sublist sub
  rcases fldCacheInsert_spec linked tidy sane true with
    ⟨_, ⟨cache', done, linked', left⟩ | ⟨failed, _⟩⟩ | ⟨_, failed⟩
  · rw [done]
    refine ⟨linked', left ▸ settled_tidy (pieces_nearly sane tidy'), fun seq i f here => ?_⟩
    obtain ⟨f, wants⟩ := wants_of_settled (pieces_tidy sane tidy') (left ▸ here)
    rw [lastIndex, reverse_concat, find?_cons]
    rcases (wants_pieces tidy').mp wants with ⟨inside, index, -⟩ | ⟨⟨c, mem, old⟩, outside⟩
    · rw [decide_eq_true inside]
      exact congrArg some index
    · rw [decide_eq_false outside]
      exact said seq i f ⟨c, sub.subset mem, old⟩
  · cases failed
  · rw [failed]
    simp [Outcome]

/-- In every run of insertions into an empty cache an answer names the server of the last range inserted
with the sequence. -/
theorem cache_never_stale (size threshold : Int) (ranges : List LuSeqRange) :
    Outcome (fun cache => ∀ seq i f, cacheAnswer cache seq = some (i, f) → lastIndex ranges seq = some i)
      (· ∈ [.insaneRange, .startsBelow])
      (run (fun cache r => fldCacheInsert cache r true true) ⟨[], [], 0, size, threshold, 0⟩ ranges) := by
  refine Outcome.mono (P := Answers ranges) ?_ fun _ ⟨_, tidy, said⟩ seq i f answer =>
    said seq i f ((cacheAnswer_eq_some tidy).mp answer)
  induction ranges using reverseRecOn with
  | nil => exact ⟨⟨nodup_nil, .nil, rfl, by simp⟩, tidy_nil, by simp [Says]⟩
  | append_singleton ranges r ih =>
    rw [run_append]
    refine ih.bind fun cache answers => ?_
    rw [run_cons]
    exact (answers.insert r).bind fun _ h => h

end Fld
