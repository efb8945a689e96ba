/-
Module: Lustre.Fld.Cache
Purpose: The location cache in front of the index: a list of ranges, and an insertion that leaves
  overlaps to a scan which starts again after every repair.
Trusted boundary: none
-/
import Mathlib.Data.List.Nodup
import Lustre.Fld.Pieces

namespace Fld

open Fid

/-- `struct fld_cache_entry`; `id` stands for its address. -/
structure FldCacheEntry where
  id : Nat
  range : LuSeqRange
deriving DecidableEq, Repr

/-- `struct fld_cache`: `fci_entries_head`, `fci_lru` (head first), `fci_cache_count`, `fci_cache_size`
and `fci_threshold`; `next` is the address of the next allocation. -/
structure FldCache where
  entries : List FldCacheEntry
  lru : List Nat
  count : Int
  size : Int
  threshold : Int
  next : Nat
deriving DecidableEq, Repr

/-- The assertions of the cache; `loops` is the repair scan that does not end. -/
inductive FldCacheFault where
  | insaneRange
  | unsorted
  | startsBelow
  | endsPast
  | loops
deriving DecidableEq, Repr

/-- The search of `fld_cache_lookup`. -/
def findEntry (seq : Nat) : List FldCacheEntry → Option FldCacheEntry
  | [] => none
  | flde :: rest =>
    if flde.range.start > seq then none
    else if rangeWithin flde.range seq then some flde
    else findEntry seq rest

/-- `fld_cache_lookup`; a hit moves the entry to the head of the replacement list. -/
def fldCacheLookup (cache : FldCache) (seq : Nat) : Option LuSeqRange × FldCache :=
  match findEntry seq cache.entries with
  | some flde => (some flde.range, { cache with lru := flde.id :: cache.lru.erase flde.id })
  | none => (none, cache)

/-- What a scan of `fld_fix_new_list` leaves: the list, the entries deleted, and whether it stopped at an
overlap. -/
structure Scan where
  entries : List FldCacheEntry
  deleted : List Nat
  restart : Bool
deriving DecidableEq, Repr

/-- The scan goes on past `entry`. -/
def Scan.keep (entry : FldCacheEntry) (scan : Scan) : Scan :=
  { scan with entries := entry :: scan.entries }

/-- The scan goes on after `entry` was deleted. -/
def Scan.drop (entry : FldCacheEntry) (scan : Scan) : Scan :=
  { scan with deleted := entry.id :: scan.deleted }

/-- The repair of an overlap of `curr` with `next`. -/
def fixOverlap (curr next : FldCacheEntry) (rest : List FldCacheEntry) : Scan :=
  if curr.range.index = next.range.index then
    ⟨{ next with range := { next.range with
        start := curr.range.start, stop := max curr.range.stop next.range.stop } } :: rest,
      [curr.id], true⟩
  else if next.range.stop ≤ curr.range.stop then
    ⟨{ next with range := curr.range } :: rest, [curr.id], true⟩
  else
    ⟨curr :: { next with range := { next.range with start := curr.range.stop } } :: rest,
      [], true⟩

/-- The body of `fld_fix_new_list` from `curr` on. -/
def fixScan (curr : FldCacheEntry) : List FldCacheEntry → Except FldCacheFault Scan
  | [] => if rangeIsSane curr.range then .ok ⟨[curr], [], false⟩ else .error .insaneRange
  | next :: rest =>
    if ¬ rangeIsSane curr.range then .error .insaneRange
    else if ¬ curr.range.start ≤ next.range.start then .error .unsorted
    else if curr.range.stop = next.range.start then
      if curr.range.index ≠ next.range.index then (fixScan next rest).map (Scan.keep curr)
      else
        (fixScan { next with range := { next.range with start := curr.range.start } } rest).map
          (Scan.drop curr)
    else if next.range.start < curr.range.stop then .ok (fixOverlap curr next rest)
    else if curr.range.start = next.range.start ∧ curr.range.stop = next.range.stop then
      (fixScan next rest).map (Scan.drop curr)
    else (fixScan next rest).map (Scan.keep curr)

/-- The cache after a scan; each deletion takes the entry off both lists. -/
def FldCache.scanned (cache : FldCache) (scan : Scan) : FldCache :=
  { cache with
    entries := scan.entries
    lru := cache.lru.filter (· ∉ scan.deleted)
    count := cache.count - scan.deleted.length }

/-- `fld_fix_new_list` with a bound on the number of scans. -/
def fixScans : Nat → FldCache → Except FldCacheFault FldCache
  | 0, _ => .error .loops
  | fuel + 1, cache =>
    match cache.entries with
    | [] => .ok cache
    | curr :: rest =>
      match fixScan curr rest with
      | .error fault => .error fault
      | .ok scan =>
        if scan.restart then fixScans fuel (cache.scanned scan) else .ok (cache.scanned scan)

/-- `fld_fix_new_list`. -/
def fldFixNewList (cache : FldCache) : Except FldCacheFault FldCache :=
  fixScans (2 * cache.entries.length + 1) cache

/-! ### Insertion -/

/-- `fld_cache_entry_delete`. -/
def fldCacheEntryDelete (cache : FldCache) (id : Nat) : FldCache :=
  { cache with
    entries := cache.entries.filter (·.id ≠ id)
    lru := cache.lru.filter (· ≠ id)
    count := cache.count - 1 }

/-- The loop of `fld_cache_shrink` over the replacement list from its tail. -/
def shrinkLoop : List Nat → FldCache → FldCache
  | [], cache => cache
  | id :: rest, cache =>
    if cache.count + cache.threshold > cache.size then
      shrinkLoop rest (fldCacheEntryDelete cache id)
    else cache

/-- `fld_cache_shrink`. -/
def fldCacheShrink (cache : FldCache) : FldCache :=
  if cache.count < cache.size then cache else shrinkLoop cache.lru.reverse cache

/-- `fld_cache_entry_add`; `linked` is the list with the new entry in its place. -/
def fldCacheEntryAdd (cache : FldCache) (new : FldCacheEntry) (linked : List FldCacheEntry) :
    Except FldCacheFault FldCache :=
  fldFixNewList { cache with
    entries := linked, lru := new.id :: cache.lru, count := cache.count + 1 }

/-- `cfs_list_add` of `entry` after the entry `pos`. -/
def linkAfter (entry : FldCacheEntry) (pos : Nat) : List FldCacheEntry → List FldCacheEntry
  | [] => []
  | e :: rest => if e.id = pos then e :: entry :: rest else e :: linkAfter entry pos rest

/-- `fld_cache_punch_hole`.  The entry for the right part comes zeroed and gets no flags. -/
def fldCachePunchHole (cache : FldCache) (before : List FldCacheEntry) (curr : FldCacheEntry)
    (after : List FldCacheEntry) (new : FldCacheEntry) (allocSplit : Bool) :
    Except FldCacheFault FldCache :=
  if ¬ allocSplit then .ok cache
  else
    let fldt : FldCacheEntry :=
      ⟨cache.next, ⟨new.range.stop, curr.range.stop, curr.range.index, 0⟩⟩
    let cut : FldCacheEntry := { curr with range := { curr.range with stop := new.range.start } }
    match fldCacheEntryAdd { cache with next := cache.next + 1 } new
        (before ++ cut :: new :: after) with
    | .error fault => .error fault
    | .ok cache => fldCacheEntryAdd cache fldt (linkAfter fldt new.id cache.entries)

/-- `fld_cache_overlap_handle`. -/
def fldCacheOverlapHandle (cache : FldCache) (before : List FldCacheEntry)
    (curr : FldCacheEntry) (after : List FldCacheEntry) (new : FldCacheEntry)
    (allocSplit : Bool) : Except FldCacheFault FldCache :=
  let newStart := new.range.start
  let newEnd := new.range.stop
  if curr.range.index = new.range.index then
    let grown : FldCacheEntry := { curr with range := { curr.range with
      start := min curr.range.start newStart, stop := max curr.range.stop newEnd } }
    fldFixNewList { cache with entries := before ++ grown :: after }
  else if newStart ≤ curr.range.start ∧ curr.range.stop ≤ newEnd then
    fldFixNewList { cache with entries := before ++ { curr with range := new.range } :: after }
  else if curr.range.start < newStart ∧ newEnd < curr.range.stop then
    fldCachePunchHole cache before curr after new allocSplit
  else if newEnd ≤ curr.range.stop then
    if ¬ newStart ≤ curr.range.start then .error .startsBelow
    else
      fldCacheEntryAdd cache new
        (before ++ new :: { curr with range := { curr.range with start := newEnd } } :: after)
  else if curr.range.start ≤ newStart then
    if ¬ curr.range.stop ≤ newEnd then .error .endsPast
    else
      fldCacheEntryAdd cache new
        (before ++ { curr with range := { curr.range with stop := newStart } } :: new :: after)
  else .ok cache

/-- The search of `fld_cache_insert`: the entries passed, the overlapped one, and those behind. -/
def insertSearch (range : LuSeqRange) :
    List FldCacheEntry → List FldCacheEntry × Option FldCacheEntry × List FldCacheEntry
  | [] => ([], none, [])
  | curr :: rest =>
    if range.stop < curr.range.start then ([], none, curr :: rest)
    else if range.start < curr.range.stop then ([], some curr, rest)
    else (curr :: (insertSearch range rest).1, (insertSearch range rest).2)

/-- `fld_cache_insert`; `allocNew` and `allocSplit` say whether its two allocations succeed. -/
def fldCacheInsert (cache : FldCache) (range : LuSeqRange) (allocNew allocSplit : Bool) :
    Except FldCacheFault FldCache :=
  if ¬ rangeIsSane range then .error .insaneRange
  else if ¬ allocNew then .ok cache
  else
    let new : FldCacheEntry := ⟨cache.next, range⟩
    let cache := fldCacheShrink { cache with next := cache.next + 1 }
    let found := insertSearch range cache.entries
    match found.2.1 with
    | some curr => fldCacheOverlapHandle cache found.1 curr found.2.2 new allocSplit
    | none => fldCacheEntryAdd cache new (found.1 ++ new :: found.2.2)

open List

variable {c n : FldCacheEntry} {rest entries : List FldCacheEntry}

/-- The ranges of a list of entries. -/
abbrev entryRanges (entries : List FldCacheEntry) : List LuSeqRange := entries.map (·.range)

/-- The addresses of a list of entries. -/
abbrev entryIds (entries : List FldCacheEntry) : List Nat := entries.map (·.id)

/-- The entries from `c` on, settled: of two that are joined the second one stays. -/
def settleEntries (c : FldCacheEntry) : List FldCacheEntry → List FldCacheEntry
  | [] => [c]
  | n :: rest =>
    if c.range.index = n.range.index then
      if c.range.stop < n.range.start then c :: settleEntries n rest
      else settleEntries ⟨n.id, joinTo c.range n.range⟩ rest
    else if n.range.start < c.range.stop ∧ n.range.stop ≤ c.range.stop then
      settleEntries ⟨n.id, c.range⟩ rest
    else
      c :: settleEntries ⟨n.id, { n.range with start := max c.range.stop n.range.start }⟩ rest

theorem ranges_settleEntries :
    entryRanges (settleEntries c rest) = settle c.range (entryRanges rest) := by
  induction rest generalizing c with
  | nil => rfl
  | cons n rest ih =>
    simp only [settleEntries, entryRanges, map_cons, settle]
    split_ifs
    · exact congrArg (c.range :: ·) ih
    · exact ih
    · exact ih
    · exact congrArg (c.range :: ·) ih

theorem settleEntries_join (same : c.range.index = n.range.index)
    (touch : n.range.start ≤ c.range.stop) :
    settleEntries c (n :: rest) = settleEntries ⟨n.id, joinTo c.range n.range⟩ rest := by
  rw [settleEntries, if_pos same, if_neg (not_lt.mpr touch)]

theorem settleEntries_apart (below : c.range.stop ≤ n.range.start)
    (apart : ¬ (c.range.index = n.range.index ∧ c.range.stop = n.range.start)) :
    settleEntries c (n :: rest) = c :: settleEntries n rest := by
  simp_all [settleEntries, lt_of_le_of_ne]

/-- Touching entries of one index: the second takes the start of the first. -/
theorem settleEntries_touch (same : c.range.index = n.range.index)
    (touch : c.range.stop = n.range.start) (sane : rangeIsSane n.range) :
    settleEntries c (n :: rest) =
      settleEntries { n with range := { n.range with start := c.range.start } } rest := by
  rw [settleEntries_join same (by omega)]
  unfold joinTo
  rw [max_eq_right (by unfold rangeIsSane at sane; omega)]

/-! ### One scan -/

/-- How many repairs and entries a scan can still meet. -/
def scanWork (c : FldCacheEntry) : List FldCacheEntry → Nat
  | [] => 1
  | n :: rest => (if n.range.start < c.range.stop then 2 else 1) + scanWork n rest

theorem scanWork_le (c : FldCacheEntry) (rest : List FldCacheEntry) :
    scanWork c rest ≤ 2 * rest.length + 1 := by
  induction rest generalizing c with
  | nil => exact le_rfl
  | cons n rest ih =>
    have := ih n
    simp only [scanWork, length_cons]
    split <;> omega

theorem scanWork_other (c c' : FldCacheEntry) (rest : List FldCacheEntry) :
    scanWork c rest ≤ scanWork c' rest + 1 := by
  cases rest with
  | nil => exact Nat.le_succ _
  | cons n rest =>
    simp only [scanWork]
    split <;> split <;> omega

theorem scanWork_stop {c c' : FldCacheEntry} (same : c.range.stop = c'.range.stop) :
    scanWork c rest = scanWork c' rest := by
  cases rest with
  | nil => rfl
  | cons n rest => simp only [scanWork, same]

/-- What a scan from `c` on leaves: the settled list, or one that settles alike with less work ahead. -/
structure Scanned (c : FldCacheEntry) (rest : List FldCacheEntry) (scan : Scan) : Prop where
  gone : (entryIds (c :: rest)).Perm (scan.deleted ++ entryIds scan.entries)
  done : scan.restart = false → scan.entries = settleEntries c rest
  again : scan.restart = true → ∃ c' rest', scan.entries = c' :: rest' ∧
    Nearly (entryRanges (c' :: rest')) ∧ c'.range.start = c.range.start ∧
    c'.range.index = c.range.index ∧ settleEntries c' rest' = settleEntries c rest ∧
    scanWork c' rest' < scanWork c rest

variable {scan : Scan}

/-- The scan passes an entry that does not join the next one. -/
theorem Scanned.keep (scanned : Scanned n rest scan) (sane : rangeIsSane c.range)
    (below : c.range.stop ≤ n.range.start)
    (apart : ¬ (c.range.index = n.range.index ∧ c.range.stop = n.range.start)) :
    Scanned c (n :: rest) (scan.keep c) := by
  refine ⟨?_, fun stop => ?_, fun restart => ?_⟩
  · have := scanned.gone.cons c.id
    exact this.trans perm_middle.symm
  · rw [settleEntries_apart below apart, ← scanned.done stop]
    rfl
  · obtain ⟨c', rest', eq, nearly, start, index, settles, work⟩ := scanned.again restart
    refine ⟨c, c' :: rest', congrArg (c :: ·) eq, ?_, rfl, rfl, ?_, ?_⟩
    · exact .behind sane (forall_mem_cons.mpr
        ⟨start ▸ below, fun b mem => (start ▸ below).trans (nearly.starts b mem)⟩) nearly
    · simp_all [settleEntries_apart]
    · simp only [scanWork, start]
      omega

/-- The scan deletes an entry that touches the next one. -/
theorem Scanned.drop
    (scanned : Scanned { n with range := { n.range with start := c.range.start } } rest scan)
    (same : c.range.index = n.range.index) (touch : c.range.stop = n.range.start)
    (sane : rangeIsSane n.range) : Scanned c (n :: rest) (scan.drop c) := by
  refine ⟨scanned.gone.cons c.id, fun stop => ?_, fun restart => ?_⟩
  · rw [settleEntries_touch same touch sane]
    exact scanned.done stop
  · obtain ⟨c', rest', eq, nearly, start, index, settles, work⟩ := scanned.again restart
    refine ⟨c', rest', eq, nearly, start, index.trans same.symm, ?_, ?_⟩
    · rw [settles, settleEntries_touch same touch sane]
    · grind [scanWork, scanWork_stop]

theorem fixOverlap_scanned (sane : rangeIsSane c.range) (overlap : n.range.start < c.range.stop)
    (starts : ∀ b ∈ entryRanges (n :: rest), c.range.start ≤ b.start)
    (tidy : Tidy (entryRanges (n :: rest))) : Scanned c (n :: rest) (fixOverlap c n rest) := by
  obtain ⟨saneN, first, tidyRest⟩ := tidy_cons.mp tidy
  have starts' : ∀ b ∈ entryRanges rest, c.range.start ≤ b.start := fun b mem =>
    starts b (mem_cons_of_mem _ mem)
  unfold fixOverlap
  split_ifs with same inside
  · refine ⟨.refl _, nofun, fun _ => ⟨_, _, rfl, ?_, rfl, same.symm, ?_, ?_⟩⟩
    · exact .front (sane.trans (le_max_left _ _)) starts' tidyRest
    · exact (settleEntries_join same overlap.le).symm
    · have := scanWork_other
        { n with range := { n.range with
          start := c.range.start, stop := max c.range.stop n.range.stop } } n rest
      rw [scanWork, if_pos overlap]
      omega
  · refine ⟨.refl _, nofun, fun _ => ⟨_, _, rfl, ?_, rfl, rfl, ?_, ?_⟩⟩
    · exact .front sane starts' tidyRest
    · rw [settleEntries, if_neg same, if_pos ⟨overlap, inside⟩]
    · have := scanWork_other { n with range := c.range } n rest
      rw [scanWork, if_pos overlap]
      omega
  · have reach : c.range.stop ≤ n.range.stop := Nat.le_of_not_le inside
    refine ⟨.refl _, nofun, fun _ => ⟨_, _, rfl, ?_, rfl, rfl, ?_, ?_⟩⟩
    · have behind : ∀ b ∈ entryRanges rest, c.range.stop ≤ b.start := fun b mem =>
        reach.trans (first b mem)
      exact .behind sane (forall_mem_cons.mpr ⟨le_rfl, behind⟩)
        (.front reach behind tidyRest)
    · rw [settleEntries_apart (n := ⟨n.id, { n.range with start := c.range.stop }⟩) le_rfl
        fun both => same both.1]
      rw [settleEntries, if_neg same, if_neg fun both => inside both.2, max_eq_left overlap.le]
    · have same : scanWork { n with range := { n.range with start := c.range.stop } } rest =
          scanWork n rest := scanWork_stop rfl
      rw [scanWork, scanWork, if_pos overlap, if_neg (lt_irrefl _)]
      omega

/-- A scan of a list in repair fails no assertion. -/
theorem fixScan_spec (nearly : Nearly (entryRanges (c :: rest))) :
    ∃ scan, fixScan c rest = .ok scan ∧ Scanned c rest scan := by
  induction rest generalizing c with
  | nil => exact ⟨_, if_pos nearly.sane_head, .refl _, fun _ => rfl, nofun⟩
  | cons n rest ih =>
    have sane : rangeIsSane c.range := nearly.sane_head
    have step : c.range.start ≤ n.range.start := nearly.starts _ mem_cons_self
    have saneN : rangeIsSane n.range := nearly.tail.sane_head
    rw [fixScan, if_neg (not_not.mpr sane), if_neg (not_not.mpr step)]
    by_cases touch : c.range.stop = n.range.start
    · rw [if_pos touch]
      by_cases same : c.range.index = n.range.index
      · obtain ⟨scan, eq, scanned⟩ :=
          ih (c := { n with range := { n.range with start := c.range.start } })
            (nearly.tail.extend step)
        rw [if_neg (not_not.mpr same), eq]
        exact ⟨_, rfl, scanned.drop same touch saneN⟩
      · obtain ⟨scan, eq, scanned⟩ := ih nearly.tail
        rw [if_pos same, eq]
        exact ⟨_, rfl, scanned.keep sane touch.le fun both => same both.1⟩
    rw [if_neg touch]
    by_cases overlap : n.range.start < c.range.stop
    · rw [if_pos overlap]
      refine ⟨_, rfl, ?_⟩
      cases nearly with
      | front _ starts tidy => exact fixOverlap_scanned sane overlap starts tidy
      | behind _ below _ => exact absurd (below _ mem_cons_self) (not_le.mpr overlap)
    · -- past this point the next entry starts later, so it is no duplicate
      have same : ¬ (c.range.start = n.range.start ∧ c.range.stop = n.range.stop) := by omega
      obtain ⟨scan, eq, scanned⟩ := ih nearly.tail
      rw [if_neg overlap, if_neg same, eq]
      exact ⟨_, rfl, scanned.keep sane (not_lt.mp overlap) fun both => touch both.2⟩

/-- Each entry is on the replacement list once, and the count is their number. -/
structure Linked (cache : FldCache) : Prop where
  distinct : (entryIds cache.entries).Nodup
  lru : cache.lru.Perm (entryIds cache.entries)
  count : cache.count = cache.entries.length
  allocated : ∀ id ∈ entryIds cache.entries, id < cache.next

variable {cache : FldCache}

theorem Linked.scanned (linked : Linked cache)
    (gone : (entryIds cache.entries).Perm (scan.deleted ++ entryIds scan.entries)) :
    Linked (cache.scanned scan) := by
  have distinct := gone.nodup_iff.mp linked.distinct
  obtain ⟨-, distinct', apart⟩ := nodup_append.mp distinct
  refine ⟨distinct', ?_, ?_, fun id mem => ?_⟩
  · have := (linked.lru.trans gone).filter fun id => decide (id ∉ scan.deleted)
    have none : scan.deleted.filter (fun id => decide (id ∉ scan.deleted)) = [] :=
      filter_eq_nil_iff.mpr fun id mem => by simpa using mem
    have all : (entryIds scan.entries).filter (fun id => decide (id ∉ scan.deleted)) =
        entryIds scan.entries :=
      filter_eq_self.mpr fun id mem =>
        decide_eq_true fun deleted => apart id deleted id mem rfl
    rw [filter_append, none, all] at this
    exact this
  · have length := gone.length_eq
    simp only [length_map, length_append] at length
    have := linked.count
    show cache.count - (scan.deleted.length : Int) = (scan.entries.length : Int)
    omega
  · exact linked.allocated id (gone.mem_iff.mpr (mem_append_right _ mem))

/-- What a repair leaves. -/
structure Repaired (cache : FldCache) (list : List FldCacheEntry) (cache' : FldCache) : Prop where
  entries : cache'.entries = list
  linked : Linked cache'
  next : cache'.next = cache.next

theorem fixScans_spec {fuel : Nat} (entries : cache.entries = c :: rest)
    (nearly : Nearly (entryRanges (c :: rest))) (linked : Linked cache)
    (enough : scanWork c rest ≤ fuel) :
    ∃ cache', fixScans fuel cache = .ok cache' ∧ Repaired cache (settleEntries c rest) cache' := by
  induction fuel generalizing cache c rest with
  | zero =>
    have : 1 ≤ scanWork c rest := by
      cases rest with
      | nil => exact le_rfl
      | cons n rest =>
        simp only [scanWork]
        split <;> omega
    omega
  | succ fuel ih =>
    obtain ⟨scan, eq, scanned⟩ := fixScan_spec nearly
    have linked' := linked.scanned (by rw [entries]; exact scanned.gone)
    rw [fixScans, entries]
    simp only [eq]
    cases restart : scan.restart with
    | false => exact ⟨_, if_neg (by simp), scanned.done restart, linked', rfl⟩
    | true =>
      obtain ⟨c', rest', list, nearly', -, -, settles, less⟩ := scanned.again restart
      have list' : (cache.scanned scan).entries = c' :: rest' := list
      obtain ⟨cache', done, repaired⟩ := ih list' nearly' linked' (by omega)
      rw [settles] at repaired
      exact ⟨cache', done, repaired.entries, repaired.linked, repaired.next⟩

/-- A list of entries, settled. -/
def settledEntries : List FldCacheEntry → List FldCacheEntry
  | [] => []
  | c :: rest => settleEntries c rest

theorem ranges_settledEntries :
    entryRanges (settledEntries entries) = settled (entryRanges entries) := by
  cases entries with
  | nil => rfl
  | cons c rest => exact ranges_settleEntries

/-- `fld_fix_new_list` ends, fails no assertion, and settles the list. -/
theorem fldFixNewList_spec (nearly : Nearly (entryRanges cache.entries)) (linked : Linked cache) :
    ∃ cache', fldFixNewList cache = .ok cache' ∧
      Repaired cache (settledEntries cache.entries) cache' := by
  cases list : cache.entries with
  | nil =>
    rw [list] at nearly
    cases nearly
  | cons c rest =>
    rw [list] at nearly
    refine fixScans_spec list nearly linked ?_
    have := scanWork_le c rest
    rw [list, length_cons]
    omega

section

variable {front : List FldCacheEntry} {cut new : FldCacheEntry}
  (below : ∀ p ∈ front, p.range.stop ≤ cut.range.start) (sane : rangeIsSane cut.range)
  (order : cut.range.stop ≤ new.range.start) (differ : cut.range.index ≠ new.range.index)

include below sane order differ

/-- An entry whose left neighbour has another index splits the settled list. -/
theorem settleEntries_split (first : c.range.stop ≤ cut.range.start) :
    settleEntries c (front ++ cut :: new :: rest) =
      settleEntries c (front ++ [cut]) ++ settleEntries new rest := by
  induction front generalizing c with
  | nil =>
    simp only [nil_append]
    by_cases joins : c.range.index = cut.range.index ∧ c.range.stop = cut.range.start
    · rw [settleEntries_touch joins.1 joins.2 sane, settleEntries_touch joins.1 joins.2 sane]
      exact settleEntries_apart order fun both => differ both.1
    · rw [settleEntries_apart first joins, settleEntries_apart first joins,
        settleEntries_apart order fun both => differ both.1]
      rfl
  | cons n front ih =>
    obtain ⟨next, below⟩ := forall_mem_cons.mp below
    simp only [cons_append, settleEntries]
    split_ifs
    · exact congrArg (c :: ·) (ih below next)
    · exact ih below (Nat.max_le.mpr ⟨first, next⟩)
    · exact ih below first
    · exact congrArg (c :: ·) (ih below next)

theorem settledEntries_split : settledEntries (front ++ cut :: new :: rest) =
      settledEntries (front ++ [cut]) ++ settleEntries new rest := by
  cases front with
  | nil => exact settleEntries_apart order fun both => differ both.1
  | cons c front =>
    obtain ⟨first, below⟩ := forall_mem_cons.mp below
    exact settleEntries_split below sane order differ first

end

/-- An entry with a gap behind stays as it is. -/
theorem settleEntries_gap (gap : ∀ b ∈ entryRanges rest, c.range.stop < b.start) :
    settleEntries c rest = c :: settledEntries rest := by
  cases rest with
  | nil => rfl
  | cons n rest =>
    have lt : c.range.stop < n.range.start := gap _ mem_cons_self
    exact settleEntries_apart lt.le fun both => ne_of_lt lt both.2

theorem ids_settleEntries : ∀ id ∈ entryIds (settleEntries c rest), id ∈ entryIds (c :: rest) := by
  induction rest generalizing c with
  | nil => exact fun id mem => mem
  | cons n rest ih =>
    intro id mem
    unfold settleEntries at mem
    have later : ∀ range, id ∈ entryIds (settleEntries ⟨n.id, range⟩ rest) →
        id ∈ entryIds (c :: n :: rest) := fun range mem =>
      mem_cons_of_mem _ (ih (c := ⟨n.id, range⟩) id mem)
    split_ifs at mem
    · grind
    · exact later _ mem
    · exact later _ mem
    · grind

theorem ids_settledEntries : ∀ id ∈ entryIds (settledEntries entries), id ∈ entryIds entries := by
  cases entries with
  | nil => exact fun id mem => mem
  | cons c rest => exact ids_settleEntries

end Fld
