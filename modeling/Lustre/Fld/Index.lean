/-
Module: Lustre.Fld.Index
Purpose: The location index of the metadata servers, and exactly when creating a range leaves it
  consistent.
Trusted boundary: the container answers a lookup with the last record not behind the key
-/
import Mathlib.Data.List.MinMax
import Mathlib.Data.List.Pairwise
import Lustre.Fid.Range

namespace Fld

open Fid List

/-- The index object; `leaf` is the record an empty leaf still holds, which a lookup in an empty index
copies. -/
structure FldIndex where
  recs : List LuSeqRange
  leaf : LuSeqRange
deriving DecidableEq, Repr

/-- `dio_lookup`: the record with the greatest key not above `key`; below all keys the first one. -/
def dioLookup (index : FldIndex) (key : Nat) : LuSeqRange :=
  match (index.recs.filter (·.start ≤ key)).argmax LuSeqRange.start with
  | some range => range
  | none => (index.recs.argmin LuSeqRange.start).getD index.leaf

/-- `dio_delete`; `none` is `-ENOENT`. -/
def dioDelete (index : FldIndex) (key : Nat) : Option FldIndex :=
  match index.recs.find? (·.start = key) with
  | some range => some ⟨index.recs.filter (·.start ≠ key), range⟩
  | none => none

/-- `dio_insert`; `none` is `-EEXIST`. -/
def dioInsert (index : FldIndex) (range : LuSeqRange) : Option FldIndex :=
  if ∃ r ∈ index.recs, r.start = range.start then none
  else some { index with recs := range :: index.recs }

/-- `fld_index_lookup`: whether the sequence is in the range that is returned. -/
def fldIndexLookup (index : FldIndex) (seq : Nat) : Bool × LuSeqRange :=
  (decide (rangeWithin (dioLookup index seq) seq), dioLookup index seq)

/-! ### Creating a range -/

/-- The assertions of `fld_server_create`. -/
inductive FldFault where
  | insaneRange
  | leftPastEnd
  | leftOverlaps
  | alreadyStored
deriving DecidableEq, Repr

/-- The result: `rc`, the index, and the range that goes to the cache when `rc` is 0. -/
structure Created where
  rc : Int
  index : FldIndex
  range : LuSeqRange
deriving DecidableEq, Repr

/-- `-EIO`. -/
def eio : Int := -5

/-- `-ENOENT`. -/
def enoent : Int := -2

/-- The new range extended over an existing one. -/
def mergeRange (new erange : LuSeqRange) : LuSeqRange :=
  { new with start := min erange.start new.start, stop := max erange.stop new.stop }

/-- `fld_index_create` at the end of `fld_server_create`. -/
def storeRange (index : FldIndex) (new : LuSeqRange) : Except FldFault Created :=
  if rangeIsSane new then
    match dioInsert index new with
    | some index => .ok ⟨0, index, new⟩
    | none => .error .alreadyStored
  else .error .insaneRange

/-- The merge with the next range. -/
def mergeNext (index : FldIndex) (new erange : LuSeqRange) : Except FldFault Created :=
  if rangeSameLoc new erange then
    match dioDelete index erange.start with
    | some index => storeRange index (mergeRange new erange)
    | none => .ok ⟨enoent, index, new⟩
  else .ok ⟨eio, index, new⟩

/-- Step 2 of `fld_server_create`. -/
def createStepTwo (index : FldIndex) (new : LuSeqRange) : Except FldFault Created :=
  let lookup := fldIndexLookup index new.stop
  let erange := lookup.2
  if lookup.1 then mergeNext index new erange
  else if ¬ erange.stop ≤ new.stop then .error .leftPastEnd
  else if ¬ (erange.start > new.start ∨ erange.stop < new.start ∨
      (erange.stop = new.start ∧ ¬ rangeSameLoc new erange)) then .error .leftOverlaps
  else if erange.start > new.start then mergeNext index new erange
  else storeRange index new

/-- `fld_server_create`. -/
def fldServerCreate (index : FldIndex) (addRange : LuSeqRange) : Except FldFault Created :=
  let lookup := fldIndexLookup index addRange.start
  let erange := lookup.2
  if lookup.1 ∧ ¬ rangeSameLoc addRange erange then .ok ⟨eio, index, addRange⟩
  else if lookup.1 ∧ addRange.stop < erange.stop then .ok ⟨0, index, addRange⟩
  else if lookup.1 ∨ (addRange.start = erange.stop ∧ rangeSameLoc addRange erange) then
    match dioDelete index erange.start with
    | some index => createStepTwo index (mergeRange addRange erange)
    | none => .ok ⟨enoent, index, addRange⟩
  else createStepTwo index addRange

/-- The location a lookup answers with. -/
def answer (index : FldIndex) (seq : Nat) : Option (Nat × Nat) :=
  if (fldIndexLookup index seq).1 then
    some ((fldIndexLookup index seq).2.index, (fldIndexLookup index seq).2.flags)
  else none

/-- Two ranges have no sequence in common. -/
def Apart (a b : LuSeqRange) : Prop := ∀ n, ¬ (rangeWithin a n ∧ rangeWithin b n)

/-- Ranges that are not empty and pairwise disjoint. -/
structure Consistent (recs : List LuSeqRange) : Prop where
  nonempty : ∀ r ∈ recs, r.start < r.stop
  apart : recs.Pairwise Apart

instance : Std.Symm Apart := ⟨fun _ _ apart n both => apart n ⟨both.2, both.1⟩⟩

variable {recs : List LuSeqRange} {index : FldIndex} {a b : LuSeqRange}

section

variable (ok : Consistent recs) (memA : a ∈ recs) (memB : b ∈ recs)

include ok memA memB

/-- A sequence lies in at most one stored range. -/
theorem Consistent.unique {n : Nat} (inA : rangeWithin a n) (inB : rangeWithin b n) : a = b := by
  by_contra differ
  exact ok.apart.forall memA memB differ n ⟨inA, inB⟩

theorem Consistent.start_inj (same : a.start = b.start) : a = b :=
  ok.unique memA memB ⟨le_rfl, ok.nonempty a memA⟩
    ⟨same.symm.le, same ▸ ok.nonempty b memB⟩

theorem Consistent.ordered (before : a.start < b.start) : a.stop ≤ b.start := by
  by_contra overlap
  have := ok.unique memA memB (n := b.start) ⟨by omega, by omega⟩
    ⟨le_rfl, ok.nonempty b memB⟩
  subst this
  omega

end

variable {key : Nat} {r : LuSeqRange}

/-- A lookup finds the last range that starts at or below the key. -/
theorem dioLookup_below (mem : r ∈ index.recs) (le : r.start ≤ key) :
    dioLookup index key ∈ index.recs ∧ (dioLookup index key).start ≤ key ∧
      ∀ e ∈ index.recs, e.start ≤ key → e.start ≤ (dioLookup index key).start := by
  have member : ∀ e, e ∈ index.recs → e.start ≤ key →
      e ∈ index.recs.filter (fun e => decide (e.start ≤ key)) := fun e inRecs below =>
    mem_filter.mpr ⟨inRecs, decide_eq_true below⟩
  unfold dioLookup
  cases found : (index.recs.filter (fun e => decide (e.start ≤ key))).argmax LuSeqRange.start with
  | none =>
    rw [argmax_eq_none] at found
    have := member r mem le
    rw [found] at this
    cases this
  | some e => grind [argmax_mem, le_of_mem_argmax]

/-- A lookup below all ranges finds some range, one that starts later. -/
theorem dioLookup_none (none : ∀ e ∈ index.recs, key < e.start) (some : index.recs ≠ []) :
    dioLookup index key ∈ index.recs := by
  unfold dioLookup
  have empty : index.recs.filter (fun e => decide (e.start ≤ key)) = [] := by
    rw [filter_eq_nil_iff]
    intro e mem
    simpa using none e mem
  rw [empty, argmax_nil]
  cases found : index.recs.argmin LuSeqRange.start with
  | none => exact absurd (argmin_eq_none.mp found) some
  | some e => exact argmin_mem found

theorem dioLookup_mem (some : index.recs ≠ []) (key : Nat) : dioLookup index key ∈ index.recs := by
  by_cases below : ∃ e ∈ index.recs, e.start ≤ key
  · obtain ⟨e, mem, le⟩ := below
    exact (dioLookup_below mem le).1
  · refine dioLookup_none (fun e mem => ?_) some
    exact not_le.mp fun le => below ⟨e, mem, le⟩

theorem dioLookup_within (ok : Consistent index.recs) (mem : r ∈ index.recs)
    (inside : rangeWithin r key) : dioLookup index key = r := by
  obtain ⟨inRecs, le, last⟩ := dioLookup_below mem inside.1
  have after := last r mem inside.1
  by_contra differ
  have apart : r.start ≠ (dioLookup index key).start := fun same =>
    differ (ok.start_inj inRecs mem same.symm)
  have := ok.ordered mem inRecs (by omega)
  omega

/-- The stored ranges say that `seq` lives at `loc`. -/
def Holds (recs : List LuSeqRange) (seq : Nat) (loc : Nat × Nat) : Prop :=
  ∃ r ∈ recs, rangeWithin r seq ∧ loc = (r.index, r.flags)

variable {seq : Nat} {loc : Nat × Nat}

/-- The answers of an index are what its ranges say. -/
theorem answer_eq_some (ok : Consistent index.recs) (some : index.recs ≠ []) :
    answer index seq = .some loc ↔ Holds index.recs seq loc := by
  unfold answer fldIndexLookup
  constructor
  · intro found
    split at found
    · rename_i inside
      exact ⟨dioLookup index seq, dioLookup_mem some seq, of_decide_eq_true inside,
        (Option.some.inj found).symm⟩
    · cases found
  · rintro ⟨r, mem, inside, rfl⟩
    rw [dioLookup_within ok mem inside, if_pos (decide_eq_true inside)]

/-! ### The second step -/

/-- `e` starts inside `new` or where `new` ends. -/
def Ahead (new e : LuSeqRange) : Prop := new.start < e.start ∧ e.start ≤ new.stop

/-- When the second step has a range to merge, or one on the left to pass its assertions with. -/
structure Finishable (recs : List LuSeqRange) (new : LuSeqRange) : Prop where
  sameLoc : ∀ e ∈ recs, Ahead new e → rangeSameLoc new e
  atMostOne : ∀ e ∈ recs, Ahead new e → ∀ e' ∈ recs, Ahead new e' → e = e'
  found : (∃ e ∈ recs, Ahead new e) ∨
    ((∃ e ∈ recs, e.start < new.start) ∧
      ∀ e ∈ recs, e.stop = new.start → ¬ rangeSameLoc new e)

/-- The first step leaves nothing stored that covers the start of the new range. -/
structure Uncovered (recs : List LuSeqRange) (new : LuSeqRange) : Prop where
  consistent : Consistent recs
  nonempty : new.start < new.stop
  start : ∀ e ∈ recs, ¬ rangeWithin e new.start

variable {new e : LuSeqRange}

theorem Consistent.nil : Consistent [] := ⟨by simp, List.Pairwise.nil⟩

theorem holds_cons :
    Holds (new :: recs) seq loc ↔
      (rangeWithin new seq ∧ loc = (new.index, new.flags)) ∨ Holds recs seq loc := by
  unfold Holds
  simp

section

variable (ok : Consistent recs)

include ok

theorem Consistent.filter (p : LuSeqRange → Bool) : Consistent (recs.filter p) :=
  ⟨fun r mem => ok.nonempty r (mem_of_mem_filter mem), ok.apart.filter p⟩

theorem Consistent.cons (nonempty : new.start < new.stop)
    (clear : ∀ r ∈ recs, r.stop ≤ new.start ∨ new.stop ≤ r.start) : Consistent (new :: recs) := by
  refine ⟨forall_mem_cons.mpr ⟨nonempty, ok.nonempty⟩,
    pairwise_cons.mpr ⟨fun r mem n both => ?_, ok.apart⟩⟩
  have := clear r mem
  omega

/-- A range that starts where the new one does is no concern of the second step. -/
theorem finishable_delete (same : e.start = new.start) :
    Finishable (recs.filter (·.start ≠ e.start)) new ↔ Finishable recs new := by
  have stays : ∀ r ∈ recs, r.start ≠ new.start → r ∈ recs.filter (·.start ≠ e.start) :=
    fun r inRecs differ => mem_filter.mpr ⟨inRecs, decide_eq_true (same ▸ differ)⟩
  have stored : ∀ r ∈ recs.filter (·.start ≠ e.start), r ∈ recs := fun r inRest =>
    mem_of_mem_filter inRest
  have ends : ∀ r ∈ recs, r.stop = new.start → r.start ≠ new.start := fun r inRecs stop => by
    have := ok.nonempty r inRecs
    omega
  constructor
  · rintro ⟨sameLoc, atMostOne, found⟩
    refine ⟨fun r m a => sameLoc r (stays r m a.1.ne') a, fun r m a r' m' a' =>
      atMostOne r (stays r m a.1.ne') a r' (stays r' m' a'.1.ne') a', ?_⟩
    rcases found with ⟨r, m, a⟩ | ⟨⟨r, m, lt⟩, apart⟩
    · exact .inl ⟨r, stored r m, a⟩
    · grind
  · rintro ⟨sameLoc, atMostOne, found⟩
    refine ⟨fun r m a => sameLoc r (stored r m) a, fun r m a r' m' a' =>
      atMostOne r (stored r m) a r' (stored r' m') a', ?_⟩
    rcases found with ⟨r, m, a⟩ | ⟨⟨r, m, lt⟩, apart⟩
    · exact .inl ⟨r, stays r m a.1.ne', a⟩
    · exact .inr ⟨⟨r, stays r m lt.ne, lt⟩, fun r' m' stop => apart r' (stored r' m') stop⟩

variable (mem : e ∈ recs)

include mem

theorem mem_deleted : r ∈ recs.filter (·.start ≠ e.start) ↔ r ∈ recs ∧ r ≠ e := by
  grind [Consistent.start_inj]

/-- Replacing `e` by its merge with `new` adds what `new` says. -/
theorem holds_merged (same : rangeSameLoc new e)
    (cover : ∀ n, rangeWithin (mergeRange new e) n ↔ rangeWithin new n ∨ rangeWithin e n) :
    Holds (mergeRange new e :: recs.filter (·.start ≠ e.start)) seq loc ↔
      (rangeWithin new seq ∧ loc = (new.index, new.flags)) ∨ Holds recs seq loc := by
  have sameLoc : (new.index, new.flags) = (e.index, e.flags) := by rw [same.1, same.2]
  rw [holds_cons, cover]
  constructor
  · rintro (⟨inNew | inE, at'⟩ | ⟨r, inRest, inside⟩)
    · exact .inl ⟨inNew, at'⟩
    · exact .inr ⟨e, mem, inE, at'.trans sameLoc⟩
    · exact .inr ⟨r, mem_of_mem_filter inRest, inside⟩
  · rintro (⟨inNew, at'⟩ | ⟨r, inRecs, inside⟩)
    · exact .inl ⟨.inl inNew, at'⟩
    · by_cases isE : r = e
      · subst isE
        exact .inl ⟨.inr inside.1, inside.2.trans sameLoc.symm⟩
      · exact .inr ⟨r, (mem_deleted ok mem).mpr ⟨inRecs, isE⟩, inside⟩

/-- Behind a merge on the left nothing stored covers the start. -/
theorem Uncovered.left (start : e.start ≤ new.start) :
    Uncovered (recs.filter (·.start ≠ e.start)) (mergeRange new e) := by
  have full := ok.nonempty e mem
  have same : (mergeRange new e).start = e.start := min_eq_left start
  refine ⟨ok.filter _, ?_, fun r inRest inside => ?_⟩
  · exact same ▸ full.trans_le (le_max_left _ _)
  · obtain ⟨inRecs, other⟩ := (mem_deleted ok mem).mp inRest
    exact other (ok.unique inRecs mem (same ▸ inside) ⟨le_rfl, full⟩)

end

theorem Uncovered.side (ready : Uncovered recs new) (mem : e ∈ recs) :
    new.start < e.start ∨ e.stop ≤ new.start := by
  have := ready.start e mem
  omega

theorem Uncovered.merged (ready : Uncovered recs new) (ahead : Ahead new e) :
    Uncovered (recs.filter (·.start ≠ e.start)) (mergeRange new e) := by
  obtain ⟨after, _⟩ := ahead
  have start : (mergeRange new e).start = new.start := min_eq_right (by omega)
  refine ⟨ready.consistent.filter _, ?_, ?_⟩
  · grind [mergeRange]
  · rw [start]
    intro r inRest
    exact ready.start r (mem_of_mem_filter inRest)

/-- A merge with a range that reaches to the new one leaves no gap. -/
theorem within_mergeRange (touch : e.start ≤ new.stop) (touch' : new.start ≤ e.stop) (n : Nat) :
    rangeWithin (mergeRange new e) n ↔ rangeWithin new n ∨ rangeWithin e n := by
  unfold rangeWithin mergeRange
  simp only
  omega

theorem dioDelete_stored (ok : Consistent index.recs) (mem : e ∈ index.recs) :
    dioDelete index e.start = some ⟨index.recs.filter (·.start ≠ e.start), e⟩ := by
  grind [dioDelete, find?_eq_none, mem_of_find?_eq_some, Consistent.start_inj]

/-- What a create has to achieve on the stored ranges. -/
structure Creates (recs : List LuSeqRange) (add : LuSeqRange)
    (result : Except FldFault Created) : Prop where
  ok : ∃ created, result = .ok created ∧ created.rc = 0 ∧ Consistent created.index.recs ∧
    ∀ seq loc, Holds created.index.recs seq loc ↔
      (rangeWithin add seq ∧ loc = (add.index, add.flags)) ∨ Holds recs seq loc

section

variable (ready : Uncovered index.recs new)

include ready

theorem storeRange_uncovered :
    storeRange index new = .ok ⟨0, { index with recs := new :: index.recs }, new⟩ := by
  have fresh : ¬ ∃ r ∈ index.recs, r.start = new.start := by
    rintro ⟨r, mem, same⟩
    exact ready.start r mem ⟨same.le, same ▸ ready.consistent.nonempty r mem⟩
  unfold storeRange dioInsert
  rw [if_pos ready.nonempty.le, if_neg fresh]

/-- The merge with a range ahead. -/
theorem mergeNext_ahead (mem : e ∈ index.recs) (ahead : Ahead new e) :
    mergeNext index new e =
      if rangeSameLoc new e then
        .ok ⟨0, ⟨mergeRange new e :: index.recs.filter (·.start ≠ e.start), e⟩, mergeRange new e⟩
      else .ok ⟨eio, index, new⟩ := by
  unfold mergeNext
  rw [dioDelete_stored ready.consistent mem]
  simp only
  rw [storeRange_uncovered (ready.merged ahead)]

/-- The second step merges with the last range ahead, stores the new range after one on its left, or
asserts. -/
theorem createStepTwo_cases (some : index.recs ≠ []) :
    (∃ e ∈ index.recs, Ahead new e ∧ (∀ e' ∈ index.recs, Ahead new e' → e'.start ≤ e.start) ∧
      createStepTwo index new = mergeNext index new e) ∨
    ((∀ e ∈ index.recs, ¬ Ahead new e) ∧ ∃ e ∈ index.recs, e.start < new.start ∧
      (∀ e' ∈ index.recs, e'.stop = new.start → e' = e) ∧
      createStepTwo index new =
        if e.stop = new.start ∧ rangeSameLoc new e then .error .leftOverlaps
        else storeRange index new) ∨
    ((∀ e ∈ index.recs, new.stop < e.start) ∧
      createStepTwo index new = .error .leftPastEnd) := by
  have nonempty := ready.nonempty
  have inRecs := dioLookup_mem some new.stop
  have side := ready.side inRecs
  have full := ready.consistent.nonempty _ inRecs
  by_cases below : ∃ e ∈ index.recs, e.start ≤ new.stop
  · obtain ⟨e₀, mem₀, le₀⟩ := below
    obtain ⟨-, le, last⟩ := dioLookup_below mem₀ le₀
    unfold createStepTwo fldIndexLookup
    generalize dioLookup index new.stop = e at *
    simp only [decide_eq_true_eq]
    by_cases after : new.start < e.start
    · refine .inl ⟨e, inRecs, ⟨after, le⟩, fun e' mem' ahead' => last e' mem' ahead'.2, ?_⟩
      by_cases hit : rangeWithin e new.stop
      · rw [if_pos hit]
      · simp_all [rangeWithin]
    · refine .inr (.inl ⟨?_, e, inRecs, by omega, ?_, ?_⟩)
      · rintro e' mem' ⟨after', le'⟩
        have := last e' mem' le'
        omega
      · intro e' mem' ends
        have full' := ready.consistent.nonempty e' mem'
        have before := last e' mem' (by omega)
        by_contra differ
        have apart : e'.start ≠ e.start := fun same =>
          differ (ready.consistent.start_inj mem' inRecs same)
        have := ready.consistent.ordered mem' inRecs (by omega)
        omega
      · grind
  · have above : ∀ e ∈ index.recs, new.stop < e.start := fun e mem =>
      not_le.mp fun le => below ⟨e, mem, le⟩
    have later := above _ inRecs
    refine .inr (.inr ⟨above, ?_⟩)
    unfold createStepTwo fldIndexLookup
    generalize dioLookup index new.stop = e at *
    have miss : ¬ rangeWithin e new.stop := by omega
    simp only [decide_eq_true_eq]
    rw [if_neg miss, if_pos (by omega)]

/-- A finishable second step stores the new range. -/
theorem createStepTwo_creates (fin : Finishable index.recs new) :
    Creates index.recs new (createStepTwo index new) := by
  have nonempty := ready.nonempty
  have some : index.recs ≠ [] := by
    rcases fin.found with ⟨e, mem, -⟩ | ⟨⟨e, mem, -⟩, -⟩ <;> exact ne_nil_of_mem mem
  rcases createStepTwo_cases ready some with
    ⟨e, mem, ahead, -, eq⟩ | ⟨noneAhead, e, mem, left, only, eq⟩ | ⟨above, -⟩
  · -- one range is ahead: the merged range takes its place
    have same := fin.sameLoc e mem ahead
    rw [eq, mergeNext_ahead ready mem ahead, if_pos same]
    have full := ready.consistent.nonempty e mem
    have cover := within_mergeRange ahead.2 (le_of_lt (ahead.1.trans full))
    refine ⟨_, rfl, rfl, ?_, fun seq loc => holds_merged ready.consistent mem same cover⟩
    refine (ready.consistent.filter _).cons (ready.merged ahead).nonempty fun r inRest => ?_
    obtain ⟨inRecs, other⟩ := (mem_deleted ready.consistent mem).mp inRest
    have start : (mergeRange new e).start = new.start := min_eq_right ahead.1.le
    rcases ready.side inRecs with after | before
    · have notAhead : ¬ r.start ≤ new.stop := fun le =>
        other (fin.atMostOne r inRecs ⟨after, le⟩ e mem ahead)
      have := ready.consistent.ordered mem inRecs (by have := ahead.2; omega)
      have : (mergeRange new e).stop = max e.stop new.stop := rfl
      omega
    · omega
  · -- nothing is ahead: the new range is stored as it is
    have notTouching : ¬ (e.stop = new.start ∧ rangeSameLoc new e) := by
      grind [cases Finishable, cases Uncovered, cases Creates]
    rw [eq, if_neg notTouching, storeRange_uncovered ready]
    refine ⟨_, rfl, rfl, ready.consistent.cons nonempty fun r inRecs => ?_, fun _ _ => holds_cons⟩
    have := noneAhead r inRecs
    unfold Ahead at this
    have := ready.side inRecs
    omega
  · rcases fin.found with ⟨e, mem, ahead⟩ | ⟨⟨e, mem, le⟩, -⟩
    · have := above e mem
      have := ahead.2
      omega
    · have := above e mem
      omega

/-- A second step that succeeds and leaves the ranges disjoint was finishable. -/
theorem Finishable.of_createStepTwo (some : index.recs ≠ []) {created : Created}
    (done : createStepTwo index new = .ok created) (success : created.rc = 0)
    (apart : created.index.recs.Pairwise Apart) : Finishable index.recs new := by
  rcases createStepTwo_cases ready some with
    ⟨e, mem, ahead, last, eq⟩ | ⟨noneAhead, e, mem, left, only, eq⟩ | ⟨-, eq⟩
  · rw [eq, mergeNext_ahead ready mem ahead] at done
    split at done
    case isFalse =>
      cases done
      cases success
    case isTrue same =>
      have onlyE : ∀ e' ∈ index.recs, Ahead new e' → e' = e := by
        -- another range ahead would start inside the merged one
        intro e' mem' ahead'
        by_contra other
        cases done
        have clash := (pairwise_cons.mp apart).1 e'
          ((mem_deleted ready.consistent mem).mpr ⟨mem', other⟩)
        have apart' : e'.start ≠ e.start := fun same' =>
          other (ready.consistent.start_inj mem' mem same')
        have before := last e' mem' ahead'
        refine clash e'.start ⟨⟨?_, ?_⟩, le_rfl, ready.consistent.nonempty e' mem'⟩
        · exact (min_le_right _ _).trans ahead'.1.le
        · exact lt_of_lt_of_le (show e'.start < new.stop by have := ahead.2; omega)
            (le_max_right _ _)
      refine ⟨fun e' mem' ahead' => onlyE e' mem' ahead' ▸ same, ?_, .inl ⟨e, mem, ahead⟩⟩
      intro e₁ mem₁ ahead₁ e₂ mem₂ ahead₂
      rw [onlyE e₁ mem₁ ahead₁, onlyE e₂ mem₂ ahead₂]
  · rw [eq] at done
    refine ⟨fun e' mem' ahead' => absurd ahead' (noneAhead e' mem'),
      fun e' mem' ahead' => absurd ahead' (noneAhead e' mem'), .inr ⟨⟨e, mem, left⟩, ?_⟩⟩
    intro e' mem' ends same
    obtain rfl := only e' mem' ends
    rw [if_pos ⟨ends, same⟩] at done
    cases done
  · rw [eq] at done
    cases done

end

/-! ### The whole create -/

variable {add : LuSeqRange}

/-- `fld_server_create` succeeds, keeps the ranges disjoint, and changes the answers inside the new one
only. -/
def CreateLaw (index : FldIndex) (add : LuSeqRange) : Prop :=
  ∃ created, fldServerCreate index add = .ok created ∧ created.rc = 0 ∧
    created.index.recs.Pairwise Apart ∧
    ∀ seq, answer created.index seq =
      if rangeWithin add seq then some (add.index, add.flags) else answer index seq

/-- Stored ranges that meet the new one have its location. -/
def Compatible (recs : List LuSeqRange) (add : LuSeqRange) : Prop :=
  ∀ e ∈ recs, ¬ Apart add e → rangeSameLoc add e

/-- The range found at the start of the new one covers it, or ends there with the same location. -/
abbrev JoinsLeft (add erange : LuSeqRange) : Prop :=
  rangeWithin erange add.start ∨ (add.start = erange.stop ∧ rangeSameLoc add erange)

/-- The new range with the start that the merge on the left gives it. -/
def leftMerged (index : FldIndex) (add : LuSeqRange) : LuSeqRange :=
  if JoinsLeft add (dioLookup index add.start) then
    { add with start := (dioLookup index add.start).start }
  else add

/-- In an empty index the lookups see the record that the leaf still holds. -/
def LeafHarmless (leaf add : LuSeqRange) : Prop :=
  (leaf.start ≤ add.start ∧ add.stop < leaf.stop ∧ rangeSameLoc add leaf) ∨
    (leaf.stop ≤ leaf.start ∧ leaf.start ≤ add.start ∧
      ¬ (leaf.stop = add.start ∧ rangeSameLoc add leaf))

/-- A stored range covers the new one, or after the merge on the left at most one range is ahead, with
the same location, and if none is, a range on the left need not be merged. -/
def Mergeable (index : FldIndex) (add : LuSeqRange) : Prop :=
  (∃ e ∈ index.recs, e.start ≤ add.start ∧ add.stop < e.stop) ∨
    Finishable index.recs (leftMerged index add) ∨
    (index.recs = [] ∧ LeafHarmless index.leaf add)

/-- A create on an empty index: covered by the stale record, stored, or refused. -/
theorem fldServerCreate_empty (leaf add : LuSeqRange) (nonempty : add.start < add.stop) :
    (leaf.start ≤ add.start ∧ add.stop < leaf.stop ∧ rangeSameLoc add leaf ∧
      fldServerCreate ⟨[], leaf⟩ add = .ok ⟨0, ⟨[], leaf⟩, add⟩) ∨
    (leaf.stop ≤ add.start ∧ leaf.start ≤ add.start ∧
      ¬ (leaf.stop = add.start ∧ rangeSameLoc add leaf) ∧
      fldServerCreate ⟨[], leaf⟩ add = .ok ⟨0, ⟨[add], leaf⟩, add⟩) ∨
    (¬ LeafHarmless leaf add ∧
      ∀ created, fldServerCreate ⟨[], leaf⟩ add = .ok created → created.rc ≠ 0) := by
  have lookup : ∀ key, dioLookup ⟨[], leaf⟩ key = leaf := fun key => rfl
  obtain ⟨rc, failed, next⟩ :
      ∃ rc, rc ≠ 0 ∧ mergeNext ⟨[], leaf⟩ add leaf = .ok ⟨rc, ⟨[], leaf⟩, add⟩ := by
    unfold mergeNext
    split
    · exact ⟨enoent, by decide, rfl⟩
    · exact ⟨eio, by decide, rfl⟩
  have refused : ∀ {rc index range}, rc ≠ 0 → ∀ created,
      (.ok ⟨rc, index, range⟩ : Except FldFault Created) = .ok created → created.rc ≠ 0 := by
    rintro rc index range bad created ⟨⟩
    exact bad
  unfold fldServerCreate LeafHarmless
  simp only [fldIndexLookup, lookup, decide_eq_true_eq]
  by_cases conflict : rangeWithin leaf add.start ∧ ¬ rangeSameLoc add leaf
  · rw [if_pos conflict]
    exact .inr (.inr ⟨by unfold rangeWithin at conflict; omega, refused (by decide)⟩)
  rw [if_neg conflict]
  by_cases inside : rangeWithin leaf add.start ∧ add.stop < leaf.stop
  · grind
  rw [if_neg inside]
  by_cases joins : JoinsLeft add leaf
  · rw [if_pos joins]
    refine .inr (.inr ⟨?_, refused (show enoent ≠ 0 by decide)⟩)
    omega
  rw [if_neg joins]
  unfold createStepTwo
  simp only [fldIndexLookup, lookup, decide_eq_true_eq, next]
  split_ifs with hit past left after
  · exact .inr (.inr ⟨by omega, refused failed⟩)
  · exact .inr (.inr ⟨by omega, refused failed⟩)
  · refine .inr (.inl ⟨by omega, by omega, by omega, ?_⟩)
    unfold storeRange
    rw [if_pos nonempty.le]
    rfl
  · exact .inr (.inr ⟨by omega, by rintro created ⟨⟩⟩)
  · exact .inr (.inr ⟨by omega, by rintro created ⟨⟩⟩)

/-- A create on an empty index, where both lookups copy the stale record. -/
theorem create_law_empty (empty : index.recs = []) (nonempty : add.start < add.stop) :
    CreateLaw index add ↔ LeafHarmless index.leaf add := by
  obtain ⟨recs, leaf⟩ := index
  subst empty
  change CreateLaw ⟨[], leaf⟩ add ↔ LeafHarmless leaf add
  have old : ∀ seq, answer ⟨[], leaf⟩ seq =
      if rangeWithin leaf seq then some (leaf.index, leaf.flags) else none := fun seq => by
    show (if decide (rangeWithin leaf seq) = true then _ else _) = _
    simp only [decide_eq_true_eq]
    rfl
  have stored : Consistent [add] := Consistent.nil.cons nonempty (by simp)
  rcases fldServerCreate_empty leaf add nonempty with
    ⟨start, stop, same, eq⟩ | ⟨before, start, apart, eq⟩ | ⟨harmful, refused⟩
  · refine iff_of_true ⟨_, eq, rfl, .nil, fun seq => ?_⟩ (.inl ⟨start, stop, same⟩)
    rw [old]
    split_ifs with inLeaf inAdd inAdd
    · rw [same.1, same.2]
    · rfl
    · exact absurd ⟨start.trans inAdd.1, inAdd.2.trans stop⟩ inLeaf
    · rfl
  · have now : ∀ seq, answer ⟨[add], leaf⟩ seq =
        if rangeWithin add seq then some (add.index, add.flags) else none := fun seq => by
      refine Option.ext fun loc => ?_
      rw [answer_eq_some stored (by simp)]
      simp [Holds, eq_comm]
    constructor
    · rintro ⟨created, done, -, -, law⟩
      rw [eq] at done
      cases done
      -- an old answer of the stale record would be lost
      refine .inr ⟨not_lt.mp fun full => ?_, start, apart⟩
      have lost := law leaf.start
      have outside : ¬ rangeWithin add leaf.start := by omega
      rw [now, if_neg outside, if_neg outside, old, if_pos ⟨le_rfl, full⟩] at lost
      cases lost
    · intro harmless
      refine ⟨_, eq, rfl, pairwise_singleton _ _, fun seq => ?_⟩
      have none : ¬ rangeWithin leaf seq := by
        unfold LeafHarmless at harmless
        omega
      rw [now, old, if_neg none]
  · refine iff_of_false ?_ harmful
    rintro ⟨created, done, success, -⟩
    exact refused created done success

/-- With nothing left in the index the second step finds the range that was just merged. -/
theorem createStepTwo_emptied (full : e.start < e.stop) (start : new.start = e.start)
    (stop : e.stop ≤ new.stop) : createStepTwo ⟨[], e⟩ new = .error .leftOverlaps := by
  have lookup : dioLookup ⟨[], e⟩ new.stop = e := rfl
  have miss : ¬ rangeWithin e new.stop := by omega
  unfold createStepTwo fldIndexLookup
  simp only [lookup, decide_eq_true_eq]
  rw [if_neg miss, if_neg (not_not.mpr stop), if_pos]
  omega

theorem mergeable_iff_finishable (some : index.recs ≠ []) (nonempty : add.start < add.stop)
    (notInside : ∀ e ∈ index.recs, rangeWithin e add.start → e.stop ≤ add.stop) :
    Mergeable index add ↔ Finishable index.recs (leftMerged index add) := by
  refine ⟨?_, fun fin => .inr (.inl fin)⟩
  rintro (⟨e, mem, start, stop⟩ | fin | ⟨empty, -⟩)
  · have := notInside e mem ⟨start, nonempty.trans stop⟩
    omega
  · exact fin
  · exact absurd empty some

section

variable (ok : Consistent index.recs) (some : index.recs ≠ [])
  (compatible : Compatible index.recs add) (nonempty : add.start < add.stop)

include ok some compatible nonempty

/-- The first step: the new range is covered, merged with the range found, or nothing stored covers its
start. -/
theorem fldServerCreate_cases :
    (∃ e ∈ index.recs, rangeWithin e add.start ∧ rangeSameLoc add e ∧ add.stop < e.stop ∧
      fldServerCreate index add = .ok ⟨0, index, add⟩) ∨
    (∃ e ∈ index.recs, JoinsLeft add e ∧ rangeSameLoc add e ∧ e.stop ≤ add.stop ∧
      (∀ r ∈ index.recs, rangeWithin r add.start → r = e) ∧
      leftMerged index add = mergeRange add e ∧
      fldServerCreate index add =
        createStepTwo ⟨index.recs.filter (·.start ≠ e.start), e⟩ (mergeRange add e)) ∨
    ((∀ e ∈ index.recs, ¬ rangeWithin e add.start) ∧ leftMerged index add = add ∧
      fldServerCreate index add = createStepTwo index add) := by
  have inRecs := dioLookup_mem some add.start
  have sameLoc : rangeWithin (dioLookup index add.start) add.start →
      rangeSameLoc add (dioLookup index add.start) := fun inside =>
    compatible _ inRecs fun apart => apart add.start ⟨⟨le_rfl, nonempty⟩, inside⟩
  have covered : ∀ e ∈ index.recs, rangeWithin e add.start → dioLookup index add.start = e :=
    fun e mem inside => dioLookup_within ok mem inside
  have full := ok.nonempty _ inRecs
  have deleted := dioDelete_stored ok inRecs
  unfold fldServerCreate leftMerged fldIndexLookup
  generalize dioLookup index add.start = e at *
  simp only [decide_eq_true_eq]
  rw [if_neg fun conflict => conflict.2 (sameLoc conflict.1)]
  by_cases inside : rangeWithin e add.start ∧ add.stop < e.stop
  · exact .inl ⟨e, inRecs, inside.1, sameLoc inside.1, inside.2, if_pos inside⟩
  rw [if_neg inside]
  by_cases joins : JoinsLeft add e
  · refine .inr (.inl ⟨e, inRecs, joins, joins.elim sameLoc (·.2), ?_, ?_, ?_, ?_⟩)
    · omega
    · exact fun r mem inside' => (covered r mem inside').symm
    · rw [if_pos joins]
      unfold mergeRange
      have left : e.start ≤ add.start := by omega
      have stop : e.stop ≤ add.stop := by omega
      rw [min_eq_left left, max_eq_right stop]
    · rw [if_pos joins, deleted]
  · grind

/-- The answers after a create, from what the ranges hold. -/
theorem Creates.law (creates : Creates index.recs add (fldServerCreate index add)) :
    CreateLaw index add := by
  obtain ⟨created, done, success, consistent, holds⟩ := creates
  have some' : created.index.recs ≠ [] := by
    obtain ⟨r, mem, -⟩ := (holds add.start (add.index, add.flags)).mpr
      (.inl ⟨⟨le_rfl, nonempty⟩, rfl⟩)
    exact ne_nil_of_mem mem
  refine ⟨created, done, success, consistent.apart, fun seq => Option.ext fun loc => ?_⟩
  rw [answer_eq_some consistent some']
  refine (holds seq loc).trans ?_
  split
  · rename_i inside
    rw [Option.some.injEq]
    constructor
    · rintro (⟨-, rfl⟩ | ⟨r, mem, inside', rfl⟩)
      · rfl
      · have same := compatible r mem fun apart => apart seq ⟨inside, inside'⟩
        rw [same.1, same.2]
    · exact fun same => .inl ⟨inside, same.symm⟩
  · grind [answer_eq_some]

/-- When a create comes to its second step, that step decides. -/
theorem create_law_stepTwo {index₁ : FldIndex}
    (eq : fldServerCreate index add = createStepTwo index₁ new)
    (ready : Uncovered index₁.recs new)
    (refused : index₁.recs = [] → createStepTwo index₁ new = .error .leftOverlaps)
    (content : ∀ seq loc, Holds (new :: index₁.recs) seq loc ↔
      (rangeWithin add seq ∧ loc = (add.index, add.flags)) ∨ Holds index.recs seq loc) :
    CreateLaw index add ↔ Finishable index₁.recs new := by
  constructor
  · rintro ⟨created, done, success, apart, -⟩
    rw [eq] at done
    refine Finishable.of_createStepTwo ready (fun empty => ?_) done success apart
    rw [refused empty] at done
    cases done
  · intro fin
    obtain ⟨created, done, success, consistent, holds⟩ := createStepTwo_creates ready fin
    refine Creates.law ok some compatible nonempty
      ⟨created, eq.trans done, success, consistent, fun seq loc => ?_⟩
    rw [holds, ← content, holds_cons]

theorem create_law_merged (mem : e ∈ index.recs) (joins : JoinsLeft add e)
    (same : rangeSameLoc add e) (stop : e.stop ≤ add.stop)
    (eq : fldServerCreate index add =
      createStepTwo ⟨index.recs.filter (·.start ≠ e.start), e⟩ (mergeRange add e)) :
    CreateLaw index add ↔ Finishable index.recs (mergeRange add e) := by
  have full := ok.nonempty e mem
  have reach : e.start ≤ add.start ∧ add.start ≤ e.stop := by omega
  have start : (mergeRange add e).start = e.start := min_eq_left reach.1
  have stop' : (mergeRange add e).stop = add.stop := max_eq_right stop
  rw [← finishable_delete ok start.symm]
  refine create_law_stepTwo ok some compatible nonempty eq (.left ok mem reach.1) (fun none => ?_)
    fun seq loc => holds_merged ok mem same (within_mergeRange (by omega) reach.2)
  simp only at none
  rw [none]
  exact createStepTwo_emptied full start (by omega)

end

/-- The index update law holds exactly for the inputs that can be merged. -/
theorem create_law_iff (index : FldIndex) (add : LuSeqRange) (ok : Consistent index.recs)
    (nonempty : add.start < add.stop) (compatible : Compatible index.recs add) :
    CreateLaw index add ↔ Mergeable index add := by
  by_cases empty : index.recs = []
  · rw [create_law_empty empty nonempty]
    refine ⟨fun harmless => .inr (.inr ⟨empty, harmless⟩), ?_⟩
    rintro (⟨e, mem, -⟩ | fin | ⟨-, harmless⟩)
    · rw [empty] at mem
      cases mem
    · rcases fin.found with ⟨e, mem, -⟩ | ⟨⟨e, mem, -⟩, -⟩ <;>
      · rw [empty] at mem
        cases mem
    · exact harmless
  rcases fldServerCreate_cases ok empty compatible nonempty with
    ⟨e, mem, inside, same, stop, eq⟩ | ⟨e, mem, joins, same, stop, only, merged, eq⟩ |
    ⟨uncovered, merged, eq⟩
  · -- the new range is stored already
    refine iff_of_true ?_ (.inl ⟨e, mem, inside.1, stop⟩)
    refine Creates.law ok empty compatible nonempty ⟨_, eq, rfl, ok, fun seq loc => ?_⟩
    refine ⟨.inr, fun either => either.elim (fun both => ?_) fun held => held⟩
    refine ⟨e, mem, ⟨inside.1.trans both.1.1, both.1.2.trans stop⟩, ?_⟩
    rw [both.2, same.1, same.2]
  · grind [mergeable_iff_finishable, create_law_merged]
  · rw [mergeable_iff_finishable empty nonempty fun e mem inside =>
      absurd inside (uncovered e mem), merged]
    exact create_law_stepTwo ok empty compatible nonempty eq ⟨ok, nonempty, uncovered⟩
      (fun none => absurd none empty) fun seq loc => holds_cons

/-- A range next to one of the same server is merged with it. -/
theorem create_law_adjacent :
    CreateLaw ⟨[⟨1, 5, 0, 0⟩, ⟨5, 10, 1, 0⟩], ⟨1, 5, 0, 0⟩⟩ ⟨10, 20, 1, 0⟩ := by
  refine (create_law_iff _ _ ?_ (by decide) ?_).mpr (.inr (.inl ?_))
  · exact (Consistent.nil.cons (by decide) (by decide)).cons (by decide) (by decide)
  · intro e mem meet
    refine absurd (fun n both => ?_) meet
    simp only [mem_cons, not_mem_nil, or_false] at mem
    unfold rangeWithin at both
    rcases mem with rfl | rfl <;> simp only at both <;> omega
  · have none : ∀ e ∈ [(⟨1, 5, 0, 0⟩ : LuSeqRange), ⟨5, 10, 1, 0⟩], ¬ Ahead ⟨5, 20, 1, 0⟩ e := by
      unfold Ahead
      decide
    exact ⟨fun e mem ahead => absurd ahead (none e mem),
      fun e mem ahead => absurd ahead (none e mem), .inr (by decide)⟩

/-- Two ranges of one server inside a new one: the last is merged, and the other stays below. -/
theorem two_ranges_inside :
    Consistent [⟨1, 5, 0, 0⟩, ⟨10, 20, 1, 0⟩, ⟨30, 40, 1, 0⟩] ∧
    Compatible [⟨1, 5, 0, 0⟩, ⟨10, 20, 1, 0⟩, ⟨30, 40, 1, 0⟩] ⟨5, 50, 1, 0⟩ ∧
    (fldServerCreate ⟨[⟨1, 5, 0, 0⟩, ⟨10, 20, 1, 0⟩, ⟨30, 40, 1, 0⟩], ⟨1, 5, 0, 0⟩⟩
      ⟨5, 50, 1, 0⟩ = .ok ⟨0, ⟨[⟨5, 50, 1, 0⟩, ⟨1, 5, 0, 0⟩, ⟨10, 20, 1, 0⟩], ⟨30, 40, 1, 0⟩⟩,
        ⟨5, 50, 1, 0⟩⟩) ∧
    ¬ CreateLaw ⟨[⟨1, 5, 0, 0⟩, ⟨10, 20, 1, 0⟩, ⟨30, 40, 1, 0⟩], ⟨1, 5, 0, 0⟩⟩
      ⟨5, 50, 1, 0⟩ := by
  refine ⟨?_, ?_, by decide, ?_⟩
  · exact ((Consistent.nil.cons (by decide) (by decide)).cons (by decide) (by decide)).cons
      (by decide) (by decide)
  · intro e mem meet
    simp only [mem_cons, not_mem_nil, or_false] at mem
    rcases mem with rfl | rfl | rfl
    · refine absurd (fun n both => ?_) meet
      unfold rangeWithin at both
      simp only at both
      omega
    · decide
    · decide
  · rintro ⟨created, done, -, apart, -⟩
    cases done
    exact (pairwise_cons.mp apart).1 ⟨10, 20, 1, 0⟩ (by decide) 10 (by decide)

/-! ### Refused creates -/

/-- A create that answers `-EIO` leaves the entries of the index as they were. -/
def RejectKeeps (index : FldIndex) (add : LuSeqRange) : Prop :=
  ∀ created, fldServerCreate index add = .ok created → created.rc = eio →
    ∀ r, r ∈ created.index.recs ↔ r ∈ index.recs

/-- The new range goes on a stored one of its location that covers its start or ends there. -/
def MergesLeft (recs : List LuSeqRange) (add left : LuSeqRange) : Prop :=
  left ∈ recs ∧ rangeSameLoc add left ∧ (rangeWithin left add.start ∧ left.stop ≤ add.stop ∨
    left.stop = add.start ∧ ∀ e ∈ recs, ¬ rangeWithin e add.start)

/-- If the new range goes on a stored one, the last range inside both or where they end has the same
location. -/
def RejectSafe (recs : List LuSeqRange) (add : LuSeqRange) : Prop :=
  ∀ left, MergesLeft recs add left → ∀ next ∈ recs, Ahead (mergeRange add left) next →
    (∀ e ∈ recs, Ahead (mergeRange add left) e → e.start ≤ next.start) → rangeSameLoc add next

/-- The index that the merge with a stored range leaves to the second step. -/
def FldIndex.without (index : FldIndex) (left : LuSeqRange) : FldIndex :=
  ⟨index.recs.filter (·.start ≠ left.start), left⟩

variable {index : FldIndex} {add new left next : LuSeqRange} {created : Created}

section

variable (rejected : created.rc = eio)

include rejected

theorem storeRange_accepts : storeRange index new ≠ .ok created := by
  unfold storeRange
  split
  · split
    · rintro ⟨⟩
      cases rejected
    · nofun
  · nofun

theorem mergeNext_rejects (done : mergeNext index new next = .ok created) :
    created.index = index := by
  unfold mergeNext at done
  split at done
  · split at done
    · exact (storeRange_accepts rejected done).elim
    · cases done
      cases rejected
  · cases done
    rfl

/-- The second step refuses a range without a change to the index. -/
theorem createStepTwo_rejects (done : createStepTwo index new = .ok created) :
    created.index = index := by
  unfold createStepTwo at done
  dsimp only at done
  split_ifs at done
  · exact mergeNext_rejects rejected done
  · exact mergeNext_rejects rejected done
  · exact (storeRange_accepts rejected done).elim

end

section

variable (ok : Consistent index.recs)

include ok

theorem MergesLeft.lookup (merges : MergesLeft index.recs add left) :
    dioLookup index add.start = left := by
  obtain ⟨mem, _, ⟨inside, _⟩ | ⟨touches, uncovered⟩⟩ := merges
  · exact dioLookup_within ok mem inside
  · have full := ok.nonempty left mem
    obtain ⟨found, below, last⟩ := @dioLookup_below index add.start left mem (by omega)
    have after := last left mem (by omega)
    have missed := uncovered _ found
    have full' := ok.nonempty _ found
    by_contra differ
    have apart := mt (ok.start_inj mem found) (Ne.symm differ)
    have := ok.ordered mem found (by omega)
    omega

theorem MergesLeft.create (merges : MergesLeft index.recs add left) :
    fldServerCreate index add = createStepTwo (index.without left) (mergeRange add left) := by
  have found := merges.lookup ok
  obtain ⟨mem, same, place⟩ := merges
  have deleted := dioDelete_stored ok mem
  unfold fldServerCreate fldIndexLookup
  simp only [found, decide_eq_true_eq]
  rw [if_neg fun conflict => conflict.2 same, if_neg, if_pos, deleted]
  · rfl
  · exact place.imp And.left fun touches => ⟨touches.1.symm, same⟩
  · omega

/-- A create that merges nothing on the left is refused without a change to the index. -/
theorem create_rejects (alone : ∀ left, ¬ MergesLeft index.recs add left)
    (done : fldServerCreate index add = .ok created) (rejected : created.rc = eio) :
    created.index = index := by
  unfold fldServerCreate fldIndexLookup at done
  simp only [decide_eq_true_eq] at done
  split_ifs at done with conflict inside joins
  · cases done
    rfl
  · cases done
    rfl
  · by_cases empty : index.recs = []
    · rw [dioDelete, empty] at done
      cases done
      cases rejected
    · refine absurd ⟨dioLookup_mem empty add.start, ?_, ?_⟩ (alone _)
      · exact joins.elim (fun hit => not_not.mp fun differs => conflict ⟨hit, differs⟩) And.right
      · refine joins.imp (fun hit => ⟨hit, by omega⟩) fun touches => ⟨touches.1.symm, ?_⟩
        intro e mem hit
        rw [dioLookup_within ok mem hit] at touches
        omega
  · exact createStepTwo_rejects rejected done

end

/-- A refused create changes nothing exactly if the range ahead of the merge on the left has the
location of the new one. -/
theorem rejected_create_keeps_iff (index : FldIndex) (add : LuSeqRange)
    (ok : Consistent index.recs) : RejectKeeps index add ↔ RejectSafe index.recs add := by
  by_cases alone : ∀ left, ¬ MergesLeft index.recs add left
  · refine iff_of_true (fun created done rejected r => ?_) fun left merges => (alone left merges).elim
    rw [create_rejects ok alone done rejected]
  obtain ⟨left, merges⟩ := not_forall_not.mp alone
  have eq := merges.create ok
  have start : left.start ≤ add.start := by
    have full := ok.nonempty left merges.1
    have place := merges.2.2
    omega
  have ready : Uncovered (index.without left).recs (mergeRange add left) :=
    .left ok merges.1 start
  have first : (mergeRange add left).start = left.start := min_eq_left start
  have stays : ∀ e ∈ index.recs, Ahead (mergeRange add left) e →
      e ∈ (index.without left).recs := fun e mem ahead =>
    List.mem_filter.mpr ⟨mem, decide_eq_true (first ▸ ahead.1.ne')⟩
  -- the second step decides: the range on the left is gone already
  have decides : RejectKeeps index add ↔ ∀ created,
      createStepTwo (index.without left) (mergeRange add left) = .ok created → created.rc ≠ eio := by
    constructor
    · intro keeps created done rejected
      have kept := (keeps created (eq.trans done) rejected left).mpr merges.1
      simp [createStepTwo_rejects rejected done, FldIndex.without] at kept
    · exact fun none created done rejected => (none created (eq.symm.trans done) rejected).elim
  have safe : RejectSafe index.recs add ↔ ∀ next ∈ index.recs, Ahead (mergeRange add left) next →
      (∀ e ∈ index.recs, Ahead (mergeRange add left) e → e.start ≤ next.start) →
        rangeSameLoc add next := by
    refine ⟨fun safe => safe left merges, fun safe left' merges' => ?_⟩
    rwa [← merges'.lookup ok, merges.lookup ok]
  rw [decides, safe]
  by_cases some : (index.without left).recs = []
  · refine iff_of_true (fun created done => ?_) fun next mem ahead => ?_
    · rw [show index.without left = ⟨[], left⟩ from congrArg (FldIndex.mk · left) some,
        createStepTwo_emptied (ok.nonempty left merges.1) first (le_max_left _ _)] at done
      cases done
    · exact absurd (some ▸ stays next mem ahead) List.not_mem_nil
  rcases createStepTwo_cases ready some with
    ⟨e, mem, ahead, last, step⟩ | ⟨noneAhead, e, _, _, _, step⟩ | ⟨above, step⟩
  · rw [step, mergeNext_ahead ready mem ahead]
    have inRecs := List.mem_of_mem_filter mem
    constructor
    · intro accepts next mem' ahead' last'
      have same : next = e := ok.start_inj mem' inRecs
        (le_antisymm (last next (stays next mem' ahead') ahead') (last' e inRecs ahead))
      by_contra differs
      refine accepts ⟨eio, _, _⟩ (if_neg ?_) rfl
      rwa [← same]
    · intro safe created done
      have same : rangeSameLoc (mergeRange add left) e :=
        safe e inRecs ahead fun r mem' ahead' => last r (stays r mem' ahead') ahead'
      rw [if_pos same] at done
      cases done
      nofun
  · refine iff_of_true (fun created done rejected => ?_) fun next mem ahead =>
      (noneAhead next (stays next mem ahead) ahead).elim
    rw [step] at done
    split_ifs at done
    exact storeRange_accepts rejected done
  · refine iff_of_true (fun created done => ?_) fun next mem ahead => ?_
    · rw [step] at done
      cases done
    · exact absurd ahead.2 (not_le.mpr (above next (stays next mem ahead)))

/-- A range that meets one of another server is refused; that of its own server does not reach its start. -/
theorem rejected_create_keeps_apart :
    (fldServerCreate ⟨[⟨0, 4, 1, 0⟩, ⟨10, 20, 2, 0⟩], ⟨0, 4, 1, 0⟩⟩ ⟨5, 15, 1, 0⟩).map Created.rc =
        .ok eio ∧
      RejectKeeps ⟨[⟨0, 4, 1, 0⟩, ⟨10, 20, 2, 0⟩], ⟨0, 4, 1, 0⟩⟩ ⟨5, 15, 1, 0⟩ := by
  refine ⟨rfl, (rejected_create_keeps_iff _ _ ?_).mpr fun left merges => ?_⟩
  · exact (Consistent.nil.cons (by decide) (by decide)).cons (by decide) (by decide)
  · obtain ⟨mem, same, place⟩ := merges
    rcases mem_pair.mp mem with rfl | rfl
    · exact absurd place (by decide)
    · exact absurd same (by decide)

/-- The new range is merged on the left and then meets another server: it is refused, and the range on
the left is lost. -/
theorem rejected_create_loses_left :
    Consistent [⟨0, 5, 1, 0⟩, ⟨10, 20, 2, 0⟩] ∧
    fldServerCreate ⟨[⟨0, 5, 1, 0⟩, ⟨10, 20, 2, 0⟩], ⟨0, 5, 1, 0⟩⟩ ⟨5, 15, 1, 0⟩ =
      .ok ⟨eio, ⟨[⟨10, 20, 2, 0⟩], ⟨0, 5, 1, 0⟩⟩, ⟨0, 15, 1, 0⟩⟩ ∧
    ¬ RejectKeeps ⟨[⟨0, 5, 1, 0⟩, ⟨10, 20, 2, 0⟩], ⟨0, 5, 1, 0⟩⟩ ⟨5, 15, 1, 0⟩ := by
  refine ⟨?_, by decide, fun keeps => ?_⟩
  · exact (Consistent.nil.cons (by decide) (by decide)).cons (by decide) (by decide)
  · exact absurd ((keeps _ rfl rfl ⟨0, 5, 1, 0⟩).mpr (by decide)) (by decide)

end Fld
