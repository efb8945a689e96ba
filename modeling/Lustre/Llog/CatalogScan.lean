/-
Module: Lustre.Llog.CatalogScan
Purpose: What the scans over a catalog visit, in which order, and what `startcat` selects.
Trusted boundary: none
-/
import Lustre.Llog.CatalogHead
import Mathlib.Data.List.Sort
import Mathlib.Data.List.TakeWhile

namespace Llog

open List Run

variable {cat : Catalog} {p startcat : Nat} {s : CatState} {ps : List Nat} {h t : Nat}
  {recs : List LlogRec} {log : Nat × LlogLogid} {logs : List (Nat × LlogLogid)} {σ : Type}

/-! ### Passes and scans -/

/-- The logs in a range of slots. -/
def inRange (first last : Nat) (live : List (Nat × LlogLogid)) : List (Nat × LlogLogid) :=
  live.filter fun log => first ≤ log.1 ∧ log.1 ≤ last

/-- A pass over the slots that `cd` gives meets the logs `logs`, in the order of their slots. -/
structure Pass (s : CatState) (cd : Option CatData) (logs : List (Nat × LlogLogid)) : Prop where
  range : CatData.start cd ≤ CatData.last cd + 1
  bound : CatData.last cd < llogBitmapSize
  meets : inRange (CatData.start cd) (CatData.last cd) s.live = logs
  sorted : logs.Pairwise fun log other => log.1 < other.1

/-- The logs in slots behind the head. -/
def highLogs (s : CatState) : List (Nat × LlogLogid) :=
  s.live.filter fun log => s.cat.catIdx < log.1

/-- The logs in slots up to the head. -/
def lowLogs (s : CatState) : List (Nat × LlogLogid) :=
  s.live.filter fun log => !decide (s.cat.catIdx < log.1)

/-- The caller's data after visits to logs from their first record on. -/
def visitAll (visit : LlogLogid → Nat → σ → Int × σ) (data : σ) (logs : List (Nat × LlogLogid)) : σ :=
  logs.foldl (fun data log => (visit log.2 0 data).2) data

/-- The caller's data after visits to logs from their last record back. -/
def reverseVisitAll (rvisit : LlogLogid → σ → Int × σ) (data : σ) (logs : List (Nat × LlogLogid)) : σ :=
  logs.foldl (fun data log => (rvisit log.2 data).2) data

/-- The logs from the one in the slot `startcat` on, or all of them. -/
def logsFrom (startcat : Nat) (live : List (Nat × LlogLogid)) : List (Nat × LlogLogid) :=
  if startcat = 0 then live else live.dropWhile fun log => log.1 ≠ startcat

/-- The condition on `startcat`: it is 0, the catalog does not wrap, or no log is on the other side of
the wrap. -/
def OneSided (s : CatState) (startcat : Nat) : Prop :=
  startcat = 0 ∨ s.cat.catIdx ≤ s.cat.log.lastIdx ∨
    ∀ log ∈ s.live, (s.cat.catIdx < log.1 ↔ s.cat.catIdx < startcat)

/-- A list whose members with a property come first. -/
theorem filter_append_rest {α : Type} {P : α → Bool} {l : List α}
    (first : l.Pairwise fun a b => P b = true → P a = true) :
    l.filter P ++ l.filter (fun a => !P a) = l := by
  induction l with
  | nil => rfl
  | cons a l ih =>
    obtain ⟨head, rest⟩ := pairwise_cons.mp first
    cases holds : P a with
    | true => simpa [holds] using ih rest
    | false =>
      have none : ∀ b ∈ l, P b = false := fun b mem => by
        cases later : P b with
        | false => rfl
        | true =>
          have := head b mem later
          rw [holds] at this
          cases this
      have empty : l.filter P = [] := filter_eq_nil_iff.mpr fun b mem => by simp [none b mem]
      have whole : l.filter (fun a => !P a) = l :=
        filter_eq_self.mpr fun b mem => by simp [none b mem]
      simp [holds, empty, whole]

/-- In a list in the order of its slots the logs from a slot on are those with higher slots. -/
theorem dropWhile_eq_filter (sorted : logs.Pairwise fun log other => log.1 < other.1)
    (mem : startcat ∈ logs.map (·.1)) :
    (logs.dropWhile fun log => log.1 ≠ startcat) = logs.filter fun log => startcat ≤ log.1 := by
  induction logs with
  | nil => cases mem
  | cons log logs ih =>
    obtain ⟨head, rest⟩ := pairwise_cons.mp sorted
    by_cases here : log.1 = startcat
    · have whole : (log :: logs).filter (fun log => startcat ≤ log.1) = log :: logs :=
        filter_eq_self.mpr (forall_mem_cons.mpr ⟨by simp [here], fun other mem => by
          have := head other mem
          simp only [decide_eq_true_eq]
          omega⟩)
      rw [whole]
      simp [here]
    · grind [dropWhile_cons_of_pos, filter_cons_of_neg]

variable {find : LlogLogid → Int} {visit : LlogLogid → Nat → σ → Int × σ} {rvisit : LlogLogid → σ → Int × σ}

theorem llogCatProcessCb_logRec (found : find log.2 = 0) (startcat : Nat) (scan : CatScan σ) :
    llogCatProcessCb find visit startcat scan (logRec log).cells =
      if log.1 < startcat then (0, scan)
      else ((visit log.2 scan.startidx scan.data).1, ⟨0, (visit log.2 scan.startidx scan.data).2⟩) := by
  have name : logidOf (logRec log).cells = some (log.1, LlogOpType.llogLogid.value, log.2) := rfl
  unfold llogCatProcessCb
  rw [name]
  dsimp only
  rw [if_neg (by simp), if_neg (by simp [found])]

theorem called_cat (found : ∀ log ∈ logs, find log.2 = 0) (startcat : Nat) (data : σ) :
    called (llogCatProcessCb find visit startcat) ⟨0, data⟩ (logs.map logRec) =
      ⟨0, visitAll visit data (logs.filter fun log => startcat ≤ log.1)⟩ := by
  unfold called visitAll
  induction logs generalizing data with
  | nil => rfl
  | cons log logs ih =>
    obtain ⟨first, rest⟩ := forall_mem_cons.mp found
    rw [map_cons, foldl_cons, llogCatProcessCb_logRec first]
    split_ifs with below
    · rw [filter_cons_of_neg (by simpa using below)]
      exact ih rest data
    · rw [filter_cons_of_pos (by simpa using below), foldl_cons]
      exact ih rest _

theorem llogCatReverseProcessCb_logRec (found : find log.2 = 0) (data : σ) :
    llogCatReverseProcessCb find rvisit data (logRec log).cells = rvisit log.2 data := by
  have name : logidOf (logRec log).cells = some (log.1, LlogOpType.llogLogid.value, log.2) := rfl
  unfold llogCatReverseProcessCb
  rw [name]
  dsimp only
  rw [if_neg (by simp), if_neg (by simp [found])]

theorem called_cat_reverse (found : ∀ log ∈ logs, find log.2 = 0) (data : σ) :
    called (llogCatReverseProcessCb find rvisit) data (logs.map logRec).reverse =
      reverseVisitAll rvisit data logs.reverse := by
  have found' : ∀ log ∈ logs.reverse, find log.2 = 0 := fun log mem =>
    found log (mem_reverse.mp mem)
  rw [← map_reverse]
  generalize logs.reverse = logs at found'
  unfold called reverseVisitAll
  induction logs generalizing data with
  | nil => rfl
  | cons log logs ih =>
    simp_all [map_cons, foldl_cons, llogCatReverseProcessCb_logRec]

section

variable (ring : Ringed cat ps h t)

include ring

theorem Ringed.last_used (used : p ∈ ps) : cat.log.lastIdx = slotOf t := by
  have inside := ring.inside p used
  rw [ring.last, lastSlot, if_neg (by omega)]

/-- Without a wrap the slots are in the order of the positions. -/
theorem Ringed.ascending (straight : cat.catIdx ≤ cat.log.lastIdx) {q : Nat}
    (usedP : p ∈ ps) (usedQ : q ∈ ps) (lt : p < q) : slotOf p < slotOf q := by
  have insideP := ring.inside p usedP
  have insideQ := ring.inside q usedQ
  have room := ring.room
  have full := ring.full
  have head := ring.head
  have last := ring.last_used usedP
  unfold HeadAt at head
  unfold slotOf at *
  rw [slots_eq] at *
  omega

/-- With a wrap the slots behind the head come first. -/
theorem Ringed.wrapped (wraps : cat.catIdx > cat.log.lastIdx) {q : Nat}
    (usedP : p ∈ ps) (usedQ : q ∈ ps) (lt : p < q) :
    (cat.catIdx < slotOf q → cat.catIdx < slotOf p) ∧
      ((cat.catIdx < slotOf p ↔ cat.catIdx < slotOf q) → slotOf p < slotOf q) := by
  have insideP := ring.inside p usedP
  have insideQ := ring.inside q usedQ
  have room := ring.room
  have head := ring.head
  unfold HeadAt at head
  unfold slotOf at *
  rw [slots_eq] at *
  constructor <;> omega

/-- With a wrap every log is behind the head or not behind the newest one. -/
theorem Ringed.sides (wraps : cat.catIdx > cat.log.lastIdx) (used : p ∈ ps) :
    cat.catIdx < slotOf p ↔ ¬ slotOf p ≤ cat.log.lastIdx := by
  have inside := ring.inside p used
  have room := ring.room
  have head := ring.head
  have last := ring.last_used used
  unfold HeadAt at head
  unfold slotOf at *
  rw [slots_eq] at *
  omega

end

section

variable (lives : Lives s ps h t)

include lives

/-- What holds for the slots of positions holds for the logs. -/
theorem Lives.ordered {R : Nat → Nat → Prop}
    (holds : ∀ p ∈ ps, ∀ q ∈ ps, p < q → R (slotOf p) (slotOf q)) :
    s.live.Pairwise fun log other => R log.1 other.1 := by
  have slots : (ps.map slotOf).Pairwise R := by
    rw [pairwise_map]
    exact lives.sorted.imp_of_mem fun memP memQ lt => holds _ memP _ memQ lt
  rw [← lives.slots] at slots
  exact pairwise_map.mp slots

theorem Lives.bit {i : Nat} (positive : 1 ≤ i) :
    s.cat.log.bitmap i = true ↔ i ∈ s.live.map (·.1) := by
  rw [lives.ring.bits, lives.slots, mem_map]
  have : i ≠ 0 := Nat.ne_of_gt positive
  simp [this]

theorem Lives.slot_bounds (mem : log ∈ s.live) : 1 ≤ log.1 ∧ log.1 ≤ Llog.slots := by
  obtain ⟨p, -, same⟩ := lives.position (mem_map_of_mem mem)
  rw [← same]
  exact ⟨slotOf_pos p, slotOf_le p⟩

/-- Without a wrap one pass is about all logs. -/
theorem Lives.passAll (straight : s.cat.catIdx ≤ s.cat.log.lastIdx) : Pass s none s.live where
  range := by decide
  bound := by decide
  meets := filter_eq_self.mpr fun _ mem => decide_eq_true (lives.slot_bounds mem)
  sorted := lives.ordered fun _ usedP _ usedQ lt => lives.ring.ascending straight usedP usedQ lt

section

variable (wraps : s.cat.catIdx > s.cat.log.lastIdx)

include wraps

/-- With a wrap the logs behind the head are older than the others, each part in the order of its slots. -/
theorem Lives.halves :
    highLogs s ++ lowLogs s = s.live ∧
      ((highLogs s).Pairwise fun log other => log.1 < other.1) ∧
      (lowLogs s).Pairwise fun log other => log.1 < other.1 := by
  have order : s.live.Pairwise fun log other =>
      (s.cat.catIdx < other.1 → s.cat.catIdx < log.1) ∧
        ((s.cat.catIdx < log.1 ↔ s.cat.catIdx < other.1) → log.1 < other.1) :=
    lives.ordered (R := fun i j => (s.cat.catIdx < j → s.cat.catIdx < i) ∧
        ((s.cat.catIdx < i ↔ s.cat.catIdx < j) → i < j))
      fun p usedP q usedQ lt => lives.ring.wrapped wraps usedP usedQ lt
  refine ⟨filter_append_rest (order.imp fun both => ?_), ?_, ?_⟩
  · simpa using both.1
  · refine (order.filter _).imp_of_mem fun mem mem' both => both.2 ?_
    have left := (mem_filter.mp mem).2
    have right := (mem_filter.mp mem').2
    simp only [decide_eq_true_eq] at left right
    exact ⟨fun _ => right, fun _ => left⟩
  · refine (order.filter _).imp_of_mem fun mem mem' both => both.2 ?_
    have left := (mem_filter.mp mem).2
    have right := (mem_filter.mp mem').2
    simp only [Bool.not_eq_true', decide_eq_false_iff_not] at left right
    exact ⟨fun high => absurd high left, fun high => absurd high right⟩

/-- With a wrap the pass over the high slots. -/
theorem Lives.passHigh : Pass s (some ⟨s.cat.catIdx, 0⟩) (highLogs s) where
  range := Nat.succ_le_succ lives.ring.head_le
  bound := show Llog.slots < llogBitmapSize by decide
  sorted := (lives.halves wraps).2.1
  meets := by
    refine filter_congr fun log mem => ?_
    have bounds := lives.slot_bounds mem
    exact decide_eq_decide.mpr ⟨fun inside => inside.1, fun above => ⟨above, bounds.2⟩⟩

/-- With a wrap the pass over the low slots. -/
theorem Lives.passLow : Pass s (some ⟨0, s.cat.log.lastIdx⟩) (lowLogs s) where
  range := Nat.le_add_left 1 _
  bound := by
    have bound := lives.ring.last_le
    have top : llogBitmapBytes * 8 - 1 < llogBitmapSize := by decide
    dsimp only [CatData.last]
    rw [bitmapSize_eq] at *
    split_ifs <;> omega
  sorted := (lives.halves wraps).2.2
  meets := by
    refine filter_congr fun log mem => ?_
    obtain ⟨p, used, same⟩ := lives.position (mem_map_of_mem mem)
    have bounds := lives.slot_bounds mem
    have sides := lives.ring.sides wraps used
    have nonzero : s.cat.log.lastIdx ≠ 0 := by
      rw [lives.ring.last_used used]
      exact ne_of_gt (slotOf_pos t)
    have top : CatData.last (some ⟨0, s.cat.log.lastIdx⟩) = s.cat.log.lastIdx := if_pos nonzero
    have start : CatData.start (some ⟨0, s.cat.log.lastIdx⟩) = 1 := rfl
    rw [top, start, ← decide_not]
    exact decide_eq_decide.mpr (by omega)

/-- What a scan visits and what it should visit, for `startcat` behind the head. -/
theorem Lives.from_high (mem : startcat ∈ s.live.map (·.1)) (high : s.cat.catIdx < startcat) :
    ∃ logs, (s.live.filter fun log => startcat ≤ log.1) = logs ∧
      (s.live.dropWhile fun log => log.1 ≠ startcat) = logs ++ lowLogs s := by
  obtain ⟨whole, sorted, -⟩ := lives.halves wraps
  have memHigh : startcat ∈ (highLogs s).map (·.1) := by
    obtain ⟨log, live, rfl⟩ := mem_map.mp mem
    exact mem_map_of_mem (mem_filter.mpr ⟨live, decide_eq_true high⟩)
  have none : (lowLogs s).filter (fun log => startcat ≤ log.1) = [] :=
    filter_eq_nil_iff.mpr fun log memLow => by
      have low := (mem_filter.mp memLow).2
      simp only [Bool.not_eq_true', decide_eq_false_iff_not] at low
      simp only [decide_eq_true_eq]
      omega
  have start := dropWhile_eq_filter sorted memHigh
  have some : ((highLogs s).dropWhile fun log => log.1 ≠ startcat) ≠ [] := fun empty => by
    obtain ⟨log, memLog, same⟩ := mem_map.mp memHigh
    have : log ∈ (highLogs s).filter fun log => startcat ≤ log.1 :=
      mem_filter.mpr ⟨memLog, by simp [same]⟩
    rw [← start, empty] at this
    cases this
  refine ⟨(highLogs s).filter fun log => startcat ≤ log.1, ?_, ?_⟩
  · conv_lhs => rw [← whole]
    rw [filter_append, none, append_nil]
  · conv_lhs => rw [← whole]
    rw [dropWhile_append, if_neg (by simpa using some), start]

/-- The same for `startcat` up to the head. -/
theorem Lives.from_low (mem : startcat ∈ s.live.map (·.1)) (low : ¬ s.cat.catIdx < startcat) :
    ∃ logs, (s.live.filter fun log => startcat ≤ log.1) = highLogs s ++ logs ∧
      (s.live.dropWhile fun log => log.1 ≠ startcat) = logs := by
  obtain ⟨whole, -, sorted⟩ := lives.halves wraps
  have above : ∀ log ∈ highLogs s, s.cat.catIdx < log.1 := fun log memHigh => by
    simpa using (mem_filter.mp memHigh).2
  have memLow : startcat ∈ (lowLogs s).map (·.1) := by grind
  have all : (highLogs s).filter (fun log => startcat ≤ log.1) = highLogs s :=
    filter_eq_self.mpr fun log memHigh => by
      have := above log memHigh
      simp only [decide_eq_true_eq]
      omega
  have passed : ((highLogs s).dropWhile fun log => log.1 ≠ startcat) = [] :=
    dropWhile_eq_nil_iff.mpr fun log memHigh => by
      have := above log memHigh
      simp only [ne_eq, decide_not, Bool.not_eq_true', decide_eq_false_iff_not]
      omega
  refine ⟨(lowLogs s).filter fun log => startcat ≤ log.1, ?_, ?_⟩
  · conv_lhs => rw [← whole]
    rw [filter_append, all]
  · conv_lhs => rw [← whole]
    rw [dropWhile_append, passed, isEmpty_nil, if_pos rfl, dropWhile_eq_filter sorted memLow]

end

/-- A scan meets the logs from `startcat` on under the condition, and a different number of logs
otherwise. -/
theorem Lives.selected (start : startcat = 0 ∨ startcat ∈ s.live.map (·.1)) :
    (OneSided s startcat →
      (s.live.filter fun log => startcat ≤ log.1) = logsFrom startcat s.live) ∧
    ((s.live.filter fun log => startcat ≤ log.1).length = (logsFrom startcat s.live).length →
      OneSided s startcat) := by
  unfold logsFrom
  by_cases zero : startcat = 0
  · refine ⟨fun _ => ?_, fun _ => .inl zero⟩
    rw [if_pos zero, zero]
    exact filter_eq_self.mpr fun log _ => by simp
  have mem := start.resolve_left zero
  rw [if_neg zero]
  by_cases straight : s.cat.catIdx ≤ s.cat.log.lastIdx
  · exact ⟨fun _ => (dropWhile_eq_filter (lives.passAll straight).sorted mem).symm,
      fun _ => .inr (.inl straight)⟩
  have wraps : s.cat.catIdx > s.cat.log.lastIdx := not_le.mp straight
  by_cases high : s.cat.catIdx < startcat
  · obtain ⟨logs, visited, wanted⟩ := lives.from_high wraps mem high
    rw [visited, wanted]
    constructor
    · intro side
      have sides := (side.resolve_left zero).resolve_left straight
      have none : lowLogs s = [] := filter_eq_nil_iff.mpr fun log live => by
        simpa using (sides log live).mpr high
      rw [none, append_nil]
    · intro same
      rw [length_append] at same
      have none : lowLogs s = [] := length_eq_zero_iff.mp (by omega)
      refine .inr (.inr fun log live => ⟨fun _ => high, fun _ => ?_⟩)
      simpa using filter_eq_nil_iff.mp none log live
  · obtain ⟨logs, visited, wanted⟩ := lives.from_low wraps mem high
    rw [visited, wanted]
    constructor
    · intro side
      have sides := (side.resolve_left zero).resolve_left straight
      have none : highLogs s = [] := filter_eq_nil_iff.mpr fun log live => by
        simpa using fun above => high ((sides log live).mp above)
      rw [none, nil_append]
    · intro same
      rw [length_append] at same
      have none : highLogs s = [] := length_eq_zero_iff.mp (by omega)
      refine .inr (.inr fun log live => ⟨fun above => ?_, fun above => absurd above high⟩)
      exact absurd (decide_eq_true above) (filter_eq_nil_iff.mp none log live)

variable (filed : Filed s t recs)

include filed

/-- A record whose bit is set is that of a log. -/
theorem Lives.record {rec : LlogRec} (mem : rec ∈ recs)
    (set : s.cat.log.bitmap rec.index = true) :
    ∃ log ∈ s.live, logRec log = rec := by
  have low := (filed.numbered.bounds mem).1
  obtain ⟨log, live, same⟩ := mem_map.mp ((lives.bit low).mp set)
  exact ⟨log, live, filed.numbered.unique (filed.live log live) mem same⟩

/-- The records that a pass is about are those of the logs in its range. -/
theorem Lives.wanted {first last : Nat} (positive : 1 ≤ first)
    (ascending : (inRange first last s.live).Pairwise fun log other => log.1 < other.1) :
    Llog.wanted s.cat.log.bitmap first last recs = (inRange first last s.live).map logRec := by
  have sorted : recs.Pairwise fun rec other => rec.index < other.index := by
    have : (recs.map (·.index)).Pairwise (· < ·) := by
      rw [filed.numbered]
      exact pairwise_lt_range'
    exact pairwise_map.mp this
  have left : (Llog.wanted s.cat.log.bitmap first last recs).Pairwise
      fun rec other => rec.index < other.index := sorted.filter _
  have right : ((inRange first last s.live).map logRec).Pairwise
      fun rec other => rec.index < other.index := pairwise_map.mpr ascending
  have distinct : ∀ {l : List LlogRec}, (l.Pairwise fun rec other => rec.index < other.index) →
      l.Nodup := fun sorted => sorted.imp fun lt same => absurd lt (by rw [same]; exact lt_irrefl _)
  refine List.Perm.eq_of_pairwise (fun a b _ _ lt gt => absurd lt (lt_asymm gt)) left right
    ((perm_ext_iff_of_nodup (distinct left) (distinct right)).mpr fun rec => ?_)
  unfold Llog.wanted inRange
  rw [mem_filter, mem_map]
  simp only [Bool.and_eq_true, decide_eq_true_eq, mem_filter]
  constructor
  · rintro ⟨mem, inside, set⟩
    obtain ⟨log, live, rfl⟩ := lives.record filed mem set
    exact ⟨log, ⟨live, inside⟩, rfl⟩
  · rintro ⟨log, ⟨live, inside⟩, rfl⟩
    have low : 1 ≤ log.1 := by omega
    exact ⟨filed.live log live, inside, (lives.bit low).mpr (mem_map_of_mem live)⟩

theorem Lives.covered {chunks : List (List LlogRec)} (flat : chunks.flatten = recs)
    {first last : Nat} (positive : 1 ≤ first) :
    Covered s.cat.log.bitmap first last chunks := by
  intro i low _ set
  obtain ⟨p, used, same⟩ := lives.position ((lives.bit (by omega)).mp set)
  have inside := lives.ring.inside p used
  have bound := slotOf_le p
  have small := slotOf_le_self (show 1 ≤ p by omega)
  rw [flat, filed.count, ← same]
  omega

section

variable {cb : LlogCb σ} {cd : Option CatData}
  (on : ∀ data, ∀ log ∈ s.live, (cb data (logRec log).cells).1 = 0) (pass : Pass s cd logs)

include on pass

/-- The file of a catalog as scans read it: every bit has its record, and the records of a pass are those
of its logs. -/
theorem Lives.chunks :
    ∃ chunks, GoesOnAt cb s.cat.log.bitmap chunks.flatten ∧ Chain s.cat.log.file chunks ∧
      Covered s.cat.log.bitmap (CatData.start cd) (CatData.last cd) chunks ∧
      Llog.wanted s.cat.log.bitmap (CatData.start cd) (CatData.last cd) chunks.flatten =
        logs.map logRec := by
  obtain ⟨chunks, chain, flat⟩ := chain_of_slots filed.slot filed.numbered filed.file
  have positive := CatData.start_pos cd
  have sorted := pass.sorted
  rw [← pass.meets] at sorted ⊢
  refine ⟨chunks, fun data rec mem set => ?_, chain, lives.covered filed flat positive, ?_⟩
  · rw [flat] at mem
    obtain ⟨log, live, rfl⟩ := lives.record filed mem set
    exact on data log live
  · rw [flat, lives.wanted filed positive sorted]

/-- A pass forward calls the callback on the records of its logs. -/
theorem Lives.process (stored : Bool) (data : σ) :
    ∃ scan, llogProcess cb stored s.cat.log data cd = .ok (0, scan) ∧ scan.log = s.cat.log ∧
      scan.data = called cb data (logs.map logRec) := by
  obtain ⟨chunks, goesOn, chain, covered, wanted⟩ := lives.chunks filed on pass
  rw [← wanted]
  exact llogProcess_calls goesOn chain data cd pass.range pass.bound covered stored

theorem Lives.reverse (data : σ) : llogReverseProcess cb s.cat.log data cd =
      .ok (0, called cb data (logs.map logRec).reverse) := by
  obtain ⟨chunks, goesOn, chain, covered, wanted⟩ := lives.chunks filed on pass
  rw [← wanted]
  exact llogReverseProcess_calls goesOn chain data cd pass.range pass.bound covered

end

/-- `llog_cat_process` visits the logs in slots from `startcat` on, in creation order. -/
theorem Lives.visits (found : ∀ log ∈ s.live, find log.2 = 0)
    (on : ∀ id startidx data, (visit id startidx data).1 = 0) (stored : Bool) (data : σ) (startcat : Nat) :
    llogCatProcess find visit stored s.cat data startcat 0 =
      .ok (0, visitAll visit data (s.live.filter fun log => startcat ≤ log.1)) := by
  have goesOn : ∀ scan, ∀ log ∈ s.live,
      (llogCatProcessCb find visit startcat scan (logRec log).cells).1 = 0 := by
    intro scan log mem
    rw [llogCatProcessCb_logRec (found log mem)]
    split_ifs
    · rfl
    · exact on _ _ _
  unfold llogCatProcess llogCatProcessFlags
  by_cases wraps : s.cat.catIdx > s.cat.log.lastIdx
  · obtain ⟨scan, first, same, data'⟩ :=
      lives.process filed goesOn (lives.passHigh wraps) stored ⟨0, data⟩
    obtain ⟨scan', second, -, data''⟩ :=
      lives.process filed goesOn (lives.passLow wraps) stored scan.data
    rw [data', ← called_append, ← map_append, (lives.halves wraps).1, called_cat found] at data''
    rw [if_pos wraps, first]
    dsimp only
    rw [if_neg (by simp), same, second]
    dsimp only
    rw [data'']
  · obtain ⟨scan, done, same, data'⟩ :=
      lives.process filed goesOn (lives.passAll (not_lt.mp wraps)) stored ⟨0, data⟩
    rw [if_neg wraps, done]
    dsimp only
    rw [data', called_cat found]

/-- `llog_cat_reverse_process` visits the logs in reverse creation order. -/
theorem Lives.reverseVisits (found : ∀ log ∈ s.live, find log.2 = 0)
    (on : ∀ id data, (rvisit id data).1 = 0) (data : σ) :
    llogCatReverseProcess find rvisit s.cat data =
      .ok (0, reverseVisitAll rvisit data s.live.reverse) := by
  have goesOn : ∀ data, ∀ log ∈ s.live,
      (llogCatReverseProcessCb find rvisit data (logRec log).cells).1 = 0 := by
    intro data log mem
    rw [llogCatReverseProcessCb_logRec (found log mem)]
    exact on _ _
  unfold llogCatReverseProcess
  by_cases wraps : s.cat.catIdx > s.cat.log.lastIdx
  · rw [if_pos wraps, lives.reverse filed goesOn (lives.passLow wraps)]
    dsimp only
    rw [if_neg (by simp), lives.reverse filed goesOn (lives.passHigh wraps), ← called_append,
      ← reverse_append, ← map_append, (lives.halves wraps).1, called_cat_reverse found]
  · rw [if_neg wraps, lives.reverse filed goesOn (lives.passAll (not_lt.mp wraps)),
      called_cat_reverse found]

end

/-! ### Runs -/

/-- The logs have their positions and their records. -/
structure Catalogued (s : CatState) (ps : List Nat) (h t : Nat) (recs : List LlogRec) : Prop where
  lives : Lives s ps h t
  filed : Filed s t recs
  empty : t = 0 → s.cat.log.file = []

theorem Catalogued.step (cat : Catalogued s ps h t recs) {op : CatOp} (tended : Tended s op) :
    ∃ s', catStep s op = .ok s' ∧ ∃ ps h t recs, Catalogued s' ps h t recs := by
  cases op with
  | newLog id io =>
    obtain ⟨s', step, result⟩ := cat.lives.newLog tended
    refine ⟨s', step, ?_⟩
    cases result with
    | same => exact ⟨ps, h, t, recs, cat⟩
    | added cat' file lives =>
      obtain ⟨recs', filed⟩ := cat.filed.newLog cat.lives cat.empty file lives
      exact ⟨_, _, _, recs', lives, filed, fun none => absurd none (Nat.succ_ne_zero t)⟩
  | destroy slot stored =>
    subst stored
    by_cases known : slot ∈ s.live.map (·.1)
    · obtain ⟨p, used, rfl⟩ := cat.lives.position known
      have inside := cat.lives.ring.inside p used
      obtain ⟨cat', h', step, lives, file, -⟩ := cat.lives.destroy used
      exact ⟨_, step, _, h', t, recs, lives, cat.filed.destroy file, fun none => by omega⟩
    · refine ⟨s, ?_, ps, h, t, recs, cat⟩
      rw [catStep, if_neg known]

theorem catalogued_run {ops : List CatOp} (tended : Meets catStep Tended noLogs ops) :
    ∃ s, run catStep noLogs ops = .ok s ∧ ∃ ps h t recs, Catalogued s ps h t recs := by
  refine run_ok (fun s op inv holds => ?_) ⟨[], 0, 0, [], noLogs_lives,
    ⟨fun none => absurd rfl none, nofun, rfl, rfl, nofun⟩, fun _ => rfl⟩
    tended
  obtain ⟨ps, h, t, recs, cat⟩ := inv
  exact cat.step holds

/-- `llog_cat_process` from `startcat` on visits the logs from there on, in creation order. -/
def ScansFrom (s : CatState) (startcat : Nat) : Prop :=
  ∀ (σ : Type) (find : LlogLogid → Int) (visit : LlogLogid → Nat → σ → Int × σ) (stored : Bool)
    (data : σ), (∀ log ∈ s.live, find log.2 = 0) →
    (∀ id startidx data, (visit id startidx data).1 = 0) →
    llogCatProcess find visit stored s.cat data startcat 0 =
      .ok (0, visitAll visit data (logsFrom startcat s.live))

/-- `llog_cat_reverse_process` visits the logs in reverse creation order. -/
def ScansBack (s : CatState) : Prop :=
  ∀ (σ : Type) (find : LlogLogid → Int) (visit : LlogLogid → σ → Int × σ) (data : σ),
    (∀ log ∈ s.live, find log.2 = 0) → (∀ id data, (visit id data).1 = 0) →
    llogCatReverseProcess find visit s.cat data = .ok (0, reverseVisitAll visit data s.live.reverse)

/-- A visit that counts. -/
def countVisit (_ : LlogLogid) (_ count : Nat) : Int × Nat := (0, count + 1)

theorem visitAll_count (count : Nat) (logs : List (Nat × LlogLogid)) :
    visitAll countVisit count logs = count + logs.length := by
  simp [visitAll, countVisit]

theorem Catalogued.scansFrom_iff (cat : Catalogued s ps h t recs)
    (start : startcat = 0 ∨ startcat ∈ s.live.map (·.1)) :
    ScansFrom s startcat ↔ OneSided s startcat := by
  obtain ⟨enough, needed⟩ := cat.lives.selected start
  constructor
  · intro scans
    have wanted := scans Nat (fun _ => 0) countVisit true 0 (fun _ _ => rfl) fun _ _ _ => rfl
    have visited : llogCatProcess (fun _ => 0) countVisit true s.cat 0 startcat 0 = .ok (0, _) :=
      cat.lives.visits cat.filed (fun _ _ => rfl) (fun _ _ _ => rfl) true 0 startcat
    rw [visited, visitAll_count, visitAll_count] at wanted
    have same := (Prod.mk.inj (Except.ok.inj wanted)).2
    exact needed (by omega)
  · intro side σ find visit stored data found on
    rw [cat.lives.visits cat.filed found on, enough side]

/-- In every state that tended operations lead to, `llog_cat_process` visits the logs from `startcat` on
in creation order exactly under the condition, and `llog_cat_reverse_process` all logs in the reverse
order. -/
theorem catalog_scan_order (ops : List CatOp) (tended : Meets catStep Tended noLogs ops) :
    ∃ s, run catStep noLogs ops = .ok s ∧ ScansBack s ∧
      ∀ startcat, startcat = 0 ∨ startcat ∈ s.live.map (·.1) →
        (ScansFrom s startcat ↔ OneSided s startcat) := by
  obtain ⟨s, ran, ps, h, t, recs, cat⟩ := catalogued_run tended
  exact ⟨s, ran, fun σ find visit data found on => cat.lives.reverseVisits cat.filed found on data,
    fun startcat start => cat.scansFrom_iff start⟩

/-- Three logs, the second one destroyed. -/
theorem catalog_scan_order_three :
    ∃ s, run catStep noLogs [.newLog ⟨(1, 0), (0, 0), 0⟩ .done, .newLog ⟨(2, 0), (0, 0), 0⟩ .done,
        .newLog ⟨(3, 0), (0, 0), 0⟩ .done, .destroy 2 true] = .ok s ∧ ScansBack s ∧
      ∀ startcat, startcat = 0 ∨ startcat ∈ s.live.map (·.1) →
        (ScansFrom s startcat ↔ OneSided s startcat) :=
  catalog_scan_order _ (by decide)

theorem fill_tended (id : LlogLogid) (head : s.cat.catIdx = 0) (k : Nat) {ops : List CatOp}
    (rest : ∀ s', run catStep s (List.replicate k (.newLog id .done)) = .ok s' → Meets catStep Tended s' ops) :
    Meets catStep Tended s (List.replicate k (.newLog id .done) ++ ops) := by
  induction k generalizing s with
  | zero => exact rest s rfl
  | succ k ih =>
    refine ⟨⟨.inl rfl, fun hidden => by omega⟩, fun s' step => ?_⟩
    have same : s'.cat.catIdx = s.cat.catIdx := by grind [llogCatNewLog, catStep]
    refine ih (same.trans head) fun s'' ran => rest s'' ?_
    rw [replicate_succ, run, step]
    exact ran

/-- In a full catalog the two oldest logs are destroyed and slot 1 is used again: a scan from slot 3
leaves out the newest. -/
theorem scan_leaves_out_wrapped_log :
    ∃ s, run catStep noLogs (List.replicate slots (.newLog ⟨(1, 0), (0, 0), 0⟩ .done) ++
        [.destroy 1 true, .destroy 2 true, .newLog ⟨(2, 0), (0, 0), 0⟩ .done]) = .ok s ∧
      3 ∈ s.live.map (·.1) ∧ ¬ ScansFrom s 3 := by
  obtain ⟨s, used, ran, filled⟩ := filled_run ⟨(1, 0), (0, 0), 0⟩ (le_refl slots)
  have all : ∀ p, 1 ≤ p → p ≤ slots → p ∈ used := filled.all
  have slot₁ : slotOf (0 + 1) = 1 := by decide
  have slot₂ : slotOf (1 + 1) = 2 := by decide
  obtain ⟨s₁, first, file₁, ring₁, live₁⟩ := filled.ring.destroyOldest
    (all 1 (by decide) (by decide)) (all 2 (by decide) (by decide))
    (filled.live 1 (by decide) (by decide)) (filled.file (by decide)) (by rw [filled.head]; decide)
  have head₁ : s₁.cat.catIdx = 1 := by
    rcases ring₁.head with at' | ⟨-, none⟩
    · exact at'
    · exact absurd none (by decide)
  have still : 2 ∈ s₁.live.map (·.1) := by
    obtain ⟨log, mem, same⟩ := mem_map.mp (filled.live 2 (by decide) (by decide))
    rw [live₁]
    exact mem_map.mpr ⟨log, mem_filter.mpr ⟨mem, by rw [same]; decide⟩, same⟩
  obtain ⟨s₂, second, file₂, ring₂, -⟩ := ring₁.destroyOldest
    (mem_filter.mpr ⟨all 2 (by decide) (by decide), by decide⟩)
    (mem_filter.mpr ⟨all 3 (by decide) (by decide), by decide⟩)
    (by rw [slot₂]; exact still) file₁ (by rw [head₁]; decide)
  have head₂ : s₂.cat.catIdx = 2 := by
    rcases ring₂.head with at' | ⟨-, none⟩
    · exact at'
    · exact absurd none (by decide)
  rw [slot₁] at first
  rw [slot₂] at second
  have hidden : ¬ (s₂.cat.log.lastIdx = llogBitmapSize - 1 ∧ s₂.cat.catIdx = 1) := by
    rw [head₂]
    nofun
  have last₂ : s₂.cat.log.lastIdx = slots := ring₂.last
  obtain ⟨cat₃, third, ring₃, head₃, -⟩ := ring₂.addLog
    (by rw [head₂, last₂]; decide) hidden (fun _ => file₂) ⟨(2, 0), (0, 0), 0⟩
  have tended : Meets catStep Tended noLogs
      (replicate slots (.newLog ⟨(1, 0), (0, 0), 0⟩ .done) ++
        [.destroy 1 true, .destroy 2 true, .newLog ⟨(2, 0), (0, 0), 0⟩ .done]) := by
    refine fill_tended _ rfl slots fun s' ran' => ?_
    cases ran.symm.trans ran'
    refine ⟨rfl, fun s' step => ?_⟩
    cases first.symm.trans step
    refine ⟨rfl, fun s' step => ?_⟩
    cases second.symm.trans step
    exact ⟨⟨.inl rfl, hidden⟩, fun _ _ => trivial⟩
  obtain ⟨s₃, whole, ps, h, t, recs, cat⟩ := catalogued_run tended
  refine ⟨s₃, whole, ?_⟩
  rw [run_append, ran, bind_ok, run, first] at whole
  dsimp only at whole
  rw [run, second] at whole
  dsimp only at whole
  rw [run, third] at whole
  cases whole
  have set : cat₃.log.bitmap 3 = true := by
    refine (ring₃.bits 3).mpr (.inr ⟨3, mem_append_left _ ?_, by decide⟩)
    exact mem_filter.mpr
      ⟨mem_filter.mpr ⟨all 3 (by decide) (by decide), by decide⟩, by decide⟩
  have high := (cat.lives.bit (show 1 ≤ 3 by decide)).mp set
  refine ⟨high, fun scans => ?_⟩
  have side := (cat.scansFrom_iff (.inr high)).mp scans
  rcases side with zero | straight | sides
  · cases zero
  · have last : cat₃.log.lastIdx = 1 := ring₃.last.trans (by decide)
    rw [last, head₃, head₂] at straight
    exact absurd straight (by decide)
  · have newest := sides (slotOf (slots + 1), ⟨(2, 0), (0, 0), 0⟩) (by simp)
    rw [head₃, head₂, show slotOf (slots + 1) = 1 by decide] at newest
    exact absurd (newest.mpr (by decide)) (by decide)

end Llog
