/-
Module: Lustre.Fld.Pieces
Purpose: What the repair scan of the location cache computes, without its restarts, and when that is
  what the cache should say.
Trusted boundary: none
-/
import Mathlib.Data.List.Pairwise
import Mathlib.Data.List.Basic
import Lustre.Fid.Range

namespace Fld

open Fid List

variable {c n x r a b : LuSeqRange} {ranges rest : List LuSeqRange}

/-! ### Lists of ranges -/

/-- Sane ranges, one after the other. -/
structure Tidy (ranges : List LuSeqRange) : Prop where
  sane : ∀ r ∈ ranges, rangeIsSane r
  ordered : ranges.Pairwise fun a b => a.stop ≤ b.start

theorem tidy_nil : Tidy [] := ⟨by simp, List.Pairwise.nil⟩

theorem tidy_cons :
    Tidy (c :: rest) ↔ rangeIsSane c ∧ (∀ b ∈ rest, c.stop ≤ b.start) ∧ Tidy rest := by
  grind [pairwise_cons, mem_cons_self, mem_cons_of_mem, cases Tidy, intro Tidy]

/-- A list in repair: one range may reach over the tidy ranges behind it. -/
inductive Nearly : List LuSeqRange → Prop
  | front {x : LuSeqRange} {rest : List LuSeqRange} (sane : rangeIsSane x)
      (starts : ∀ b ∈ rest, x.start ≤ b.start) (tidy : Tidy rest) : Nearly (x :: rest)
  | behind {c : LuSeqRange} {rest : List LuSeqRange} (sane : rangeIsSane c)
      (below : ∀ b ∈ rest, c.stop ≤ b.start) (nearly : Nearly rest) : Nearly (c :: rest)

theorem Tidy.nearly (tidy : Tidy (c :: rest)) : Nearly (c :: rest) := by
  obtain ⟨sane, below, tidy⟩ := tidy_cons.mp tidy
  exact .front sane (fun b mem => sane.trans (below b mem)) tidy

theorem Tidy.nearly_of_ne_nil (tidy : Tidy ranges) (some : ranges ≠ []) : Nearly ranges := by
  cases ranges with
  | nil => exact absurd rfl some
  | cons c rest => exact tidy.nearly

/-- Tidy ranges before a list in repair. -/
theorem Nearly.append {front : List LuSeqRange} (nearly : Nearly ranges) (tidy : Tidy front)
    (below : ∀ a ∈ front, ∀ b ∈ ranges, a.stop ≤ b.start) : Nearly (front ++ ranges) := by
  induction front with
  | nil => exact nearly
  | cons c front ih =>
    obtain ⟨sane, first, tidy⟩ := tidy_cons.mp tidy
    refine .behind sane (fun b mem => ?_)
      (ih tidy fun a inFront => below a (mem_cons_of_mem _ inFront))
    rcases mem_append.mp mem with inFront | inRanges
    · exact first b inFront
    · exact below c mem_cons_self b inRanges

theorem Nearly.sane_head (nearly : Nearly (c :: rest)) : rangeIsSane c := by
  cases nearly <;> assumption

theorem Nearly.starts (nearly : Nearly (c :: rest)) : ∀ b ∈ rest, c.start ≤ b.start := by
  cases nearly with
  | front _ starts _ => exact starts
  | behind sane below _ => exact fun b mem => sane.trans (below b mem)

theorem Nearly.tail (nearly : Nearly (c :: n :: rest)) : Nearly (n :: rest) := by
  cases nearly with
  | front _ _ tidy => exact tidy.nearly
  | behind _ _ nearly => exact nearly

variable {k : Nat}

theorem Nearly.extend (nearly : Nearly (n :: rest)) (le : k ≤ n.start) :
    Nearly ({ n with start := k } :: rest) := by
  cases nearly with
  | front sane starts tidy => exact .front (le.trans sane) (fun b mem => le.trans (starts b mem)) tidy
  | behind sane below nearly => exact .behind (le.trans sane) below nearly

/-! ### The settled list -/

/-- `n` extended over `c` on its left; index and flags are those of `n`. -/
def joinTo (c n : LuSeqRange) : LuSeqRange :=
  { n with start := c.start, stop := max c.stop n.stop }

/-- The ranges from `c` on, settled. -/
def settle (c : LuSeqRange) : List LuSeqRange → List LuSeqRange
  | [] => [c]
  | n :: rest =>
    if c.index = n.index then
      if c.stop < n.start then c :: settle n rest else settle (joinTo c n) rest
    else if n.start < c.stop ∧ n.stop ≤ c.stop then settle c rest
    else c :: settle { n with start := max c.stop n.start } rest

/-- A list of ranges, settled. -/
def settled : List LuSeqRange → List LuSeqRange
  | [] => []
  | c :: rest => settle c rest

theorem settle_join (same : c.index = n.index) (touch : n.start ≤ c.stop) :
    settle c (n :: rest) = settle (joinTo c n) rest := by
  rw [settle, if_pos same, if_neg (not_lt.mpr touch)]

theorem settle_covered (differ : c.index ≠ n.index) (start : n.start < c.stop)
    (stop : n.stop ≤ c.stop) : settle c (n :: rest) = settle c rest := by
  rw [settle, if_neg differ, if_pos ⟨start, stop⟩]

theorem settle_cut (differ : c.index ≠ n.index) (reach : ¬ (n.start < c.stop ∧ n.stop ≤ c.stop)) :
    settle c (n :: rest) = c :: settle { n with start := max c.stop n.start } rest := by
  rw [settle, if_neg differ, if_neg reach]

/-- Ranges that do not overlap and do not join stay as they are. -/
theorem settle_apart (below : c.stop ≤ n.start) (apart : ¬ (c.index = n.index ∧ c.stop = n.start)) :
    settle c (n :: rest) = c :: settle n rest := by
  simp_all [settle, lt_of_le_of_ne]

/-- Settling moves no range below a bound of the starts. -/
theorem settle_start (first : k ≤ c.start) (others : ∀ b ∈ rest, k ≤ b.start) :
    ∀ e ∈ settle c rest, k ≤ e.start := by
  induction rest generalizing c with
  | nil => simpa [settle] using first
  | cons n rest ih =>
    obtain ⟨next, others⟩ := forall_mem_cons.mp others
    unfold settle
    split_ifs
    · exact forall_mem_cons.mpr ⟨first, ih next others⟩
    · exact ih first others
    · exact ih first others
    · exact forall_mem_cons.mpr ⟨first, ih (next.trans (le_max_right _ _)) others⟩

theorem settled_start (starts : ∀ b ∈ ranges, k ≤ b.start) : ∀ e ∈ settled ranges, k ≤ e.start := by
  cases ranges with
  | nil => exact starts
  | cons c rest =>
    obtain ⟨first, others⟩ := forall_mem_cons.mp starts
    exact settle_start first others

theorem settle_tidy (nearly : Nearly (c :: rest)) : Tidy (settle c rest) := by
  induction rest generalizing c with
  | nil => exact tidy_cons.mpr ⟨nearly.sane_head, by simp, tidy_nil⟩
  | cons n rest ih =>
    have sane := nearly.sane_head
    have step := nearly.starts n mem_cons_self
    have saneNext := nearly.tail.sane_head
    have starts := nearly.tail.starts
    by_cases below : c.stop ≤ n.start
    · by_cases joins : c.index = n.index ∧ c.stop = n.start
      · -- the next range takes the place of both
        rw [settle_join joins.1 (by omega)]
        have same : joinTo c n = { n with start := c.start } := by
          unfold joinTo
          rw [max_eq_right (by omega)]
        rw [same]
        exact ih (nearly.tail.extend step)
      · rw [settle_apart below joins]
        refine tidy_cons.mpr ⟨sane, settle_start below fun b mem => ?_, ih nearly.tail⟩
        exact below.trans (starts b mem)
    · -- only the range in repair overlaps the next one
      cases nearly with
      | behind _ all _ => exact absurd (all n mem_cons_self) below
      | front _ all tidy =>
        obtain ⟨-, first, tidy⟩ := tidy_cons.mp tidy
        by_cases same : c.index = n.index
        · rw [settle_join same (by omega)]
          refine ih (.front ?_ (fun b mem => all b (mem_cons_of_mem _ mem)) tidy)
          exact sane.trans (le_max_left _ _)
        · by_cases inside : n.stop ≤ c.stop
          · rw [settle_covered same (by omega) inside]
            exact ih (.front sane (fun b mem => all b (mem_cons_of_mem _ mem)) tidy)
          · rw [settle_cut same (fun both => inside both.2), max_eq_left (by omega)]
            have rise : ∀ b ∈ rest, c.stop ≤ b.start := fun b mem =>
              (Nat.le_of_not_le inside).trans (first b mem)
            refine tidy_cons.mpr ⟨sane, settle_start le_rfl rise, ?_⟩
            exact ih (.front (Nat.le_of_not_le inside) rise tidy)

theorem settled_tidy (nearly : Nearly ranges) : Tidy (settled ranges) := by
  cases nearly with
  | front sane starts tidy => exact settle_tidy (.front sane starts tidy)
  | behind sane below nearly => exact settle_tidy (.behind sane below nearly)

/-- Two lists settle alike, alone and behind ranges that end at or below `k`. -/
structure Settles (k : Nat) (these those : List LuSeqRange) : Prop where
  alone : settled these = settled those
  after : ∀ c : LuSeqRange, c.stop ≤ k → settle c these = settle c those

variable {k : Nat} {these those front : List LuSeqRange}

section

variable (alike : Settles k these those)

include alike

theorem Settles.symm : Settles k those these :=
  ⟨alike.alone.symm, fun c le => (alike.after c le).symm⟩

theorem Settles.trans {more : List LuSeqRange} (alike' : Settles k those more) :
    Settles k these more :=
  ⟨alike.alone.trans alike'.alone, fun c le => (alike.after c le).trans (alike'.after c le)⟩

theorem Settles.behind (first : c.stop ≤ k) (below : ∀ p ∈ front, p.stop ≤ k) :
    settle c (front ++ these) = settle c (front ++ those) := by
  induction front generalizing c with
  | nil => exact alike.after c first
  | cons n front ih =>
    obtain ⟨next, below⟩ := forall_mem_cons.mp below
    simp only [cons_append, settle]
    split_ifs
    · rw [ih next below]
    · exact ih (Nat.max_le.mpr ⟨first, next⟩) below
    · exact ih first below
    · exact congrArg (c :: ·) (ih next below)

/-- What stands before the lists does not matter. -/
theorem Settles.append (below : ∀ p ∈ front, p.stop ≤ k) :
    settled (front ++ these) = settled (front ++ those) := by
  cases front with
  | nil => exact alike.alone
  | cons c front =>
    obtain ⟨first, below⟩ := forall_mem_cons.mp below
    exact alike.behind first below

end

/-- Ranges that join may be joined first. -/
theorem settles_join (rest : List LuSeqRange) (same : a.index = b.index)
    (touch : b.start ≤ a.stop) : Settles a.start (a :: b :: rest) (joinTo a b :: rest) := by
  refine ⟨settle_join same touch, fun c le => ?_⟩
  by_cases joins : c.index = a.index ∧ c.stop = a.start
  · rw [settle_join joins.1 (by omega)]
    have touch' : b.start ≤ (joinTo c a).stop := touch.trans (le_max_right _ _)
    rw [settle_join (c := joinTo c a) same touch', settle_join (n := joinTo a b) (joins.1.trans same)
      joins.2.symm.le]
    unfold joinTo
    rw [max_assoc]
  · rw [settle_apart le joins, settle_join same touch,
      settle_apart (n := joinTo a b) le fun both => joins ⟨both.1.trans same.symm, both.2⟩]

/-- What is left of `n` behind `stop`; an empty piece at `stop` if nothing is. -/
def cutPiece (stop : Nat) (n : LuSeqRange) : LuSeqRange :=
  { n with start := max n.start stop, stop := max n.stop stop }

/-- The pieces behind `stop` of ranges overlapped by one with this index; a covered one of another index
leaves nothing. -/
def cutRight (stop index : Nat) (ranges : List LuSeqRange) : List LuSeqRange :=
  (ranges.filter fun n => ¬ (n.index ≠ index ∧ n.start < stop ∧ n.stop ≤ stop)).map (cutPiece stop)

variable {stop : Nat}

theorem cutPiece_eq_self (sane : rangeIsSane n) (behind : stop ≤ n.start) :
    cutPiece stop n = n := by
  unfold cutPiece
  rw [max_eq_left behind, max_eq_left (behind.trans sane)]

variable {index : Nat}

theorem cutRight_eq_self (sane : ∀ n ∈ ranges, rangeIsSane n)
    (behind : ∀ n ∈ ranges, stop ≤ n.start) : cutRight stop index ranges = ranges := by
  unfold cutRight
  have all : ranges.filter (fun n => decide ¬ (n.index ≠ index ∧ n.start < stop ∧ n.stop ≤ stop)) =
      ranges := by
    refine filter_eq_self.mpr fun n mem => decide_eq_true fun cut => ?_
    have := behind n mem
    omega
  rw [all]
  refine (map_congr_left fun n mem => ?_).trans (map_id ranges)
  exact cutPiece_eq_self (sane n mem) (behind n mem)

theorem cutRight_keep (keep : ¬ (n.index ≠ index ∧ n.start < stop ∧ n.stop ≤ stop)) :
    cutRight stop index (n :: rest) = cutPiece stop n :: cutRight stop index rest := by
  unfold cutRight
  rw [filter_cons_of_pos, map_cons]
  exact decide_eq_true keep

theorem cutRight_drop (drop : n.index ≠ index ∧ n.start < stop ∧ n.stop ≤ stop) :
    cutRight stop index (n :: rest) = cutRight stop index rest := by
  unfold cutRight
  rw [filter_cons_of_neg]
  simpa using drop

/-- Settling a range with tidy ranges behind cuts those it overlaps. -/
theorem settle_cutRight (tidy : Tidy rest) :
    settle x rest = settle x (cutRight x.stop x.index rest) := by
  induction rest generalizing x with
  | nil => rfl
  | cons n rest ih =>
    obtain ⟨sane, first, tidy⟩ := tidy_cons.mp tidy
    have whole : x.stop ≤ n.stop → cutRight x.stop x.index rest = rest := fun le =>
      cutRight_eq_self tidy.sane fun b mem => le.trans (first b mem)
    by_cases same : x.index = n.index
    · rw [cutRight_keep fun drop => drop.1 same.symm]
      by_cases gap : x.stop < n.start
      · rw [cutPiece_eq_self sane gap.le, whole (by unfold rangeIsSane at sane; omega)]
      · have touch : n.start ≤ x.stop := not_lt.mp gap
        have touch' : (cutPiece x.stop n).start ≤ x.stop := Nat.max_le.mpr ⟨touch, le_rfl⟩
        have joined : joinTo x (cutPiece x.stop n) = joinTo x n := by
          unfold joinTo cutPiece
          simp only
          congr 1
          omega
        rw [settle_join same touch, settle_join (n := cutPiece x.stop n) same touch', joined]
        by_cases reach : x.stop ≤ n.stop
        · rw [whole reach]
        · grind [joinTo]
    · by_cases covered : n.start < x.stop ∧ n.stop ≤ x.stop
      · rw [cutRight_drop ⟨fun eq => same eq.symm, covered⟩, settle_covered same covered.1 covered.2,
          ih tidy]
      · have reach : x.stop ≤ n.stop := by omega
        rw [cutRight_keep fun drop => covered drop.2, whole reach, settle_cut same covered]
        have covered' : ¬ ((cutPiece x.stop n).start < x.stop ∧ (cutPiece x.stop n).stop ≤ x.stop) :=
          fun both => absurd both.1 (not_lt.mpr (le_max_right _ _))
        rw [settle_cut (n := cutPiece x.stop n) same covered']
        congr 2
        unfold cutPiece
        rw [max_eq_left reach, max_eq_right (le_max_right _ _), max_comm]

theorem settles_cutRight (sane : rangeIsSane x) (tidy : Tidy rest) :
    Settles x.start (x :: rest) (x :: cutRight x.stop x.index rest) := by
  refine ⟨settle_cutRight tidy, fun c le => ?_⟩
  by_cases joins : c.index = x.index ∧ c.stop = x.start
  · have stop : (joinTo c x).stop = x.stop := max_eq_right (le.trans sane)
    rw [settle_join joins.1 (by omega), settle_join joins.1 (by omega), settle_cutRight tidy, stop]
    rfl
  · rw [settle_apart le joins, settle_apart le joins, settle_cutRight tidy]

/-- A tidy list stays tidy when its first two ranges are joined. -/
theorem Tidy.join (tidy : Tidy (c :: b :: rest)) :
    c.stop ≤ b.start ∧ Tidy (b :: rest) ∧ Tidy (joinTo c b :: rest) ∧
      (joinTo c b).stop = b.stop := by
  obtain ⟨sane, next, tidy⟩ := tidy_cons.mp tidy
  obtain ⟨saneB, first, tidyRest⟩ := tidy_cons.mp tidy
  have touch := next b mem_cons_self
  have stop : (joinTo c b).stop = b.stop := max_eq_right (touch.trans saneB)
  exact ⟨touch, tidy, tidy_cons.mpr ⟨sane.trans (le_max_left _ _), by rwa [stop], tidyRest⟩, stop⟩

/-- A settled list is settled again in the same way. -/
theorem settles_settle (more : List LuSeqRange) (tidy : Tidy (b :: rest)) :
    Settles b.start (settle b rest ++ more) (b :: rest ++ more) := by
  induction rest generalizing b with
  | nil => exact ⟨rfl, fun _ _ => rfl⟩
  | cons n rest ih =>
    have sane := (tidy_cons.mp tidy).1
    obtain ⟨touch, tidy, joined, -⟩ := tidy.join
    by_cases joins : b.index = n.index ∧ b.stop = n.start
    · rw [settle_join joins.1 (by omega)]
      exact (ih joined).trans (settles_join _ joins.1 (by omega)).symm
    · rw [settle_apart touch joins]
      refine ⟨(ih tidy).after b touch, fun c le => ?_⟩
      have behind : settle c ([b] ++ (settle n rest ++ more)) = settle c ([b] ++ (n :: rest ++ more)) :=
        (ih tidy).behind (le.trans (sane.trans touch)) (forall_mem_singleton.mpr touch)
      exact behind

/-- Settling a front before the rest changes nothing. -/
theorem settled_append (more : List LuSeqRange) (tidy : Tidy ranges) :
    settled (settled ranges ++ more) = settled (ranges ++ more) := by
  cases ranges with
  | nil => rfl
  | cons c rest => exact (settles_settle more tidy).alone

/-- Settling the rest behind a front changes nothing. -/
theorem settled_append_settled (tidy : Tidy ranges)
    (below : ∀ p ∈ front, ∀ b ∈ ranges, p.stop ≤ b.start) :
    settled (front ++ settled ranges) = settled (front ++ ranges) := by
  cases ranges with
  | nil => rfl
  | cons b rest =>
    have alone := settles_settle [] tidy
    rw [append_nil, append_nil] at alone
    exact alone.append fun p mem => below p mem b mem_cons_self

/-! ### What a settled list says -/

/-- Some range of the list has `seq` and gives this index and these flags. -/
def Says (ranges : List LuSeqRange) (seq index flags : Nat) : Prop :=
  ∃ r ∈ ranges, rangeWithin r seq ∧ r.index = index ∧ r.flags = flags

theorem says_cons {seq flags : Nat} :
    Says (c :: rest) seq index flags ↔
      (rangeWithin c seq ∧ c.index = index ∧ c.flags = flags) ∨ Says rest seq index flags := by
  unfold Says
  simp

/-- The flags at the end of the run of touching ranges of one index that starts with `c`. -/
def lastFlags (c : LuSeqRange) : List LuSeqRange → Nat
  | [] => c.flags
  | n :: rest => if c.index = n.index ∧ c.stop = n.start then lastFlags n rest else c.flags

theorem lastFlags_extend (k : Nat) : lastFlags { c with start := k } rest = lastFlags c rest := by
  cases rest with
  | nil | cons => rfl

/-- Some range of the list has `seq`, and gives this index with the last flags of its run. -/
def SaysLast : List LuSeqRange → Nat → Nat → Nat → Prop
  | [], _, _, _ => False
  | c :: rest, seq, index, flags =>
    (rangeWithin c seq ∧ c.index = index ∧ lastFlags c rest = flags) ∨
      SaysLast rest seq index flags

/-- Settling a tidy list gives every range the flags at the end of its run. -/
theorem settle_said (tidy : Tidy (c :: rest)) {seq flags : Nat} :
    Says (settle c rest) seq index flags ↔ SaysLast (c :: rest) seq index flags := by
  induction rest generalizing c with
  | nil => simp [Says, settle, SaysLast, lastFlags]
  | cons n rest ih =>
    have sane : c.start ≤ c.stop := (tidy_cons.mp tidy).1
    obtain ⟨touch, tidy, tidy', stop⟩ := tidy.join
    have saneN : n.start ≤ n.stop := (tidy_cons.mp tidy).1
    by_cases joins : c.index = n.index ∧ c.stop = n.start
    · have joined : joinTo c n = { n with start := c.start } := by
        rw [← stop]
        rfl
      rw [settle_join joins.1 (by omega), ih tidy', joined]
      unfold SaysLast
      rw [lastFlags_extend, lastFlags, if_pos joins]
      have within : rangeWithin { n with start := c.start } seq ↔
          rangeWithin c seq ∨ rangeWithin n seq := by
        unfold rangeWithin
        simp only
        omega
      rw [within, SaysLast, ← or_assoc, joins.1, or_and_right]
    · rw [settle_apart touch joins, says_cons, ih tidy]
      conv_rhs => rw [SaysLast, lastFlags, if_neg joins]

variable {c r : LuSeqRange} {rest ranges : List LuSeqRange}

/-- A range as the code writes it, with the flags its sequences should have. -/
structure Piece where
  range : LuSeqRange
  wanted : Nat
deriving DecidableEq, Repr

/-- A range with its own flags. -/
def Piece.whole (range : LuSeqRange) : Piece := ⟨range, range.flags⟩

/-- What is left of `c` before `r`. -/
def leftPiece (r c : LuSeqRange) : List Piece :=
  if c.start < r.start then [.whole { c with stop := r.start }] else []

/-- What is left of `c` behind `r`; a right part split off by another index has no flags. -/
def rightPiece (r c : LuSeqRange) : List Piece :=
  if c.index ≠ r.index ∧ c.stop ≤ r.stop then []
  else
    [⟨{ cutPiece r.stop c with
        flags := if c.index ≠ r.index ∧ c.start < r.start then 0 else c.flags }, c.flags⟩]

/-- The pieces of a tidy list around `r`. -/
def pieces (r : LuSeqRange) : List LuSeqRange → List Piece
  | [] => [.whole r]
  | c :: rest =>
    if c.stop ≤ r.start then .whole c :: pieces r rest
    else if r.stop < c.start then .whole r :: (c :: rest).map .whole
    else
      leftPiece r c ++ .whole r :: (rightPiece r c ++ (cutRight r.stop r.index rest).map .whole)

/-- Some piece has `seq`, with this index, and wants these flags. -/
def Wants (ps : List Piece) (seq index flags : Nat) : Prop :=
  ∃ p ∈ ps, rangeWithin p.range seq ∧ p.range.index = index ∧ p.wanted = flags

/-- Each piece that is not empty wants the flags at the end of its run. -/
def Agree : List Piece → Prop
  | [] => True
  | p :: ps =>
    (p.range.start < p.range.stop → lastFlags p.range (ps.map (·.range)) = p.wanted) ∧ Agree ps

/-! ### The pieces say what they should -/

variable {seq index flags : Nat}

theorem wants_nil : ¬ Wants [] seq index flags := by
  rintro ⟨p, mem, -⟩
  cases mem

variable {ps : List Piece}

theorem wants_append {qs : List Piece} :
    Wants (ps ++ qs) seq index flags ↔ Wants ps seq index flags ∨ Wants qs seq index flags := by
  unfold Wants
  simp only [mem_append, or_and_right, exists_or]

theorem wants_cons {p : Piece} :
    Wants (p :: ps) seq index flags ↔
      (rangeWithin p.range seq ∧ p.range.index = index ∧ p.wanted = flags) ∨
        Wants ps seq index flags := by
  unfold Wants
  simp only [mem_cons, or_and_right, exists_or, exists_eq_left]

theorem wants_whole : Wants (ranges.map .whole) seq index flags ↔ Says ranges seq index flags := by
  unfold Wants Says
  simp [Piece.whole]

variable {stop : Nat}

theorem within_cutPiece : rangeWithin (cutPiece stop c) seq ↔ rangeWithin c seq ∧ stop ≤ seq := by
  unfold rangeWithin cutPiece
  simp only
  omega

variable {i f : Nat}

/-- Behind the cut the cut ranges say what they said. -/
theorem says_cutRight :
    Says (cutRight stop index ranges) seq i f ↔ Says ranges seq i f ∧ stop ≤ seq := by
  constructor
  · rintro ⟨p, mem, inside, same⟩
    obtain ⟨n, kept, rfl⟩ := mem_map.mp mem
    obtain ⟨inside, behind⟩ := within_cutPiece.mp inside
    exact ⟨⟨n, mem_of_mem_filter kept, inside, same⟩, behind⟩
  · rintro ⟨⟨n, mem, inside, same⟩, behind⟩
    refine ⟨cutPiece stop n, mem_map_of_mem (mem_filter.mpr ⟨mem, ?_⟩),
      within_cutPiece.mpr ⟨inside, behind⟩, same⟩
    refine decide_eq_true fun cut => ?_
    omega

/-- A range of a tidy list has no sequence below the ranges it follows. -/
theorem Says.behind {k : Nat} (said : Says ranges seq i f) (starts : ∀ b ∈ ranges, k ≤ b.start) :
    k ≤ seq := by
  obtain ⟨r, mem, inside, -⟩ := said
  exact (starts r mem).trans inside.1

theorem wants_leftPiece (reach : r.start < c.stop) :
    Wants (leftPiece r c) seq i f ↔
      (rangeWithin c seq ∧ c.index = i ∧ c.flags = f) ∧ seq < r.start := by
  unfold leftPiece
  split_ifs with left
  · rw [wants_cons, or_iff_left wants_nil]
    simp only [Piece.whole, rangeWithin]
    omega
  · refine iff_of_false wants_nil ?_
    omega

theorem wants_rightPiece :
    Wants (rightPiece r c) seq i f ↔
      (rangeWithin c seq ∧ c.index = i ∧ c.flags = f) ∧ r.stop ≤ seq := by
  unfold rightPiece
  split_ifs with covered
  · refine iff_of_false wants_nil ?_
    omega
  all_goals
    rw [wants_cons, or_iff_left wants_nil]
    have within : rangeWithin (cutPiece r.stop c) seq ↔ _ := within_cutPiece
    rw [within]
    simp only [cutPiece]
    omega

/-- The pieces want the location of `r` inside it and what the list says outside. -/
theorem wants_pieces (tidy : Tidy ranges) :
    Wants (pieces r ranges) seq i f ↔
      (rangeWithin r seq ∧ r.index = i ∧ r.flags = f) ∨
        (Says ranges seq i f ∧ ¬ rangeWithin r seq) := by
  induction ranges with
  | nil =>
    rw [pieces, wants_cons, or_iff_left wants_nil]
    refine ⟨.inl, fun either => either.resolve_right ?_⟩
    rintro ⟨⟨b, mem, -⟩, -⟩
    cases mem
  | cons c rest ih =>
    obtain ⟨saneC, first, tidy⟩ := tidy_cons.mp tidy
    have behind : Says rest seq i f → c.stop ≤ seq := fun said => said.behind first
    rw [pieces]
    split_ifs with before after
    · have outside : rangeWithin c seq ∧ c.index = i ∧ c.flags = f → ¬ rangeWithin r seq := by omega
      rw [wants_cons, ih tidy, says_cons, or_and_right, and_iff_left_of_imp outside]
      exact or_left_comm
    · have outside : Says (c :: rest) seq i f → ¬ rangeWithin r seq := by
        intro said inside
        have starts : ∀ b ∈ c :: rest, c.start ≤ b.start :=
          forall_mem_cons.mpr ⟨le_rfl, fun b mem => saneC.trans (first b mem)⟩
        have := said.behind starts
        omega
      rw [wants_cons, wants_whole, and_iff_left_of_imp outside]
      rfl
    · have outside : ¬ rangeWithin r seq ↔ seq < r.start ∨ r.stop ≤ seq := by omega
      have later : Says rest seq i f → ¬ seq < r.start := fun said => by
        have := behind said
        omega
      rw [wants_append, wants_cons, wants_append, wants_leftPiece (not_le.mp before),
        wants_rightPiece, wants_whole, says_cutRight, says_cons, outside]
      have keep : Says rest seq i f ∧ (seq < r.start ∨ r.stop ≤ seq) ↔
          Says rest seq i f ∧ r.stop ≤ seq := and_congr_right fun said => or_iff_right (later said)
      rw [or_left_comm, or_and_right, keep, and_or_left, or_assoc]
      rfl

/-! ### The pieces are tidy -/

theorem tidy_append {these those : List LuSeqRange} :
    Tidy (these ++ those) ↔
      Tidy these ∧ Tidy those ∧ ∀ a ∈ these, ∀ b ∈ those, a.stop ≤ b.start := by
  grind [cases Tidy, intro Tidy]

theorem tidy_cutRight (tidy : Tidy ranges) : Tidy (cutRight stop index ranges) := by
  refine ⟨fun p mem => ?_, ?_⟩
  · obtain ⟨n, kept, rfl⟩ := mem_map.mp mem
    have := tidy.sane n (mem_of_mem_filter kept)
    unfold rangeIsSane cutPiece at *
    simp only
    omega
  · refine pairwise_map.mpr ((tidy.ordered.filter _).imp fun {a b} le => ?_)
    unfold cutPiece
    simp only
    omega

theorem starts_cutRight {k : Nat} (starts : ∀ b ∈ ranges, k ≤ b.start) :
    ∀ b ∈ cutRight stop index ranges, max k stop ≤ b.start := by
  intro b mem
  obtain ⟨n, kept, rfl⟩ := mem_map.mp mem
  have := starts n (mem_of_mem_filter kept)
  unfold cutPiece
  simp only
  omega

/-- The ranges of the pieces. -/
abbrev pieceRanges (ps : List Piece) : List LuSeqRange := ps.map (·.range)

theorem pieceRanges_whole : pieceRanges (ranges.map .whole) = ranges := by
  unfold pieceRanges
  rw [map_map]
  exact map_id ranges

theorem pieceRanges_meet :
    pieceRanges (leftPiece r c ++
      .whole r :: (rightPiece r c ++ (cutRight r.stop r.index rest).map .whole)) =
    pieceRanges (leftPiece r c) ++
      r :: (pieceRanges (rightPiece r c) ++ cutRight r.stop r.index rest) := by
  have whole : pieceRanges ((cutRight r.stop r.index rest).map .whole) = _ := pieceRanges_whole
  unfold pieceRanges at whole ⊢
  rw [map_append, map_cons, map_append, whole]
  rfl

theorem tidy_leftPiece : Tidy (pieceRanges (leftPiece r c)) ∧ ∀ b ∈ pieceRanges (leftPiece r c),
      c.start ≤ b.start ∧ b.stop ≤ r.start := by
  unfold leftPiece pieceRanges
  split_ifs with left
  · simp only [map_cons, map_nil, mem_singleton, forall_eq, Piece.whole]
    exact ⟨tidy_cons.mpr ⟨left.le, by simp, tidy_nil⟩, le_rfl, le_rfl⟩
  · exact ⟨tidy_nil, by simp⟩

theorem tidy_rightPiece (sane : rangeIsSane c) :
    Tidy (pieceRanges (rightPiece r c)) ∧ ∀ b ∈ pieceRanges (rightPiece r c),
      r.stop ≤ b.start ∧ b.stop ≤ max c.stop r.stop := by
  unfold rightPiece pieceRanges
  split_ifs
  · exact ⟨tidy_nil, by simp⟩
  all_goals
    simp only [map_cons, map_nil, mem_singleton, forall_eq, cutPiece]
    refine ⟨tidy_cons.mpr ⟨?_, by simp, tidy_nil⟩, le_max_right _ _, le_rfl⟩
    unfold rangeIsSane at *
    simp only
    omega

/-- The pieces of a tidy list are tidy, and start no lower than the list and the range. -/
theorem pieces_tidy_starts (sane : rangeIsSane r) (tidy : Tidy ranges) :
    Tidy (pieceRanges (pieces r ranges)) ∧
      ∀ k, k ≤ r.start → (∀ b ∈ ranges, k ≤ b.start) →
        ∀ b ∈ pieceRanges (pieces r ranges), k ≤ b.start := by
  induction ranges with
  | nil =>
    refine ⟨tidy_cons.mpr ⟨sane, by simp, tidy_nil⟩, fun k le _ => ?_⟩
    simpa [pieces, Piece.whole] using le
  | cons c rest ih =>
    obtain ⟨saneC, first, tidyRest⟩ := tidy_cons.mp tidy
    obtain ⟨ihTidy, ihStarts⟩ := ih tidyRest
    rw [pieces]
    split_ifs with before after
    · refine ⟨tidy_cons.mpr ⟨saneC, ihStarts c.stop before first, ihTidy⟩, fun k le starts => ?_⟩
      obtain ⟨start, starts⟩ := forall_mem_cons.mp starts
      exact forall_mem_cons.mpr ⟨start, ihStarts k le starts⟩
    · have whole : pieceRanges (.whole r :: (c :: rest).map .whole) = r :: c :: rest :=
        congrArg (r :: ·) pieceRanges_whole
      rw [whole]
      refine ⟨tidy_cons.mpr ⟨sane, forall_mem_cons.mpr ⟨after.le, fun b mem => ?_⟩,
        tidy⟩, fun k le starts => forall_mem_cons.mpr ⟨le, starts⟩⟩
      exact after.le.trans (saneC.trans (first b mem))
    · obtain ⟨leftTidy, leftBounds⟩ := tidy_leftPiece (r := r) (c := c)
      obtain ⟨rightTidy, rightBounds⟩ := tidy_rightPiece (r := r) saneC
      have cutStarts : ∀ b ∈ cutRight r.stop r.index rest, max c.stop r.stop ≤ b.start :=
        starts_cutRight first
      rw [pieceRanges_meet]
      have behind : ∀ b ∈ pieceRanges (rightPiece r c) ++ cutRight r.stop r.index rest,
          r.stop ≤ b.start :=
        forall_mem_append.mpr ⟨fun b mem => (rightBounds b mem).1,
          fun b mem => (le_max_right _ _).trans (cutStarts b mem)⟩
      constructor
      · refine tidy_append.mpr ⟨leftTidy, tidy_cons.mpr ⟨sane, behind, tidy_append.mpr
          ⟨rightTidy, tidy_cutRight tidyRest, fun a inRight b inCut => ?_⟩⟩, fun a inLeft b mem => ?_⟩
        · exact (rightBounds a inRight).2.trans (cutStarts b inCut)
        · grind
      · intro k le starts
        refine forall_mem_append.mpr ⟨fun b mem => ?_, forall_mem_cons.mpr
          ⟨le, fun b mem => (le.trans sane).trans (behind b mem)⟩⟩
        exact (starts c mem_cons_self).trans (leftBounds b mem).1

theorem pieces_ne_nil : pieces r ranges ≠ [] := by
  cases ranges with
  | nil => exact cons_ne_nil _ _
  | cons c rest =>
    unfold pieces
    split_ifs <;> simp

theorem pieces_tidy (sane : rangeIsSane r) (tidy : Tidy ranges) :
    Tidy (pieceRanges (pieces r ranges)) := (pieces_tidy_starts sane tidy).1

theorem pieces_nearly (sane : rangeIsSane r) (tidy : Tidy ranges) :
    Nearly (pieceRanges (pieces r ranges)) :=
  (pieces_tidy sane tidy).nearly_of_ne_nil (by simpa using pieces_ne_nil)

theorem SaysLast.exists_mem (said : SaysLast ranges seq i f) : ∃ b ∈ ranges, rangeWithin b seq := by
  induction ranges with
  | nil => exact said.elim
  | cons c rest ih =>
    rcases said with here | later
    · exact ⟨c, mem_cons_self, here.1⟩
    · obtain ⟨b, mem, inside⟩ := ih later
      exact ⟨b, mem_cons_of_mem _ mem, inside⟩

theorem saysLast_wants_iff (tidy : Tidy (pieceRanges ps)) :
    (∀ seq i f, SaysLast (pieceRanges ps) seq i f ↔ Wants ps seq i f) ↔ Agree ps := by
  induction ps with
  | nil => exact iff_of_true (fun seq i f => iff_of_false nofun wants_nil) trivial
  | cons p ps ih =>
    obtain ⟨sane, first, tidyRest⟩ := tidy_cons.mp tidy
    have apart : ∀ {seq}, rangeWithin p.range seq → ¬ ∃ b ∈ pieceRanges ps, rangeWithin b seq := by
      rintro seq inside ⟨b, mem, inside'⟩
      have order : p.range.stop ≤ b.start := first b mem
      omega
    have apart' : ∀ {seq i f}, rangeWithin p.range seq → ¬ Wants ps seq i f := by
      rintro seq i f inside ⟨q, mem, inside', -⟩
      exact apart inside ⟨q.range, mem_map_of_mem mem, inside'⟩
    rw [Agree, ← ih tidyRest]
    constructor
    · intro law
      refine ⟨fun nonempty => ?_, fun seq i f => ?_⟩
      · have inside : rangeWithin p.range p.range.start := ⟨le_rfl, nonempty⟩
        have wants := (law p.range.start p.range.index _).mp (.inl ⟨inside, rfl, rfl⟩)
        rcases wants_cons.mp wants with ⟨-, -, same⟩ | later
        · exact same.symm
        · exact absurd later (apart' inside)
      · have whole := law seq i f
        rw [wants_cons] at whole
        constructor
        · intro said
          refine (whole.mp (.inr said)).resolve_left fun here => ?_
          exact apart here.1 said.exists_mem
        · intro wants
          refine (whole.mpr (.inr wants)).resolve_left fun here => ?_
          exact apart' here.1 wants
    · rintro ⟨flags, law⟩ seq i f
      rw [wants_cons]
      refine or_congr ?_ (law seq i f)
      refine and_congr_right fun inside => and_congr_right fun _ => ?_
      rw [flags (inside.1.trans_lt inside.2)]

/-- Settling the pieces keeps what they want exactly when their flags agree. -/
theorem settled_wants_iff (some : ps ≠ []) (tidy : Tidy (pieceRanges ps)) :
    (∀ seq i f, Says (settled (pieceRanges ps)) seq i f ↔ Wants ps seq i f) ↔ Agree ps := by
  rw [← saysLast_wants_iff tidy]
  refine forall_congr' fun seq => forall_congr' fun i => forall_congr' fun f => ?_
  cases ps with
  | nil => exact absurd rfl some
  | cons p ps =>
    have said : Says (settled (pieceRanges (p :: ps))) seq i f ↔ _ := settle_said tidy
    rw [said]
    rfl

/-! ### The list that is repaired settles like the pieces -/

/-- `c` is the first range of a tidy list that `r` meets. -/
structure Meet (r c : LuSeqRange) (front rest : List LuSeqRange) : Prop where
  sane : rangeIsSane r
  tidy : Tidy (front ++ c :: rest)
  passed : ∀ p ∈ front, p.stop ≤ r.start
  start : c.start ≤ r.stop
  reach : r.start < c.stop

variable {front : List LuSeqRange}

/-- The ranges of the pieces from `c` on. -/
def meetRanges (r c : LuSeqRange) (rest : List LuSeqRange) : List LuSeqRange :=
  pieceRanges (leftPiece r c) ++
    r :: (pieceRanges (rightPiece r c) ++ cutRight r.stop r.index rest)

/-- `c` grown over `r`. -/
def grownOver (r c : LuSeqRange) : LuSeqRange :=
  { c with start := min c.start r.start, stop := max c.stop r.stop }

namespace Meet

section

variable (meet : Meet r c front rest)

include meet

theorem below : ∀ p ∈ front, p.stop ≤ c.start := fun p mem =>
  (tidy_append.mp meet.tidy).2.2 p mem c mem_cons_self

theorem tidyFront : Tidy front := (tidy_append.mp meet.tidy).1

theorem tidyRest : Tidy rest :=
  (tidy_cons.mp (tidy_append.mp meet.tidy).2.1).2.2

theorem saneMet : rangeIsSane c :=
  (tidy_cons.mp (tidy_append.mp meet.tidy).2.1).1

theorem behind : ∀ b ∈ rest, c.stop ≤ b.start :=
  (tidy_cons.mp (tidy_append.mp meet.tidy).2.1).2.1

/-- The pieces of the whole list are the front and the pieces from `c` on. -/
theorem pieceRanges_pieces :
    pieceRanges (pieces r (front ++ c :: rest)) = front ++ meetRanges r c rest := by
  have passed := meet.passed
  have reach := meet.reach
  have start := meet.start
  clear meet
  induction front with
  | nil =>
    rw [nil_append, pieces, if_neg (not_le.mpr reach), if_neg (not_lt.mpr start), pieceRanges_meet]
    rfl
  | cons p front ih =>
    obtain ⟨first, passed⟩ := forall_mem_cons.mp passed
    rw [cons_append, pieces, if_pos first]
    exact congrArg (p :: ·) (ih passed)

theorem nearly_meetRanges : Nearly (front ++ meetRanges r c rest) := by
  rw [← meet.pieceRanges_pieces]
  exact pieces_nearly meet.sane meet.tidy

/-- A sane range put where `c` was, with a start that the front allows. -/
theorem nearly {x : LuSeqRange} (sane : rangeIsSane x) (low : min c.start r.start ≤ x.start)
    (high : x.start ≤ c.stop) : Nearly (front ++ x :: rest) := by
  have starts : ∀ b ∈ rest, x.start ≤ b.start := fun b mem => high.trans (meet.behind b mem)
  refine (Nearly.front sane starts meet.tidyRest).append meet.tidyFront fun a mem => ?_
  have base : a.stop ≤ x.start := by
    have := meet.below a mem
    have := meet.passed a mem
    omega
  exact forall_mem_cons.mpr ⟨base, fun b inRest => base.trans (starts b inRest)⟩

/-- Behind a range that reaches to the end of `r` or of `c`, the rest is cut by `r`. -/
theorem cutRight_eq (stop : r.stop ≤ c.stop) : cutRight r.stop r.index rest = rest :=
  cutRight_eq_self meet.tidyRest.sane fun b mem => stop.trans (meet.behind b mem)

/-- What the grown range cuts is what `r` cuts. -/
theorem cutRight_grown (same : c.index = r.index) :
    cutRight (grownOver r c).stop (grownOver r c).index rest = cutRight r.stop r.index rest := by
  have index : (grownOver r c).index = r.index := same
  rw [index]
  by_cases stop : c.stop ≤ r.stop
  · have : (grownOver r c).stop = r.stop := max_eq_right stop
    rw [this]
  · have : (grownOver r c).stop = c.stop := max_eq_left (Nat.le_of_not_le stop)
    rw [this, meet.cutRight_eq (Nat.le_of_not_le stop)]
    exact cutRight_eq_self meet.tidyRest.sane meet.behind

/-- A range of the same index grows over the new one. -/
theorem settles_grown (same : c.index = r.index) :
    Settles (grownOver r c).start (grownOver r c :: rest) (meetRanges r c rest) := by
  have sane := meet.sane
  have sane' : rangeIsSane (grownOver r c) :=
    (min_le_left _ _).trans (meet.saneMet.trans (le_max_left _ _))
  have right : pieceRanges (rightPiece r c) = [cutPiece r.stop c] := by
    unfold rightPiece
    rw [if_neg fun covered => covered.1 same, if_neg fun split => split.1 same]
    rfl
  have startRight : (cutPiece r.stop c).start = r.stop := max_eq_right meet.start
  refine (settles_cutRight sane' meet.tidyRest).trans ?_
  rw [meet.cutRight_grown same]
  unfold meetRanges leftPiece
  rw [right]
  split_ifs with left
  · -- left part, new range and right part join
    have one := settles_join (a := { c with stop := r.start }) (b := r)
      (cutPiece r.stop c :: cutRight r.stop r.index rest) same le_rfl
    have two := settles_join (a := joinTo { c with stop := r.start } r) (b := cutPiece r.stop c)
      (cutRight r.stop r.index rest) same.symm
      (by rw [startRight]; exact le_max_right _ _)
    have joined : joinTo (joinTo { c with stop := r.start } r) (cutPiece r.stop c) =
        grownOver r c := by
      unfold joinTo cutPiece grownOver
      simp only [LuSeqRange.mk.injEq, and_true]
      omega
    have start : (grownOver r c).start = c.start := min_eq_left left.le
    rw [joined] at two
    rw [start]
    exact (one.trans two).symm
  · have one := settles_join (a := r) (b := cutPiece r.stop c)
      (cutRight r.stop r.index rest) same.symm (by rw [startRight])
    have joined : joinTo r (cutPiece r.stop c) = grownOver r c := by
      unfold joinTo cutPiece grownOver
      simp only [LuSeqRange.mk.injEq, and_true]
      omega
    have start : (grownOver r c).start = r.start := min_eq_right (not_lt.mp left)
    rw [joined] at one
    rw [start]
    exact one.symm

/-- The new range takes the place of a covered one, or of the end of one, of another index. -/
theorem settles_covered (differ : c.index ≠ r.index) (stop : c.stop ≤ r.stop) :
    Settles r.start (r :: rest) (r :: (pieceRanges (rightPiece r c) ++
      cutRight r.stop r.index rest)) := by
  have right : rightPiece r c = [] := if_pos ⟨differ, stop⟩
  rw [right]
  exact settles_cutRight meet.sane meet.tidyRest

/-- The right part of a range of another index. -/
theorem rightPiece_eq (stop : r.stop < c.stop) (flags : Nat)
    (written : flags = if c.index ≠ r.index ∧ c.start < r.start then 0 else c.flags) :
    pieceRanges (rightPiece r c) = [⟨r.stop, c.stop, c.index, flags⟩] := by
  unfold rightPiece pieceRanges cutPiece
  rw [if_neg fun covered => not_le.mpr stop covered.2, ← written]
  simp only [map_cons, map_nil]
  rw [max_eq_right meet.start, max_eq_left stop.le]

end

theorem leftPiece_eq (left : c.start < r.start) :
    pieceRanges (leftPiece r c) = [{ c with stop := r.start }] := by
  unfold leftPiece
  rw [if_pos left]
  rfl

theorem leftPiece_none (right : r.start ≤ c.start) : pieceRanges (leftPiece r c) = [] := by
  unfold leftPiece
  rw [if_neg (not_lt.mpr right)]
  rfl

end Meet

end Fld
