/-
Module: Lustre.Ptlrpc.SeqWindow
Purpose: The sequence windows that protect a GSS context from replayed requests, checked by any
  number of service threads before and behind the verification of a request.
Trusted boundary: whether the signature of a request is good is part of the label of a step
-/
import Mathlib.Data.Nat.ModEq
import Lustre.Lib.Run

namespace Ptlrpc.Gss

open Function Run List

/-! ### The windows -/

/-- `GSS_SEQ_WIN_MAIN` -/
def gssSeqWinMain : Nat := 2048

/-- `GSS_SEQ_WIN_BACK` -/
def gssSeqWinBack : Nat := 128

/-- A bitmap and the highest number seen. -/
structure Window where
  bits : Nat → Bool
  max : Nat

/-- The phases of a check: before the verification, behind it in the main window, or in the back window. -/
inductive Phase where
  | initial
  | main
  | back
deriving DecidableEq, Repr

/-- The return values `0`, `1` and `-1`. -/
inductive Verdict where
  | accept
  | behind
  | replay
deriving DecidableEq, Repr

/-- The sum of two `__u32`. -/
def add32 (a b : Nat) : Nat := (a + b) % 2 ^ 32

/-- The loop that moves the window up by `n` numbers. -/
def Window.advance (size : Nat) : Nat → Window → Window
  | 0, w => w
  | n + 1, w =>
    advance size n ⟨update w.bits ((w.max + 1) % size) false, w.max + 1⟩

/-- `__set_bit` -/
def Window.setBit (w : Window) (i : Nat) : Window := { w with bits := update w.bits i true }

/-- The window with `seq` above it moves up to it. -/
def Window.raise (size : Nat) (w : Window) (seq : Nat) : Window :=
  if add32 w.max size ≤ seq then ⟨fun _ => false, seq⟩ else w.advance size (seq - w.max)

/-- `gss_do_check_seq` -/
def gssDoCheckSeq (size : Nat) (w : Window) (seq : Nat) (phase : Phase) : Verdict × Window :=
  if w.max < seq then
    -- high above the window
    match phase with
    | .initial => (.accept, w)
    | .main | .back => (.accept, (w.raise size seq).setBit (seq % size))
  else if add32 seq size ≤ w.max then
    -- low behind the window
    match phase with
    | .initial | .back => (.replay, w)
    | .main => (.behind, w)
  else
    match phase with
    | .initial => (if w.bits (seq % size) then .replay else .accept, w)
    | .main | .back =>
      if w.bits (seq % size) then (.replay, w) else (.accept, w.setBit (seq % size))

/-- `struct gss_svc_seq_data` -/
structure SeqData where
  main : Window
  back : Window

/-- `gss_check_seq_num`, which holds `ssd_lock`: whether the number passes. -/
def gssCheckSeqNum (ssd : SeqData) (seq : Nat) (set : Bool) : Bool × SeqData :=
  if set then
    match gssDoCheckSeq gssSeqWinMain ssd.main seq .main with
    | (.replay, main) => (false, { ssd with main := main })
    | (.accept, main) => (true, { ssd with main := main })
    | (.behind, main) =>
      match gssDoCheckSeq gssSeqWinBack ssd.back seq .back with
      | (.accept, back) => (true, ⟨main, back⟩)
      | (_, back) => (false, ⟨main, back⟩)
  else
    match gssDoCheckSeq gssSeqWinMain ssd.main seq .initial with
    | (verdict, main) => (verdict = .accept, { ssd with main := main })

/-- A context with the numbers that passed the initial check, those of the requests between their checks,
and those past both. -/
structure Context where
  ssd : SeqData
  entered : List Nat
  pending : List Nat
  accepted : List Nat

/-- What a service thread does with a request. -/
inductive Label where
  /-- the initial check -/
  | initialCheck (seq : Nat)
  /-- the verification fails -/
  | unverified (seq : Nat)
  /-- the final check -/
  | finalCheck (seq : Nat)
deriving DecidableEq, Repr

/-- A thread without such a request cannot take the step. -/
inductive Fault where
  | disabled
deriving DecidableEq, Repr

/-- The initial check of a request. -/
def Context.enter (s : Context) (seq : Nat) : Context :=
  match gssCheckSeqNum s.ssd seq false with
  | (true, ssd) => { s with ssd := ssd, entered := seq :: s.entered, pending := seq :: s.pending }
  | (false, ssd) => { s with ssd := ssd }

/-- Its final check. -/
def Context.finish (s : Context) (seq : Nat) : Context :=
  match gssCheckSeqNum s.ssd seq true with
  | (true, ssd) =>
    { s with ssd := ssd, pending := s.pending.erase seq, accepted := seq :: s.accepted }
  | (false, ssd) => { s with ssd := ssd, pending := s.pending.erase seq }

/-- One step of one of the threads in `gss_svc_verify_request` or `gss_svc_unseal_request`. -/
def step (s : Context) : Label → Except Fault Context
  | .initialCheck seq => .ok (s.enter seq)
  | .unverified seq =>
    if seq ∈ s.pending then .ok { s with pending := s.pending.erase seq } else .error .disabled
  | .finalCheck seq => if seq ∈ s.pending then .ok (s.finish seq) else .error .disabled

/-- A new context. -/
def start : Context where
  ssd := ⟨⟨fun _ => false, 0⟩, ⟨fun _ => false, 0⟩⟩
  entered := []
  pending := []
  accepted := []

/-! ### What a check does to its window -/

/-- A number is marked that was not seen before. -/
structure Marked (size : Nat) (w : Window) (seq : Nat) (w' : Window) : Prop where
  fresh : w.max < seq ∨ w.max < seq + size ∧ w.bits (seq % size) = false
  max : w'.max = Nat.max w.max seq
  marked : w'.bits (seq % size) = true
  keeps : ∀ q, q ≤ w.max → w'.max < q + size → w.bits (q % size) = true → w'.bits (q % size) = true

section Windows

variable {size : Nat} {w : Window} {seq : Nat}

theorem advance_max (size n : Nat) : ∀ w : Window, (w.advance size n).max = w.max + n := by
  induction n with
  | zero => exact fun _ => rfl
  | succ n ih =>
    intro w
    rw [Window.advance, ih]
    dsimp only
    omega

/-- Numbers that are less than a window apart have different bits. -/
theorem bit_ne {q r : Nat} (above : q < r) (near : r < q + size) : q % size ≠ r % size := by
  intro same
  have zero : (r - q) % size = 0 := Nat.sub_mod_eq_zero_of_mod_eq same.symm
  have small : (r - q) % size = r - q := Nat.mod_eq_of_lt (by omega)
  omega

/-- A bit stays set when the window moves past no number with it. -/
theorem advance_bits (n k : Nat) : ∀ w : Window, (w.advance size n).bits k = true ↔
    w.bits k = true ∧ ∀ r, w.max < r → r ≤ w.max + n → r % size ≠ k := by
  induction n with
  | zero => exact fun w => (and_iff_left fun r low high => absurd low (not_lt.mpr high)).symm
  | succ n ih =>
    intro w
    rw [Window.advance, ih]
    dsimp only
    rw [update_apply]
    constructor
    · rintro ⟨kept, past⟩
      split at kept
      · cases kept
      · next other =>
          refine ⟨kept, fun r low high => ?_⟩
          rcases Nat.lt_or_eq_of_le low with more | rfl
          · exact past r more (by omega)
          · exact fun same => other same.symm
    · rintro ⟨kept, past⟩
      rw [if_neg fun same => past _ (Nat.lt_succ_self _) (by omega) same.symm]
      exact ⟨kept, fun r low high => past r (by omega) (by omega)⟩

theorem raise_max (above : w.max < seq) : (w.raise size seq).max = seq := by
  unfold Window.raise
  split
  · rfl
  · rw [advance_max]
    omega

theorem raise_keeps (small : w.max + size < 2 ^ 32) (above : w.max < seq) {q : Nat} (low : q ≤ w.max)
    (high : seq < q + size) : (w.raise size seq).bits (q % size) = w.bits (q % size) := by
  have sum : add32 w.max size = w.max + size := Nat.mod_eq_of_lt small
  unfold Window.raise
  rw [sum, if_neg (by omega), Bool.eq_iff_iff, advance_bits]
  exact and_iff_left fun r above' top => (bit_ne (by omega) (by omega)).symm

theorem setBit_keeps (w : Window) {i j : Nat} (marked : w.bits j = true) :
    (w.setBit i).bits j = true := by
  simp_all [Window.setBit, update_apply]

/-- What the second check in the main window can say. -/
inductive Checked (size : Nat) (w : Window) (seq : Nat) : Verdict × Window → Prop where
  | replay : Checked size w seq (.replay, w)
  | behind (low : seq + size ≤ w.max) : Checked size w seq (.behind, w)
  | accept {w' : Window} (marked : Marked size w seq w') : Checked size w seq (.accept, w')

theorem gssDoCheckSeq_checked (small : w.max + size < 2 ^ 32) (fits : seq + size < 2 ^ 32) :
    Checked size w seq (gssDoCheckSeq size w seq .main) := by
  have sum : add32 seq size = seq + size := Nat.mod_eq_of_lt fits
  unfold gssDoCheckSeq
  rw [sum]
  dsimp only
  split
  · next above =>
      have top : ((w.raise size seq).setBit (seq % size)).max = seq := raise_max above
      refine .accept ⟨.inl above, ?_, update_self _ _ _, fun q low high marked => ?_⟩
      · rw [top]
        exact (max_eq_right above.le).symm
      · rw [top] at high
        exact setBit_keeps _ ((raise_keeps small above low high).trans marked)
  · next inside =>
      split
      · next low => exact .behind low
      · next high =>
          split
          · exact .replay
          · next unseen =>
              refine .accept ⟨.inr ⟨by omega, Bool.eq_false_iff.mpr unseen⟩, ?_,
                update_self _ _ _, fun q _ _ marked => setBit_keeps w marked⟩
              have below : seq ≤ w.max := by omega
              exact (max_eq_left below).symm

end Windows

/-! ### Runs -/

/-- A request comes to its final check while its number is inside the main window or above it, unless no
other one with it has passed the initial check. -/
def Timely (s : Context) : Label → Prop
  | .initialCheck seq => seq < 2 ^ 31
  | .unverified _ => True
  | .finalCheck seq => s.ssd.main.max < seq + gssSeqWinMain ∨ s.entered.count seq ≤ 1

instance (s : Context) : DecidablePred (Timely s)
  | .initialCheck _ => inferInstanceAs (Decidable (_ < _))
  | .unverified _ => inferInstanceAs (Decidable True)
  | .finalCheck _ => inferInstanceAs (Decidable (_ ∨ _))

/-- The numbers accepted are different, and those in the main window have their bits. -/
structure Guarded (s : Context) : Prop where
  nodup : s.accepted.Nodup
  counted : ∀ q, s.accepted.count q + s.pending.count q ≤ s.entered.count q
  seen : ∀ q ∈ s.accepted, q ≤ s.ssd.main.max ∧
    (s.ssd.main.max < q + gssSeqWinMain → s.ssd.main.bits (q % gssSeqWinMain) = true)
  small : s.ssd.main.max < 2 ^ 31
  entered : ∀ q ∈ s.entered, q < 2 ^ 31

section Threads

variable {s : Context} {seq : Nat}

/-- The initial check changes no window. -/
theorem gssCheckSeqNum_initial (ssd : SeqData) (seq : Nat) : (gssCheckSeqNum ssd seq false).2 = ssd := by
  have same : (gssDoCheckSeq gssSeqWinMain ssd.main seq .initial).2 = ssd.main := by
    unfold gssDoCheckSeq
    split
    · rfl
    · split <;> rfl
  unfold gssCheckSeqNum
  generalize gssDoCheckSeq gssSeqWinMain ssd.main seq .initial = result at same
  obtain ⟨verdict, main⟩ := result
  cases same
  rfl

section

variable (guarded : Guarded s)

include guarded

theorem enter_guarded (small : seq < 2 ^ 31) : Guarded (s.enter seq) := by
  have same := gssCheckSeqNum_initial s.ssd seq
  unfold Context.enter
  generalize gssCheckSeqNum s.ssd seq false = result at same
  obtain ⟨passes, ssd⟩ := result
  cases same
  cases passes with
  | false => exact { guarded with }
  | true => grind [cases Guarded, intro Guarded]

/-- A request that goes without being accepted. -/
theorem Guarded.drop : Guarded { s with pending := s.pending.erase seq } := { guarded with
  counted := fun q => by
    have before := guarded.counted q
    have fewer : (s.pending.erase seq).count q ≤ s.pending.count q := erase_sublist.count_le q
    dsimp only
    omega }

/-- A request that is accepted although no other one with its number was. -/
theorem Guarded.accept (mem : seq ∈ s.pending) (unseen : seq ∉ s.accepted)
    {ssd : SeqData} (small : ssd.main.max < 2 ^ 31)
    (seen : ∀ q, q = seq ∨ q ∈ s.accepted → q ≤ ssd.main.max ∧
      (ssd.main.max < q + gssSeqWinMain → ssd.main.bits (q % gssSeqWinMain) = true)) :
    Guarded { s with ssd := ssd, pending := s.pending.erase seq, accepted := seq :: s.accepted } := by
  refine ⟨nodup_cons.mpr ⟨unseen, guarded.nodup⟩, fun q => ?_,
    fun q inside => seen q (mem_cons.mp inside), small, guarded.entered⟩
  have before := guarded.counted q
  by_cases same : q = seq
  · grind
  · rw [count_cons_of_ne (Ne.symm same), count_erase_of_ne same]
    exact before

/-- The bits of the numbers accepted before, when a new one is marked. -/
theorem Guarded.marked {w : Window}
    (marked : Marked gssSeqWinMain s.ssd.main seq w) (q : Nat) (either : q = seq ∨ q ∈ s.accepted) :
    q ≤ w.max ∧ (w.max < q + gssSeqWinMain → w.bits (q % gssSeqWinMain) = true) := by
  grind [cases Marked, cases Guarded]

theorem Guarded.unseen {w : Window}
    (marked : Marked gssSeqWinMain s.ssd.main seq w) : seq ∉ s.accepted := by
  grind [cases Marked, cases Guarded]

theorem finish_guarded (mem : seq ∈ s.pending)
    (timely : Timely s (.finalCheck seq)) : Guarded (s.finish seq) := by
  have counted := guarded.counted seq
  have waiting : 0 < s.pending.count seq := count_pos_iff.mpr mem
  have fits : seq < 2 ^ 31 :=
    guarded.entered seq (count_pos_iff.mp (by omega))
  have small := guarded.small
  have size : gssSeqWinMain = 2048 := rfl
  have checked : Checked gssSeqWinMain s.ssd.main seq
      (gssDoCheckSeq gssSeqWinMain s.ssd.main seq .main) :=
    gssDoCheckSeq_checked (by omega) (by omega)
  unfold Context.finish gssCheckSeqNum
  generalize gssDoCheckSeq gssSeqWinMain s.ssd.main seq .main = result at checked
  cases checked with
  | replay => exact guarded.drop
  | @accept w marked =>
    refine guarded.accept mem (guarded.unseen marked) ?_ (guarded.marked marked)
    rw [marked.max]
    exact Nat.max_lt.mpr ⟨small, fits⟩
  | behind low =>
    -- the back window decides, for the only request with this number
    have alone : s.entered.count seq ≤ 1 := timely.resolve_left (by omega)
    generalize gssDoCheckSeq gssSeqWinBack s.ssd.back seq .back = backResult
    obtain ⟨verdict, back⟩ := backResult
    have dropped : Guarded { s with ssd := ⟨s.ssd.main, back⟩, pending := s.pending.erase seq } :=
      { (guarded.drop : Guarded { s with pending := s.pending.erase seq }) with }
    cases verdict with
    | accept => grind [Guarded.accept, cases Guarded]
    | behind | replay => exact dropped

end

theorem step_guarded (s : Context) (label : Label) (guarded : Guarded s) (timely : Timely s label) :
    Outcome Guarded (· = .disabled) (step s label) := by
  cases label with
  | initialCheck seq => exact enter_guarded guarded timely
  | unverified seq =>
    rw [step]
    split
    · exact guarded.drop
    · exact rfl
  | finalCheck seq =>
    rw [step]
    split
    · next mem => exact finish_guarded guarded mem timely
    · exact rfl

end Threads

/-- In every run in which requests come to their final checks in time, no sequence number passes both
checks twice. -/
theorem no_number_accepted_twice {labels : List Label} (timely : Meets step Timely start labels) :
    Outcome (fun s => s.accepted.Nodup) (· = .disabled) (run step start labels) := by
  have empty : Guarded start :=
    ⟨nodup_nil, fun _ => le_rfl, nofun, by decide, nofun⟩
  exact (outcome_run step_guarded empty timely).mono fun _ guarded => guarded.nodup

/-- A request, a copy of it, and a later request that moves the window. -/
def copiedRequest : List Label :=
  [.initialCheck 5, .initialCheck 5, .finalCheck 5, .finalCheck 5, .initialCheck 3000,
    .finalCheck 3000, .initialCheck 5]

theorem no_number_accepted_twice_copied :
    ((run step start copiedRequest).map Context.accepted).toOption = some [3000, 5] ∧
      Outcome (fun s => s.accepted.Nodup) (· = .disabled) (run step start copiedRequest) :=
  have timely : Meets step Timely start copiedRequest := by decide +kernel
  ⟨by decide +kernel, no_number_accepted_twice timely⟩

/-- The copy passes the initial check before the request passes the final one, and its own when the
number has left the main window: the back window accepts it. -/
theorem delayed_copy_accepted :
    ((run step start [.initialCheck 5, .initialCheck 5, .finalCheck 5, .initialCheck 3000,
      .finalCheck 3000, .finalCheck 5]).map Context.accepted).toOption = some [5, 3000, 5] := by
  decide +kernel

/-! ### Requests one after the other -/

/-- A request whose final check directly follows its initial check. -/
def Context.submit (s : Context) (seq : Nat) : Context :=
  if (gssCheckSeqNum s.ssd seq false).1 then (s.enter seq).finish seq else s.enter seq

/-- It was not accepted before, and is greater than the largest number accepted so far less the size
of the window. -/
def Acceptable (accepted : List Nat) (seq : Nat) : Prop :=
  seq ∉ accepted ∧ ∀ q ∈ accepted, (q : Int) - gssSeqWinMain < seq

/-- The window ends at the largest number accepted, and its bits are those of the accepted numbers
in it. -/
structure Exact (w : Window) (accepted : List Nat) : Prop where
  upper : ∀ q ∈ accepted, q ≤ w.max
  reached : w.max = 0 ∨ w.max ∈ accepted
  bits : ∀ k < gssSeqWinMain, w.bits k = true ↔
    ∃ q ∈ accepted, w.max < q + gssSeqWinMain ∧ q % gssSeqWinMain = k

section Exactly

variable {size : Nat} {w w' : Window} {accepted : List Nat} {seq : Nat}

/-- A window that moves by its size or more passes a number with each of the bits. -/
theorem exists_bit {k : Nat} (inside : k < size) (m : Nat) :
    ∃ r, m < r ∧ r ≤ m + size ∧ r % size = k := by
  have split := Nat.div_add_mod (m + size - k) size
  have less := Nat.mod_lt (m + size - k) (by omega : size > 0)
  refine ⟨k + size * ((m + size - k) / size), by omega, by omega, ?_⟩
  rw [Nat.add_mul_mod_self_left, Nat.mod_eq_of_lt inside]

theorem raise_bits (small : w.max + size < 2 ^ 32) (above : w.max < seq) {k : Nat}
    (inside : k < size) :
    (w.raise size seq).bits k = true ↔
      w.bits k = true ∧ ∀ r, w.max < r → r ≤ seq → r % size ≠ k := by
  have sum : add32 w.max size = w.max + size := Nat.mod_eq_of_lt small
  unfold Window.raise
  split
  · refine iff_of_false nofun fun ⟨_, past⟩ => ?_
    obtain ⟨r, low, high, same⟩ := exists_bit inside w.max
    exact past r low (by omega) same
  · rw [advance_bits, Nat.add_sub_cancel' above.le]

/-- A number is accepted and its bit set; the window drops the bits of the numbers it passes. -/
theorem Exact.accept (exact : Exact w accepted) (near : w.max < seq + gssSeqWinMain)
    (top : w'.max = max w.max seq)
    (bits : ∀ k < gssSeqWinMain, w'.bits k = true ↔ k = seq % gssSeqWinMain ∨
      w.bits k = true ∧ ∀ r, w.max < r → r ≤ w'.max → r % gssSeqWinMain ≠ k) :
    Exact w' (seq :: accepted) := by
  have rises : w.max ≤ w'.max ∧ seq ≤ w'.max ∧ (w'.max = w.max ∨ w'.max = seq) := by
    omega
  refine ⟨forall_mem_cons.mpr ⟨rises.2.1, fun q mem => (exact.upper q mem).trans rises.1⟩, ?_, ?_⟩
  · rcases rises.2.2 with same | same
    · rw [same]
      exact exact.reached.imp id (mem_cons_of_mem _)
    · exact .inr (same ▸ mem_cons_self)
  · intro k inside
    rw [bits k inside, exact.bits k inside]
    constructor
    · rintro (rfl | ⟨⟨q, mem, close, rfl⟩, past⟩)
      · exact ⟨seq, mem_cons_self, by omega, rfl⟩
      · refine ⟨q, mem_cons_of_mem _ mem, ?_, rfl⟩
        by_contra far
        exact past (q + gssSeqWinMain) close (by omega) (Nat.add_mod_right _ _)
    · rintro ⟨q, mem, close, rfl⟩
      rcases mem_cons.mp mem with rfl | mem
      · exact .inl rfl
      · have below := exact.upper q mem
        exact .inr ⟨⟨q, mem, by omega, rfl⟩, fun r low high => (bit_ne (by omega) (by omega)).symm⟩

variable {s : Context}

theorem submit_accept
    (initial : gssDoCheckSeq gssSeqWinMain s.ssd.main seq .initial = (.accept, s.ssd.main))
    (final : gssDoCheckSeq gssSeqWinMain s.ssd.main seq .main = (.accept, w)) :
    (s.submit seq).ssd.main = w ∧ (s.submit seq).accepted = seq :: s.accepted := by
  simp [Context.submit, Context.enter, Context.finish, gssCheckSeqNum, initial, final]

theorem submit_replay
    (initial : gssDoCheckSeq gssSeqWinMain s.ssd.main seq .initial = (.replay, s.ssd.main)) :
    s.submit seq = s := by
  simp [Context.submit, Context.enter, gssCheckSeqNum, initial]

/-- What submitting a number does while no sum wraps around. -/
structure Submitted (s : Context) (seq : Nat) (s' : Context) : Prop where
  decided : Acceptable s.accepted seq ∧ s'.accepted = seq :: s.accepted ∨
    ¬ Acceptable s.accepted seq ∧ s'.accepted = s.accepted
  exact : Exact s'.ssd.main s'.accepted
  max : s'.ssd.main.max = s.ssd.main.max ∨ s'.ssd.main.max = seq

theorem submit_submitted (exact : Exact s.ssd.main s.accepted)
    (small : s.ssd.main.max + gssSeqWinMain < 2 ^ 32) (fits : seq + gssSeqWinMain < 2 ^ 32) :
    Submitted s seq (s.submit seq) := by
  have size : gssSeqWinMain = 2048 := rfl
  have sum : add32 seq gssSeqWinMain = seq + gssSeqWinMain := Nat.mod_eq_of_lt fits
  have takes {w : Window} (fresh : seq ∉ s.accepted) (near : s.ssd.main.max < seq + gssSeqWinMain)
      (initial : gssDoCheckSeq gssSeqWinMain s.ssd.main seq .initial = (.accept, s.ssd.main))
      (final : gssDoCheckSeq gssSeqWinMain s.ssd.main seq .main =
        (.accept, w.setBit (seq % gssSeqWinMain)))
      (top : w.max = max s.ssd.main.max seq)
      (bits : ∀ k < gssSeqWinMain, w.bits k = true ↔ s.ssd.main.bits k = true ∧
        ∀ r, s.ssd.main.max < r → r ≤ w.max → r % gssSeqWinMain ≠ k) :
      Submitted s seq (s.submit seq) := by
    obtain ⟨main, list⟩ := submit_accept initial final
    refine ⟨.inl ⟨⟨fresh, fun q mem => ?_⟩, list⟩, ?_, ?_⟩
    · have := exact.upper q mem
      omega
    · rw [main, list]
      refine exact.accept near top fun k inside => ?_
      show update w.bits _ true k = true ↔ _
      rw [update_apply]
      split
      · exact iff_of_true rfl (.inl ‹_›)
      · rw [bits k inside, or_iff_right ‹_›]
        rfl
    · rw [main]
      show w.max = _ ∨ w.max = _
      omega
  by_cases above : s.ssd.main.max < seq
  · refine takes (w := s.ssd.main.raise gssSeqWinMain seq)
      (fun mem => not_lt.mpr (exact.upper seq mem) above) (by omega) ?_ ?_ ?_ fun k inside => ?_
    · rw [gssDoCheckSeq, if_pos above]
    · rw [gssDoCheckSeq, if_pos above]
    · rw [raise_max above]
      omega
    · rw [raise_max above, raise_bits small above inside]
  by_cases low : seq + gssSeqWinMain ≤ s.ssd.main.max
  · rw [submit_replay (by rw [gssDoCheckSeq, if_neg above, sum, if_pos low])]
    refine ⟨.inr ⟨fun acceptable => ?_, rfl⟩, exact, .inl rfl⟩
    have := acceptable.2 _ (exact.reached.resolve_left (by omega))
    omega
  · have seen : s.ssd.main.bits (seq % gssSeqWinMain) = true ↔ seq ∈ s.accepted := by
      rw [exact.bits _ (Nat.mod_lt _ (by omega))]
      constructor
      · rintro ⟨q, mem, near, same⟩
        have below := exact.upper q mem
        rcases Nat.lt_trichotomy q seq with less | rfl | more
        · exact absurd same (bit_ne less (by omega))
        · exact mem
        · exact absurd same.symm (bit_ne more (by omega))
      · exact fun mem => ⟨seq, mem, by omega, rfl⟩
    by_cases mem : seq ∈ s.accepted
    · rw [submit_replay (by rw [gssDoCheckSeq, if_neg above, sum, if_neg low]; simp [seen.mpr mem])]
      exact ⟨.inr ⟨fun acceptable => acceptable.1 mem, rfl⟩, exact, .inl rfl⟩
    · have clear := mt seen.mp mem
      refine takes (w := s.ssd.main) mem (by omega) ?_ ?_ (by omega) fun k inside => ?_
      · rw [gssDoCheckSeq, if_neg above, sum, if_neg low]
        simp [clear]
      · rw [gssDoCheckSeq, if_neg above, sum, if_neg low]
        simp [clear]
      · exact (and_iff_left fun r low high => absurd low (not_lt.mpr high)).symm

/-- The window stays exact, and no sum wraps around, while the numbers are below the end. -/
theorem foldl_exact {numbers : List Nat} (low : ∀ q ∈ numbers, q < 2 ^ 32 - gssSeqWinMain)
    (exact : Exact s.ssd.main s.accepted) (small : s.ssd.main.max + gssSeqWinMain < 2 ^ 32) :
    Exact (numbers.foldl Context.submit s).ssd.main (numbers.foldl Context.submit s).accepted ∧
      (numbers.foldl Context.submit s).ssd.main.max + gssSeqWinMain < 2 ^ 32 := by
  induction numbers generalizing s with
  | nil => exact ⟨exact, small⟩
  | cons q numbers ih =>
    obtain ⟨first, low⟩ := forall_mem_cons.mp low
    have fits : q + gssSeqWinMain < 2 ^ 32 := Nat.add_lt_of_lt_sub first
    have done := submit_submitted exact small fits
    refine ih low done.exact ?_
    rcases done.max with same | same
    · rw [same]
      exact small
    · rw [same]
      exact fits

end Exactly

/-- Numbers one after the other, none within a window of the end of the 32-bit range: the next is
accepted exactly when it should be, and the bits are exact behind it. -/
theorem window_exact_below_end (numbers : List Nat) (seq : Nat)
    (low : ∀ q ∈ seq :: numbers, q < 2 ^ 32 - gssSeqWinMain) :
    Submitted (numbers.foldl Context.submit start) seq
      ((numbers.foldl Context.submit start).submit seq) := by
  obtain ⟨first, low⟩ := forall_mem_cons.mp low
  have empty : Exact start.ssd.main start.accepted :=
    ⟨nofun, .inl rfl, fun k _ => iff_of_false nofun nofun⟩
  obtain ⟨exact, small⟩ := foldl_exact low empty (by decide)
  exact submit_submitted exact small (Nat.add_lt_of_lt_sub first)

theorem window_exact_below_end_reordered : Submitted ([5, 3000, 4].foldl Context.submit start) 2000
      (([5, 3000, 4].foldl Context.submit start).submit 2000) :=
  window_exact_below_end [5, 3000, 4] 2000 (by decide)

/-- Near the end the sum wraps around: a new number directly below the largest is taken for one behind
the window. -/
theorem number_near_end_refused :
    (start.submit (2 ^ 32 - 1)).accepted = [2 ^ 32 - 1] ∧ Acceptable [2 ^ 32 - 1] (2 ^ 32 - 2) ∧
      ((start.submit (2 ^ 32 - 1)).submit (2 ^ 32 - 2)).accepted = [2 ^ 32 - 1] := by
  exact ⟨rfl, ⟨by decide, forall_mem_singleton.mpr (by decide)⟩, by decide +kernel⟩

end Ptlrpc.Gss
