/-
Module: Lustre.Obdfilter.GrantLedger
Purpose: The totals of the grant code are the sums over the exports, and what is pending on an
  export is what its writes in progress hold.
Trusted boundary: what the calls of a write return is part of the event
-/
import Lustre.Lib.Accounts
import Lustre.Obdfilter.Grant

namespace Obdfilter.Grant

open Function Accounts Run Words List

/-- What an export adds to a total. -/
def Fed.part (amount : Fed → Int) (fed : Fed) : Int := if fed.live then amount fed else 0

/-- The totals are the sums over all exports that exist, and no counter is negative. -/
structure Ledger (s : Server) : Prop where
  granted : (s.totGranted : Int) = total (Fed.part fun fed => fed.grant + fed.pending) s.feds s.nextExp
  pending : (s.totPending : Int) = total (Fed.part Fed.pending) s.feds s.nextExp
  dirty : (s.totDirty : Int) = total (Fed.part Fed.dirty) s.feds s.nextExp
  nonneg : ∀ e, 0 ≤ (s.feds e).grant ∧ 0 ≤ (s.feds e).pending ∧ 0 ≤ (s.feds e).dirty

/-- What the writes in progress of an export hold. -/
def owed (writes : List Write) (e : Nat) : Nat :=
  (writes.map fun w => if w.exp = e then w.grantUsed.sum else 0).sum

/-- The ledger, with the bounds that keep the words from wrapping. -/
structure Kept (ost : Ost) (s : Server) : Prop where
  ledger : Ledger s
  born : ∀ e, (s.feds e).live = true → e < s.nextExp
  linked : ∀ e, (s.feds e).linked = true → (s.feds e).live = true
  size : s.totGranted ≤ ost.size
  word : s.totDirty < 2 ^ 64
  small : ∀ e, (s.feds e).dirty ≤ ost.size
  bavail : s.bavail ≤ ost.blocks
  prepared : ∀ w ∈ s.writes, w.grantUsed.sum ≤ ost.size

variable {left : Nat} {fed : Fed} {more fedGrant : Int} {oa : Oa} {w : Write} {st : Statfs}

section Sections

variable {ost : Ost} {s s' : Server} {e : Nat}

/-- The counters of one export are parts of the totals. -/
theorem Kept.bounds (kept : Kept ost s) (live : (s.feds e).live = true) :
    0 ≤ (s.feds e).grant ∧ 0 ≤ (s.feds e).pending ∧ 0 ≤ (s.feds e).dirty ∧
      (s.feds e).grant + (s.feds e).pending ≤ s.totGranted ∧ (s.feds e).pending ≤ s.totPending ∧
      (s.feds e).dirty ≤ s.totDirty ∧ s.totPending ≤ s.totGranted ∧ s.totGranted ≤ ost.size ∧
      ost.size < 2 ^ 63 ∧ (s.feds e).dirty ≤ ost.size ∧ s.totDirty < 2 ^ 64 ∧
      s.bavail ≤ ost.blocks := by
  obtain ⟨⟨granted, pending, dirty, nonneg⟩, born, _, size, word, small, bavail, _⟩ := kept
  have parts (amount : Fed → Int) (each : ∀ i, 0 ≤ amount (s.feds i)) :
      amount (s.feds e) ≤ total (Fed.part amount) s.feds s.nextExp := by
    have positive (i : Nat) : 0 ≤ (s.feds i).part amount := by
      unfold Fed.part
      split <;> simp [each]
    have one := le_total (Fed.part amount) positive (born e live)
    rwa [show (s.feds e).part amount = amount (s.feds e) from if_pos live] at one
  have less : total (Fed.part Fed.pending) s.feds s.nextExp ≤
      total (Fed.part fun fed => fed.grant + fed.pending) s.feds s.nextExp := by
    refine Finset.sum_le_sum fun i _ => ?_
    have := nonneg i
    simp only [Fed.part]
    split <;> omega
  have one : (s.feds e).grant + (s.feds e).pending ≤ _ :=
    parts (fun fed => fed.grant + fed.pending) fun i =>
      Int.add_nonneg (nonneg i).1 (nonneg i).2.1
  have two := parts Fed.pending fun i => (nonneg i).2.1
  have three := parts Fed.dirty fun i => (nonneg i).2.2
  have := nonneg e
  exact ⟨by omega, by omega, by omega, by omega, by omega, by omega, by omega, size, ost.fits, small e,
    word, bavail⟩

/-- One export and the totals move together, and stay inside their bounds. -/
def Counts (ost : Ost) (s s' : Server) (fed fed' : Fed) : Prop :=
  (s'.totGranted : Int) = s.totGranted + (fed'.part (fun fed => fed.grant + fed.pending) -
      fed.part fun fed => fed.grant + fed.pending) ∧
    (s'.totPending : Int) = s.totPending + (fed'.part Fed.pending - fed.part Fed.pending) ∧
    (s'.totDirty : Int) = s.totDirty + (fed'.part Fed.dirty - fed.part Fed.dirty) ∧
    0 ≤ fed'.grant ∧ 0 ≤ fed'.pending ∧ 0 ≤ fed'.dirty ∧ fed'.dirty ≤ ost.size ∧
    s'.totGranted ≤ ost.size ∧ s'.totDirty < 2 ^ 64 ∧ s'.bavail ≤ ost.blocks

/-- A change of one export, which may be a new one, keeps the ledger. -/
theorem Kept.move (kept : Kept ost s) (feds : s'.feds = update s.feds e fed)
    (next : e < s.nextExp ∧ s'.nextExp = s.nextExp ∨ e = s.nextExp ∧ s'.nextExp = s.nextExp + 1)
    (writes : s'.writes = s.writes) (links : fed.linked = true → fed.live = true)
    (counts : Counts ost s s' (s.feds e) fed) : Kept ost s' := by
  have sum (amount : Fed → Int) : total (Fed.part amount) s'.feds s'.nextExp =
      total (Fed.part amount) s.feds s.nextExp + (fed.part amount - (s.feds e).part amount) := by
    rw [feds]
    rcases next with ⟨inside, same⟩ | ⟨rfl, more⟩
    · rw [same, total_update _ _ inside]
      omega
    · -- the number had no export
      have dead : (s.feds s.nextExp).part amount = 0 :=
        if_neg fun live => lt_irrefl _ (kept.born _ live)
      rw [more, total, Finset.sum_range_succ, ← total, total_update_outside _ _ le_rfl, update_self, dead]
      omega
  have each {P : Nat → Fed → Prop} (here : P e fed) (others : ∀ e', P e' (s.feds e')) (e' : Nat) :
      P e' (s'.feds e') := by
    rw [feds]
    exact Function.forall_update_iff s.feds P |>.mpr ⟨here, fun e' _ => others e'⟩ e'
  obtain ⟨granted, pending, dirty, grant₀, pending₀, dirty₀, small, size, word, bavail⟩ := counts
  obtain ⟨ledger, born, linked, _, _, smalls, _, prepared⟩ := kept
  refine ⟨⟨?_, ?_, ?_, ?_⟩, ?_, each (P := fun _ f => f.linked = true → f.live = true) links linked,
    size, word,
    each (P := fun _ f => f.dirty ≤ (ost.size : Int)) small smalls, bavail, writes ▸ prepared⟩
  · rw [granted, sum, ledger.granted]
  · rw [pending, sum, ledger.pending]
  · rw [dirty, sum, ledger.dirty]
  · exact each (P := fun _ f => 0 ≤ f.grant ∧ 0 ≤ f.pending ∧ 0 ≤ f.dirty) ⟨grant₀, pending₀, dirty₀⟩
      ledger.nonneg
  · refine each (P := fun e' f => f.live = true → e' < s'.nextExp) (fun _ => by omega) fun e' live => ?_
    have := born e' live
    omega

/-- The rest of the server does not count. -/
theorem Kept.frame (kept : Kept ost s) (clients : Int) {writes : List Write} {bavail : Nat}
    (possible : bavail ≤ ost.blocks) (statfsDone : Bool)
    (prepared : ∀ w ∈ writes, w.grantUsed.sum ≤ ost.size) :
    Kept ost { s with
      clients := clients, writes := writes, bavail := bavail, statfsDone := statfsDone } :=
  { kept with ledger := { kept.ledger with }, bavail := possible, prepared := prepared }

/-! ### The sections, one function at a time -/

/-- The announced amount of dirty data is one the file system can hold, and the total stays a word. -/
def DirtyFits (ost : Ost) (s : Server) (e : Nat) (oa : Oa) : Prop :=
  (2 ^ 63 ≤ oa.dirty.toNat ∨ oa.dirty.toNat ≤ ost.size ∨
    (s.feds e).grant + (4 * filterGrantChunk : Nat) ≤ ost.size) ∧ s.totDirty + ost.size < 2 ^ 64

/-- A message that is taken in gives nothing back and announces no more than that. -/
def Modest (ost : Ost) (s : Server) (e : Nat) (oa : Oa) : Prop :=
  oa.flBlocks = true ∧ oa.flGrant = true →
    ¬ (oa.flFlags = true ∧ oa.shrinkGrant = true) ∧ DirtyFits ost s e oa

theorem DirtyFits.believed (fits : DirtyFits ost s e oa) (nonneg : 0 ≤ (s.feds e).grant) :
    believedDirty (s.feds e) oa ≤ ost.size := by
  have room := fits.1
  unfold believedDirty u64
  split <;> omega

theorem freeSpace_le (ost : Ost) {bavail : Nat} (possible : bavail ≤ ost.blocks) :
    freeSpace ost bavail ≤ ost.size := by
  unfold freeSpace Ost.size
  dsimp only
  split
  · exact Nat.mul_le_mul_right _ ((Nat.sub_le _ _).trans ((Nat.sub_le _ _).trans possible))
  · exact Nat.zero_le _

theorem newGrant_le (ost : Ost) (fed : Fed) (current want left : Nat) (conservative : Bool) :
    newGrant ost fed current want left conservative ≤ left := by
  have part : min (want + 2 ^ ost.blockbits - 1) (left / 8) / 2 ^ ost.blockbits * 2 ^ ost.blockbits ≤
      left := by
    refine (Nat.div_mul_le_self _ _).trans ((min_le_right _ _).trans ?_)
    exact Nat.div_le_self _ _
  unfold newGrant
  split
  · exact Nat.zero_le _
  · grind

section

variable (kept : Kept ost s)

include kept

/-- A change of a living export. -/
theorem Kept.change (live : (s.feds e).live = true) (feds : s'.feds = update s.feds e fed)
    (writes : s'.writes = s.writes) (next : s'.nextExp = s.nextExp) (lives : fed.live = (s.feds e).live)
    (counts : Counts ost s s' (s.feds e) fed) : Kept ost s' :=
  kept.move feds (.inl ⟨kept.born e live, next⟩) writes (fun _ => lives.trans live) counts

theorem filterGrantSpaceLeft_kept (possible : st.possible ost) :
    Kept ost (filterGrantSpaceLeft ost s st).2 ∧ (filterGrantSpaceLeft ost s st).2.feds = s.feds ∧
      (filterGrantSpaceLeft ost s st).1 + (filterGrantSpaceLeft ost s st).2.totGranted ≤ ost.size := by
  have size := kept.size
  have old := freeSpace_le ost kept.bavail
  have blocks : st.bavail ≤ ost.blocks := of_decide_eq_true possible
  have new := freeSpace_le ost blocks
  unfold filterGrantSpaceLeft
  split
  · split
    · exact ⟨kept, rfl, by dsimp only; omega⟩
    · exact ⟨kept.frame _ blocks _ kept.prepared, rfl, by dsimp only; omega⟩
  · exact ⟨kept, rfl, by dsimp only; omega⟩

theorem filterGrantCommit_kept (live : (s.feds w.exp).live = true)
    (covered : (w.grantUsed.sum : Int) ≤ (s.feds w.exp).pending) :
    ∃ s', filterGrantCommit s w = .ok s' ∧ Kept ost s' := by
  have bounds := kept.bounds live
  simp (disch := omega) only [filterGrantCommit, u64_toNat, s64_of_range, lassert, if_pos, bind_ok]
  refine ⟨_, rfl, kept.change live rfl rfl rfl rfl ?_⟩
  simp only [Counts, Fed.part, live, if_true, Server.setFed]
  omega

theorem filterGrantSanityCheck_kept : filterGrantSanityCheck ost s = .ok s := by
  have within : s.linked.all (fun e => withinSize ost (s.feds e)) = true := by
    refine all_eq_true.mpr fun e mem => ?_
    have bounds := kept.bounds (kept.linked e (mem_filter.mp mem).2)
    simp (disch := omega) only [withinSize, u64_toNat]
    exact decide_eq_true (by omega)
  unfold filterGrantSanityCheck
  split
  · rfl
  · rw [lassert, if_pos fun _ _ => within]
    rfl

variable (live : (s.feds e).live = true)

include live

theorem Kept.fed_nonneg : (s.feds e).Nonneg := by
  have := kept.bounds live
  constructor <;> omega

theorem announce_kept (fits : DirtyFits ost s e oa) : Kept ost (announce s e oa) := by
  have nonneg := kept.fed_nonneg live
  have bounds := kept.bounds live
  have believed := fits.believed nonneg.grant
  have dropped := believedDropped_le s nonneg oa
  have room := fits.2
  have granted : ((announce s e oa).totGranted : Int) =
      s.totGranted - believedDropped s (s.feds e) oa := u64_of_range (by omega) (by omega)
  have totDirty : ((announce s e oa).totDirty : Int) =
      s.totDirty + believedDirty (s.feds e) oa - (s.feds e).dirty := u64_of_range (by omega) (by omega)
  have same : (announce s e oa).totPending = s.totPending ∧ (announce s e oa).bavail = s.bavail :=
    ⟨rfl, rfl⟩
  refine kept.change live (announce_feds e oa nonneg) rfl rfl rfl ?_
  simp only [Counts, Fed.part, announced, live, if_true]
  omega

/-- Without the flag for it no grant is given back. -/
theorem filterGrantIncoming_kept (modest : Modest ost s e oa) (st : Statfs) :
    ∃ oa' s', filterGrantIncoming ost s e oa st = .ok (oa', s') ∧ Kept ost s' := by
  unfold filterGrantIncoming
  split
  · next valid =>
    obtain ⟨noShrink, fits⟩ := modest valid
    have idle : shrink ost (announce s e oa) e oa st = (oa, announce s e oa) := if_neg noShrink
    rw [idle]
    dsimp only
    rw [(announce_nonneg e oa (kept.fed_nonneg live)).not_negative]
    exact ⟨oa, _, rfl, announce_kept kept live fits⟩
  · exact ⟨_, s, rfl, kept⟩

theorem filterGrant_kept (current want : Nat) (room : left + s.totGranted ≤ ost.size)
    (conservative : Bool) :
    ∃ s', filterGrant ost s e current want left conservative = .ok s' ∧ Kept ost s' := by
  have bounds := kept.bounds live
  have limit := newGrant_le ost (s.feds e) current want left conservative
  unfold filterGrant
  dsimp only
  split
  · exact ⟨s, rfl, kept⟩
  simp (disch := omega) only [u64_natCast, s64_of_range]
  rw [if_neg (by omega)]
  refine ⟨_, rfl, kept.change live rfl rfl rfl rfl ?_⟩
  simp only [Counts, Fed.part, live, if_true, Server.setFed]
  omega

theorem filterGrantCheck_kept (oa : Oa) (room : left + s.totGranted ≤ ost.size)
    (pages : List Page) :
    ∃ left' paid s', filterGrantCheck ost s e oa left pages = .ok (left', paid, s') ∧ Kept ost s' ∧
      heldBy paid ≤ ost.size ∧ left' + s'.totGranted ≤ ost.size := by
  have bounds := kept.bounds live
  have sums := checked_sums ost (s.feds e).grant oa.flGrant left pages
  unfold filterGrantCheck
  dsimp only
  generalize checkPages ost (s.feds e).grant oa.flGrant left ⟨0, 0, [], false⟩ pages = c at sums
  have used := sums.used
  have ungranted := sums.ungranted
  rw [u64_toNat (by omega) (by omega)] at used ⊢
  generalize cleanedIs : min c.used (s.feds e).dirty.toNat = cleaned
  simp (disch := omega) only [u64_toNat, s64_of_range]
  have passed : Fed.negative { s.feds e with
      grant := (s.feds e).grant - c.used
      pending := (s.feds e).pending + (c.used + c.ungranted : Nat)
      dirty := (s.feds e).dirty - cleaned } = false :=
    decide_eq_false (by dsimp only; omega)
  rw [passed]
  refine ⟨_, _, _, rfl, kept.change live rfl rfl rfl rfl ?_, ?_, ?_⟩
  · have less := Nat.sub_le s.bavail ((c.used + c.ungranted + 1) / 2 ^ ost.blockbits)
    simp only [Counts, Fed.part, live, if_true]
    omega
  · rw [sums.held]
    omega
  · dsimp only
    omega

theorem filterGrantDiscard_kept :
    ∃ s', filterGrantDiscard s e = .ok s' ∧ Kept ost s' ∧
      s'.feds = update s.feds e { s.feds e with dirty := 0, grant := 0 } := by
  have bounds := kept.bounds live
  simp (disch := omega) only [filterGrantDiscard, u64_toNat, lassert, if_pos, bind_ok]
  refine ⟨_, rfl, kept.change live rfl rfl rfl rfl ?_, rfl⟩
  simp only [Counts, Fed.part, live, if_true, Server.setFed]
  omega

theorem connectInternal_kept (want : UInt32) (reconnect : Bool) (possible : st.possible ost) :
    ∃ s', connectInternal ost s e want reconnect st = .ok s' ∧ Kept ost s' := by
  obtain ⟨found, feds, room⟩ := filterGrantSpaceLeft_kept kept possible
  obtain ⟨s', granted, kept'⟩ := filterGrant_kept found (by rwa [feds])
    (u64 ((filterGrantSpaceLeft ost s st).2.feds e).grant) want.toNat room (!reconnect)
  unfold connectInternal
  dsimp only
  rw [granted, bind_ok]
  exact ⟨_, rfl, kept'.frame _ kept'.bavail _ kept'.prepared⟩

theorem grantWrite_kept (oa : Oa) (room : left + s.totGranted ≤ ost.size) :
    ∃ s', grantWrite ost s e oa left = .ok s' ∧ Kept ost s' := by
  unfold grantWrite
  split
  · exact filterGrant_kept kept live _ _ room true
  · exact ⟨s, rfl, kept⟩

theorem preprwWrite_kept (sane : Sane s) (modest : Modest ost s e oa)
    (pages : List Page) (st : Statfs) {st' : Statfs} (possible : st'.possible ost) :
    ∃ s', preprwWrite ost s e oa pages st st' = .ok s' ∧ Kept ost s' := by
  obtain ⟨oa', s₁, announced, kept₁⟩ := filterGrantIncoming_kept kept live modest st
  have live₁ := (filterGrantIncoming_moves sane announced).live.trans live
  obtain ⟨kept₂, feds, room⟩ := filterGrantSpaceLeft_kept kept₁ possible
  have live₂ : ((filterGrantSpaceLeft ost s₁ st').2.feds e).live = true := by rwa [feds]
  obtain ⟨left, paid, s₃, checked, kept₃, few, room₃⟩ := filterGrantCheck_kept kept₂ live₂ oa' room pages
  have live₃ := (filterGrantCheck_moves checked).live.trans live₂
  obtain ⟨s₄, granted, kept₄⟩ := grantWrite_kept kept₃ live₃ oa' room₃
  unfold preprwWrite
  rw [announced, bind_ok]
  dsimp only
  rw [checked, bind_ok]
  rw [granted, bind_ok]
  refine ⟨_, rfl, ?_⟩
  cases paid with
  | none => exact kept₄
  | some grantUsed =>
    exact kept₄.frame _ kept₄.bavail _ (forall_mem_cons.mpr ⟨few, kept₄.prepared⟩)

end

end Sections

/-! ### Writes in progress -/

/-- What the writes in progress hold together. -/
def owedTotal (writes : List Write) : Nat := (writes.map fun w => w.grantUsed.sum).sum

variable {e : Nat} {s' : Server}

theorem owed_erase {writes : List Write} (mem : w ∈ writes) (e : Nat) :
    owed writes e = (if e = w.exp then w.grantUsed.sum else 0) + owed (writes.erase w) e := by
  unfold owed
  rw [← sum_map_erase (fun w => if w.exp = e then w.grantUsed.sum else 0) mem]
  congr 1
  exact if_congr eq_comm rfl rfl

theorem owed_eq_zero {writes : List Write} (none : ∀ w ∈ writes, w.exp ≠ e) :
    owed writes e = 0 := by
  refine sum_eq_zero fun held mem => ?_
  obtain ⟨w, inside, rfl⟩ := mem_map.mp mem
  exact if_neg (none w inside)

/-- Nothing is pending but what the writes in progress hold, and their exports exist. -/
structure Tracked (s : Server) : Prop where
  fed : ∀ e, (s.feds e).pending % 2 ^ 64 = (owed s.writes e : Int) % 2 ^ 64
  total : s.totPending % 2 ^ 64 = owedTotal s.writes % 2 ^ 64
  alive : ∀ w ∈ s.writes, (s.feds w.exp).live = true
  born : ∀ e, (s.feds e).live = true → e < s.nextExp

section

variable {s s' : Server} {e : Nat} {fed : Fed} {n : Int} (tracked : Tracked s)

include tracked

/-- What is pending changes as the writes do. -/
theorem Tracked.moves {writes : List Write} (moves : Moves { s with writes := writes } s' e n)
    (alive : ∀ w ∈ writes, (s.feds w.exp).live = true)
    (one : ∀ e', (owed writes e' : Int) % 2 ^ 64 =
      (owed s.writes e' + if e' = e then n else 0) % 2 ^ 64)
    (all : (owedTotal writes : Int) % 2 ^ 64 = (owedTotal s.writes + n) % 2 ^ 64) : Tracked s' := by
  have lives (e' : Nat) : (s'.feds e').live = (s.feds e').live := by
    by_cases same : e' = e
    · exact same ▸ moves.live
    · rw [moves.others e' same]
  refine ⟨fun e' => ?_, ?_, fun w mem => ?_, fun e' live => ?_⟩
  · have one := one e'
    have before := tracked.fed e'
    rw [moves.writes]
    by_cases same : e' = e
    · have after := moves.pending
      subst same
      dsimp only at after ⊢
      omega
    · rw [moves.others e' same]
      dsimp only
      omega
  · have after := moves.total
    have before := tracked.total
    rw [moves.writes]
    dsimp only at after ⊢
    omega
  · rw [moves.writes] at mem
    exact (lives _).trans (alive w mem)
  · rw [moves.next]
    exact tracked.born e' ((lives e').symm.trans live)

theorem Tracked.same (moves : Moves s s' e 0) : Tracked s' :=
  tracked.moves moves tracked.alive (fun _ => by simp) (by simp)

/-- A write ends; what is pending changes by as much, up to whole words. -/
theorem Tracked.leave {w : Write} (mem : w ∈ s.writes)
    (moves : Moves { s with writes := s.writes.erase w } s' w.exp n)
    (amount : n % 2 ^ 64 = -w.grantUsed.sum % 2 ^ 64) : Tracked s' := by
  refine tracked.moves moves (fun w' mem' => tracked.alive w' (mem_of_mem_erase mem')) (fun e' => ?_) ?_
  · rw [owed_erase mem]
    split <;> omega
  · rw [owedTotal, owedTotal, ← sum_map_erase (fun w => w.grantUsed.sum) mem]
    omega

/-- An export without writes comes or goes. -/
theorem Tracked.replace (feds : s'.feds = update s.feds e fed) (none : ∀ w ∈ s.writes, w.exp ≠ e)
    (pending : fed.pending % 2 ^ 64 = 0) (born : fed.live = true → e < s'.nextExp)
    (next : s.nextExp ≤ s'.nextExp) (total : s'.totPending = s.totPending)
    (writes : s'.writes = s.writes) : Tracked s' := by
  refine ⟨fun e' => ?_, by rw [total, writes, tracked.total], fun w mem => ?_, fun e' => ?_⟩
  · rw [feds, writes, update_apply]
    split
    · next same => rw [pending, same, owed_eq_zero none]; rfl
    · exact tracked.fed e'
  · rw [writes] at mem
    rw [feds, update_of_ne (none w mem)]
    exact tracked.alive w mem
  · rw [feds, update_apply]
    split
    · next same => exact fun live => same ▸ born live
    · exact fun live => (tracked.born e' live).trans_le next

theorem Tracked.step {label : Label} (effect : Effect s label s')
    (returns : ∀ w, label = .abandon w → w.grantUsed.sum % 2 ^ 64 = 0) : Tracked s' := by
  cases effect with
  | moves moves => exact tracked.same moves
  | @write _ _ e grantUsed live moves =>
    refine tracked.moves moves (forall_mem_cons.mpr ⟨live, tracked.alive⟩) (fun e' => ?_) ?_
    · rw [owed, map_cons, sum_cons, ← owed, if_congr eq_comm rfl rfl]
      dsimp only
      split <;> omega
    · rw [owedTotal, map_cons, sum_cons, ← owedTotal]
      dsimp only
      omega
  | commit mem moves => exact tracked.leave mem moves rfl
  | abandon mem moves =>
    have none := returns _ rfl
    exact tracked.leave mem moves (by omega)
  | @connect _ _ shrink moves =>
    have unborn (w : Write) (mem : w ∈ s.writes) : w.exp ≠ s.nextExp :=
      ne_of_lt (tracked.born w.exp (tracked.alive w mem))
    have fresh : Tracked (s.accept shrink) :=
      tracked.replace rfl unborn rfl (fun _ => Nat.lt_succ_self _) (Nat.le_succ _) rfl rfl
    exact fresh.same moves
  | @destroy s₁ e _ none moves =>
    have discarded := tracked.same moves
    have none : ∀ w ∈ s₁.writes, w.exp ≠ e := moves.writes ▸ none
    refine discarded.replace rfl none ?_ Bool.noConfusion le_rfl rfl rfl
    exact (discarded.fed e).trans (by rw [owed_eq_zero none]; rfl)

end

/-! ### Runs -/

/-- Messages are modest, and a write that holds grant is not abandoned. -/
def Orderly (ost : Ost) (s : Server) : Label → Prop
  | .incoming e oa _ | .write e oa _ _ _ => Modest ost s e oa
  | .abandon w => w.grantUsed.sum = 0
  | _ => True

instance (ost : Ost) (s : Server) (e : Nat) (oa : Oa) : Decidable (DirtyFits ost s e oa) :=
  inferInstanceAs (Decidable (_ ∧ _))

instance (ost : Ost) (s : Server) : DecidablePred (Orderly ost s)
  | .incoming _ _ _ | .write _ _ _ _ _ => inferInstanceAs (Decidable (_ → _ ∧ _))
  | .abandon _ => inferInstanceAs (Decidable (_ = _))
  | .commit _ | .connect _ _ _ _ | .reconnect _ _ _ _ | .sanityCheck | .disconnect _ | .unlink _
  | .destroy _ | .statfs _ => inferInstanceAs (Decidable True)

/-- The ledger, and every byte that is pending is held by a write in progress. -/
structure Square (ost : Ost) (s : Server) : Prop where
  kept : Kept ost s
  sane : Sane s
  tracked : Tracked s
  few : ∀ e, owed s.writes e < 2 ^ 64

section

variable {ost : Ost} {s : Server} {label : Label} (square : Square ost s)

include square

theorem Square.held (e : Nat) : (s.feds e).pending = owed s.writes e := by
  have nonneg := (square.sane.feds e).pending
  have fits := (square.sane.feds e).pendingFits
  have same := square.tracked.fed e
  have few := square.few e
  omega

/-- A write that is prepared holds no more than the file system has, so the sums stay words. -/
theorem Square.few_step (effect : Effect s label s') (kept : Kept ost s') (e : Nat) :
    owed s'.writes e < 2 ^ 64 := by
  have few := square.few e
  cases effect with
  | moves moves | connect moves => rwa [moves.writes]
  | destroy _ moves => rwa [← moves.writes] at few
  | commit mem moves | abandon mem moves =>
    have erased := owed_erase mem e
    rw [moves.writes]
    dsimp only
    omega
  | write live moves =>
    have used := kept.prepared
    rw [moves.writes] at used ⊢
    have used := used _ mem_cons_self
    have held := square.held e
    have fits := (square.sane.feds e).pendingFits
    have size : ost.size < 2 ^ 63 := ost.fits
    dsimp only at used ⊢
    rw [owed, map_cons, sum_cons, ← owed]
    dsimp only
    split <;> omega

theorem connect_kept (shrink : Bool) : Kept ost (s.accept shrink) := by
  have dead : ¬ (s.feds s.nextExp).live = true := fun live => lt_irrefl _ (square.kept.born _ live)
  have size := square.kept.size
  have word : s.totDirty < 18446744073709551616 := square.kept.word
  have possible := square.kept.bavail
  refine square.kept.move rfl (.inr ⟨rfl, rfl⟩) rfl (fun _ => rfl) ?_
  simp only [Counts, Fed.part, dead, Server.accept, Server.setFed]
  simp [size, word, possible]

theorem destroy_kept (live : (s.feds e).live = true) (none : ∀ w ∈ s.writes, w.exp ≠ e) :
    ∃ s', filterDestroyExport s e = .ok s' ∧ Kept ost s' := by
  obtain ⟨s', discarded, kept, feds⟩ := filterGrantDiscard_kept square.kept live
  have fed : s'.feds e = { s.feds e with dirty := 0, grant := 0 } := by rw [feds, update_self]
  have live' : (s'.feds e).live = true := by rwa [fed]
  have pending : (s.feds e).pending = 0 :=
    (square.held e).trans (congrArg Nat.cast (owed_eq_zero none))
  have bounds := kept.bounds live'
  unfold filterDestroyExport
  rw [discarded, bind_ok]
  refine ⟨_, rfl, kept.move rfl (.inl ⟨kept.born e live', rfl⟩) rfl Bool.noConfusion ?_⟩
  simp only [Counts, Fed.part, live', if_true, Server.setFed, Bool.false_eq_true, if_false]
  rw [fed] at bounds ⊢
  dsimp only at *
  omega

theorem step_kept (orderly : Orderly ost s label) :
    Outcome (Kept ost) (· = .disabled) (step ost s label) := by
  have kept := square.kept
  have succeeds {x : Except Fault Server} (done : ∃ s', x = .ok s' ∧ Kept ost s') :
      Outcome (Kept ost) (· = .disabled) x := by
    obtain ⟨s', rfl, kept⟩ := done
    exact kept
  cases label with
  | incoming e oa st =>
    refine .guard rfl fun enabled => ?_
    obtain ⟨oa', s', done, kept'⟩ := filterGrantIncoming_kept kept enabled.1 orderly st
    rw [done]
    exact kept'
  | write e oa pages st st' =>
    refine .guard rfl fun enabled => succeeds ?_
    exact preprwWrite_kept kept enabled.1 square.sane orderly pages st enabled.2.2
  | commit w =>
    refine .guard rfl fun mem => succeeds ?_
    have less (w' : Write) (inside : w' ∈ s.writes.erase w) := kept.prepared w' (mem_of_mem_erase inside)
    refine filterGrantCommit_kept (kept.frame _ kept.bavail _ less) (square.tracked.alive w mem) ?_
    have erased := owed_erase mem w.exp
    rw [if_pos rfl] at erased
    exact (square.held w.exp).symm ▸ (by omega)
  | abandon w =>
    refine .guard rfl fun mem => kept.frame _ kept.bavail _ fun w' inside => ?_
    exact kept.prepared w' (mem_of_mem_erase inside)
  | connect grant shrink want st =>
    refine .guard rfl fun possible => ?_
    have fresh := connect_kept square shrink
    split
    · exact succeeds (connectInternal_kept fresh
        (congrArg Fed.live (setFed_same s s.nextExp _)) want false possible)
    · exact fresh
  | reconnect e grant want st =>
    refine .guard rfl fun enabled => ?_
    split
    · exact succeeds (connectInternal_kept kept (kept.linked e enabled.1) want true enabled.2)
    · exact kept
  | sanityCheck =>
    rw [step]
    rw [filterGrantSanityCheck_kept kept]
    exact kept
  | disconnect e =>
    refine .guard rfl fun linked => succeeds ?_
    obtain ⟨s', discarded, kept', -⟩ := filterGrantDiscard_kept kept (kept.linked e linked)
    exact ⟨s', discarded, kept'⟩
  | unlink e =>
    refine .guard rfl fun linked => ?_
    have live := kept.linked e linked
    have bounds := kept.bounds live
    refine kept.move rfl (.inl ⟨kept.born e live, rfl⟩) rfl Bool.noConfusion ?_
    simp only [Counts, Fed.part, live, if_true, Server.setFed]
    omega
  | destroy e => exact .guard rfl fun enabled => succeeds (destroy_kept square enabled.1 enabled.2)
  | statfs bavail => exact .guard rfl fun possible => kept.frame _ possible _ kept.prepared

end

theorem step_square {ost : Ost} (s : Server) (label : Label) (square : Square ost s)
    (orderly : Orderly ost s label) : Outcome (Square ost) (· = .disabled) (step ost s label) := by
  have kept := step_kept square orderly
  cases taken : step ost s label with
  | error fault => rwa [taken] at kept
  | ok s' =>
    rw [taken] at kept
    have effect := step_effect square.sane taken
    refine ⟨kept, step_sane square.sane taken, square.tracked.step effect ?_,
      square.few_step effect kept⟩
    rintro w rfl
    exact congrArg (· % 2 ^ 64) orderly

theorem start_tracked : Tracked start := ⟨fun _ => rfl, rfl, nofun, nofun⟩

theorem start_square (ost : Ost) : Square ost start :=
  { kept :=
      { ledger := ⟨rfl, rfl, rfl, fun _ => ⟨le_rfl, le_rfl, le_rfl⟩⟩
        born := nofun
        linked := nofun
        size := Nat.zero_le _
        word := by decide
        small := fun _ => Int.natCast_nonneg _
        bavail := Nat.zero_le _
        prepared := nofun }
    sane := start_sane
    tracked := start_tracked
    few := fun _ => Nat.two_pow_pos 64 }

/-- In every run whose messages announce dirty data that fits and give no grant back, and whose prepared
writes are committed, the totals are the sums over the exports, no counter is negative, and no assertion
fails. -/
theorem server_grant_ledger (ost : Ost) {labels : List Label}
    (orderly : Meets (step ost) (Orderly ost) start labels) :
    Outcome Ledger (· = .disabled) (run (step ost) start labels) :=
  (outcome_run step_square (start_square ost) orderly).mono fun _ square =>
    square.kept.ledger

/-- What a client with some dirty data sends along. -/
def dirtyOa (dirty : UInt64) : Oa := ⟨true, true, false, false, dirty, 0, 0, 0x400000⟩

/-- A page that the client has cached. -/
def cachedPage : Page := ⟨0, 4096, true, by decide⟩

/-- A page for which the client has no grant. -/
def directPage : Page := ⟨8192, 4096, false, by decide⟩

/-- A client connects, writes two pages and goes. -/
def shortLife : List Label :=
  [.connect true true 0x400000 ⟨true, false, 5000⟩,
    .write 0 (dirtyOa 0x80000) [cachedPage, directPage] ⟨false, false, 5000⟩ ⟨false, false, 5000⟩,
    .commit ⟨0, [4096, 4096]⟩, .disconnect 0, .sanityCheck, .unlink 0, .destroy 0]

theorem server_grant_ledger_short :
    Meets (step smallOst) (Orderly smallOst) start shortLife ∧
      ((run (step smallOst) start shortLife).map Server.totGranted).toOption = some 0 ∧
      Outcome Ledger (· = .disabled) (run (step smallOst) start shortLife) :=
  have orderly : Meets (step smallOst) (Orderly smallOst) start shortLife := by decide +kernel
  ⟨orderly, by decide +kernel, server_grant_ledger smallOst orderly⟩

/-- A write of an ungranted page is abandoned and its client goes: the totals count a page for no
export.  A client announces more dirty data than fits, which the next sanity check does not survive. -/
theorem abandoned_write_breaks_ledger :
    (∃ s, run (step smallOst) start
        [.connect false false 0 ⟨true, false, 5000⟩,
          .write 0 (dirtyOa 0) [directPage] ⟨false, false, 5000⟩ ⟨true, false, 5000⟩,
          .abandon ⟨0, [4096]⟩, .disconnect 0, .destroy 0] = .ok s ∧ ¬ Ledger s) ∧
      failure (run (step ⟨12, 1000, by decide, by decide⟩) start
        [.connect true false 0 ⟨true, false, 1000⟩, .incoming 0 (dirtyOa 0x800000) ⟨false, false, 0⟩,
          .sanityCheck]) = some .lassert := by
  refine ⟨?_, by decide +kernel⟩
  refine ⟨_, rfl, fun ledger => ?_⟩
  have pending := ledger.pending
  exact absurd pending (by decide +kernel)

/-! ### A write, from its arrival to its end -/

def enoent : Int := -2

def eio : Int := -5

def enomem : Int := -12

def enospc : Int := -28

def enotconn : Int := -107

/-- What `filter_fid2dentry` finds. -/
inductive Lookup where
  | failed (rc : Int)
  | noInode
  | inode
deriving DecidableEq, Repr

/-- The results of the calls of `filter_preprw_write` in front of its section, `obd_recovering`, and for
a missing object those of `filter_create` and the second lookup. -/
structure SetupIo where
  authCapa : Int
  iobufGet : Int
  lookup : Lookup
  recovering : Bool
  create : Int
  again : Lookup
  capaFixoa : Int
  mapRemote : Int
deriving DecidableEq, Repr

/-- What it meets behind the section: `filter_get_page`, `OBD_FAIL_OST_NOMEM`, and the read of pages
written in part. -/
structure PagesIo where
  getPage : Nat → Bool
  nomem : Bool
  directIo : Int

/-- What `ost_brw_write` meets behind `obd_preprw`: `ptlrpc_prep_bulk_exp`, `sptlrpc_svc_prep_bulk`,
`exp_failed` or `exp_abort_active_req` before the transfer, its start, and behind it the end of the
wait, the two bits again, `bd_success` and `sptlrpc_svc_unwrap_bulk`. -/
structure BulkIo where
  prepBulk : Bool
  svcPrepBulk : Int
  gone : Bool
  start : Int
  timedOut : Bool
  failed : Bool
  abortActive : Bool
  success : Bool
  unwrap : Int
deriving DecidableEq, Repr

/-- The results of the calls that can end `filter_commitrw_write`; `commitWait` is zero where it
does not wait. -/
structure CommitIo where
  iobufGet : Int
  chkquota : Int
  brwStart : Int
  directIo : Int
  commitWait : Int
deriving DecidableEq, Repr

/-- What a write meets behind the section. -/
structure WriteIo where
  pages : PagesIo
  bulk : BulkIo
  commit : CommitIo

/-- A write arrives, a write whose section is behind it ends, or a section of anything else. -/
inductive Event where
  | brwWrite (e : Nat) (oa : Oa) (pages : List Page) (io : SetupIo) (st st' : Statfs)
  | endWrite (w : Write) (io : WriteIo)
  | other (label : Label)

/-- Nothing is pending but what the writes in progress hold, on each export and in total. -/
structure Settled (s : Server) : Prop where
  fed : ∀ e, (s.feds e).pending = s64 (owed s.writes e)
  total : s.totPending % 2 ^ 64 = owedTotal s.writes % 2 ^ 64

end Obdfilter.Grant
