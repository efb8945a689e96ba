/-
Module: Lustre.Mdt.Transno
Purpose: The number rebuilt from `last_rcvd` after a crash covers every committed transaction.
Trusted boundary: none
-/
import Lustre.Mdt.Target

namespace Mdt

open Function List Run

/-- The slot with index `i` after a journal. -/
def slot (journal : List Entry) (i : Nat) : LsdClientData := slotAt (fileOf journal).slots i

/-- `lsd_last_transno` in the file after a journal. -/
def headerTransno (journal : List Entry) : Nat := (fileOf journal).header.lastTransno

section

variable (journal : List Entry) (transno : Nat) (lsd : LrServerData) (i : Nat) (lcd : LsdClientData)

theorem fileOf_append (entry : Entry) :
    fileOf (journal ++ [entry]) = (fileOf journal).apply entry.write := by
  rw [fileOf, foldl_append]
  rfl

@[simp] theorem slot_header :
    slot (journal ++ [⟨transno, .header lsd⟩]) i = slot journal i := by
  rw [slot, fileOf_append]
  rfl

@[simp] theorem headerTransno_header :
    headerTransno (journal ++ [⟨transno, .header lsd⟩]) = lsd.lastTransno := by
  rw [headerTransno, fileOf_append]
  rfl

@[simp] theorem headerTransno_slot :
    headerTransno (journal ++ [⟨transno, .slot i lcd⟩]) = headerTransno journal := by
  rw [headerTransno, fileOf_append]
  rfl

@[simp] theorem slot_slot_self : slot (journal ++ [⟨transno, .slot i lcd⟩]) i = lcd := by
  rw [slot, fileOf_append, LastRcvd.apply, slotAt, getD_eq_getElem?_getD,
    getElem?_set_self (by simp; omega)]
  rfl

variable {i}

theorem slot_slot_ne {k : Nat} (other : k ≠ i) :
    slot (journal ++ [⟨transno, .slot i lcd⟩]) k = slot journal k := by
  rw [slot, fileOf_append, LastRcvd.apply, slotAt, getD_eq_getElem?_getD,
    getElem?_set_ne (Ne.symm other), ← getD_eq_getElem?_getD]
  grind [slot, slotAt]

end

variable {i : Nat}

/-! ### Covered journals -/

/-- A slot of a client that is not deleted. -/
abbrev Live (lcd : LsdClientData) : Prop := lcd.uuid ≠ 0

/-- The file covers the journal: no client has two slots, and every transaction number is at most that in
the header or in its slot. -/
structure Covered (journal : List Entry) : Prop where
  distinct : ∀ i k, Live (slot journal i) → (slot journal k).uuid = (slot journal i).uuid → k = i
  kept : ∀ entry ∈ journal, entry.transno ≤ headerTransno journal ∨
    ∃ i lcd, entry.write = .slot i lcd ∧ Live (slot journal i) ∧
      entry.transno ≤ lcdLastTransno (slot journal i)

variable {journal : List Entry}

/-- The header may only grow. -/
theorem Covered.header (covered : Covered journal) {lsd : LrServerData}
    (grows : headerTransno journal ≤ lsd.lastTransno) :
    Covered (journal ++ [⟨0, .header lsd⟩]) where
  distinct := by
    intro i k
    rw [slot_header, slot_header]
    exact covered.distinct i k
  kept := by
    simp only [headerTransno_header, slot_header]
    refine forall_mem_append.mpr ⟨fun entry old => ?_,
      forall_mem_singleton.mpr (.inl (Nat.zero_le _))⟩
    rcases covered.kept entry old with below | bySlot
    · exact .inl (below.trans grows)
    · exact .inr bySlot

/-- Writes of a slot that keep the file covered: the client has no other slot, and its new contents or
the header cover what the slot covered. -/
structure SlotWrite (journal : List Entry) (transno i : Nat) (lcd : LsdClientData) : Prop where
  alone : Live lcd → ∀ k, k ≠ i → (slot journal k).uuid ≠ lcd.uuid
  covers : transno ≤ headerTransno journal ∨ Live lcd ∧ transno ≤ lcdLastTransno lcd
  keeps : Live (slot journal i) →
    Live lcd ∧ lcdLastTransno (slot journal i) ≤ lcdLastTransno lcd ∨
    ∀ entry ∈ journal, ∀ before, entry.write = .slot i before →
      entry.transno ≤ headerTransno journal

variable {lcd : LsdClientData} {transno : Nat}

theorem Covered.slot (covered : Covered journal) (write : SlotWrite journal transno i lcd) :
    Covered (journal ++ [⟨transno, .slot i lcd⟩]) where
  distinct := by
    intro j k
    by_cases one : j = i <;> by_cases two : k = i
    · intro _ _
      rw [one, two]
    · subst one
      rw [slot_slot_self, slot_slot_ne _ _ _ two]
      exact fun live same => (write.alone live k two same).elim
    · subst two
      rw [slot_slot_self, slot_slot_ne _ _ _ one]
      exact fun live same => (write.alone (by rwa [Live, same]) j one same.symm).elim
    · rw [slot_slot_ne _ _ _ one, slot_slot_ne _ _ _ two]
      exact covered.distinct j k
  kept := by
    rw [headerTransno_slot]
    refine forall_mem_append.mpr ⟨fun entry old => ?_, forall_mem_singleton.mpr ?_⟩
    · rcases covered.kept entry old with below | ⟨k, before, wrote, live, upto⟩
      · exact .inl below
      by_cases here : k = i
      · subst here
        rcases write.keeps live with ⟨stays, grows⟩ | saved
        · exact .inr ⟨k, before, wrote, by rwa [slot_slot_self],
            by rw [slot_slot_self]; exact upto.trans grows⟩
        · exact .inl (saved entry old before wrote)
      · exact .inr ⟨k, before, wrote, by rwa [slot_slot_ne _ _ _ here],
          by rwa [slot_slot_ne _ _ _ here]⟩
    · rcases write.covers with below | ⟨live, upto⟩
      · exact .inl below
      · exact .inr ⟨i, lcd, rfl, by rwa [slot_slot_self], by rwa [slot_slot_self]⟩

/-- Every prefix of the journal is covered. -/
def Durable (journal : List Entry) : Prop := ∀ n, Covered (journal.take n)

theorem Durable.all (durable : Durable journal) : Covered journal := by
  have whole := durable journal.length
  rwa [take_length] at whole

variable {entry : Entry}

theorem Durable.append (durable : Durable journal) (covered : Covered (journal ++ [entry])) :
    Durable (journal ++ [entry]) := by
  intro n
  rcases lt_or_ge journal.length n with past | within
  · rwa [take_of_length_le (by simp; omega)]
  · rw [take_append_of_le_length within]
    exact durable n

theorem Durable.take (durable : Durable journal) (n : Nat) : Durable (journal.take n) := by
  intro k
  rw [take_take]
  exact durable _

/-- The loop over the slots loads the live ones, and `lut_last_transno` is at least what it was and they
hold. -/
theorem clientsDataLoop_loaded {rest : List LsdClientData} (i : Nat)
    (loaded : List (Nat × LsdClientData)) (last : Nat)
    (distinct : rest.Pairwise fun one two => Live one → one.uuid ≠ two.uuid)
    (fresh : ∀ lcd ∈ rest, Live lcd → ∀ slot ∈ loaded, slot.2.uuid ≠ lcd.uuid) :
    (clientsDataLoop i rest loaded last).1 =
        loaded ++ ((rest.zipIdx i).filter (·.1.uuid ≠ 0)).map Prod.swap ∧
      last ≤ (clientsDataLoop i rest loaded last).2 ∧
      ∀ lcd ∈ rest, Live lcd → lcdLastTransno lcd ≤ (clientsDataLoop i rest loaded last).2 := by
  induction rest generalizing i loaded last with
  | nil => exact ⟨by simp [clientsDataLoop], le_rfl, by simp⟩
  | cons lcd rest ih =>
    obtain ⟨apart, distinct⟩ := pairwise_cons.mp distinct
    obtain ⟨fresh, later⟩ := forall_mem_cons.mp fresh
    rw [clientsDataLoop]
    by_cases deleted : lcd.uuid = 0
    · rw [if_pos deleted]
      obtain ⟨slots, grows, covers⟩ := ih (i + 1) loaded last distinct later
      exact ⟨by simp [slots, deleted], grows,
        forall_mem_cons.mpr ⟨fun live => (live deleted).elim, covers⟩⟩
    · have unseen : ¬ (loaded.any (·.2.uuid = lcd.uuid)) = true := by
        rw [any_eq_true]
        rintro ⟨slot, mem, same⟩
        exact fresh deleted slot mem (of_decide_eq_true same)
      rw [if_neg deleted, if_neg unseen]
      obtain ⟨slots, grows, covers⟩ := ih (i + 1) (loaded ++ [(i, lcd)])
        (max (lcdLastTransno lcd) last) distinct fun other mem live => forall_mem_append.mpr
          ⟨later other mem live, forall_mem_singleton.mpr (apart other mem deleted)⟩
      exact ⟨by simp [slots, deleted], (le_max_right _ _).trans grows,
        forall_mem_cons.mpr ⟨fun _ => (le_max_left _ _).trans grows, covers⟩⟩

theorem slot_live_iff (journal : List Entry) (i : Nat) (lcd : LsdClientData) (live : Live lcd) :
    slot journal i = lcd ↔ (fileOf journal).slots[i]? = some lcd := by
  rw [slot, slotAt, getD_eq_getElem?_getD]
  cases within : (fileOf journal).slots[i]? with
  | none =>
    refine ⟨?_, nofun⟩
    rintro rfl
    exact (live rfl).elim
  | some found =>
    rw [Option.getD_some, Option.some.injEq]

/-- The slots of a covered journal as the start of the target finds them. -/
structure Rebuilt (journal : List Entry) : Prop where
  mem : ∀ k lcd, (k, lcd) ∈ (mdtClientsDataInit (fileOf journal)).1 ↔
    Live lcd ∧ slot journal k = lcd
  header : headerTransno journal ≤ (mdtClientsDataInit (fileOf journal)).2
  covers : ∀ k, Live (slot journal k) →
    lcdLastTransno (slot journal k) ≤ (mdtClientsDataInit (fileOf journal)).2

theorem Covered.rebuilt (covered : Covered journal) : Rebuilt journal := by
  have distinct : (fileOf journal).slots.Pairwise fun one two => Live one → one.uuid ≠ two.uuid := by
    rw [pairwise_iff_getElem]
    intro i k insideI insideK less live same
    have atI := (slot_live_iff journal i _ live).mpr (getElem?_eq_getElem insideI)
    have atK := (slot_live_iff journal k _ (by rwa [Live, ← same])).mpr
      (getElem?_eq_getElem insideK)
    have equal := covered.distinct i k (by rwa [atI]) (by rw [atI, atK, same])
    omega
  obtain ⟨slots, grows, covers⟩ :=
    clientsDataLoop_loaded 0 [] (fileOf journal).header.lastTransno distinct (by simp)
  refine ⟨fun k lcd => ?_, grows, fun k live => ?_⟩
  · have within : (k, lcd) ∈ (mdtClientsDataInit (fileOf journal)).1 ↔
        Live lcd ∧ (fileOf journal).slots[k]? = some lcd := by
      rw [mdtClientsDataInit, slots]
      simp [mem_zipIdx_iff_getElem?, and_comm]
    rw [within]
    exact and_congr_right fun live => (slot_live_iff _ _ _ live).symm
  · exact covers _ (mem_of_getElem? ((slot_live_iff _ k _ live).mp rfl)) live

/-- The number rebuilt from the file is at least every number in the journal. -/
theorem Covered.le_rebuilt (covered : Covered journal) (mem : entry ∈ journal) :
    entry.transno ≤ (mdtServerDataInit journal).lastTransno := by
  have rebuilt := covered.rebuilt
  rcases covered.kept entry mem with below | ⟨i, lcd, _, live, upto⟩
  · exact below.trans rebuilt.header
  · exact upto.trans (rebuilt.covers i live)

/-- The numbers in the journal that were written to slot `i` are at most `bound`. -/
def UpTo (journal : List Entry) (i bound : Nat) : Prop :=
  ∀ entry ∈ journal, ∀ lcd, entry.write = .slot i lcd → entry.transno ≤ bound

/-- An export with its slot: the file holds what `ted_lcd` holds, the UUID is empty exactly when the slot
was deleted, and the server data cover what the slot covered when `mdt_client_del` has reached them. -/
structure Owned (journal : List Entry) (bitmap : Nat → Bool) (lsdTransno : Nat) (e : Export)
    (lcd : LsdClientData) : Prop where
  bit : bitmap e.lrIdx = true
  onDisk : e.written = true → slot journal e.lrIdx = lcd
  notYet : e.written = false → ¬ Live (slot journal e.lrIdx) ∧ e.del = .connected
  deleted : lcd.uuid = 0 ↔ e.del = .zeroed
  updated : e.del = .updated → UpTo journal e.lrIdx lsdTransno
  saved : e.del = .saved → UpTo journal e.lrIdx (headerTransno journal)

/-- A transaction that succeeded and has its number belongs to a client whose deletion has not
begun. -/
structure Running.Sound (run : Running) (exports : Nat → Option Export) (last : Nat) : Prop where
  positive : 0 < run.txn.transno
  upto : run.txn.transno ≤ last
  connected : ∃ i lcd, exports run.exp = some ⟨i, some lcd, true, .connected⟩

/-- What holds in every state of an orderly run. -/
structure Inv (s : MdtTarget) : Prop where
  durable : Durable s.journal
  ahead : ∀ entry ∈ s.journal, entry.transno ≤ s.lastTransno
  header : headerTransno s.journal ≤ s.lsd.lastTransno
  lsd : s.lsd.lastTransno ≤ s.lastTransno
  owned : ∀ exp e lcd, s.exports exp = some e → e.lcd = some lcd →
    Owned s.journal s.bitmap s.lsd.lastTransno e lcd
  unique : ∀ one two e e', s.exports one = some e → s.exports two = some e' →
    e.lcd.isSome → e'.lcd.isSome → e.lrIdx = e'.lrIdx → one = two
  bits : ∀ i, Live (slot s.journal i) → s.bitmap i = true
  started : ∀ run ∈ s.running, ∃ e, s.exports run.exp = some e ∧ e.written = true
  running : ∀ run ∈ s.running, run.txn.result = 0 → run.Sound s.exports s.lastTransno

/-- The start of the target on a journal all of whose prefixes are covered. -/
theorem Durable.inv (durable : Durable journal) : Inv (mdtServerDataInit journal) := by
  have covered := durable.all
  have rebuilt := covered.rebuilt
  -- an export is that of a live slot with its own index
  have loaded : ∀ exp e, (mdtServerDataInit journal).exports exp = some e →
      ∃ lcd, e = ⟨exp, some lcd, true, .connected⟩ ∧ Live lcd ∧ slot journal exp = lcd := by
    intro exp e found
    obtain ⟨⟨k, lcd⟩, first, rfl⟩ := Option.map_eq_some_iff.mp found
    have same : k = exp := by simpa using find?_some first
    subst same
    exact ⟨lcd, rfl, (rebuilt.mem k lcd).mp (mem_of_find?_eq_some first)⟩
  have bits : ∀ i, Live (slot journal i) → (mdtServerDataInit journal).bitmap i = true := by
    intro i live
    exact any_eq_true.mpr ⟨(i, slot journal i), (rebuilt.mem _ _).mpr ⟨live, rfl⟩,
      decide_eq_true rfl⟩
  refine ⟨durable.append (covered.header rebuilt.header), ?_, ?_, le_rfl, ?_, ?_, ?_, nofun,
    nofun⟩
  · exact forall_mem_append.mpr
      ⟨fun _ old => covered.le_rebuilt old, forall_mem_singleton.mpr (Nat.zero_le _)⟩
  · exact le_of_eq (headerTransno_header _ _ _)
  · intro exp e lcd found some
    obtain ⟨lcd', rfl, live, same⟩ := loaded exp e found
    cases some
    exact {
      bit := bits exp (by rwa [same])
      onDisk := fun _ => (slot_header _ _ _ _).trans same
      notYet := nofun
      deleted := ⟨fun zero => (live zero).elim, nofun⟩
      updated := nofun
      saved := nofun }
  · grind
  · intro i live
    exact bits i (by rwa [← slot_header journal 0 _ i])

/-! ### What the writes keep -/

theorem UpTo.mono {bound bound' : Nat} (upto : UpTo journal i bound) (le : bound ≤ bound') :
    UpTo journal i bound' :=
  fun entry mem lcd wrote => (upto entry mem lcd wrote).trans le

theorem UpTo.append {bound : Nat} (upto : UpTo journal i bound)
    (new : ∀ lcd, entry.write = .slot i lcd → entry.transno ≤ bound) :
    UpTo (journal ++ [entry]) i bound :=
  forall_mem_append.mpr ⟨upto, forall_mem_singleton.mpr new⟩

variable {last : Nat}

theorem ahead_append (ahead : ∀ entry ∈ journal, entry.transno ≤ last) (new : entry.transno ≤ last) :
    ∀ x ∈ journal ++ [entry], x.transno ≤ last := by grind

section
variable {journal : List Entry} {bitmap : Nat → Bool} {lsdTransno : Nat} {e : Export}
  {lcd : LsdClientData}

/-- The header or another slot is written. -/
theorem Owned.append (owned : Owned journal bitmap lsdTransno e lcd)
    (same : slot (journal ++ [entry]) e.lrIdx = slot journal e.lrIdx)
    (grows : headerTransno journal ≤ headerTransno (journal ++ [entry]))
    (elsewhere : ∀ x, entry.write ≠ .slot e.lrIdx x) :
    Owned (journal ++ [entry]) bitmap lsdTransno e lcd := by
  refine ⟨owned.bit, ?_, ?_, owned.deleted, fun h => ?_, fun h => ?_⟩
  · rw [same]
    exact owned.onDisk
  · rw [same]
    exact owned.notYet
  · exact (owned.updated h).append fun x wrote => (elsewhere x wrote).elim
  · exact ((owned.saved h).mono grows).append fun x wrote => (elsewhere x wrote).elim

/-- The bitmap and the server data may grow. -/
theorem Owned.mono (owned : Owned journal bitmap lsdTransno e lcd) {bitmap' : Nat → Bool}
    {lsdTransno' : Nat} (bits : bitmap' e.lrIdx = true) (grows : lsdTransno ≤ lsdTransno') :
    Owned journal bitmap' lsdTransno' e lcd :=
  ⟨bits, owned.onDisk, owned.notYet, owned.deleted, fun h => (owned.updated h).mono grows,
    owned.saved⟩

end

variable {del : DelStage}

section
variable {s : MdtTarget} {exp : Nat} {e e' : Export} {lcd lcd' : LsdClientData}

theorem exports_setExport {one : Nat} (found : (s.setExport exp e').exports one = some e) :
    one = exp ∧ e = e' ∨ one ≠ exp ∧ s.exports one = some e := by
  by_cases same : one = exp
  · subst same
    exact .inl ⟨rfl, by simpa [MdtTarget.setExport, eq_comm] using found⟩
  · exact .inr ⟨same, by simpa [MdtTarget.setExport, same] using found⟩

section

variable (inv : Inv s)

include inv

theorem Inv.headerWrite : Inv (mdtLastRcvdHeaderWrite s) := { inv with
  durable := inv.durable.append (inv.durable.all.header inv.header)
  ahead := ahead_append inv.ahead (Nat.zero_le _)
  header := le_of_eq (headerTransno_header _ _ _)
  owned := fun exp e lcd found held => (inv.owned exp e lcd found held).append (slot_header _ _ _ _)
    (by rw [headerTransno_header]; exact inv.header) nofun
  bits := fun i live => inv.bits i (by rwa [← slot_header s.journal 0 s.lsd i]) }

/-- `lut_lsd` takes over `lut_last_transno`. -/
theorem Inv.updateLsd : Inv s.updateLsd := { inv with
  header := inv.header.trans inv.lsd
  lsd := le_rfl
  owned := fun exp e lcd found held =>
    have owned := inv.owned exp e lcd found held
    owned.mono owned.bit inv.lsd }

theorem Inv.grow (epoch : Nat) (grows : s.lastTransno ≤ last) :
    Inv { s with lastTransno := last, lsd := { s.lsd with startEpoch := epoch } } := { inv with
  ahead := fun entry mem => (inv.ahead entry mem).trans grows
  lsd := inv.lsd.trans grows
  running := fun run mem succeeded =>
    have sound := inv.running run mem succeeded
    ⟨sound.positive, sound.upto.trans grows, sound.connected⟩ }

/-- The list of transactions that are about to end changes. -/
theorem Inv.withRunning (running : List Running)
    (started : ∀ run ∈ running, ∃ e, s.exports run.exp = some e ∧ e.written = true)
    (sound : ∀ run ∈ running, run.txn.result = 0 → run.Sound s.exports s.lastTransno) :
    Inv { s with running := running } :=
  { inv with started := started, running := sound }

/-- One export is changed, and the journal and the bitmap with it. -/
theorem Inv.exported {bitmap : Nat → Bool} (durable : Durable journal)
    (ahead : ∀ entry ∈ journal, entry.transno ≤ s.lastTransno)
    (header : headerTransno journal ≤ s.lsd.lastTransno)
    (bits : ∀ i, Live (slot journal i) → bitmap i = true)
    (owned : ∀ lcd, e'.lcd = some lcd → Owned journal bitmap s.lsd.lastTransno e' lcd)
    (others : ∀ one x lcd, one ≠ exp → s.exports one = some x → x.lcd = some lcd →
      Owned journal bitmap s.lsd.lastTransno x lcd)
    (apart : e'.lcd.isSome → ∀ one x, one ≠ exp → s.exports one = some x → x.lcd.isSome →
      x.lrIdx ≠ e'.lrIdx)
    (written : ∀ run ∈ s.running, run.exp = exp → e'.written = true)
    (running : ∀ run ∈ s.running, run.txn.result = 0 → run.exp = exp →
      ∃ i lcd, e' = ⟨i, some lcd, true, .connected⟩) :
    Inv { s.setExport exp e' with journal := journal, bitmap := bitmap } := by
  refine ⟨durable, ahead, header, inv.lsd, ?_, ?_, bits, ?_, ?_⟩
  · intro one x lcd found held
    rcases exports_setExport found with ⟨rfl, rfl⟩ | ⟨other, before⟩
    · exact owned lcd held
    · exact others one x lcd other before held
  · intro one two x y foundOne foundTwo heldOne heldTwo same
    rcases exports_setExport foundOne with ⟨rfl, rfl⟩ | ⟨other, before⟩
    · rcases exports_setExport foundTwo with ⟨rfl, rfl⟩ | ⟨other', before'⟩
      · rfl
      · exact absurd same.symm (apart heldOne two y other' before' heldTwo)
    · rcases exports_setExport foundTwo with ⟨rfl, rfl⟩ | ⟨_, before'⟩
      · exact absurd same (apart heldTwo one x other before heldOne)
      · exact inv.unique one two x y before before' heldOne heldTwo same
  · intro run mem
    by_cases same : run.exp = exp
    · exact ⟨e', by simp [MdtTarget.setExport, same], written run mem same⟩
    · obtain ⟨x, foundRun, writtenRun⟩ := inv.started run mem
      exact ⟨x, (update_of_ne same _ _).trans foundRun, writtenRun⟩
  · intro run mem succeeded
    have sound := inv.running run mem succeeded
    refine ⟨sound.positive, sound.upto, ?_⟩
    by_cases same : run.exp = exp
    · obtain ⟨i, lcd, equal⟩ := running run mem succeeded same
      exact ⟨i, lcd, by rw [same]; simp [MdtTarget.setExport, equal]⟩
    · obtain ⟨i, lcd, foundRun⟩ := sound.connected
      exact ⟨i, lcd, (update_of_ne same _ _).trans foundRun⟩

/-- The other exports have other slots. -/
theorem Inv.elsewhere (found : s.exports exp = some e) (held : e.lcd.isSome) :
    ∀ one x, one ≠ exp → s.exports one = some x → x.lcd.isSome → x.lrIdx ≠ e.lrIdx :=
  fun one x other before heldOne same => other (inv.unique one exp x e before found heldOne held same)

/-- `mdt_client_del` goes on without a write of the slot. -/
theorem Inv.restage {del' : DelStage} (found : s.exports exp = some ⟨i, some lcd, true, del⟩)
    (owned : Owned s.journal s.bitmap s.lsd.lastTransno ⟨i, some lcd, true, del'⟩ lcd)
    (idle : ∀ run ∈ s.running, run.txn.result = 0 → run.exp ≠ exp) :
    Inv (s.setExport exp ⟨i, some lcd, true, del'⟩) := by
  have apart := inv.elsewhere found rfl
  refine inv.exported inv.durable inv.ahead inv.header inv.bits ?_ (fun one x lcd _ => inv.owned one x lcd)
    (fun _ => apart) (fun _ _ _ => rfl) fun run mem succeeded same => (idle run mem succeeded same).elim
  rintro _ ⟨⟩
  exact owned

/-- No transaction that succeeded belongs to an export whose deletion has begun. -/
theorem Inv.idle (found : s.exports exp = some e) (begun : e.del ≠ .connected) :
    ∀ run ∈ s.running, run.txn.result = 0 → run.exp ≠ exp := by
  intro run mem succeeded same
  obtain ⟨i, lcd, foundRun⟩ := (inv.running run mem succeeded).connected
  rw [same, found] at foundRun
  cases foundRun
  exact begun rfl

/-- The slot of an export is written with what `ted_lcd` holds then. -/
theorem Inv.writeSlot (found : s.exports exp = some e) (held : e.lcd = some lcd)
    (write : SlotWrite s.journal transno e.lrIdx lcd') (number : transno ≤ s.lastTransno)
    (deleted : lcd'.uuid = 0 ↔ del = .zeroed)
    (staged : del = .updated ∨ del = .saved → e.del = del ∧ transno = 0)
    (stays : e.del = .connected → del = .connected) :
    Inv ((s.setExport exp ⟨e.lrIdx, some lcd', true, del⟩).journaled transno (.slot e.lrIdx lcd')) := by
  have owned := inv.owned exp e lcd found held
  have apart := inv.elsewhere found (by rw [held]; rfl)
  refine inv.exported (inv.durable.append (inv.durable.all.slot write))
    (ahead_append inv.ahead number) (by rw [headerTransno_slot]; exact inv.header) ?_ ?_
    (fun one x lcd other before heldOne => ?_) (fun _ => apart) (fun _ _ _ => rfl) ?_
  · intro k live
    by_cases here : k = e.lrIdx
    · rw [here]
      exact owned.bit
    · exact inv.bits k (by rwa [slot_slot_ne _ _ _ here] at live)
  · rintro _ ⟨⟩
    refine ⟨owned.bit, fun _ => slot_slot_self _ _ _ _, nofun, deleted, fun stage => ?_,
      fun stage => ?_⟩
    · obtain ⟨same, zero⟩ := staged (.inl stage)
      exact (owned.updated (same.trans stage)).append fun _ _ => by rw [zero]; exact Nat.zero_le _
    · obtain ⟨same, zero⟩ := staged (.inr stage)
      rw [headerTransno_slot]
      exact (owned.saved (same.trans stage)).append fun _ _ => by rw [zero]; exact Nat.zero_le _
  · have place := apart one x other before (by rw [heldOne]; rfl)
    exact (inv.owned one x lcd before heldOne).append (slot_slot_ne _ _ _ place)
      (headerTransno_slot _ _ _ _).ge fun _ wrote => place (Write.slot.inj wrote).1.symm
  · intro run mem succeeded same
    obtain ⟨i, x, foundRun⟩ := (inv.running run mem succeeded).connected
    rw [same, found] at foundRun
    cases foundRun
    exact ⟨i, lcd', by rw [stays rfl]⟩

/-- A slot is written again for the same client. -/
theorem Inv.rewrite (found : s.exports exp = some e) (held : e.lcd = some lcd)
    (written : e.written = true) (client : lcd'.uuid = lcd.uuid)
    (grows : lcdLastTransno lcd ≤ lcdLastTransno lcd')
    (covers : transno = 0 ∨ Live lcd ∧ transno ≤ lcdLastTransno lcd') :
    SlotWrite s.journal transno e.lrIdx lcd' := by
  have onDisk := (inv.owned exp e lcd found held).onDisk written
  refine ⟨fun live k other same => ?_, ?_, fun live => ?_⟩
  · refine other (inv.durable.all.distinct e.lrIdx k ?_ ?_)
    · rwa [onDisk, Live, ← client]
    · rw [onDisk, same, client]
  · omega
  · rw [onDisk] at live ⊢
    exact .inl ⟨by rwa [Live, client], grows⟩

end

end

/-! ### Orderly runs -/

/-- The number that the slot holds for the class of an operation. -/
def classTransno (lcd : LsdClientData) (opc : Nat) : Nat :=
  if opc = mdsClose ∨ opc = mdsDoneWriting then lcd.lastCloseTransno else lcd.lastTransno

/-- A transaction that succeeds takes its number, and writes its slot, before the deletion of its client
begins; those of a client and a class reach the slot in the order of their numbers; a client gets a slot
when it has no other in the file; numbers and epochs do not overflow. -/
def Orderly (s : MdtTarget) : MdtEvent → Prop
  | .txnStop exp txn => txn.result = 0 →
      s.lastTransno + 1 < 2 ^ 64 ∧ ∀ e ∈ s.exports exp, e.del = .connected
  | .lastRcvdUpdate n => ∀ run ∈ s.running[n]?, ∀ e ∈ s.exports run.exp, ∀ lcd ∈ e.lcd,
      run.txn.transno = 0 ∨ classTransno lcd run.txn.opc ≤ run.txn.transno
  | .emptyTransno _ => s.lastTransno + 1 < 2 ^ 64
  | .clientWrite exp => ∀ e ∈ s.exports exp, ∀ lcd ∈ e.lcd,
      ∀ other ∈ (fileOf s.journal).slots, other.uuid ≠ lcd.uuid
  | .delUpdate exp => ∀ run ∈ s.running, run.txn.result = 0 → run.exp ≠ exp
  | .epochUpdate => s.lastTransno / 2 ^ 32 + 1 < 2 ^ 32
  | _ => True

instance (s : MdtTarget) (event : MdtEvent) : Decidable (Orderly s event) := by
  cases event <;> unfold Orderly <;> infer_instance

/-- The number that is taken is new and `lut_last_transno` covers it. -/
theorem takeTransno_spec (transno : Nat) (room : last + 1 < 2 ^ 64) :
    last ≤ (takeTransno last transno).2 ∧ 0 < (takeTransno last transno).1 ∧
      (takeTransno last transno).1 ≤ (takeTransno last transno).2 := by
  grind [takeTransno]

/-- The slot is updated with the number of the transaction, behind the other ones of its
class. -/
theorem lcdUpdate_spec {txn : Txn} (numbered : txn.result = 0 → txn.transno ≠ 0)
    (order : txn.transno = 0 ∨ classTransno lcd txn.opc ≤ txn.transno) :
    ∃ lcd', lcdUpdate lcd txn = .ok lcd' ∧ lcd'.uuid = lcd.uuid ∧
      lcdLastTransno lcd ≤ lcdLastTransno lcd' ∧ txn.transno ≤ lcdLastTransno lcd' := by
  grind [lcdUpdate, classTransno, mdsClose, mdsDoneWriting, lcdLastTransno, Txn.transnoOr]

theorem findFirstZeroBit_spec {bitmap : Nat → Bool} {n k : Nat}
    (found : findFirstZeroBit bitmap i n = some k) : bitmap k = false := by
  induction n generalizing i with
  | zero => cases found
  | succ n ih => grind [findFirstZeroBit]

section
variable {s : MdtTarget} {exp : Nat}

section

variable (inv : Inv s)

include inv

theorem Inv.txnStop {txn : Txn} (found : s.exports exp = some ⟨i, some lcd, true, del⟩)
    (orderly : Orderly s (.txnStop exp txn)) : Inv (mdtTxnStopCb s exp txn) := by
  have started : ∀ transno, ∀ run ∈ s.running ++ [⟨exp, { txn with transno := transno }⟩],
      ∃ e, s.exports run.exp = some e ∧ e.written = true := fun _ =>
    forall_mem_append.mpr ⟨inv.started, forall_mem_singleton.mpr ⟨_, found, rfl⟩⟩
  unfold mdtTxnStopCb
  by_cases failed : txn.result ≠ 0
  · grind [mem_singleton, Inv.withRunning, cases Inv]
  · rw [if_neg failed]
    obtain ⟨room, connected⟩ := orderly (not_not.mp failed)
    obtain ⟨grows, positive, upto⟩ := takeTransno_spec txn.transno room
    have grown := inv.grow s.lsd.startEpoch grows
    refine grown.withRunning _ (started _) (forall_mem_append.mpr
      ⟨grown.running, forall_mem_singleton.mpr fun _ => ?_⟩)
    have stage : del = .connected := connected _ found
    subst stage
    exact ⟨positive, upto, i, lcd, found⟩

theorem Inv.lastRcvdUpdate {n : Nat} {run : Running} (taken : s.running[n]? = some run)
    (orderly : Orderly s (.lastRcvdUpdate n)) :
    ∃ s', mdtLastRcvdUpdate { s with running := s.running.eraseIdx n } run = .ok s' ∧ Inv s' := by
  have mem : run ∈ s.running := mem_of_getElem? taken
  have inv' := inv.withRunning (s.running.eraseIdx n)
    (fun other within => inv.started other (mem_of_mem_eraseIdx within))
    (fun other within => inv.running other (mem_of_mem_eraseIdx within))
  unfold mdtLastRcvdUpdate
  obtain ⟨⟨i, lcd?, written, del⟩, found, rfl⟩ := inv.started run mem
  simp only [found]
  cases lcd? with
  | none =>
    have failed : run.txn.result ≠ 0 := by
      intro succeeded
      obtain ⟨i, lcd, connected⟩ := (inv.running run mem succeeded).connected
      rw [found] at connected
      cases connected
    refine ⟨_, rfl, ?_⟩
    rw [Txn.committed, if_neg failed]
    exact inv'.headerWrite
  | some lcd =>
    have owned := inv.owned _ _ _ found rfl
    obtain ⟨lcd', update, client, grows, upto⟩ := lcdUpdate_spec
      (fun succeeded => ne_of_gt (inv.running run mem succeeded).positive)
      (orderly run taken _ found lcd rfl)
    simp only [update]
    refine ⟨_, rfl, ?_⟩
    by_cases succeeded : run.txn.result = 0
    · have sound := inv.running run mem succeeded
      obtain ⟨i', lcd'', connected⟩ := sound.connected
      rw [found] at connected
      cases connected
      have live : Live lcd := fun zero => nomatch owned.deleted.mp zero
      rw [Txn.committed, if_pos succeeded]
      exact inv'.writeSlot found rfl
        (inv'.rewrite found rfl rfl client grows (.inr ⟨live, upto⟩)) sound.upto
        (by rw [client]; exact owned.deleted) nofun (fun _ => rfl)
    · rw [Txn.committed, if_neg succeeded]
      exact inv'.writeSlot found rfl (inv'.rewrite found rfl rfl client grows (.inl rfl))
        (Nat.zero_le _) (by rw [client]; exact owned.deleted) (fun _ => ⟨rfl, rfl⟩) id

theorem Inv.clientNew {uuid : Nat} (client : uuid ≠ 0) (new : s.exports exp = none) :
    Inv (mdtClientNew s exp uuid) := by
  unfold mdtClientNew
  cases free : findFirstZeroBit s.bitmap 0 lrMaxClients with
  | none => exact inv
  | some i =>
    have clear := findFirstZeroBit_spec free
    have kept : ∀ k, s.bitmap k = true → update s.bitmap i true k = true := by grind
    have absent : ∀ run ∈ s.running, run.exp ≠ exp := by
      rintro run mem rfl
      obtain ⟨e, found, _⟩ := inv.started run mem
      cases new.symm.trans found
    refine inv.exported inv.durable inv.ahead inv.header (fun k live => kept k (inv.bits k live)) ?_
      (fun one x lcd _ before held => ?_) (fun _ one x _ found held same => ?_)
      (fun run mem same => (absent run mem same).elim)
      fun run mem _ same => (absent run mem same).elim
    · rintro _ ⟨⟩
      exact {
        bit := update_self i true s.bitmap
        onDisk := nofun
        notYet := fun _ => ⟨fun live => by simpa [clear] using inv.bits i live, rfl⟩
        deleted := ⟨fun zero => (client zero).elim, nofun⟩
        updated := nofun
        saved := nofun }
    · have owned := inv.owned one x lcd before held
      exact owned.mono (kept _ owned.bit) le_rfl
    · obtain ⟨lcd, isLcd⟩ := Option.isSome_iff_exists.mp held
      have bit := (inv.owned one x lcd found isLcd).bit
      rw [same, clear] at bit
      cases bit

theorem Inv.clientWrite (found : s.exports exp = some ⟨i, some lcd, false, del⟩)
    (orderly : Orderly s (.clientWrite exp)) :
    Inv ((s.setExport exp ⟨i, some lcd, true, del⟩).journaled 0 (.slot i lcd)) := by
  have owned := inv.owned _ _ _ found rfl
  obtain ⟨free, stage⟩ := owned.notYet rfl
  have connected : del = .connected := stage
  subst connected
  refine inv.writeSlot found rfl ⟨fun _ k _ same => ?_, .inl (Nat.zero_le _),
    fun old => (free old).elim⟩ (Nat.zero_le _) owned.deleted nofun (fun _ => rfl)
  have within := (slot_live_iff s.journal k _ (by rwa [Live, same])).mp rfl
  exact orderly _ found lcd rfl _ (mem_of_getElem? within) same

/-- `mdt_client_del` clears the UUID. -/
theorem Inv.delZero (found : s.exports exp = some ⟨i, some lcd, true, .saved⟩) :
    Inv ((s.setExport exp ⟨i, some { lcd with uuid := 0 }, true, .zeroed⟩).journaled 0
      (.slot i { lcd with uuid := 0 })) := by
  have owned := inv.owned _ _ _ found rfl
  exact inv.writeSlot found rfl
    ⟨fun live => (live rfl).elim, .inl (Nat.zero_le _), fun _ => .inr (owned.saved rfl)⟩
    (Nat.zero_le _) ⟨fun _ => rfl, fun _ => rfl⟩ nofun nofun

theorem Inv.clientFree (found : s.exports exp = some ⟨i, some lcd, true, .zeroed⟩) :
    ∃ s', lutClientFree s exp ⟨i, some lcd, true, .zeroed⟩ = .ok s' ∧ Inv s' := by
  have owned := inv.owned _ _ _ found rfl
  have bit : s.bitmap i = true := owned.bit
  unfold lutClientFree
  rw [if_neg (not_not.mpr bit)]
  refine ⟨_, rfl, ?_⟩
  refine inv.exported inv.durable inv.ahead inv.header ?_ nofun (fun one x lcd' other before held => ?_)
    nofun (fun _ _ _ => rfl) fun run mem succeeded same =>
      (inv.idle found nofun run mem succeeded same).elim
  · intro k live
    have other : k ≠ i := by
      rintro rfl
      have onDisk : slot s.journal k = lcd := owned.onDisk rfl
      have deleted : (slot s.journal k).uuid = 0 := by
        rw [onDisk]
        exact owned.deleted.mpr rfl
      exact live deleted
    exact (update_of_ne other _ _).trans (inv.bits k live)
  · have ownedOne := inv.owned one x lcd' before held
    have apart := inv.elsewhere found rfl one x other before (by rw [held]; rfl)
    exact ownedOne.mono ((update_of_ne apart _ _).trans ownedOne.bit) le_rfl

/-- `mdt_client_del` takes over the number into the server data. -/
theorem Inv.delUpdate (found : s.exports exp = some ⟨i, some lcd, true, .connected⟩)
    (orderly : Orderly s (.delUpdate exp)) :
    Inv (s.updateLsd.setExport exp ⟨i, some lcd, true, .updated⟩) := by
  have owned := inv.updateLsd.owned _ _ _ found rfl
  refine inv.updateLsd.restage found { owned with
    notYet := nofun
    deleted := owned.deleted.trans ⟨nofun, nofun⟩
    updated := fun _ entry mem _ _ => inv.ahead entry mem
    saved := nofun } orderly

theorem Inv.delWrite (found : s.exports exp = some ⟨i, some lcd, true, .updated⟩) :
    Inv ((mdtLastRcvdHeaderWrite s).setExport exp ⟨i, some lcd, true, .saved⟩) := by
  have owned := inv.headerWrite.owned _ _ _ found rfl
  refine inv.headerWrite.restage found { owned with
    notYet := nofun
    deleted := owned.deleted.trans ⟨nofun, nofun⟩
    updated := nofun
    saved := fun _ => ?_ } (inv.headerWrite.idle found nofun)
  have header : headerTransno (mdtLastRcvdHeaderWrite s).journal = s.lsd.lastTransno :=
    headerTransno_header _ _ _
  rw [header]
  exact owned.updated rfl

theorem Inv.epochClient (found : s.exports exp = some ⟨i, some lcd, true, del⟩) :
    Inv (lutClientEpochUpdate s exp ⟨i, some lcd, true, del⟩ lcd) := by
  unfold lutClientEpochUpdate
  by_cases current : lcd.lastEpoch ≥ s.lsd.startEpoch
  · rw [if_pos current]
    exact inv
  · rw [if_neg current]
    exact inv.writeSlot found rfl (inv.rewrite found rfl rfl rfl le_rfl (.inl rfl))
      (Nat.zero_le _) (inv.owned _ _ _ found rfl).deleted (fun _ => ⟨rfl, rfl⟩) id

end

end

/-- Every orderly step is taken and keeps the invariant. -/
theorem Inv.step {s : MdtTarget} (inv : Inv s) (event : MdtEvent) (orderly : Orderly s event) :
    ∃ s', mdtStep s event = .ok s' ∧ Inv s' := by
  cases event with
  | txnStop exp txn => grind [mdtStep, Inv.txnStop]
  | lastRcvdUpdate n => grind [mdtStep, Inv.lastRcvdUpdate]
  | emptyTransno transno =>
    exact ⟨_, rfl, inv.grow s.lsd.startEpoch (takeTransno_spec transno orderly).1⟩
  | clientNew exp uuid =>
    grind [mdtStep, Option.not_isSome_iff_eq_none, Inv.clientNew]
  | clientWrite exp => grind [mdtStep, Inv.clientWrite]
  | delUpdate exp =>
    rw [mdtStep]
    split
    · next found =>
        have bit := (inv.owned _ _ _ found rfl).bit
        rw [if_neg (not_not.mpr bit)]
        exact ⟨_, rfl, inv.delUpdate found orderly⟩
    · exact ⟨_, rfl, inv⟩
  | delWrite exp => grind [mdtStep, Inv.delWrite]
  | delZero exp => grind [mdtStep, Inv.delZero]
  | clientFree exp => grind [mdtStep, Inv.clientFree]
  | epochUpdate => exact ⟨_, rfl, inv.grow _ (by rw [Nat.mod_eq_of_lt orderly]; omega)⟩
  | epochClient exp => grind [mdtStep, Inv.epochClient]
  | lsdUpdate => exact ⟨_, rfl, inv.updateLsd⟩
  | lsdWrite => exact ⟨_, rfl, inv.headerWrite⟩
  | crash n => exact ⟨_, rfl, (inv.durable.take n).inv⟩

/-! ### The numbers -/

/-- After a crash at any point of the journal the target starts with a number not below every committed
one, and the next number is higher than every one in the journal. -/
structure NeverReused (s : MdtTarget) : Prop where
  rebuilt : ∀ n, ∀ entry ∈ s.journal.take n,
    entry.transno ≤ (mdtServerDataInit (s.journal.take n)).lastTransno
  next : s.lastTransno + 1 < 2 ^ 64 →
    ∀ entry ∈ s.journal, entry.transno < (takeTransno s.lastTransno 0).1

/-- Orderly steps from a new file system do not fail, and keep the invariant. -/
theorem run_inv {events : List MdtEvent}
    (orderly : Run.Meets mdtStep Orderly (mdtServerDataInit []) events) :
    ∃ s, run mdtStep (mdtServerDataInit []) events = .ok s ∧ Inv s := by
  have start : Durable [] := fun n => by
    rw [take_nil]
    exact ⟨fun _ _ live => (live rfl).elim, fun _ mem => (not_mem_nil mem).elim⟩
  exact run_ok (fun s event inv holds => Inv.step inv event holds) start.inv orderly

/-- In every run of orderly steps from a new file system no committed transaction number is given
again. -/
theorem transno_never_reused (events : List MdtEvent)
    (orderly : Run.Meets mdtStep Orderly (mdtServerDataInit []) events) :
    ∃ s, run mdtStep (mdtServerDataInit []) events = .ok s ∧ NeverReused s := by
  obtain ⟨s, ran, inv⟩ := run_inv orderly
  refine ⟨s, ran, fun n entry mem => (inv.durable n).le_rebuilt mem, fun room entry mem => ?_⟩
  rw [takeTransno, if_pos rfl, Nat.mod_eq_of_lt room]
  exact Nat.lt_succ_of_le (inv.ahead entry mem)

/-- A request that creates a file. -/
def createTxn : Txn := ⟨36, 5, 0, 0, 0, none⟩

/-- A client that creates a file and disconnects, and a crash. -/
theorem transno_never_reused_create : ∃ s,
    run mdtStep (mdtServerDataInit []) [.clientNew 1 7, .clientWrite 1, .txnStop 1 createTxn,
      .lastRcvdUpdate 0, .delUpdate 1, .delWrite 1, .delZero 1, .clientFree 1, .epochUpdate,
      .crash 5] = .ok s ∧ NeverReused s :=
  transno_never_reused _ (by decide +kernel)

/-- A client is evicted while a service thread creates a file for it: the server data are written
before the transaction takes its number, it ends in a slot without a UUID, and after the crash the
number is given again. -/
theorem number_in_a_deleted_slot_is_lost : ∃ s,
    run mdtStep (mdtServerDataInit []) [.clientNew 1 7, .clientWrite 1, .delUpdate 1, .delWrite 1,
      .txnStop 1 createTxn, .delZero 1, .lastRcvdUpdate 0] = .ok s ∧
    ∃ entry ∈ s.journal, (mdtServerDataInit s.journal).lastTransno < entry.transno ∧
      (takeTransno (mdtServerDataInit s.journal).lastTransno 0).1 = entry.transno :=
  ⟨_, rfl, ⟨1, .slot 0 { newLcd 0 with lastTransno := 1, lastXid := 5 }⟩, by decide +kernel⟩

/-- Whatever part of the journal survives, no client has two slots; the bits of slots in use are set; and
every export has its own slot, which says what its `ted_lcd` says. -/
structure SlotsOwned (s : MdtTarget) : Prop where
  distinct : ∀ n i k, Live (slot (s.journal.take n) i) →
    (slot (s.journal.take n) k).uuid = (slot (s.journal.take n) i).uuid → k = i
  bits : ∀ i, Live (slot s.journal i) → s.bitmap i = true
  owned : ∀ exp e lcd, s.exports exp = some e → e.lcd = some lcd →
    Owned s.journal s.bitmap s.lsd.lastTransno e lcd
  unique : ∀ one two e e', s.exports one = some e → s.exports two = some e' →
    e.lcd.isSome → e'.lcd.isSome → e.lrIdx = e'.lrIdx → one = two

/-- In every run from a new file system whose steps are orderly, clients own their slots. -/
theorem client_slots_owned (events : List MdtEvent)
    (orderly : Run.Meets mdtStep Orderly (mdtServerDataInit []) events) :
    ∃ s, run mdtStep (mdtServerDataInit []) events = .ok s ∧ SlotsOwned s := by
  obtain ⟨s, ran, inv⟩ := run_inv orderly
  exact ⟨s, ran, fun n => (inv.durable n).distinct, inv.bits, inv.owned, inv.unique⟩

/-- Two clients, one of which goes. -/
theorem client_slots_owned_two : ∃ s,
    run mdtStep (mdtServerDataInit []) [.clientNew 1 7, .clientWrite 1, .clientNew 2 8, .clientWrite 2,
      .delUpdate 1, .delWrite 1, .delZero 1, .clientFree 1] = .ok s ∧ SlotsOwned s :=
  client_slots_owned _ (by decide +kernel)

end Mdt
