/-
Module: Lustre.Lnet.Runs
Purpose: What holds in every state that is reached: which messages wait, and which event of a
  descriptor is its last.
Trusted boundary: none
-/
import Lustre.Lnet.Steps

namespace Lnet

open Run List

/-- Messages wait for a descriptor that is not there. -/
structure Waiting (s : Node) : Prop where
  queued : ∀ p, ∀ msg ∈ (s.portals p).msgq, msg.hdr.portal = p ∧ Unmatched s msg.hdr
  lazy : ∀ p, (s.portals p).lazy = false → (s.portals p).msgq = []
  early : ∀ early ∈ s.eager, early.version ≤ (s.portals early.msg.hdr.portal).mlVersion ∧
    (early.version = (s.portals early.msg.hdr.portal).mlVersion → Unmatched s early.msg.hdr)

variable {me : Me} {md : Md} {m : Nat} {hdr : Hdr} {op : LnetOp}

section

variable {hashLong : UInt64 → Nat} {s t : Node}

theorem Unmatched.congr (unmatched : Unmatched s hdr) (mes : t.mes = s.mes) (mds : t.mds = s.mds) :
    Unmatched t hdr := by
  intro m me d md attached
  exact unmatched m me d md ⟨mes ▸ attached.entry, attached.link, mds ▸ attached.live⟩

theorem Waiting.moved (waiting : Waiting s) (settled : Settled hashLong s) (moves : Moves hashLong s t) :
    Waiting t := by
  have queues := Moves.queues moves
  have worn := Moves.worn moves settled
  exact {
    queued := by
      intro p msg mem
      rw [(queues.portals p).2.1] at mem
      obtain ⟨portal, unmatched⟩ := waiting.queued p msg mem
      exact ⟨portal, worn.unmatched unmatched⟩
    lazy := by
      intro p plain
      rw [(queues.portals p).1] at plain
      rw [(queues.portals p).2.1]
      exact waiting.lazy p plain
    early := by
      intro early mem
      obtain ⟨bound, same⟩ := waiting.early early (queues.eager early mem)
      rw [(queues.portals _).2.2]
      exact ⟨bound, fun equal => worn.unmatched (same equal)⟩ }

/-- A portal gets other messages, all of them without a descriptor. -/
theorem Waiting.setPortal {p : Nat} {ptl : Portal} (waiting : Waiting s)
    (queued : ∀ msg ∈ ptl.msgq, msg.hdr.portal = p ∧ Unmatched s msg.hdr)
    (lazy : ptl.lazy = false → ptl.msgq = []) (mlVersion : ptl.mlVersion = (s.portals p).mlVersion) :
    Waiting (s.setPortal p ptl) where
  queued := by
    intro i msg mem
    obtain ⟨portal, unmatched⟩ := setPortal_forall (P := fun i ptl => ∀ msg ∈ ptl.msgq,
      msg.hdr.portal = i ∧ Unmatched s msg.hdr) queued waiting.queued i msg mem
    exact ⟨portal, unmatched.congr rfl rfl⟩
  lazy := setPortal_forall (P := fun _ ptl => ptl.lazy = false → ptl.msgq = []) lazy waiting.lazy
  early := by
    intro early mem
    have same : ((s.setPortal p ptl).portals early.msg.hdr.portal).mlVersion =
        (s.portals early.msg.hdr.portal).mlVersion :=
      setPortal_forall (P := fun i ptl => ptl.mlVersion = (s.portals i).mlVersion) mlVersion
        (fun _ => rfl) _
    rw [same]
    obtain ⟨bound, unmatched⟩ := waiting.early early mem
    exact ⟨bound, fun equal => (unmatched equal).congr rfl rfl⟩

section

variable (settled : Settled hashLong s)

include settled

theorem linkMd_attached {i d : Nat} {other : Me} {new : Md}
    (attached : Attached (linkMd s m me md) i other d new) :
    (i = m ∧ other = { me with md := some s.nextMd } ∧ d = s.nextMd) ∨ Attached s i other d new := by
  by_cases here : i = m
  · subst here
    cases (setMe_here _ i _).symm.trans attached.entry
    cases attached.link
    exact .inl ⟨rfl, rfl, rfl⟩
  · have entry : s.mes i = .live other := (setMe_other _ here _).symm.trans attached.entry
    obtain ⟨old, live, _⟩ := settled.meMd i other d entry attached.link
    exact .inr ⟨entry, attached.link,
      (setMd_other s (settled.md_ne_next live) _).symm.trans attached.live⟩

/-- A new descriptor is for no message of another portal. -/
theorem linkMd_unmatched (unmatched : Unmatched s hdr) (ne : hdr.portal ≠ me.portal) :
    Unmatched (linkMd s m me md) hdr := by
  intro i other d new attached portal
  rcases linkMd_attached settled attached with ⟨_, rfl, _⟩ | before
  · exact absurd portal.symm ne
  · exact unmatched i other d new before portal

/-- The version tells a message received early from a descriptor that came in between. -/
theorem Waiting.linkMd_early (waiting : Waiting s) (early : EagerMsg) (mem : early ∈ s.eager) :
    early.version ≤ ((linkMd s m me md).portals early.msg.hdr.portal).mlVersion ∧
      (early.version = ((linkMd s m me md).portals early.msg.hdr.portal).mlVersion →
        Unmatched (linkMd s m me md) early.msg.hdr) := by
  obtain ⟨bound, same⟩ := waiting.early early mem
  by_cases here : early.msg.hdr.portal = me.portal
  · grind [linkMd_portal]
  · rw [linkMd_otherPortal s m md here]
    exact ⟨bound, fun equal => linkMd_unmatched settled (same equal) here⟩

/-- A descriptor on a portal on which no message waits. -/
theorem Waiting.linked (waiting : Waiting s) (empty : (s.portals me.portal).msgq = []) :
    Waiting (linkMd s m me md) where
  queued := by
    intro p msg mem
    by_cases here : p = me.portal
    · rw [here, linkMd_portal] at mem
      rw [show _ = [] from empty] at mem
      cases mem
    · rw [linkMd_otherPortal s m md here] at mem
      obtain ⟨portal, unmatched⟩ := waiting.queued p msg mem
      exact ⟨portal, linkMd_unmatched settled unmatched (portal ▸ here)⟩
  lazy := by
    intro p plain
    by_cases here : p = me.portal
    · rw [here, linkMd_portal]
      exact empty
    · rw [linkMd_otherPortal s m md here] at plain ⊢
      exact waiting.lazy p plain
  early := waiting.linkMd_early settled

/-- A descriptor on a lazy portal: the messages that go on waiting are not for it. -/
theorem Waiting.handed {kept : List Msg} (waiting : Waiting s)
    (entry : s.mes m = .live me) (off : me.md = none) (fresh : Fresh md)
    (lazy : (s.portals me.portal).lazy = true)
    (handed : Handed hashLong (linkMd s m me md) m { me with md := some s.nextMd } s.nextMd (s.portals me.portal).msgq kept t) :
    Waiting (t.setPortal me.portal { t.portals me.portal with msgq := kept }) := by
  have linked := settled.link_settled fresh entry off
  have queues := Moves.queues handed.moves
  have worn := Moves.worn handed.moves linked
  have elsewhere {p : Nat} (ne : p ≠ me.portal) :
      (t.portals p).lazy = (s.portals p).lazy ∧ (t.portals p).msgq = (s.portals p).msgq := by
    have same := queues.portals p
    rw [linkMd_otherPortal s m md ne] at same
    exact ⟨same.1, same.2.1⟩
  exact {
    queued := by
      intro p msg mem
      by_cases here : p = me.portal
      · rw [here, setPortal_here] at mem
        obtain ⟨gone, _, perm, _, _⟩ := handed.gone
        obtain ⟨portal, unmatched⟩ := waiting.queued me.portal msg
          (perm.mem_iff.mpr (mem_append_left gone mem))
        refine ⟨portal.trans here.symm, fun i other d new attached same => ?_⟩
        have now : Attached t i other d new := { attached with }
        obtain ⟨old, before, options, more⟩ := worn i other d new now
        rcases linkMd_attached settled before with ⟨rfl, rfl, rfl⟩ | first
        · exact handed.unmatched msg mem new now
        · exact selects_worn options more (unmatched i other d old first same)
      · rw [setPortal_other t here, (elsewhere here).2] at mem
        obtain ⟨portal, unmatched⟩ := waiting.queued p msg mem
        have later := worn.unmatched (linkMd_unmatched settled unmatched (portal ▸ here))
        exact ⟨portal, later.congr rfl rfl⟩
    lazy := by
      intro p plain
      by_cases here : p = me.portal
      · rw [here, setPortal_here] at plain
        have same := (queues.portals me.portal).1
        rw [linkMd_portal] at same
        cases plain.symm.trans (same.trans lazy)
      · rw [setPortal_other t here] at plain ⊢
        rw [(elsewhere here).1] at plain
        rw [(elsewhere here).2]
        exact waiting.lazy p plain
    early := by
      intro early mem
      have version : ((t.setPortal me.portal { t.portals me.portal with msgq := kept }).portals
          early.msg.hdr.portal).mlVersion =
          ((linkMd s m me md).portals early.msg.hdr.portal).mlVersion := by
        rw [← (queues.portals _).2.2]
        by_cases here : early.msg.hdr.portal = me.portal
        · rw [here, setPortal_here]
        · rw [setPortal_other t here]
      rw [version]
      obtain ⟨bound, same⟩ := waiting.linkMd_early settled early (queues.eager early mem)
      exact ⟨bound, fun equal => (worn.unmatched (same equal)).congr rfl rfl⟩ }

theorem Stepped.waiting (stepped : Stepped hashLong s op t) (waiting : Waiting s) : Waiting t := by
  cases stepped with
  | moved moves => exact waiting.moved settled moves
  | @early _ hdr lazy unmatched =>
    refine ⟨fun p msg mem => ?_, waiting.lazy, fun early mem => ?_⟩
    · obtain ⟨portal, before⟩ := waiting.queued p msg mem
      exact ⟨portal, before.congr rfl rfl⟩
    · rcases mem_cons.mp mem with rfl | old
      · exact ⟨le_rfl, fun _ => unmatched.congr rfl rfl⟩
      · obtain ⟨bound, before⟩ := waiting.early early old
        exact ⟨bound, fun equal => (before equal).congr rfl rfl⟩
  | @waits _ u msg still lazy why =>
    have quiet : Waiting u := waiting.moved settled (.single (.still still))
    have unmatched : Unmatched s msg.hdr := by
      rcases why with now | ⟨early, mem, rfl, version⟩
      · exact now
      · exact (waiting.early early mem).2 version
    refine quiet.setPortal (forall_mem_append.mpr ⟨quiet.queued _,
      forall_mem_singleton.mpr ?_⟩) (fun plain => ?_) rfl
    · exact ⟨rfl, unmatched.congr still.mes still.mds⟩
    · rw [still.portals, lazy] at plain
      cases plain
  | setLazy => exact waiting.setPortal (waiting.queued _) nofun rfl
  | @clearLazy p =>
    have cleared : Waiting (s.setPortal p { s.portals p with lazy := false, msgq := [] }) :=
      waiting.setPortal (forall_mem_nil _) (fun _ => rfl) rfl
    have same : Settled hashLong (s.setPortal p { s.portals p with lazy := false, msgq := [] }) :=
      settled.setPortal ⟨rfl, rfl, rfl, rfl⟩
    exact cleared.moved same
      (.single (.still { Still.refl _ with }))
  | linked _ _ _ empty => exact waiting.linked settled empty
  | handed entry off fresh lazy handed => exact waiting.handed settled entry off fresh lazy handed

end

/-- Messages that stop waiting on a portal were taken or dropped by a descriptor, or the portal is no
longer lazy. -/
def Leaves (s : Node) (op : LnetOp) (t : Node) (p : Nat) : Prop :=
  ∃ kept gone added, (s.portals p).msgq.Perm (kept ++ gone) ∧ (t.portals p).msgq = kept ++ added ∧
    ∀ msg ∈ gone, op = .clearLazy p ∨ ∃ new, t.fates = new ++ s.fates ∧
      ((∃ d, (msg.id, .matched d) ∈ new ∧ ⟨msg.id, d, .put⟩ ∈ t.active) ∨ (msg.id, .badMatch) ∈ new)

theorem Leaves.same {p : Nat} (same : (t.portals p).msgq = (s.portals p).msgq) : Leaves s op t p :=
  ⟨(s.portals p).msgq, [], [], by rw [append_nil], by rw [same, append_nil],
    forall_mem_nil _⟩

theorem Stepped.leaves (stepped : Stepped hashLong s op t) (p : Nat) : Leaves s op t p := by
  cases stepped with
  | moved moves => exact .same ((Moves.queues moves).portals p).2.1
  | early => exact .same rfl
  | @waits _ u msg still =>
    by_cases here : p = msg.hdr.portal
    · refine ⟨(s.portals p).msgq, [], [msg], by rw [append_nil], ?_,
        forall_mem_nil _⟩
      rw [queueMsg, here, setPortal_here, still.portals]
    · refine .same ?_
      rw [queueMsg, setPortal_other u here, still.portals]
  | setLazy =>
    exact .same (setPortal_forall (P := fun i ptl => ptl.msgq = (s.portals i).msgq) (by rfl)
      (fun _ => rfl) p)
  | @clearLazy q =>
    by_cases here : p = q
    · subst here
      refine ⟨[], (s.portals p).msgq, [], .refl _, ?_, fun _ _ => .inl rfl⟩
      exact congrArg Portal.msgq (setPortal_here s p { s.portals p with lazy := false, msgq := [] })
    · exact .same (congrArg Portal.msgq (setPortal_other s here _))
  | @linked m _ _ me md _ _ _ _ =>
    refine .same ?_
    by_cases here : p = me.portal
    · rw [here, linkMd_portal]
    · rw [linkMd_otherPortal s m md here]
  | @handed m _ _ me md t kept _ _ _ _ handed =>
    by_cases here : p = me.portal
    · obtain ⟨gone, new, perm, fates, each⟩ := handed.gone
      refine ⟨kept, gone, [], here ▸ perm, ?_, fun msg mem => .inr ⟨new, fates, ?_⟩⟩
      · rw [here, setPortal_here, append_nil]
      · exact (each msg mem).imp_left fun taken => ⟨s.nextMd, taken⟩
    · refine .same ?_
      rw [setPortal_other t here, ((Moves.queues handed.moves).portals p).2.1,
        linkMd_otherPortal s m md here]

/-! ### Runs -/

theorem run_waiting {nportals : Nat} {ops : List LnetOp}
    (ran : run (lnetStep hashLong) (newNode nportals) ops = .ok s) : Settled hashLong s ∧ Waiting s := by
  refine reached (P := fun s => Settled hashLong s ∧ Waiting s) (fun u op t inv taken => ?_)
    ⟨newNode_settled nportals, fun _ => forall_mem_nil _, fun _ _ => rfl, forall_mem_nil _⟩ ran
  have stepped := lnetStep_stepped inv.1 op
  rw [taken] at stepped
  exact ⟨Stepped.settled stepped inv.1, Stepped.waiting inv.1 stepped inv.2⟩

end

/-- In every state that is reached a message that waits on a portal would be neither matched nor dropped
by a descriptor there, none waits on a portal that is not lazy, and the next step lets messages go only
by a match, the drop of a descriptor that is for them, or clearing the flag. -/
theorem lazy_portal_keeps_messages (hashLong : UInt64 → Nat) (nportals : Nat) (ops : List LnetOp)
    (s : Node) (ran : run (lnetStep hashLong) (newNode nportals) ops = .ok s) (p : Nat) :
    (∀ msg ∈ (s.portals p).msgq, ∀ m me d md, s.mes m = .live me → me.portal = p → me.md = some d →
      s.mds d = .live md → lnetTryMatchMd me md msg.hdr = .ok .none) ∧
    ((s.portals p).lazy = false → (s.portals p).msgq = []) ∧
    ∀ op t, lnetStep hashLong s op = .ok t → Leaves s op t p := by
  obtain ⟨settled, waiting⟩ := run_waiting ran
  refine ⟨fun msg mem m me d md entry portal link live => ?_, waiting.lazy p, fun op t taken => ?_⟩
  · obtain ⟨same, unmatched⟩ := waiting.queued p msg mem
    have unselected := unmatched m me d md ⟨entry, link, live⟩ (portal.trans same.symm)
    rw [lnetTryMatchMd, if_pos (by rw [unselected]; exact Bool.false_ne_true)]
  · have stepped := lnetStep_stepped settled op
    rw [taken] at stepped
    exact Stepped.leaves stepped p

/-- The header of a PUT to portal 0. -/
def waitingPut : Hdr := ⟨.put, ⟨1, 1⟩, 8, 0, 5, 0⟩

/-- It comes to a lazy portal with an entry for other bits, and is received early. -/
def waitingOps : List LnetOp :=
  [.setLazy 0, .meAttach ⟨0, ⟨1, 1⟩, 6, 0, false, none⟩ true,
    .mdAttach 0 ⟨64, 1, 0, ⟨true, false, false, false, false, false, false⟩, [], none⟩ false,
    .arrive waitingPut true, .resume ⟨⟨0, waitingPut⟩, 1⟩ true]

theorem lazy_portal_keeps_put : ∃ s, run (lnetStep fun _ => 0) (newNode 1) waitingOps = .ok s ∧
    (s.portals 0).msgq = [⟨0, waitingPut⟩] ∧
    ∀ op t, lnetStep (fun _ => 0) s op = .ok t → Leaves s op t 0 := by
  refine ⟨_, rfl, rfl, ?_⟩
  exact (lazy_portal_keeps_messages (fun _ => 0) 1 waitingOps _ rfl 0).2.2

/-- In every run entries, descriptors, the operations on them and the lists of the portals hang together,
and no assertion fails but the one on the threshold. -/
theorem node_hangs_together (hashLong : UInt64 → Nat) (nportals : Nat) (ops : List LnetOp) :
    Outcome (Settled hashLong) (· = .threshold) (run (lnetStep hashLong) (newNode nportals) ops) := by
  have keep : ∀ s op, Settled hashLong s ∧ Waiting s → True →
      Outcome (fun s => Settled hashLong s ∧ Waiting s) (· = .threshold) (lnetStep hashLong s op) := by
    intro s op ⟨settled, waiting⟩ _
    refine (lnetStep_stepped settled op).mono (fun t stepped => ?_) ?_
    · exact ⟨Stepped.settled stepped settled, Stepped.waiting settled stepped waiting⟩
    · rintro fault (threshold | ⟨-, p, plain, queued⟩)
      · exact threshold
      · exact absurd (waiting.lazy p plain) queued
  have start := run_waiting (show run (lnetStep hashLong) (newNode nportals) [] = .ok _ from rfl)
  exact (outcome_run keep start (meets_of_forall _ fun _ _ => trivial)).mono fun _ inv => inv.1

/-- The events of a descriptor, in the order in which they were enqueued. -/
def Node.eventsOf (s : Node) (d : Nat) : List Event := s.events.filter (fun event => event.md = d)

/-- A descriptor was unlinked: it is freed, or a zombie that operations still hold. -/
def Node.IsUnlinked (s : Node) (d : Nat) : Prop :=
  match s.mds d with
  | .unused => False
  | .live md => md.zombie = true
  | .freed _ => True

/-- The last of some events, and no other, says that the descriptor was unlinked. -/
def LastUnlinked (events : List Event) : Prop :=
  ∃ before event, events = before ++ [event] ∧ event.unlinked = true ∧
    ∀ other ∈ before, other.unlinked = false

/-- What the events of a descriptor say, as its place is used. -/
def SlotTold (slot : Slot Md) (events : List Event) : Prop :=
  match slot with
  | .unused => events = []
  | .live _ => ∀ event ∈ events, event.unlinked = false
  | .freed md => md.refcount = 0 ∧ (md.eq.isSome = true → LastUnlinked events)

/-- Every descriptor has the events that it should have. -/
def Told (s : Node) : Prop := ∀ d, SlotTold (s.mds d) (s.eventsOf d)

variable {d m : Nat} {md : Md} {event : Event} {me : Me}

section

variable {hashLong : UInt64 → Nat} {s t : Node}

/-! ### Moves -/

theorem Told.live (told : Told s) (live : s.mds d = .live md) :
    ∀ event ∈ s.eventsOf d, event.unlinked = false := by
  have slot := told d
  rwa [live] at slot

theorem eventsOf_congr (same : t.events = s.events) (d : Nat) : t.eventsOf d = s.eventsOf d := by
  unfold Node.eventsOf
  rw [same]

theorem eventsOf_append_here (added : t.events = s.events ++ [event]) :
    t.eventsOf event.md = s.eventsOf event.md ++ [event] := by
  unfold Node.eventsOf
  rw [added, filter_append, filter_cons_of_pos (by simp)]
  rfl

theorem eventsOf_append_other (added : t.events = s.events ++ [event]) (ne : d ≠ event.md) :
    t.eventsOf d = s.eventsOf d := by
  grind [Node.eventsOf]

/-- A place and the events of its descriptor stay as they are. -/
def Rests (s t : Node) (d : Nat) : Prop := t.mds d = s.mds d ∧ t.eventsOf d = s.eventsOf d

/-- Every place rests, or it was not freed and its events stay as they should be. -/
def Keeps (s t : Node) : Prop :=
  ∀ d, Rests s t d ∨ (∀ md, s.mds d ≠ .freed md) ∧
    (SlotTold (s.mds d) (s.eventsOf d) → SlotTold (t.mds d) (t.eventsOf d))

theorem Keeps.slot (keeps : Keeps s t) (told : SlotTold (s.mds d) (s.eventsOf d)) :
    SlotTold (t.mds d) (t.eventsOf d) := by
  rcases keeps d with ⟨mds, events⟩ | ⟨_, here⟩
  · rwa [mds, events]
  · exact here told

theorem Keeps.rests (keeps : Keeps s t) (freed : s.mds d = .freed md) : Rests s t d :=
  (keeps d).resolve_right fun change => change.1 md freed

theorem Keeps.trans {u : Node} (first : Keeps s t) (second : Keeps t u) : Keeps s u := by
  intro d
  rcases first d with ⟨mds, events⟩ | ⟨alive, told⟩
  · have rest := second d
    rwa [Rests, mds, events] at rest
  · exact .inr ⟨alive, fun before => second.slot (told before)⟩

theorem Keeps.congr (mds : t.mds = s.mds) (events : t.events = s.events) : Keeps s t :=
  fun d => .inl ⟨congrFun mds d, eventsOf_congr events d⟩

/-- A live descriptor changes, and the events of no other. -/
theorem Keeps.live (live : s.mds d = .live md) (others : ∀ i, i ≠ d → Rests s t i)
    (here : (∀ event ∈ s.eventsOf d, event.unlinked = false) → SlotTold (t.mds d) (t.eventsOf d)) :
    Keeps s t := by
  intro i
  by_cases same : i = d
  · subst same
    exact .inr ⟨by simp [live], fun told => here (by rwa [live] at told)⟩
  · exact .inl (others i same)

/-- A new descriptor has no events. -/
theorem Keeps.new (settled : Settled hashLong s) (others : ∀ i, i ≠ s.nextMd → t.mds i = s.mds i)
    (here : t.mds s.nextMd = .live md) (events : t.events = s.events) : Keeps s t := by
  have unused := settled.newMd s.nextMd le_rfl
  intro i
  by_cases same : i = s.nextMd
  · subst same
    refine .inr ⟨by simp [unused], fun told => ?_⟩
    rw [unused] at told
    rw [here, eventsOf_congr events, show s.eventsOf s.nextMd = [] from told]
    exact forall_mem_nil _
  · exact .inl ⟨others i same, eventsOf_congr events i⟩

theorem withoutOp_events (s : Node) (msg : ActiveMsg) (md : Md) : (withoutOp s msg md).events =
      if md.eq.isSome then s.events ++ [⟨msg.md, msg.kind, md.unlinkable⟩] else s.events := by
  unfold withoutOp
  split <;> rfl

theorem withoutOp_rests (s : Node) (msg : ActiveMsg) (md : Md) (ne : d ≠ msg.md) :
    Rests s (withoutOp s msg md) d := by
  unfold withoutOp
  split
  · exact ⟨setMd_other s ne _, eventsOf_append_other rfl ne⟩
  · exact ⟨setMd_other s ne _, rfl⟩

/-- The event that comes with the end of a descriptor is the last one. -/
theorem lastUnlinked_append {events : List Event}
    (before : ∀ other ∈ events, other.unlinked = false) (last : event.unlinked = true) :
    LastUnlinked (events ++ [event]) :=
  ⟨events, event, rfl, last, before⟩

/-- A descriptor that operations hold stays, one that nothing holds is freed. -/
theorem slotTold_afterUnlink {events : List Event}
    (busy : md.refcount ≠ 0 → ∀ event ∈ events, event.unlinked = false)
    (idle : md.refcount = 0 → md.eq.isSome = true → LastUnlinked events) :
    SlotTold (afterUnlink md) events := by
  unfold afterUnlink
  split
  · rename_i held
    exact busy held
  · rename_i free
    have zero := not_not.mp free
    exact ⟨zero, idle zero⟩

section

variable (settled : Settled hashLong s)

include settled

theorem Move.keeps (move : Move hashLong s t) : Keeps s t := by
  cases move with
  | still same => exact .congr same.mds same.events
  | @start id d kind md md' live =>
    refine .live live (fun i ne => ⟨setMd_other s ne _, rfl⟩) fun told => ?_
    rw [show (withOp s id kind d md').mds d = .live md' from setMd_here s d _]
    exact told
  | @finish msg md _ live stays =>
    refine .live live (fun i ne => withoutOp_rests s msg _ ne) fun told => ?_
    rw [withoutOp_here]
    have events := withoutOp_events s msg md.release
    split at events
    · rw [eventsOf_append_here events]
      exact forall_mem_append.mpr ⟨told, forall_mem_singleton.mpr stays⟩
    · rwa [eventsOf_congr events]
  | @last msg md _ _ live goes unlinked =>
    have free : md.release.refcount = 0 := by
      rw [Md.unlinkable, decide_eq_true_eq] at goes
      exact goes.1
    refine .live live (fun i ne => ?_) fun told => ?_
    · have rests := withoutOp_rests s msg md.release ne
      exact ⟨(unlinked.otherMd i ne).trans rests.1, (eventsOf_congr unlinked.events i).trans rests.2⟩
    rw [unlinked.here, eventsOf_congr unlinked.events]
    refine slotTold_afterUnlink (fun held => absurd free held) fun _ queue => ?_
    have events := withoutOp_events s msg md.release
    rw [if_pos queue] at events
    rw [eventsOf_append_here events]
    exact lastUnlinked_append told goes
  | @unlink d md _ live held unlinked =>
    refine .live live (fun i ne => ⟨unlinked.otherMd i ne, eventsOf_congr unlinked.events i⟩) fun told => ?_
    rw [unlinked.here, eventsOf_congr unlinked.events]
    refine slotTold_afterUnlink (fun _ => told) fun zero queue => ?_
    rcases held with busy | none
    · exact absurd zero busy
    · rw [none] at queue
      cases queue
  | @unlinkIdle d md _ live idle _ unlinked =>
    have added : t.events = s.events ++ [⟨d, .unlink, true⟩] := unlinked.events
    refine .live live (fun i ne => ⟨unlinked.otherMd i ne, eventsOf_append_other added ne⟩) fun told => ?_
    rw [unlinked.here, eventsOf_append_here added]
    refine slotTold_afterUnlink (fun busy => absurd idle busy) fun _ _ => ?_
    exact lastUnlinked_append told rfl
  | drop | newMe => exact .congr rfl rfl
  | bind fresh => exact .new settled (fun _ ne => setMd_other s ne _) (setMd_here s _ _) rfl

theorem Moves.keeps (moves : Moves hashLong s t) : Keeps s t := by
  induction moves with
  | refl => exact .congr rfl rfl
  | tail before move ih => exact ih.trans (move.keeps (Moves.settled before settled))

theorem Stepped.keeps {op : LnetOp} (stepped : Stepped hashLong s op t) : Keeps s t := by
  have linkMd_keeps (m : Nat) (me : Me) (md : Md) : Keeps s (linkMd s m me md) :=
    .new settled (fun _ ne => setMd_other s ne _) (setMd_here s _ _) rfl
  cases stepped with
  | moved moves => exact Moves.keeps settled moves
  | early | setLazy | clearLazy => exact .congr rfl rfl
  | waits still => exact .congr still.mds still.events
  | linked => exact linkMd_keeps _ _ _
  | handed entry off fresh _ handed =>
    have after := (linkMd_keeps _ _ _).trans
      (Moves.keeps (settled.link_settled fresh entry off) handed.moves)
    exact after

/-- What any number of steps does to the places. -/
theorem run_keeps {ops : List LnetOp} (ran : run (lnetStep hashLong) s ops = .ok t) :
    Settled hashLong t ∧ Keeps s t := by
  refine reached (P := fun t => Settled hashLong t ∧ Keeps s t) (fun u op t inv taken => ?_)
    ⟨settled, .congr rfl rfl⟩ ran
  have stepped := lnetStep_stepped inv.1 op
  rw [taken] at stepped
  exact ⟨Stepped.settled stepped inv.1, inv.2.trans (Stepped.keeps inv.1 stepped)⟩

end

theorem Unlinked.isUnlinked {x : Except LnetFault Node}
    (unlinks : ∃ u, x = .ok u ∧ Unlinked hashLong s d md u) (ran : x = .ok t) : t.IsUnlinked d := by
  obtain ⟨u, done, unlinked⟩ := unlinks
  cases done.symm.trans ran
  grind [Node.IsUnlinked, afterUnlink, cases Unlinked]

theorem lnetMDUnlink_isUnlinked (settled : Settled hashLong s) (live : s.mds d = .live md)
    (ran : lnetMDUnlink s d = .ok t) : t.IsUnlinked d := by
  unfold lnetMDUnlink at ran
  rw [live] at ran
  dsimp only at ran
  split at ran
  · rename_i zombie
    cases ran
    unfold Node.IsUnlinked
    rw [live]
    exact zombie
  split at ran
  · exact Unlinked.isUnlinked (lnetMdUnlink_spec (settled.addEvent _) live) ran
  · exact Unlinked.isUnlinked (lnetMdUnlink_spec settled live) ran

theorem lnetMEUnlink_isUnlinked (settled : Settled hashLong s) (entry : s.mes m = .live me)
    (link : me.md = some d) (live : s.mds d = .live md) (ran : lnetMEUnlink s m = .ok t) :
    t.IsUnlinked d := by
  unfold lnetMEUnlink at ran
  rw [entry] at ran
  dsimp only at ran
  split at ran
  · exact Unlinked.isUnlinked (lnetMeUnlink_unlinked (settled.addEvent _) entry link live) ran
  · exact Unlinked.isUnlinked (lnetMeUnlink_unlinked settled entry link live) ran

/-- A descriptor that says it was unlinked is freed. -/
theorem Told.freed (told : Told s) (mem : event ∈ s.eventsOf d) (unlinked : event.unlinked = true) :
    ∃ md, s.mds d = .freed md := by
  have slot := told d
  cases place : s.mds d with
  | unused =>
    rw [place] at slot
    rw [show s.eventsOf d = [] from slot] at mem
    cases mem
  | live md =>
    rw [told.live place event mem] at unlinked
    cases unlinked
  | freed md => exact ⟨md, rfl⟩

/-- A descriptor that was unlinked and that no operation holds is freed. -/
theorem Linked.freed_of_idle (settled : Settled hashLong s) (unlinked : s.IsUnlinked d)
    (idle : ∀ msg ∈ s.active, msg.md ≠ d) : ∃ md, s.mds d = .freed md := by
  unfold Node.IsUnlinked at unlinked
  cases place : s.mds d with
  | unused =>
    rw [place] at unlinked
    exact unlinked.elim
  | live md =>
    rw [place] at unlinked
    refine absurd ?_ (settled.zombieBusy d md place unlinked not_false)
    rw [settled.count d md place]
    have none : holders s.active d = 0 :=
      countP_eq_zero.mpr fun msg mem same => idle msg mem (of_decide_eq_true same)
    exact congrArg Int.ofNat none
  | freed md => exact ⟨md, rfl⟩

end

/-- In every state that is reached, for every descriptor with an event queue: its reference count is not
negative, and no step fails because it would be; a call that unlinks it makes it unlinked; when it was
unlinked and all its operations have completed, its last event and no other says so; until then none
does; and behind such an event no run adds another. -/
theorem unlinked_event_is_last (hashLong : UInt64 → Nat) (nportals : Nat) (ops : List LnetOp) (s : Node)
    (ran : run (lnetStep hashLong) (newNode nportals) ops = .ok s) (d : Nat) (md : Md)
    (slot : s.mds d = .live md ∨ s.mds d = .freed md) (queue : md.eq.isSome = true) :
    (0 ≤ md.refcount ∧ ∀ op, lnetStep hashLong s op ≠ .error .refcount) ∧
    (∀ t, s.mds d = .live md → lnetStep hashLong s (.mdUnlink d) = .ok t → t.IsUnlinked d) ∧
    (∀ t m me, s.mes m = .live me → me.md = some d → lnetStep hashLong s (.meUnlink m) = .ok t →
      t.IsUnlinked d) ∧
    (s.IsUnlinked d ∧ (∀ msg ∈ s.active, msg.md ≠ d) → LastUnlinked (s.eventsOf d)) ∧
    (¬ (s.IsUnlinked d ∧ ∀ msg ∈ s.active, msg.md ≠ d) →
      ∀ event ∈ s.eventsOf d, event.unlinked = false) ∧
    ∀ later t, run (lnetStep hashLong) s later = .ok t →
      (∃ event ∈ s.eventsOf d, event.unlinked = true) → t.eventsOf d = s.eventsOf d := by
  obtain ⟨settled, keeps⟩ := run_keeps (newNode_settled nportals) ran
  have told : Told s := fun d => keeps.slot rfl
  refine ⟨⟨?_, fun op failed => ?_⟩, fun t live step => lnetMDUnlink_isUnlinked settled live step,
    fun t m me entry link step => ?_, fun ⟨unlinked, idle⟩ => ?_, fun alive event mem => ?_,
    fun later t ranOn ⟨event, mem, unlinked⟩ => ?_⟩
  · rcases slot with live | freed
    · exact settled.refcount_nonneg live
    · have free := told d
      rw [freed] at free
      exact Int.le_of_eq free.1.symm
  · have stepped := lnetStep_stepped settled op
    rw [failed] at stepped
    rcases stepped with threshold | ⟨blocked, _⟩
    · cases threshold
    · cases blocked
  · obtain ⟨old, live, _⟩ := settled.meMd m me d entry link
    exact lnetMEUnlink_isUnlinked settled entry link live step
  · obtain ⟨old, freed⟩ := settled.freed_of_idle unlinked idle
    have free := told d
    rw [freed] at free
    rcases slot with live | same
    · cases freed.symm.trans live
    · cases freed.symm.trans same
      exact free.2 queue
  · by_contra other
    rw [Bool.not_eq_false] at other
    obtain ⟨old, freed⟩ := told.freed mem other
    refine alive ⟨?_, fun msg held same => ?_⟩
    · unfold Node.IsUnlinked
      rw [freed]
      trivial
    · obtain ⟨busy, live⟩ := settled.held msg held
      rw [same] at live
      cases freed.symm.trans live
  · obtain ⟨old, freed⟩ := told.freed mem unlinked
    exact ((run_keeps settled ranOn).2.rests freed).2

/-- A descriptor with an event queue takes a PUT, is unlinked meanwhile, and goes with its completion. -/
def unlinkOps : List LnetOp :=
  [.meAttach ⟨0, ⟨1, 1⟩, 5, 0, true, none⟩ true,
    .mdAttach 0 ⟨64, -1, 0, ⟨true, false, false, false, false, false, false⟩, [], some 0⟩ false,
    .arrive ⟨.put, ⟨1, 1⟩, 8, 0, 5, 0⟩ false, .mdUnlink 0, .finalize ⟨0, 0, .put⟩]

theorem unlinked_event_is_last_put : ∃ s md,
    run (lnetStep fun _ => 0) (newNode 1) unlinkOps = .ok s ∧ s.mds 0 = .freed md ∧
    s.eventsOf 0 = [⟨0, .put, true⟩] ∧ LastUnlinked (s.eventsOf 0) := by
  refine ⟨_, _, rfl, rfl, rfl, ?_⟩
  have law := unlinked_event_is_last (fun _ => 0) 1 unlinkOps _ rfl 0 _ (.inr rfl) rfl
  exact law.2.2.2.1 ⟨trivial, forall_mem_nil _⟩

end Lnet
