/-
Module: Lustre.Lnet.Moves
Purpose: The moves of which every step of a node is made, and what they keep.
Trusted boundary: none
-/
import Lustre.Lnet.Links

namespace Lnet

open Run

/-- Nothing changes but the fates, the numbers of messages and those received early. -/
structure Still (s t : Node) : Prop where
  mes : t.mes = s.mes
  mds : t.mds = s.mds
  active : t.active = s.active
  events : t.events = s.events
  portals : t.portals = s.portals
  nextMe : t.nextMe = s.nextMe
  nextMd : t.nextMd = s.nextMd
  eager : ∀ early ∈ t.eager, early ∈ s.eager

theorem Still.refl (s : Node) : Still s s := ⟨rfl, rfl, rfl, rfl, rfl, rfl, rfl, fun _ mem => mem⟩

/-- A descriptor as `lib_md_build` makes it. -/
structure Fresh (md : Md) : Prop where
  me : md.me = none
  offset : md.offset = 0
  refcount : md.refcount = 0
  zombie : md.zombie = false

/-- A descriptor that one operation less holds. -/
def Md.release (md : Md) : Md := { md with refcount := md.refcount - 1 }

/-- An operation is done: its event is enqueued. -/
def withoutOp (s : Node) (msg : ActiveMsg) (md : Md) : Node :=
  let done := { s.setMd msg.md (.live md) with active := s.active.erase msg }
  if md.eq.isSome then done.addEvent ⟨msg.md, msg.kind, md.unlinkable⟩ else done

/-- A portal with one more entry. -/
structure WithMe (hashLong : UInt64 → Nat) (old : Portal) (m : Nat) (me : Me) (ptl : Portal) :
    Prop where
  heads : ∀ id bits i, i ∈ old.meHead hashLong id bits → i ∈ ptl.meHead hashLong id bits
  here : m ∈ ptl.meHead hashLong me.matchId me.matchBits
  lists : ∀ i, ptl.Has i → old.Has i ∨ i = m
  wildcard : ptl.wildcard = false → old.wildcard = false
  kind : ptl.wildcard = false → lnetMatchIsUnique me.matchId me.ignoreBits = true
  lazy : ptl.lazy = old.lazy
  msgq : ptl.msgq = old.msgq
  mlVersion : ptl.mlVersion = old.mlVersion

/-- What a step is made of, except that a descriptor is attached and that messages wait. -/
inductive Move (hashLong : UInt64 → Nat) (s : Node) : Node → Prop where
  | still {t : Node} : Still s t → Move hashLong s t
  | start {id d : Nat} {kind : EventKind} {md md' : Md} : s.mds d = .live md → Committed md md' →
      (md.me = none → md'.offset = md.offset) → (md.exhausted = true → md'.exhausted = true) →
      (kind = .sendGet → md.me = none ∧ md.offset = 0) → Move hashLong s (withOp s id kind d md')
  | finish {msg : ActiveMsg} {md : Md} : msg ∈ s.active → s.mds msg.md = .live md →
      md.release.unlinkable = false → Move hashLong s (withoutOp s msg md.release)
  | last {msg : ActiveMsg} {md : Md} {t : Node} : msg ∈ s.active → s.mds msg.md = .live md →
      md.release.unlinkable = true →
      Unlinked hashLong (withoutOp s msg md.release) msg.md md.release t → Move hashLong s t
  | unlink {d : Nat} {md : Md} {t : Node} : s.mds d = .live md → md.refcount ≠ 0 ∨ md.eq = none →
      Unlinked hashLong s d md t → Move hashLong s t
  | unlinkIdle {d : Nat} {md : Md} {t : Node} : s.mds d = .live md → md.refcount = 0 →
      md.eq.isSome = true → Unlinked hashLong (s.addEvent ⟨d, .unlink, true⟩) d md t →
      Move hashLong s t
  | drop {m : Nat} {me : Me} : s.mes m = .live me → me.md = none → Move hashLong s (dropMe s m me)
  | newMe {me : Me} {ptl : Portal} : me.md = none →
      WithMe hashLong (s.portals me.portal) s.nextMe me ptl →
      Move hashLong s { (s.setMe s.nextMe (.live me)).setPortal me.portal ptl with
        nextMe := s.nextMe + 1 }
  | bind {md : Md} : Fresh md →
      Move hashLong s { s.setMd s.nextMd (.live md) with nextMd := s.nextMd + 1 }

/-- One move after another. -/
abbrev Moves (hashLong : UInt64 → Nat) : Node → Node → Prop := Relation.ReflTransGen (Move hashLong)

variable {md : Md} {me : Me} {msg : ActiveMsg} {d m : Nat} {loose : Nat → Prop}

section

variable {hashLong : UInt64 → Nat} {s t : Node}

/-! ### What the moves keep -/

theorem Still.settled (still : Still s t) (settled : Settled hashLong s) : Settled hashLong t := by
  refine settled.congr still.mes still.mds still.active still.nextMe still.nextMd fun p => ?_
  rw [still.portals]
  exact .refl _

theorem holders_erase_here {active : List ActiveMsg} (mem : msg ∈ active) :
    holders active msg.md = holders (active.erase msg) msg.md + 1 := by
  have perm := (List.perm_cons_erase mem).countP_eq (fun other => other.md = msg.md)
  exact perm.trans (holders_cons_here _ msg.id msg.md msg.kind)

theorem holders_erase_other {active : List ActiveMsg} (mem : msg ∈ active) {i : Nat}
    (ne : i ≠ msg.md) : holders (active.erase msg) i = holders active i := by
  have perm := (List.perm_cons_erase mem).countP_eq (fun other => other.md = i)
  exact (perm.trans (holders_cons_other _ msg.id msg.kind ne)).symm

theorem withoutOp_here (s : Node) (msg : ActiveMsg) (md : Md) :
    (withoutOp s msg md).mds msg.md = .live md := by
  unfold withoutOp
  split
  · exact setMd_here s msg.md _
  · exact setMd_here s msg.md _

/-- A live descriptor is not the next one. -/
theorem Linked.md_ne_next (linked : Linked hashLong loose s) (live : s.mds d = .live md) :
    d ≠ s.nextMd := by
  rintro rfl
  cases live.symm.trans (linked.newMd s.nextMd le_rfl)

theorem Linked.holders_next (linked : Linked hashLong loose s) : holders s.active s.nextMd = 0 := by
  refine List.countP_eq_zero.mpr fun msg mem same => ?_
  obtain ⟨md, live⟩ := linked.held msg mem
  exact linked.md_ne_next live (of_decide_eq_true same)

theorem linkMd_portal (s : Node) (m : Nat) (me : Me) (md : Md) :
    (linkMd s m me md).portals me.portal =
      { s.portals me.portal with mlVersion := (s.portals me.portal).mlVersion + 1 } :=
  setPortal_here _ _ _

theorem linkMd_otherPortal (s : Node) (m : Nat) (md : Md) {p : Nat} (ne : p ≠ me.portal) :
    (linkMd s m me md).portals p = s.portals p :=
  setPortal_other _ ne _

section

variable (linked : Settled hashLong s)

include linked

/-- An operation that completes leaves its descriptor to be looked at. -/
theorem Linked.withoutOp (mem : msg ∈ s.active)
    (live : s.mds msg.md = .live md) :
    Linked hashLong (· = msg.md) (withoutOp s msg md.release) := by
  have done : Linked hashLong (· = msg.md)
      { s.setMd msg.md (.live md.release) with active := s.active.erase msg } := by
    refine .setMd linked live rfl rfl ?_ (fun i ne => holders_erase_other mem ne)
      (fun other held => .inl (List.mem_of_mem_erase held)) (fun _ zero => zero)
    show md.refcount - 1 = _
    rw [linked.count msg.md md live, holders_erase_here mem]
    omega
  unfold Lnet.withoutOp
  split
  · exact done.addEvent _
  · exact done

/-- It is as it should be when it does not go. -/
theorem Linked.withoutOp_settled (mem : msg ∈ s.active)
    (live : s.mds msg.md = .live md) (stays : md.release.unlinkable = false) :
    Settled hashLong (Lnet.withoutOp s msg md.release) := by
  refine (linked.withoutOp mem live).tighten fun other liveMd => ?_
  cases (withoutOp_here s msg md.release).symm.trans liveMd
  refine ⟨fun zombie zero => ?_, fun alive off => linked.boundOffset msg.md md live alive off not_false⟩
  rw [Md.unlinkable, decide_eq_false_iff_not] at stays
  exact stays ⟨zero, .inl zombie⟩

theorem Linked.dropMe (live : s.mes m = .live me) (off : me.md = none) :
    Settled hashLong (dropMe s m me) := by
  have around : Around hashLong (fun _ => False) (· = m) s (Lnet.dropMe s m me) :=
    { me := fun i ne => setMe_other s ne _
      back := by
        rintro d md i - rfl liveMd link
        obtain ⟨other, liveMe, back⟩ := linked.mdMe d md i liveMd link
        cases live.symm.trans liveMe
        cases off.symm.trans back
      heads := fun _ _ _ _ ne mem => mem_unlist_meHead.mpr ⟨mem, ne⟩
      lists := fun _ _ _ mem => (has_unlist.mp mem).1 }
  refine around.linked linked (fun _ _ h => h) (fun _ _ h => h.elim) (fun _ _ h => h.elim)
    (fun _ h => h.elim) ?_ (fun _ _ here mem => absurd here (has_unlist.mp mem).2)
    fun i _ new => setMe_unused live _ (linked.newMe i new)
  rintro i other rfl liveMe
  cases (setMe_here s i _).symm.trans liveMe

theorem Linked.newMe_settled {ptl : Portal} (off : me.md = none)
    (added : WithMe hashLong (s.portals me.portal) s.nextMe me ptl) :
    Settled hashLong { (s.setMe s.nextMe (.live me)).setPortal me.portal ptl with
      nextMe := s.nextMe + 1 } := by
  have portal (p : Nat) : ((s.setMe s.nextMe (.live me)).setPortal me.portal ptl).portals p =
      s.portals p ∨ p = me.portal ∧
        ((s.setMe s.nextMe (.live me)).setPortal me.portal ptl).portals p = ptl := by
    by_cases here : p = me.portal
    · exact .inr ⟨here, here ▸ setPortal_here _ _ ptl⟩
    · exact .inl (setPortal_other _ here ptl)
  have itself := setPortal_here (s.setMe s.nextMe (.live me)) me.portal ptl
  have around : Around hashLong (fun _ => False) (· = s.nextMe) s
      { (s.setMe s.nextMe (.live me)).setPortal me.portal ptl with nextMe := s.nextMe + 1 } :=
    { me := fun i ne => setMe_other s ne _
      back := by
        rintro d md i - rfl liveMd link
        obtain ⟨other, liveMe, -⟩ := linked.mdMe d md _ liveMd link
        cases liveMe.symm.trans (linked.newMe s.nextMe le_rfl)
      heads := by
        intro p id bits i _ mem
        rcases portal p with same | ⟨rfl, same⟩ <;> rw [same]
        · exact mem
        · exact added.heads id bits i mem
      wildcard := by
        intro p plain
        rcases portal p with same | ⟨rfl, same⟩ <;> rw [same] at plain
        · exact plain
        · exact added.wildcard plain
      lists := by
        intro p i ne mem
        rcases portal p with same | ⟨rfl, same⟩ <;> rw [same] at mem
        · exact mem
        · exact (added.lists i mem).resolve_right ne
      nextMe := Nat.le_succ _ }
  refine around.linked linked (fun _ _ h => h) (fun _ _ h => h.elim) (fun _ _ h => h.elim)
    (fun _ h => h.elim) ?_ (fun _ _ here _ => ⟨me, here ▸ setMe_here s _ _⟩)
    fun i here new => absurd (here ▸ new) (Nat.not_succ_le_self _)
  rintro i other rfl liveMe
  cases (setMe_here s _ _).symm.trans liveMe
  refine ⟨fun d link => ?_, ?_, fun plain => added.kind (itself ▸ plain)⟩
  · cases off.symm.trans link
  · rw [itself]
    exact added.here

theorem Linked.not_held_next (mem : msg ∈ s.active) : msg.md ≠ s.nextMd := by
  obtain ⟨md, live⟩ := linked.held msg mem
  exact linked.md_ne_next live

theorem Linked.not_linked_next (live : s.mes m = .live me) : me.md ≠ some s.nextMd := by
  intro link
  obtain ⟨md, liveMd, -⟩ := linked.meMd m me _ live link
  exact linked.md_ne_next liveMd rfl

variable (fresh : Fresh md)

include fresh

/-- A new descriptor hangs together with the rest when its entry does. -/
theorem Linked.sound_next (active : t.active = s.active) {link : Option Nat}
    (entry : ∀ m, link = some m → ∃ me, t.mes m = .live me ∧ me.md = some s.nextMd) :
    MdSound (fun _ => False) t s.nextMd { md with me := link } where
  entry := entry
  zombieOff := fun zombie => by cases fresh.zombie.symm.trans zombie
  zombieBusy := fun zombie => by cases fresh.zombie.symm.trans zombie
  boundOffset := fun _ _ _ => fresh.offset
  count := by
    rw [active, linked.holders_next]
    exact fresh.refcount
  sending := fun msg mem here => absurd here (linked.not_held_next (active ▸ mem))

theorem Linked.bind_settled :
    Settled hashLong { s.setMd s.nextMd (.live md) with nextMd := s.nextMd + 1 } := by
  have around : Around hashLong (· = s.nextMd) (fun _ => False) s
      { s.setMd s.nextMd (.live md) with nextMd := s.nextMd + 1 } :=
    { md := fun i ne => setMd_other s ne _
      forth := fun _ _ _ _ here live link => absurd (here ▸ link) (linked.not_linked_next live)
      nextMd := Nat.le_succ _ }
  refine around.linked linked (fun _ _ h => h) ?_
    (fun _ mem here => absurd here (linked.not_held_next mem))
    (fun i here new => absurd (here ▸ new) (Nat.not_succ_le_self _)) (fun _ _ h => h.elim)
    (fun _ _ h => h.elim) fun _ h => h.elim
  rintro i other rfl liveMd
  cases (setMd_here s _ _).symm.trans liveMd
  exact linked.sound_next (t := { s.setMd s.nextMd (.live md) with nextMd := s.nextMd + 1 }) fresh
    rfl fun m link => by cases fresh.me.symm.trans link

/-- A new descriptor is put on an entry that has none. -/
theorem Linked.link_settled (liveMe : s.mes m = .live me) (off : me.md = none) :
    Settled hashLong (linkMd s m me md) := by
  have lists (p : Nat) : SameLists ((linkMd s m me md).portals p) (s.portals p) := by
    by_cases here : p = me.portal
    · rw [here, linkMd_portal]
      exact ⟨rfl, rfl, rfl, rfl⟩
    · rw [linkMd_otherPortal s m md here]
      exact .refl _
  have itself : (linkMd s m me md).mes m = .live { me with md := some s.nextMd } :=
    setMe_here _ m _
  have around : Around hashLong (· = s.nextMd) (· = m) s (linkMd s m me md) :=
    { md := fun i ne => setMd_other s ne _
      me := fun i ne => setMe_other _ ne _
      back := by
        rintro d old i - rfl liveMd link
        obtain ⟨other, live, back⟩ := linked.mdMe d old i liveMd link
        cases liveMe.symm.trans live
        cases off.symm.trans back
      forth := fun _ _ _ _ here live link => absurd (here ▸ link) (linked.not_linked_next live)
      heads := fun p _ _ _ _ mem => by rwa [(lists p).meHead]
      wildcard := fun p plain => (lists p).wildcard ▸ plain
      lists := fun p _ _ mem => (lists p).has.mp mem
      nextMd := Nat.le_succ _ }
  refine around.linked linked (fun _ _ h => h) ?_
    (fun _ mem here => absurd here (linked.not_held_next mem))
    (fun i here new => absurd (here ▸ new) (Nat.not_succ_le_self _)) ?_
    (fun _ _ here _ => ⟨_, (congrArg _ here).trans itself⟩) fun i _ new => setMe_unused liveMe _ (linked.newMe i new)
  · rintro i other rfl liveMd
    cases (setMd_here s _ _).symm.trans liveMd
    refine linked.sound_next (t := linkMd s m me md) fresh rfl fun i link => ?_
    cases link
    exact ⟨_, itself, rfl⟩
  · rintro i other rfl live
    cases itself.symm.trans live
    refine ⟨fun d link => ?_, ?_, fun plain => ?_⟩
    · cases link
      exact ⟨_, setMd_here s _ _, rfl⟩
    · rw [(lists _).meHead]
      exact linked.listed i me liveMe
    · exact linked.kinds i me liveMe ((lists _).wildcard ▸ plain)

end

/-- Every move leaves a node that hangs together. -/
theorem Move.settled (move : Move hashLong s t) (settled : Settled hashLong s) :
    Settled hashLong t := by
  cases move with
  | still same => exact same.settled settled
  | start live committed offset _ sending =>
    exact settled.withOp_settled live committed offset sending
  | finish mem live stays => exact settled.withoutOp_settled mem live stays
  | last mem live _ unlinked => exact unlinked.settled (settled.withoutOp mem live) (withoutOp_here ..)
  | unlink live _ unlinked => exact unlinked.settled (settled.mono fun _ h => h.elim) live
  | unlinkIdle live _ _ unlinked =>
    exact unlinked.settled ((settled.addEvent _).mono fun _ h => h.elim) live
  | drop live off => exact settled.dropMe live off
  | newMe off added => exact settled.newMe_settled off added
  | bind fresh => exact settled.bind_settled fresh

theorem Moves.settled (moves : Moves hashLong s t) (settled : Settled hashLong s) :
    Settled hashLong t := by
  induction moves with
  | refl => exact settled
  | tail _ move ih => exact move.settled ih

/-- The portals are as lazy, the same messages wait on them, and no more descriptors were attached. -/
structure Queues (s t : Node) : Prop where
  portals : ∀ p, (t.portals p).lazy = (s.portals p).lazy ∧
    (t.portals p).msgq = (s.portals p).msgq ∧ (t.portals p).mlVersion = (s.portals p).mlVersion
  eager : ∀ early ∈ t.eager, early ∈ s.eager

theorem Queues.refl (s : Node) : Queues s s := ⟨fun _ => ⟨rfl, rfl, rfl⟩, fun _ mem => mem⟩

theorem Queues.trans {u : Node} (first : Queues s t) (second : Queues t u) : Queues s u where
  portals := fun p =>
    have a := first.portals p
    have b := second.portals p
    ⟨b.1.trans a.1, b.2.1.trans a.2.1, b.2.2.trans a.2.2⟩
  eager := fun early mem => first.eager early (second.eager early mem)

theorem Still.queues (still : Still s t) : Queues s t where
  portals := by
    intro p
    rw [still.portals]
    exact ⟨rfl, rfl, rfl⟩
  eager := still.eager

theorem Unlinked.queues (unlinked : Unlinked hashLong s d md t) : Queues s t where
  portals := fun p =>
    have same := unlinked.portals p
    ⟨same.1, same.2.2.1, same.2.2.2⟩
  eager := by
    rw [unlinked.eager]
    exact fun _ mem => mem

theorem withoutOp_queues (s : Node) (msg : ActiveMsg) (md : Md) : Queues s (withoutOp s msg md) := by
  unfold withoutOp
  split
  · exact { Queues.refl s with }
  · exact { Queues.refl s with }

theorem Move.queues (move : Move hashLong s t) : Queues s t := by
  cases move with
  | still same => exact same.queues
  | start | drop | bind => exact { Queues.refl s with }
  | finish => exact withoutOp_queues ..
  | last _ _ _ unlinked => exact (withoutOp_queues ..).trans unlinked.queues
  | unlink _ _ unlinked => exact unlinked.queues
  | unlinkIdle _ _ _ unlinked => exact ⟨unlinked.queues.portals, unlinked.queues.eager⟩
  | @newMe me ptl _ added =>
    refine ⟨?_, fun _ mem => mem⟩
    exact setPortal_forall (P := fun p ptl => ptl.lazy = (s.portals p).lazy ∧
      ptl.msgq = (s.portals p).msgq ∧ ptl.mlVersion = (s.portals p).mlVersion)
      ⟨added.lazy, added.msgq, added.mlVersion⟩ fun _ => ⟨rfl, rfl, rfl⟩

theorem Moves.queues (moves : Moves hashLong s t) : Queues s t := by
  induction moves with
  | refl => exact .refl s
  | tail _ move ih => exact ih.trans move.queues

/-! ### Attached descriptors -/

/-- A descriptor on an entry. -/
structure Attached (s : Node) (m : Nat) (me : Me) (d : Nat) (md : Md) : Prop where
  entry : s.mes m = .live me
  link : me.md = some d
  live : s.mds d = .live md

/-- What is attached was attached before, and is not less exhausted than it was. -/
def Worn (s t : Node) : Prop :=
  ∀ m me d md, Attached t m me d md → ∃ old, Attached s m me d old ∧
    md.options = old.options ∧ (old.exhausted = true → md.exhausted = true)

theorem Worn.refl (s : Node) : Worn s s :=
  fun _ _ _ md attached => ⟨md, attached, rfl, id⟩

theorem Worn.trans {u : Node} (first : Worn s t) (second : Worn t u) : Worn s u := by
  intro m me d md attached
  obtain ⟨mid, before, options, worn⟩ := second m me d md attached
  obtain ⟨old, start, options', worn'⟩ := first m me d mid before
  exact ⟨old, start, options.trans options', fun exhausted => worn (worn' exhausted)⟩

/-- One descriptor is more worn than before. -/
theorem Worn.setMd {md' : Md} (live : s.mds d = .live md) (options : md'.options = md.options)
    (worn : md.exhausted = true → md'.exhausted = true) (mes : t.mes = s.mes)
    (mds : t.mds = (s.setMd d (.live md')).mds) : Worn s t := by
  intro m me i new attached
  have entry := attached.entry
  have liveMd := attached.live
  rw [mes] at entry
  rw [mds] at liveMd
  by_cases here : i = d
  · subst here
    cases (setMd_here s i (.live md')).symm.trans liveMd
    exact ⟨md, ⟨entry, attached.link, live⟩, options, worn⟩
  · exact ⟨new, ⟨entry, attached.link, (setMd_other s here _).symm.trans liveMd⟩, rfl, id⟩

/-- A descriptor that is unlinked is attached no more. -/
theorem Unlinked.worn (unlinked : Unlinked hashLong s d md t) (linked : Linked hashLong loose s)
    (live : s.mds d = .live md) : Worn s t := by
  intro m me i new attached
  rcases unlinked.beforeMe attached.entry with ⟨other, before⟩ | ⟨_, old, _, rfl⟩
  · obtain ⟨old, liveOld, back⟩ := linked.meMd m me i before attached.link
    have ne : i ≠ d := by
      rintro rfl
      cases live.symm.trans liveOld
      exact other back
    have same := (unlinked.otherMd i ne).symm.trans attached.live
    exact ⟨new, ⟨before, attached.link, same⟩, rfl, id⟩
  · cases attached.link

theorem withoutOp_worn (live : s.mds msg.md = .live md) : Worn s (withoutOp s msg md.release) := by
  have options : md.release.options = md.options := rfl
  refine .setMd live options id ?_ ?_
  · unfold withoutOp
    split <;> rfl
  · unfold withoutOp
    split <;> rfl

theorem Move.worn (move : Move hashLong s t) (settled : Settled hashLong s) : Worn s t := by
  cases move with
  | still same =>
    intro m me d md attached
    exact ⟨md, ⟨same.mes ▸ attached.entry, attached.link, same.mds ▸ attached.live⟩, rfl, id⟩
  | start live committed _ worn _ => exact .setMd live committed.options worn rfl rfl
  | finish _ live _ => exact withoutOp_worn live
  | last mem live _ unlinked =>
    exact (withoutOp_worn live).trans (unlinked.worn (settled.withoutOp mem live) (withoutOp_here ..))
  | unlink live _ unlinked => exact unlinked.worn settled live
  | unlinkIdle live _ _ unlinked =>
    intro m me i new attached
    obtain ⟨old, before, same⟩ := unlinked.worn (settled.addEvent _) live m me i new attached
    exact ⟨old, { before with }, same⟩
  | @drop m me live off =>
    intro i other d md attached
    have ne : i ≠ m := by
      rintro rfl
      cases (setMe_here s i (.freed me)).symm.trans attached.entry
    exact ⟨md, ⟨(setMe_other s ne _).symm.trans attached.entry, attached.link, attached.live⟩, rfl, id⟩
  | @newMe me ptl off _ =>
    intro i other d md attached
    have ne : i ≠ s.nextMe := by
      rintro rfl
      cases (setMe_here s s.nextMe (.live me)).symm.trans attached.entry
      cases off.symm.trans attached.link
    exact ⟨md, ⟨(setMe_other s ne _).symm.trans attached.entry, attached.link, attached.live⟩, rfl, id⟩
  | bind fresh =>
    intro m me d md attached
    obtain ⟨old, live, _⟩ := settled.meMd m me d attached.entry attached.link
    have same := (setMd_other s (settled.md_ne_next live) _).symm.trans attached.live
    exact ⟨md, ⟨attached.entry, attached.link, same⟩, rfl, id⟩

theorem Moves.worn (moves : Moves hashLong s t) (settled : Settled hashLong s) : Worn s t := by
  induction moves with
  | refl => exact .refl s
  | tail before move ih => exact ih.trans (move.worn (Moves.settled before settled))

/-- No descriptor of its portal is for a header. -/
def Unmatched (s : Node) (hdr : Hdr) : Prop :=
  ∀ m me d md, Attached s m me d md → me.portal = hdr.portal → selects me md hdr = false

theorem selects_worn {old : Md} {hdr : Hdr} (options : md.options = old.options)
    (worn : old.exhausted = true → md.exhausted = true) (unselected : selects me old hdr = false) :
    selects me md hdr = false := by grind [selects]

theorem Worn.unmatched (worn : Worn s t) {hdr : Hdr} (unmatched : Unmatched s hdr) :
    Unmatched t hdr := by
  intro m me d md attached portal
  obtain ⟨old, before, options, more⟩ := worn m me d md attached
  exact selects_worn options more (unmatched m me d old before portal)

end

end Lnet
