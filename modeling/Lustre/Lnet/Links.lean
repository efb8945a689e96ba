/-
Module: Lustre.Lnet.Links
Purpose: How entries, descriptors, lists and operations in progress hang together; every step keeps
  this.
Trusted boundary: none
-/
import Lustre.Lnet.Portal

namespace Lnet

/-! ### The invariant -/

/-- The number of operations that hold a descriptor. -/
def holders (active : List ActiveMsg) (d : Nat) : Nat := active.countP (fun msg => msg.md = d)

/-- An entry is on a list of a portal. -/
def Portal.Has (ptl : Portal) (m : Nat) : Prop := m ∈ ptl.mlist ∨ ∃ h, m ∈ ptl.mhash h

/-- How the parts of a node hang together.  `loose` is a descriptor being worked on: a zombie that
nothing holds, or off its entry with its offset advanced. -/
structure Linked (hashLong : UInt64 → Nat) (loose : Nat → Prop) (s : Node) : Prop where
  meMd : ∀ m me d, s.mes m = .live me → me.md = some d → ∃ md, s.mds d = .live md ∧ md.me = some m
  mdMe : ∀ d md m, s.mds d = .live md → md.me = some m → ∃ me, s.mes m = .live me ∧ me.md = some d
  zombieOff : ∀ d md, s.mds d = .live md → md.zombie = true → md.me = none
  zombieBusy : ∀ d md, s.mds d = .live md → md.zombie = true → ¬ loose d → md.refcount ≠ 0
  boundOffset : ∀ d md, s.mds d = .live md → md.zombie = false → md.me = none → ¬ loose d →
    md.offset = 0
  count : ∀ d md, s.mds d = .live md → md.refcount = holders s.active d
  held : ∀ msg ∈ s.active, ∃ md, s.mds msg.md = .live md
  sending : ∀ msg ∈ s.active, msg.kind = .sendGet → ∀ md, s.mds msg.md = .live md →
    md.me = none ∧ md.offset = 0
  listed : ∀ m me, s.mes m = .live me →
    m ∈ (s.portals me.portal).meHead hashLong me.matchId me.matchBits
  onList : ∀ p m, (s.portals p).Has m → ∃ me, s.mes m = .live me
  kinds : ∀ m me, s.mes m = .live me → (s.portals me.portal).wildcard = false →
    lnetMatchIsUnique me.matchId me.ignoreBits = true
  newMe : ∀ m, s.nextMe ≤ m → s.mes m = .unused
  newMd : ∀ d, s.nextMd ≤ d → s.mds d = .unused

/-- Nothing is being worked on. -/
abbrev Settled (hashLong : UInt64 → Nat) (s : Node) : Prop := Linked hashLong (fun _ => False) s

/-- Two portals with the same entries. -/
structure SameLists (a b : Portal) : Prop where
  unique : a.unique = b.unique
  wildcard : a.wildcard = b.wildcard
  mlist : a.mlist = b.mlist
  mhash : a.mhash = b.mhash

theorem SameLists.refl (a : Portal) : SameLists a a := ⟨rfl, rfl, rfl, rfl⟩

theorem SameLists.meHead {a b : Portal} (same : SameLists a b) (hashLong : UInt64 → Nat)
    (id : ProcessId) (bits : UInt64) : a.meHead hashLong id bits = b.meHead hashLong id bits := by
  unfold Portal.meHead
  rw [same.unique, same.wildcard, same.mlist, same.mhash]

variable {m : Nat}

theorem SameLists.has {a b : Portal} (same : SameLists a b) : a.Has m ↔ b.Has m := by
  unfold Portal.Has
  rw [same.mlist, same.mhash]

variable {md md' : Md} {d i : Nat} {me : Me}

section

variable {hashLong : UInt64 → Nat} {loose : Nat → Prop} {s t : Node}

/-- A descriptor that hangs together with the rest of a node. -/
structure MdSound (loose : Nat → Prop) (s : Node) (d : Nat) (md : Md) : Prop where
  entry : ∀ m, md.me = some m → ∃ me, s.mes m = .live me ∧ me.md = some d
  zombieOff : md.zombie = true → md.me = none
  zombieBusy : md.zombie = true → ¬ loose d → md.refcount ≠ 0
  boundOffset : md.zombie = false → md.me = none → ¬ loose d → md.offset = 0
  count : md.refcount = holders s.active d
  sending : ∀ msg ∈ s.active, msg.md = d → msg.kind = .sendGet → md.me = none ∧ md.offset = 0

/-- An entry that hangs together with the rest of a node. -/
structure MeSound (hashLong : UInt64 → Nat) (s : Node) (m : Nat) (me : Me) : Prop where
  link : ∀ d, me.md = some d → ∃ md, s.mds d = .live md ∧ md.me = some m
  listed : m ∈ (s.portals me.portal).meHead hashLong me.matchId me.matchBits
  kind : (s.portals me.portal).wildcard = false →
    lnetMatchIsUnique me.matchId me.ignoreBits = true

/-- Nothing changes but the descriptors in `D`, the entries in `M`, and what hangs on them. -/
structure Around (hashLong : UInt64 → Nat) (D M : Nat → Prop) (s t : Node) : Prop where
  md : ∀ i, ¬ D i → t.mds i = s.mds i := by exact fun _ _ => rfl
  me : ∀ i, ¬ M i → t.mes i = s.mes i := by exact fun _ _ => rfl
  back : ∀ d md m, ¬ D d → M m → s.mds d = .live md → md.me = some m →
    ∃ me, t.mes m = .live me ∧ me.md = some d := by exact fun _ _ _ _ h => h.elim
  forth : ∀ m me d, ¬ M m → D d → s.mes m = .live me → me.md = some d →
    ∃ md, t.mds d = .live md ∧ md.me = some m := by exact fun _ _ _ _ h => h.elim
  holders : ∀ i, ¬ D i → holders t.active i = holders s.active i := by exact fun _ _ => rfl
  active : ∀ msg ∈ t.active, ¬ D msg.md → msg ∈ s.active := by exact fun _ mem _ => mem
  heads : ∀ p id bits i, ¬ M i → i ∈ (s.portals p).meHead hashLong id bits →
    i ∈ (t.portals p).meHead hashLong id bits := by exact fun _ _ _ _ _ mem => mem
  wildcard : ∀ p, (t.portals p).wildcard = false → (s.portals p).wildcard = false := by
    exact fun _ plain => plain
  lists : ∀ p i, ¬ M i → (t.portals p).Has i → (s.portals p).Has i := by exact fun _ _ _ mem => mem
  nextMe : s.nextMe ≤ t.nextMe := by exact le_rfl
  nextMd : s.nextMd ≤ t.nextMd := by exact le_rfl

open Classical in
/-- A change keeps the invariant when what it touches hangs together again. -/
theorem Around.linked {D M loose' : Nat → Prop} (around : Around hashLong D M s t)
    (linked : Linked hashLong loose s) (wider : ∀ d, ¬ D d → loose d → loose' d)
    (mds : ∀ d md, D d → t.mds d = .live md → MdSound loose' t d md)
    (held : ∀ msg ∈ t.active, D msg.md → ∃ md, t.mds msg.md = .live md)
    (newMd : ∀ d, D d → t.nextMd ≤ d → t.mds d = .unused)
    (mes : ∀ m me, M m → t.mes m = .live me → MeSound hashLong t m me)
    (has : ∀ p m, M m → (t.portals p).Has m → ∃ me, t.mes m = .live me)
    (newMe : ∀ m, M m → t.nextMe ≤ m → t.mes m = .unused) : Linked hashLong loose' t := by
  have oldMd {d : Nat} {md : Md} (out : ¬ D d) (live : t.mds d = .live md) : s.mds d = .live md :=
    (around.md d out).symm.trans live
  have oldMe {m : Nat} {me : Me} (out : ¬ M m) (live : t.mes m = .live me) : s.mes m = .live me :=
    (around.me m out).symm.trans live
  have soundMd {d : Nat} {md : Md} (live : t.mds d = .live md) : MdSound loose' t d md := by
    by_cases inside : D d
    · exact mds d md inside live
    have before := oldMd inside live
    refine ⟨fun m link => ?_, linked.zombieOff d md before, fun zombie tight => ?_,
      fun alive off tight => ?_, ?_, fun msg mem here kind => ?_⟩
    · obtain ⟨me, liveMe, back⟩ := linked.mdMe d md m before link
      by_cases there : M m
      · exact around.back d md m inside there before link
      · exact ⟨me, (around.me m there).trans liveMe, back⟩
    · exact linked.zombieBusy d md before zombie fun h => tight (wider d inside h)
    · exact linked.boundOffset d md before alive off fun h => tight (wider d inside h)
    · rw [around.holders d inside, linked.count d md before]
    · subst here
      exact linked.sending msg (around.active msg mem inside) kind md before
  have soundMe {m : Nat} {me : Me} (live : t.mes m = .live me) : MeSound hashLong t m me := by
    by_cases inside : M m
    · exact mes m me inside live
    have before := oldMe inside live
    refine ⟨fun d link => ?_, around.heads _ _ _ m inside (linked.listed m me before),
      fun plain => linked.kinds m me before (around.wildcard _ plain)⟩
    obtain ⟨md, liveMd, back⟩ := linked.meMd m me d before link
    by_cases there : D d
    · exact around.forth m me d inside there before link
    · exact ⟨md, (around.md d there).trans liveMd, back⟩
  exact {
    meMd := fun m me d live => (soundMe live).link d
    mdMe := fun d md m live => (soundMd live).entry m
    zombieOff := fun d md live => (soundMd live).zombieOff
    zombieBusy := fun d md live => (soundMd live).zombieBusy
    boundOffset := fun d md live => (soundMd live).boundOffset
    count := fun d md live => (soundMd live).count
    held := by
      intro msg mem
      by_cases inside : D msg.md
      · exact held msg mem inside
      · rw [around.md _ inside]
        exact linked.held msg (around.active msg mem inside)
    sending := fun msg mem kind md live => (soundMd live).sending msg mem rfl kind
    listed := fun m me live => (soundMe live).listed
    onList := by
      intro p m mem
      by_cases inside : M m
      · exact has p m inside mem
      · rw [around.me _ inside]
        exact linked.onList p m (around.lists p m inside mem)
    kinds := fun m me live => (soundMe live).kind
    newMe := by
      intro m new
      by_cases inside : M m
      · exact newMe m inside new
      · exact (around.me m inside).trans (linked.newMe m (around.nextMe.trans new))
    newMd := by
      intro d new
      by_cases inside : D d
      · exact newMd d inside new
      · exact (around.md d inside).trans (linked.newMd d (around.nextMd.trans new)) }

/-- Work on a descriptor is done when it is as it should be. -/
theorem Linked.tighten (linked : Linked hashLong (· = d) s)
    (good : ∀ md, s.mds d = .live md →
      (md.zombie = true → md.refcount ≠ 0) ∧ (md.zombie = false → md.me = none → md.offset = 0)) :
    Settled hashLong s :=
  { linked with
    zombieBusy := by
      intro i md live zombie _
      by_cases here : i = d
      · subst here
        exact (good md live).1 zombie
      · exact linked.zombieBusy i md live zombie here
    boundOffset := by
      intro i md live alive off _
      by_cases here : i = d
      · subst here
        exact (good md live).2 alive off
      · exact linked.boundOffset i md live alive off here }

section

variable (linked : Linked hashLong loose s)

include linked

/-- The invariant reads the entries, the descriptors, the operations and the lists. -/
theorem Linked.congr (mes : t.mes = s.mes) (mds : t.mds = s.mds)
    (active : t.active = s.active) (nextMe : t.nextMe = s.nextMe) (nextMd : t.nextMd = s.nextMd)
    (lists : ∀ p, SameLists (t.portals p) (s.portals p)) : Linked hashLong loose t := by
  have around : Around hashLong (fun _ => False) (fun _ => False) s t :=
    { md := fun _ _ => by rw [mds]
      me := fun _ _ => by rw [mes]
      holders := fun _ _ => by rw [active]
      active := fun _ mem _ => active ▸ mem
      heads := fun p _ _ _ _ mem => by rwa [(lists p).meHead]
      wildcard := fun p plain => (lists p).wildcard ▸ plain
      lists := fun p _ _ mem => (lists p).has.mp mem
      nextMe := nextMe.ge
      nextMd := nextMd.ge }
  exact around.linked linked (fun _ _ h => h) (fun _ _ h => h.elim) (fun _ _ h => h.elim)
    (fun _ h => h.elim) (fun _ _ h => h.elim) (fun _ _ h => h.elim) fun _ h => h.elim

theorem Linked.mono {loose' : Nat → Prop} (wider : ∀ d, loose d → loose' d) :
    Linked hashLong loose' s :=
  { linked with
    zombieBusy := fun d md live zombie tight =>
      linked.zombieBusy d md live zombie fun h => tight (wider d h)
    boundOffset := fun d md live alive off tight =>
      linked.boundOffset d md live alive off fun h => tight (wider d h) }

theorem Linked.addEvent (event : Event) :
    Linked hashLong loose (s.addEvent event) := { linked with }

theorem Linked.refcount_nonneg (live : s.mds d = .live md) :
    0 ≤ md.refcount := by
  rw [linked.count d md live]
  exact Int.natCast_nonneg _

end

/-! ### Changing one descriptor -/

@[simp] theorem setMd_here (s : Node) (d : Nat) (md : Slot Md) : (s.setMd d md).mds d = md :=
  if_pos rfl

theorem setMd_other (s : Node) (ne : i ≠ d) (md : Slot Md) : (s.setMd d md).mds i = s.mds i :=
  if_neg ne

@[simp] theorem setMe_here (s : Node) (m : Nat) (me : Slot Me) : (s.setMe m me).mes m = me :=
  if_pos rfl

theorem setMe_other (s : Node) (ne : i ≠ m) (me : Slot Me) : (s.setMe m me).mes i = s.mes i :=
  if_neg ne

theorem setMe_live {slot : Slot Me} (live : (s.setMe m slot).mes i = .live me) :
    (i = m ∧ slot = .live me) ∨ (i ≠ m ∧ s.mes i = .live me) := by
  by_cases here : i = m
  · subst here
    exact .inl ⟨rfl, (setMe_here s i slot).symm.trans live⟩
  · exact .inr ⟨here, (setMe_other s here slot).symm.trans live⟩

/-- An entry that was never made is not the live one that changes. -/
theorem setMe_unused (live : s.mes m = .live me) (slot : Slot Me) (unused : s.mes i = .unused) :
    (s.setMe m slot).mes i = .unused := by
  have ne : i ≠ m := by
    rintro rfl
    cases live.symm.trans unused
  exact (setMe_other s ne slot).trans unused

@[simp] theorem setPortal_here (s : Node) (p : Nat) (ptl : Portal) :
    (s.setPortal p ptl).portals p = ptl :=
  if_pos rfl

theorem setPortal_other (s : Node) {p : Nat} (ne : i ≠ p) (ptl : Portal) :
    (s.setPortal p ptl).portals i = s.portals i :=
  if_neg ne

/-- What holds of a portal that is set and of the others as they were. -/
theorem setPortal_forall {P : Nat → Portal → Prop} {p : Nat} {ptl : Portal} (here : P p ptl)
    (other : ∀ i, P i (s.portals i)) (i : Nat) : P i ((s.setPortal p ptl).portals i) := by
  by_cases same : i = p
  · subst same
    rwa [setPortal_here]
  · rw [setPortal_other s same]
    exact other i

/-- A descriptor changes with the operations that hold it, and stays where it is. -/
theorem Linked.setMd {active : List ActiveMsg} (linked : Linked hashLong (fun _ => False) s)
    (live : s.mds d = .live md) (me : md'.me = md.me) (zombie : md'.zombie = md.zombie)
    (refcount : md'.refcount = holders active d)
    (others : ∀ i, i ≠ d → holders active i = holders s.active i)
    (old : ∀ msg ∈ active, msg ∈ s.active ∨ msg.md = d ∧ (msg.kind = .sendGet → md.me = none ∧ md.offset = 0))
    (offset : md.me = none → md.offset = 0 → md'.offset = 0) :
    Linked hashLong (· = d) { s.setMd d (.live md') with active := active } := by
  have around : Around hashLong (· = d) (fun _ => False) s
      { s.setMd d (.live md') with active := active } :=
    { md := fun i ne => setMd_other s ne _
      forth := by
        rintro m me' i - rfl liveMe link
        obtain ⟨old, liveMd, back⟩ := linked.meMd m me' i liveMe link
        cases live.symm.trans liveMd
        exact ⟨md', setMd_here .., me.trans back⟩
      holders := others
      active := fun msg mem ne => (old msg mem).resolve_right fun new => ne new.1 }
  refine around.linked linked (fun _ _ h => h.elim) ?_ ?_ ?_ (fun _ _ h => h.elim)
    (fun _ _ h => h.elim) fun _ h => h.elim
  · rintro i other rfl liveMd
    cases (setMd_here ..).symm.trans liveMd
    refine ⟨fun m link => linked.mdMe i md m live (me ▸ link),
      fun dead => me.trans (linked.zombieOff i md live (zombie ▸ dead)),
      fun _ tight => absurd rfl tight, fun _ _ tight => absurd rfl tight, refcount,
      fun msg mem here kind => ?_⟩
    have before : md.me = none ∧ md.offset = 0 := by grind [cases Linked]
    exact ⟨me.trans before.1, offset before.1 before.2⟩
  · exact fun msg _ here => ⟨md', here ▸ setMd_here s d (.live md')⟩
  · rintro i rfl new
    cases live.symm.trans (linked.newMd i new)

/-! ### Unlinking -/

theorem mem_unlist_meHead {ptl : Portal} {id : ProcessId} {bits : UInt64} {x : Nat} :
    x ∈ (ptl.unlist m).meHead hashLong id bits ↔ x ∈ ptl.meHead hashLong id bits ∧ x ≠ m := by
  unfold Portal.meHead Portal.unlist
  split
  · simp
  · split <;> simp

theorem has_unlist {ptl : Portal} {x : Nat} : (ptl.unlist m).Has x ↔ ptl.Has x ∧ x ≠ m := by
  unfold Portal.Has Portal.unlist
  constructor
  · grind
  · grind

/-- The place of a descriptor that was unlinked. -/
def afterUnlink (md : Md) : Slot Md :=
  if md.refcount ≠ 0 then .live { md with zombie := true, me := none }
  else .freed { md with zombie := true, me := none }

/-- A descriptor goes off its entry and becomes a zombie, or is freed if nothing holds it; the entry goes
too if made so. -/
structure Unlinked (hashLong : UInt64 → Nat) (s : Node) (d : Nat) (md : Md) (t : Node) : Prop where
  here : t.mds d = afterUnlink md
  otherMd : ∀ i, i ≠ d → t.mds i = s.mds i
  otherMe : ∀ m, md.me ≠ some m → t.mes m = s.mes m
  itsMe : ∀ m me', md.me = some m → t.mes m = .live me' →
    ∃ me, s.mes m = .live me ∧ me' = { me with md := none }
  newMe : ∀ m, s.mes m = .unused → t.mes m = .unused
  heads : ∀ p id bits m, m ∈ (t.portals p).meHead hashLong id bits ↔
    m ∈ (s.portals p).meHead hashLong id bits ∧ (md.me = some m → ∃ me, t.mes m = .live me)
  lists : ∀ p m, (t.portals p).Has m →
    (s.portals p).Has m ∧ (md.me = some m → ∃ me, t.mes m = .live me)
  portals : ∀ p, (t.portals p).lazy = (s.portals p).lazy ∧
    (t.portals p).wildcard = (s.portals p).wildcard ∧ (t.portals p).msgq = (s.portals p).msgq ∧
    (t.portals p).mlVersion = (s.portals p).mlVersion := by exact fun _ => ⟨rfl, rfl, rfl, rfl⟩
  active : t.active = s.active := by rfl
  eager : t.eager = s.eager := by rfl
  events : t.events = s.events := by rfl
  fates : t.fates = s.fates := by rfl
  nextMe : t.nextMe = s.nextMe := by rfl
  nextMd : t.nextMd = s.nextMd := by rfl

theorem releaseMd_eq (s : Node) (d : Nat) (md : Md) :
    releaseMd s d { md with zombie := true, me := none } = s.setMd d (afterUnlink md) := by
  unfold releaseMd afterUnlink
  split <;> rfl

/-- A descriptor that is off its entry. -/
theorem releaseMd_unlinked (off : md.me = none) :
    Unlinked hashLong s d md (releaseMd s d { md with zombie := true, me := none }) := by
  have none (m : Nat) : md.me ≠ some m := by
    rw [off]
    exact nofun
  rw [releaseMd_eq]
  exact {
    here := setMd_here ..
    otherMd := fun i ne => setMd_other s ne _
    otherMe := fun _ _ => rfl
    itsMe := fun m _ link => absurd link (none m)
    newMe := fun _ unused => unused
    heads := fun _ _ _ m => ⟨fun mem => ⟨mem, fun link => absurd link (none m)⟩, fun mem => mem.1⟩
    lists := fun _ m mem => ⟨mem, fun link => absurd link (none m)⟩ }

section

variable (link : md.me = some m) (liveMe : s.mes m = .live me)

include link liveMe

/-- A descriptor goes with its entry. -/
theorem dropMe_unlinked {me' : Me} :
    Unlinked hashLong s d md ((dropMe s m me').setMd d (afterUnlink md)) := by
  have only {i : Nat} : md.me = some i ↔ i = m := by rw [link, Option.some_inj, eq_comm]
  exact {
    here := setMd_here ..
    otherMd := fun i ne => setMd_other _ ne _
    otherMe := fun i ne => setMe_other s (mt only.mpr ne) _
    itsMe := by
      intro i new same live
      rcases setMe_live live with ⟨-, ⟨⟩⟩ | ⟨ne, -⟩
      exact absurd (only.mp same) ne
    newMe := fun i => setMe_unused liveMe _
    heads := by
      intro p id bits i
      refine mem_unlist_meHead.trans (and_congr_right fun _ => ?_)
      constructor
      · exact fun ne same => absurd (only.mp same) ne
      · rintro live rfl
        obtain ⟨new, gone⟩ := live link
        cases (setMe_here s i (.freed me')).symm.trans gone
    lists := by
      intro p i mem
      obtain ⟨before, ne⟩ := has_unlist.mp mem
      exact ⟨before, fun same => absurd (only.mp same) ne⟩ }

/-- A descriptor goes and its entry stays. -/
theorem keepMe_unlinked :
    Unlinked hashLong s d md ((s.setMe m (.live { me with md := none })).setMd d (afterUnlink md)) := by
  have only {i : Nat} : md.me = some i ↔ i = m := by rw [link, Option.some_inj, eq_comm]
  have stays {i : Nat} (same : md.me = some i) :
      ∃ new, (s.setMe m (.live { me with md := none })).mes i = .live new := by
    cases only.mp same
    exact ⟨_, setMe_here s m _⟩
  exact {
    here := setMd_here ..
    otherMd := fun i ne => setMd_other _ ne _
    otherMe := fun i ne => setMe_other s (mt only.mpr ne) _
    itsMe := by
      intro i new same live
      rcases setMe_live live with ⟨rfl, ⟨⟩⟩ | ⟨ne, -⟩
      · exact ⟨me, liveMe, rfl⟩
      · exact absurd (only.mp same) ne
    newMe := fun i => setMe_unused liveMe _
    heads := fun _ _ _ _ => ⟨fun mem => ⟨mem, stays⟩, fun mem => mem.1⟩
    lists := fun _ _ mem => ⟨mem, stays⟩ }

/-- A descriptor on an entry. -/
theorem detachMe_unlinked : Unlinked hashLong s d md
      (releaseMd (detachMe s m me) d { md with zombie := true, me := none }) := by
  rw [releaseMd_eq]
  unfold detachMe
  split
  · exact dropMe_unlinked link liveMe
  · exact keepMe_unlinked link liveMe

end

theorem lnetMdUnlink_spec (linked : Linked hashLong loose s) (live : s.mds d = .live md) :
    ∃ t, lnetMdUnlink s d = .ok t ∧ Unlinked hashLong s d md t := by
  unfold lnetMdUnlink
  rw [live]
  dsimp only
  by_cases zombie : md.zombie = true
  · have off := linked.zombieOff d md live zombie
    have same : md = { md with zombie := true, me := none } := by
      rw [← zombie, ← off]
    rw [if_pos zombie]
    refine ⟨_, rfl, ?_⟩
    have unlinked : Unlinked hashLong s d md (releaseMd s d { md with zombie := true, me := none }) :=
      releaseMd_unlinked off
    rwa [← same] at unlinked
  rw [if_neg zombie]
  cases link : md.me with
  | none =>
    exact ⟨_, rfl, releaseMd_unlinked link⟩
  | some m =>
    obtain ⟨me, liveMe, _⟩ := linked.mdMe d md m live link
    dsimp only
    rw [liveMe]
    exact ⟨_, rfl, detachMe_unlinked link liveMe⟩

/-- A live descriptor behind it was live before; the one itself is a busy zombie. -/
theorem Unlinked.before (unlinked : Unlinked hashLong s d md t) (live : t.mds i = .live md') :
    (i ≠ d ∧ s.mds i = .live md') ∨
      (i = d ∧ md.refcount ≠ 0 ∧ md' = { md with zombie := true, me := none }) := by
  grind [afterUnlink, cases Unlinked]

/-- A live entry behind it was live before, with the same match and another descriptor. -/
theorem Unlinked.beforeMe {me' : Me} (unlinked : Unlinked hashLong s d md t)
    (live : t.mes m = .live me') :
    (md.me ≠ some m ∧ s.mes m = .live me') ∨
      (md.me = some m ∧ ∃ me, s.mes m = .live me ∧ me' = { me with md := none }) := by
  grind [cases Unlinked]

theorem Unlinked.settled (unlinked : Unlinked hashLong s d md t)
    (linked : Linked hashLong (· = d) s) (live : s.mds d = .live md) : Settled hashLong t := by
  have around : Around hashLong (· = d) (md.me = some ·) s t :=
    { md := unlinked.otherMd
      me := unlinked.otherMe
      back := by
        intro i md' m ne its liveMd link
        obtain ⟨me, liveMe, back⟩ := linked.mdMe i md' m liveMd link
        obtain ⟨me', liveMe', back'⟩ := linked.mdMe d md m live its
        cases liveMe.symm.trans liveMe'
        exact absurd (Option.some.inj (back.symm.trans back')) ne
      forth := by
        rintro m me i other rfl liveMe link
        obtain ⟨md', liveMd, back⟩ := linked.meMd m me i liveMe link
        cases live.symm.trans liveMd
        exact absurd back other
      holders := fun _ _ => by rw [unlinked.active]
      active := fun _ mem _ => unlinked.active ▸ mem
      heads := fun p id bits i other mem =>
        (unlinked.heads p id bits i).mpr ⟨mem, fun its => absurd its other⟩
      wildcard := fun p plain => (unlinked.portals p).2.1 ▸ plain
      lists := fun p i _ mem => (unlinked.lists p i mem).1
      nextMe := unlinked.nextMe.ge
      nextMd := unlinked.nextMd.ge }
  refine around.linked linked (fun _ ne here => absurd here ne) ?_ ?_ ?_ ?_
    (fun p m its mem => (unlinked.lists p m mem).2 its)
    fun m _ new => unlinked.newMe m (linked.newMe m (unlinked.nextMe ▸ new))
  · rintro i md' rfl liveMd
    rcases unlinked.before liveMd with ⟨ne, -⟩ | ⟨-, busy, rfl⟩
    · exact absurd rfl ne
    · exact ⟨nofun, fun _ => rfl, fun _ _ => busy, nofun,
        by rw [unlinked.active]; exact linked.count i md live, fun msg mem here kind =>
          ⟨rfl, (linked.sending msg (unlinked.active ▸ mem) kind md (here ▸ live)).2⟩⟩
  · intro msg mem here
    rw [unlinked.active] at mem
    have some : holders s.active d ≠ 0 :=
      ne_of_gt (List.countP_pos_iff.mpr ⟨msg, mem, decide_eq_true here⟩)
    have busy : md.refcount ≠ 0 := by
      rw [linked.count d md live]
      omega
    exact ⟨_, by rw [here, unlinked.here, afterUnlink, if_pos busy]⟩
  · rintro i rfl new
    cases live.symm.trans (linked.newMd i (unlinked.nextMd ▸ new))
  · intro m me its liveMe
    obtain ⟨old, before, rfl⟩ := unlinked.itsMe m me its liveMe
    exact ⟨nofun, (unlinked.heads ..).mpr ⟨linked.listed m old before, fun _ => ⟨_, liveMe⟩⟩,
      fun plain => linked.kinds m old before ((unlinked.portals _).2.1 ▸ plain)⟩

/-! ### Operations in progress -/

/-- What a new operation does to its descriptor. -/
structure Committed (md md' : Md) : Prop where
  refcount : md'.refcount = md.refcount + 1
  me : md'.me = md.me
  zombie : md'.zombie = md.zombie
  options : md'.options = md.options
  length : md'.length = md.length
  maxSize : md'.maxSize = md.maxSize
  autoUnlink : md'.autoUnlink = md.autoUnlink
  eq : md'.eq = md.eq
  used : md.threshold ≠ 0

theorem lnetCommitMd_spec (ran : lnetCommitMd md = .ok md') :
    Committed md md' ∧ md'.offset = md.offset := by
  unfold lnetCommitMd at ran
  dsimp only at ran
  split at ran
  · rename_i inf
    cases ran
    refine ⟨⟨rfl, rfl, rfl, rfl, rfl, rfl, rfl, rfl, ?_⟩, rfl⟩
    rw [inf]
    decide
  · grind [cases Committed, intro Committed]

theorem lnetCommitMd_error {fault : LnetFault} (ran : lnetCommitMd md = .error fault) :
    fault = .threshold := by grind [lnetCommitMd]

theorem commitMatch_spec {offset mlength : Nat} {result : MatchMd}
    (ran : commitMatch md offset mlength = .ok result) :
    ∃ md', result = .ok md' offset mlength ∧ Committed md md' := by
  unfold commitMatch at ran
  split at ran
  · cases ran
  · rename_i md' committed
    cases ran
    have spec := (lnetCommitMd_spec committed).1
    exact ⟨_, rfl, { spec with }⟩

/-- What `lnet_try_match_md` returns. -/
inductive Tried (me : Me) (md : Md) (hdr : Hdr) : Except LnetFault MatchMd → Prop where
  | none : selects me md hdr = false → Tried me md hdr (.ok .none)
  | drop : selects me md hdr = true → Tried me md hdr (.ok .drop)
  | ok {md' : Md} {offset mlength : Nat} : selects me md hdr = true → Committed md md' →
      Tried me md hdr (.ok (.ok md' offset mlength))
  | error : Tried me md hdr (.error .threshold)

theorem lnetTryMatchMd_tried (me : Me) (md : Md) (hdr : Hdr) :
    Tried me md hdr (lnetTryMatchMd me md hdr) := by
  by_cases selected : selects me md hdr = true
  swap
  · rw [lnetTryMatchMd, if_pos selected]
    exact .none (Bool.eq_false_iff.mpr selected)
  rw [lnetTryMatchMd_selected selected]
  split
  · cases ran : commitMatch md (matchOffset md hdr)
      (min hdr.length.toNat (allowedLength md (matchOffset md hdr))) with
    | error fault =>
      have threshold : fault = .threshold := by grind [commitMatch, lnetCommitMd_error]
      cases threshold
      exact .error
    | ok result =>
      obtain ⟨md', rfl, committed⟩ := commitMatch_spec ran
      exact .ok selected committed
  · exact .drop selected

/-- A node with one more operation on a descriptor. -/
def withOp (s : Node) (id : Nat) (kind : EventKind) (d : Nat) (md : Md) : Node :=
  { s.setMd d (.live md) with active := ⟨id, d, kind⟩ :: s.active }

theorem holders_cons_here (active : List ActiveMsg) (id d : Nat) (kind : EventKind) :
    holders (⟨id, d, kind⟩ :: active) d = holders active d + 1 := by
  unfold holders
  rw [List.countP_cons_of_pos (by simp)]

theorem holders_cons_other (active : List ActiveMsg) (id : Nat) (kind : EventKind) (ne : i ≠ d) :
    holders (⟨id, d, kind⟩ :: active) i = holders active i := by
  unfold holders
  rw [List.countP_cons_of_neg (by simpa using Ne.symm ne)]

variable {id : Nat} {kind : EventKind} (linked : Settled hashLong s) (live : s.mds d = .live md)
  (committed : Committed md md') (offset : md.me = none → md'.offset = md.offset)
  (bound : kind = .sendGet → md.me = none ∧ md.offset = 0)

include linked live committed offset bound

/-- An operation on a descriptor that is on an entry, or whose offset does not change. -/
theorem Linked.withOp : Linked hashLong (· = d) (withOp s id kind d md') := by
  refine .setMd linked live committed.me committed.zombie ?_ (fun i ne => ?_) (fun msg mem => ?_)
    (fun off zero => ?_)
  · rw [committed.refcount, linked.count d md live, holders_cons_here]
    rfl
  · exact holders_cons_other _ _ _ ne
  · grind
  · rw [offset off, zero]

/-- Such an operation leaves the descriptor as it should be. -/
theorem Linked.withOp_settled : Settled hashLong (Lnet.withOp s id kind d md') := by
  refine (linked.withOp live committed offset bound).tighten fun other liveMd => ?_
  cases (setMd_here s d (.live md')).symm.trans liveMd
  have positive := linked.refcount_nonneg live
  refine ⟨fun _ => ?_, fun alive off => ?_⟩
  · rw [committed.refcount]
    omega
  · rw [committed.me] at off
    rw [committed.zombie] at alive
    rw [offset off]
    exact linked.boundOffset d md live alive off not_false

end

end Lnet
