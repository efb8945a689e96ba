/-
Module: Lustre.Lnet.Steps
Purpose: Every step of a node as moves, with what happens to waiting messages said apart.
Trusted boundary: none
-/
import Lustre.Lnet.Moves

namespace Lnet

open Run List

variable {m d : Nat} {md : Md} {me : Me} {op : LnetOp} {after unlink : Bool} {hdr : Hdr}
  {ptl old : Portal} {u : Node} {kind : EventKind} {list : List Nat} {umd : Umd}

section

variable {hashLong : UInt64 → Nat} {s t : Node}

/-! ### A match -/

/-- A descriptor takes a message. -/
structure Taken (hashLong : UInt64 → Nat) (s : Node) (id : Nat) (kind : EventKind) (d : Nat) (md : Md)
    (t : Node) : Prop where
  moves : Moves hashLong s t
  fates : t.fates = (id, .matched d) :: s.fates
  active : t.active = ⟨id, d, kind⟩ :: s.active
  live : md.exhausted = false → t.mds d = .live md ∧ t.mes = s.mes
  exhausted : md.exhausted = true → ∀ md', t.mds d = .live md' → md'.exhausted = true

theorem takeMatch_taken (id : Nat) (kind : EventKind) {md' : Md} (settled : Settled hashLong s)
    (live : s.mds d = .live md) (link : md.me ≠ none) (committed : Committed md md')
    (open' : md.exhausted = false) (incoming : kind ≠ .sendGet) :
    ∃ t, takeMatch s id kind d md' = .ok t ∧ Taken hashLong s id kind d md' t := by
  have start : Move hashLong s (withOp s id kind d md') := by
    refine .start live committed (fun off => absurd off link) (fun exhausted => ?_)
      (fun get => absurd get incoming)
    rw [open'] at exhausted
    cases exhausted
  let u : Node := { withOp s id kind d md' with fates := (id, .matched d) :: s.fates }
  have moves : Moves hashLong s u := .tail (.single start) (.still { Still.refl _ with })
  have taken := Moves.settled moves settled
  have here : u.mds d = .live md' := setMd_here ..
  unfold takeMatch
  by_cases exhausted : md'.exhausted = true
  · by_cases auto : md'.autoUnlink = true
    · rw [if_pos ⟨auto, exhausted⟩]
      obtain ⟨t, ran, unlinked⟩ := lnetMdUnlink_spec taken here
      have busy : md'.refcount ≠ 0 := by
        have positive := settled.refcount_nonneg live
        rw [committed.refcount]
        omega
      refine ⟨t, ran, ⟨moves.tail (.unlink here (.inl busy) unlinked), unlinked.fates, unlinked.active,
        fun fresh => ?_, fun _ new liveNew => ?_⟩⟩
      · rw [exhausted] at fresh
        cases fresh
      · rcases unlinked.before liveNew with ⟨ne, _⟩ | ⟨_, _, rfl⟩
        · exact absurd rfl ne
        · exact exhausted
    · rw [if_neg fun both => auto both.1]
      refine ⟨_, rfl, ⟨moves, rfl, rfl, fun _ => ⟨here, rfl⟩, fun _ new liveNew => ?_⟩⟩
      cases here.symm.trans liveNew
      exact exhausted
  · rw [if_neg fun both => exhausted both.2]
    exact ⟨_, rfl, ⟨moves, rfl, rfl, fun _ => ⟨here, rfl⟩, fun worn => absurd worn exhausted⟩⟩

/-- What the search for a match finds among some entries. -/
inductive Searched (s : Node) (hdr : Hdr) (ms : List Nat) : Except LnetFault Found → Prop where
  | none : (∀ m ∈ ms, ∀ me d md, Attached s m me d md → selects me md hdr = false) →
      Searched s hdr ms (.ok .none)
  | drop : Searched s hdr ms (.ok .drop)
  | ok {d : Nat} {md md' : Md} : s.mds d = .live md → md.me ≠ none → md.exhausted = false →
      Committed md md' → Searched s hdr ms (.ok (.ok d md'))
  | error : Searched s hdr ms (.error .threshold)

theorem selects_open (selected : selects me md hdr = true) : md.exhausted = false := by
  rw [selects, decide_eq_true_eq] at selected
  exact Bool.eq_false_iff.mpr selected.2.1

/-- The entries in front of the others have nothing for the header. -/
theorem Searched.cons {ms : List Nat} {found : Except LnetFault Found}
    (first : ∀ me d md, Attached s m me d md → selects me md hdr = false)
    (rest : Searched s hdr ms found) : Searched s hdr (m :: ms) found := by
  cases rest with
  | none unselected =>
    exact .none (forall_mem_cons.mpr ⟨first, unselected⟩)
  | drop => exact .drop
  | ok live link fresh committed => exact .ok live link fresh committed
  | error => exact .error

theorem matchLoop_searched (settled : Settled hashLong s) (hdr : Hdr) (ms : List Nat)
    (alive : ∀ m ∈ ms, ∃ me, s.mes m = .live me) : Searched s hdr ms (matchLoop s hdr ms) := by
  induction ms with
  | nil => exact .none (forall_mem_nil _)
  | cons m ms ih =>
    obtain ⟨me, entry⟩ := alive m mem_cons_self
    have rest := ih fun i mem => alive i (mem_cons_of_mem m mem)
    rw [matchLoop, entry]
    dsimp only
    cases link : me.md with
    | none =>
      refine .cons (fun other d md attached => ?_) rest
      cases entry.symm.trans attached.entry
      cases link.symm.trans attached.link
    | some d =>
      obtain ⟨md, live, back⟩ := settled.meMd m me d entry link
      dsimp only
      rw [live]
      dsimp only
      rw [if_neg (not_not_intro back)]
      have tried := lnetTryMatchMd_tried me md hdr
      generalize lnetTryMatchMd me md hdr = result at tried
      cases tried with
      | none unselected =>
        refine .cons (fun other i new attached => ?_) rest
        cases entry.symm.trans attached.entry
        cases link.symm.trans attached.link
        cases live.symm.trans attached.live
        exact unselected
      | drop => exact .drop
      | ok selected committed =>
        refine .ok live ?_ (selects_open selected) committed
        rw [back]
        exact nofun
      | error => exact .error

theorem mem_meHead_has {id : ProcessId} {bits : UInt64} (mem : m ∈ ptl.meHead hashLong id bits) :
    ptl.Has m := by
  unfold Portal.meHead at mem
  split at mem
  · exact .inl mem
  · split at mem
    · exact .inr ⟨_, mem⟩
    · cases mem

/-- An entry for a header is on the list searched: an exact match on that of its own hash. -/
theorem Linked.mem_meHead {loose : Nat → Prop} (linked : Linked hashLong loose s)
    (entry : s.mes m = .live me) (portal : me.portal = hdr.portal)
    (selected : selects me md hdr = true) :
    m ∈ (s.portals hdr.portal).meHead hashLong hdr.src hdr.matchBits := by
  have listed := linked.listed m me entry
  rw [portal] at listed
  cases wild : (s.portals hdr.portal).wildcard with
  | true =>
    unfold Portal.meHead at listed ⊢
    rw [if_pos wild] at listed ⊢
    exact listed
  | false =>
    have exact' := linked.kinds m me entry (portal ▸ wild)
    rw [lnetMatchIsUnique, decide_eq_true_eq] at exact'
    rw [selects, decide_eq_true_eq] at selected
    obtain ⟨_, _, nid, pid, bits⟩ := selected
    obtain ⟨ignore, anyNid, anyPid⟩ := exact'
    have sameNid := nid.resolve_left anyNid
    have samePid := pid.resolve_left anyPid
    have sameBits : me.matchBits = hdr.matchBits := by
      rwa [ignore, UInt64.not_zero, UInt64.and_neg_one, UInt64.xor_eq_zero_iff] at bits
    have sameId : me.matchId = hdr.src := by
      cases source : hdr.src
      cases own : me.matchId
      rw [source, own] at sameNid samePid
      cases sameNid
      cases samePid
      rfl
    rwa [sameId, sameBits] at listed

theorem lnetMatchMd_searched (settled : Settled hashLong s) (hdr : Hdr) :
    Searched s hdr ((s.portals hdr.portal).meHead hashLong hdr.src hdr.matchBits)
        (lnetMatchMd hashLong s hdr) ∧
      (lnetMatchMd hashLong s hdr = .ok .none →
        hdr.op = .put ∧ (s.portals hdr.portal).lazy = true ∧ Unmatched s hdr) := by
  have searched := matchLoop_searched settled hdr
    ((s.portals hdr.portal).meHead hashLong hdr.src hdr.matchBits)
    (fun m mem => settled.onList hdr.portal m (mem_meHead_has mem))
  unfold lnetMatchMd
  split
  · exact ⟨.drop, nofun⟩
  generalize matchLoop s hdr ((s.portals hdr.portal).meHead hashLong hdr.src hdr.matchBits) = found
    at searched
  cases searched with
  | drop => exact ⟨.drop, nofun⟩
  | ok live link fresh committed => exact ⟨.ok live link fresh committed, nofun⟩
  | error => exact ⟨.error, nofun⟩
  | none unselected =>
    dsimp only
    split
    · exact ⟨.drop, nofun⟩
    · rename_i waits
      refine ⟨.none unselected, fun _ => ⟨?_, ?_, fun m me d md attached portal => ?_⟩⟩
      · cases op : hdr.op with
        | put => rfl
        | get => exact absurd (.inl op) waits
      · exact Bool.not_eq_false _ ▸ fun plain => waits (.inr (by rw [plain]; exact nofun))
      · by_contra selected
        rw [Bool.not_eq_false] at selected
        have mem := settled.mem_meHead attached.entry portal selected
        rw [unselected m mem me d md attached] at selected
        cases selected

/-- A list of messages is handed to a new descriptor: some are taken or dropped, the others not for it. -/
structure Handed (hashLong : UInt64 → Nat) (s : Node) (m : Nat) (me : Me) (d : Nat)
    (msgs kept : List Msg) (t : Node) : Prop where
  moves : Moves hashLong s t
  gone : ∃ gone new, msgs.Perm (kept ++ gone) ∧ t.fates = new ++ s.fates ∧ ∀ msg ∈ gone,
    ((msg.id, .matched d) ∈ new ∧ ⟨msg.id, d, .put⟩ ∈ t.active) ∨ (msg.id, .badMatch) ∈ new
  unmatched : ∀ msg ∈ kept, ∀ md, Attached t m me d md → selects me md msg.hdr = false
  active : ∀ held ∈ s.active, held ∈ t.active

/-- One more message is not for the descriptor. -/
theorem Handed.keep {msg : Msg} {msgs kept : List Msg}
    (handed : Handed hashLong s m me d msgs kept t) (settled : Settled hashLong s)
    (live : s.mds d = .live md) (unselected : selects me md msg.hdr = false) :
    Handed hashLong s m me d (msg :: msgs) (msg :: kept) t := { handed with
  gone := by
    obtain ⟨gone, new, perm, fates, each⟩ := handed.gone
    exact ⟨gone, new, perm.cons msg, fates, each⟩
  unmatched := by
    intro other mem new attached
    rcases mem_cons.mp mem with rfl | later
    · obtain ⟨old, before, options, worn⟩ := Moves.worn handed.moves settled m me d new attached
      cases live.symm.trans before.live
      exact selects_worn options worn unselected
    · exact handed.unmatched other later new attached }

/-- One more message goes in front of the others. -/
theorem Handed.leave {msg : Msg} {msgs kept : List Msg} {fate : Fate}
    (handed : Handed hashLong u m me d msgs kept t) (moves : Moves hashLong s u)
    (fates : u.fates = (msg.id, fate) :: s.fates) (active : ∀ held ∈ s.active, held ∈ u.active)
    (left : (fate = .matched d ∧ ⟨msg.id, d, .put⟩ ∈ u.active) ∨ fate = .badMatch) :
    Handed hashLong s m me d (msg :: msgs) kept t where
  moves := moves.trans handed.moves
  gone := by
    obtain ⟨gone, new, perm, fates', each⟩ := handed.gone
    refine ⟨msg :: gone, new ++ [(msg.id, fate)], ?_, ?_, fun other mem => ?_⟩
    · exact (perm.cons msg).trans perm_middle.symm
    · rw [fates', fates, append_assoc]
      rfl
    · rcases mem_cons.mp mem with rfl | later
      · rcases left with ⟨rfl, held⟩ | rfl
        · exact .inl ⟨by simp, handed.active _ held⟩
        · exact .inr (by simp)
      · rcases each other later with ⟨taken, held⟩ | dropped
        · exact .inl ⟨mem_append_left _ taken, held⟩
        · exact .inr (mem_append_left _ dropped)
  unmatched := handed.unmatched
  active := fun held mem => handed.active held (active held mem)

theorem blockedLoop_handed (settled : Settled hashLong s) (attached : Attached s m me d md)
    (msgs : List Msg) :
    Outcome (fun result => Handed hashLong s m me d msgs result.2 result.1) (· = .threshold)
      (blockedLoop d me msgs s) := by
  induction msgs generalizing s md with
  | nil =>
    exact ⟨.refl, ⟨[], [], .nil, rfl, forall_mem_nil _⟩,
      forall_mem_nil _, fun _ mem => mem⟩
  | cons msg msgs ih =>
    rw [blockedLoop, attached.live]
    dsimp only
    have tried := lnetTryMatchMd_tried me md msg.hdr
    generalize lnetTryMatchMd me md msg.hdr = result at tried
    cases tried with
    | error => exact rfl
    | none unselected =>
      have rest := ih settled attached
      generalize blockedLoop d me msgs s = loop at rest
      cases loop with
      | error fault => exact rest
      | ok after => exact .keep rest settled attached.live unselected
    | drop =>
      have still : Still s (s.addFate msg.id .badMatch) := { Still.refl s with }
      have rest := ih (still.settled settled) { attached with }
      refine rest.mono fun after handed => ?_
      exact handed.leave (.single (.still still)) rfl (fun _ mem => mem) (.inr rfl)
    | @ok md' _ _ selected committed =>
      obtain ⟨old, live, back⟩ := settled.meMd m me d attached.entry attached.link
      cases attached.live.symm.trans live
      have on : md.me ≠ none := by
        rw [back]
        exact nofun
      obtain ⟨u, ran, taken⟩ :=
        takeMatch_taken msg.id .put settled live on committed (selects_open selected) nofun
      have mine : ⟨msg.id, d, .put⟩ ∈ u.active := by
        rw [taken.active]
        exact mem_cons_self
      have active : ∀ held ∈ s.active, held ∈ u.active := by
        rw [taken.active]
        exact fun held mem => mem_cons_of_mem _ mem
      dsimp only
      rw [ran]
      dsimp only
      split
      · rename_i exhausted
        -- the messages behind this one are not tried, and nothing selects them
        have rest : Handed hashLong u m me d msgs msgs u := by
          refine ⟨.refl, ⟨[], [], by rw [append_nil], rfl,
            forall_mem_nil _⟩, fun other _ new on => ?_, fun _ mem => mem⟩
          by_contra selected
          rw [Bool.not_eq_false] at selected
          have worn := taken.exhausted exhausted new on.live
          rw [selects_open selected] at worn
          cases worn
        exact rest.leave taken.moves taken.fates active (.inl ⟨rfl, mine⟩)
      · rename_i more
        obtain ⟨liveNew, sameMes⟩ := taken.live (Bool.eq_false_iff.mpr more)
        have still : Attached u m me d md' :=
          ⟨by rw [sameMes]; exact attached.entry, attached.link, liveNew⟩
        have rest := ih (Moves.settled taken.moves settled) still
        refine rest.mono fun after handed => ?_
        exact handed.leave taken.moves taken.fates active (.inl ⟨rfl, mine⟩)

/-- What one step does. -/
inductive Stepped (hashLong : UInt64 → Nat) (s : Node) : LnetOp → Node → Prop where
  | moved {op : LnetOp} {t : Node} : Moves hashLong s t → Stepped hashLong s op t
  | early {op : LnetOp} {hdr : Hdr} : (s.portals hdr.portal).lazy = true → Unmatched s hdr →
      Stepped hashLong s op { s with
        nextMsg := s.nextMsg + 1
        eager := ⟨⟨s.nextMsg, hdr⟩, (s.portals hdr.portal).mlVersion⟩ :: s.eager }
  | waits {op : LnetOp} {u : Node} {msg : Msg} : Still s u →
      (s.portals msg.hdr.portal).lazy = true →
      (Unmatched s msg.hdr ∨ ∃ early ∈ s.eager, early.msg = msg ∧
        early.version = (s.portals msg.hdr.portal).mlVersion) →
      Stepped hashLong s op (queueMsg u msg)
  | setLazy {p : Nat} : Stepped hashLong s (.setLazy p) (s.setPortal p { s.portals p with lazy := true })
  | clearLazy {p : Nat} : Stepped hashLong s (.clearLazy p)
      { s.setPortal p { s.portals p with lazy := false, msgq := [] } with
        fates := (s.portals p).msgq.map (fun msg => (msg.id, .lazyCleared)) ++ s.fates }
  | linked {m : Nat} {umd : Umd} {unlink : Bool} {me : Me} {md : Md} : s.mes m = .live me →
      me.md = none → Fresh md → (s.portals me.portal).msgq = [] →
      Stepped hashLong s (.mdAttach m umd unlink) (linkMd s m me md)
  | handed {m : Nat} {umd : Umd} {unlink : Bool} {me : Me} {md : Md} {t : Node} {kept : List Msg} :
      s.mes m = .live me → me.md = none → Fresh md → (s.portals me.portal).lazy = true →
      Handed hashLong (linkMd s m me md) m { me with md := some s.nextMd } s.nextMd
        (s.portals me.portal).msgq kept t →
      Stepped hashLong s (.mdAttach m umd unlink)
        (t.setPortal me.portal { t.portals me.portal with msgq := kept })

/-- Why a step fails. -/
def Failed (s : Node) (fault : LnetFault) : Prop :=
  fault = .threshold ∨
    fault = .blocked ∧ ∃ p, (s.portals p).lazy = false ∧ (s.portals p).msgq ≠ []

/-- The outcome of a step. -/
abbrev StepsTo (hashLong : UInt64 → Nat) (s : Node) (op : LnetOp) : Except LnetFault Node → Prop :=
  Outcome (Stepped hashLong s op) (Failed s)

theorem StepsTo.same : StepsTo hashLong s op (.ok s) := .moved .refl

/-- A step that ends with moves behind a start that changes nothing. -/
theorem stepsTo_still (still : Still s t) : StepsTo hashLong s op (.ok t) :=
  .moved (.single (.still still))

theorem Still.addFate (still : Still s u) (id : Nat) (fate : Fate) : Still s (u.addFate id fate) :=
  { still with }

/-- Nothing changed for the search for a match. -/
theorem Still.unmatched (still : Still s u) (unmatched : Unmatched u hdr) : Unmatched s hdr := by
  intro m me d md attached
  refine unmatched m me d md ⟨?_, attached.link, ?_⟩
  · rw [still.mes]
    exact attached.entry
  · rw [still.mds]
    exact attached.live

theorem setMd_setMd (s : Node) (d : Nat) (a b : Slot Md) : (s.setMd d a).setMd d b = s.setMd d b := by
  unfold Node.setMd
  congr 1
  funext i
  dsimp only
  split <;> rfl

/-! ### New entries and descriptors -/

theorem mem_addAtEnd {x : Nat} : x ∈ addAtEnd after m list ↔ x ∈ list ∨ x = m := by
  unfold addAtEnd
  split
  · simp
  · rw [mem_cons, or_comm]

theorem mem_insertAt {current x : Nat} (mem : current ∈ list) :
    x ∈ insertAt after m current list ↔ x ∈ list ∨ x = m := by
  induction list with
  | nil => cases mem
  | cons y ys ih => grind [insertAt]

theorem mem_mlist_of_wild (wild : ptl.wildcard = true) (id : ProcessId) (bits : UInt64) (i : Nat)
    (mem : i ∈ ptl.meHead hashLong id bits) : i ∈ ptl.mlist := by
  rwa [Portal.meHead, if_pos wild] at mem

section

variable (sameList : ptl.mlist = old.mlist) (sameHash : ptl.mhash = old.mhash)
  (lazy : ptl.lazy = old.lazy) (msgq : ptl.msgq = old.msgq) (mlVersion : ptl.mlVersion = old.mlVersion)

include sameList sameHash lazy msgq mlVersion

/-- A portal of wildcards with one more entry on its list. -/
theorem withMe_wild (wild : ptl.wildcard = true)
    (heads : ∀ id bits i, i ∈ old.meHead hashLong id bits → i ∈ ptl.mlist)
    (mlist : ∀ i, i ∈ list ↔ i ∈ ptl.mlist ∨ i = m) :
    WithMe hashLong old m me { ptl with mlist := list } where
  heads := by
    intro id bits i mem
    rw [Portal.meHead, if_pos wild]
    exact (mlist i).mpr (.inl (heads id bits i mem))
  here := by
    rw [Portal.meHead, if_pos wild]
    exact (mlist m).mpr (.inr rfl)
  lists := by
    rintro i (mem | ⟨h, mem⟩)
    · exact ((mlist i).mp mem).imp_left fun before => .inl (sameList ▸ before)
    · exact .inl (.inr ⟨h, sameHash ▸ mem⟩)
  wildcard := fun plain => absurd (wild.symm.trans plain) nofun
  kind := fun plain => absurd (wild.symm.trans plain) nofun
  lazy := lazy
  msgq := msgq
  mlVersion := mlVersion

/-- A portal of exact matches with one more entry. -/
theorem withMe_exact (plain : ptl.wildcard = false) (unique : ptl.unique = true)
    (before : old.wildcard = false) (kind : lnetMatchIsUnique me.matchId me.ignoreBits = true) :
    WithMe hashLong old m me (ptl.addMe hashLong m me after) := by
  have grows (h i : Nat) (mem : i ∈ ptl.mhash h) :
      i ∈ (if h = lnetMatchToHash hashLong me.matchId me.matchBits then
        addAtEnd after m (ptl.mhash h) else ptl.mhash h) := by
    split
    · exact mem_addAtEnd.mpr (.inl mem)
    · exact mem
  have notWild : ¬ ptl.wildcard = true := by
    rw [plain]
    exact nofun
  unfold Portal.addMe
  rw [if_neg notWild]
  exact {
    heads := by simp_all [Portal.meHead]
    here := by
      rw [Portal.meHead, if_neg notWild, if_pos unique]
      dsimp only
      rw [if_pos rfl]
      exact mem_addAtEnd.mpr (.inr rfl)
    lists := by
      rintro i (mem | ⟨h, mem⟩)
      · exact .inl (.inl (sameList ▸ mem))
      · dsimp only at mem
        split at mem
        · exact (mem_addAtEnd.mp mem).imp_left fun old => .inr ⟨h, sameHash ▸ old⟩
        · exact .inl (.inr ⟨h, sameHash ▸ mem⟩)
    wildcard := fun _ => before
    kind := fun _ => kind
    lazy := lazy
    msgq := msgq
    mlVersion := mlVersion }

end

theorem lnetMeMatchPortal_withMe
    (accepted : lnetMeMatchPortal old (lnetMatchIsUnique me.matchId me.ignoreBits) = some ptl) :
    WithMe hashLong old m me (ptl.addMe hashLong m me after) := by
  unfold lnetMeMatchPortal at accepted
  split at accepted
  · grind [Portal.addMe, lnetMatchIsUnique, withMe_wild, mem_addAtEnd, withMe_exact,
      mem_mlist_of_wild]
  · rename_i neither
    have plain : old.wildcard = false := Bool.eq_false_iff.mpr fun h => neither (.inr h)
    have empty (id : ProcessId) (bits : UInt64) (i : Nat) (mem : i ∈ old.meHead hashLong id bits) :
        i ∈ old.mlist := by
      rw [Portal.meHead, if_neg fun h => neither (.inr h), if_neg fun h => neither (.inl h)] at mem
      cases mem
    split at accepted
    · rename_i kind
      cases accepted
      exact withMe_exact rfl rfl rfl rfl rfl plain rfl plain kind
    · cases accepted
      exact withMe_wild rfl rfl rfl rfl rfl rfl empty fun _ => mem_addAtEnd

theorem lnetMEAttach_stepsTo :
    StepsTo hashLong s (.meAttach me after) (.ok (lnetMEAttach hashLong s me after)) := by
  unfold lnetMEAttach
  split
  · exact .same
  cases accepted : lnetMeMatchPortal (s.portals me.portal)
      (lnetMatchIsUnique me.matchId me.ignoreBits) with
  | none => exact .same
  | some ptl =>
    have added : WithMe hashLong (s.portals me.portal) s.nextMe { me with md := none }
        (ptl.addMe hashLong s.nextMe { me with md := none } after) :=
      lnetMeMatchPortal_withMe accepted
    exact .moved (.single (.newMe rfl added))

theorem libMdBuild_fresh (built : libMdBuild umd unlink = .ok md) :
    Fresh md := by grind [newMd, libMdBuild, cases Fresh, intro Fresh]

theorem lnetMDBind_stepsTo :
    StepsTo hashLong s (.mdBind umd unlink) (.ok (lnetMDBind s umd unlink)) := by
  unfold lnetMDBind
  split
  · exact .same
  cases built : libMdBuild umd unlink with
  | error code => exact .same
  | ok md => exact .moved (.single (.bind (libMdBuild_fresh built)))

theorem startOp_stepsTo (live : s.mds d = .live md)
    (sending : kind = .sendGet → md.me = none ∧ md.offset = 0) :
    StepsTo hashLong s op (startOp s d md kind) := by
  unfold startOp
  cases ran : lnetCommitMd md with
  | error fault => exact .inl (lnetCommitMd_error ran)
  | ok md' =>
    obtain ⟨committed, offset⟩ := lnetCommitMd_spec ran
    have worn : md.exhausted = true → md'.exhausted = true := by
      unfold Md.exhausted
      simp only [decide_eq_true_eq]
      rintro (zero | full)
      · exact absurd zero committed.used
      · rw [committed.options, committed.maxSize, committed.length, offset]
        exact .inr full
    have start : Move hashLong s (withOp s s.nextMsg kind d md') :=
      .start live committed (fun _ => offset) worn sending
    exact .moved (.tail (.single start) (.still { Still.refl _ with }))

section

variable (settled : Settled hashLong s)

include settled

/-- A message is matched or refused, or what nothing matches is left to `unfound`. -/
theorem search_stepsTo (still : Still s u) (msg : Msg) (kind : EventKind)
    (incoming : kind ≠ .sendGet) {unfound : Except LnetFault Node}
    (none : msg.hdr.op = .put → (s.portals msg.hdr.portal).lazy = true → Unmatched s msg.hdr →
      StepsTo hashLong s op unfound) :
    StepsTo hashLong s op (match lnetMatchMd hashLong u msg.hdr with
      | .error fault => .error fault
      | .ok (.ok d md) => takeMatch u msg.id kind d md
      | .ok .drop => .ok (u.addFate msg.id .refused)
      | .ok .none => unfound) := by
  obtain ⟨searched, waits⟩ := lnetMatchMd_searched (still.settled settled) msg.hdr
  generalize lnetMatchMd hashLong u msg.hdr = found at searched waits
  cases searched with
  | none =>
    obtain ⟨put, lazy, unmatched⟩ := waits rfl
    rw [still.portals] at lazy
    exact none put lazy (still.unmatched unmatched)
  | drop => exact stepsTo_still (still.addFate _ _)
  | ok live link fresh committed =>
    obtain ⟨t, ran, taken⟩ :=
      takeMatch_taken msg.id kind (still.settled settled) live link committed fresh incoming
    dsimp only
    rw [ran]
    exact .moved (taken.moves.head (.still still))
  | error => exact .inl rfl

theorem parseDelayed_stepsTo (still : Still s u) (msg : Msg) :
    StepsTo hashLong s op (parseDelayed hashLong u msg) := by
  refine search_stepsTo settled still msg .put nofun fun _ lazy unmatched => ?_
  split
  · exact stepsTo_still (still.addFate _ _)
  · exact .waits still lazy (.inl unmatched)

theorem lnetParse_stepsTo {eager : Bool} :
    StepsTo hashLong s (.arrive hdr eager) (lnetParse hashLong s hdr eager) := by
  have still : Still s { s with nextMsg := s.nextMsg + 1 } := { Still.refl s with }
  unfold lnetParse
  cases op : hdr.op with
  | put =>
    dsimp only
    unfold lnetParsePut
    split
    · refine search_stepsTo settled still ⟨s.nextMsg, hdr⟩ .put nofun fun _ lazy unmatched => ?_
      exact .early lazy unmatched
    · exact parseDelayed_stepsTo settled still _
  | get =>
    refine search_stepsTo settled still ⟨s.nextMsg, hdr⟩ .get nofun fun put _ _ => ?_
    rw [op] at put
    cases put

theorem resumePut_stepsTo {early : EagerMsg} {received : Bool} (mem : early ∈ s.eager) :
    StepsTo hashLong s op
      (resumePut hashLong { s with eager := s.eager.erase early } early received) := by
  have still : Still s { s with eager := s.eager.erase early } :=
    { Still.refl s with eager := fun _ mem => mem_of_mem_erase mem }
  unfold resumePut
  split
  · rename_i ready
    split
    · exact parseDelayed_stepsTo settled still _
    · rename_i same
      exact .waits still ready.2.2 (.inr ⟨early, mem, rfl, not_not.mp same⟩)
  · exact stepsTo_still (still.addFate _ _)

/-- The event queue says whether an event goes with a descriptor that nothing holds. -/
theorem lnetMDUnlink_stepsTo : StepsTo hashLong s (.mdUnlink d) (lnetMDUnlink s d) := by
  unfold lnetMDUnlink
  cases live : s.mds d with
  | unused | freed => exact .same
  | live md =>
    dsimp only
    split
    · exact .same
    split
    · rename_i idle
      obtain ⟨t, ran, unlinked⟩ := lnetMdUnlink_spec (settled.addEvent _) live
      rw [ran]
      exact .moved (.single (.unlinkIdle live idle.2 idle.1 unlinked))
    · rename_i busy
      obtain ⟨t, ran, unlinked⟩ := lnetMdUnlink_spec settled live
      rw [ran]
      refine .moved (.single (.unlink live ?_ unlinked))
      by_cases zero : md.refcount = 0
      · exact .inr (Option.not_isSome_iff_eq_none.mp fun some => busy ⟨some, zero⟩)
      · exact .inl zero

/-- `lnet_me_unlink` of an entry with a descriptor. -/
theorem lnetMeUnlink_unlinked (entry : s.mes m = .live me)
    (link : me.md = some d) (live : s.mds d = .live md) :
    ∃ t, lnetMeUnlink s m me = .ok t ∧ Unlinked hashLong s d md t := by
  obtain ⟨old, liveOld, back⟩ := settled.meMd m me d entry link
  cases live.symm.trans liveOld
  have alive : md.zombie = false := by
    by_contra zombie
    rw [Bool.not_eq_false] at zombie
    rw [settled.zombieOff d md live zombie] at back
    cases back
  have here : ((dropMe s m me).setMd d (.live { md with me := none })).mds d =
      .live { md with me := none } := setMd_here ..
  refine ⟨(dropMe s m me).setMd d (afterUnlink md), ?_, dropMe_unlinked back entry⟩
  unfold lnetMeUnlink
  rw [link]
  dsimp only
  rw [live]
  dsimp only
  unfold lnetMdUnlink
  rw [here]
  dsimp only
  rw [alive, if_neg Bool.false_ne_true]
  exact congrArg Except.ok ((releaseMd_eq _ d md).trans (setMd_setMd _ d _ _))

theorem lnetMEUnlink_stepsTo : StepsTo hashLong s (.meUnlink m) (lnetMEUnlink s m) := by
  unfold lnetMEUnlink
  cases entry : s.mes m with
  | unused | freed => exact .same
  | live me =>
    dsimp only
    unfold idleMd
    cases link : me.md with
    | none =>
      unfold lnetMeUnlink
      rw [link]
      exact .moved (.single (.drop entry link))
    | some d =>
      obtain ⟨md, live, _⟩ := settled.meMd m me d entry link
      dsimp only
      rw [live]
      dsimp only
      split
      · rename_i idle
        split at idle
        · rename_i quiet
          cases idle
          obtain ⟨t, ran, unlinked⟩ := lnetMeUnlink_unlinked (settled.addEvent _) entry link live
          rw [ran]
          exact .moved (.single (.unlinkIdle live quiet.2 quiet.1 unlinked))
        · cases idle
      · rename_i busy
        obtain ⟨t, ran, unlinked⟩ := lnetMeUnlink_unlinked settled entry link live
        rw [ran]
        refine .moved (.single (.unlink live ?_ unlinked))
        split at busy
        · cases busy
        · grind [Option.not_isSome_iff_eq_none]

/-! ### Operations -/

theorem lnetMEInsert_stepsTo {current : Nat} {new : Me} :
    StepsTo hashLong s (.meInsert current new after) (.ok (lnetMEInsert s current new after)) := by
  unfold lnetMEInsert
  cases entry : s.mes current with
  | unused | freed => exact .same
  | live me =>
    dsimp only
    split
    · exact .same
    have listed := settled.listed current me entry
    unfold Portal.meHead at listed
    split at listed
    swap
    · cases listed
    rename_i wild
    have added : WithMe hashLong (s.portals me.portal) s.nextMe
        { new with md := none, portal := me.portal }
        { s.portals me.portal with
          mlist := insertAt after s.nextMe current (s.portals me.portal).mlist } :=
      withMe_wild rfl rfl rfl rfl rfl wild (mem_mlist_of_wild wild) fun _ => mem_insertAt listed
    exact .moved (.single
      (@Move.newMe hashLong s { new with md := none, portal := me.portal } _ rfl added))

theorem lnetMDAttach_stepsTo :
    StepsTo hashLong s (.mdAttach m umd unlink) (lnetMDAttach s m umd unlink) := by
  unfold lnetMDAttach
  split
  · exact .same
  cases entry : s.mes m with
  | unused | freed => exact .same
  | live me =>
    dsimp only
    split
    · exact .same
    rename_i off
    have none : me.md = none := Option.not_isSome_iff_eq_none.mp off
    cases built : libMdBuild umd unlink with
    | error code => exact .same
    | ok md =>
      have fresh := libMdBuild_fresh built
      have linked := settled.link_settled fresh entry none
      have lazy : ((linkMd s m me md).portals me.portal).lazy = (s.portals me.portal).lazy := by
        rw [linkMd_portal]
      have msgq : ((linkMd s m me md).portals me.portal).msgq = (s.portals me.portal).msgq := by
        rw [linkMd_portal]
      have attached : Attached (linkMd s m me md) m { me with md := some s.nextMd } s.nextMd
          { md with me := some m } := ⟨setMe_here _ m _, rfl, setMd_here s _ _⟩
      unfold lnetMatchBlockedMsg
      dsimp only
      rw [lazy, msgq]
      split
      · rename_i plain
        split
        · rename_i waiting
          exact .inr ⟨rfl, me.portal, Bool.eq_false_iff.mpr plain, waiting⟩
        · rename_i empty
          exact .linked entry none fresh (not_not.mp empty)
      · rename_i isLazy
        have loop := blockedLoop_handed linked attached (s.portals me.portal).msgq
        generalize blockedLoop s.nextMd { me with md := some s.nextMd } (s.portals me.portal).msgq
          (linkMd s m me md) = result at loop
        cases result with
        | error fault => exact .inl loop
        | ok after => exact .handed entry none fresh (not_not.mp isLazy) loop

theorem boundMd_some (found : boundMd s d = some md) :
    s.mds d = .live md ∧ md.me = none ∧ md.offset = 0 := by
  unfold boundMd at found
  split at found
  · rename_i old live
    split at found
    · cases found
    · rename_i usable
      cases found
      have off : md.me = none := Option.not_isSome_iff_eq_none.mp fun some => usable (.inr (.inr some))
      have alive : md.zombie = false := Bool.eq_false_iff.mpr fun zombie => usable (.inl zombie)
      exact ⟨live, off, settled.boundOffset d md live alive off not_false⟩
  · cases found

theorem lnetPutGet_stepsTo {get : Bool} :
    StepsTo hashLong s (.putGet d get) (lnetPutGet s d get) := by
  unfold lnetPutGet
  cases found : boundMd s d with
  | none => exact .same
  | some md =>
    obtain ⟨live, bound⟩ := boundMd_some settled found
    exact startOp_stepsTo live fun _ => bound

theorem lnetParseAck_stepsTo : StepsTo hashLong s (.ack d) (lnetParseAck s d) := by
  unfold lnetParseAck
  cases found : boundMd s d with
  | none => exact .same
  | some md => exact startOp_stepsTo (boundMd_some settled found).1 nofun

theorem lnetParseReply_stepsTo {length : Nat} :
    StepsTo hashLong s (.reply d length) (lnetParseReply s d length) := by
  unfold lnetParseReply
  cases found : boundMd s d with
  | none => exact .same
  | some md =>
    obtain ⟨live, _, zero⟩ := boundMd_some settled found
    dsimp only
    rw [if_neg (not_not_intro zero)]
    split
    · exact .same
    · exact startOp_stepsTo live nofun

theorem lnetCreateReplyMsg_stepsTo {getMsg : ActiveMsg} :
    StepsTo hashLong s (.createReply getMsg) (lnetCreateReplyMsg s getMsg) := by
  unfold lnetCreateReplyMsg
  split
  · exact .same
  rename_i known
  have mem : getMsg ∈ s.active := by_contra fun out => known (.inl out)
  have get : getMsg.kind = .sendGet := by_contra fun other => known (.inr other)
  obtain ⟨md, live⟩ := settled.held getMsg mem
  have zero := (settled.sending getMsg mem get md live).2
  rw [live]
  dsimp only
  split
  · exact .same
  rw [if_neg (not_not_intro zero)]
  exact startOp_stepsTo live nofun

theorem lnetFinalize_stepsTo {msg : ActiveMsg} :
    StepsTo hashLong s (.finalize msg) (lnetFinalize s msg) := by
  unfold lnetFinalize
  split
  · exact .same
  rename_i known
  have mem := not_not.mp known
  obtain ⟨md, live⟩ := settled.held msg mem
  have positive : ¬ md.refcount - 1 < 0 := by
    rw [settled.count msg.md md live, holders_erase_here mem]
    omega
  rw [live]
  dsimp only
  rw [if_neg positive]
  have linked := settled.withoutOp mem live
  split
  · rename_i goes
    obtain ⟨t, ran, unlinked⟩ := lnetMdUnlink_spec linked (withoutOp_here s msg md.release)
    exact ran.symm ▸ .moved (.single (.last mem live goes unlinked))
  · rename_i stays
    exact .moved (.single (.finish mem live (Bool.eq_false_iff.mpr stays)))

/-- Every step is made of moves, or lets messages wait, or attaches a descriptor. -/
theorem lnetStep_stepped (op : LnetOp) : StepsTo hashLong s op (lnetStep hashLong s op) := by
  cases op with
  | meAttach me after => exact lnetMEAttach_stepsTo
  | meInsert current me after => exact lnetMEInsert_stepsTo settled
  | mdAttach m umd unlink => exact lnetMDAttach_stepsTo settled
  | mdBind umd unlink => exact lnetMDBind_stepsTo
  | mdUnlink d => exact lnetMDUnlink_stepsTo settled
  | meUnlink m => exact lnetMEUnlink_stepsTo settled
  | setLazy p =>
    unfold lnetStep lnetSetLazyPortal
    dsimp only
    split
    · exact .same
    · exact .setLazy
  | clearLazy p =>
    unfold lnetStep lnetClearLazyPortal
    dsimp only
    split
    · exact .same
    · exact .clearLazy
  | shutdown => exact stepsTo_still { Still.refl s with }
  | arrive hdr eager => exact lnetParse_stepsTo settled
  | resume early received =>
    unfold lnetStep
    dsimp only
    split
    · rename_i mem
      exact resumePut_stepsTo settled mem
    · exact .same
  | putGet d get => exact lnetPutGet_stepsTo settled
  | ack d => exact lnetParseAck_stepsTo settled
  | reply d length => exact lnetParseReply_stepsTo settled
  | createReply getMsg => exact lnetCreateReplyMsg_stepsTo settled
  | finalize msg => exact lnetFinalize_stepsTo settled

/-- Another number of messages waits on a portal, or it is lazy in another way. -/
theorem Linked.setPortal {p : Nat} (same : SameLists ptl (s.portals p)) :
    Settled hashLong (s.setPortal p ptl) := by
  refine settled.congr rfl rfl rfl rfl rfl ?_
  exact setPortal_forall (P := fun i ptl => SameLists ptl (s.portals i)) same fun _ => .refl _

end

theorem Stepped.settled (stepped : Stepped hashLong s op t) (settled : Settled hashLong s) :
    Settled hashLong t := by
  cases stepped with
  | moved moves => exact Moves.settled moves settled
  | early => exact { settled with }
  | waits still => exact (still.settled settled).setPortal ⟨rfl, rfl, rfl, rfl⟩
  | setLazy => exact settled.setPortal ⟨rfl, rfl, rfl, rfl⟩
  | @clearLazy p =>
    have cleared : Settled hashLong (s.setPortal p { s.portals p with lazy := false, msgq := [] }) :=
      settled.setPortal ⟨rfl, rfl, rfl, rfl⟩
    exact { cleared with }
  | linked entry off fresh => exact settled.link_settled fresh entry off
  | handed entry off fresh _ handed =>
    have after := Moves.settled handed.moves (settled.link_settled fresh entry off)
    exact after.setPortal ⟨rfl, rfl, rfl, rfl⟩

theorem newNode_settled (nportals : Nat) : Settled hashLong (newNode nportals) := by
  have noMe {m : Nat} {me : Me} (live : (newNode nportals).mes m = .live me) : False := by
    cases live
  have noMd {d : Nat} {md : Md} (live : (newNode nportals).mds d = .live md) : False := by
    cases live
  have noOp {msg : ActiveMsg} (mem : msg ∈ (newNode nportals).active) : False :=
    not_mem_nil mem
  exact {
    meMd := fun _ _ _ live => (noMe live).elim
    mdMe := fun _ _ _ live => (noMd live).elim
    zombieOff := fun _ _ live => (noMd live).elim
    zombieBusy := fun _ _ live => (noMd live).elim
    boundOffset := fun _ _ live => (noMd live).elim
    count := fun _ _ live => (noMd live).elim
    held := fun _ mem => (noOp mem).elim
    sending := fun _ mem => (noOp mem).elim
    listed := fun _ _ live => (noMe live).elim
    onList := by
      rintro p m (mem | ⟨h, mem⟩)
      · cases mem
      · cases mem
    kinds := fun _ _ live => (noMe live).elim
    newMe := fun _ _ => rfl
    newMd := fun _ _ => rfl }

end

end Lnet
