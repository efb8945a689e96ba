/-
Module: Lustre.Osc.Preallocation
Purpose: Each object is handed out once and exists then, as long as no stale reply of a create is
  used behind an orphan cleanup.
Trusted boundary: none
-/
import Lustre.Osc.Create

namespace Osc

open Bytes Obdfilter List Run

/-! ### The property and the condition -/

/-- No object was handed out twice, and each one existed then. -/
structure Preallocated (s : System) : Prop where
  nodup : (s.handed.map Prod.fst).Nodup
  existed : ∀ given ∈ s.handed, given.2 = true

/-- The status of a precreate reply that leaves `oscc_last_id` alone. -/
def keepsLast (rc : Int) : Prop := rc ≠ 0 ∧ rc ≠ enospc ∧ rc ≠ eio

instance (rc : Int) : Decidable (keepsLast rc) := inferInstanceAs (Decidable (_ ∧ _))

/-- A precreate reply that may be interpreted: the creator is recovering, the reply does not set
`oscc_last_id`, or the server executed the request and ran no orphan cleanup since, unless it
skips orphans. -/
def TimelyCreate (cfg : Config) (s : System) : CreateState → Prop
  | .sent _ _ (some answer) =>
    s.oscc.flags.recovering = true ∨ answer.body = none ∨ keepsLast answer.rc ∨
      answer.executed = true ∧ (cfg.skipOrphan = true ∨ answer.cleanups = s.cleanups)
  | _ => True

/-- An orphan reply that may be processed: the request was not dropped. -/
def TimelySync : SyncState → Prop
  | .sent _ _ _ (some answer) => answer.executed = true ∨ answer.rc ≠ 0
  | _ => True

/-- A request that may be executed: the distance of its `o_id` to `LAST_ID` fits into an
`int`. -/
def FitsSent (s : System) : Option Sent → Prop
  | some sent => Fits sent.req.oId s.filter.lastId
  | none => True

/-- The steps that keep the objects in order. -/
def Orderly (cfg : Config) (s : System) : Label → Prop
  | .createAnswered => TimelyCreate cfg s s.oscc.create
  | .delorphanAnswered => TimelySync s.oscc.sync
  | .execute xid _ => FitsSent s (findSent s xid)
  | _ => True

instance (cfg : Config) (s : System) : ∀ create, Decidable (TimelyCreate cfg s create)
  | .idle | .filling | .filled _ _ | .sent _ _ none => isTrue trivial
  | .sent _ _ (some _) => inferInstanceAs (Decidable (_ ∨ _ ∨ _ ∨ _))

instance : ∀ sync, Decidable (TimelySync sync)
  | .idle | .started | .sent _ _ _ none => isTrue trivial
  | .sent _ _ _ (some _) => inferInstanceAs (Decidable (_ ∨ _))

instance (s : System) : ∀ found, Decidable (FitsSent s found)
  | none => isTrue trivial
  | some _ => inferInstanceAs (Decidable (Fits _ _))

instance (cfg : Config) (s : System) (label : Label) : Decidable (Orderly cfg s label) := by
  cases label <;> unfold Orderly <;> infer_instance

/-- An orphan request on the wire is of an older connection, or the creator waits for it or gave it up. -/
structure OrphanSent (s : System) (sent : Sent) : Prop where
  past : sent.req.connCnt ≤ s.impConnCnt ∧ (s.impState = .connecting → sent.req.connCnt < s.impConnCnt)
  recovering : s.expConnCnt ≤ sent.req.connCnt → s.oscc.flags.recovering = true
  current : s.expConnCnt ≤ sent.req.connCnt → sent.req.oId + 1 = s.oscc.nextId
  awaited : s.expConnCnt ≤ sent.req.connCnt →
    (∃ oId, s.oscc.sync = .sent sent.xid sent.req.connCnt oId none) ∨
      (s.oscc.sync = .idle ∨ s.oscc.sync = .started) ∧
        (sent.req.connCnt < s.impConnCnt ∨ s.impState = .discon)

/-- What a reply to an orphan request says: behind the returned `o_id` there are objects up to
`LAST_ID`. -/
structure OrphanAnswer (cfg : Config) (s : System) (rc : Int) (oId : Nat) : Prop where
  ahead : rc = 0 ∨ rc = enospc → s.oscc.nextId ≤ oId + 1
  same : cfg.skipOrphan = false → rc = 0 ∨ rc = enospc → oId + 1 = s.oscc.nextId
  reached : rc = 0 ∨ rc = enospc → oId ≤ s.filter.lastId + 1
  exact : rc = 0 ∨ rc = enospc → ∀ id, oId < id → id ≤ s.filter.lastId → s.filter.Has id

/-- The thread that removes orphans. -/
structure SyncSound (cfg : Config) (s : System) : Prop where
  waits : ∀ xid connCnt oId answer, s.oscc.sync = .sent xid connCnt oId answer →
    s.oscc.flags.recovering = true ∧ oId + 1 = s.oscc.nextId
  started : s.oscc.sync = .started → s.oscc.flags.recovering = true
  answered : ∀ xid connCnt oId answer, s.oscc.sync = .sent xid connCnt oId (some answer) →
    answer.executed = true →
      OrphanAnswer cfg s (realCreate answer oId).1 (realCreate answer oId).2
  refused : ∀ xid connCnt oId answer, s.oscc.sync = .sent xid connCnt oId (some answer) →
    answer.executed = false → answer.rc ≠ enospc

/-- A precreate reply that is in time names no object behind `LAST_ID`. -/
structure CreateSound (cfg : Config) (s : System) : Prop where
  past : ∀ xid space answer, s.oscc.create = .sent xid space (some answer) →
    answer.cleanups ≤ s.cleanups
  known : ∀ xid space answer, s.oscc.create = .sent xid space (some answer) →
    answer.executed = true → cfg.skipOrphan = true ∨ answer.cleanups = s.cleanups →
      ∀ oId, answer.body = some oId → oId ≤ s.filter.lastId

/-- The invariant. -/
structure Sound (cfg : Config) (s : System) : Prop where
  nodup : (s.handed.map Prod.fst).Nodup
  existed : ∀ given ∈ s.handed, given.2 = true
  below : ∀ given ∈ s.handed, given.1 < s.oscc.nextId
  positive : 1 ≤ s.oscc.nextId
  near : s.oscc.nextId ≤ s.filter.lastId + 2
  word : s.filter.lastId + 1 < 2 ^ 64
  cover : s.oscc.flags.recovering = false →
    ∀ id, s.oscc.nextId ≤ id → id ≤ s.filter.lastId → s.filter.Has id
  last : s.oscc.flags.recovering = false →
    s.oscc.lastId ≤ s.filter.lastId ∨ s.oscc.lastId < s.oscc.nextId
  older : s.expConnCnt ≤ s.impConnCnt
  same : s.impState = .full → s.expConnCnt = s.impConnCnt
  orphans : ∀ sent ∈ s.wire, sent.req.delorphan = true → OrphanSent s sent
  sync : SyncSound cfg s
  create : CreateSound cfg s

theorem Initial.sound {cfg : Config} {s : System} (start : Initial s) : Sound cfg s := { start with
  nodup := by rw [start.handed]; exact nodup_nil
  existed := by rw [start.handed]; exact nofun
  below := by rw [start.handed]; exact nofun
  cover := fun done => absurd (start.recovering.symm.trans done) nofun
  last := fun done => absurd (start.recovering.symm.trans done) nofun
  orphans := by rw [start.wire]; exact nofun
  sync := by
    constructor <;> rw [start.sync] <;> exact nofun
  create := by
    constructor <;> rw [start.create] <;> exact nofun }

/-! ### Steps of the creator -/

variable {oscc : Oscc} {rc : Int} {oId : Nat}

section

variable {cfg : Config} {s : System}

/-- Nothing is said about an orphan request that the server will not execute. -/
theorem OrphanSent.stale {sent : Sent} (old : ¬ s.expConnCnt ≤ sent.req.connCnt)
    (past : sent.req.connCnt ≤ s.impConnCnt ∧
      (s.impState = .connecting → sent.req.connCnt < s.impConnCnt)) : OrphanSent s sent :=
  ⟨past, fun fresh => absurd fresh old, fun fresh => absurd fresh old, fun fresh => absurd fresh old⟩

section

variable (nextId : oscc.nextId = s.oscc.nextId)

include nextId

theorem OrphanAnswer.recover (answer : OrphanAnswer cfg s rc oId) :
    OrphanAnswer cfg { s with oscc := oscc } rc oId :=
  { answer with
    ahead := fun done => nextId ▸ answer.ahead done
    same := fun skip done => nextId ▸ answer.same skip done }

section

variable (sync : oscc.sync = s.oscc.sync)
  (still : s.oscc.flags.recovering = true → oscc.flags.recovering = true)

include sync still

theorem OrphanSent.recover {sent : Sent} (orphan : OrphanSent s sent) :
    OrphanSent { s with oscc := oscc } sent where
  past := orphan.past
  recovering := fun fresh => still (orphan.recovering fresh)
  current := fun fresh => (orphan.current fresh).trans nextId.symm
  awaited := by
    rw [sync]
    exact orphan.awaited

theorem SyncSound.recover (sound : SyncSound cfg s) : SyncSound cfg { s with oscc := oscc } where
  waits := fun xid connCnt oId answer waiting => by
    obtain ⟨before, current⟩ := sound.waits xid connCnt oId answer (sync.symm.trans waiting)
    exact ⟨still before, current.trans nextId.symm⟩
  started := fun start => still (sound.started (sync.symm.trans start))
  answered := fun xid connCnt oId answer waiting done =>
    (sound.answered xid connCnt oId answer (sync.symm.trans waiting) done).recover nextId
  refused := fun xid connCnt oId answer waiting =>
    sound.refused xid connCnt oId answer (sync.symm.trans waiting)

end

variable (sound : Sound cfg s)
  (steady : oscc.flags.recovering = false → s.oscc.flags.recovering = false)
  (last : oscc.flags.recovering = false → oscc.lastId ≤ s.filter.lastId ∨ oscc.lastId < oscc.nextId)
  (create : ∀ xid space answer, oscc.create = .sent xid space (some answer) →
    s.oscc.create = .sent xid space (some answer))

include sound steady last create

/-- A change of the creator alone that does not move the next object. -/
theorem Sound.creator
    (orphans : ∀ sent ∈ s.wire, sent.req.delorphan = true → OrphanSent { s with oscc := oscc } sent)
    (sync : SyncSound cfg { s with oscc := oscc }) : Sound cfg { s with oscc := oscc } := { sound with
  below := fun given mem => nextId ▸ sound.below given mem
  positive := nextId ▸ sound.positive
  near := nextId ▸ sound.near
  cover := fun done id low => sound.cover (steady done) id (nextId ▸ low)
  last := last
  orphans := orphans
  sync := sync
  create := by
    refine ⟨fun xid space answer sent => ?_, fun xid space answer sent => ?_⟩
    · exact sound.create.past xid space answer (create xid space answer sent)
    · exact sound.create.known xid space answer (create xid space answer sent) }

/-- A change of the creator that leaves the orphan thread alone. -/
theorem Sound.recover (sync : oscc.sync = s.oscc.sync) : Sound cfg { s with oscc := oscc } := by
  have still : s.oscc.flags.recovering = true → oscc.flags.recovering = true := by
    simpa using mt steady
  exact sound.creator nextId steady last create
    (fun sent mem is => (sound.orphans sent mem is).recover nextId sync still)
    (sound.sync.recover nextId sync still)

end

/-- Requests to create come and go. -/
theorem Sound.rewire (sound : Sound cfg s) {wire : List Sent} (nextXid : Nat)
    (orphans : ∀ sent ∈ wire, sent.req.delorphan = true → sent ∈ s.wire) :
    Sound cfg { s with wire := wire, nextXid := nextXid } := { sound with
  orphans := fun sent mem is => { sound.orphans sent (orphans sent mem is) is with }
  sync := { sound.sync with
    answered := fun xid connCnt oId answer waiting done =>
      { sound.sync.answered xid connCnt oId answer waiting done with } }
  create := { sound.create with } }

/-- A change of the creator that has nothing to do with objects. -/
structure Quiet (oscc oscc' : Oscc) : Prop where
  nextId : oscc'.nextId = oscc.nextId
  lastId : oscc'.lastId = oscc.lastId
  recovering : oscc'.flags.recovering = oscc.flags.recovering
  sync : oscc'.sync = oscc.sync
  create : ∀ xid space answer, oscc'.create = .sent xid space (some answer) →
    oscc.create = .sent xid space (some answer)

theorem Sound.quiet (sound : Sound cfg s) (quiet : Quiet s.oscc oscc) :
    Sound cfg { s with oscc := oscc } := by
  refine sound.recover quiet.nextId (quiet.recovering.symm.trans ·) ?_ quiet.create quiet.sync
  rw [quiet.recovering, quiet.lastId, quiet.nextId]
  exact sound.last

theorem Quiet.refl (oscc : Oscc) : Quiet oscc oscc := ⟨rfl, rfl, rfl, rfl, fun _ _ _ same => same⟩

theorem growMore_quiet (oscc : Oscc) : Quiet oscc (growMore oscc) := by
  unfold growMore
  split
  · exact { Quiet.refl oscc with }
  · exact .refl oscc

theorem osccInternalCreate_quiet (oscc : Oscc) : Quiet oscc (osccInternalCreate oscc) := by
  grind [osccInternalCreate, growMore_quiet, cases Quiet, intro Quiet]

theorem osccWaitForObjects_quiet (oscc : Oscc) (impInvalid : Bool) (count : Nat) :
    Quiet oscc (osccWaitForObjects oscc impInvalid count) := by
  unfold osccWaitForObjects
  dsimp only
  split
  · exact osccInternalCreate_quiet oscc
  · exact .refl oscc

/-- A consumer leaves the creator as it was, or gets the next object while it is not recovering. -/
inductive Hands (oscc : Oscc) : Handout × Oscc → Prop where
  | wake {rc : Int} : Hands oscc (.wake rc, oscc)
  | wait : Hands oscc (.wait, oscc)
  | id : oscc.flags.recovering = false → oscc.nextId + 1 ≤ oscc.lastId →
      Hands oscc (.id oscc.nextId, { oscc with nextId := oscc.nextId + 1 })

theorem takeNext_hands (steady : oscc.flags.recovering = false) : Hands oscc (takeNext oscc) := by
  unfold takeNext
  split
  · rename_i objects
    simp only [osccHasObjectsNolock, decide_eq_true_eq] at objects
    exact .id steady (by omega)
  · exact .wait

theorem handleAsyncCreate_hands (oscc : Oscc) (rc : Int) : Hands oscc (handleAsyncCreate oscc rc) := by
  unfold handleAsyncCreate
  split
  · exact .wake
  split
  · exact .wake
  split
  · exact .wake
  split
  · exact .wake
  split
  · exact .wait
  · rename_i usable
    exact takeNext_hands (Bool.eq_false_iff.mpr fun recovering => usable (.inl recovering))

theorem oscCreateTry_hands (oscc : Oscc) (impInvalid : Bool) (rc : Int) :
    Hands oscc (oscCreateTry oscc impInvalid rc) := by
  unfold oscCreateTry
  split
  · exact .wake
  rename_i usable
  split
  · exact .wake
  split
  · exact .wake
  split
  · exact .wake
  · exact takeNext_hands (Bool.eq_false_iff.mpr fun recovering => usable (.inr recovering))

/-- The next object exists and was not handed out before. -/
theorem Sound.hand (sound : Sound cfg s) {got : Handout × Oscc} (hands : Hands s.oscc got) :
    Sound cfg (s.hand got) := by
  cases hands with
  | wake | wait => exact sound
  | id steady more =>
    have known : s.oscc.lastId ≤ s.filter.lastId := by
      rcases sound.last steady with within | before
      · exact within
      · omega
    have here : s.filter.Has s.oscc.nextId :=
      sound.cover steady s.oscc.nextId le_rfl (by omega)
    have busy : s.oscc.flags.recovering ≠ true := Bool.eq_false_iff.mp steady
    have noSync (xid connCnt oId : Nat) (answer : Option Answer)
        (waiting : s.oscc.sync = .sent xid connCnt oId answer) : False :=
      busy (sound.sync.waits xid connCnt oId answer waiting).1
    exact { sound with
      nodup := by
        refine nodup_cons.mpr ⟨fun mem => ?_, sound.nodup⟩
        obtain ⟨given, before, same⟩ := mem_map.mp mem
        have less := sound.below given before
        omega
      existed := forall_mem_cons.mpr ⟨here, sound.existed⟩
      below := forall_mem_cons.mpr ⟨Nat.lt_succ_self _, fun given before =>
        Nat.lt_succ_of_lt (sound.below given before)⟩
      positive := Nat.le_add_left 1 _
      near := by
        show s.oscc.nextId + 1 ≤ s.filter.lastId + 2
        omega
      cover := fun _ id low high => sound.cover steady id (Nat.le_of_succ_le low) high
      last := fun _ => .inl known
      orphans := fun sent mem is =>
        .stale (fun fresh => busy ((sound.orphans sent mem is).recovering fresh))
          (sound.orphans sent mem is).past
      sync := { sound.sync with
        waits := fun xid connCnt oId answer waiting => (noSync xid connCnt oId answer waiting).elim
        answered := fun xid connCnt oId answer waiting => (noSync xid connCnt oId _ waiting).elim }
      create := { sound.create with } }

/-- `osc_interpret_create` sets `oscc_last_id` to what the reply says, and may start a recovery. -/
structure Interpreted (rc : Int) (body : Option Nat) (oscc oscc' : Oscc) : Prop where
  nextId : oscc'.nextId = oscc.nextId
  sync : oscc'.sync = oscc.sync
  create : oscc'.create = .idle
  recovering : oscc'.flags.recovering = false → oscc.flags.recovering = false
  lastId : oscc'.lastId = oscc.lastId ∨ ¬ keepsLast rc ∧ body = some oscc'.lastId

theorem oscInterpretCreate_interpreted (oscc : Oscc) (rc : Int) (body : Option Nat) (space : Nat) :
    Interpreted rc body oscc (oscInterpretCreate oscc rc body space) := by
  unfold oscInterpretCreate
  dsimp only
  by_cases malformed : rc = 0 ∧ body = none
  · rw [if_pos malformed]
    exact ⟨rfl, rfl, rfl, nofun, .inl rfl⟩
  rw [if_neg malformed]
  split
  · rename_i done
    have sets : ¬ keepsLast rc := fun keeps => keeps.1 done
    cases body with
    | none => exact ⟨rfl, rfl, rfl, id, .inl rfl⟩
    | some oId =>
      dsimp only [interpretCreated]
      split
      · exact ⟨rfl, rfl, rfl, id, .inr ⟨sets, rfl⟩⟩
      · exact ⟨rfl, rfl, rfl, id, .inr ⟨sets, rfl⟩⟩
  split
  · exact ⟨rfl, rfl, rfl, id, .inl rfl⟩
  split
  · rename_i full
    have sets : ¬ keepsLast rc := fun keeps => keeps.2.1 full
    cases body with
    | none => exact ⟨rfl, rfl, rfl, id, .inl rfl⟩
    | some oId => exact ⟨rfl, rfl, rfl, id, .inr ⟨sets, rfl⟩⟩
  split
  · exact ⟨rfl, rfl, rfl, id, .inl rfl⟩
  split
  · rename_i failed
    have sets : ¬ keepsLast rc := fun keeps => keeps.2.2 failed
    cases body with
    | none => exact ⟨rfl, rfl, rfl, id, .inl rfl⟩
    | some oId => grind [interpretIo, cases Interpreted, intro Interpreted]
  split
  · exact ⟨rfl, rfl, rfl, nofun, .inl rfl⟩
  · exact ⟨rfl, rfl, rfl, nofun, .inl rfl⟩

/-- A reply that is in time leaves the invariant. -/
theorem Sound.interpret (sound : Sound cfg s) {body : Option Nat}
    (done : Interpreted rc body s.oscc oscc)
    (timely : s.oscc.flags.recovering = false → ¬ keepsLast rc → ∀ oId, body = some oId → oId ≤ s.filter.lastId)
    : Sound cfg { s with oscc := oscc } := by
  refine sound.recover done.nextId done.recovering ?_ ?_ done.sync
  · grind [cases Sound, cases Interpreted]
  · intro xid space answer sent
    rw [done.create] at sent
    cases sent

theorem createStep_sound (sound : Sound cfg s) {label : Label} (orderly : Orderly cfg s label) :
    Run.Outcome (Sound cfg) (· ≠ .nextId) (createStep cfg s label) := by
  unfold createStep
  split
  · -- the allocation failed
    exact .guard nofun fun _ => sound.quiet ⟨rfl, rfl, rfl, rfl, nofun⟩
  · exact .guard nofun fun _ => sound.quiet ⟨rfl, rfl, rfl, rfl, nofun⟩
  · split
    · have filled : Sound cfg { s with
          oscc := { s.oscc with create := .sent s.nextXid cfg.address none } } :=
        sound.quiet ⟨rfl, rfl, rfl, rfl, nofun⟩
      refine filled.rewire (s.nextXid + 1) fun sent mem is => ?_
      split at mem
      · rcases mem_cons.mp mem with rfl | before
        · cases is
        · exact before
      · exact mem
    · exact nofun
  · split
    · rename_i space answer sent
      refine sound.interpret (oscInterpretCreate_interpreted s.oscc _ _ _) ?_
      intro steady sets oId named
      rw [Orderly, sent] at orderly
      rcases orderly with recovering | none | keeps | ⟨executed, fresh⟩
      · rw [steady] at recovering
        cases recovering
      · rw [named] at none
        cases none
      · exact absurd keeps sets
      · exact sound.create.known _ _ answer sent executed fresh oId named
    · exact nofun
  · split
    · split
      · exact nofun
      · exact sound.interpret (oscInterpretCreate_interpreted s.oscc _ _ _) nofun
    · exact nofun
  · exact nofun

/-! ### Orphan requests -/

/-- A thread that does not wait for a reply. -/
theorem syncSound_of_idle (idle : oscc.sync = .idle) : SyncSound cfg { s with oscc := oscc } := by
  constructor <;> dsimp only <;> rw [idle] <;> exact nofun

theorem plainError_not (error : plainError rc) : ¬ (rc = 0 ∨ rc = enospc) :=
  not_or.mpr error

variable (sound : Sound cfg s)

include sound

theorem delorphanStart_sound :
    Sound cfg { s with oscc := delorphanStart s.oscc } := by
  unfold delorphanStart
  split
  · exact sound
  rename_i idle
  rw [not_not] at idle
  split
  · exact sound
  rename_i recovering
  rw [not_not] at recovering
  refine sound.creator rfl id sound.last (fun _ _ _ => id) (fun sent mem is => ?_)
    ⟨nofun, fun _ => recovering, nofun, nofun⟩
  refine { sound.orphans sent mem is with awaited := fun fresh => ?_ }
  rcases (sound.orphans sent mem is).awaited fresh with ⟨oId, waiting⟩ | ⟨_, given⟩
  · rw [idle] at waiting
    cases waiting
  · exact .inr ⟨.inr rfl, given⟩

/-- While a reply is there, every orphan request on the wire is stale. -/
theorem Sound.stale_of_answered {xid connCnt : Nat} {answer : Answer}
    (answered : s.oscc.sync = .sent xid connCnt oId (some answer)) {sent : Sent}
    (mem : sent ∈ s.wire) (is : sent.req.delorphan = true) : ¬ s.expConnCnt ≤ sent.req.connCnt := by
  intro fresh
  rcases (sound.orphans sent mem is).awaited fresh with ⟨_, waiting⟩ | ⟨idle | started, _⟩
  · rw [answered] at waiting
    cases waiting
  · rw [answered] at idle
    cases idle
  · rw [answered] at started
    cases started

theorem Sound.endError (error : ¬ (rc = 0 ∨ rc = enospc)) (oId : Nat)
    (gone : ∀ sent ∈ s.wire, sent.req.delorphan = true → s.expConnCnt ≤ sent.req.connCnt → sent.req.connCnt < s.impConnCnt ∨ s.impState = .discon) :
    Run.Outcome (Sound cfg) (· ≠ .nextId) (s.endDelorphan cfg rc oId) := by
  rw [System.endDelorphan, delorphanEnd, if_neg error]
  exact sound.creator rfl id sound.last (fun _ _ _ => id)
    (fun sent mem is => { sound.orphans sent mem is with
      awaited := fun fresh => .inr ⟨.inl rfl, gone sent mem is fresh⟩ }) (syncSound_of_idle rfl)

/-- The end of an orphan request that succeeded. -/
theorem Sound.endDone (done : rc = 0 ∨ rc = enospc)
    (answer : OrphanAnswer cfg s rc oId)
    (stale : ∀ sent ∈ s.wire, sent.req.delorphan = true → ¬ s.expConnCnt ≤ sent.req.connCnt) :
    Run.Outcome (Sound cfg) (· ≠ .nextId) (s.endDelorphan cfg rc oId) := by
  have next : (if cfg.skipOrphan then oId + 1 else s.oscc.nextId) = oId + 1 := by
    cases skip : cfg.skipOrphan with
    | true => rfl
    | false => exact (answer.same skip done).symm
  have ahead := answer.ahead done
  have reached := answer.reached done
  unfold System.endDelorphan delorphanEnd
  rw [if_pos done, next, if_pos rfl]
  exact { sound with
    below := fun given mem => lt_of_lt_of_le (sound.below given mem) ahead
    positive := Nat.le_add_left 1 oId
    near := Nat.succ_le_succ reached
    cover := fun _ id low high => answer.exact done id low high
    last := fun _ => .inr (Nat.lt_succ_self oId)
    orphans := fun sent mem is => .stale (stale sent mem is) (sound.orphans sent mem is).past
    sync := syncSound_of_idle rfl
    create := { sound.create with } }

theorem sendDelorphan_sound (started : s.oscc.sync = .started)
    (full : s.impState = .full) : Sound cfg (sendDelorphan cfg s) := by
  have recovering := sound.sync.started started
  have positive := sound.positive
  have next : s.oscc.nextId - 1 + 1 = s.oscc.nextId := by omega
  have same := sound.same full
  -- nothing older can still be executed
  have stale (sent : Sent) (mem : sent ∈ s.wire) (is : sent.req.delorphan = true) :
      ¬ s.expConnCnt ≤ sent.req.connCnt := by
    intro fresh
    rcases (sound.orphans sent mem is).awaited fresh with ⟨_, waiting⟩ | ⟨_, before | lost⟩
    · rw [started] at waiting
      cases waiting
    · omega
    · rw [full] at lost
      cases lost
  exact { sound with
    orphans := fun sent mem is => by
      rcases mem_cons.mp mem with rfl | before
      · refine ⟨⟨le_rfl, fun connecting => ?_⟩, fun _ => recovering, fun _ => next,
          fun _ => .inl ⟨_, rfl⟩⟩
        exact absurd (full.symm.trans connecting) nofun
      · exact .stale (stale sent before is) (sound.orphans sent before is).past
    sync := by
      refine ⟨fun xid connCnt oId answer waiting => ?_, nofun, nofun, nofun⟩
      cases waiting
      exact ⟨recovering, next⟩
    create := { sound.create with } }

theorem syncStep_sound {label : Label} (orderly : Orderly cfg s label) :
    Run.Outcome (Sound cfg) (· ≠ .nextId) (syncStep cfg s label) := by
  unfold syncStep
  split
  · exact delorphanStart_sound sound
  · refine .guard nofun fun given => ?_
    refine sound.endError (plainError_not given.2) _ fun sent mem is fresh => ?_
    rcases (sound.orphans sent mem is).awaited fresh with ⟨_, waiting⟩ | ⟨_, lost⟩
    · rw [given.1] at waiting
      cases waiting
    · exact lost
  · exact .guard nofun fun given => sendDelorphan_sound sound given.1 given.2
  · split
    · rename_i xid connCnt oId answer waiting
      have stale (sent : Sent) (mem : sent ∈ s.wire) (is : sent.req.delorphan = true) :=
        sound.stale_of_answered waiting mem is
      by_cases done : (realCreate answer oId).1 = 0 ∨ (realCreate answer oId).1 = enospc
      · refine sound.endDone done (sound.sync.answered _ _ _ answer waiting ?_) stale
        rw [Orderly, waiting] at orderly
        rcases orderly with executed | failed
        · exact executed
        · -- an error that was made up is not `-ENOSPC`
          by_contra refused
          rw [Bool.not_eq_true] at refused
          have other := sound.sync.refused _ _ _ answer waiting refused
          rw [realCreate, if_pos failed] at done
          exact done.elim failed other
      · exact sound.endError done _ fun sent mem is fresh => absurd fresh (stale sent mem is)
    · exact nofun
  · split
    · rename_i xid connCnt oId waiting
      refine .guard nofun fun given => ?_
      refine sound.endError (plainError_not given.1) _ fun sent mem is fresh => ?_
      have orphan := sound.orphans sent mem is
      rcases orphan.awaited fresh with ⟨_, same⟩ | ⟨_, lost⟩
      · rw [waiting] at same
        cases same
        cases state : s.impState with
        | full =>
          have moved : s.impConnCnt ≠ sent.req.connCnt := fun same => given.2 ⟨state, same⟩
          exact .inl (lt_of_le_of_ne orphan.past.1 (Ne.symm moved))
        | discon => exact .inr rfl
        | connecting => exact .inl (orphan.past.2 state)
      · exact lost
    · exact nofun
  · exact nofun

theorem connectStep_sound (label : Label) :
    Run.Outcome (Sound cfg) (· ≠ .nextId) (connectStep s label) := by
  have frame (state : ImpState) (connCnt expCnt : Nat) (older : expCnt ≤ connCnt)
      (same : state = .full → expCnt = connCnt)
      (orphans : ∀ sent ∈ s.wire, sent.req.delorphan = true →
        OrphanSent { s with impState := state, impConnCnt := connCnt, expConnCnt := expCnt } sent) :
      Sound cfg { s with impState := state, impConnCnt := connCnt, expConnCnt := expCnt } := { sound with
    older := older
    same := same
    orphans := orphans
    sync := { sound.sync with
      answered := fun xid connCnt oId answer waiting done =>
        { sound.sync.answered xid connCnt oId answer waiting done with } }
    create := { sound.create with } }
  unfold connectStep
  split
  · refine .guard nofun fun _ => ?_
    have lost : Sound cfg { s with
        impState := .discon, impConnCnt := s.impConnCnt, expConnCnt := s.expConnCnt } := by
      refine frame _ _ _ sound.older nofun fun sent mem is => ?_
      obtain ⟨past, recovering, current, awaited⟩ := sound.orphans sent mem is
      refine ⟨⟨past.1, nofun⟩, recovering, current, fun fresh => ?_⟩
      rcases awaited fresh with waiting | ⟨idle, _⟩
      · exact .inl waiting
      · exact .inr ⟨idle, .inr rfl⟩
    exact lost.recover (by rfl) nofun nofun (fun _ _ _ => id) (by rfl)
  · split
    · exact nofun
    · refine frame _ _ _ (Nat.le_succ_of_le sound.older) nofun fun sent mem is => ?_
      obtain ⟨past, recovering, current, awaited⟩ := sound.orphans sent mem is
      have less : sent.req.connCnt < s.impConnCnt + 1 := Nat.lt_succ_of_le past.1
      refine ⟨⟨less.le, fun _ => less⟩, recovering, current, fun fresh => ?_⟩
      rcases awaited fresh with waiting | ⟨idle, _⟩
      · exact .inl waiting
      · exact .inr ⟨idle, .inl less⟩
  · refine .guard nofun fun newer => ?_
    refine frame _ _ _ newer.2 (fun full => ?_) fun sent mem is => ?_
    · have same := sound.same full
      omega
    · grind [le_trans, cases Sound, cases OrphanSent, intro Sound, intro OrphanSent]
  · refine .guard nofun fun given => ?_
    refine frame _ _ _ sound.older (fun _ => given.2) fun sent mem is => ?_
    obtain ⟨past, recovering, current, awaited⟩ := sound.orphans sent mem is
    have less := past.2 given.1
    have old : ¬ s.expConnCnt ≤ sent.req.connCnt := by omega
    exact .stale old ⟨past.1, nofun⟩
  · exact nofun

end

variable {sent : Sent} {xid : Nat} {answer : Answer}

section

variable {cfg : Config} {s : System}

/-- `LAST_ID` is raised over objects that exist, and no object that may be handed out is lost. -/
theorem Sound.refilter (sound : Sound cfg s) {filter : FilterObd}
    (raised : s.filter.lastId ≤ filter.lastId) (word : filter.lastId + 1 < 2 ^ 64)
    (has : ∀ id, s.oscc.nextId ≤ id → (id ≤ s.filter.lastId → s.filter.Has id) →
      id ≤ filter.lastId → filter.Has id) : Sound cfg { s with filter := filter } := { sound with
  near := sound.near.trans (Nat.add_le_add_right raised 2)
  word := word
  cover := fun steady id low => has id low (sound.cover steady id low)
  last := fun steady => by
    rcases sound.last steady with within | before
    · exact .inl (within.trans raised)
    · exact .inr before
  orphans := fun sent mem is => { sound.orphans sent mem is with }
  sync := by
    obtain ⟨waits, started, answered, refused⟩ := sound.sync
    refine ⟨waits, started, fun xid connCnt oId answer waiting done => ?_, refused⟩
    obtain ⟨ahead, same, reached, exact'⟩ := answered xid connCnt oId answer waiting done
    exact ⟨ahead, same, fun ok => le_trans (reached ok) (Nat.add_le_add_right raised 1),
      fun ok id low => has id (le_trans (ahead ok) low) (exact' ok id low)⟩
  create := by
    refine ⟨sound.create.past, fun xid space answer sent executed fresh oId named => ?_⟩
    exact le_trans (sound.create.known xid space answer sent executed fresh oId named) raised }

/-- A reply that reaches the precreate request. -/
theorem CreateState.receive_answered {state : CreateState} {x space : Nat} {found : Answer}
    (sent : state.receive xid answer = .sent x space (some found)) :
    state = .sent x space (some found) ∨ found = answer := by
  unfold CreateState.receive at sent
  split at sent
  · split at sent
    · cases sent
      exact .inr rfl
    · cases sent
  · exact .inl sent

theorem Sound.receiveCreate (sound : Sound cfg s) (past : answer.cleanups ≤ s.cleanups)
    (known : answer.executed = true → ∀ oId, answer.body = some oId → oId ≤ s.filter.lastId) :
    Sound cfg { s with oscc := { s.oscc with create := s.oscc.create.receive xid answer } } :=
  { sound with
    orphans := fun sent mem is => { sound.orphans sent mem is with }
    sync := sound.sync.recover (by rfl) (by rfl) id
    create := by
      refine ⟨fun x space found sent => ?_, fun x space found sent executed fresh oId named => ?_⟩
      · rcases CreateState.receive_answered sent with old | rfl
        · exact sound.create.past x space found old
        · exact past
      · rcases CreateState.receive_answered sent with old | rfl
        · exact sound.create.known x space found old executed fresh oId named
        · exact known executed oId named }

/-- A reply that reaches the orphan request: the thread waited for it, or its state is as it
was. -/
theorem SyncState.receive_cases (state : SyncState) (xid : Nat) (answer : Answer) :
    (∃ connCnt oId, state = .sent xid connCnt oId none ∧
        state.receive xid answer = .sent xid connCnt oId (some answer)) ∨
      state.receive xid answer = state ∧ ∀ connCnt oId, state ≠ .sent xid connCnt oId none := by
  unfold SyncState.receive
  split
  · grind
  · rename_i noWait
    exact .inr ⟨rfl, fun connCnt oId same => noWait xid connCnt oId same⟩

theorem Sound.receiveSync (sound : Sound cfg s) (unsent : ∀ sent ∈ s.wire, sent.xid ≠ xid)
    (cleaned : ∀ connCnt oId, s.oscc.sync = .sent xid connCnt oId none → answer.executed = true → OrphanAnswer cfg s (realCreate answer oId).1 (realCreate answer oId).2)
    (refused : answer.executed = false → answer.rc ≠ enospc) :
    Sound cfg { s with oscc := { s.oscc with sync := s.oscc.sync.receive xid answer } } := by
  rcases s.oscc.sync.receive_cases xid answer with ⟨connCnt, oId, waited, received⟩ | ⟨same, _⟩
  · rw [received]
    refine sound.creator rfl id sound.last (fun _ _ _ => id) (fun sent mem is => ?_) ?_
    · -- the only request that could be executed is the one that was answered
      refine .stale (fun fresh => ?_) (sound.orphans sent mem is).past
      rcases (sound.orphans sent mem is).awaited fresh with ⟨_, waiting⟩ | ⟨idle | started, _⟩
      · rw [waited] at waiting
        cases waiting
        exact unsent sent mem rfl
      · rw [waited] at idle
        cases idle
      · rw [waited] at started
        cases started
    · refine ⟨fun x c o found waiting => ?_, nofun, fun x c o found waiting done => ?_,
        fun x c o found waiting => ?_⟩
      · cases waiting
        exact sound.sync.waits xid connCnt oId none waited
      · cases waiting
        exact { cleaned connCnt oId waited done with }
      · cases waiting
        exact refused
  · simp_all

theorem Sound.unsend (sound : Sound cfg s) (xid : Nat) :
    Sound cfg { s with wire := s.wire.filter (·.xid ≠ xid) } :=
  sound.rewire s.nextXid fun _ mem _ => List.mem_of_mem_filter mem

theorem unsent_filter {wire : List Sent} (mem : sent ∈ wire.filter (·.xid ≠ xid)) :
    sent.xid ≠ xid := by
  simpa using (List.mem_filter.mp mem).2

/-- The wire and the reply of a request that was not executed. -/
theorem Sound.unexecuted (sound : Sound cfg s) (sent : Sent) (dropped : answer.executed = false)
    (error : answer.rc ≠ enospc) (past : answer.cleanups ≤ s.cleanups) :
    Sound cfg { s with
      wire := s.wire.filter (·.xid ≠ sent.xid)
      oscc := s.oscc.receive sent answer } := by
  have taken := sound.unsend sent.xid
  have never (executed : answer.executed = true) : False := by
    rw [dropped] at executed
    cases executed
  unfold Oscc.receive
  split
  · exact taken.receiveSync (fun sent mem => unsent_filter mem) (fun _ _ _ done => (never done).elim)
      fun _ => error
  · exact taken.receiveCreate past fun done => (never done).elim

/-- A stale request is answered and does nothing. -/
theorem executeSent_stale (old : sent.req.connCnt < s.expConnCnt) (io : FilterIo) :
    executeSent cfg s sent io = .ok { s with
      wire := s.wire.filter (·.xid ≠ sent.xid)
      oscc := s.oscc.receive sent ⟨0, some sent.req.oId, false, s.cleanups⟩ } := by
  have isStale : stale s sent = true := decide_eq_true old
  have ran : filterHandlePrecreate ⟨s.expConnCnt, cfg.skipOrphan⟩ sent.req s.filter.lastId (atomicIo io)
      (lockedFilter s sent) = .ok ⟨0, sent.req.oId, s.filter, [], []⟩ := by
    have locked : lockedFilter s sent = s.filter := by
      unfold lockedFilter
      rw [isStale, if_neg (by simp)]
    rw [locked]
    unfold filterHandlePrecreate
    split
    · exact if_pos (.inl old)
    · exact if_pos old
  unfold executeSent
  rw [ran, isStale]
  simp

variable (sound : Sound cfg s)

include sound

section

variable (fresh : ¬ sent.req.connCnt < s.expConnCnt) (fits : Fits sent.req.oId s.filter.lastId)
  (io : FilterIo)

include fresh fits

theorem executeSent_create (isCreate : sent.req.delorphan = false) :
    Outcome (Sound cfg) (· ≠ .nextId) (executeSent cfg s sent io) := by
  have current : stale s sent = false := decide_eq_false fresh
  have locked : lockedFilter s sent = s.filter := by
    unfold lockedFilter
    rw [isCreate, if_neg (by simp)]
  unfold executeSent filterHandlePrecreate
  rw [locked, isCreate, current]
  simp only [Bool.false_eq_true, if_false, false_and]
  split
  · exact nofun
  · rename_i out ran
    obtain ⟨grows, known⟩ := handleCreate_grows sound.word fresh fits ran
    have raised : Sound cfg { s with filter := out.filter } :=
      sound.refilter grows.raised grows.word fun id _ old high => by
        by_cases before : id ≤ s.filter.lastId
        · exact grows.keeps id (old before)
        · exact grows.adds id (not_le.mp before) high
    rw [Oscc.receive, isCreate]
    refine (raised.unsend sent.xid).receiveCreate le_rfl fun _ oId named => ?_
    cases named
    exact known

theorem executeSent_delorphan (mem : sent ∈ s.wire) (isOrphan : sent.req.delorphan = true) :
    Outcome (Sound cfg) (· ≠ .nextId) (executeSent cfg s sent io) := by
  have current : stale s sent = false := decide_eq_false fresh
  have locked : lockedFilter s sent = { s.filter with destroysInProgress := true } := by
    unfold lockedFilter
    rw [isOrphan, current, if_pos (by simp)]
  have orphan := sound.orphans sent mem isOrphan
  have young := not_lt.mp fresh
  have recovering := orphan.recovering young
  have next := orphan.current young
  unfold executeSent filterHandlePrecreate
  rw [locked, isOrphan, current]
  simp only [Bool.false_eq_true, if_true, not_false_eq_true, and_self]
  split
  · exact nofun
  · rename_i out ran
    have near := sound.near
    have ahead : sent.req.oId ≤ s.filter.lastId + 1 := by omega
    have cleaned : Cleaned (Export.mk s.expConnCnt cfg.skipOrphan).skipOrphan sent.req.oId
        { s.filter with destroysInProgress := true } out :=
      handleDelorphan_cleaned (by exact sound.word) fresh rfl ahead fits ran
    -- nobody holds a reply to an earlier orphan request
    have unanswered (xid connCnt oId : Nat) (answer : Answer) :
        s.oscc.sync ≠ .sent xid connCnt oId (some answer) := fun waiting =>
      sound.stale_of_answered waiting mem isOrphan young
    have steady (done : s.oscc.flags.recovering = false) : False := by
      rw [recovering] at done
      cases done
    have swept : Sound cfg { s with
        wire := s.wire.filter (·.xid ≠ sent.xid), filter := out.filter, cleanups := s.cleanups + 1 } := { sound with
      near := by
        show s.oscc.nextId ≤ out.filter.lastId + 2
        have reached := cleaned.near
        omega
      word := cleaned.word
      cover := fun done => (steady done).elim
      last := fun done => (steady done).elim
      orphans := fun sent' mem' is => { sound.orphans sent' (List.mem_of_mem_filter mem') is with }
      sync := { sound.sync with
        answered := fun xid connCnt oId answer waiting =>
          absurd waiting (unanswered xid connCnt oId answer) }
      create := by
        refine ⟨fun xid space answer waiting => ?_,
          fun xid space answer waiting executed timely oId named => ?_⟩
        · exact Nat.le_succ_of_le (sound.create.past xid space answer waiting)
        · have past := sound.create.past xid space answer waiting
          rcases timely with skip | same
          · have known := sound.create.known xid space answer waiting executed (.inl skip) oId named
            exact known.trans (cleaned.kept skip)
          · have same' : answer.cleanups = s.cleanups + 1 := same
            omega }
    rw [Oscc.receive, isOrphan]
    refine swept.receiveSync (fun _ mem => unsent_filter mem) (fun connCnt oId waiting _ => ?_) nofun
    have mine : oId = sent.req.oId := by
      have waited := (sound.sync.waits sent.xid connCnt oId none waiting).2
      omega
    subst mine
    by_cases failed : out.rc ≠ 0
    · rw [realCreate, if_pos failed]
      have reached := cleaned.near
      exact ⟨fun _ => next.symm.le, fun _ _ => next, fun _ => reached,
        fun done => cleaned.noSpace (done.resolve_left failed)⟩
    · rw [realCreate, if_neg failed]
      rw [not_not] at failed
      refine ⟨fun _ => ?_, fun skip _ => ?_, fun _ => cleaned.reached failed, fun _ => cleaned.exact failed⟩
      · have ahead := cleaned.ahead failed
        show s.oscc.nextId ≤ out.oId + 1
        omega
      · have same := cleaned.same skip failed
        show out.oId + 1 = s.oscc.nextId
        omega

end

theorem serverStep_sound (mem : sent ∈ s.wire) {label : Label}
    (fits : ∀ xid io, label = .execute xid io → Fits sent.req.oId s.filter.lastId) :
    Outcome (Sound cfg) (· ≠ .nextId) (serverStep cfg s sent label) := by
  have noSpace : (0 : Int) ≠ enospc := by decide
  unfold serverStep
  split
  · by_cases old : sent.req.connCnt < s.expConnCnt
    · rw [executeSent_stale old]
      exact sound.unexecuted sent rfl noSpace le_rfl
    · grind [executeSent_delorphan, executeSent_create]
  · split
    · rename_i error
      exact sound.unexecuted sent rfl error.2 le_rfl
    · exact nofun
  · exact sound.unsend sent.xid
  · exact nofun

/-! ### All steps -/

/-- A client changes an object that was handed out. -/
theorem clientObject_sound {id : Nat} (size : Option Nat)
    (handed : id ∈ s.handed.map Prod.fst) :
    Sound cfg { s with filter := s.filter.setObject id size } := by
  obtain ⟨given, mem, same⟩ := List.mem_map.mp handed
  have before := sound.below given mem
  refine sound.refilter le_rfl sound.word fun other low old high => ?_
  have ne : other ≠ id := by omega
  simpa [FilterObd.Has, FilterObd.setObject, ne] using old high

theorem step_sound {label : Label} (orderly : Orderly cfg s label) :
    Outcome (Sound cfg) (· ≠ .nextId) (step cfg s label) := by
  have disabled : Fault.disabled ≠ .nextId := by decide
  cases label with
  | asyncCreate rc => exact sound.hand (handleAsyncCreate_hands s.oscc rc)
  | syncCreate impInvalid rc => exact sound.hand (oscCreateTry_hands s.oscc impInvalid rc)
  | waitForObjects impInvalid => exact sound.quiet (osccWaitForObjects_quiet s.oscc impInvalid 1)
  | precreate =>
    have quiet : Quiet s.oscc (oscPrecreate s.oscc) := by
      grind [oscPrecreate, osccInternalCreate_quiet, cases Quiet, intro Quiet]
    exact sound.quiet quiet
  | internalCreate => exact sound.quiet (osccInternalCreate_quiet s.oscc)
  | allocFails | fillCreate | sendCreate | createAnswered | createFails =>
    exact createStep_sound sound orderly
  | delorphan | delorphanUnsent | sendDelorphan | delorphanAnswered | delorphanFails =>
    exact syncStep_sound sound orderly
  | execute xid io =>
    rw [Orderly] at orderly
    rw [step]
    cases found : findSent s xid with
    | none => exact disabled
    | some sent =>
      rw [found] at orderly
      exact serverStep_sound sound (List.mem_of_find?_eq_some found) fun _ _ _ => orderly
  | refuse xid | lose xid =>
    rw [step]
    cases found : findSent s xid with
    | none => exact disabled
    | some sent =>
      exact serverStep_sound sound (List.mem_of_find?_eq_some found) fun _ _ other => by cases other
  | disconnect => exact connectStep_sound sound .disconnect
  | connect => exact connectStep_sound sound .connect
  | ostConnect connCnt => exact connectStep_sound sound (.ostConnect connCnt)
  | connected => exact connectStep_sound sound .connected
  | statfs nospc rdonly degraded => exact sound.quiet { Quiet.refl s.oscc with }
  | clientObject id size =>
    unfold step
    dsimp only
    split
    · rename_i handed
      exact clientObject_sound sound size handed
    · exact disabled

end

/-- In every run of orderly steps no object is handed out twice, each exists then, and the assertion
on the next identifier holds. -/
theorem handed_objects_exist (cfg : Config) (s : System) (start : Initial s) (labels : List Label)
    (orderly : Meets (step cfg) (Orderly cfg) s labels) :
    Outcome Preallocated (· ≠ .nextId) (run (step cfg) s labels) :=
  (outcome_run (fun _ _ sound meets => step_sound sound meets) start.sound orderly).mono
    fun _ sound => ⟨sound.nodup, sound.existed⟩

/-- A creator behind `oscc_init` and a server with one object, connected for the first time. -/
def firstConnection : System where
  oscc := ⟨2, 1, ostMinPrecreate, 20000, ⟨true, false, false, false, false, false⟩, .idle, .idle⟩
  impState := .full
  impConnCnt := 1
  nextXid := 0
  wire := []
  filter := ⟨1, fun id => if id = 1 then some 0 else none, false⟩
  expConnCnt := 1
  cleanups := 0
  handed := []

/-- The creator of the first metadata server, with a kernel address. -/
def mdtCreator : Config := ⟨0, false, 0xffff880012340040⟩

/-- The orphans are removed, objects are created, and one is handed out. -/
def firstObject : List Label :=
  [.delorphan, .sendDelorphan, .execute 0 smooth, .delorphanAnswered, .precreate, .fillCreate, .sendCreate,
    .execute 1 smooth, .createAnswered, .asyncCreate 0]

theorem handed_objects_exist_first :
    Meets (step mdtCreator) (Orderly mdtCreator) firstConnection firstObject ∧
      Outcome Preallocated (· ≠ .nextId) (run (step mdtCreator) firstConnection firstObject) := by
  have orderly : Meets (step mdtCreator) (Orderly mdtCreator) firstConnection firstObject := by
    decide +kernel
  exact ⟨orderly, handed_objects_exist mdtCreator firstConnection (by constructor <;> decide) firstObject orderly⟩

/-- The reply for objects 2 to 33 is interpreted only after a reconnect and the removal of orphans:
object 2 is handed out, and does not exist. -/
theorem late_reply_hands_out_nothing :
    (match run (step mdtCreator) firstConnection
        [.delorphan, .sendDelorphan, .execute 0 smooth, .delorphanAnswered, .precreate, .fillCreate, .sendCreate,
          .execute 1 smooth, .disconnect, .connect, .ostConnect 2, .connected, .delorphan,
          .sendDelorphan, .execute 2 smooth, .delorphanAnswered, .createAnswered, .asyncCreate 0] with
      | .ok s => s.handed
      | .error _ => []) = [(2, false)] := by
  decide +kernel

/-- The objects the creator has not handed out are there, up to `LAST_ID`, unless it recovers. -/
structure Backed (s : System) : Prop where
  below : ∀ given ∈ s.handed, given.1 < s.oscc.nextId
  near : s.oscc.nextId ≤ s.filter.lastId + 2
  cover : s.oscc.flags.recovering = false →
    ∀ id, s.oscc.nextId ≤ id → id ≤ s.filter.lastId → s.filter.Has id

/-- In every run of orderly steps the objects from the next identifier to `LAST_ID` exist. -/
theorem preallocated_objects_backed (cfg : Config) (s : System) (start : Initial s)
    (labels : List Label) (orderly : Meets (step cfg) (Orderly cfg) s labels) :
    Outcome Backed (· ≠ .nextId) (run (step cfg) s labels) :=
  (outcome_run (fun _ _ sound meets => step_sound sound meets) start.sound orderly).mono
    fun _ sound => ⟨sound.below, sound.near, sound.cover⟩

theorem preallocated_objects_backed_first :
    Outcome Backed (· ≠ .nextId) (run (step mdtCreator) firstConnection firstObject) :=
  preallocated_objects_backed _ _ (by constructor <;> decide) _ (by decide +kernel)

end Osc
