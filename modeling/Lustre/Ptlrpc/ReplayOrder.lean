/-
Module: Lustre.Ptlrpc.ReplayOrder
Purpose: Requests are replayed in the order of the replay list, each only when all before it are
  settled, and none is left out.
Trusted boundary: that of Lustre.Ptlrpc.Replay: callbacks leave the import alone, no other request
  is answered
-/
import Lustre.Ptlrpc.Replay

namespace Ptlrpc

open List Run

/-! ### What replies do to the list during a replay -/

/-- The request that is sent next. -/
structure Chosen (imp : ObdImport) (req : PtlrpcRequest) : Prop where
  mem : req.key ∈ imp.keys
  next : imp.lastReplayTransno < req.transno
  first : ∀ k ∈ imp.keys, imp.lastReplayTransno < k.1 → req.transno ≤ k.1
  marked : req.msgReplay ∧ req.msgTransno = req.transno

/-- The messages on the list are marked as replays and carry their transaction number. -/
def Marked (imp : ObdImport) : Prop :=
  ∀ req ∈ imp.replayList, req.msgReplay ∧ req.msgTransno = req.transno

/-- The import is on the way to replay the same requests. -/
structure Carried (imp imp' : ObdImport) : Prop where
  sound : Sound imp'
  marked : Marked imp → Marked imp' := by exact id
  lastReplay : imp'.lastReplayTransno = imp.lastReplayTransno := by rfl
  state : imp'.state = imp.state := by rfl
  remoteHandle : imp'.remoteHandle = imp.remoteHandle := by rfl

/-- The list holds the same requests. -/
structure Alike (imp imp' : ObdImport) : Prop extends Carried imp imp' where
  keys : imp'.keys = imp.keys := by rfl

/-- The list only lost requests that are committed. -/
structure Thinned (imp imp' : ObdImport) : Prop extends Carried imp imp' where
  keys : imp'.keys.Sublist imp.keys
  gone : ∀ k ∈ imp.keys, k ∈ imp'.keys ∨ k.1 ≤ imp'.peerCommittedTransno

variable {imp imp' imp'' : ObdImport} {req : PtlrpcRequest}

theorem Carried.trans (first : Carried imp imp') (second : Carried imp' imp'') :
    Carried imp imp'' where
  sound := second.sound
  marked := second.marked ∘ first.marked
  lastReplay := second.lastReplay.trans first.lastReplay
  state := second.state.trans first.state
  remoteHandle := second.remoteHandle.trans first.remoteHandle

theorem Alike.trans (first : Alike imp imp') (second : Alike imp' imp'') : Alike imp imp'' :=
  { first.toCarried.trans second.toCarried with keys := second.keys.trans first.keys }

theorem Alike.thinned (first : Alike imp imp') (second : Thinned imp' imp'') : Thinned imp imp'' :=
  { first.toCarried.trans second.toCarried with
    keys := first.keys ▸ second.keys
    gone := first.keys ▸ second.gone }

theorem Thinned.alike (first : Thinned imp imp') (second : Alike imp' imp'')
    (peer : imp''.peerCommittedTransno = imp'.peerCommittedTransno) : Thinned imp imp'' :=
  { first.toCarried.trans second.toCarried with
    keys := second.keys ▸ first.keys
    gone := fun k inKeys => by
      rw [second.keys, peer]
      exact first.gone k inKeys }

theorem mem_keys {k : Nat × Nat} :
    k ∈ imp.keys ↔ ∃ req ∈ imp.replayList, req.key = k := mem_map

section

variable (sound : Sound imp)

include sound

/-- Dropping committed requests. -/
theorem ptlrpcFreeCommitted_thinned :
    ∃ imp', ptlrpcFreeCommitted imp = .ok imp' ∧ Thinned imp imp' ∧
      imp'.peerCommittedTransno = imp.peerCommittedTransno ∧ imp'.resendReplay = imp.resendReplay := by
  obtain ⟨list, calls, freed, sub, mem⟩ := ptlrpcFreeCommitted_ok sound
  refine ⟨_, freed, ?_, rfl, rfl⟩
  exact {
    sound := sound.sublist sound.replayable rfl sound.checkedGeneration sub
    marked := fun marked req inList => marked req (sub.subset inList)
    keys := sub.map _
    gone := fun k inKeys => by
      obtain ⟨req, inList, rfl⟩ := mem_keys.mp inKeys
      by_cases stayed : req ∈ list
      · exact .inl (mem_keys.mpr ⟨req, stayed, rfl⟩)
      · refine .inr (not_lt.mp fun later => stayed ((mem req).mpr ⟨inList, ?_⟩))
        exact .inr (.inr later) }

/-- The mark of a resent message says nothing about the list. -/
theorem modify_resent_alike (xid : Nat) (resent : Bool) :
    Alike imp (imp.modify xid fun req => { req with msgResent := resent }) := by
  have list : (imp.modify xid fun req => { req with msgResent := resent }).replayList =
      imp.replayList.map fun req =>
        { req with msgResent := if req.xid = xid then resent else req.msgResent } :=
    map_congr_left fun req _ => by split_ifs <;> rfl
  exact {
    sound :=
      { replayable := sound.replayable
        checkedGeneration := sound.checkedGeneration
        sorted := list ▸ pairwise_map.mpr sound.sorted
        numbered := list ▸ forall_mem_map.mpr sound.numbered
        current := list ▸ forall_mem_map.mpr sound.current }
    marked := fun marked => by
      rw [Marked, list]
      exact forall_mem_map.mpr marked
    keys := by
      rw [ObdImport.keys, list, map_map]
      rfl }

theorem learnCommitted_alike (lastCommitted : Nat) : Alike imp (imp.learnCommitted lastCommitted) := by
  rw [learnCommitted_eq]
  exact { sound := { sound with } }

/-- A reply to a request that is on the list already, or is not put there. -/
theorem keepOrCommit_alike {rep : PtlrpcReply}
    (listed : keepsRequest req rep → imp.retains req) :
    ∃ imp', keepOrCommit imp req rep = .ok imp' ∧ Alike imp imp' := by
  unfold keepOrCommit
  by_cases keeps : keepsRequest req rep
  · refine ⟨_, ?_, modify_resent_alike sound req.xid false⟩
    rw [if_pos keeps, ptlrpcRetainReplayableRequest, if_neg keeps.1, if_pos (listed keeps)]
  · obtain ⟨calls, called⟩ := commit_eq imp req
    refine ⟨_, if_neg keeps, ?_⟩
    rw [called]
    exact { sound := { sound with } }

theorem afterReply_thinned {rep : PtlrpcReply}
    (listed : keepsRequest (storeTransno req rep) rep → imp.retains (storeTransno req rep)) :
    ∃ imp', afterReply imp req rep = .ok imp' ∧ Thinned imp imp' := by
  unfold afterReply
  by_cases lost : llRpcRecoverableError rep.status
  · exact ⟨imp, if_pos lost, { sound }, .refl _, fun _ mem => .inl mem⟩
  · obtain ⟨imp₁, kept, alike⟩ := keepOrCommit_alike sound listed
    have alike' := alike.trans (learnCommitted_alike alike.sound rep.lastCommitted)
    obtain ⟨imp₂, freed, thinned, -⟩ := ptlrpcFreeCommitted_thinned alike'.sound
    refine ⟨imp₂, ?_, alike'.thinned thinned⟩
    rw [if_neg lost, if_neg (not_not_intro sound.replayable), kept]
    exact freed

/-- A list without equal transaction numbers is strictly sorted. -/
theorem Sound.strict (distinct : (imp.keys.map (·.1)).Nodup) :
    imp.keys.Pairwise (·.1 < ·.1) := by
  have sorted : imp.keys.Pairwise fun a b => a.1 ≤ b.1 := by
    refine pairwise_map.mpr (sound.sorted.imp fun {a b} before => ?_)
    show a.transno ≤ b.transno
    omega
  refine (sorted.and (pairwise_map.mp distinct)).imp fun {a b} both => ?_
  exact lt_of_le_of_ne both.1 both.2

/-- The request that `ptlrpc_replay_next` finds. -/
theorem find_first {last : Nat}
    (found : imp.replayList.find? (·.transno > last) = some req) :
    req ∈ imp.replayList ∧ last < req.transno ∧ ∀ k ∈ imp.keys, last < k.1 → req.transno ≤ k.1 := by
  obtain ⟨later, before, behind, split, passed⟩ := find?_eq_some_iff_append.mp found
  refine ⟨mem_of_find?_eq_some found, of_decide_eq_true later, fun k inKeys lt => ?_⟩
  obtain ⟨q, mem, rfl⟩ := mem_keys.mp inKeys
  have sorted := sound.sorted
  rw [split] at mem sorted
  rcases mem_append.mp mem with mem | mem
  · have notLater := passed q mem
    have : ¬ q.transno > last := by simpa using notLater
    exact absurd lt this
  · rcases mem_cons.mp mem with rfl | mem
    · exact le_rfl
    · have order := (pairwise_cons.mp (pairwise_append.mp sorted).2.1).1 q mem
      show req.transno ≤ q.transno
      omega

theorem resendReplay_alike : Alike imp { imp with resendReplay := false } where
  sound := { sound with }

theorem markResent_alike (req : PtlrpcRequest) :
    Alike imp (markResent imp req) ∧
      (markResent imp req).peerCommittedTransno = imp.peerCommittedTransno := by
  unfold markResent
  split_ifs
  · exact ⟨modify_resent_alike sound req.xid true, rfl⟩
  · exact ⟨{ sound }, rfl⟩

/-- `ptlrpc_replay_next` drops committed requests and sends the first one behind the one answered
last. -/
theorem ptlrpcReplayNext_spec (marked : Marked imp) :
    ∃ imp' sent, ptlrpcReplayNext imp = .ok (imp', sent) ∧ Thinned imp imp' ∧
      imp'.peerCommittedTransno = imp.peerCommittedTransno ∧ (∀ req, sent = some req → Chosen imp' req) ∧
      (sent = none → ∀ k ∈ imp'.keys, k.1 ≤ imp'.lastReplayTransno) := by
  have sound' : Sound { imp with lastTransnoChecked := 0 } := { sound with }
  have alike : Alike imp { imp with lastTransnoChecked := 0 } := { sound := sound' }
  obtain ⟨imp₁, freed, thinned, peer, -⟩ := ptlrpcFreeCommitted_thinned sound'
  have thinned₁ := alike.thinned thinned
  unfold ptlrpcReplayNext
  rw [freed]
  cases found : imp₁.replayList.find? (·.transno > imp₁.lastReplayTransno) with
  | none =>
    refine ⟨{ imp₁ with resendReplay := false }, none, by simp only [found],
      thinned₁.alike (resendReplay_alike thinned.sound) rfl, peer, by simp, fun _ k inKeys => ?_⟩
    obtain ⟨req, mem, rfl⟩ := mem_keys.mp inKeys
    have notLater := find?_eq_none.mp found req mem
    exact not_lt.mp fun later => notLater (decide_eq_true later)
  | some req =>
    obtain ⟨mem, next, first⟩ := find_first thinned.sound found
    obtain ⟨resent, peer₂⟩ := markResent_alike thinned.sound req
    have alike₂ := resent.trans (resendReplay_alike resent.sound)
    refine ⟨{ markResent imp₁ req with resendReplay := false }, some req, by simp only [found],
      thinned₁.alike alike₂ peer₂, peer₂.trans peer, fun req' eq => ?_, by simp⟩
    cases eq
    exact {
      mem := alike₂.keys ▸ mem_keys.mpr ⟨req, mem, rfl⟩
      next := alike₂.lastReplay ▸ next
      first := by
        rw [alike₂.keys, alike₂.lastReplay]
        exact first
      marked := thinned₁.marked marked req mem }

end

/-! ### Progress of a replay -/

/-- The request was answered in this recovery, or it is committed. -/
def Trail.Settled (trail : Trail) (k : Nat × Nat) : Prop :=
  k ∈ trail.answered ∨ k.1 ≤ trail.committed

/-- What holds for the import whatever its state is. -/
structure Listed (trail : Trail) (imp : ObdImport) : Prop where
  sound : Sound imp
  marked : Marked imp
  strict : imp.keys.Pairwise (·.1 < ·.1)
  peer : imp.peerCommittedTransno ≤ trail.committed

/-- Everything up to `imp_last_replay_transno` is settled, and what was sent comes before what is to be
sent. -/
structure Progress (trail : Trail) (imp : ObdImport) : Prop where
  distinct : trail.original.Pairwise (·.1 < ·.1)
  present : ∀ k ∈ trail.original, k ∈ imp.keys ∨ k.1 ≤ trail.committed
  settled : ∀ k ∈ trail.original, k.1 ≤ imp.lastReplayTransno → trail.Settled k
  sentListed : ∀ k ∈ trail.sent, k ∈ trail.original
  sentAfter : ∀ k ∈ trail.sent, ∀ earlier ∈ trail.original, earlier.1 < k.1 → trail.Settled earlier
  sentBelow : ∀ k ∈ trail.sent, ∀ next ∈ imp.keys, imp.lastReplayTransno < next.1 → k.1 ≤ next.1
  sentSorted : trail.sent.Pairwise (·.1 ≤ ·.1)
  listed : ∀ k ∈ imp.keys, k ∈ trail.original

variable {trail : Trail}

theorem Trail.Settled.mono {trail' : Trail} {k : Nat × Nat} (settled : trail.Settled k)
    (answered : trail.answered ⊆ trail'.answered) (committed : trail.committed ≤ trail'.committed) :
    trail'.Settled k :=
  settled.imp (fun mem => answered mem) fun le => le.trans committed

/-- Committed requests leave the list. -/
theorem Listed.thinned (base : Listed trail imp) (thinned : Thinned imp imp') :
    Listed (trail.learn imp') imp' where
  sound := thinned.sound
  marked := thinned.marked base.marked
  strict := base.strict.sublist thinned.keys
  peer := le_max_right _ _

/-- Two requests of a list without equal transaction numbers. -/
theorem eq_of_transno_eq {keys : List (Nat × Nat)} (strict : keys.Pairwise (·.1 < ·.1))
    {a b : Nat × Nat} (memA : a ∈ keys) (memB : b ∈ keys) (eq : a.1 = b.1) : a = b := by
  induction keys with
  | nil => cases memA
  | cons k rest ih => grind [pairwise_cons, ne_of_lt]

/-- The replay of a list begins; some of its requests may turn out to be committed. -/
theorem Progress.begin (base : Listed trail imp) (thinned : Thinned imp imp') {last : Nat}
    (ahead : ∀ k ∈ imp.keys, last < k.1) :
    Progress ((trail.begin imp).learn imp') { imp' with lastReplayTransno := last } where
  distinct := base.strict
  present := fun k mem => (thinned.gone k mem).imp id fun le => le.trans (le_max_right _ _)
  settled := fun k mem le => absurd le (not_le.mpr (ahead k mem))
  sentListed := forall_mem_nil _
  sentAfter := forall_mem_nil _
  sentBelow := forall_mem_nil _
  sentSorted := .nil
  listed := fun _ inKeys => thinned.keys.subset inKeys

section

variable (progress : Progress trail imp)

include progress

theorem Progress.thinned (thinned : Thinned imp imp') :
    Progress (trail.learn imp') imp' := { progress with
  present := fun k mem => by
    rcases progress.present k mem with inKeys | committed
    · exact (thinned.gone k inKeys).imp id fun le => le.trans (le_max_right _ _)
    · exact .inr (committed.trans (le_max_left _ _))
  settled := fun k mem le =>
    (progress.settled k mem (thinned.lastReplay ▸ le)).mono (fun _ h => h) (le_max_left _ _)
  sentAfter := fun k sent earlier mem lt =>
    (progress.sentAfter k sent earlier mem lt).mono (fun _ h => h) (le_max_left _ _)
  sentBelow := fun k sent next inKeys lt =>
    progress.sentBelow k sent next (thinned.keys.subset inKeys) (thinned.lastReplay ▸ lt)
  listed := fun k inKeys => progress.listed k (thinned.keys.subset inKeys) }

/-- The reply to the request that was sent last is recorded. -/
theorem Progress.answer (sent : req.key ∈ trail.sent)
    (next : imp.lastReplayTransno < req.transno) :
    Progress (trail.answer req) { imp with lastReplayTransno := req.transno } := { progress with
  settled := fun k mem le => by
    rcases Nat.lt_or_eq_of_le le with lt | eq
    · exact (progress.sentAfter _ sent k mem lt).mono (subset_cons_self _ _) le_rfl
    · have same := eq_of_transno_eq progress.distinct mem (progress.sentListed _ sent) eq
      exact .inl (same ▸ mem_cons_self)
  sentAfter := fun k before earlier mem lt =>
    (progress.sentAfter k before earlier mem lt).mono (subset_cons_self _ _) le_rfl
  sentBelow := fun k before later inKeys lt =>
    progress.sentBelow k before later inKeys (next.trans lt) }

/-- Everything in front of the next request is settled already. -/
theorem Progress.send (chosen : Chosen imp req) :
    Progress (trail.send req) imp := { progress with
  sentListed := forall_mem_append.mpr
    ⟨progress.sentListed, forall_mem_singleton.mpr (progress.listed _ chosen.mem)⟩
  sentAfter := fun k sent earlier inOriginal lt => by
    rcases mem_append.mp sent with before | last
    · exact progress.sentAfter k before earlier inOriginal lt
    · cases mem_singleton.mp last
      rcases progress.present earlier inOriginal with inKeys | committed
      · refine progress.settled earlier inOriginal (not_lt.mp fun unsettled => ?_)
        exact Nat.not_le_of_lt lt (chosen.first earlier inKeys unsettled)
      · exact .inr committed
  sentBelow := forall_mem_append.mpr
    ⟨progress.sentBelow, forall_mem_singleton.mpr chosen.first⟩
  sentSorted := by
    refine pairwise_append.mpr ⟨progress.sentSorted, pairwise_singleton _ _, ?_⟩
    intro k before last isLast
    cases mem_singleton.mp isLast
    exact progress.sentBelow k before req.key chosen.mem chosen.next }

/-- When nothing is left to be sent, everything is settled. -/
theorem Progress.finished (none : ∀ k ∈ imp.keys, k.1 ≤ imp.lastReplayTransno) :
    ∀ k ∈ trail.original, trail.Settled k := by
  intro k mem
  rcases progress.present k mem with inKeys | committed
  · exact progress.settled k mem (none k inKeys)
  · exact .inr committed

/-- Only the list and `imp_last_replay_transno` of the import matter. -/
theorem Progress.same (keys : imp'.keys = imp.keys)
    (last : imp'.lastReplayTransno = imp.lastReplayTransno) : Progress trail imp' := { progress with
  present := keys ▸ progress.present
  settled := last ▸ progress.settled
  sentBelow := by
    rw [keys, last]
    exact progress.sentBelow
  listed := keys ▸ progress.listed }

end

/-! ### Runs -/

/-- What holds in every state of a recovery. -/
structure Replaying (s : Recovery) : Prop where
  base : Listed s.trail s.imp
  progress : s.trail.begun → Progress s.trail s.imp
  idle : ¬ s.trail.begun → s.trail.sent = []
  flying : ∀ req, s.inflight = some req →
    s.imp.state = .replay ∧ s.trail.begun ∧ req.key ∈ s.trail.sent ∧ Chosen s.imp req
  finished : s.imp.state = .replayLocks → ∀ k ∈ s.trail.original, s.trail.Settled k

/-- Outside of the replay the state machine only moves the state. -/
theorem stateMachine_other (other : imp.state ≠ .replay) (undone : imp.state ≠ .replayLocks) :
    ∃ state, ptlrpcImportRecoveryStateMachine imp = .ok ({ imp with state := state }, none) ∧
      state ≠ .replayLocks := by
  unfold ptlrpcImportRecoveryStateMachine
  cases state : imp.state with
  | replay => exact absurd state other
  | recover =>
    refine ⟨.full, ?_, by decide⟩
    simp only [ObdImport.setState, state]
    rfl
  | _ =>
    refine ⟨imp.state, rfl, undone⟩

/-- A new connect request leaves the list alone. -/
theorem connectImport_spec (imp : ObdImport) :
    ∃ state resend, ptlrpcConnectImport imp = { imp with state := state, resendReplay := resend } ∧
      state ≠ .replayLocks := by
  unfold ptlrpcConnectImport
  split_ifs with kept
  · grind
  · exact ⟨.connecting, false, rfl, by decide⟩

section

variable (base : Listed trail imp) (progress : trail.begun → Progress trail imp)
  (idle : ¬ trail.begun → trail.sent = [])

include base progress idle

/-- The import moves to another state, and nothing is in flight. -/
theorem Replaying.still {state : ImpState} (undone : state ≠ .replayLocks) (resend : Bool) :
    Replaying ⟨{ imp with state := state, resendReplay := resend }, none, trail⟩ where
  base := { base with sound := { base.sound with } }
  progress := fun begun => (progress begun).same rfl rfl
  idle := idle
  flying := nofun
  finished := fun done => absurd done undone

theorem goOn_replaying (begun : imp.state = .replay → trail.begun) (undone : imp.state ≠ .replayLocks) :
    Outcome Replaying (· = .transnoChanged) (goOn trail imp) := by
  unfold goOn
  by_cases replay : imp.state = .replay
  · obtain ⟨imp', sent, taken, thinned, peer, chosen, nothing⟩ :=
      ptlrpcReplayNext_spec base.sound base.marked
    have known : trail.learn imp' = trail := by
      rw [Trail.learn, max_eq_left (peer ▸ base.peer)]
    have base' := base.thinned thinned
    have progress' := (progress (begun replay)).thinned thinned
    rw [known] at base' progress'
    have state : imp'.state = .replay := thinned.state.trans replay
    cases sent with
    | none =>
      have moved : ptlrpcImportRecoveryStateMachine imp =
          .ok ({ imp' with state := .replayLocks }, none) := by
        simp only [ptlrpcImportRecoveryStateMachine, replay, taken, ObdImport.setState, state]
        rfl
      rw [moved]
      exact {
        base := { base' with sound := { base'.sound with } }
        progress := fun _ => progress'.same rfl rfl
        idle := fun not => absurd (begun replay) not
        flying := fun _ eq => by cases eq
        finished := fun _ => progress'.finished (nothing rfl) }
    | some req =>
      have moved : ptlrpcImportRecoveryStateMachine imp = .ok (imp', some req) := by
        simp only [ptlrpcImportRecoveryStateMachine, replay, taken]
      rw [moved]
      exact {
        base := { base' with sound := { base'.sound with } }
        progress := fun _ => progress'.send (chosen req rfl)
        idle := fun not => absurd (begun replay) not
        flying := fun req' eq => by
          cases eq
          exact ⟨state, begun replay, mem_append_right _ mem_cons_self, chosen req rfl⟩
        finished := fun done => by
          rw [state] at done
          cases done }
  · obtain ⟨state, moved, undone'⟩ := stateMachine_other replay undone
    rw [moved]
    exact .still base progress idle undone' imp.resendReplay

/-- The import is connected anew, nothing is in flight. -/
theorem Replaying.reconnect : Replaying ⟨ptlrpcConnectImport imp, none, trail⟩ := by
  obtain ⟨state, resend, eq, undone⟩ := connectImport_spec imp
  rw [eq]
  exact .still base progress idle undone resend

end

/-- What the reply to a connect request does to the import. -/
theorem connectInterpret_spec (replayable : imp.replayable) (state : imp.state = .connecting)
    (reply : ConnectReply) :
    ∃ handle resend last state, ptlrpcConnectInterpret imp reply =
        .ok { imp with
          remoteHandle := handle, resendReplay := resend, lastReplayTransno := last, state := state } ∧
      state ≠ .replayLocks ∧
      (last = imp.lastReplayTransno ∧ (state = .replay → reply.reconnect ∧ reply.recovering) ∨
        last = 0 ∧ state = .replay ∧ ¬ reply.reconnect) := by
  unfold ptlrpcConnectInterpret ObdImport.setState
  simp only [state, reduceCtorEq, if_false]
  split_ifs with reconnect unknown evicted invalid recovering new
  · exact ⟨_, _, _, .discon, rfl, by decide, .inl ⟨rfl, by simp⟩⟩
  · exact ⟨_, _, _, .evicted, rfl, by decide, .inl ⟨rfl, by simp⟩⟩
  · exact ⟨_, _, _, .evicted, rfl, by decide, .inl ⟨rfl, by simp⟩⟩
  · exact ⟨_, _, _, .replay, rfl, by decide, .inl ⟨rfl, fun _ => ⟨reconnect, recovering⟩⟩⟩
  · exact ⟨_, _, _, .recover, rfl, by decide, .inl ⟨rfl, by simp⟩⟩
  · exact ⟨_, _, _, .replay, rfl, by decide, .inr ⟨rfl, rfl, reconnect⟩⟩
  · exact ⟨_, _, _, .evicted, rfl, by decide, .inl ⟨rfl, by simp⟩⟩

/-- What the reply to a replayed request records. -/
theorem interpret_spec (imp : ObdImport) (rep : PtlrpcReply) (marked : req.msgTransno = req.transno)
    (numbered : 0 < req.transno) :
    ptlrpcReplayInterpret imp req rep = .error .transnoChanged ∨
      ptlrpcReplayInterpret imp req rep = .ok { imp with lastReplayTransno := req.transno } := by
  grind [ptlrpcReplayInterpret]

/-- A reply to a reconnect that makes the import go on with its replay comes from the instance of the
server that it was begun with, unless the whole list is behind the number answered last. -/
def Steady (s : Recovery) : RecoveryEvent → Prop
  | .connected reply => reply.reconnect → reply.recovering →
      s.trail.begun ∧ reply.handle = s.imp.remoteHandle ∨
        ∀ k ∈ s.imp.keys, s.imp.lastReplayTransno < k.1
  | _ => True

instance (s : Recovery) (event : RecoveryEvent) : Decidable (Steady s event) := by
  cases event with
  | connected reply => exact inferInstanceAs (Decidable (_ → _ → _ ∨ _))
  | _ => exact isTrue trivial

/-- One event keeps what holds; only a server that changes a transaction number makes the
client fail. -/
theorem Replaying.step {s : Recovery} (replaying : Replaying s) (event : RecoveryEvent)
    (steady : Steady s event) : Outcome Replaying (· = .transnoChanged) (recoveryStep s event) := by
  cases event with
  | connect =>
    rw [recoveryStep]
    split_ifs with flying
    · exact replaying
    · have idle : s.inflight = none := by simpa using flying
      rw [idle]
      exact .reconnect replaying.base replaying.progress replaying.idle
  | connected reply =>
    rw [recoveryStep]
    split_ifs with other
    · exact replaying
    · have state : s.imp.state = .connecting := not_not.mp other
      obtain ⟨imp, replied, thinned⟩ := afterReply_thinned replaying.base.sound
        (show keepsRequest (storeTransno (connectRequest s.imp) ⟨0, 0, reply.lastCommitted⟩)
          ⟨0, 0, reply.lastCommitted⟩ → _ from fun keeps => absurd rfl keeps.1)
      obtain ⟨handle, resend, last, state', taken, undone, goes⟩ :=
        connectInterpret_spec thinned.sound.replayable (thinned.state.trans state) reply
      rw [replied]
      simp only [taken, Recovery.connected]
      have base := replaying.base.thinned thinned
      split_ifs with begins
      · -- the whole list is replayed to a new instance of the server
        have ahead : ∀ k ∈ s.imp.keys, last < k.1 := by
          rcases goes with ⟨same, reconnected⟩ | ⟨zero, -⟩
          · obtain ⟨reconnect, recovering⟩ := reconnected begins.1
            rcases steady reconnect recovering with ⟨begun, handle⟩ | ahead
            · grind
            · rwa [same, thinned.lastReplay]
          · intro k mem
            obtain ⟨req, inList, rfl⟩ := mem_keys.mp mem
            exact zero ▸ Nat.pos_of_ne_zero (replaying.base.sound.numbered req inList)
        have progress := Progress.begin replaying.base thinned ahead
        exact goOn_replaying { base with sound := { base.sound with } } (fun _ => progress.same rfl rfl)
          (fun not => absurd rfl not) (fun _ => rfl) undone
      · have present : state' = .replay → ¬ s.restarted reply := fun replay restarted =>
          begins ⟨replay, restarted⟩
        have same : last = imp.lastReplayTransno := by grind
        refine goOn_replaying { base with sound := { base.sound with } }
          (fun begun => ((replaying.progress begun).thinned thinned).same rfl same) replaying.idle
          (fun replay => ?_) undone
        exact not_not.mp fun unbegun => present replay (.inl unbegun)
  | replied rep err =>
    rw [recoveryStep]
    cases inflight : s.inflight with
    | none => exact replaying
    | some req =>
      obtain ⟨state, begun, sent, chosen⟩ := replaying.flying req inflight
      have same : storeTransno req rep = req := by rw [storeTransno, if_pos chosen.marked.1]
      obtain ⟨kept, inList, key⟩ := mem_keys.mp chosen.mem
      obtain ⟨imp, replied, thinned⟩ := afterReply_thinned replaying.base.sound
        (show keepsRequest (storeTransno req rep) rep → _ from fun _ => by
          rw [same]
          exact ⟨kept, inList, congrArg Prod.snd key⟩)
      have base := replaying.base.thinned thinned
      have progress := (replaying.progress begun).thinned thinned
      simp only [replied]
      split_ifs with lost
      · exact .reconnect base (fun _ => progress) replaying.idle
      · rcases interpret_spec imp rep chosen.marked.2 (Nat.zero_lt_of_lt chosen.next) with
          changed | answered
        · rw [changed]
          rfl
        · have next := progress.answer sent (thinned.lastReplay ▸ chosen.next)
          have unfinished : imp.state ≠ .replayLocks := fun done =>
            absurd (done.symm.trans (thinned.state.trans state)) (by decide)
          simp only [answered]
          exact goOn_replaying { base with sound := { base.sound with } } (fun _ => next)
            (fun not => absurd begun not) (fun _ => begun) unfinished
  | timedOut =>
    rw [recoveryStep]
    cases inflight : s.inflight with
    | none => exact replaying
    | some req =>
      exact .reconnect replaying.base replaying.progress replaying.idle

/-- An import with its replay list, connecting to a server, before anything is replayed. -/
structure Held (s : Recovery) : Prop where
  sound : Sound s.imp
  marked : Marked s.imp
  connecting : s.imp.state = .connecting
  inflight : s.inflight = none
  begun : s.trail.begun = false
  sent : s.trail.sent = []
  committed : s.trail.committed = s.imp.peerCommittedTransno

/-- The order of the places in the replay list. -/
abbrev KeyBefore (a b : Nat × Nat) : Prop := a.1 < b.1 ∨ a.1 = b.1 ∧ a.2 < b.2

/-- Requests are sent in the order of the list, each when all before it are settled, as all are when
nothing is left to send. -/
structure ReplayedInOrder (s : Recovery) : Prop where
  order : s.trail.sent.Pairwise fun a b => ¬ KeyBefore b a
  after : ∀ k ∈ s.trail.sent, ∀ earlier ∈ s.trail.original, KeyBefore earlier k →
    s.trail.Settled earlier
  complete : s.imp.state = .replayLocks → ∀ k ∈ s.trail.original, s.trail.Settled k

theorem Replaying.inOrder {s : Recovery} (replaying : Replaying s) : ReplayedInOrder s := by
  by_cases begun : s.trail.begun
  · have progress := replaying.progress begun
    have same : ∀ {a b}, a ∈ s.trail.original → b ∈ s.trail.original → a.1 = b.1 → a = b :=
      eq_of_transno_eq progress.distinct
    refine ⟨?_, fun k sent earlier mem before => ?_, replaying.finished⟩
    · refine (List.Pairwise.and_mem.mp progress.sentSorted).imp fun {a b} sorted back => ?_
      obtain ⟨sentA, sentB, le⟩ := sorted
      rcases back with lt | ⟨eq, lt⟩
      · omega
      · have one := same (progress.sentListed b sentB) (progress.sentListed a sentA) eq
        exact ne_of_lt lt (congrArg Prod.snd one)
    · rcases before with lt | ⟨eq, lt⟩
      · exact progress.sentAfter k sent earlier mem lt
      · have one := same mem (progress.sentListed k sent) eq
        exact absurd (congrArg Prod.snd one) lt.ne
  · have none := replaying.idle begun
    refine ⟨?_, ?_, replaying.finished⟩
    · rw [none]
      exact List.Pairwise.nil
    · simp [none]

/-- In every run from a replay list without equal transaction numbers, in which replies to
reconnects come from the instance of the server that the replay was begun with, requests are
replayed in order and none is left out. -/
theorem replay_order (start : Recovery) (held : Held start)
    (distinct : (start.imp.keys.map (·.1)).Nodup) (events : List RecoveryEvent)
    (steady : Meets recoveryStep Steady start events) :
    Outcome ReplayedInOrder (· = .transnoChanged) (run recoveryStep start events) := by
  have init : Replaying start :=
    { base := ⟨held.sound, held.marked, held.sound.strict distinct, held.committed.symm.le⟩
      progress := fun begun => by
        rw [held.begun] at begun
        cases begun
      idle := fun _ => held.sent
      flying := fun req eq => by
        rw [held.inflight] at eq
        cases eq
      finished := fun done => absurd (held.connecting.symm.trans done) (by decide) }
  have whole := outcome_run (fun _ event holds meets => Replaying.step holds event meets) init
    steady
  exact whole.mono fun _ replaying => replaying.inOrder

/-- A request of a replay list. -/
def replayable (transno xid : Nat) : PtlrpcRequest where
  xid := xid
  transno := transno
  importGeneration := 1
  replay := false
  msgTransno := transno
  msgReplay := true
  msgResent := false
  commitCb := false

/-- An import that connects with a replay list. -/
def connecting (list : List PtlrpcRequest) (lastReplay : Nat) : Recovery where
  imp := { newImport with
    state := .connecting, replayList := list, lastReplayTransno := lastReplay, remoteHandle := 7 }
  inflight := none
  trail := ⟨false, [], [], [], 0⟩

/-- The first request is answered, the second one times out and is sent again after a
reconnect. -/
theorem replay_order_timeout : Outcome ReplayedInOrder (· = .transnoChanged)
      (run recoveryStep (connecting [replayable 5 1, replayable 6 2] 3)
        [.connected ⟨false, true, 8, 0⟩, .replied ⟨0, 5, 0⟩ false, .timedOut,
          .connected ⟨true, true, 8, 5⟩, .replied ⟨0, 6, 5⟩ false]) := by
  refine replay_order _ ⟨⟨rfl, rfl, by decide, by decide, by decide⟩, ?_, rfl, rfl, rfl, rfl, rfl⟩
    (by decide) _ (by decide)
  unfold Marked
  decide

/-- Of two requests with equal transaction numbers the second is never sent.  One is also left out when
the first reply from a new instance answers a reconnect: the import goes on behind the number of an
earlier recovery. -/
theorem requests_left_out :
    (∃ s, run recoveryStep (connecting [replayable 5 1, replayable 5 2] 0)
        [.connected ⟨false, true, 8, 0⟩, .replied ⟨0, 5, 0⟩ false] = .ok s ∧
      s.imp.state = .replayLocks ∧ s.trail.sent = [(5, 1)] ∧ (5, 2) ∈ s.trail.original ∧
      ¬ s.trail.Settled (5, 2)) ∧
    ∃ s, run recoveryStep (connecting [replayable 5 1] 9) [.connected ⟨true, true, 8, 0⟩] = .ok s ∧
      s.imp.state = .replayLocks ∧ s.trail.sent = [] ∧ (5, 1) ∈ s.trail.original ∧
      ¬ s.trail.Settled (5, 1) := by
  refine ⟨⟨_, rfl, rfl, rfl, ?_, ?_⟩, _, rfl, rfl, rfl, ?_, ?_⟩
  · decide
  · unfold Trail.Settled
    decide
  · decide
  · unfold Trail.Settled
    decide

end Ptlrpc
