import CquptRaft.Cluster.Environment
import CquptRaft.Cluster.StateMachineSafety

/-!
# Acknowledged proposals

`Propose` returns `kOk` for the slot it has appended to. It has seen the slot replicated, or
compacted, in a critical section of `ReplicateLogEntryToMajority`, and that section knows the
index only. As long as its node still leads the term of the append there, the entry of the slot
is chosen, and it is the one that was proposed.
-/

namespace CquptRaft

open Replication Voting

variable {σ : Type} {sm : IStateMachine σ} {cfg : ClusterConfig} {H H' : History NodeId LogRecord}
  {members : Finset NodeId} {q : NodeId}

/-! ## Which sections touch the proposals -/

/-- The actions that start, move or drop a `Propose` call. -/
def Action.proposes : Action → Bool
  | .restart _ _ _ | .propose _ _ | .proposeNoOp _ | .proposal _ _ => true
  | _ => false

theorem act_proposals {id : NodeId} {net : List (Message sm.Image)} {m m' : Member σ sm.Image}
    {action : Action} {outbox : Member.Outbox sm.Image} (hother : action.proposes = false)
    (h : act sm cfg id net m action = some (m', outbox)) : m'.proposals = m.proposals := by
  cases action with
  | restart _ _ _ | propose _ _ | proposeNoOp _ | proposal _ _ => cases hother
  | start | stop | crash | prune _ =>
    cases h
    rfl
  | persist _ | applyAcquire | appendFailed _ | installFailed _ | finishRpc _ | onSnapshotTimer =>
    grind [act, Member.setReplicator]
  | startElection _ => grind [act, Member.startElection]
  | countVote _ => grind [act, Member.countVote]
  | onElectionWon _ => grind [act, Member.onElectionWon]
  | replicateOnce _ => grind [act, Member.replicateOnce, Member.setReplicator]
  | readBoundary _ => grind [act, Member.readBoundary, Member.setReplicator]
  | sendSnapshot _ => grind [act, Member.sendSnapshot, Member.setReplicator]
  | installWrite _ _ => grind [act, Member.installWrite, Member.advanceInstall, Member.failInstall]
  | installSave _ _ => grind [act, Member.installSave, Member.advanceInstall, Member.failInstall]
  | installLoad _ _ => grind [act, Member.installLoad, Member.failInstall]
  | installFinish _ => grind [act, Member.installFinish]
  | applyPick => grind [act, Member.applyPick]
  | applyRun => grind [act, Member.applyRun]
  | applyFinish _ => grind [act, Member.applyFinish]
  | workerCapture _ => grind [act, Member.workerCapture]
  | workerSave _ => grind [act, Member.workerSave]
  | workerCompact _ => grind [act, Member.workerCompact]
  | onRequestVote _ _ _ =>
    obtain ⟨message, -, h⟩ := Option.bind_eq_some_iff.mp h
    grind [Member.deliverRequestVote]
  | onVoteResponse _ _ =>
    obtain ⟨message, -, h⟩ := Option.bind_eq_some_iff.mp h
    grind [Member.deliverVoteResponse, Member.onVoteResponse]
  | onAppendEntries _ _ _ _ =>
    obtain ⟨message, -, h⟩ := Option.bind_eq_some_iff.mp h
    grind [Member.deliverAppendEntries]
  | onInstallSnapshot _ _ =>
    obtain ⟨message, -, h⟩ := Option.bind_eq_some_iff.mp h
    grind [Member.deliverInstallSnapshot, Member.onInstallSnapshot]
  | appendResponse _ _ _ =>
    simp only [act] at h
    split at h
    · obtain ⟨message, -, h⟩ := Option.bind_eq_some_iff.mp h
      grind [Member.deliverAppendResponse, Member.setReplicator]
    · cases h
  | installResponse _ _ _ =>
    simp only [act] at h
    split at h
    · obtain ⟨message, -, h⟩ := Option.bind_eq_some_iff.mp h
      grind [Member.deliverInstallResponse, Member.setReplicator]
    · cases h

/-! ## The invariant of a proposal -/

/-- The record that a `Propose` call has appended. -/
def Proposal.record (p : Proposal) : LogRecord := ⟨p.logIndex, p.term, p.command⟩

/-- The points of `Propose` behind `kReplicated`, on the way to `kOk`. -/
def ProposePhase.passed : ProposePhase → Bool
  | .replicated | .applying | .applied | .finished .ok => true
  | _ => false

/-- The record is in the log of the leader of its term, and chosen once it counts as replicated. -/
structure ProposalInv (H : History NodeId LogRecord) (members : Finset NodeId) (p : Proposal) :
    Prop where
  pos : 0 < p.logIndex
  entry : (H.leaderLog p.term)[p.logIndex - 1]? = some p.record
  chosen : p.phase.passed = true → H.Chosen members (H.written p.term p.logIndex)

theorem ProposalInv.index_le {p : Proposal} (h : ProposalInv H members p) :
    p.logIndex ≤ (H.leaderLog p.term).length := by
  obtain ⟨hlt, -⟩ := List.getElem?_eq_some_iff.mp h.entry
  have := h.pos
  omega

theorem ProposalInv.mono {p : Proposal} (h : ProposalInv H members p)
    (hH : H.Valid members LogRecord.term) (hext : History.Extends H H') :
    ProposalInv H' members p where
  pos := h.pos
  entry := by
    obtain ⟨s, hs⟩ := hext.leaderLog p.term
    have := h.pos
    have := h.index_le
    rw [← hs, List.getElem?_append_left (by omega)]
    exact h.entry
  chosen hpassed := by
    rw [hext.written_eq h.index_le]
    exact hext.chosen hH (h.chosen hpassed)

/-- An acknowledged record is the one of the chosen sequence. -/
theorem ProposalInv.chosenEntry_eq {p : Proposal} (h : ProposalInv H members p)
    (hpassed : p.phase.passed = true) (hH' : H'.Valid members LogRecord.term)
    (hH : H.Valid members LogRecord.term) (hext : History.Extends H H') :
    H'.chosenEntry members p.logIndex = p.record := by
  have h' := h.mono hH hext
  have hpos := h.pos
  have hlen : (H'.written p.term p.logIndex).length = p.logIndex := by
    rw [History.written, List.length_take, min_eq_left h'.index_le]
  have hentry := hH'.getElem?_chosen (h'.chosen hpassed) hpos hlen.ge
  rw [History.written, List.getElem?_take_of_lt (by omega), h'.entry] at hentry
  exact (Option.some.inj hentry).symm

/-! ## Sections of `Propose` -/

/-- A thread passes only where it finds its slot replicated, or compacted. -/
theorem Member.proposeStep_passed {node node' : RaftNode} {p : Proposal} {step : ProposeStep}
    {phase : ProposePhase} (h : Member.proposeStep node p step = some (node', phase))
    (hpassed : phase.passed = true) :
    p.phase.passed = true ∨ phase = .replicated ∧
      (node.quorum ≤ node.replicatedCount p.logIndex ∨ p.logIndex ≤ node.lastSnapshotIndex) := by
  cases step with
  | head =>
    have hself : 1 ≤ node.replicatedCount p.logIndex := Nat.le_add_right 1 _
    grind [Member.proposeStep, ProposePhase.passed]
  | count | check | endPass | timeout | advance _ | applied | applyFailed | finish =>
    grind [Member.proposeStep, ProposePhase.passed]

/-- No section takes the slot for replicated unless its node still leads the term of the append. -/
def Member.confirmsOwn {Image : Type} (m : Member σ Image) : Action → Bool
  | .proposal h step =>
    match m.proposals[h]? with
    | some p =>
      (m.node.role == .leader && m.node.currentTerm == p.term) ||
        (proposeStep m.node p step).all fun moved => moved.2 != .replicated
    | none => true
  | _ => true

/-- A leader that finds its own entry replicated, or compacted, has it chosen. -/
theorem ProcessInv.chosen_of_replicated {Image : Type} {m : Member σ Image}
    {mem dur : Replica LogRecord} {p : Proposal}
    (h : ProcessInv H cfg.members q m mem dur) (hq : q ∈ cfg.ids)
    (hpeers : m.node.peers = cfg.peers q) (hp : ProposalInv H cfg.members p)
    (hrole : m.node.role = .leader) (hterm : m.node.currentTerm = p.term)
    (hreached : m.node.quorum ≤ m.node.replicatedCount p.logIndex ∨
      p.logIndex ≤ m.node.lastSnapshotIndex) :
    H.Chosen cfg.members (H.written p.term p.logIndex) := by
  obtain ⟨hlead, hclean⟩ := h.leader hrole
  have hmem : mem.term = p.term := h.node.represents.term.symm.trans hterm
  have hlog : mem.log = H.leaderLog p.term := hmem ▸ hlead.log
  have hlen := hp.index_le
  rw [History.written, ← hlog]
  rw [← hlog] at hlen
  rcases hreached with hcount | hsnap
  · have hentry := hp.entry
    rw [← hlog] at hentry
    have htermAt : termAt LogRecord.term mem.log p.logIndex = mem.term := by
      obtain ⟨k, hk⟩ : ∃ k, p.logIndex = k + 1 := ⟨p.logIndex - 1, by have := hp.pos; omega⟩
      rw [hk] at hentry ⊢
      rw [Nat.add_sub_cancel] at hentry
      simp [termAt, hentry, Proposal.record, hmem]
    exact (hlead.chosenBy hq hpeers hp.pos hlen htermAt hcount).chosen
  · rw [h.node.represents.snapIndex] at hsnap
    exact (hclean.commit.of_le (List.take_prefix_take_left (hsnap.trans
      h.node.memSound.snap_le))).chosen

/-! ## Steps and runs -/

/-- Every `Propose` call of the process. -/
def ProposalsInv {Image : Type} (H : History NodeId LogRecord) (members : Finset NodeId)
    (m : Member σ Image) : Prop :=
  ∀ p ∈ m.proposals, ProposalInv H members p

/-- A record that the leader has just appended is the last one of its log. -/
theorem ProcessInv.appended {Image : Type} {m' : Member σ Image} {mem dur : Replica LogRecord}
    (h : ProcessInv H members q m' mem dur) (m : Member σ Image) (commandData : Bytes)
    (hrole : m.node.role = .leader)
    (hnode : m'.node = (m.node.appendLocalLogUnlocked commandData true).1)
    (hsnap : m.node.lastSnapshotIndex ≤ m.node.lastLogIndexLocked) :
    ProposalInv H members
      ⟨commandData, m.node.currentTerm, m.node.lastLogIndexLocked + 1, .replicating⟩ := by
  have hrep := h.node.represents
  have hlast : m'.node.log.getLast? =
      some ⟨m.node.lastLogIndexLocked + 1, m.node.currentTerm, commandData⟩ := by
    simp [hnode, RaftNode.appendLocalLogUnlocked]
  have hindex : mem.log.length = m.node.lastLogIndexLocked + 1 := by
    rw [← hrep.lastLogIndexLocked, RaftNode.lastLogIndexLocked, hlast]
  have hterm : mem.term = m.node.currentTerm := by
    rw [← hrep.term]
    simp [hnode, RaftNode.appendLocalLogUnlocked]
  have hboundary : mem.snap = m.node.lastSnapshotIndex := by
    rw [← hrep.snapIndex]
    simp [hnode, RaftNode.appendLocalLogUnlocked]
  have hlog : mem.log = H.leaderLog mem.term := by
    refine (h.leader ?_).1.log
    simpa [hnode, RaftNode.appendLocalLogUnlocked] using hrole
  refine ⟨Nat.succ_pos _, ?_, fun hpassed => by cases hpassed⟩
  rw [← hterm, ← hlog, ← hindex, ← List.getLast?_eq_getElem?]
  rw [hrep.stores.getLast?, if_neg (by omega)] at hlast
  rw [hlast, hindex, hterm]
  rfl

theorem ProposalsInv.appendProposal {Image : Type} {m : Member σ Image}
    {mem mem' dur dur' : Replica LogRecord} {commandData : Bytes} {saved : Bool}
    (h : ProposalsInv H' members m) (hp : ProcessInv H members q m mem dur)
    (hp' : ProcessInv H' members q (m.appendProposal commandData saved) mem' dur')
    (hrole : m.node.role = .leader) :
    ProposalsInv H' members (m.appendProposal commandData saved) := by
  have hsnap : m.node.lastSnapshotIndex ≤ m.node.lastLogIndexLocked := by
    rw [hp.node.represents.snapIndex, hp.node.represents.lastLogIndexLocked]
    exact hp.node.represents.stores.snap_le
  cases saved with
  | false => exact h
  | true =>
    have hnew := hp'.appended m commandData hrole
      (by simp [Member.appendProposal, RaftNode.appendLocalLogUnlocked]) hsnap
    intro p hmem
    simp only [Member.appendProposal, RaftNode.appendLocalLogUnlocked, if_true, Nat.succ_ne_zero,
      if_false, List.mem_append, List.mem_singleton] at hmem
    rcases hmem with hold | rfl
    · exact h p hold
    · exact hnew

theorem ProposalsInv.proposal {Image : Type} {m m' : Member σ Image} {mem dur : Replica LogRecord}
    {k : Nat} {step : ProposeStep} (h : ProposalsInv H cfg.members m) (hq : q ∈ cfg.ids)
    (hpeers : m.node.peers = cfg.peers q) (hprocess : ProcessInv H cfg.members q m mem dur)
    (hconfirms : m.confirmsOwn (.proposal k step) = true)
    (hstep : m.proposal k step = some m') : ProposalsInv H cfg.members m' := by
  unfold Member.proposal at hstep
  split at hstep
  · cases hstep
  · rename_i p hk
    obtain ⟨⟨node, phase⟩, hmoved, rfl⟩ := Option.map_eq_some_iff.mp hstep
    have hp := h p (List.mem_of_getElem? hk)
    intro p' hmem
    rcases List.mem_or_eq_of_mem_set hmem with hold | rfl
    · exact h p' hold
    · refine ⟨hp.pos, hp.entry, fun hpassed => ?_⟩
      rcases Member.proposeStep_passed hmoved hpassed with hbefore | ⟨rfl, hreached⟩
      · exact hp.chosen hbefore
      · -- the section that takes the slot for replicated
        simp only [Member.confirmsOwn, hk, hmoved, Option.all_some, Bool.or_eq_true,
          Bool.and_eq_true, beq_iff_eq, bne_self_eq_false, Bool.false_eq_true, or_false]
          at hconfirms
        have hchosen :=
          hprocess.chosen_of_replicated hq hpeers hp hconfirms.1 hconfirms.2 hreached
        exact hchosen

/-- The calls of a member after one of its steps, whose process the longer history fits. -/
theorem ProposalsInv.memberStep {m m' : Member σ sm.Image} {net : List (Message sm.Image)}
    {outbox : Member.Outbox sm.Image} {action : Action} (h : ProposalsInv H cfg.members m)
    (hbefore : Before cfg H q m net) (hext : History.Extends H H')
    (hafter : MemberInv H' cfg.members q m') (hconfirms : m.confirmsOwn action = true)
    (hstep : CquptRaft.memberStep sm cfg q net m action = some (m', outbox)) :
    ProposalsInv H' cfg.members m' := by
  have hgrown : ∀ {m₁ : Member σ sm.Image}, ProposalsInv H cfg.members m₁ →
      ProposalsInv H' cfg.members m₁ := fun h₁ p hp => (h₁ p hp).mono hbefore.valid hext
  rcases memberStep_cases hstep with ⟨hup, hstep⟩ | ⟨-, rfl, _, _, _, -, rfl⟩
  · by_cases hother : action.proposes = false
    · refine hgrown fun p hp => h p ?_
      rwa [← act_proposals hother hstep]
    obtain ⟨mem, dur, hp⟩ := hbefore.member.process hup
    cases action with
    | restart _ _ _ => cases hstep
    | propose command saved =>
      cases hstep
      unfold Member.propose at hafter ⊢
      split at hafter <;> rename_i hcond
      · rw [if_pos hcond]
        obtain ⟨mem', dur', hp'⟩ := hafter.process (by grind [Member.appendProposal])
        exact (hgrown h).appendProposal hp hp' hcond.2.1
      · rw [if_neg hcond]
        exact hgrown h
    | proposeNoOp saved =>
      simp only [act] at hstep
      split at hstep <;> cases hstep
      unfold Member.proposeNoOp at hafter ⊢
      simp only at hafter ⊢
      have hp₁ : ProcessInv H cfg.members q { m with noOpCalls := m.noOpCalls - 1 } mem dur :=
        hp.same rfl rfl rfl rfl rfl rfl
      have h₁ : ProposalsInv H cfg.members { m with noOpCalls := m.noOpCalls - 1 } := h
      split at hafter <;> rename_i hcond
      · rw [if_pos hcond]
        obtain ⟨mem', dur', hp'⟩ := hafter.process (by grind [Member.appendProposal])
        exact (hgrown h₁).appendProposal hp₁ hp' hcond.2
      · rw [if_neg hcond]
        exact hgrown h₁
    | proposal k step =>
      obtain ⟨_, hmoved, heq⟩ := Option.map_eq_some_iff.mp hstep
      cases heq
      exact hgrown (h.proposal hbefore.mem_ids hbefore.votes.peers hp hconfirms hmoved)
    | _ => exact absurd rfl hother
  · refine hgrown ?_
    unfold Member.restart
    split
    · exact h
    · exact fun p hp => absurd hp List.not_mem_nil

/-- The step is guarded and confirms no proposal outside the leadership it was made in. -/
def Cluster.ConfirmsOwn {Image : Type} (c : Cluster σ Image) (id : NodeId) (action : Action) :
    Prop :=
  c.Guarded id action ∧ (c.members id).confirmsOwn action = true

instance {Image : Type} (c : Cluster σ Image) (id : NodeId) (action : Action) :
    Decidable (c.ConfirmsOwn id action) := inferInstanceAs (Decidable (_ ∧ _))

/-- Along a run whose steps confirm own proposals only there is one sequence of committed
entries, and a `Propose` call that has returned `kOk` has returned the place of its command in
it. -/
theorem acknowledged_committed (sm : IStateMachine σ) (cfg : ClusterConfig)
    {trace : List (Cluster σ sm.Image)}
    (hrun : List.IsChain (Cluster.StepWhen sm cfg Cluster.ConfirmsOwn)
      (Cluster.init sm cfg :: trace)) :
    ∃ committed, IsCommittedSequence cfg (Cluster.init sm cfg :: trace) committed ∧
      ∀ c ∈ Cluster.init sm cfg :: trace, ∀ id ∈ cfg.ids, ∀ p ∈ (c.members id).proposals,
        p.phase = .finished .ok → committed p.logIndex = ⟨p.logIndex, p.term, p.command⟩ := by
  have hstep : ∀ H (c c' : Cluster σ sm.Image),
      SimInv cfg H c ∧ (∀ id ∈ cfg.ids, ProposalsInv H cfg.members (c.members id)) →
      Cluster.StepWhen sm cfg Cluster.ConfirmsOwn c c' →
      ∃ H', History.Extends H H' ∧ SimInv cfg H' c' ∧
        ∀ id ∈ cfg.ids, ProposalsInv H' cfg.members (c'.members id) := by
    rintro H c c' ⟨hsim, hproposals⟩ ⟨id, action, ⟨hguard, hconfirms⟩, hmoved⟩
    obtain ⟨H', hext, hsim'⟩ := hsim.guardedStep ⟨id, action, hguard, hmoved⟩
    refine ⟨H', hext, hsim', fun p hp => ?_⟩
    obtain ⟨hid, m, outbox, hm, rfl⟩ := Cluster.step_cases hmoved
    by_cases hpid : p = id
    · subst hpid
      have hafter := hsim'.members p hp
      simp only [Function.update_self] at hafter ⊢
      exact (hproposals p hp).memberStep (hsim.before hp) hext hafter hconfirms hm
    · simp only [Function.update_of_ne hpid]
      exact fun r hr => (hproposals p hp r hr).mono hsim.valid hext
  obtain ⟨H, -, ⟨_, hlast, -⟩, hall⟩ := exists_history_of_isChain hstep hrun
    ⟨SimInv.init, fun _ _ => by simp [ProposalsInv, Cluster.init, Member.fresh]⟩
  refine ⟨H.chosenEntry cfg.members, fun c hc p hp i r h0 hr => ?_,
    fun c hc id hid p hp hok => ?_⟩
  · obtain ⟨G, hext, hsim, -⟩ := hall c hc
    exact hsim.commitsAt_eq hlast.valid hext hp h0 hr
  · obtain ⟨G, hext, hsim, hproposals⟩ := hall c hc
    exact (hproposals id hid p hp).chosenEntry_eq (by rw [hok]; rfl) hlast.valid hsim.valid hext

/-! ## A slot that changes hands

Member 1 leads term 1 and proposes a write for slot 2, which it sends to nobody. Member 2 wins
term 2 with member 3 and fills slot 2 with its no-op, on member 1 as well. Member 1 wins term 3
and commits with member 2 what is in slot 2. The first thread goes on and finds slot 2
replicated. -/

/-- The sections of a `Propose` thread that finds its slot replicated and applied. -/
def confirmSchedule (id : NodeId) (h entries : Nat) : List (NodeId × Action) :=
  [(id, .proposal h .head), (id, .proposal h .count), (id, .proposal h (.advance true))] ++
  applySchedule id entries ++ [(id, .proposal h .applied), (id, .proposal h .finish)]

def proposeSchedule : List (NodeId × Action) :=
  electionSchedule ++ [(1, .proposeNoOp true), (1, .propose (setCommand "v") true)] ++
  shipSchedule 1 2 3 ++ confirmSchedule 1 1 2

def overwrittenSchedule : List (NodeId × Action) :=
  electionSchedule ++ bootSchedule 3 ++ [(1, .proposeNoOp true)] ++ shipSchedule 1 2 3 ++
  [(1, .propose (setCommand "v") true), (2, .startElection true), (3, .onRequestVote 6 true true),
    (2, .onVoteResponse 7 true), (2, .countVote 2), (2, .onElectionWon 2),
    (2, .proposeNoOp true)] ++ shipSchedule 2 1 8 ++
  [(1, .startElection true), (2, .onRequestVote 10 true true), (1, .onVoteResponse 12 true),
    (1, .countVote 3), (1, .onElectionWon 3), (1, .proposeNoOp true)] ++ shipSchedule 1 2 13 ++
  confirmSchedule 1 1 3

theorem acknowledged_committed_three :
    ∃ trace, List.IsChain (Cluster.StepWhen kvStateMachine threeMembers Cluster.ConfirmsOwn)
        (Cluster.init kvStateMachine threeMembers :: trace) ∧
      ∃ committed, IsCommittedSequence threeMembers
          (Cluster.init kvStateMachine threeMembers :: trace) committed ∧
        committed 2 = ⟨2, 1, (setCommand "v").serialize⟩ := by
  have hexec : (Cluster.execWhen kvStateMachine threeMembers Cluster.ConfirmsOwn
      (Cluster.init kvStateMachine threeMembers) proposeSchedule).any (fun c =>
        decide (⟨(setCommand "v").serialize, 1, 2, .finished .ok⟩ ∈ (c.members 1).proposals)) =
      true := by
    decide +kernel
  obtain ⟨c, hc, hP⟩ := (Option.any_eq_true _ _).mp hexec
  obtain ⟨trace, hchain, hmem⟩ := exists_trace (Cluster.execWhen_run hc)
  obtain ⟨committed, hsequence, hall⟩ := acknowledged_committed kvStateMachine threeMembers hchain
  exact ⟨trace, hchain, committed, hsequence,
    hall c hmem 1 (by decide) _ (of_decide_eq_true hP) rfl⟩

/-- The thread returns `kOk` for its write, and slot 2 is committed with the no-op of term 2. -/
theorem acknowledged_overwritten :
    ¬ ∀ trace, List.IsChain (Cluster.Step kvStateMachine threeMembers)
        (Cluster.init kvStateMachine threeMembers :: trace) →
      ∃ committed, IsCommittedSequence threeMembers
          (Cluster.init kvStateMachine threeMembers :: trace) committed ∧
        ∀ c ∈ Cluster.init kvStateMachine threeMembers :: trace, ∀ id ∈ threeMembers.ids,
          ∀ p ∈ (c.members id).proposals, p.phase = .finished .ok →
            committed p.logIndex = ⟨p.logIndex, p.term, p.command⟩ := by
  intro hmatches
  obtain ⟨c, hc, hok, hcommits⟩ := Cluster.exists_of_exec kvStateMachine threeMembers
    (Cluster.init kvStateMachine threeMembers) overwrittenSchedule
    (fun c => ⟨(setCommand "v").serialize, 1, 2, .finished .ok⟩ ∈ (c.members 1).proposals ∧
      c.CommitsAt 1 2 ⟨2, 2, kInternalNoOpCommand⟩)
    (by decide +kernel)
  obtain ⟨trace, hchain, hmem⟩ := exists_trace (Cluster.exec_run hc)
  obtain ⟨committed, hsequence, hall⟩ := hmatches trace hchain
  have hslot := hsequence c hmem 1 (by decide) 2 _ (by decide) hcommits
  rw [hall c hmem 1 (by decide) _ hok rfl] at hslot
  exact absurd hslot (by decide)

end CquptRaft
