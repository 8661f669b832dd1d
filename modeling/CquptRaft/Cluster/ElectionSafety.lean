import CquptRaft.Cluster.Cluster
import CquptRaft.Node.Votes

/-!
# Election safety

Every vote that was ever durable is kept in a ghost relation `V`. The invariant ties to it
the durable ballot, the ballot in memory, the granted responses in flight and the counter of
each campaign: a campaign never counts a voter twice and never counts one that has not cast
its vote. A leader then has a majority of `V`, and a term has at most one.
-/

namespace CquptRaft

open Voting

variable {σ : Type} {sm : IStateMachine σ} {cfg : ClusterConfig}

/-! ## Steps that leave the campaigns alone -/

def Payload.isVote {Image : Type} : Payload Image → Bool
  | .voteRequest _ | .voteResponse _ => true
  | _ => false

def Action.votes : Action → Bool
  | .restart _ _ _ | .crash | .startElection _ | .onRequestVote _ _ _ | .onVoteResponse _ _
  | .countVote _ | .onElectionWon _ => true
  | _ => false

/-- The fields of a member that its campaigns use. -/
structure SameCampaigns {Image : Type} (m m' : Member σ Image) : Prop where
  up : m'.up = m.up
  voteCalls : m'.voteCalls = m.voteCalls
  granted : m'.granted = m.granted
  votes : m'.votes = m.votes
  wonCalls : m'.wonCalls = m.wonCalls

/-- A step of a member that has no part in an election. -/
structure Quiet {Image : Type} (m m' : Member σ Image) (outbox : Member.Outbox Image) :
    Prop where
  node : VotesKept m.node m'.node
  campaigns : SameCampaigns m m'
  outbox : ∀ message ∈ outbox, message.payload.isVote = false

namespace Quiet

variable {Image : Type} {m m' : Member σ Image}

theorem silent (hnode : VotesKept m.node m'.node) (hsame : SameCampaigns m m') :
    Quiet m m' [] := ⟨hnode, hsame, by simp⟩

theorem one {message : Message Image} (hnode : VotesKept m.node m'.node)
    (hsame : SameCampaigns m m') (hmessage : message.payload.isVote = false) :
    Quiet m m' [message] := ⟨hnode, hsame, by simpa using hmessage⟩

end Quiet

namespace Member

variable {Image : Type} {m m' : Member σ Image} {outbox : Outbox Image}

theorem receive_mem {net : List (Message Image)} {k : Nat} {accepts : CallId → Bool}
    {message : Message Image} (h : receive net k accepts = some message) :
    message ∈ net ∧ accepts message.call = true := by
  obtain ⟨hk, hacc⟩ := Option.filter_eq_some_iff.mp h
  exact ⟨List.mem_of_getElem? hk, hacc⟩

theorem appendProposal_quiet (commandData : Bytes) (saved : Bool) :
    Quiet m (m.appendProposal commandData saved) [] := by
  have hnode := m.node.appendLocalLogUnlocked_votesKept commandData saved
  unfold appendProposal
  split
  rename_i node index heq
  rw [heq] at hnode
  split <;> exact .silent hnode ⟨rfl, rfl, rfl, rfl, rfl⟩

theorem proposeNoOp_quiet (saved : Bool) : Quiet m (m.proposeNoOp saved) [] := by
  unfold proposeNoOp
  simp only
  split
  · obtain ⟨hnode, hsame, -⟩ :=
      appendProposal_quiet (m := { m with noOpCalls := m.noOpCalls - 1 }) kInternalNoOpCommand saved
    exact .silent hnode ⟨hsame.up, hsame.voteCalls, hsame.granted, hsame.votes, hsame.wonCalls⟩
  · exact .silent .refl ⟨rfl, rfl, rfl, rfl, rfl⟩

theorem propose_quiet (limits : KvRequestLimits) (command : Command) (saved : Bool) :
    Quiet m (m.propose limits command saved) [] := by
  unfold propose
  split
  · exact appendProposal_quiet _ saved
  · exact .silent .refl ⟨rfl, rfl, rfl, rfl, rfl⟩

/-- The sections of a `Propose` thread that touch the node. -/
theorem proposeStep_cases {node node' : RaftNode} {p : Proposal} {step : ProposeStep}
    {phase : ProposePhase} (h : proposeStep node p step = some (node', phase)) :
    node' = node ∨ (∃ saved, node' = node.advanceCommitIndexUnlocked saved) ∨
      node' = node.applyPick.1 := by
  cases step with
  | advance saved =>
    simp only [proposeStep] at h
    split at h <;> cases h
    exact .inr (.inl ⟨saved, rfl⟩)
  | applied =>
    simp only [proposeStep] at h
    split at h
    · rename_i heq
      cases h
      exact .inr (.inr (by rw [heq]))
    · cases h
  | _ =>
    simp only [proposeStep] at h
    (repeat' split at h) <;> first | cases h; exact .inl rfl | cases h

theorem proposeStep_votesKept {node node' : RaftNode} {p : Proposal} {step : ProposeStep}
    {phase : ProposePhase} (h : proposeStep node p step = some (node', phase)) :
    VotesKept node node' := by
  obtain rfl | ⟨saved, rfl⟩ | rfl := proposeStep_cases h
  · exact .refl
  · exact node.advanceCommitIndexUnlocked_votesKept saved
  · exact node.applyPick_votesKept

theorem proposal_quiet {k : Nat} {step : ProposeStep} (h : m.proposal k step = some m') :
    Quiet m m' [] := by
  unfold proposal at h
  split at h
  · cases h
  · obtain ⟨⟨node, phase⟩, hstep, rfl⟩ := Option.map_eq_some_iff.mp h
    exact .silent (proposeStep_votesKept hstep) ⟨rfl, rfl, rfl, rfl, rfl⟩

theorem replicateOnce_quiet {peer : NodeId} (h : m.replicateOnce peer = some (m', outbox)) :
    Quiet m m' outbox := by
  have hnode := m.node.buildAppendEntriesRequest_votesKept peer m.node.currentTerm
  unfold replicateOnce at h
  split at h
  · split at h
    · cases h
    · rename_i heq
      cases h
      rw [heq] at hnode
      exact .silent hnode ⟨rfl, rfl, rfl, rfl, rfl⟩
    · rename_i heq
      cases h
      rw [heq] at hnode
      exact .one hnode ⟨rfl, rfl, rfl, rfl, rfl⟩ rfl
  · cases h

theorem readBoundary_quiet {peer : NodeId} (h : m.readBoundary peer = some m') :
    Quiet m m' [] := by
  unfold readBoundary at h
  split at h
  · split at h <;> cases h <;> exact .silent .refl ⟨rfl, rfl, rfl, rfl, rfl⟩
  · cases h

theorem sendSnapshot_quiet {peer : NodeId} (h : m.sendSnapshot peer = some (m', outbox)) :
    Quiet m m' outbox := by
  unfold sendSnapshot at h
  split at h
  · split at h
    · cases h
      exact .silent .refl ⟨rfl, rfl, rfl, rfl, rfl⟩
    · cases h
      exact .one .refl ⟨rfl, rfl, rfl, rfl, rfl⟩ rfl
  · cases h

theorem onInstallSnapshot_quiet (m : Member σ Image) (enabled : Bool) (call : CallId)
    (request : InstallSnapshotRequest Image) (saved : Bool) :
    Quiet m (m.onInstallSnapshot enabled call request saved).1
      (m.onInstallSnapshot enabled call request saved).2 := by
  have hnode := m.node.installCheck_votesKept enabled request saved
  unfold onInstallSnapshot
  split
  · rename_i heq
    rw [heq] at hnode
    exact .one hnode ⟨rfl, rfl, rfl, rfl, rfl⟩ rfl
  · rename_i heq
    rw [heq] at hnode
    exact .silent hnode ⟨rfl, rfl, rfl, rfl, rfl⟩

theorem installWrite_quiet {k : Nat} {ok : Bool} (h : m.installWrite k ok = some (m', outbox)) :
    Quiet m m' outbox := by
  unfold installWrite at h
  split at h
  · split at h
    · split at h <;> cases h
      · exact .silent .refl ⟨rfl, rfl, rfl, rfl, rfl⟩
      · exact .one .refl ⟨rfl, rfl, rfl, rfl, rfl⟩ rfl
    · cases h
  · cases h

theorem installSave_quiet {k : Nat} {outcome : SaveOutcome}
    (h : m.installSave k outcome = some (m', outbox)) : Quiet m m' outbox := by
  unfold installSave at h
  split at h
  · split at h
    · split at h <;> cases h
      · exact .silent .refl ⟨rfl, rfl, rfl, rfl, rfl⟩
      · exact .one .refl ⟨rfl, rfl, rfl, rfl, rfl⟩ rfl
    · cases h
  · cases h

theorem installLoad_quiet {m m' : Member σ sm.Image} {outbox : Outbox sm.Image} {k : Nat}
    {ok : Bool} (h : m.installLoad sm k ok = some (m', outbox)) : Quiet m m' outbox := by
  unfold installLoad at h
  split at h
  · split at h
    · split at h <;> cases h
      · exact .silent .refl ⟨rfl, rfl, rfl, rfl, rfl⟩
      · exact .one .refl ⟨rfl, rfl, rfl, rfl, rfl⟩ rfl
    · cases h
  · cases h

theorem installFinish_quiet {saved : Bool} (h : m.installFinish saved = some (m', outbox)) :
    Quiet m m' outbox := by
  unfold installFinish at h
  split at h
  · rename_i handler _
    have hnode := m.node.installFinish_votesKept handler.request handler.response saved
    cases h
    exact .one hnode ⟨rfl, rfl, rfl, rfl, rfl⟩ rfl
  · cases h

theorem applyPick_quiet (h : m.applyPick = some m') : Quiet m m' [] := by
  have hnode := m.node.applyPick_votesKept
  unfold applyPick at h
  split at h
  · split at h
    all_goals
      rename_i heq
      rw [heq] at hnode
      cases h
      exact .silent hnode ⟨rfl, rfl, rfl, rfl, rfl⟩
  · cases h

theorem applyRun_quiet {m m' : Member σ sm.Image} (h : m.applyRun sm = some m') :
    Quiet m m' [] := by
  unfold applyRun at h
  split at h
  · split at h <;> cases h <;> exact .silent .refl ⟨rfl, rfl, rfl, rfl, rfl⟩
  · cases h

theorem applyFinish_quiet {saved : Bool} (h : m.applyFinish saved = some m') :
    Quiet m m' [] := by
  unfold applyFinish at h
  split at h
  · cases h
    exact .silent (m.node.applyFinish_votesKept _ saved) ⟨rfl, rfl, rfl, rfl, rfl⟩
  · cases h

theorem workerCapture_quiet {m m' : Member σ sm.Image} {ok : Bool}
    (h : m.workerCapture sm ok = some m') : Quiet m m' [] := by
  unfold workerCapture at h
  split at h <;> cases h
  exact .silent .refl ⟨rfl, rfl, rfl, rfl, rfl⟩

theorem workerSave_quiet {outcome : SaveOutcome} (h : m.workerSave outcome = some m') :
    Quiet m m' [] := by
  unfold workerSave at h
  split at h <;> cases h
  exact .silent .refl ⟨rfl, rfl, rfl, rfl, rfl⟩

theorem workerCompact_quiet {saved : Bool} (h : m.workerCompact saved = some m') :
    Quiet m m' [] := by
  unfold workerCompact at h
  split at h <;> cases h
  exact .silent (m.node.compactAfterSnapshot_votesKept _ _ saved) ⟨rfl, rfl, rfl, rfl, rfl⟩

end Member

theorem act_quiet {id : NodeId} {net : List (Message sm.Image)} {m m' : Member σ sm.Image}
    {action : Action} {outbox : Member.Outbox sm.Image} (hquiet : action.votes = false)
    (h : act sm cfg id net m action = some (m', outbox)) : Quiet m m' outbox := by
  cases action with
  | restart _ _ _ | crash | startElection _ | onRequestVote _ _ _ | onVoteResponse _ _
  | countVote _ | onElectionWon _ => cases hquiet
  | start | stop | prune _ =>
    cases h
    exact .silent (.of_eq rfl rfl rfl rfl rfl rfl) ⟨rfl, rfl, rfl, rfl, rfl⟩
  | persist saved =>
    simp only [act] at h
    split at h
    · cases h
    · cases h
      exact .silent (.persist .refl saved) ⟨rfl, rfl, rfl, rfl, rfl⟩
  | proposeNoOp saved =>
    simp only [act] at h
    split at h
    · cases h
      exact Member.proposeNoOp_quiet saved
    · cases h
  | propose command saved =>
    cases h
    exact Member.propose_quiet _ command saved
  | proposal k step =>
    obtain ⟨_, hstep, heq⟩ := Option.map_eq_some_iff.mp h
    cases heq
    exact Member.proposal_quiet hstep
  | replicateOnce peer => exact Member.replicateOnce_quiet h
  | appendResponse peer k saved =>
    simp only [act] at h
    split at h
    · obtain ⟨message, -, h⟩ := Option.bind_eq_some_iff.mp h
      unfold Member.deliverAppendResponse at h
      split at h <;> cases h
      exact .silent (m.node.handleAppendEntriesResponse_votesKept _ _ _ saved)
        ⟨rfl, rfl, rfl, rfl, rfl⟩
    · cases h
  | installResponse peer k saved =>
    simp only [act] at h
    split at h
    · obtain ⟨message, -, h⟩ := Option.bind_eq_some_iff.mp h
      unfold Member.deliverInstallResponse at h
      split at h <;> cases h
      exact .silent (m.node.handleInstallSnapshotResponse_votesKept _ _ _ _ saved)
        ⟨rfl, rfl, rfl, rfl, rfl⟩
    · cases h
  | appendFailed peer | installFailed peer =>
    simp only [act] at h
    split at h <;> cases h
    exact .silent .refl ⟨rfl, rfl, rfl, rfl, rfl⟩
  | finishRpc peer =>
    simp only [act] at h
    split at h <;> cases h <;> exact .silent .refl ⟨rfl, rfl, rfl, rfl, rfl⟩
  | readBoundary peer =>
    obtain ⟨_, hstep, heq⟩ := Option.map_eq_some_iff.mp h
    cases heq
    exact Member.readBoundary_quiet hstep
  | sendSnapshot peer => exact Member.sendSnapshot_quiet h
  | onAppendEntries k termSaved logSaved commitSaved =>
    obtain ⟨message, -, h⟩ := Option.bind_eq_some_iff.mp h
    unfold Member.deliverAppendEntries at h
    split at h
    · rename_i request _
      have hnode := m.node.onAppendEntries_votesKept request termSaved logSaved commitSaved
      cases h
      exact .one hnode ⟨rfl, rfl, rfl, rfl, rfl⟩ rfl
    · cases h
  | onInstallSnapshot k saved =>
    obtain ⟨message, -, h⟩ := Option.bind_eq_some_iff.mp h
    unfold Member.deliverInstallSnapshot at h
    split at h
    · rename_i request _
      have hquiet := m.onInstallSnapshot_quiet (cfg.snapshot id).enabled message.call request saved
      rwa [Option.some.inj h] at hquiet
    · cases h
  | installWrite k ok => exact Member.installWrite_quiet h
  | installSave k outcome => exact Member.installSave_quiet h
  | installLoad k ok => exact Member.installLoad_quiet h
  | installFinish saved => exact Member.installFinish_quiet h
  | applyAcquire =>
    simp only [act] at h
    split at h <;> cases h
    exact .silent .refl ⟨rfl, rfl, rfl, rfl, rfl⟩
  | applyPick =>
    obtain ⟨_, hstep, heq⟩ := Option.map_eq_some_iff.mp h
    cases heq
    exact Member.applyPick_quiet hstep
  | applyRun =>
    obtain ⟨_, hstep, heq⟩ := Option.map_eq_some_iff.mp h
    cases heq
    exact Member.applyRun_quiet hstep
  | applyFinish saved =>
    obtain ⟨_, hstep, heq⟩ := Option.map_eq_some_iff.mp h
    cases heq
    exact Member.applyFinish_quiet hstep
  | onSnapshotTimer =>
    simp only [act] at h
    split at h
    · split at h <;> cases h
      exact .silent .refl ⟨rfl, rfl, rfl, rfl, rfl⟩
    · cases h
  | workerCapture ok =>
    obtain ⟨_, hstep, heq⟩ := Option.map_eq_some_iff.mp h
    cases heq
    exact Member.workerCapture_quiet hstep
  | workerSave outcome =>
    obtain ⟨_, hstep, heq⟩ := Option.map_eq_some_iff.mp h
    cases heq
    exact Member.workerSave_quiet hstep
  | workerCompact saved =>
    obtain ⟨_, hstep, heq⟩ := Option.map_eq_some_iff.mp h
    cases heq
    exact Member.workerCompact_quiet hstep

/-! ## The invariant -/

def ClusterConfig.members (cfg : ClusterConfig) : Finset NodeId := cfg.ids.toFinset

/-- The members whose vote in the campaign of term `T` has been taken into account. -/
noncomputable def counted (cfg : ClusterConfig) (V : Votes NodeId) (q : NodeId)
    (voteCalls : List CallId) (T : Nat) : Finset NodeId :=
  open Classical in
  cfg.members.filter fun p => V p T q ∧ (p = q ∨ (⟨q, p, T, 0⟩ : CallId) ∉ voteCalls)

/-- The campaigns of a process `m` of member `q`. -/
structure Campaigns {Image : Type} (cfg : ClusterConfig) (V : Votes NodeId) (q : NodeId)
    (m : Member σ Image) : Prop where
  nodup : m.voteCalls.Nodup
  calls : ∀ call ∈ m.voteCalls, call.caller = q ∧ call.callee ∈ cfg.peers q ∧ call.seq = 0 ∧
    call.term ≤ m.node.currentTerm
  granted : ∀ T ∈ m.granted, T ≤ m.node.currentTerm
  votes : ∀ T, m.votes T + m.granted.count T ≤ (counted cfg V q m.voteCalls T).card
  wonCalls : ∀ T ∈ m.wonCalls, V.Won cfg.members T q
  leader : m.node.role = .leader → V.Won cfg.members m.node.currentTerm q

/-- What member `q` knows about votes. -/
structure MemberVotes {Image : Type} (cfg : ClusterConfig) (V : Votes NodeId) (q : NodeId)
    (m : Member σ Image) : Prop where
  nodeId : m.node.nodeId = q
  peers : m.node.peers = cfg.peers q
  accounted : Accounted V (-1) q m.node.durable
  holds : m.up = true → Holds V (-1) q m.node.durable m.node.ballot
  campaigns : m.up = true → Campaigns cfg V q m

/-- What a message in flight says about votes. -/
def MessageVotes {Image : Type} (V : Votes NodeId) (message : Message Image) : Prop :=
  match message.payload with
  | .voteRequest request =>
    request.candidateId = message.call.caller ∧ request.term = message.call.term ∧
      message.call.caller ≠ -1
  | .voteResponse response =>
    response.voteGranted = true → V message.call.callee message.call.term message.call.caller
  | _ => True

structure VoteInv (cfg : ClusterConfig) (V : Votes NodeId) (c : Cluster σ sm.Image) : Prop where
  unique : V.Unique
  members : ∀ q ∈ cfg.ids, MemberVotes cfg V q (c.members q)
  net : ∀ message ∈ c.net, MessageVotes V message

/-! ## Growing votes -/

theorem ClusterConfig.quorum_eq {q : NodeId} (hq : q ∈ cfg.ids) {n : RaftNode}
    (hpeers : n.peers = cfg.peers q) : n.quorum = cfg.members.card / 2 + 1 := by
  have hcard : cfg.members.card = cfg.ids.length := List.toFinset_card_of_nodup cfg.nodup
  have hpeer : cfg.peers q = cfg.ids.erase q := by
    rw [cfg.nodup.erase_eq_filter]
    exact List.filter_congr (fun x _ => by simp [bne, BEq.beq])
  have hlen := List.length_erase_add_one hq
  rw [RaftNode.quorum, hpeers, hpeer, hlen, hcard]

section Mono

variable {V W : Votes NodeId} {q : NodeId} {Image : Type} {m m' : Member σ Image}

theorem counted_mono {calls calls' : List CallId} {T : Nat} (hVW : ∀ p, V p T q → W p T q)
    (hcalls : ∀ call ∈ calls', call.term = T → call ∈ calls) :
    counted cfg V q calls T ⊆ counted cfg W q calls' T := by
  intro p hp
  simp only [counted, Finset.mem_filter] at hp ⊢
  exact ⟨hp.1, hVW p hp.2.1, hp.2.2.imp id fun h hmem => h (hcalls _ hmem rfl)⟩

theorem counted_subset {calls : List CallId} {T : Nat} :
    counted cfg V q calls T ⊆ cfg.members := by
  intro p hp
  simp only [counted, Finset.mem_filter] at hp
  exact hp.1

/-- Enough counted votes win the term. -/
theorem won_of_counted (calls : List CallId) {T : Nat}
    (h : cfg.members.card / 2 + 1 ≤ (counted cfg V q calls T).card) :
    V.Won cfg.members T q := by
  refine ⟨_, ⟨counted_subset, h⟩, fun p hp => ?_⟩
  simp only [counted, Finset.mem_filter] at hp
  exact hp.2.1

theorem Campaigns.mono (h : Campaigns cfg V q m) (hVW : ∀ p T a, V p T a → W p T a) :
    Campaigns cfg W q m where
  nodup := h.nodup
  calls := h.calls
  granted := h.granted
  votes T := (h.votes T).trans
    (Finset.card_le_card (counted_mono (fun p => hVW p T q) fun _ h _ => h))
  wonCalls T hT := (h.wonCalls T hT).mono fun p => hVW p T q
  leader hrole := (h.leader hrole).mono fun p => hVW p _ q

/-- A step that leaves the campaigns alone keeps them counted. -/
theorem Campaigns.quiet (h : Campaigns cfg V q m) (hnode : VotesKept m.node m'.node)
    (hsame : SameCampaigns m m') : Campaigns cfg V q m' where
  nodup := hsame.voteCalls ▸ h.nodup
  calls call hcall := by
    obtain ⟨h₁, h₂, h₃, h₄⟩ := h.calls call (hsame.voteCalls ▸ hcall)
    exact ⟨h₁, h₂, h₃, h₄.trans hnode.ballot.fst_le⟩
  granted T hT := (h.granted T (hsame.granted ▸ hT)).trans hnode.ballot.fst_le
  votes T := by
    rw [hsame.votes, hsame.granted, hsame.voteCalls]
    exact h.votes T
  wonCalls T hT := h.wonCalls T (hsame.wonCalls ▸ hT)
  leader hrole := by
    obtain ⟨hleader, hterm⟩ := hnode.leader hrole
    rw [hterm]
    exact h.leader hleader

/-- Votes of another member do not touch what `q` knows of itself. -/
theorem MemberVotes.other {id : NodeId} {durable : Option (Nat × NodeId)}
    (h : MemberVotes cfg V q m) (hne : q ≠ id) :
    MemberVotes cfg (V.record (-1) id durable) q m := by
  have hback : ∀ {T a}, V.record (-1) id durable q T a → V q T a := by
    rintro T a (h | ⟨heq, -⟩)
    · exact h
    · exact absurd heq hne
  refine ⟨h.nodeId, h.peers, ⟨fun T a hv => h.accounted.ne (hback hv),
    fun T a hv => h.accounted.covers (hback hv), fun T a hd hx =>
      .inl (h.accounted.recorded hd hx)⟩,
    fun hup => ⟨(h.holds hup).ahead, fun hx => .inl ((h.holds hup).recorded hx)⟩,
    fun hup => (h.campaigns hup).mono fun p T a hv => .inl hv⟩

theorem MessageVotes.mono {message : Message Image} (h : MessageVotes V message)
    (hVW : ∀ p T a, V p T a → W p T a) : MessageVotes W message := by
  revert h
  unfold MessageVotes
  split
  · exact id
  · exact fun h hgranted => hVW _ _ _ (h hgranted)
  · exact id

theorem MessageVotes.of_not_isVote {message : Message Image}
    (h : message.payload.isVote = false) : MessageVotes V message := by
  unfold MessageVotes
  split
  · rename_i heq
    rw [heq] at h
    cases h
  · rename_i heq
    rw [heq] at h
    cases h
  · trivial

end Mono

/-! ## One step -/

section Step

variable {V : Votes NodeId} {q : NodeId} {Image : Type} {m m' : Member σ Image}
  {outbox : Member.Outbox Image}

/-- What a step of member `q` has to establish. -/
structure VotesStep (cfg : ClusterConfig) (V : Votes NodeId) (q : NodeId) (m' : Member σ Image)
    (outbox : Member.Outbox Image) : Prop where
  unique : (V.record (-1) q m'.node.durable).Unique
  member : MemberVotes cfg (V.record (-1) q m'.node.durable) q m'
  outbox : ∀ message ∈ outbox, MessageVotes (V.record (-1) q m'.node.durable) message

/-- A step that casts no vote adds none, whatever it does to the campaigns. -/
theorem MemberVotes.keep (hm : MemberVotes cfg V q m) (hup : m.up = true) (hV : V.Unique)
    (hnode : VotesKept m.node m'.node) (hcampaigns : m'.up = true → Campaigns cfg V q m')
    (hout : ∀ message ∈ outbox, MessageVotes V message) : VotesStep cfg V q m' outbox := by
  have hrecord := hm.accounted.record_eq (hm.holds hup) hnode.follows
  refine ⟨?_, ?_, ?_⟩ <;> rw [hrecord]
  · exact hV
  · exact ⟨hnode.nodeId.trans hm.nodeId, hnode.peers.trans hm.peers,
      hm.accounted.keep (hm.holds hup) hnode.follows,
      fun _ => (hm.holds hup).keep hnode.ballot hnode.follows, hcampaigns⟩
  · exact hout

theorem Quiet.votesStep (h : Quiet m m' outbox) (hm : MemberVotes cfg V q m)
    (hup : m.up = true) (hV : V.Unique) : VotesStep cfg V q m' outbox :=
  hm.keep hup hV h.node (fun _ => (hm.campaigns hup).quiet h.node h.campaigns)
    fun message hmem => .of_not_isVote (h.outbox message hmem)

/-- A step that casts a vote for `a`. The campaigns are settled with the new vote. -/
theorem MemberVotes.cast {a : NodeId} (hm : MemberVotes cfg V q m) (hup : m.up = true)
    (hV : V.Unique) (hnode : VoteCast m.node m'.node a)
    (hcampaigns : m'.up = true → Campaigns cfg (V.record (-1) q m'.node.durable) q m')
    (hout : ∀ message ∈ outbox, MessageVotes (V.record (-1) q m'.node.durable) message) :
    VotesStep cfg V q m' outbox := by
  have hdur : m'.node.durable = some (m'.node.currentTerm, a) := by
    rw [hnode.durable, hnode.ballot]
  refine ⟨?_, ⟨hnode.nodeId.trans hm.nodeId, hnode.peers.trans hm.peers, ?_, fun _ => ?_,
    hcampaigns⟩, hout⟩
  · rw [hdur]
    exact hV.cast (hm.holds hup) hm.accounted hnode.mayVote
  · rw [hdur]
    exact hm.accounted.cast (hm.holds hup) hnode.mayVote
  · rw [hdur, hnode.ballot]
    exact .cast

theorem Member.countVote_votesStep {T : Nat} (hT : T ∈ m.granted) (hq : q ∈ cfg.ids)
    (hm : MemberVotes cfg V q m) (hup : m.up = true) (hV : V.Unique) :
    VotesStep cfg V q (m.countVote T) [] := by
  have hc := hm.campaigns hup
  have hcount : 0 < m.granted.count T := List.count_pos_iff.mpr hT
  have hvotes : ∀ T', Function.update m.votes T (m.votes T + 1) T' + (m.granted.erase T).count T' ≤
      (counted cfg V q m.voteCalls T').card := by
    intro T'
    by_cases hTT' : T' = T
    · subst hTT'
      have := hc.votes T'
      rw [Function.update_self, List.count_erase_self]
      omega
    · rw [Function.update_of_ne hTT', List.count_erase_of_ne hTT']
      exact hc.votes T'
  unfold countVote
  simp only
  split
  · rename_i hquorum
    refine hm.keep hup hV (.of_eq rfl rfl rfl rfl rfl rfl) (fun _ => ⟨hc.nodup, hc.calls,
      fun T' hT' => hc.granted T' (List.mem_of_mem_erase hT'), hvotes, ?_, hc.leader⟩) (by simp)
    intro T' hT'
    rcases List.mem_cons.mp hT' with rfl | hT'
    · refine won_of_counted m.voteCalls ?_
      have := hc.votes T'
      have := hquorum.1
      rw [cfg.quorum_eq hq hm.peers] at this
      omega
    · exact hc.wonCalls T' hT'
  · exact hm.keep hup hV (.of_eq rfl rfl rfl rfl rfl rfl) (fun _ => ⟨hc.nodup, hc.calls,
      fun T' hT' => hc.granted T' (List.mem_of_mem_erase hT'), hvotes, hc.wonCalls, hc.leader⟩)
      (by simp)

theorem Member.onElectionWon_votesStep {T : Nat} (hT : T ∈ m.wonCalls)
    (hm : MemberVotes cfg V q m) (hup : m.up = true) (hV : V.Unique) :
    VotesStep cfg V q (m.onElectionWon T) [] := by
  have hc := hm.campaigns hup
  have hwon : ∀ T' ∈ m.wonCalls.erase T, V.Won cfg.members T' q :=
    fun T' hT' => hc.wonCalls T' (List.mem_of_mem_erase hT')
  have hcases := m.node.onElectionWon_cases T
  unfold onElectionWon
  split
  rename_i node won heq
  rw [heq] at hcases
  rcases hcases with rfl | ⟨-, hterm, rfl⟩
  · exact hm.keep hup hV .refl (fun _ => ⟨hc.nodup, hc.calls, hc.granted, hc.votes, hwon,
      hc.leader⟩) (by simp)
  · -- the new leader is the only change of role that is not a step down
    have hrecord : V.record (-1) q m.node.becomeLeaderLocked.durable = V :=
      hm.accounted.record_eq (hm.holds hup) (VotesKept.refl (n := m.node)).follows
    refine ⟨?_, ?_, by simp⟩
    · rw [show V.record (-1) q _ = V from hrecord]
      exact hV
    · rw [show V.record (-1) q _ = V from hrecord]
      exact ⟨hm.nodeId, hm.peers, hm.accounted, hm.holds, fun _ => ⟨hc.nodup, hc.calls,
        hc.granted, hc.votes, hwon, fun _ => hterm ▸ hc.wonCalls T hT⟩⟩

theorem Member.onVoteResponse_votesStep {call : CallId} {response : VoteResponse}
    {saved : Bool} (hcall : call ∈ m.voteCalls)
    (hvote : response.voteGranted = true → V call.callee call.term call.caller)
    (hm : MemberVotes cfg V q m) (hup : m.up = true) (hV : V.Unique) :
    VotesStep cfg V q (m.onVoteResponse call response saved) [] := by
  have hc := hm.campaigns hup
  obtain ⟨hcaller, hcallee, hseq, hterm⟩ := hc.calls call hcall
  have hself : call = ⟨q, call.callee, call.term, 0⟩ := by
    cases call
    simp_all
  have hnode := m.node.onVoteResponse_votesKept call.term response saved
  have hcounts := m.node.onVoteResponse_counts call.term response saved
  unfold onVoteResponse
  split
  rename_i node counts heq
  rw [heq] at hnode hcounts
  have hsub : ∀ other ∈ m.voteCalls.erase call, other ∈ m.voteCalls :=
    fun _ h => List.mem_of_mem_erase h
  refine hm.keep hup hV hnode (fun _ => ⟨hc.nodup.erase call, ?_, ?_, ?_, hc.wonCalls, ?_⟩)
    (by simp)
  · intro other hother
    obtain ⟨h₁, h₂, h₃, h₄⟩ := hc.calls other (hsub other hother)
    exact ⟨h₁, h₂, h₃, h₄.trans hnode.ballot.fst_le⟩
  · intro T hT
    have hT' : T = call.term ∨ T ∈ m.granted := by
      simp only at hT
      split at hT
      · exact List.mem_cons.mp hT
      · exact .inr hT
    rcases hT' with rfl | hT'
    · exact hterm.trans hnode.ballot.fst_le
    · exact (hc.granted T hT').trans hnode.ballot.fst_le
  · intro T
    have hold := hc.votes T
    have hgrow : counted cfg V q m.voteCalls T ⊆ counted cfg V q (m.voteCalls.erase call) T :=
      counted_mono (fun _ => id) fun other h _ => hsub other h
    simp only
    split
    · rename_i hyes
      by_cases hT : T = call.term
      · -- the callee joins the counted members
        subst hT
        have hnew : insert call.callee (counted cfg V q m.voteCalls call.term) ⊆
            counted cfg V q (m.voteCalls.erase call) call.term := by
          refine Finset.insert_subset ?_ hgrow
          simp only [counted, Finset.mem_filter]
          refine ⟨?_, hcaller ▸ hvote (hcounts hyes), .inr ?_⟩
          · exact List.mem_toFinset.mpr (List.mem_of_mem_filter hcallee)
          · rw [← hself]
            exact fun h => hc.nodup.not_mem_erase h
        have hout : call.callee ∉ counted cfg V q m.voteCalls call.term := by
          simp only [counted, Finset.mem_filter, not_and]
          rintro - - (heq | hno)
          · have := List.mem_filter.mp hcallee
            simp [heq] at this
          · rw [← hself] at hno
            exact hno hcall
        have := Finset.card_le_card hnew
        rw [Finset.card_insert_of_notMem hout] at this
        rw [List.count_cons_self]
        omega
      · rw [List.count_cons_of_ne (Ne.symm hT)]
        exact hold.trans (Finset.card_le_card hgrow)
    · exact hold.trans (Finset.card_le_card hgrow)
  · intro hrole
    obtain ⟨hleader, hsame⟩ := hnode.leader hrole
    simp only
    rw [hsame]
    exact hc.leader hleader

theorem Member.deliverRequestVote_votesStep {message : Message Image}
    {termSaved voteSaved : Bool} (hmessage : MessageVotes V message)
    (hcallee : message.call.callee = q) (hm : MemberVotes cfg V q m) (hup : m.up = true)
    (hV : V.Unique)
    (h : m.deliverRequestVote message termSaved voteSaved = some (m', outbox)) :
    VotesStep cfg V q m' outbox := by
  have hc := hm.campaigns hup
  unfold deliverRequestVote at h
  split at h
  · rename_i request hpayload
    simp only [MessageVotes, hpayload] at hmessage
    obtain ⟨hcandidate, hterm, hpos⟩ := hmessage
    have hcases := m.node.onRequestVote_cases request termSaved voteSaved
    split at h
    rename_i node response heq
    rw [heq] at hcases
    cases h
    rcases hcases with ⟨hno, hkept⟩ | ⟨hyes, hcast, htermEq⟩
    · refine hm.keep hup hV hkept (fun _ => hc.quiet hkept ⟨rfl, rfl, rfl, rfl, rfl⟩) ?_
      simp only [List.mem_singleton, forall_eq, MessageVotes]
      exact fun h => absurd (hno.symm.trans h) (by simp)
    · refine hm.cast hup hV hcast (fun _ => ?_) ?_
      · -- the campaigns stand as they were, with one more vote cast
        refine Campaigns.mono (V := V) ⟨hc.nodup, ?_, ?_, hc.votes, hc.wonCalls, ?_⟩
          fun p T a hv => .inl hv
        · intro call hcall
          obtain ⟨h₁, h₂, h₃, h₄⟩ := hc.calls call hcall
          exact ⟨h₁, h₂, h₃, h₄.trans hcast.le_term⟩
        · exact fun T hT => (hc.granted T hT).trans hcast.le_term
        · intro hrole
          obtain ⟨hleader, hsame⟩ := hcast.leader hrole
          simp only
          rw [hsame]
          exact hc.leader hleader
      · simp only [List.mem_singleton, forall_eq, MessageVotes]
        intro _
        refine .inr ⟨hcallee, ?_, hpos⟩
        rw [hcast.durable, hcast.ballot, htermEq, hterm, hcandidate]
  · cases h

/-- The campaigns right after a vote for itself in a new term. The calls of the new campaign
are the only new ones. -/
theorem Campaigns.campaign {W : Votes NodeId} (node : RaftNode) (calls : List CallId)
    (won : Nat → Bool) (wonCalls : List Nat) (hq : q ∈ cfg.ids) (hc : Campaigns cfg V q m)
    (hVW : ∀ p T a, V p T a → W p T a) (hself : W q node.currentTerm q)
    (hterm : m.node.currentTerm < node.currentTerm) (hrole : node.role ≠ .leader)
    (hnodup : calls.Nodup)
    (hcalls : ∀ call ∈ calls, call.caller = q ∧ call.callee ∈ cfg.peers q ∧ call.seq = 0 ∧
      call.term = node.currentTerm)
    (hwon : ∀ T ∈ wonCalls, T ∈ m.wonCalls ∨ T = node.currentTerm ∧ cfg.members.card / 2 = 0) :
    Campaigns cfg W q { m with
      node, won, wonCalls
      voteCalls := m.voteCalls ++ calls
      votes := Function.update m.votes node.currentTerm 1 } := by
  have hmem : ∀ T, T = node.currentTerm → q ∈ counted cfg W q (m.voteCalls ++ calls) T := by
    rintro T rfl
    simp only [counted, Finset.mem_filter]
    exact ⟨List.mem_toFinset.mpr hq, hself, .inl trivial⟩
  refine ⟨?_, ?_, ?_, ?_, ?_, fun h => absurd h hrole⟩
  · refine List.nodup_append.mpr ⟨hc.nodup, hnodup, ?_⟩
    rintro call hold other hnew rfl
    have := (hc.calls call hold).2.2.2
    have := (hcalls call hnew).2.2.2
    omega
  · intro call hcall
    rcases List.mem_append.mp hcall with hold | hnew
    · obtain ⟨h₁, h₂, h₃, h₄⟩ := hc.calls call hold
      exact ⟨h₁, h₂, h₃, h₄.trans hterm.le⟩
    · obtain ⟨h₁, h₂, h₃, h₄⟩ := hcalls call hnew
      exact ⟨h₁, h₂, h₃, h₄.le⟩
  · exact fun T hT => (hc.granted T hT).trans hterm.le
  · intro T
    by_cases hT : T = node.currentTerm
    · have hzero : m.granted.count T = 0 := by
        rw [List.count_eq_zero]
        intro hgranted
        have := hc.granted T hgranted
        omega
      have hone := Finset.card_pos.mpr ⟨q, hmem T hT⟩
      subst hT
      simp only [Function.update_self, hzero]
      exact hone
    · simp only [Function.update_of_ne hT]
      refine (hc.votes T).trans (Finset.card_le_card (counted_mono (fun p => hVW p T q) ?_))
      intro call hcall hcallTerm
      rcases List.mem_append.mp hcall with hold | hnew
      · exact hold
      · exact absurd ((hcalls call hnew).2.2.2.symm.trans hcallTerm).symm hT
  · intro T hT
    rcases hwon T hT with hold | ⟨hT, hcard⟩
    · exact (hc.wonCalls T hold).mono fun p => hVW p T q
    · refine won_of_counted (m.voteCalls ++ calls) ?_
      have hone := Finset.card_pos.mpr ⟨q, hmem T hT⟩
      omega

theorem ClusterConfig.ne_neg_one {q : NodeId} (hq : q ∈ cfg.ids) : q ≠ -1 := by
  rintro rfl
  exact absurd (cfg.pos _ hq) (by decide)

theorem Member.startElection_votesStep (saved : Bool) (hq : q ∈ cfg.ids)
    (hm : MemberVotes cfg V q m) (hup : m.up = true) (hV : V.Unique) :
    VotesStep cfg V q (m.startElection saved).1 (m.startElection saved).2 := by
  have hc := hm.campaigns hup
  have hcases := m.node.startElection_cases saved
  unfold startElection
  split
  · rename_i node heq
    rw [heq] at hcases
    rcases hcases with ⟨-, hkept⟩ | ⟨hno, -⟩
    · exact hm.keep hup hV hkept (fun _ => hc.quiet hkept ⟨rfl, rfl, rfl, rfl, rfl⟩) (by simp)
    · cases hno
  · rename_i node heq
    rw [heq] at hcases
    rcases hcases with ⟨hno, -⟩ | ⟨-, hcast, hterm⟩
    · cases hno
    · rw [hm.nodeId] at hcast
      have hlt : m.node.currentTerm < node.currentTerm := by
        simp only at hterm
        omega
      have hself : V.record (-1) q node.durable q node.currentTerm q :=
        .inr ⟨rfl, by rw [hcast.durable, hcast.ballot], cfg.ne_neg_one hq⟩
      have hrole : node.role ≠ .leader := fun h => by
        have := (hcast.leader h).2
        simp only at hlt this
        omega
      have hpeers : node.peers = cfg.peers q := hcast.peers.trans hm.peers
      have hquorum := cfg.quorum_eq hq hpeers
      simp only
      split
      · rename_i hone
        refine hm.cast hup hV hcast (fun _ => ?_) (by simp)
        have := Campaigns.campaign node [] (Function.update m.won node.currentTerm false)
          (node.currentTerm :: m.wonCalls) hq hc
          (fun p T a hv => V.le_record (-1) q node.durable hv) hself hlt hrole .nil (by simp) (by
            intro T hT
            rcases List.mem_cons.mp hT with rfl | hT
            · exact .inr ⟨rfl, by omega⟩
            · exact .inl hT)
        simpa only [List.append_nil] using this
      · refine hm.cast hup hV hcast (fun _ => ?_) ?_
        · refine Campaigns.campaign node _ _ _ hq hc
            (fun p T a hv => V.le_record (-1) q node.durable hv) hself hlt hrole ?_ ?_
            fun T hT => .inl hT
          · refine List.Nodup.map (fun a b h => ?_) (hpeers ▸ cfg.nodup.filter _)
            simpa using h
          · intro call hcall
            obtain ⟨peer, hpeer, rfl⟩ := List.mem_map.mp hcall
            exact ⟨hcast.nodeId.trans hm.nodeId, hpeers ▸ hpeer, rfl, rfl⟩
        · intro message hmessage
          simp only [List.map_map, List.mem_map, Function.comp] at hmessage
          obtain ⟨peer, -, rfl⟩ := hmessage
          have hid : node.nodeId = q := hcast.nodeId.trans hm.nodeId
          exact ⟨rfl, rfl, hid ▸ cfg.ne_neg_one hq⟩

end Step

/-- What holds behind the load of the snapshot and is kept by every pass of the replay holds of
the new process, or of the process that has left its storage. -/
theorem Member.restart_induct {P : RaftNode → Prop} (m : Member σ sm.Image)
    (cfg : ClusterConfig) (id : NodeId) (readable : Nat → Bool) (saved : Bool)
    (replaySaved : Nat → Bool)
    (hload : ∀ n kv, RaftNode.loadLatestSnapshotOnStartup sm
      (RaftNode.recover id (cfg.peers id) m.node.storage) (cfg.snapshot id) m.snapshots readable
      saved = some (n, kv) → P n)
    (hpick : ∀ n, P n → P n.applyPick.1)
    (hfinish : ∀ n index saved, P n → index ≤ n.commitIndex → P (n.applyFinish index saved).1) :
    (∃ n kv, P n ∧ m.restart sm cfg id readable saved replaySaved = m.boot n kv) ∨
    ∃ storage, (storage = m.node.storage ∨ ∃ n, P n ∧ storage = n.storage) ∧
      m.restart sm cfg id readable saved replaySaved =
        { m with node := { m.node with storage } } := by
  unfold restart
  rcases RaftNode.construct_induct replaySaved hload hpick hfinish with
    ⟨n, kv, hn, heq⟩ | ⟨storage, hstorage, heq⟩ <;> rw [heq]
  · exact .inl ⟨n, kv, hn, rfl⟩
  · exact .inr ⟨storage, hstorage, rfl⟩

theorem Member.restart_votesStep {V : Votes NodeId} {q : NodeId} {m : Member σ sm.Image}
    (readable : Nat → Bool) (saved : Bool) (replaySaved : Nat → Bool)
    (hm : MemberVotes cfg V q m) (hdown : m.up = false) (hV : V.Unique) :
    VotesStep cfg V q (m.restart sm cfg q readable saved replaySaved) [] := by
  have hstorage := RaftNode.recover_storage q (cfg.peers q) m.node.storage
  -- the recovered process, which continues from the durable ballot
  let n := RaftNode.recover q (cfg.peers q) m.node.storage
  have hdurable : n.durable = m.node.durable := congrArg (Option.map _) hstorage
  have hn : ∀ kv, MemberVotes cfg V q (m.boot n kv) := by
    intro kv
    refine ⟨RaftNode.recover_nodeId _ _ _, RaftNode.recover_peers _ _ _, ?_, fun _ => ?_,
      fun _ => ⟨.nil, by simp [boot], by simp [boot], by simp [boot], by simp [boot], ?_⟩⟩
    · exact hdurable ▸ hm.accounted
    · have hballot : n.ballot = n.durable.getD (0, -1) := by
        rw [hdurable]
        exact RaftNode.recover_ballot _ _ _
      simp only [boot]
      rw [hballot, hdurable]
      exact .recover hm.accounted
    · intro hrole
      exact absurd ((RaftNode.recover_role _ _ _).symm.trans hrole) (by simp)
  have hboot : ∀ n' kv, VotesKept n n' → VotesStep cfg V q (m.boot n' kv) [] := fun n' kv hkept =>
    (hn kv).keep rfl hV hkept
      (fun _ => ((hn kv).campaigns rfl).quiet hkept ⟨rfl, rfl, rfl, rfl, rfl⟩) (by simp)
  have hkept := m.restart_induct (P := VotesKept n) cfg q readable saved replaySaved
    (fun _ _ hload => RaftNode.loadLatestSnapshotOnStartup_votesKept hload)
    (fun n' h => h.trans n'.applyPick_votesKept)
    (fun n' index saved h _ => h.trans (n'.applyFinish_votesKept index saved))
  rcases hkept with ⟨n', kv, hn', heq⟩ | ⟨storage, hstorage', heq⟩ <;> rw [heq]
  · exact hboot n' kv hn'
  · -- what the failed constructor left on disk is what some process could have left there
    obtain ⟨n', hn', rfl⟩ : ∃ n', VotesKept n n' ∧ storage = n'.storage := by
      rcases hstorage' with rfl | hn'
      · exact ⟨n, .refl, hstorage.symm⟩
      · exact hn'
    obtain ⟨hunique, hmember, -⟩ := hboot n' sm.initial hn'
    refine ⟨hunique, ⟨hm.nodeId, hm.peers, hmember.accounted, ?_, ?_⟩, by simp⟩ <;> simp [hdown]

theorem memberStep_votesStep {V : Votes NodeId} {q : NodeId} {net : List (Message sm.Image)}
    {m m' : Member σ sm.Image} {action : Action} {outbox : Member.Outbox sm.Image}
    (hq : q ∈ cfg.ids) (hV : V.Unique) (hm : MemberVotes cfg V q m)
    (hnet : ∀ message ∈ net, MessageVotes V message)
    (h : memberStep sm cfg q net m action = some (m', outbox)) :
    VotesStep cfg V q m' outbox := by
  rcases memberStep_cases h with ⟨hup, h⟩ | ⟨hdown, rfl, readable, saved, replaySaved, -, rfl⟩
  · by_cases hquiet : action.votes = false
    · exact (act_quiet hquiet h).votesStep hm hup hV
    · cases action with
      | crash =>
        cases h
        exact hm.keep hup hV .refl (by simp) (by simp)
      | startElection saved =>
        have hstep := Member.startElection_votesStep saved hq hm hup hV
        rwa [show m.startElection saved = (m', outbox) from Option.some.inj h] at hstep
      | onRequestVote k termSaved voteSaved =>
        obtain ⟨message, hreceive, h⟩ := Option.bind_eq_some_iff.mp h
        obtain ⟨hmem, hcallee⟩ := Member.receive_mem hreceive
        exact Member.deliverRequestVote_votesStep (hnet message hmem) (by simpa using hcallee)
          hm hup hV h
      | onVoteResponse k saved =>
        obtain ⟨message, hreceive, h⟩ := Option.bind_eq_some_iff.mp h
        obtain ⟨hmem, hcall⟩ := Member.receive_mem hreceive
        have hmessage := hnet message hmem
        unfold Member.deliverVoteResponse at h
        split at h
        · rename_i response hpayload
          simp only [MessageVotes, hpayload] at hmessage
          cases h
          exact Member.onVoteResponse_votesStep (by simpa using hcall) hmessage hm hup hV
        · cases h
      | countVote term =>
        simp only [act] at h
        split at h
        · rename_i hT
          cases h
          exact Member.countVote_votesStep hT hq hm hup hV
        · cases h
      | onElectionWon term =>
        simp only [act] at h
        split at h
        · rename_i hT
          cases h
          exact Member.onElectionWon_votesStep hT hm hup hV
        · cases h
      | restart _ _ _ => cases h
      | _ => exact absurd rfl hquiet
  · exact Member.restart_votesStep readable saved replaySaved hm hdown hV

/-! ## Runs -/

theorem VoteInv.init : VoteInv cfg (fun _ _ _ => False) (Cluster.init sm cfg) where
  unique := fun _ _ _ _ h => h.elim
  members q _ := by
    refine ⟨RaftNode.recover_nodeId _ _ _, RaftNode.recover_peers _ _ _,
      ⟨fun _ _ h => h.elim, fun _ _ h => h.elim, fun T a h => ?_⟩, fun h => ?_, fun h => ?_⟩
    · simp [Cluster.init, Member.fresh, RaftNode.durable, RaftNode.recover_storage] at h
    · simp [Cluster.init, Member.fresh] at h
    · simp [Cluster.init, Member.fresh] at h
  net := by simp [Cluster.init]

/-- The votes after a step of member `id`. -/
def Cluster.recordVotes (V : Votes NodeId) (id : NodeId) (c : Cluster σ sm.Image) :
    Votes NodeId :=
  V.record (-1) id (c.members id).node.durable

theorem VoteInv.step {V : Votes NodeId} {c c' : Cluster σ sm.Image} {id : NodeId}
    {action : Action} (h : VoteInv cfg V c) (hstep : c.step sm cfg id action = some c') :
    VoteInv cfg (c'.recordVotes V id) c' := by
  obtain ⟨hid, m, outbox, hm, rfl⟩ := Cluster.step_cases hstep
  have hvotes := memberStep_votesStep hid h.unique (h.members id hid) h.net hm
  simp only [Cluster.recordVotes, Function.update_self]
  refine ⟨hvotes.unique, fun q hq => ?_, fun message hmem => ?_⟩
  · by_cases hqid : q = id
    · subst hqid
      simp only [Function.update_self]
      exact hvotes.member
    · simp only [Function.update_of_ne hqid]
      exact (h.members q hq).other hqid
  · rcases List.mem_append.mp hmem with hold | hnew
    · exact (h.net message hold).mono fun p T a hv => .inl hv
    · exact hvotes.outbox message hnew

theorem VoteInv.run {V : Votes NodeId} {c c' : Cluster σ sm.Image} (h : VoteInv cfg V c)
    (hrun : Cluster.Run sm cfg c c') :
    ∃ W : Votes NodeId, (∀ p T a, V p T a → W p T a) ∧ VoteInv cfg W c' := by
  induction hrun with
  | refl => exact ⟨V, fun _ _ _ hv => hv, h⟩
  | tail _ hstep ih =>
    obtain ⟨W, hVW, hW⟩ := ih
    obtain ⟨id, action, hstep⟩ := hstep
    exact ⟨_, fun p T a hv => .inl (hVW p T a hv), hW.step hstep⟩

/-- The process of member `id` is leader of term `T`. -/
def Cluster.LeaderAt {Image : Type} (c : Cluster σ Image) (id : NodeId) (T : Nat) : Prop :=
  (c.members id).up = true ∧ (c.members id).node.role = .leader ∧
    (c.members id).node.currentTerm = T

instance {Image : Type} (c : Cluster σ Image) (id : NodeId) (T : Nat) :
    Decidable (c.LeaderAt id T) :=
  inferInstanceAs (Decidable (_ ∧ _))

theorem VoteInv.won {V : Votes NodeId} {c : Cluster σ sm.Image} {q : NodeId} {T : Nat}
    (h : VoteInv cfg V c) (hq : q ∈ cfg.ids) (hleader : c.LeaderAt q T) :
    V.Won cfg.members T q := by
  obtain ⟨hup, hrole, rfl⟩ := hleader
  exact ((h.members q hq).campaigns hup).leader hrole

/-- At most one member is ever leader of a term, whatever is lost, delayed, duplicated or
reordered, whichever `Save` fails and whoever crashes. -/
theorem election_safety (sm : IStateMachine σ) (cfg : ClusterConfig)
    {c c' : Cluster σ sm.Image} {p q : NodeId} {T : Nat} (hc : Cluster.Reachable sm cfg c)
    (hrun : Cluster.Run sm cfg c c') (hp : p ∈ cfg.ids) (hq : q ∈ cfg.ids)
    (hleader : c.LeaderAt p T) (hleader' : c'.LeaderAt q T) : p = q := by
  obtain ⟨V, -, hV⟩ := VoteInv.init.run hc
  obtain ⟨W, hVW, hW⟩ := hV.run hrun
  exact ((hV.won hp hleader).mono fun r => hVW r T p).unique hW.unique (hW.won hq hleader')

/-- Member 1 of three campaigns, gets the vote of member 2 and wins term 1. -/
def electionSchedule : List (NodeId × Action) :=
  [(1, .restart (fun _ => true) true fun _ => true), (1, .start),
    (2, .restart (fun _ => true) true fun _ => true),
    (2, .start), (1, .startElection true), (2, .onRequestVote 0 true true),
    (1, .onVoteResponse 2 true), (1, .countVote 1), (1, .onElectionWon 1)]

def threeMembers : ClusterConfig where
  ids := [1, 2, 3]
  nodup := by decide
  pos := by decide

theorem election_safety_three :
    ∃ c c', Cluster.Reachable kvStateMachine threeMembers c ∧
      Cluster.Run kvStateMachine threeMembers c c' ∧ c.LeaderAt 1 1 ∧ c'.LeaderAt 1 1 ∧
      ∀ q ∈ threeMembers.ids, c'.LeaderAt q 1 → 1 = q := by
  let sm := kvStateMachine
  obtain ⟨c, hc, hleader⟩ := Cluster.exists_of_exec sm threeMembers (Cluster.init sm threeMembers)
    electionSchedule (fun c => c.LeaderAt 1 1) (by decide)
  obtain ⟨c', hc', hleader'⟩ := Cluster.exists_of_exec sm threeMembers
    (Cluster.init sm threeMembers) (electionSchedule ++ [(1, .proposeNoOp true)])
    (fun c => c.LeaderAt 1 1) (by decide)
  have hrun : Cluster.exec sm threeMembers c [(1, .proposeNoOp true)] = some c' := by
    rwa [Cluster.exec_append, hc] at hc'
  refine ⟨c, c', Cluster.exec_run hc, Cluster.exec_run hrun, hleader, hleader', fun q hq h => ?_⟩
  exact election_safety sm threeMembers (Cluster.exec_run hc) (Cluster.exec_run hrun)
    (by decide) hq hleader h

end CquptRaft
