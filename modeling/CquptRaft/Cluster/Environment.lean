import CquptRaft.Cluster.ElectionSafety
import CquptRaft.Node.Calls

/-!
# One member among arbitrary messages

A member that runs alone, with any messages around it: at every step the network may hold
anything. Every step of a running process is a critical section of its node, so what holds along
every sequence of calls holds here too. What the member has sent is kept.

A term that the member has reported is durable as long as no `Save` of a higher term fails:
`BecomeFollowerLocked` keeps a term in memory that it could not save, and the handlers report it.
-/

namespace CquptRaft

variable {σ : Type} {sm : IStateMachine σ} {cfg : ClusterConfig}

namespace Member

variable {Image : Type}

theorem appendProposal_node (m : Member σ Image) (commandData : Bytes) (saved : Bool) :
    (m.appendProposal commandData saved).node =
      (m.node.appendLocalLogUnlocked commandData saved).1 := by
  grind [appendProposal]

theorem appendProposal_up (m : Member σ Image) (commandData : Bytes) (saved : Bool) :
    (m.appendProposal commandData saved).up = m.up := by
  grind [appendProposal]

theorem proposal_cases {m m' : Member σ Image} {k : Nat} {step : ProposeStep}
    (h : m.proposal k step = some m') :
    ∃ p node phase, m.proposals[k]? = some p ∧
      proposeStep m.node p step = some (node, phase) ∧
      m' = { m with node, proposals := m.proposals.set k { p with phase } } := by
  unfold proposal at h
  split at h
  · cases h
  · rename_i p hp
    obtain ⟨⟨node, phase⟩, hstep, rfl⟩ := Option.map_eq_some_iff.mp h
    exact ⟨p, node, phase, hp, hstep, rfl⟩

end Member

/-- Where the arguments of a section come from: the second section of a pass of
`ApplyCommittedEntries` runs for the entry that the thread has applied, a snapshot is installed or
compacted for by the thread that has saved it, `OnAppendEntries` runs for a message, and a handler
of a response for one that answers the call of the replicator. -/
def Call.Grounded {Image : Type} (net : List (Message Image)) (m : Member σ Image)
    (action : Action) : Call Image → Prop
  | .applyFinish index _ => m.apply = .applied index
  | .installFinish request response _ => ∃ handler, m.apply = .installing handler ∧
    handler.request = request ∧ handler.response = response
  | .compactAfterSnapshot index term _ => m.worker = .saved index term
  | .onAppendEntries request termSaved logSaved commitSaved => ∃ k message,
    action = .onAppendEntries k termSaved logSaved commitSaved ∧ net[k]? = some message ∧
      message.payload = .appendRequest request
  | .handleAppendEntriesResponse peer leaderTerm response saved => ∃ k message,
    action = .appendResponse peer k saved ∧ net[k]? = some message ∧
      m.replicators peer = .append message.call ∧ message.call.term = leaderTerm ∧
      message.payload = .appendResponse response
  | .handleInstallSnapshotResponse peer leaderTerm lastIncludedIndex response saved =>
    ∃ k message, action = .installResponse peer k saved ∧ net[k]? = some message ∧
      m.replicators peer = .install message.call lastIncludedIndex ∧
      message.call.term = leaderTerm ∧ message.payload = .installResponse response
  | _ => True

/-- A step of a running process is one section of its node, or leaves the node alone. -/
theorem act_call {id : NodeId} {net : List (Message sm.Image)} {m m' : Member σ sm.Image}
    {action : Action} {outbox : Member.Outbox sm.Image}
    (h : act sm cfg id net m action = some (m', outbox)) :
    m'.node = m.node ∨ m'.up = m.up ∧ ∃ c : Call sm.Image, m'.node = m.node.call c ∧
      c.Grounded net m action := by
  cases action with
  | restart _ _ _ => cases h
  | start =>
    cases h
    exact .inr ⟨rfl, .start, rfl, trivial⟩
  | stop =>
    cases h
    exact .inr ⟨rfl, .stop, rfl, trivial⟩
  | crash | prune _ =>
    cases h
    exact .inl rfl
  | applyAcquire | onSnapshotTimer => grind [act]
  | appendFailed _ | installFailed _ | finishRpc _ => grind [act, Member.setReplicator]
  | persist saved =>
    refine .inr ⟨?_, .persist saved, ?_, ?_⟩ <;>
      grind [act, RaftNode.call, Call.Grounded]
  | startElection saved =>
    refine .inr ⟨?_, .startElection saved, ?_, ?_⟩ <;>
      grind [act, Member.startElection, RaftNode.call, Call.Grounded]
  | onRequestVote _ termSaved voteSaved =>
    obtain ⟨message, -, h⟩ := Option.bind_eq_some_iff.mp h
    cases hp : message.payload with
    | voteRequest request =>
      refine .inr ⟨?_, .onRequestVote request termSaved voteSaved, ?_, ?_⟩ <;>
        grind [Member.deliverRequestVote, RaftNode.call, Call.Grounded]
    | _ => grind [Member.deliverRequestVote]
  | onVoteResponse _ saved =>
    obtain ⟨message, -, h⟩ := Option.bind_eq_some_iff.mp h
    cases hp : message.payload with
    | voteResponse response =>
      refine .inr ⟨?_, .onVoteResponse message.call.term response saved, ?_, ?_⟩ <;>
        grind [Member.deliverVoteResponse, Member.onVoteResponse, RaftNode.call, Call.Grounded]
    | _ => grind [Member.deliverVoteResponse]
  | countVote _ => grind [act, Member.countVote]
  | onElectionWon term =>
    refine .inr ⟨?_, .onElectionWon term, ?_, ?_⟩ <;>
      grind [act, Member.onElectionWon, RaftNode.call, Call.Grounded]
  | proposeNoOp saved =>
    have hcall := Member.appendProposal_node { m with noOpCalls := m.noOpCalls - 1 }
      kInternalNoOpCommand saved
    have hup := Member.appendProposal_up { m with noOpCalls := m.noOpCalls - 1 }
      kInternalNoOpCommand saved
    by_cases hlead : m.node.running ∧ m.node.role = .leader
    · refine .inr ⟨?_, .appendLocalLogUnlocked kInternalNoOpCommand saved, ?_, ?_⟩ <;>
        grind [act, Member.proposeNoOp, RaftNode.call, Call.Grounded]
    · left
      grind [act, Member.proposeNoOp]
  | propose command saved =>
    have hcall := Member.appendProposal_node m command.serialize saved
    have hup := Member.appendProposal_up m command.serialize saved
    by_cases hpasses : m.node.running ∧ m.node.role = .leader ∧
        validateCommandUnlocked (cfg.kvLimits id) command = .ok () ∧ command.serialize ≠ []
    · refine .inr ⟨?_, .appendLocalLogUnlocked command.serialize saved, ?_, ?_⟩ <;>
        grind [act, Member.propose, RaftNode.call, Call.Grounded]
    · left
      grind [act, Member.propose]
  | proposal k step =>
    obtain ⟨m₁, hmoved, heq⟩ := Option.map_eq_some_iff.mp h
    cases heq
    obtain ⟨p, node, phase, -, hstep, rfl⟩ := Member.proposal_cases hmoved
    obtain rfl | ⟨saved, rfl⟩ | rfl := Member.proposeStep_cases hstep
    · exact .inl rfl
    · exact .inr ⟨rfl, .advanceCommitIndexUnlocked saved, rfl, trivial⟩
    · exact .inr ⟨rfl, .applyPick, rfl, trivial⟩
  | replicateOnce peer =>
    refine .inr ⟨?_, .buildAppendEntriesRequest peer m.node.currentTerm, ?_, ?_⟩ <;>
      grind [act, Member.replicateOnce, Member.setReplicator, RaftNode.call, Call.Grounded]
  | readBoundary _ => grind [act, Member.readBoundary, Member.setReplicator]
  | sendSnapshot _ => grind [act, Member.sendSnapshot, Member.setReplicator]
  | appendResponse peer k saved =>
    simp only [act] at h
    split at h
    · rename_i call hcall
      obtain ⟨message, hreceive, h⟩ := Option.bind_eq_some_iff.mp h
      obtain ⟨hk, hthis⟩ := Option.filter_eq_some_iff.mp hreceive
      obtain rfl : message.call = call := by simpa using hthis
      cases hp : message.payload with
      | appendResponse response =>
        refine .inr ⟨?_, .handleAppendEntriesResponse peer message.call.term response saved, ?_,
          k, message, rfl, hk, hcall, rfl, hp⟩ <;>
          grind [Member.deliverAppendResponse, Member.setReplicator, RaftNode.call]
      | _ => grind [Member.deliverAppendResponse]
    · cases h
  | installResponse peer k saved =>
    simp only [act] at h
    split at h
    · rename_i call index hcall
      obtain ⟨message, hreceive, h⟩ := Option.bind_eq_some_iff.mp h
      obtain ⟨hk, hthis⟩ := Option.filter_eq_some_iff.mp hreceive
      obtain rfl : message.call = call := by simpa using hthis
      cases hp : message.payload with
      | installResponse response =>
        refine .inr ⟨?_, .handleInstallSnapshotResponse peer message.call.term index response
          saved, ?_, k, message, rfl, hk, hcall, rfl, hp⟩ <;>
          grind [Member.deliverInstallResponse, Member.setReplicator, RaftNode.call]
      | _ => grind [Member.deliverInstallResponse]
    · cases h
  | onAppendEntries k termSaved logSaved commitSaved =>
    obtain ⟨message, hreceive, h⟩ := Option.bind_eq_some_iff.mp h
    obtain ⟨hk, -⟩ := Option.filter_eq_some_iff.mp hreceive
    cases hp : message.payload with
    | appendRequest request =>
      refine .inr ⟨?_, .onAppendEntries request termSaved logSaved commitSaved, ?_,
        k, message, rfl, hk, hp⟩ <;>
        grind [Member.deliverAppendEntries, RaftNode.call]
    | _ => grind [Member.deliverAppendEntries]
  | onInstallSnapshot _ saved =>
    obtain ⟨message, -, h⟩ := Option.bind_eq_some_iff.mp h
    cases hp : message.payload with
    | installRequest request =>
      refine .inr ⟨?_, .installCheck (cfg.snapshot id).enabled request saved, ?_, ?_⟩ <;>
        grind [Member.deliverInstallSnapshot, Member.onInstallSnapshot, RaftNode.call,
          Call.Grounded]
    | _ => grind [Member.deliverInstallSnapshot]
  | installWrite _ _ => grind [act, Member.installWrite, Member.advanceInstall, Member.failInstall]
  | installSave _ _ => grind [act, Member.installSave, Member.advanceInstall, Member.failInstall]
  | installLoad _ _ => grind [act, Member.installLoad, Member.failInstall]
  | installFinish saved =>
    cases hlock : m.apply with
    | installing handler =>
      refine .inr ⟨?_, .installFinish handler.request handler.response saved, ?_,
        handler, hlock, rfl, rfl⟩ <;>
        grind [act, Member.installFinish, RaftNode.call]
    | _ => grind [act, Member.installFinish]
  | applyPick =>
    refine .inr ⟨?_, .applyPick, ?_, ?_⟩ <;>
      grind [act, Member.applyPick, RaftNode.call, Call.Grounded]
  | applyRun => grind [act, Member.applyRun]
  | applyFinish saved =>
    cases hlock : m.apply with
    | applied index =>
      refine .inr ⟨?_, .applyFinish index saved, ?_, ?_⟩ <;>
        grind [act, Member.applyFinish, RaftNode.call, Call.Grounded]
    | _ => grind [act, Member.applyFinish]
  | workerCapture _ => grind [act, Member.workerCapture]
  | workerSave _ => grind [act, Member.workerSave]
  | workerCompact saved =>
    cases hworker : m.worker with
    | saved index term =>
      refine .inr ⟨?_, .compactAfterSnapshot index term saved, ?_, ?_⟩ <;>
        grind [act, Member.workerCompact, RaftNode.call, Call.Grounded]
    | _ => grind [act, Member.workerCompact]

/-- The index that the thread behind `apply_mu_` works on. -/
def ApplyLock.index {Image : Type} : ApplyLock Image → Nat
  | .picked index _ | .applied index => index
  | _ => 0

/-- The thread behind `apply_mu_` works on the index it had, or on one it has just picked. -/
theorem act_lock {id : NodeId} {net : List (Message sm.Image)} {m m' : Member σ sm.Image}
    {action : Action} {outbox : Member.Outbox sm.Image}
    (h : act sm cfg id net m action = some (m', outbox)) :
    m'.apply.index ≤ m.apply.index ∨ m'.apply.index ≤ m.node.commitIndex := by
  cases action with
  | restart _ _ _ => cases h
  | start | stop | crash | prune _ =>
    cases h
    exact .inl le_rfl
  | persist _ | applyAcquire | onSnapshotTimer => grind [act, ApplyLock.index]
  | appendFailed _ | installFailed _ | finishRpc _ => grind [act, Member.setReplicator]
  | startElection saved => grind [act, Member.startElection]
  | onRequestVote _ _ _ =>
    obtain ⟨message, -, h⟩ := Option.bind_eq_some_iff.mp h
    grind [Member.deliverRequestVote]
  | onVoteResponse _ _ =>
    obtain ⟨message, -, h⟩ := Option.bind_eq_some_iff.mp h
    grind [Member.deliverVoteResponse, Member.onVoteResponse]
  | countVote _ => grind [act, Member.countVote]
  | onElectionWon _ => grind [act, Member.onElectionWon]
  | proposeNoOp _ => grind [act, Member.proposeNoOp, Member.appendProposal]
  | propose _ _ => grind [act, Member.propose, Member.appendProposal]
  | proposal k step =>
    obtain ⟨m₁, hmoved, heq⟩ := Option.map_eq_some_iff.mp h
    cases heq
    obtain ⟨p, node, phase, -, -, rfl⟩ := Member.proposal_cases hmoved
    exact .inl le_rfl
  | replicateOnce _ => grind [act, Member.replicateOnce, Member.setReplicator]
  | readBoundary _ => grind [act, Member.readBoundary, Member.setReplicator]
  | sendSnapshot _ => grind [act, Member.sendSnapshot, Member.setReplicator]
  | appendResponse _ _ _ =>
    simp only [act] at h
    split at h
    · obtain ⟨message, -, h⟩ := Option.bind_eq_some_iff.mp h
      grind [Member.deliverAppendResponse, Member.setReplicator]
    · cases h
  | installResponse _ _ _ =>
    simp only [act] at h
    split at h
    · obtain ⟨message, -, h⟩ := Option.bind_eq_some_iff.mp h
      grind [Member.deliverInstallResponse, Member.setReplicator]
    · cases h
  | onAppendEntries _ _ _ _ =>
    obtain ⟨message, -, h⟩ := Option.bind_eq_some_iff.mp h
    grind [Member.deliverAppendEntries]
  | onInstallSnapshot _ _ =>
    obtain ⟨message, -, h⟩ := Option.bind_eq_some_iff.mp h
    grind [Member.deliverInstallSnapshot, Member.onInstallSnapshot]
  | installWrite _ _ => grind [act, Member.installWrite, Member.advanceInstall, Member.failInstall]
  | installSave _ _ => grind [act, Member.installSave, Member.advanceInstall, Member.failInstall]
  | installLoad _ _ => grind [act, Member.installLoad, Member.failInstall, ApplyLock.index]
  | installFinish _ => grind [act, Member.installFinish, ApplyLock.index]
  | applyPick => grind [act, Member.applyPick, RaftNode.applyPick, ApplyLock.index]
  | applyRun => grind [act, Member.applyRun, ApplyLock.index]
  | applyFinish _ => grind [act, Member.applyFinish, ApplyLock.index]
  | workerCapture _ => grind [act, Member.workerCapture]
  | workerSave _ => grind [act, Member.workerSave]
  | workerCompact _ => grind [act, Member.workerCompact]

end CquptRaft
