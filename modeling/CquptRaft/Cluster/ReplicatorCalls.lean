import CquptRaft.Cluster.Retention
import CquptRaft.Cluster.NextIndex

/-!
# The calls of the replicators

A response to `InstallSnapshot` does not name the index it acknowledges: the leader takes the index
of the snapshot it has sent with the call. So the call has to identify the snapshot. A member
numbers its calls from zero in every process, but a process that makes calls in a term leads this
term, and no member leads a term twice. A new call is one that nobody has answered.
-/

namespace CquptRaft

open Replication Voting

variable {σ : Type} {sm : IStateMachine σ} {cfg : ClusterConfig} {H H' : History NodeId LogRecord}
  {members : Finset NodeId}

/-! ## Steps -/

/-- The replicator is on its way to send a snapshot in term `T`. -/
def ReplicatorCall.Ships (T : Nat) : ReplicatorCall → Prop
  | .snapshot term | .boundary term _ _ => term = T
  | _ => False

/-- The process has work to do for the snapshot of this handler. -/
def Member.Handles {Image : Type} (m : Member σ Image) (handler : InstallHandler Image) : Prop :=
  handler ∈ m.installs ∨ m.apply = .installing handler

/-- The response describes the node. -/
def Reports (n : RaftNode) (response : InstallSnapshotResponse) : Prop :=
  response.lastLogIndex = n.lastLogIndexLocked ∧ response.term = n.currentTerm

/-- The replicator waits for the response to this call. -/
def ReplicatorCall.Awaits (call : CallId) : ReplicatorCall → Prop
  | .append other | .install other _ => other = call
  | _ => False

/-- The request of a replicator. -/
def Payload.asks {Image : Type} : Payload Image → Bool
  | .appendRequest _ | .installRequest _ => true
  | _ => false

/-- The response to a replicator. -/
def Payload.answers {Image : Type} : Payload Image → Bool
  | .appendResponse _ | .installResponse _ => true
  | _ => false

/-- Where a message of a step comes from: a response answers a request that has been sent to the
member, a request is sent by the replicator of its peer. A refused snapshot reports the log of the
member, or the one that its handler found. -/
def Origin {Image : Type} (id : NodeId) (net : List (Message Image)) (action : Action)
    (m m' : Member σ Image) (message : Message Image) : Prop :=
  match message.payload with
  | .appendRequest request => ∃ peer, m.node.role = .leader ∧
    message.call = ⟨m.node.nodeId, peer, m.node.currentTerm, m.rpcStarted⟩ ∧
      m'.rpcStarted = m.rpcStarted + 1 ∧
      m'.replicators = Function.update m.replicators peer (.append message.call) ∧
      m.node.buildAppendEntriesRequest peer m.node.currentTerm = (m'.node, .append request)
  | .appendResponse response => ∃ k request termSaved logSaved commitSaved,
    action = .onAppendEntries k termSaved logSaved commitSaved ∧
      net[k]? = some ⟨message.call, .appendRequest request⟩ ∧ message.call.callee = id ∧
      m'.node = (m.node.onAppendEntries request termSaved logSaved commitSaved).1 ∧
      response = (m.node.onAppendEntries request termSaved logSaved commitSaved).2.1
  | .installRequest request => ∃ peer term, (m.replicators peer).Ships term ∧
    message.call = ⟨m.node.nodeId, peer, term, m.rpcStarted⟩ ∧ request.term = term ∧
      m'.rpcStarted = m.rpcStarted + 1 ∧
      m'.replicators = Function.update m.replicators peer
        (.install message.call request.lastIncludedIndex)
  | .installResponse response =>
    (∃ request, ⟨message.call, .installRequest request⟩ ∈ net ∧ message.call.callee = id ∧
      (response.success = true → request.lastIncludedIndex ≤ m'.node.lastSnapshotIndex) ∧
      (response.success = false → Reports m'.node response)) ∨
    ∃ handler, m.Handles handler ∧ handler.call = message.call ∧
      (response.success = true → handler.response.success = true ∨
        handler.request.lastIncludedIndex ≤ m'.node.lastSnapshotIndex) ∧
      (response.success = false → Reports m'.node response ∨
        response.lastLogIndex = handler.response.lastLogIndex)
  | _ => True

/-- The actions that may send something. -/
def Action.sends : Action → Bool
  | .startElection _ | .onRequestVote _ _ _ | .replicateOnce _ | .sendSnapshot _
  | .onAppendEntries _ _ _ _ | .onInstallSnapshot _ _ | .installWrite _ _ | .installSave _ _
  | .installLoad _ _ | .installFinish _ => true
  | _ => false

theorem act_silent {id : NodeId} {net : List (Message sm.Image)} {m m' : Member σ sm.Image}
    {action : Action} {outbox : Member.Outbox sm.Image} (hsends : action.sends = false)
    (h : act sm cfg id net m action = some (m', outbox)) : outbox = [] := by
  cases action with
  | onVoteResponse _ _ =>
    obtain ⟨message, -, h⟩ := Option.bind_eq_some_iff.mp h
    grind [Member.deliverVoteResponse]
  | appendResponse _ _ _ =>
    simp only [act] at h
    split at h
    · obtain ⟨message, -, h⟩ := Option.bind_eq_some_iff.mp h
      grind [Member.deliverAppendResponse]
    · cases h
  | installResponse _ _ _ =>
    simp only [act] at h
    split at h
    · obtain ⟨message, -, h⟩ := Option.bind_eq_some_iff.mp h
      grind [Member.deliverInstallResponse]
    · cases h
  | startElection _ | onRequestVote _ _ _ | replicateOnce _ | sendSnapshot _
  | onAppendEntries _ _ _ _ | onInstallSnapshot _ _ | installWrite _ _ | installSave _ _
  | installLoad _ _ | installFinish _ => cases hsends
  | proposal _ _ | readBoundary _ | applyPick | applyRun | applyFinish _ | workerCapture _
  | workerSave _ | workerCompact _ =>
    obtain ⟨_, -, heq⟩ := Option.map_eq_some_iff.mp h
    cases heq
    rfl
  | _ => grind [act]

namespace RaftNode

theorem installCheck_success {Image : Type} {n n' : RaftNode} {enabled : Bool}
    {request : InstallSnapshotRequest Image} {saved : Bool} {response : InstallSnapshotResponse}
    (h : n.installCheck enabled request saved = (n', some response))
    (hsuccess : response.success = true) : request.lastIncludedIndex ≤ n'.lastSnapshotIndex := by
  grind [installCheck, installResponse]

theorem lastLogIndexLocked_of_log_eq {n n' : RaftNode} (hlog : n'.log = n.log)
    (hsnap : n'.lastSnapshotIndex = n.lastSnapshotIndex) :
    n'.lastLogIndexLocked = n.lastLogIndexLocked := by
  rw [lastLogIndexLocked, lastLogIndexLocked, hlog, hsnap]

theorem acceptLeaderLocked_lastLogIndexLocked (n : RaftNode) (term : Nat) (leaderId : NodeId)
    (saved : Bool) :
    (n.acceptLeaderLocked term leaderId saved).1.lastLogIndexLocked = n.lastLogIndexLocked := by
  obtain ⟨hsnap, -, hlog, -⟩ := n.acceptLeaderLocked_frame term leaderId saved
  exact lastLogIndexLocked_of_log_eq hlog hsnap

theorem installCheck_refusal {Image : Type} {n n' : RaftNode} {enabled : Bool}
    {request : InstallSnapshotRequest Image} {saved : Bool} {response : InstallSnapshotResponse}
    (h : n.installCheck enabled request saved = (n', some response))
    (hrefused : response.success = false) : Reports n' response := by
  have hlast := n.acceptLeaderLocked_lastLogIndexLocked request.term request.leaderId saved
  unfold installCheck at h
  split_ifs at h
  · cases h
    exact ⟨rfl, rfl⟩
  · cases h
    exact ⟨rfl, rfl⟩
  · generalize n.acceptLeaderLocked request.term request.leaderId saved = res at h hlast
    obtain ⟨m, ok⟩ := res
    simp only at h hlast
    split_ifs at h <;> cases h
    · exact ⟨hlast.symm, rfl⟩
    · cases hrefused

/-- A handler behind the check has taken up the term of its request. -/
theorem installCheck_admits {Image : Type} {n n' : RaftNode} {enabled : Bool}
    {request : InstallSnapshotRequest Image} {saved : Bool}
    (h : n.installCheck enabled request saved = (n', none)) :
    n'.currentTerm = request.term ∧ n'.lastLogIndexLocked = n.lastLogIndexLocked := by
  have hlast := n.acceptLeaderLocked_lastLogIndexLocked request.term request.leaderId saved
  unfold installCheck at h
  split_ifs at h with hdisabled hstale
  · cases h
  · cases h
  have hterm := acceptLeaderLocked_currentTerm hstale request.leaderId saved
  generalize n.acceptLeaderLocked request.term request.leaderId saved = res at h hlast hterm
  obtain ⟨m, ok⟩ := res
  simp only at h hlast hterm
  split_ifs at h <;> cases h
  exact ⟨hterm, hlast⟩

theorem installFinish_refusal {Image : Type} {n : RaftNode}
    {request : InstallSnapshotRequest Image} {response : InstallSnapshotResponse} {saved : Bool}
    (hrefused : (n.installFinish request response saved).2.success = false) :
    Reports (n.installFinish request response saved).1
        (n.installFinish request response saved).2 ∨
      (n.installFinish request response saved).2.lastLogIndex = response.lastLogIndex := by
  unfold installFinish at hrefused ⊢
  split_ifs at hrefused ⊢
  · exact .inr rfl
  · exact .inl ⟨rfl, rfl⟩

theorem installFinish_success {Image : Type} {n : RaftNode}
    {request : InstallSnapshotRequest Image} {response : InstallSnapshotResponse} {saved : Bool}
    (hsuccess : (n.installFinish request response saved).2.success = true) :
    response.success = true ∨
      request.lastIncludedIndex ≤ (n.installFinish request response saved).1.lastSnapshotIndex := by
  have hcompact := n.le_compactLogPrefixLocked request.lastIncludedIndex request.lastIncludedTerm
  unfold installFinish at hsuccess ⊢
  split
  · rename_i hstale
    rw [if_pos hstale] at hsuccess
    exact .inl hsuccess
  · right
    split <;> exact hcompact

/-- A request is built by a leader for its own term. -/
theorem buildAppendEntriesRequest_append {n n' : RaftNode} {peer : NodeId} {leaderTerm : Nat}
    {request : AppendEntriesRequest}
    (h : n.buildAppendEntriesRequest peer leaderTerm = (n', .append request)) :
    n.role = .leader ∧ n'.nodeId = n.nodeId ∧ n'.currentTerm = n.currentTerm := by
  grind [buildAppendEntriesRequest]

theorem buildAppendEntriesRequest_prev {n n' : RaftNode} {peer : NodeId} {leaderTerm : Nat}
    {request : AppendEntriesRequest}
    (h : n.buildAppendEntriesRequest peer leaderTerm = (n', .append request)) :
    request.prevLogIndex = n'.nextIndex peer - 1 := by
  unfold buildAppendEntriesRequest at h
  split at h
  · cases h
  · dsimp only at h
    generalize (if n.nextIndex peer = 0 then n.lastLogIndexLocked + 1 else n.nextIndex peer) = next
      at h
    split at h
    · cases h
    · split at h <;> cases h
      exact congrArg (· - 1) (Function.update_self peer next n.nextIndex).symm

end RaftNode

/-- A handler that gives up reports what it has filled in so far. -/
theorem Member.failInstall_origin {Image : Type} {id : NodeId} {net : List (Message Image)}
    {action : Action} {m m' : Member σ Image} {handler : InstallHandler Image} {text : String}
    {message : Message Image} (hhandler : m.Handles handler)
    (h : message = ⟨handler.call, .installResponse { handler.response with message := text }⟩) :
    Origin id net action m m' message := by
  subst h
  exact .inr ⟨handler, hhandler, rfl, fun hsuccess => .inl hsuccess, fun _ => .inr rfl⟩

theorem act_origin {id : NodeId} {net : List (Message sm.Image)} {m m' : Member σ sm.Image}
    {action : Action} {outbox : Member.Outbox sm.Image}
    (h : act sm cfg id net m action = some (m', outbox)) {message : Message sm.Image}
    (hmem : message ∈ outbox) : m'.up = m.up ∧ Origin id net action m m' message := by
  by_cases hsends : action.sends = false
  · rw [act_silent hsends h] at hmem
    cases hmem
  cases action with
  | startElection saved =>
    have hstep : m.startElection saved = (m', outbox) := Option.some.inj h
    unfold Member.startElection at hstep
    split at hstep
    · cases hstep
      cases hmem
    · dsimp only at hstep
      split at hstep <;> cases hstep
      · cases hmem
      · obtain ⟨call, -, rfl⟩ := List.mem_map.mp hmem
        exact ⟨rfl, trivial⟩
  | onRequestVote k termSaved voteSaved =>
    obtain ⟨received, -, h⟩ := Option.bind_eq_some_iff.mp h
    unfold Member.deliverRequestVote at h
    split at h <;> cases h
    rw [List.mem_singleton.mp hmem]
    exact ⟨rfl, trivial⟩
  | replicateOnce peer =>
    simp only [act, Member.replicateOnce] at h
    split at h
    · split at h
      · cases h
      · cases h
        cases hmem
      · rename_i node request hbuild
        obtain ⟨hrole, hid, hterm⟩ := RaftNode.buildAppendEntriesRequest_append hbuild
        cases h
        rw [List.mem_singleton.mp hmem]
        refine ⟨rfl, peer, hrole, ?_, rfl, rfl, hbuild⟩
        rw [hid, hterm]
    · cases h
  | sendSnapshot peer =>
    simp only [act, Member.sendSnapshot] at h
    split at h
    · rename_i term index snapshotTerm hboundary
      split at h <;> cases h
      · cases hmem
      · rw [List.mem_singleton.mp hmem]
        refine ⟨rfl, peer, term, ?_, rfl, rfl, rfl, rfl⟩
        rw [hboundary]
        rfl
    · cases h
  | onAppendEntries k termSaved logSaved commitSaved =>
    obtain ⟨received, hreceive, h⟩ := Option.bind_eq_some_iff.mp h
    obtain ⟨hnet, hcallee⟩ := Member.receive_mem hreceive
    unfold Member.deliverAppendEntries at h
    split at h
    · rename_i request hpayload
      cases h
      rw [List.mem_singleton.mp hmem]
      refine ⟨rfl, k, request, termSaved, logSaved, commitSaved, rfl, ?_, by simpa using hcallee,
        rfl, rfl⟩
      rw [← hpayload]
      exact (Option.filter_eq_some_iff.mp hreceive).1
    · cases h
  | onInstallSnapshot k saved =>
    obtain ⟨received, hreceive, h⟩ := Option.bind_eq_some_iff.mp h
    obtain ⟨hnet, hcallee⟩ := Member.receive_mem hreceive
    unfold Member.deliverInstallSnapshot at h
    split at h
    · rename_i request hpayload
      simp only [Option.some.injEq, Member.onInstallSnapshot] at h
      split at h <;> cases h
      · rename_i node response hcheck
        rw [List.mem_singleton.mp hmem]
        refine ⟨rfl, .inl ⟨request, ?_, by simpa using hcallee,
          RaftNode.installCheck_success hcheck, RaftNode.installCheck_refusal hcheck⟩⟩
        rw [← hpayload]
        exact hnet
      · cases hmem
    · cases h
  | installWrite k ok =>
    simp only [act, Member.installWrite] at h
    split at h
    · rename_i handler hk
      split at h
      · split at h <;> cases h
        · cases hmem
        · exact ⟨rfl, Member.failInstall_origin (.inl (List.mem_of_getElem? hk))
            (List.mem_singleton.mp hmem)⟩
      · cases h
    · cases h
  | installSave k outcome =>
    simp only [act, Member.installSave] at h
    split at h
    · rename_i handler hk
      split at h
      · split at h <;> cases h
        · cases hmem
        · exact ⟨rfl, Member.failInstall_origin (.inl (List.mem_of_getElem? hk))
            (List.mem_singleton.mp hmem)⟩
      · cases h
    · cases h
  | installLoad k ok =>
    simp only [act, Member.installLoad] at h
    split at h
    · rename_i handler hk _
      split at h
      · split at h <;> cases h
        · cases hmem
        · exact ⟨rfl, Member.failInstall_origin (.inl (List.mem_of_getElem? hk))
            (List.mem_singleton.mp hmem)⟩
      · cases h
    · cases h
  | installFinish saved =>
    simp only [act, Member.installFinish] at h
    split at h
    · rename_i handler hlock
      cases h
      rw [List.mem_singleton.mp hmem]
      exact ⟨rfl, .inr ⟨handler, .inr hlock, rfl, RaftNode.installFinish_success,
        RaftNode.installFinish_refusal⟩⟩
    · cases h
  | _ => exact absurd rfl hsends

/-! ### Replicators -/

/-- The actions of the replicators. -/
def Action.replicates : Action → Bool
  | .replicateOnce _ | .appendResponse _ _ _ | .appendFailed _ | .readBoundary _ | .sendSnapshot _
  | .installResponse _ _ _ | .installFailed _ | .finishRpc _ => true
  | _ => false

theorem act_sameReplicators {id : NodeId} {net : List (Message sm.Image)}
    {m m' : Member σ sm.Image} {action : Action} {outbox : Member.Outbox sm.Image}
    (hother : action.replicates = false)
    (h : act sm cfg id net m action = some (m', outbox)) :
    m'.replicators = m.replicators ∧ m'.rpcStarted = m.rpcStarted := by
  cases action with
  | restart _ _ _ => cases h
  | replicateOnce _ | appendResponse _ _ _ | appendFailed _ | readBoundary _ | sendSnapshot _
  | installResponse _ _ _ | installFailed _ | finishRpc _ => cases hother
  | start | stop | crash | prune _ =>
    cases h
    exact ⟨rfl, rfl⟩
  | persist _ | applyAcquire | onSnapshotTimer => grind [act]
  | startElection saved => grind [act, Member.startElection]
  | onRequestVote _ _ _ =>
    obtain ⟨message, -, h⟩ := Option.bind_eq_some_iff.mp h
    grind [Member.deliverRequestVote]
  | onVoteResponse _ _ =>
    obtain ⟨message, -, h⟩ := Option.bind_eq_some_iff.mp h
    grind [Member.deliverVoteResponse, Member.onVoteResponse]
  | countVote _ => grind [act, Member.countVote]
  | onElectionWon _ => grind [act, Member.onElectionWon]
  | proposeNoOp _ => grind [act, Member.proposeNoOp, Member.appendProposal]
  | propose _ _ => grind [act, Member.propose, Member.appendProposal]
  | proposal k step =>
    obtain ⟨m₁, hmoved, heq⟩ := Option.map_eq_some_iff.mp h
    cases heq
    obtain ⟨p, node, phase, -, -, rfl⟩ := Member.proposal_cases hmoved
    exact ⟨rfl, rfl⟩
  | onAppendEntries _ _ _ _ =>
    obtain ⟨message, -, h⟩ := Option.bind_eq_some_iff.mp h
    grind [Member.deliverAppendEntries]
  | onInstallSnapshot _ _ =>
    obtain ⟨message, -, h⟩ := Option.bind_eq_some_iff.mp h
    grind [Member.deliverInstallSnapshot, Member.onInstallSnapshot]
  | installWrite _ _ => grind [act, Member.installWrite, Member.advanceInstall, Member.failInstall]
  | installSave _ _ => grind [act, Member.installSave, Member.advanceInstall, Member.failInstall]
  | installLoad _ _ => grind [act, Member.installLoad, Member.failInstall]
  | installFinish _ => grind [act, Member.installFinish]
  | applyPick => grind [act, Member.applyPick]
  | applyRun => grind [act, Member.applyRun]
  | applyFinish _ => grind [act, Member.applyFinish]
  | workerCapture _ => grind [act, Member.workerCapture]
  | workerSave _ => grind [act, Member.workerSave]
  | workerCompact _ => grind [act, Member.workerCompact]

/-- Somebody has asked the callee to install a snapshot of this index. -/
def Asks {Image : Type} (net : List (Message Image)) (call : CallId) (index : Nat) : Prop :=
  ∃ request, ⟨call, .installRequest request⟩ ∈ net ∧ request.lastIncludedIndex = index

/-- A replicator has made this call. -/
def Made {Image : Type} (net : List (Message Image)) (call : CallId) : Prop :=
  ∃ message ∈ net, message.call = call ∧ message.payload.asks = true

theorem Asks.made {Image : Type} {net : List (Message Image)} {call : CallId} {index : Nat}
    (h : Asks net call index) : Made net call := by
  obtain ⟨request, hmem, -⟩ := h
  exact ⟨_, hmem, rfl, rfl⟩

/-- Where a replicator may go: it waits for the response to what it has just sent to its peer, or
it is on its way to send a snapshot because the node leads. -/
structure ReplicatorMove {Image : Type} (m m' : Member σ Image) (outbox : Member.Outbox Image)
    (peer : NodeId) : Prop where
  install : ∀ call index, m'.replicators peer = .install call index →
    m.replicators peer = .install call index ∨ Asks outbox call index
  awaits : ∀ call, (m'.replicators peer).Awaits call → (m.replicators peer).Awaits call ∨
    Made outbox call ∧ call.caller = m.node.nodeId ∧ call.callee = peer
  ships : ∀ T, (m'.replicators peer).Ships T →
    (m.replicators peer).Ships T ∨ m.node.role = .leader ∧ m.node.currentTerm = T

theorem ReplicatorMove.update {Image : Type} {m m' : Member σ Image}
    {outbox : Member.Outbox Image} {target : NodeId} {moved : ReplicatorCall}
    (h : m'.replicators = Function.update m.replicators target moved)
    (hinstall : ∀ call index, moved = .install call index → Asks outbox call index)
    (hawaits : ∀ call, moved.Awaits call →
      Made outbox call ∧ call.caller = m.node.nodeId ∧ call.callee = target)
    (hships : ∀ T, moved.Ships T →
      (m.replicators target).Ships T ∨ m.node.role = .leader ∧ m.node.currentTerm = T)
    (peer : NodeId) : ReplicatorMove m m' outbox peer := by
  by_cases hpeer : peer = target
  · subst hpeer
    constructor <;> rw [h, Function.update_self]
    · exact fun call index hcall => .inr (hinstall call index hcall)
    · exact fun call hcall => .inr (hawaits call hcall)
    · exact hships
  · constructor <;> rw [h, Function.update_of_ne hpeer]
    · exact fun call index hcall => .inl hcall
    · exact fun call hcall => .inl hcall
    · exact fun T hships => .inl hships

/-- A replicator that neither waits for a response nor is about to send a snapshot. -/
theorem ReplicatorMove.quiet {Image : Type} {m m' : Member σ Image}
    {outbox : Member.Outbox Image} {target : NodeId} {moved : ReplicatorCall}
    (hmoved : moved = .idle ∨ moved = .appendReturned ∨ moved = .installReturned)
    (h : m'.replicators = Function.update m.replicators target moved) (peer : NodeId) :
    ReplicatorMove m m' outbox peer := by
  refine .update h (fun call index hcall => ?_) (fun call hcall => ?_) (fun T hships => ?_) peer
  · rcases hmoved with rfl | rfl | rfl <;> cases hcall
  · rcases hmoved with rfl | rfl | rfl <;> cases hcall
  · rcases hmoved with rfl | rfl | rfl <;> cases hships

theorem act_replicators {id : NodeId} {net : List (Message sm.Image)} {m m' : Member σ sm.Image}
    {action : Action} {outbox : Member.Outbox sm.Image}
    (h : act sm cfg id net m action = some (m', outbox)) :
    m.rpcStarted ≤ m'.rpcStarted ∧ ∀ peer, ReplicatorMove m m' outbox peer := by
  by_cases hother : action.replicates = false
  · obtain ⟨hsame, hstarted⟩ := act_sameReplicators hother h
    refine ⟨hstarted.ge, fun peer => ⟨fun call index hcall => ?_, fun call hcall => ?_,
      fun T hships => ?_⟩⟩
    · exact .inl (hsame ▸ hcall)
    · exact .inl (hsame ▸ hcall)
    · exact .inl (hsame ▸ hships)
  cases action with
  | replicateOnce target =>
    simp only [act, Member.replicateOnce] at h
    split at h
    · split at h
      · cases h
      · rename_i node hbuild
        cases h
        refine ⟨le_rfl, .update rfl (fun call index hcall => by cases hcall)
          (fun call hcall => by cases hcall) fun T hships => ?_⟩
        obtain ⟨hrole, hterm⟩ : m.node.role = .leader ∧ node.currentTerm = m.node.currentTerm := by
          grind [RaftNode.buildAppendEntriesRequest]
        exact .inr ⟨hrole, hterm.symm.trans hships⟩
      · rename_i node request hbuild
        obtain ⟨-, hid, -⟩ := RaftNode.buildAppendEntriesRequest_append hbuild
        cases h
        refine ⟨Nat.le_succ _, .update rfl (fun call index hcall => by cases hcall)
          (fun call hcall => ?_) fun T hships => by cases hships⟩
        obtain rfl : _ = call := hcall
        exact ⟨⟨_, List.mem_singleton_self _, rfl, rfl⟩, hid, rfl⟩
    · cases h
  | appendResponse target k saved =>
    simp only [act] at h
    split at h
    · obtain ⟨message, -, h⟩ := Option.bind_eq_some_iff.mp h
      unfold Member.deliverAppendResponse at h
      split at h <;> cases h
      exact ⟨le_rfl, .quiet (.inr (.inl rfl)) rfl⟩
    · cases h
  | installResponse target k saved =>
    simp only [act] at h
    split at h
    · obtain ⟨message, -, h⟩ := Option.bind_eq_some_iff.mp h
      unfold Member.deliverInstallResponse at h
      split at h <;> cases h
      exact ⟨le_rfl, .quiet (.inr (.inr rfl)) rfl⟩
    · cases h
  | appendFailed target =>
    simp only [act] at h
    split at h <;> cases h
    exact ⟨le_rfl, .quiet (.inr (.inl rfl)) rfl⟩
  | installFailed target =>
    simp only [act] at h
    split at h <;> cases h
    exact ⟨le_rfl, .quiet (.inr (.inr rfl)) rfl⟩
  | finishRpc target =>
    simp only [act] at h
    split at h <;> cases h
    all_goals exact ⟨le_rfl, .quiet (.inl rfl) rfl⟩
  | readBoundary target =>
    obtain ⟨m₁, hmoved, heq⟩ := Option.map_eq_some_iff.mp h
    cases heq
    unfold Member.readBoundary at hmoved
    split at hmoved
    · rename_i term hsnapshot
      split at hmoved <;> cases hmoved
      · exact ⟨le_rfl, .quiet (.inr (.inr rfl)) rfl⟩
      · refine ⟨le_rfl, .update rfl (fun call index hcall => by cases hcall)
          (fun call hcall => by cases hcall) fun T hships => ?_⟩
        rw [hsnapshot]
        exact .inl hships
    · cases hmoved
  | sendSnapshot target =>
    simp only [act, Member.sendSnapshot] at h
    split at h
    · split at h <;> cases h
      · exact ⟨le_rfl, .quiet (.inr (.inr rfl)) rfl⟩
      · refine ⟨Nat.le_succ _, .update rfl (fun call index hcall => ?_) (fun call hcall => ?_)
          fun T hships => by cases hships⟩
        · cases hcall
          exact ⟨_, List.mem_singleton_self _, rfl⟩
        · obtain rfl : _ = call := hcall
          exact ⟨⟨_, List.mem_singleton_self _, rfl, rfl⟩, rfl, rfl⟩
    · cases h
  | _ => exact absurd rfl hother

/-! ### Handlers -/

/-- The process had the handler before, perhaps at another point. -/
def Member.Handled {Image : Type} (m : Member σ Image) (handler : InstallHandler Image) : Prop :=
  ∃ old, m.Handles old ∧ old.call = handler.call ∧ old.request = handler.request ∧
    old.response = handler.response

namespace Member.Handles

variable {Image : Type} {m m' : Member σ Image} {handler : InstallHandler Image}

theorem handled (h : m.Handles handler) : m.Handled handler := ⟨handler, h, rfl, rfl, rfl⟩

theorem of_eq (h : m'.Handles handler) (hinstalls : m'.installs = m.installs)
    (hlock : m'.apply = m.apply) : m.Handled handler := by
  rw [Member.Handles, hinstalls, hlock] at h
  exact handled h

theorem of_set (h : m'.Handles handler) {k : Nat} {old : InstallHandler Image}
    {phase : InstallPhase} (hk : m.installs[k]? = some old)
    (hinstalls : m'.installs = m.installs.set k { old with phase := phase })
    (hlock : m'.apply = m.apply) : m.Handled handler := by
  rw [Member.Handles, hinstalls, hlock] at h
  rcases h with hmem | hheld
  · rcases List.mem_or_eq_of_mem_set hmem with hold | rfl
    · exact handled (.inl hold)
    · exact ⟨old, .inl (List.mem_of_getElem? hk), rfl, rfl, rfl⟩
  · exact handled (.inr hheld)

theorem of_eraseIdx (h : m'.Handles handler) {k : Nat}
    (hinstalls : m'.installs = m.installs.eraseIdx k) (hlock : m'.apply = m.apply) :
    m.Handled handler := by
  rw [Member.Handles, hinstalls, hlock] at h
  exact handled (h.imp_left List.mem_of_mem_eraseIdx)

end Member.Handles

/-- A handler of the process was there before, or has been started for a request to the member. -/
theorem act_handles {id : NodeId} {net : List (Message sm.Image)} {m m' : Member σ sm.Image}
    {action : Action} {outbox : Member.Outbox sm.Image}
    (h : act sm cfg id net m action = some (m', outbox)) {handler : InstallHandler sm.Image}
    (hhandler : m'.Handles handler) :
    m.Handled handler ∨
    (⟨handler.call, .installRequest handler.request⟩ ∈ net ∧ handler.call.callee = id ∧
      handler.response.success = false) ∧ m'.node.currentTerm = handler.request.term ∧
      handler.response.lastLogIndex = m'.node.lastLogIndexLocked := by
  by_cases hother : action.appliesState = false
  · have hsame := (act_unrelated hother h).same
    exact .inl (hhandler.of_eq hsame.installs hsame.apply)
  cases action with
  | restart _ _ _ => cases h
  | crash | prune _ =>
    cases h
    exact .inl (hhandler.of_eq rfl rfl)
  | proposal k step =>
    obtain ⟨m₁, hmoved, heq⟩ := Option.map_eq_some_iff.mp h
    cases heq
    obtain ⟨p, node, phase, -, -, rfl⟩ := Member.proposal_cases hmoved
    exact .inl (hhandler.of_eq rfl rfl)
  | sendSnapshot _ =>
    refine .inl (hhandler.of_eq ?_ ?_) <;> grind [act, Member.sendSnapshot, Member.setReplicator]
  | onSnapshotTimer =>
    refine .inl (hhandler.of_eq ?_ ?_) <;> grind [act]
  | workerCapture _ | workerSave _ | workerCompact _ =>
    refine .inl (hhandler.of_eq ?_ ?_) <;>
      grind [act, Member.workerCapture, Member.workerSave, Member.workerCompact]
  | applyAcquire | applyPick | applyRun | applyFinish _ | installFinish _ =>
    refine .inl (Member.Handles.handled (.inl ?_))
    grind [act, Member.Handles, Member.applyPick, Member.applyRun, Member.applyFinish,
      Member.installFinish]
  | onInstallSnapshot k saved =>
    obtain ⟨received, hreceive, h⟩ := Option.bind_eq_some_iff.mp h
    obtain ⟨hnet, hcallee⟩ := Member.receive_mem hreceive
    unfold Member.deliverInstallSnapshot at h
    split at h
    · rename_i request hpayload
      simp only [Option.some.injEq, Member.onInstallSnapshot] at h
      split at h
      · cases h
        exact .inl (hhandler.of_eq rfl rfl)
      · rename_i node hcheck
        obtain ⟨hterm, hlast⟩ := RaftNode.installCheck_admits hcheck
        cases h
        rcases hhandler with hmem | hheld
        · rcases List.mem_append.mp hmem with hold | hnew
          · exact .inl (Member.Handles.handled (.inl hold))
          · right
            rw [List.mem_singleton.mp hnew]
            refine ⟨⟨?_, by simpa using hcallee, rfl⟩, hterm, hlast.symm⟩
            rw [← hpayload]
            exact hnet
        · exact .inl (Member.Handles.handled (.inr hheld))
    · cases h
  | installWrite k ok =>
    simp only [act, Member.installWrite] at h
    split at h
    · rename_i old hk
      split at h
      · split at h <;> cases h
        · exact .inl (hhandler.of_set hk rfl rfl)
        · exact .inl (hhandler.of_eraseIdx rfl rfl)
      · cases h
    · cases h
  | installSave k outcome =>
    simp only [act, Member.installSave] at h
    split at h
    · rename_i old hk
      split at h
      · split at h <;> cases h
        · exact .inl (hhandler.of_set hk rfl rfl)
        · exact .inl (hhandler.of_eraseIdx rfl rfl)
      · cases h
    · cases h
  | installLoad k ok =>
    simp only [act, Member.installLoad] at h
    split at h
    · rename_i old hk _
      split at h
      · split at h <;> cases h
        · refine .inl ?_
          rcases hhandler with hmem | hheld
          · exact Member.Handles.handled (.inl (List.mem_of_mem_eraseIdx hmem))
          · cases hheld
            exact Member.Handles.handled (.inl (List.mem_of_getElem? hk))
        · exact .inl (hhandler.of_eraseIdx rfl rfl)
      · cases h
    · cases h
  | _ => exact absurd rfl hother

/-! ### Processes that serve a term -/

/-- The process leads term `T`, or is on its way to send a snapshot in this term. -/
def Member.Serves {Image : Type} (m : Member σ Image) (T : Nat) : Prop :=
  m.up = true ∧ (m.node.role = .leader ∧ m.node.currentTerm = T ∨
    ∃ peer, (m.replicators peer).Ships T)

/-- A leader led the same term before, or was a candidate of it. -/
theorem RaftNode.call_leads {Image : Type} (n : RaftNode) (c : Call Image)
    (h : (n.call c).role = .leader) :
    (n.role = .leader ∨ n.role = .candidate) ∧ (n.call c).currentTerm = n.currentTerm := by
  by_cases hc : c.writesIndexes = false
  · obtain ⟨hrole, hterm, -⟩ := n.call_steady c hc h
    exact ⟨.inl hrole, hterm⟩
  cases c with
  | onElectionWon term =>
    rcases n.onElectionWon_cases term with hsame | ⟨hrole, -, helected⟩
    · rw [RaftNode.call, hsame] at h ⊢
      exact ⟨.inl h, rfl⟩
    · rw [RaftNode.call, helected]
      exact ⟨.inr hrole, rfl⟩
  | appendLocalLogUnlocked commandData saved =>
    grind [call, appendLocalLogUnlocked, persistStateLocked]
  | buildAppendEntriesRequest peer leaderTerm => grind [call, buildAppendEntriesRequest]
  | handleAppendEntriesResponse peer leaderTerm response saved =>
    have hrole := n.becomeFollowerLocked_role response.term (-1) saved
    grind [call, handleAppendEntriesResponse, advanceCommitIndexUnlocked_indexes]
  | handleInstallSnapshotResponse peer leaderTerm index response saved =>
    have hrole := n.becomeFollowerLocked_role response.term (-1) saved
    grind [call, handleInstallSnapshotResponse]
  | _ => exact absurd rfl hc

/-- A process that begins to serve a term is a candidate of it. -/
theorem act_serves {id : NodeId} {net : List (Message sm.Image)} {m m' : Member σ sm.Image}
    {action : Action} {outbox : Member.Outbox sm.Image} {T : Nat} (hup : m.up = true)
    (h : act sm cfg id net m action = some (m', outbox)) (hserves : m'.Serves T) :
    m.Serves T ∨ m.node.role = .candidate ∧ m.node.currentTerm = T := by
  obtain ⟨-, ⟨hrole, hterm⟩ | ⟨peer, hships⟩⟩ := hserves
  · rcases act_call h with hsame | ⟨-, c, hcall, -⟩
    · rw [hsame] at hrole hterm
      exact .inl ⟨hup, .inl ⟨hrole, hterm⟩⟩
    · rw [hcall] at hrole hterm
      obtain ⟨hbefore | hbefore, hsame⟩ := m.node.call_leads c hrole
      · exact .inl ⟨hup, .inl ⟨hbefore, hsame.symm.trans hterm⟩⟩
      · exact .inr ⟨hbefore, hsame.symm.trans hterm⟩
  · rcases ((act_replicators h).2 peer).ships T hships with hbefore | hleader
    · exact .inl ⟨hup, .inr ⟨peer, hbefore⟩⟩
    · exact .inl ⟨hup, .inl hleader⟩

/-- A process that has just been constructed has no thread. -/
theorem Member.restart_threads {m : Member σ sm.Image} {q : NodeId} {readable : Nat → Bool}
    {saved : Bool} {replaySaved : Nat → Bool} (hdown : m.up = false)
    (hup : (m.restart sm cfg q readable saved replaySaved).up = true) :
    (∀ peer, (m.restart sm cfg q readable saved replaySaved).replicators peer = .idle) ∧
      ∀ handler, ¬ (m.restart sm cfg q readable saved replaySaved).Handles handler := by
  unfold Member.restart at hup ⊢
  split
  · rename_i hthrown
    rw [hthrown] at hup
    exact absurd (hdown.symm.trans hup) Bool.false_ne_true
  · refine ⟨fun _ => rfl, ?_⟩
    rintro handler (hmem | hheld)
    · cases hmem
    · cases hheld

theorem Member.restart_serves {m : Member σ sm.Image} {q : NodeId} {readable : Nat → Bool}
    {saved : Bool} {replaySaved : Nat → Bool} (hdown : m.up = false) (T : Nat) :
    ¬ (m.restart sm cfg q readable saved replaySaved).Serves T := by
  rintro ⟨hup, ⟨hrole, -⟩ | ⟨peer, hships⟩⟩
  · exact Member.restart_role hdown hup hrole
  · rw [(Member.restart_threads hdown hup).1 peer] at hships
    exact hships

/-! ## Runs -/

theorem asks_append {Image : Type} {net outbox : List (Message Image)} {call : CallId}
    {index : Nat} :
    Asks (net ++ outbox) call index ↔ Asks net call index ∨ Asks outbox call index := by
  simp only [Asks, List.mem_append, or_and_right, exists_or]

theorem made_append {Image : Type} {net outbox : List (Message Image)} {call : CallId} :
    Made (net ++ outbox) call ↔ Made net call ∨ Made outbox call := by
  simp only [Made, List.mem_append, or_and_right, exists_or]

/-- A call of a replicator belongs to the leader of its term, and identifies the snapshot when it
installs one. What waits for such a call, what works on it and what answers it go back to the
request. -/
structure CallsInv (cfg : ClusterConfig) (H : History NodeId LogRecord)
    (c : Cluster σ sm.Image) : Prop where
  led : ∀ call, Made c.net call → LedBy H call.caller call.term
  named : ∀ message ∈ c.net, ∀ request, message.payload = .installRequest request →
    request.term = message.call.term
  unique : ∀ call index index', Asks c.net call index → Asks c.net call index' → index = index'
  numbered : ∀ call, Made c.net call →
    (c.members call.caller).Serves call.term → call.seq < (c.members call.caller).rpcStarted
  answered : ∀ message ∈ c.net, message.payload.answers = true → Made c.net message.call
  shipped : ∀ p ∈ cfg.ids, (c.members p).up = true → ∀ peer call index,
    (c.members p).replicators peer = .install call index → Asks c.net call index
  awaited : ∀ p ∈ cfg.ids, (c.members p).up = true → ∀ peer call,
    ((c.members p).replicators peer).Awaits call →
      Made c.net call ∧ call.caller = p ∧ call.callee = peer
  handled : ∀ p ∈ cfg.ids, (c.members p).up = true → ∀ handler, (c.members p).Handles handler →
    ⟨handler.call, .installRequest handler.request⟩ ∈ c.net ∧ handler.call.callee = p ∧
      handler.response.success = false

theorem CallsInv.init : CallsInv cfg emptyHistory (Cluster.init sm cfg) where
  led _ h := by
    obtain ⟨_, hmem, -⟩ := h
    cases hmem
  named _ hmem := by cases hmem
  unique _ _ _ h := by
    obtain ⟨_, hmem, -⟩ := h
    cases hmem
  numbered _ h := by
    obtain ⟨_, hmem, -⟩ := h
    cases hmem
  answered _ hmem := by cases hmem
  shipped _ _ hup := by cases hup
  awaited _ _ hup := by cases hup
  handled _ _ hup := by cases hup

/-- A request that a step sends: its call is made by the process itself, which serves the term. -/
theorem Made.sent {id : NodeId} {net : List (Message sm.Image)} {m m' : Member σ sm.Image}
    {action : Action} {outbox : Member.Outbox sm.Image} {call : CallId}
    (hup : m.up = true) (h : act sm cfg id net m action = some (m', outbox))
    (hmade : Made outbox call) :
    call.caller = m.node.nodeId ∧
      (m.node.role = .leader ∧ m.node.currentTerm = call.term ∨
        (m.replicators call.callee).Ships call.term) ∧
      m.Serves call.term ∧ call.seq = m.rpcStarted ∧ m'.rpcStarted = m.rpcStarted + 1 := by
  obtain ⟨message, hmem, rfl, hasks⟩ := hmade
  obtain ⟨-, horigin⟩ := act_origin h hmem
  obtain ⟨call, payload⟩ := message
  cases payload with
  | appendRequest request =>
    obtain ⟨peer, hrole, hcall, hstarted, -⟩ := horigin
    obtain rfl : call = ⟨m.node.nodeId, peer, m.node.currentTerm, m.rpcStarted⟩ := hcall
    exact ⟨rfl, .inl ⟨hrole, rfl⟩, ⟨hup, .inl ⟨hrole, rfl⟩⟩, rfl, hstarted⟩
  | installRequest request =>
    obtain ⟨peer, term, hships, hcall, -, hstarted, -⟩ := horigin
    obtain rfl : call = ⟨m.node.nodeId, peer, term, m.rpcStarted⟩ := hcall
    exact ⟨rfl, .inr hships, ⟨hup, .inr ⟨peer, hships⟩⟩, rfl, hstarted⟩
  | _ => cases hasks

/-- The replicator waits for the snapshot that a step sends. -/
theorem Asks.sent {id : NodeId} {net : List (Message sm.Image)} {m m' : Member σ sm.Image}
    {action : Action} {outbox : Member.Outbox sm.Image} {call : CallId} {index : Nat}
    (h : act sm cfg id net m action = some (m', outbox)) (hasks : Asks outbox call index) :
    m'.replicators call.callee = .install call index := by
  obtain ⟨request, hmem, rfl⟩ := hasks
  obtain ⟨-, peer, term, -, hcall, -, -, hreplicators⟩ := act_origin h hmem
  obtain rfl : call = ⟨m.node.nodeId, peer, term, m.rpcStarted⟩ := hcall
  rw [hreplicators, Function.update_self]

/-- A response that a step sends answers a request in the network. -/
theorem CallsInv.answer_made {c : Cluster σ sm.Image} {id : NodeId} {m : Member σ sm.Image}
    {action : Action} {outbox : Member.Outbox sm.Image} (h : CallsInv cfg H c)
    (hid : id ∈ cfg.ids) (hup : (c.members id).up = true)
    (hm : act sm cfg id c.net (c.members id) action = some (m, outbox))
    {message : Message sm.Image} (hmem : message ∈ outbox)
    (hanswers : message.payload.answers = true) :
    Made c.net message.call ∧ message.call.callee = id := by
  obtain ⟨-, horigin⟩ := act_origin hm hmem
  obtain ⟨call, payload⟩ := message
  cases payload with
  | appendResponse response =>
    obtain ⟨k, request, _, _, _, -, hk, hcallee, -⟩ := horigin
    exact ⟨⟨_, List.mem_of_getElem? hk, rfl, rfl⟩, hcallee⟩
  | installResponse response =>
    rcases horigin with ⟨request, hnet, hcallee, -⟩ | ⟨handler, hhandler, rfl, -⟩
    · exact ⟨⟨_, hnet, rfl, rfl⟩, hcallee⟩
    · obtain ⟨hnet, hcallee, -⟩ := h.handled id hid hup handler hhandler
      exact ⟨⟨_, hnet, rfl, rfl⟩, hcallee⟩
  | _ => cases hanswers

/-- A call that a step makes is new. -/
theorem CallsInv.fresh {c : Cluster σ sm.Image} {id : NodeId} {m : Member σ sm.Image}
    {action : Action} {outbox : Member.Outbox sm.Image} (h : CallsInv cfg H c)
    (hnode : (c.members id).node.nodeId = id) (hup : (c.members id).up = true)
    (hm : act sm cfg id c.net (c.members id) action = some (m, outbox)) {call : CallId}
    (hnew : Made outbox call) : ¬ Made c.net call := by
  intro hold
  obtain ⟨hcaller, -, hserves, hseq, -⟩ := hnew.sent hup hm
  rw [hnode] at hcaller
  subst hcaller
  exact absurd hseq (h.numbered call hold hserves).ne

theorem CallsInv.act {c : Cluster σ sm.Image} {id : NodeId} {m : Member σ sm.Image}
    {action : Action} {outbox : Member.Outbox sm.Image} (h : CallsInv cfg H c)
    (hsim : SimInv cfg H c) (hext : History.Extends H H') (hid : id ∈ cfg.ids)
    (hup : (c.members id).up = true)
    (hm : CquptRaft.act sm cfg id c.net (c.members id) action = some (m, outbox)) :
    CallsInv cfg H' ⟨Function.update c.members id m, c.net ++ outbox⟩ := by
  obtain ⟨mem, dur, hprocess⟩ := hsim.process hid hup
  have hnode := (hsim.votes.members id hid).nodeId
  have hself : (Function.update c.members id m) id = m := Function.update_self ..
  have hfresh : ∀ call, Made outbox call → ¬ Made c.net call := fun call => h.fresh hnode hup hm
  constructor
  · intro call hmade
    rcases made_append.mp hmade with hold | hnew
    · exact (h.led call hold).mono hext
    · obtain ⟨hcaller, hcase, -⟩ := hnew.sent hup hm
      rw [hcaller, hnode]
      refine LedBy.mono ?_ hext
      rcases hcase with ⟨hrole, hterm⟩ | hships
      · have hled := (hprocess.leader hrole).1.led
        rwa [← hprocess.node.represents.term, hterm] at hled
      · have hreplicator := hprocess.replicators call.callee
        generalize (c.members id).replicators call.callee = replicator at hships hreplicator
        cases replicator with
        | snapshot term =>
          obtain rfl : term = call.term := hships
          exact hreplicator.2
        | boundary term index snapshotTerm =>
          obtain rfl : term = call.term := hships
          exact hreplicator.2.1
        | _ => cases hships
  · intro message hmem request hpayload
    rcases List.mem_append.mp hmem with hold | hnew
    · exact h.named message hold request hpayload
    · obtain ⟨-, horigin⟩ := act_origin hm hnew
      rw [Origin, hpayload] at horigin
      obtain ⟨peer, term, -, hcall, hterm, -⟩ := horigin
      rw [hcall, hterm]
  · intro call index index' hasks hasks'
    rcases asks_append.mp hasks with hold | hnew <;>
      rcases asks_append.mp hasks' with hold' | hnew'
    · exact h.unique call index index' hold hold'
    · exact absurd hold.made (hfresh call hnew'.made)
    · exact absurd hold'.made (hfresh call hnew.made)
    · have hcall := hnew.sent hm
      rw [hnew'.sent hm] at hcall
      cases hcall
      rfl
  · intro call hmade hserves
    by_cases hcaller : call.caller = id
    · subst hcaller
      simp only [hself] at hserves ⊢
      rcases made_append.mp hmade with hold | hnew
      · rcases act_serves hup hm hserves with hbefore | ⟨hrole, hterm⟩
        · exact (h.numbered call hold hbefore).trans_le (act_replicators hm).1
        · -- a candidate has not led its term
          have hfirst := (hprocess.candidate hrole).1.first
          rw [← hprocess.node.represents.term, hterm] at hfirst
          exact absurd (h.led call hold) hfirst
      · obtain ⟨-, -, -, hseq, hstarted⟩ := hnew.sent hup hm
        omega
    · simp only [Function.update_of_ne hcaller] at hserves ⊢
      rcases made_append.mp hmade with hold | hnew
      · exact h.numbered call hold hserves
      · exact absurd ((hnew.sent hup hm).1.trans hnode) hcaller
  · intro message hmem hanswers
    rcases List.mem_append.mp hmem with hold | hnew
    · exact made_append.mpr (.inl (h.answered message hold hanswers))
    · exact made_append.mpr (.inl (h.answer_made hid hup hm hnew hanswers).1)
  · intro p hp hup' peer call index hcall
    by_cases hpid : p = id
    · subst hpid
      simp only [hself] at hcall
      rcases ((act_replicators hm).2 peer).install call index hcall with hold | hnew
      · exact asks_append.mpr (.inl (h.shipped p hp hup peer call index hold))
      · exact asks_append.mpr (.inr hnew)
    · simp only [Function.update_of_ne hpid] at hup' hcall
      exact asks_append.mpr (.inl (h.shipped p hp hup' peer call index hcall))
  · intro p hp hup' peer call hcall
    by_cases hpid : p = id
    · subst hpid
      simp only [hself] at hcall
      rcases ((act_replicators hm).2 peer).awaits call hcall with hold | ⟨hnew, hcaller, hcallee⟩
      · obtain ⟨hmade, hrest⟩ := h.awaited p hp hup peer call hold
        exact ⟨made_append.mpr (.inl hmade), hrest⟩
      · exact ⟨made_append.mpr (.inr hnew), hcaller.trans hnode, hcallee⟩
    · simp only [Function.update_of_ne hpid] at hup' hcall
      obtain ⟨hmade, hrest⟩ := h.awaited p hp hup' peer call hcall
      exact ⟨made_append.mpr (.inl hmade), hrest⟩
  · intro p hp hup' handler hhandler
    by_cases hpid : p = id
    · subst hpid
      simp only [hself] at hhandler
      rcases act_handles hm hhandler with
        ⟨old, hold, hcall, hrequest, hresponse⟩ | ⟨⟨hmem, hrest⟩, -⟩
      · obtain ⟨hmem, hrest⟩ := h.handled p hp hup old hold
        rw [hcall, hrequest] at hmem
        rw [hcall, hresponse] at hrest
        exact ⟨List.mem_append_left _ hmem, hrest⟩
      · exact ⟨List.mem_append_left _ hmem, hrest⟩
    · simp only [Function.update_of_ne hpid] at hup' hhandler
      obtain ⟨hmem, hrest⟩ := h.handled p hp hup' handler hhandler
      exact ⟨List.mem_append_left _ hmem, hrest⟩

theorem CallsInv.restart {c : Cluster σ sm.Image} {id : NodeId} {readable : Nat → Bool}
    {saved : Bool} {replaySaved : Nat → Bool} (h : CallsInv cfg H c)
    (hext : History.Extends H H') (hdown : (c.members id).up = false) :
    CallsInv cfg H' ⟨Function.update c.members id
      ((c.members id).restart sm cfg id readable saved replaySaved), c.net ++ []⟩ := by
  rw [List.append_nil]
  refine ⟨fun call hmade => (h.led call hmade).mono hext, h.named, h.unique, ?_, h.answered, ?_,
    ?_, ?_⟩
  · intro call hmade hserves
    by_cases hcaller : call.caller = id
    · subst hcaller
      simp only [Function.update_self] at hserves
      exact absurd hserves (Member.restart_serves hdown _)
    · simp only [Function.update_of_ne hcaller] at hserves ⊢
      exact h.numbered call hmade hserves
  · intro p hp hup peer call index hcall
    by_cases hpid : p = id
    · subst hpid
      simp only [Function.update_self] at hup hcall
      rw [(Member.restart_threads hdown hup).1 peer] at hcall
      cases hcall
    · simp only [Function.update_of_ne hpid] at hup hcall
      exact h.shipped p hp hup peer call index hcall
  · intro p hp hup peer call hcall
    by_cases hpid : p = id
    · subst hpid
      simp only [Function.update_self] at hup hcall
      rw [(Member.restart_threads hdown hup).1 peer] at hcall
      cases hcall
    · simp only [Function.update_of_ne hpid] at hup hcall
      exact h.awaited p hp hup peer call hcall
  · intro p hp hup handler hhandler
    by_cases hpid : p = id
    · subst hpid
      simp only [Function.update_self] at hup hhandler
      exact absurd hhandler ((Member.restart_threads hdown hup).2 handler)
    · simp only [Function.update_of_ne hpid] at hup hhandler
      exact h.handled p hp hup handler hhandler

theorem CallsInv.step {c c' : Cluster σ sm.Image} {id : NodeId} {action : Action}
    (h : CallsInv cfg H c) (hsim : SimInv cfg H c) (hext : History.Extends H H')
    (hmoved : c.step sm cfg id action = some c') : CallsInv cfg H' c' := by
  obtain ⟨hid, m, outbox, hm, rfl⟩ := Cluster.step_cases hmoved
  rcases memberStep_cases hm with ⟨hup, hm⟩ | ⟨hdown, rfl, _, _, _, -, rfl⟩
  · exact h.act hsim hext hid hup hm
  · exact h.restart hext hdown

end CquptRaft
