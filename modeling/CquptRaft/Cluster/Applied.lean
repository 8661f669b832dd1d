import CquptRaft.Cluster.SimulationRuns
import CquptRaft.Node.Recovery

/-!
# The state machine against the history

Over the simulation, `AppliedInv` says what every map and every snapshot image in the cluster
contains: the first entries of the chosen sequence, applied in order. A node whose `apply_mu_`
is free has the entries up to `last_applied_` in its map.

Four steps can break this. `Member.keepsState` tells when they do not.
-/

namespace CquptRaft

open Replication Voting

variable {σ : Type} {sm : IStateMachine σ} {cfg : ClusterConfig} {H H' : History NodeId LogRecord}
  {members : Finset NodeId} {q : NodeId}

/-! ## States of chosen prefixes -/

/-- `kv` is the state behind the first `i` chosen entries. -/
def StateAt (sm : IStateMachine σ) (H : History NodeId LogRecord) (members : Finset NodeId)
    (i : Nat) (kv : σ) : Prop :=
  ∃ π : List LogRecord, H.Chosen members π ∧ π.length = i ∧
    sm.applyAll sm.initial (π.map LogRecord.command) = some kv

/-- The image is one of the state behind the first `i` chosen entries. -/
def ImageAt (sm : IStateMachine σ) (H : History NodeId LogRecord) (members : Finset NodeId)
    (i : Nat) (image : sm.Image) : Prop :=
  ∃ kv, sm.loadSnapshot image = some kv ∧ StateAt sm H members i kv

/-- The command is that of chosen entry `i`. -/
def ChosenCommand (H : History NodeId LogRecord) (members : Finset NodeId) (i : Nat)
    (command : Bytes) : Prop :=
  ∃ (π : List LogRecord) (record : LogRecord), H.Chosen members (π ++ [record]) ∧
    π.length + 1 = i ∧ record.command = command

theorem StateAt.mono {i : Nat} {kv : σ} (h : StateAt sm H members i kv)
    (hH : H.Valid members LogRecord.term) (hext : History.Extends H H') :
    StateAt sm H' members i kv := by
  obtain ⟨π, hπ, hlen, hkv⟩ := h
  exact ⟨π, hext.chosen hH hπ, hlen, hkv⟩

theorem ImageAt.mono {i : Nat} {image : sm.Image} (h : ImageAt sm H members i image)
    (hH : H.Valid members LogRecord.term) (hext : History.Extends H H') :
    ImageAt sm H' members i image := by
  obtain ⟨kv, hload, hkv⟩ := h
  exact ⟨kv, hload, hkv.mono hH hext⟩

theorem ChosenCommand.mono {i : Nat} {command : Bytes} (h : ChosenCommand H members i command)
    (hH : H.Valid members LogRecord.term) (hext : History.Extends H H') :
    ChosenCommand H' members i command := by
  obtain ⟨π, record, hπ, hlen, hcommand⟩ := h
  exact ⟨π, record, hext.chosen hH hπ, hlen, hcommand⟩

/-- Applying the next chosen entry. -/
theorem StateAt.apply {i : Nat} {kv kv' : σ} {command : Bytes} (h : StateAt sm H members i kv)
    (hH : H.Valid members LogRecord.term) (hcommand : ChosenCommand H members (i + 1) command)
    (happly : sm.apply kv command = .ok kv') : StateAt sm H members (i + 1) kv' := by
  obtain ⟨π, hπ, rfl, hkv⟩ := h
  obtain ⟨ρ, record, hρ, hlen, rfl⟩ := hcommand
  -- two chosen prefixes of one length are the same
  have heq : π = ρ := by
    have hle := (hH.chosen_comparable hπ hρ).le (by simp; omega)
    have htake := List.prefix_iff_eq_take.mp hle
    rwa [List.take_append_of_le_length (by omega), List.take_of_length_le (by omega)] at htake
  subst heq
  refine ⟨π ++ [record], hρ, by simp, ?_⟩
  rw [List.map_append, IStateMachine.applyAll_append, hkv, Option.bind_some]
  simp [IStateMachine.applyAll_cons, happly, Except.toOption]

theorem ImageAt.of_save {i : Nat} {kv : σ} (h : StateAt sm H members i kv) :
    ImageAt sm H members i (sm.saveSnapshot kv) := ⟨kv, sm.load_save kv, h⟩

/-! ## The invariant -/

/-- What the holder of `apply_mu_` has done to the map. -/
def LockInv (sm : IStateMachine σ) (H : History NodeId LogRecord) (members : Finset NodeId)
    (lastApplied : Nat) (kv : σ) : ApplyLock sm.Image → Prop
  | .free | .looping => StateAt sm H members lastApplied kv
  | .picked index command => StateAt sm H members lastApplied kv ∧ index = lastApplied + 1 ∧
    ChosenCommand H members index command
  | .applied index => index = lastApplied + 1 ∧ StateAt sm H members index kv
  | .installing handler => lastApplied ≤ handler.request.lastIncludedIndex ∧
    StateAt sm H members handler.request.lastIncludedIndex kv

/-- The temporary file belongs to the handler that has written it. -/
structure TempInv (sm : IStateMachine σ) (installs : List (InstallHandler sm.Image))
    (installTemp : Option sm.Image) : Prop where
  once : installs.countP (fun handler => handler.phase == .written) ≤ 1
  content : ∀ handler ∈ installs, handler.phase = .written →
    installTemp = some handler.request.snapshotData

def CaptureInv (sm : IStateMachine σ) (H : History NodeId LogRecord) (members : Finset NodeId)
    (lastApplied : Nat) : SnapshotWorker sm.Image → Prop
  | .idle | .pending => True
  | .captured index _ image => index ≤ lastApplied ∧ ImageAt sm H members index image
  | .saved index _ => index ≤ lastApplied

structure AppliedProcess (sm : IStateMachine σ) (H : History NodeId LogRecord)
    (members : Finset NodeId) (m : Member σ sm.Image) : Prop where
  boundary : m.node.lastSnapshotIndex ≤ m.node.lastApplied
  lock : LockInv sm H members m.node.lastApplied m.kv m.apply
  installs : ∀ handler ∈ m.installs,
    ImageAt sm H members handler.request.lastIncludedIndex handler.request.snapshotData
  temp : TempInv sm m.installs m.installTemp
  worker : CaptureInv sm H members m.node.lastApplied m.worker

structure AppliedMember (sm : IStateMachine σ) (H : History NodeId LogRecord)
    (members : Finset NodeId) (m : Member σ sm.Image) : Prop where
  snapshots : ∀ s ∈ m.snapshots, ImageAt sm H members s.index s.image
  process : m.up = true → AppliedProcess sm H members m

/-- A snapshot in flight is one of a chosen prefix. -/
def AppliedMessage (sm : IStateMachine σ) (H : History NodeId LogRecord)
    (members : Finset NodeId) (message : Message sm.Image) : Prop :=
  match message.payload with
  | .installRequest request =>
    ImageAt sm H members request.lastIncludedIndex request.snapshotData
  | _ => True

structure AppliedInv (cfg : ClusterConfig) (H : History NodeId LogRecord)
    (c : Cluster σ sm.Image) : Prop where
  members : ∀ q ∈ cfg.ids, AppliedMember sm H cfg.members (c.members q)
  net : ∀ message ∈ c.net, AppliedMessage sm H cfg.members message

section Mono

variable (hH : H.Valid members LogRecord.term) (hext : History.Extends H H')
include hH hext

theorem LockInv.mono {lastApplied : Nat} {kv : σ} {lock : ApplyLock sm.Image}
    (h : LockInv sm H members lastApplied kv lock) : LockInv sm H' members lastApplied kv lock := by
  cases lock with
  | free | looping => exact StateAt.mono h hH hext
  | picked _ _ => exact ⟨h.1.mono hH hext, h.2.1, h.2.2.mono hH hext⟩
  | applied _ | installing _ => exact ⟨h.1, h.2.mono hH hext⟩

theorem CaptureInv.mono {lastApplied : Nat} {worker : SnapshotWorker sm.Image}
    (h : CaptureInv sm H members lastApplied worker) :
    CaptureInv sm H' members lastApplied worker := by
  cases worker with
  | idle | pending | saved _ _ => exact h
  | captured _ _ _ => exact ⟨h.1, h.2.mono hH hext⟩

theorem AppliedMember.mono {m : Member σ sm.Image} (h : AppliedMember sm H members m) :
    AppliedMember sm H' members m where
  snapshots s hs := (h.snapshots s hs).mono hH hext
  process hup :=
    ⟨(h.process hup).boundary, (h.process hup).lock.mono hH hext,
      fun handler hmem => ((h.process hup).installs handler hmem).mono hH hext,
      (h.process hup).temp, (h.process hup).worker.mono hH hext⟩

theorem AppliedMessage.mono {message : Message sm.Image} (h : AppliedMessage sm H members message) :
    AppliedMessage sm H' members message := by
  revert h
  unfold AppliedMessage
  split
  · exact fun h => h.mono hH hext
  · exact id

end Mono

/-! ## Steps that do not touch the state machine -/

/-- The step leaves map, apply index, snapshots and the threads that work on them alone. -/
structure SameApplied {Image : Type} (m m' : Member σ Image) : Prop where
  up : m'.up = m.up
  node : SameBoundary m.node m'.node
  kv : m'.kv = m.kv
  apply : m'.apply = m.apply
  installs : m'.installs = m.installs
  temp : m'.installTemp = m.installTemp
  worker : m'.worker = m.worker
  snapshots : m'.snapshots = m.snapshots

/-- Nothing but the node moves. -/
theorem SameApplied.of_node {Image : Type} {m : Member σ Image} {n : RaftNode}
    (h : SameBoundary m.node n) : SameApplied m { m with node := n } :=
  ⟨rfl, h, rfl, rfl, rfl, rfl, rfl, rfl⟩

theorem SameApplied.refl {Image : Type} (m : Member σ Image) : SameApplied m m :=
  .of_node (.refl _)

theorem SameApplied.trans {Image : Type} {m m' m'' : Member σ Image} (h : SameApplied m m')
    (h' : SameApplied m' m'') : SameApplied m m'' :=
  ⟨h'.up.trans h.up, h.node.trans h'.node, h'.kv.trans h.kv, h'.apply.trans h.apply,
    h'.installs.trans h.installs, h'.temp.trans h.temp, h'.worker.trans h.worker,
    h'.snapshots.trans h.snapshots⟩

theorem AppliedMember.same {m m' : Member σ sm.Image} (h : AppliedMember sm H members m)
    (hsame : SameApplied m m') : AppliedMember sm H members m' := by
  refine ⟨hsame.snapshots ▸ h.snapshots, fun hup => ?_⟩
  obtain ⟨hboundary, hlock, hinstalls, htemp, hworker⟩ := h.process (hsame.up ▸ hup)
  refine ⟨?_, ?_, ?_, ?_, ?_⟩
  · rw [hsame.node.applied, hsame.node.snapshot]
    exact hboundary
  · rw [hsame.node.applied, hsame.kv, hsame.apply]
    exact hlock
  · rw [hsame.installs]
    exact hinstalls
  · rw [hsame.installs, hsame.temp]
    exact htemp
  · rw [hsame.node.applied, hsame.worker]
    exact hworker

/-- Whether the message carries a snapshot. -/
def Payload.isSnapshot {Image : Type} : Payload Image → Bool
  | .installRequest _ => true
  | _ => false

/-- A step that has nothing to do with the state machine. -/
structure Unrelated {Image : Type} (m m' : Member σ Image) (outbox : Member.Outbox Image) :
    Prop where
  same : SameApplied m m'
  outbox : ∀ message ∈ outbox, message.payload.isSnapshot = false

/-- The actions that touch map, apply index or snapshots. -/
def Action.appliesState : Action → Bool
  | .restart _ _ _ | .crash | .proposal _ _ | .sendSnapshot _ | .onInstallSnapshot _ _
  | .installWrite _ _ | .installSave _ _ | .installLoad _ _ | .installFinish _ | .applyAcquire
  | .applyPick | .applyRun | .applyFinish _ | .onSnapshotTimer | .workerCapture _ | .workerSave _
  | .workerCompact _ | .prune _ => true
  | _ => false

namespace Member

variable {Image : Type} {m m' : Member σ Image} {outbox : Outbox Image}

theorem startElection_unrelated (m : Member σ Image) (saved : Bool) :
    Unrelated m (m.startElection saved).1 (m.startElection saved).2 := by
  have hnode := m.node.startElection_sameBoundary saved
  unfold startElection
  generalize m.node.startElection saved = result at hnode
  obtain ⟨node, started⟩ := result
  cases started with
  | false => exact ⟨.of_node hnode, by simp⟩
  | true =>
    simp only
    split
    · exact ⟨⟨rfl, hnode, rfl, rfl, rfl, rfl, rfl, rfl⟩, by simp⟩
    · refine ⟨⟨rfl, hnode, rfl, rfl, rfl, rfl, rfl, rfl⟩, fun message hmem => ?_⟩
      obtain ⟨call, -, rfl⟩ := List.mem_map.mp hmem
      rfl

theorem onVoteResponse_same (m : Member σ Image) (call : CallId) (response : VoteResponse)
    (saved : Bool) : SameApplied m (m.onVoteResponse call response saved) :=
  ⟨rfl, m.node.onVoteResponse_sameBoundary call.term response saved, rfl, rfl, rfl, rfl, rfl, rfl⟩

theorem countVote_same (m : Member σ Image) (term : Nat) : SameApplied m (m.countVote term) := by
  unfold countVote
  simp only
  split <;> exact ⟨rfl, .refl _, rfl, rfl, rfl, rfl, rfl, rfl⟩

theorem onElectionWon_same (m : Member σ Image) (term : Nat) :
    SameApplied m (m.onElectionWon term) :=
  ⟨rfl, m.node.onElectionWon_sameBoundary term, rfl, rfl, rfl, rfl, rfl, rfl⟩

theorem appendProposal_same (m : Member σ Image) (commandData : Bytes) (saved : Bool) :
    SameApplied m (m.appendProposal commandData saved) := by
  have hnode := m.node.appendLocalLogUnlocked_sameBoundary commandData saved
  unfold appendProposal
  generalize m.node.appendLocalLogUnlocked commandData saved = result at hnode
  obtain ⟨node, index⟩ := result
  simp only
  split <;> exact ⟨rfl, hnode, rfl, rfl, rfl, rfl, rfl, rfl⟩

theorem proposeNoOp_same (m : Member σ Image) (saved : Bool) :
    SameApplied m (m.proposeNoOp saved) := by
  have hcalls : SameApplied m { m with noOpCalls := m.noOpCalls - 1 } :=
    ⟨rfl, .refl _, rfl, rfl, rfl, rfl, rfl, rfl⟩
  unfold proposeNoOp
  simp only
  split
  · exact hcalls.trans (appendProposal_same _ _ saved)
  · exact hcalls

theorem propose_same (m : Member σ Image) (limits : KvRequestLimits) (command : Command)
    (saved : Bool) : SameApplied m (m.propose limits command saved) := by
  unfold propose
  split
  · exact m.appendProposal_same _ saved
  · exact .refl m

theorem setReplicator_same (m : Member σ Image) (peer : NodeId) (call : ReplicatorCall) :
    SameApplied m (m.setReplicator peer call) := ⟨rfl, .refl _, rfl, rfl, rfl, rfl, rfl, rfl⟩

theorem replicateOnce_unrelated {peer : NodeId} (h : m.replicateOnce peer = some (m', outbox)) :
    Unrelated m m' outbox := by
  have hnode := m.node.buildAppendEntriesRequest_sameBoundary peer m.node.currentTerm
  unfold replicateOnce at h
  generalize m.node.buildAppendEntriesRequest peer m.node.currentTerm = result at hnode h
  obtain ⟨node, shipment⟩ := result
  split at h
  · cases shipment with
    | none => cases h
    | snapshot =>
      cases h
      exact ⟨⟨rfl, hnode, rfl, rfl, rfl, rfl, rfl, rfl⟩, by simp⟩
    | append request =>
      cases h
      exact ⟨⟨rfl, hnode, rfl, rfl, rfl, rfl, rfl, rfl⟩, by simp [Payload.isSnapshot]⟩
  · cases h

theorem readBoundary_same {peer : NodeId} (h : m.readBoundary peer = some m') :
    SameApplied m m' := by
  unfold readBoundary at h
  split at h
  · split at h <;> cases h <;> exact m.setReplicator_same peer _
  · cases h

end Member

/-- Every other action is unrelated to the state machine. -/
theorem act_unrelated {id : NodeId} {net : List (Message sm.Image)} {m m' : Member σ sm.Image}
    {action : Action} {outbox : Member.Outbox sm.Image} (hother : action.appliesState = false)
    (h : act sm cfg id net m action = some (m', outbox)) : Unrelated m m' outbox := by
  cases action with
  | start | stop =>
    cases h
    exact ⟨.of_node ⟨rfl, rfl⟩, by simp⟩
  | persist saved =>
    simp only [act] at h
    split at h <;> cases h
    exact ⟨.of_node (.persist (.refl _) saved), by simp⟩
  | startElection saved =>
    have hsame := m.startElection_unrelated saved
    rwa [show m.startElection saved = (m', outbox) from Option.some.inj h] at hsame
  | onRequestVote k termSaved voteSaved =>
    obtain ⟨message, -, h⟩ := Option.bind_eq_some_iff.mp h
    unfold Member.deliverRequestVote at h
    split at h
    · rename_i request _
      cases h
      exact ⟨.of_node (m.node.onRequestVote_sameBoundary request termSaved voteSaved),
        by simp [Payload.isSnapshot]⟩
    · cases h
  | onVoteResponse k saved =>
    obtain ⟨message, -, h⟩ := Option.bind_eq_some_iff.mp h
    unfold Member.deliverVoteResponse at h
    split at h <;> cases h
    exact ⟨m.onVoteResponse_same _ _ saved, by simp⟩
  | countVote T =>
    simp only [act] at h
    split at h <;> cases h
    exact ⟨m.countVote_same T, by simp⟩
  | onElectionWon T =>
    simp only [act] at h
    split at h <;> cases h
    exact ⟨m.onElectionWon_same T, by simp⟩
  | proposeNoOp saved =>
    simp only [act] at h
    split at h <;> cases h
    exact ⟨m.proposeNoOp_same saved, by simp⟩
  | propose command saved =>
    cases h
    exact ⟨m.propose_same _ command saved, by simp⟩
  | replicateOnce peer => exact Member.replicateOnce_unrelated h
  | appendResponse peer k saved =>
    simp only [act] at h
    split at h
    · obtain ⟨message, -, h⟩ := Option.bind_eq_some_iff.mp h
      unfold Member.deliverAppendResponse at h
      split at h <;> cases h
      exact ⟨(SameApplied.of_node
        (m.node.handleAppendEntriesResponse_sameBoundary _ _ _ saved)).trans
        (Member.setReplicator_same _ peer _), by simp⟩
    · cases h
  | installResponse peer k saved =>
    simp only [act] at h
    split at h
    · obtain ⟨message, -, h⟩ := Option.bind_eq_some_iff.mp h
      unfold Member.deliverInstallResponse at h
      split at h <;> cases h
      exact ⟨(SameApplied.of_node
        (m.node.handleInstallSnapshotResponse_sameBoundary _ _ _ _ saved)).trans
        (Member.setReplicator_same _ peer _), by simp⟩
    · cases h
  | appendFailed peer | installFailed peer | finishRpc peer =>
    simp only [act] at h
    split at h <;> cases h <;> exact ⟨m.setReplicator_same peer _, by simp⟩
  | readBoundary peer =>
    obtain ⟨_, hmoved, heq⟩ := Option.map_eq_some_iff.mp h
    cases heq
    exact ⟨Member.readBoundary_same hmoved, by simp⟩
  | onAppendEntries k termSaved logSaved commitSaved =>
    obtain ⟨message, -, h⟩ := Option.bind_eq_some_iff.mp h
    unfold Member.deliverAppendEntries at h
    split at h
    · rename_i request _
      cases h
      exact ⟨.of_node (m.node.onAppendEntries_sameBoundary request termSaved logSaved commitSaved),
        by simp [Payload.isSnapshot]⟩
    · cases h
  | _ => cases hother

end CquptRaft
