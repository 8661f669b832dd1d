import CquptRaft.Cluster.Environment
import Mathlib.Logic.Relation

/-!
# Reported terms

Every response and every request of a node carries its term. A term that has been reported must
survive a crash, or the node could report a lower one afterwards. It does as long as no `Save` of
a higher term fails: `BecomeFollowerLocked` keeps in memory a term that it could not save, and
the handlers report it all the same. `StartElection` takes its new term back instead.
-/

namespace CquptRaft

variable {σ : Type} {sm : IStateMachine σ} {cfg : ClusterConfig}

/-! ## A member and what it has sent -/

structure Solo (σ Image : Type) where
  member : Member σ Image
  sent : List (Message Image)

namespace Solo

variable (sm cfg) in
/-- A step that is allowed among the messages around it, which may be any. -/
def StepWhen (id : NodeId)
    (allowed : List (Message sm.Image) → Member σ sm.Image → Action → Prop)
    (s s' : Solo σ sm.Image) : Prop :=
  ∃ net action m outbox, allowed net s.member action ∧
    memberStep sm cfg id net s.member action = some (m, outbox) ∧ s' = ⟨m, s.sent ++ outbox⟩

variable (sm cfg) in
/-- Nothing on the disk and nothing sent. -/
def fresh (id : NodeId) : Solo σ sm.Image := ⟨Member.fresh sm id (cfg.peers id), []⟩

end Solo

/-- The term that a message reports. -/
def Payload.term {Image : Type} : Payload Image → Nat
  | .voteRequest request => request.term
  | .voteResponse response => response.term
  | .appendRequest request => request.term
  | .appendResponse response => response.term
  | .installRequest request => request.term
  | .installResponse response => response.term

/-! ## Terms in memory and on disk -/

/-- The term a restart begins with. -/
def RaftNode.durableTerm (n : RaftNode) : Nat :=
  match n.storage with
  | none => 0
  | some s => s.currentTerm

/-- The term does not go back, and stays durable. -/
structure TermKept (n n' : RaftNode) : Prop where
  mono : n.currentTerm ≤ n'.currentTerm
  durable : n.currentTerm = n.durableTerm → n'.currentTerm = n'.durableTerm

namespace RaftNode

variable (n : RaftNode)

@[grind =] theorem durableTerm_persistStateLocked (saved : Bool) :
    (n.persistStateLocked saved).durableTerm = if saved then n.currentTerm else n.durableTerm := by
  cases saved <;> rfl

theorem persistStateLocked_termKept (saved : Bool) : TermKept n (n.persistStateLocked saved) := by
  constructor <;> grind [persistStateLocked_currentTerm]

theorem becomeFollowerLocked_termKept {newTerm : Nat} (newLeader : NodeId) {saved : Bool}
    (hsaved : n.currentTerm < newTerm → saved = true) :
    TermKept n (n.becomeFollowerLocked newTerm newLeader saved).1 := by
  constructor <;>
    grind [becomeFollowerLocked, resetElectionTimerLocked, cancelElectionTimerLocked,
      durableTerm, persistentState, persistStateLocked]

theorem acceptLeaderLocked_termKept {term : Nat} (leaderId : NodeId) {saved : Bool}
    (hsaved : n.currentTerm < term → saved = true) :
    TermKept n (n.acceptLeaderLocked term leaderId saved).1 := by
  have := n.becomeFollowerLocked_termKept leaderId hsaved
  constructor <;>
    grind [TermKept, acceptLeaderLocked, resetElectionTimerLocked, cancelElectionTimerLocked,
      durableTerm]

theorem startElection_termKept (saved : Bool) : TermKept n (n.startElection saved).1 := by
  constructor <;>
    grind [startElection, resetElectionTimerLocked, cancelElectionTimerLocked, durableTerm,
      persistentState, persistStateLocked]

theorem onRequestVote_termKept {request : VoteRequest} {termSaved : Bool}
    (hsaved : n.currentTerm < request.term → termSaved = true) (voteSaved : Bool) :
    TermKept n (n.onRequestVote request termSaved voteSaved).1 ∧
      (n.onRequestVote request termSaved voteSaved).2.term ≤
        (n.onRequestVote request termSaved voteSaved).1.currentTerm := by
  have := n.becomeFollowerLocked_termKept (-1) hsaved
  refine ⟨⟨?_, ?_⟩, ?_⟩ <;>
    grind [TermKept, onRequestVote, resetElectionTimerLocked, cancelElectionTimerLocked,
      durableTerm, persistentState, persistStateLocked]

theorem onVoteResponse_termKept {response : VoteResponse} {saved : Bool}
    (hsaved : n.currentTerm < response.term → saved = true) (term : Nat) :
    TermKept n (n.onVoteResponse term response saved).1 := by
  have := n.becomeFollowerLocked_termKept (-1) hsaved
  constructor <;> grind [TermKept, onVoteResponse]

theorem onElectionWon_termKept (term : Nat) : TermKept n (n.onElectionWon term).1 := by
  constructor <;>
    grind [onElectionWon, becomeLeaderLocked, cancelElectionTimerLocked, durableTerm]

theorem appendLocalLogUnlocked_termKept (commandData : Bytes) (saved : Bool) :
    TermKept n (n.appendLocalLogUnlocked commandData saved).1 := by
  constructor <;>
    grind [appendLocalLogUnlocked, durableTerm, persistentState, persistStateLocked]

theorem advanceCommitIndexUnlocked_termKept (saved : Bool) :
    TermKept n (n.advanceCommitIndexUnlocked saved) := by
  constructor <;>
    grind [advanceCommitIndexUnlocked, durableTerm, persistentState, persistStateLocked]

theorem buildAppendEntriesRequest_termKept (peer : NodeId) (leaderTerm : Nat) :
    TermKept n (n.buildAppendEntriesRequest peer leaderTerm).1 := by
  constructor <;> grind [buildAppendEntriesRequest, durableTerm]

theorem buildAppendEntriesRequest_term {peer : NodeId} {leaderTerm : Nat} {n' : RaftNode}
    {request : AppendEntriesRequest}
    (h : n.buildAppendEntriesRequest peer leaderTerm = (n', .append request)) :
    request.term = n'.currentTerm := by
  grind [buildAppendEntriesRequest, appendRequestFrom]

theorem handleAppendEntriesResponse_termKept {response : AppendEntriesResponse} {saved : Bool}
    (hsaved : n.currentTerm < response.term → saved = true) (peer : NodeId) (leaderTerm : Nat) :
    TermKept n (n.handleAppendEntriesResponse peer leaderTerm response saved) := by
  have := n.becomeFollowerLocked_termKept (-1) hsaved
  constructor <;>
    grind [TermKept, handleAppendEntriesResponse, advanceCommitIndexUnlocked, durableTerm,
      persistentState, persistStateLocked]

theorem handleInstallSnapshotResponse_termKept {response : InstallSnapshotResponse} {saved : Bool}
    (hsaved : n.currentTerm < response.term → saved = true) (peer : NodeId)
    (leaderTerm lastIncludedIndex : Nat) :
    TermKept n
      (n.handleInstallSnapshotResponse peer leaderTerm lastIncludedIndex response saved) := by
  have := n.becomeFollowerLocked_termKept (-1) hsaved
  constructor <;> grind [TermKept, handleInstallSnapshotResponse, durableTerm]

theorem appendEntriesBody_termKept (request : AppendEntriesRequest)
    (logSaved commitSaved : Bool) :
    TermKept n (n.appendEntriesBody request logSaved commitSaved).1 ∧
      (n.appendEntriesBody request logSaved commitSaved).2.1.term = n.currentTerm := by
  have hframe := appendLoop_frame request.entries ⟨n, false, request.prevLogIndex⟩
  unfold appendEntriesBody
  split <;> rename_i heq <;> rw [heq] at hframe
  · refine ⟨⟨?_, ?_⟩, ?_⟩ <;>
      grind [setAppendEntriesConflictHintLocked, appendEntriesResponse, durableTerm]
  · refine ⟨⟨?_, ?_⟩, ?_⟩ <;>
      grind [appendEntriesResponse, durableTerm, persistentState, persistStateLocked]

theorem onAppendEntries_termKept {request : AppendEntriesRequest} {termSaved : Bool}
    (hsaved : n.currentTerm < request.term → termSaved = true) (logSaved commitSaved : Bool) :
    TermKept n (n.onAppendEntries request termSaved logSaved commitSaved).1 ∧
      (n.onAppendEntries request termSaved logSaved commitSaved).2.1.term ≤
        (n.onAppendEntries request termSaved logSaved commitSaved).1.currentTerm := by
  have haccept := n.acceptLeaderLocked_termKept request.leaderId hsaved
  have hbody := (n.acceptLeaderLocked request.term request.leaderId
    termSaved).1.appendEntriesBody_termKept request logSaved commitSaved
  refine ⟨⟨?_, ?_⟩, ?_⟩ <;>
    grind [TermKept, onAppendEntries, setAppendEntriesConflictHintLocked, appendEntriesResponse]

theorem installCheck_termKept {Image : Type} {request : InstallSnapshotRequest Image} {saved : Bool}
    (hsaved : n.currentTerm < request.term → saved = true) (enabled : Bool) :
    TermKept n (n.installCheck enabled request saved).1 ∧
      ∀ response, (n.installCheck enabled request saved).2 = some response →
        response.term ≤ (n.installCheck enabled request saved).1.currentTerm := by
  have := n.acceptLeaderLocked_termKept request.leaderId hsaved
  refine ⟨⟨?_, ?_⟩, ?_⟩ <;> grind [TermKept, installCheck, installResponse]

theorem compactLogPrefixLocked_term (index term : Nat) :
    (n.compactLogPrefixLocked index term).currentTerm = n.currentTerm ∧
      (n.compactLogPrefixLocked index term).durableTerm = n.durableTerm := by
  grind [compactLogPrefixLocked, restoreLogAfterSnapshotLocked, durableTerm]

theorem installFinish_termKept {Image : Type} (request : InstallSnapshotRequest Image)
    (response : InstallSnapshotResponse) (saved : Bool) :
    TermKept n (n.installFinish request response saved).1 ∧
      (n.installFinish request response saved).2.term ≤
        (n.installFinish request response saved).1.currentTerm := by
  have := n.compactLogPrefixLocked_term request.lastIncludedIndex request.lastIncludedTerm
  refine ⟨⟨?_, ?_⟩, ?_⟩ <;>
    grind [installFinish, adoptSnapshotLocked, durableTerm, persistentState, persistStateLocked]

theorem applyPick_termKept : TermKept n n.applyPick.1 := by
  constructor <;> grind [applyPick, durableTerm]

theorem applyFinish_termKept (index : Nat) (saved : Bool) :
    TermKept n (n.applyFinish index saved).1 := by
  constructor <;> grind [applyFinish, durableTerm, persistentState, persistStateLocked]

theorem compactAfterSnapshot_termKept (index term : Nat) (saved : Bool) :
    TermKept n (n.compactAfterSnapshot index term saved) := by
  have := n.compactLogPrefixLocked_term index term
  constructor <;> grind [compactAfterSnapshot, durableTerm, persistentState, persistStateLocked]

end RaftNode

/-! ## Steps -/

/-- No message raises the node to a term that it cannot save. -/
def Member.savesTerm {Image : Type} (net : List (Message Image)) (m : Member σ Image) :
    Action → Bool
  | .onRequestVote k saved _ | .onVoteResponse k saved | .appendResponse _ k saved
  | .installResponse _ k saved | .onAppendEntries k saved _ _ | .onInstallSnapshot k saved =>
    saved || net[k]?.all fun message => decide (message.payload.term ≤ m.node.currentTerm)
  | _ => true

/-- The term of a `SendInstallSnapshotToPeer` that has not called yet. -/
def ReplicatorCall.term : ReplicatorCall → Nat
  | .snapshot term | .boundary term _ _ => term
  | _ => 0

/-- The term in memory is durable, and no thread is about to report a later one. -/
structure TermInv {Image : Type} (m : Member σ Image) : Prop where
  durable : m.node.currentTerm = m.node.durableTerm
  replicators : ∀ peer, (m.replicators peer).term ≤ m.node.currentTerm
  installs : ∀ handler ∈ m.installs, handler.response.term ≤ m.node.currentTerm

/-- What a step establishes. -/
structure TermStep {Image : Type} (m m' : Member σ Image) (outbox : Member.Outbox Image) :
    Prop where
  kept : TermKept m.node m'.node
  replicators : ∀ peer, (m'.replicators peer).term ≤ m'.node.currentTerm
  installs : ∀ handler ∈ m'.installs, handler.response.term ≤ m'.node.currentTerm
  outbox : ∀ message ∈ outbox, message.payload.term ≤ m'.node.currentTerm

theorem Member.receive_term {Image : Type} {net : List (Message Image)} {k : Nat}
    {accepts : CallId → Bool} {message : Message Image}
    (hreceive : Member.receive net k accepts = some message) {m : Member σ Image} {saved : Bool}
    (hsaves : (saved || net[k]?.all fun message =>
      decide (message.payload.term ≤ m.node.currentTerm)) = true) :
    m.node.currentTerm < message.payload.term → saved = true := by
  grind [Member.receive]

/-- A step that leaves the threads alone. -/
theorem TermInv.same {Image : Type} {m m' : Member σ Image} {outbox : Member.Outbox Image}
    (h : TermInv m) (hkept : TermKept m.node m'.node)
    (hreplicators : m'.replicators = m.replicators) (hinstalls : m'.installs = m.installs)
    (houtbox : ∀ message ∈ outbox, message.payload.term ≤ m'.node.currentTerm) :
    TermStep m m' outbox where
  kept := hkept
  replicators peer := (hreplicators ▸ h.replicators peer).trans hkept.mono
  installs handler hmem := (h.installs handler (hinstalls ▸ hmem)).trans hkept.mono
  outbox := houtbox

theorem TermKept.refl (n : RaftNode) : TermKept n n := ⟨le_rfl, fun h => h⟩

/-- The node moves and one replicator goes on. -/
theorem TermInv.moveReplicator {Image : Type} {m m' : Member σ Image}
    {outbox : Member.Outbox Image} (h : TermInv m) (hkept : TermKept m.node m'.node)
    {peer : NodeId} {call : ReplicatorCall} (hcall : call.term ≤ m'.node.currentTerm)
    (hreplicators : m'.replicators = Function.update m.replicators peer call)
    (hinstalls : m'.installs = m.installs)
    (houtbox : ∀ message ∈ outbox, message.payload.term ≤ m'.node.currentTerm) :
    TermStep m m' outbox where
  kept := hkept
  replicators p := by
    rw [hreplicators, Function.update_apply]
    split
    · exact hcall
    · exact (h.replicators p).trans hkept.mono
  installs handler hmem := (h.installs handler (hinstalls ▸ hmem)).trans hkept.mono
  outbox := houtbox

theorem TermInv.setReplicator {Image : Type} {m : Member σ Image} (h : TermInv m) (peer : NodeId)
    {call : ReplicatorCall} (hcall : call.term ≤ m.node.currentTerm) :
    TermStep m (m.setReplicator peer call) [] :=
  h.moveReplicator (.refl m.node) hcall rfl rfl (by simp)

theorem TermInv.failInstall {Image : Type} {m m' : Member σ Image} (h : TermInv m) {k : Nat}
    {handler : InstallHandler Image} (hk : m.installs[k]? = some handler) (message : String)
    (hnode : m'.node = m.node) (hreplicators : m'.replicators = m.replicators)
    (hinstalls : m'.installs = m.installs.eraseIdx k) :
    TermStep m m' [⟨handler.call, .installResponse { handler.response with message }⟩] where
  kept := hnode ▸ .refl m.node
  replicators peer := by
    rw [hreplicators, hnode]
    exact h.replicators peer
  installs other hmem := by
    rw [hinstalls] at hmem
    rw [hnode]
    exact h.installs other (List.mem_of_mem_eraseIdx hmem)
  outbox := by
    have := h.installs handler (List.mem_of_getElem? hk)
    simpa [hnode, Payload.term] using this

theorem TermInv.advanceInstall {Image : Type} {m m' : Member σ Image} (h : TermInv m) {k : Nat}
    {handler : InstallHandler Image} (hk : m.installs[k]? = some handler) (phase : InstallPhase)
    (hnode : m'.node = m.node) (hreplicators : m'.replicators = m.replicators)
    (hinstalls : m'.installs = m.installs.set k { handler with phase }) : TermStep m m' [] where
  kept := hnode ▸ .refl m.node
  replicators peer := by
    rw [hreplicators, hnode]
    exact h.replicators peer
  installs other hmem := by
    rw [hinstalls] at hmem
    rw [hnode]
    rcases List.mem_or_eq_of_mem_set hmem with hold | rfl
    · exact h.installs other hold
    · exact h.installs handler (List.mem_of_getElem? hk)
  outbox := by simp

theorem TermInv.act {id : NodeId} {net : List (Message sm.Image)} {m m' : Member σ sm.Image}
    {action : Action} {outbox : Member.Outbox sm.Image} (h : TermInv m)
    (hsaves : m.savesTerm net action = true)
    (hstep : CquptRaft.act sm cfg id net m action = some (m', outbox)) :
    TermStep m m' outbox := by
  have hrefl := TermKept.refl m.node
  cases action with
  | restart _ _ _ => cases hstep
  | start | stop | crash | prune _ =>
    cases hstep
    exact h.same ⟨le_rfl, fun hd => hd⟩ rfl rfl (by simp)
  | persist saved =>
    simp only [CquptRaft.act] at hstep
    split at hstep <;> cases hstep
    exact h.same (m.node.persistStateLocked_termKept saved) rfl rfl (by simp)
  | applyAcquire | onSnapshotTimer =>
    refine h.same ⟨?_, ?_⟩ ?_ ?_ ?_ <;> grind [CquptRaft.act]
  | countVote _ =>
    refine h.same ⟨?_, ?_⟩ ?_ ?_ ?_ <;> grind [CquptRaft.act, Member.countVote]
  | applyPick | applyRun | applyFinish _ | workerCapture _ | workerSave _ | workerCompact _ =>
    have hpick := m.node.applyPick_termKept
    have hfinish := m.node.applyFinish_termKept
    have hcompact := m.node.compactAfterSnapshot_termKept
    obtain ⟨_, hmoved, heq⟩ := Option.map_eq_some_iff.mp hstep
    cases heq
    refine h.same ⟨?_, ?_⟩ ?_ ?_ (by simp) <;>
      grind [Member.applyPick, Member.applyRun, Member.applyFinish, Member.workerCapture,
        Member.workerSave, Member.workerCompact, TermKept]
  | appendFailed peer | installFailed peer | finishRpc peer =>
    simp only [CquptRaft.act] at hstep
    split at hstep <;> cases hstep <;> exact h.setReplicator peer (Nat.zero_le _)
  | startElection saved =>
    have hkept := m.node.startElection_termKept saved
    refine h.same ⟨?_, ?_⟩ ?_ ?_ ?_ <;>
      grind [CquptRaft.act, Member.startElection, TermKept, Payload.term, RaftNode.voteRequest]
  | onRequestVote k termSaved voteSaved =>
    obtain ⟨message, hreceive, hstep⟩ := Option.bind_eq_some_iff.mp hstep
    have hterm := Member.receive_term hreceive hsaves
    cases hp : message.payload with
    | voteRequest request =>
      rw [hp] at hterm
      have hkept := m.node.onRequestVote_termKept hterm voteSaved
      refine h.same ⟨?_, ?_⟩ ?_ ?_ ?_ <;>
        grind [Member.deliverRequestVote, TermKept, Payload.term]
    | _ => grind [Member.deliverRequestVote]
  | onVoteResponse k saved =>
    obtain ⟨message, hreceive, hstep⟩ := Option.bind_eq_some_iff.mp hstep
    have hterm := Member.receive_term hreceive hsaves
    cases hp : message.payload with
    | voteResponse response =>
      rw [hp] at hterm
      have hkept := m.node.onVoteResponse_termKept hterm message.call.term
      refine h.same ⟨?_, ?_⟩ ?_ ?_ ?_ <;>
        grind [Member.deliverVoteResponse, Member.onVoteResponse, TermKept]
    | _ => grind [Member.deliverVoteResponse]
  | onElectionWon term =>
    have hkept := m.node.onElectionWon_termKept term
    refine h.same ⟨?_, ?_⟩ ?_ ?_ ?_ <;> grind [CquptRaft.act, Member.onElectionWon, TermKept]
  | proposeNoOp saved =>
    have hkept := m.node.appendLocalLogUnlocked_termKept kInternalNoOpCommand saved
    refine h.same ⟨?_, ?_⟩ ?_ ?_ ?_ <;>
      grind [CquptRaft.act, Member.proposeNoOp, Member.appendProposal, TermKept]
  | propose command saved =>
    have hkept := m.node.appendLocalLogUnlocked_termKept command.serialize saved
    refine h.same ⟨?_, ?_⟩ ?_ ?_ ?_ <;>
      grind [CquptRaft.act, Member.propose, Member.appendProposal, TermKept]
  | proposal k step =>
    obtain ⟨m₁, hmoved, heq⟩ := Option.map_eq_some_iff.mp hstep
    cases heq
    obtain ⟨p, node, phase, -, hprop, rfl⟩ := Member.proposal_cases hmoved
    refine h.same ?_ rfl rfl (by simp)
    obtain rfl | ⟨saved, rfl⟩ | rfl := Member.proposeStep_cases hprop
    · exact hrefl
    · exact m.node.advanceCommitIndexUnlocked_termKept saved
    · exact m.node.applyPick_termKept
  | readBoundary peer =>
    obtain ⟨m₁, hmoved, heq⟩ := Option.map_eq_some_iff.mp hstep
    cases heq
    have hpeer := h.replicators peer
    unfold Member.readBoundary at hmoved
    split at hmoved
    · rename_i term hcall
      rw [hcall] at hpeer
      split at hmoved <;> cases hmoved
      · exact h.setReplicator peer (Nat.zero_le _)
      · exact h.setReplicator peer hpeer
    · cases hmoved
  | sendSnapshot peer =>
    have hpeer := h.replicators peer
    simp only [CquptRaft.act, Member.sendSnapshot] at hstep
    split at hstep
    · rename_i term index snapshotTerm hcall
      rw [hcall] at hpeer
      split at hstep <;> cases hstep
      · exact h.setReplicator peer (Nat.zero_le _)
      · refine h.moveReplicator hrefl ?_ rfl rfl ?_
        · exact Nat.zero_le _
        · simpa [Payload.term, Member.setReplicator, ReplicatorCall.term] using hpeer
    · cases hstep
  | replicateOnce peer =>
    have hkept := m.node.buildAppendEntriesRequest_termKept peer m.node.currentTerm
    simp only [CquptRaft.act, Member.replicateOnce] at hstep
    split at hstep
    · split at hstep
      · cases hstep
      · rename_i node hbuild
        rw [hbuild] at hkept
        cases hstep
        refine h.moveReplicator hkept ?_ rfl rfl (by simp)
        exact le_rfl
      · rename_i node request hbuild
        rw [hbuild] at hkept
        cases hstep
        refine h.moveReplicator hkept ?_ rfl rfl ?_
        · exact Nat.zero_le _
        · have hterm := m.node.buildAppendEntriesRequest_term hbuild
          simpa [Payload.term, Member.setReplicator] using hterm.le
    · cases hstep
  | appendResponse peer k saved =>
    simp only [CquptRaft.act] at hstep
    split at hstep
    · obtain ⟨message, hreceive, hstep⟩ := Option.bind_eq_some_iff.mp hstep
      have hterm := Member.receive_term hreceive hsaves
      unfold Member.deliverAppendResponse at hstep
      split at hstep
      · rename_i response hp
        rw [hp] at hterm
        cases hstep
        have hkept := m.node.handleAppendEntriesResponse_termKept hterm peer message.call.term
        refine h.moveReplicator hkept ?_ rfl rfl (by simp)
        exact Nat.zero_le _
      · cases hstep
    · cases hstep
  | installResponse peer k saved =>
    simp only [CquptRaft.act] at hstep
    split at hstep
    · rename_i index _
      obtain ⟨message, hreceive, hstep⟩ := Option.bind_eq_some_iff.mp hstep
      have hterm := Member.receive_term hreceive hsaves
      unfold Member.deliverInstallResponse at hstep
      split at hstep
      · rename_i response hp
        rw [hp] at hterm
        cases hstep
        have hkept :=
          m.node.handleInstallSnapshotResponse_termKept hterm peer message.call.term index
        refine h.moveReplicator hkept ?_ rfl rfl (by simp)
        exact Nat.zero_le _
      · cases hstep
    · cases hstep
  | onAppendEntries k termSaved logSaved commitSaved =>
    obtain ⟨message, hreceive, hstep⟩ := Option.bind_eq_some_iff.mp hstep
    have hterm := Member.receive_term hreceive hsaves
    cases hp : message.payload with
    | appendRequest request =>
      rw [hp] at hterm
      have hkept := m.node.onAppendEntries_termKept hterm logSaved commitSaved
      refine h.same ⟨?_, ?_⟩ ?_ ?_ ?_ <;>
        grind [Member.deliverAppendEntries, TermKept, Payload.term]
    | _ => grind [Member.deliverAppendEntries]
  | onInstallSnapshot k saved =>
    obtain ⟨message, hreceive, hstep⟩ := Option.bind_eq_some_iff.mp hstep
    have hterm := Member.receive_term hreceive hsaves
    cases hp : message.payload with
    | installRequest request =>
      rw [hp] at hterm
      have hkept := m.node.installCheck_termKept hterm (cfg.snapshot id).enabled
      simp only [Member.deliverInstallSnapshot, hp, Member.onInstallSnapshot] at hstep
      split at hstep <;> rename_i heq <;> rw [heq] at hkept <;> cases hstep
      · exact h.same hkept.1 rfl rfl (by simpa [Payload.term] using hkept.2)
      · refine ⟨hkept.1, fun peer => (h.replicators peer).trans hkept.1.mono, ?_, by simp⟩
        intro handler hmem
        rcases List.mem_append.mp hmem with hold | hnew
        · exact (h.installs handler hold).trans hkept.1.mono
        · rw [List.mem_singleton.mp hnew]
          exact hkept.1.mono
    | _ => grind [Member.deliverInstallSnapshot]
  | installWrite k ok =>
    simp only [CquptRaft.act, Member.installWrite] at hstep
    split at hstep
    · rename_i handler hk
      split at hstep
      · split at hstep <;> cases hstep
        · exact h.advanceInstall hk .written rfl rfl rfl
        · exact h.failInstall hk _ rfl rfl rfl
      · cases hstep
    · cases hstep
  | installSave k outcome =>
    simp only [CquptRaft.act, Member.installSave] at hstep
    split at hstep
    · rename_i handler hk
      split at hstep
      · split at hstep <;> cases hstep
        · exact h.advanceInstall hk .saved rfl rfl rfl
        · exact h.failInstall hk _ rfl rfl rfl
      · cases hstep
    · cases hstep
  | installLoad k ok =>
    simp only [CquptRaft.act, Member.installLoad] at hstep
    split at hstep
    · rename_i handler hk _
      split at hstep
      · split at hstep <;> cases hstep
        · refine ⟨hrefl, h.replicators, fun other hmem => ?_, by simp⟩
          exact h.installs other (List.mem_of_mem_eraseIdx hmem)
        · exact h.failInstall hk _ rfl rfl rfl
      · cases hstep
    · cases hstep
  | installFinish saved =>
    simp only [CquptRaft.act, Member.installFinish] at hstep
    split at hstep
    · rename_i handler _
      have hkept := m.node.installFinish_termKept handler.request handler.response saved
      cases hstep
      exact h.same hkept.1 rfl rfl (by simpa [Payload.term] using hkept.2)
    · cases hstep

/-- A restart begins with the durable term. -/
theorem Member.restart_term (m : Member σ sm.Image) (cfg : ClusterConfig) (id : NodeId)
    (readable : Nat → Bool) (saved : Bool) (replaySaved : Nat → Bool) :
    (m.restart sm cfg id readable saved replaySaved).node.durableTerm = m.node.durableTerm ∧
      (m.up = false → (m.restart sm cfg id readable saved replaySaved).up = true →
        TermInv (m.restart sm cfg id readable saved replaySaved)) := by
  have hterm : ∀ n : RaftNode, n = RaftNode.recover id (cfg.peers id) m.node.storage →
      n.currentTerm = m.node.durableTerm ∧ n.durableTerm = m.node.durableTerm := by
    rintro n rfl
    cases hs : m.node.storage <;>
      simp [RaftNode.recover, RaftNode.durableTerm, hs, clampRecoveredHardState]
  have hinduct := m.restart_induct
    (P := fun n => n.currentTerm = m.node.durableTerm ∧ n.durableTerm = m.node.durableTerm)
    cfg id readable saved replaySaved
    (fun n kv hload => by
      have hrecovered := hterm _ rfl
      generalize RaftNode.recover id (cfg.peers id) m.node.storage = n₀ at hload hrecovered
      have hcompact := n₀.compactLogPrefixLocked_term
      grind [RaftNode.loadLatestSnapshotOnStartup, RaftNode.persistStateLocked,
        RaftNode.persistentState, RaftNode.durableTerm])
    (fun n h => by
      have := n.applyPick_termKept
      grind [RaftNode.applyPick, RaftNode.durableTerm])
    (fun n index saved h _ => by
      grind [RaftNode.applyFinish, RaftNode.persistStateLocked, RaftNode.persistentState,
        RaftNode.durableTerm])
  rcases hinduct with ⟨n, kv, hn, heq⟩ | ⟨storage, hstorage, heq⟩ <;> rw [heq]
  · refine ⟨hn.2, fun _ _ => ⟨hn.1.trans hn.2.symm, fun peer => ?_, fun handler hmem => ?_⟩⟩
    · exact Nat.zero_le _
    · cases hmem
  · refine ⟨?_, fun hdown hup => by simp [hdown] at hup⟩
    rcases hstorage with rfl | ⟨n, hn, rfl⟩
    · rfl
    · exact hn.2

/-! ## Runs -/

/-- What has been sent is covered by the disk. -/
structure SoloInv {Image : Type} (s : Solo σ Image) : Prop where
  sent : ∀ message ∈ s.sent, message.payload.term ≤ s.member.node.durableTerm
  member : s.member.up = true → TermInv s.member

/-- The step saves every higher term it learns of. -/
def SavesTerm {Image : Type} (net : List (Message Image)) (m : Member σ Image) (action : Action) :
    Prop :=
  m.savesTerm net action = true

instance {Image : Type} (net : List (Message Image)) (m : Member σ Image) (action : Action) :
    Decidable (SavesTerm net m action) := inferInstanceAs (Decidable (_ = _))

theorem SoloInv.step {id : NodeId} {s s' : Solo σ sm.Image} (h : SoloInv s)
    (hstep : Solo.StepWhen sm cfg id SavesTerm s s') : SoloInv s' := by
  obtain ⟨net, action, m, outbox, hsaves, hmoved, rfl⟩ := hstep
  rcases memberStep_cases hmoved with
    ⟨hup, hmoved⟩ | ⟨hdown, rfl, readable, saved, replaySaved, -, rfl⟩
  · have hinv := h.member hup
    have hstep := hinv.act hsaves hmoved
    have hdurable := hstep.kept.durable hinv.durable
    refine ⟨fun message hmem => ?_, fun _ => ⟨hdurable, hstep.replicators, hstep.installs⟩⟩
    rcases List.mem_append.mp hmem with hold | hnew
    · have hsent := h.sent message hold
      have hmono := hstep.kept.mono
      have hbefore := hinv.durable
      simp only
      omega
    · exact hdurable ▸ hstep.outbox message hnew
  · have hrestart := s.member.restart_term cfg id readable saved replaySaved
    refine ⟨fun message hmem => ?_, fun hup => hrestart.2 hdown hup⟩
    rw [List.append_nil] at hmem
    exact hrestart.1 ▸ h.sent message hmem

theorem SoloInv.fresh (id : NodeId) : SoloInv (Solo.fresh sm cfg id) where
  sent := by simp [Solo.fresh]
  member hup := by cases hup

theorem SoloInv.run {id : NodeId} {s s' : Solo σ sm.Image} (h : SoloInv s)
    (hrun : Relation.ReflTransGen (Solo.StepWhen sm cfg id SavesTerm) s s') :
    SoloInv s' ∧ s.sent ⊆ s'.sent := by
  induction hrun with
  | refl => exact ⟨h, List.Subset.refl _⟩
  | tail _ hstep ih =>
    refine ⟨ih.1.step hstep, List.Subset.trans ih.2 ?_⟩
    obtain ⟨_, _, _, _, _, _, rfl⟩ := hstep
    exact List.subset_append_left _ _

/-- The process stops; what it has sent is out. -/
def Solo.crash {Image : Type} (s : Solo σ Image) : Solo σ Image :=
  { s with member := { s.member with up := false } }

/-- As long as every higher term can be saved, a member that runs again after a crash has at
least every term it had reported before. -/
theorem reported_term_durable (sm : IStateMachine σ) (cfg : ClusterConfig) (id : NodeId)
    {s s' : Solo σ sm.Image}
    (hrun : Relation.ReflTransGen (Solo.StepWhen sm cfg id SavesTerm) (Solo.fresh sm cfg id) s)
    (hrun' : Relation.ReflTransGen (Solo.StepWhen sm cfg id SavesTerm) s.crash s')
    (hup : s'.member.up = true) :
    ∀ message ∈ s.sent, message.payload.term ≤ s'.member.node.currentTerm := by
  intro message hmem
  have hs := ((SoloInv.fresh id).run hrun).1
  have hcrash : SoloInv s.crash := ⟨hs.sent, fun hc => by cases hc⟩
  obtain ⟨hs', hsub⟩ := hcrash.run hrun'
  rw [(hs'.member hup).durable]
  exact hs'.sent message (hsub hmem)

/-! ## A term that could not be saved

A member that cannot save term 5 of a vote request answers with it. It crashes, and runs again in
term 0. -/

namespace Solo

variable (sm cfg) in
/-- A schedule of steps, each with the messages around it. -/
def execWhen (id : NodeId)
    (allowed : List (Message sm.Image) → Member σ sm.Image → Action → Prop)
    [∀ net m action, Decidable (allowed net m action)] (s : Solo σ sm.Image) :
    List (List (Message sm.Image) × Action) → Option (Solo σ sm.Image)
  | [] => some s
  | (net, action) :: rest =>
    if allowed net s.member action then
      (memberStep sm cfg id net s.member action).bind fun (m, outbox) =>
        execWhen id allowed ⟨m, s.sent ++ outbox⟩ rest
    else none

theorem execWhen_run {id : NodeId}
    {allowed : List (Message sm.Image) → Member σ sm.Image → Action → Prop}
    [∀ net m action, Decidable (allowed net m action)]
    {schedule : List (List (Message sm.Image) × Action)} {s s' : Solo σ sm.Image}
    (h : execWhen sm cfg id allowed s schedule = some s') :
    Relation.ReflTransGen (StepWhen sm cfg id allowed) s s' := by
  induction schedule generalizing s with
  | nil =>
    cases h
    exact .refl
  | cons first rest ih =>
    rw [execWhen] at h
    split at h
    · rename_i hallowed
      obtain ⟨⟨m, outbox⟩, hm, hrest⟩ := Option.bind_eq_some_iff.mp h
      exact .head ⟨first.1, first.2, m, outbox, hallowed, hm, rfl⟩ (ih hrest)
    · cases h

end Solo

/-- A candidate asks member 1 for its vote in term 5. -/
def voteRequestOfTermFive : Message kvStateMachine.Image :=
  ⟨⟨2, 1, 5, 0⟩, .voteRequest ⟨5, 2, 0, 0⟩⟩

def restartSchedule : List (List (Message kvStateMachine.Image) × Action) :=
  [([], .restart (fun _ => true) true fun _ => true), ([], .start)]

def answerSchedule (saved : Bool) : List (List (Message kvStateMachine.Image) × Action) :=
  restartSchedule ++ [([voteRequestOfTermFive], .onRequestVote 0 saved true)]

theorem reported_term_durable_three :
    ∃ s s' : Solo KvMap kvStateMachine.Image,
      Relation.ReflTransGen (Solo.StepWhen kvStateMachine threeMembers 1 SavesTerm)
        (Solo.fresh kvStateMachine threeMembers 1) s ∧
      Relation.ReflTransGen (Solo.StepWhen kvStateMachine threeMembers 1 SavesTerm) s.crash s' ∧
      (∃ message ∈ s.sent, message.payload.term = 5) ∧ 5 ≤ s'.member.node.currentTerm := by
  have hexec : (Solo.execWhen kvStateMachine threeMembers 1 SavesTerm
      (Solo.fresh kvStateMachine threeMembers 1) (answerSchedule true)).any (fun s =>
        (s.sent.map fun message => message.payload.term) == [5] &&
        (Solo.execWhen kvStateMachine threeMembers 1 SavesTerm s.crash restartSchedule).any
          fun s' => s'.member.up) = true := by
    decide +kernel
  simp only [Option.any_eq_true, Bool.and_eq_true, beq_iff_eq] at hexec
  obtain ⟨s, hs, hsent, s', hs', hup⟩ := hexec
  obtain ⟨message, hmem, hterm⟩ : ∃ message ∈ s.sent, message.payload.term = 5 :=
    List.mem_map.mp (hsent ▸ List.mem_singleton_self 5)
  have hdurable := reported_term_durable kvStateMachine threeMembers 1 (Solo.execWhen_run hs)
    (Solo.execWhen_run hs') hup message hmem
  exact ⟨s, s', Solo.execWhen_run hs, Solo.execWhen_run hs', ⟨message, hmem, hterm⟩,
    hterm ▸ hdurable⟩

/-- The answer to the vote request reports a term that the restart does not know. -/
theorem reported_term_lost :
    ¬ ∀ s s' : Solo KvMap kvStateMachine.Image,
      Relation.ReflTransGen (Solo.StepWhen kvStateMachine threeMembers 1 fun _ _ _ => True)
        (Solo.fresh kvStateMachine threeMembers 1) s →
      Relation.ReflTransGen (Solo.StepWhen kvStateMachine threeMembers 1 fun _ _ _ => True)
        s.crash s' → s'.member.up = true →
      ∀ message ∈ s.sent, message.payload.term ≤ s'.member.node.currentTerm := by
  intro hall
  have hexec : (Solo.execWhen kvStateMachine threeMembers 1 (fun _ _ _ => True)
      (Solo.fresh kvStateMachine threeMembers 1) (answerSchedule false)).any (fun s =>
        (s.sent.map fun message => message.payload.term) == [5] &&
        (Solo.execWhen kvStateMachine threeMembers 1 (fun _ _ _ => True) s.crash
          restartSchedule).any fun s' => s'.member.up && s'.member.node.currentTerm == 0) =
            true := by
    decide +kernel
  simp only [Option.any_eq_true, Bool.and_eq_true, beq_iff_eq] at hexec
  obtain ⟨s, hs, hsent, s', hs', hup, hzero⟩ := hexec
  obtain ⟨message, hmem, hterm⟩ : ∃ message ∈ s.sent, message.payload.term = 5 :=
    List.mem_map.mp (hsent ▸ List.mem_singleton_self 5)
  have hle := hall s s' (Solo.execWhen_run hs) (Solo.execWhen_run hs') hup message hmem
  omega

end CquptRaft
