import CquptRaft.Node.Snapshot
import CquptRaft.Node.Validation
import CquptRaft.Replication.Replicator

/-!
# One member of the cluster

A `Member` is a node process with its threads and its disk. A thread that works outside the
locks is kept as the point it has reached, so every transition of a member is one critical
section, or one file operation, of one thread. A member that is down keeps only what is on
its disk: `node.storage` and `snapshots`.

A request and its response carry the identity of the call they belong to, so a caller takes
only the response to its own call.
-/

namespace CquptRaft

structure CallId where
  caller : NodeId
  callee : NodeId
  term : Nat
  seq : Nat
  deriving DecidableEq, Repr

inductive Payload (Image : Type) where
  | voteRequest (request : VoteRequest)
  | voteResponse (response : VoteResponse)
  | appendRequest (request : AppendEntriesRequest)
  | appendResponse (response : AppendEntriesResponse)
  | installRequest (request : InstallSnapshotRequest Image)
  | installResponse (response : InstallSnapshotResponse)

structure Message (Image : Type) where
  call : CallId
  payload : Payload Image

/-! ## Threads -/

/-- Where the call of a `Replicator` stands. `append_inflight_` is set in the two `append`
states and `snapshot_inflight_` in the four others. -/
inductive ReplicatorCall where
  | idle
  | append (call : CallId)
  | appendReturned
  | snapshot (term : Nat)
  | boundary (term index snapshotTerm : Nat)
  | install (call : CallId) (lastIncludedIndex : Nat)
  | installReturned
  deriving DecidableEq, Repr

/-- An `OnInstallSnapshot` handler that has passed the admission check. -/
inductive InstallPhase where
  | checked | written | saved
  deriving DecidableEq, Repr

structure InstallHandler (Image : Type) where
  call : CallId
  request : InstallSnapshotRequest Image
  response : InstallSnapshotResponse
  phase : InstallPhase

/-- The thread that holds `apply_mu_`: `ApplyCommittedEntries` at the three points of its
loop, or an `OnInstallSnapshot` handler behind `LoadSnapshot`. -/
inductive ApplyLock (Image : Type) where
  | free
  | looping
  | picked (index : Nat) (command : Bytes)
  | applied (index : Nat)
  | installing (handler : InstallHandler Image)

inductive SnapshotWorker (Image : Type) where
  | idle
  | pending
  | captured (index term : Nat) (image : Image)
  | saved (index term : Nat)

inductive ProposeStatus where
  | ok | notLeader | invalidCommand | nodeStopping | replicationFailed | applyFailed | timeout
  deriving DecidableEq, Repr

/-- Where a `Propose` call stands behind its local append. `replicating` is the head of the
loop of `ReplicateLogEntryToMajority`, `counting` and `sending` are inside a pass. -/
inductive ProposePhase where
  | replicating
  | counting (term : Nat)
  | sending (term : Nat)
  | replicated
  | applying
  | applied
  | finished (status : ProposeStatus)
  deriving DecidableEq, Repr

structure Proposal where
  command : Bytes
  term : Nat
  logIndex : Nat
  phase : ProposePhase
  deriving DecidableEq, Repr

structure Member (σ Image : Type) where
  up : Bool
  node : RaftNode
  kv : σ
  /-- Outstanding `RequestVote` calls. -/
  voteCalls : List CallId
  /-- Terms of the callbacks that are about to count a granted vote. -/
  granted : List Nat
  /-- The counter `votes` and the flag `won` of each campaign, by its term. -/
  votes : Nat → Nat
  won : Nat → Bool
  /-- Terms of the pending `OnElectionWon` calls. -/
  wonCalls : List Nat
  /-- Pending `ProposeNoOpEntry` calls. -/
  noOpCalls : Nat
  replicators : NodeId → ReplicatorCall
  /-- RPCs started by the replicators of this process. -/
  rpcStarted : Nat
  proposals : List Proposal
  apply : ApplyLock Image
  installs : List (InstallHandler Image)
  worker : SnapshotWorker Image
  snapshots : List (Snapshot Image)
  /-- The file `install_snapshot_node_<id>.bin.tmp`. -/
  installTemp : Option Image

/-! ## Configuration -/

/-- The member set. `LoadMembers` rejects ids that are not positive, and a map has distinct
keys. -/
structure ClusterConfig where
  ids : List NodeId
  nodup : ids.Nodup
  pos : ∀ id ∈ ids, 0 < id
  snapshot : NodeId → SnapshotConfig := fun _ => {}
  kvLimits : NodeId → KvRequestLimits := fun _ => {}

def ClusterConfig.peers (cfg : ClusterConfig) (id : NodeId) : List NodeId :=
  cfg.ids.filter (fun other => other ≠ id)

/-! ## Transitions -/

/-- The steps of a `Propose` thread. -/
inductive ProposeStep where
  | head | count | check | endPass | timeout
  | advance (saved : Bool)
  | applied | applyFailed | finish
  deriving DecidableEq, Repr

/-- The transitions of a member. An index `k` selects a message of the network, `peer` a
replicator, `h` a handler or a `Propose` thread. -/
inductive Action where
  | restart (readable : Nat → Bool) (saved : Bool) (replaySaved : Nat → Bool)
  | start
  | stop
  | persist (saved : Bool)
  | crash
  | startElection (saved : Bool)
  | onRequestVote (k : Nat) (termSaved voteSaved : Bool)
  | onVoteResponse (k : Nat) (saved : Bool)
  | countVote (term : Nat)
  | onElectionWon (term : Nat)
  | proposeNoOp (saved : Bool)
  | propose (command : Command) (saved : Bool)
  | proposal (h : Nat) (step : ProposeStep)
  | replicateOnce (peer : NodeId)
  | appendResponse (peer : NodeId) (k : Nat) (saved : Bool)
  | appendFailed (peer : NodeId)
  | readBoundary (peer : NodeId)
  | sendSnapshot (peer : NodeId)
  | installResponse (peer : NodeId) (k : Nat) (saved : Bool)
  | installFailed (peer : NodeId)
  | finishRpc (peer : NodeId)
  | onAppendEntries (k : Nat) (termSaved logSaved commitSaved : Bool)
  | onInstallSnapshot (k : Nat) (saved : Bool)
  | installWrite (h : Nat) (ok : Bool)
  | installSave (h : Nat) (outcome : SaveOutcome)
  | installLoad (h : Nat) (ok : Bool)
  | installFinish (saved : Bool)
  | applyAcquire
  | applyPick
  | applyRun
  | applyFinish (saved : Bool)
  | onSnapshotTimer
  | workerCapture (ok : Bool)
  | workerSave (outcome : SaveOutcome)
  | workerCompact (saved : Bool)
  | prune (upto : Nat)

namespace Member

variable {σ : Type}

/-- Messages sent by a step. -/
abbrev Outbox (Image : Type) := List (Message Image)

/-- A fresh process around a recovered node. Every thread of the old process is gone. -/
def boot {Image : Type} (m : Member σ Image) (node : RaftNode) (kv : σ) : Member σ Image :=
  { m with
    up := true, node, kv, voteCalls := [], granted := [], votes := fun _ => 0,
    won := fun _ => false, wonCalls := [], noOpCalls := 0, replicators := fun _ => .idle,
    rpcStarted := 0, proposals := [], apply := .free, installs := [], worker := .idle }

/-- A constructor that throws leaves only the data directory. -/
def restart (sm : IStateMachine σ) (cfg : ClusterConfig) (id : NodeId)
    (m : Member σ sm.Image) (readable : Nat → Bool) (saved : Bool) (replaySaved : Nat → Bool) :
    Member σ sm.Image :=
  match RaftNode.construct sm id (cfg.peers id) m.node.storage (cfg.snapshot id) m.snapshots
      readable saved replaySaved with
  | .thrown storage => { m with node := { m.node with storage } }
  | .ready node kv => m.boot node kv

variable {Image : Type}

/-! ### Elections -/

def startElection (m : Member σ Image) (saved : Bool) : Member σ Image × Outbox Image :=
  match m.node.startElection saved with
  | (node, false) => ({ m with node }, [])
  | (node, true) =>
    let term := node.currentTerm
    let m := { m with
      node
      votes := Function.update m.votes term 1
      won := Function.update m.won term false }
    if node.quorum ≤ 1 then ({ m with wonCalls := term :: m.wonCalls }, [])
    else
      let calls := node.peers.map fun peer => (⟨node.nodeId, peer, term, 0⟩ : CallId)
      ({ m with voteCalls := m.voteCalls ++ calls },
        calls.map fun call => ⟨call, .voteRequest node.voteRequest⟩)

def onVoteResponse (m : Member σ Image) (call : CallId) (response : VoteResponse)
    (saved : Bool) : Member σ Image :=
  match m.node.onVoteResponse call.term response saved with
  | (node, counts) =>
    { m with
      node
      voteCalls := m.voteCalls.erase call
      granted := if counts then call.term :: m.granted else m.granted }

/-- `votes->fetch_add(1)` and `won->exchange(true)`. -/
def countVote (m : Member σ Image) (term : Nat) : Member σ Image :=
  let total := m.votes term + 1
  let m := { m with
    granted := m.granted.erase term
    votes := Function.update m.votes term total }
  if m.node.quorum ≤ total ∧ m.won term = false then
    { m with won := Function.update m.won term true, wonCalls := term :: m.wonCalls }
  else m

def onElectionWon (m : Member σ Image) (term : Nat) : Member σ Image :=
  match m.node.onElectionWon term with
  | (node, won) =>
    { m with
      node
      wonCalls := m.wonCalls.erase term
      noOpCalls := if won then m.noOpCalls + 1 else m.noOpCalls }

/-! ### Proposals -/

/-- The local append of `ProposeNoOpEntry` and `Propose`. -/
def appendProposal (m : Member σ Image) (commandData : Bytes) (saved : Bool) : Member σ Image :=
  match m.node.appendLocalLogUnlocked commandData saved with
  | (node, index) =>
    if index = 0 then { m with node }
    else
      { m with
        node
        proposals := m.proposals ++ [⟨commandData, m.node.currentTerm, index, .replicating⟩] }

def proposeNoOp (m : Member σ Image) (saved : Bool) : Member σ Image :=
  let m := { m with noOpCalls := m.noOpCalls - 1 }
  if m.node.running ∧ m.node.role = .leader then m.appendProposal kInternalNoOpCommand saved
  else m

/-- A rejected command leaves the member as it was. -/
def propose (m : Member σ Image) (limits : KvRequestLimits) (command : Command) (saved : Bool) :
    Member σ Image :=
  if m.node.running ∧ m.node.role = .leader ∧
      validateCommandUnlocked limits command = .ok () ∧ command.serialize ≠ [] then
    m.appendProposal command.serialize saved
  else m

/-- One step of a `Propose` thread: the node afterwards and the point the thread has reached.
The sections of `ReplicateLogEntryToMajority` read role and term afresh. -/
def proposeStep (node : RaftNode) (p : Proposal) : ProposeStep → Option (RaftNode × ProposePhase)
  | .head =>
    if p.phase = .replicating then
      if !node.running ∨ node.role ≠ .leader then some (node, .finished .notLeader)
      else if !node.hasLogAtIndexLocked p.logIndex then
        some (node, if p.logIndex ≤ node.lastSnapshotIndex then .replicated
          else .finished .replicationFailed)
      else if node.quorum ≤ 1 then some (node, .replicated)
      else some (node, .counting node.currentTerm)
    else none
  | .count =>
    match p.phase with
    | .counting term =>
      if node.quorum ≤ node.replicatedCount p.logIndex then some (node, .replicated)
      else some (node, .sending term)
    | _ => none
  | .check =>
    match p.phase with
    | .sending term =>
      if !node.running ∨ node.role ≠ .leader ∨ node.currentTerm ≠ term then
        some (node, .finished .notLeader)
      else if node.quorum ≤ node.replicatedCount p.logIndex then some (node, .replicated)
      else some (node, .sending term)
    | _ => none
  | .endPass =>
    match p.phase with
    | .sending _ => some (node, .replicating)
    | _ => none
  | .timeout => if p.phase = .replicating then some (node, .finished .timeout) else none
  | .advance saved =>
    if p.phase = .replicated then some (node.advanceCommitIndexUnlocked saved, .applying)
    else none
  | .applied =>
    match p.phase, node.applyPick with
    | .applying, (node, .nothing) => some (node, .applied)
    | _, _ => none
  | .applyFailed => if p.phase = .applying then some (node, .finished .applyFailed) else none
  | .finish =>
    if p.phase = .applied then
      some (node, .finished (if node.lastApplied < p.logIndex then .applyFailed else .ok))
    else none

def proposal (m : Member σ Image) (h : Nat) (step : ProposeStep) : Option (Member σ Image) :=
  match m.proposals[h]? with
  | none => none
  | some p =>
    (proposeStep m.node p step).map fun (node, phase) =>
      { m with node, proposals := m.proposals.set h { p with phase } }

/-! ### Replication -/

def setReplicator (m : Member σ Image) (peer : NodeId) (call : ReplicatorCall) :
    Member σ Image :=
  { m with replicators := Function.update m.replicators peer call }

/-- `ReplicateOnce` up to the call. A caller with another term gets nothing built. -/
def replicateOnce (m : Member σ Image) (peer : NodeId) :
    Option (Member σ Image × Outbox Image) :=
  if m.replicators peer = .idle ∧ peer ∈ m.node.peers then
    match m.node.buildAppendEntriesRequest peer m.node.currentTerm with
    | (_, .none) => none
    | (node, .snapshot) =>
      some ({ m with node }.setReplicator peer (.snapshot node.currentTerm), [])
    | (node, .append request) =>
      let call : CallId := ⟨node.nodeId, peer, node.currentTerm, m.rpcStarted⟩
      some ({ m with node, rpcStarted := m.rpcStarted + 1 }.setReplicator peer (.append call),
        [⟨call, .appendRequest request⟩])
  else none

/-- The first critical section of `SendInstallSnapshotToPeer`. -/
def readBoundary (m : Member σ Image) (peer : NodeId) : Option (Member σ Image) :=
  match m.replicators peer with
  | .snapshot term =>
    if !m.node.running ∨ m.node.role ≠ .leader ∨ m.node.currentTerm ≠ term ∨
        m.node.lastSnapshotIndex = 0 then
      some (m.setReplicator peer .installReturned)
    else
      some (m.setReplicator peer
        (.boundary term m.node.lastSnapshotIndex m.node.lastSnapshotTerm))
  | _ => none

/-- `SendInstallSnapshotToPeer` outside the lock, up to the call. -/
def sendSnapshot (m : Member σ Image) (peer : NodeId) :
    Option (Member σ Image × Outbox Image) :=
  match m.replicators peer with
  | .boundary term index snapshotTerm =>
    match chooseSnapshot m.snapshots index snapshotTerm with
    | none => some (m.setReplicator peer .installReturned, [])
    | some s =>
      let call : CallId := ⟨m.node.nodeId, peer, term, m.rpcStarted⟩
      some ({ m with rpcStarted := m.rpcStarted + 1 }.setReplicator peer (.install call s.index),
        [⟨call, .installRequest ⟨term, m.node.nodeId, s.index, s.term, s.image⟩⟩])
  | _ => none

/-! ### `OnInstallSnapshot` -/

def onInstallSnapshot (m : Member σ Image) (enabled : Bool) (call : CallId)
    (request : InstallSnapshotRequest Image) (saved : Bool) : Member σ Image × Outbox Image :=
  match m.node.installCheck enabled request saved with
  | (node, some response) => ({ m with node }, [⟨call, .installResponse response⟩])
  | (node, none) =>
    ({ m with
        node
        installs := m.installs ++ [⟨call, request, m.node.installResponse, .checked⟩] }, [])

/-- A handler that gives up drops out and sends its response with the message. -/
def failInstall (m : Member σ Image) (h : Nat) (handler : InstallHandler Image)
    (message : String) : Member σ Image × Outbox Image :=
  ({ m with installs := m.installs.eraseIdx h },
    [⟨handler.call, .installResponse { handler.response with message := message }⟩])

def advanceInstall (m : Member σ Image) (h : Nat) (handler : InstallHandler Image)
    (phase : InstallPhase) : Member σ Image :=
  { m with installs := m.installs.set h { handler with phase } }

/-- Every handler of a node writes the same temporary file. -/
def installWrite (m : Member σ Image) (h : Nat) (ok : Bool) :
    Option (Member σ Image × Outbox Image) :=
  match m.installs[h]? with
  | some handler =>
    if handler.phase = .checked then
      if ok then
        some ({ m.advanceInstall h handler .written with
          installTemp := some handler.request.snapshotData }, [])
      else
        some ({ m with installTemp := none }.failInstall h handler
          "write install snapshot temp file failed")
    else none
  | none => none

def installSave (m : Member σ Image) (h : Nat) (outcome : SaveOutcome) :
    Option (Member σ Image × Outbox Image) :=
  match m.installs[h]? with
  | some handler =>
    if handler.phase = .written then
      match saveSnapshotFile m.snapshots m.installTemp handler.request.lastIncludedIndex
          handler.request.lastIncludedTerm outcome with
      | (snapshots, true) =>
        some ({ m.advanceInstall h handler .saved with snapshots, installTemp := none }, [])
      | (snapshots, false) =>
        some ({ m with snapshots, installTemp := none }.failInstall h handler
          "persist installed snapshot failed")
    else none
  | none => none

/-- `LoadSnapshot` under `apply_mu_`. On success the handler keeps the lock. -/
def installLoad (sm : IStateMachine σ) (m : Member σ sm.Image) (h : Nat) (ok : Bool) :
    Option (Member σ sm.Image × Outbox sm.Image) :=
  match m.installs[h]?, m.apply with
  | some handler, .free =>
    if handler.phase = .saved then
      match ok, (m.snapshots.find? (fun s => s.index == handler.request.lastIncludedIndex)).bind
          (fun s => sm.loadSnapshot s.image) with
      | true, some kv =>
        some ({ m with kv, installs := m.installs.eraseIdx h, apply := .installing handler }, [])
      | _, _ => some (m.failInstall h handler "load installed snapshot failed")
    else none
  | _, _ => none

def installFinish (m : Member σ Image) (saved : Bool) :
    Option (Member σ Image × Outbox Image) :=
  match m.apply with
  | .installing handler =>
    match m.node.installFinish handler.request handler.response saved with
    | (node, response) =>
      some ({ m with node, apply := .free }, [⟨handler.call, .installResponse response⟩])
  | _ => none

/-! ### `ApplyCommittedEntries` -/

def applyPick (m : Member σ Image) : Option (Member σ Image) :=
  match m.apply with
  | .looping =>
    match m.node.applyPick with
    | (node, .entry index command) => some { m with node, apply := .picked index command }
    | (node, _) => some { m with node, apply := .free }
  | _ => none

def applyRun (sm : IStateMachine σ) (m : Member σ sm.Image) : Option (Member σ sm.Image) :=
  match m.apply with
  | .picked index command =>
    match sm.apply m.kv command with
    | .ok kv => some { m with kv, apply := .applied index }
    | .error _ => some { m with apply := .free }
  | _ => none

def applyFinish (m : Member σ Image) (saved : Bool) : Option (Member σ Image) :=
  match m.apply with
  | .applied index =>
    match m.node.applyFinish index saved with
    | (node, goesOn) => some { m with node, apply := if goesOn then .looping else .free }
  | _ => none

/-! ### The snapshot worker -/

/-- Under `apply_mu_` the map belongs to `last_applied_`. -/
def workerCapture (sm : IStateMachine σ) (m : Member σ sm.Image) (ok : Bool) :
    Option (Member σ sm.Image) :=
  match m.worker, m.apply with
  | .pending, .free =>
    some { m with
      worker :=
        if ok then
          .captured m.node.lastApplied (m.node.termAtIndexLocked m.node.lastApplied)
            (sm.saveSnapshot m.kv)
        else .idle }
  | _, _ => none

def workerSave (m : Member σ Image) (outcome : SaveOutcome) : Option (Member σ Image) :=
  match m.worker with
  | .captured index term image =>
    match saveSnapshotFile m.snapshots (some image) index term outcome with
    | (snapshots, ok) =>
      some { m with snapshots, worker := if ok then .saved index term else .idle }
  | _ => none

def workerCompact (m : Member σ Image) (saved : Bool) : Option (Member σ Image) :=
  match m.worker with
  | .saved index term =>
    some { m with node := m.node.compactAfterSnapshot index term saved, worker := .idle }
  | _ => none

end Member

end CquptRaft
