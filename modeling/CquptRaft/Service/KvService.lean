import CquptRaft.Cluster.Cluster

/-!
# The key-value service

`KvServiceImpl` answers the calls of clients. A write is validated, goes through `Propose` and is
answered with what `Propose` has returned; a read is answered by the leader from its own state
machine. A handler holds no lock between its steps, so a call is kept as the point it has reached,
like the threads of `Member`.
-/

namespace CquptRaft

/-! ## Results of `Propose` -/

structure ProposeResult where
  status : ProposeStatus
  leaderId : NodeId
  term : Nat
  logIndex : Nat
  message : String
  deriving DecidableEq, Repr

namespace RaftNode

/-- What `Propose` returns out of its first critical section; `none` when the record has been
appended and saved. -/
def proposeRefusal (n : RaftNode) (limits : KvRequestLimits) (command : Command) (saved : Bool) :
    Option ProposeResult :=
  if !n.running then some ⟨.nodeStopping, n.leaderId, n.currentTerm, 0, "node is stopping"⟩
  else if n.role ≠ .leader then
    some ⟨.notLeader, n.leaderId, n.currentTerm, 0, "node is not the leader"⟩
  else
    match validateCommandUnlocked limits command with
    | .error reason => some ⟨.invalidCommand, n.nodeId, n.currentTerm, 0, reason⟩
    | .ok () =>
      if command.serialize = [] then
        some ⟨.invalidCommand, n.nodeId, n.currentTerm, 0, "failed to serialize command"⟩
      else if saved then none
      else
        some ⟨.replicationFailed, n.nodeId, n.currentTerm, 0,
          "failed to append and persist local log entry"⟩

/-- What `Propose` returns for the slot `p` once the thread has finished. When the replication has
failed, leader and term are read afresh; `message` is the text of a failed application. -/
def proposeResult (n : RaftNode) (p : Proposal) (message : String) : ProposeStatus → ProposeResult
  | .ok => ⟨.ok, n.nodeId, p.term, p.logIndex, "command committed and applied"⟩
  | .applyFailed => ⟨.applyFailed, n.nodeId, p.term, p.logIndex, message⟩
  | .timeout =>
    ⟨.timeout, n.leaderId, n.currentTerm, p.logIndex, "timed out waiting for majority replication"⟩
  | .notLeader =>
    ⟨.notLeader, n.leaderId, n.currentTerm, p.logIndex,
      "lost leadership before the log entry reached a majority"⟩
  | _ =>
    ⟨.replicationFailed, n.leaderId, n.currentTerm, p.logIndex,
      "failed to replicate log entry to majority"⟩

end RaftNode

/-! ## Status of a node -/

structure PeerReplicationStatus where
  peerId : NodeId
  address : String
  matchIndex : Nat
  nextIndex : Nat
  deriving DecidableEq, Repr

structure NodeStatusSnapshot where
  nodeId : NodeId
  address : String
  role : String
  term : Nat
  leaderId : NodeId
  leaderAddress : String
  commitIndex : Nat
  lastApplied : Nat
  lastLogIndex : Nat
  snapshotIndex : Nat
  peers : List PeerReplicationStatus
  deriving DecidableEq, Repr

def roleName : Role → String
  | .follower => "Follower"
  | .candidate => "Candidate"
  | .leader => "Leader"

namespace RaftNode

/-- `addresses` are those of the configuration. -/
def addressForNodeLocked (n : RaftNode) (addresses : NodeId → String) (id : NodeId) : String :=
  if id = n.nodeId ∨ id ∈ n.peers then addresses id else ""

def getStatusSnapshot (n : RaftNode) (addresses : NodeId → String) : NodeStatusSnapshot where
  nodeId := n.nodeId
  address := addresses n.nodeId
  role := roleName n.role
  term := n.currentTerm
  leaderId := n.leaderId
  leaderAddress := n.addressForNodeLocked addresses n.leaderId
  commitIndex := n.commitIndex
  lastApplied := n.lastApplied
  lastLogIndex := n.lastLogIndexLocked
  snapshotIndex := n.lastSnapshotIndex
  peers := n.peers.map fun peer => ⟨peer, addresses peer, n.matchIndex peer, n.nextIndex peer⟩

end RaftNode

/-! ## Requests and responses -/

inductive KvStatusCode where
  | unspecified | ok | notLeader | invalidArgument | keyNotFound | internalError | nodeStopping
  | timeout
  deriving DecidableEq, Repr

def toKvStatusCode : ProposeStatus → KvStatusCode
  | .ok => .ok
  | .notLeader => .notLeader
  | .invalidCommand => .invalidArgument
  | .nodeStopping => .nodeStopping
  | .timeout => .timeout
  | .replicationFailed | .applyFailed => .internalError

theorem toKvStatusCode_eq_ok {status : ProposeStatus} :
    toKvStatusCode status = .ok ↔ status = .ok := by
  cases status <;> simp [toKvStatusCode]

inductive KvRequest where
  | put (key value : Bytes)
  | delete (key : Bytes)
  | get (key : Bytes)
  deriving DecidableEq, Repr

/-- The fields of `PutResponse` and of `DeleteResponse`. -/
structure WriteResponse where
  code : KvStatusCode
  message : String
  leaderId : NodeId
  leaderAddress : String
  term : Nat
  logIndex : Nat
  deriving DecidableEq, Repr

structure GetResponse where
  code : KvStatusCode
  message : String
  leaderId : NodeId
  leaderAddress : String
  term : Nat
  found : Bool
  value : Bytes
  deriving DecidableEq, Repr

inductive KvResponse where
  | write (response : WriteResponse)
  | get (response : GetResponse)
  deriving DecidableEq, Repr

def fillCommonWriteResponse (status : NodeStatusSnapshot) (result : ProposeResult) :
    WriteResponse where
  code := toKvStatusCode result.status
  message := result.message
  leaderId := result.leaderId
  leaderAddress := status.leaderAddress
  term := result.term
  logIndex := result.logIndex

/-- `ValidateKey`, and `ValidateValue` for a `Put`. -/
def KvRequest.validate (limits : KvRequestLimits) : KvRequest → Except String Unit
  | .put key value => do
    validateKeyUnlocked limits key
    validateValueUnlocked limits value
  | .delete key | .get key => validateKeyUnlocked limits key

/-- The answer to a request whose key or value is refused. -/
def KvRequest.refusal (status : NodeStatusSnapshot) (reason : String) : KvRequest → KvResponse
  | .put _ _ | .delete _ =>
    .write ⟨.invalidArgument, reason, status.leaderId, status.leaderAddress, status.term, 0⟩
  | .get _ =>
    .get ⟨.invalidArgument, reason, status.leaderId, status.leaderAddress, status.term, false, []⟩

/-- The answer of a leader that has looked `key` up with this result. -/
def lookupResponse (status : NodeStatusSnapshot) : Option Bytes → GetResponse
  | none =>
    ⟨.keyNotFound, "key not found", status.leaderId, status.leaderAddress, status.term, false, []⟩
  | some value =>
    ⟨.ok, "ok", status.leaderId, status.leaderAddress, status.term, true, value⟩

/-! ## Calls -/

/-- Where a handler stands. -/
inductive KvCall where
  | arrived (request : KvRequest)
  /-- Validation has failed. -/
  | refused (request : KvRequest) (reason : String)
  /-- About to call `Propose`. -/
  | propose (command : Command)
  /-- In `Propose`, behind the append; `h` is the thread of the member. -/
  | proposing (command : Command) (h : Nat)
  /-- `Propose` has returned. -/
  | returned (command : Command) (result : ProposeResult)
  /-- About to take the status for a `Get`. -/
  | lookup (key : Bytes)
  /-- The status said that the node leads. -/
  | reading (key : Bytes) (status : NodeStatusSnapshot)
  | answered (response : KvResponse)
  deriving DecidableEq, Repr

/-- A request behind its validation. -/
def KvRequest.admitted : KvRequest → KvCall
  | .put key value => .propose ⟨.set, key, value⟩
  | .delete key => .propose ⟨.delete, key, []⟩
  | .get key => .lookup key

namespace KvCall

/-- The next step of a handler, on a member as it finds it. -/
def next {Image : Type} (limits : KvRequestLimits) (addresses : NodeId → String)
    (m : Member KvMap Image) (saved : Bool) (message : String) : KvCall → Option KvCall
  | .arrived request =>
    match request.validate limits with
    | .error reason => some (.refused request reason)
    | .ok () => some request.admitted
  | .refused request reason =>
    some (.answered (request.refusal (m.node.getStatusSnapshot addresses) reason))
  | .propose command =>
    match m.node.proposeRefusal limits command saved with
    | some result => some (.returned command result)
    | none => some (.proposing command m.proposals.length)
  | .proposing command h =>
    match m.proposals[h]? with
    | none => none
    | some p =>
      match p.phase with
      | .finished status => some (.returned command (m.node.proposeResult p message status))
      | _ => none
  | .returned _ result =>
    some (.answered (.write (fillCommonWriteResponse (m.node.getStatusSnapshot addresses) result)))
  | .lookup key =>
    let status := m.node.getStatusSnapshot addresses
    if status.role ≠ "Leader" then
      some (.answered (.get ⟨.notLeader, "node is not the leader", status.leaderId,
        status.leaderAddress, status.term, false, []⟩))
    else some (.reading key status)
  | .reading key status => some (.answered (.get (lookupResponse status m.kv[key]?)))
  | .answered _ => none

/-- The section of the node that the step runs. The others only read. -/
def action (saved : Bool) : KvCall → Option Action
  | .propose command => some (.propose command saved)
  | _ => none

end KvCall

/-- `Propose` refuses exactly when it appends nothing. -/
theorem RaftNode.proposeRefusal_eq_none_iff (n : RaftNode) (limits : KvRequestLimits)
    (command : Command) (saved : Bool) :
    n.proposeRefusal limits command saved = none ↔
      n.running = true ∧ n.role = .leader ∧ validateCommandUnlocked limits command = .ok () ∧
        command.serialize ≠ [] ∧ saved = true := by
  unfold proposeRefusal
  cases hlimits : validateCommandUnlocked limits command with
  | error reason => grind
  | ok u => grind

end CquptRaft
