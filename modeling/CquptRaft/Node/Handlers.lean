import CquptRaft.Node.RaftNode

/-!
# Critical sections of a node

Each definition is one critical section under `mu_`: the RPC handlers, the election and the
leader's append and commit. Requests and responses carry the fields of `raft.proto`.
-/

namespace CquptRaft

structure VoteRequest where
  term : Nat
  candidateId : NodeId
  lastLogIndex : Nat
  lastLogTerm : Nat
  deriving DecidableEq, Repr

structure VoteResponse where
  term : Nat
  voteGranted : Bool
  deriving DecidableEq, Repr

structure AppendEntriesRequest where
  term : Nat
  leaderId : NodeId
  prevLogIndex : Nat
  prevLogTerm : Nat
  entries : List LogRecord
  leaderCommit : Nat
  deriving DecidableEq, Repr

structure AppendEntriesResponse where
  term : Nat
  success : Bool
  matchIndex : Nat
  lastLogIndex : Nat
  conflictIndex : Nat
  conflictTerm : Nat
  deriving DecidableEq, Repr

structure InstallSnapshotRequest (Image : Type) where
  term : Nat
  leaderId : NodeId
  lastIncludedIndex : Nat
  lastIncludedTerm : Nat
  snapshotData : Image

structure InstallSnapshotResponse where
  term : Nat
  success : Bool
  lastLogIndex : Nat
  message : String
  deriving DecidableEq, Repr

namespace RaftNode

/-! ## Elections -/

def quorum (n : RaftNode) : Nat := (n.peers.length + 1) / 2 + 1

/-- The critical section of `StartElection`. The flag tells whether the campaign started; a
failed `Save` restores role, term, vote and leader. -/
def startElection (n : RaftNode) (saved : Bool) : RaftNode × Bool :=
  if !n.running ∨ n.role = .leader then (n, false)
  else if saved then
    let m : RaftNode := { n with
      role := .candidate, currentTerm := n.currentTerm + 1, votedFor := n.nodeId, leaderId := -1 }
    ((m.persistStateLocked true).resetElectionTimerLocked, true)
  else (n.resetElectionTimerLocked, false)

def voteRequest (n : RaftNode) : VoteRequest where
  term := n.currentTerm
  candidateId := n.nodeId
  lastLogIndex := n.lastLogIndexLocked
  lastLogTerm := n.lastLogTermLocked

def onRequestVote (n : RaftNode) (request : VoteRequest) (termSaved voteSaved : Bool) :
    RaftNode × VoteResponse :=
  if request.term < n.currentTerm then (n, ⟨n.currentTerm, false⟩)
  else
    let (m, ok) :=
      if n.currentTerm < request.term then n.becomeFollowerLocked request.term (-1) termSaved
      else (n, true)
    if !ok then (m, ⟨m.currentTerm, false⟩)
    else if (m.votedFor = -1 ∨ m.votedFor = request.candidateId) ∧
        m.isCandidateLogUpToDateLocked request.lastLogIndex request.lastLogTerm then
      if voteSaved then
        (({ m with votedFor := request.candidateId }.persistStateLocked true
          ).resetElectionTimerLocked, ⟨m.currentTerm, true⟩)
      else (m, ⟨m.currentTerm, false⟩)
    else (m, ⟨m.currentTerm, false⟩)

/-- The critical section of the callback that receives a vote. The flag tells whether the
callback goes on to count the vote. -/
def onVoteResponse (n : RaftNode) (term : Nat) (response : VoteResponse) (saved : Bool) :
    RaftNode × Bool :=
  if !n.running then (n, false)
  else if n.currentTerm < response.term then
    ((n.becomeFollowerLocked response.term (-1) saved).1, false)
  else if n.role ≠ .candidate ∨ n.currentTerm ≠ term then (n, false)
  else (n, response.voteGranted)

/-- The flag tells whether the node became leader. -/
def onElectionWon (n : RaftNode) (term : Nat) : RaftNode × Bool :=
  if !n.running then (n, false)
  else if n.role ≠ .candidate ∨ n.currentTerm ≠ term then (n, false)
  else (n.becomeLeaderLocked, true)

/-! ## The leader's log and commit index -/

/-- The result is the new index, or `0` when the record could not be saved. -/
def appendLocalLogUnlocked (n : RaftNode) (commandData : Bytes) (saved : Bool) :
    RaftNode × Nat :=
  let newIndex := n.lastLogIndexLocked + 1
  if saved then
    let m : RaftNode := { n with
      log := n.log ++ [⟨newIndex, n.currentTerm, commandData⟩]
      matchIndex := Function.update n.matchIndex n.nodeId newIndex
      nextIndex := Function.update n.nextIndex n.nodeId (newIndex + 1) }
    (m.persistStateLocked true, newIndex)
  else
    ({ n with
      matchIndex := Function.update n.matchIndex n.nodeId n.lastLogIndexLocked
      nextIndex := Function.update n.nextIndex n.nodeId (n.lastLogIndexLocked + 1) }, 0)

/-- The node itself and every peer whose `match_index_` has reached `index`. -/
def replicatedCount (n : RaftNode) (index : Nat) : Nat :=
  1 + n.peers.countP (fun id => index ≤ n.matchIndex id)

/-- The search of `AdvanceCommitIndexUnlocked`, downwards from `index`. -/
def advanceLoop (n : RaftNode) : Nat → Option Nat
  | 0 => none
  | index + 1 =>
    if index + 1 ≤ n.commitIndex then none
    else if n.hasLogAtIndexLocked (index + 1) ∧
        n.termAtIndexLocked (index + 1) = n.currentTerm ∧
        n.quorum ≤ n.replicatedCount (index + 1) then some (index + 1)
    else advanceLoop n index

/-- A failed `Save` does not take the new commit index back. -/
def advanceCommitIndexUnlocked (n : RaftNode) (saved : Bool) : RaftNode :=
  if n.role ≠ .leader ∨ n.log = [] then n
  else
    match n.advanceLoop n.lastLogIndexLocked with
    | none => n
    | some index => { n with commitIndex := index }.persistStateLocked saved

/-! ## `OnAppendEntries` -/

/-- A request of the current or a newer term makes its sender the leader. This block opens
both `OnAppendEntries` and `OnInstallSnapshot`. -/
def acceptLeaderLocked (n : RaftNode) (term : Nat) (leaderId : NodeId) (saved : Bool) :
    RaftNode × Bool :=
  if n.currentTerm < term ∨ n.role ≠ .follower ∨ n.leaderId ≠ leaderId then
    n.becomeFollowerLocked term leaderId saved
  else ({ n with leaderId := leaderId }.resetElectionTimerLocked, true)

/-- The response `OnAppendEntries` starts from. -/
def appendEntriesResponse (n : RaftNode) : AppendEntriesResponse where
  term := n.currentTerm
  success := false
  matchIndex := n.lastSnapshotIndex
  lastLogIndex := n.lastLogIndexLocked
  conflictIndex := 0
  conflictTerm := 0

def setAppendEntriesConflictHintLocked (n : RaftNode) (probeIndex : Nat)
    (response : AppendEntriesResponse) : AppendEntriesResponse :=
  let response := { response with
    lastLogIndex := n.lastLogIndexLocked, conflictIndex := 0, conflictTerm := 0 }
  if probeIndex < n.lastSnapshotIndex then
    { response with conflictIndex := n.lastSnapshotIndex + 1 }
  else if !n.hasLogAtIndexLocked probeIndex then
    { response with conflictIndex := n.lastLogIndexLocked + 1 }
  else
    { response with
      conflictTerm := n.termAtIndexLocked probeIndex
      conflictIndex := n.firstIndexOfTermLocked (n.termAtIndexLocked probeIndex) }

/-- What the loop over the request's entries has done so far. -/
structure AppendProgress where
  node : RaftNode
  logChanged : Bool
  matchIndex : Nat

/-- The loop over the request's entries. `Sum.inl` is the early return on a gap, with the
node as the loop left it and the index to report. -/
def appendLoop (p : AppendProgress) : List LogRecord → (RaftNode × Nat) ⊕ AppendProgress
  | [] => .inr p
  | entry :: rest =>
    if entry.index ≤ p.node.lastSnapshotIndex then
      appendLoop { p with matchIndex := max p.matchIndex entry.index } rest
    else if p.node.lastLogIndexLocked + 1 < entry.index then .inl (p.node, entry.index - 1)
    else if p.node.hasLogAtIndexLocked entry.index then
      let offset := p.node.logOffsetLocked entry.index
      if (p.node.log[offset]?).map LogRecord.term = some entry.term then
        appendLoop { p with matchIndex := entry.index } rest
      else
        appendLoop ⟨{ p.node with log := p.node.log.take offset ++ [entry] }, true, entry.index⟩
          rest
    else
      appendLoop ⟨{ p.node with log := p.node.log ++ [entry] }, true, entry.index⟩ rest

/-- `OnAppendEntries` behind the check of the previous record. `old` is the node as it was
before the loop, whose log a failed `Save` restores. The flag asks for
`ApplyCommittedEntries`. -/
def appendEntriesBody (n : RaftNode) (request : AppendEntriesRequest)
    (logSaved commitSaved : Bool) : RaftNode × AppendEntriesResponse × Bool :=
  match appendLoop ⟨n, false, request.prevLogIndex⟩ request.entries with
  | .inl (m, probe) =>
    (m, m.setAppendEntriesConflictHintLocked probe n.appendEntriesResponse, false)
  | .inr p =>
    if p.logChanged && !logSaved then
      (n, { n.appendEntriesResponse with matchIndex := p.matchIndex }, false)
    else
      let m := if p.logChanged then p.node.persistStateLocked true else p.node
      let newCommit := min request.leaderCommit m.lastLogIndexLocked
      let done : AppendEntriesResponse := { m.appendEntriesResponse with
        success := true, matchIndex := p.matchIndex }
      if m.commitIndex < newCommit then
        if commitSaved then
          ({ m with commitIndex := newCommit }.persistStateLocked true, done, true)
        else (m, { done with success := false }, false)
      else (m, done, false)

def onAppendEntries (n : RaftNode) (request : AppendEntriesRequest)
    (termSaved logSaved commitSaved : Bool) : RaftNode × AppendEntriesResponse × Bool :=
  if request.term < n.currentTerm then (n, n.appendEntriesResponse, false)
  else
    let (m, ok) := n.acceptLeaderLocked request.term request.leaderId termSaved
    if !ok then (m, m.appendEntriesResponse, false)
    else if request.prevLogIndex < m.lastSnapshotIndex ∨
        !m.hasLogAtIndexLocked request.prevLogIndex ∨
        m.termAtIndexLocked request.prevLogIndex ≠ request.prevLogTerm then
      (m, m.setAppendEntriesConflictHintLocked request.prevLogIndex m.appendEntriesResponse,
        false)
    else m.appendEntriesBody request logSaved commitSaved

end RaftNode

end CquptRaft
