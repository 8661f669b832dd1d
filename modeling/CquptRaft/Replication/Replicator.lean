import CquptRaft.Node.Handlers

/-!
# Replication to one peer

`BuildAppendEntriesRequest` cuts a batch out of the leader's log, bounded by 256 entries and
512 KiB, or asks for a snapshot. `HandleAppendEntriesResponse` moves `next_index_` and
`match_index_` of the peer.
-/

namespace CquptRaft

def kMaxAppendEntriesPerRpc : Nat := 256

def kMaxAppendEntriesBytes : Nat := 512 * 1024

namespace RaftNode

/-- The loop that fills a request, from `index` on. Every pass adds an entry, so
`kMaxAppendEntriesPerRpc` passes are enough. -/
def batchLoop (n : RaftNode) (index entryCount bytesCount : Nat) : Nat → List LogRecord
  | 0 => []
  | passes + 1 =>
    if n.lastLogIndexLocked < index ∨ kMaxAppendEntriesPerRpc ≤ entryCount then []
    else
      match n.logAtIndexLocked index with
      | none => []
      | some record =>
        let nextBytes := bytesCount + record.command.length
        if 0 < entryCount ∧ kMaxAppendEntriesBytes < nextBytes then []
        else record :: batchLoop n (index + 1) (entryCount + 1) nextBytes passes

/-- What `BuildAppendEntriesRequest` decides to send. -/
inductive Shipment where
  | none
  | snapshot
  | append (request : AppendEntriesRequest)
  deriving DecidableEq, Repr

def appendRequestFrom (n : RaftNode) (nextIndex : Nat) : AppendEntriesRequest where
  term := n.currentTerm
  leaderId := n.nodeId
  prevLogIndex := nextIndex - 1
  prevLogTerm := n.termAtIndexLocked (nextIndex - 1)
  entries := n.batchLoop nextIndex 0 0 kMaxAppendEntriesPerRpc
  leaderCommit := n.commitIndex

/-- The node is returned as well: an unset `next_index_` is filled in. -/
def buildAppendEntriesRequest (n : RaftNode) (peer : NodeId) (leaderTerm : Nat) :
    RaftNode × Shipment :=
  if !n.running ∨ n.role ≠ .leader ∨ n.currentTerm ≠ leaderTerm then (n, .none)
  else
    let next := if n.nextIndex peer = 0 then n.lastLogIndexLocked + 1 else n.nextIndex peer
    let m : RaftNode := { n with nextIndex := Function.update n.nextIndex peer next }
    if next ≤ m.firstLogIndexLocked then (m, .snapshot)
    else if m.termAtIndexLocked (next - 1) = 0 ∧ next - 1 ≠ 0 then (m, .snapshot)
    else (m, .append (m.appendRequestFrom next))

/-- The last record of the term, searched from the back. -/
def lastIndexOfTerm (n : RaftNode) (term : Nat) : Option Nat :=
  (n.log.reverse.find? (fun record => record.term == term)).map LogRecord.index

/-- The index to continue from after a rejection, before clamping; `0` when the response
gives none. -/
def hintedNext (n : RaftNode) (response : AppendEntriesResponse) : Nat :=
  if response.conflictTerm ≠ 0 then
    match n.lastIndexOfTerm response.conflictTerm with
    | some index => index + 1
    | none => response.conflictIndex
  else if response.conflictIndex ≠ 0 then response.conflictIndex
  else response.lastLogIndex + 1

def handleAppendEntriesResponse (n : RaftNode) (peer : NodeId) (leaderTerm : Nat)
    (response : AppendEntriesResponse) (saved : Bool) : RaftNode :=
  if !n.running then n
  else if n.currentTerm < response.term then
    (n.becomeFollowerLocked response.term (-1) saved).1
  else if n.role ≠ .leader ∨ n.currentTerm ≠ leaderTerm then n
  else if response.success then
    { n with
      matchIndex := Function.update n.matchIndex peer
        (max (n.matchIndex peer) response.matchIndex)
      nextIndex := Function.update n.nextIndex peer
        (max (n.nextIndex peer) (response.matchIndex + 1)) }.advanceCommitIndexUnlocked saved
  else
    let hinted := min (n.hintedNext response) (n.lastLogIndexLocked + 1)
    let next :=
      if 0 < hinted then hinted
      else if 1 < n.nextIndex peer then n.nextIndex peer - 1
      else 1
    { n with nextIndex := Function.update n.nextIndex peer next }

/-- The last critical section of `SendInstallSnapshotToPeer`; `lastIncludedIndex` is the
index of the snapshot that was sent. -/
def handleInstallSnapshotResponse (n : RaftNode) (peer : NodeId) (leaderTerm : Nat)
    (lastIncludedIndex : Nat) (response : InstallSnapshotResponse) (saved : Bool) : RaftNode :=
  if n.currentTerm < response.term then
    (n.becomeFollowerLocked response.term (-1) saved).1
  else if !n.running ∨ n.role ≠ .leader ∨ n.currentTerm ≠ leaderTerm then n
  else if !response.success then
    { n with nextIndex := Function.update n.nextIndex peer (response.lastLogIndex + 1) }
  else
    { n with
      matchIndex := Function.update n.matchIndex peer (max (n.matchIndex peer) lastIncludedIndex)
      nextIndex := Function.update n.nextIndex peer
        (max (n.nextIndex peer) (lastIncludedIndex + 1)) }

end RaftNode

end CquptRaft
