import CquptRaft.Common.Bytes
import Mathlib.Logic.Function.Basic

/-!
# The state of one node and its accessors

`RaftNode` holds the fields that `mu_` protects together with the durable state that the
last successful `Save` left in the data directory. Every function whose name ends in
`Locked` is one that runs inside a critical section, so a handler is a pure function on this
record. A `Bool` argument named after a `Save` is the outcome of that `Save`.

Terms and indexes are natural numbers; the top of the 64-bit range is not modelled, so
`SafeAddOne` is the successor.
-/

namespace CquptRaft

/-- `int` in the source; `-1` stands for no node. -/
abbrev NodeId := Int

inductive Role where
  | follower | candidate | leader
  deriving DecidableEq, Repr

structure LogRecord where
  index : Nat
  term : Nat
  command : Bytes
  deriving DecidableEq, Repr, Inhabited

structure PersistentRaftState where
  currentTerm : Nat
  votedFor : NodeId
  commitIndex : Nat
  lastApplied : Nat
  log : List LogRecord
  deriving DecidableEq, Repr

/-- `Load` bounds the recovered commit and apply indexes by the recovered log. -/
def clampRecoveredHardState (state : PersistentRaftState) : PersistentRaftState :=
  let last := match state.log.getLast? with
    | none => 0
    | some r => r.index
  let commit := min state.commitIndex last
  { state with commitIndex := commit, lastApplied := min (min state.lastApplied last) commit }

def kSnapshotMarkerCommand : Bytes := ascii "snapshot"

def kBootstrapCommand : Bytes := ascii "bootstrap"

structure RaftNode where
  nodeId : NodeId
  peers : List NodeId
  running : Bool
  role : Role
  currentTerm : Nat
  votedFor : NodeId
  leaderId : NodeId
  log : List LogRecord
  commitIndex : Nat
  lastApplied : Nat
  lastSnapshotIndex : Nat
  lastSnapshotTerm : Nat
  nextIndex : NodeId → Nat
  matchIndex : NodeId → Nat
  electionTimerGeneration : Nat
  storage : Option PersistentRaftState

namespace RaftNode

/-! ## Log accessors -/

def firstLogIndexLocked (n : RaftNode) : Nat :=
  match n.log.head? with
  | none => n.lastSnapshotIndex
  | some r => r.index

def lastLogIndexLocked (n : RaftNode) : Nat :=
  match n.log.getLast? with
  | none => n.lastSnapshotIndex
  | some r => r.index

def lastLogTermLocked (n : RaftNode) : Nat :=
  match n.log.getLast? with
  | none => n.lastSnapshotTerm
  | some r => r.term

def hasLogAtIndexLocked (n : RaftNode) (index : Nat) : Bool :=
  match n.log.head?, n.log.getLast? with
  | some front, some back => front.index ≤ index && index ≤ back.index
  | _, _ => false

def logOffsetLocked (n : RaftNode) (index : Nat) : Nat :=
  index - n.firstLogIndexLocked

def logAtIndexLocked (n : RaftNode) (index : Nat) : Option LogRecord :=
  if n.hasLogAtIndexLocked index then n.log[n.logOffsetLocked index]? else none

theorem logAtIndexLocked_of_log_eq {n n' : RaftNode} (hlog : n'.log = n.log)
    (hsnap : n'.lastSnapshotIndex = n.lastSnapshotIndex) (index : Nat) :
    n'.logAtIndexLocked index = n.logAtIndexLocked index := by
  have hhas : n'.hasLogAtIndexLocked index = n.hasLogAtIndexLocked index := by
    simp only [hasLogAtIndexLocked, hlog]
  have hoffset : n'.logOffsetLocked index = n.logOffsetLocked index := by
    simp only [logOffsetLocked, firstLogIndexLocked, hlog, hsnap]
  simp only [logAtIndexLocked, hhas, hoffset, hlog]

def termAtIndexLocked (n : RaftNode) (index : Nat) : Nat :=
  if index = n.lastSnapshotIndex then n.lastSnapshotTerm
  else
    match n.logAtIndexLocked index with
    | none => 0
    | some record => record.term

def firstIndexOfTermLocked (n : RaftNode) (term : Nat) : Nat :=
  match n.log.find? (fun record => record.term == term) with
  | none => 0
  | some record => record.index

def isCandidateLogUpToDateLocked (n : RaftNode) (lastLogIndex lastLogTerm : Nat) : Bool :=
  if lastLogTerm ≠ n.lastLogTermLocked then n.lastLogTermLocked < lastLogTerm
  else n.lastLogIndexLocked ≤ lastLogIndex

/-! ## Timers and storage -/

def cancelElectionTimerLocked (n : RaftNode) : RaftNode :=
  { n with electionTimerGeneration := n.electionTimerGeneration + 1 }

/-- Arming the new timer leaves no trace in the record: a timer may fire at any time. -/
def resetElectionTimerLocked (n : RaftNode) : RaftNode := n.cancelElectionTimerLocked

/-- The state `PersistStateLocked` hands to `Save`. -/
def persistentState (n : RaftNode) : PersistentRaftState where
  currentTerm := n.currentTerm
  votedFor := n.votedFor
  commitIndex := n.commitIndex
  lastApplied := n.lastApplied
  log := n.log

/-- A failed `Save` leaves the durable state as it was. -/
def persistStateLocked (n : RaftNode) (saved : Bool) : RaftNode :=
  if saved then { n with storage := some n.persistentState } else n

/-- A `Save` touches nothing in memory. -/
theorem persistStateLocked_eq (n : RaftNode) (saved : Bool) :
    n.persistStateLocked saved =
      { n with storage := if saved then some n.persistentState else n.storage } := by
  cases saved <;> rfl

section

variable (n : RaftNode) (saved : Bool)

@[simp] theorem persistStateLocked_nodeId : (n.persistStateLocked saved).nodeId = n.nodeId := by
  rw [persistStateLocked_eq]

@[simp] theorem persistStateLocked_peers : (n.persistStateLocked saved).peers = n.peers := by
  rw [persistStateLocked_eq]

@[simp] theorem persistStateLocked_running : (n.persistStateLocked saved).running = n.running := by
  rw [persistStateLocked_eq]

@[simp] theorem persistStateLocked_role : (n.persistStateLocked saved).role = n.role := by
  rw [persistStateLocked_eq]

@[simp] theorem persistStateLocked_currentTerm :
    (n.persistStateLocked saved).currentTerm = n.currentTerm := by
  rw [persistStateLocked_eq]

@[simp] theorem persistStateLocked_votedFor :
    (n.persistStateLocked saved).votedFor = n.votedFor := by
  rw [persistStateLocked_eq]

@[simp] theorem persistStateLocked_leaderId :
    (n.persistStateLocked saved).leaderId = n.leaderId := by
  rw [persistStateLocked_eq]

@[simp] theorem persistStateLocked_log : (n.persistStateLocked saved).log = n.log := by
  rw [persistStateLocked_eq]

@[simp] theorem persistStateLocked_commitIndex :
    (n.persistStateLocked saved).commitIndex = n.commitIndex := by
  rw [persistStateLocked_eq]

@[simp] theorem persistStateLocked_lastApplied :
    (n.persistStateLocked saved).lastApplied = n.lastApplied := by
  rw [persistStateLocked_eq]

@[simp] theorem persistStateLocked_lastSnapshotIndex :
    (n.persistStateLocked saved).lastSnapshotIndex = n.lastSnapshotIndex := by
  rw [persistStateLocked_eq]

@[simp] theorem persistStateLocked_lastSnapshotTerm :
    (n.persistStateLocked saved).lastSnapshotTerm = n.lastSnapshotTerm := by
  rw [persistStateLocked_eq]

@[simp] theorem persistStateLocked_nextIndex :
    (n.persistStateLocked saved).nextIndex = n.nextIndex := by
  rw [persistStateLocked_eq]

@[simp] theorem persistStateLocked_matchIndex :
    (n.persistStateLocked saved).matchIndex = n.matchIndex := by
  rw [persistStateLocked_eq]

end

/-! ## Compaction -/

/-- The boundary of the retained log agrees with the snapshot, so the records behind it may
stay. -/
def keepsSuffixLocked (n : RaftNode) (lastIncludedIndex lastIncludedTerm : Nat) : Bool :=
  (match n.logAtIndexLocked lastIncludedIndex with
    | some boundary => boundary.term == lastIncludedTerm
    | none => false) ||
  (lastIncludedIndex == n.lastSnapshotIndex && n.lastSnapshotTerm == lastIncludedTerm)

def restoreLogAfterSnapshotLocked (n : RaftNode) (lastIncludedIndex lastIncludedTerm : Nat)
    (keepSuffixWhenBoundaryMatches : Bool) : RaftNode :=
  if lastIncludedIndex ≤ n.lastSnapshotIndex ∧ n.log ≠ [] ∧
      n.firstLogIndexLocked = n.lastSnapshotIndex then n
  else
    let marker : LogRecord := ⟨lastIncludedIndex, lastIncludedTerm, kSnapshotMarkerCommand⟩
    let suffix :=
      if keepSuffixWhenBoundaryMatches && n.keepsSuffixLocked lastIncludedIndex lastIncludedTerm
      then n.log.filter (fun record => lastIncludedIndex < record.index) else []
    { n with
      log := marker :: suffix
      lastSnapshotIndex := lastIncludedIndex
      lastSnapshotTerm := lastIncludedTerm
      commitIndex := max n.commitIndex lastIncludedIndex
      lastApplied := max n.lastApplied lastIncludedIndex }

def compactLogPrefixLocked (n : RaftNode) (lastIncludedIndex lastIncludedTerm : Nat) :
    RaftNode :=
  n.restoreLogAfterSnapshotLocked lastIncludedIndex lastIncludedTerm true

/-! ## Role changes -/

/-- The flag tells whether a new term could be saved. The new term stays in memory even when
it could not. -/
def becomeFollowerLocked (n : RaftNode) (newTerm : Nat) (newLeader : NodeId) (saved : Bool) :
    RaftNode × Bool :=
  if n.currentTerm < newTerm then
    let m : RaftNode := { n with
      currentTerm := newTerm, votedFor := -1, role := .follower, leaderId := newLeader }
    (m.resetElectionTimerLocked.persistStateLocked saved, saved)
  else
    ({ n with role := .follower, leaderId := newLeader }.resetElectionTimerLocked, true)

@[simp] theorem becomeFollowerLocked_currentTerm (n : RaftNode) (newTerm : Nat)
    (newLeader : NodeId) (saved : Bool) :
    (n.becomeFollowerLocked newTerm newLeader saved).1.currentTerm = max n.currentTerm newTerm := by
  unfold becomeFollowerLocked
  split
  · simp [resetElectionTimerLocked, cancelElectionTimerLocked]
    omega
  · simp [resetElectionTimerLocked, cancelElectionTimerLocked]
    omega

def becomeLeaderLocked (n : RaftNode) : RaftNode :=
  let last := n.lastLogIndexLocked
  { n.cancelElectionTimerLocked with
    role := .leader
    leaderId := n.nodeId
    nextIndex := fun id => if id = n.nodeId ∨ id ∈ n.peers then last + 1 else 0
    matchIndex := fun id => if id = n.nodeId then last else 0 }

end RaftNode

end CquptRaft
