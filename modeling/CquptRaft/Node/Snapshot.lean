import CquptRaft.Node.Handlers
import CquptRaft.StateMachine.KvStateMachine
import Mathlib.Data.List.Sort

/-!
# Snapshots, application and recovery

The critical sections of `OnInstallSnapshot`, `ApplyCommittedEntries` and
`SnapshotWorkerLoop`, the snapshot directory as the node sees it, and the reconstruction of a
node from its disk.
-/

namespace CquptRaft

structure SnapshotConfig where
  enabled : Bool := true
  logThreshold : Nat := 30
  maxSnapshotCount : Nat := 5
  loadOnStartup : Bool := true
  deriving DecidableEq, Repr

/-- A published directory `snapshot_<index>`. -/
structure Snapshot (Image : Type) where
  index : Nat
  term : Nat
  image : Image

/-! ## The snapshot directory -/

/-- Valid snapshots, newest first. -/
def listSnapshots {Image : Type} (dir : List (Snapshot Image)) : List (Snapshot Image) :=
  dir.insertionSort (fun a b => b.index ≤ a.index)

/-- How a call of `SaveSnapshotFile` that has to publish ends. The last two are the failures
before and after the rename that makes the snapshot visible. -/
inductive SaveOutcome where
  | ok | failed | failedAfterPublish
  deriving DecidableEq, Repr

/-- `input` is the content of the input file, if it can be read. An existing snapshot of the
same index is kept and returned, or refused when its term differs. -/
def saveSnapshotFile {Image : Type} (dir : List (Snapshot Image)) (input : Option Image)
    (index term : Nat) (outcome : SaveOutcome) : List (Snapshot Image) × Bool :=
  match dir.find? (fun s => s.index == index), input, outcome with
  | some existing, _, .ok => (dir, existing.term == term)
  | some _, _, _ => (dir, false)
  | none, some image, .ok => (⟨index, term, image⟩ :: dir, true)
  | none, some image, .failedAfterPublish => (⟨index, term, image⟩ :: dir, false)
  | none, _, _ => (dir, false)

/-- `PruneSnapshots` after its removals have reached position `upto` of the list. -/
def pruneSnapshots {Image : Type} (dir : List (Snapshot Image)) (maxKeep upto : Nat) :
    List (Snapshot Image) :=
  let keep := max 1 maxKeep
  (listSnapshots dir).take keep ++ (listSnapshots dir).drop (max keep upto)

/-- The snapshot `SendInstallSnapshotToPeer` reads: the one at the boundary, else the newest. -/
def chooseSnapshot {Image : Type} (dir : List (Snapshot Image)) (index term : Nat) :
    Option (Snapshot Image) :=
  match (listSnapshots dir).find? (fun s => s.index == index && s.term == term) with
  | some s => some s
  | none => (listSnapshots dir).head?

namespace RaftNode

/-! ## `OnInstallSnapshot` -/

/-- The response as the first critical section leaves it for the failures that follow. -/
def installResponse (n : RaftNode) : InstallSnapshotResponse where
  term := n.currentTerm
  success := false
  lastLogIndex := n.lastLogIndexLocked
  message := ""

/-- The admission check. The handler goes on when there is no response yet. -/
def installCheck {Image : Type} (n : RaftNode) (enabled : Bool)
    (request : InstallSnapshotRequest Image) (saved : Bool) :
    RaftNode × Option InstallSnapshotResponse :=
  if !enabled then (n, some { n.installResponse with message := "snapshot is disabled" })
  else if request.term < n.currentTerm then
    (n, some { n.installResponse with message := "stale term" })
  else
    let (m, ok) := n.acceptLeaderLocked request.term request.leaderId saved
    if !ok then
      (m, some { n.installResponse with
        term := m.currentTerm, message := "persist higher term failed" })
    else if request.lastIncludedIndex ≤ m.lastSnapshotIndex then
      (m, some ⟨m.currentTerm, true, m.lastLogIndexLocked, "snapshot already installed"⟩)
    else (m, none)

/-- The boundary of an installed snapshot enters log, commit index and apply index. -/
def adoptSnapshotLocked (n : RaftNode) (index term : Nat) : RaftNode :=
  let m := n.compactLogPrefixLocked index term
  { m with commitIndex := max m.commitIndex index, lastApplied := max m.lastApplied index }

/-- The critical section behind the load. `response` is what the handler has filled in so
far. -/
def installFinish {Image : Type} (n : RaftNode) (request : InstallSnapshotRequest Image)
    (response : InstallSnapshotResponse) (saved : Bool) : RaftNode × InstallSnapshotResponse :=
  if request.term < n.currentTerm then
    (n, { response with
      term := n.currentTerm, message := "term changed while installing snapshot" })
  else
    let m := n.adoptSnapshotLocked request.lastIncludedIndex request.lastIncludedTerm
    if saved then
      (m.persistStateLocked true,
        ⟨m.currentTerm, true, m.lastLogIndexLocked, "snapshot installed"⟩)
    else
      (m, ⟨m.currentTerm, false, m.lastLogIndexLocked,
        "persist installed snapshot raft state failed"⟩)

/-! ## `ApplyCommittedEntries` -/

inductive ApplyPick where
  | nothing
  | outOfRange
  | entry (index : Nat) (command : Bytes)
  deriving DecidableEq, Repr

/-- The first critical section of a pass. -/
def applyPick (n : RaftNode) : RaftNode × ApplyPick :=
  let m := { n with lastApplied := max n.lastApplied n.lastSnapshotIndex }
  if m.commitIndex ≤ m.lastApplied then (m, .nothing)
  else
    match m.logAtIndexLocked (m.lastApplied + 1) with
    | none => (m, .outOfRange)
    | some record => (m, .entry (m.lastApplied + 1) record.command)

/-- The second critical section of a pass. The flag tells whether the loop goes on. -/
def applyFinish (n : RaftNode) (index : Nat) (saved : Bool) : RaftNode × Bool :=
  if n.lastApplied < index then
    ({ n with lastApplied := index }.persistStateLocked saved, saved)
  else (n, true)

/-! ## The snapshot worker -/

/-- Whether `MaybeScheduleSnapshotLocked` asks the worker for a snapshot. -/
def wantsSnapshotLocked (n : RaftNode) (config : SnapshotConfig) (forceByTimer : Bool) : Bool :=
  config.enabled && n.lastSnapshotIndex < n.lastApplied &&
    (forceByTimer || config.logThreshold ≤ n.lastApplied - n.lastSnapshotIndex)

/-- The critical section behind a saved snapshot. -/
def compactAfterSnapshot (n : RaftNode) (index term : Nat) (saved : Bool) : RaftNode :=
  if n.lastSnapshotIndex < index then
    (n.compactLogPrefixLocked index term).persistStateLocked saved
  else n

/-! ## Recovery -/

def bootstrapRecord : LogRecord := ⟨0, 0, kBootstrapCommand⟩

/-- The node the constructor builds from the durable Raft state, before any snapshot is
loaded. -/
def recover (nodeId : NodeId) (peers : List NodeId) (storage : Option PersistentRaftState) :
    RaftNode :=
  let fresh : RaftNode :=
    { nodeId, peers, storage, running := false, role := .follower, currentTerm := 0,
      votedFor := -1, leaderId := -1, log := [bootstrapRecord], commitIndex := 0,
      lastApplied := 0, lastSnapshotIndex := 0, lastSnapshotTerm := 0, nextIndex := fun _ => 0,
      matchIndex := fun _ => 0, electionTimerGeneration := 0 }
  match storage.map clampRecoveredHardState with
  | none => fresh
  | some state =>
    let boundary := match state.log.head? with
      | some r => if 0 < r.index ∧ r.command = kSnapshotMarkerCommand then (r.index, r.term)
        else (0, 0)
      | none => (0, 0)
    let m : RaftNode := { fresh with
      currentTerm := state.currentTerm
      votedFor := state.votedFor
      log := if state.log = [] then [bootstrapRecord] else state.log
      lastSnapshotIndex := boundary.1
      lastSnapshotTerm := boundary.2 }
    { m with
      commitIndex := min (max state.commitIndex state.lastApplied) m.lastLogIndexLocked }

/-- The first snapshot of the list that can be read and loaded. -/
def firstLoadable {σ : Type} (sm : IStateMachine σ) (readable : Nat → Bool) :
    List (Snapshot sm.Image) → Option (Snapshot sm.Image × σ)
  | [] => none
  | s :: rest =>
    match readable s.index, sm.loadSnapshot s.image with
    | true, some kv => some (s, kv)
    | _, _ => firstLoadable sm readable rest

/-- `LoadLatestSnapshotOnStartup` on a recovered node; `none` is the exception thrown when
the compacted state cannot be saved. -/
def loadLatestSnapshotOnStartup {σ : Type} (sm : IStateMachine σ) (n : RaftNode)
    (config : SnapshotConfig) (dir : List (Snapshot sm.Image)) (readable : Nat → Bool)
    (saved : Bool) : Option (RaftNode × σ) :=
  if !config.enabled || !config.loadOnStartup then some (n, sm.initial)
  else
    match firstLoadable sm readable (listSnapshots dir) with
    | none => some (n, sm.initial)
    | some (s, kv) =>
      if saved then
        let m := n.compactLogPrefixLocked s.index s.term
        some ({ m with
          commitIndex := max m.commitIndex s.index
          lastApplied := s.index }.persistStateLocked true, kv)
      else none

/-- `ApplyCommittedEntries` in the constructor, where no other thread runs. `saved i` is the
outcome of the `Save` behind entry `i`, and the flag tells whether the replay went through. -/
def replayCommittedEntries {σ : Type} (sm : IStateMachine σ) (saved : Nat → Bool) :
    Nat → RaftNode → σ → RaftNode × σ × Bool
  | 0, n, kv => (n, kv, false)
  | fuel + 1, n, kv =>
    match n.applyPick with
    | (n, .nothing) => (n, kv, true)
    | (n, .outOfRange) => (n, kv, false)
    | (n, .entry index command) =>
      match sm.apply kv command with
      | .error _ => (n, kv, false)
      | .ok kv =>
        match n.applyFinish index (saved index) with
        | (n, true) => replayCommittedEntries sm saved fuel n kv
        | (n, false) => (n, kv, false)

/-- What a constructor call leaves behind: a node with its state machine, or only the data
directory when it throws. -/
inductive Construction (σ : Type) where
  | thrown (storage : Option PersistentRaftState)
  | ready (node : RaftNode) (kv : σ)

/-- The constructor. Every pass of the replay applies an entry up to the commit index, so the
fuel does not run out. -/
def construct {σ : Type} (sm : IStateMachine σ) (nodeId : NodeId) (peers : List NodeId)
    (storage : Option PersistentRaftState) (config : SnapshotConfig)
    (dir : List (Snapshot sm.Image)) (readable : Nat → Bool) (saved : Bool)
    (replaySaved : Nat → Bool) : Construction σ :=
  match loadLatestSnapshotOnStartup sm (recover nodeId peers storage) config dir readable saved with
  | none => .thrown storage
  | some (n, kv) =>
    if n.lastApplied < n.commitIndex then
      match replayCommittedEntries sm replaySaved (n.commitIndex + 1) n kv with
      | (n, kv, true) => .ready n kv
      | (n, _, false) => .thrown n.storage
    else .ready n kv

end RaftNode

end CquptRaft
