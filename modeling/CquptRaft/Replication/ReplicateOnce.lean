import CquptRaft.Node.Calls
import CquptRaft.Theory.Threads

/-!
# One call at a time to a peer

`Replicator::ReplicateOnce` is entered by heartbeat tasks and by `Propose` threads, any number at a
time and with any term. It takes the lock of the replicator to start a call and again to finish it,
and has none while the call is under way. A step is a section under a lock, or the call to the peer
on its way out or back; between two steps of a thread the others do what they like, and so does the
node.
-/

namespace CquptRaft

variable {Image : Type}

/-! ## The replicator -/

/-- In nanoseconds, as the clock. -/
def kInitialRetryBackoff : Int := 20 * 1000000

def kMaxRetryBackoff : Int := 500 * 1000000

structure Replicator where
  appendInflight : Bool := false
  snapshotInflight : Bool := false
  /-- Zero, the epoch of the clock, is no time to wait for. -/
  nextRetryTime : Int := 0
  retryBackoff : Int := kInitialRetryBackoff
  appendRpcStarted : Nat := 0
  appendRpcFinished : Nat := 0
  snapshotRpcStarted : Nat := 0
  snapshotRpcFinished : Nat := 0
  transportFailures : Nat := 0
  deriving DecidableEq, Repr

namespace Replicator

def isBackoffActiveLocked (r : Replicator) (now : Int) : Bool :=
  r.nextRetryTime ≠ 0 && now < r.nextRetryTime

def resetBackoffLocked (r : Replicator) : Replicator :=
  { r with retryBackoff := kInitialRetryBackoff, nextRetryTime := 0 }

def recordTransportFailureLocked (r : Replicator) (now : Int) : Replicator :=
  { r with
    transportFailures := r.transportFailures + 1
    nextRetryTime := now + r.retryBackoff
    retryBackoff := min kMaxRetryBackoff (r.retryBackoff * 2) }

def finishAppendRpcLocked (r : Replicator) : Replicator :=
  { r with appendInflight := false, appendRpcFinished := r.appendRpcFinished + 1 }

def finishSnapshotRpcLocked (r : Replicator) : Replicator :=
  { r with snapshotInflight := false, snapshotRpcFinished := r.snapshotRpcFinished + 1 }

end Replicator

namespace RaftNode

/-- The result of `HandleAppendEntriesResponse`: the peer is known to have the target. -/
def responseMatches (n : RaftNode) (peer : NodeId) (leaderTerm targetIndex : Nat)
    (response : AppendEntriesResponse) : Bool :=
  n.running && !(n.currentTerm < response.term) && n.role = .leader && n.currentTerm = leaderTerm &&
    response.success &&
      (targetIndex = 0 || targetIndex ≤ max (n.matchIndex peer) response.matchIndex)

/-- The result of `SendInstallSnapshotToPeer` when there is a response. -/
def installAccepted (n : RaftNode) (leaderTerm : Nat) (response : InstallSnapshotResponse) : Bool :=
  !(n.currentTerm < response.term) && n.running && n.role = .leader && n.currentTerm = leaderTerm &&
    response.success

end RaftNode

/-! ## Threads -/

/-- Where a call of `ReplicateOnce` stands. -/
inductive ReplicatePhase where
  | called
  /-- Has the lock of the replicator, in front of `BuildAppendEntriesRequest`. -/
  | building
  | append (request : AppendEntriesRequest)
  /-- The call is on its way and has not returned. -/
  | appendIssued (request : AppendEntriesRequest)
  | appendReturned (response : Option AppendEntriesResponse)
  | appendHandled (success matched shouldApply : Bool)
  /-- In front of `SendInstallSnapshotToPeer`. -/
  | snapshot
  | boundary (index term : Nat)
  | install (lastIncludedIndex : Nat)
  | installIssued (lastIncludedIndex : Nat)
  | installReturned (lastIncludedIndex : Nat) (response : Option InstallSnapshotResponse)
  /-- `SendInstallSnapshotToPeer` has returned. -/
  | installDone (ok : Bool)
  | installFinished (ok : Bool)
  | returned (result shouldApply : Bool)
  deriving DecidableEq, Repr

structure ReplicateThread where
  leaderTerm : Nat
  targetIndex : Nat
  phase : ReplicatePhase := .called
  deriving DecidableEq, Repr

/-- What a step of a thread may depend on from outside. -/
inductive ReplicateMove (Image : Type) where
  | go
  /-- A section that may write the hard state of the node. -/
  | handle (saved : Bool)
  /-- `snapshot_storage_` is there, or not. -/
  | storage (present : Bool)
  /-- What the directory has when it can be listed, and whether the data file can be read. -/
  | listed (snapshots : Option (List (Snapshot Image))) (readable : Bool)
  /-- The call to the peer, if there is a client for it. -/
  | issue (client : Bool)
  | appendResponse (response : Option AppendEntriesResponse)
  | installResponse (response : Option InstallSnapshotResponse)

/-- A node, its replicator for one peer and the threads in `ReplicateOnce`. -/
structure PeerReplication where
  node : RaftNode
  peer : NodeId
  clock : Int := 0
  replicator : Replicator := {}
  /-- The lock of the replicator is taken by a thread that builds its request. -/
  locked : Bool := false
  /-- In any order. -/
  threads : List ReplicateThread := []

inductive ReplicationAction (Image : Type) where
  | tick (d : Nat)
  /-- Another section of the node. -/
  | node (c : Call Image)
  | replicateOnce (leaderTerm targetIndex : Nat)
  | thread (i : Nat) (move : ReplicateMove Image)

namespace PeerReplication

def isTargetMatched (s : PeerReplication) (targetIndex : Nat) : Bool :=
  targetIndex ≠ 0 && targetIndex ≤ s.node.matchIndex s.peer

/-- The first section up to `BuildAppendEntriesRequest`, which keeps the lock. -/
def enter (s : PeerReplication) (targetIndex : Nat) : PeerReplication × ReplicatePhase :=
  if s.isTargetMatched targetIndex then (s, .returned true false)
  else if s.replicator.appendInflight || s.replicator.snapshotInflight then
    (s, .returned false false)
  else if s.replicator.isBackoffActiveLocked s.clock then (s, .returned false false)
  else ({ s with locked := true }, .building)

/-- The rest of the first section. -/
def build (s : PeerReplication) (leaderTerm : Nat) : PeerReplication × ReplicatePhase :=
  let (node, shipment) := s.node.buildAppendEntriesRequest s.peer leaderTerm
  let s := { s with node, locked := false }
  match shipment with
  | .none => (s, .returned false false)
  | .snapshot =>
    ({ s with replicator := { s.replicator with
        snapshotInflight := true
        snapshotRpcStarted := s.replicator.snapshotRpcStarted + 1 } }, .snapshot)
  | .append request =>
    ({ s with replicator := { s.replicator with
        appendInflight := true
        appendRpcStarted := s.replicator.appendRpcStarted + 1 } }, .append request)

/-- The first section of `SendInstallSnapshotToPeer`. -/
def readBoundary (s : PeerReplication) (leaderTerm : Nat) (present : Bool) : ReplicatePhase :=
  if !s.node.running ∨ s.node.role ≠ .leader ∨ s.node.currentTerm ≠ leaderTerm then
    .installDone false
  else if !present ∨ s.node.lastSnapshotIndex = 0 then .installDone false
  else .boundary s.node.lastSnapshotIndex s.node.lastSnapshotTerm

/-- `SendInstallSnapshotToPeer` outside the lock, up to the call. -/
def readSnapshot (snapshots : Option (List (Snapshot Image))) (readable : Bool) (index term : Nat) :
    ReplicatePhase :=
  match snapshots with
  | none => .installDone false
  | some snapshots =>
    match chooseSnapshot snapshots index term with
    | none => .installDone false
    | some snapshot => if readable then .install snapshot.index else .installDone false

def handleResponse (s : PeerReplication) (t : ReplicateThread) (response : AppendEntriesResponse)
    (saved : Bool) : PeerReplication × ReplicatePhase :=
  let node := s.node.handleAppendEntriesResponse s.peer t.leaderTerm response saved
  ({ s with node }, .appendHandled response.success
    (s.node.responseMatches s.peer t.leaderTerm t.targetIndex response)
    (s.node.commitIndex < node.commitIndex))

/-- One step of a thread. The sections of the replicator wait for its lock. -/
def advance (s : PeerReplication) (t : ReplicateThread) :
    ReplicateMove Image → Option (PeerReplication × ReplicatePhase)
  | .go =>
    match t.phase, s.locked with
    | .called, false => some (s.enter t.targetIndex)
    | .building, _ => some (s.build t.leaderTerm)
    | .appendReturned none, false =>
      some ({ s with replicator :=
        s.replicator.finishAppendRpcLocked.recordTransportFailureLocked s.clock },
        .returned false false)
    | .appendHandled success matched shouldApply, false =>
      let r := s.replicator.finishAppendRpcLocked
      some ({ s with replicator :=
        if success then r.resetBackoffLocked else { r with nextRetryTime := s.clock } },
        .returned matched shouldApply)
    | .installReturned _ none, _ => some (s, .installDone false)
    | .installDone ok, false =>
      let r := s.replicator.finishSnapshotRpcLocked
      some ({ s with replicator :=
        if ok then r.resetBackoffLocked else r.recordTransportFailureLocked s.clock },
        .installFinished ok)
    | .installFinished ok, _ =>
      some (s, .returned (ok && (t.targetIndex = 0 || s.isTargetMatched t.targetIndex)) false)
    | _, _ => none
  | .handle saved =>
    match t.phase with
    | .appendReturned (some response) => some (s.handleResponse t response saved)
    | .installReturned lastIncludedIndex (some response) =>
      let node := s.node.handleInstallSnapshotResponse s.peer t.leaderTerm lastIncludedIndex
        response saved
      some ({ s with node }, .installDone (s.node.installAccepted t.leaderTerm response))
    | _ => none
  | .storage present =>
    match t.phase with
    | .snapshot => some (s, s.readBoundary t.leaderTerm present)
    | _ => none
  | .listed snapshots readable =>
    match t.phase with
    | .boundary index term => some (s, readSnapshot snapshots readable index term)
    | _ => none
  | .issue client =>
    match t.phase with
    | .append request => some (s, if client then .appendIssued request else .appendReturned none)
    | .install lastIncludedIndex =>
      some (s, if client then .installIssued lastIncludedIndex
        else .installReturned lastIncludedIndex none)
    | _ => none
  | .appendResponse response =>
    match t.phase with
    | .appendIssued _ => some (s, .appendReturned response)
    | _ => none
  | .installResponse response =>
    match t.phase with
    | .installIssued lastIncludedIndex => some (s, .installReturned lastIncludedIndex response)
    | _ => none

def step (s : PeerReplication) : ReplicationAction Image → Option PeerReplication
  | .tick d => some { s with clock := s.clock + d }
  | .node c => some { s with node := s.node.call c }
  | .replicateOnce leaderTerm targetIndex =>
    some { s with threads := { leaderTerm, targetIndex } :: s.threads }
  | .thread i move => do
    let t ← s.threads[i]?
    let (s', phase) ← s.advance t move
    some { s' with threads := { t with phase } :: s.threads.eraseIdx i }

/-- Some interleaving of the threads. -/
def exec (s : PeerReplication) : List (ReplicationAction Image) → Option PeerReplication
  | [] => some s
  | action :: actions => (s.step action).bind (·.exec actions)

end PeerReplication

/-! ## Stages of a call -/

/-- Between the section that starts a call and the one that finishes it a thread is `appending` or
`installing`. -/
inductive ReplicateStage where
  | outside | building | appending | installing
  deriving DecidableEq

namespace ReplicatePhase

def stage : ReplicatePhase → ReplicateStage
  | .building => .building
  | .append _ | .appendIssued _ | .appendReturned _ | .appendHandled _ _ _ => .appending
  | .snapshot | .boundary _ _ | .install _ | .installIssued _ | .installReturned _ _
  | .installDone _ => .installing
  | .called | .installFinished _ | .returned _ _ => .outside

/-- The call to the peer has left and not returned. -/
def issued : ReplicatePhase → Bool
  | .appendIssued _ | .installIssued _ => true
  | _ => false

/-- The steps that a thread has in front of it until the call is finished, at most. -/
def remaining : ReplicatePhase → Nat
  | .append _ => 4
  | .appendIssued _ => 3
  | .appendReturned _ => 2
  | .appendHandled _ _ _ => 1
  | .snapshot => 6
  | .boundary _ _ => 5
  | .install _ => 4
  | .installIssued _ => 3
  | .installReturned _ _ => 2
  | .installDone _ => 1
  | _ => 0

theorem remaining_pos_iff (phase : ReplicatePhase) :
    0 < phase.remaining ↔ phase.stage = .appending ∨ phase.stage = .installing := by
  cases phase <;> simp [remaining, stage]

theorem stage_of_issued (phase : ReplicatePhase) (h : phase.issued = true) :
    phase.stage = .appending ∨ phase.stage = .installing := by
  cases phase <;> simp_all [issued, stage]

end ReplicatePhase

/-- A flag with the counters of the calls that were started and finished. -/
structure CallCount where
  inflight : Bool
  started : Nat
  finished : Nat

namespace Replicator

def appendCount (r : Replicator) : CallCount :=
  ⟨r.appendInflight, r.appendRpcStarted, r.appendRpcFinished⟩

def snapshotCount (r : Replicator) : CallCount :=
  ⟨r.snapshotInflight, r.snapshotRpcStarted, r.snapshotRpcFinished⟩

end Replicator

namespace CallCount

def start (c : CallCount) : CallCount := { c with inflight := true, started := c.started + 1 }

def finish (c : CallCount) : CallCount := { c with inflight := false, finished := c.finished + 1 }

/-- The flag is up for one call, and every other call that was started is finished. -/
structure Balanced (c : CallCount) (calls : Nat) : Prop where
  inflight : calls = c.inflight.toNat
  finished : c.started = c.finished + calls

theorem Balanced.inflight_iff {c : CallCount} {calls : Nat} (h : c.Balanced calls) :
    c.inflight = true ↔ 0 < calls := by
  rw [h.inflight]
  cases c.inflight <;> decide

theorem Balanced.eq_zero {c : CallCount} {calls : Nat} (h : c.Balanced calls)
    (hidle : c.inflight = false) : calls = 0 := by rw [h.inflight, hidle, Bool.toNat_false]

theorem Balanced.start {c : CallCount} (h : c.Balanced 0) : c.start.Balanced 1 where
  inflight := rfl
  finished := by
    have := h.finished
    simp only [CallCount.start]
    omega

theorem Balanced.finish {c : CallCount} (h : c.Balanced 1) : c.finish.Balanced 0 where
  inflight := rfl
  finished := h.finished

end CallCount

/-- What a step of a thread does to the replicator and its lock, told by the stages that the thread
is in before and after it. -/
inductive StageChange (s s' : PeerReplication) : ReplicateStage → ReplicateStage → Prop where
  | stay {stage} (hreplicator : s'.replicator = s.replicator) (hlocked : s'.locked = s.locked) :
    StageChange s s' stage stage
  | lock (happend : s.replicator.appendInflight = false)
    (hsnapshot : s.replicator.snapshotInflight = false) (hfree : s.locked = false)
    (hreplicator : s'.replicator = s.replicator) (hlocked : s'.locked = true) :
    StageChange s s' .outside .building
  | release (hreplicator : s'.replicator = s.replicator) (hlocked : s'.locked = false) :
    StageChange s s' .building .outside
  | startAppend (happend : s'.replicator.appendCount = s.replicator.appendCount.start)
    (hsnapshot : s'.replicator.snapshotCount = s.replicator.snapshotCount)
    (hlocked : s'.locked = false) : StageChange s s' .building .appending
  | startInstall (happend : s'.replicator.appendCount = s.replicator.appendCount)
    (hsnapshot : s'.replicator.snapshotCount = s.replicator.snapshotCount.start)
    (hlocked : s'.locked = false) : StageChange s s' .building .installing
  | finishAppend (happend : s'.replicator.appendCount = s.replicator.appendCount.finish)
    (hsnapshot : s'.replicator.snapshotCount = s.replicator.snapshotCount)
    (hlocked : s'.locked = s.locked) : StageChange s s' .appending .outside
  | finishInstall (happend : s'.replicator.appendCount = s.replicator.appendCount)
    (hsnapshot : s'.replicator.snapshotCount = s.replicator.snapshotCount.finish)
    (hlocked : s'.locked = s.locked) : StageChange s s' .installing .outside

theorem StageChange.withThreads {s s' : PeerReplication} {src dst : ReplicateStage}
    (h : StageChange s s' src dst) (threads : List ReplicateThread) :
    StageChange s { s' with threads } src dst := by
  cases h <;> constructor <;> assumption

namespace PeerReplication

variable {s s' : PeerReplication} {t : ReplicateThread} {phase : ReplicatePhase}
  {move : ReplicateMove Image}

theorem enter_change {targetIndex : Nat} (hfree : s.locked = false)
    (h : s.enter targetIndex = (s', phase)) : StageChange s s' .outside phase.stage := by
  unfold enter at h
  split at h
  · cases h
    exact .stay rfl rfl
  split at h
  · cases h
    exact .stay rfl rfl
  next hidle =>
    rw [Bool.or_eq_true, not_or, Bool.not_eq_true, Bool.not_eq_true] at hidle
    split at h
    · cases h
      exact .stay rfl rfl
    · cases h
      exact .lock hidle.1 hidle.2 hfree rfl rfl

theorem build_change {leaderTerm : Nat} (h : s.build leaderTerm = (s', phase)) :
    StageChange s s' .building phase.stage := by
  unfold build at h
  simp only at h
  split at h <;> cases h
  · exact .release rfl rfl
  · exact .startInstall rfl rfl rfl
  · exact .startAppend rfl rfl rfl

theorem readBoundary_phase (leaderTerm : Nat) (present : Bool) :
    (s.readBoundary leaderTerm present).stage = .installing ∧
      (s.readBoundary leaderTerm present).remaining < 6 := by
  unfold readBoundary
  split
  · exact ⟨rfl, by decide⟩
  · split <;> exact ⟨rfl, by simp [ReplicatePhase.remaining]⟩

theorem readSnapshot_phase (snapshots : Option (List (Snapshot Image))) (readable : Bool)
    (index term : Nat) :
    (readSnapshot snapshots readable index term).stage = .installing ∧
      (readSnapshot snapshots readable index term).remaining < 5 := by
  unfold readSnapshot
  split
  · exact ⟨rfl, by decide⟩
  · split
    · exact ⟨rfl, by decide⟩
    · split <;> exact ⟨rfl, by simp [ReplicatePhase.remaining]⟩

/-- What a step of a thread does, and that it brings the thread nearer to the end of its call. -/
theorem advance_change (h : s.advance t move = some (s', phase)) :
    StageChange s s' t.phase.stage phase.stage ∧
      (0 < t.phase.remaining → phase.remaining < t.phase.remaining) := by
  cases move with
  | go =>
    simp only [advance] at h
    split at h
    · next hphase hlocked =>
      rw [hphase]
      exact ⟨enter_change hlocked (Option.some.inj h), fun hcall => absurd hcall (lt_irrefl 0)⟩
    · next hphase =>
      rw [hphase]
      exact ⟨build_change (Option.some.inj h), fun hcall => absurd hcall (lt_irrefl 0)⟩
    · next hphase hlocked =>
      cases h
      rw [hphase]
      exact ⟨.finishAppend rfl rfl rfl, fun _ => Nat.zero_lt_two⟩
    · next success _ _ hphase hlocked =>
      cases h
      rw [hphase]
      refine ⟨?_, fun _ => Nat.zero_lt_one⟩
      cases success <;> exact .finishAppend rfl rfl rfl
    · next hphase =>
      cases h
      rw [hphase]
      exact ⟨.stay rfl rfl, fun _ => Nat.one_lt_two⟩
    · next ok hphase hlocked =>
      cases h
      rw [hphase]
      refine ⟨?_, fun _ => Nat.zero_lt_one⟩
      cases ok <;> exact .finishInstall rfl rfl rfl
    · next hphase =>
      cases h
      rw [hphase]
      exact ⟨.stay rfl rfl, fun hcall => absurd hcall (lt_irrefl 0)⟩
    · cases h
  | handle saved =>
    simp only [advance] at h
    split at h <;> cases h <;> next hphase =>
      rw [hphase]
      exact ⟨.stay rfl rfl, fun _ => Nat.one_lt_two⟩
  | storage present =>
    simp only [advance] at h
    split at h <;> cases h
    next hphase =>
      obtain ⟨hstage, hless⟩ := s.readBoundary_phase t.leaderTerm present
      rw [hphase, hstage]
      exact ⟨.stay rfl rfl, fun _ => hless⟩
  | listed snapshots readable =>
    simp only [advance] at h
    split at h <;> cases h
    next index term hphase =>
      obtain ⟨hstage, hless⟩ := readSnapshot_phase snapshots readable index term
      rw [hphase, hstage]
      exact ⟨.stay rfl rfl, fun _ => hless⟩
  | issue client =>
    simp only [advance] at h
    split at h <;> cases h <;> next hphase =>
      rw [hphase]
      cases client <;> exact ⟨.stay rfl rfl, by simp [ReplicatePhase.remaining]⟩
  | appendResponse response =>
    simp only [advance] at h
    split at h <;> cases h
    next hphase =>
      rw [hphase]
      exact ⟨.stay rfl rfl, fun _ => Nat.lt_succ_self 2⟩
  | installResponse response =>
    simp only [advance] at h
    split at h <;> cases h
    next hphase =>
      rw [hphase]
      exact ⟨.stay rfl rfl, fun _ => Nat.lt_succ_self 2⟩

/-- A thread with a call is never stuck while the lock is free. -/
theorem exists_advance (hlocked : s.locked = false) (hcall : 0 < t.phase.remaining) :
    ∃ move : ReplicateMove Image, (s.advance t move).isSome := by
  cases hphase : t.phase with
  | called => simp [hphase, ReplicatePhase.remaining] at hcall
  | building => simp [hphase, ReplicatePhase.remaining] at hcall
  | append request => exact ⟨.issue true, by simp [advance, hphase]⟩
  | appendIssued request => exact ⟨.appendResponse none, by simp [advance, hphase]⟩
  | appendReturned response =>
    cases response with
    | none => exact ⟨.go, by simp [advance, hphase, hlocked]⟩
    | some response => exact ⟨.handle true, by simp [advance, hphase]⟩
  | appendHandled success matched shouldApply =>
    exact ⟨.go, by simp [advance, hphase, hlocked]⟩
  | snapshot => exact ⟨.storage true, by simp [advance, hphase]⟩
  | boundary index term => exact ⟨.listed none true, by simp [advance, hphase]⟩
  | install index => exact ⟨.issue true, by simp [advance, hphase]⟩
  | installIssued index => exact ⟨.installResponse none, by simp [advance, hphase]⟩
  | installReturned index response =>
    cases response with
    | none => exact ⟨.go, by simp [advance, hphase]⟩
    | some response => exact ⟨.handle true, by simp [advance, hphase]⟩
  | installDone ok => exact ⟨.go, by simp [advance, hphase, hlocked]⟩
  | installFinished ok => simp [hphase, ReplicatePhase.remaining] at hcall
  | returned result shouldApply => simp [hphase, ReplicatePhase.remaining] at hcall

theorem step_thread {i : Nat} (h : s.step (.thread i move) = some s') :
    ∃ t u phase, s.threads[i]? = some t ∧ s.advance t move = some (u, phase) ∧
      s' = { u with threads := { t with phase } :: s.threads.eraseIdx i } := by
  simp only [step] at h
  obtain ⟨t, ht, h⟩ := Option.bind_eq_some_iff.mp h
  obtain ⟨⟨u, phase⟩, hadvance, h⟩ := Option.bind_eq_some_iff.mp h
  exact ⟨t, u, phase, ht, hadvance, (Option.some.inj h).symm⟩

theorem step_of_advance {i : Nat} {u : PeerReplication} (ht : s.threads[i]? = some t)
    (hadvance : s.advance t move = some (u, phase)) :
    s.step (.thread i move) =
      some { u with threads := { t with phase } :: s.threads.eraseIdx i } := by
  simp only [step, ht, Option.bind_eq_bind, Option.bind_some, hadvance]

/-! ## The invariant -/

def inStage (s : PeerReplication) (stage : ReplicateStage) : Nat :=
  s.threads.countP fun t => t.phase.stage = stage

/-- A call on its way belongs to a thread that has a flag up. -/
theorem countP_issued_le (threads : List ReplicateThread) :
    threads.countP (·.phase.issued) ≤ threads.countP (fun t => t.phase.stage = .appending) +
      threads.countP (fun t => t.phase.stage = .installing) := by
  induction threads with
  | nil => exact Nat.zero_le _
  | cons t threads ih =>
    have := t.phase.stage_of_issued
    simp only [List.countP_cons, decide_eq_true_eq]
    split_ifs <;> grind

end PeerReplication

open PeerReplication Threads

/-- The flags say what the threads do, and one thread at most is past the section that looks at
them. -/
structure OneCall (s : PeerReplication) : Prop where
  append : s.replicator.appendCount.Balanced (s.inStage .appending)
  snapshot : s.replicator.snapshotCount.Balanced (s.inStage .installing)
  building : s.inStage .building = s.locked.toNat
  one : s.inStage .building + s.inStage .appending + s.inStage .installing ≤ 1

namespace OneCall

variable {s s' : PeerReplication}

theorem init (node : RaftNode) (peer : NodeId) : OneCall { node, peer } := by
  constructor
  · exact ⟨rfl, rfl⟩
  · exact ⟨rfl, rfl⟩
  · rfl
  · exact Nat.zero_le 1

/-- Whatever does not touch the replicator and lets every thread stay in its stage. -/
theorem congr (h : OneCall s) (hreplicator : s'.replicator = s.replicator)
    (hlocked : s'.locked = s.locked) (hstage : ∀ stage, stage ≠ .outside →
      s'.inStage stage = s.inStage stage) : OneCall s' where
  append := by rw [hreplicator, hstage .appending (by decide)]; exact h.append
  snapshot := by rw [hreplicator, hstage .installing (by decide)]; exact h.snapshot
  building := by rw [hlocked, hstage .building (by decide)]; exact h.building
  one := by
    rw [hstage .building (by decide), hstage .appending (by decide), hstage .installing (by decide)]
    exact h.one

/-- One thread changes its stage, the others are in theirs. -/
theorem change (h : OneCall s) {src dst : ReplicateStage} (hchange : StageChange s s' src dst)
    (hmove : ∀ stage, s'.inStage stage + (if src = stage then 1 else 0) =
      s.inStage stage + if dst = stage then 1 else 0) : OneCall s' := by
  have hone := h.one
  have hlock := h.building
  cases hchange with
  | stay hreplicator hlocked =>
    refine h.congr hreplicator hlocked fun stage _ => ?_
    have := hmove stage
    omega
  | lock happend hsnapshot hfree hreplicator hlocked =>
    have hbuilding : s'.inStage .building = s.inStage .building + 1 := hmove .building
    have happending : s'.inStage .appending = s.inStage .appending := hmove .appending
    have hinstalling : s'.inStage .installing = s.inStage .installing := hmove .installing
    have hnoAppend := h.append.eq_zero happend
    have hnoInstall := h.snapshot.eq_zero hsnapshot
    rw [hfree, Bool.toNat_false] at hlock
    refine ⟨?_, ?_, ?_, by omega⟩
    · rw [hreplicator, happending]
      exact h.append
    · rw [hreplicator, hinstalling]
      exact h.snapshot
    · rw [hlocked, hbuilding, hlock, Bool.toNat_true]
  | release hreplicator hlocked =>
    have hbuilding : s'.inStage .building + 1 = s.inStage .building := hmove .building
    have happending : s'.inStage .appending = s.inStage .appending := hmove .appending
    have hinstalling : s'.inStage .installing = s.inStage .installing := hmove .installing
    refine ⟨?_, ?_, ?_, by omega⟩
    · rw [hreplicator, happending]
      exact h.append
    · rw [hreplicator, hinstalling]
      exact h.snapshot
    · rw [hlocked, Bool.toNat_false]
      omega
  | startAppend happend hsnapshot hlocked =>
    have hbuilding : s'.inStage .building + 1 = s.inStage .building := hmove .building
    have happending : s'.inStage .appending = s.inStage .appending + 1 := hmove .appending
    have hinstalling : s'.inStage .installing = s.inStage .installing := hmove .installing
    have hnone : s.inStage .appending = 0 := by omega
    refine ⟨?_, ?_, ?_, by omega⟩
    · rw [happend, happending, hnone]
      exact (hnone ▸ h.append).start
    · rw [hsnapshot, hinstalling]
      exact h.snapshot
    · rw [hlocked, Bool.toNat_false]
      omega
  | startInstall happend hsnapshot hlocked =>
    have hbuilding : s'.inStage .building + 1 = s.inStage .building := hmove .building
    have happending : s'.inStage .appending = s.inStage .appending := hmove .appending
    have hinstalling : s'.inStage .installing = s.inStage .installing + 1 := hmove .installing
    have hnone : s.inStage .installing = 0 := by omega
    refine ⟨?_, ?_, ?_, by omega⟩
    · rw [happend, happending]
      exact h.append
    · rw [hsnapshot, hinstalling, hnone]
      exact (hnone ▸ h.snapshot).start
    · rw [hlocked, Bool.toNat_false]
      omega
  | finishAppend happend hsnapshot hlocked =>
    have hbuilding : s'.inStage .building = s.inStage .building := hmove .building
    have happending : s'.inStage .appending + 1 = s.inStage .appending := hmove .appending
    have hinstalling : s'.inStage .installing = s.inStage .installing := hmove .installing
    have hcall : s.inStage .appending = 1 := by omega
    have hnone : s'.inStage .appending = 0 := by omega
    refine ⟨?_, ?_, ?_, by omega⟩
    · rw [happend, hnone]
      exact (hcall ▸ h.append).finish
    · rw [hsnapshot, hinstalling]
      exact h.snapshot
    · rw [hlocked, hbuilding, hlock]
  | finishInstall happend hsnapshot hlocked =>
    have hbuilding : s'.inStage .building = s.inStage .building := hmove .building
    have happending : s'.inStage .appending = s.inStage .appending := hmove .appending
    have hinstalling : s'.inStage .installing + 1 = s.inStage .installing := hmove .installing
    have hcall : s.inStage .installing = 1 := by omega
    have hnone : s'.inStage .installing = 0 := by omega
    refine ⟨?_, ?_, ?_, by omega⟩
    · rw [happend, happending]
      exact h.append
    · rw [hsnapshot, hnone]
      exact (hcall ▸ h.snapshot).finish
    · rw [hlocked, hbuilding, hlock]

theorem step (h : OneCall s) {action : ReplicationAction Image} (hstep : s.step action = some s') :
    OneCall s' := by
  cases action with
  | tick d =>
    cases hstep
    exact h.congr rfl rfl fun _ _ => rfl
  | node c =>
    cases hstep
    exact h.congr rfl rfl fun _ _ => rfl
  | replicateOnce leaderTerm targetIndex =>
    cases hstep
    refine h.congr rfl rfl fun stage hinside => ?_
    rw [inStage, inStage, List.countP_cons_of_neg]
    exact fun h => hinside (of_decide_eq_true h).symm
  | thread i move =>
    obtain ⟨t, u, phase, ht, hadvance, rfl⟩ := step_thread hstep
    refine h.change ((advance_change hadvance).1.withThreads _) fun stage => ?_
    rw [inStage, inStage, List.countP_cons, countP_eraseIdx ht]
    simp only [decide_eq_true_eq]
    omega

theorem exec (h : OneCall s) {actions : List (ReplicationAction Image)}
    (hrun : s.exec actions = some s') : OneCall s' := by
  induction actions generalizing s with
  | nil =>
    cases hrun
    exact h
  | cons action actions ih =>
    obtain ⟨u, hstep, hrun⟩ := Option.bind_eq_some_iff.mp hrun
    exact ih (h.step hstep) hrun

theorem inStage_pos_iff {stage : ReplicateStage} :
    0 < s.inStage stage ↔ ∃ t ∈ s.threads, t.phase.stage = stage := by
  simp only [inStage, List.countP_pos_iff, decide_eq_true_eq]

theorem appendInflight_iff (h : OneCall s) : s.replicator.appendInflight = true ↔
    ∃ t ∈ s.threads, t.phase.stage = .appending :=
  h.append.inflight_iff.trans inStage_pos_iff

theorem snapshotInflight_iff (h : OneCall s) : s.replicator.snapshotInflight = true ↔
    ∃ t ∈ s.threads, t.phase.stage = .installing :=
  h.snapshot.inflight_iff.trans inStage_pos_iff

/-- A thread with a call finds the lock free whenever it comes to it. -/
theorem unlocked (h : OneCall s) {t : ReplicateThread} (ht : t ∈ s.threads)
    (hcall : 0 < t.phase.remaining) : s.locked = false := by
  have hone := h.one
  have hpos : 0 < s.inStage .appending + s.inStage .installing := by
    rcases t.phase.remaining_pos_iff.mp hcall with hstage | hstage
    · exact Nat.add_pos_left (inStage_pos_iff.mpr ⟨t, ht, hstage⟩) _
    · exact Nat.add_pos_right _ (inStage_pos_iff.mpr ⟨t, ht, hstage⟩)
  have hbuilding := h.building
  rw [← Bool.toNat_eq_zero]
  omega

theorem issued_le (h : OneCall s) : s.threads.countP (·.phase.issued) ≤ 1 := by
  have hle := countP_issued_le s.threads
  have hone := h.one
  simp only [inStage] at hone
  omega

/-- As long as a flag is up there is a thread whose steps get it down. -/
theorem finishes (h : OneCall s) :
    ∃ (rest : List (ReplicationAction Image)) (s' : PeerReplication), s.exec rest = some s' ∧
      s'.replicator.appendInflight = false ∧ s'.replicator.snapshotInflight = false := by
  -- by the steps that the threads have in front of them
  induction hsteps : (s.threads.map fun t => t.phase.remaining).sum using Nat.strong_induction_on
    generalizing s with
  | h steps ih =>
    by_cases hcall : ∃ t ∈ s.threads, 0 < t.phase.remaining
    · obtain ⟨t, ht, hcall⟩ := hcall
      obtain ⟨i, hi⟩ := List.getElem?_of_mem ht
      obtain ⟨move, hsome⟩ : ∃ move : ReplicateMove Image, (s.advance t move).isSome :=
        exists_advance (h.unlocked ht hcall) hcall
      obtain ⟨⟨u, phase⟩, hadvance⟩ := Option.isSome_iff_exists.mp hsome
      have hstep := step_of_advance hi hadvance
      have hless := (advance_change hadvance).2 hcall
      have hsum := ((perm_cons_eraseIdx hi).map (fun t => t.phase.remaining)).sum_nat
      simp only [List.map_cons, List.sum_cons] at hsum
      obtain ⟨rest, s', hrun, hidle⟩ := ih _ (by
        simp only [List.map_cons, List.sum_cons]
        omega) (h.step hstep) rfl
      refine ⟨.thread i move :: rest, s', ?_, hidle⟩
      simp only [PeerReplication.exec, hstep, Option.bind_some]
      exact hrun
    · refine ⟨[], s, rfl, ?_, ?_⟩
      · rw [← Bool.not_eq_true, h.appendInflight_iff]
        rintro ⟨t, ht, hstage⟩
        exact hcall ⟨t, ht, t.phase.remaining_pos_iff.mpr (.inl hstage)⟩
      · rw [← Bool.not_eq_true, h.snapshotInflight_iff]
        rintro ⟨t, ht, hstage⟩
        exact hcall ⟨t, ht, t.phase.remaining_pos_iff.mpr (.inr hstage)⟩

end OneCall

/-! ## Any interleaving -/

/-- From the section that starts a call to the one that finishes it the flag is up, and every call
on its way to the peer is inside one such stretch. The steps of its thread are all it takes to get
the flag down again, whatever the peer, the storage and the other threads do. -/
theorem replicateOnce_exec (node : RaftNode) (peer : NodeId)
    {actions : List (ReplicationAction Image)} {s : PeerReplication}
    (hrun : PeerReplication.exec { node, peer } actions = some s) :
    s.threads.countP (·.phase.issued) ≤ 1 ∧
    s.inStage .appending + s.inStage .installing ≤ 1 ∧
    (∀ t ∈ s.threads, t.phase.issued →
      s.replicator.appendInflight ∨ s.replicator.snapshotInflight) ∧
    (s.replicator.appendInflight ↔ ∃ t ∈ s.threads, t.phase.stage = .appending) ∧
    (s.replicator.snapshotInflight ↔ ∃ t ∈ s.threads, t.phase.stage = .installing) ∧
    s.replicator.appendRpcStarted = s.replicator.appendRpcFinished + s.inStage .appending ∧
    s.replicator.snapshotRpcStarted = s.replicator.snapshotRpcFinished + s.inStage .installing ∧
    (∀ t ∈ s.threads, t.phase.stage = .appending ∨ t.phase.stage = .installing →
      (∃ move : ReplicateMove Image, (s.advance t move).isSome) ∧
      ∀ (move : ReplicateMove Image) (s' : PeerReplication) (phase : ReplicatePhase),
        s.advance t move = some (s', phase) → phase.remaining < t.phase.remaining) ∧
    ∃ (rest : List (ReplicationAction Image)) (s' : PeerReplication), s.exec rest = some s' ∧
      s'.replicator.appendInflight = false ∧ s'.replicator.snapshotInflight = false ∧
      s'.replicator.appendRpcStarted = s'.replicator.appendRpcFinished ∧
      s'.replicator.snapshotRpcStarted = s'.replicator.snapshotRpcFinished := by
  have h : OneCall s := (OneCall.init node peer).exec hrun
  have hone := h.one
  refine ⟨h.issued_le, by omega, ?_, h.appendInflight_iff, h.snapshotInflight_iff,
    h.append.finished, h.snapshot.finished, ?_, ?_⟩
  · intro t ht hissued
    rw [h.appendInflight_iff, h.snapshotInflight_iff]
    exact (t.phase.stage_of_issued hissued).imp (⟨t, ht, ·⟩) (⟨t, ht, ·⟩)
  · intro t ht hstage
    have hcall := t.phase.remaining_pos_iff.mpr hstage
    exact ⟨exists_advance (h.unlocked ht hcall) hcall,
      fun move s' phase hadvance => (advance_change hadvance).2 hcall⟩
  · obtain ⟨rest, s', hrest, happend, hsnapshot⟩ := @OneCall.finishes Image s h
    have h' := h.exec hrest
    have hstarted := h'.append.finished
    have hstarted' := h'.snapshot.finished
    rw [h'.append.eq_zero happend] at hstarted
    rw [h'.snapshot.eq_zero hsnapshot] at hstarted'
    exact ⟨rest, s', hrest, happend, hsnapshot, hstarted, hstarted'⟩

/-- Member `1` has become the leader of term `1`. -/
def leaderRun : List (ReplicationAction Unit) :=
  [.node .start, .node (.startElection true), .node (.onElectionWon 1)]

/-- A heartbeat has its call on the way and a second thread is turned away. -/
def secondCallerRun : List (ReplicationAction Unit) :=
  leaderRun ++ [.replicateOnce 1 0, .thread 0 .go, .thread 0 .go, .thread 0 (.issue true),
    .replicateOnce 1 0, .thread 0 .go]

theorem replicateOnce_exec_secondCaller :
    ∃ s, PeerReplication.exec { node := RaftNode.recover 1 [2, 3] none, peer := 2 }
      secondCallerRun = some s ∧
      s.threads.map (·.phase.issued) = [false, true] ∧
      s.threads.countP (·.phase.issued) ≤ 1 ∧
      ∃ (rest : List (ReplicationAction Unit)) (s' : PeerReplication), s.exec rest = some s' ∧
        s'.replicator.appendInflight = false := by
  have hphases : (PeerReplication.exec { node := RaftNode.recover 1 [2, 3] none, peer := 2 }
      secondCallerRun).map (fun s => s.threads.map (·.phase.issued)) = some [false, true] := by
    decide +kernel
  obtain ⟨s, hrun, hissued⟩ := Option.map_eq_some_iff.mp hphases
  obtain ⟨hone, -, -, -, -, -, -, -, rest, s', hrest, hidle, -⟩ :=
    replicateOnce_exec (RaftNode.recover 1 [2, 3] none) 2 hrun
  exact ⟨s, hrun, hissued, hone, rest, s', hrest, hidle⟩

/-- The log is cut behind the first record, so a peer that has nothing needs the snapshot. A vote
request of term `2` comes between the section that starts the call and
`SendInstallSnapshotToPeer`, which then returns with nothing sent. -/
def withoutCallRun : List (ReplicationAction Unit) :=
  leaderRun ++ [.node (.appendLocalLogUnlocked [] true),
    .node (.handleAppendEntriesResponse 3 1 ⟨1, true, 1, 1, 0, 0⟩ true),
    .node .applyPick, .node (.applyFinish 1 true), .node (.compactAfterSnapshot 1 1 true),
    .replicateOnce 1 0, .thread 0 .go, .thread 0 .go,
    .node (.onRequestVote ⟨2, 3, 1, 1⟩ true true), .thread 0 (.storage true)]

/-- A flag that is up does not mean that a call is on its way. -/
theorem inflight_without_call :
    ¬ ∀ (node : RaftNode) (peer : NodeId) (actions : List (ReplicationAction Unit))
      (s : PeerReplication), PeerReplication.exec { node, peer } actions = some s →
      ((s.replicator.appendInflight ∨ s.replicator.snapshotInflight) ↔
        ∃ t ∈ s.threads, t.phase.issued) := by
  intro hclaim
  have hend : (PeerReplication.exec { node := RaftNode.recover 1 [2, 3] none, peer := 2 }
      withoutCallRun).map (fun s => (s.replicator.snapshotInflight,
        s.threads.map (·.phase.issued))) = some (true, [false]) := by
    decide +kernel
  obtain ⟨s, hrun, hs⟩ := Option.map_eq_some_iff.mp hend
  obtain ⟨hflag, hphases⟩ := Prod.mk.inj hs
  obtain ⟨t, ht, hissued⟩ := (hclaim _ _ _ s hrun).mp (.inr hflag)
  have hmem : t.phase.issued ∈ s.threads.map (·.phase.issued) := List.mem_map_of_mem ht
  rw [hphases, hissued] at hmem
  exact absurd hmem (by decide)

end CquptRaft
