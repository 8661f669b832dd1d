import CquptRaft.Node.Calls
import Mathlib.Logic.Relation

/-!
# The timers of a node

A node gives three functions to its scheduler: the election timer while it is no leader, the
heartbeat timer while it is one, and the snapshot timer. Every one of them is scheduled once and has
to be scheduled again by some critical section, or the node falls silent. The sections cancel and
arm the timers through ids that may be out of date, and a callback that has left the scheduler can
no longer be cancelled.

Here the sections of a node run in any order, with any arguments, and between those of its
callbacks. Time is left out: a timer may be taken as soon as it is armed. `Start` and `Stop` are
called one after the other.
-/

namespace CquptRaft

variable {Image : Type}

/-! ## The scheduler as the node uses it -/

/-- The functions that the node schedules. -/
inductive TimerFn where
  | election (timerGeneration : Nat)
  | heartbeat
  | snapshot
  deriving DecidableEq, Repr

/-- A node keeps one id for every kind. -/
inductive TimerKind where
  | election | heartbeat | snapshot
  deriving DecidableEq, Repr

def TimerFn.kind : TimerFn → TimerKind
  | .election _ => .election
  | .heartbeat => .heartbeat
  | .snapshot => .snapshot

structure Timers where
  electionTimerGeneration : Nat
  /-- `election_timer_id_`, `heartbeat_timer_id_` and `snapshot_timer_id_`. -/
  timerId : TimerKind → Option Nat
  /-- Snapshots are enabled with a positive interval. -/
  snapshotting : Bool
  /-- The scheduler has not been stopped. -/
  accepts : Bool
  nextId : Nat
  /-- What is scheduled, under its id. -/
  pending : List (Nat × TimerFn)

namespace Timers

/-- `ScheduleAfter` with the id kept. A scheduler that has been stopped takes nothing and returns
id 0. -/
def armTimer (t : Timers) (fn : TimerFn) : Timers :=
  { t with
    nextId := t.nextId + 1
    pending := if t.accepts then t.pending ++ [(t.nextId, fn)] else t.pending
    timerId := Function.update t.timerId fn.kind (some (if t.accepts then t.nextId else 0)) }

/-- `Cancel` of the id that is kept. One that the scheduler no longer knows is passed over. -/
def cancelTimer (t : Timers) (kind : TimerKind) : Timers :=
  { t with
    pending := t.pending.filter fun e => some e.1 ≠ t.timerId kind
    timerId := Function.update t.timerId kind none }

def cancelElectionTimerLocked (t : Timers) : Timers :=
  { t.cancelTimer .election with electionTimerGeneration := t.electionTimerGeneration + 1 }

def resetElectionTimerLocked (t : Timers) (n : RaftNode) : Timers :=
  let t := t.cancelElectionTimerLocked
  if !n.running ∨ n.role = .leader then t
  else t.armTimer (.election t.electionTimerGeneration)

def resetHeartbeatTimerLocked (t : Timers) (n : RaftNode) : Timers :=
  let t := t.cancelTimer .heartbeat
  if n.role ≠ .leader then t else t.armTimer .heartbeat

def resetSnapshotTimerLocked (t : Timers) : Timers :=
  let t := t.cancelTimer .snapshot
  if !t.snapshotting then t else t.armTimer .snapshot

end Timers

/-! ## What a critical section does with the timers -/

inductive TimerOp where
  | cancelElection
  | resetElection
  | cancelHeartbeat
  | resetHeartbeat
  deriving DecidableEq, Repr

/-- The role does not change behind the first operation of a section, so all of them see the node as
the section leaves it. -/
def Timers.run (n : RaftNode) (t : Timers) : TimerOp → Timers
  | .cancelElection => t.cancelElectionTimerLocked
  | .resetElection => t.resetElectionTimerLocked n
  | .cancelHeartbeat => t.cancelTimer .heartbeat
  | .resetHeartbeat => t.resetHeartbeatTimerLocked n

/-- The operations of `BecomeFollowerLocked`. -/
def becomeFollowerOps : List TimerOp := [.cancelHeartbeat, .resetElection]

def RaftNode.acceptLeaderOps (n : RaftNode) (term : Nat) (leaderId : NodeId) : List TimerOp :=
  if n.currentTerm < term ∨ n.role ≠ .follower ∨ n.leaderId ≠ leaderId then becomeFollowerOps
  else [.resetElection]

def Call.timerOps (n : RaftNode) : Call Image → List TimerOp
  | .startElection _ => if !n.running ∨ n.role = .leader then [] else [.resetElection]
  | .onRequestVote request termSaved voteSaved =>
    (if n.currentTerm < request.term then becomeFollowerOps else []) ++
      if (n.onRequestVote request termSaved voteSaved).2.voteGranted then [.resetElection] else []
  | .onVoteResponse _ response _ =>
    if n.running ∧ n.currentTerm < response.term then becomeFollowerOps else []
  | .onElectionWon term =>
    if (n.onElectionWon term).2 then [.cancelElection, .resetHeartbeat] else []
  | .handleAppendEntriesResponse _ _ response _ =>
    if n.running ∧ n.currentTerm < response.term then becomeFollowerOps else []
  | .handleInstallSnapshotResponse _ _ _ response _ =>
    if n.currentTerm < response.term then becomeFollowerOps else []
  | .onAppendEntries request _ _ _ =>
    if request.term < n.currentTerm then [] else n.acceptLeaderOps request.term request.leaderId
  | .installCheck enabled request _ =>
    if !enabled ∨ request.term < n.currentTerm then []
    else n.acceptLeaderOps request.term request.leaderId
  | _ => []

/-- The sections that belong to `Start`, `Stop` and the callback of the election timer. -/
def Call.isOwn : Call Image → Bool
  | .start | .stop | .startElection _ => true
  | _ => false

/-! ## The node with its timers -/

/-- How far `Start` and `Stop` have got. -/
inductive Lifecycle where
  | down
  /-- Scheduler and server run, and the section of `Start` is still to come. -/
  | serving
  | up
  /-- `running_` is false, and the section of `Stop` is still to come. -/
  | stopping
  /-- The scheduler is still to be stopped. -/
  | cancelled
  deriving DecidableEq, Repr

/-- A callback that has left the scheduler, in front of its next section. -/
inductive Callback where
  | fired (fn : TimerFn)
  /-- Behind the check of `OnElectionTimeout`. -/
  | electing (timerGeneration : Nat)
  /-- Behind `SendHeartbeats`. -/
  | beating
  deriving DecidableEq, Repr

structure NodeTimers where
  node : RaftNode
  timers : Timers
  lifecycle : Lifecycle
  callbacks : List Callback
  /-- The rounds of heartbeats that callbacks have sent. -/
  heartbeats : Nat
  /-- How often the snapshot timer has asked for a snapshot. -/
  snapshotChecks : Nat

inductive NodeEvent (Image : Type) where
  /-- `Start` up to its section. No other thread runs a section before the scheduler and the server
  are up. -/
  | start
  | startSection
  /-- `InitServer` throws. -/
  | startFailed
  | stop
  | stopSection
  /-- `Stop` of the scheduler, which waits for its worker. -/
  | stopScheduler
  | call (c : Call Image)
  /-- The scheduler takes a timer. -/
  | take (k : Nat)
  /-- A callback runs its next section. -/
  | callback (k : Nat) (saved : Bool)

/-- What happens without a call from outside. -/
def NodeEvent.isOwn : NodeEvent Image → Bool
  | .take _ | .callback _ _ => true
  | _ => false

namespace NodeTimers

/-- A node that has been constructed. -/
def init (node : RaftNode) (snapshotting : Bool) : NodeTimers where
  node
  timers := ⟨node.electionTimerGeneration, fun _ => none, snapshotting, true, 1, []⟩
  lifecycle := .down
  callbacks := []
  heartbeats := 0
  snapshotChecks := 0

/-- A section leaves this node and has done this to the timers. -/
def runSection (s : NodeTimers) (node : RaftNode) (ops : List TimerOp) : NodeTimers :=
  { s with node, timers := ops.foldl (Timers.run node) s.timers }

/-- The next section of a callback, which is done with then or goes on. -/
def runCallback (s : NodeTimers) (saved : Bool) : Callback → NodeTimers × Option Callback
  | .fired (.election timerGeneration) =>
    if !s.node.running ∨ timerGeneration ≠ s.timers.electionTimerGeneration ∨
        s.node.role = .leader then (s, none)
    else
      ({ s with
        timers := { s.timers with timerId := Function.update s.timers.timerId .election none } },
        some (.electing timerGeneration))
  | .electing _ =>
    (s.runSection (s.node.startElection saved).1
      ((.startElection saved : Call Unit).timerOps s.node), none)
  | .fired .heartbeat =>
    if !s.node.running ∨ s.node.role ≠ .leader then (s, some .beating)
    else ({ s with heartbeats := s.heartbeats + 1 }, some .beating)
  | .beating =>
    if s.node.running ∧ s.node.role = .leader then (s.runSection s.node [.resetHeartbeat], none)
    else (s, none)
  | .fired .snapshot =>
    if !s.node.running then (s, none)
    else
      ({ s with
        timers := s.timers.resetSnapshotTimerLocked
        snapshotChecks := s.snapshotChecks + 1 }, none)

def step (s : NodeTimers) : NodeEvent Image → Option NodeTimers
  | .start =>
    if s.lifecycle = .down then
      some { s with
        lifecycle := .serving
        node := { s.node with running := true }
        timers := { s.timers with accepts := true } }
    else none
  | .startSection =>
    if s.lifecycle = .serving then
      let s' := s.runSection s.node.resetElectionTimerLocked [.resetElection]
      some { s' with lifecycle := .up, timers := s'.timers.resetSnapshotTimerLocked }
    else none
  | .startFailed =>
    if s.lifecycle = .serving then
      some { s with lifecycle := .down, node := { s.node with running := false } }
    else none
  | .stop =>
    if s.lifecycle = .up then
      some { s with lifecycle := .stopping, node := { s.node with running := false } }
    else none
  | .stopSection =>
    if s.lifecycle = .stopping then
      let s' := s.runSection s.node.cancelElectionTimerLocked [.cancelElection, .cancelHeartbeat]
      some { s' with lifecycle := .cancelled, timers := s'.timers.cancelTimer .snapshot }
    else none
  | .stopScheduler =>
    if s.lifecycle = .cancelled ∧ s.callbacks = [] then
      some { s with
        lifecycle := .down
        timers := { s.timers with accepts := false, pending := [] } }
    else none
  | .call c => if c.isOwn then none else some (s.runSection (s.node.call c) (c.timerOps s.node))
  | .take k =>
    match s.timers.pending[k]? with
    | some (_, fn) =>
      some { s with
        timers := { s.timers with pending := s.timers.pending.eraseIdx k }
        callbacks := s.callbacks ++ [.fired fn] }
    | none => none
  | .callback k saved =>
    match s.callbacks[k]? with
    | some callback =>
      match s.runCallback saved callback with
      | (s', some next) => some { s' with callbacks := s.callbacks.set k next }
      | (s', none) => some { s' with callbacks := s.callbacks.eraseIdx k }
    | none => none

def exec (s : NodeTimers) : List (NodeEvent Image) → Option NodeTimers
  | [] => some s
  | event :: events => do
    let s ← s.step event
    s.exec events

end NodeTimers

/-! ## Ids and their timers -/

namespace Timers

variable {t : Timers} {fn fn' : TimerFn} {kind : TimerKind}

/-- An id that is kept belongs to a timer of its kind, if it is still known. -/
structure Owned (t : Timers) : Prop where
  positive : 0 < t.nextId
  fresh : ∀ e ∈ t.pending, 0 < e.1 ∧ e.1 < t.nextId
  known : ∀ kind id, t.timerId kind = some id → id < t.nextId
  kind : ∀ e ∈ t.pending, ∀ kind, t.timerId kind = some e.1 → e.2.kind = kind

/-- The function is scheduled. -/
def Armed (t : Timers) (fn : TimerFn) : Prop := ∃ id, (id, fn) ∈ t.pending

theorem Owned.cancelTimer (h : t.Owned) (kind : TimerKind) : (t.cancelTimer kind).Owned where
  positive := h.positive
  fresh e he := h.fresh e (List.mem_filter.mp he).1
  known kind' id hid := by
    simp only [Timers.cancelTimer, Function.update_apply] at hid
    split at hid
    · cases hid
    · exact h.known kind' id hid
  kind e he kind' hid := by
    simp only [Timers.cancelTimer, Function.update_apply] at hid
    split at hid
    · cases hid
    · exact h.kind e (List.mem_filter.mp he).1 kind' hid

theorem Owned.armTimer (h : t.Owned) (fn : TimerFn) : (t.armTimer fn).Owned := by
  have hpending : ∀ e ∈ (t.armTimer fn).pending,
      e ∈ t.pending ∨ t.accepts = true ∧ e = (t.nextId, fn) := by
    intro e he
    simp only [Timers.armTimer] at he
    split at he
    · rename_i haccepts
      rcases List.mem_append.mp he with he | he
      · exact .inl he
      · exact .inr ⟨haccepts, List.mem_singleton.mp he⟩
    · exact .inl he
  refine ⟨Nat.succ_pos _, fun e he => ?_, fun kind id hid => ?_, fun e he kind hid => ?_⟩
  · rcases hpending e he with he | ⟨-, rfl⟩
    · exact ⟨(h.fresh e he).1, Nat.lt_succ_of_lt (h.fresh e he).2⟩
    · exact ⟨h.positive, Nat.lt_succ_self _⟩
  · simp only [Timers.armTimer, Function.update_apply] at hid ⊢
    split at hid
    · have hpos := h.positive
      split at hid <;> cases hid <;> omega
    · exact Nat.lt_succ_of_lt (h.known kind id hid)
  · simp only [Timers.armTimer, Function.update_apply] at hid
    rcases hpending e he with he | ⟨haccepts, rfl⟩
    · have hfresh := h.fresh e he
      split at hid
      · have hid := Option.some.inj hid
        split at hid <;> omega
      · exact h.kind e he kind hid
    · split at hid
      · rename_i hkind
        exact hkind.symm
      · have hknown := h.known kind _ hid
        simp only at hknown
        omega

/-- Only the timers of one kind are touched. -/
structure Frame (kind : TimerKind) (t t' : Timers) : Prop where
  owned : t.Owned → t'.Owned
  armed : t.Owned → ∀ fn, fn.kind ≠ kind → t.Armed fn → t'.Armed fn
  accepts : t'.accepts = t.accepts
  snapshotting : t'.snapshotting = t.snapshotting

theorem Frame.trans {t' t'' : Timers} (h : Frame kind t t') (h' : Frame kind t' t'') :
    Frame kind t t'' where
  owned hown := h'.owned (h.owned hown)
  armed hown fn hkind harmed := h'.armed (h.owned hown) fn hkind (h.armed hown fn hkind harmed)
  accepts := h'.accepts.trans h.accepts
  snapshotting := h'.snapshotting.trans h.snapshotting

theorem frame_cancelTimer (t : Timers) (kind : TimerKind) : Frame kind t (t.cancelTimer kind) where
  owned h := h.cancelTimer kind
  armed h fn hkind harmed := by
    obtain ⟨id, hmem⟩ := harmed
    refine ⟨id, List.mem_filter.mpr ⟨hmem, decide_eq_true fun hid => ?_⟩⟩
    exact hkind (h.kind _ hmem kind hid.symm)
  accepts := rfl
  snapshotting := rfl

theorem frame_armTimer (t : Timers) (fn : TimerFn) : Frame fn.kind t (t.armTimer fn) where
  owned h := h.armTimer fn
  armed _ fn' _ harmed := by
    obtain ⟨id, hmem⟩ := harmed
    refine ⟨id, ?_⟩
    simp only [armTimer]
    split
    · exact List.mem_append_left _ hmem
    · exact hmem
  accepts := rfl
  snapshotting := rfl

theorem armed_armTimer (haccepts : t.accepts = true) (fn : TimerFn) : (t.armTimer fn).Armed fn := by
  refine ⟨t.nextId, ?_⟩
  simp only [armTimer, haccepts, if_true]
  exact List.mem_append_right _ List.mem_cons_self

/-! ## The operations -/

variable {n : RaftNode}

theorem frame_cancelElectionTimerLocked (t : Timers) :
    Frame .election t t.cancelElectionTimerLocked where
  owned h :=
    have hcancelled := h.cancelTimer .election
    ⟨hcancelled.positive, hcancelled.fresh, hcancelled.known, hcancelled.kind⟩
  armed := (t.frame_cancelTimer .election).armed
  accepts := rfl
  snapshotting := rfl

theorem frame_resetElectionTimerLocked (t : Timers) (n : RaftNode) :
    Frame .election t (t.resetElectionTimerLocked n) := by
  unfold resetElectionTimerLocked
  simp only
  split
  · exact t.frame_cancelElectionTimerLocked
  · exact t.frame_cancelElectionTimerLocked.trans (frame_armTimer _ (.election _))

theorem frame_resetHeartbeatTimerLocked (t : Timers) (n : RaftNode) :
    Frame .heartbeat t (t.resetHeartbeatTimerLocked n) := by
  unfold resetHeartbeatTimerLocked
  simp only
  split
  · exact t.frame_cancelTimer .heartbeat
  · exact (t.frame_cancelTimer .heartbeat).trans (frame_armTimer _ .heartbeat)

theorem frame_resetSnapshotTimerLocked (t : Timers) :
    Frame .snapshot t t.resetSnapshotTimerLocked := by
  unfold resetSnapshotTimerLocked
  simp only
  split
  · exact t.frame_cancelTimer .snapshot
  · exact (t.frame_cancelTimer .snapshot).trans (frame_armTimer _ .snapshot)

theorem resetElectionTimerLocked_generation (t : Timers) (n : RaftNode) :
    (t.resetElectionTimerLocked n).electionTimerGeneration = t.electionTimerGeneration + 1 := by
  unfold resetElectionTimerLocked
  simp only
  split <;> rfl

theorem resetHeartbeatTimerLocked_generation (t : Timers) (n : RaftNode) :
    (t.resetHeartbeatTimerLocked n).electionTimerGeneration = t.electionTimerGeneration := by
  unfold resetHeartbeatTimerLocked
  simp only
  split <;> rfl

theorem resetSnapshotTimerLocked_generation (t : Timers) :
    t.resetSnapshotTimerLocked.electionTimerGeneration = t.electionTimerGeneration := by
  unfold resetSnapshotTimerLocked
  simp only
  split <;> rfl

theorem armed_resetElectionTimerLocked (haccepts : t.accepts = true) (hrunning : n.running = true)
    (hrole : n.role ≠ .leader) : (t.resetElectionTimerLocked n).Armed
      (.election (t.resetElectionTimerLocked n).electionTimerGeneration) := by
  unfold resetElectionTimerLocked
  simp only
  rw [if_neg (by simp [hrunning, hrole])]
  exact armed_armTimer (t := t.cancelElectionTimerLocked) haccepts _

theorem armed_resetHeartbeatTimerLocked (haccepts : t.accepts = true) (hrole : n.role = .leader) :
    (t.resetHeartbeatTimerLocked n).Armed .heartbeat := by
  unfold resetHeartbeatTimerLocked
  simp only
  rw [if_neg (by simp [hrole])]
  exact armed_armTimer (t := t.cancelTimer .heartbeat) haccepts _

theorem armed_resetSnapshotTimerLocked (haccepts : t.accepts = true)
    (hsnapshot : t.snapshotting = true) : t.resetSnapshotTimerLocked.Armed .snapshot := by
  unfold resetSnapshotTimerLocked
  simp only
  rw [if_neg (by simp [cancelTimer, hsnapshot])]
  exact armed_armTimer (t := t.cancelTimer .snapshot) haccepts _

end Timers

/-! ## The sections -/

namespace RaftNode

/-- What a section does to role, generation and timers. -/
inductive Treats (n n' : RaftNode) : List TimerOp → Prop
  | nothing (hrole : n'.role = .leader ↔ n.role = .leader)
    (hgen : n'.electionTimerGeneration = n.electionTimerGeneration) : Treats n n' []
  | waits (hrole : n'.role = .leader ↔ n.role = .leader)
    (hgen : n'.electionTimerGeneration = n.electionTimerGeneration + 1) :
    Treats n n' [.resetElection]
  | follows (hrole : n'.role = .follower)
    (hgen : n'.electionTimerGeneration = n.electionTimerGeneration + 1) :
    Treats n n' [.cancelHeartbeat, .resetElection]
  | votes (hrole : n'.role = .follower)
    (hgen : n'.electionTimerGeneration = n.electionTimerGeneration + 2) :
    Treats n n' [.cancelHeartbeat, .resetElection, .resetElection]
  | leads (hrole : n'.role = .leader)
    (hgen : n'.electionTimerGeneration = n.electionTimerGeneration + 1) :
    Treats n n' [.cancelElection, .resetHeartbeat]

/-- What the timers see of a node. -/
structure SameTimers (n n' : RaftNode) : Prop where
  running : n'.running = n.running
  role : n'.role = n.role
  generation : n'.electionTimerGeneration = n.electionTimerGeneration

theorem Treats.congr {n n' n'' : RaftNode} {ops : List TimerOp} (h : n.Treats n' ops)
    (hsame : SameTimers n' n'') : n.Treats n'' ops := by
  obtain ⟨-, hrole, hgen⟩ := hsame
  cases h with
  | nothing hrole' hgen' => exact .nothing (by rwa [hrole]) (hgen.trans hgen')
  | waits hrole' hgen' => exact .waits (by rwa [hrole]) (hgen.trans hgen')
  | follows hrole' hgen' => exact .follows (hrole.trans hrole') (hgen.trans hgen')
  | votes hrole' hgen' => exact .votes (hrole.trans hrole') (hgen.trans hgen')
  | leads hrole' hgen' => exact .leads (hrole.trans hrole') (hgen.trans hgen')

theorem SameTimers.treats {n n' : RaftNode} (h : SameTimers n n') : n.Treats n' [] :=
  .nothing (by rw [h.role]) h.generation

section

variable (n : RaftNode)

theorem becomeFollowerLocked_treats (newTerm : Nat) (newLeader : NodeId) (saved : Bool) :
    (n.becomeFollowerLocked newTerm newLeader saved).1.running = n.running ∧
      n.Treats (n.becomeFollowerLocked newTerm newLeader saved).1 becomeFollowerOps := by
  unfold becomeFollowerLocked
  split
  · refine ⟨by simp [resetElectionTimerLocked, cancelElectionTimerLocked], .follows ?_ ?_⟩
    · simp [resetElectionTimerLocked, cancelElectionTimerLocked]
    · cases saved <;> rfl
  · exact ⟨rfl, .follows rfl rfl⟩

theorem acceptLeaderLocked_treats (term : Nat) (leaderId : NodeId) (saved : Bool) :
    (n.acceptLeaderLocked term leaderId saved).1.running = n.running ∧
      n.Treats (n.acceptLeaderLocked term leaderId saved).1 (n.acceptLeaderOps term leaderId) := by
  unfold acceptLeaderLocked acceptLeaderOps
  split
  · exact n.becomeFollowerLocked_treats term leaderId saved
  · exact ⟨rfl, .waits Iff.rfl rfl⟩

theorem appendEntriesBody_sameTimers (request : AppendEntriesRequest)
    (logSaved commitSaved : Bool) :
    SameTimers n (n.appendEntriesBody request logSaved commitSaved).1 := by
  have hframe := appendLoop_frame request.entries ⟨n, false, request.prevLogIndex⟩
  unfold appendEntriesBody
  constructor <;> split <;> rename_i heq <;> rw [heq] at hframe <;> grind [persistStateLocked_eq]

theorem onAppendEntries_treats (request : AppendEntriesRequest)
    (termSaved logSaved commitSaved : Bool) :
    (n.onAppendEntries request termSaved logSaved commitSaved).1.running = n.running ∧
      n.Treats (n.onAppendEntries request termSaved logSaved commitSaved).1
        ((.onAppendEntries request termSaved logSaved commitSaved : Call Image).timerOps n) := by
  simp only [onAppendEntries, Call.timerOps]
  split
  · exact ⟨rfl, .nothing Iff.rfl rfl⟩
  · obtain ⟨hrunning, htreats⟩ :=
      n.acceptLeaderLocked_treats request.term request.leaderId termSaved
    have hbody := (n.acceptLeaderLocked request.term request.leaderId
      termSaved).1.appendEntriesBody_sameTimers request logSaved commitSaved
    split
    · exact ⟨hrunning, htreats⟩
    · split
      · exact ⟨hrunning, htreats⟩
      · exact ⟨hbody.running.trans hrunning, htreats.congr hbody⟩

/-- A vote is granted behind a step to the new term, if there is one. -/
theorem onRequestVote_treats (request : VoteRequest) (termSaved voteSaved : Bool) :
    (n.onRequestVote request termSaved voteSaved).1.running = n.running ∧
      n.Treats (n.onRequestVote request termSaved voteSaved).1
        ((.onRequestVote request termSaved voteSaved : Call Image).timerOps n) := by
  obtain ⟨hrunning, htreats⟩ := n.becomeFollowerLocked_treats request.term (-1) termSaved
  simp only [onRequestVote, Call.timerOps]
  by_cases hold : request.term < n.currentTerm
  · rw [if_pos hold, if_neg (by omega)]
    exact ⟨rfl, .nothing Iff.rfl rfl⟩
  · rw [if_neg hold]
    by_cases hnew : n.currentTerm < request.term
    · rw [if_pos hnew, if_pos hnew]
      generalize n.becomeFollowerLocked request.term (-1) termSaved = accepted at hrunning htreats
      obtain ⟨m, ok⟩ := accepted
      obtain ⟨hrole, hgen⟩ : m.role = .follower ∧
          m.electionTimerGeneration = n.electionTimerGeneration + 1 := by
        cases htreats with
        | follows hrole hgen => exact ⟨hrole, hgen⟩
      simp only
      split
      · exact ⟨hrunning, htreats⟩
      · split
        · cases voteSaved with
          | true =>
            refine ⟨hrunning, .votes hrole ?_⟩
            simp [resetElectionTimerLocked, cancelElectionTimerLocked, persistStateLocked, hgen]
          | false => exact ⟨hrunning, htreats⟩
        · exact ⟨hrunning, htreats⟩
    · rw [if_neg hnew, if_neg hnew]
      simp only [Bool.not_true, Bool.false_eq_true, if_false, List.nil_append]
      split
      · cases voteSaved with
        | true => exact ⟨rfl, .waits Iff.rfl rfl⟩
        | false => exact ⟨rfl, .nothing Iff.rfl rfl⟩
      · exact ⟨rfl, .nothing Iff.rfl rfl⟩

end

theorem call_treats (n : RaftNode) (c : Call Image) (hc : c.isOwn = false) :
    (n.call c).running = n.running ∧ n.Treats (n.call c) (c.timerOps n) := by
  have hsame : ∀ {n' : RaftNode}, SameTimers n n' → n'.running = n.running ∧ n.Treats n' [] :=
    fun h => ⟨h.running, h.treats⟩
  cases c with
  | start | stop | startElection _ => cases hc
  | persist saved => exact hsame ⟨by simp [call], by simp [call], by cases saved <;> rfl⟩
  | onRequestVote request termSaved voteSaved =>
    exact n.onRequestVote_treats request termSaved voteSaved
  | onVoteResponse term response saved =>
    have hbecome := n.becomeFollowerLocked_treats response.term (-1) saved
    simp only [call, onVoteResponse, Call.timerOps]
    by_cases hrunning : n.running = true
    · by_cases hterm : n.currentTerm < response.term
      · simpa [hrunning, hterm] using hbecome
      · simp only [hrunning, hterm, and_false, if_false, Bool.not_true, Bool.false_eq_true]
        split <;> exact ⟨hrunning, .nothing Iff.rfl rfl⟩
    · simp only [Bool.not_eq_true] at hrunning
      simpa [hrunning] using SameTimers.treats ⟨rfl, rfl, rfl⟩
  | onElectionWon term =>
    simp only [call, onElectionWon, Call.timerOps]
    split
    · exact ⟨rfl, .nothing Iff.rfl rfl⟩
    · split
      · exact ⟨rfl, .nothing Iff.rfl rfl⟩
      · exact ⟨rfl, .leads rfl rfl⟩
  | appendLocalLogUnlocked commandData saved =>
    refine hsame ?_
    constructor <;> grind [call, appendLocalLogUnlocked, persistStateLocked_eq]
  | advanceCommitIndexUnlocked saved =>
    refine hsame ?_
    constructor <;> grind [call, advanceCommitIndexUnlocked, persistStateLocked_eq]
  | buildAppendEntriesRequest peer leaderTerm =>
    refine hsame ?_
    constructor <;> grind [call, buildAppendEntriesRequest]
  | handleAppendEntriesResponse peer leaderTerm response saved =>
    have hbecome := n.becomeFollowerLocked_treats response.term (-1) saved
    by_cases hsteps : n.running = true ∧ n.currentTerm < response.term
    · simpa [call, handleAppendEntriesResponse, Call.timerOps, hsteps] using hbecome
    · rw [Call.timerOps, if_neg hsteps]
      refine hsame ?_
      constructor <;> grind [call, handleAppendEntriesResponse, advanceCommitIndexUnlocked,
        persistStateLocked_eq]
  | handleInstallSnapshotResponse peer leaderTerm lastIncludedIndex response saved =>
    have hbecome := n.becomeFollowerLocked_treats response.term (-1) saved
    by_cases hterm : n.currentTerm < response.term
    · simpa [call, handleInstallSnapshotResponse, Call.timerOps, hterm] using hbecome
    · rw [Call.timerOps, if_neg hterm]
      refine hsame ?_
      constructor <;> grind [call, handleInstallSnapshotResponse]
  | onAppendEntries request termSaved logSaved commitSaved =>
    exact n.onAppendEntries_treats request termSaved logSaved commitSaved
  | installCheck enabled request saved =>
    have haccept := n.acceptLeaderLocked_treats request.term request.leaderId saved
    by_cases hrefused : enabled = false ∨ request.term < n.currentTerm
    · rw [Call.timerOps, if_pos (by simpa using hrefused)]
      refine hsame ?_
      constructor <;> grind [call, installCheck]
    · rw [Call.timerOps, if_neg (by simpa using hrefused)]
      simp only [not_or, Bool.not_eq_false] at hrefused
      simp only [call, installCheck, hrefused.1, hrefused.2, Bool.not_true, Bool.false_eq_true,
        if_false]
      split
      · exact haccept
      · split <;> exact haccept
  | installFinish request response saved =>
    refine hsame ?_
    constructor <;> grind [call, installFinish, adoptSnapshotLocked, compactLogPrefixLocked,
      restoreLogAfterSnapshotLocked, persistStateLocked_eq]
  | applyPick =>
    refine hsame ?_
    constructor <;> grind [call, applyPick]
  | applyFinish index saved =>
    refine hsame ?_
    constructor <;> grind [call, applyFinish, persistStateLocked_eq]
  | compactAfterSnapshot index term saved =>
    refine hsame ?_
    constructor <;> grind [call, compactAfterSnapshot, compactLogPrefixLocked,
      restoreLogAfterSnapshotLocked, persistStateLocked_eq]

theorem startElection_treats (n : RaftNode) (saved : Bool) :
    (n.startElection saved).1.running = n.running ∧ n.Treats (n.startElection saved).1
      ((.startElection saved : Call Unit).timerOps n) := by
  simp only [startElection, Call.timerOps]
  split
  · exact ⟨rfl, .nothing Iff.rfl rfl⟩
  · rename_i hgoes
    simp only [not_or] at hgoes
    cases saved with
    | true =>
      refine ⟨rfl, .waits ?_ rfl⟩
      simp only [if_true, resetElectionTimerLocked, cancelElectionTimerLocked,
        persistStateLocked_role, hgoes.2, iff_false]
      exact Role.noConfusion
    | false => exact ⟨rfl, .waits Iff.rfl rfl⟩

end RaftNode

end CquptRaft
