import CquptRaft.Node.Calls

/-!
# The thread of the snapshot worker

A section that applies an entry, the snapshot timer and the worker itself ask for a snapshot under
`mu_`. The request and the flags of the worker stand under `snapshot_mu_`, whose condition variable
the worker waits for, and `apply_mu_` keeps the entries away while the worker writes the map down.

A step is a section under the lock that it needs, or a call of the state machine or of the snapshot
directory in between. `Start` and `Stop` are called one after the other.
-/

namespace CquptRaft

variable {Image : Type}

/-- Where the thread stands. -/
inductive SnapshotThread where
  /-- There is none that could be joined. -/
  | none
  /-- In front of `snapshot_mu_`, with the condition of the wait to be tested. -/
  | ready
  | asleep
  /-- In front of `apply_mu_`, with the request taken. -/
  | taken
  /-- In `SaveSnapshot`, with `apply_mu_` held. -/
  | captured (index term : Nat)
  /-- In `SaveSnapshotFile`. -/
  | written (index term : Nat)
  /-- In front of the section that drops the prefix. -/
  | published (index term : Nat)
  /-- In front of the section that resets `snapshot_in_progress_`. -/
  | finished
  /-- In front of the section that looks for more to do. -/
  | cleared
  /-- `SnapshotWorkerLoop` has returned. -/
  | exited
  deriving DecidableEq, Repr

/-- The thread works at a request. -/
def SnapshotThread.busy : SnapshotThread → Bool
  | .taken | .captured _ _ | .written _ _ | .published _ _ | .finished => true
  | _ => false

def SnapshotThread.woken : SnapshotThread → SnapshotThread
  | .asleep => .ready
  | thread => thread

/-- How far a call of `StopSnapshotWorker` has got. -/
inductive SnapshotStop where
  /-- In front of `notify_all`. -/
  | signal
  | joining
  deriving DecidableEq, Repr

structure SnapshotScheduler where
  node : RaftNode
  config : SnapshotConfig
  stop : Bool := false
  pending : Bool := false
  inProgress : Bool := false
  pendingIndex : Nat := 0
  pendingTerm : Nat := 0
  thread : SnapshotThread := .none
  stopping : Option SnapshotStop := .none
  /-- Some other thread holds `apply_mu_`. -/
  applying : Bool := false

inductive SnapshotEvent (Image : Type) where
  /-- `StartSnapshotWorker`. -/
  | start
  /-- The section of `StopSnapshotWorker`. -/
  | stop
  | notifyAll
  | join
  /-- A section of the node, by another thread. -/
  | call (c : Call Image)
  | applyAcquire
  | applyRelease
  | onSnapshotTimer
  /-- A wait ends by itself. -/
  | wake
  /-- The next step of the worker. -/
  | work (ok : Bool)

/-- The sections of the threads that hold `apply_mu_`. -/
def Call.applies : Call Image → Bool
  | .applyPick | .applyFinish _ _ | .installFinish _ _ _ => true
  | _ => false

/-- The sections that another thread can run: that of the worker is left out. -/
def Call.isOthers : Call Image → Bool
  | .compactAfterSnapshot _ _ _ => false
  | _ => true

namespace SnapshotScheduler

def maybeScheduleSnapshotLocked (s : SnapshotScheduler) (forceByTimer : Bool) :
    SnapshotScheduler :=
  if !s.node.wantsSnapshotLocked s.config forceByTimer then s
  else if s.pending || s.inProgress then s
  else { s with
    pending := true
    pendingIndex := s.node.lastApplied
    pendingTerm := s.node.termAtIndexLocked s.node.lastApplied
    thread := s.thread.woken }

def startSnapshotWorker (s : SnapshotScheduler) : SnapshotScheduler :=
  { s with stop := false, thread := if s.thread = .none then .ready else s.thread }

/-- A section of another thread. `ApplyCommittedEntries` asks for a snapshot behind an entry whose
index it could save. -/
def runCall (s : SnapshotScheduler) (c : Call Image) : SnapshotScheduler :=
  let s' := { s with node := s.node.call c }
  match c with
  | .applyFinish index saved =>
    if (s.node.applyFinish index saved).2 then s'.maybeScheduleSnapshotLocked false else s'
  | _ => s'

/-- One step of `SnapshotWorkerLoop`. -/
def work (s : SnapshotScheduler) (ok : Bool) : Option SnapshotScheduler :=
  match s.thread with
  | .ready =>
    if s.stop then some { s with thread := .exited }
    else if s.pending then
      some { s with pending := false, inProgress := true, thread := .taken }
    else some { s with thread := .asleep }
  | .taken =>
    if s.applying then none
    else some { s with
      thread := .captured s.node.lastApplied (s.node.termAtIndexLocked s.node.lastApplied) }
  | .captured index term =>
    some { s with thread := if ok then .written index term else .finished }
  | .written index term =>
    some { s with thread := if ok then .published index term else .finished }
  | .published index term =>
    some { s with node := s.node.compactAfterSnapshot index term ok, thread := .finished }
  | .finished => some { s with inProgress := false, thread := .cleared }
  | .cleared => some { s.maybeScheduleSnapshotLocked false with thread := .ready }
  | .none | .asleep | .exited => none

def step (s : SnapshotScheduler) : SnapshotEvent Image → Option SnapshotScheduler
  | .start => if s.stopping.isSome then none else some s.startSnapshotWorker
  | .stop =>
    if s.stopping.isSome then none
    else some { s with stop := true, pending := false, stopping := some .signal }
  | .notifyAll =>
    if s.stopping = some .signal then
      some { s with thread := s.thread.woken, stopping := some .joining }
    else none
  | .join =>
    if s.stopping = some .joining ∧ (s.thread = .none ∨ s.thread = .exited) then
      some { s with thread := .none, stopping := none }
    else none
  | .call c =>
    if c.isOthers && (!c.applies || s.applying) then some (s.runCall c) else none
  | .applyAcquire =>
    match s.thread with
    | .captured _ _ => none
    | _ => if s.applying then none else some { s with applying := true }
  | .applyRelease => if s.applying then some { s with applying := false } else none
  | .onSnapshotTimer =>
    if !s.node.running then some s else some (s.maybeScheduleSnapshotLocked true)
  | .wake => if s.thread = .asleep then some { s with thread := .ready } else none
  | .work ok => s.work ok

def exec (s : SnapshotScheduler) : List (SnapshotEvent Image) → Option SnapshotScheduler
  | [] => some s
  | event :: events => do
    let s ← s.step event
    s.exec events

end SnapshotScheduler

/-! ## How far the boundary is behind -/

namespace RaftNode

/-- Whether a snapshot is wanted depends on the number of applied entries behind the boundary. -/
theorem wantsSnapshotLocked_mono {m n : RaftNode} {config : SnapshotConfig} {forceByTimer : Bool}
    (hlag : m.lastApplied - m.lastSnapshotIndex ≤ n.lastApplied - n.lastSnapshotIndex)
    (hm : m.wantsSnapshotLocked config forceByTimer = true) :
    n.wantsSnapshotLocked config forceByTimer = true := by
  simp only [wantsSnapshotLocked, Bool.and_eq_true, Bool.or_eq_true, decide_eq_true_eq] at hm ⊢
  obtain ⟨⟨henabled, hbehind⟩, hfar⟩ := hm
  refine ⟨⟨henabled, by omega⟩, ?_⟩
  rcases hfar with hforce | hfar
  · exact .inl hforce
  · exact .inr (by omega)

theorem not_wantsSnapshotLocked {n : RaftNode} (h : n.lastApplied ≤ n.lastSnapshotIndex)
    (config : SnapshotConfig) (forceByTimer : Bool) :
    n.wantsSnapshotLocked config forceByTimer = false := by
  have hbehind : ¬ n.lastSnapshotIndex < n.lastApplied := by omega
  simp [wantsSnapshotLocked, hbehind]

/-- An installed or a saved snapshot takes the boundary on. -/
theorem compactLogPrefixLocked_boundary {n : RaftNode} (h : LogInv n) (index term : Nat) :
    (n.compactLogPrefixLocked index term).lastSnapshotIndex = max n.lastSnapshotIndex index ∧
      (n.compactLogPrefixLocked index term).lastApplied ≤ max n.lastApplied index := by
  have hfirst := h.firstLogIndexLocked
  have hnonempty := h.nonempty
  constructor <;> grind [compactLogPrefixLocked, restoreLogAfterSnapshotLocked]

theorem compactAfterSnapshot_lag {n : RaftNode} (h : LogInv n) (index term : Nat) (saved : Bool) :
    (n.compactAfterSnapshot index term saved).lastApplied -
        (n.compactAfterSnapshot index term saved).lastSnapshotIndex ≤
      n.lastApplied - max n.lastSnapshotIndex index := by
  unfold compactAfterSnapshot
  split
  · obtain ⟨hsnapshot, happlied⟩ := compactLogPrefixLocked_boundary h index term
    rw [persistStateLocked_lastApplied, persistStateLocked_lastSnapshotIndex]
    omega
  · omega

/-- No section but that of an applied entry makes the distance grow. -/
theorem call_lag {n : RaftNode} (h : LogInv n) (c : Call Image)
    (hc : ∀ index saved, c ≠ .applyFinish index saved) :
    (n.call c).lastApplied - (n.call c).lastSnapshotIndex ≤
      n.lastApplied - n.lastSnapshotIndex := by
  by_cases hmoves : c.movesBoundary = false
  · obtain ⟨happlied, hsnapshot⟩ := n.call_sameBoundary c hmoves
    rw [happlied, hsnapshot]
  cases c with
  | applyFinish index saved => exact absurd rfl (hc index saved)
  | applyPick =>
    have hmax : max n.lastApplied n.lastSnapshotIndex - n.lastSnapshotIndex ≤
        n.lastApplied - n.lastSnapshotIndex := by omega
    grind [call, applyPick]
  | installFinish request response saved =>
    obtain ⟨hsnapshot, happlied⟩ :=
      compactLogPrefixLocked_boundary h request.lastIncludedIndex request.lastIncludedTerm
    simp only [call, installFinish]
    split
    · exact le_rfl
    · split
      · rw [persistStateLocked_lastApplied, persistStateLocked_lastSnapshotIndex]
        simp only [adoptSnapshotLocked]
        omega
      · simp only [adoptSnapshotLocked]
        omega
  | compactAfterSnapshot index term saved =>
    have hlag := compactAfterSnapshot_lag h index term saved
    simp only [call]
    omega
  | _ => exact absurd rfl hmoves

end RaftNode

/-! ## Requests are not lost -/

theorem SnapshotThread.busy_woken (thread : SnapshotThread) : thread.woken.busy = thread.busy := by
  cases thread <;> rfl

theorem SnapshotThread.woken_ne_asleep (thread : SnapshotThread) : thread.woken ≠ .asleep := by
  cases thread <;> simp [woken]

/-- Behind such an event a snapshot may be due that nobody has asked for. -/
def SnapshotEvent.misses (missed : Bool) : SnapshotEvent Image → Bool
  -- the request is taken back
  | .stop => true
  -- `ApplyCommittedEntries` returns without asking
  | .call (.applyFinish _ saved) => !saved
  | _ => missed

def missedAfter (events : List (SnapshotEvent Image)) : Bool :=
  events.foldl SnapshotEvent.misses false

/-- The flags say what the thread does, and it is not asleep when it is needed. -/
structure SchedulerInv (s : SnapshotScheduler) : Prop where
  log : s.node.LogInv
  busy : s.inProgress = s.thread.busy
  single : s.inProgress = true → s.pending = false
  asleep : s.thread = .asleep → s.pending = false
  signalled : s.thread = .asleep → s.stop = true → s.stopping = some .signal
  exited : s.thread = .exited → s.stopping.isSome = true
  stopping : s.stopping.isSome = true → s.stop = true
  stopped : s.stop = true → s.stopping.isSome = true ∨ s.thread = .none

namespace SnapshotScheduler

variable {s s' : SnapshotScheduler} {missed : Bool}

/-- A snapshot that is due has been asked for, or is going to be. -/
def Scheduled (s : SnapshotScheduler) : Prop :=
  s.node.wantsSnapshotLocked s.config false = true →
    s.pending = true ∨ s.inProgress = true ∨ s.thread = .cleared

theorem maybeScheduleSnapshotLocked_cases (s : SnapshotScheduler) (forceByTimer : Bool) :
    (s.maybeScheduleSnapshotLocked forceByTimer = s ∧
      (s.node.wantsSnapshotLocked s.config forceByTimer = true →
        s.pending = true ∨ s.inProgress = true)) ∨
    (s.inProgress = false ∧ s.maybeScheduleSnapshotLocked forceByTimer = { s with
      pending := true
      pendingIndex := s.node.lastApplied
      pendingTerm := s.node.termAtIndexLocked s.node.lastApplied
      thread := s.thread.woken }) := by
  unfold maybeScheduleSnapshotLocked
  split
  · rename_i hwants
    exact .inl ⟨rfl, fun h => by simp [h] at hwants⟩
  · split
    · rename_i hflags
      exact .inl ⟨rfl, fun _ => by simpa using hflags⟩
    · rename_i hflags
      exact .inr ⟨by simp at hflags; exact hflags.2, rfl⟩

theorem maybeScheduleSnapshotLocked_node (s : SnapshotScheduler) (forceByTimer : Bool) :
    (s.maybeScheduleSnapshotLocked forceByTimer).node = s.node ∧
      (s.maybeScheduleSnapshotLocked forceByTimer).config = s.config ∧
      (s.maybeScheduleSnapshotLocked forceByTimer).inProgress = s.inProgress := by
  rcases s.maybeScheduleSnapshotLocked_cases forceByTimer with ⟨heq, -⟩ | ⟨-, heq⟩
  · rw [heq]
    exact ⟨rfl, rfl, rfl⟩
  · rw [heq]
    exact ⟨rfl, rfl, rfl⟩

/-- Behind the section a snapshot that is due has been asked for. -/
theorem maybeScheduleSnapshotLocked_asked (s : SnapshotScheduler)
    (hwants : s.node.wantsSnapshotLocked s.config false = true) :
    (s.maybeScheduleSnapshotLocked false).pending = true ∨ s.inProgress = true := by
  rcases s.maybeScheduleSnapshotLocked_cases false with ⟨heq, hasked⟩ | ⟨-, heq⟩
  · rw [heq]
    exact hasked hwants
  · rw [heq]
    exact .inl rfl

theorem scheduled_maybeScheduleSnapshotLocked (s : SnapshotScheduler) :
    (s.maybeScheduleSnapshotLocked false).Scheduled := by
  intro hwants
  obtain ⟨hnode, hconfig, hbusy⟩ := s.maybeScheduleSnapshotLocked_node false
  rw [hnode, hconfig] at hwants
  rw [hbusy]
  rcases s.maybeScheduleSnapshotLocked_asked hwants with hpending | hbusy
  · exact .inl hpending
  · exact .inr (.inl hbusy)

theorem Scheduled.schedule (h : s.Scheduled) (forceByTimer : Bool) :
    (s.maybeScheduleSnapshotLocked forceByTimer).Scheduled := by
  rcases s.maybeScheduleSnapshotLocked_cases forceByTimer with ⟨heq, -⟩ | ⟨-, heq⟩
  · rw [heq]
    exact h
  · rw [heq]
    exact fun _ => .inl rfl

/-- Nothing has become due, and what was asked for still is. -/
theorem Scheduled.of_lag (h : s.Scheduled)
    (hlag : s'.node.lastApplied - s'.node.lastSnapshotIndex ≤
      s.node.lastApplied - s.node.lastSnapshotIndex)
    (hconfig : s'.config = s.config)
    (hasked : s.pending = true ∨ s.inProgress = true ∨ s.thread = .cleared →
      s'.pending = true ∨ s'.inProgress = true ∨ s'.thread = .cleared) : s'.Scheduled := by
  intro hwants
  rw [hconfig] at hwants
  exact hasked (h (RaftNode.wantsSnapshotLocked_mono hlag hwants))

end SnapshotScheduler

namespace SchedulerInv

variable {s s' : SnapshotScheduler} {missed : Bool}

theorem schedule (h : SchedulerInv s) (forceByTimer : Bool) :
    SchedulerInv (s.maybeScheduleSnapshotLocked forceByTimer) := by
  rcases s.maybeScheduleSnapshotLocked_cases forceByTimer with ⟨heq, -⟩ | ⟨hidle, heq⟩
  · rw [heq]
    exact h
  · rw [heq]
    have hawake := s.thread.woken_ne_asleep
    refine ⟨h.log, ?_, ?_, fun hasleep => absurd hasleep hawake,
      fun hasleep => absurd hasleep hawake, ?_, h.stopping, ?_⟩
    · exact h.busy.trans s.thread.busy_woken.symm
    · intro hbusy
      simp [hidle] at hbusy
    · intro hexited
      refine h.exited ?_
      cases hthread : s.thread with
      | exited => rfl
      | _ => simp [hthread, SnapshotThread.woken] at hexited
    · intro hstop
      rcases h.stopped hstop with hcall | hnone
      · exact .inl hcall
      · exact .inr (by simp [hnone, SnapshotThread.woken])

theorem runCall (h : SchedulerInv s) (c : Call Image) : SchedulerInv (s.runCall c) := by
  have hcall : SchedulerInv { s with node := s.node.call c } :=
    ⟨h.log.call c, h.busy, h.single, h.asleep, h.signalled, h.exited, h.stopping, h.stopped⟩
  cases c with
  | applyFinish index saved =>
    simp only [SnapshotScheduler.runCall]
    split
    · exact hcall.schedule false
    · exact hcall
  | _ => exact hcall

/-- A thread that takes a step is not joined yet. -/
theorem stopped_of_thread (h : SchedulerInv s) (hthread : s.thread ≠ .none) {P : Prop} :
    s.stop = true → s.stopping.isSome = true ∨ P := fun hstop =>
  .inl ((h.stopped hstop).resolve_right hthread)

/-- One case for each place in the loop. -/
theorem work {ok : Bool} (h : SchedulerInv s) (hstep : s.work ok = some s') : SchedulerInv s' := by
  unfold SnapshotScheduler.work at hstep
  cases hthread : s.thread with
  | none | asleep | exited => simp [hthread] at hstep
  | ready =>
    have hidle : s.inProgress = false := by simp [h.busy, hthread, SnapshotThread.busy]
    have hcalled {P : Prop} : s.stop = true → s.stopping.isSome = true ∨ P :=
      h.stopped_of_thread (by simp [hthread])
    simp only [hthread] at hstep
    split at hstep
    · rename_i hstop
      cases hstep
      exact ⟨h.log, by simp [hidle, SnapshotThread.busy], h.single, by simp, by simp,
        fun _ => (hcalled hstop).resolve_right id, h.stopping, hcalled⟩
    · split at hstep
      · cases hstep
        exact ⟨h.log, rfl, fun _ => rfl, by simp, by simp, by simp, h.stopping, hcalled⟩
      · rename_i hstop hpending
        cases hstep
        exact ⟨h.log, by simp [hidle, SnapshotThread.busy], h.single,
          fun _ => by simpa using hpending, fun _ hstopped => absurd hstopped hstop, by simp,
          h.stopping, hcalled⟩
  | taken =>
    simp only [hthread] at hstep
    split at hstep
    · cases hstep
    · cases hstep
      exact ⟨h.log, by simp [h.busy, hthread, SnapshotThread.busy], h.single, by simp, by simp,
        by simp, h.stopping, h.stopped_of_thread (by simp [hthread])⟩
  | captured index term | written index term =>
    simp only [hthread, Option.some.injEq] at hstep
    subst hstep
    refine ⟨h.log, ?_, h.single, ?_, ?_, ?_, h.stopping,
      h.stopped_of_thread (by simp [hthread])⟩ <;>
      cases ok <;> simp [h.busy, hthread, SnapshotThread.busy]
  | published index term =>
    simp only [hthread, Option.some.injEq] at hstep
    subst hstep
    exact ⟨h.log.call (.compactAfterSnapshot index term ok : Call Unit),
      by simp [h.busy, hthread, SnapshotThread.busy], h.single, by simp, by simp, by simp,
      h.stopping, h.stopped_of_thread (by simp [hthread])⟩
  | finished =>
    simp only [hthread, Option.some.injEq] at hstep
    subst hstep
    exact ⟨h.log, rfl, by simp, by simp, by simp, by simp, h.stopping,
      h.stopped_of_thread (by simp [hthread])⟩
  | cleared =>
    simp only [hthread, Option.some.injEq] at hstep
    subst hstep
    have hasked := h.schedule false
    have hidle : s.inProgress = false := by simp [h.busy, hthread, SnapshotThread.busy]
    have hwoken : (s.maybeScheduleSnapshotLocked false).thread ≠ .none := by
      rcases s.maybeScheduleSnapshotLocked_cases false with ⟨heq, -⟩ | ⟨-, heq⟩ <;>
        simp [heq, hthread, SnapshotThread.woken]
    refine ⟨hasked.log, ?_, hasked.single, by simp, by simp, by simp, hasked.stopping,
      hasked.stopped_of_thread hwoken⟩
    exact (s.maybeScheduleSnapshotLocked_node false).2.2.trans hidle

/-- One case for each event. -/
theorem step {event : SnapshotEvent Image} (h : SchedulerInv s)
    (hstep : s.step event = some s') : SchedulerInv s' := by
  cases event with
  | start =>
    simp only [SnapshotScheduler.step] at hstep
    split at hstep <;> cases hstep
    rename_i hcall
    have hnone : s.stopping = none := by simpa using hcall
    have hbusy : s.startSnapshotWorker.thread.busy = s.thread.busy := by
      simp only [SnapshotScheduler.startSnapshotWorker]
      split
      · rename_i hthread
        rw [hthread]
        rfl
      · rfl
    refine ⟨h.log, h.busy.trans hbusy.symm, h.single, ?_,
      by simp [SnapshotScheduler.startSnapshotWorker],
      ?_, by simp [SnapshotScheduler.startSnapshotWorker, hnone],
        by simp [SnapshotScheduler.startSnapshotWorker]⟩
    · simp only [SnapshotScheduler.startSnapshotWorker]
      split
      · simp
      · exact h.asleep
    · simp only [SnapshotScheduler.startSnapshotWorker]
      split
      · simp
      · exact h.exited
  | stop =>
    simp only [SnapshotScheduler.step] at hstep
    split at hstep <;> cases hstep
    exact ⟨h.log, h.busy, fun _ => rfl, fun _ => rfl, fun _ _ => rfl, fun _ => rfl, fun _ => rfl,
      fun _ => .inl rfl⟩
  | notifyAll =>
    simp only [SnapshotScheduler.step] at hstep
    split at hstep <;> cases hstep
    rename_i hcall
    have hawake := s.thread.woken_ne_asleep
    exact ⟨h.log, h.busy.trans s.thread.busy_woken.symm, h.single,
      fun hasleep => absurd hasleep hawake, fun hasleep => absurd hasleep hawake, fun _ => rfl,
      fun _ => h.stopping (by simp [hcall]), fun _ => .inl rfl⟩
  | join =>
    simp only [SnapshotScheduler.step] at hstep
    split at hstep <;> cases hstep
    rename_i hcall
    have hidle : s.inProgress = false := by
      rcases hcall.2 with hthread | hthread <;> simp [h.busy, hthread, SnapshotThread.busy]
    exact ⟨h.log, by simp [hidle, SnapshotThread.busy], h.single, by simp, by simp, by simp,
      by simp, fun _ => .inr rfl⟩
  | call c =>
    simp only [SnapshotScheduler.step] at hstep
    split at hstep <;> cases hstep
    exact h.runCall c
  | applyAcquire =>
    simp only [SnapshotScheduler.step] at hstep
    split at hstep
    · cases hstep
    · split at hstep <;> cases hstep
      exact ⟨h.log, h.busy, h.single, h.asleep, h.signalled, h.exited, h.stopping, h.stopped⟩
  | applyRelease =>
    simp only [SnapshotScheduler.step] at hstep
    split at hstep <;> cases hstep
    exact ⟨h.log, h.busy, h.single, h.asleep, h.signalled, h.exited, h.stopping, h.stopped⟩
  | onSnapshotTimer =>
    simp only [SnapshotScheduler.step] at hstep
    split at hstep <;> cases hstep
    · exact h
    · exact h.schedule true
  | wake =>
    simp only [SnapshotScheduler.step] at hstep
    split at hstep <;> cases hstep
    rename_i hasleep
    have hbusy : s.inProgress = false := by simp [h.busy, hasleep, SnapshotThread.busy]
    exact ⟨h.log, by simp [hbusy, SnapshotThread.busy], h.single, by simp, by simp, by simp,
      h.stopping, h.stopped_of_thread (by simp [hasleep])⟩
  | work ok => exact h.work hstep

end SchedulerInv

namespace SnapshotScheduler

variable {s s' : SnapshotScheduler} {missed : Bool}

theorem Scheduled.work {ok : Bool} (hinv : SchedulerInv s) (h : s.Scheduled)
    (hstep : s.work ok = some s') : s'.Scheduled := by
  unfold SnapshotScheduler.work at hstep
  cases hthread : s.thread with
  | none | asleep | exited => simp [hthread] at hstep
  | ready =>
    simp only [hthread] at hstep
    have hkept {thread : SnapshotThread} : ({ s with thread } : SnapshotScheduler).Scheduled := by
      refine h.of_lag le_rfl rfl ?_
      simp only [hthread, reduceCtorEq, or_false]
      rintro (hpending | hbusy)
      · exact .inl hpending
      · exact .inr (.inl hbusy)
    split at hstep
    · cases hstep
      exact hkept
    · split at hstep
      · cases hstep
        exact fun _ => .inr (.inl rfl)
      · cases hstep
        exact hkept
  | taken =>
    have hbusy : s.inProgress = true := by simp [hinv.busy, hthread, SnapshotThread.busy]
    simp only [hthread] at hstep
    split at hstep <;> cases hstep
    exact fun _ => .inr (.inl hbusy)
  | captured index term | written index term | published index term =>
    have hbusy : s.inProgress = true := by simp [hinv.busy, hthread, SnapshotThread.busy]
    simp only [hthread, Option.some.injEq] at hstep
    subst hstep
    exact fun _ => .inr (.inl hbusy)
  | finished =>
    simp only [hthread, Option.some.injEq] at hstep
    subst hstep
    exact fun _ => .inr (.inr rfl)
  | cleared =>
    simp only [hthread, Option.some.injEq] at hstep
    subst hstep
    intro hwants
    obtain ⟨hnode, hconfig, hbusy⟩ := s.maybeScheduleSnapshotLocked_node false
    simp only [hnode, hconfig] at hwants
    rcases s.maybeScheduleSnapshotLocked_asked hwants with hpending | hprogress
    · exact .inl hpending
    · exact .inr (.inl (hbusy.trans hprogress))

theorem Scheduled.runCall (hinv : SchedulerInv s) (h : missed = false → s.Scheduled)
    (c : Call Image) (hmissed : SnapshotEvent.misses missed (.call c) = false) :
    (s.runCall c).Scheduled := by
  by_cases hc : ∃ index saved, c = .applyFinish index saved
  · obtain ⟨index, saved, rfl⟩ := hc
    have hsaved : saved = true := by simpa [SnapshotEvent.misses] using hmissed
    subst hsaved
    have hgoes : (s.node.applyFinish index true).2 = true := by
      unfold RaftNode.applyFinish
      split <;> rfl
    simp only [SnapshotScheduler.runCall, hgoes, if_true]
    exact scheduled_maybeScheduleSnapshotLocked _
  · rw [not_exists] at hc
    have hother : ∀ index saved, c ≠ .applyFinish index saved := by
      intro index saved heq
      exact hc index ⟨saved, heq⟩
    have hlag := RaftNode.call_lag hinv.log c hother
    have hmissed' : missed = false := by
      cases c with
      | applyFinish index saved => exact absurd rfl (hother index saved)
      | _ => exact hmissed
    have hrun : s.runCall c = { s with node := s.node.call c } := by
      cases c with
      | applyFinish index saved => exact absurd rfl (hother index saved)
      | _ => rfl
    rw [hrun]
    exact (h hmissed').of_lag hlag rfl id

/-- One case for each event. -/
theorem Scheduled.step {event : SnapshotEvent Image} (hinv : SchedulerInv s)
    (h : missed = false → s.Scheduled) (hstep : s.step event = some s')
    (hmissed : event.misses missed = false) : s'.Scheduled := by
  cases event with
  | stop => cases hmissed
  | call c =>
    simp only [SnapshotScheduler.step] at hstep
    split at hstep <;> cases hstep
    exact .runCall hinv h c hmissed
  | work ok => exact (h hmissed).work hinv hstep
  | onSnapshotTimer =>
    simp only [SnapshotScheduler.step] at hstep
    split at hstep <;> cases hstep
    · exact h hmissed
    · exact (h hmissed).schedule true
  | start =>
    simp only [SnapshotScheduler.step] at hstep
    split at hstep <;> cases hstep
    refine (h hmissed).of_lag le_rfl rfl ?_
    simp only [startSnapshotWorker]
    rintro (hpending | hbusy | hcleared)
    · exact .inl hpending
    · exact .inr (.inl hbusy)
    · exact .inr (.inr (by simp [hcleared]))
  | notifyAll =>
    simp only [SnapshotScheduler.step] at hstep
    split at hstep <;> cases hstep
    refine (h hmissed).of_lag le_rfl rfl ?_
    rintro (hpending | hbusy | hcleared)
    · exact .inl hpending
    · exact .inr (.inl hbusy)
    · exact .inr (.inr (by simp [hcleared, SnapshotThread.woken]))
  | join =>
    simp only [SnapshotScheduler.step] at hstep
    split at hstep <;> cases hstep
    rename_i hcall
    refine (h hmissed).of_lag le_rfl rfl ?_
    rintro (hpending | hbusy | hcleared)
    · exact .inl hpending
    · exact .inr (.inl hbusy)
    · rcases hcall.2 with hthread | hthread <;> simp [hthread] at hcleared
  | applyAcquire =>
    simp only [SnapshotScheduler.step] at hstep
    split at hstep
    · cases hstep
    · split at hstep <;> cases hstep
      exact h hmissed
  | applyRelease =>
    simp only [SnapshotScheduler.step] at hstep
    split at hstep <;> cases hstep
    exact h hmissed
  | wake =>
    simp only [SnapshotScheduler.step] at hstep
    split at hstep <;> cases hstep
    rename_i hasleep
    refine (h hmissed).of_lag le_rfl rfl ?_
    simp [hasleep]

/-! ## The threads come to rest -/

end SnapshotScheduler

/-- The steps of the threads that are under way. -/
def SnapshotEvent.isOwn : SnapshotEvent Image → Bool
  | .notifyAll | .join | .applyRelease | .work _ => true
  | _ => false

/-- A step of the worker in which a file cannot be written. -/
def SnapshotEvent.fails : SnapshotEvent Image → Bool
  | .work ok => !ok
  | _ => false

/-- The steps to the next wait or the return. -/
def SnapshotThread.left : SnapshotThread → Nat
  | .none | .asleep | .exited => 0
  | .ready => 1
  | .cleared => 2
  | .finished => 3
  | .published _ _ => 4
  | .written _ _ => 5
  | .captured _ _ => 6
  | .taken => 7

namespace SnapshotScheduler

variable {s s' : SnapshotScheduler} {missed : Bool}

/-- Whether the worker takes another request before it sleeps. -/
def again (s : SnapshotScheduler) : Bool :=
  !s.stop && match s.thread with
  | .ready => s.pending
  | .captured index term | .written index term | .published index term =>
    (s.node.compactAfterSnapshot index term true).wantsSnapshotLocked s.config false
  | .finished | .cleared => s.pending || s.node.wantsSnapshotLocked s.config false
  | .none | .asleep | .taken | .exited => false

/-- A bound for the steps of the worker before it sleeps. -/
def workRank (s : SnapshotScheduler) : Nat := s.thread.left + if s.again then 7 else 0

/-- A bound for the steps that the threads under way have in front of them. -/
def rank (s : SnapshotScheduler) : Nat :=
  (if s.applying then 1 else 0) + s.workRank +
    match s.stopping with
    | none => 0
    | some .signal => 3
    | some .joining => 1

theorem maybeScheduleSnapshotLocked_pending (hidle : s.inProgress = false) :
    (s.maybeScheduleSnapshotLocked false).pending =
      (s.pending || s.node.wantsSnapshotLocked s.config false) := by
  unfold maybeScheduleSnapshotLocked
  cases hwants : s.node.wantsSnapshotLocked s.config false with
  | false => simp
  | true => cases hpending : s.pending <;> simp [hidle, hpending]

/-- The snapshot that is being taken is the last that is due. -/
theorem again_captured (hinv : SchedulerInv s) (term : Nat) :
    (s.node.compactAfterSnapshot s.node.lastApplied term true).wantsSnapshotLocked s.config false =
      false := by
  have hlag := RaftNode.compactAfterSnapshot_lag hinv.log s.node.lastApplied term true
  exact RaftNode.not_wantsSnapshotLocked (by omega) _ _

theorem workRank_lt_of_left {extra : Nat} (hleft : s'.thread.left < s.thread.left)
    (hagain : s'.again = true → s.again = true) : s'.workRank < s.workRank + extra := by
  unfold workRank
  cases hagain' : s'.again with
  | false => simp only [Bool.false_eq_true, if_false]; omega
  | true => simp only [hagain hagain', if_true]; omega

/-- A failed call sends the worker to the end of its pass, where it may find that it has to start
again. -/
theorem workRank_finished (hleft : 4 < s.thread.left) (hthread : s'.thread = .finished)
    (hstop : s'.stop = s.stop) : s'.workRank < s.workRank + if s.stop then 0 else 6 := by
  have hthree : s'.thread.left = 3 := by rw [hthread, SnapshotThread.left]
  split
  · rename_i hstopped
    exact workRank_lt_of_left (by omega) (by simp [again, hstop, hstopped])
  · have hseven : (if s'.again then 7 else 0) ≤ 7 := by split <;> omega
    unfold workRank
    omega

/-- One case for each place in the loop. -/
theorem workRank_lt {ok : Bool} (hinv : SchedulerInv s) (hstep : s.work ok = some s') :
    s'.workRank < s.workRank + if ok || s.stop then 0 else 6 := by
  unfold work at hstep
  cases hthread : s.thread with
  | none | asleep | exited => simp [hthread] at hstep
  | ready =>
    simp only [hthread] at hstep
    split at hstep
    · cases hstep
      exact workRank_lt_of_left (by simp [hthread, SnapshotThread.left]) (by simp [again])
    · split at hstep
      · rename_i hstop hpending
        cases hstep
        have hagain : s.again = true := by simp [again, hthread, hstop, hpending]
        have hrank : s.workRank = 8 := by simp [workRank, hagain, hthread, SnapshotThread.left]
        rw [hrank]
        simp only [workRank, again, SnapshotThread.left, Bool.and_false, Bool.false_eq_true,
          if_false]
        omega
      · cases hstep
        exact workRank_lt_of_left (by simp [hthread, SnapshotThread.left]) (by simp [again])
  | taken =>
    simp only [hthread] at hstep
    split at hstep <;> cases hstep
    exact workRank_lt_of_left (by simp [hthread, SnapshotThread.left])
      (by simp [again, again_captured hinv])
  | captured index term =>
    simp only [hthread, Option.some.injEq] at hstep
    subst hstep
    cases ok with
    | true =>
      exact workRank_lt_of_left (by simp [hthread, SnapshotThread.left]) (by simp [again, hthread])
    | false =>
      exact workRank_finished (by simp [hthread, SnapshotThread.left]) rfl rfl
  | written index term =>
    simp only [hthread, Option.some.injEq] at hstep
    subst hstep
    cases ok with
    | true =>
      exact workRank_lt_of_left (by simp [hthread, SnapshotThread.left]) (by simp [again, hthread])
    | false =>
      exact workRank_finished (by simp [hthread, SnapshotThread.left]) rfl rfl
  | published index term =>
    simp only [hthread, Option.some.injEq] at hstep
    subst hstep
    have hpending : s.pending = false :=
      hinv.single (by simp [hinv.busy, hthread, SnapshotThread.busy])
    refine workRank_lt_of_left (by simp [hthread, SnapshotThread.left]) ?_
    simp only [again, hthread, hpending, Bool.false_or, Bool.and_eq_true]
    rintro ⟨hstop, hwants⟩
    refine ⟨hstop, RaftNode.wantsSnapshotLocked_mono (le_of_eq ?_) hwants⟩
    unfold RaftNode.compactAfterSnapshot
    split <;> simp
  | finished =>
    simp only [hthread, Option.some.injEq] at hstep
    subst hstep
    exact workRank_lt_of_left (by simp [hthread, SnapshotThread.left]) (by simp [again, hthread])
  | cleared =>
    simp only [hthread, Option.some.injEq] at hstep
    subst hstep
    have hidle : s.inProgress = false := by simp [hinv.busy, hthread, SnapshotThread.busy]
    refine workRank_lt_of_left (by simp [hthread, SnapshotThread.left]) ?_
    have hstop : (s.maybeScheduleSnapshotLocked false).stop = s.stop := by
      rcases s.maybeScheduleSnapshotLocked_cases false with ⟨heq, -⟩ | ⟨-, heq⟩ <;> rw [heq]
    simp only [again, hthread, maybeScheduleSnapshotLocked_pending hidle, hstop]
    exact id

theorem work_frame {ok : Bool} (hstep : s.work ok = some s') :
    s'.applying = s.applying ∧ s'.stopping = s.stopping ∧ s'.stop = s.stop := by
  unfold work at hstep
  have hasked : (s.maybeScheduleSnapshotLocked false).applying = s.applying ∧
      (s.maybeScheduleSnapshotLocked false).stopping = s.stopping ∧
      (s.maybeScheduleSnapshotLocked false).stop = s.stop := by
    rcases s.maybeScheduleSnapshotLocked_cases false with ⟨heq, -⟩ | ⟨-, heq⟩ <;>
      simp only [heq, and_self]
  split at hstep
  · split at hstep
    · cases hstep
      exact ⟨rfl, rfl, rfl⟩
    · split at hstep <;> cases hstep <;> exact ⟨rfl, rfl, rfl⟩
  · split at hstep <;> cases hstep
    exact ⟨rfl, rfl, rfl⟩
  · cases hstep
    exact ⟨rfl, rfl, rfl⟩
  · cases hstep
    exact ⟨rfl, rfl, rfl⟩
  · cases hstep
    exact ⟨rfl, rfl, rfl⟩
  · cases hstep
    exact ⟨rfl, rfl, rfl⟩
  · cases hstep
    exact hasked
  all_goals cases hstep

/-- Every step of the threads under way is one of those that are left, unless a file cannot be
written. -/
theorem rank_lt {event : SnapshotEvent Image} (hinv : SchedulerInv s) (hown : event.isOwn = true)
    (hstep : s.step event = some s') :
    s'.rank < s.rank + (if event.fails && !s.stop then 6 else 0) ∧ s'.stop = s.stop := by
  cases event with
  | work ok =>
    obtain ⟨happlying, hstopping, hstop⟩ := work_frame hstep
    have hlt := workRank_lt hinv hstep
    refine ⟨?_, hstop⟩
    simp only [rank, SnapshotEvent.fails, happlying, hstopping]
    cases ok <;> cases hstopped : s.stop <;> simp [hstopped] at hlt ⊢ <;> omega
  | notifyAll =>
    simp only [step] at hstep
    split at hstep <;> cases hstep
    rename_i hcall
    have hstop : s.stop = true := hinv.stopping (by simp [hcall])
    have hleft : s.thread.woken.left ≤ s.thread.left + 1 := by
      cases s.thread <;> simp [SnapshotThread.woken, SnapshotThread.left]
    refine ⟨?_, rfl⟩
    simp only [rank, workRank, hcall, again, hstop, Bool.not_true, Bool.false_and,
      Bool.false_eq_true, if_false, SnapshotEvent.fails]
    omega
  | join =>
    simp only [step] at hstep
    split at hstep <;> cases hstep
    rename_i hcall
    refine ⟨?_, rfl⟩
    simp only [rank, workRank, hcall.1, again, SnapshotThread.left, Bool.and_false,
      Bool.false_eq_true, if_false]
    omega
  | applyRelease =>
    simp only [step] at hstep
    split at hstep <;> cases hstep
    rename_i happlying
    refine ⟨?_, rfl⟩
    have hagain : ({ s with applying := false } : SnapshotScheduler).workRank = s.workRank := rfl
    simp only [rank, happlying, hagain, Bool.false_eq_true, if_false, if_true]
    omega
  | _ => cases hown

theorem rank_le (hinv : SchedulerInv s) : s.rank ≤ if s.stop then 11 else 14 := by
  have happlying : (if s.applying then 1 else 0) ≤ 1 := by split <;> omega
  split
  · rename_i hstop
    have hagain : s.again = false := by simp [again, hstop]
    have hleft : s.thread.left ≤ 7 := by cases s.thread <;> simp [SnapshotThread.left]
    have hcall : (match s.stopping with
        | none => 0
        | some .signal => 3
        | some .joining => 1) ≤ 3 := by split <;> omega
    simp only [rank, workRank, hagain, Bool.false_eq_true, if_false]
    omega
  · rename_i hstop
    have hcall : s.stopping = none := by
      cases hcall : s.stopping with
      | none => rfl
      | some call => exact absurd (hinv.stopping (by simp [hcall])) hstop
    have hwork : s.workRank ≤ 13 := by
      unfold workRank again
      cases s.thread <;> simp only [SnapshotThread.left] <;> split <;> simp_all
    simp only [rank, hcall]
    omega

theorem length_add_rank_le {own : List (SnapshotEvent Image)} (hinv : SchedulerInv s)
    (hown : ∀ event ∈ own, event.isOwn = true) (hexec : s.exec own = some s') :
    own.length + s'.rank ≤
      s.rank + 6 * own.countP (fun event => event.fails && !s.stop) := by
  induction own generalizing s with
  | nil =>
    cases hexec
    simp
  | cons event own ih =>
    obtain ⟨s₁, hstep, hrest⟩ := Option.bind_eq_some_iff.mp hexec
    obtain ⟨hlt, hstop⟩ := rank_lt hinv (hown event List.mem_cons_self) hstep
    have hle := ih (hinv.step hstep) (fun e he => hown e (List.mem_cons_of_mem event he)) hrest
    rw [hstop] at hle
    rw [List.length_cons, List.countP_cons]
    split at hlt <;> rename_i hfails
    · rw [if_pos hfails]
      omega
    · rw [if_neg hfails]
      omega

/-- No thread under way has a step to take. -/
def AtRest (s : SnapshotScheduler) : Prop :=
  ∀ event : SnapshotEvent Unit, event.isOwn = true → s.step event = none

theorem AtRest.applying_eq_false (h : s.AtRest) : s.applying = false := by
  have hrelease := h .applyRelease rfl
  simpa [step] using hrelease

/-- The thread is not there, sleeps or has left. -/
theorem AtRest.thread_cases (h : s.AtRest) :
    s.thread = .none ∨ s.thread = .asleep ∨ s.thread = .exited := by
  have hwork := h (.work true) rfl
  have happlying := h.applying_eq_false
  simp only [step, work] at hwork
  cases hthread : s.thread with
  | none => exact .inl rfl
  | asleep => exact .inr (.inl rfl)
  | exited => exact .inr (.inr rfl)
  | ready =>
    simp only [hthread] at hwork
    split at hwork
    · cases hwork
    · split at hwork <;> cases hwork
  | _ => simp [hthread, happlying] at hwork

/-- A call of `StopSnapshotWorker` is not left waiting. -/
theorem AtRest.stopping_eq_none (h : s.AtRest) (hinv : SchedulerInv s) : s.stopping = none := by
  cases hcall : s.stopping with
  | none => rfl
  | some call =>
    cases call with
    | signal =>
      have hstep := h .notifyAll rfl
      simp [step, hcall] at hstep
    | joining =>
      have hjoin := h .join rfl
      rcases h.thread_cases with hthread | hthread | hthread
      · simp [step, hcall, hthread] at hjoin
      · have hsignal := hinv.signalled hthread (hinv.stopping (by simp [hcall]))
        simp [hcall] at hsignal
      · simp [step, hcall, hthread] at hjoin

theorem AtRest.asleep (h : s.AtRest) (hinv : SchedulerInv s) (hthread : s.thread ≠ .none) :
    s.thread = .asleep := by
  rcases h.thread_cases with hnone | hasleep | hexited
  · exact absurd hnone hthread
  · exact hasleep
  · have hcall := hinv.exited hexited
    simp [h.stopping_eq_none hinv] at hcall

end SnapshotScheduler

/-- A node in front of the replay of its log. -/
def SnapshotScheduler.construct (node : RaftNode) (config : SnapshotConfig) :
    SnapshotScheduler where
  node
  config

theorem SchedulerInv.construct {n : RaftNode} (hn : n.LogInv) (config : SnapshotConfig) :
    SchedulerInv (.construct n config) where
  log := hn
  busy := rfl
  single := by simp [SnapshotScheduler.construct]
  asleep := by simp [SnapshotScheduler.construct]
  signalled := by simp [SnapshotScheduler.construct]
  exited := by simp [SnapshotScheduler.construct]
  stopping := by simp [SnapshotScheduler.construct]
  stopped := by simp [SnapshotScheduler.construct]

/-- The invariant holds along every run, and so does what is said of requests. -/
theorem SchedulerInv.exec {s s' : SnapshotScheduler} {missed : Bool}
    {events : List (SnapshotEvent Image)} (hinv : SchedulerInv s)
    (h : missed = false → s.Scheduled) (hexec : s.exec events = some s') :
    SchedulerInv s' ∧ (events.foldl SnapshotEvent.misses missed = false → s'.Scheduled) := by
  induction events generalizing s missed with
  | nil =>
    cases hexec
    exact ⟨hinv, h⟩
  | cons event events ih =>
    obtain ⟨s₁, hstep, hrest⟩ := Option.bind_eq_some_iff.mp hexec
    exact ih (hinv.step hstep) (fun hmissed => .step hinv h hstep hmissed) hrest

/-- What the threads under way do makes nobody miss a request. -/
theorem misses_of_isOwn {own : List (SnapshotEvent Image)}
    (hown : ∀ event ∈ own, event.isOwn = true) (missed : Bool) :
    own.foldl SnapshotEvent.misses missed = missed := by
  induction own with
  | nil => rfl
  | cons event own ih =>
    have hevent : event.misses missed = missed := by
      have hfirst := hown event List.mem_cons_self
      cases event with
      | notifyAll | join | applyRelease | work ok => rfl
      | _ => cases hfirst
    rw [List.foldl_cons, hevent]
    exact ih fun e he => hown e (List.mem_cons_of_mem event he)

/-- However sections, timer, `Start` and `Stop` go into each other with the worker, from every state
its thread and those it waits for come to rest: within 11 steps when the worker is being stopped,
else within 14 and 6 more for each file that cannot be written. They do not rest before a call of
`Stop` has returned and every request is served, and then no snapshot is due, unless the last entry
was applied without saving its index or the worker has been stopped since. -/
theorem snapshot_worker_comes_to_rest {n : RaftNode} (hn : n.LogInv)
    (happlied : n.lastApplied ≤ n.lastSnapshotIndex) {config : SnapshotConfig}
    {events own : List (SnapshotEvent Image)} {s s' : SnapshotScheduler}
    (h : (SnapshotScheduler.construct n config).exec events = some s)
    (hown : ∀ event ∈ own, event.isOwn = true) (hexec : s.exec own = some s') :
    (if s.stop then own.length ≤ 11 else own.length ≤ 14 + 6 * own.countP SnapshotEvent.fails) ∧
      (s'.AtRest → s'.stopping = none ∧ s'.inProgress = false ∧ (s'.thread ≠ .none →
        s'.pending = false ∧
          (missedAfter events = false →
            s'.node.wantsSnapshotLocked s'.config false = false))) := by
  have hstart : false = false → (SnapshotScheduler.construct n config).Scheduled := by
    intro _ hwants
    simp [SnapshotScheduler.construct, RaftNode.not_wantsSnapshotLocked happlied] at hwants
  obtain ⟨hinv, hscheduled⟩ := (SchedulerInv.construct hn config).exec hstart h
  obtain ⟨hinv', hscheduled'⟩ := hinv.exec hscheduled hexec
  rw [misses_of_isOwn hown] at hscheduled'
  constructor
  · have hlength := SnapshotScheduler.length_add_rank_le hinv hown hexec
    have hrank := SnapshotScheduler.rank_le hinv
    cases hstop : s.stop with
    | true =>
      simp only [hstop, Bool.not_true, Bool.and_false, if_true, List.countP_false,
        Function.const_apply] at hlength hrank ⊢
      omega
    | false =>
      simp only [hstop, Bool.not_false, Bool.and_true, Bool.false_eq_true, if_false]
        at hlength hrank ⊢
      change own.length + s'.rank ≤ s.rank + 6 * own.countP SnapshotEvent.fails at hlength
      omega
  · intro hrest
    have hidle : s'.inProgress = false := by
      rw [hinv'.busy]
      rcases hrest.thread_cases with hthread | hthread | hthread <;> rw [hthread] <;> rfl
    refine ⟨hrest.stopping_eq_none hinv', hidle, fun hthread => ?_⟩
    have hasleep := hrest.asleep hinv' hthread
    have hpending := hinv'.asleep hasleep
    refine ⟨hpending, fun hmissed => ?_⟩
    by_contra hwants
    rcases hscheduled' hmissed (by simpa using hwants) with hasked | hbusy | hcleared
    · simp [hpending] at hasked
    · simp [hidle] at hbusy
    · simp [hasleep] at hcleared

/-- A follower applies its first entry, with a threshold of one. -/
def firstEntryEvents : List (SnapshotEvent Unit) :=
  [.start, .work true,
    .call (.onAppendEntries ⟨1, 2, 0, 0, [⟨1, 1, []⟩], 1⟩ true true true),
    .applyAcquire, .call .applyPick, .call (.applyFinish 1 true)]

/-- The worker is woken and takes the snapshot behind the entry, at the second attempt. -/
def secondAttempt : List (SnapshotEvent Unit) :=
  [.applyRelease, .work true, .work true, .work true, .work false, .work true, .work true,
    .work true, .work true, .work true, .work true, .work true, .work true, .work true, .work true]

theorem snapshot_worker_comes_to_rest_one : ∃ s s' : SnapshotScheduler,
    s.pending = true ∧ s.thread = .ready ∧ s.exec secondAttempt = some s' ∧
      secondAttempt.length ≤ 20 ∧ s'.thread = .asleep ∧ s'.node.lastSnapshotIndex = 1 ∧
      s'.node.wantsSnapshotLocked s'.config false = false := by
  have hexec : ((SnapshotScheduler.construct (.recover 1 [2, 3] none)
      { logThreshold := 1 }).exec firstEntryEvents).any (fun s =>
        decide (s.pending = true ∧ s.thread = .ready ∧ s.stop = false) &&
          (s.exec secondAttempt).any fun s' => decide (s'.applying = false ∧ s'.stopping = none ∧
            s'.thread = .asleep ∧ s'.node.lastSnapshotIndex = 1)) = true := by decide +kernel
  obtain ⟨s, hs, hP⟩ := (Option.any_eq_true _ _).mp hexec
  obtain ⟨hP, hexec'⟩ := (Bool.and_eq_true _ _).mp hP
  obtain ⟨s', hs', hP'⟩ := (Option.any_eq_true _ _).mp hexec'
  obtain ⟨hpending, hthread, hstop⟩ := of_decide_eq_true hP
  obtain ⟨happlying', hstopping', hasleep, hindex⟩ := of_decide_eq_true hP'
  have hrest : s'.AtRest := by
    intro event hown
    cases event with
    | notifyAll | join => simp [SnapshotScheduler.step, hstopping']
    | applyRelease => simp [SnapshotScheduler.step, happlying']
    | work ok => simp [SnapshotScheduler.step, SnapshotScheduler.work, hasleep]
    | _ => cases hown
  obtain ⟨hlength, hdone⟩ := snapshot_worker_comes_to_rest (RaftNode.LogInv.fresh 1 [2, 3])
    (Nat.le_refl 0) hs (by decide) hs'
  simp only [hstop, Bool.false_eq_true, if_false] at hlength
  obtain ⟨-, hnotDue⟩ := (hdone hrest).2.2 (by simp [hasleep])
  exact ⟨s, s', hpending, hthread, hs', hlength, hasleep, hindex, hnotDue rfl⟩

end CquptRaft
