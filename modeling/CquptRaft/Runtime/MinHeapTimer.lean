import CquptRaft.Theory.Agenda
import Mathlib.Data.List.Sort
import Mathlib.Logic.Function.Basic
import Mathlib.Tactic.Common

/-!
# The timer scheduler

`ScheduleAfter`, `Cancel`, `Start` and `Stop` are called by any number of threads, the callbacks of
the timers included, and `Run` is the loop of the one worker. A step is what a thread does without
being observed in between: a section under the lock, or one read or write of an atomic. `Run` keeps
the lock from one turn of its loop to the next, so a turn is a step of its own and the sections of
the other threads wait for the lock.
-/

namespace CquptRaft

variable {Fn : Type}

/-- The heap and the map share their tasks by pointer. All that is ever written to a task that was
shared is its flag, so a task is passed by value with the address of its flag. -/
structure Task (Fn : Type) extends Agenda.Entry Int Nat Fn where
  cancelled : Nat

/-- `TaskCompare`: the left task comes behind the right one. -/
def taskCompare (lhs rhs : Task Fn) : Bool :=
  if lhs.deadline = rhs.deadline then decide (lhs.id > rhs.id)
  else decide (lhs.deadline > rhs.deadline)

/-- The thread that runs `Run`. -/
inductive Worker (Fn : Type) where
  /-- There is no thread to join. -/
  | absent
  /-- Without the lock, in front of it or in a wait that gives it up. -/
  | waiting
  | locked
  | calling (fn : Fn)
  /-- `Run` has returned and the thread was not joined. -/
  | exited

/-- A call of `ScheduleAfter` in front of its section, before and after it has its id. -/
inductive ScheduleCall (Fn : Type) where
  | timed (deadline : Int) (fn : Fn) (cancelled : Nat)
  | numbered (task : Task Fn)

inductive StartPhase where
  | called
  /-- `started_` was false and is true now. -/
  | swapped
  | reset
  deriving DecidableEq

inductive StopPhase where
  | called
  | loaded
  | signalled
  | joined
  | cleared
  deriving DecidableEq

structure TimerScheduler (Fn : Type) where
  clock : Int := 0
  started : Bool := false
  stop : Bool := false
  nextId : Nat := 1
  /-- In the order of `TaskCompare`, the top first. -/
  heap : List (Task Fn) := []
  tasks : Nat → Option (Task Fn) := fun _ => none
  worker : Worker Fn := .absent
  /-- The `cancelled` flags of all tasks, by address. -/
  flags : List Bool := []
  /-- The calls under way, in any order. -/
  calls : List (ScheduleCall Fn) := []
  starts : List StartPhase := []
  stops : List StopPhase := []

inductive SchedulerAction (Fn : Type) where
  | tick (d : Nat)
  /-- `ScheduleAfter` makes a task and reads the clock. -/
  | scheduleAfter (delay : Int) (fn : Fn)
  | fetchId (i : Nat)
  | insert (i : Nat)
  | cancel (id : Nat)
  | start
  | startNext (i : Nat)
  | stop
  | stopNext (i : Nat)
  /-- The worker gets the lock. -/
  | lock
  /-- One turn of the loop of `Run`. -/
  | run
  /-- The function that the worker took returns. -/
  | returned

inductive SchedulerEvent (Fn : Type) where
  | timer (event : Agenda.Event Int Nat Fn)
  /-- `ScheduleAfter` has returned 0. -/
  | refused
  | startCalled
  | startReturned
  | stopCalled
  | stopReturned
  deriving DecidableEq

def SchedulerEvent.timer? : SchedulerEvent Fn → Option (Agenda.Event Int Nat Fn)
  | .timer event => some event
  | _ => none

namespace TimerScheduler

abbrev Outcome (Fn : Type) := TimerScheduler Fn × Option (SchedulerEvent Fn)

def isCancelled (s : TimerScheduler Fn) (task : Task Fn) : Bool :=
  s.flags.getD task.cancelled false

def push (heap : List (Task Fn)) (task : Task Fn) : List (Task Fn) :=
  heap.orderedInsert (fun lhs rhs => taskCompare lhs rhs = false) task

/-- The section of `ScheduleAfter`. -/
def scheduleLocked (s : TimerScheduler Fn) (task : Task Fn) : Outcome Fn :=
  if s.stop then (s, some .refused)
  else
    ({ s with
        tasks := Function.update s.tasks task.id (some task)
        heap := push s.heap task },
      some (.timer (.scheduled task.toEntry)))

/-- `Cancel`, all of it under the lock. -/
def cancelLocked (s : TimerScheduler Fn) (id : Nat) : Outcome Fn :=
  match s.tasks id with
  | none => (s, some (.timer (.cancelled id false)))
  | some task =>
    ({ s with
        flags := s.flags.set task.cancelled true
        tasks := Function.update s.tasks id none },
      some (.timer (.cancelled id true)))

/-- One turn of the loop of `Run`, from the test of `stop_` on. -/
def runLocked (s : TimerScheduler Fn) : Outcome Fn :=
  if s.stop then ({ s with worker := .exited }, none)
  else
    match s.heap with
    | [] => ({ s with worker := .waiting }, none)
    | task :: rest =>
      if s.isCancelled task then ({ s with heap := rest }, none)
      else if task.deadline > s.clock then ({ s with worker := .waiting }, none)
      else
        let popped := { s with heap := rest, tasks := Function.update s.tasks task.id none }
        if popped.isCancelled task then (popped, none)
        else
          ({ popped with worker := .calling task.fn },
            some (.timer (.taken task.toEntry s.clock)))

def startNext (s : TimerScheduler Fn) (i : Nat) : Option (Outcome Fn) :=
  let rest := s.starts.eraseIdx i
  match s.starts[i]?, s.worker with
  | some .called, _ =>
    if s.started then some ({ s with starts := rest }, some .startReturned)
    else some ({ s with started := true, starts := .swapped :: rest }, none)
  | some .swapped, _ => some ({ s with stop := false, starts := .reset :: rest }, none)
  -- a thread object that can still be joined must not be assigned to
  | some .reset, .absent =>
    some ({ s with worker := .waiting, starts := rest }, some .startReturned)
  | _, _ => none

def stopNext (s : TimerScheduler Fn) (i : Nat) : Option (Outcome Fn) :=
  let rest := s.stops.eraseIdx i
  match s.stops[i]?, s.worker with
  | some .called, _ =>
    if s.started then some ({ s with stops := .loaded :: rest }, none)
    else some ({ s with stops := rest }, some .stopReturned)
  | some .loaded, .locked => none
  | some .loaded, _ => some ({ s with stop := true, stops := .signalled :: rest }, none)
  | some .signalled, .absent | some .signalled, .exited =>
    some ({ s with worker := .absent, stops := .joined :: rest }, none)
  | some .joined, .locked => none
  | some .joined, _ =>
    some ({ s with heap := [], tasks := fun _ => none, stops := .cleared :: rest },
      some (.timer .cleared))
  | some .cleared, _ => some ({ s with started := false, stops := rest }, some .stopReturned)
  | _, _ => none

def step (s : TimerScheduler Fn) : SchedulerAction Fn → Option (Outcome Fn)
  | .tick d => some ({ s with clock := s.clock + d }, none)
  | .scheduleAfter delay fn =>
    some ({ s with
      flags := s.flags ++ [false]
      calls := .timed (s.clock + delay) fn s.flags.length :: s.calls }, none)
  | .fetchId i =>
    match s.calls[i]? with
    | some (.timed deadline fn cancelled) =>
      some ({ s with
        nextId := s.nextId + 1
        calls := .numbered ⟨⟨deadline, s.nextId, fn⟩, cancelled⟩ :: s.calls.eraseIdx i }, none)
    | _ => none
  | .insert i =>
    match s.calls[i]?, s.worker with
    | some (.numbered _), .locked => none
    | some (.numbered task), _ => some ({ s with calls := s.calls.eraseIdx i }.scheduleLocked task)
    | _, _ => none
  | .cancel id =>
    match s.worker with
    | .locked => none
    | _ => some (s.cancelLocked id)
  | .start => some ({ s with starts := .called :: s.starts }, some .startCalled)
  | .startNext i => s.startNext i
  | .stop => some ({ s with stops := .called :: s.stops }, some .stopCalled)
  | .stopNext i => s.stopNext i
  | .lock =>
    match s.worker with
    | .waiting => some ({ s with worker := .locked }, none)
    | _ => none
  | .run =>
    match s.worker with
    | .locked => some s.runLocked
    | _ => none
  | .returned =>
    match s.worker with
    | .calling _ => some ({ s with worker := .waiting }, none)
    | _ => none

/-- Some interleaving of the threads, with the events it leaves behind. -/
def exec (s : TimerScheduler Fn) :
    List (SchedulerAction Fn) → Option (TimerScheduler Fn × List (SchedulerEvent Fn))
  | [] => some (s, [])
  | action :: actions => do
    let (s, event) ← s.step action
    let (s, events) ← s.exec actions
    some (s, event.toList ++ events)

end TimerScheduler

end CquptRaft
