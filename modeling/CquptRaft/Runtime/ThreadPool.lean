import CquptRaft.Theory.Threads
import CquptRaft.Theory.Rounds
import Mathlib.Tactic.Common

/-!
# The thread pool

`Submit`, `Start` and `Stop` are called by any number of threads, and `WorkerLoop` is the loop of
each worker. A step is a section under the lock. The notifications are steps of their own, since
they are given behind the lock: between a section and its notification the other threads go on.
-/

namespace CquptRaft

variable {Fn : Type}

inductive PoolWorker (Fn : Type) where
  /-- In front of the lock, with the condition of the wait to be tested. -/
  | ready
  /-- In the wait, until it is woken. -/
  | asleep
  | running (task : Fn)
  /-- `WorkerLoop` has returned. -/
  | exited
  deriving DecidableEq

namespace PoolWorker

def task? : PoolWorker Fn → Option Fn
  | .running task => some task
  | _ => none

def woken : PoolWorker Fn → PoolWorker Fn
  | .asleep => .ready
  | worker => worker

end PoolWorker

/-- Where the call of `Stop` stands that has raised the flag. -/
inductive StopCall where
  | signal
  /-- The first `k` workers are joined. -/
  | joining (k : Nat)
  deriving DecidableEq

structure ThreadPool (Fn : Type) where
  workerCount : Nat
  stop : Bool := true
  tasks : List Fn := []
  workers : List (PoolWorker Fn) := []
  /-- The calls of `Submit` that have queued their task and not given notice of it. -/
  notices : Nat := 0
  stopping : Option StopCall := none
  deriving DecidableEq

inductive PoolAction (Fn : Type) where
  | start
  | submit (task : Fn)
  /-- `notify_one` wakes some worker, or there is none to wake. -/
  | notifyOne (i : Option Nat)
  | stop
  | notifyAll
  /-- The next worker is joined. -/
  | join
  /-- The loop over the workers has ended. -/
  | clear
  /-- A wait ends by itself. -/
  | wake (i : Nat)
  /-- The section of `WorkerLoop`. -/
  | work (i : Nat)
  /-- The task of a worker returns. -/
  | finish (i : Nat)
  deriving DecidableEq

inductive PoolEvent (Fn : Type) where
  | accepted (task : Fn)
  | refused (task : Fn)
  | taken (task : Fn)
  | finished (task : Fn)
  /-- `Stop` has returned; `joined` tells whether it was this call that raised the flag. -/
  | stopReturned (joined : Bool)
  deriving DecidableEq

namespace PoolEvent

def accepted? : PoolEvent Fn → Option Fn
  | .accepted task => some task
  | _ => none

def taken? : PoolEvent Fn → Option Fn
  | .taken task => some task
  | _ => none

def finished? : PoolEvent Fn → Option Fn
  | .finished task => some task
  | _ => none

end PoolEvent

namespace ThreadPool

abbrev Outcome (Fn : Type) := ThreadPool Fn × Option (PoolEvent Fn)

def start (s : ThreadPool Fn) : ThreadPool Fn :=
  if !s.stop then s
  else { s with stop := false, workers := s.workers ++ List.replicate s.workerCount .ready }

def construct (workers : Nat) : ThreadPool Fn :=
  start { workerCount := if workers = 0 then 1 else workers }

def submit (s : ThreadPool Fn) (task : Fn) : Outcome Fn :=
  if s.stop then (s, some (.refused task))
  else ({ s with tasks := s.tasks ++ [task], notices := s.notices + 1 }, some (.accepted task))

def notifyOne (s : ThreadPool Fn) (i : Option Nat) : Option (Outcome Fn) :=
  if s.notices = 0 then none
  else
    match i with
    | none =>
      if s.workers.any (fun worker => worker matches .asleep) then none
      else some ({ s with notices := s.notices - 1 }, none)
    | some i =>
      match s.workers[i]? with
      | some .asleep =>
        some ({ s with notices := s.notices - 1, workers := s.workers.set i .ready }, none)
      | _ => none

/-- The section of `Stop`. -/
def stopLocked (s : ThreadPool Fn) : Outcome Fn :=
  if s.stop then (s, some (.stopReturned false))
  else ({ s with stop := true, stopping := some .signal }, none)

/-- The section of `WorkerLoop`, by a worker that is awake. -/
def workLocked (s : ThreadPool Fn) (i : Nat) : Outcome Fn :=
  match s.tasks with
  | [] =>
    if s.stop then ({ s with workers := s.workers.set i .exited }, none)
    else ({ s with workers := s.workers.set i .asleep }, none)
  | task :: rest =>
    ({ s with tasks := rest, workers := s.workers.set i (.running task) }, some (.taken task))

def step (s : ThreadPool Fn) : PoolAction Fn → Option (Outcome Fn)
  -- the joins go over `workers_` without the lock, where `Start` must not add to it
  | .start => if s.stopping.isSome then none else some (s.start, none)
  | .submit task => some (s.submit task)
  | .notifyOne i => s.notifyOne i
  | .stop => some s.stopLocked
  | .notifyAll =>
    match s.stopping with
    | some .signal =>
      some ({ s with workers := s.workers.map .woken, stopping := some (.joining 0) }, none)
    | _ => none
  | .join =>
    match s.stopping with
    | some (.joining k) =>
      match s.workers[k]? with
      | some .exited => some ({ s with stopping := some (.joining (k + 1)) }, none)
      | _ => none
    | _ => none
  | .clear =>
    match s.stopping with
    | some (.joining k) =>
      if k = s.workers.length then
        some ({ s with workers := [], stopping := none }, some (.stopReturned true))
      else none
    | _ => none
  | .wake i =>
    match s.workers[i]? with
    | some .asleep => some ({ s with workers := s.workers.set i .ready }, none)
    | _ => none
  | .work i =>
    match s.workers[i]? with
    | some .ready => some (s.workLocked i)
    | _ => none
  | .finish i =>
    match s.workers[i]? with
    | some (.running task) =>
      some ({ s with workers := s.workers.set i .ready }, some (.finished task))
    | _ => none

/-- Some interleaving of the threads, with the events it leaves behind. -/
def exec (s : ThreadPool Fn) :
    List (PoolAction Fn) → Option (ThreadPool Fn × List (PoolEvent Fn))
  | [] => some (s, [])
  | action :: actions => do
    let (s, event) ← s.step action
    let (s, events) ← s.exec actions
    some (s, event.toList ++ events)

def running (s : ThreadPool Fn) : List Fn := s.workers.filterMap PoolWorker.task?

/-! ## What a step can do -/

/-- The steps, with their guards. -/
inductive Moved (s : ThreadPool Fn) : PoolAction Fn → ThreadPool Fn → Option (PoolEvent Fn) → Prop
  | started (hstop : s.stop = true) (hfree : s.stopping = none) :
    Moved s .start
      { s with stop := false, workers := s.workers ++ List.replicate s.workerCount .ready } none
  | startedBefore (hstop : s.stop = false) : Moved s .start s none
  | accepted (task : Fn) (hstop : s.stop = false) :
    Moved s (.submit task) { s with tasks := s.tasks ++ [task], notices := s.notices + 1 }
      (some (.accepted task))
  | refused (task : Fn) (hstop : s.stop = true) : Moved s (.submit task) s (some (.refused task))
  | unheard (hnotices : 0 < s.notices) (hnone : .asleep ∉ s.workers) :
    Moved s (.notifyOne none) { s with notices := s.notices - 1 } none
  | notified (i : Nat) (hnotices : 0 < s.notices) (hi : s.workers[i]? = some .asleep) :
    Moved s (.notifyOne (some i))
      { s with notices := s.notices - 1, workers := s.workers.set i .ready } none
  | stopped (hstop : s.stop = false) :
    Moved s .stop { s with stop := true, stopping := some .signal } none
  | stoppedBefore (hstop : s.stop = true) : Moved s .stop s (some (.stopReturned false))
  | signalled (hcall : s.stopping = some .signal) :
    Moved s .notifyAll
      { s with workers := s.workers.map .woken, stopping := some (.joining 0) } none
  | joined (k : Nat) (hcall : s.stopping = some (.joining k))
      (hk : s.workers[k]? = some .exited) :
    Moved s .join { s with stopping := some (.joining (k + 1)) } none
  | cleared (hcall : s.stopping = some (.joining s.workers.length)) :
    Moved s .clear { s with workers := [], stopping := none } (some (.stopReturned true))
  | woke (i : Nat) (hi : s.workers[i]? = some .asleep) :
    Moved s (.wake i) { s with workers := s.workers.set i .ready } none
  | left (i : Nat) (hi : s.workers[i]? = some .ready) (hstop : s.stop = true)
      (htasks : s.tasks = []) :
    Moved s (.work i) { s with workers := s.workers.set i .exited } none
  | slept (i : Nat) (hi : s.workers[i]? = some .ready) (hstop : s.stop = false)
      (htasks : s.tasks = []) :
    Moved s (.work i) { s with workers := s.workers.set i .asleep } none
  | took (i : Nat) (task : Fn) (rest : List Fn) (hi : s.workers[i]? = some .ready)
      (htasks : s.tasks = task :: rest) :
    Moved s (.work i) { s with tasks := rest, workers := s.workers.set i (.running task) }
      (some (.taken task))
  | finished (i : Nat) (task : Fn) (hi : s.workers[i]? = some (.running task)) :
    Moved s (.finish i) { s with workers := s.workers.set i .ready } (some (.finished task))

section

variable {s s' : ThreadPool Fn} {action : PoolAction Fn} {event : Option (PoolEvent Fn)}

theorem any_asleep_eq_false (h : ¬ s.workers.any (fun worker => worker matches .asleep) = true) :
    .asleep ∉ s.workers := by
  intro hmem
  exact h (List.any_eq_true.mpr ⟨_, hmem, rfl⟩)

theorem step_moved (h : s.step action = some (s', event)) : Moved s action s' event := by
  cases action with
  | start =>
    simp only [step] at h
    split at h <;> cases h
    rename_i hfree
    cases hstop : s.stop with
    | true =>
      have hstart : s.start = { s with
          stop := false, workers := s.workers ++ List.replicate s.workerCount .ready } := by
        simp [start, hstop]
      rw [hstart]
      exact .started hstop (by simpa using hfree)
    | false =>
      have hstart : s.start = s := by simp [start, hstop]
      rw [hstart]
      exact .startedBefore hstop
  | submit task =>
    simp only [step, submit] at h
    split at h <;> cases h
    · rename_i hstop
      exact .refused task hstop
    · rename_i hstop
      exact .accepted task (by simpa using hstop)
  | notifyOne i =>
    simp only [step, notifyOne] at h
    split at h
    · cases h
    · rename_i hnotices
      cases i with
      | none =>
        simp only at h
        split at h <;> cases h
        rename_i hany
        exact .unheard (Nat.pos_of_ne_zero hnotices) (any_asleep_eq_false hany)
      | some i =>
        simp only at h
        split at h <;> cases h
        rename_i hi
        exact .notified i (Nat.pos_of_ne_zero hnotices) hi
  | stop =>
    simp only [step, stopLocked] at h
    split at h <;> cases h
    · rename_i hstop
      exact .stoppedBefore hstop
    · rename_i hstop
      exact .stopped (by simpa using hstop)
  | notifyAll =>
    simp only [step] at h
    split at h <;> cases h
    rename_i hcall
    exact .signalled hcall
  | join =>
    simp only [step] at h
    split at h
    · rename_i k hcall
      split at h <;> cases h
      rename_i hk
      exact .joined k hcall hk
    · cases h
  | clear =>
    simp only [step] at h
    split at h
    · rename_i k hcall
      split at h <;> cases h
      rename_i hk
      subst hk
      exact .cleared hcall
    · cases h
  | wake i =>
    simp only [step] at h
    split at h <;> cases h
    rename_i hi
    exact .woke i hi
  | work i =>
    simp only [step] at h
    split at h
    · rename_i hi
      unfold workLocked at h
      split at h
      · rename_i htasks
        split at h <;> cases h
        · rename_i hstop
          exact .left i hi hstop htasks
        · rename_i hstop
          exact .slept i hi (by simpa using hstop) htasks
      · rename_i task rest htasks
        cases h
        exact .took i task rest hi htasks
    · cases h
  | finish i =>
    simp only [step] at h
    split at h <;> cases h
    rename_i task hi
    exact .finished i task hi

/-! ## The invariant -/

/-- Nobody sleeps while there is something to do, unless notice of it is still to be given. -/
structure PoolInv (s : ThreadPool Fn) : Prop where
  count : 0 < s.workerCount
  started : s.stop = false → s.stopping = none ∧ s.workers.length = s.workerCount
  heard : s.stop = false → s.tasks ≠ [] → 0 < s.notices ∨ ∃ worker ∈ s.workers, worker ≠ .asleep
  exited : .exited ∈ s.workers → s.stop = true ∧ s.tasks = []
  stopped : s.stop = true → s.stopping = none → s.tasks = [] ∧ s.workers = []
  calling : s.stopping ≠ none → s.stop = true ∧ s.workers ≠ []
  joining : ∀ k, s.stopping = some (.joining k) → k ≤ s.workers.length ∧
    .asleep ∉ s.workers ∧ ∀ worker ∈ s.workers.take k, worker = .exited

/-- A worker takes a step to `worker`. -/
theorem PoolInv.set {tasks : List Fn} {notices i : Nat} {old worker : PoolWorker Fn}
    (h : PoolInv s) (hi : s.workers[i]? = some old) (hold : old ≠ .exited)
    (htasks : s.tasks = [] → tasks = [])
    (hexited : worker = .exited → s.stop = true ∧ tasks = [])
    (hasleep : worker = .asleep → s.stop = false ∧ tasks = []) :
    PoolInv { s with tasks, notices, workers := s.workers.set i worker } := by
  have hlt := (List.getElem?_eq_some_iff.mp hi).1
  have hmem : worker ∈ s.workers.set i worker := List.mem_set hlt worker
  refine ⟨h.count, fun hstop => ?_, fun hstop hne => ?_, fun hex => ?_, fun hstop hfree => ?_,
    fun hcall => ?_, fun k hcall => ?_⟩
  · simpa using h.started hstop
  · refine .inr ⟨worker, hmem, fun heq => ?_⟩
    exact hne (hasleep heq).2
  · rcases List.mem_or_eq_of_mem_set hex with hin | heq
    · exact ⟨(h.exited hin).1, htasks (h.exited hin).2⟩
    · exact hexited heq.symm
  · rw [(h.stopped hstop hfree).2] at hlt
    exact absurd hlt (Nat.not_lt_zero i)
  · refine ⟨(h.calling hcall).1, List.ne_nil_of_mem hmem⟩
  · obtain ⟨hle, hnone, hjoined⟩ := h.joining k hcall
    have hraised : s.stop = true := by
      refine (h.calling ?_).1
      rw [hcall]
      exact Option.some_ne_none _
    refine ⟨by simpa using hle, ?_, ?_⟩
    · intro hin
      rcases List.mem_or_eq_of_mem_set hin with hin | heq
      · exact hnone hin
      · rw [(hasleep heq.symm).1] at hraised
        cases hraised
    · -- the worker has not been joined, since it had not left its loop
      have hk : k ≤ i := by
        by_contra hlt
        refine hold (hjoined old (List.mem_of_getElem? (i := i) ?_))
        rw [List.getElem?_take_of_lt (by omega)]
        exact hi
      rw [List.take_set_of_le hk]
      exact hjoined

theorem PoolInv.workers_ne_nil (h : PoolInv s) (hstop : s.stop = false) : s.workers ≠ [] := by
  intro hnil
  have hlen := (h.started hstop).2
  rw [hnil, List.length_nil] at hlen
  exact absurd h.count (by omega)

theorem PoolInv.step (h : PoolInv s) (hstep : s.step action = some (s', event)) : PoolInv s' := by
  cases step_moved hstep with
  | startedBefore _ => exact h
  | refused _ _ => exact h
  | stoppedBefore _ => exact h
  | started hstop hfree =>
    obtain ⟨htasks, hworkers⟩ := h.stopped hstop hfree
    constructor
    · exact h.count
    · exact fun _ => ⟨hfree, by simp [hworkers]⟩
    · exact fun _ hne => absurd htasks hne
    · simp [hworkers]
    · simp
    · exact fun hcall => absurd hfree hcall
    · simp [hfree]
  | accepted task hstop =>
    obtain ⟨hfree, hlen⟩ := h.started hstop
    constructor
    · exact h.count
    · exact fun _ => ⟨hfree, hlen⟩
    · exact fun _ _ => .inl (Nat.succ_pos _)
    · intro hex
      rw [(h.exited hex).1] at hstop
      cases hstop
    · simp [hstop]
    · exact fun hcall => absurd hfree hcall
    · simp [hfree]
  | unheard hnotices hnone =>
    refine ⟨h.count, h.started, fun hstop _ => ?_, h.exited, h.stopped, h.calling, h.joining⟩
    obtain ⟨worker, hworker⟩ := List.exists_mem_of_ne_nil _ (h.workers_ne_nil hstop)
    exact .inr ⟨worker, hworker, fun heq => hnone (heq ▸ hworker)⟩
  | stopped hstop =>
    constructor
    · exact h.count
    · simp
    · simp
    · intro hex
      rw [(h.exited hex).1] at hstop
      cases hstop
    · simp
    · exact fun _ => ⟨rfl, h.workers_ne_nil hstop⟩
    · simp
  | signalled hcall =>
    have hraised := h.calling (by simp [hcall])
    constructor
    · exact h.count
    · simp [hraised.1]
    · simp [hraised.1]
    · intro hex
      obtain ⟨worker, hworker, heq⟩ := List.mem_map.mp hex
      cases worker with
      | exited => exact h.exited hworker
      | _ => cases heq
    · simp
    · simpa using hraised
    · intro k hk
      cases hk
      refine ⟨Nat.zero_le _, fun hin => ?_, by simp⟩
      obtain ⟨worker, -, heq⟩ := List.mem_map.mp hin
      cases worker <;> cases heq
  | joined k hcall hk =>
    obtain ⟨-, hnone, hjoined⟩ := h.joining k hcall
    have hraised := h.calling (by simp [hcall])
    refine ⟨h.count, by simp [hraised.1], h.heard, h.exited, by simp, fun _ => hraised, ?_⟩
    intro k' hk'
    cases hk'
    refine ⟨(List.getElem?_eq_some_iff.mp hk).1, hnone, fun worker hworker => ?_⟩
    rw [List.take_add_one, hk, List.mem_append] at hworker
    rcases hworker with hold | hnew
    · exact hjoined worker hold
    · simpa using hnew
  | cleared hcall =>
    have hraised := h.calling (by simp [hcall])
    have hjoined := (h.joining _ hcall).2.2
    rw [List.take_length] at hjoined
    obtain ⟨worker, hworker⟩ := List.exists_mem_of_ne_nil _ hraised.2
    have htasks := (h.exited (hjoined worker hworker ▸ hworker)).2
    exact ⟨h.count, by simp [hraised.1], fun _ hne => absurd htasks hne, by simp,
      fun _ _ => ⟨htasks, rfl⟩, by simp, by simp⟩
  | notified i _ hi | woke i hi => exact h.set hi (by simp) id (by simp) (by simp)
  | left i hi hstop htasks => exact h.set hi (by simp) id (fun _ => ⟨hstop, htasks⟩) (by simp)
  | slept i hi hstop htasks => exact h.set hi (by simp) id (by simp) fun _ => ⟨hstop, htasks⟩
  | took i task rest hi htasks =>
    exact h.set hi (by simp) (fun hnil => by rw [htasks] at hnil; cases hnil) (by simp) (by simp)
  | finished i task hi => exact h.set hi (by simp) id (by simp) (by simp)

theorem PoolInv.construct (n : Nat) : PoolInv (ThreadPool.construct n : ThreadPool Fn) := by
  have hpos : 0 < if n = 0 then 1 else n := by split <;> omega
  constructor <;> simp [ThreadPool.construct, start, hpos]

/-! ## Tasks -/

/-- The events, against the state they have led to. -/
structure PoolHistory (s : ThreadPool Fn) (events : List (PoolEvent Fn)) : Prop where
  fifo : events.filterMap PoolEvent.accepted? = events.filterMap PoolEvent.taken? ++ s.tasks
  once : (events.filterMap PoolEvent.taken?).Perm
    (events.filterMap PoolEvent.finished? ++ s.running)
  drained : ∀ before after, events = before ++ .stopReturned true :: after →
    (before.filterMap PoolEvent.finished?).Perm (before.filterMap PoolEvent.accepted?)

theorem PoolHistory.append {events : List (PoolEvent Fn)} {event : PoolEvent Fn}
    (h : PoolHistory s events)
    (hfifo : s.tasks ++ event.accepted?.toList = event.taken?.toList ++ s'.tasks)
    (honce : (event.taken?.toList ++ s.running).Perm (event.finished?.toList ++ s'.running))
    (hstop : event = .stopReturned true → s.tasks = [] ∧ s.running = []) :
    PoolHistory s' (events ++ [event]) := by
  refine ⟨?_, ?_, fun before after hevents => ?_⟩
  · rw [Threads.filterMap_concat, Threads.filterMap_concat, h.fifo, List.append_assoc, hfifo,
      List.append_assoc]
  · rw [Threads.filterMap_concat, Threads.filterMap_concat, List.append_assoc]
    have htaken := h.once.append_right event.taken?.toList
    rw [List.append_assoc] at htaken
    exact htaken.trans ((List.perm_append_comm.trans honce).append_left _)
  rcases List.eq_nil_or_concat after with rfl | ⟨after, last, rfl⟩
  · obtain ⟨rfl, hlast⟩ := List.append_inj' hevents rfl
    obtain ⟨htasks, hrunning⟩ := hstop (List.singleton_inj.mp hlast)
    have honce := h.once
    rw [hrunning, List.append_nil] at honce
    rw [h.fifo, htasks, List.append_nil]
    exact honce.symm
  · rw [List.concat_eq_append, ← List.cons_append, ← List.append_assoc] at hevents
    exact h.drained before after (List.append_inj' hevents rfl).1

/-- A step that tells nothing leaves the tasks alone. -/
theorem PoolHistory.silent {events : List (PoolEvent Fn)} (h : PoolHistory s events)
    (htasks : s'.tasks = s.tasks) (hrunning : s'.running.Perm s.running) :
    PoolHistory s' events :=
  ⟨by rw [htasks]; exact h.fifo, h.once.trans (hrunning.symm.append_left _), h.drained⟩

/-- Neither the worker nor what it becomes runs a task. -/
theorem running_set {workers : List (PoolWorker Fn)} {i : Nat} {old worker : PoolWorker Fn}
    (hi : workers[i]? = some old) (hold : old.task? = none) (hnew : worker.task? = none) :
    ((workers.set i worker).filterMap PoolWorker.task?).Perm
      (workers.filterMap PoolWorker.task?) := by
  have hset := Threads.filterMap_set_perm hi PoolWorker.task? worker
  have hperm := Threads.filterMap_perm hi PoolWorker.task?
  rw [hnew] at hset
  rw [hold] at hperm
  exact hset.trans hperm.symm

theorem PoolHistory.step {events : List (PoolEvent Fn)} (h : PoolHistory s events)
    (hinv : PoolInv s) (hstep : s.step action = some (s', event)) :
    PoolHistory s' (events ++ event.toList) := by
  cases step_moved hstep with
  | startedBefore _ => simpa using h
  | refused _ _ | stoppedBefore _ =>
    refine h.append ?_ (.refl _) (by simp)
    simp [PoolEvent.accepted?, PoolEvent.taken?]
  | started hstop hfree =>
    simp only [Option.toList_none, List.append_nil]
    refine h.silent rfl (.of_eq ?_)
    simp [running, PoolWorker.task?]
  | accepted task hstop =>
    exact h.append rfl (.refl _) (by simp)
  | unheard _ _ | stopped _ | joined _ _ _ =>
    simp only [Option.toList_none, List.append_nil]
    exact h.silent rfl (.refl _)
  | signalled hcall =>
    simp only [Option.toList_none, List.append_nil]
    refine h.silent rfl (.of_eq ?_)
    simp only [running, List.filterMap_map]
    refine List.filterMap_congr fun worker _ => ?_
    cases worker <;> rfl
  | cleared hcall =>
    -- every worker has left its loop, and the first one to do so found the queue empty
    have hraised := hinv.calling (by simp [hcall])
    have hjoined := (hinv.joining _ hcall).2.2
    rw [List.take_length] at hjoined
    obtain ⟨worker, hworker⟩ := List.exists_mem_of_ne_nil _ hraised.2
    have htasks := (hinv.exited (hjoined worker hworker ▸ hworker)).2
    have hrunning : s.running = [] := by
      refine List.filterMap_eq_nil_iff.mpr fun worker hworker => ?_
      rw [hjoined worker hworker]
      rfl
    refine h.append ?_ (.of_eq ?_) fun _ => ⟨htasks, hrunning⟩
    · simp [PoolEvent.accepted?, PoolEvent.taken?]
    · rw [hrunning]
      rfl
  | notified i _ hi | woke i hi | left i hi _ _ | slept i hi _ _ =>
    simp only [Option.toList_none, List.append_nil]
    exact h.silent rfl (running_set hi rfl rfl)
  | took i task rest hi htasks =>
    refine h.append ?_ ?_ (by simp)
    · simp [PoolEvent.accepted?, PoolEvent.taken?, htasks]
    · have hset := Threads.filterMap_set_perm hi PoolWorker.task? (.running task)
      have hperm := Threads.filterMap_perm hi PoolWorker.task?
      exact (hperm.cons task).trans hset.symm
  | finished i task hi =>
    refine h.append ?_ ?_ (by simp)
    · simp [PoolEvent.accepted?, PoolEvent.taken?]
    · have hset := Threads.filterMap_set_perm hi PoolWorker.task? .ready
      have hperm := Threads.filterMap_perm hi PoolWorker.task?
      exact hperm.trans (hset.symm.cons task)

theorem PoolHistory.construct (n : Nat) :
    PoolHistory (ThreadPool.construct n : ThreadPool Fn) [] where
  fifo := by simp [ThreadPool.construct, start]
  once := by simp [ThreadPool.construct, start, running, PoolWorker.task?]
  drained := by simp

theorem PoolHistory.exec {actions : List (PoolAction Fn)} {past events : List (PoolEvent Fn)}
    (hinv : PoolInv s) (h : PoolHistory s past) (hexec : s.exec actions = some (s', events)) :
    PoolInv s' ∧ PoolHistory s' (past ++ events) := by
  induction actions generalizing s past events with
  | nil =>
    cases hexec
    rw [List.append_nil]
    exact ⟨hinv, h⟩
  | cons action actions ih =>
    obtain ⟨⟨s₁, event⟩, hstep, hrest⟩ := Option.bind_eq_some_iff.mp hexec
    obtain ⟨⟨s₂, later⟩, hlater, heq⟩ := Option.bind_eq_some_iff.mp hrest
    cases heq
    rw [← List.append_assoc]
    exact ih (hinv.step hstep) (h.step hinv hstep) hlater

/-! ## Rest -/

end

end ThreadPool

/-- Steps of threads that are under way already, which nobody has to ask for. -/
def PoolAction.isOwn : PoolAction Fn → Bool
  | .start | .submit _ | .stop | .wake _ => false
  | _ => true

/-- The steps a worker can take before it needs a task, or to be woken. -/
def PoolWorker.rank : PoolWorker Fn → Nat
  | .ready => 1
  | .running _ => 2
  | .asleep | .exited => 0

namespace ThreadPool

def stopRank (s : ThreadPool Fn) : Nat :=
  match s.stopping with
  | none => 0
  | some .signal => 2 * s.workers.length + 2
  | some (.joining k) => s.workers.length - k + 1

/-- A bound on the steps that the threads under way can take. -/
def rank (s : ThreadPool Fn) : Nat :=
  2 * s.tasks.length + (s.workers.map PoolWorker.rank).sum + 2 * s.notices + s.stopRank

section

variable {s s' : ThreadPool Fn} {action : PoolAction Fn} {event : Option (PoolEvent Fn)}

theorem sum_rank_woken (workers : List (PoolWorker Fn)) :
    ((workers.map .woken).map PoolWorker.rank).sum ≤
      (workers.map PoolWorker.rank).sum + workers.length := by
  induction workers with
  | nil => simp
  | cons worker workers ih =>
    have hworker : worker.woken.rank ≤ worker.rank + 1 := by
      cases worker <;> simp [PoolWorker.woken, PoolWorker.rank]
    simp only [List.map_cons, List.sum_cons, List.length_cons]
    omega

theorem rank_lt (hstep : s.step action = some (s', event)) (hown : action.isOwn = true) :
    s'.rank < s.rank := by
  cases step_moved hstep with
  | started | startedBefore | accepted | refused | stopped | stoppedBefore | woke => cases hown
  | unheard hnotices hnone =>
    simp only [rank, stopRank]
    omega
  | notified i hnotices hi =>
    have hsum := Threads.sum_map_set hi PoolWorker.rank .ready
    simp only [PoolWorker.rank] at hsum
    simp only [rank, stopRank, List.length_set]
    omega
  | signalled hcall =>
    have hsum := sum_rank_woken s.workers
    simp only [rank, stopRank, hcall, List.length_map]
    omega
  | joined k hcall hk =>
    have hlt := (List.getElem?_eq_some_iff.mp hk).1
    simp only [rank, stopRank, hcall]
    omega
  | cleared hcall =>
    simp only [rank, stopRank, hcall, List.map_nil, List.sum_nil]
    omega
  | left i hi hstop htasks =>
    have hsum := Threads.sum_map_set hi PoolWorker.rank .exited
    simp only [PoolWorker.rank] at hsum
    simp only [rank, stopRank, List.length_set]
    omega
  | slept i hi hstop htasks =>
    have hsum := Threads.sum_map_set hi PoolWorker.rank .asleep
    simp only [PoolWorker.rank] at hsum
    simp only [rank, stopRank, List.length_set]
    omega
  | took i task rest hi htasks =>
    have hsum := Threads.sum_map_set hi PoolWorker.rank (.running task)
    simp only [PoolWorker.rank] at hsum
    simp only [rank, stopRank, List.length_set, htasks, List.length_cons]
    omega
  | finished i task hi =>
    have hsum := Threads.sum_map_set hi PoolWorker.rank .ready
    simp only [PoolWorker.rank] at hsum
    simp only [rank, stopRank, List.length_set]
    omega

theorem length_add_rank_le {own : List (PoolAction Fn)} {events : List (PoolEvent Fn)}
    (hown : ∀ action ∈ own, action.isOwn = true) (hexec : s.exec own = some (s', events)) :
    own.length + s'.rank ≤ s.rank := by
  induction own generalizing s events with
  | nil =>
    cases hexec
    simp
  | cons action own ih =>
    obtain ⟨⟨s₁, event⟩, hstep, hrest⟩ := Option.bind_eq_some_iff.mp hexec
    obtain ⟨⟨s₂, later⟩, hlater, heq⟩ := Option.bind_eq_some_iff.mp hrest
    cases heq
    have hlt := rank_lt hstep (hown action List.mem_cons_self)
    have hle := ih (fun a ha => hown a (List.mem_cons_of_mem _ ha)) hlater
    rw [List.length_cons]
    omega

/-- No thread under way has a step to take. -/
def AtRest (s : ThreadPool Fn) : Prop :=
  ∀ action : PoolAction Fn, action.isOwn = true → s.step action = none

theorem AtRest.notices_eq_zero (h : AtRest s) : s.notices = 0 := by
  by_contra hne
  by_cases hasleep : .asleep ∈ s.workers
  · obtain ⟨i, hi⟩ := List.getElem?_of_mem hasleep
    have hstep := h (.notifyOne (some i)) rfl
    simp [step, notifyOne, hne, hi] at hstep
  · have hany : ¬ s.workers.any (fun worker => worker matches .asleep) = true := by
      intro hany
      obtain ⟨worker, hworker, heq⟩ := List.any_eq_true.mp hany
      cases worker with
      | asleep => exact hasleep hworker
      | _ => cases heq
    have hstep := h (.notifyOne none) rfl
    simp only [step, notifyOne, if_neg hne, if_neg hany] at hstep
    cases hstep

theorem AtRest.worker (h : AtRest s) {worker : PoolWorker Fn} (hworker : worker ∈ s.workers) :
    worker = .asleep ∨ worker = .exited := by
  obtain ⟨i, hi⟩ := List.getElem?_of_mem hworker
  cases worker with
  | asleep => exact .inl rfl
  | exited => exact .inr rfl
  | ready =>
    have hstep := h (.work i) rfl
    simp [step, hi] at hstep
  | running task =>
    have hstep := h (.finish i) rfl
    simp [step, hi] at hstep

/-- A call of `Stop` cannot be left waiting. -/
theorem AtRest.stopping_eq_none (h : AtRest s) (hinv : PoolInv s) : s.stopping = none := by
  cases hcall : s.stopping with
  | none => rfl
  | some call =>
    cases call with
    | signal =>
      have hstep := h .notifyAll rfl
      simp [step, hcall] at hstep
    | joining k =>
      obtain ⟨hle, hnone, -⟩ := hinv.joining k hcall
      rcases Nat.lt_or_eq_of_le hle with hlt | heq
      · have hk := List.getElem?_eq_getElem hlt
        rcases h.worker (List.mem_of_getElem? hk) with hasleep | hexited
        · exact absurd (hasleep ▸ List.mem_of_getElem? hk) hnone
        · rw [hexited] at hk
          have hstep := h .join rfl
          simp [step, hcall, hk] at hstep
      · have hstep := h .clear rfl
        simp [step, hcall, heq] at hstep

theorem AtRest.tasks_eq_nil (h : AtRest s) (hinv : PoolInv s) : s.tasks = [] := by
  cases hstop : s.stop with
  | true => exact (hinv.stopped hstop (h.stopping_eq_none hinv)).1
  | false =>
    by_contra hne
    rcases hinv.heard hstop hne with hnotices | ⟨worker, hworker, hawake⟩
    · exact absurd h.notices_eq_zero (by omega)
    · rcases h.worker hworker with hasleep | hexited
      · exact hawake hasleep
      · rw [(hinv.exited (hexited ▸ hworker)).1] at hstop
        cases hstop

theorem AtRest.running_eq_nil (h : AtRest s) : s.running = [] := by
  refine List.filterMap_eq_nil_iff.mpr fun worker hworker => ?_
  rcases h.worker hworker with rfl | rfl <;> rfl

end

end ThreadPool

open ThreadPool

section

variable {n : Nat} {actions : List (PoolAction Fn)} {s : ThreadPool Fn}
  {events : List (PoolEvent Fn)}

/-- Under every interleaving the tasks are taken in the order in which they were accepted, each of
them once, and when the call of `Stop` that raised the flag returns, what was accepted has run to
its end. -/
theorem pool_tasks_run_once (h : (ThreadPool.construct n).exec actions = some (s, events)) :
    events.filterMap PoolEvent.accepted? = events.filterMap PoolEvent.taken? ++ s.tasks ∧
      (events.filterMap PoolEvent.taken?).Perm
        (events.filterMap PoolEvent.finished? ++ s.running) ∧
      ∀ before after, events = before ++ .stopReturned true :: after →
        (before.filterMap PoolEvent.finished?).Perm (before.filterMap PoolEvent.accepted?) := by
  obtain ⟨-, hhistory⟩ := PoolHistory.exec (.construct n) (.construct n) h
  exact ⟨hhistory.fifo, hhistory.once, hhistory.drained⟩

/-- The only worker sleeps, is woken for a task and leaves when the pool is stopped. -/
def oneTaskSchedule : List (PoolAction Nat) :=
  [.work 0, .submit 7, .notifyOne (some 0), .work 0, .stop, .submit 8, .notifyAll, .finish 0,
    .work 0, .join, .clear]

theorem pool_tasks_run_once_seven : ∃ s : ThreadPool Nat,
    (ThreadPool.construct 1).exec oneTaskSchedule =
        some (s, [.accepted 7, .taken 7, .refused 8, .finished 7] ++ .stopReturned true :: []) ∧
      ([.accepted 7, .taken 7, .refused 8, .finished 7].filterMap PoolEvent.finished?).Perm
        ([.accepted 7, .taken 7, .refused 8, .finished 7].filterMap PoolEvent.accepted?) := by
  have h : (ThreadPool.construct 1).exec oneTaskSchedule = some (⟨1, true, [], [], 0, none⟩,
      [.accepted 7, .taken 7, .refused 8, .finished 7] ++ .stopReturned true :: []) := by decide
  exact ⟨_, h, (pool_tasks_run_once h).2.2 _ [] rfl⟩

/-- However the threads under way are scheduled, they come to rest after finitely many steps, and
they do not rest before every accepted task has run to its end and `Stop` has returned: no worker
sleeps through a task that was queued, and none is waited for in vain. -/
theorem pool_comes_to_rest (h : (ThreadPool.construct n).exec actions = some (s, events))
    {own : List (PoolAction Fn)} {s' : ThreadPool Fn} {more : List (PoolEvent Fn)}
    (hown : ∀ action ∈ own, action.isOwn = true) (hexec : s.exec own = some (s', more)) :
    own.length ≤ s.rank ∧ (s'.AtRest → s'.stopping = none ∧
      ((events ++ more).filterMap PoolEvent.finished?).Perm
        ((events ++ more).filterMap PoolEvent.accepted?)) := by
  obtain ⟨hinv, hhistory⟩ := PoolHistory.exec (.construct n) (.construct n) h
  rw [List.nil_append] at hhistory
  obtain ⟨hinv', hhistory'⟩ := hhistory.exec hinv hexec
  have hlength := length_add_rank_le hown hexec
  refine ⟨by omega, fun hrest => ⟨hrest.stopping_eq_none hinv', ?_⟩⟩
  have honce := hhistory'.once
  rw [hrest.running_eq_nil, List.append_nil] at honce
  rw [hhistory'.fifo, hrest.tasks_eq_nil hinv', List.append_nil]
  exact honce.symm

theorem pool_comes_to_rest_seven : ∃ s s' : ThreadPool Nat, 4 ≤ s.rank ∧
    s.exec [.notifyOne (some 0), .work 0, .finish 0, .work 0] =
      some (s', [.taken 7, .finished 7]) ∧ s'.AtRest ∧ s'.stopping = none := by
  have h : (ThreadPool.construct 1).exec (oneTaskSchedule.take 2) =
      some (⟨1, false, [7], [.asleep], 1, none⟩, [.accepted 7]) := by decide
  have hexec : ThreadPool.exec ⟨1, false, [7], [.asleep], 1, none⟩
      [.notifyOne (some 0), .work 0, .finish 0, .work 0] =
      some (⟨1, false, [], [.asleep], 0, none⟩, [.taken 7, .finished 7]) := by decide
  have hrest : AtRest (⟨1, false, [], [.asleep], 0, none⟩ : ThreadPool Nat) := by
    intro action hown
    cases action with
    | start | submit | stop | wake => cases hown
    | work i | finish i => cases i <;> rfl
    | _ => rfl
  obtain ⟨hlength, hdone⟩ := pool_comes_to_rest h (by decide) hexec
  exact ⟨_, _, hlength, hexec, hrest, (hdone hrest).1⟩

end

end CquptRaft
