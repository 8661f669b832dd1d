import CquptRaft.Runtime.MinHeapTimer
import CquptRaft.Theory.Threads
import Mathlib.Data.List.GetD

/-!
# Runs of the timer scheduler

The heap and the map are two views of the tasks that can still run: the map has exactly the tasks
of the heap whose flag is down. That makes every run of the scheduler a history an agenda accepts.
-/

namespace CquptRaft

variable {Fn : Type}

theorem taskCompare_iff (lhs rhs : Task Fn) :
    taskCompare lhs rhs = true ↔ rhs.toEntry.Before lhs.toEntry := by
  unfold taskCompare Agenda.Entry.Before
  split <;> simp <;> omega

instance : Std.Total fun lhs rhs : Task Fn => taskCompare lhs rhs = false where
  total lhs rhs := by
    simp only [← Bool.not_eq_true, taskCompare_iff, Agenda.Entry.Before]
    omega

instance : IsTrans (Task Fn) fun lhs rhs => taskCompare lhs rhs = false where
  trans s t u := by
    simp only [← Bool.not_eq_true, taskCompare_iff, Agenda.Entry.Before]
    omega

def ScheduleCall.cancelled : ScheduleCall Fn → Nat
  | .timed _ _ cancelled => cancelled
  | .numbered task => task.cancelled

def ScheduleCall.id? : ScheduleCall Fn → Option Nat
  | .timed .. => none
  | .numbered task => some task.id

namespace TimerScheduler

/-- The task is in the heap and was not cancelled. -/
def Live (s : TimerScheduler Fn) (task : Task Fn) : Prop :=
  task ∈ s.heap ∧ s.isCancelled task = false

/-- A run goes step by step. -/
theorem exec_cons {s s' : TimerScheduler Fn} {action : SchedulerAction Fn}
    {actions : List (SchedulerAction Fn)} {events : List (SchedulerEvent Fn)}
    (h : s.exec (action :: actions) = some (s', events)) :
    ∃ u event rest, s.step action = some (u, event) ∧ u.exec actions = some (s', rest) ∧
      events = event.toList ++ rest := by
  obtain ⟨⟨u, event⟩, hstep, hrest⟩ := Option.bind_eq_some_iff.mp h
  obtain ⟨⟨v, rest⟩, hexec, hsome⟩ := Option.bind_eq_some_iff.mp hrest
  cases hsome
  exact ⟨u, event, rest, hstep, hexec, rfl⟩

/-- The flags that tasks and calls hold, by address. -/
def addresses (s : TimerScheduler Fn) : List Nat :=
  s.heap.map Task.cancelled ++ s.calls.map ScheduleCall.cancelled

end TimerScheduler

open TimerScheduler Threads

/-- The state of the scheduler after a history that leaves the agenda `a` behind. -/
structure TimerInv (s : TimerScheduler Fn) (a : Agenda Int Nat Fn) : Prop where
  sorted : s.heap.Pairwise fun lhs rhs => taskCompare lhs rhs = false
  addresses : s.addresses.Nodup
  allocated : ∀ address ∈ s.addresses, address < s.flags.length
  unset : ∀ call ∈ s.calls, s.flags.getD call.cancelled false = false
  callIds : (s.calls.filterMap ScheduleCall.id?).Nodup
  fresh : ∀ id ∈ s.calls.filterMap ScheduleCall.id?, id < s.nextId ∧ id ∉ a.used
  used : ∀ id ∈ a.used, id < s.nextId
  heap : ∀ task ∈ s.heap, task.id ∈ a.used
  tasks : ∀ id task, s.tasks id = some task ↔ s.Live task ∧ task.id = id
  pending : ∀ e, e ∈ a.pending ↔ ∃ task, s.Live task ∧ task.toEntry = e

namespace TimerInv

variable {s s' : TimerScheduler Fn} {a : Agenda Int Nat Fn}

theorem init : TimerInv ({} : TimerScheduler Fn) Agenda.empty := by
  constructor <;> simp [TimerScheduler.addresses, Live, Agenda.empty]

/-- The clock, the worker and the calls of `Start` and `Stop` are nothing to the tasks. -/
theorem congr (h : TimerInv s a) (hheap : s'.heap = s.heap) (htasks : s'.tasks = s.tasks)
    (hflags : s'.flags = s.flags) (hcalls : s'.calls = s.calls) (hid : s'.nextId = s.nextId) :
    TimerInv s' a := by
  have hlive : ∀ task, s'.Live task ↔ s.Live task := by
    simp [Live, isCancelled, hheap, hflags]
  have haddresses : s'.addresses = s.addresses := by
    simp [TimerScheduler.addresses, hheap, hcalls]
  exact
    { sorted := hheap ▸ h.sorted
      addresses := haddresses ▸ h.addresses
      allocated := haddresses ▸ hflags ▸ h.allocated
      unset := hcalls ▸ hflags ▸ h.unset
      callIds := hcalls ▸ h.callIds
      fresh := hcalls ▸ hid ▸ h.fresh
      used := hid ▸ h.used
      heap := hheap ▸ h.heap
      tasks := fun id task => by rw [htasks, hlive, h.tasks]
      pending := fun e => by simp [hlive, h.pending] }

/-- Two tasks that can still run have different ids. -/
theorem live_ext (h : TimerInv s a) {task task' : Task Fn} (hlive : s.Live task)
    (hlive' : s.Live task') (hid : task.id = task'.id) : task = task' := by
  have := (h.tasks _ task).mpr ⟨hlive, hid⟩
  rw [(h.tasks _ task').mpr ⟨hlive', rfl⟩] at this
  exact (Option.some.inj this).symm

theorem scheduleAfter (h : TimerInv s a) (deadline : Int) (fn : Fn) :
    TimerInv { s with
      flags := s.flags ++ [false]
      calls := .timed deadline fn s.flags.length :: s.calls } a := by
  have hflag : ∀ address, (s.flags ++ [false]).getD address false = s.flags.getD address false := by
    intro address
    simp only [List.getD_eq_getElem?_getD, List.getElem?_append]
    grind
  have hlive : ∀ task, Live { s with
      flags := s.flags ++ [false]
      calls := .timed deadline fn s.flags.length :: s.calls } task ↔ s.Live task := by
    simp only [Live, isCancelled, hflag, implies_true]
  have haddresses : (s.heap.map Task.cancelled ++
      s.flags.length :: s.calls.map ScheduleCall.cancelled).Perm (s.flags.length :: s.addresses) :=
    List.perm_middle
  exact
    { sorted := h.sorted
      addresses := by
        refine haddresses.nodup_iff.mpr (List.nodup_cons.mpr ⟨fun hmem => ?_, h.addresses⟩)
        exact absurd (h.allocated _ hmem) (lt_irrefl _)
      allocated := fun address hmem => by
        rcases List.mem_cons.mp (haddresses.mem_iff.mp hmem) with rfl | hmem
        · simp
        · simpa using Nat.lt_succ_of_lt (h.allocated _ hmem)
      unset := by
        intro call hcall
        rw [hflag]
        rcases List.mem_cons.mp hcall with rfl | hcall
        · simp [ScheduleCall.cancelled]
        · exact h.unset call hcall
      callIds := h.callIds
      fresh := h.fresh
      used := h.used
      heap := h.heap
      tasks := fun id task => by rw [hlive, ← h.tasks]
      pending := fun e => by simp [hlive, h.pending] }

theorem fetchId (h : TimerInv s a) {i : Nat} {deadline : Int} {fn : Fn} {cancelled : Nat}
    (hcall : s.calls[i]? = some (.timed deadline fn cancelled)) :
    TimerInv { s with
      nextId := s.nextId + 1
      calls := .numbered ⟨⟨deadline, s.nextId, fn⟩, cancelled⟩ :: s.calls.eraseIdx i } a := by
  have hperm := perm_cons_eraseIdx hcall
  have hids : (s.calls.filterMap ScheduleCall.id?).Perm
      ((s.calls.eraseIdx i).filterMap ScheduleCall.id?) :=
    hperm.filterMap ScheduleCall.id?
  have haddresses : (s.heap.map Task.cancelled ++
      cancelled :: (s.calls.eraseIdx i).map ScheduleCall.cancelled).Perm s.addresses :=
    ((hperm.map ScheduleCall.cancelled).append_left _).symm
  exact
    { sorted := h.sorted
      addresses := haddresses.nodup_iff.mpr h.addresses
      allocated := fun address hmem => h.allocated _ (haddresses.mem_iff.mp hmem)
      unset := by
        intro call hmem
        rcases List.mem_cons.mp hmem with rfl | hmem
        · exact h.unset (.timed deadline fn cancelled) (hperm.mem_iff.mpr List.mem_cons_self)
        · exact h.unset _ (hperm.mem_iff.mpr (List.mem_cons_of_mem _ hmem))
      callIds := by
        refine List.nodup_cons.mpr ⟨fun hmem => ?_, hids.nodup_iff.mp h.callIds⟩
        exact absurd (h.fresh _ (hids.mem_iff.mpr hmem)).1 (lt_irrefl _)
      fresh := by
        intro id hmem
        rcases List.mem_cons.mp hmem with rfl | hmem
        · exact ⟨Nat.lt_succ_self _, fun hused => absurd (h.used _ hused) (lt_irrefl _)⟩
        · obtain ⟨hlt, hunused⟩ := h.fresh id (hids.mem_iff.mpr hmem)
          exact ⟨Nat.lt_succ_of_lt hlt, hunused⟩
      used := fun id hused => Nat.lt_succ_of_lt (h.used id hused)
      heap := h.heap
      tasks := h.tasks
      pending := h.pending }

/-- Every task of the heap has its flag for itself. -/
theorem set_flag (h : TimerInv s a) {task task' : Task Fn} (hmem : task ∈ s.heap)
    (hmem' : task' ∈ s.heap) :
    (s.flags.set task.cancelled true).getD task'.cancelled false = false ↔
      task' ≠ task ∧ s.isCancelled task' = false := by
  have hlt : task.cancelled < s.flags.length :=
    h.allocated _ (List.mem_append_left _ (List.mem_map_of_mem hmem))
  have hinj : task'.cancelled = task.cancelled → task' = task :=
    List.inj_on_of_nodup_map (List.nodup_append.mp h.addresses).1 hmem' hmem
  by_cases heq : task' = task
  · subst heq
    simp [List.getD_eq_getElem?_getD, hlt]
  · have hne : task.cancelled ≠ task'.cancelled := fun hc => heq (hinj hc.symm)
    simp [isCancelled, List.getD_eq_getElem?_getD, List.getElem?_set_ne hne, heq]

/-- The call of `ScheduleAfter` behind its section gives up its task. -/
theorem erase_call (h : TimerInv s a) (i : Nat) :
    TimerInv { s with calls := s.calls.eraseIdx i } a := by
  have hsub : (s.calls.eraseIdx i).Sublist s.calls := List.eraseIdx_sublist _ _
  have haddresses : (s.heap.map Task.cancelled ++
      (s.calls.eraseIdx i).map ScheduleCall.cancelled).Sublist s.addresses :=
    (hsub.map _).append_left _
  exact
    { h with
      addresses := h.addresses.sublist haddresses
      allocated := fun address hmem => h.allocated _ (haddresses.subset hmem)
      unset := fun call hmem => h.unset call (hsub.subset hmem)
      callIds := h.callIds.sublist (hsub.filterMap _)
      fresh := fun id hmem => h.fresh id ((hsub.filterMap _).subset hmem) }

theorem scheduled (h : TimerInv s a) {i : Nat} {task : Task Fn}
    (hcall : s.calls[i]? = some (.numbered task)) :
    a.Accepts (.scheduled task.toEntry) ∧
      TimerInv { s with
        calls := s.calls.eraseIdx i
        tasks := Function.update s.tasks task.id (some task)
        heap := push s.heap task } (a.next (.scheduled task.toEntry)) := by
  have hcalls := perm_cons_eraseIdx hcall
  have hheap : (push s.heap task).Perm (task :: s.heap) := List.perm_orderedInsert _ _ _
  have hids : (s.calls.filterMap ScheduleCall.id?).Perm
      (task.id :: (s.calls.eraseIdx i).filterMap ScheduleCall.id?) :=
    hcalls.filterMap ScheduleCall.id?
  have haddresses : ((push s.heap task).map Task.cancelled ++
      (s.calls.eraseIdx i).map ScheduleCall.cancelled).Perm s.addresses :=
    (((hheap.map _).append_right _).trans List.perm_middle.symm).trans
      ((hcalls.map ScheduleCall.cancelled).append_left _).symm
  have hunset : s.isCancelled task = false :=
    h.unset (.numbered task) (hcalls.mem_iff.mpr List.mem_cons_self)
  obtain ⟨hlt, hunused⟩ := h.fresh task.id (hids.mem_iff.mpr List.mem_cons_self)
  have hlive : ∀ task', Live { s with
      calls := s.calls.eraseIdx i
      tasks := Function.update s.tasks task.id (some task)
      heap := push s.heap task } task' ↔ task' = task ∨ s.Live task' := by
    intro task'
    simp only [Live, isCancelled, hheap.mem_iff, List.mem_cons]
    constructor
    · rintro ⟨rfl | hmem, hflag⟩
      · exact .inl rfl
      · exact .inr ⟨hmem, hflag⟩
    · rintro (rfl | ⟨hmem, hflag⟩)
      · exact ⟨.inl rfl, hunset⟩
      · exact ⟨.inr hmem, hflag⟩
  refine ⟨hunused, ?_⟩
  exact
    { sorted := h.sorted.orderedInsert _ _
      addresses := haddresses.nodup_iff.mpr h.addresses
      allocated := fun address hmem => h.allocated _ (haddresses.mem_iff.mp hmem)
      unset := fun call hmem => h.unset call (hcalls.mem_iff.mpr (List.mem_cons_of_mem _ hmem))
      callIds := (List.nodup_cons.mp (hids.nodup_iff.mp h.callIds)).2
      fresh := by
        intro id hmem
        obtain ⟨hidlt, hidunused⟩ := h.fresh id (hids.mem_iff.mpr (List.mem_cons_of_mem _ hmem))
        refine ⟨hidlt, fun hused => ?_⟩
        rcases List.mem_cons.mp hused with rfl | hused
        · exact (List.nodup_cons.mp (hids.nodup_iff.mp h.callIds)).1 hmem
        · exact hidunused hused
      used := by
        intro id hused
        rcases List.mem_cons.mp hused with rfl | hused
        · exact hlt
        · exact h.used id hused
      heap := by
        intro task' hmem
        rcases List.mem_cons.mp (hheap.mem_iff.mp hmem) with rfl | hmem
        · exact List.mem_cons_self
        · exact List.mem_cons_of_mem _ (h.heap task' hmem)
      tasks := by
        intro id task'
        rw [hlive]
        by_cases hid : id = task.id
        · subst hid
          simp only [Function.update_self, Option.some.injEq]
          constructor
          · rintro rfl
            exact ⟨.inl rfl, rfl⟩
          · rintro ⟨rfl | hold, hid⟩
            · rfl
            · exact absurd (hid ▸ h.heap task' hold.1) hunused
        · simp only [Function.update_of_ne hid, h.tasks]
          constructor
          · rintro ⟨hold, hid'⟩
            exact ⟨.inr hold, hid'⟩
          · rintro ⟨rfl | hold, hid'⟩
            · exact absurd hid'.symm hid
            · exact ⟨hold, hid'⟩
      pending := by
        intro e
        simp only [Agenda.next, List.mem_cons, h.pending, hlive]
        constructor
        · rintro (rfl | ⟨task', hold, rfl⟩)
          · exact ⟨task, .inl rfl, rfl⟩
          · exact ⟨task', .inr hold, rfl⟩
        · rintro ⟨task', rfl | hold, rfl⟩
          · exact .inl rfl
          · exact .inr ⟨task', hold, rfl⟩ }

/-- An id is in the map exactly when its entry is still pending. -/
theorem tasks_isSome (h : TimerInv s a) (id : Nat) :
    (s.tasks id).isSome ↔ ∃ e ∈ a.pending, e.id = id := by
  rw [Option.isSome_iff_exists]
  constructor
  · rintro ⟨task, htask⟩
    obtain ⟨hlive, hid⟩ := (h.tasks id task).mp htask
    exact ⟨task.toEntry, (h.pending _).mpr ⟨task, hlive, rfl⟩, hid⟩
  · rintro ⟨e, he, hid⟩
    obtain ⟨task, hlive, rfl⟩ := (h.pending e).mp he
    exact ⟨task, (h.tasks id task).mpr ⟨hlive, hid⟩⟩

theorem not_cancelled (h : TimerInv s a) {id : Nat} (hnone : s.tasks id = none) :
    a.Accepts (.cancelled id false) ∧ TimerInv s (a.next (.cancelled id false)) := by
  have hgone : ¬ ∃ e ∈ a.pending, e.id = id := by simp [← h.tasks_isSome id, hnone]
  refine ⟨iff_of_false Bool.false_ne_true hgone, { h with pending := fun e => ?_ }⟩
  rw [← h.pending e]
  simp only [Agenda.next, List.mem_filter, decide_eq_true_eq, and_iff_left_iff_imp]
  exact fun he hid => hgone ⟨e, he, hid⟩

/-- What an erased id leaves in the map. -/
theorem tasks_erase (h : TimerInv s a) (erased id : Nat) (task : Task Fn) :
    Function.update s.tasks erased none id = some task ↔
      (s.Live task ∧ task.id ≠ erased) ∧ task.id = id := by
  by_cases hid : id = erased
  · subst hid
    simp only [Function.update_self, reduceCtorEq, false_iff]
    rintro ⟨⟨-, hne⟩, hid⟩
    exact hne hid
  · simp only [Function.update_of_ne hid, h.tasks]
    constructor
    · rintro ⟨hlive, rfl⟩
      exact ⟨⟨hlive, hid⟩, rfl⟩
    · rintro ⟨⟨hlive, -⟩, hid'⟩
      exact ⟨hlive, hid'⟩

theorem pending_erase (h : TimerInv s a) (erased : Nat) (e : Agenda.Entry Int Nat Fn) :
    e ∈ a.pending.filter (·.id ≠ erased) ↔
      ∃ task, (s.Live task ∧ task.id ≠ erased) ∧ task.toEntry = e := by
  simp only [List.mem_filter, decide_eq_true_eq, h.pending]
  constructor
  · rintro ⟨⟨task, hlive, rfl⟩, hid⟩
    exact ⟨task, ⟨hlive, hid⟩, rfl⟩
  · rintro ⟨task, ⟨hlive, hid⟩, rfl⟩
    exact ⟨⟨task, hlive, rfl⟩, hid⟩

/-- The flag goes up in the one task that the map has under the id. -/
theorem cancelled (h : TimerInv s a) {id : Nat} {task : Task Fn} (htask : s.tasks id = some task) :
    a.Accepts (.cancelled id true) ∧
      TimerInv { s with
        flags := s.flags.set task.cancelled true
        tasks := Function.update s.tasks id none } (a.next (.cancelled id true)) := by
  obtain ⟨htop, rfl⟩ := (h.tasks id task).mp htask
  have hlive : ∀ task', Live { s with
      flags := s.flags.set task.cancelled true
      tasks := Function.update s.tasks task.id none } task' ↔
        s.Live task' ∧ task'.id ≠ task.id := by
    intro task'
    constructor
    · rintro ⟨hmem, hflag⟩
      obtain ⟨hne, hold⟩ := (h.set_flag htop.1 hmem).mp hflag
      exact ⟨⟨hmem, hold⟩, fun hid => hne (h.live_ext ⟨hmem, hold⟩ htop hid)⟩
    · rintro ⟨hold, hid⟩
      exact ⟨hold.1, (h.set_flag htop.1 hold.1).mpr ⟨fun heq => hid (heq ▸ rfl), hold.2⟩⟩
  refine ⟨iff_of_true rfl ((h.tasks_isSome _).mp (by simp [htask])), ?_⟩
  exact
    { h with
      allocated := fun address hmem => by simpa using h.allocated address hmem
      unset := by
        intro call hmem
        have hne : task.cancelled ≠ call.cancelled := by
          intro heq
          refine (List.nodup_append.mp h.addresses).2.2 _ (List.mem_map_of_mem htop.1) _ ?_ heq
          exact List.mem_map_of_mem hmem
        simpa [List.getD_eq_getElem?_getD, List.getElem?_set_ne hne] using h.unset call hmem
      tasks := fun id task' => by rw [hlive, h.tasks_erase]
      pending := fun e => by simp only [hlive, ← h.pending_erase]; rfl }

/-- What is taken off the heap leaves the other tasks as they are. -/
theorem pop (h : TimerInv s a) {task : Task Fn} {rest : List (Task Fn)}
    (hheap : s.heap = task :: rest) {tasks : Nat → Option (Task Fn)} {a' : Agenda Int Nat Fn}
    (hused : a'.used = a.used)
    (htasks : ∀ id task', tasks id = some task' ↔
      (task' ∈ rest ∧ s.isCancelled task' = false) ∧ task'.id = id)
    (hpending : ∀ e, e ∈ a'.pending ↔
      ∃ task', (task' ∈ rest ∧ s.isCancelled task' = false) ∧ task'.toEntry = e) :
    TimerInv { s with heap := rest, tasks := tasks } a' := by
  have hsub : rest.Sublist s.heap := hheap ▸ List.sublist_cons_self task rest
  have haddresses : (rest.map Task.cancelled ++ s.calls.map ScheduleCall.cancelled).Sublist
      s.addresses := (hsub.map _).append_right _
  exact
    { sorted := h.sorted.sublist hsub
      addresses := h.addresses.sublist haddresses
      allocated := fun address hmem => h.allocated _ (haddresses.subset hmem)
      unset := h.unset
      callIds := h.callIds
      fresh := hused ▸ h.fresh
      used := hused ▸ h.used
      heap := fun task' hmem => hused ▸ h.heap task' (hsub.subset hmem)
      tasks := htasks
      pending := hpending }

theorem live_cons_iff {task : Task Fn} {rest : List (Task Fn)} (hheap : s.heap = task :: rest)
    (task' : Task Fn) :
    s.Live task' ↔ (task' = task ∧ s.isCancelled task' = false) ∨
      (task' ∈ rest ∧ s.isCancelled task' = false) := by
  rw [Live, hheap, List.mem_cons, or_and_right]

/-- A cancelled task at the top was in no map and not pending. -/
theorem pop_cancelled (h : TimerInv s a) {task : Task Fn} {rest : List (Task Fn)}
    (hheap : s.heap = task :: rest) (hflag : s.isCancelled task = true) :
    TimerInv { s with heap := rest } a := by
  have hlive : ∀ task', s.Live task' ↔ task' ∈ rest ∧ s.isCancelled task' = false := by
    intro task'
    rw [live_cons_iff hheap]
    constructor
    · rintro (⟨rfl, hdown⟩ | hrest)
      · exact absurd (hflag.symm.trans hdown) Bool.noConfusion
      · exact hrest
    · exact .inr
  refine h.pop hheap rfl (fun id task' => ?_) fun e => ?_
  · rw [h.tasks, hlive]
  · simp only [h.pending, hlive]

/-- The top of the heap is due before every other task that can still run. -/
theorem taken (h : TimerInv s a) {task : Task Fn} {rest : List (Task Fn)}
    (hheap : s.heap = task :: rest) (hflag : s.isCancelled task = false)
    (hdue : task.deadline ≤ s.clock) :
    a.Accepts (.taken task.toEntry s.clock) ∧
      TimerInv { s with heap := rest, tasks := Function.update s.tasks task.id none }
        (a.next (.taken task.toEntry s.clock)) := by
  have htop : s.Live task := ⟨hheap ▸ List.mem_cons_self, hflag⟩
  have hsorted : ∀ task' ∈ rest, taskCompare task task' = false :=
    (List.pairwise_cons.mp (hheap ▸ h.sorted)).1
  have hnotin : task ∉ rest := by
    have hnodup := (List.nodup_append.mp h.addresses).1
    rw [hheap] at hnodup
    exact fun hmem => (List.nodup_cons.mp hnodup).1 (List.mem_map_of_mem hmem)
  have hrest : ∀ task', s.Live task' ∧ task'.id ≠ task.id ↔
      task' ∈ rest ∧ s.isCancelled task' = false := by
    intro task'
    rw [live_cons_iff hheap]
    constructor
    · rintro ⟨⟨rfl, -⟩ | hold, hid⟩
      · exact absurd rfl hid
      · exact hold
    · intro hold
      refine ⟨.inr hold, fun hid => hnotin ?_⟩
      have heq := h.live_ext ((live_cons_iff hheap task').mpr (.inr hold)) htop hid
      exact heq ▸ hold.1
  refine ⟨⟨(h.pending _).mpr ⟨task, htop, rfl⟩, hdue, ?_⟩, h.pop hheap rfl ?_ ?_⟩
  · intro u hu
    obtain ⟨task', hlive, rfl⟩ := (h.pending u).mp hu
    rw [← taskCompare_iff, Bool.not_eq_true]
    rcases (live_cons_iff hheap task').mp hlive with ⟨rfl, -⟩ | ⟨hmem, -⟩
    · simp [taskCompare]
    · exact hsorted task' hmem
  · intro id task'
    rw [← hrest, h.tasks_erase]
  · intro e
    simp only [← hrest, ← h.pending_erase]
    rfl

theorem cleared (h : TimerInv s a) :
    TimerInv { s with heap := [], tasks := fun _ => none } (a.next .cleared) := by
  have haddresses : (s.calls.map ScheduleCall.cancelled).Sublist s.addresses :=
    List.sublist_append_right _ _
  exact
    { sorted := List.Pairwise.nil
      addresses := h.addresses.sublist haddresses
      allocated := fun address hmem => h.allocated _ (haddresses.subset hmem)
      unset := h.unset
      callIds := h.callIds
      fresh := h.fresh
      used := h.used
      heap := fun task hmem => absurd hmem List.not_mem_nil
      tasks := by simp [Live]
      pending := by simp [Live, Agenda.next] }

end TimerInv

/-- The agenda accepts the event of a step, and the invariant goes on behind it. -/
def Continues (a : Agenda Int Nat Fn) (s : TimerScheduler Fn) :
    Option (SchedulerEvent Fn) → Prop
  | some (.timer event) => a.Accepts event ∧ TimerInv s (a.next event)
  | _ => TimerInv s a

namespace TimerInv

variable {s s' : TimerScheduler Fn} {a : Agenda Int Nat Fn} {event : Option (SchedulerEvent Fn)}

theorem scheduleLocked (h : TimerInv s a) {i : Nat} {task : Task Fn}
    (hcall : s.calls[i]? = some (.numbered task))
    (heq : { s with calls := s.calls.eraseIdx i }.scheduleLocked task = (s', event)) :
    Continues a s' event := by
  unfold TimerScheduler.scheduleLocked at heq
  split at heq <;> cases heq
  · exact h.erase_call i
  · exact h.scheduled hcall

theorem cancelLocked (h : TimerInv s a) {id : Nat} (heq : s.cancelLocked id = (s', event)) :
    Continues a s' event := by
  unfold TimerScheduler.cancelLocked at heq
  split at heq <;> cases heq
  · next hnone => exact h.not_cancelled hnone
  · next task htask => exact h.cancelled htask

theorem runLocked (h : TimerInv s a) (heq : s.runLocked = (s', event)) :
    Continues a s' event := by
  unfold TimerScheduler.runLocked at heq
  split at heq
  · cases heq
    exact h.congr rfl rfl rfl rfl rfl
  split at heq
  · cases heq
    exact h.congr rfl rfl rfl rfl rfl
  next task rest hheap =>
    split at heq
    · next hflag =>
      cases heq
      exact h.pop_cancelled hheap hflag
    next hflag =>
      have hdown : s.isCancelled task = false := by simpa using hflag
      split at heq
      · cases heq
        exact h.congr rfl rfl rfl rfl rfl
      next hdue =>
        obtain ⟨haccepts, hpop⟩ := h.taken hheap hdown (not_lt.mp hdue)
        -- the second look at the flag finds it as the first: nobody else had the lock
        have hsame : isCancelled { s with
            heap := rest
            tasks := Function.update s.tasks task.id none } task = false := hdown
        rw [if_neg (by simp [hsame])] at heq
        cases heq
        exact ⟨haccepts, hpop.congr rfl rfl rfl rfl rfl⟩

theorem startNext (h : TimerInv s a) {i : Nat} (hstep : s.startNext i = some (s', event)) :
    Continues a s' event := by
  unfold TimerScheduler.startNext at hstep
  split at hstep
  · split at hstep <;> cases hstep <;> exact h.congr rfl rfl rfl rfl rfl
  · cases hstep
    exact h.congr rfl rfl rfl rfl rfl
  · cases hstep
    exact h.congr rfl rfl rfl rfl rfl
  · cases hstep

theorem stopNext (h : TimerInv s a) {i : Nat} (hstep : s.stopNext i = some (s', event)) :
    Continues a s' event := by
  unfold TimerScheduler.stopNext at hstep
  split at hstep
  · split at hstep <;> cases hstep <;> exact h.congr rfl rfl rfl rfl rfl
  · cases hstep
  · cases hstep
    exact h.congr rfl rfl rfl rfl rfl
  · cases hstep
    exact h.congr rfl rfl rfl rfl rfl
  · cases hstep
    exact h.congr rfl rfl rfl rfl rfl
  · cases hstep
  · cases hstep
    exact ⟨trivial, h.cleared.congr rfl rfl rfl rfl rfl⟩
  · cases hstep
    exact h.congr rfl rfl rfl rfl rfl
  · cases hstep

theorem step (h : TimerInv s a) {action : SchedulerAction Fn}
    (hstep : s.step action = some (s', event)) : Continues a s' event := by
  cases action with
  | tick d =>
    cases hstep
    exact h.congr rfl rfl rfl rfl rfl
  | scheduleAfter delay fn =>
    cases hstep
    exact h.scheduleAfter _ _
  | fetchId i =>
    simp only [TimerScheduler.step] at hstep
    split at hstep
    · next hcall =>
      cases hstep
      exact h.fetchId hcall
    · cases hstep
  | insert i =>
    simp only [TimerScheduler.step] at hstep
    split at hstep
    · cases hstep
    · next hcall _ => exact h.scheduleLocked hcall (Option.some.inj hstep)
    · cases hstep
  | cancel id =>
    simp only [TimerScheduler.step] at hstep
    split at hstep
    · cases hstep
    · exact h.cancelLocked (Option.some.inj hstep)
  | start =>
    cases hstep
    exact h.congr rfl rfl rfl rfl rfl
  | startNext i => exact h.startNext hstep
  | stop =>
    cases hstep
    exact h.congr rfl rfl rfl rfl rfl
  | stopNext i => exact h.stopNext hstep
  | lock =>
    simp only [TimerScheduler.step] at hstep
    split at hstep
    · cases hstep
      exact h.congr rfl rfl rfl rfl rfl
    · cases hstep
  | run =>
    simp only [TimerScheduler.step] at hstep
    split at hstep
    · exact h.runLocked (Option.some.inj hstep)
    · cases hstep
  | returned =>
    simp only [TimerScheduler.step] at hstep
    split at hstep
    · cases hstep
      exact h.congr rfl rfl rfl rfl rfl
    · cases hstep

/-- Every run is a history that the agenda accepts. -/
theorem exec (h : TimerInv s a) {actions : List (SchedulerAction Fn)}
    {events : List (SchedulerEvent Fn)} (hexec : s.exec actions = some (s', events)) :
    a.Follows (events.filterMap SchedulerEvent.timer?) := by
  induction actions generalizing s a events with
  | nil =>
    cases hexec
    trivial
  | cons action actions ih =>
    obtain ⟨u, event, rest, hstep, hrun, rfl⟩ := exec_cons hexec
    have hcontinues := h.step hstep
    rw [List.filterMap_append]
    match event, hcontinues with
    | none, hinv => exact ih hinv hrun
    | some (.timer e), ⟨haccepts, hinv⟩ => exact ⟨haccepts, ih hinv hrun⟩
    | some .refused, hinv => exact ih hinv hrun
    | some .startCalled, hinv => exact ih hinv hrun
    | some .startReturned, hinv => exact ih hinv hrun
    | some .stopCalled, hinv => exact ih hinv hrun
    | some .stopReturned, hinv => exact ih hinv hrun

end TimerInv

end CquptRaft
