import CquptRaft.Runtime.TimerRuns

/-!
# Starting and stopping the timer scheduler

`Stop` joins the worker before it returns, and `Start` makes a new one. `started_` and the thread
object are all that keeps the two apart, so this is about runs in which no `Start` is called during
a `Stop` and no `Stop` during a `Start`. Several calls of `Stop` may overlap, and so may several
calls of `Start`.
-/

namespace CquptRaft

variable {Fn : Type}

open TimerScheduler Threads

/-- A `Start` that was the one to set `started_`. -/
def StartPhase.won : StartPhase → Bool
  | .called => false
  | _ => true

/-- No `Start` and no `Stop` takes a step. -/
structure Idles (s s' : TimerScheduler Fn) (event : Option (SchedulerEvent Fn)) : Prop where
  started : s'.started = s.started
  starts : s'.starts = s.starts
  stops : s'.stops = s.stops
  worker : s'.worker = .absent ↔ s.worker = .absent
  event : event = none ∨ event = some .refused ∨ ∃ e, event = some (.timer e)

namespace TimerScheduler

variable {s s' : TimerScheduler Fn} {event : Option (SchedulerEvent Fn)}
  {action : SchedulerAction Fn}

theorem runLocked_idles (hworker : s.worker = .locked) (heq : s.runLocked = (s', event)) :
    Idles s s' event := by
  unfold runLocked at heq
  split at heq
  · cases heq
    exact ⟨rfl, rfl, rfl, by simp [hworker], .inl rfl⟩
  split at heq
  · cases heq
    exact ⟨rfl, rfl, rfl, by simp [hworker], .inl rfl⟩
  split at heq
  · cases heq
    exact ⟨rfl, rfl, rfl, .rfl, .inl rfl⟩
  split at heq
  · cases heq
    exact ⟨rfl, rfl, rfl, by simp [hworker], .inl rfl⟩
  simp only at heq
  split at heq <;> cases heq
  · exact ⟨rfl, rfl, rfl, .rfl, .inl rfl⟩
  · exact ⟨rfl, rfl, rfl, by simp [hworker], .inr (.inr ⟨_, rfl⟩)⟩

/-- A step is one of a `Start`, one of a `Stop`, or of neither. -/
theorem step_cases (hstep : s.step action = some (s', event)) :
    Idles s s' event ∨
    (s' = { s with starts := .called :: s.starts } ∧ event = some .startCalled) ∨
    (∃ i, s.startNext i = some (s', event)) ∨
    (s' = { s with stops := .called :: s.stops } ∧ event = some .stopCalled) ∨
    ∃ i, s.stopNext i = some (s', event) := by
  cases action with
  | start =>
    cases hstep
    exact .inr (.inl ⟨rfl, rfl⟩)
  | startNext i => exact .inr (.inr (.inl ⟨i, hstep⟩))
  | stop =>
    cases hstep
    exact .inr (.inr (.inr (.inl ⟨rfl, rfl⟩)))
  | stopNext i => exact .inr (.inr (.inr (.inr ⟨i, hstep⟩)))
  | tick d =>
    cases hstep
    exact .inl ⟨rfl, rfl, rfl, .rfl, .inl rfl⟩
  | scheduleAfter delay fn =>
    cases hstep
    exact .inl ⟨rfl, rfl, rfl, .rfl, .inl rfl⟩
  | fetchId i =>
    simp only [step] at hstep
    split at hstep <;> cases hstep
    exact .inl ⟨rfl, rfl, rfl, .rfl, .inl rfl⟩
  | insert i =>
    simp only [step, scheduleLocked] at hstep
    split at hstep
    · cases hstep
    · split at hstep <;> cases hstep
      · exact .inl ⟨rfl, rfl, rfl, .rfl, .inr (.inl rfl)⟩
      · exact .inl ⟨rfl, rfl, rfl, .rfl, .inr (.inr ⟨_, rfl⟩)⟩
    · cases hstep
  | cancel id =>
    simp only [step, cancelLocked] at hstep
    split at hstep
    · cases hstep
    · split at hstep <;> cases hstep <;> exact .inl ⟨rfl, rfl, rfl, .rfl, .inr (.inr ⟨_, rfl⟩)⟩
  | lock =>
    simp only [step] at hstep
    split at hstep <;> cases hstep
    next hworker => exact .inl ⟨rfl, rfl, rfl, by simp [hworker], .inl rfl⟩
  | run =>
    simp only [step] at hstep
    split at hstep
    · next hworker => exact .inl (runLocked_idles hworker (Option.some.inj hstep))
    · cases hstep
  | returned =>
    simp only [step] at hstep
    split at hstep <;> cases hstep
    next hworker => exact .inl ⟨rfl, rfl, rfl, by simp [hworker], .inl rfl⟩

/-- A step of a `Start` keeps the number of those under way, or it returns. -/
theorem startNext_length {i : Nat} (hstep : s.startNext i = some (s', event)) :
    s'.stops = s.stops ∧
      (event = some .startReturned ∧ s'.starts.length = s.starts.length - 1 ∨
        event = none ∧ s'.starts.length = s.starts.length) := by
  unfold startNext at hstep
  split at hstep
  · next hphase =>
    rw [length_eraseIdx hphase]
    split at hstep <;> cases hstep
    · exact ⟨rfl, .inl ⟨rfl, rfl⟩⟩
    · exact ⟨rfl, .inr ⟨rfl, rfl⟩⟩
  · next hphase =>
    cases hstep
    exact ⟨rfl, .inr ⟨rfl, (length_eraseIdx hphase).symm⟩⟩
  · next hphase _ =>
    cases hstep
    rw [length_eraseIdx hphase]
    exact ⟨rfl, .inl ⟨rfl, rfl⟩⟩
  · cases hstep

theorem stopNext_length {i : Nat} (hstep : s.stopNext i = some (s', event)) :
    s'.starts = s.starts ∧
      (event = some .stopReturned ∧ s'.stops.length = s.stops.length - 1 ∨
        (event = none ∨ event = some (.timer .cleared)) ∧ s'.stops.length = s.stops.length) := by
  unfold stopNext at hstep
  split at hstep
  · next hphase =>
    rw [length_eraseIdx hphase]
    split at hstep <;> cases hstep
    · exact ⟨rfl, .inr ⟨.inl rfl, rfl⟩⟩
    · exact ⟨rfl, .inl ⟨rfl, rfl⟩⟩
  · cases hstep
  · next _ hphase _ =>
    cases hstep
    exact ⟨rfl, .inr ⟨.inl rfl, (length_eraseIdx hphase).symm⟩⟩
  · next hphase _ =>
    cases hstep
    exact ⟨rfl, .inr ⟨.inl rfl, (length_eraseIdx hphase).symm⟩⟩
  · next hphase _ =>
    cases hstep
    exact ⟨rfl, .inr ⟨.inl rfl, (length_eraseIdx hphase).symm⟩⟩
  · cases hstep
  · next _ hphase _ =>
    cases hstep
    exact ⟨rfl, .inr ⟨.inr rfl, (length_eraseIdx hphase).symm⟩⟩
  · next hphase =>
    cases hstep
    rw [length_eraseIdx hphase]
    exact ⟨rfl, .inl ⟨rfl, rfl⟩⟩
  · cases hstep

end TimerScheduler

/-- No `Start` is called while a `Stop` is under way, and no `Stop` while a `Start` is. The numbers
count the calls under way. -/
def Apart (stops starts : Nat) : List (SchedulerEvent Fn) → Prop
  | [] => True
  | .startCalled :: rest => stops = 0 ∧ Apart stops (starts + 1) rest
  | .startReturned :: rest => Apart stops (starts - 1) rest
  | .stopCalled :: rest => starts = 0 ∧ Apart (stops + 1) starts rest
  | .stopReturned :: rest => Apart (stops - 1) starts rest
  | _ :: rest => Apart stops starts rest

instance Apart.decidable : ∀ (stops starts : Nat) (events : List (SchedulerEvent Fn)),
    Decidable (Apart stops starts events)
  | _, _, [] => isTrue trivial
  | stops, starts, .startCalled :: rest =>
    have := Apart.decidable stops (starts + 1) rest
    inferInstanceAs (Decidable (stops = 0 ∧ Apart stops (starts + 1) rest))
  | stops, starts, .startReturned :: rest => Apart.decidable stops (starts - 1) rest
  | stops, starts, .stopCalled :: rest =>
    have := Apart.decidable (stops + 1) starts rest
    inferInstanceAs (Decidable (starts = 0 ∧ Apart (stops + 1) starts rest))
  | stops, starts, .stopReturned :: rest => Apart.decidable (stops - 1) starts rest
  | stops, starts, .refused :: rest => Apart.decidable stops starts rest
  | stops, starts, .timer _ :: rest => Apart.decidable stops starts rest

/-- Who may run when `Start` and `Stop` keep apart. -/
structure RunningInv (s : TimerScheduler Fn) : Prop where
  worker : s.worker = .absent ∨ s.started = true
  joined : ∀ phase ∈ s.stops, phase = .joined ∨ phase = .cleared → s.worker = .absent
  apart : s.stops = [] ∨ s.starts = []
  won : s.starts.countP StartPhase.won ≤ 1
  starting : ∀ phase ∈ s.starts, phase.won = true → s.worker = .absent ∧ s.started = true

namespace RunningInv

variable {s s' : TimerScheduler Fn} {event : Option (SchedulerEvent Fn)}

theorem init : RunningInv ({} : TimerScheduler Fn) := by constructor <;> simp

theorem idles (h : RunningInv s) (hidles : Idles s s' event) : RunningInv s' where
  worker := by rw [hidles.worker, hidles.started]; exact h.worker
  joined := by rw [hidles.stops, hidles.worker]; exact h.joined
  apart := by rw [hidles.stops, hidles.starts]; exact h.apart
  won := by rw [hidles.starts]; exact h.won
  starting := by rw [hidles.starts, hidles.worker, hidles.started]; exact h.starting

theorem startNext (h : RunningInv s) {i : Nat} (hstep : s.startNext i = some (s', event)) :
    RunningInv s' := by
  have hsub : (s.starts.eraseIdx i).Sublist s.starts := List.eraseIdx_sublist _ _
  unfold TimerScheduler.startNext at hstep
  split at hstep
  · next hphase =>
    have hstarts : s.starts ≠ [] := by rintro hnil; simp [hnil] at hphase
    have hstops : s.stops = [] := h.apart.resolve_right hstarts
    split at hstep <;> cases hstep
    · exact
        { worker := h.worker
          joined := h.joined
          apart := .inl hstops
          won := (hsub.countP_le).trans h.won
          starting := fun phase hmem => h.starting phase (hsub.subset hmem) }
    · next hstarted =>
      have habsent : s.worker = .absent := h.worker.resolve_right hstarted
      have hnone : ∀ phase ∈ s.starts, ¬ phase.won = true :=
        fun phase hmem hwon => hstarted (h.starting phase hmem hwon).2
      exact
        { worker := .inl habsent
          joined := h.joined
          apart := .inl hstops
          won := by
            have := List.countP_eq_zero.mpr fun phase hmem => hnone phase (hsub.subset hmem)
            simp [List.countP_cons, this, StartPhase.won]
          starting := fun _ _ _ => ⟨habsent, rfl⟩ }
  · next hphase =>
    cases hstep
    have hperm := perm_cons_eraseIdx hphase
    have hwon : ((StartPhase.swapped :: s.starts.eraseIdx i).countP StartPhase.won) ≤ 1 :=
      (hperm.countP_eq _) ▸ h.won
    have hstarting := h.starting .swapped (hperm.mem_iff.mpr List.mem_cons_self) rfl
    exact
      { worker := h.worker
        joined := h.joined
        apart := .inl (h.apart.resolve_right fun hnil => by simp [hnil] at hphase)
        won := hwon
        starting := fun _ _ _ => hstarting }
  · next hphase _ =>
    cases hstep
    have hperm := perm_cons_eraseIdx hphase
    have hstarting := h.starting .reset (hperm.mem_iff.mpr List.mem_cons_self) rfl
    have hwon : (s.starts.eraseIdx i).countP StartPhase.won = 0 := by
      have hle := h.won
      rw [hperm.countP_eq, List.countP_cons] at hle
      simpa [StartPhase.won] using hle
    have hstops : s.stops = [] := h.apart.resolve_right fun hnil => by simp [hnil] at hphase
    exact
      { worker := .inr hstarting.2
        joined := by simp [hstops]
        apart := .inl hstops
        won := hwon.trans_le (Nat.zero_le 1)
        starting := fun phase hmem hw => absurd hw (List.countP_eq_zero.mp hwon phase hmem) }
  · cases hstep

/-- A `Stop` that goes on: what it may change, and what it must have found. -/
theorem of_stop (h : RunningInv s) (next : List StopPhase) {i : Nat} {phase : StopPhase}
    (hphase : s.stops[i]? = some phase) (hstops : s'.stops = next ++ s.stops.eraseIdx i)
    (hstarts : s'.starts = s.starts) (hstarted : s'.worker = .absent ∨ s'.started = true)
    (hworker : s.worker = .absent → s'.worker = .absent)
    (hnext : ∀ phase ∈ next, phase = .joined ∨ phase = .cleared → s'.worker = .absent) :
    RunningInv s' := by
  have hempty : s.starts = [] := h.apart.resolve_left fun hnil => by simp [hnil] at hphase
  exact
    { worker := hstarted
      joined := by
        intro phase' hmem hlate
        rw [hstops] at hmem
        rcases List.mem_append.mp hmem with hmem | hmem
        · exact hnext phase' hmem hlate
        · exact hworker (h.joined phase' ((List.eraseIdx_sublist _ _).subset hmem) hlate)
      apart := .inr (hstarts.trans hempty)
      won := by simp [hstarts, hempty]
      starting := by simp [hstarts, hempty] }

theorem stopNext (h : RunningInv s) {i : Nat} (hstep : s.stopNext i = some (s', event)) :
    RunningInv s' := by
  unfold TimerScheduler.stopNext at hstep
  split at hstep
  · next hphase =>
    split at hstep <;> cases hstep
    · exact h.of_stop [.loaded] hphase rfl rfl h.worker id (by simp)
    · exact h.of_stop [] hphase rfl rfl h.worker id (by simp)
  · cases hstep
  · next _ hphase _ =>
    cases hstep
    exact h.of_stop [.signalled] hphase rfl rfl h.worker id (by simp)
  · next hphase _ =>
    cases hstep
    exact h.of_stop [.joined] hphase rfl rfl (.inl rfl) (fun _ => rfl) (by simp)
  · next hphase _ =>
    cases hstep
    exact h.of_stop [.joined] hphase rfl rfl (.inl rfl) (fun _ => rfl) (by simp)
  · cases hstep
  · next _ hphase _ =>
    cases hstep
    have habsent := h.joined .joined (List.mem_of_getElem? hphase) (.inl rfl)
    exact h.of_stop [.cleared] hphase rfl rfl h.worker id (by simp [habsent])
  · next hphase =>
    cases hstep
    have habsent := h.joined .cleared (List.mem_of_getElem? hphase) (.inr rfl)
    exact h.of_stop [] hphase rfl rfl (.inl habsent) id (by simp)
  · cases hstep

theorem step (h : RunningInv s) {action : SchedulerAction Fn}
    (hstep : s.step action = some (s', event)) (hstart : event = some .startCalled → s.stops = [])
    (hstop : event = some .stopCalled → s.starts = []) : RunningInv s' := by
  obtain hidles | ⟨rfl, rfl⟩ | ⟨i, hstep⟩ | ⟨rfl, rfl⟩ | ⟨i, hstep⟩ := step_cases hstep
  · exact h.idles hidles
  · exact
      { worker := h.worker
        joined := h.joined
        apart := .inl (hstart rfl)
        won := by simpa [List.countP_cons, StartPhase.won] using h.won
        starting := by
          intro phase hmem hwon
          rcases List.mem_cons.mp hmem with rfl | hmem
          · cases hwon
          · exact h.starting phase hmem hwon }
  · exact h.startNext hstep
  · have hempty := hstop rfl
    exact
      { worker := h.worker
        joined := by
          intro phase hmem hlate
          rcases List.mem_cons.mp hmem with rfl | hmem
          · simp at hlate
          · exact h.joined phase hmem hlate
        apart := .inr hempty
        won := by simp [hempty]
        starting := by simp [hempty] }
  · exact h.stopNext hstep

end RunningInv

namespace Apart

variable {s s' : TimerScheduler Fn} {event : Option (SchedulerEvent Fn)}
  {rest : List (SchedulerEvent Fn)}

theorem idles (hidles : Idles s s' event)
    (h : Apart s.stops.length s.starts.length (event.toList ++ rest)) :
    (event = some .startCalled → s.stops = []) ∧ (event = some .stopCalled → s.starts = []) ∧
      Apart s'.stops.length s'.starts.length rest := by
  rw [hidles.stops, hidles.starts]
  rcases hidles.event with rfl | rfl | ⟨e, rfl⟩ <;> exact ⟨nofun, nofun, h⟩

/-- The numbers of `Apart` are those of the calls that the scheduler has under way. -/
theorem step {action : SchedulerAction Fn} (hstep : s.step action = some (s', event))
    (h : Apart s.stops.length s.starts.length (event.toList ++ rest)) :
    (event = some .startCalled → s.stops = []) ∧ (event = some .stopCalled → s.starts = []) ∧
      Apart s'.stops.length s'.starts.length rest := by
  obtain hidles | ⟨rfl, rfl⟩ | ⟨i, hstep⟩ | ⟨rfl, rfl⟩ | ⟨i, hstep⟩ := step_cases hstep
  · exact idles hidles h
  · exact ⟨fun _ => List.length_eq_zero_iff.mp h.1, nofun, h.2⟩
  · obtain ⟨hstops, ⟨rfl, hlength⟩ | ⟨rfl, hlength⟩⟩ := startNext_length hstep
    · exact ⟨nofun, nofun, by rw [hstops, hlength]; exact h⟩
    · exact ⟨nofun, nofun, by rw [hstops, hlength]; exact h⟩
  · exact ⟨nofun, fun _ => List.length_eq_zero_iff.mp h.1, h.2⟩
  · obtain ⟨hstarts, ⟨rfl, hlength⟩ | ⟨rfl | rfl, hlength⟩⟩ := stopNext_length hstep
    · exact ⟨nofun, nofun, by rw [hstarts, hlength]; exact h⟩
    · exact ⟨nofun, nofun, by rw [hstarts, hlength]; exact h⟩
    · exact ⟨nofun, nofun, by rw [hstarts, hlength]; exact h⟩

end Apart

namespace TimerScheduler

variable {s s' : TimerScheduler Fn} {event : Option (SchedulerEvent Fn)}
  {action : SchedulerAction Fn} {actions : List (SchedulerAction Fn)}
  {e : Agenda.Entry Int Nat Fn} {now : Int}

/-- Only a worker that has the lock takes a function. -/
theorem locked_of_taken (hstep : s.step action = some (s', some (.timer (.taken e now)))) :
    s.worker = .locked := by
  cases action with
  | run =>
    simp only [step] at hstep
    split at hstep
    · assumption
    · cases hstep
  | tick d => cases hstep
  | scheduleAfter delay fn => cases hstep
  | fetchId i =>
    simp only [step] at hstep
    split at hstep <;> cases hstep
  | insert i =>
    simp only [step, scheduleLocked] at hstep
    split at hstep
    · cases hstep
    · split at hstep <;> cases hstep
    · cases hstep
  | cancel id =>
    simp only [step, cancelLocked] at hstep
    split at hstep
    · cases hstep
    · split at hstep <;> cases hstep
  | start => cases hstep
  | startNext i =>
    obtain ⟨-, ⟨hevent, -⟩ | ⟨hevent, -⟩⟩ := startNext_length hstep <;> cases hevent
  | stop => cases hstep
  | stopNext i =>
    obtain ⟨-, ⟨hevent, -⟩ | ⟨hevent | hevent, -⟩⟩ := stopNext_length hstep <;> cases hevent
  | lock =>
    simp only [step] at hstep
    split at hstep <;> cases hstep
  | returned =>
    simp only [step] at hstep
    split at hstep <;> cases hstep

/-- There is no worker, and nobody is about to make one. -/
def Quiet (s : TimerScheduler Fn) : Prop := s.worker = .absent ∧ s.starts = []

theorem stopNext_worker {i : Nat} (hstep : s.stopNext i = some (s', event))
    (h : s.worker = .absent) : s'.worker = .absent := by
  unfold stopNext at hstep
  split at hstep
  · split at hstep <;> cases hstep <;> exact h
  all_goals
    cases hstep <;> first | exact h | rfl

theorem Quiet.step (h : s.Quiet) (hstep : s.step action = some (s', event))
    (hevent : event ≠ some .startCalled) : s'.Quiet := by
  obtain hidles | ⟨rfl, rfl⟩ | ⟨i, hstep⟩ | ⟨rfl, rfl⟩ | ⟨i, hstep⟩ := step_cases hstep
  · exact ⟨hidles.worker.mpr h.1, hidles.starts.trans h.2⟩
  · exact absurd rfl hevent
  · simp [startNext, h.2] at hstep
  · exact h
  · exact ⟨stopNext_worker hstep h.1, (stopNext_length hstep).1.trans h.2⟩

/-- Without a worker nothing is taken before the next `Start`. -/
theorem Quiet.exec (h : s.Quiet) {mid post : List (SchedulerEvent Fn)}
    (hexec : s.exec actions = some (s', mid ++ .timer (.taken e now) :: post)) :
    .startCalled ∈ mid := by
  induction actions generalizing s mid with
  | nil => simp [TimerScheduler.exec] at hexec
  | cons action actions ih =>
    obtain ⟨u, event, rest, hstep, hrun, hevents⟩ := exec_cons hexec
    cases event with
    | none =>
      rw [Option.toList_none, List.nil_append] at hevents
      exact ih (h.step hstep nofun) (hevents ▸ hrun)
    | some event =>
      cases mid with
      | nil =>
        obtain ⟨rfl, rfl⟩ := List.cons.inj hevents
        exact absurd (h.1.symm.trans (locked_of_taken hstep)) nofun
      | cons first mid =>
        obtain ⟨rfl, rfl⟩ := List.cons.inj hevents
        by_cases hstart : first = .startCalled
        · exact hstart ▸ List.mem_cons_self
        · exact List.mem_cons_of_mem _ (ih (h.step hstep (by simpa using hstart)) hrun)

end TimerScheduler

namespace RunningInv

variable {s s' : TimerScheduler Fn} {action : SchedulerAction Fn}
  {actions : List (SchedulerAction Fn)}

/-- A `Stop` returns when the worker was joined, or when there was none. -/
theorem quiet (h : RunningInv s) (hstep : s.step action = some (s', some .stopReturned)) :
    s'.Quiet := by
  obtain hidles | ⟨-, hevent⟩ | ⟨i, hnext⟩ | ⟨-, hevent⟩ | ⟨i, hnext⟩ := step_cases hstep
  · obtain hevent | hevent | ⟨e, hevent⟩ := hidles.event <;> cases hevent
  · cases hevent
  · obtain ⟨-, ⟨hevent, -⟩ | ⟨hevent, -⟩⟩ := startNext_length hnext <;> cases hevent
  · cases hevent
  · have hstarts : s.stops ≠ [] → s'.starts = [] := fun hne =>
      (stopNext_length hnext).1.trans (h.apart.resolve_left hne)
    have habsent : s.stops ≠ [] ∧ s.worker = .absent := by
      unfold TimerScheduler.stopNext at hnext
      split at hnext
      · next hphase =>
        split at hnext
        · cases hnext
        · next hstarted =>
          exact ⟨List.ne_nil_of_mem (List.mem_of_getElem? hphase), h.worker.resolve_right hstarted⟩
      · cases hnext
      · cases hnext
      · cases hnext
      · cases hnext
      · cases hnext
      · cases hnext
      · next hphase =>
        have hmem := List.mem_of_getElem? hphase
        exact ⟨List.ne_nil_of_mem hmem, h.joined _ hmem (.inr rfl)⟩
      · cases hnext
    exact ⟨stopNext_worker hnext habsent.2, hstarts habsent.1⟩

/-- Behind a `Stop` that has returned nothing is taken before the next `Start`. -/
theorem exec (h : RunningInv s) {pre mid post : List (SchedulerEvent Fn)}
    {e : Agenda.Entry Int Nat Fn} {now : Int}
    (hexec : s.exec actions =
      some (s', pre ++ .stopReturned :: (mid ++ .timer (.taken e now) :: post)))
    (hapart : Apart s.stops.length s.starts.length
      (pre ++ .stopReturned :: (mid ++ .timer (.taken e now) :: post))) :
    .startCalled ∈ mid := by
  induction actions generalizing s pre with
  | nil => simp [TimerScheduler.exec] at hexec
  | cons action actions ih =>
    obtain ⟨u, event, rest, hstep, hrun, hevents⟩ := exec_cons hexec
    obtain ⟨hstart, hstop, hrest⟩ := Apart.step hstep (hevents ▸ hapart)
    cases event with
    | none =>
      rw [Option.toList_none, List.nil_append] at hevents
      subst hevents
      exact ih (h.step hstep hstart hstop) hrun hrest
    | some event =>
      cases pre with
      | nil =>
        obtain ⟨rfl, rfl⟩ := List.cons.inj hevents
        exact (h.quiet hstep).exec hrun
      | cons first pre =>
        obtain ⟨rfl, rfl⟩ := List.cons.inj hevents
        exact ih (h.step hstep hstart hstop) hrun hrest

end RunningInv

/-- Any number of threads call `ScheduleAfter`, `Cancel`, `Start` and `Stop`, and `Run` goes on
between them. Every call of `ScheduleAfter` has an id of its own and what was put down under it is
taken at most once. An id that a `Cancel` answered with true is never taken, and a `Cancel` behind
the taking answers false. What is taken was put down and not yet taken, cancelled or cleared, its
deadline has passed, and nothing pending comes before it. When no `Start` is called during a `Stop`
and no `Stop` during a `Start`, nothing is taken between the return of a `Stop` and the next
`Start`. -/
theorem timerScheduler_exec {actions : List (SchedulerAction Fn)} {s : TimerScheduler Fn}
    {events : List (SchedulerEvent Fn)}
    (h : ({} : TimerScheduler Fn).exec actions = some (s, events)) :
    let timers := events.filterMap SchedulerEvent.timer?
    (timers.filterMap Agenda.scheduledId).Nodup ∧
    (timers.filterMap Agenda.takenId).Nodup ∧
    (∀ id, .cancelled id true ∈ timers → ∀ e now, .taken e now ∈ timers → e.id ≠ id) ∧
    (∀ pre e now post, timers = pre ++ .taken e now :: post →
      ∀ answer, .cancelled e.id answer ∈ post → answer = false) ∧
    (∀ pre e now post, timers = pre ++ .taken e now :: post →
      e ∈ (Agenda.after pre).pending ∧ e.deadline ≤ now ∧
        ∀ u ∈ (Agenda.after pre).pending, ¬ u.Before e) ∧
    (Apart 0 0 events → ∀ pre mid e now post,
      events = pre ++ .stopReturned :: (mid ++ .timer (.taken e now) :: post) →
        .startCalled ∈ mid) := by
  have hfollows : Agenda.empty.Follows (events.filterMap SchedulerEvent.timer?) :=
    TimerInv.init.exec h
  refine ⟨hfollows.nodup_scheduledIds, hfollows.nodup_takenIds .empty, ?_, ?_, ?_, ?_⟩
  · intro id hcancelled e now htaken
    exact hfollows.not_taken_of_cancelled .empty hcancelled e now htaken
  · intro pre e now post hsplit answer hcancelled
    rw [hsplit] at hfollows
    exact hfollows.cancelled_after_taken .empty hcancelled
  · intro pre e now post hsplit
    rw [hsplit] at hfollows
    exact (hfollows.at .empty).2.1
  · intro hapart pre mid e now post hsplit
    subst hsplit
    exact RunningInv.init.exec h hapart

/-- Two timers, the one that is due first under the higher id. The other one is cancelled. -/
def twoTimers : List (SchedulerAction Char) :=
  [.start, .startNext 0, .startNext 0, .scheduleAfter 5 'a', .scheduleAfter 3 'b', .startNext 0,
    .fetchId 1, .fetchId 1, .insert 0, .lock, .run, .insert 0, .lock, .tick 3, .run, .cancel 2,
    .cancel 1, .returned, .lock, .run, .run, .stop, .stopNext 0, .stopNext 0, .lock, .run,
    .stopNext 0, .stopNext 0, .stopNext 0]

theorem timerScheduler_exec_twoTimers :
    ∃ s events, ({} : TimerScheduler Char).exec twoTimers = some (s, events) ∧
      .timer (.taken ⟨3, 2, 'b'⟩ 3) ∈ events ∧ .timer (.cancelled 1 true) ∈ events ∧
      .stopReturned ∈ events ∧ Apart 0 0 events ∧
      (∀ e now, .taken e now ∈ events.filterMap SchedulerEvent.timer? → e.id ≠ 1) ∧
      ∀ pre mid e now post,
        events = pre ++ .stopReturned :: (mid ++ .timer (.taken e now) :: post) →
          .startCalled ∈ mid := by
  have hrun : ∃ events, (({} : TimerScheduler Char).exec twoTimers).map Prod.snd = some events ∧
      .timer (.taken ⟨3, 2, 'b'⟩ 3) ∈ events ∧ .timer (.cancelled 1 true) ∈ events ∧
      .stopReturned ∈ events ∧ Apart 0 0 events := ⟨_, rfl, by decide⟩
  obtain ⟨events, hevents, htaken, hcancelled, hstopped, hapart⟩ := hrun
  obtain ⟨⟨s, events⟩, hexec, rfl⟩ := Option.map_eq_some_iff.mp hevents
  obtain ⟨-, -, hnever, -, -, hquiet⟩ := timerScheduler_exec hexec
  refine ⟨s, _, hexec, htaken, hcancelled, hstopped, hapart, hnever 1 ?_, hquiet hapart⟩
  exact List.mem_filterMap.mpr ⟨_, hcancelled, rfl⟩

end CquptRaft
