import CquptRaft.Node.Timers

/-!
# Nodes stay awake

Every timer of a node is scheduled once and then again by its own callback, or by the section that
takes it over. As long as `Start` is not called on a node that stopped as a leader, a running node
always has a timer that brings it to an election, or to the next round of heartbeats.
-/

namespace CquptRaft

variable {Image : Type}

/-! ## What a node relies on -/

/-- The function that a callback runs. -/
def Callback.fn : Callback → TimerFn
  | .fired fn => fn
  | .electing timerGeneration => .election timerGeneration
  | .beating => .heartbeat

namespace NodeTimers

variable {s s' : NodeTimers} {fn : TimerFn}

/-- The function is scheduled, or a callback of it is under way. -/
def Alive (s : NodeTimers) (fn : TimerFn) : Prop :=
  s.timers.Armed fn ∨ ∃ callback ∈ s.callbacks, callback.fn = fn

/-- The node relies on the function. -/
def ReliesOn (s : NodeTimers) : TimerFn → Prop
  | .election timerGeneration => s.lifecycle = .up ∧ s.node.role ≠ .leader ∧
    timerGeneration = s.timers.electionTimerGeneration
  | .heartbeat => (s.lifecycle = .serving ∨ s.lifecycle = .up) ∧ s.node.role = .leader
  | .snapshot => s.lifecycle = .up ∧ s.timers.snapshotting = true

structure TimersInv (s : NodeTimers) : Prop where
  owned : s.timers.Owned
  generation : s.timers.electionTimerGeneration = s.node.electionTimerGeneration
  running : s.lifecycle = .serving ∨ s.lifecycle = .up →
    s.node.running = true ∧ s.timers.accepts = true
  alive : ∀ fn, s.ReliesOn fn → s.Alive fn

theorem ReliesOn.lifecycle (h : s.ReliesOn fn) : s.lifecycle = .serving ∨ s.lifecycle = .up := by
  cases fn with
  | election g => exact .inr h.1
  | heartbeat => exact h.1
  | snapshot => exact .inr h.1

theorem TimersInv.init (node : RaftNode) (snapshotting : Bool) :
    TimersInv (init node snapshotting) where
  owned := ⟨Nat.one_pos, by simp [NodeTimers.init], by simp [NodeTimers.init],
    by simp [NodeTimers.init]⟩
  generation := rfl
  running := by simp [NodeTimers.init]
  alive fn h := by
    have hlifecycle := h.lifecycle
    simp [NodeTimers.init] at hlifecycle

/-- Without `running_` there is nothing to rely on. -/
theorem TimersInv.of_stopped (howned : s.timers.Owned)
    (hgen : s.timers.electionTimerGeneration = s.node.electionTimerGeneration)
    (hlife : ¬ (s.lifecycle = .serving ∨ s.lifecycle = .up)) : TimersInv s :=
  ⟨howned, hgen, fun h => absurd h hlife, fun _ h => absurd h.lifecycle hlife⟩

theorem Alive.mono (h : s.Alive fn) (hcallbacks : s'.callbacks = s.callbacks)
    (harmed : s.timers.Armed fn → s'.timers.Armed fn) : s'.Alive fn := by
  rcases h with h | h
  · exact .inl (harmed h)
  · exact .inr (hcallbacks ▸ h)

/-- Timers that a section leaves behind. A running node gets an election timer unless it leads, and
keeps its heartbeat timer, or gets one, when it leads. -/
theorem TimersInv.of_timers {node : RaftNode} {t : Timers} (h : TimersInv s) (howned : t.Owned)
    (hgen : t.electionTimerGeneration = node.electionTimerGeneration)
    (hrunning : node.running = s.node.running) (haccepts : t.accepts = s.timers.accepts)
    (hsnapshotting : t.snapshotting = s.timers.snapshotting)
    (helection : node.running = true → s.timers.accepts = true → node.role ≠ .leader →
      t.Armed (.election t.electionTimerGeneration))
    (hheartbeat : s.timers.accepts = true → node.role = .leader → t.Armed .heartbeat ∨
      s.node.role = .leader ∧ (s.timers.Armed .heartbeat → t.Armed .heartbeat))
    (hsnapshot : s.timers.Armed .snapshot → t.Armed .snapshot) :
    TimersInv { s with node, timers := t } where
  owned := howned
  generation := hgen
  running hlife := by
    obtain ⟨hr, ha⟩ := h.running hlife
    exact ⟨hrunning.trans hr, haccepts.trans ha⟩
  alive fn hfn := by
    obtain ⟨hr, ha⟩ := h.running hfn.lifecycle
    cases fn with
    | election g =>
      obtain ⟨-, hrole, rfl⟩ := hfn
      exact .inl (helection (hrunning.trans hr) ha hrole)
    | heartbeat =>
      obtain ⟨hlife, hrole⟩ := hfn
      rcases hheartbeat ha hrole with harmed | ⟨hold, hkept⟩
      · exact .inl harmed
      · exact (h.alive .heartbeat ⟨hlife, hold⟩).mono rfl hkept
    | snapshot =>
      obtain ⟨hlife, hsnap⟩ := hfn
      exact (h.alive .snapshot ⟨hlife, hsnapshotting ▸ hsnap⟩).mono rfl hsnapshot

/-- The section ends with a new election timer. -/
theorem TimersInv.of_reset {node : RaftNode} {t : Timers} (h : TimersInv s) (howned : t.Owned)
    (hgen : t.electionTimerGeneration + 1 = node.electionTimerGeneration)
    (hrunning : node.running = s.node.running) (haccepts : t.accepts = s.timers.accepts)
    (hsnapshotting : t.snapshotting = s.timers.snapshotting)
    (hheartbeat : node.role = .leader →
      s.node.role = .leader ∧ (s.timers.Armed .heartbeat → t.Armed .heartbeat))
    (hsnapshot : s.timers.Armed .snapshot → t.Armed .snapshot) :
    TimersInv { s with node, timers := t.resetElectionTimerLocked node } := by
  have hreset := t.frame_resetElectionTimerLocked node
  refine h.of_timers (hreset.owned howned) ((t.resetElectionTimerLocked_generation node).trans hgen)
    hrunning (hreset.accepts.trans haccepts) (hreset.snapshotting.trans hsnapshotting) ?_ ?_ ?_
  · intro hr ha hl
    exact Timers.armed_resetElectionTimerLocked (haccepts.trans ha) hr hl
  · intro _ hl
    obtain ⟨hold, hkept⟩ := hheartbeat hl
    exact .inr ⟨hold, fun harmed => hreset.armed howned .heartbeat TimerKind.noConfusion
      (hkept harmed)⟩
  · exact fun harmed => hreset.armed howned .snapshot TimerKind.noConfusion (hsnapshot harmed)

theorem TimersInv.runSection {node : RaftNode} {ops : List TimerOp} (h : TimersInv s)
    (hrunning : node.running = s.node.running) (htreats : s.node.Treats node ops) :
    TimersInv (s.runSection node ops) := by
  have hcancel := s.timers.frame_cancelTimer .heartbeat
  have hown := hcancel.owned h.owned
  have hsnapshot := hcancel.armed h.owned .snapshot TimerKind.noConfusion
  cases htreats with
  | nothing hrole hgen =>
    refine ⟨h.owned, h.generation.trans hgen.symm, fun hlife => ?_, fun fn hfn => ?_⟩
    · exact ⟨hrunning.trans (h.running hlife).1, (h.running hlife).2⟩
    · refine h.alive fn ?_
      cases fn with
      | election g => exact ⟨hfn.1, fun hl => hfn.2.1 (hrole.mpr hl), hfn.2.2⟩
      | heartbeat => exact ⟨hfn.1, hrole.mp hfn.2⟩
      | snapshot => exact hfn
  | waits hrole hgen =>
    exact h.of_reset h.owned (by rw [hgen, h.generation]) hrunning rfl rfl
      (fun hl => ⟨hrole.mp hl, id⟩) id
  | follows hrole hgen =>
    exact h.of_reset hown (hgen.trans (by rw [← h.generation]; rfl)).symm hrunning hcancel.accepts
      hcancel.snapshotting (fun hl => Role.noConfusion (hrole.symm.trans hl)) hsnapshot
  | votes hrole hgen =>
    have hreset := (s.timers.cancelTimer .heartbeat).frame_resetElectionTimerLocked node
    have hresetGen := (s.timers.cancelTimer .heartbeat).resetElectionTimerLocked_generation node
    refine h.of_reset (t := (s.timers.cancelTimer .heartbeat).resetElectionTimerLocked node)
      (hreset.owned hown) ?_ hrunning (hreset.accepts.trans hcancel.accepts)
      (hreset.snapshotting.trans hcancel.snapshotting)
      (fun hl => Role.noConfusion (hrole.symm.trans hl)) ?_
    · rw [hresetGen, hgen, ← h.generation]
      rfl
    · exact fun harmed => hreset.armed hown .snapshot TimerKind.noConfusion (hsnapshot harmed)
  | leads hrole hgen =>
    have hcancel := s.timers.frame_cancelElectionTimerLocked
    have hown := hcancel.owned h.owned
    have hreset := s.timers.cancelElectionTimerLocked.frame_resetHeartbeatTimerLocked node
    refine h.of_timers (t := s.timers.cancelElectionTimerLocked.resetHeartbeatTimerLocked node)
      (hreset.owned hown) ?_ hrunning (hreset.accepts.trans hcancel.accepts)
      (hreset.snapshotting.trans hcancel.snapshotting) ?_ ?_ ?_
    · rw [Timers.resetHeartbeatTimerLocked_generation, hgen, ← h.generation]
      rfl
    · exact fun _ _ hl => absurd hrole hl
    · exact fun ha hl => .inl (Timers.armed_resetHeartbeatTimerLocked (hcancel.accepts.trans ha) hl)
    · exact fun harmed => hreset.armed hown .snapshot TimerKind.noConfusion
        (hcancel.armed h.owned .snapshot TimerKind.noConfusion harmed)

/-! ## Callbacks -/

/-- A callback that is done with is not missed when the function is scheduled again, or not relied
on. -/
theorem TimersInv.erase {k : Nat} {callback : Callback} (h : TimersInv s)
    (hk : s.callbacks[k]? = some callback)
    (hfn : s.ReliesOn callback.fn → s.timers.Armed callback.fn) :
    TimersInv { s with callbacks := s.callbacks.eraseIdx k } where
  owned := h.owned
  generation := h.generation
  running := h.running
  alive fn hrelies := by
    rcases h.alive fn hrelies with harmed | ⟨other, hmem, rfl⟩
    · exact .inl harmed
    · by_cases hsame : other.fn = callback.fn
      · rw [hsame] at hrelies ⊢
        exact .inl (hfn hrelies)
      · refine .inr ⟨other, List.mem_eraseIdx_iff_getElem?.mpr ?_, rfl⟩
        obtain ⟨j, hj⟩ := List.mem_iff_getElem?.mp hmem
        refine ⟨j, fun hjk => hsame ?_, hj⟩
        rw [hjk, hk] at hj
        rw [Option.some.inj hj]

/-- A callback that goes on is one of the same function. -/
theorem TimersInv.set {k : Nat} {callback next : Callback} (h : TimersInv s)
    (hk : s.callbacks[k]? = some callback) (hfn : next.fn = callback.fn) :
    TimersInv { s with callbacks := s.callbacks.set k next } where
  owned := h.owned
  generation := h.generation
  running := h.running
  alive fn hrelies := by
    obtain ⟨hlt, hget⟩ := List.getElem?_eq_some_iff.mp hk
    rcases h.alive fn hrelies with harmed | ⟨other, hmem, rfl⟩
    · exact .inl harmed
    · by_cases hsame : other.fn = callback.fn
      · exact .inr ⟨next, List.mem_set hlt next, hfn.trans hsame.symm⟩
      · refine .inr ⟨other, ?_, rfl⟩
        obtain ⟨j, hj⟩ := List.mem_iff_getElem?.mp hmem
        refine List.mem_iff_getElem?.mpr ⟨j, ?_⟩
        rw [List.getElem?_set_ne ?_, hj]
        rintro rfl
        rw [hk] at hj
        exact hsame (by rw [Option.some.inj hj])

theorem TimersInv.take {k : Nat} {id : Nat} {fn : TimerFn} (h : TimersInv s)
    (hk : s.timers.pending[k]? = some (id, fn)) :
    TimersInv { s with
      timers := { s.timers with pending := s.timers.pending.eraseIdx k }
      callbacks := s.callbacks ++ [.fired fn] } where
  owned :=
    have hsub := (List.eraseIdx_sublist s.timers.pending k).subset
    ⟨h.owned.positive, fun e he => h.owned.fresh e (hsub he), h.owned.known,
      fun e he => h.owned.kind e (hsub he)⟩
  generation := h.generation
  running := h.running
  alive fn' hrelies := by
    have hbefore : s.ReliesOn fn' := by cases fn' <;> exact hrelies
    rcases h.alive fn' hbefore with ⟨id', hmem⟩ | ⟨callback, hmem, hfn⟩
    · by_cases hsame : fn' = fn
      · exact .inr ⟨.fired fn, by simp, hsame.symm⟩
      · refine .inl ⟨id', List.mem_eraseIdx_iff_getElem?.mpr ?_⟩
        obtain ⟨j, hj⟩ := List.mem_iff_getElem?.mp hmem
        refine ⟨j, fun hjk => hsame ?_, hj⟩
        rw [hjk, hk] at hj
        exact (Prod.mk.inj (Option.some.inj hj)).2.symm
    · exact .inr ⟨callback, List.mem_append_left _ hmem, hfn⟩

theorem TimersInv.resetSnapshot (h : TimersInv s) :
    TimersInv { s with timers := s.timers.resetSnapshotTimerLocked } := by
  have hreset := s.timers.frame_resetSnapshotTimerLocked
  have hgen := s.timers.resetSnapshotTimerLocked_generation
  refine ⟨hreset.owned h.owned, hgen.trans h.generation, fun hlife => ?_, fun fn hfn => ?_⟩
  · exact ⟨(h.running hlife).1, hreset.accepts.trans (h.running hlife).2⟩
  · cases fn with
    | election g =>
      refine (h.alive (.election g) ⟨hfn.1, hfn.2.1, hfn.2.2.trans hgen⟩).mono rfl ?_
      exact hreset.armed h.owned _ TimerKind.noConfusion
    | heartbeat =>
      refine (h.alive .heartbeat hfn).mono rfl ?_
      exact hreset.armed h.owned _ TimerKind.noConfusion
    | snapshot =>
      refine .inl (Timers.armed_resetSnapshotTimerLocked (h.running (.inr hfn.1)).2 ?_)
      exact hreset.snapshotting.symm.trans hfn.2

/-- The next section of a callback schedules its function again before the callback is done with. -/
theorem TimersInv.runCallback {k : Nat} {callback : Callback} (h : TimersInv s)
    (hk : s.callbacks[k]? = some callback) (saved : Bool) :
    match s.runCallback saved callback with
    | (s', some next) => TimersInv { s' with callbacks := s.callbacks.set k next }
    | (s', none) => TimersInv { s' with callbacks := s.callbacks.eraseIdx k } := by
  cases callback with
  | fired fn =>
    cases fn with
    | election g =>
      simp only [NodeTimers.runCallback]
      split <;> rename_i heq
      · split at heq
        · cases heq
        · cases heq
          have hnone : TimersInv { s with timers :=
              { s.timers with timerId := Function.update s.timers.timerId .election none } } := by
            refine ⟨⟨h.owned.positive, h.owned.fresh, fun kind id hid => ?_,
              fun e he kind hid => ?_⟩, h.generation, h.running, fun fn hfn => ?_⟩
            · simp only [Function.update_apply] at hid
              split at hid
              · cases hid
              · exact h.owned.known kind id hid
            · simp only [Function.update_apply] at hid
              split at hid
              · cases hid
              · exact h.owned.kind e he kind hid
            · exact h.alive fn (by cases fn <;> exact hfn)
          exact hnone.set hk rfl
      · split at heq
        · rename_i hgives
          cases heq
          refine h.erase hk fun hrelies => ?_
          obtain ⟨hup, hrole, hg⟩ := hrelies
          have hr := (h.running (.inr hup)).1
          simp [hr, hrole, hg] at hgives
        · cases heq
    | heartbeat =>
      simp only [NodeTimers.runCallback]
      split <;> rename_i heq <;> split at heq <;> cases heq
      · exact h.set hk rfl
      · have hsent : TimersInv { s with heartbeats := s.heartbeats + 1 } :=
          ⟨h.owned, h.generation, h.running, fun fn hfn => h.alive fn (by cases fn <;> exact hfn)⟩
        exact hsent.set hk rfl
    | snapshot =>
      simp only [NodeTimers.runCallback]
      split <;> rename_i heq <;> split at heq <;> cases heq
      · rename_i hstopped
        refine h.erase hk fun hrelies => ?_
        have hr := (h.running (.inr hrelies.1)).1
        simp [hr] at hstopped
      · have hreset := h.resetSnapshot
        have hchecked : TimersInv { s with
            timers := s.timers.resetSnapshotTimerLocked
            snapshotChecks := s.snapshotChecks + 1 } :=
          ⟨hreset.owned, hreset.generation, hreset.running,
            fun fn hfn => hreset.alive fn (by cases fn <;> exact hfn)⟩
        refine hchecked.erase hk fun hrelies => ?_
        refine Timers.armed_resetSnapshotTimerLocked (h.running (.inr hrelies.1)).2 ?_
        exact s.timers.frame_resetSnapshotTimerLocked.snapshotting.symm.trans hrelies.2
  | electing g =>
    obtain ⟨hrunning, htreats⟩ := s.node.startElection_treats saved
    refine (h.runSection hrunning htreats).erase hk fun hrelies => ?_
    obtain ⟨hup, hrole, rfl⟩ := hrelies
    obtain ⟨hr, ha⟩ := h.running (.inr hup)
    by_cases hl : s.node.role = .leader
    · refine absurd ?_ hrole
      simp [NodeTimers.runSection, RaftNode.startElection, hl]
    · have hops : (.startElection saved : Call Unit).timerOps s.node = [.resetElection] := by
        simp [Call.timerOps, hr, hl]
      simp only [hops]
      exact Timers.armed_resetElectionTimerLocked ha (hrunning.trans hr) hrole
  | beating =>
    simp only [NodeTimers.runCallback]
    split <;> rename_i heq <;> split at heq <;> cases heq
    · rename_i hleads
      have hreset := s.timers.frame_resetHeartbeatTimerLocked s.node
      have harmed : TimersInv (s.runSection s.node [.resetHeartbeat]) := by
        refine h.of_timers (t := s.timers.resetHeartbeatTimerLocked s.node)
          (hreset.owned h.owned) ?_ rfl hreset.accepts hreset.snapshotting ?_ ?_ ?_
        · exact (s.timers.resetHeartbeatTimerLocked_generation s.node).trans h.generation
        · exact fun _ _ hl => absurd hleads.2 hl
        · exact fun ha hl => .inl (Timers.armed_resetHeartbeatTimerLocked ha hl)
        · exact hreset.armed h.owned .snapshot TimerKind.noConfusion
      refine harmed.erase hk fun hrelies => ?_
      exact Timers.armed_resetHeartbeatTimerLocked (h.running hrelies.1).2 hleads.2
    · rename_i hidle
      refine h.erase hk fun hrelies => ?_
      exact absurd ⟨(h.running hrelies.1).1, hrelies.2⟩ hidle

/-! ## Every run -/

/-- A node that stopped as a leader is not started again. -/
def Allowed (s : NodeTimers) : NodeEvent Image → Prop
  | .start => s.node.role ≠ .leader
  | _ => True

variable (Image) in
def StepWhen (allowed : NodeTimers → NodeEvent Image → Prop) (s s' : NodeTimers) : Prop :=
  ∃ event, allowed s event ∧ s.step event = some s'

theorem TimersInv.step {event : NodeEvent Image} (h : TimersInv s) (hallowed : s.Allowed event)
    (hstep : s.step event = some s') : TimersInv s' := by
  cases event with
  | start =>
    simp only [NodeTimers.step] at hstep
    split at hstep <;> cases hstep
    refine ⟨⟨h.owned.positive, h.owned.fresh, h.owned.known, h.owned.kind⟩, h.generation,
      fun _ => ⟨rfl, rfl⟩, fun fn hfn => ?_⟩
    cases fn with
    | election g => cases hfn.1
    | heartbeat => exact absurd hfn.2 hallowed
    | snapshot => cases hfn.1
  | startSection =>
    simp only [NodeTimers.step] at hstep
    split at hstep <;> cases hstep
    rename_i hserving
    obtain ⟨hr, ha⟩ := h.running (.inl hserving)
    have hreset := s.timers.frame_resetElectionTimerLocked s.node.resetElectionTimerLocked
    have hgen := s.timers.resetElectionTimerLocked_generation s.node.resetElectionTimerLocked
    have hown := hreset.owned h.owned
    have haccepts := hreset.accepts.trans ha
    have hsnapshot := (s.timers.resetElectionTimerLocked
      s.node.resetElectionTimerLocked).frame_resetSnapshotTimerLocked
    have hsnapshotGen := (s.timers.resetElectionTimerLocked
      s.node.resetElectionTimerLocked).resetSnapshotTimerLocked_generation
    refine ⟨hsnapshot.owned hown, ?_, fun _ => ⟨hr, hsnapshot.accepts.trans haccepts⟩,
      fun fn hfn => ?_⟩
    · exact hsnapshotGen.trans (hgen.trans (congrArg (· + 1) h.generation))
    · cases fn with
      | election g =>
        obtain ⟨-, hrole, hg⟩ := hfn
        refine .inl (hsnapshot.armed hown _ TimerKind.noConfusion ?_)
        rw [hg.trans hsnapshotGen]
        exact Timers.armed_resetElectionTimerLocked ha hr hrole
      | heartbeat =>
        refine (h.alive .heartbeat ⟨.inl hserving, hfn.2⟩).mono rfl fun harmed => ?_
        exact hsnapshot.armed hown _ TimerKind.noConfusion
          (hreset.armed h.owned _ TimerKind.noConfusion harmed)
      | snapshot =>
        refine .inl (Timers.armed_resetSnapshotTimerLocked haccepts ?_)
        exact hsnapshot.snapshotting.symm.trans hfn.2
  | startFailed | stop =>
    simp only [NodeTimers.step] at hstep
    split at hstep <;> cases hstep
    exact .of_stopped h.owned h.generation (by simp)
  | stopSection =>
    simp only [NodeTimers.step] at hstep
    split at hstep <;> cases hstep
    have hcancelled := s.timers.frame_cancelElectionTimerLocked.owned h.owned
    exact .of_stopped ((hcancelled.cancelTimer .heartbeat).cancelTimer .snapshot)
      (congrArg (· + 1) h.generation) (by simp)
  | stopScheduler =>
    simp only [NodeTimers.step] at hstep
    split at hstep <;> cases hstep
    exact .of_stopped ⟨h.owned.positive, by simp, h.owned.known, by simp⟩ h.generation (by simp)
  | call c =>
    simp only [NodeTimers.step] at hstep
    split at hstep
    · cases hstep
    · rename_i hown
      cases hstep
      obtain ⟨hrunning, htreats⟩ := s.node.call_treats c (by simpa using hown)
      exact h.runSection hrunning htreats
  | take k =>
    simp only [NodeTimers.step] at hstep
    split at hstep <;> cases hstep
    rename_i id fn hk
    exact h.take hk
  | callback k saved =>
    simp only [NodeTimers.step] at hstep
    split at hstep
    · rename_i callback hk
      have hrun := h.runCallback hk saved
      split at hstep <;> rename_i heq <;> rw [heq] at hrun <;> cases hstep <;> exact hrun
    · cases hstep

theorem TimersInv.run {node : RaftNode} {snapshotting : Bool}
    (hrun : Relation.ReflTransGen (StepWhen Image Allowed) (NodeTimers.init node snapshotting) s) :
    TimersInv s := by
  induction hrun with
  | refl => exact .init node snapshotting
  | tail _ hstep ih =>
    obtain ⟨event, hallowed, hstep⟩ := hstep
    exact ih.step hallowed hstep

/-! ## From a timer to what it is for -/

variable (Image) in
/-- Within so many steps of scheduler and callbacks the node gets there, if nothing else happens. -/
def ComesTo (s : NodeTimers) (steps : Nat) (P : NodeTimers → Prop) : Prop :=
  ∃ (own : List (NodeEvent Image)) (s' : NodeTimers), own.length ≤ steps ∧
    (∀ event ∈ own, event.isOwn = true) ∧ s.exec own = some s' ∧ P s'

theorem ComesTo.here {P : NodeTimers → Prop} (h : P s) (steps : Nat) : s.ComesTo Image steps P :=
  ⟨[], s, Nat.zero_le _, by simp, rfl, h⟩

theorem ComesTo.step {steps : Nat} {P : NodeTimers → Prop} {event : NodeEvent Image}
    (hown : event.isOwn = true) (hstep : s.step event = some s') (h : s'.ComesTo Image steps P) :
    s.ComesTo Image (steps + 1) P := by
  obtain ⟨own, s'', hlength, hall, hexec, hP⟩ := h
  refine ⟨event :: own, s'', Nat.succ_le_succ hlength, List.forall_mem_cons.mpr ⟨hown, hall⟩, ?_,
    hP⟩
  rw [exec, hstep]
  exact hexec

theorem ComesTo.mono {steps steps' : Nat} {P : NodeTimers → Prop} (h : s.ComesTo Image steps P)
    (hle : steps ≤ steps') : s.ComesTo Image steps' P := by
  obtain ⟨own, s', hlength, hrest⟩ := h
  exact ⟨own, s', hlength.trans hle, hrest⟩

/-- Taking a timer changes nothing but timers and callbacks. -/
theorem comesTo_of_armed {steps : Nat} {P : NodeTimers → Prop} (h : s.timers.Armed fn)
    (hfired : ∀ pending, { s with
        timers := { s.timers with pending }
        callbacks := s.callbacks ++ [Callback.fired fn] }.ComesTo Image steps P) :
    s.ComesTo Image (steps + 1) P := by
  obtain ⟨id, hmem⟩ := h
  obtain ⟨k, hk⟩ := List.mem_iff_getElem?.mp hmem
  have htake : s.step (.take k : NodeEvent Image) = some { s with
      timers := { s.timers with pending := s.timers.pending.eraseIdx k }
      callbacks := s.callbacks ++ [.fired fn] } := by
    simp only [step, hk]
  exact .step rfl htake (hfired _)

/-- The node campaigns in the next term. -/
def Campaigns (s s' : NodeTimers) : Prop :=
  s'.node.currentTerm = s.node.currentTerm + 1 ∧ s'.node.role = .candidate

theorem campaigns_of_callback (hr : s.node.running = true) (hrole : s.node.role ≠ .leader)
    {callback : Callback} (hmem : callback ∈ s.callbacks)
    (hfn : callback.fn = .election s.timers.electionTimerGeneration) :
    s.ComesTo Image 2 (Campaigns s) := by
  have hstarts : ∀ {s₁ : NodeTimers} {k g : Nat}, s₁.node = s.node →
      s₁.callbacks[k]? = some (.electing g) → s₁.ComesTo Image 1 (Campaigns s) := by
    intro s₁ k g hnode hk
    have hstep : s₁.step (.callback k true : NodeEvent Image) = some
        { s₁.runSection (s₁.node.startElection true).1
            ((.startElection true : Call Unit).timerOps s₁.node) with
          callbacks := s₁.callbacks.eraseIdx k } := by
      simp only [step, hk, runCallback]
    refine .step rfl hstep (.here ?_ 0)
    simp [Campaigns, NodeTimers.runSection, RaftNode.startElection, hnode, hr, hrole,
      RaftNode.resetElectionTimerLocked, RaftNode.cancelElectionTimerLocked]
  obtain ⟨k, hk⟩ := List.mem_iff_getElem?.mp hmem
  cases callback with
  | fired fn =>
    obtain rfl : fn = .election s.timers.electionTimerGeneration := hfn
    have hstep : s.step (.callback k true : NodeEvent Image) = some { s with
        timers := { s.timers with timerId := Function.update s.timers.timerId .election none }
        callbacks := s.callbacks.set k (.electing s.timers.electionTimerGeneration) } := by
      simp [step, hk, runCallback, hr, hrole]
    obtain ⟨hlt, -⟩ := List.getElem?_eq_some_iff.mp hk
    exact .step rfl hstep (hstarts rfl (List.getElem?_set_self hlt))
  | electing g => exact (hstarts rfl hk).mono (by omega)
  | beating => cases hfn

/-- A callback sends another round of heartbeats. -/
def Beats (s s' : NodeTimers) : Prop := s'.heartbeats = s.heartbeats + 1

/-- The snapshot timer asks for a snapshot once more. -/
def Checks (s s' : NodeTimers) : Prop := s'.snapshotChecks = s.snapshotChecks + 1

theorem beats_of_fired (hr : s.node.running = true) (hrole : s.node.role = .leader)
    (hmem : .fired .heartbeat ∈ s.callbacks) :
    s.ComesTo Image 1 (Beats s) := by
  obtain ⟨k, hk⟩ := List.mem_iff_getElem?.mp hmem
  have hstep : s.step (.callback k true : NodeEvent Image) = some { s with
      heartbeats := s.heartbeats + 1, callbacks := s.callbacks.set k .beating } := by
    simp [step, hk, runCallback, hr, hrole]
  exact .step rfl hstep (.here (Eq.refl (s.heartbeats + 1)) 0)

theorem beats_of_armed (hr : s.node.running = true) (hrole : s.node.role = .leader)
    (harmed : s.timers.Armed .heartbeat) :
    s.ComesTo Image 2 (Beats s) :=
  comesTo_of_armed harmed fun _ => beats_of_fired hr hrole (by simp)

theorem TimersInv.beats (h : TimersInv s) (hup : s.lifecycle = .up)
    (hrole : s.node.role = .leader) : s.ComesTo Image 3 (Beats s) := by
  obtain ⟨hr, ha⟩ := h.running (.inr hup)
  rcases h.alive .heartbeat ⟨.inr hup, hrole⟩ with harmed | ⟨callback, hmem, hfn⟩
  · exact (beats_of_armed hr hrole harmed).mono (by omega)
  · cases callback with
    | fired fn =>
      obtain rfl : fn = .heartbeat := hfn
      exact (beats_of_fired hr hrole hmem).mono (by omega)
    | electing g => cases hfn
    | beating =>
      -- the timer is armed again first
      obtain ⟨k, hk⟩ := List.mem_iff_getElem?.mp hmem
      have hstep : s.step (.callback k true : NodeEvent Image) = some
          { s.runSection s.node [.resetHeartbeat] with callbacks := s.callbacks.eraseIdx k } := by
        simp [NodeTimers.step, hk, NodeTimers.runCallback, hr, hrole, NodeTimers.runSection]
      refine .step rfl hstep (beats_of_armed hr hrole ?_)
      exact Timers.armed_resetHeartbeatTimerLocked ha hrole

theorem checks_of_fired (hr : s.node.running = true) (hmem : .fired .snapshot ∈ s.callbacks) :
    s.ComesTo Image 1 (Checks s) := by
  obtain ⟨k, hk⟩ := List.mem_iff_getElem?.mp hmem
  have hstep : s.step (.callback k true : NodeEvent Image) = some { s with
      timers := s.timers.resetSnapshotTimerLocked
      snapshotChecks := s.snapshotChecks + 1
      callbacks := s.callbacks.eraseIdx k } := by
    simp [step, hk, runCallback, hr]
  exact .step rfl hstep (.here (Eq.refl (s.snapshotChecks + 1)) 0)

/-- Whatever sections have run, in whichever order: a node that is up comes to its next election,
when it does not lead, or to its next round of heartbeats, when it leads, by its timers alone, and
in a few steps. So it is with the snapshot timer, when there is one. -/
theorem timers_keep_node_awake {node : RaftNode} {snapshotting : Bool} {s : NodeTimers}
    (hrun : Relation.ReflTransGen (StepWhen Image Allowed) (NodeTimers.init node snapshotting) s)
    (hup : s.lifecycle = .up) :
    (s.node.role ≠ .leader → s.ComesTo Image 3 (Campaigns s)) ∧
      (s.node.role = .leader → s.ComesTo Image 3 (Beats s)) ∧
      (s.timers.snapshotting = true →
        s.ComesTo Image 2 (Checks s)) := by
  have h := TimersInv.run hrun
  obtain ⟨hr, -⟩ := h.running (.inr hup)
  refine ⟨fun hrole => ?_, h.beats hup, fun hsnapshot => ?_⟩
  · rcases h.alive (.election _) ⟨hup, hrole, rfl⟩ with harmed | ⟨callback, hmem, hfn⟩
    · exact comesTo_of_armed harmed fun _ => campaigns_of_callback hr hrole
        (List.mem_append_right _ List.mem_cons_self) rfl
    · exact (campaigns_of_callback hr hrole hmem hfn).mono (by omega)
  · rcases h.alive .snapshot ⟨hup, hsnapshot⟩ with harmed | ⟨callback, hmem, hfn⟩
    · exact comesTo_of_armed harmed fun _ => checks_of_fired hr (by simp)
    · cases callback with
      | fired fn =>
        obtain rfl : fn = .snapshot := hfn
        exact (checks_of_fired hr hmem).mono (by omega)
      | electing g => cases hfn
      | beating => cases hfn

/-- The timer of a new node is taken when a heartbeat comes in, so that its callback gives up. -/
theorem timers_keep_node_awake_three : ∃ s : NodeTimers, s.timers.electionTimerGeneration = 2 ∧
    s.callbacks = [] ∧ s.ComesTo Unit 3 (Campaigns s) := by
  have hrun : Relation.ReflTransGen (StepWhen Unit Allowed)
      (NodeTimers.init (RaftNode.recover 1 [2, 3] none) false) _ :=
    .tail (.tail (.tail (.tail (.tail .refl ⟨.start, Role.noConfusion, rfl⟩)
      ⟨.startSection, trivial, rfl⟩) ⟨.take 0, trivial, rfl⟩)
      ⟨.call (.onAppendEntries ⟨1, 2, 0, 0, [], 0⟩ true true true), trivial, rfl⟩)
      ⟨.callback 0 true, trivial, rfl⟩
  exact ⟨_, rfl, rfl, (timers_keep_node_awake hrun rfl).1 Role.noConfusion⟩

/-! ## A leader that is started again -/

theorem run_of_exec {events : List (NodeEvent Image)} (hexec : s.exec events = some s') :
    Relation.ReflTransGen (StepWhen Image fun _ _ => True) s s' := by
  induction events generalizing s with
  | nil =>
    cases hexec
    exact .refl
  | cons event events ih =>
    obtain ⟨s₁, hstep, hexec⟩ := Option.bind_eq_some_iff.mp hexec
    exact .head ⟨event, trivial, hstep⟩ (ih hexec)

/-- Without a timer and a callback nothing happens by itself. -/
theorem not_comesTo {P : NodeTimers → Prop} (hpending : s.timers.pending = [])
    (hcallbacks : s.callbacks = []) (hP : ¬ P s) (steps : Nat) : ¬ s.ComesTo Image steps P := by
  rintro ⟨own, s', -, hown, hexec, hs'⟩
  cases own with
  | nil =>
    cases hexec
    exact hP hs'
  | cons event own =>
    obtain ⟨hevent, -⟩ := List.forall_mem_cons.mp hown
    obtain ⟨s₁, hstep, -⟩ := Option.bind_eq_some_iff.mp hexec
    cases event with
    | take k => simp [step, hpending] at hstep
    | callback k saved => simp [step, hcallbacks] at hstep
    | _ => cases hevent

/-- The node wins its term, is stopped and started again. -/
def restartSchedule : List (NodeEvent Unit) :=
  [.start, .startSection, .take 0, .callback 0 true, .callback 0 true, .call (.onElectionWon 1),
    .stop, .stopSection, .stopScheduler, .start, .startSection]

/-- The section of `Start` arms no heartbeat timer: a node that is still leader goes on without
heartbeats. -/
theorem restarted_leader_sleeps : ∃ s, Relation.ReflTransGen (StepWhen Unit fun _ _ => True)
    (NodeTimers.init (RaftNode.recover 1 [2, 3] none) false) s ∧ s.lifecycle = .up ∧
      s.node.role = .leader ∧ ∀ steps, ¬ s.ComesTo Unit steps (Beats s) := by
  have hexec : (NodeTimers.init (RaftNode.recover 1 [2, 3] none) false).exec restartSchedule =
      some _ := rfl
  exact ⟨_, run_of_exec hexec, rfl, rfl, fun steps => not_comesTo rfl rfl (by simp [Beats]) steps⟩

end NodeTimers

end CquptRaft
