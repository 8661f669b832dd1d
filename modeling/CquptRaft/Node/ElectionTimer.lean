import CquptRaft.Node.Calls
import Mathlib.Logic.Relation

/-!
# The election timer

Every section that cancels or arms the election timer raises `election_timer_generation_`, and the
callback of a timer gives up when its generation is not the current one. It then leaves the lock,
and `StartElection` takes it again without a second look at the generation: what another thread
does in between goes unnoticed.

`TimerState` is a node with its timers. Its other critical sections are any calls with any
arguments.
-/

namespace CquptRaft

variable {Image : Type}

structure TimerState where
  node : RaftNode
  /-- Generations of the timers that have not fired. A timer stays here when it is cancelled: its
  callback may have left the scheduler by then. -/
  armed : List Nat
  /-- Callbacks behind the check of their generation and in front of `StartElection`. -/
  passed : List Nat

/-- The critical sections of a node, by the thread that runs them. -/
inductive TimerEvent (Image : Type) where
  /-- The section of `Start`. -/
  | start
  | call (c : Call Image)
  /-- The section of `OnElectionTimeout`. -/
  | onElectionTimeout (timerGeneration : Nat)
  /-- The section of `StartElection` behind it. -/
  | startElection (timerGeneration : Nat) (saved : Bool)

def Call.isStartElection : Call Image → Bool
  | .startElection _ => true
  | _ => false

namespace TimerState

/-- The generations behind the old one belong to new timers. Those that were cancelled at once, or
by a cancel alone, are counted too. -/
def moveTo (s : TimerState) (node : RaftNode) : TimerState :=
  { s with
    node
    armed := s.armed ++ List.range' (s.node.electionTimerGeneration + 1)
      (node.electionTimerGeneration - s.node.electionTimerGeneration) }

/-- Only `OnElectionTimeout` calls `StartElection`. -/
def step (s : TimerState) : TimerEvent Image → Option TimerState
  | .start => some (s.moveTo s.node.resetElectionTimerLocked)
  | .call c => if c.isStartElection then none else some (s.moveTo (s.node.call c))
  | .onElectionTimeout timerGeneration =>
    if timerGeneration ∈ s.armed then
      some { s with
        armed := s.armed.erase timerGeneration
        passed :=
          if !s.node.running ∨ timerGeneration ≠ s.node.electionTimerGeneration ∨
              s.node.role = .leader then s.passed
          else timerGeneration :: s.passed }
    else none
  | .startElection timerGeneration saved =>
    if timerGeneration ∈ s.passed then
      some { s.moveTo (s.node.startElection saved).1 with
        passed := s.passed.erase timerGeneration }
    else none

/-- No timer has been armed. -/
def init (node : RaftNode) : TimerState := ⟨node, [], []⟩

variable (Image) in
/-- A section that is allowed where it runs. -/
def StepWhen (allowed : TimerState → TimerEvent Image → Prop) (s s' : TimerState) : Prop :=
  ∃ event, allowed s event ∧ s.step event = some s'

variable (Image) in
/-- Any sections, in any order. -/
abbrev Run : TimerState → TimerState → Prop :=
  Relation.ReflTransGen (StepWhen Image fun _ _ => True)

end TimerState

/-! ## What supersedes a timer -/

/-- The section stops the node, accepts a leader or grants a vote. -/
def Call.Heard (n : RaftNode) : Call Image → Prop
  | .stop => True
  | .onAppendEntries request _ _ _ => n.currentTerm ≤ request.term
  | .installCheck enabled request _ => enabled = true ∧ n.currentTerm ≤ request.term
  | .onRequestVote request termSaved voteSaved =>
    (n.onRequestVote request termSaved voteSaved).2.voteGranted = true
  | _ => False

/-- The node starts or stops, accepts a leader, grants a vote or changes its role or term. -/
def TimerEvent.Supersedes (n : RaftNode) : TimerEvent Image → Prop
  | .start => True
  | .call c => c.Heard n ∨ (n.call c).role ≠ n.role ∨ (n.call c).currentTerm ≠ n.currentTerm
  | .onElectionTimeout _ => False
  | .startElection _ saved =>
    (n.startElection saved).1.role ≠ n.role ∨ (n.startElection saved).1.currentTerm ≠ n.currentTerm

namespace RaftNode

theorem becomeFollowerLocked_generation (n : RaftNode) (newTerm : Nat) (newLeader : NodeId)
    (saved : Bool) : (n.becomeFollowerLocked newTerm newLeader saved).1.electionTimerGeneration =
      n.electionTimerGeneration + 1 := by
  grind [becomeFollowerLocked, resetElectionTimerLocked, cancelElectionTimerLocked,
    persistStateLocked_eq]

theorem acceptLeaderLocked_generation (n : RaftNode) (term : Nat) (leaderId : NodeId)
    (saved : Bool) : (n.acceptLeaderLocked term leaderId saved).1.electionTimerGeneration =
      n.electionTimerGeneration + 1 := by
  have := n.becomeFollowerLocked_generation term leaderId saved
  grind [acceptLeaderLocked, resetElectionTimerLocked, cancelElectionTimerLocked]

theorem appendEntriesBody_generation (n : RaftNode) (request : AppendEntriesRequest)
    (logSaved commitSaved : Bool) :
    (n.appendEntriesBody request logSaved commitSaved).1.electionTimerGeneration =
      n.electionTimerGeneration := by
  have hframe := appendLoop_frame request.entries ⟨n, false, request.prevLogIndex⟩
  unfold appendEntriesBody
  split <;> rename_i heq <;> rw [heq] at hframe <;> grind [persistStateLocked_eq]

/-- A section that supersedes the timer raises the generation, and one that does not leaves it. -/
theorem call_generation (n : RaftNode) (c : Call Image) (hc : c.isStartElection = false) :
    n.electionTimerGeneration ≤ (n.call c).electionTimerGeneration ∧
      ((TimerEvent.call c).Supersedes n ↔
        n.electionTimerGeneration < (n.call c).electionTimerGeneration) := by
  simp only [TimerEvent.Supersedes]
  cases c with
  | startElection saved => cases hc
  | start | persist _ => simp [call, Call.Heard, persistStateLocked_eq]
  | stop => simp [call, Call.Heard, cancelElectionTimerLocked]
  | onRequestVote request termSaved voteSaved =>
    have hraise := n.becomeFollowerLocked_generation request.term (-1) termSaved
    have hterm := n.becomeFollowerLocked_currentTerm request.term (-1) termSaved
    grind [call, Call.Heard, onRequestVote, resetElectionTimerLocked, cancelElectionTimerLocked,
      persistStateLocked_eq]
  | onVoteResponse term response saved =>
    have hraise := n.becomeFollowerLocked_generation response.term (-1) saved
    have hterm := n.becomeFollowerLocked_currentTerm response.term (-1) saved
    grind [call, Call.Heard, onVoteResponse]
  | onElectionWon term =>
    grind [call, Call.Heard, onElectionWon, becomeLeaderLocked, cancelElectionTimerLocked]
  | appendLocalLogUnlocked commandData saved =>
    grind [call, Call.Heard, appendLocalLogUnlocked, persistStateLocked_eq]
  | advanceCommitIndexUnlocked saved =>
    grind [call, Call.Heard, advanceCommitIndexUnlocked, persistStateLocked_eq]
  | buildAppendEntriesRequest peer leaderTerm =>
    grind [call, Call.Heard, buildAppendEntriesRequest]
  | handleAppendEntriesResponse peer leaderTerm response saved =>
    have hraise := n.becomeFollowerLocked_generation response.term (-1) saved
    have hterm := n.becomeFollowerLocked_currentTerm response.term (-1) saved
    grind [call, Call.Heard, handleAppendEntriesResponse, advanceCommitIndexUnlocked,
      persistStateLocked_eq]
  | handleInstallSnapshotResponse peer leaderTerm lastIncludedIndex response saved =>
    have hraise := n.becomeFollowerLocked_generation response.term (-1) saved
    have hterm := n.becomeFollowerLocked_currentTerm response.term (-1) saved
    grind [call, Call.Heard, handleInstallSnapshotResponse]
  | onAppendEntries request termSaved logSaved commitSaved =>
    have haccept := n.acceptLeaderLocked_generation request.term request.leaderId termSaved
    have hbody := (n.acceptLeaderLocked request.term request.leaderId
      termSaved).1.appendEntriesBody_generation request logSaved commitSaved
    grind [call, Call.Heard, onAppendEntries]
  | installCheck enabled request saved =>
    have haccept := n.acceptLeaderLocked_generation request.term request.leaderId saved
    grind [call, Call.Heard, installCheck]
  | installFinish request response saved =>
    grind [call, Call.Heard, installFinish, adoptSnapshotLocked, compactLogPrefixLocked,
      restoreLogAfterSnapshotLocked, persistStateLocked_eq]
  | applyPick => grind [call, Call.Heard, applyPick]
  | applyFinish index saved => grind [call, Call.Heard, applyFinish, persistStateLocked_eq]
  | compactAfterSnapshot index term saved =>
    grind [call, Call.Heard, compactAfterSnapshot, compactLogPrefixLocked,
      restoreLogAfterSnapshotLocked, persistStateLocked_eq]

theorem startElection_generation (n : RaftNode) (saved : Bool) :
    n.electionTimerGeneration ≤ (n.startElection saved).1.electionTimerGeneration ∧
      ((n.startElection saved).1.role ≠ n.role ∨
        (n.startElection saved).1.currentTerm ≠ n.currentTerm →
        n.electionTimerGeneration < (n.startElection saved).1.electionTimerGeneration) := by
  grind [startElection, resetElectionTimerLocked, cancelElectionTimerLocked, persistStateLocked_eq]

end RaftNode

namespace TimerState

variable {s s' : TimerState} {event : TimerEvent Image}

/-- The generation never goes back, and what supersedes the timer raises it. -/
theorem step_generation (h : s.step event = some s') :
    s.node.electionTimerGeneration ≤ s'.node.electionTimerGeneration ∧
      (event.Supersedes s.node →
        s.node.electionTimerGeneration < s'.node.electionTimerGeneration) := by
  cases event with
  | start =>
    cases h
    exact ⟨Nat.le_succ _, fun _ => Nat.lt_succ_self _⟩
  | call c =>
    simp only [step] at h
    split at h
    · cases h
    · rename_i hc
      cases h
      have hgen := s.node.call_generation c (by simpa using hc)
      exact ⟨hgen.1, hgen.2.mp⟩
  | onElectionTimeout g =>
    simp only [step] at h
    split at h <;> cases h
    exact ⟨le_rfl, False.elim⟩
  | startElection g saved =>
    simp only [step] at h
    split at h <;> cases h
    exact s.node.startElection_generation saved

theorem run_generation (h : Run Image s s') :
    s.node.electionTimerGeneration ≤ s'.node.electionTimerGeneration := by
  induction h with
  | refl => exact le_rfl
  | tail _ hstep ih =>
    obtain ⟨event, -, hstep⟩ := hstep
    exact ih.trans (step_generation hstep).1

/-! ## Callbacks between their sections -/

/-- No section that supersedes a timer runs while a callback is behind its check, but the
`StartElection` of a callback itself. -/
def Unhurried (s : TimerState) (event : TimerEvent Image) : Prop :=
  s.passed ≠ [] → event.Supersedes s.node → ∃ g saved, event = .startElection g saved

/-- Every generation has one timer, and a callback behind its check is the one of the current
timer. -/
structure TimerInv (s : TimerState) : Prop where
  nodup : (s.armed ++ s.passed).Nodup
  le : ∀ g ∈ s.armed, g ≤ s.node.electionTimerGeneration
  current : ∀ g ∈ s.passed, g = s.node.electionTimerGeneration

theorem TimerInv.moveTo {node : RaftNode} (h : TimerInv s)
    (hgen : s.node.electionTimerGeneration ≤ node.electionTimerGeneration)
    (hpassed : s.passed = [] ∨
      node.electionTimerGeneration = s.node.electionTimerGeneration) :
    TimerInv (s.moveTo node) := by
  have hnew : ∀ g ∈ List.range' (s.node.electionTimerGeneration + 1)
      (node.electionTimerGeneration - s.node.electionTimerGeneration),
      s.node.electionTimerGeneration < g ∧ g ≤ node.electionTimerGeneration := by
    intro g hg
    rw [List.mem_range'_1] at hg
    omega
  rcases hpassed with hnil | hsame
  · refine ⟨?_, fun g hg => ?_, fun g hg => ?_⟩
    · have hold := h.nodup
      simp only [hnil, List.append_nil, TimerState.moveTo] at hold ⊢
      refine List.nodup_append.mpr ⟨hold, List.nodup_range', fun g hg g' hg' heq => ?_⟩
      have := h.le g hg
      have := (hnew g' hg').1
      omega
    · rcases List.mem_append.mp hg with hg | hg
      · exact (h.le g hg).trans hgen
      · exact (hnew g hg).2
    · simp only [TimerState.moveTo, hnil] at hg
      cases hg
  · have harmed : (s.moveTo node).armed = s.armed := by
      simp [TimerState.moveTo, hsame]
    exact ⟨by rw [harmed]; exact h.nodup, fun g hg => (h.le g (harmed ▸ hg)).trans hgen,
      fun g hg => (h.current g hg).trans hsame.symm⟩

theorem TimerInv.step (h : TimerInv s) (hallowed : Unhurried s event)
    (hstep : s.step event = some s') : TimerInv s' := by
  have hquiet : event.Supersedes s.node → (∀ g saved, event ≠ .startElection g saved) →
      s.passed = [] := by
    intro hsup hno
    by_contra hne
    obtain ⟨g, saved, heq⟩ := hallowed hne hsup
    exact hno g saved heq
  cases event with
  | start =>
    cases hstep
    exact h.moveTo (Nat.le_succ _) (.inl (hquiet trivial (by simp)))
  | call c =>
    simp only [TimerState.step] at hstep
    split at hstep
    · cases hstep
    · rename_i hc
      cases hstep
      have hgen := s.node.call_generation c (by simpa using hc)
      refine h.moveTo hgen.1 ?_
      by_cases hsup : (TimerEvent.call c).Supersedes s.node
      · exact .inl (hquiet hsup (by simp))
      · exact .inr (le_antisymm (not_lt.mp (hgen.2.not.mp hsup)) hgen.1)
  | onElectionTimeout g =>
    simp only [TimerState.step] at hstep
    split at hstep
    · rename_i hg
      cases hstep
      have hsub : (s.armed.erase g).Sublist s.armed := List.erase_sublist
      have hnodup := List.nodup_append.mp h.nodup
      split
      · exact ⟨h.nodup.sublist (hsub.append_right _), fun g' hg' => h.le g' (hsub.subset hg'),
          h.current⟩
      · rename_i hpasses
        simp only [not_or, not_not] at hpasses
        refine ⟨?_, fun g' hg' => h.le g' (hsub.subset hg'), fun g' hg' => ?_⟩
        · refine (List.perm_middle.nodup_iff).mpr ?_
          rw [← List.cons_append]
          exact ((List.perm_cons_erase hg).append_right _).nodup_iff.mp h.nodup
        · rcases List.mem_cons.mp hg' with rfl | hg'
          · exact hpasses.2.1
          · exact h.current g' hg'
    · cases hstep
  | startElection g saved =>
    simp only [TimerState.step] at hstep
    split at hstep
    · rename_i hg
      cases hstep
      -- only this callback is behind its check
      have hnodup := (List.nodup_append.mp h.nodup).2.1
      have hnil : s.passed.erase g = [] := by
        refine List.eq_nil_iff_forall_not_mem.mpr fun g' hg' => ?_
        rw [hnodup.mem_erase_iff] at hg'
        exact hg'.1 ((h.current g' hg'.2).trans (h.current g hg).symm)
      have hbare : TimerInv { s with passed := [] } :=
        ⟨by simpa using (List.nodup_append.mp h.nodup).1, h.le, by simp⟩
      have hmoved := hbare.moveTo (s.node.startElection_generation saved).1 (.inl rfl)
      rw [hnil]
      exact hmoved
    · cases hstep

theorem TimerInv.init (node : RaftNode) : TimerInv (init node) :=
  ⟨List.nodup_nil, by simp [TimerState.init], by simp [TimerState.init]⟩

theorem TimerInv.run {node : RaftNode}
    (hrun : Relation.ReflTransGen (StepWhen Image Unhurried) (TimerState.init node) s) :
    TimerInv s := by
  induction hrun with
  | refl => exact .init node
  | tail _ hstep ih =>
    obtain ⟨event, hallowed, hstep⟩ := hstep
    exact ih.step hallowed hstep

/-- A callback that raises the term is the one of the current timer, and nothing has superseded
that timer since a state that already had its generation. -/
theorem term_raised_by_current_timer {node : RaftNode} {s s' : TimerState}
    (hrun : Relation.ReflTransGen (StepWhen Image Unhurried) (TimerState.init node) s)
    {timerGeneration : Nat} {saved : Bool}
    (hstep : s.step (.startElection timerGeneration saved : TimerEvent Image) = some s') :
    s.node.currentTerm < s'.node.currentTerm →
      s.node.electionTimerGeneration = timerGeneration ∧
      ∀ a x y (event : TimerEvent Image), a.node.electionTimerGeneration = timerGeneration →
        Run Image a x → x.step event = some y → Run Image y s → ¬ event.Supersedes x.node := by
  intro _
  have hmem : timerGeneration ∈ s.passed := by
    simp only [step] at hstep
    split at hstep
    · rename_i hmem
      exact hmem
    · cases hstep
  have hcurrent := (TimerInv.run hrun).current _ hmem
  refine ⟨hcurrent.symm, fun a x y event ha hax hxy hys hsup => ?_⟩
  have hbefore := run_generation hax
  have hup := (step_generation hxy).2 hsup
  have hbehind := run_generation hys
  omega

/-- A follower of term 1 that runs. -/
def runningFollower : RaftNode :=
  { RaftNode.recover 1 [2, 3] none with running := true, currentTerm := 1, leaderId := 2 }

/-- Its timer fires. -/
def expired : TimerState := ⟨runningFollower.resetElectionTimerLocked, [], [1]⟩

theorem run_expired : Relation.ReflTransGen (StepWhen Unit Unhurried)
    (TimerState.init runningFollower) expired := by
  refine .tail (.single ⟨.start, ?_, rfl⟩) ⟨.onElectionTimeout 1, ?_, rfl⟩
  · exact fun hne => absurd rfl hne
  · exact fun _ hsup => hsup.elim

theorem term_raised_by_expired_timer :
    ∃ s', expired.step (.startElection 1 true : TimerEvent Unit) = some s' ∧
      expired.node.currentTerm < s'.node.currentTerm ∧
      expired.node.electionTimerGeneration = 1 ∧
      ∀ a x y (event : TimerEvent Unit), a.node.electionTimerGeneration = 1 →
        Run Unit a x → x.step event = some y → Run Unit y expired → ¬ event.Supersedes x.node := by
  obtain ⟨s', hstep, hraised⟩ : ∃ s', expired.step (.startElection 1 true : TimerEvent Unit) =
      some s' ∧ expired.node.currentTerm < s'.node.currentTerm := ⟨_, rfl, by decide⟩
  exact ⟨s', hstep, hraised, term_raised_by_current_timer run_expired hstep hraised⟩

/-- A heartbeat of the leader, right behind the check of the callback. -/
def heartbeat : AppendEntriesRequest := ⟨1, 2, 0, 0, [], 0⟩

theorem term_raised_by_superseded_timer :
    ∃ s s', Run Unit (TimerState.init runningFollower) s ∧
      s.step (.startElection 1 true : TimerEvent Unit) = some s' ∧
      s.node.currentTerm < s'.node.currentTerm ∧ s.node.electionTimerGeneration ≠ 1 := by
  have hrun : Run Unit (TimerState.init runningFollower) expired :=
    run_expired.lift id fun _ _ ⟨event, _, hstep⟩ => ⟨event, trivial, hstep⟩
  refine ⟨_, _, hrun.tail ⟨.call (.onAppendEntries heartbeat true true true), trivial, rfl⟩, rfl,
    ?_, ?_⟩ <;> decide

end TimerState

end CquptRaft
