import CquptRaft.Cluster.Acknowledged
import CquptRaft.Cluster.BoundaryOrder

/-!
# How far a state machine has got

The map of a process belongs to a place in the chosen sequence, at every moment and not only when
`apply_mu_` is free: behind `Apply` it is one entry ahead of `last_applied_`, behind `LoadSnapshot`
it belongs to the snapshot. As long as the process lives, that place never goes back. A `Propose`
call that has returned `kOk` has its entry in the map.
-/

namespace CquptRaft

open Replication Voting

variable {σ : Type} {sm : IStateMachine σ} {cfg : ClusterConfig} {H H' : History NodeId LogRecord}
  {members : Finset NodeId} {q : NodeId}

/-- The number of entries in the map. -/
def Member.position {Image : Type} (m : Member σ Image) : Nat :=
  match m.apply with
  | .applied index => index
  | .installing handler => handler.request.lastIncludedIndex
  | _ => m.node.lastApplied

theorem AppliedProcess.stateAt {m : Member σ sm.Image} (h : AppliedProcess sm H members m) :
    StateAt sm H members m.position m.kv ∧ m.node.lastApplied ≤ m.position := by
  have hlock := h.lock
  unfold Member.position
  cases happly : m.apply with
  | free | looping =>
    rw [happly] at hlock
    exact ⟨hlock, le_rfl⟩
  | picked _ _ =>
    rw [happly] at hlock
    exact ⟨hlock.1, le_rfl⟩
  | applied index =>
    rw [happly] at hlock
    exact ⟨hlock.2, by simp only [hlock.1]; omega⟩
  | installing handler =>
    rw [happly] at hlock
    exact ⟨hlock.2, hlock.1⟩

/-! ## The lock and the apply index -/

/-- The actions that take, move or release `apply_mu_`. -/
def Action.locks : Action → Bool
  | .restart _ _ _ | .installLoad _ _ | .installFinish _ | .applyAcquire | .applyPick | .applyRun
  | .applyFinish _ => true
  | _ => false

theorem act_apply {id : NodeId} {net : List (Message sm.Image)} {m m' : Member σ sm.Image}
    {action : Action} {outbox : Member.Outbox sm.Image} (hother : action.locks = false)
    (h : act sm cfg id net m action = some (m', outbox)) : m'.apply = m.apply := by
  by_cases hunrelated : action.appliesState = false
  · exact (act_unrelated hunrelated h).same.apply
  cases action with
  | crash | prune _ =>
    cases h
    rfl
  | proposal k step =>
    obtain ⟨_, hmoved, heq⟩ := Option.map_eq_some_iff.mp h
    cases heq
    obtain ⟨_, _, _, -, -, rfl⟩ := Member.proposal_cases hmoved
    rfl
  | sendSnapshot _ => grind [act, Member.sendSnapshot, Member.setReplicator]
  | onInstallSnapshot _ _ =>
    obtain ⟨message, -, h⟩ := Option.bind_eq_some_iff.mp h
    grind [Member.deliverInstallSnapshot, Member.onInstallSnapshot]
  | installWrite _ _ => grind [act, Member.installWrite, Member.advanceInstall, Member.failInstall]
  | installSave _ _ => grind [act, Member.installSave, Member.advanceInstall, Member.failInstall]
  | onSnapshotTimer => grind [act]
  | workerCapture _ => grind [act, Member.workerCapture]
  | workerSave _ => grind [act, Member.workerSave]
  | workerCompact _ => grind [act, Member.workerCompact]
  | restart _ _ _ | installLoad _ _ | installFinish _ | applyAcquire | applyPick | applyRun
  | applyFinish _ => cases hother
  | _ => exact absurd rfl hunrelated

theorem act_lastApplied {id : NodeId} {net : List (Message sm.Image)} {m m' : Member σ sm.Image}
    {action : Action} {outbox : Member.Outbox sm.Image} (hinv : RaftNode.LogInv m.node)
    (h : act sm cfg id net m action = some (m', outbox)) :
    m.node.lastApplied ≤ m'.node.lastApplied := by
  rcases act_call h with hsame | ⟨-, call, hcall, -⟩
  · rw [hsame]
  · rw [hcall]
    exact (hinv.progress call).applied

/-- The adopted boundary is applied. -/
theorem RaftNode.installFinish_lastApplied {Image : Type} (n : RaftNode)
    (request : InstallSnapshotRequest Image) (response : InstallSnapshotResponse) (saved : Bool)
    (hterm : n.currentTerm ≤ request.term) :
    request.lastIncludedIndex ≤ (n.installFinish request response saved).1.lastApplied := by
  unfold RaftNode.installFinish
  rw [if_neg (not_lt.mpr hterm)]
  cases saved <;> simp [RaftNode.adoptSnapshotLocked]

/-- While a process lives, its map does not go back. -/
theorem AppliedProcess.position_le {id : NodeId} {net : List (Message sm.Image)}
    {m m' : Member σ sm.Image} {action : Action} {outbox : Member.Outbox sm.Image}
    (h : AppliedProcess sm H members m) (hinv : RaftNode.LogInv m.node)
    (hkeeps : m.keepsState sm cfg id action = true)
    (hstep : act sm cfg id net m action = some (m', outbox)) : m.position ≤ m'.position := by
  have hle := act_lastApplied hinv hstep
  have hlock := h.lock
  by_cases hother : action.locks = false
  · have happly := act_apply hother hstep
    unfold Member.position
    rw [happly]
    cases m.apply with
    | applied _ | installing _ => exact le_rfl
    | free | looping | picked _ _ => exact hle
  cases action with
  | applyAcquire => grind [act, Member.position]
  | applyPick => grind [act, Member.applyPick, Member.position]
  | applyRun => grind [act, Member.applyRun, Member.position, LockInv]
  | applyFinish saved => grind [act, Member.applyFinish, Member.position, RaftNode.applyFinish,
      RaftNode.persistStateLocked]
  | installLoad k ok =>
    simp only [act, Member.installLoad] at hstep
    split at hstep
    · rename_i handler hk hfree
      simp only [Member.keepsState, hk, Option.all_some, decide_eq_true_eq] at hkeeps
      split at hstep
      · split at hstep <;> cases hstep
        · simp only [Member.position, hfree]
          exact hkeeps
        · simp [Member.position, hfree]
      · cases hstep
    · cases hstep
  | installFinish saved =>
    simp only [act, Member.installFinish] at hstep
    split at hstep
    · rename_i handler hinstalling
      cases hstep
      simp only [Member.keepsState, hinstalling, Bool.or_eq_true, decide_eq_true_eq] at hkeeps
      simp only [Member.position, hinstalling]
      rcases hkeeps with hterm | heq
      · exact m.node.installFinish_lastApplied _ _ saved hterm
      · exact heq ▸ hle
    · cases hstep
  | restart _ _ _ => cases hstep
  | _ => exact absurd rfl hother

/-! ## Proposals -/

/-- A thread that has finished takes no further step. -/
theorem Member.proposeStep_finished {node node' : RaftNode} {p : Proposal} {step : ProposeStep}
    {phase : ProposePhase} (h : Member.proposeStep node p step = some (node', phase))
    (status : ProposeStatus) : p.phase ≠ .finished status := by
  intro hphase
  cases step <;> simp [Member.proposeStep, hphase] at h

/-- A `Propose` call keeps its place in the list, its command and its slot, and what it has
returned. -/
theorem act_proposals_getElem? {id : NodeId} {net : List (Message sm.Image)}
    {m m' : Member σ sm.Image} {action : Action} {outbox : Member.Outbox sm.Image}
    (h : act sm cfg id net m action = some (m', outbox)) {k : Nat} {p : Proposal}
    (hk : m.proposals[k]? = some p) :
    ∃ phase, m'.proposals[k]? = some { p with phase } ∧
      ∀ status, p.phase = .finished status → phase = .finished status := by
  by_cases hother : action.proposes = false
  · exact ⟨p.phase, by rw [act_proposals hother h, hk], fun _ hphase => hphase⟩
  have happended : ∀ (m₁ : Member σ sm.Image) (commandData : Bytes) (saved : Bool),
      m₁.proposals = m.proposals →
      (m₁.appendProposal commandData saved).proposals[k]? = some p := by
    intro m₁ commandData saved hsame
    have hlt := (List.getElem?_eq_some_iff.mp hk).1
    unfold Member.appendProposal
    simp only
    split
    · rw [hsame, hk]
    · rw [hsame, List.getElem?_append_left hlt, hk]
  cases action with
  | restart _ _ _ => cases h
  | propose command saved =>
    cases h
    refine ⟨p.phase, ?_, fun _ hphase => hphase⟩
    unfold Member.propose
    split
    · exact happended m _ saved rfl
    · exact hk
  | proposeNoOp saved =>
    simp only [act] at h
    split at h <;> cases h
    refine ⟨p.phase, ?_, fun _ hphase => hphase⟩
    unfold Member.proposeNoOp
    simp only
    split
    · exact happended _ _ saved rfl
    · exact hk
  | proposal j step =>
    obtain ⟨_, hmoved, heq⟩ := Option.map_eq_some_iff.mp h
    cases heq
    obtain ⟨p', node, phase, hj, hthread, rfl⟩ := Member.proposal_cases hmoved
    by_cases hjk : j = k
    · subst hjk
      cases hk.symm.trans hj
      have hlt := (List.getElem?_eq_some_iff.mp hk).1
      exact ⟨phase, List.getElem?_set_self hlt, fun status hphase =>
        absurd hphase (Member.proposeStep_finished hthread status)⟩
    · exact ⟨p.phase, by rw [List.getElem?_set_ne hjk, hk], fun _ hphase => hphase⟩
  | _ => exact absurd rfl hother

/-- A call that has returned `kOk` has its entry applied. -/
def ConfirmedInv {Image : Type} (m : Member σ Image) : Prop :=
  ∀ p ∈ m.proposals, p.phase = .finished .ok → p.logIndex ≤ m.node.lastApplied

theorem Member.proposeStep_confirmed {node node' : RaftNode} {p : Proposal} {step : ProposeStep}
    (h : Member.proposeStep node p step = some (node', .finished .ok)) :
    node' = node ∧ p.logIndex ≤ node.lastApplied := by
  cases step <;> grind [Member.proposeStep]

theorem ConfirmedInv.appendProposal {Image : Type} {m : Member σ Image} (h : ConfirmedInv m)
    (commandData : Bytes) (saved : Bool) : ConfirmedInv (m.appendProposal commandData saved) := by
  have happlied := (m.node.appendLocalLogUnlocked_sameBoundary commandData saved).applied
  intro p hp hok
  rw [Member.appendProposal_node, happlied]
  unfold Member.appendProposal at hp
  simp only at hp
  split at hp
  · exact h p hp hok
  · rcases List.mem_append.mp hp with hold | hnew
    · exact h p hold hok
    · cases List.mem_singleton.mp hnew
      cases hok

theorem ConfirmedInv.act {id : NodeId} {net : List (Message sm.Image)} {m m' : Member σ sm.Image}
    {action : Action} {outbox : Member.Outbox sm.Image} (h : ConfirmedInv m)
    (hinv : RaftNode.LogInv m.node)
    (hstep : CquptRaft.act sm cfg id net m action = some (m', outbox)) :
    ConfirmedInv m' := by
  have hle := act_lastApplied hinv hstep
  by_cases hother : action.proposes = false
  · intro p hp hok
    rw [act_proposals hother hstep] at hp
    exact (h p hp hok).trans hle
  cases action with
  | restart _ _ _ => cases hstep
  | propose command saved =>
    cases hstep
    unfold Member.propose
    split
    · exact h.appendProposal _ saved
    · exact h
  | proposeNoOp saved =>
    simp only [CquptRaft.act] at hstep
    split at hstep <;> cases hstep
    unfold Member.proposeNoOp
    simp only
    split
    · exact ConfirmedInv.appendProposal (m := { m with noOpCalls := m.noOpCalls - 1 }) h _ saved
    · exact h
  | proposal j step =>
    obtain ⟨_, hmoved, heq⟩ := Option.map_eq_some_iff.mp hstep
    cases heq
    obtain ⟨p, node, phase, hj, hthread, rfl⟩ := Member.proposal_cases hmoved
    intro p' hp' hok
    rcases List.mem_or_eq_of_mem_set hp' with hold | rfl
    · exact (h p' hold hok).trans hle
    · obtain rfl : phase = .finished .ok := hok
      obtain ⟨rfl, happlied⟩ := Member.proposeStep_confirmed hthread
      exact happlied
  | _ => exact absurd rfl hother

end CquptRaft
