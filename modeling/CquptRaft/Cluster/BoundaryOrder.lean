import CquptRaft.Cluster.Acknowledged

/-!
# The order of the boundaries

On every node the snapshot boundary, the apply index, the commit index and the last index of the
log stay in this order, a step keeps every committed record that it does not compact, and
`ApplyCommittedEntries` finds the next record. None of this is local to a node: a follower
truncates without looking at its commit index. It follows from the records up to the commit
index being chosen.
-/

namespace CquptRaft

open Replication Voting

variable {σ : Type} {sm : IStateMachine σ} {cfg : ClusterConfig} {H H' : History NodeId LogRecord}

/-! ## Nodes -/

namespace RaftNode

/-- The boundaries of a node, in their order. -/
structure Ordered (n : RaftNode) : Prop where
  snapshot : n.lastSnapshotIndex ≤ n.lastApplied
  applied : n.lastApplied ≤ n.commitIndex
  commit : n.commitIndex ≤ n.lastLogIndexLocked

/-- No section lets the apply index fall behind the snapshot boundary. -/
theorem call_snapshot_le {Image : Type} {n : RaftNode} (h : n.lastSnapshotIndex ≤ n.lastApplied)
    (c : Call Image) : (n.call c).lastSnapshotIndex ≤ (n.call c).lastApplied := by
  by_cases hc : c.movesBoundary = false
  · have hsame := n.call_sameBoundary c hc
    rwa [hsame.snapshot, hsame.applied]
  cases c with
  | installFinish _ _ _ =>
    grind [call, installFinish, adoptSnapshotLocked, compactLogPrefixLocked,
      restoreLogAfterSnapshotLocked, persistStateLocked]
  | applyPick => grind [call, applyPick]
  | applyFinish _ _ => grind [call, applyFinish, persistStateLocked]
  | compactAfterSnapshot _ _ _ =>
    grind [call, compactAfterSnapshot, compactLogPrefixLocked, restoreLogAfterSnapshotLocked,
      persistStateLocked]
  | _ => exact absurd rfl hc

/-- A replay that goes through ends with nothing to apply. -/
theorem replayCommittedEntries_applied {sm : IStateMachine σ} {saved : Nat → Bool} {fuel : Nat}
    {n n' : RaftNode} {kv kv' : σ}
    (h : replayCommittedEntries sm saved fuel n kv = (n', kv', true)) :
    n'.lastSnapshotIndex ≤ n'.lastApplied := by
  induction fuel generalizing n kv with
  | zero => cases h
  | succ fuel ih => grind [replayCommittedEntries, applyPick]

/-- A constructed node has applied its snapshot boundary, or everything it has committed. -/
theorem construct_applied {sm : IStateMachine σ} {id : NodeId} {peers : List NodeId}
    {storage : Option PersistentRaftState} {config : SnapshotConfig}
    {dir : List (Snapshot sm.Image)} {readable : Nat → Bool} {saved : Bool}
    {replaySaved : Nat → Bool} {n : RaftNode} {kv : σ}
    (h : construct sm id peers storage config dir readable saved replaySaved = .ready n kv) :
    n.lastSnapshotIndex ≤ n.lastApplied ∨ n.commitIndex ≤ n.lastApplied := by
  unfold construct at h
  split at h
  · cases h
  · split at h
    · split at h
      · rename_i hreplay
        cases h
        exact .inl (replayCommittedEntries_applied hreplay)
      · cases h
    · rename_i hno
      cases h
      exact .inr (not_lt.mp hno)

end RaftNode

theorem Represents.logInv {n : RaftNode} {mem : Replica LogRecord} (h : Represents n mem) :
    RaftNode.LogInv n where
  nonempty := h.stores.ne_nil
  consecutive k hk := by
    have hk' := hk
    rw [h.stores.length_eq] at hk'
    have hsnap := h.stores.snap_le
    have hget := List.getElem?_eq_getElem hk
    rw [h.snapIndex]
    cases k with
    | zero =>
      rw [h.stores.getElem?_zero] at hget
      rw [← Option.some.inj hget, headRecord_index, Nat.add_zero]
    | succ k =>
      rw [h.stores.getElem?_succ, List.getElem?_eq_getElem (by omega)] at hget
      rw [← Option.some.inj hget, h.stores.indexed]
      omega
  headTerm := by rw [h.stores.head?, Option.map_some, headRecord_term, h.snapTerm]

/-! ## Runs -/

/-- The history fits, and no process has its apply index behind its snapshot boundary. -/
structure OrderInv (cfg : ClusterConfig) (H : History NodeId LogRecord)
    (c : Cluster σ sm.Image) : Prop where
  sim : SimInv cfg H c
  snapshot : ∀ p ∈ cfg.ids, (c.members p).up = true →
    (c.members p).node.lastSnapshotIndex ≤ (c.members p).node.lastApplied

theorem OrderInv.init : OrderInv cfg emptyHistory (Cluster.init sm cfg) :=
  ⟨.init, fun _ _ hup => by cases hup⟩

theorem OrderInv.step {c c' : Cluster σ sm.Image} (h : OrderInv cfg H c)
    (hstep : Cluster.GuardedStep sm cfg c c') :
    ∃ H', History.Extends H H' ∧ OrderInv cfg H' c' := by
  obtain ⟨H', hext, hsim⟩ := h.sim.guardedStep hstep
  refine ⟨H', hext, hsim, fun p hp hup => ?_⟩
  obtain ⟨id, action, -, hmoved⟩ := hstep
  obtain ⟨hid, m, outbox, hm, rfl⟩ := Cluster.step_cases hmoved
  by_cases hpid : p = id
  · subst hpid
    obtain ⟨mem, dur, hprocess⟩ := hsim.process hp hup
    simp only [Function.update_self] at hup hprocess ⊢
    rcases memberStep_cases hm with ⟨hbefore, hm⟩ | ⟨hdown, -, _, _, _, -, rfl⟩
    · rcases act_call hm with hsame | ⟨-, c, hcall, -⟩
      · rw [hsame]
        exact h.snapshot p hp hbefore
      · rw [hcall]
        exact RaftNode.call_snapshot_le (h.snapshot p hp hbefore) c
    · rw [Member.restart] at hup hprocess ⊢
      split at hup
      · exact absurd (hdown.symm.trans hup) Bool.false_ne_true
      · rename_i node kv hready
        rw [hready] at hprocess
        have hcommit : node.lastSnapshotIndex ≤ node.commitIndex := by
          have hrep := hprocess.node.represents
          simp only [Member.boot] at hrep
          rw [hrep.snapIndex, hrep.commit]
          exact hprocess.node.memSound.snap_le
        rcases RaftNode.construct_applied hready with hle | hle
        · exact hle
        · exact hcommit.trans hle
  · simp only [Function.update_of_ne hpid] at hup ⊢
    exact h.snapshot p hp hup

theorem OrderInv.run {c c' : Cluster σ sm.Image} (h : OrderInv cfg H c)
    (hrun : Cluster.GuardedRun sm cfg c c') : ∃ H', History.Extends H H' ∧ OrderInv cfg H' c' := by
  induction hrun with
  | refl => exact ⟨H, .refl H, h⟩
  | tail _ hstep ih =>
    obtain ⟨H₁, hext₁, h₁⟩ := ih
    obtain ⟨H₂, hext₂, h₂⟩ := h₁.step hstep
    exact ⟨H₂, hext₁.trans hext₂, h₂⟩

theorem OrderInv.ordered {c : Cluster σ sm.Image} (h : OrderInv cfg H c) {p : NodeId}
    (hp : p ∈ cfg.ids) (hup : (c.members p).up = true) : (c.members p).node.Ordered := by
  obtain ⟨mem, dur, hprocess⟩ := h.sim.process hp hup
  refine ⟨h.snapshot p hp hup, hprocess.node.applied, ?_⟩
  rw [hprocess.node.represents.commit, hprocess.node.represents.lastLogIndexLocked]
  exact hprocess.node.memSound.commit_le

/-- A node in order finds the record it has to apply next. -/
theorem Represents.applyPick_ne_outOfRange {n : RaftNode} {mem : Replica LogRecord}
    (h : Represents n mem) (hcommit : mem.commit ≤ mem.log.length) :
    n.applyPick.2 ≠ .outOfRange := by
  unfold RaftNode.applyPick
  simp only
  split
  · simp
  · rename_i hlt
    have hrep : Represents { n with lastApplied := max n.lastApplied n.lastSnapshotIndex } mem :=
      h.congr rfl rfl rfl rfl rfl
    have hsnap := h.snapIndex
    have hcommit' := h.commit
    have hpos : max n.lastApplied n.lastSnapshotIndex < mem.log.length := by omega
    rw [hrep.logAtIndexLocked (by omega) (by omega), Nat.add_sub_cancel,
      List.getElem?_eq_getElem hpos]
    simp

/-- A record that is committed and not compacted is the chosen one. -/
theorem ProcessInv.committed_eq {Image : Type} {m : Member σ Image} {mem dur : Replica LogRecord}
    {q : NodeId} (h : ProcessInv H cfg.members q m mem dur)
    (hH : H.Valid cfg.members LogRecord.term) (hH' : H'.Valid cfg.members LogRecord.term)
    (hext : History.Extends H H') {i : Nat} (hsnap : m.node.lastSnapshotIndex < i)
    (hi : i ≤ m.node.commitIndex) :
    m.node.logAtIndexLocked i = some (H'.chosenEntry cfg.members i) := by
  have hrep := h.node.represents
  have hcommit := h.node.memSound.commit_le
  rw [hrep.snapIndex] at hsnap
  rw [hrep.commit] at hi
  have hlen : (mem.log.take mem.commit).length = mem.commit := by
    rw [List.length_take, min_eq_left hcommit]
  have hchosen := hext.chosen hH h.node.memSound.chosen
  rw [hrep.logAtIndexLocked hsnap (hi.trans hcommit),
    ← hH'.getElem?_chosen hchosen (by omega) (hi.trans hlen.ge),
    List.getElem?_take_of_lt (by omega)]

/-- In every state of a guarded run the boundaries of a running node are in order and it finds
the record it has to apply next; the next step keeps every committed record of the node, or
compacts it. -/
theorem boundaries_ordered (sm : IStateMachine σ) (cfg : ClusterConfig) {c : Cluster σ sm.Image}
    (hc : Cluster.GuardedRun sm cfg (Cluster.init sm cfg) c) {p : NodeId} (hp : p ∈ cfg.ids)
    (hup : (c.members p).up = true) :
    (c.members p).node.Ordered ∧ (c.members p).node.applyPick.2 ≠ .outOfRange ∧
      ∀ id action c', c.Guarded id action → c.step sm cfg id action = some c' →
        ∀ i, (c.members p).node.lastSnapshotIndex < i → i ≤ (c.members p).node.commitIndex →
          (c'.members p).node.logAtIndexLocked i = (c.members p).node.logAtIndexLocked i ∨
            i ≤ (c'.members p).node.lastSnapshotIndex := by
  obtain ⟨H, -, hH⟩ := OrderInv.init.run hc
  obtain ⟨mem, dur, hprocess⟩ := hH.sim.process hp hup
  refine ⟨hH.ordered hp hup,
    hprocess.node.represents.applyPick_ne_outOfRange hprocess.node.memSound.commit_le, ?_⟩
  intro id action c' hguard hstep i hsnap hi
  obtain ⟨H', hext, hsim'⟩ := hH.sim.guardedStep ⟨id, action, hguard, hstep⟩
  obtain ⟨hid, m, outbox, hm, rfl⟩ := Cluster.step_cases hstep
  by_cases hpid : p = id
  · subst hpid
    simp only [memberStep, hup, if_true] at hm
    have hafter := hsim'.members p hp
    simp only [Function.update_self] at hafter ⊢
    rcases act_call hm with hsame | ⟨hup', call, hcall, -⟩
    · exact .inl (by rw [hsame])
    · -- both processes hold the chosen record at `i`
      obtain ⟨mem', dur', hprocess'⟩ := hafter.process (hup'.trans hup)
      by_cases hkept : m.node.lastSnapshotIndex < i
      · have hcommit := (hprocess.node.represents.logInv.progress call).commit
        rw [← hcall] at hcommit
        left
        rw [hprocess.committed_eq hH.sim.valid hsim'.valid hext hsnap hi,
          hprocess'.committed_eq hsim'.valid hsim'.valid (.refl H') hkept (hi.trans hcommit)]
      · exact .inr (not_lt.mp hkept)
  · exact .inl (by simp only [Function.update_of_ne hpid])

/-- Member 2 holds the record it has committed when the next run elects it. -/
theorem boundaries_ordered_three :
    ∃ c : Cluster KvMap kvStateMachine.Image, (c.members 2).node.Ordered ∧
      (c.members 2).node.applyPick.2 ≠ .outOfRange ∧
      0 < (c.members 2).node.commitIndex := by
  obtain ⟨c₀, c₁, c, d, h₀, h₁, hguard, hc, -, hcommits⟩ := exec_threeSchedule
  obtain ⟨-, -, hraised, -, ⟨-, hup⟩, -⟩ := hcommits
  have hrun := ((Cluster.execGuarded_run h₀).tail
    ⟨1, _, Cluster.guarded_of_none rfl rfl, h₁⟩).tail ⟨2, _, hguard, hc⟩
  obtain ⟨hordered, hpick, -⟩ := boundaries_ordered kvStateMachine threeMembers hrun
    (p := 2) (by decide) hup
  exact ⟨c, hordered, hpick, by omega⟩

/-- Behind the stale tail a follower replaces a record that it has committed. -/
theorem committed_record_replaced :
    ¬ ∀ c, Cluster.Reachable kvStateMachine fiveMembers c → ∀ p ∈ fiveMembers.ids,
      (c.members p).up = true →
      (c.members p).node.Ordered ∧ (c.members p).node.applyPick.2 ≠ .outOfRange ∧
        ∀ id action c', c.step kvStateMachine fiveMembers id action = some c' →
          ∀ i, (c.members p).node.lastSnapshotIndex < i → i ≤ (c.members p).node.commitIndex →
            (c'.members p).node.logAtIndexLocked i = (c.members p).node.logAtIndexLocked i ∨
              i ≤ (c'.members p).node.lastSnapshotIndex := by
  intro hkept
  obtain ⟨c₀, c₁, c, -, -, -, -, h₀, h₁, hc, -, -, -, -, -, -, -, w, x, y, hw, hx, hy, hreplaces⟩ :=
    exec_staleTailSchedule
  obtain ⟨⟨hup, hsnap, hcommit⟩, hr, hr', hsnap'⟩ := hreplaces
  have hreach : Cluster.Reachable kvStateMachine fiveMembers x :=
    ((((Cluster.exec_run h₀).tail ⟨2, _, h₁⟩).tail ⟨5, _, hc⟩).trans (Cluster.exec_run hw)).tail
      ⟨2, _, hx⟩
  obtain ⟨-, -, hsteps⟩ := hkept x hreach 5 (by decide) hup
  rcases hsteps 5 _ y hy 258 (by omega) hcommit.ge with hsame | hle
  · rw [hr, hr'] at hsame
    exact absurd hsame (by decide)
  · omega

end CquptRaft
