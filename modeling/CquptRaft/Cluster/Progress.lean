import CquptRaft.Cluster.UpToDate
import CquptRaft.Replication.Majority

/-!
# A leader that reaches a majority commits its log

From any reachable state of the cluster: the leader of a term stays with its log and goes on with
rounds of `ReplicateOnce`, of which any may be lost. When the followers of a majority answer again
and again, everything in the log is committed, in every order of the rounds.
-/

namespace CquptRaft

open Replication Voting

variable {σ : Type} {sm : IStateMachine σ} {cfg : ClusterConfig} {H : History NodeId LogRecord}

/-- Member `l` with the members it sends to. -/
def Cluster.group {Image : Type} (c : Cluster σ Image) (l : NodeId) : Group Image where
  leader := (c.members l).node
  leaderSnapshots := (c.members l).snapshots
  followers p := (c.members p).node
  followerSnapshots p := (c.members p).snapshots

theorem Cluster.link_group {Image : Type} (c : Cluster σ Image) (l p : NodeId) :
    (c.group l).link p = c.link l p ((c.members l).node.nextIndex p) := by
  simp [Cluster.group, Group.link, Cluster.link]

/-- The followers of a reachable state are ready for the rounds of one and the same leader. -/
theorem KnownInv.readyFor {c : Cluster σ sm.Image} (h : KnownInv cfg H c) (hloads : LoadsInv cfg c)
    {l : NodeId} (hl : l ∈ cfg.ids) {Q : List NodeId}
    (hreplicates : ∀ p ∈ Q, c.Replicates l p ((c.members l).node.nextIndex p))
    (hterm : ∀ p ∈ Q, (c.members p).node.currentTerm ≤ (c.members l).node.currentTerm) :
    Group.ReadyFor H.leaderLog (c.members l).node.currentTerm
      (H.leaderLog (c.members l).node.currentTerm) (c.members l).node.lastSnapshotIndex sm Q
      (c.group l) := by
  intro p hp
  obtain ⟨T, L, B, rfl, hready⟩ := h.ready hloads hl (hreplicates p hp) (hterm p hp)
  have hT : (c.members l).node.currentTerm = T := hready.leads.term
  have hB : (c.members l).node.lastSnapshotIndex = B := hready.leads.lastSnapshotIndex
  rw [c.link_group l p, hT, hB]
  exact hready

/-- In every state of a run whose steps are guarded and save every higher term: a leader whose last
record is of its own term, and that goes on with its rounds while the followers of a majority keep
answering, stays leader with its log and commits all of it. -/
theorem majority_commits (sm : IStateMachine σ) (cfg : ClusterConfig) {c : Cluster σ sm.Image}
    (hc : Relation.ReflTransGen (Cluster.SavingStep sm cfg) (Cluster.init sm cfg) c)
    {l : NodeId} (hl : l ∈ cfg.ids) {Q : List NodeId} (hQ : Group.Majority Q (c.members l).node)
    (hreplicates : ∀ p ∈ Q, c.Replicates l p ((c.members l).node.nextIndex p))
    (hterm : ∀ p ∈ Q, (c.members p).node.currentTerm ≤ (c.members l).node.currentTerm)
    (hown : (c.members l).node.lastLogTermLocked = (c.members l).node.currentTerm)
    (maxSnapshotCount : Nat) {rounds : Nat → NodeId × Delivery}
    (hanswers : ∀ k, (rounds k).2 = .answered → (rounds k).1 ∈ Q)
    (hfair : ∀ q ∈ Q, ∀ k, ∃ j, k ≤ j ∧ rounds j = (q, .answered)) :
    ∃ n, ∀ k, n ≤ k →
      ((c.group l).after sm maxSnapshotCount rounds k).leader.role = .leader ∧
      ((c.group l).after sm maxSnapshotCount rounds k).leader.log = (c.members l).node.log ∧
      (c.members l).node.lastLogIndexLocked ≤
        ((c.group l).after sm maxSnapshotCount rounds k).leader.commitIndex := by
  obtain ⟨H, -, hH⟩ := KnownInv.init.run hc
  have hloads : LoadsInv cfg c := by
    refine LoadsInv.init.run (Relation.ReflTransGen.mono (fun _ _ hstep => ?_) _ _ hc)
    obtain ⟨id, action, -, hmoved⟩ := hstep
    exact ⟨id, action, hmoved⟩
  have hready := hH.readyFor hloads hl hreplicates hterm
  obtain ⟨q, hq⟩ := List.exists_mem_of_ne_nil Q hQ.nonempty
  obtain ⟨commit, hrep⟩ := (hready q hq).leads.log
  have hlast := (hready q hq).leads.lastLogIndexLocked
  have hend : termAt LogRecord.term (H.leaderLog (c.members l).node.currentTerm)
      (H.leaderLog (c.members l).node.currentTerm).length = (c.members l).node.currentTerm := by
    exact hrep.lastLogTermLocked.symm.trans hown
  have hcommitted : ∃ n, ∀ k, n ≤ k → (H.leaderLog (c.members l).node.currentTerm).length ≤
      ((c.group l).after sm maxSnapshotCount rounds k).leader.commitIndex :=
    hready.eventually_committed (hH.sim.indexed _) (hH.sim.valid.leaderLog_good _) hH.sim.term_pos
      hanswers hfair hQ hend
  obtain ⟨n, hn⟩ := hcommitted
  refine ⟨n, fun k hk => ?_⟩
  have hafter : Link.Ready H.leaderLog (c.members l).node.currentTerm
      (H.leaderLog (c.members l).node.currentTerm) (c.members l).node.lastSnapshotIndex sm q
      (((c.group l).after sm maxSnapshotCount rounds k).link q) :=
    hready.after (hH.sim.indexed _) (hH.sim.valid.leaderLog_good _) hH.sim.term_pos hanswers k q hq
  have hleads : Leads _ _ _ ((c.group l).after sm maxSnapshotCount rounds k).leader := hafter.leads
  obtain ⟨commit', hrep'⟩ := hleads.log
  exact ⟨hleads.role, hrep'.stores.eq.trans hrep.stores.eq.symm, hlast.le.trans (hn k hk)⟩

/-- Member 2 answers every round. -/
def answeredRounds : Nat → NodeId × Delivery := fun _ => (2, .answered)

/-- Member 1 leads term 1 with its no-op in the log. -/
theorem majority_commits_three : ∃ c : Cluster KvMap kvStateMachine.Image,
    Relation.ReflTransGen (Cluster.SavingStep kvStateMachine threeMembers)
      (Cluster.init kvStateMachine threeMembers) c ∧
    (c.members 1).node.commitIndex = 0 ∧ ∃ n, ∀ k, n ≤ k →
      1 ≤ ((c.group 1).after kvStateMachine 5 answeredRounds k).leader.commitIndex := by
  have hexec : (Cluster.execWhen kvStateMachine threeMembers (fun c id action =>
      c.Guarded id action ∧ SavesTerm c.net (c.members id) action)
      (Cluster.init kvStateMachine threeMembers)
      (electionSchedule ++ [(1, .proposeNoOp true)])).any (fun c => decide (LeadsPeer c 1 2 1 ∧
        (c.members 1).node.nextIndex 2 = 1 ∧ (c.members 1).node.lastLogIndexLocked = 1 ∧
        (c.members 1).node.lastLogTermLocked = 1 ∧ (c.members 1).node.commitIndex = 0 ∧
        (c.members 2).node.currentTerm = 1 ∧ (c.members 1).node.peers = [2, 3])) = true := by
    decide +kernel
  obtain ⟨c, hc, hP⟩ := (Option.any_eq_true _ _).mp hexec
  obtain ⟨hlead, hnext, hlast, hlastTerm, hcommit, hterm, hpeers⟩ := of_decide_eq_true hP
  have hleader : (c.members 1).node.currentTerm = 1 := hlead.2.2.2.2.2.2
  have hrun := Cluster.execWhen_run hc
  have hQ : Group.Majority [2] (c.members 1).node :=
    ⟨by simp, by simp, by simp [hpeers], by simp [RaftNode.quorum, hpeers]⟩
  have hreplicates : ∀ p ∈ [2], c.Replicates 1 p ((c.members 1).node.nextIndex p) := by
    intro p hp
    rw [List.mem_singleton.mp hp, hnext]
    exact hlead.replicates le_rfl (by omega)
  have hanswers : ∀ k, (answeredRounds k).2 = .answered → (answeredRounds k).1 ∈ [2] := by
    simp [answeredRounds]
  have hfair : ∀ q ∈ [2], ∀ k, ∃ j, k ≤ j ∧ answeredRounds j = (q, .answered) := by
    intro q hq k
    rw [List.mem_singleton.mp hq]
    exact ⟨k, le_rfl, rfl⟩
  obtain ⟨n, hn⟩ := majority_commits kvStateMachine threeMembers hrun (by decide) hQ hreplicates
    (by simp [hterm, hleader]) (hlastTerm.trans hleader.symm) 5 hanswers hfair
  exact ⟨c, hrun, hcommit, n, fun k hk => hlast ▸ (hn k hk).2.2⟩

end CquptRaft
