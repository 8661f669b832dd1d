import CquptRaft.Cluster.ReportedTerms
import CquptRaft.Node.Compaction
import CquptRaft.Node.Stored

/-!
# Compaction of reachable nodes

Whatever a member receives and however often it restarts, its node is sound, its disk is
recoverable and it has applied nothing that is not committed. So compacting its log up to a
record it has applied makes no difference to what it does from there on.
-/

namespace CquptRaft

variable {σ : Type} {sm : IStateMachine σ} {cfg : ClusterConfig}

structure LocalInv {Image : Type} (m : Member σ Image) : Prop where
  stored : RaftNode.Recoverable m.node.storage
  process : m.up = true → m.node.Sound ∧ m.node.lastApplied ≤ m.node.commitIndex ∧
    m.apply.index ≤ m.node.commitIndex

theorem LocalInv.act {id : NodeId} {net : List (Message sm.Image)} {m m' : Member σ sm.Image}
    {action : Action} {outbox : Member.Outbox sm.Image} (h : LocalInv m) (hup : m.up = true)
    (hstep : act sm cfg id net m action = some (m', outbox)) : LocalInv m' := by
  obtain ⟨hsound, happlied, hlock⟩ := h.process hup
  have hlock' := act_lock hstep
  rcases act_call hstep with hsame | ⟨-, c, hcall, hground⟩
  · refine ⟨hsame ▸ h.stored, fun _ => ?_⟩
    rw [hsame]
    exact ⟨hsound, happlied, by omega⟩
  · have hcommit := (hsound.inv.progress c).commit
    rw [← hcall] at hcommit
    have hsound' : m'.node.Sound := hcall ▸ hsound.call c
    refine ⟨h.stored.saves hsound hsound' (hcall ▸ RaftNode.call_saves _ c hsound.inv), fun _ => ?_⟩
    refine ⟨hsound', ?_, by omega⟩
    rw [hcall]
    refine hsound.call_applied happlied c fun index saved hc => ?_
    subst hc
    rw [show m.apply = .applied index from hground] at hlock
    exact hlock

theorem LocalInv.step {id : NodeId} {net : List (Message sm.Image)} {m m' : Member σ sm.Image}
    {action : Action} {outbox : Member.Outbox sm.Image} (h : LocalInv m)
    (hstep : memberStep sm cfg id net m action = some (m', outbox)) : LocalInv m' := by
  rcases memberStep_cases hstep with
    ⟨hup, hact⟩ | ⟨hdown, -, readable, saved, replaySaved, -, rfl⟩
  · exact h.act hup hact
  · have hrecovered := RaftNode.recover_sound h.stored id (cfg.peers id)
    have hstored : RaftNode.Recoverable
        (RaftNode.recover id (cfg.peers id) m.node.storage).storage := by
      rw [RaftNode.recover_storage]
      exact h.stored
    have hinduct := m.restart_induct
      (P := fun n => n.Sound ∧ RaftNode.Recoverable n.storage ∧ n.lastApplied ≤ n.commitIndex)
      cfg id readable saved replaySaved
      (fun n kv hload => RaftNode.loadLatestSnapshotOnStartup_sound hrecovered
        hstored (by cases hs : m.node.storage <;> exact Nat.zero_le _) hload)
      (fun n hn => ?_) (fun n index saved hn hindex => ?_)
    · rcases hinduct with ⟨n, kv, hn, heq⟩ | ⟨storage, hstorage', heq⟩ <;> rw [heq]
      · exact ⟨hn.2.1, fun _ => ⟨hn.1, hn.2.2, Nat.zero_le _⟩⟩
      · refine ⟨?_, fun hup => absurd (hdown.symm.trans hup) Bool.false_ne_true⟩
        rcases hstorage' with rfl | ⟨n, hn, rfl⟩
        · exact h.stored
        · exact hn.2.1
    · have hcall := hn.1.call (.applyPick : Call sm.Image)
      exact ⟨hcall,
        hn.2.1.saves hn.1 hcall (RaftNode.call_saves _ (.applyPick : Call sm.Image) hn.1.inv),
        hn.1.call_applied hn.2.2 (.applyPick : Call sm.Image) (by simp)⟩
    · have hcall := hn.1.call (.applyFinish index saved : Call sm.Image)
      refine ⟨hcall, hn.2.1.saves hn.1 hcall
        (RaftNode.call_saves _ (.applyFinish index saved : Call sm.Image) hn.1.inv),
        hn.1.call_applied hn.2.2 (.applyFinish index saved : Call sm.Image) ?_⟩
      intro index' saved' heq
      cases heq
      exact hindex

theorem LocalInv.fresh (id : NodeId) : LocalInv (Member.fresh sm id (cfg.peers id)) where
  stored _ hs := by cases hs
  process hup := by cases hup

theorem LocalInv.run {id : NodeId} {s s' : Solo σ sm.Image} (h : LocalInv s.member)
    (hrun : Relation.ReflTransGen (Solo.StepWhen sm cfg id fun _ _ _ => True) s s') :
    LocalInv s'.member := by
  induction hrun with
  | refl => exact h
  | tail _ hstep ih =>
    obtain ⟨net, action, m, outbox, -, hm, rfl⟩ := hstep
    exact ih.step hm

/-- A reachable node and its twin with the log compacted up to an applied record give the same
answers in every run of sections that look at the log from there on, hold the same records
behind it all the time, and apply the same commands. -/
theorem compaction_transparent (sm : IStateMachine σ) (cfg : ClusterConfig) (id : NodeId)
    {r : Solo σ sm.Image}
    (hrun : Relation.ReflTransGen (Solo.StepWhen sm cfg id fun _ _ _ => True)
      (Solo.fresh sm cfg id) r) (hup : r.member.up = true) {s : Nat}
    (hlow : r.member.node.lastSnapshotIndex < s)
    (hheld : r.member.node.hasLogAtIndexLocked s = true) (happlied : s ≤ r.member.node.lastApplied)
    (cs : List (Call sm.Image)) (hcs : RaftNode.LooksFromAll s r.member.node cs) :
    let n := r.member.node
    let n' := n.compactLogPrefixLocked s (n.termAtIndexLocked s)
    n'.answers cs = n.answers cs ∧ RaftNode.Compacted s (n.calls cs) (n'.calls cs) ∧
      (n'.calls cs).commitIndex = (n.calls cs).commitIndex ∧
      (∀ i, s < i → (n'.calls cs).logAtIndexLocked i = (n.calls cs).logAtIndexLocked i) ∧
      ∀ saved fuel kv, (RaftNode.replayCommittedEntries sm saved fuel (n'.calls cs) kv).2 =
        (RaftNode.replayCommittedEntries sm saved fuel (n.calls cs) kv).2 := by
  intro n n'
  obtain ⟨hsound, hcommit, -⟩ := ((LocalInv.fresh id).run hrun).process hup
  obtain ⟨hanswers, hkept⟩ := (hsound.inv.compacted hlow hheld happlied hcommit).calls cs hcs
  exact ⟨hanswers, hkept, hkept.fields.commitIndex, fun i hi => hkept.logAtIndexLocked hi,
    fun saved fuel kv => (hkept.replayCommittedEntries sm saved fuel kv).1⟩

/-- Member 1 takes record 1 from member 2, commits it and applies it. -/
def appliedSchedule : List (List (Message kvStateMachine.Image) × Action) :=
  restartSchedule ++
  [([⟨⟨2, 1, 1, 0⟩, .appendRequest ⟨1, 2, 0, 0, [⟨1, 1, kInternalNoOpCommand⟩], 1⟩⟩],
      .onAppendEntries 0 true true true),
    ([], .applyAcquire), ([], .applyPick), ([], .applyRun), ([], .applyFinish true)]

/-- A request that starts behind the boundary, then a look at the next record to apply. -/
def laterCalls : List (Call kvStateMachine.Image) :=
  [.onAppendEntries ⟨1, 2, 1, 1, [⟨2, 1, kInternalNoOpCommand⟩], 2⟩ true true true, .applyPick]

theorem compaction_transparent_three :
    ∃ n : RaftNode, n.lastSnapshotIndex < 1 ∧ 1 ≤ n.lastApplied ∧
      (n.compactLogPrefixLocked 1 (n.termAtIndexLocked 1)).answers laterCalls =
        n.answers laterCalls ∧
      n.answers laterCalls ≠ [] := by
  have hexec : (Solo.execWhen kvStateMachine threeMembers 1 (fun _ _ _ => True)
      (Solo.fresh kvStateMachine threeMembers 1) appliedSchedule).any (fun r =>
        r.member.up && (r.member.node.lastSnapshotIndex == 0 &&
          (r.member.node.hasLogAtIndexLocked 1 && r.member.node.lastApplied == 1))) = true := by
    decide +kernel
  simp only [Option.any_eq_true, Bool.and_eq_true, beq_iff_eq] at hexec
  obtain ⟨r, hr, hup, hsnap, hheld, happlied⟩ := hexec
  have hcs : RaftNode.LooksFromAll 1 r.member.node laterCalls := by
    refine ⟨⟨le_rfl, fun k hk => ?_⟩, trivial, trivial⟩
    obtain rfl : k = 0 := by
      simp only [List.length_singleton] at hk
      omega
    rfl
  have htwins := compaction_transparent kvStateMachine threeMembers 1 (Solo.execWhen_run hr) hup
    (s := 1) (by omega) hheld (by omega) laterCalls hcs
  exact ⟨r.member.node, by omega, by omega, htwins.1, by simp [laterCalls, RaftNode.answers]⟩

end CquptRaft
