import CquptRaft.Node.Votes

/-!
# Sections that leave the boundaries alone

Only application, compaction and installed snapshots move `last_applied_` and
`last_snapshot_index_`. Every other critical section keeps both.
-/

namespace CquptRaft

structure SameBoundary (n n' : RaftNode) : Prop where
  applied : n'.lastApplied = n.lastApplied
  snapshot : n'.lastSnapshotIndex = n.lastSnapshotIndex

namespace SameBoundary

variable {n n' n'' : RaftNode}

theorem refl (n : RaftNode) : SameBoundary n n := ⟨rfl, rfl⟩

theorem trans (h : SameBoundary n n') (h' : SameBoundary n' n'') : SameBoundary n n'' :=
  ⟨h'.applied.trans h.applied, h'.snapshot.trans h.snapshot⟩

theorem persist (h : SameBoundary n n') (saved : Bool) :
    SameBoundary n (n'.persistStateLocked saved) := ⟨by simp [h.applied], by simp [h.snapshot]⟩

end SameBoundary

namespace RaftNode

variable (n : RaftNode)

/-! ## Elections -/

theorem becomeFollowerLocked_sameBoundary (newTerm : Nat) (newLeader : NodeId) (saved : Bool) :
    SameBoundary n (n.becomeFollowerLocked newTerm newLeader saved).1 := by
  unfold becomeFollowerLocked
  split
  · refine SameBoundary.persist ?_ saved
    exact ⟨rfl, rfl⟩
  · exact ⟨rfl, rfl⟩

theorem startElection_sameBoundary (saved : Bool) : SameBoundary n (n.startElection saved).1 := by
  unfold startElection
  split
  · exact .refl n
  · cases saved <;> exact ⟨rfl, rfl⟩

theorem onRequestVote_sameBoundary (request : VoteRequest) (termSaved voteSaved : Bool) :
    SameBoundary n (n.onRequestVote request termSaved voteSaved).1 := by
  have hm : SameBoundary n (if n.currentTerm < request.term
      then n.becomeFollowerLocked request.term (-1) termSaved else (n, true)).1 := by
    split
    · exact n.becomeFollowerLocked_sameBoundary request.term (-1) termSaved
    · exact .refl n
  unfold onRequestVote
  split
  · exact .refl n
  · generalize (if n.currentTerm < request.term
      then n.becomeFollowerLocked request.term (-1) termSaved else (n, true)) = res at hm
    obtain ⟨m, ok⟩ := res
    simp only
    split
    · exact hm
    · split
      · cases voteSaved
        · exact hm
        · exact hm.trans ⟨rfl, rfl⟩
      · exact hm

theorem onVoteResponse_sameBoundary (term : Nat) (response : VoteResponse) (saved : Bool) :
    SameBoundary n (n.onVoteResponse term response saved).1 := by
  unfold onVoteResponse
  split
  · exact .refl n
  · split
    · exact n.becomeFollowerLocked_sameBoundary response.term (-1) saved
    · split <;> exact .refl n

theorem onElectionWon_sameBoundary (term : Nat) : SameBoundary n (n.onElectionWon term).1 := by
  unfold onElectionWon
  split
  · exact .refl n
  · split
    · exact .refl n
    · exact ⟨rfl, rfl⟩

/-! ## The leader -/

theorem appendLocalLogUnlocked_sameBoundary (commandData : Bytes) (saved : Bool) :
    SameBoundary n (n.appendLocalLogUnlocked commandData saved).1 := by
  cases saved <;> exact ⟨rfl, rfl⟩

theorem advanceCommitIndexUnlocked_sameBoundary (saved : Bool) :
    SameBoundary n (n.advanceCommitIndexUnlocked saved) := by
  unfold advanceCommitIndexUnlocked
  split
  · exact .refl n
  · split
    · exact .refl n
    · refine SameBoundary.persist ?_ saved
      exact ⟨rfl, rfl⟩

theorem buildAppendEntriesRequest_sameBoundary (peer : NodeId) (leaderTerm : Nat) :
    SameBoundary n (n.buildAppendEntriesRequest peer leaderTerm).1 := by
  obtain ⟨next, hnext⟩ := n.buildAppendEntriesRequest_frame peer leaderTerm
  rw [hnext]
  exact ⟨rfl, rfl⟩

theorem handleAppendEntriesResponse_sameBoundary (peer : NodeId) (leaderTerm : Nat)
    (response : AppendEntriesResponse) (saved : Bool) :
    SameBoundary n (n.handleAppendEntriesResponse peer leaderTerm response saved) := by
  unfold handleAppendEntriesResponse
  split
  · exact .refl n
  · split
    · exact n.becomeFollowerLocked_sameBoundary response.term (-1) saved
    · split
      · exact .refl n
      · split
        · refine SameBoundary.trans ?_ (advanceCommitIndexUnlocked_sameBoundary _ saved)
          exact ⟨rfl, rfl⟩
        · exact ⟨rfl, rfl⟩

theorem handleInstallSnapshotResponse_sameBoundary (peer : NodeId) (leaderTerm index : Nat)
    (response : InstallSnapshotResponse) (saved : Bool) :
    SameBoundary n (n.handleInstallSnapshotResponse peer leaderTerm index response saved) := by
  unfold handleInstallSnapshotResponse
  split
  · exact n.becomeFollowerLocked_sameBoundary response.term (-1) saved
  · split
    · exact .refl n
    · split <;> exact ⟨rfl, rfl⟩

/-! ## Followers -/

theorem acceptLeaderLocked_sameBoundary (term : Nat) (leaderId : NodeId) (saved : Bool) :
    SameBoundary n (n.acceptLeaderLocked term leaderId saved).1 := by
  unfold acceptLeaderLocked
  split
  · exact n.becomeFollowerLocked_sameBoundary term leaderId saved
  · exact ⟨rfl, rfl⟩

/-- What the body leaves alone. -/
theorem appendEntriesBody_frame (request : AppendEntriesRequest)
    (logSaved commitSaved : Bool) :
    (n.appendEntriesBody request logSaved commitSaved).1.role = n.role ∧
    (n.appendEntriesBody request logSaved commitSaved).1.lastSnapshotIndex = n.lastSnapshotIndex ∧
    (n.appendEntriesBody request logSaved commitSaved).1.lastApplied = n.lastApplied := by
  have hframe := appendLoop_frame request.entries ⟨n, false, request.prevLogIndex⟩
  unfold appendEntriesBody
  split
  · rename_i heq
    rw [heq] at hframe
    rw [hframe]
    exact ⟨rfl, rfl, rfl⟩
  · rename_i p heq
    rw [heq] at hframe
    have hp : p.node.role = n.role ∧ p.node.lastSnapshotIndex = n.lastSnapshotIndex ∧
        p.node.lastApplied = n.lastApplied := by
      rw [hframe]
      exact ⟨rfl, rfl, rfl⟩
    split
    · exact ⟨rfl, rfl, rfl⟩
    · have hm : ∀ m : RaftNode,
          (if p.logChanged then p.node.persistStateLocked true else p.node) = m →
          m.role = n.role ∧ m.lastSnapshotIndex = n.lastSnapshotIndex ∧
          m.lastApplied = n.lastApplied := by
        rintro m rfl
        split
        · simpa using hp
        · exact hp
      generalize (if p.logChanged then p.node.persistStateLocked true else p.node) = m at hm
      have hm := hm m rfl
      simp only
      split
      · split
        · simpa using hm
        · exact hm
      · exact hm

theorem onAppendEntries_sameBoundary (request : AppendEntriesRequest)
    (termSaved logSaved commitSaved : Bool) :
    SameBoundary n (n.onAppendEntries request termSaved logSaved commitSaved).1 := by
  have hm := n.acceptLeaderLocked_sameBoundary request.term request.leaderId termSaved
  unfold onAppendEntries
  split
  · exact .refl n
  · simp only
    split
    · exact hm
    · split
      · exact hm
      · obtain ⟨-, hindex, happlied⟩ := (n.acceptLeaderLocked request.term request.leaderId
          termSaved).1.appendEntriesBody_frame request logSaved commitSaved
        exact hm.trans ⟨happlied, hindex⟩

theorem installCheck_sameBoundary {Image : Type} (enabled : Bool)
    (request : InstallSnapshotRequest Image) (saved : Bool) :
    SameBoundary n (n.installCheck enabled request saved).1 := by
  have hm := n.acceptLeaderLocked_sameBoundary request.term request.leaderId saved
  unfold installCheck
  split
  · exact .refl n
  · split
    · exact .refl n
    · simp only
      split
      · exact hm
      · split <;> exact hm

end RaftNode

end CquptRaft
