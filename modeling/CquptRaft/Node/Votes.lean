import CquptRaft.Node.Snapshot
import CquptRaft.Replication.Replicator
import CquptRaft.Theory.Voting

/-!
# What a critical section does to term and vote

Every section except the two that cast a vote moves term and vote only to a later term with
no vote, leaves durable a ballot it has held on the way, and makes no leader. `VotesKept` says
so, and is proved once for each section.
-/

namespace CquptRaft

open Voting

/-- Term and vote in memory. -/
def RaftNode.ballot (n : RaftNode) : Nat × NodeId := (n.currentTerm, n.votedFor)

/-- Term and vote on disk. -/
def PersistentRaftState.ballot (s : PersistentRaftState) : Nat × NodeId :=
  (s.currentTerm, s.votedFor)

@[simp] theorem RaftNode.persistentState_ballot (n : RaftNode) :
    n.persistentState.ballot = n.ballot := rfl

/-- The durable ballot of a node. -/
def RaftNode.durable (n : RaftNode) : Option (Nat × NodeId) :=
  n.storage.map PersistentRaftState.ballot

/-- The step from `n` to `n'` casts no vote and makes no leader. -/
structure VotesKept (n n' : RaftNode) : Prop where
  nodeId : n'.nodeId = n.nodeId
  peers : n'.peers = n.peers
  ballot : Later (-1) n.ballot n'.ballot
  storage : n'.storage = n.storage ∨
    ∃ s, n'.storage = some s ∧ Later (-1) n.ballot s.ballot ∧ Later (-1) s.ballot n'.ballot
  leader : n'.role = .leader → n.role = .leader ∧ n'.currentTerm = n.currentTerm

namespace VotesKept

variable {n n' n'' : RaftNode}

theorem follows (h : VotesKept n n') : Follows (-1) n.durable n'.durable n.ballot n'.ballot := by
  rcases h.storage with heq | ⟨s, hs, hfrom, hto⟩
  · exact .inl (by rw [RaftNode.durable, heq, RaftNode.durable])
  · exact .inr ⟨s.ballot, by rw [RaftNode.durable, hs, Option.map_some], hfrom, hto⟩

theorem refl : VotesKept n n := ⟨rfl, rfl, .refl, .inl rfl, fun h => ⟨h, rfl⟩⟩

theorem trans (h : VotesKept n n') (h' : VotesKept n' n'') : VotesKept n n'' where
  nodeId := h'.nodeId.trans h.nodeId
  peers := h'.peers.trans h.peers
  ballot := h.ballot.trans h'.ballot
  storage := by
    rcases h'.storage with heq | ⟨s, hs, hfrom, hto⟩
    · rcases h.storage with heq' | ⟨s, hs, hfrom, hto⟩
      · exact .inl (heq.trans heq')
      · exact .inr ⟨s, heq.trans hs, hfrom, hto.trans h'.ballot⟩
    · exact .inr ⟨s, hs, h.ballot.trans hfrom, hto⟩
  leader hrole :=
    have hl := h'.leader hrole
    have hl' := h.leader hl.1
    ⟨hl'.1, hl.2.trans hl'.2⟩

/-- A section that touches neither ballot, nor disk, nor role. -/
theorem of_eq (hid : n'.nodeId = n.nodeId) (hpeers : n'.peers = n.peers)
    (hterm : n'.currentTerm = n.currentTerm) (hvote : n'.votedFor = n.votedFor)
    (hstorage : n'.storage = n.storage) (hrole : n'.role = n.role) : VotesKept n n' where
  nodeId := hid
  peers := hpeers
  ballot := .inl (by simp [RaftNode.ballot, hterm, hvote])
  storage := .inl hstorage
  leader h := ⟨hrole ▸ h, hterm⟩

theorem persist (h : VotesKept n n') (saved : Bool) :
    VotesKept n (n'.persistStateLocked saved) := by
  unfold RaftNode.persistStateLocked
  split
  · exact ⟨h.nodeId, h.peers, h.ballot, .inr ⟨_, rfl, h.ballot, .refl⟩, h.leader⟩
  · exact h

end VotesKept

/-- The step from `n` to `n'` makes a vote for `a` durable. -/
structure VoteCast (n n' : RaftNode) (a : NodeId) : Prop where
  nodeId : n'.nodeId = n.nodeId
  peers : n'.peers = n.peers
  mayVote : MayVote (-1) n.ballot n'.currentTerm a
  ballot : n'.ballot = (n'.currentTerm, a)
  durable : n'.durable = some n'.ballot
  leader : n'.role = .leader → n.role = .leader ∧ n'.currentTerm = n.currentTerm

theorem VoteCast.le_term {n n' : RaftNode} {a : NodeId} (h : VoteCast n n' a) :
    n.currentTerm ≤ n'.currentTerm := by
  rcases h.mayVote with hlt | ⟨heq, -⟩
  · exact hlt.le
  · exact heq.le

namespace RaftNode

variable {n : RaftNode}

theorem becomeFollowerLocked_votesKept (newTerm : Nat) (newLeader : NodeId) (saved : Bool) :
    VotesKept n (n.becomeFollowerLocked newTerm newLeader saved).1 := by
  unfold becomeFollowerLocked
  split
  · rename_i hlt
    refine VotesKept.persist ?_ saved
    exact ⟨rfl, rfl, .inr ⟨hlt, rfl⟩, .inl rfl, fun h => absurd h (by simp [
      resetElectionTimerLocked, cancelElectionTimerLocked])⟩
  · exact ⟨rfl, rfl, .refl, .inl rfl, fun h => absurd h (by simp [
      resetElectionTimerLocked, cancelElectionTimerLocked])⟩

theorem acceptLeaderLocked_votesKept (term : Nat) (leaderId : NodeId) (saved : Bool) :
    VotesKept n (n.acceptLeaderLocked term leaderId saved).1 := by
  unfold acceptLeaderLocked
  split
  · exact becomeFollowerLocked_votesKept term leaderId saved
  · exact .of_eq rfl rfl rfl rfl rfl rfl

theorem appendLocalLogUnlocked_votesKept (commandData : Bytes) (saved : Bool) :
    VotesKept n (n.appendLocalLogUnlocked commandData saved).1 := by
  unfold appendLocalLogUnlocked
  cases saved with
  | true =>
    refine VotesKept.persist ?_ true
    exact .of_eq rfl rfl rfl rfl rfl rfl
  | false => exact .of_eq rfl rfl rfl rfl rfl rfl

theorem advanceCommitIndexUnlocked_votesKept (saved : Bool) :
    VotesKept n (n.advanceCommitIndexUnlocked saved) := by
  unfold advanceCommitIndexUnlocked
  split
  · exact .refl
  · split
    · exact .refl
    · refine VotesKept.persist ?_ saved
      exact .of_eq rfl rfl rfl rfl rfl rfl

/-- The loop edits nothing but the log. -/
theorem appendLoop_frame (entries : List LogRecord) (p : AppendProgress) :
    match appendLoop p entries with
    | .inl (m, _) => m = { p.node with log := m.log }
    | .inr q => q.node = { p.node with log := q.node.log } := by
  fun_induction appendLoop p entries with
  | case1 p => rfl
  | case2 p entry rest hold ih => exact ih
  | case3 p entry rest hold gap => rfl
  | case4 p entry rest hold gap has offset same ih => exact ih
  | case5 p entry rest hold gap has offset same ih =>
    revert ih
    split <;> intro ih <;> rw [ih]
  | case6 p entry rest hold gap has ih =>
    revert ih
    split <;> intro ih <;> rw [ih]

theorem appendEntriesBody_votesKept (request : AppendEntriesRequest)
    (logSaved commitSaved : Bool) :
    VotesKept n (n.appendEntriesBody request logSaved commitSaved).1 := by
  have hframe := appendLoop_frame request.entries ⟨n, false, request.prevLogIndex⟩
  unfold appendEntriesBody
  split
  · rename_i m probe heq
    rw [heq] at hframe
    exact .of_eq (by rw [hframe]) (by rw [hframe]) (by rw [hframe]) (by rw [hframe])
      (by rw [hframe]) (by rw [hframe])
  · rename_i p heq
    rw [heq] at hframe
    have hp : VotesKept n p.node := .of_eq (by rw [hframe]) (by rw [hframe]) (by rw [hframe])
      (by rw [hframe]) (by rw [hframe]) (by rw [hframe])
    split
    · exact .refl
    · have hm : VotesKept n (if p.logChanged then p.node.persistStateLocked true else p.node) := by
        split
        · exact hp.persist true
        · exact hp
      generalize (if p.logChanged then p.node.persistStateLocked true else p.node) = m at hm
      simp only
      split
      · split
        · refine VotesKept.persist (hm.trans ?_) true
          exact .of_eq rfl rfl rfl rfl rfl rfl
        · exact hm
      · exact hm

theorem onAppendEntries_votesKept (request : AppendEntriesRequest)
    (termSaved logSaved commitSaved : Bool) :
    VotesKept n (n.onAppendEntries request termSaved logSaved commitSaved).1 := by
  have haccept := acceptLeaderLocked_votesKept (n := n) request.term request.leaderId termSaved
  unfold onAppendEntries
  split
  · exact .refl
  · simp only
    split
    · exact haccept
    · split
      · exact haccept
      · exact haccept.trans (appendEntriesBody_votesKept request logSaved commitSaved)

theorem onVoteResponse_votesKept (term : Nat) (response : VoteResponse) (saved : Bool) :
    VotesKept n (n.onVoteResponse term response saved).1 := by
  unfold onVoteResponse
  split
  · exact .refl
  · split
    · exact becomeFollowerLocked_votesKept _ _ saved
    · split <;> exact .refl

/-- Only a granted vote is counted. -/
theorem onVoteResponse_counts (term : Nat) (response : VoteResponse) (saved : Bool) :
    (n.onVoteResponse term response saved).2 = true → response.voteGranted = true := by
  unfold onVoteResponse
  split
  · simp
  · split
    · simp
    · split
      · simp
      · exact id

theorem handleAppendEntriesResponse_votesKept (peer : NodeId) (leaderTerm : Nat)
    (response : AppendEntriesResponse) (saved : Bool) :
    VotesKept n (n.handleAppendEntriesResponse peer leaderTerm response saved) := by
  unfold handleAppendEntriesResponse
  split
  · exact .refl
  · split
    · exact becomeFollowerLocked_votesKept _ _ saved
    · split
      · exact .refl
      · split
        · refine VotesKept.trans ?_ (advanceCommitIndexUnlocked_votesKept saved)
          exact .of_eq rfl rfl rfl rfl rfl rfl
        · exact .of_eq rfl rfl rfl rfl rfl rfl

theorem handleInstallSnapshotResponse_votesKept (peer : NodeId) (leaderTerm index : Nat)
    (response : InstallSnapshotResponse) (saved : Bool) :
    VotesKept n (n.handleInstallSnapshotResponse peer leaderTerm index response saved) := by
  unfold handleInstallSnapshotResponse
  split
  · exact becomeFollowerLocked_votesKept _ _ saved
  · split
    · exact .refl
    · split <;> exact .of_eq rfl rfl rfl rfl rfl rfl

/-- Building a request touches nothing but `next_index_`. -/
theorem buildAppendEntriesRequest_frame (peer : NodeId) (leaderTerm : Nat) :
    ∃ next, (n.buildAppendEntriesRequest peer leaderTerm).1 = { n with nextIndex := next } := by
  unfold buildAppendEntriesRequest
  split
  · exact ⟨n.nextIndex, rfl⟩
  · generalize (if n.nextIndex peer = 0 then n.lastLogIndexLocked + 1 else n.nextIndex peer) = next
    refine ⟨Function.update n.nextIndex peer next, ?_⟩
    simp only
    split
    · rfl
    · split <;> rfl

theorem buildAppendEntriesRequest_votesKept (peer : NodeId) (leaderTerm : Nat) :
    VotesKept n (n.buildAppendEntriesRequest peer leaderTerm).1 := by
  obtain ⟨next, hnext⟩ := n.buildAppendEntriesRequest_frame peer leaderTerm
  rw [hnext]
  exact .of_eq rfl rfl rfl rfl rfl rfl

theorem restoreLogAfterSnapshotLocked_votesKept (index term : Nat) (keep : Bool) :
    VotesKept n (n.restoreLogAfterSnapshotLocked index term keep) := by
  unfold restoreLogAfterSnapshotLocked
  split
  · exact .refl
  · exact .of_eq rfl rfl rfl rfl rfl rfl

theorem compactAfterSnapshot_votesKept (index term : Nat) (saved : Bool) :
    VotesKept n (n.compactAfterSnapshot index term saved) := by
  unfold compactAfterSnapshot
  split
  · exact .persist (restoreLogAfterSnapshotLocked_votesKept index term true) saved
  · exact .refl

theorem installCheck_votesKept {Image : Type} (enabled : Bool)
    (request : InstallSnapshotRequest Image) (saved : Bool) :
    VotesKept n (n.installCheck enabled request saved).1 := by
  have haccept := acceptLeaderLocked_votesKept (n := n) request.term request.leaderId saved
  unfold installCheck
  split
  · exact .refl
  · split
    · exact .refl
    · simp only
      split
      · exact haccept
      · split <;> exact haccept

theorem installFinish_votesKept {Image : Type} (request : InstallSnapshotRequest Image)
    (response : InstallSnapshotResponse) (saved : Bool) :
    VotesKept n (n.installFinish request response saved).1 := by
  have hadopt : VotesKept n
      (n.adoptSnapshotLocked request.lastIncludedIndex request.lastIncludedTerm) :=
    (restoreLogAfterSnapshotLocked_votesKept _ _ true).trans (.of_eq rfl rfl rfl rfl rfl rfl)
  unfold installFinish
  split
  · exact .refl
  · cases saved with
    | true => exact hadopt.persist true
    | false => exact hadopt

theorem applyPick_votesKept : VotesKept n n.applyPick.1 := by
  unfold applyPick
  simp only
  split
  · exact .of_eq rfl rfl rfl rfl rfl rfl
  · split <;> exact .of_eq rfl rfl rfl rfl rfl rfl

/-- An entry to apply is committed. -/
theorem applyPick_entry {n m : RaftNode} {index : Nat} {command : Bytes}
    (h : n.applyPick = (m, .entry index command)) : index ≤ m.commitIndex := by
  unfold applyPick at h
  simp only at h
  split at h
  · cases h
  · split at h
    · cases h
    · rename_i hlt _ _ _
      cases h
      exact not_le.mp hlt

theorem applyFinish_votesKept (index : Nat) (saved : Bool) :
    VotesKept n (n.applyFinish index saved).1 := by
  unfold applyFinish
  split
  · refine VotesKept.persist ?_ saved
    exact .of_eq rfl rfl rfl rfl rfl rfl
  · exact .refl

/-! ## The sections that cast a vote -/

theorem startElection_cases (saved : Bool) :
    (n.startElection saved).2 = false ∧ VotesKept n (n.startElection saved).1 ∨
    (n.startElection saved).2 = true ∧ VoteCast n (n.startElection saved).1 n.nodeId ∧
      (n.startElection saved).1.currentTerm = n.currentTerm + 1 := by
  unfold startElection
  split
  · exact .inl ⟨rfl, .refl⟩
  · cases saved with
    | false => exact .inl ⟨rfl, .of_eq rfl rfl rfl rfl rfl rfl⟩
    | true =>
      refine .inr ⟨rfl, ⟨rfl, rfl, .inl ?_, rfl, rfl, fun h => ?_⟩, rfl⟩
      · exact Nat.lt_succ_self _
      · exact absurd h (by simp [persistStateLocked, resetElectionTimerLocked,
          cancelElectionTimerLocked])

theorem onRequestVote_cases (request : VoteRequest) (termSaved voteSaved : Bool) :
    (n.onRequestVote request termSaved voteSaved).2.voteGranted = false ∧
      VotesKept n (n.onRequestVote request termSaved voteSaved).1 ∨
    (n.onRequestVote request termSaved voteSaved).2.voteGranted = true ∧
      VoteCast n (n.onRequestVote request termSaved voteSaved).1 request.candidateId ∧
      (n.onRequestVote request termSaved voteSaved).1.currentTerm = request.term := by
  unfold onRequestVote
  split
  · exact .inl ⟨rfl, .refl⟩
  · rename_i hterm
    -- the node behind the term check, and what it may still do
    have hmove : ∃ m ok, (if n.currentTerm < request.term
          then n.becomeFollowerLocked request.term (-1) termSaved else (n, true)) = (m, ok) ∧
        VotesKept n m ∧ m.currentTerm = request.term ∧
        (m.ballot = n.ballot ∨ n.currentTerm < request.term) := by
      split
      · rename_i hlt
        refine ⟨(n.becomeFollowerLocked request.term (-1) termSaved).1,
          (n.becomeFollowerLocked request.term (-1) termSaved).2, rfl,
          becomeFollowerLocked_votesKept _ _ _, ?_, .inr hlt⟩
        simp [hlt.le]
      · exact ⟨n, true, rfl, .refl, by omega, .inl rfl⟩
    obtain ⟨m, ok, heq, hkept, hm, hfrom⟩ := hmove
    simp only [heq]
    split
    · exact .inl ⟨rfl, hkept⟩
    · split
      · rename_i hvote
        cases voteSaved with
        | false => exact .inl ⟨rfl, hkept⟩
        | true =>
          refine .inr ⟨rfl, ⟨hkept.nodeId, hkept.peers, ?_, rfl, rfl, hkept.leader⟩, hm⟩
          rcases hfrom with hballot | hlt
          · rw [← hballot]
            exact .inr ⟨rfl, hvote.1⟩
          · exact .inl (hm ▸ hlt)
      · exact .inl ⟨rfl, hkept⟩

theorem onElectionWon_cases (term : Nat) :
    (n.onElectionWon term).1 = n ∨ n.role = .candidate ∧ n.currentTerm = term ∧
      (n.onElectionWon term).1 = n.becomeLeaderLocked := by
  unfold onElectionWon
  split
  · exact .inl rfl
  · split
    · exact .inl rfl
    · rename_i h
      simp only [ne_eq, not_or, not_not] at h
      exact .inr ⟨h.1, h.2, rfl⟩

/-! ## Recovery -/

theorem recover_nodeId (id : NodeId) (peers : List NodeId)
    (storage : Option PersistentRaftState) : (recover id peers storage).nodeId = id := by
  unfold recover
  split <;> rfl

theorem recover_peers (id : NodeId) (peers : List NodeId)
    (storage : Option PersistentRaftState) : (recover id peers storage).peers = peers := by
  unfold recover
  split <;> rfl

theorem recover_storage (id : NodeId) (peers : List NodeId)
    (storage : Option PersistentRaftState) : (recover id peers storage).storage = storage := by
  unfold recover
  split <;> rfl

theorem recover_role (id : NodeId) (peers : List NodeId)
    (storage : Option PersistentRaftState) : (recover id peers storage).role = .follower := by
  unfold recover
  split <;> rfl

theorem recover_ballot (id : NodeId) (peers : List NodeId)
    (storage : Option PersistentRaftState) :
    (recover id peers storage).ballot = (storage.map PersistentRaftState.ballot).getD (0, -1) := by
  cases storage <;> rfl

theorem loadLatestSnapshotOnStartup_votesKept {σ : Type} {sm : IStateMachine σ}
    {config : SnapshotConfig} {dir : List (Snapshot sm.Image)} {readable : Nat → Bool}
    {saved : Bool} {n' : RaftNode} {kv : σ}
    (h : loadLatestSnapshotOnStartup sm n config dir readable saved = some (n', kv)) :
    VotesKept n n' := by
  unfold loadLatestSnapshotOnStartup at h
  split at h
  · cases h
    exact .refl
  · split at h
    · cases h
      exact .refl
    · split at h
      · cases h
        refine VotesKept.persist ?_ true
        exact (restoreLogAfterSnapshotLocked_votesKept _ _ true).trans
          (.of_eq rfl rfl rfl rfl rfl rfl)
      · cases h

/-- What every pass of the replay keeps holds behind the replay. -/
theorem replayCommittedEntries_induct {σ : Type} {sm : IStateMachine σ} {saved : Nat → Bool}
    {P : RaftNode → Prop} (hpick : ∀ n, P n → P n.applyPick.1)
    (hfinish : ∀ n index saved, P n → index ≤ n.commitIndex → P (n.applyFinish index saved).1)
    {fuel : Nat} {n : RaftNode} {kv : σ} (h : P n) :
    P (replayCommittedEntries sm saved fuel n kv).1 := by
  induction fuel generalizing n kv with
  | zero => exact h
  | succ fuel ih =>
    have hpicked := hpick n h
    rw [replayCommittedEntries]
    split
    · rename_i heq
      rwa [heq] at hpicked
    · rename_i heq
      rwa [heq] at hpicked
    · rename_i m index command heq
      have hindex := applyPick_entry heq
      rw [heq] at hpicked
      split
      · exact hpicked
      · have hfinished := hfinish m index (saved index) hpicked hindex
        split
        · rename_i heq'
          rw [heq'] at hfinished
          exact ih hfinished
        · rename_i heq'
          rwa [heq'] at hfinished

/-- What holds behind the load of the snapshot and is kept by every pass of the replay holds of
the node whose state the constructor leaves. -/
theorem construct_induct {σ : Type} {sm : IStateMachine σ} {id : NodeId} {peers : List NodeId}
    {storage : Option PersistentRaftState} {config : SnapshotConfig}
    {dir : List (Snapshot sm.Image)} {readable : Nat → Bool} {saved : Bool}
    {P : RaftNode → Prop} (replaySaved : Nat → Bool)
    (hload : ∀ n kv, loadLatestSnapshotOnStartup sm (recover id peers storage) config dir readable
      saved = some (n, kv) → P n)
    (hpick : ∀ n, P n → P n.applyPick.1)
    (hfinish : ∀ n index saved, P n → index ≤ n.commitIndex → P (n.applyFinish index saved).1) :
    (∃ n kv, P n ∧
      construct sm id peers storage config dir readable saved replaySaved = .ready n kv) ∨
    ∃ storage', (storage' = storage ∨ ∃ n, P n ∧ storage' = n.storage) ∧
      construct sm id peers storage config dir readable saved replaySaved = .thrown storage' := by
  unfold construct
  cases heq : loadLatestSnapshotOnStartup sm (recover id peers storage) config dir readable
    saved with
  | none => exact .inr ⟨storage, .inl rfl, rfl⟩
  | some loaded =>
    obtain ⟨n, kv⟩ := loaded
    have hn := hload n kv heq
    simp only
    split
    · have hreplayed : P (replayCommittedEntries sm replaySaved (n.commitIndex + 1) n kv).1 :=
        replayCommittedEntries_induct hpick hfinish hn
      generalize replayCommittedEntries sm replaySaved (n.commitIndex + 1) n kv = result at *
      obtain ⟨n', kv', _ | _⟩ := result
      · exact .inr ⟨_, .inr ⟨n', hreplayed, rfl⟩, rfl⟩
      · exact .inl ⟨n', kv', hreplayed, rfl⟩
    · exact .inl ⟨n, kv, hn, rfl⟩

end RaftNode

end CquptRaft
