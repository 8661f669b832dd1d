import CquptRaft.Cluster.BoundaryOrder

/-!
# Where a leader continues with a peer

A leader keeps `next_index_` of every peer above `match_index_` and at most one behind its own
log. A response that reports success moves both upwards together, and the log of a leader holds
everything a peer reports. A refusal names the index to continue from, taken from the log of the
peer. `HandleAppendEntriesResponse` bounds it by the leader's own log, the handler of a refused
snapshot does not, and neither looks at `match_index_`.
-/

namespace CquptRaft

open Replication Voting

variable {σ : Type} {sm : IStateMachine σ} {cfg : ClusterConfig} {H H' : History NodeId LogRecord}

/-! ## Sections -/

/-- The sections that may write `match_index_` and `next_index_`. -/
def Call.writesIndexes {Image : Type} : Call Image → Bool
  | .onElectionWon _ | .appendLocalLogUnlocked _ _ | .buildAppendEntriesRequest _ _
  | .handleAppendEntriesResponse _ _ _ _ | .handleInstallSnapshotResponse _ _ _ _ _ => true
  | _ => false

namespace RaftNode

/-- The next index of a peer is above what the peer has and inside the log. -/
structure NextInside (n : RaftNode) (peer : NodeId) : Prop where
  above : n.matchIndex peer < n.nextIndex peer
  within : n.nextIndex peer ≤ n.lastLogIndexLocked + 1

/-- The index that a refused `AppendEntries` names is above what the peer has: the last own record
of the conflicting term, the index of the conflict, or the end of the peer's log. -/
def AppendHintAbove (n : RaftNode) (peer : NodeId) (response : AppendEntriesResponse) : Prop :=
  if response.conflictTerm ≠ 0 then
    match n.lastIndexOfTerm response.conflictTerm with
    | some index => n.matchIndex peer ≤ index
    | none => n.matchIndex peer < response.conflictIndex
  else if response.conflictIndex ≠ 0 then n.matchIndex peer < response.conflictIndex
  else n.matchIndex peer ≤ response.lastLogIndex

/-- The log of a peer that refuses a snapshot ends between what the peer has acknowledged and the
end of the leader's log. -/
def InstallHintInside (n : RaftNode) (peer : NodeId) (response : InstallSnapshotResponse) : Prop :=
  n.matchIndex peer ≤ response.lastLogIndex ∧ response.lastLogIndex ≤ n.lastLogIndexLocked

/-- The node is still the leader that made the call, so it goes by the response. -/
def Heeds (n : RaftNode) (leaderTerm responseTerm : Nat) : Prop :=
  n.running = true ∧ n.role = .leader ∧ n.currentTerm = leaderTerm ∧ responseTerm ≤ n.currentTerm

instance (n : RaftNode) (leaderTerm responseTerm : Nat) :
    Decidable (n.Heeds leaderTerm responseTerm) := inferInstanceAs (Decidable (_ ∧ _))

/-- A refusal of the peer that a section goes by names an index inside. -/
def HintsInside {Image : Type} (n : RaftNode) (peer : NodeId) : Call Image → Prop
  | .handleAppendEntriesResponse target leaderTerm response _ => target = peer →
    n.Heeds leaderTerm response.term → response.success = false → n.AppendHintAbove peer response
  | .handleInstallSnapshotResponse target leaderTerm _ response _ => target = peer →
    n.Heeds leaderTerm response.term → response.success = false → n.InstallHintInside peer response
  | _ => True

/-- What a section of a leader may do to the indexes of a peer. -/
inductive NextMove {Image : Type} (n n' : RaftNode) (c : Call Image) (peer : NodeId) : Prop where
  | same (hmatch : n'.matchIndex peer = n.matchIndex peer)
    (hnext : n'.nextIndex peer = n.nextIndex peer)
  | filled (hmatch : n'.matchIndex peer = n.matchIndex peer) (hzero : n.nextIndex peer = 0)
  | success (index : Nat) (hmatch : n'.matchIndex peer = max (n.matchIndex peer) index)
    (hnext : n'.nextIndex peer = max (n.nextIndex peer) (index + 1))
  | refusedAppend (leaderTerm : Nat) (response : AppendEntriesResponse) (saved : Bool)
    (hcall : c = .handleAppendEntriesResponse peer leaderTerm response saved)
    (hheeds : n.Heeds leaderTerm response.term) (hrefused : response.success = false)
    (hmatch : n'.matchIndex peer = n.matchIndex peer)
    (hnext : 0 < min (n.hintedNext response) (n.lastLogIndexLocked + 1) →
      n'.nextIndex peer = min (n.hintedNext response) (n.lastLogIndexLocked + 1))
  | refusedInstall (leaderTerm lastIncludedIndex : Nat) (response : InstallSnapshotResponse)
    (saved : Bool)
    (hcall : c = .handleInstallSnapshotResponse peer leaderTerm lastIncludedIndex response saved)
    (hheeds : n.Heeds leaderTerm response.term) (hrefused : response.success = false)
    (hmatch : n'.matchIndex peer = n.matchIndex peer)
    (hnext : n'.nextIndex peer = response.lastLogIndex + 1)

theorem advanceCommitIndexUnlocked_indexes (n : RaftNode) (saved : Bool) :
    (n.advanceCommitIndexUnlocked saved).matchIndex = n.matchIndex ∧
      (n.advanceCommitIndexUnlocked saved).nextIndex = n.nextIndex ∧
      (n.advanceCommitIndexUnlocked saved).role = n.role ∧
      (n.advanceCommitIndexUnlocked saved).currentTerm = n.currentTerm := by
  grind [advanceCommitIndexUnlocked, persistStateLocked]

/-- The other sections leave the indexes of a leader alone. -/
theorem call_steady {Image : Type} (n : RaftNode) (c : Call Image) (hc : c.writesIndexes = false)
    (h : (n.call c).role = .leader) :
    n.role = .leader ∧ (n.call c).currentTerm = n.currentTerm ∧
      (n.call c).matchIndex = n.matchIndex ∧ (n.call c).nextIndex = n.nextIndex := by
  cases c with
  | onElectionWon _ | appendLocalLogUnlocked _ _ | buildAppendEntriesRequest _ _
  | handleAppendEntriesResponse _ _ _ _ | handleInstallSnapshotResponse _ _ _ _ _ => cases hc
  | start | stop => exact ⟨h, rfl, rfl, rfl⟩
  | persist saved => simpa [call] using h
  | advanceCommitIndexUnlocked saved =>
    obtain ⟨hmatch, hnext, hrole, hterm⟩ := n.advanceCommitIndexUnlocked_indexes saved
    exact ⟨hrole ▸ h, hterm, hmatch, hnext⟩
  | startElection saved =>
    grind [call, startElection, resetElectionTimerLocked, cancelElectionTimerLocked,
      persistStateLocked]
  | onRequestVote request termSaved voteSaved =>
    have hrole := n.becomeFollowerLocked_role request.term (-1) termSaved
    grind [call, onRequestVote, resetElectionTimerLocked, cancelElectionTimerLocked,
      persistStateLocked]
  | onVoteResponse term response saved =>
    have hrole := n.becomeFollowerLocked_role response.term (-1) saved
    grind [call, onVoteResponse]
  | onAppendEntries request termSaved logSaved commitSaved =>
    have hrole := n.acceptLeaderLocked_role request.term request.leaderId termSaved
    have hbody := fun m : RaftNode => (m.appendEntriesBody_frame request logSaved commitSaved)
    grind [call, onAppendEntries]
  | installCheck enabled request saved =>
    have hrole := n.acceptLeaderLocked_role request.term request.leaderId saved
    grind [call, installCheck]
  | installFinish request response saved =>
    grind [call, installFinish, adoptSnapshotLocked, compactLogPrefixLocked,
      restoreLogAfterSnapshotLocked, persistStateLocked]
  | applyPick => grind [call, applyPick]
  | applyFinish index saved => grind [call, applyFinish, persistStateLocked]
  | compactAfterSnapshot index term saved =>
    grind [call, compactAfterSnapshot, compactLogPrefixLocked, restoreLogAfterSnapshotLocked,
      persistStateLocked]

/-- A leader behind a section has just been elected, or led the same term before. -/
theorem call_next {Image : Type} (n : RaftNode) (c : Call Image) (h : (n.call c).role = .leader) :
    n.call c = n.becomeLeaderLocked ∨
      n.role = .leader ∧ (n.call c).currentTerm = n.currentTerm ∧
        ∀ peer, peer ≠ n.nodeId → NextMove n (n.call c) c peer := by
  cases c with
  | onElectionWon term =>
    simp only [call, onElectionWon] at h ⊢
    split at h
    · exact .inr ⟨by grind, by grind, fun peer _ => .same (by grind) (by grind)⟩
    · split at h
      · exact .inr ⟨by grind, by grind, fun peer _ => .same (by grind) (by grind)⟩
      · exact .inl (by grind)
  | handleAppendEntriesResponse target leaderTerm response saved =>
    right
    have hrole := n.becomeFollowerLocked_role response.term (-1) saved
    simp only [call, handleAppendEntriesResponse] at h ⊢
    split at h
    · rename_i hstopped
      simp only [hstopped, if_true]
      exact ⟨h, trivial, fun peer _ => .same rfl rfl⟩
    · rename_i hrunning
      simp only [if_neg hrunning]
      split at h
      · rw [hrole] at h
        cases h
      · rename_i hterm
        simp only [if_neg hterm]
        split at h
        · rename_i hno
          simp only [if_pos hno]
          exact ⟨h, trivial, fun peer _ => .same rfl rfl⟩
        · rename_i hleader
          simp only [if_neg hleader]
          simp only [not_or, not_not] at hleader
          have hheeds : n.Heeds leaderTerm response.term :=
            ⟨by simpa using hrunning, hleader.1, hleader.2, not_lt.mp hterm⟩
          split at h
          · rename_i hsuccess
            simp only [if_pos hsuccess]
            obtain ⟨hmatch, hnext, -, hterm'⟩ := advanceCommitIndexUnlocked_indexes { n with
              matchIndex := Function.update n.matchIndex target
                (max (n.matchIndex target) response.matchIndex)
              nextIndex := Function.update n.nextIndex target
                (max (n.nextIndex target) (response.matchIndex + 1)) } saved
            refine ⟨hleader.1, hterm', fun peer _ => ?_⟩
            by_cases hpeer : peer = target
            · subst hpeer
              exact .success response.matchIndex (by rw [hmatch]; simp) (by rw [hnext]; simp)
            · exact .same (by rw [hmatch]; simp [hpeer]) (by rw [hnext]; simp [hpeer])
          · rename_i hrefused
            simp only [if_neg hrefused]
            refine ⟨hleader.1, trivial, fun peer _ => ?_⟩
            by_cases hpeer : peer = target
            · subst hpeer
              refine .refusedAppend leaderTerm response saved rfl hheeds (by simpa using hrefused)
                rfl fun hpos => ?_
              simp only [Function.update_self, if_pos hpos]
            · exact .same rfl (by simp [hpeer])
  | handleInstallSnapshotResponse target leaderTerm index response saved =>
    right
    have hrole := n.becomeFollowerLocked_role response.term (-1) saved
    simp only [call, handleInstallSnapshotResponse] at h ⊢
    split at h
    · rw [hrole] at h
      cases h
    · rename_i hterm
      simp only [if_neg hterm]
      split at h
      · rename_i hno
        simp only [if_pos hno]
        exact ⟨h, trivial, fun peer _ => .same rfl rfl⟩
      · rename_i hleader
        simp only [if_neg hleader]
        simp only [not_or, not_not] at hleader
        have hheeds : n.Heeds leaderTerm response.term :=
          ⟨by simpa using hleader.1, hleader.2.1, hleader.2.2, not_lt.mp hterm⟩
        split at h
        · rename_i hrefused
          simp only [if_pos hrefused]
          refine ⟨hleader.2.1, trivial, fun peer _ => ?_⟩
          by_cases hpeer : peer = target
          · subst hpeer
            exact .refusedInstall leaderTerm index response saved rfl hheeds
              (by simpa using hrefused) rfl (by simp)
          · exact .same rfl (by simp [hpeer])
        · rename_i hsuccess
          simp only [if_neg hsuccess]
          refine ⟨hleader.2.1, trivial, fun peer _ => ?_⟩
          by_cases hpeer : peer = target
          · subst hpeer
            exact .success index (by simp) (by simp)
          · exact .same (by simp [hpeer]) (by simp [hpeer])
  | buildAppendEntriesRequest target leaderTerm =>
    right
    have hsame : (n.buildAppendEntriesRequest target leaderTerm).1.role = n.role ∧
        (n.buildAppendEntriesRequest target leaderTerm).1.currentTerm = n.currentTerm ∧
        (n.buildAppendEntriesRequest target leaderTerm).1.matchIndex = n.matchIndex ∧
        ((n.buildAppendEntriesRequest target leaderTerm).1.nextIndex = n.nextIndex ∨
          (n.buildAppendEntriesRequest target leaderTerm).1.nextIndex =
            Function.update n.nextIndex target (if n.nextIndex target = 0
              then n.lastLogIndexLocked + 1 else n.nextIndex target)) := by
      grind [buildAppendEntriesRequest]
    obtain ⟨hrole, hterm, hmatch, hnext⟩ := hsame
    refine ⟨hrole ▸ h, hterm, fun peer _ => ?_⟩
    by_cases hzero : n.nextIndex peer = 0
    · exact .filled (congrFun hmatch peer) hzero
    · refine .same (congrFun hmatch peer) ?_
      rcases hnext with hnext | hnext
      · exact congrFun hnext peer
      · refine (congrFun hnext peer).trans ?_
        rw [Function.update_apply]
        split
        · rename_i hpeer
          rw [← hpeer, if_neg hzero]
        · rfl
  | appendLocalLogUnlocked commandData saved =>
    right
    simp only [call, appendLocalLogUnlocked] at h ⊢
    split at h
    · rename_i hsaved
      simp only [if_pos hsaved]
      refine ⟨by simpa using h, by simp, fun peer hpeer => .same ?_ ?_⟩ <;> simp [hpeer]
    · rename_i hsaved
      simp only [if_neg hsaved]
      refine ⟨h, trivial, fun peer hpeer => .same ?_ ?_⟩ <;> simp [hpeer]
  | _ =>
    obtain ⟨hrole, hterm, hmatch, hnext⟩ := n.call_steady _ rfl h
    exact .inr ⟨hrole, hterm, fun peer _ => .same (congrFun hmatch peer) (congrFun hnext peer)⟩

/-- A section that goes by hints inside keeps the next index inside. -/
theorem NextMove.inside {Image : Type} {n n' : RaftNode} {c : Call Image} {peer : NodeId}
    (h : NextMove n n' c peer) (hinside : n.NextInside peer) (hhints : n.HintsInside peer c)
    (hmatch : n'.matchIndex peer ≤ n'.lastLogIndexLocked)
    (hlast : n.lastLogIndexLocked ≤ n'.lastLogIndexLocked) : n'.NextInside peer := by
  obtain ⟨habove, hwithin⟩ := hinside
  cases h with
  | same hm hn => exact ⟨by omega, by omega⟩
  | filled hm hzero => omega
  | success index hm hn => exact ⟨by omega, by omega⟩
  | refusedAppend leaderTerm response saved hcall hheeds hrefused hm hn =>
    subst hcall
    have hhint : n.matchIndex peer < n.hintedNext response := by
      have habove := hhints rfl hheeds hrefused
      grind [AppendHintAbove, hintedNext]
    have hnext := hn (by omega)
    exact ⟨by omega, by omega⟩
  | refusedInstall leaderTerm index response saved hcall hheeds hrefused hm hn =>
    subst hcall
    obtain ⟨hlow, hhigh⟩ := hhints rfl hheeds hrefused
    exact ⟨by omega, by omega⟩

/-- A leader starts behind the end of its log with every peer. -/
theorem becomeLeaderLocked_inside {n : RaftNode} {peer : NodeId} (hpeer : peer ∈ n.peers)
    (hself : peer ≠ n.nodeId) : n.becomeLeaderLocked.NextInside peer := by
  have hlast : n.becomeLeaderLocked.lastLogIndexLocked = n.lastLogIndexLocked := rfl
  constructor
  · simp [becomeLeaderLocked, hpeer, hself]
  · rw [hlast]
    simp [becomeLeaderLocked, hpeer]

end RaftNode

/-! ## Histories -/

/-- A leader whose next index is inside finds the record before it, or has compacted it. -/
theorem RaftNode.NextInside.snapshot_le {c : Cluster σ sm.Image} (h : SimInv cfg H c)
    {p peer : NodeId} (hp : p ∈ cfg.ids) (hup : (c.members p).up = true)
    (hrole : (c.members p).node.role = .leader)
    (hinside : (c.members p).node.NextInside peer) (leaderTerm : Nat)
    (hsnapshot : ((c.members p).node.buildAppendEntriesRequest peer leaderTerm).2 = .snapshot) :
    (c.members p).node.nextIndex peer ≤ (c.members p).node.firstLogIndexLocked := by
  obtain ⟨mem, dur, hprocess⟩ := h.process hp hup
  obtain ⟨hlead, -⟩ := hprocess.leader hrole
  have hrep := hprocess.node.represents
  obtain ⟨habove, hwithin⟩ := hinside
  generalize (c.members p).node = n at *
  by_contra hbehind
  have hnext : n.nextIndex peer ≠ 0 := by omega
  have hsame : Function.update n.nextIndex peer (n.nextIndex peer) = n.nextIndex :=
    Function.update_eq_self _ _
  simp only [RaftNode.buildAppendEntriesRequest, if_neg hnext, hsame] at hsnapshot
  split at hsnapshot
  · cases hsnapshot
  · rw [hrep.lastLogIndexLocked] at hwithin
    have hmoved : Represents { n with nextIndex := n.nextIndex } mem :=
      hrep.congr rfl rfl rfl rfl rfl
    split at hsnapshot
    · rename_i hunknown
      rw [hrep.firstLogIndexLocked] at hbehind
      rw [hmoved.termAtIndexLocked (by omega) (by omega), hlead.log] at hunknown
      have hpos := (h.valid.leaderLog_good mem.term).termAt_pos h.term_pos
        (i := n.nextIndex peer - 1) (by omega) (by rw [← hlead.log]; omega)
      omega
    · cases hsnapshot

/-- A node that has just been constructed does not lead. -/
theorem Member.restart_role {m : Member σ sm.Image} {q : NodeId} {readable : Nat → Bool}
    {saved : Bool} {replaySaved : Nat → Bool} (hdown : m.up = false)
    (hup : (m.restart sm cfg q readable saved replaySaved).up = true) :
    (m.restart sm cfg q readable saved replaySaved).node.role ≠ .leader := by
  have hkept := m.restart_induct
    (P := VotesKept (RaftNode.recover q (cfg.peers q) m.node.storage)) cfg q readable saved
    replaySaved (fun _ _ hload => RaftNode.loadLatestSnapshotOnStartup_votesKept hload)
    (fun n' h => h.trans n'.applyPick_votesKept)
    (fun n' index saved h _ => h.trans (n'.applyFinish_votesKept index saved))
  obtain ⟨n, kv, hn, heq⟩ | ⟨storage, -, heq⟩ := hkept
  · rw [heq]
    intro hrole
    have hrecovered := (hn.leader hrole).1
    rw [RaftNode.recover_role] at hrecovered
    cases hrecovered
  · rw [heq, hdown] at hup
    cases hup

end CquptRaft
