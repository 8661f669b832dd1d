import CquptRaft.Node.Boundaries

/-!
# Sequences of critical sections

A `Call` is a critical section with any arguments: any request fields, any outcome of its
`Save`s, any boundary for a compaction. What holds along every sequence of calls holds for every
interleaving of the threads of a node, whatever its peers send.

Two facts hold along every such sequence: the log is a run of consecutive records that starts at
the snapshot boundary, and term, commit index, apply index and boundary never go back.
-/

namespace CquptRaft

inductive Call (Image : Type) where
  | start
  | stop
  | persist (saved : Bool)
  | startElection (saved : Bool)
  | onRequestVote (request : VoteRequest) (termSaved voteSaved : Bool)
  | onVoteResponse (term : Nat) (response : VoteResponse) (saved : Bool)
  | onElectionWon (term : Nat)
  | appendLocalLogUnlocked (commandData : Bytes) (saved : Bool)
  | advanceCommitIndexUnlocked (saved : Bool)
  | buildAppendEntriesRequest (peer : NodeId) (leaderTerm : Nat)
  | handleAppendEntriesResponse (peer : NodeId) (leaderTerm : Nat)
      (response : AppendEntriesResponse) (saved : Bool)
  | handleInstallSnapshotResponse (peer : NodeId) (leaderTerm lastIncludedIndex : Nat)
      (response : InstallSnapshotResponse) (saved : Bool)
  | onAppendEntries (request : AppendEntriesRequest) (termSaved logSaved commitSaved : Bool)
  | installCheck (enabled : Bool) (request : InstallSnapshotRequest Image) (saved : Bool)
  | installFinish (request : InstallSnapshotRequest Image) (response : InstallSnapshotResponse)
      (saved : Bool)
  | applyPick
  | applyFinish (index : Nat) (saved : Bool)
  | compactAfterSnapshot (index term : Nat) (saved : Bool)

/-- The sections that write the log. -/
def Call.writesLog {Image : Type} : Call Image → Bool
  | .appendLocalLogUnlocked _ _ | .onAppendEntries _ _ _ _ | .installFinish _ _ _
  | .compactAfterSnapshot _ _ _ => true
  | _ => false

/-- The sections that may move the snapshot boundary or the apply index. -/
def Call.movesBoundary {Image : Type} : Call Image → Bool
  | .installFinish _ _ _ | .applyPick | .applyFinish _ _ | .compactAfterSnapshot _ _ _ => true
  | _ => false

namespace RaftNode

variable {Image : Type}

/-- The node behind one section. -/
def call (n : RaftNode) : Call Image → RaftNode
  | .start => { n with running := true }
  | .stop => { n.cancelElectionTimerLocked with running := false }
  | .persist saved => n.persistStateLocked saved
  | .startElection saved => (n.startElection saved).1
  | .onRequestVote request termSaved voteSaved => (n.onRequestVote request termSaved voteSaved).1
  | .onVoteResponse term response saved => (n.onVoteResponse term response saved).1
  | .onElectionWon term => (n.onElectionWon term).1
  | .appendLocalLogUnlocked commandData saved => (n.appendLocalLogUnlocked commandData saved).1
  | .advanceCommitIndexUnlocked saved => n.advanceCommitIndexUnlocked saved
  | .buildAppendEntriesRequest peer leaderTerm => (n.buildAppendEntriesRequest peer leaderTerm).1
  | .handleAppendEntriesResponse peer leaderTerm response saved =>
    n.handleAppendEntriesResponse peer leaderTerm response saved
  | .handleInstallSnapshotResponse peer leaderTerm lastIncludedIndex response saved =>
    n.handleInstallSnapshotResponse peer leaderTerm lastIncludedIndex response saved
  | .onAppendEntries request termSaved logSaved commitSaved =>
    (n.onAppendEntries request termSaved logSaved commitSaved).1
  | .installCheck enabled request saved => (n.installCheck enabled request saved).1
  | .installFinish request response saved => (n.installFinish request response saved).1
  | .applyPick => n.applyPick.1
  | .applyFinish index saved => (n.applyFinish index saved).1
  | .compactAfterSnapshot index term saved => n.compactAfterSnapshot index term saved

/-- The node behind a sequence of sections. -/
def calls (n : RaftNode) (cs : List (Call Image)) : RaftNode := cs.foldl call n

@[simp] theorem calls_nil (n : RaftNode) : n.calls ([] : List (Call Image)) = n := rfl

@[simp] theorem calls_cons (n : RaftNode) (c : Call Image) (cs : List (Call Image)) :
    n.calls (c :: cs) = (n.call c).calls cs := rfl

/-- What every section preserves, every sequence preserves. -/
theorem calls_induct {P : RaftNode → Prop} (hcall : ∀ n (c : Call Image), P n → P (n.call c))
    (cs : List (Call Image)) {n : RaftNode} (h : P n) : P (n.calls cs) := by
  induction cs generalizing n with
  | nil => exact h
  | cons c cs ih => exact ih (hcall n c h)

/-! ## What never goes back -/

structure Progress (n n' : RaftNode) : Prop where
  term : n.currentTerm ≤ n'.currentTerm
  commit : n.commitIndex ≤ n'.commitIndex
  applied : n.lastApplied ≤ n'.lastApplied
  snapshot : n.lastSnapshotIndex ≤ n'.lastSnapshotIndex

theorem Progress.refl (n : RaftNode) : Progress n n := ⟨le_rfl, le_rfl, le_rfl, le_rfl⟩

theorem Progress.trans {n n' n'' : RaftNode} (h : Progress n n') (h' : Progress n' n'') :
    Progress n n'' :=
  ⟨h.term.trans h'.term, h.commit.trans h'.commit, h.applied.trans h'.applied,
    h.snapshot.trans h'.snapshot⟩

section Progress

variable (n : RaftNode)

theorem becomeFollowerLocked_progress (newTerm : Nat) (newLeader : NodeId) (saved : Bool) :
    Progress n (n.becomeFollowerLocked newTerm newLeader saved).1 := by
  constructor <;>
    grind [becomeFollowerLocked, resetElectionTimerLocked, cancelElectionTimerLocked,
      persistStateLocked]

theorem acceptLeaderLocked_progress (term : Nat) (leaderId : NodeId) (saved : Bool) :
    Progress n (n.acceptLeaderLocked term leaderId saved).1 := by
  unfold acceptLeaderLocked
  split
  · exact n.becomeFollowerLocked_progress term leaderId saved
  · exact ⟨le_rfl, le_rfl, le_rfl, le_rfl⟩

theorem commitIndex_lt_of_advanceLoop {k i : Nat} (h : n.advanceLoop k = some i) :
    n.commitIndex < i := by
  induction k with
  | zero => cases h
  | succ k ih => grind [advanceLoop]

theorem advanceCommitIndexUnlocked_progress (saved : Bool) :
    Progress n (n.advanceCommitIndexUnlocked saved) := by
  have hloop := fun k i => n.commitIndex_lt_of_advanceLoop (k := k) (i := i)
  constructor <;> grind [advanceCommitIndexUnlocked, persistStateLocked]

theorem appendEntriesBody_progress (request : AppendEntriesRequest)
    (logSaved commitSaved : Bool) :
    Progress n (n.appendEntriesBody request logSaved commitSaved).1 := by
  have hframe := appendLoop_frame request.entries ⟨n, false, request.prevLogIndex⟩
  unfold appendEntriesBody
  split <;> rename_i heq <;> rw [heq] at hframe
  · rw [hframe]
    exact ⟨le_rfl, le_rfl, le_rfl, le_rfl⟩
  · constructor <;> grind [persistStateLocked]

theorem onAppendEntries_progress (request : AppendEntriesRequest)
    (termSaved logSaved commitSaved : Bool) :
    Progress n (n.onAppendEntries request termSaved logSaved commitSaved).1 := by
  have haccept := n.acceptLeaderLocked_progress request.term request.leaderId termSaved
  unfold onAppendEntries
  split
  · exact .refl n
  · simp only
    split
    · exact haccept
    · split
      · exact haccept
      · exact haccept.trans (appendEntriesBody_progress _ request logSaved commitSaved)

theorem compactLogPrefixLocked_progress {index : Nat} (term : Nat)
    (hlog : index ≤ n.lastSnapshotIndex → n.log ≠ [] ∧
      n.firstLogIndexLocked = n.lastSnapshotIndex) :
    Progress n (n.compactLogPrefixLocked index term) := by
  constructor <;> grind [compactLogPrefixLocked, restoreLogAfterSnapshotLocked]

end Progress

/-! ## The log -/

/-- The log is a run of consecutive records that starts at the snapshot boundary. -/
structure LogInv (n : RaftNode) : Prop where
  nonempty : n.log ≠ []
  consecutive : ∀ k (h : k < n.log.length), (n.log[k]).index = n.lastSnapshotIndex + k
  headTerm : n.log.head?.map LogRecord.term = some n.lastSnapshotTerm

/-- The node that the loop of `OnAppendEntries` leaves. -/
def loopNode : (RaftNode × Nat) ⊕ AppendProgress → RaftNode
  | .inl (m, _) => m
  | .inr p => p.node

namespace LogInv

variable {n n' : RaftNode}

theorem firstLogIndexLocked (h : LogInv n) : n.firstLogIndexLocked = n.lastSnapshotIndex := by
  have hpos := List.length_pos_iff.mpr h.nonempty
  have hzero := h.consecutive 0 hpos
  rw [RaftNode.firstLogIndexLocked, List.head?_eq_getElem?, List.getElem?_eq_getElem hpos]
  simpa using hzero

theorem lastLogIndexLocked (h : LogInv n) :
    n.lastLogIndexLocked + 1 = n.lastSnapshotIndex + n.log.length := by
  have hpos := List.length_pos_iff.mpr h.nonempty
  have hlt : n.log.length - 1 < n.log.length := by omega
  have hlast := h.consecutive _ hlt
  rw [RaftNode.lastLogIndexLocked, List.getLast?_eq_getElem?, List.getElem?_eq_getElem hlt]
  simp only
  omega

theorem hasLogAtIndexLocked (h : LogInv n) (i : Nat) :
    n.hasLogAtIndexLocked i = true ↔
      n.lastSnapshotIndex ≤ i ∧ i < n.lastSnapshotIndex + n.log.length := by
  have hpos := List.length_pos_iff.mpr h.nonempty
  have hlt : n.log.length - 1 < n.log.length := by omega
  have hzero := h.consecutive 0 hpos
  have hlast := h.consecutive _ hlt
  rw [RaftNode.hasLogAtIndexLocked, List.head?_eq_getElem?, List.getLast?_eq_getElem?,
    List.getElem?_eq_getElem hpos, List.getElem?_eq_getElem hlt]
  simp only [Bool.and_eq_true, decide_eq_true_eq]
  omega

/-- An access behind `HasLogAtIndexLocked` is in bounds and reads the record with that index. -/
theorem getElem?_logOffsetLocked (h : LogInv n) {i : Nat} (hi : n.hasLogAtIndexLocked i = true) :
    ∃ record, n.log[n.logOffsetLocked i]? = some record ∧ record.index = i := by
  obtain ⟨hlow, hhigh⟩ := (h.hasLogAtIndexLocked i).mp hi
  have hlt : i - n.lastSnapshotIndex < n.log.length := by omega
  refine ⟨n.log[i - n.lastSnapshotIndex], ?_, ?_⟩
  · rw [RaftNode.logOffsetLocked, h.firstLogIndexLocked, List.getElem?_eq_getElem hlt]
  · rw [h.consecutive _ hlt]
    omega

theorem congr (h : LogInv n) (hlog : n'.log = n.log)
    (hindex : n'.lastSnapshotIndex = n.lastSnapshotIndex)
    (hterm : n'.lastSnapshotTerm = n.lastSnapshotTerm) : LogInv n' where
  nonempty := hlog ▸ h.nonempty
  consecutive k hk := by
    simp only [hlog, hindex] at hk ⊢
    exact h.consecutive k hk
  headTerm := by rw [hlog, hterm, h.headTerm]

/-- The log is cut behind its head and the next record is put there. -/
theorem truncate_append (h : LogInv n) {offset : Nat} (hpos : 0 < offset)
    (hle : offset ≤ n.log.length) {entry : LogRecord}
    (hentry : entry.index = n.lastSnapshotIndex + offset) :
    LogInv { n with log := n.log.take offset ++ [entry] } where
  nonempty := by simp
  consecutive k hk := by
    have hlen : (n.log.take offset).length = offset := by simp [hle]
    simp only [List.length_append, hlen, List.length_singleton] at hk
    rcases Nat.lt_or_ge k offset with hlt | hge
    · simp only
      rw [List.getElem_append_left (hlen.symm ▸ hlt), List.getElem_take]
      exact h.consecutive k _
    · have hk' : k = offset := by omega
      subst hk'
      simp only
      rw [List.getElem_append_right hlen.le]
      simpa [hlen] using hentry
  headTerm := by
    obtain ⟨r, rest, hlog⟩ := List.exists_cons_of_ne_nil h.nonempty
    obtain ⟨k, rfl⟩ : ∃ k, offset = k + 1 := ⟨offset - 1, by omega⟩
    have hterm := h.headTerm
    rw [hlog] at hterm
    simpa [hlog] using hterm

theorem append (h : LogInv n) {entry : LogRecord}
    (hentry : entry.index = n.lastLogIndexLocked + 1) :
    LogInv { n with log := n.log ++ [entry] } := by
  have hpos := List.length_pos_iff.mpr h.nonempty
  have hindex : entry.index = n.lastSnapshotIndex + n.log.length := by
    rw [hentry, h.lastLogIndexLocked]
  have hcut := h.truncate_append hpos le_rfl hindex
  rwa [List.take_length] at hcut

theorem persist (h : LogInv n) (saved : Bool) : LogInv (n.persistStateLocked saved) :=
  h.congr (by simp) (by simp) (by simp)

/-- Gaps, repeats, old indexes and conflicts: the loop keeps the log consecutive. -/
theorem appendLoop {p : AppendProgress} (h : LogInv p.node) (entries : List LogRecord) :
    LogInv (loopNode (RaftNode.appendLoop p entries)) := by
  induction entries generalizing p with
  | nil => exact h
  | cons entry rest ih =>
    rw [RaftNode.appendLoop]
    split
    · exact ih h
    · rename_i hsnap
      split
      · exact h
      · rename_i hgap
        split
        · rename_i hhas
          simp only
          split
          · exact ih h
          · refine ih ?_
            have hrange := (h.hasLogAtIndexLocked _).mp hhas
            have hoffset : p.node.logOffsetLocked entry.index =
                entry.index - p.node.lastSnapshotIndex := by
              rw [RaftNode.logOffsetLocked, h.firstLogIndexLocked]
            exact h.truncate_append (by omega) (by omega) (by omega)
        · rename_i hno
          refine ih (h.append ?_)
          have hlast := h.lastLogIndexLocked
          rw [h.hasLogAtIndexLocked] at hno
          omega

/-- The records behind an index are a suffix of the log. -/
theorem filter_eq_drop (h : LogInv n) {index : Nat} (hindex : n.lastSnapshotIndex ≤ index) :
    n.log.filter (fun record => index < record.index) =
      n.log.drop (index + 1 - n.lastSnapshotIndex) := by
  have hsplit := (List.take_append_drop (index + 1 - n.lastSnapshotIndex) n.log).symm
  conv_lhs => rw [hsplit]
  rw [List.filter_append, List.filter_eq_nil_iff.mpr, List.filter_eq_self.mpr, List.nil_append]
  · intro r hr
    obtain ⟨j, hj, rfl⟩ := List.mem_iff_getElem.mp hr
    rw [List.length_drop] at hj
    rw [List.getElem_drop, h.consecutive _ (by omega)]
    simp only [decide_eq_true_eq]
    omega
  · intro r hr
    obtain ⟨j, hj, rfl⟩ := List.mem_iff_getElem.mp hr
    rw [List.length_take] at hj
    rw [List.getElem_take, h.consecutive _ (by omega)]
    simp only [decide_eq_true_eq]
    omega

theorem compactLogPrefixLocked (h : LogInv n) (index term : Nat) :
    LogInv (n.compactLogPrefixLocked index term) := by
  unfold RaftNode.compactLogPrefixLocked restoreLogAfterSnapshotLocked
  split
  · exact h
  · rename_i hno
    have hsnap : n.lastSnapshotIndex < index := by
      by_contra hle
      exact hno ⟨by omega, h.nonempty, h.firstLogIndexLocked⟩
    rw [h.filter_eq_drop hsnap.le]
    refine ⟨by simp, fun k hk => ?_, rfl⟩
    simp only at hk ⊢
    cases k with
    | zero => rfl
    | succ k =>
      rw [List.getElem_cons_succ]
      split at hk
      · rename_i hkeeps
        simp only [List.length_cons, List.length_drop] at hk
        simp only [hkeeps, if_true]
        rw [List.getElem_drop, h.consecutive _ (by omega)]
        omega
      · simp at hk

theorem appendEntriesBody (h : LogInv n) (request : AppendEntriesRequest)
    (logSaved commitSaved : Bool) :
    LogInv (n.appendEntriesBody request logSaved commitSaved).1 := by
  have hloop := h.appendLoop (p := ⟨n, false, request.prevLogIndex⟩) request.entries
  unfold RaftNode.appendEntriesBody
  split
  · rename_i heq
    rwa [heq] at hloop
  · rename_i p heq
    rw [heq] at hloop
    have hm : LogInv (if p.logChanged then p.node.persistStateLocked true else p.node) := by
      split
      · exact hloop.persist true
      · exact hloop
    generalize (if p.logChanged then p.node.persistStateLocked true else p.node) = m at hm
    split
    · exact h
    · simp only
      split
      · split
        · refine LogInv.persist ?_ true
          exact hm.congr rfl rfl rfl
        · exact hm
      · exact hm

theorem becomeFollowerLocked (h : LogInv n) (newTerm : Nat) (newLeader : NodeId) (saved : Bool) :
    LogInv (n.becomeFollowerLocked newTerm newLeader saved).1 := by
  unfold RaftNode.becomeFollowerLocked
  split
  · refine LogInv.persist ?_ saved
    exact h.congr rfl rfl rfl
  · exact h.congr rfl rfl rfl

theorem acceptLeaderLocked (h : LogInv n) (term : Nat) (leaderId : NodeId) (saved : Bool) :
    LogInv (n.acceptLeaderLocked term leaderId saved).1 := by
  unfold RaftNode.acceptLeaderLocked
  split
  · exact h.becomeFollowerLocked term leaderId saved
  · exact h.congr rfl rfl rfl

theorem onAppendEntries (h : LogInv n) (request : AppendEntriesRequest)
    (termSaved logSaved commitSaved : Bool) :
    LogInv (n.onAppendEntries request termSaved logSaved commitSaved).1 := by
  have haccept := h.acceptLeaderLocked request.term request.leaderId termSaved
  unfold RaftNode.onAppendEntries
  split
  · exact h
  · simp only
    split
    · exact haccept
    · split
      · exact haccept
      · exact haccept.appendEntriesBody request logSaved commitSaved

theorem installFinish {Image : Type} (h : LogInv n) (request : InstallSnapshotRequest Image)
    (response : InstallSnapshotResponse) (saved : Bool) :
    LogInv (n.installFinish request response saved).1 := by
  have hadopt : LogInv (n.adoptSnapshotLocked request.lastIncludedIndex request.lastIncludedTerm) :=
    (h.compactLogPrefixLocked _ _).congr rfl rfl rfl
  unfold RaftNode.installFinish
  split
  · exact h
  · simp only
    split
    · exact hadopt.persist true
    · exact hadopt

end LogInv

/-- The sections that do not touch the log. -/
theorem call_sameLog (n : RaftNode) (c : Call Image)
    (hc : c.writesLog = false) :
    (n.call c).log = n.log ∧ (n.call c).lastSnapshotIndex = n.lastSnapshotIndex ∧
      (n.call c).lastSnapshotTerm = n.lastSnapshotTerm := by
  cases c with
  | appendLocalLogUnlocked _ _ | onAppendEntries _ _ _ _ | installFinish _ _ _
  | compactAfterSnapshot _ _ _ => cases hc
  | start | stop => exact ⟨rfl, rfl, rfl⟩
  | persist _ | startElection _ | onElectionWon _ | applyPick | applyFinish _ _ =>
    grind [call, startElection, onElectionWon, becomeLeaderLocked, RaftNode.applyPick,
      RaftNode.applyFinish, resetElectionTimerLocked, cancelElectionTimerLocked,
      persistStateLocked]
  | onRequestVote _ _ _ =>
    grind [call, onRequestVote, becomeFollowerLocked, resetElectionTimerLocked,
      cancelElectionTimerLocked, persistStateLocked]
  | onVoteResponse _ _ _ =>
    grind [call, onVoteResponse, becomeFollowerLocked, resetElectionTimerLocked,
      cancelElectionTimerLocked, persistStateLocked]
  | advanceCommitIndexUnlocked _ => grind [call, advanceCommitIndexUnlocked, persistStateLocked]
  | buildAppendEntriesRequest _ _ => grind [call, buildAppendEntriesRequest]
  | handleAppendEntriesResponse _ _ _ _ =>
    grind [call, handleAppendEntriesResponse, advanceCommitIndexUnlocked, becomeFollowerLocked,
      resetElectionTimerLocked, cancelElectionTimerLocked, persistStateLocked]
  | handleInstallSnapshotResponse _ _ _ _ _ =>
    grind [call, handleInstallSnapshotResponse, becomeFollowerLocked, resetElectionTimerLocked,
      cancelElectionTimerLocked, persistStateLocked]
  | installCheck _ _ _ =>
    grind [call, installCheck, acceptLeaderLocked, becomeFollowerLocked, resetElectionTimerLocked,
      cancelElectionTimerLocked, persistStateLocked]

/-- The sections that move neither the snapshot boundary nor the apply index. -/
theorem call_sameBoundary (n : RaftNode) (c : Call Image) (hc : c.movesBoundary = false) :
    SameBoundary n (n.call c) := by
  cases c with
  | installFinish _ _ _ | applyPick | applyFinish _ _ | compactAfterSnapshot _ _ _ => cases hc
  | start | stop => exact ⟨rfl, rfl⟩
  | persist saved => exact (SameBoundary.refl n).persist saved
  | startElection saved => exact n.startElection_sameBoundary saved
  | onRequestVote request termSaved voteSaved =>
    exact n.onRequestVote_sameBoundary request termSaved voteSaved
  | onVoteResponse term response saved => exact n.onVoteResponse_sameBoundary term response saved
  | onElectionWon term => exact n.onElectionWon_sameBoundary term
  | appendLocalLogUnlocked commandData saved =>
    exact n.appendLocalLogUnlocked_sameBoundary commandData saved
  | advanceCommitIndexUnlocked saved => exact n.advanceCommitIndexUnlocked_sameBoundary saved
  | buildAppendEntriesRequest peer leaderTerm =>
    exact n.buildAppendEntriesRequest_sameBoundary peer leaderTerm
  | handleAppendEntriesResponse peer leaderTerm response saved =>
    exact n.handleAppendEntriesResponse_sameBoundary peer leaderTerm response saved
  | handleInstallSnapshotResponse peer leaderTerm index response saved =>
    exact n.handleInstallSnapshotResponse_sameBoundary peer leaderTerm index response saved
  | onAppendEntries request termSaved logSaved commitSaved =>
    exact n.onAppendEntries_sameBoundary request termSaved logSaved commitSaved
  | installCheck enabled request saved => exact n.installCheck_sameBoundary enabled request saved

theorem LogInv.call {n : RaftNode} (h : LogInv n) (c : Call Image) : LogInv (n.call c) := by
  by_cases hc : c.writesLog = false
  · obtain ⟨hlog, hindex, hterm⟩ := n.call_sameLog c hc
    exact h.congr hlog hindex hterm
  cases c with
  | appendLocalLogUnlocked commandData saved =>
    cases saved with
    | false => exact h.congr rfl rfl rfl
    | true =>
      have hnew : LogInv { n with
          log := n.log ++ [⟨n.lastLogIndexLocked + 1, n.currentTerm, commandData⟩] } := h.append rfl
      refine LogInv.persist ?_ true
      exact hnew.congr rfl rfl rfl
  | onAppendEntries request termSaved logSaved commitSaved =>
    exact h.onAppendEntries request termSaved logSaved commitSaved
  | installFinish request response saved => exact h.installFinish request response saved
  | compactAfterSnapshot index term saved =>
    simp only [RaftNode.call, RaftNode.compactAfterSnapshot]
    split
    · exact (h.compactLogPrefixLocked index term).persist saved
    · exact h
  | _ => exact absurd rfl hc

theorem LogInv.progress {n : RaftNode} (h : LogInv n) (c : Call Image) : Progress n (n.call c) := by
  have hcompact : ∀ index term, Progress n (n.compactLogPrefixLocked index term) :=
    fun index term => n.compactLogPrefixLocked_progress term
      fun _ => ⟨h.nonempty, h.firstLogIndexLocked⟩
  cases c with
  | start | stop => exact ⟨le_rfl, le_rfl, le_rfl, le_rfl⟩
  | persist _ | startElection _ | onElectionWon _ | applyPick | applyFinish _ _
  | appendLocalLogUnlocked _ _ =>
    constructor <;>
      grind [RaftNode.call, startElection, onElectionWon, becomeLeaderLocked, RaftNode.applyPick,
        RaftNode.applyFinish, appendLocalLogUnlocked, resetElectionTimerLocked,
        cancelElectionTimerLocked, persistStateLocked]
  | onRequestVote request termSaved _ =>
    have := n.becomeFollowerLocked_progress request.term (-1) termSaved
    constructor <;>
      grind [RaftNode.call, onRequestVote, Progress, resetElectionTimerLocked,
        cancelElectionTimerLocked, persistStateLocked]
  | onVoteResponse _ response saved =>
    have := n.becomeFollowerLocked_progress response.term (-1) saved
    constructor <;> grind [RaftNode.call, onVoteResponse, Progress]
  | advanceCommitIndexUnlocked saved => exact n.advanceCommitIndexUnlocked_progress saved
  | buildAppendEntriesRequest _ _ =>
    constructor <;> grind [RaftNode.call, buildAppendEntriesRequest]
  | handleAppendEntriesResponse peer leaderTerm response saved =>
    have hstep := n.becomeFollowerLocked_progress response.term (-1) saved
    simp only [RaftNode.call, handleAppendEntriesResponse]
    split
    · exact .refl n
    · split
      · exact hstep
      · split
        · exact .refl n
        · split
          · refine Progress.trans ?_ (advanceCommitIndexUnlocked_progress _ saved)
            exact ⟨le_rfl, le_rfl, le_rfl, le_rfl⟩
          · exact ⟨le_rfl, le_rfl, le_rfl, le_rfl⟩
  | handleInstallSnapshotResponse _ _ _ response saved =>
    have := n.becomeFollowerLocked_progress response.term (-1) saved
    constructor <;> grind [RaftNode.call, handleInstallSnapshotResponse, Progress]
  | onAppendEntries request termSaved logSaved commitSaved =>
    exact n.onAppendEntries_progress request termSaved logSaved commitSaved
  | installCheck _ request saved =>
    have := n.acceptLeaderLocked_progress request.term request.leaderId saved
    constructor <;> grind [RaftNode.call, installCheck, Progress]
  | installFinish request _ _ =>
    have := hcompact request.lastIncludedIndex request.lastIncludedTerm
    constructor <;>
      grind [RaftNode.call, RaftNode.installFinish, adoptSnapshotLocked, Progress,
        persistStateLocked]
  | compactAfterSnapshot index term _ =>
    have := hcompact index term
    constructor <;>
      grind [RaftNode.call, RaftNode.compactAfterSnapshot, Progress, persistStateLocked]

theorem LogInv.calls {n : RaftNode} (h : LogInv n) (cs : List (Call Image)) :
    LogInv (n.calls cs) := calls_induct (fun _ c hn => hn.call c) cs h

theorem LogInv.calls_progress {n : RaftNode} (h : LogInv n) (cs : List (Call Image)) :
    Progress n (n.calls cs) := by
  induction cs generalizing n with
  | nil => exact .refl n
  | cons c cs ih => exact (h.progress c).trans (ih (h.call c))

theorem LogInv.fresh (id : NodeId) (peers : List NodeId) : LogInv (recover id peers none) where
  nonempty := by simp [recover]
  consecutive k hk := by
    have : k = 0 := by simpa [recover] using hk
    subst this
    rfl
  headTerm := rfl

/-- Whatever a fresh node is asked, in whatever order and with whatever `Save`s failing, its log
is a run of consecutive records from the snapshot boundary on, an access behind
`HasLogAtIndexLocked` reads the record asked for, and nothing that counts upwards goes back. -/
theorem log_representation (id : NodeId) (peers : List NodeId) (cs : List (Call Image)) :
    LogInv ((recover id peers none).calls cs) ∧
    (∀ i, ((recover id peers none).calls cs).hasLogAtIndexLocked i = true →
      ∃ record, ((recover id peers none).calls cs).log[
        ((recover id peers none).calls cs).logOffsetLocked i]? = some record ∧
        record.index = i) ∧
    ∀ more : List (Call Image), Progress ((recover id peers none).calls cs)
      (((recover id peers none).calls cs).calls more) := by
  have h := (LogInv.fresh id peers).calls cs
  exact ⟨h, fun i hi => h.getElem?_logOffsetLocked hi, h.calls_progress⟩

end RaftNode

end CquptRaft
