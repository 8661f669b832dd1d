import CquptRaft.Node.Calls

/-!
# What a restart finds

A node is rebuilt from the log that it saved last: the boundary of the log is read off its first
record, which is the bootstrap record or a snapshot marker. `Sound` says that memory is of this
shape, `Recoverable` that the disk is. Both hold after every section, whatever its arguments, and
a restart makes a sound node out of a recoverable disk.
-/

namespace CquptRaft

namespace RaftNode

variable {Image : Type}

/-- The first record of a log that begins at the boundary. -/
def boundaryRecord (index term : Nat) : LogRecord :=
  if index = 0 then bootstrapRecord else ⟨index, term, kSnapshotMarkerCommand⟩

structure Sound (n : RaftNode) : Prop where
  inv : LogInv n
  head : n.log.head? = some (boundaryRecord n.lastSnapshotIndex n.lastSnapshotTerm)
  commit : n.lastSnapshotIndex ≤ n.commitIndex

/-- The log on disk is one that a sound node had, and its boundary was committed. -/
def Recoverable (storage : Option PersistentRaftState) : Prop :=
  ∀ state, storage = some state →
    ∃ n, Sound n ∧ state.log = n.log ∧ n.lastSnapshotIndex ≤ state.commitIndex

/-! ## Sections -/

theorem LogInv.appendLoop_head {p : AppendProgress} (h : LogInv p.node) (entries : List LogRecord) :
    (loopNode (RaftNode.appendLoop p entries)).log.head? = p.node.log.head? := by
  induction entries generalizing p with
  | nil => rfl
  | cons entry rest ih =>
    have hne : ∀ log, log.head? = p.node.log.head? →
        (log ++ [entry]).head? = p.node.log.head? := by
      intro log hlog
      rw [List.head?_append, hlog, Option.or_of_isSome]
      simpa using h.nonempty
    rw [RaftNode.appendLoop]
    split
    · exact ih h
    · rename_i hsnap
      split
      · rfl
      · rename_i hgap
        split
        · rename_i hhas
          simp only
          split
          · exact ih h
          · have hrange := (h.hasLogAtIndexLocked _).mp hhas
            have hoffset : p.node.logOffsetLocked entry.index =
                entry.index - p.node.lastSnapshotIndex := by
              rw [RaftNode.logOffsetLocked, h.firstLogIndexLocked]
            rw [ih (h.truncate_append (by omega) (by omega) (by omega))]
            refine hne _ ?_
            rw [List.head?_take, if_neg (by omega)]
        · rename_i hno
          have hlast := h.lastLogIndexLocked
          rw [h.hasLogAtIndexLocked] at hno
          rw [ih (h.append (by omega))]
          exact hne _ rfl

theorem onAppendEntries_head {n : RaftNode} (h : LogInv n) (request : AppendEntriesRequest)
    (termSaved logSaved commitSaved : Bool) :
    (n.onAppendEntries request termSaved logSaved commitSaved).1.log.head? = n.log.head? ∧
      (n.onAppendEntries request termSaved logSaved commitSaved).1.lastSnapshotTerm =
        n.lastSnapshotTerm := by
  have haccept := h.acceptLeaderLocked request.term request.leaderId termSaved
  have hframe : (n.acceptLeaderLocked request.term request.leaderId termSaved).1.log = n.log ∧
      (n.acceptLeaderLocked request.term request.leaderId termSaved).1.lastSnapshotTerm =
        n.lastSnapshotTerm := by
    grind [acceptLeaderLocked, becomeFollowerLocked, resetElectionTimerLocked,
      cancelElectionTimerLocked, persistStateLocked]
  unfold onAppendEntries
  generalize n.acceptLeaderLocked request.term request.leaderId termSaved = res at *
  obtain ⟨m, ok⟩ := res
  simp only at haccept hframe ⊢
  have hloop := haccept.appendLoop_head (p := ⟨m, false, request.prevLogIndex⟩) request.entries
  have hterm := appendLoop_frame request.entries ⟨m, false, request.prevLogIndex⟩
  simp only [hframe.1] at hloop
  unfold appendEntriesBody
  cases hl : RaftNode.appendLoop ⟨m, false, request.prevLogIndex⟩ request.entries with
  | inl gap =>
    simp only [hl, loopNode] at hloop hterm
    grind
  | inr o =>
    simp only [hl, loopNode] at hloop hterm
    grind [persistStateLocked]

theorem compactLogPrefixLocked_sound {n : RaftNode} (h : Sound n) (index term : Nat) :
    Sound (n.compactLogPrefixLocked index term) := by
  refine ⟨h.inv.compactLogPrefixLocked index term, ?_, ?_⟩
  · have hfirst := h.inv.firstLogIndexLocked
    have hne := h.inv.nonempty
    have hhead := h.head
    unfold compactLogPrefixLocked restoreLogAfterSnapshotLocked
    split
    · exact hhead
    · rename_i hno
      have hpos : index ≠ 0 := by
        intro hzero
        exact hno ⟨by omega, hne, hfirst⟩
      simp [boundaryRecord, hpos]
  · have := h.commit
    grind [compactLogPrefixLocked, restoreLogAfterSnapshotLocked]

theorem Sound.congr {n n' : RaftNode} (h : Sound n) (hlog : n'.log = n.log)
    (hindex : n'.lastSnapshotIndex = n.lastSnapshotIndex)
    (hterm : n'.lastSnapshotTerm = n.lastSnapshotTerm) (hcommit : n.commitIndex ≤ n'.commitIndex) :
    Sound n' where
  inv := h.inv.congr hlog hindex hterm
  head := by rw [hlog, hindex, hterm, h.head]
  commit := hindex ▸ h.commit.trans hcommit

theorem Sound.call {n : RaftNode} (h : Sound n) (c : Call Image) : Sound (n.call c) := by
  have hprogress := h.inv.progress c
  by_cases hc : c.writesLog = false
  · obtain ⟨hlog, hindex, hterm⟩ := n.call_sameLog c hc
    exact h.congr hlog hindex hterm hprogress.commit
  cases c with
  | appendLocalLogUnlocked commandData saved =>
    refine ⟨h.inv.call _, ?_, ?_⟩
    · have hhead := h.head
      have hne := h.inv.nonempty
      simp only [RaftNode.call, appendLocalLogUnlocked]
      split
      · simp only [persistStateLocked_log, persistStateLocked_lastSnapshotIndex,
          persistStateLocked_lastSnapshotTerm, List.head?_append, hhead, Option.some_or]
      · exact hhead
    · have := n.appendLocalLogUnlocked_sameBoundary commandData saved
      have := h.commit
      have := hprogress.commit
      grind [RaftNode.call, SameBoundary]
  | onAppendEntries request termSaved logSaved commitSaved =>
    obtain ⟨hhead, hterm⟩ := onAppendEntries_head h.inv request termSaved logSaved commitSaved
    have hsame := n.onAppendEntries_sameBoundary request termSaved logSaved commitSaved
    refine ⟨h.inv.call _, ?_, ?_⟩
    · simp only [RaftNode.call]
      rw [hhead, hsame.snapshot, hterm, h.head]
    · have hcommit := hprogress.commit
      simp only [RaftNode.call] at hcommit ⊢
      rw [hsame.snapshot]
      exact h.commit.trans hcommit
  | installFinish request response saved =>
    have hcompact := compactLogPrefixLocked_sound h request.lastIncludedIndex
      request.lastIncludedTerm
    have hadopt : Sound (n.adoptSnapshotLocked request.lastIncludedIndex
        request.lastIncludedTerm) := hcompact.congr rfl rfl rfl (le_max_left _ _)
    simp only [RaftNode.call, RaftNode.installFinish]
    split
    · exact h
    · split
      · exact hadopt.congr (by simp) (by simp) (by simp) (by simp)
      · exact hadopt
  | compactAfterSnapshot index term saved =>
    simp only [RaftNode.call, RaftNode.compactAfterSnapshot]
    split
    · exact (compactLogPrefixLocked_sound h index term).congr (by simp) (by simp) (by simp)
        (by simp)
    · exact h
  | _ => exact absurd rfl hc

/-- The apply index stays behind the commit index when only committed entries are finished. -/
theorem Sound.call_applied {n : RaftNode} (h : Sound n) (happlied : n.lastApplied ≤ n.commitIndex)
    (c : Call Image)
    (hfinish : ∀ index saved, c = .applyFinish index saved → index ≤ n.commitIndex) :
    (n.call c).lastApplied ≤ (n.call c).commitIndex := by
  have hcommit := (h.inv.progress c).commit
  have hsnap := h.commit
  by_cases hc : c.movesBoundary = false
  · have hsame := n.call_sameBoundary c hc
    rw [hsame.applied]
    exact happlied.trans hcommit
  cases c with
  | installFinish _ _ _ =>
    grind [RaftNode.call, installFinish, adoptSnapshotLocked, compactLogPrefixLocked,
      restoreLogAfterSnapshotLocked, persistStateLocked]
  | applyPick => grind [RaftNode.call, applyPick]
  | applyFinish index saved =>
    have := hfinish index saved rfl
    grind [RaftNode.call, applyFinish, persistStateLocked]
  | compactAfterSnapshot _ _ _ =>
    grind [RaftNode.call, compactAfterSnapshot, compactLogPrefixLocked,
      restoreLogAfterSnapshotLocked, persistStateLocked]
  | _ => exact absurd rfl hc

/-! ## The disk -/

/-- A section has saved nothing, or the log as it was before or after it, and at least the
commit index from before. -/
structure Saves (n n' : RaftNode) : Prop where
  storage : n'.storage = n.storage ∨ ∃ state, n'.storage = some state ∧
    n.commitIndex ≤ state.commitIndex ∧
    (state.log = n.log ∨ state.log = n'.log ∧
      (n'.lastSnapshotIndex = n.lastSnapshotIndex ∨ n'.lastSnapshotIndex ≤ state.commitIndex))

theorem onAppendEntries_saves (n : RaftNode) (request : AppendEntriesRequest)
    (termSaved logSaved commitSaved : Bool) :
    Saves n (n.onAppendEntries request termSaved logSaved commitSaved).1 := by
  have hsame := n.onAppendEntries_sameBoundary request termSaved logSaved commitSaved
  have hframe : (n.acceptLeaderLocked request.term request.leaderId termSaved).1.log = n.log ∧
      (n.acceptLeaderLocked request.term request.leaderId termSaved).1.commitIndex =
        n.commitIndex ∧
      ((n.acceptLeaderLocked request.term request.leaderId termSaved).1.storage = n.storage ∨
        ∃ state, (n.acceptLeaderLocked request.term request.leaderId termSaved).1.storage =
          some state ∧ state.log = n.log ∧ state.commitIndex = n.commitIndex) := by
    grind [acceptLeaderLocked, becomeFollowerLocked, resetElectionTimerLocked,
      cancelElectionTimerLocked, persistStateLocked, persistentState]
  constructor
  unfold onAppendEntries at hsame ⊢
  generalize n.acceptLeaderLocked request.term request.leaderId termSaved = res at *
  obtain ⟨m, ok⟩ := res
  simp only at hframe hsame ⊢
  have hterm := appendLoop_frame request.entries ⟨m, false, request.prevLogIndex⟩
  unfold appendEntriesBody at hsame ⊢
  cases hl : RaftNode.appendLoop ⟨m, false, request.prevLogIndex⟩ request.entries with
  | inl gap => grind [SameBoundary]
  | inr o => grind [persistStateLocked, persistentState, SameBoundary]

theorem call_saves (n : RaftNode) (c : Call Image) (h : LogInv n) : Saves n (n.call c) := by
  have hprogress := h.progress c
  cases c with
  | start | stop => exact ⟨.inl rfl⟩
  | onAppendEntries request termSaved logSaved commitSaved =>
    exact n.onAppendEntries_saves request termSaved logSaved commitSaved
  | persist _ => constructor; grind [RaftNode.call, persistStateLocked, persistentState]
  | startElection _ =>
    constructor
    grind [RaftNode.call, startElection, persistStateLocked, persistentState,
      resetElectionTimerLocked, cancelElectionTimerLocked]
  | onElectionWon _ =>
    constructor
    grind [RaftNode.call, onElectionWon, becomeLeaderLocked, cancelElectionTimerLocked]
  | applyPick => constructor; grind [RaftNode.call, applyPick]
  | applyFinish _ _ =>
    constructor
    grind [RaftNode.call, applyFinish, persistStateLocked, persistentState]
  | appendLocalLogUnlocked _ _ =>
    constructor
    grind [RaftNode.call, appendLocalLogUnlocked, persistStateLocked, persistentState]
  | onRequestVote _ _ _ =>
    constructor
    grind [RaftNode.call, onRequestVote, becomeFollowerLocked, resetElectionTimerLocked,
      cancelElectionTimerLocked, persistStateLocked, persistentState]
  | onVoteResponse _ _ _ =>
    constructor
    grind [RaftNode.call, onVoteResponse, becomeFollowerLocked, resetElectionTimerLocked,
      cancelElectionTimerLocked, persistStateLocked, persistentState]
  | advanceCommitIndexUnlocked _ =>
    constructor
    have := hprogress.commit
    grind [RaftNode.call, advanceCommitIndexUnlocked, persistStateLocked, persistentState]
  | buildAppendEntriesRequest _ _ => constructor; grind [RaftNode.call, buildAppendEntriesRequest]
  | handleAppendEntriesResponse _ _ _ _ =>
    constructor
    have := hprogress.commit
    grind [RaftNode.call, handleAppendEntriesResponse, advanceCommitIndexUnlocked,
      becomeFollowerLocked, resetElectionTimerLocked, cancelElectionTimerLocked,
      persistStateLocked, persistentState]
  | handleInstallSnapshotResponse _ _ _ _ _ =>
    constructor
    grind [RaftNode.call, handleInstallSnapshotResponse, becomeFollowerLocked,
      resetElectionTimerLocked, cancelElectionTimerLocked, persistStateLocked, persistentState]
  | installCheck _ _ _ =>
    constructor
    grind [RaftNode.call, installCheck, acceptLeaderLocked, becomeFollowerLocked,
      resetElectionTimerLocked, cancelElectionTimerLocked, persistStateLocked, persistentState]
  | installFinish request _ _ =>
    constructor
    have := hprogress.commit
    grind [RaftNode.call, installFinish, adoptSnapshotLocked, compactLogPrefixLocked,
      restoreLogAfterSnapshotLocked, persistStateLocked, persistentState]
  | compactAfterSnapshot _ _ _ =>
    constructor
    grind [RaftNode.call, compactAfterSnapshot, compactLogPrefixLocked,
      restoreLogAfterSnapshotLocked, persistStateLocked, persistentState]

theorem Recoverable.saves {n n' : RaftNode} (h : Recoverable n.storage) (hn : Sound n)
    (hn' : Sound n') (hsaves : Saves n n') : Recoverable n'.storage := by
  rcases hsaves.storage with hsame | ⟨state, hstate, hcommit, hlog | ⟨hlog, hsnap⟩⟩
  · exact hsame ▸ h
  · intro state' hstate'
    obtain rfl : state = state' := Option.some.inj (hstate.symm.trans hstate')
    exact ⟨n, hn, hlog, hn.commit.trans hcommit⟩
  · intro state' hstate'
    obtain rfl : state = state' := Option.some.inj (hstate.symm.trans hstate')
    refine ⟨n', hn', hlog, ?_⟩
    rcases hsnap with heq | hle
    · rw [heq]
      exact hn.commit.trans hcommit
    · exact hle

/-! ## Restarts -/

theorem Sound.persisted {n : RaftNode} (h : Sound n) : Recoverable (some n.persistentState) := by
  intro state hstate
  obtain rfl := Option.some.inj hstate
  exact ⟨n, h, rfl, h.commit⟩

/-- The boundary that is read off the first record. -/
theorem Sound.boundary {n : RaftNode} (h : Sound n) :
    (match n.log.head? with
      | some r => if 0 < r.index ∧ r.command = kSnapshotMarkerCommand then (r.index, r.term)
        else (0, 0)
      | none => (0, 0)) = (n.lastSnapshotIndex, n.lastSnapshotTerm) := by
  have hterm := h.inv.headTerm
  rw [h.head] at hterm ⊢
  simp only [Option.map_some, Option.some.injEq] at hterm
  by_cases hzero : n.lastSnapshotIndex = 0
  · simp only [boundaryRecord, hzero, if_true] at hterm ⊢
    rw [← hterm]
    rfl
  · simp [boundaryRecord, hzero, Nat.pos_of_ne_zero hzero]

theorem recover_sound {storage : Option PersistentRaftState} (h : Recoverable storage)
    (id : NodeId) (peers : List NodeId) : Sound (recover id peers storage) := by
  cases storage with
  | none => exact ⟨.fresh id peers, rfl, le_rfl⟩
  | some state =>
    obtain ⟨n, hn, hlog, hcommit⟩ := h state rfl
    have hboundary := hn.boundary
    rw [← hlog] at hboundary
    have hindex : (recover id peers (some state)).lastSnapshotIndex = n.lastSnapshotIndex :=
      congrArg Prod.fst hboundary
    have hterm : (recover id peers (some state)).lastSnapshotTerm = n.lastSnapshotTerm :=
      congrArg Prod.snd hboundary
    have hlog' : (recover id peers (some state)).log = n.log := by
      simp [recover, clampRecoveredHardState, hlog, hn.inv.nonempty]
    have hinv := hn.inv.congr hlog' hindex hterm
    refine ⟨hinv, by rw [hlog', hindex, hterm, hn.head], ?_⟩
    have hlast := hinv.lastLogIndexLocked
    have hpos := List.length_pos_iff.mpr hinv.nonempty
    obtain ⟨last, hgetLast⟩ : ∃ last, n.log.getLast? = some last :=
      ⟨_, List.getLast?_eq_some_getLast hn.inv.nonempty⟩
    have hclamp : (clampRecoveredHardState state).commitIndex =
        min state.commitIndex (recover id peers (some state)).lastLogIndexLocked := by
      rw [RaftNode.lastLogIndexLocked, hlog', hgetLast]
      simp [clampRecoveredHardState, hlog, hgetLast]
    have heq : (recover id peers (some state)).commitIndex =
        min (max (clampRecoveredHardState state).commitIndex
          (clampRecoveredHardState state).lastApplied)
          (recover id peers (some state)).lastLogIndexLocked := rfl
    omega

theorem loadLatestSnapshotOnStartup_sound {σ : Type} {sm : IStateMachine σ} {n n' : RaftNode}
    {config : SnapshotConfig} {dir : List (Snapshot sm.Image)} {readable : Nat → Bool}
    {saved : Bool} {kv : σ} (hn : Sound n) (hstored : Recoverable n.storage)
    (happlied : n.lastApplied ≤ n.commitIndex)
    (h : loadLatestSnapshotOnStartup sm n config dir readable saved = some (n', kv)) :
    Sound n' ∧ Recoverable n'.storage ∧ n'.lastApplied ≤ n'.commitIndex := by
  unfold loadLatestSnapshotOnStartup at h
  split at h
  · cases h
    exact ⟨hn, hstored, happlied⟩
  · split at h
    · cases h
      exact ⟨hn, hstored, happlied⟩
    · rename_i s kv' _
      split at h
      · cases h
        have hcompact := compactLogPrefixLocked_sound hn s.index s.term
        have hloaded : Sound { n.compactLogPrefixLocked s.index s.term with
            commitIndex := max (n.compactLogPrefixLocked s.index s.term).commitIndex s.index
            lastApplied := s.index } := hcompact.congr rfl rfl rfl (le_max_left _ _)
        refine ⟨hloaded.congr (by simp) (by simp) (by simp) (by simp), hloaded.persisted, ?_⟩
        simp
      · cases h

end RaftNode

end CquptRaft
