import CquptRaft.Node.Repeats

/-!
# Compaction does not show

A node that compacts its log up to an index it has applied goes on as if it had not: it votes
alike, takes and refuses the same entries from there on, sends the same windows behind the
boundary, and commits and applies the same records. `Compacted s n n'` relates a node to its
twin that has compacted up to `s`; every section that looks at the log from `s` on keeps the two
related and gives the same answer.
-/

namespace CquptRaft

/-- The entries follow each other from `first` on. -/
def ConsecutiveFrom (first : Nat) (entries : List LogRecord) : Prop :=
  ∀ k (hk : k < entries.length), (entries[k]).index = first + k

/-- What a response says besides its hints: the term, the end of the log and, on success, how
far the logs agree. -/
def AppendEntriesResponse.outcome (response : AppendEntriesResponse) : Nat × Nat × Option Nat :=
  (response.term, response.lastLogIndex,
    if response.success then some response.matchIndex else none)

namespace RaftNode

theorem outcome_conflictHint (n : RaftNode) (probe : Nat) :
    (n.setAppendEntriesConflictHintLocked probe n.appendEntriesResponse).outcome =
      n.appendEntriesResponse.outcome := by
  unfold setAppendEntriesConflictHintLocked
  split
  · rfl
  · split <;> rfl

/-- What `Save` has left on disk besides the log. -/
def durableFields (n : RaftNode) : Option (Nat × NodeId × Nat × Nat) :=
  n.storage.map fun state =>
    (state.currentTerm, state.votedFor, state.commitIndex, state.lastApplied)

/-- Two nodes that differ in their logs and snapshot boundaries only. -/
structure SameFields (n n' : RaftNode) : Prop where
  nodeId : n'.nodeId = n.nodeId
  peers : n'.peers = n.peers
  running : n'.running = n.running
  role : n'.role = n.role
  currentTerm : n'.currentTerm = n.currentTerm
  votedFor : n'.votedFor = n.votedFor
  leaderId : n'.leaderId = n.leaderId
  commitIndex : n'.commitIndex = n.commitIndex
  lastApplied : n'.lastApplied = n.lastApplied
  nextIndex : n'.nextIndex = n.nextIndex
  matchIndex : n'.matchIndex = n.matchIndex
  electionTimerGeneration : n'.electionTimerGeneration = n.electionTimerGeneration
  durableFields : n'.durableFields = n.durableFields

theorem SameFields.persist {n n' : RaftNode} (h : SameFields n n') (saved : Bool) :
    SameFields (n.persistStateLocked saved) (n'.persistStateLocked saved) := by
  constructor <;> grind [SameFields, persistStateLocked, persistentState, RaftNode.durableFields]

/-- `n'` is `n` with its log compacted up to `s`, which `n` has applied. -/
structure Compacted (s : Nat) (n n' : RaftNode) : Prop where
  fields : SameFields n n'
  inv : LogInv n
  inv' : LogInv n'
  below : n.lastSnapshotIndex < s
  boundary : n'.lastSnapshotIndex = s
  boundaryTerm : n.log[s - n.lastSnapshotIndex]?.map LogRecord.term = some n'.lastSnapshotTerm
  log : n'.log.tail = n.log.drop (s + 1 - n.lastSnapshotIndex)
  applied : s ≤ n.lastApplied
  commit : s ≤ n.commitIndex

theorem LogInv.lastLogTermLocked {n : RaftNode} (h : LogInv n) :
    n.lastLogTermLocked = n.termAtIndexLocked n.lastLogIndexLocked := by
  have hpos := List.length_pos_iff.mpr h.nonempty
  have hlast := h.lastLogIndexLocked
  have hlt : n.log.length - 1 < n.log.length := by omega
  rw [RaftNode.lastLogTermLocked, List.getLast?_eq_getElem?, List.getElem?_eq_getElem hlt,
    RaftNode.termAtIndexLocked]
  by_cases hsnap : n.lastLogIndexLocked = n.lastSnapshotIndex
  · have hone : n.log.length - 1 = 0 := by omega
    have hterm := h.headTerm
    rw [List.head?_eq_getElem?, List.getElem?_eq_getElem hpos, Option.map_some] at hterm
    rw [if_pos hsnap]
    simpa only [hone, Option.some.injEq] using hterm
  · rw [if_neg hsnap, h.logAtIndexLocked, if_pos (by omega),
      show n.lastLogIndexLocked - n.lastSnapshotIndex = n.log.length - 1 by omega,
      List.getElem?_eq_getElem hlt]

/-- The pick of a node whose apply index is not behind its snapshot boundary. -/
theorem applyPick_eq (n : RaftNode) (h : n.lastSnapshotIndex ≤ n.lastApplied) :
    n.applyPick =
      if n.commitIndex ≤ n.lastApplied then (n, .nothing)
      else
        match n.logAtIndexLocked (n.lastApplied + 1) with
        | none => (n, .outOfRange)
        | some record => (n, .entry (n.lastApplied + 1) record.command) := by
  cases hget : n.logAtIndexLocked (n.lastApplied + 1) with
  | none => simp only [RaftNode.applyPick, max_eq_left h, hget]
  | some record => simp only [RaftNode.applyPick, max_eq_left h, hget]

/-- What is sent to a peer that needs nothing the node has compacted. -/
theorem LogInv.buildAppendEntriesRequest {n : RaftNode} (h : LogInv n) {peer : NodeId}
    (hnext : n.lastSnapshotIndex < n.nextIndex peer) (leaderTerm : Nat) :
    n.buildAppendEntriesRequest peer leaderTerm =
      if !n.running ∨ n.role ≠ .leader ∨ n.currentTerm ≠ leaderTerm then (n, .none)
      else if n.termAtIndexLocked (n.nextIndex peer - 1) = 0 ∧ n.nextIndex peer - 1 ≠ 0 then
        (n, .snapshot)
      else (n, .append (n.appendRequestFrom (n.nextIndex peer))) := by
  have hset : { n with nextIndex := Function.update n.nextIndex peer (n.nextIndex peer) } = n := by
    rw [Function.update_eq_self]
  have hfirst := h.firstLogIndexLocked
  have hzero : n.nextIndex peer ≠ 0 := by omega
  unfold RaftNode.buildAppendEntriesRequest
  simp only [hzero, if_false, hset]
  rw [if_neg (show ¬ n.nextIndex peer ≤ n.firstLogIndexLocked by omega)]

namespace Compacted

variable {s : Nat} {n n' m m' : RaftNode}

theorem held (h : Compacted s n n') : s < n.lastSnapshotIndex + n.log.length := by
  obtain ⟨record, hrecord, -⟩ := Option.map_eq_some_iff.mp h.boundaryTerm
  have hlt := (List.getElem?_eq_some_iff.mp hrecord).1
  have := h.below
  omega

theorem length (h : Compacted s n n') :
    s + n'.log.length = n.lastSnapshotIndex + n.log.length := by
  have hlen := congrArg List.length h.log
  rw [List.length_tail, List.length_drop] at hlen
  have hpos := List.length_pos_iff.mpr h.inv'.nonempty
  have hheld := h.held
  have hbelow := h.below
  omega

theorem lastLogIndexLocked (h : Compacted s n n') :
    n'.lastLogIndexLocked = n.lastLogIndexLocked := by
  have hlast := h.inv.lastLogIndexLocked
  have hlast' := h.inv'.lastLogIndexLocked
  have hlen := h.length
  rw [h.boundary] at hlast'
  omega

theorem hasLogAtIndexLocked (h : Compacted s n n') {i : Nat} (hi : s ≤ i) :
    n'.hasLogAtIndexLocked i = n.hasLogAtIndexLocked i := by
  rw [Bool.eq_iff_iff, h.inv'.hasLogAtIndexLocked, h.inv.hasLogAtIndexLocked, h.boundary]
  have hlen := h.length
  have hbelow := h.below
  omega

/-- Behind the boundary the twins hold the same records. -/
theorem getElem? (h : Compacted s n n') {i : Nat} (hi : s < i) :
    n'.log[i - s]? = n.log[i - n.lastSnapshotIndex]? := by
  have hbelow := h.below
  rw [show i - s = (i - s - 1) + 1 by omega, ← List.getElem?_tail, h.log, List.getElem?_drop]
  congr 1
  omega

theorem logAtIndexLocked (h : Compacted s n n') {i : Nat} (hi : s < i) :
    n'.logAtIndexLocked i = n.logAtIndexLocked i := by
  have hbelow := h.below
  rw [h.inv'.logAtIndexLocked, h.inv.logAtIndexLocked, h.boundary, if_pos hi.le, if_pos (by omega),
    h.getElem? hi]

theorem termAtIndexLocked (h : Compacted s n n') {i : Nat} (hi : s ≤ i) :
    n'.termAtIndexLocked i = n.termAtIndexLocked i := by
  have hbelow := h.below
  rw [RaftNode.termAtIndexLocked, RaftNode.termAtIndexLocked, h.boundary,
    if_neg (show ¬ i = n.lastSnapshotIndex by omega)]
  rcases Nat.lt_or_eq_of_le hi with hlt | rfl
  · rw [if_neg hlt.ne', h.logAtIndexLocked hlt]
  · obtain ⟨record, hrecord, hterm⟩ := Option.map_eq_some_iff.mp h.boundaryTerm
    rw [if_pos rfl, h.inv.logAtIndexLocked, if_pos hbelow.le, hrecord]
    exact hterm.symm

theorem lastLogTermLocked (h : Compacted s n n') :
    n'.lastLogTermLocked = n.lastLogTermLocked := by
  have hlast := h.inv.lastLogIndexLocked
  have hheld := h.held
  rw [h.inv'.lastLogTermLocked, h.inv.lastLogTermLocked, h.lastLogIndexLocked,
    h.termAtIndexLocked (by omega)]

/-- Sections that leave the logs alone keep the twins related. -/
theorem of_sameLog (h : Compacted s n n') (hlog : m.log = n.log)
    (hindex : m.lastSnapshotIndex = n.lastSnapshotIndex)
    (hterm : m.lastSnapshotTerm = n.lastSnapshotTerm) (hlog' : m'.log = n'.log)
    (hindex' : m'.lastSnapshotIndex = n'.lastSnapshotIndex)
    (hterm' : m'.lastSnapshotTerm = n'.lastSnapshotTerm) (hfields : SameFields m m')
    (happlied : n.lastApplied ≤ m.lastApplied) (hcommit : n.commitIndex ≤ m.commitIndex) :
    Compacted s m m' where
  fields := hfields
  inv := h.inv.congr hlog hindex hterm
  inv' := h.inv'.congr hlog' hindex' hterm'
  below := hindex ▸ h.below
  boundary := hindex'.trans h.boundary
  boundaryTerm := by rw [hlog, hindex, hterm', h.boundaryTerm]
  log := by rw [hlog, hlog', hindex, h.log]
  applied := h.applied.trans happlied
  commit := h.commit.trans hcommit

/-! ### Votes -/

theorem isCandidateLogUpToDateLocked (h : Compacted s n n') (lastLogIndex lastLogTerm : Nat) :
    n'.isCandidateLogUpToDateLocked lastLogIndex lastLogTerm =
      n.isCandidateLogUpToDateLocked lastLogIndex lastLogTerm := by
  rw [RaftNode.isCandidateLogUpToDateLocked, RaftNode.isCandidateLogUpToDateLocked,
    h.lastLogIndexLocked, h.lastLogTermLocked]

theorem persist (h : Compacted s n n') (saved : Bool) :
    Compacted s (n.persistStateLocked saved) (n'.persistStateLocked saved) :=
  h.of_sameLog (by simp) (by simp) (by simp) (by simp) (by simp) (by simp) (h.fields.persist saved)
    (by simp) (by simp)

theorem resetElectionTimerLocked (h : Compacted s n n') :
    Compacted s n.resetElectionTimerLocked n'.resetElectionTimerLocked := by
  refine h.of_sameLog rfl rfl rfl rfl rfl rfl ?_ le_rfl le_rfl
  have hfields := h.fields
  constructor <;> grind [SameFields, RaftNode.resetElectionTimerLocked, cancelElectionTimerLocked,
    RaftNode.durableFields]

theorem becomeFollowerLocked (h : Compacted s n n') (newTerm : Nat) (newLeader : NodeId)
    (saved : Bool) :
    Compacted s (n.becomeFollowerLocked newTerm newLeader saved).1
        (n'.becomeFollowerLocked newTerm newLeader saved).1 ∧
      (n'.becomeFollowerLocked newTerm newLeader saved).2 =
        (n.becomeFollowerLocked newTerm newLeader saved).2 := by
  unfold RaftNode.becomeFollowerLocked
  have hfields := h.fields
  simp only [hfields.currentTerm]
  split
  · refine ⟨Compacted.persist (Compacted.resetElectionTimerLocked ?_) saved, rfl⟩
    refine h.of_sameLog rfl rfl rfl rfl rfl rfl ?_ le_rfl le_rfl
    constructor <;> grind [SameFields, RaftNode.durableFields]
  · refine ⟨Compacted.resetElectionTimerLocked ?_, rfl⟩
    refine h.of_sameLog rfl rfl rfl rfl rfl rfl ?_ le_rfl le_rfl
    constructor <;> grind [SameFields, RaftNode.durableFields]

theorem onRequestVote (h : Compacted s n n') (request : VoteRequest) (termSaved voteSaved : Bool) :
    (n'.onRequestVote request termSaved voteSaved).2 =
        (n.onRequestVote request termSaved voteSaved).2 ∧
      Compacted s (n.onRequestVote request termSaved voteSaved).1
        (n'.onRequestVote request termSaved voteSaved).1 := by
  -- the two are related behind the check of the term
  obtain ⟨m, m', ok, hm, hm', hmid⟩ : ∃ m m' ok,
      (if n.currentTerm < request.term then
        n.becomeFollowerLocked request.term (-1) termSaved else (n, true)) = (m, ok) ∧
      (if n'.currentTerm < request.term then
        n'.becomeFollowerLocked request.term (-1) termSaved else (n', true)) = (m', ok) ∧
      Compacted s m m' := by
    rw [h.fields.currentTerm]
    split
    · obtain ⟨hfollower, hok⟩ := h.becomeFollowerLocked request.term (-1) termSaved
      exact ⟨_, _, _, rfl, Prod.ext rfl hok, hfollower⟩
    · exact ⟨n, n', true, rfl, rfl, h⟩
  unfold RaftNode.onRequestVote
  simp only [hm, hm']
  simp only [hmid.isCandidateLogUpToDateLocked, hmid.fields.votedFor, h.fields.currentTerm]
  split
  · exact ⟨rfl, h⟩
  · have hterm := hmid.fields.currentTerm
    split
    · exact ⟨by rw [hterm], hmid⟩
    · split
      · split
        · refine ⟨by rw [hterm], ?_⟩
          have hvoted : Compacted s { m with votedFor := request.candidateId }
              { m' with votedFor := request.candidateId } := by
            refine hmid.of_sameLog rfl rfl rfl rfl rfl rfl ?_ le_rfl le_rfl
            have hfields := hmid.fields
            constructor <;> grind [SameFields, RaftNode.durableFields]
          exact (hvoted.persist true).resetElectionTimerLocked
        · exact ⟨by rw [hterm], hmid⟩
      · exact ⟨by rw [hterm], hmid⟩

/-! ### Commits and applications -/

theorem advanceLoop (h : Compacted s n n') (k : Nat) : n'.advanceLoop k = n.advanceLoop k := by
  induction k with
  | zero => rfl
  | succ k ih =>
    rw [RaftNode.advanceLoop, RaftNode.advanceLoop, h.fields.commitIndex]
    split
    · rfl
    · rename_i hlow
      have hcommit := h.commit
      rw [h.hasLogAtIndexLocked (by omega), h.termAtIndexLocked (by omega), h.fields.currentTerm,
        show n'.quorum = n.quorum by rw [quorum, quorum, h.fields.peers],
        show n'.replicatedCount (k + 1) = n.replicatedCount (k + 1) by
          rw [replicatedCount, replicatedCount, h.fields.peers, h.fields.matchIndex], ih]

theorem advanceCommitIndexUnlocked (h : Compacted s n n') (saved : Bool) :
    Compacted s (n.advanceCommitIndexUnlocked saved) (n'.advanceCommitIndexUnlocked saved) := by
  have hfields := h.fields
  unfold RaftNode.advanceCommitIndexUnlocked
  rw [h.lastLogIndexLocked, h.advanceLoop, hfields.role]
  simp only [h.inv.nonempty, h.inv'.nonempty, or_false]
  split
  · exact h
  · cases hloop : n.advanceLoop n.lastLogIndexLocked with
    | none => exact h
    | some index =>
      refine Compacted.persist ?_ saved
      refine h.of_sameLog rfl rfl rfl rfl rfl rfl ?_ le_rfl
        (n.commitIndex_lt_of_advanceLoop hloop).le
      constructor <;> grind [SameFields, RaftNode.durableFields]

theorem applyPick (h : Compacted s n n') :
    n'.applyPick.2 = n.applyPick.2 ∧ Compacted s n.applyPick.1 n'.applyPick.1 := by
  have happlied := h.applied
  have hbelow := h.below
  have happlied' : n'.lastSnapshotIndex ≤ n'.lastApplied := by
    rw [h.boundary, h.fields.lastApplied]
    exact happlied
  rw [n.applyPick_eq (by omega), n'.applyPick_eq happlied', h.fields.commitIndex,
    h.fields.lastApplied, h.logAtIndexLocked (Nat.lt_succ_of_le happlied)]
  by_cases hdone : n.commitIndex ≤ n.lastApplied
  · rw [if_pos hdone, if_pos hdone]
    exact ⟨rfl, h⟩
  · rw [if_neg hdone, if_neg hdone]
    cases n.logAtIndexLocked (n.lastApplied + 1) with
    | none => exact ⟨rfl, h⟩
    | some record => exact ⟨rfl, h⟩

theorem applyFinish (h : Compacted s n n') (index : Nat) (saved : Bool) :
    (n'.applyFinish index saved).2 = (n.applyFinish index saved).2 ∧
      Compacted s (n.applyFinish index saved).1 (n'.applyFinish index saved).1 := by
  unfold RaftNode.applyFinish
  rw [h.fields.lastApplied]
  split
  · rename_i hlt
    refine ⟨rfl, Compacted.persist ?_ saved⟩
    refine h.of_sameLog rfl rfl rfl rfl rfl rfl ?_ hlt.le le_rfl
    have hfields := h.fields
    constructor <;> grind [SameFields, RaftNode.durableFields]
  · exact ⟨rfl, h⟩

/-! ### Requests to the peers -/

theorem batchLoop (h : Compacted s n n') {index : Nat} (hindex : s < index)
    (entryCount bytesCount passes : Nat) :
    n'.batchLoop index entryCount bytesCount passes =
      n.batchLoop index entryCount bytesCount passes := by
  induction passes generalizing index entryCount bytesCount with
  | zero => rfl
  | succ passes ih =>
    rw [RaftNode.batchLoop, RaftNode.batchLoop, h.lastLogIndexLocked, h.logAtIndexLocked hindex]
    simp only [ih (Nat.lt_succ_of_lt hindex)]

theorem appendRequestFrom (h : Compacted s n n') {next : Nat} (hnext : s < next) :
    n'.appendRequestFrom next = n.appendRequestFrom next := by
  rw [RaftNode.appendRequestFrom, RaftNode.appendRequestFrom, h.fields.currentTerm, h.fields.nodeId,
    h.termAtIndexLocked (Nat.le_sub_one_of_lt hnext), h.batchLoop hnext, h.fields.commitIndex]

theorem buildAppendEntriesRequest (h : Compacted s n n') {peer : NodeId}
    (hnext : s < n.nextIndex peer) (leaderTerm : Nat) :
    (n'.buildAppendEntriesRequest peer leaderTerm).2 =
        (n.buildAppendEntriesRequest peer leaderTerm).2 ∧
      Compacted s (n.buildAppendEntriesRequest peer leaderTerm).1
        (n'.buildAppendEntriesRequest peer leaderTerm).1 := by
  have hfields := h.fields
  have hbelow := h.below
  have hnext' : n'.lastSnapshotIndex < n'.nextIndex peer := by
    rw [h.boundary, hfields.nextIndex]
    exact hnext
  rw [h.inv.buildAppendEntriesRequest (by omega), h.inv'.buildAppendEntriesRequest hnext',
    hfields.running, hfields.role, hfields.currentTerm, hfields.nextIndex,
    h.termAtIndexLocked (Nat.le_sub_one_of_lt hnext), h.appendRequestFrom hnext]
  split
  · exact ⟨rfl, h⟩
  · split
    · exact ⟨rfl, h⟩
    · exact ⟨rfl, h⟩

/-! ### Requests of a leader -/

/-- Both twins are cut at the same index and get the same record there. -/
theorem truncate_append (h : Compacted s n n') {i : Nat} (hi : s < i)
    (hle : i ≤ n.lastLogIndexLocked + 1) {entry : LogRecord} (hentry : entry.index = i) :
    Compacted s { n with log := n.log.take (i - n.lastSnapshotIndex) ++ [entry] }
      { n' with log := n'.log.take (i - s) ++ [entry] } where
  fields := by
    have hfields := h.fields
    constructor <;> grind [SameFields, RaftNode.durableFields]
  inv := by
    have hlast := h.inv.lastLogIndexLocked
    have hbelow := h.below
    exact h.inv.truncate_append (by omega) (by omega) (by omega)
  inv' := by
    have hlast := h.inv'.lastLogIndexLocked
    rw [h.lastLogIndexLocked, h.boundary] at hlast
    exact h.inv'.truncate_append (by omega) (by omega) (by rw [h.boundary]; omega)
  below := h.below
  boundary := h.boundary
  boundaryTerm := by
    have hheld := h.held
    have hbelow := h.below
    have hlast := h.inv.lastLogIndexLocked
    simp only
    rw [List.getElem?_append_left (by rw [List.length_take]; omega),
      List.getElem?_take_of_lt (by omega), h.boundaryTerm]
  log := by
    have hheld := h.held
    have hbelow := h.below
    have hlast := h.inv.lastLogIndexLocked
    have hpos := List.length_pos_iff.mpr h.inv'.nonempty
    simp only
    have hne : n'.log.take (i - s) ≠ [] := by
      rw [ne_eq, ← List.length_eq_zero_iff, List.length_take]
      omega
    rw [List.tail_append_of_ne_nil hne, ← List.drop_one, List.drop_take, List.drop_one, h.log,
      List.drop_append_of_le_length (by rw [List.length_take]; omega), List.drop_take]
    congr 2
    omega
  applied := h.applied
  commit := h.commit

/-- The loops over the entries go the same way. -/
theorem appendLoop (h : Compacted s n n') (entries : List LogRecord) (changed : Bool) {pos : Nat}
    (hpos : s ≤ pos) (hlast : pos ≤ n.lastLogIndexLocked)
    (hentries : ConsecutiveFrom (pos + 1) entries) :
    ∃ o o', RaftNode.appendLoop ⟨n, changed, pos⟩ entries = .inr o ∧
      RaftNode.appendLoop ⟨n', changed, pos⟩ entries = .inr o' ∧ Compacted s o.node o'.node ∧
      o'.logChanged = o.logChanged ∧ o'.matchIndex = o.matchIndex := by
  induction entries generalizing n n' changed pos with
  | nil => exact ⟨_, _, rfl, rfl, h, rfl, rfl⟩
  | cons entry rest ih =>
    have hindex : entry.index = pos + 1 := hentries 0 (Nat.succ_pos _)
    have hrest : ConsecutiveFrom (pos + 1 + 1) rest := by
      intro k hk
      have := hentries (k + 1) (Nat.succ_lt_succ hk)
      rw [List.getElem_cons_succ] at this
      omega
    have hbelow := h.below
    have hcut := h.truncate_append (i := pos + 1) (by omega) (by omega) hindex
    have hcutLast := hcut.inv.lastLogIndexLocked
    have hinvLast := h.inv.lastLogIndexLocked
    simp only [List.length_append, List.length_take, List.length_singleton] at hcutLast
    have hnew : ¬ pos + 1 ≤ n.lastSnapshotIndex := by omega
    have hnew' : ¬ pos + 1 ≤ n'.lastSnapshotIndex := by
      rw [h.boundary]
      omega
    have hgap : ¬ n.lastLogIndexLocked + 1 < pos + 1 := by omega
    rw [RaftNode.appendLoop, RaftNode.appendLoop]
    simp only [h.lastLogIndexLocked, hindex, hnew, hnew', hgap, if_false,
      h.hasLogAtIndexLocked (Nat.le_succ_of_le hpos)]
    have hoffset : n.logOffsetLocked (pos + 1) = pos + 1 - n.lastSnapshotIndex := by
      rw [logOffsetLocked, h.inv.firstLogIndexLocked]
    have hoffset' : n'.logOffsetLocked (pos + 1) = pos + 1 - s := by
      rw [logOffsetLocked, h.inv'.firstLogIndexLocked, h.boundary]
    by_cases hhas : n.hasLogAtIndexLocked (pos + 1) = true
    · have hheld := ((h.inv.hasLogAtIndexLocked _).mp hhas).2
      simp only [hhas, if_true, hoffset, hoffset', h.getElem? (Nat.lt_succ_of_le hpos)]
      split
      · exact ih h _ (by omega) (by omega) hrest
      · exact ih hcut _ (by omega) (by omega) hrest
    · rw [if_neg hhas, if_neg hhas]
      rw [h.inv.hasLogAtIndexLocked] at hhas
      have hall : n.log.take (pos + 1 - n.lastSnapshotIndex) = n.log :=
        List.take_of_length_le (by omega)
      have hlen := h.length
      have hall' : n'.log.take (pos + 1 - s) = n'.log := List.take_of_length_le (by omega)
      rw [hall] at hcut hcutLast
      rw [hall'] at hcut
      exact ih hcut _ (by omega) (by omega) hrest

theorem acceptLeaderLocked (h : Compacted s n n') (term : Nat) (leaderId : NodeId)
    (saved : Bool) :
    Compacted s (n.acceptLeaderLocked term leaderId saved).1
        (n'.acceptLeaderLocked term leaderId saved).1 ∧
      (n'.acceptLeaderLocked term leaderId saved).2 =
        (n.acceptLeaderLocked term leaderId saved).2 := by
  have hfields := h.fields
  unfold RaftNode.acceptLeaderLocked
  rw [hfields.currentTerm, hfields.role, hfields.leaderId]
  split
  · exact h.becomeFollowerLocked term leaderId saved
  · refine ⟨Compacted.resetElectionTimerLocked ?_, rfl⟩
    refine h.of_sameLog rfl rfl rfl rfl rfl rfl ?_ le_rfl le_rfl
    constructor <;> grind [SameFields, RaftNode.durableFields]

theorem appendEntriesBody (h : Compacted s n n') {request : AppendEntriesRequest}
    (hprev : s ≤ request.prevLogIndex) (hlast : request.prevLogIndex ≤ n.lastLogIndexLocked)
    (hentries : ConsecutiveFrom (request.prevLogIndex + 1) request.entries)
    (logSaved commitSaved : Bool) :
    (n'.appendEntriesBody request logSaved commitSaved).2.1.outcome =
        (n.appendEntriesBody request logSaved commitSaved).2.1.outcome ∧
      (n'.appendEntriesBody request logSaved commitSaved).2.2 =
        (n.appendEntriesBody request logSaved commitSaved).2.2 ∧
      Compacted s (n.appendEntriesBody request logSaved commitSaved).1
        (n'.appendEntriesBody request logSaved commitSaved).1 := by
  obtain ⟨o, o', ho, ho', hloop, hchanged, hmatch⟩ :=
    h.appendLoop request.entries false hprev hlast hentries
  have hsaved : Compacted s (if o.logChanged then o.node.persistStateLocked true else o.node)
      (if o'.logChanged then o'.node.persistStateLocked true else o'.node) := by
    rw [hchanged]
    split
    · exact hloop.persist true
    · exact hloop
  unfold RaftNode.appendEntriesBody
  simp only [ho, ho']
  generalize (if o.logChanged then o.node.persistStateLocked true else o.node) = m at *
  generalize (if o'.logChanged then o'.node.persistStateLocked true else o'.node) = m' at *
  have hterm := h.fields.currentTerm
  have hterm' := hsaved.fields.currentTerm
  rw [hchanged, hmatch, hsaved.lastLogIndexLocked, hsaved.fields.commitIndex]
  split
  · refine ⟨?_, rfl, h⟩
    simp only [AppendEntriesResponse.outcome, RaftNode.appendEntriesResponse, hterm,
      h.lastLogIndexLocked]
    rfl
  · have hreply : AppendEntriesResponse.outcome { m'.appendEntriesResponse with
          success := true, matchIndex := o.matchIndex } =
        AppendEntriesResponse.outcome { m.appendEntriesResponse with
          success := true, matchIndex := o.matchIndex } := by
      simp only [AppendEntriesResponse.outcome, RaftNode.appendEntriesResponse, hterm',
        hsaved.lastLogIndexLocked]
    split
    · rename_i hlt
      split
      · refine ⟨hreply, rfl, Compacted.persist ?_ true⟩
        refine hsaved.of_sameLog rfl rfl rfl rfl rfl rfl ?_ le_rfl hlt.le
        have hfields := hsaved.fields
        constructor <;> grind [SameFields, RaftNode.durableFields]
      · refine ⟨?_, rfl, hsaved⟩
        simp only [AppendEntriesResponse.outcome, RaftNode.appendEntriesResponse, hterm',
          hsaved.lastLogIndexLocked]
    · exact ⟨hreply, rfl, hsaved⟩

theorem onAppendEntries (h : Compacted s n n') {request : AppendEntriesRequest}
    (hprev : s ≤ request.prevLogIndex)
    (hentries : ConsecutiveFrom (request.prevLogIndex + 1) request.entries)
    (termSaved logSaved commitSaved : Bool) :
    (n'.onAppendEntries request termSaved logSaved commitSaved).2.1.outcome =
        (n.onAppendEntries request termSaved logSaved commitSaved).2.1.outcome ∧
      (n'.onAppendEntries request termSaved logSaved commitSaved).2.2 =
        (n.onAppendEntries request termSaved logSaved commitSaved).2.2 ∧
      Compacted s (n.onAppendEntries request termSaved logSaved commitSaved).1
        (n'.onAppendEntries request termSaved logSaved commitSaved).1 := by
  have hrefused : ∀ {m m' : RaftNode}, Compacted s m m' →
      m'.appendEntriesResponse.outcome = m.appendEntriesResponse.outcome := by
    intro m m' hm
    simp only [AppendEntriesResponse.outcome, RaftNode.appendEntriesResponse, hm.fields.currentTerm,
      hm.lastLogIndexLocked]
    rfl
  obtain ⟨haccept, hok⟩ := h.acceptLeaderLocked request.term request.leaderId termSaved
  unfold RaftNode.onAppendEntries
  rw [h.fields.currentTerm]
  split
  · exact ⟨hrefused h, rfl, h⟩
  · generalize n.acceptLeaderLocked request.term request.leaderId termSaved = res at *
    generalize n'.acceptLeaderLocked request.term request.leaderId termSaved = res' at *
    obtain ⟨m, ok⟩ := res
    obtain ⟨m', ok'⟩ := res'
    simp only at haccept hok ⊢
    have hbelow := haccept.below
    have hsnap : ¬ request.prevLogIndex < m.lastSnapshotIndex := by omega
    have hsnap' : ¬ request.prevLogIndex < m'.lastSnapshotIndex := by
      rw [haccept.boundary]
      omega
    simp only [hok, hsnap, hsnap', haccept.hasLogAtIndexLocked hprev,
      haccept.termAtIndexLocked hprev, false_or]
    split
    · exact ⟨hrefused haccept, rfl, haccept⟩
    · split
      · exact ⟨by rw [outcome_conflictHint, outcome_conflictHint, hrefused haccept], rfl, haccept⟩
      · rename_i hcheck
        simp only [not_or, Bool.not_eq_true', Bool.not_eq_false] at hcheck
        have hlast := haccept.inv.lastLogIndexLocked
        have hheld := ((haccept.inv.hasLogAtIndexLocked _).mp hcheck.1).2
        exact haccept.appendEntriesBody hprev (by omega) hentries logSaved commitSaved

end Compacted

/-! ## Runs of sections -/

/-- What the caller of a section gets to see. -/
inductive Answer where
  | vote (response : VoteResponse)
  | append (outcome : Nat × Nat × Option Nat) (applies : Bool)
  | shipment (shipment : Shipment)
  | commit (index : Nat)
  | pick (pick : ApplyPick)
  | finish (goesOn : Bool)
  | other

section Runs

variable {Image : Type} {s : Nat} {n n' : RaftNode}

def answer (n : RaftNode) : Call Image → Answer
  | .onRequestVote request termSaved voteSaved =>
    .vote (n.onRequestVote request termSaved voteSaved).2
  | .onAppendEntries request termSaved logSaved commitSaved =>
    .append (n.onAppendEntries request termSaved logSaved commitSaved).2.1.outcome
      (n.onAppendEntries request termSaved logSaved commitSaved).2.2
  | .buildAppendEntriesRequest peer leaderTerm =>
    .shipment (n.buildAppendEntriesRequest peer leaderTerm).2
  | .advanceCommitIndexUnlocked saved => .commit (n.advanceCommitIndexUnlocked saved).commitIndex
  | .applyPick => .pick n.applyPick.2
  | .applyFinish index saved => .finish (n.applyFinish index saved).2
  | _ => .other

def answers (n : RaftNode) : List (Call Image) → List Answer
  | [] => []
  | c :: cs => n.answer c :: (n.call c).answers cs

/-- The sections that look at the log from `s` on. -/
def LooksFrom (s : Nat) (n : RaftNode) : Call Image → Prop
  | .onRequestVote _ _ _ | .advanceCommitIndexUnlocked _ | .applyPick | .applyFinish _ _ => True
  | .onAppendEntries request _ _ _ =>
    s ≤ request.prevLogIndex ∧ ConsecutiveFrom (request.prevLogIndex + 1) request.entries
  | .buildAppendEntriesRequest peer _ => s < n.nextIndex peer
  | _ => False

/-- Every section of the run looks at the log from `s` on. -/
def LooksFromAll (s : Nat) (n : RaftNode) : List (Call Image) → Prop
  | [] => True
  | c :: cs => LooksFrom s n c ∧ LooksFromAll s (n.call c) cs

theorem Compacted.call (h : Compacted s n n') (c : Call Image) (hc : LooksFrom s n c) :
    n'.answer c = n.answer c ∧ Compacted s (n.call c) (n'.call c) := by
  cases c with
  | onRequestVote request termSaved voteSaved =>
    obtain ⟨hvote, hkept⟩ := h.onRequestVote request termSaved voteSaved
    exact ⟨congrArg _ hvote, hkept⟩
  | onAppendEntries request termSaved logSaved commitSaved =>
    obtain ⟨houtcome, happlies, hkept⟩ := h.onAppendEntries hc.1 hc.2 termSaved logSaved commitSaved
    exact ⟨congrArg₂ Answer.append houtcome happlies, hkept⟩
  | buildAppendEntriesRequest peer leaderTerm =>
    obtain ⟨hshipment, hkept⟩ := h.buildAppendEntriesRequest hc leaderTerm
    exact ⟨congrArg _ hshipment, hkept⟩
  | advanceCommitIndexUnlocked saved =>
    have hkept := h.advanceCommitIndexUnlocked saved
    exact ⟨congrArg _ hkept.fields.commitIndex, hkept⟩
  | applyPick =>
    obtain ⟨hpick, hkept⟩ := h.applyPick
    exact ⟨congrArg _ hpick, hkept⟩
  | applyFinish index saved =>
    obtain ⟨hgoesOn, hkept⟩ := h.applyFinish index saved
    exact ⟨congrArg _ hgoesOn, hkept⟩
  | _ => exact absurd hc id

theorem Compacted.calls (h : Compacted s n n') (cs : List (Call Image))
    (hcs : LooksFromAll s n cs) :
    n'.answers cs = n.answers cs ∧ Compacted s (n.calls cs) (n'.calls cs) := by
  induction cs generalizing n n' with
  | nil => exact ⟨rfl, h⟩
  | cons c cs ih =>
    obtain ⟨hc, hcs⟩ := hcs
    obtain ⟨hanswer, hkept⟩ := h.call c hc
    obtain ⟨hanswers, hkept'⟩ := ih hkept hcs
    exact ⟨congrArg₂ List.cons hanswer hanswers, hkept'⟩

end Runs

/-- A whole run of `ApplyCommittedEntries` applies the same commands. -/
theorem Compacted.replayCommittedEntries {σ : Type} {s : Nat} {n n' : RaftNode}
    (h : Compacted s n n') (sm : IStateMachine σ) (saved : Nat → Bool) (fuel : Nat) (kv : σ) :
    (RaftNode.replayCommittedEntries sm saved fuel n' kv).2 =
        (RaftNode.replayCommittedEntries sm saved fuel n kv).2 ∧
      Compacted s (RaftNode.replayCommittedEntries sm saved fuel n kv).1
        (RaftNode.replayCommittedEntries sm saved fuel n' kv).1 := by
  induction fuel generalizing n n' kv with
  | zero => exact ⟨rfl, h⟩
  | succ fuel ih =>
    obtain ⟨hpick, hpicked⟩ := h.applyPick
    rw [RaftNode.replayCommittedEntries, RaftNode.replayCommittedEntries]
    generalize n.applyPick = picked at *
    generalize n'.applyPick = picked' at *
    obtain ⟨m, pick⟩ := picked
    obtain ⟨m', pick'⟩ := picked'
    simp only at hpick hpicked
    subst hpick
    cases pick' with
    | nothing => exact ⟨rfl, hpicked⟩
    | outOfRange => exact ⟨rfl, hpicked⟩
    | entry index command =>
      simp only
      cases sm.apply kv command with
      | error _ => exact ⟨rfl, hpicked⟩
      | ok kv' =>
        simp only
        obtain ⟨hgoesOn, hfinished⟩ := hpicked.applyFinish index (saved index)
        generalize m.applyFinish index (saved index) = finished at *
        generalize m'.applyFinish index (saved index) = finished' at *
        obtain ⟨m, goesOn⟩ := finished
        obtain ⟨m', goesOn'⟩ := finished'
        simp only at hgoesOn hfinished
        subst hgoesOn
        cases goesOn' with
        | true => exact ih hfinished kv'
        | false => exact ⟨rfl, hfinished⟩

/-- Compaction up to an applied record starts the pair. -/
theorem LogInv.compacted {n : RaftNode} (h : LogInv n) {s : Nat} (hlow : n.lastSnapshotIndex < s)
    (hheld : n.hasLogAtIndexLocked s = true) (happlied : s ≤ n.lastApplied)
    (hcommit : n.lastApplied ≤ n.commitIndex) :
    Compacted s n (n.compactLogPrefixLocked s (n.termAtIndexLocked s)) := by
  obtain ⟨record, hrecord, -⟩ := h.getElem?_logOffsetLocked hheld
  rw [logOffsetLocked, h.firstLogIndexLocked] at hrecord
  have hget : n.logAtIndexLocked s = some record := by
    rw [h.logAtIndexLocked, if_pos hlow.le, hrecord]
  have hterm : n.termAtIndexLocked s = record.term := by
    rw [termAtIndexLocked, if_neg hlow.ne', hget]
  have hkeeps : n.keepsSuffixLocked s record.term = true := by simp [keepsSuffixLocked, hget]
  have heq : n.compactLogPrefixLocked s (n.termAtIndexLocked s) = { n with
      log := ⟨s, record.term, kSnapshotMarkerCommand⟩ ::
        n.log.drop (s + 1 - n.lastSnapshotIndex)
      lastSnapshotIndex := s
      lastSnapshotTerm := record.term } := by
    rw [RaftNode.compactLogPrefixLocked, restoreLogAfterSnapshotLocked, if_neg (by omega)]
    simp only [hkeeps, hterm, Bool.and_self, if_true, h.filter_eq_drop hlow.le,
      max_eq_left (happlied.trans hcommit), max_eq_left happlied]
  refine ⟨?_, h, h.compactLogPrefixLocked s _, hlow, ?_, ?_, ?_, happlied, happlied.trans hcommit⟩
  · rw [heq]
    constructor <;> rfl
  · rw [heq]
  · rw [heq, hrecord]
    rfl
  · rw [heq]
    rfl

end RaftNode

end CquptRaft
