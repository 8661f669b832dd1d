import CquptRaft.Replication.Leader
import CquptRaft.Theory.Rounds

/-!
# Bringing a follower up to date

A leader and one of its followers, and nothing else: a round is one `ReplicateOnce` with its call
and the handling of the reply, where no call and no `Save` fails. The leader probes downwards until
it finds a record that both have, or sends its snapshot, and then ships its log batch by batch.
`next_index_` goes up as well as down on the way, and `Link.rank` is what every round lowers.
-/

namespace CquptRaft

open Replication RaftNode

structure Link (Image : Type) where
  leader : RaftNode
  leaderSnapshots : List (Snapshot Image)
  follower : RaftNode
  followerSnapshots : List (Snapshot Image)

variable {σ : Type}

/-- `OnInstallSnapshot` from the admission check to the end, with no other thread in between. -/
def RaftNode.onInstallSnapshot (sm : IStateMachine σ) (n : RaftNode)
    (dir : List (Snapshot sm.Image)) (maxSnapshotCount : Nat)
    (request : InstallSnapshotRequest sm.Image) :
    RaftNode × List (Snapshot sm.Image) × InstallSnapshotResponse :=
  match n.installCheck true request true with
  | (m, some response) => (m, dir, response)
  | (m, none) =>
    match saveSnapshotFile dir (some request.snapshotData) request.lastIncludedIndex
        request.lastIncludedTerm .ok with
    | (dir, false) =>
      (m, dir, { n.installResponse with message := "persist installed snapshot failed" })
    | (dir, true) =>
      match (dir.find? fun s => s.index == request.lastIncludedIndex).bind
          fun s => sm.loadSnapshot s.image with
      | none => (m, dir, { n.installResponse with message := "load installed snapshot failed" })
      | some _ =>
        match m.installFinish request n.installResponse true with
        | (m, response) => (m, pruneSnapshots dir maxSnapshotCount dir.length, response)

namespace Link

/-- `SendInstallSnapshotToPeer` with its call and reply. -/
def sendInstallSnapshotToPeer (sm : IStateMachine σ) (maxSnapshotCount : Nat) (peer : NodeId)
    (s : Link sm.Image) : Link sm.Image :=
  let term := s.leader.currentTerm
  if s.leader.lastSnapshotIndex = 0 then s
  else
    match chooseSnapshot s.leaderSnapshots s.leader.lastSnapshotIndex
        s.leader.lastSnapshotTerm with
    | none => s
    | some snapshot =>
      match s.follower.onInstallSnapshot sm s.followerSnapshots maxSnapshotCount
          ⟨term, s.leader.nodeId, snapshot.index, snapshot.term, snapshot.image⟩ with
      | (follower, followerSnapshots, response) =>
        { s with
          leader := s.leader.handleInstallSnapshotResponse peer term snapshot.index response true
          follower
          followerSnapshots }

/-- `ReplicateOnce` of the leader for this follower. -/
def replicateOnce (sm : IStateMachine σ) (maxSnapshotCount : Nat) (peer : NodeId)
    (s : Link sm.Image) : Link sm.Image :=
  let term := s.leader.currentTerm
  match s.leader.buildAppendEntriesRequest peer term with
  | (_, .none) => s
  | (leader, .snapshot) => { s with leader }.sendInstallSnapshotToPeer sm maxSnapshotCount peer
  | (leader, .append request) =>
    match s.follower.onAppendEntries request true true true with
    | (follower, response, _) =>
      { s with
        leader := leader.handleAppendEntriesResponse peer term response true
        follower }

/-- What every round lowers. While the leader probes, this is `next_index_`; a snapshot ends the
search, an index below the follower's own snapshot moves it there, and from a record that both
have the distance to the leader's last record counts. -/
def rank {Image : Type} (peer : NodeId) (s : Link Image) : Nat :=
  let next := s.leader.nextIndex peer
  let last := s.leader.lastLogIndexLocked
  if next ≤ s.leader.lastSnapshotIndex then last + 3
  else if next - 1 < s.follower.lastSnapshotIndex then last + 2
  else if s.follower.hasLogAtIndexLocked (next - 1) ∧
      s.follower.termAtIndexLocked (next - 1) = s.leader.termAtIndexLocked (next - 1) then
    last - (next - 1)
  else last + 3 + next

end Link

/-! ## Records and their terms -/

theorem Stores.getElem?_index {log : List LogRecord} {r : Replica LogRecord} (h : Stores log r)
    {j : Nat} {x : LogRecord} (hx : log[j]? = some x) :
    x.index = r.snap + j ∧ x.term = termAt LogRecord.term r.log (r.snap + j) ∧
      r.snap + j ≤ r.log.length := by
  cases j with
  | zero =>
    rw [h.getElem?_zero] at hx
    cases hx
    exact ⟨headRecord_index r, headRecord_term r, h.snap_le⟩
  | succ j =>
    rw [h.getElem?_succ] at hx
    obtain ⟨hj, rfl⟩ := List.getElem?_eq_some_iff.mp hx
    refine ⟨?_, ?_, hj⟩
    · rw [h.indexed _ hj]
      omega
    · simp [termAt, List.getElem?_eq_getElem hj]

/-- The first record of the term that a record at `i` has lies at or before `i`. -/
theorem Represents.firstIndexOfTermLocked {n : RaftNode} {r : Replica LogRecord}
    (h : Represents n r) {i : Nat} (hsnap : r.snap ≤ i) (hi : i ≤ r.log.length) :
    n.firstIndexOfTermLocked (termAt LogRecord.term r.log i) ≤ i ∧
      termAt LogRecord.term r.log (n.firstIndexOfTermLocked (termAt LogRecord.term r.log i)) =
        termAt LogRecord.term r.log i := by
  have hlen : i - r.snap < n.log.length := by
    rw [h.stores.length_eq]
    omega
  have hterm := (h.stores.getElem?_index (List.getElem?_eq_getElem hlen)).2.1
  rw [Nat.add_sub_cancel' hsnap] at hterm
  unfold RaftNode.firstIndexOfTermLocked
  split
  · rename_i hnone
    have hnot := List.find?_eq_none.mp hnone _ (List.getElem_mem hlen)
    rw [hterm] at hnot
    simp at hnot
  · rename_i x hx
    obtain ⟨hxterm, k, hk, rfl, hfirst⟩ := List.find?_eq_some_iff_getElem.mp hx
    obtain ⟨hindex, hkterm, -⟩ := h.stores.getElem?_index (List.getElem?_eq_getElem hk)
    have hle : k ≤ i - r.snap := by
      by_contra hlt
      have := hfirst (i - r.snap) (not_le.mp hlt)
      rw [hterm] at this
      simp at this
    refine ⟨by omega, ?_⟩
    rw [hindex, ← hkterm]
    exact beq_iff_eq.mp hxterm

theorem Represents.lastIndexOfTerm {n : RaftNode} {r : Replica LogRecord} (h : Represents n r)
    {term i : Nat} (hi : n.lastIndexOfTerm term = some i) :
    r.snap ≤ i ∧ i ≤ r.log.length ∧ termAt LogRecord.term r.log i = term := by
  obtain ⟨x, hx, rfl⟩ := Option.map_eq_some_iff.mp hi
  have hmem := List.mem_reverse.mp (List.mem_of_find?_eq_some hx)
  have hterm : x.term = term := by simpa using List.find?_some hx
  obtain ⟨j, hj, rfl⟩ := List.mem_iff_getElem.mp hmem
  obtain ⟨hindex, hxterm, hle⟩ := h.stores.getElem?_index (List.getElem?_eq_getElem hj)
  rw [hindex]
  exact ⟨Nat.le_add_right _ _, hle, hxterm.symm.trans hterm⟩

/-- A term that the log has kept is found, no earlier than any record of it. -/
theorem Represents.le_lastIndexOfTerm {n : RaftNode} {r : Replica LogRecord} (h : Represents n r)
    {i : Nat} (hsnap : r.snap ≤ i) (hi : i ≤ r.log.length) :
    ∃ last, n.lastIndexOfTerm (termAt LogRecord.term r.log i) = some last ∧ i ≤ last := by
  have hlen : i - r.snap < n.log.length := by
    rw [h.stores.length_eq]
    omega
  obtain ⟨hindex, hterm, -⟩ := h.stores.getElem?_index (List.getElem?_eq_getElem hlen)
  rw [Nat.add_sub_cancel' hsnap] at hindex hterm
  have hpos : n.log.length - 1 - (i - r.snap) < n.log.reverse.length := by
    rw [List.length_reverse]
    omega
  have hself : n.log.reverse[n.log.length - 1 - (i - r.snap)] = n.log[i - r.snap] := by
    rw [List.getElem_reverse]
    congr 1
    omega
  have hmem := List.getElem_mem hpos
  cases hfind : n.log.reverse.find? (fun record => record.term ==
      termAt LogRecord.term r.log i) with
  | none =>
    have hnot := List.find?_eq_none.mp hfind _ hmem
    rw [hself, hterm] at hnot
    simp at hnot
  | some x =>
    obtain ⟨-, k, hk, rfl, hfirst⟩ := List.find?_eq_some_iff_getElem.mp hfind
    refine ⟨_, by rw [RaftNode.lastIndexOfTerm, hfind, Option.map_some], ?_⟩
    -- the search meets nothing of the term between the end of the log and what it finds
    have hle : k ≤ n.log.length - 1 - (i - r.snap) := by
      by_contra hlt
      have := hfirst _ (not_le.mp hlt)
      rw [hself, hterm] at this
      simp at this
    rw [List.length_reverse] at hk
    have hk' : n.log.length - 1 - k < n.log.length := by omega
    have hkindex := (h.stores.getElem?_index (List.getElem?_eq_getElem hk')).1
    rw [List.getElem_reverse, hkindex]
    omega

/-! ## The follower -/

theorem Represents.acceptLeaderLocked {n : RaftNode} {r : Replica LogRecord} (h : Represents n r)
    {term : Nat} (hterm : r.term ≤ term) (leaderId : NodeId) :
    Represents (n.acceptLeaderLocked term leaderId true).1 { r with term := term } ∧
      (n.acceptLeaderLocked term leaderId true).2 = true := by
  obtain ⟨hindex, hsnap, hlog, hcommit⟩ := n.acceptLeaderLocked_frame term leaderId true
  have hstores : Stores n.log { r with term := term } :=
    ⟨h.stores.eq, h.stores.snap_le, h.stores.indexed⟩
  refine ⟨⟨?_, hcommit.trans h.commit, hindex.trans h.snapIndex, hsnap.trans h.snapTerm,
    hlog.symm ▸ hstores⟩, ?_⟩
  · have := h.term
    grind [RaftNode.acceptLeaderLocked, RaftNode.becomeFollowerLocked_currentTerm,
      RaftNode.resetElectionTimerLocked, RaftNode.cancelElectionTimerLocked]
  · grind [RaftNode.acceptLeaderLocked, RaftNode.becomeFollowerLocked]

/-- The follower has the record the request builds on. -/
def HasPrev (r : Replica LogRecord) (request : AppendEntriesRequest) : Prop :=
  r.snap ≤ request.prevLogIndex ∧ request.prevLogIndex ≤ r.log.length ∧
    termAt LogRecord.term r.log request.prevLogIndex = request.prevLogTerm

/-- What the check of the previous record decides. -/
theorem Represents.hasPrev_iff {n : RaftNode} {r : Replica LogRecord} (h : Represents n r)
    (request : AppendEntriesRequest) :
    HasPrev r request ↔ ¬ (request.prevLogIndex < n.lastSnapshotIndex ∨
      (!n.hasLogAtIndexLocked request.prevLogIndex) = true ∨
      n.termAtIndexLocked request.prevLogIndex ≠ request.prevLogTerm) := by
  have hhas := h.hasLogAtIndexLocked request.prevLogIndex
  have hterm := fun hsnap hi => h.termAtIndexLocked (i := request.prevLogIndex) hsnap hi
  have hindex := h.snapIndex
  simp only [HasPrev, not_or, not_lt, Bool.not_eq_true', Bool.not_eq_false, ne_eq, not_not]
  grind

theorem Represents.onAppendEntries_rejects {n : RaftNode} {r : Replica LogRecord}
    (h : Represents n r) (request : AppendEntriesRequest) (hterm : r.term ≤ request.term)
    (hprev : ¬ HasPrev r request) :
    ∃ m, Represents m { r with term := request.term } ∧
      n.onAppendEntries request true true true =
        (m, m.setAppendEntriesConflictHintLocked request.prevLogIndex m.appendEntriesResponse,
          false) := by
  obtain ⟨hrep, hok⟩ := h.acceptLeaderLocked hterm request.leaderId
  refine ⟨_, hrep, ?_⟩
  have hcheck := (hrep.hasPrev_iff request).not.mp hprev
  have hge : ¬ request.term < n.currentTerm := by
    rw [h.term]
    omega
  rw [not_not] at hcheck
  simp only [RaftNode.onAppendEntries, if_neg hge, hok, Bool.not_true, Bool.false_eq_true, if_false,
    if_pos hcheck]

/-- The follower holds the first `k` records of the leader's log `L`, and its snapshot is one of
that log. -/
structure Follows (M : Nat → List LogRecord) (L : List LogRecord) (k : Nat)
    (r r' : Replica LogRecord) : Prop where
  good : Good LogRecord.term M r'.log
  snap : r'.snap = r.snap
  base : r'.log.take r'.snap <+: L
  holds : L.take k <+: r'.log

theorem Represents.withCommit {n : RaftNode} {r : Replica LogRecord} (h : Represents n r)
    (k : Nat) : Represents { n with commitIndex := k } { r with commit := k } :=
  ⟨h.term, rfl, h.snapIndex, h.snapTerm, h.stores.eq, h.stores.snap_le, h.stores.indexed⟩

section

variable {M : Nat → List LogRecord} {L : List LogRecord}

theorem Represents.appendEntriesBody {n : RaftNode} {r : Replica LogRecord} (h : Represents n r)
    (hL : Indexed L) (hLgood : Good LogRecord.term M L) (hgood : Good LogRecord.term M r.log)
    {request : AppendEntriesRequest} (hterm : r.term = request.term) (hprev : HasPrev r request)
    (hlen : request.prevLogIndex ≤ L.length)
    (hprevTerm : request.prevLogTerm = termAt LogRecord.term L request.prevLogIndex)
    (hentries : request.entries <+: L.drop request.prevLogIndex) :
    ∃ m r' response flag, n.appendEntriesBody request true true = (m, response, flag) ∧
      Represents m r' ∧ r'.term = request.term ∧ response.term = request.term ∧
      response.success = true ∧
      response.matchIndex = request.prevLogIndex + request.entries.length ∧
      Follows M L response.matchIndex r r' := by
  have htake : r.log.take request.prevLogIndex = L.take request.prevLogIndex :=
    hgood.take_eq_of_termAt_eq hLgood hprev.2.1 hlen (hprev.2.2.trans hprevTerm)
  obtain ⟨o, ho, hmatch, hdone⟩ := appendLoop_spec hL hLgood request.entries
    ⟨n, false, request.prevLogIndex⟩ r h hgood hprev.1 hprev.2.1 htake hentries
  -- the log behind the loop
  obtain ⟨r₁, hrep, hterm₁, hfollows⟩ : ∃ r₁, Represents
      (if o.logChanged then o.node.persistStateLocked true else o.node) r₁ ∧
      r₁.term = request.term ∧ Follows M L o.matchIndex r r₁ := by
    rcases hdone with ⟨hnode, hchanged, -, htake'⟩ | ⟨hchanged, hrep, -⟩
    · simp only at hnode hchanged
      refine ⟨r, by simpa [hchanged, hnode] using h, hterm, hgood, rfl, ?_, ?_⟩
      · refine (take_le_take hprev.1).trans ?_
        rw [htake]
        exact take_le _ _
      · rw [← htake']
        exact take_le _ _
    · refine ⟨{ r with log := L.take o.matchIndex }, ?_, hterm, hLgood.take _, rfl,
        (take_le _ _).trans (take_le _ _), List.prefix_refl _⟩
      rw [if_pos hchanged]
      exact hrep.congr (by simp) (by simp) (by simp) (by simp) (by simp)
  unfold RaftNode.appendEntriesBody
  simp only [ho, Bool.not_true, Bool.and_false, Bool.false_eq_true, if_false]
  generalize (if o.logChanged then o.node.persistStateLocked true else o.node) = m at hrep
  split
  · have hcommit := hrep.withCommit (min request.leaderCommit m.lastLogIndexLocked)
    exact ⟨_, _, _, _, rfl, hcommit.congr rfl rfl rfl rfl rfl, hterm₁, hrep.term.trans hterm₁, rfl,
      hmatch, hfollows.good, hfollows.snap, hfollows.base, hfollows.holds⟩
  · exact ⟨_, _, _, _, rfl, hrep, hterm₁, hrep.term.trans hterm₁, rfl, hmatch, hfollows⟩

theorem Represents.onAppendEntries_accepts {n : RaftNode} {r : Replica LogRecord}
    (h : Represents n r) (hL : Indexed L) (hLgood : Good LogRecord.term M L)
    (hgood : Good LogRecord.term M r.log) (request : AppendEntriesRequest)
    (hterm : r.term ≤ request.term) (hprev : HasPrev r request)
    (hlen : request.prevLogIndex ≤ L.length)
    (hprevTerm : request.prevLogTerm = termAt LogRecord.term L request.prevLogIndex)
    (hentries : request.entries <+: L.drop request.prevLogIndex) :
    ∃ m r' response flag, n.onAppendEntries request true true true = (m, response, flag) ∧
      Represents m r' ∧ r'.term = request.term ∧ response.term = request.term ∧
      response.success = true ∧
      response.matchIndex = request.prevLogIndex + request.entries.length ∧
      Follows M L response.matchIndex r r' := by
  obtain ⟨hrep, hok⟩ := h.acceptLeaderLocked hterm request.leaderId
  have hge : ¬ request.term < n.currentTerm := by
    rw [h.term]
    omega
  have hcheck := (hrep.hasPrev_iff request).mp hprev
  simp only [RaftNode.onAppendEntries, if_neg hge, hok, Bool.not_true, Bool.false_eq_true, if_false,
    if_neg hcheck]
  obtain ⟨m, r', response, flag, heq, hm, hterm', hresp, hsuccess, hmatch, hfollows⟩ :=
    hrep.appendEntriesBody hL hLgood hgood rfl hprev hlen hprevTerm hentries
  exact ⟨m, r', response, flag, heq, hm, hterm', hresp, hsuccess, hmatch, hfollows.good,
    hfollows.snap, hfollows.base, hfollows.holds⟩

end

/-! ## The leader -/

/-- The node leads term `T` with the log `L`, of which it has compacted the first `B` records. -/
structure Leads (T : Nat) (L : List LogRecord) (B : Nat) (n : RaftNode) : Prop where
  running : n.running = true
  role : n.role = .leader
  log : ∃ commit, Represents n ⟨T, L, B, commit⟩

namespace Leads

variable {T B : Nat} {L : List LogRecord} {n : RaftNode} {peer : NodeId}

theorem term (h : Leads T L B n) : n.currentTerm = T := by
  obtain ⟨commit, hrep⟩ := h.log
  exact hrep.term

theorem lastLogIndexLocked (h : Leads T L B n) : n.lastLogIndexLocked = L.length := by
  obtain ⟨commit, hrep⟩ := h.log
  exact hrep.lastLogIndexLocked

theorem lastSnapshotIndex (h : Leads T L B n) : n.lastSnapshotIndex = B := by
  obtain ⟨commit, hrep⟩ := h.log
  exact hrep.snapIndex

theorem boundary_le (h : Leads T L B n) : B ≤ L.length := by
  obtain ⟨commit, hrep⟩ := h.log
  exact hrep.stores.snap_le

theorem setIndexes (h : Leads T L B n) (nextIndex matchIndex : NodeId → Nat) :
    Leads T L B { n with nextIndex, matchIndex } := by
  obtain ⟨commit, hrep⟩ := h.log
  exact ⟨h.running, h.role, commit, hrep.congr rfl rfl rfl rfl rfl⟩

/-- A commit moves nothing but the commit index. -/
theorem advanceCommitIndexUnlocked (h : Leads T L B n) (saved : Bool) :
    Leads T L B (n.advanceCommitIndexUnlocked saved) ∧
      (n.advanceCommitIndexUnlocked saved).nextIndex = n.nextIndex ∧
      (n.advanceCommitIndexUnlocked saved).matchIndex = n.matchIndex := by
  rcases n.advanceCommitIndexUnlocked_cases saved with heq | ⟨-, k, heq, -⟩
  · rw [heq]
    exact ⟨h, rfl, rfl⟩
  · rw [heq]
    obtain ⟨commit, hrep⟩ := h.log
    refine ⟨⟨by simpa using h.running, by simpa using h.role, k, ?_⟩, by simp, by simp⟩
    exact (hrep.withCommit k).congr (by simp) (by simp) (by simp) (by simp) (by simp)

theorem buildSnapshot (h : Leads T L B n) (hpos : 0 < n.nextIndex peer)
    (hnext : n.nextIndex peer ≤ B) : n.buildAppendEntriesRequest peer T = (n, .snapshot) := by
  obtain ⟨commit, hrep⟩ := h.log
  have hgo : ¬ ((!n.running) = true ∨ n.role ≠ .leader ∨ n.currentTerm ≠ T) := by
    simp [h.running, h.role, h.term]
  simp only [RaftNode.buildAppendEntriesRequest, if_neg hgo, if_neg hpos.ne',
    Function.update_eq_self]
  rw [if_pos (hrep.firstLogIndexLocked ▸ hnext)]

/-- The request that the leader builds is a window of its log, which is empty only at the end. -/
theorem buildAppend (h : Leads T L B n) (hterms : ∀ i, 0 < i → i ≤ L.length →
      0 < termAt LogRecord.term L i) (hnext : B < n.nextIndex peer)
    (hle : n.nextIndex peer ≤ L.length + 1) :
    ∃ request, n.buildAppendEntriesRequest peer T = (n, .append request) ∧ request.term = T ∧
      request.prevLogIndex = n.nextIndex peer - 1 ∧
      request.prevLogTerm = termAt LogRecord.term L (n.nextIndex peer - 1) ∧
      request.entries <+: L.drop (n.nextIndex peer - 1) ∧
      (n.nextIndex peer ≤ L.length → request.entries ≠ []) := by
  obtain ⟨commit, hrep⟩ := h.log
  have hgo : ¬ ((!n.running) = true ∨ n.role ≠ .leader ∨ n.currentTerm ≠ T) := by
    simp [h.running, h.role, h.term]
  have hsnap : ¬ n.nextIndex peer ≤ n.firstLogIndexLocked := by
    rw [hrep.firstLogIndexLocked]
    exact not_le.mpr hnext
  have hprev : n.termAtIndexLocked (n.nextIndex peer - 1) =
      termAt LogRecord.term L (n.nextIndex peer - 1) :=
    hrep.termAtIndexLocked (by simp only; omega) (by simp only; omega)
  have hknown : ¬ (n.termAtIndexLocked (n.nextIndex peer - 1) = 0 ∧ n.nextIndex peer - 1 ≠ 0) := by
    rintro ⟨hzero, hne⟩
    have := hterms (n.nextIndex peer - 1) (by omega) (by omega)
    omega
  refine ⟨n.appendRequestFrom (n.nextIndex peer), ?_, h.term, rfl, hprev, ?_, fun hlast => ?_⟩
  · simp only [RaftNode.buildAppendEntriesRequest, if_neg hgo,
      if_neg (show ¬ n.nextIndex peer = 0 by omega), Function.update_eq_self]
    rw [if_neg hsnap, if_neg hknown]
  · exact hrep.batchLoop_le kMaxAppendEntriesPerRpc hnext 0 0
  · -- the first record goes into the request whatever its size
    have hlt : n.nextIndex peer - 1 < L.length := by omega
    have hget : n.logAtIndexLocked (n.nextIndex peer) = some L[n.nextIndex peer - 1] := by
      rw [hrep.logAtIndexLocked hnext hlast, List.getElem?_eq_getElem hlt]
    have hmore : ¬ (n.lastLogIndexLocked < n.nextIndex peer ∨ kMaxAppendEntriesPerRpc ≤ 0) := by
      rw [hrep.lastLogIndexLocked]
      simp only [kMaxAppendEntriesPerRpc]
      omega
    simp only [RaftNode.appendRequestFrom]
    rw [show kMaxAppendEntriesPerRpc = 255 + 1 from rfl, RaftNode.batchLoop, if_neg hmore, hget]
    simp

theorem handleSuccess (h : Leads T L B n) (peer : NodeId) {response : AppendEntriesResponse}
    (hterm : response.term = T) (hsuccess : response.success = true) :
    Leads T L B (n.handleAppendEntriesResponse peer T response true) ∧
      (n.handleAppendEntriesResponse peer T response true).nextIndex peer =
        max (n.nextIndex peer) (response.matchIndex + 1) ∧
      (n.handleAppendEntriesResponse peer T response true).matchIndex peer =
        max (n.matchIndex peer) response.matchIndex := by
  have hstale : ¬ n.currentTerm < response.term := by
    rw [h.term]
    omega
  have hrunning : ¬ (!n.running) = true := by simp [h.running]
  have hgo : ¬ (n.role ≠ .leader ∨ n.currentTerm ≠ T) := by simp [h.role, h.term]
  simp only [RaftNode.handleAppendEntriesResponse, if_neg hrunning, if_neg hstale, if_neg hgo,
    if_pos hsuccess]
  obtain ⟨hleads, hnext, hmatch⟩ := (h.setIndexes
    (Function.update n.nextIndex peer (max (n.nextIndex peer) (response.matchIndex + 1)))
    (Function.update n.matchIndex peer
      (max (n.matchIndex peer) response.matchIndex))).advanceCommitIndexUnlocked true
  exact ⟨hleads, by rw [hnext]; simp, by rw [hmatch]; simp⟩

/-- A refusal moves `next_index_` to the hint, inside the log. -/
theorem handleRefusal (h : Leads T L B n) (peer : NodeId) {response : AppendEntriesResponse}
    (hterm : response.term = T) (hsuccess : response.success = false) :
    Leads T L B (n.handleAppendEntriesResponse peer T response true) ∧
      (n.handleAppendEntriesResponse peer T response true).matchIndex = n.matchIndex ∧
      (n.handleAppendEntriesResponse peer T response true).nextIndex peer =
        if 0 < min (n.hintedNext response) (L.length + 1) then
          min (n.hintedNext response) (L.length + 1)
        else if 1 < n.nextIndex peer then n.nextIndex peer - 1
        else 1 := by
  have hstale : ¬ n.currentTerm < response.term := by
    rw [h.term]
    omega
  have hrunning : ¬ (!n.running) = true := by simp [h.running]
  have hgo : ¬ (n.role ≠ .leader ∨ n.currentTerm ≠ T) := by simp [h.role, h.term]
  simp only [RaftNode.handleAppendEntriesResponse, if_neg hrunning, if_neg hstale, if_neg hgo,
    hsuccess, Bool.false_eq_true, if_false, h.lastLogIndexLocked]
  exact ⟨h.setIndexes _ _, trivial, Function.update_self ..⟩

theorem handleInstalled (h : Leads T L B n) (peer : NodeId) {response : InstallSnapshotResponse}
    (hterm : response.term = T) (hsuccess : response.success = true) (index : Nat) :
    Leads T L B (n.handleInstallSnapshotResponse peer T index response true) ∧
      (n.handleInstallSnapshotResponse peer T index response true).nextIndex peer =
        max (n.nextIndex peer) (index + 1) ∧
      (n.handleInstallSnapshotResponse peer T index response true).matchIndex peer =
        max (n.matchIndex peer) index := by
  have hstale : ¬ n.currentTerm < response.term := by
    rw [h.term]
    omega
  have hgo : ¬ ((!n.running) = true ∨ n.role ≠ .leader ∨ n.currentTerm ≠ T) := by
    simp [h.running, h.role, h.term]
  simp only [RaftNode.handleInstallSnapshotResponse, if_neg hstale, if_neg hgo, hsuccess,
    Bool.not_true, Bool.false_eq_true, if_false]
  exact ⟨h.setIndexes _ _, Function.update_self .., Function.update_self ..⟩

end Leads

/-! ## An installed snapshot -/

section Install

variable {sm : IStateMachine σ} {M : Nat → List LogRecord} {L : List LogRecord} {B : Nat}

/-- The snapshots at the leader's boundary that this directory has are of the leader's log, and can
be loaded. -/
def Fits (sm : IStateMachine σ) (L : List LogRecord) (B : Nat) (dir : List (Snapshot sm.Image)) :
    Prop :=
  ∀ s ∈ dir, s.index = B → s.term = termAt LogRecord.term L B ∧
    (sm.loadSnapshot s.image).isSome = true

/-- Saving the snapshot at the boundary succeeds, and leaves one there that can be loaded. -/
theorem Fits.save {dir : List (Snapshot sm.Image)} (h : Fits sm L B dir) {image : sm.Image}
    (himage : (sm.loadSnapshot image).isSome = true) :
    ∃ dir' kv, saveSnapshotFile dir (some image) B (termAt LogRecord.term L B) .ok = (dir', true) ∧
      ((dir'.find? fun s => s.index == B).bind fun s => sm.loadSnapshot s.image) = some kv ∧
      Fits sm L B dir' := by
  unfold saveSnapshotFile
  cases hfind : dir.find? (fun s => s.index == B) with
  | some existing =>
    have hindex : existing.index = B := by simpa using List.find?_some hfind
    obtain ⟨hterm, hload⟩ := h existing (List.mem_of_find?_eq_some hfind) hindex
    obtain ⟨kv, hkv⟩ := Option.isSome_iff_exists.mp hload
    exact ⟨dir, kv, by simp [hterm], by rw [hfind]; exact hkv, h⟩
  | none =>
    obtain ⟨kv, hkv⟩ := Option.isSome_iff_exists.mp himage
    refine ⟨⟨B, termAt LogRecord.term L B, image⟩ :: dir, kv, rfl, by simp [hkv], ?_⟩
    intro s hs hindex
    rcases List.mem_cons.mp hs with rfl | hs
    · exact ⟨rfl, himage⟩
    · exact h s hs hindex

theorem Fits.prune {dir : List (Snapshot sm.Image)} (h : Fits sm L B dir) (maxKeep upto : Nat) :
    Fits sm L B (pruneSnapshots dir maxKeep upto) := by
  intro s hs hindex
  refine h s ?_ hindex
  unfold pruneSnapshots at hs
  rcases List.mem_append.mp hs with hs | hs
  · exact mem_listSnapshots.mp (List.mem_of_mem_take hs)
  · exact mem_listSnapshots.mp (List.mem_of_mem_drop hs)

/-- What the follower has behind the leader's snapshot. -/
structure Installed (M : Nat → List LogRecord) (L : List LogRecord) (B : Nat)
    (r : Replica LogRecord) : Prop where
  good : Good LogRecord.term M r.log
  base : r.log.take r.snap <+: L
  reached : B ≤ r.snap

theorem Represents.adoptSnapshotLocked {n : RaftNode} {r : Replica LogRecord} (h : Represents n r)
    (hL : Indexed L) (hLgood : Good LogRecord.term M L) (hgood : Good LogRecord.term M r.log)
    (hsnap : r.snap < B) (hB : B ≤ L.length) :
    ∃ r', Represents (n.adoptSnapshotLocked B (termAt LogRecord.term L B)) r' ∧
      r'.term = r.term ∧ Installed M L B r' := by
  have hlen : (L.take B).length = B := by simp [hB]
  have hterm : termAt LogRecord.term (L.take B) (L.take B).length = termAt LogRecord.term L B := by
    rw [hlen, termAt_take LogRecord.term le_rfl]
  obtain ⟨r', hrep, hlog, hterm', hsnap', -⟩ := h.compactLogPrefixLocked hgood (hLgood.take B)
    (hL.of_le (take_le L B)) (hlen.symm ▸ hsnap)
  rw [hterm, hlen] at hrep
  rw [hlen] at hsnap'
  refine ⟨{ r' with commit := max r'.commit B }, ?_, hterm', ?_, ?_, hsnap'.ge⟩
  · have hcommit := hrep.withCommit (max r'.commit B)
    rw [← hrep.commit] at hcommit ⊢
    exact hcommit.congr rfl rfl rfl rfl rfl
  · rcases hlog with ⟨-, hlog⟩ | ⟨-, hlog⟩
    · exact hlog ▸ hgood
    · exact hlog ▸ hLgood.take B
  · simp only [hsnap']
    rcases hlog with ⟨hle, hlog⟩ | ⟨-, hlog⟩
    · rw [hlog, ← take_eq_of_le hle hlen.ge]
      exact (take_le _ _).trans (take_le _ _)
    · rw [hlog]
      exact (take_le _ _).trans (take_le _ _)

/-- The leader's snapshot enters, unless the follower has one that reaches as far. -/
theorem Represents.onInstallSnapshot {n : RaftNode} {r : Replica LogRecord} (h : Represents n r)
    (hL : Indexed L) (hLgood : Good LogRecord.term M L) (hgood : Good LogRecord.term M r.log)
    (hbase : r.log.take r.snap <+: L) (hB : B ≤ L.length) {dir : List (Snapshot sm.Image)}
    (hdir : Fits sm L B dir) (maxSnapshotCount : Nat) (request : InstallSnapshotRequest sm.Image)
    (hterm : r.term ≤ request.term) (hindex : request.lastIncludedIndex = B)
    (hlast : request.lastIncludedTerm = termAt LogRecord.term L B)
    (hdata : (sm.loadSnapshot request.snapshotData).isSome = true) :
    ∃ m r' dir' response, n.onInstallSnapshot sm dir maxSnapshotCount request =
      (m, dir', response) ∧
      Represents m r' ∧ r'.term = request.term ∧ response.term = request.term ∧
      response.success = true ∧ Installed M L B r' ∧ Fits sm L B dir' := by
  obtain ⟨hrep, hok⟩ := h.acceptLeaderLocked hterm request.leaderId
  have hge : ¬ request.term < n.currentTerm := by
    rw [h.term]
    omega
  unfold RaftNode.onInstallSnapshot
  by_cases hthere : B ≤ r.snap
  · have hcheck : n.installCheck true request true =
        ((n.acceptLeaderLocked request.term request.leaderId true).1,
          some ⟨(n.acceptLeaderLocked request.term request.leaderId true).1.currentTerm, true,
            (n.acceptLeaderLocked request.term request.leaderId true).1.lastLogIndexLocked,
            "snapshot already installed"⟩) := by
      have hle : request.lastIncludedIndex ≤
          (n.acceptLeaderLocked request.term request.leaderId true).1.lastSnapshotIndex := by
        rw [hrep.snapIndex, hindex]
        exact hthere
      simp only [RaftNode.installCheck, Bool.not_true, Bool.false_eq_true, if_false, if_neg hge,
        hok,
        if_pos hle]
    rw [hcheck]
    exact ⟨_, _, dir, _, rfl, hrep, rfl, hrep.term, rfl, ⟨hgood, hbase, hthere⟩, hdir⟩
  · have hcheck : n.installCheck true request true =
        ((n.acceptLeaderLocked request.term request.leaderId true).1, none) := by
      have hlt : ¬ request.lastIncludedIndex ≤
          (n.acceptLeaderLocked request.term request.leaderId true).1.lastSnapshotIndex := by
        rw [hrep.snapIndex, hindex]
        exact hthere
      simp only [RaftNode.installCheck, Bool.not_true, Bool.false_eq_true, if_false, if_neg hge,
        hok,
        if_neg hlt]
    obtain ⟨dir', kv, hsave, hload, hfits⟩ := hdir.save hdata
    obtain ⟨r', hrep', hterm', hinstalled⟩ := hrep.adoptSnapshotLocked hL hLgood hgood
      (not_le.mp hthere) hB
    have hsame : ¬ request.term <
        (n.acceptLeaderLocked request.term request.leaderId true).1.currentTerm := by
      rw [hrep.term]
      exact lt_irrefl _
    subst hindex
    rw [← hlast] at hsave hrep'
    simp only [hcheck, hsave, hload, RaftNode.installFinish, if_neg hsame, if_true]
    refine ⟨_, r', _, _, rfl, ?_, hterm', ?_, rfl, hinstalled, hfits.prune _ _⟩
    · exact hrep'.congr (by simp) (by simp) (by simp) (by simp) (by simp)
    · exact hrep'.term.trans hterm'

end Install

/-! ## Refusals -/

section Refusals

variable {M : Nat → List LogRecord} {L : List LogRecord} {n m : RaftNode} {r : Replica LogRecord}
  {probe : Nat}

theorem refusal_term (m : RaftNode) (probe : Nat) :
    (m.setAppendEntriesConflictHintLocked probe m.appendEntriesResponse).term = m.currentTerm ∧
      (m.setAppendEntriesConflictHintLocked probe m.appendEntriesResponse).success = false := by
  unfold RaftNode.setAppendEntriesConflictHintLocked
  simp only
  split
  · exact ⟨rfl, rfl⟩
  · split <;> exact ⟨rfl, rfl⟩

/-- The follower has compacted the record: the leader goes on behind its boundary. -/
theorem Represents.hintedNext_compacted (h : Represents m r) (n : RaftNode)
    (hlt : probe < r.snap) :
    n.hintedNext (m.setAppendEntriesConflictHintLocked probe m.appendEntriesResponse) =
      r.snap + 1 := by
  have hsnap := h.snapIndex
  simp only [RaftNode.setAppendEntriesConflictHintLocked, if_pos (hsnap.symm ▸ hlt),
    RaftNode.hintedNext]
  simp [hsnap]

/-- The follower's log is too short: the leader goes on behind its end. -/
theorem Represents.hintedNext_missing (h : Represents m r) (n : RaftNode) (hsnap : r.snap ≤ probe)
    (hlong : r.log.length < probe) :
    n.hintedNext (m.setAppendEntriesConflictHintLocked probe m.appendEntriesResponse) =
      r.log.length + 1 := by
  have hkept : ¬ probe < m.lastSnapshotIndex := by
    rw [h.snapIndex]
    exact not_lt.mpr hsnap
  have hnone : (!m.hasLogAtIndexLocked probe) = true := by
    rw [Bool.not_eq_true', Bool.eq_false_iff]
    exact fun hhas => absurd ((h.hasLogAtIndexLocked probe).mp hhas).2 (not_le.mpr hlong)
  simp only [RaftNode.setAppendEntriesConflictHintLocked, if_neg hkept, if_pos hnone,
    RaftNode.hintedNext]
  simp [h.lastLogIndexLocked]

/-- The follower has another record there: the leader goes back to the last record of that term, or
to the follower's first. -/
theorem Represents.hintedNext_conflict (h : Represents m r) (hgood : Good LogRecord.term M r.log)
    (hLgood : Good LogRecord.term M L) {T B commit : Nat} (hn : Represents n ⟨T, L, B, commit⟩)
    (hsnap : r.snap ≤ probe) (hle : probe ≤ r.log.length)
    (hpos : 0 < termAt LogRecord.term r.log probe)
    (hne : termAt LogRecord.term r.log probe ≠ termAt LogRecord.term L probe) :
    n.hintedNext (m.setAppendEntriesConflictHintLocked probe m.appendEntriesResponse) ≤ probe := by
  have hkept : ¬ probe < m.lastSnapshotIndex := by
    rw [h.snapIndex]
    exact not_lt.mpr hsnap
  have hhas : ¬ (!m.hasLogAtIndexLocked probe) = true := by
    simp [(h.hasLogAtIndexLocked probe).mpr ⟨hsnap, hle⟩]
  have hterm := h.termAtIndexLocked hsnap hle
  simp only [RaftNode.setAppendEntriesConflictHintLocked, if_neg hkept, if_neg hhas,
    RaftNode.hintedNext, hterm, if_pos hpos.ne', ne_eq]
  cases hlast : n.lastIndexOfTerm (termAt LogRecord.term r.log probe) with
  | none => exact (h.firstIndexOfTermLocked hsnap hle).1
  | some i =>
    obtain ⟨-, hi, hiterm⟩ := hn.lastIndexOfTerm hlast
    exact hgood.lt_of_termAt_ne hLgood hle hi hiterm hne

end Refusals

/-! ## Rounds -/

namespace Link

variable {sm : IStateMachine σ} {M : Nat → List LogRecord} {L : List LogRecord} {T B : Nat}
  {peer : NodeId} {s : Link sm.Image} {maxSnapshotCount : Nat}

/-- The invariant of the rounds. The snapshot at the leader's boundary is there and can be loaded,
and what the follower's snapshot covers is of the leader's log. -/
structure Ready (M : Nat → List LogRecord) (T : Nat) (L : List LogRecord) (B : Nat)
    (sm : IStateMachine σ) (peer : NodeId) (s : Link sm.Image) : Prop where
  leads : Leads T L B s.leader
  next_pos : 0 < s.leader.nextIndex peer
  next_le : s.leader.nextIndex peer ≤ L.length + 1
  match_le : s.leader.matchIndex peer ≤ L.length
  file : 0 < B → ∃ snapshot, chooseSnapshot s.leaderSnapshots B (termAt LogRecord.term L B) =
    some snapshot ∧ snapshot.index = B ∧ snapshot.term = termAt LogRecord.term L B ∧
      (sm.loadSnapshot snapshot.image).isSome = true
  dir : Fits sm L B s.followerSnapshots
  follower : ∃ r, Represents s.follower r ∧ r.term ≤ T ∧ Good LogRecord.term M r.log ∧
    r.log.take r.snap <+: L

/-- The leader knows that the follower has its whole log. -/
structure CaughtUp (M : Nat → List LogRecord) (T : Nat) (L : List LogRecord) (B : Nat)
    (sm : IStateMachine σ) (peer : NodeId) (s : Link sm.Image) : Prop where
  ready : Ready M T L B sm peer s
  matched : s.leader.matchIndex peer = L.length
  holds : ∃ r, Represents s.follower r ∧ L <+: r.log

/-- Both logs have a record of the same term at `i`. -/
def Shares (L : List LogRecord) (r : Replica LogRecord) (i : Nat) : Prop :=
  (r.snap ≤ i ∧ i ≤ r.log.length) ∧ termAt LogRecord.term r.log i = termAt LogRecord.term L i

theorem rank_le (peer : NodeId) (s : Link sm.Image) :
    s.rank peer ≤ s.leader.lastLogIndexLocked + 3 + s.leader.nextIndex peer := by
  unfold rank
  simp only
  split
  · omega
  · split
    · omega
    · split <;> omega

namespace Ready

theorem rank_snapshot (h : Ready M T L B sm peer s) (hnext : s.leader.nextIndex peer ≤ B) :
    s.rank peer = L.length + 3 := by
  unfold rank
  simp only [h.leads.lastSnapshotIndex, if_pos hnext, h.leads.lastLogIndexLocked]

theorem rank_compacted (h : Ready M T L B sm peer s) {r : Replica LogRecord}
    (hr : Represents s.follower r) (hnext : B < s.leader.nextIndex peer)
    (hlt : s.leader.nextIndex peer - 1 < r.snap) : s.rank peer = L.length + 2 := by
  unfold rank
  simp only [h.leads.lastSnapshotIndex, if_neg (not_le.mpr hnext), h.leads.lastLogIndexLocked,
    hr.snapIndex, if_pos hlt]

theorem shares_iff (h : Ready M T L B sm peer s) {r : Replica LogRecord}
    (hr : Represents s.follower r) (hnext : B < s.leader.nextIndex peer) :
    (s.follower.hasLogAtIndexLocked (s.leader.nextIndex peer - 1) = true ∧
      s.follower.termAtIndexLocked (s.leader.nextIndex peer - 1) =
        s.leader.termAtIndexLocked (s.leader.nextIndex peer - 1)) ↔
      Shares L r (s.leader.nextIndex peer - 1) := by
  obtain ⟨commit, hlead⟩ := h.leads.log
  have hnext_le := h.next_le
  have hterm := hlead.termAtIndexLocked (i := s.leader.nextIndex peer - 1)
    (by simp only; omega) (by simp only; omega)
  rw [hr.hasLogAtIndexLocked, hterm]
  constructor
  · rintro ⟨hhas, heq⟩
    exact ⟨hhas, (hr.termAtIndexLocked hhas.1 hhas.2).symm.trans heq⟩
  · rintro ⟨hhas, heq⟩
    exact ⟨hhas, (hr.termAtIndexLocked hhas.1 hhas.2).trans heq⟩

theorem rank_shares (h : Ready M T L B sm peer s) {r : Replica LogRecord}
    (hr : Represents s.follower r) (hnext : B < s.leader.nextIndex peer)
    (hshares : Shares L r (s.leader.nextIndex peer - 1)) :
    s.rank peer = L.length - (s.leader.nextIndex peer - 1) := by
  unfold rank
  simp only [h.leads.lastSnapshotIndex, if_neg (not_le.mpr hnext), h.leads.lastLogIndexLocked,
    hr.snapIndex, if_neg (not_lt.mpr hshares.1.1), if_pos ((h.shares_iff hr hnext).mpr hshares)]

theorem rank_probe (h : Ready M T L B sm peer s) {r : Replica LogRecord}
    (hr : Represents s.follower r) (hnext : B < s.leader.nextIndex peer)
    (hge : ¬ s.leader.nextIndex peer - 1 < r.snap)
    (hshares : ¬ Shares L r (s.leader.nextIndex peer - 1)) :
    s.rank peer = L.length + 3 + s.leader.nextIndex peer := by
  unfold rank
  simp only [h.leads.lastSnapshotIndex, if_neg (not_le.mpr hnext), h.leads.lastLogIndexLocked,
    hr.snapIndex, if_neg hge, if_neg (fun hs => hshares ((h.shares_iff hr hnext).mp hs))]

end Ready

theorem termAt_base {r : Replica LogRecord} {L : List LogRecord} (hsnap : r.snap ≤ r.log.length)
    (hbase : r.log.take r.snap <+: L) :
    termAt LogRecord.term r.log r.snap = termAt LogRecord.term L r.snap := by
  rw [← termAt_take LogRecord.term le_rfl, termAt_of_le LogRecord.term hbase (by simp [hsnap])]

namespace Ready

theorem round_snapshot (h : Ready M T L B sm peer s) (hL : Indexed L)
    (hLgood : Good LogRecord.term M L) (hnext : s.leader.nextIndex peer ≤ B) :
    Ready M T L B sm peer (s.replicateOnce sm maxSnapshotCount peer) ∧
      (s.replicateOnce sm maxSnapshotCount peer).rank peer < s.rank peer := by
  obtain ⟨r, hr, hrterm, hgood, hbase⟩ := h.follower
  obtain ⟨commit, hlead⟩ := h.leads.log
  have hpos : 0 < B := h.next_pos.trans_le hnext
  have hB := h.leads.boundary_le
  obtain ⟨snapshot, hchoose, hindex, hterm, hload⟩ := h.file hpos
  obtain ⟨m, r', dir', response, heq, hm, hmterm, hresponse, hsuccess, hinstalled, hfits⟩ :=
    hr.onInstallSnapshot hL hLgood hgood hbase hB h.dir maxSnapshotCount
      ⟨T, s.leader.nodeId, snapshot.index, snapshot.term, snapshot.image⟩
      hrterm hindex hterm hload
  have hround : s.replicateOnce sm maxSnapshotCount peer =
      { s with
        leader := s.leader.handleInstallSnapshotResponse peer T snapshot.index response true
        follower := m
        followerSnapshots := dir' } := by
    have hsnapTerm : s.leader.lastSnapshotTerm = termAt LogRecord.term L B := hlead.snapTerm
    simp only [replicateOnce, sendInstallSnapshotToPeer, h.leads.term,
      h.leads.buildSnapshot h.next_pos hnext, h.leads.lastSnapshotIndex, if_neg hpos.ne', hsnapTerm,
      hchoose, heq]
  rw [hindex] at hround
  obtain ⟨hleads, hnext', hmatch'⟩ := h.leads.handleInstalled peer hresponse hsuccess B
  have hnext'' : (s.leader.handleInstallSnapshotResponse peer T B response true).nextIndex peer =
      B + 1 := by omega
  have hready : Ready M T L B sm peer (s.replicateOnce sm maxSnapshotCount peer) := by
    rw [hround]
    refine ⟨hleads, ?_, ?_, ?_, h.file, hfits, r', hm, hmterm.le, hinstalled.good, hinstalled.base⟩
    · simp only [hnext'']
      omega
    · simp only [hnext'']
      omega
    · have := h.match_le
      simp only [hmatch']
      omega
  refine ⟨hready, ?_⟩
  rw [h.rank_snapshot hnext]
  have hfollower : Represents (s.replicateOnce sm maxSnapshotCount peer).follower r' := by
    rw [hround]
    exact hm
  have hfound : (s.replicateOnce sm maxSnapshotCount peer).leader.nextIndex peer = B + 1 := by
    rw [hround]
    exact hnext''
  rcases hinstalled.reached.lt_or_eq with hlt | rfl
  · rw [hready.rank_compacted hfollower (by omega) (by omega)]
    omega
  · have hsnap := hm.stores.snap_le
    rw [hready.rank_shares hfollower (by omega)]
    · omega
    · rw [hfound, Nat.add_sub_cancel]
      exact ⟨⟨le_rfl, hsnap⟩, termAt_base hsnap hinstalled.base⟩

theorem round_accepted (h : Ready M T L B sm peer s) (hL : Indexed L)
    (hLgood : Good LogRecord.term M L)
    (hterms : ∀ i, 0 < i → i ≤ L.length → 0 < termAt LogRecord.term L i)
    {r : Replica LogRecord} (hr : Represents s.follower r) (hrterm : r.term ≤ T)
    (hgood : Good LogRecord.term M r.log) (hnext : B < s.leader.nextIndex peer)
    (hshares : Shares L r (s.leader.nextIndex peer - 1)) :
    CaughtUp M T L B sm peer (s.replicateOnce sm maxSnapshotCount peer) ∨
      Ready M T L B sm peer (s.replicateOnce sm maxSnapshotCount peer) ∧
        (s.replicateOnce sm maxSnapshotCount peer).rank peer < s.rank peer := by
  have hnext_le := h.next_le
  obtain ⟨request, hbuild, hterm, hprev, hprevTerm, hentries, hmore⟩ :=
    h.leads.buildAppend hterms hnext hnext_le
  obtain ⟨m, r', response, flag, heq, hm, hmterm, hresponse, hsuccess, hmatch, hfollows⟩ :=
    hr.onAppendEntries_accepts hL hLgood hgood request (hterm.symm ▸ hrterm)
      ⟨hprev.symm ▸ hshares.1.1, hprev.symm ▸ hshares.1.2, by rw [hprev, hprevTerm, hshares.2]⟩
      (by omega) (by rw [hprev, hprevTerm]) (by rw [hprev]; exact hentries)
  have hround : s.replicateOnce sm maxSnapshotCount peer =
      { s with
        leader := s.leader.handleAppendEntriesResponse peer T response true
        follower := m } := by
    simp only [replicateOnce, h.leads.term, hbuild, heq]
  have hlen := hentries.length_le
  rw [List.length_drop] at hlen
  obtain ⟨hleads, hnext', hmatch'⟩ :=
    h.leads.handleSuccess peer (hresponse.trans hterm) hsuccess
  have hnext'' : (s.leader.handleAppendEntriesResponse peer T response true).nextIndex peer =
      response.matchIndex + 1 := by omega
  have hmatch_le := h.match_le
  have hready : Ready M T L B sm peer (s.replicateOnce sm maxSnapshotCount peer) := by
    rw [hround]
    refine ⟨hleads, ?_, ?_, ?_, h.file, h.dir, r', hm, (hmterm.trans hterm).le, hfollows.good,
      hfollows.base⟩
    · simp only [hnext'']
      omega
    · simp only [hnext'']
      omega
    · simp only [hmatch']
      omega
  have hfollower : Represents (s.replicateOnce sm maxSnapshotCount peer).follower r' := by
    rw [hround]
    exact hm
  by_cases hend : response.matchIndex = L.length
  · refine .inl ⟨hready, ?_, r', hfollower, ?_⟩
    · rw [hround]
      simp only [hmatch']
      omega
    · have hholds := hfollows.holds
      rwa [hend, List.take_length] at hholds
  · have hfound : (s.replicateOnce sm maxSnapshotCount peer).leader.nextIndex peer =
        response.matchIndex + 1 := by
      rw [hround]
      exact hnext''
    have hsnap := hfollows.snap
    have hlength := hfollows.holds.length_le
    rw [List.length_take] at hlength
    have hlow := hshares.1.1
    have hsome := List.length_pos_iff.mpr (hmore (by omega))
    refine .inr ⟨hready, ?_⟩
    rw [h.rank_shares hr hnext hshares, hready.rank_shares hfollower (by omega)]
    · omega
    · rw [hfound, Nat.add_sub_cancel]
      refine ⟨⟨by omega, by omega⟩, ?_⟩
      rw [← termAt_of_le LogRecord.term hfollows.holds (by rw [List.length_take]; omega),
        termAt_take LogRecord.term le_rfl]

theorem round_refused (h : Ready M T L B sm peer s) (hLgood : Good LogRecord.term M L)
    (hpos : ∀ T, ∀ x ∈ M T, 0 < LogRecord.term x) {r : Replica LogRecord}
    (hr : Represents s.follower r) (hrterm : r.term ≤ T) (hgood : Good LogRecord.term M r.log)
    (hbase : r.log.take r.snap <+: L) (hnext : B < s.leader.nextIndex peer)
    (hshares : ¬ Shares L r (s.leader.nextIndex peer - 1)) :
    Ready M T L B sm peer (s.replicateOnce sm maxSnapshotCount peer) ∧
      (s.replicateOnce sm maxSnapshotCount peer).rank peer < s.rank peer := by
  obtain ⟨commit, hlead⟩ := h.leads.log
  have hnext_le := h.next_le
  have hsnap := hr.stores.snap_le
  obtain ⟨request, hbuild, hterm, hprev, hprevTerm, -, -⟩ :=
    h.leads.buildAppend (fun i => hLgood.termAt_pos hpos) hnext hnext_le
  obtain ⟨m, hm, heq⟩ := hr.onAppendEntries_rejects request (hterm.symm ▸ hrterm) (by
    rintro ⟨hlow, hhigh, hsame⟩
    rw [hprev] at hlow hhigh hsame
    exact hshares ⟨⟨hlow, hhigh⟩, hsame.trans hprevTerm⟩)
  rw [hterm] at hm
  rw [hprev] at heq
  have hround : s.replicateOnce sm maxSnapshotCount peer =
      { s with
        leader := s.leader.handleAppendEntriesResponse peer T
          (m.setAppendEntriesConflictHintLocked (s.leader.nextIndex peer - 1)
            m.appendEntriesResponse) true
        follower := m } := by
    simp only [replicateOnce, h.leads.term, hbuild, heq]
  obtain ⟨hresponse, hsuccess⟩ := refusal_term m (s.leader.nextIndex peer - 1)
  obtain ⟨hleads, hmatch', hnext'⟩ :=
    h.leads.handleRefusal peer (hresponse.trans hm.term) hsuccess
  have hready : 0 < (s.replicateOnce sm maxSnapshotCount peer).leader.nextIndex peer →
      (s.replicateOnce sm maxSnapshotCount peer).leader.nextIndex peer ≤ L.length + 1 →
      Ready M T L B sm peer (s.replicateOnce sm maxSnapshotCount peer) := by
    rw [hround]
    intro hlow hhigh
    refine ⟨hleads, hlow, hhigh, ?_, h.file, h.dir, _, hm, le_rfl, hgood, hbase⟩
    simp only [hmatch']
    exact h.match_le
  have hfollower : Represents (s.replicateOnce sm maxSnapshotCount peer).follower
      { r with term := T } := by
    rw [hround]
    exact hm
  -- a probe that moves downwards
  have hdown : s.leader.hintedNext (m.setAppendEntriesConflictHintLocked
        (s.leader.nextIndex peer - 1) m.appendEntriesResponse) ≤ s.leader.nextIndex peer - 1 →
      1 < s.leader.nextIndex peer → s.rank peer = L.length + 3 + s.leader.nextIndex peer →
      Ready M T L B sm peer (s.replicateOnce sm maxSnapshotCount peer) ∧
        (s.replicateOnce sm maxSnapshotCount peer).rank peer < s.rank peer := by
    intro hhint hmore hrank
    have hlower : 0 < (s.replicateOnce sm maxSnapshotCount peer).leader.nextIndex peer ∧
        (s.replicateOnce sm maxSnapshotCount peer).leader.nextIndex peer <
          s.leader.nextIndex peer := by
      rw [hround]
      simp only [hnext', if_pos hmore]
      constructor <;> split <;> omega
    have hready' := hready hlower.1 (by omega)
    refine ⟨hready', ?_⟩
    have hle := rank_le peer (s.replicateOnce sm maxSnapshotCount peer)
    rw [hready'.leads.lastLogIndexLocked] at hle
    omega
  by_cases hcompacted : s.leader.nextIndex peer - 1 < r.snap
  · -- the follower's snapshot is of the leader's log, so the leader finds its last record
    have hsnapL : r.snap ≤ L.length := by
      have := hbase.length_le
      rw [List.length_take, min_eq_left hsnap] at this
      exact this
    have hfound :
        (s.replicateOnce sm maxSnapshotCount peer).leader.nextIndex peer = r.snap + 1 := by
      rw [hround]
      simp only [hnext', hm.hintedNext_compacted s.leader hcompacted]
      rw [min_eq_left (by omega), if_pos (by omega)]
    have hready' := hready (by omega) (by omega)
    refine ⟨hready', ?_⟩
    rw [h.rank_compacted hr hnext hcompacted, hready'.rank_shares hfollower (by omega)]
    · omega
    · rw [hfound, Nat.add_sub_cancel]
      exact ⟨⟨le_rfl, hsnap⟩, termAt_base hsnap hbase⟩
  · have hrank := h.rank_probe hr hnext hcompacted hshares
    by_cases hmissing : r.log.length < s.leader.nextIndex peer - 1
    · refine hdown ?_ (by omega) hrank
      rw [hm.hintedNext_missing s.leader (by simp only; omega) hmissing]
      simp only
      omega
    · have hne : termAt LogRecord.term r.log (s.leader.nextIndex peer - 1) ≠
          termAt LogRecord.term L (s.leader.nextIndex peer - 1) :=
        fun hsame => hshares ⟨⟨by omega, by omega⟩, hsame⟩
      have hprobe : 0 < s.leader.nextIndex peer - 1 := by
        by_contra hzero
        rw [Nat.eq_zero_of_not_pos hzero] at hne
        exact hne rfl
      refine hdown ?_ (by omega) hrank
      exact hm.hintedNext_conflict hgood hLgood hlead (by simp only; omega) (by simp only; omega)
        (hgood.termAt_pos hpos hprobe (by omega)) hne

end Ready

/-- Repeating the rounds brings the follower up to date. -/
theorem Ready.reaches (hL : Indexed L) (hLgood : Good LogRecord.term M L)
    (hpos : ∀ T, ∀ x ∈ M T, 0 < LogRecord.term x) (maxSnapshotCount : Nat)
    (h : Ready M T L B sm peer s) :
    Rounds.Reaches (replicateOnce sm maxSnapshotCount peer) (CaughtUp M T L B sm peer) s := by
  refine Rounds.Reaches.of_rank (I := Ready M T L B sm peer) (rank peer)
    (fun s h => ?_) h
  obtain ⟨r, hr, hrterm, hgood, hbase⟩ := h.follower
  by_cases hnext : s.leader.nextIndex peer ≤ B
  · exact .inr (h.round_snapshot hL hLgood hnext)
  · by_cases hshares : Shares L r (s.leader.nextIndex peer - 1)
    · exact h.round_accepted hL hLgood (fun i => hLgood.termAt_pos hpos) hr hrterm hgood
        (not_le.mp hnext) hshares
    · exact .inr (h.round_refused hLgood hpos hr hrterm hgood hbase (not_le.mp hnext) hshares)

end Link

end CquptRaft
