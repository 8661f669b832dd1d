import CquptRaft.Replication.CatchUp

/-!
# Committing with a majority

A leader and any number of followers, each of them reached by rounds of `ReplicateOnce`. A round
may lose its request or its reply. As long as a majority goes on answering, every record of the
leader's log is committed, whatever the order of the rounds.
-/

namespace CquptRaft

open Replication RaftNode

variable {σ : Type}

/-- What becomes of the call of a round. -/
inductive Delivery where
  /-- The follower gets nothing. -/
  | lost
  /-- The follower has handled the request, and the leader gets no reply. -/
  | unanswered
  | answered
  deriving DecidableEq, Repr

structure Group (Image : Type) where
  leader : RaftNode
  leaderSnapshots : List (Snapshot Image)
  followers : NodeId → RaftNode
  followerSnapshots : NodeId → List (Snapshot Image)

namespace Group

def link {Image : Type} (g : Group Image) (p : NodeId) : Link Image where
  leader := g.leader
  leaderSnapshots := g.leaderSnapshots
  follower := g.followers p
  followerSnapshots := g.followerSnapshots p

/-- One `ReplicateOnce` for follower `p`. -/
def round (sm : IStateMachine σ) (maxSnapshotCount : Nat) (g : Group sm.Image) (p : NodeId) :
    Delivery → Group sm.Image
  | .lost => { g with leader := (g.leader.buildAppendEntriesRequest p g.leader.currentTerm).1 }
  | .unanswered =>
    let s := (g.link p).replicateOnce sm maxSnapshotCount p
    { g with
      leader := (g.leader.buildAppendEntriesRequest p g.leader.currentTerm).1
      followers := Function.update g.followers p s.follower
      followerSnapshots := Function.update g.followerSnapshots p s.followerSnapshots }
  | .answered =>
    let s := (g.link p).replicateOnce sm maxSnapshotCount p
    { g with
      leader := s.leader
      followers := Function.update g.followers p s.follower
      followerSnapshots := Function.update g.followerSnapshots p s.followerSnapshots }

/-- The first `k` rounds. -/
def after (sm : IStateMachine σ) (maxSnapshotCount : Nat) (rounds : Nat → NodeId × Delivery)
    (g : Group sm.Image) : Nat → Group sm.Image
  | 0 => g
  | k + 1 =>
    (g.after sm maxSnapshotCount rounds k).round sm maxSnapshotCount (rounds k).1 (rounds k).2

end Group

/-! ## What the leader does for one peer -/

/-- The indexes of the other peers stay, and neither `match_index_` nor `commit_index_` goes
back. -/
structure RaftNode.ServesOnly (peer : NodeId) (n n' : RaftNode) : Prop where
  next : ∀ q, q ≠ peer → n'.nextIndex q = n.nextIndex q
  matched : ∀ q, q ≠ peer → n'.matchIndex q = n.matchIndex q
  grows : n.matchIndex peer ≤ n'.matchIndex peer
  commit : n.commitIndex ≤ n'.commitIndex
  peers : n'.peers = n.peers

namespace RaftNode

variable {n n' n'' : RaftNode} {peer : NodeId}

theorem ServesOnly.refl (peer : NodeId) (n : RaftNode) : ServesOnly peer n n :=
  ⟨fun _ _ => rfl, fun _ _ => rfl, le_rfl, le_rfl, rfl⟩

theorem ServesOnly.trans (h : ServesOnly peer n n') (h' : ServesOnly peer n' n'') :
    ServesOnly peer n n'' where
  next q hq := (h'.next q hq).trans (h.next q hq)
  matched q hq := (h'.matched q hq).trans (h.matched q hq)
  grows := h.grows.trans h'.grows
  commit := h.commit.trans h'.commit
  peers := h'.peers.trans h.peers

/-- No peer's `match_index_` goes back. -/
theorem ServesOnly.match_le (h : ServesOnly peer n n') (q : NodeId) :
    n.matchIndex q ≤ n'.matchIndex q := by
  by_cases hq : q = peer
  · exact hq ▸ h.grows
  · exact (h.matched q hq).ge

theorem ServesOnly.of_next (peer : NodeId) (n : RaftNode) (next : Nat) :
    ServesOnly peer n { n with nextIndex := Function.update n.nextIndex peer next } :=
  ⟨fun _ hq => Function.update_of_ne hq .., fun _ _ => rfl, le_rfl, le_rfl, rfl⟩

theorem ServesOnly.of_indexes (peer : NodeId) (n : RaftNode) (next index : Nat) :
    ServesOnly peer n { n with
      matchIndex := Function.update n.matchIndex peer (max (n.matchIndex peer) index)
      nextIndex := Function.update n.nextIndex peer next } where
  next _ hq := Function.update_of_ne hq ..
  matched _ hq := Function.update_of_ne hq ..
  grows := by simp
  commit := le_rfl
  peers := rfl

theorem becomeFollowerLocked_servesOnly (n : RaftNode) (peer : NodeId) (newTerm : Nat)
    (newLeader : NodeId) (saved : Bool) :
    ServesOnly peer n (n.becomeFollowerLocked newTerm newLeader saved).1 := by
  constructor <;> grind [becomeFollowerLocked, resetElectionTimerLocked, cancelElectionTimerLocked,
    persistStateLocked_eq]

theorem advanceCommitIndexUnlocked_servesOnly (n : RaftNode) (peer : NodeId) (saved : Bool) :
    ServesOnly peer n (n.advanceCommitIndexUnlocked saved) := by
  rcases n.advanceCommitIndexUnlocked_cases saved with heq | ⟨-, i, heq, hlt, -⟩
  · rw [heq]
    exact .refl peer n
  · rw [heq]
    exact ⟨by simp, by simp, by simp, by simpa using hlt.le, by simp⟩

theorem buildAppendEntriesRequest_servesOnly (n : RaftNode) (peer : NodeId) (leaderTerm : Nat) :
    ServesOnly peer n (n.buildAppendEntriesRequest peer leaderTerm).1 := by
  unfold buildAppendEntriesRequest
  split
  · exact .refl peer n
  · generalize (if n.nextIndex peer = 0 then n.lastLogIndexLocked + 1 else n.nextIndex peer) = next
    simp only
    split
    · exact .of_next peer n next
    · split <;> exact .of_next peer n next

theorem handleAppendEntriesResponse_servesOnly (n : RaftNode) (peer : NodeId) (leaderTerm : Nat)
    (response : AppendEntriesResponse) (saved : Bool) :
    ServesOnly peer n (n.handleAppendEntriesResponse peer leaderTerm response saved) := by
  unfold handleAppendEntriesResponse
  split
  · exact .refl peer n
  · split
    · exact n.becomeFollowerLocked_servesOnly peer response.term (-1) saved
    · split
      · exact .refl peer n
      · split
        · exact (ServesOnly.of_indexes peer n _ _).trans
            (advanceCommitIndexUnlocked_servesOnly _ peer saved)
        · exact .of_next peer n _

theorem handleInstallSnapshotResponse_servesOnly (n : RaftNode) (peer : NodeId) (leaderTerm : Nat)
    (lastIncludedIndex : Nat) (response : InstallSnapshotResponse) (saved : Bool) :
    ServesOnly peer n
      (n.handleInstallSnapshotResponse peer leaderTerm lastIncludedIndex response saved) := by
  unfold handleInstallSnapshotResponse
  split
  · exact n.becomeFollowerLocked_servesOnly peer response.term (-1) saved
  · split
    · exact .refl peer n
    · split
      · exact .of_next peer n _
      · exact .of_indexes peer n _ _

end RaftNode

namespace Link

variable {sm : IStateMachine σ}

theorem sendInstallSnapshotToPeer_servesOnly (s : Link sm.Image) (maxSnapshotCount : Nat)
    (peer : NodeId) :
    ServesOnly peer s.leader (s.sendInstallSnapshotToPeer sm maxSnapshotCount peer).leader := by
  unfold sendInstallSnapshotToPeer
  simp only
  split
  · exact .refl peer _
  · split
    · exact .refl peer _
    · exact s.leader.handleInstallSnapshotResponse_servesOnly peer _ _ _ true

theorem replicateOnce_servesOnly (s : Link sm.Image) (maxSnapshotCount : Nat) (peer : NodeId) :
    ServesOnly peer s.leader (s.replicateOnce sm maxSnapshotCount peer).leader := by
  have hbuild := s.leader.buildAppendEntriesRequest_servesOnly peer s.leader.currentTerm
  unfold replicateOnce
  simp only
  split
  · exact .refl peer _
  · rename_i leader heq
    rw [heq] at hbuild
    exact hbuild.trans
      (sendInstallSnapshotToPeer_servesOnly { s with leader } maxSnapshotCount peer)
  · rename_i leader request heq
    rw [heq] at hbuild
    exact hbuild.trans (leader.handleAppendEntriesResponse_servesOnly peer _ _ true)

/-! ## Rounds of one follower -/

variable {M : Nat → List LogRecord} {L : List LogRecord} {T B : Nat} {peer : NodeId}
  {s : Link sm.Image} {maxSnapshotCount : Nat}

/-- A round that is answered lowers the rank, unless it tells the leader that the follower has its
whole log. -/
theorem Ready.round (h : Ready M T L B sm peer s) (hL : Indexed L)
    (hLgood : Good LogRecord.term M L) (hpos : ∀ T, ∀ x ∈ M T, 0 < LogRecord.term x)
    (maxSnapshotCount : Nat) :
    Ready M T L B sm peer (s.replicateOnce sm maxSnapshotCount peer) ∧
      ((s.replicateOnce sm maxSnapshotCount peer).rank peer < s.rank peer ∨
        (s.replicateOnce sm maxSnapshotCount peer).leader.matchIndex peer = L.length) := by
  obtain ⟨r, hr, hrterm, hgood, hbase⟩ := h.follower
  by_cases hnext : s.leader.nextIndex peer ≤ B
  · exact And.imp_right .inl (h.round_snapshot hL hLgood hnext)
  · by_cases hshares : Shares L r (s.leader.nextIndex peer - 1)
    · have hround : CaughtUp M T L B sm peer (s.replicateOnce sm maxSnapshotCount peer) ∨ _ :=
        h.round_accepted hL hLgood (fun i => hLgood.termAt_pos hpos) hr hrterm hgood
          (not_le.mp hnext) hshares
      rcases hround with hdone | ⟨hready, hlt⟩
      · exact ⟨hdone.ready, .inr hdone.matched⟩
      · exact ⟨hready, .inl hlt⟩
    · exact And.imp_right .inl
        (h.round_refused hLgood hpos hr hrterm hgood hbase (not_le.mp hnext) hshares)

/-- What a round does on the follower, and how the leader goes on when it is told. -/
inductive RoundCase (L : List LogRecord) (T B : Nat) (peer : NodeId) (s s' : Link sm.Image)
    (r r' : Replica LogRecord) : Prop
  | snapshot (hnext : s.leader.nextIndex peer ≤ B)
  | accepted (hnext : B < s.leader.nextIndex peer)
      (hbefore : Shares L r (s.leader.nextIndex peer - 1))
      (hafter : Shares L r' (s.leader.nextIndex peer - 1)) (response : AppendEntriesResponse)
      (hterm : response.term = T) (hsuccess : response.success = true)
      (hleader : s'.leader = s.leader.handleAppendEntriesResponse peer T response true)
  | refused (hnext : B < s.leader.nextIndex peer)
      (hbefore : ¬ Shares L r (s.leader.nextIndex peer - 1)) (hlog : r'.log = r.log)
      (hsnap : r'.snap = r.snap)

theorem Ready.roundCase (h : Ready M T L B sm peer s) (hL : Indexed L)
    (hLgood : Good LogRecord.term M L) (hpos : ∀ T, ∀ x ∈ M T, 0 < LogRecord.term x)
    (maxSnapshotCount : Nat) {r : Replica LogRecord} (hr : Represents s.follower r)
    (hrterm : r.term ≤ T) (hgood : Good LogRecord.term M r.log) (hbase : r.log.take r.snap <+: L) :
    ∃ r', Represents (s.replicateOnce sm maxSnapshotCount peer).follower r' ∧
      r'.term ≤ T ∧ Good LogRecord.term M r'.log ∧ r'.log.take r'.snap <+: L ∧
      Fits sm L B (s.replicateOnce sm maxSnapshotCount peer).followerSnapshots ∧
      RoundCase L T B peer s (s.replicateOnce sm maxSnapshotCount peer) r r' := by
  obtain ⟨commit, hlead⟩ := h.leads.log
  have hnext_le := h.next_le
  have hB := h.leads.boundary_le
  by_cases hnext : s.leader.nextIndex peer ≤ B
  · have hBpos : 0 < B := h.next_pos.trans_le hnext
    obtain ⟨snapshot, hchoose, hindex, hterm, hload⟩ := h.file hBpos
    obtain ⟨m, r', dir', response, heq, hm, hmterm, -, -, hinstalled, hfits⟩ :=
      hr.onInstallSnapshot hL hLgood hgood hbase hB h.dir maxSnapshotCount
        ⟨T, s.leader.nodeId, snapshot.index, snapshot.term, snapshot.image⟩
        hrterm hindex hterm hload
    have hround : s.replicateOnce sm maxSnapshotCount peer =
        { s with
          leader := s.leader.handleInstallSnapshotResponse peer T snapshot.index response true
          follower := m
          followerSnapshots := dir' } := by
      have hsnapTerm : s.leader.lastSnapshotTerm = termAt LogRecord.term L B := hlead.snapTerm
      simp only [replicateOnce, sendInstallSnapshotToPeer, h.leads.term,
        h.leads.buildSnapshot h.next_pos hnext, h.leads.lastSnapshotIndex, if_neg hBpos.ne',
        hsnapTerm, hchoose, heq]
    rw [hround]
    exact ⟨r', hm, hmterm.le, hinstalled.good, hinstalled.base, hfits, .snapshot hnext⟩
  · rw [not_le] at hnext
    obtain ⟨request, hbuild, hterm, hprev, hprevTerm, hentries, -⟩ :=
      h.leads.buildAppend (fun i => hLgood.termAt_pos hpos) hnext hnext_le
    by_cases hshares : Shares L r (s.leader.nextIndex peer - 1)
    · obtain ⟨m, r', response, flag, heq, hm, hmterm, hresponse, hsuccess, hmatch, hfollows⟩ :=
        hr.onAppendEntries_accepts hL hLgood hgood request (hterm.symm ▸ hrterm)
          ⟨hprev.symm ▸ hshares.1.1, hprev.symm ▸ hshares.1.2, by rw [hprev, hprevTerm, hshares.2]⟩
          (by omega) (by rw [hprev, hprevTerm]) (by rw [hprev]; exact hentries)
      have hround : s.replicateOnce sm maxSnapshotCount peer =
          { s with
            leader := s.leader.handleAppendEntriesResponse peer T response true
            follower := m } := by
        simp only [replicateOnce, h.leads.term, hbuild, heq]
      have hlen := hentries.length_le
      have hlength := hfollows.holds.length_le
      have hsnap := hfollows.snap
      have hlow := hshares.1.1
      rw [List.length_drop] at hlen
      rw [List.length_take] at hlength
      -- the record in front of the request is still there
      have hafter : Shares L r' (s.leader.nextIndex peer - 1) := by
        refine ⟨⟨by omega, by omega⟩, ?_⟩
        rw [← termAt_of_le LogRecord.term hfollows.holds (by rw [List.length_take]; omega),
          termAt_take LogRecord.term (by omega)]
      rw [hround]
      exact ⟨r', hm, (hmterm.trans hterm).le, hfollows.good, hfollows.base, h.dir,
        .accepted hnext hshares hafter response (hresponse.trans hterm) hsuccess rfl⟩
    · obtain ⟨m, hm, heq⟩ := hr.onAppendEntries_rejects request (hterm.symm ▸ hrterm) (by
        rintro ⟨hlow, hhigh, hsame⟩
        rw [hprev] at hlow hhigh hsame
        exact hshares ⟨⟨hlow, hhigh⟩, hsame.trans hprevTerm⟩)
      rw [hterm] at hm
      have hround : (s.replicateOnce sm maxSnapshotCount peer).follower = m ∧
          (s.replicateOnce sm maxSnapshotCount peer).followerSnapshots = s.followerSnapshots := by
        simp only [replicateOnce, h.leads.term, hbuild, heq, and_self]
      refine ⟨{ r with term := T }, hround.1 ▸ hm, le_rfl, hgood, hbase, hround.2 ▸ h.dir, ?_⟩
      exact .refused hnext hshares rfl rfl

/-- A reply that is lost changes the follower only. The leader asks again from where it was. -/
theorem Ready.unanswered (h : Ready M T L B sm peer s) (hL : Indexed L)
    (hLgood : Good LogRecord.term M L) (hpos : ∀ T, ∀ x ∈ M T, 0 < LogRecord.term x)
    (maxSnapshotCount : Nat) {s' : Link sm.Image}
    (hs' : s' = { s with
      follower := (s.replicateOnce sm maxSnapshotCount peer).follower
      followerSnapshots := (s.replicateOnce sm maxSnapshotCount peer).followerSnapshots }) :
    Ready M T L B sm peer s' ∧ s'.rank peer = s.rank peer := by
  subst hs'
  obtain ⟨r, hr, hrterm, hrgood, hrbase⟩ := h.follower
  obtain ⟨r', hr', hterm, hgood, hbase, hfits, hcase⟩ :=
    h.roundCase hL hLgood hpos maxSnapshotCount hr hrterm hrgood hrbase
  have hready : Ready M T L B sm peer { s with
      follower := (s.replicateOnce sm maxSnapshotCount peer).follower
      followerSnapshots := (s.replicateOnce sm maxSnapshotCount peer).followerSnapshots } :=
    ⟨h.leads, h.next_pos, h.next_le, h.match_le, h.file, hfits, r', hr', hterm, hgood, hbase⟩
  refine ⟨hready, ?_⟩
  cases hcase with
  | snapshot hnext => rw [h.rank_snapshot hnext, hready.rank_snapshot hnext]
  | accepted hnext hbefore hafter _ _ _ _ =>
    rw [h.rank_shares hr hnext hbefore, hready.rank_shares hr' hnext hafter]
  | refused hnext hbefore hlog hsnap =>
    by_cases hcompacted : s.leader.nextIndex peer - 1 < r.snap
    · rw [h.rank_compacted hr hnext hcompacted,
        hready.rank_compacted hr' hnext (hsnap.symm ▸ hcompacted)]
    · have hafter : ¬ Shares L r' (s.leader.nextIndex peer - 1) := by
        simpa only [Shares, hlog, hsnap] using hbefore
      rw [h.rank_probe hr hnext hcompacted hbefore,
        hready.rank_probe hr' hnext (hsnap.symm ▸ hcompacted) hafter]

/-- What the leader does for another peer makes no difference. -/
theorem Ready.of_other (h : Ready M T L B sm peer s) {leader : RaftNode}
    (hleads : Leads T L B leader) (hnext : leader.nextIndex peer = s.leader.nextIndex peer)
    (hmatch : leader.matchIndex peer = s.leader.matchIndex peer) :
    Ready M T L B sm peer { s with leader } ∧ ({ s with leader }).rank peer = s.rank peer := by
  refine ⟨⟨hleads, hnext ▸ h.next_pos, hnext ▸ h.next_le, hmatch ▸ h.match_le, h.file, h.dir,
    h.follower⟩, ?_⟩
  obtain ⟨commit, hrep⟩ := h.leads.log
  obtain ⟨commit', hrep'⟩ := hleads.log
  have hlog : leader.log = s.leader.log := hrep'.stores.eq.trans hrep.stores.eq.symm
  have hindex : leader.lastSnapshotIndex = s.leader.lastSnapshotIndex :=
    hrep'.snapIndex.trans hrep.snapIndex.symm
  have hterm : leader.lastSnapshotTerm = s.leader.lastSnapshotTerm :=
    hrep'.snapTerm.trans hrep.snapTerm.symm
  have hlast : leader.lastLogIndexLocked = s.leader.lastLogIndexLocked := by
    rw [hleads.lastLogIndexLocked, h.leads.lastLogIndexLocked]
  have hterms : ∀ i, leader.termAtIndexLocked i = s.leader.termAtIndexLocked i := by
    intro i
    simp only [RaftNode.termAtIndexLocked, hindex, hterm,
      RaftNode.logAtIndexLocked_of_log_eq hlog hindex i]
  simp only [rank, hnext, hlast, hindex, hterms]

end Link

/-! ## Committing -/

namespace Leads

variable {T B : Nat} {L : List LogRecord} {n : RaftNode}

/-- The last record is of the leader's term, and a majority has it. -/
theorem advanceCommitIndexUnlocked_commits (h : Leads T L B n)
    (hown : termAt LogRecord.term L L.length = T)
    (hquorum : n.quorum ≤ n.replicatedCount L.length) (saved : Bool) :
    L.length ≤ (n.advanceCommitIndexUnlocked saved).commitIndex := by
  obtain ⟨commit, hrep⟩ := h.log
  have hlen := hrep.stores.length_eq
  have hgo : ¬ (n.role ≠ .leader ∨ n.log = []) := by
    rintro (hrole | hnil)
    · exact hrole h.role
    · rw [hnil, List.length_nil] at hlen
      omega
  have hsnap := hrep.stores.snap_le
  have hhas := (hrep.hasLogAtIndexLocked L.length).mpr ⟨hsnap, le_rfl⟩
  have hterm : n.termAtIndexLocked L.length = n.currentTerm := by
    rw [hrep.termAtIndexLocked hsnap le_rfl, h.term]
    exact hown
  unfold RaftNode.advanceCommitIndexUnlocked
  rw [if_neg hgo, h.lastLogIndexLocked]
  cases hlength : L.length with
  | zero => exact Nat.zero_le _
  | succ k =>
    rw [hlength] at hhas hterm hquorum
    by_cases hdone : k + 1 ≤ n.commitIndex
    · simp [RaftNode.advanceLoop, hdone]
    · simp [RaftNode.advanceLoop, hdone, hhas, hterm, hquorum]

theorem handleSuccess_commits (h : Leads T L B n) (peer : NodeId)
    {response : AppendEntriesResponse} (hterm : response.term = T)
    (hsuccess : response.success = true) (hown : termAt LogRecord.term L L.length = T)
    (hquorum : n.quorum ≤ n.replicatedCount L.length) :
    L.length ≤ (n.handleAppendEntriesResponse peer T response true).commitIndex := by
  have hstale : ¬ n.currentTerm < response.term := by
    rw [h.term]
    omega
  have hrunning : ¬ (!n.running) = true := by simp [h.running]
  have hgo : ¬ (n.role ≠ .leader ∨ n.currentTerm ≠ T) := by simp [h.role, h.term]
  simp only [RaftNode.handleAppendEntriesResponse, if_neg hrunning, if_neg hstale, if_neg hgo,
    if_pos hsuccess]
  refine (h.setIndexes _ _).advanceCommitIndexUnlocked_commits hown ?_ true
  refine hquorum.trans (Nat.add_le_add_left (List.countP_mono_left fun q _ hq => ?_) 1)
  have hgrows := (ServesOnly.of_indexes peer n
    (max (n.nextIndex peer) (response.matchIndex + 1)) response.matchIndex).match_le q
  simp only [decide_eq_true_eq] at hq ⊢
  exact hq.trans hgrows

end Leads

namespace Link

variable {sm : IStateMachine σ} {M : Nat → List LogRecord} {L : List LogRecord} {T B : Nat}
  {peer : NodeId} {s : Link sm.Image}

/-- Once a majority has the whole log, an answered round lowers the rank or commits it. -/
theorem Ready.round_commits (h : Ready M T L B sm peer s) (hL : Indexed L)
    (hLgood : Good LogRecord.term M L) (hpos : ∀ T, ∀ x ∈ M T, 0 < LogRecord.term x)
    (hown : termAt LogRecord.term L L.length = T)
    (hquorum : s.leader.quorum ≤ s.leader.replicatedCount L.length) (maxSnapshotCount : Nat) :
    (s.replicateOnce sm maxSnapshotCount peer).rank peer < s.rank peer ∨
      L.length ≤ (s.replicateOnce sm maxSnapshotCount peer).leader.commitIndex := by
  obtain ⟨r, hr, hrterm, hgood, hbase⟩ := h.follower
  obtain ⟨r', -, -, -, -, -, hcase⟩ :=
    h.roundCase hL hLgood hpos maxSnapshotCount hr hrterm hgood hbase
  cases hcase with
  | snapshot hnext => exact .inl (h.round_snapshot hL hLgood hnext).2
  | accepted _ _ _ response hterm hsuccess hleader =>
    rw [hleader]
    exact .inr (h.leads.handleSuccess_commits peer hterm hsuccess hown hquorum)
  | refused hnext hbefore _ _ =>
    exact .inl (h.round_refused hLgood hpos hr hrterm hgood hbase hnext hbefore).2

/-- The leader has an index to continue from, so asking for a request changes nothing. -/
theorem Ready.build_eq (h : Ready M T L B sm peer s) (hLgood : Good LogRecord.term M L)
    (hpos : ∀ T, ∀ x ∈ M T, 0 < LogRecord.term x) :
    (s.leader.buildAppendEntriesRequest peer s.leader.currentTerm).1 = s.leader := by
  rw [h.leads.term]
  by_cases hnext : s.leader.nextIndex peer ≤ B
  · rw [h.leads.buildSnapshot h.next_pos hnext]
  · obtain ⟨request, hbuild, -⟩ := h.leads.buildAppend (fun i => hLgood.termAt_pos hpos)
      (not_le.mp hnext) h.next_le
    rw [hbuild]

theorem replicateOnce_leaderSnapshots (s : Link sm.Image) (maxSnapshotCount : Nat)
    (peer : NodeId) :
    (s.replicateOnce sm maxSnapshotCount peer).leaderSnapshots = s.leaderSnapshots := by
  unfold replicateOnce sendInstallSnapshotToPeer
  simp only
  split
  · rfl
  · split
    · rfl
    · split <;> rfl
  · rfl

end Link

/-! ## Runs of the group -/

namespace Group

variable {sm : IStateMachine σ} {M : Nat → List LogRecord} {L : List LogRecord} {T B : Nat}
  {Q : List NodeId} {g : Group sm.Image} {maxSnapshotCount : Nat}

/-- The rounds can go on with every follower of `Q`. -/
def ReadyFor (M : Nat → List LogRecord) (T : Nat) (L : List LogRecord) (B : Nat)
    (sm : IStateMachine σ) (Q : List NodeId) (g : Group sm.Image) : Prop :=
  ∀ q ∈ Q, Link.Ready M T L B sm q (g.link q)

theorem round_servesOnly (g : Group sm.Image) (maxSnapshotCount : Nat) (p : NodeId)
    (d : Delivery) : ServesOnly p g.leader (g.round sm maxSnapshotCount p d).leader := by
  cases d with
  | lost | unanswered => exact g.leader.buildAppendEntriesRequest_servesOnly p _
  | answered => exact (g.link p).replicateOnce_servesOnly maxSnapshotCount p

theorem link_round_ne (g : Group sm.Image) (maxSnapshotCount : Nat) {p q : NodeId} (hqp : q ≠ p)
    (d : Delivery) : (g.round sm maxSnapshotCount p d).link q =
      { g.link q with leader := (g.round sm maxSnapshotCount p d).leader } := by
  cases d <;> simp [round, link, Function.update_of_ne hqp]

theorem link_round_answered (g : Group sm.Image) (maxSnapshotCount : Nat) (p : NodeId) :
    (g.round sm maxSnapshotCount p .answered).link p =
      (g.link p).replicateOnce sm maxSnapshotCount p := by
  have hsnapshots := (g.link p).replicateOnce_leaderSnapshots maxSnapshotCount p
  simp only [round]
  generalize (g.link p).replicateOnce sm maxSnapshotCount p = s at hsnapshots ⊢
  simp only [link, Function.update_self] at hsnapshots ⊢
  rw [← hsnapshots]

section

variable (hL : Indexed L) (hLgood : Good LogRecord.term M L)
  (hpos : ∀ T, ∀ x ∈ M T, 0 < LogRecord.term x)

include hL hLgood hpos

/-- A round whose reply does not arrive. -/
theorem ReadyFor.link_round_silent (h : ReadyFor M T L B sm Q g) {p : NodeId} (hp : p ∈ Q)
    {d : Delivery} (hd : d ≠ .answered) :
    Link.Ready M T L B sm p ((g.round sm maxSnapshotCount p d).link p) ∧
      ((g.round sm maxSnapshotCount p d).link p).rank p = (g.link p).rank p := by
  have hready := h p hp
  have hbuild : (g.leader.buildAppendEntriesRequest p g.leader.currentTerm).1 = g.leader :=
    hready.build_eq hLgood hpos
  cases d with
  | lost =>
    have hsame : (g.round sm maxSnapshotCount p .lost).link p = g.link p := by
      simp only [round, link, hbuild]
    rw [hsame]
    exact ⟨hready, rfl⟩
  | unanswered =>
    refine hready.unanswered hL hLgood hpos maxSnapshotCount ?_
    simp only [round, link, hbuild, Function.update_self]
  | answered => exact absurd rfl hd

theorem ReadyFor.leads_round (h : ReadyFor M T L B sm Q g) {p q : NodeId} {d : Delivery}
    (hd : d = .answered → p ∈ Q) (hq : q ∈ Q) :
    Leads T L B (g.round sm maxSnapshotCount p d).leader := by
  cases d with
  | lost | unanswered =>
    obtain ⟨next, hnext⟩ := g.leader.buildAppendEntriesRequest_frame p g.leader.currentTerm
    have hleads := (h q hq).leads.setIndexes next g.leader.matchIndex
    simp only [round, hnext]
    exact hleads
  | answered =>
    have hready := ((h p (hd rfl)).round hL hLgood hpos maxSnapshotCount).1
    exact hready.leads

theorem ReadyFor.round (h : ReadyFor M T L B sm Q g) {p : NodeId} {d : Delivery}
    (hd : d = .answered → p ∈ Q) :
    ReadyFor M T L B sm Q (g.round sm maxSnapshotCount p d) ∧
      ∀ q ∈ Q, q ≠ p ∨ d ≠ .answered →
        ((g.round sm maxSnapshotCount p d).link q).rank q = (g.link q).rank q := by
  have hserves := g.round_servesOnly maxSnapshotCount p d
  have hother : ∀ q ∈ Q, q ≠ p →
      Link.Ready M T L B sm q ((g.round sm maxSnapshotCount p d).link q) ∧
        ((g.round sm maxSnapshotCount p d).link q).rank q = (g.link q).rank q := by
    intro q hq hqp
    rw [g.link_round_ne maxSnapshotCount hqp d]
    exact (h q hq).of_other (h.leads_round hL hLgood hpos hd hq) (hserves.next q hqp)
      (hserves.matched q hqp)
  refine ⟨fun q hq => ?_, fun q hq hcase => ?_⟩
  · by_cases hqp : q = p
    · subst hqp
      by_cases hanswered : d = .answered
      · subst hanswered
        rw [g.link_round_answered maxSnapshotCount q]
        exact ((h q hq).round hL hLgood hpos maxSnapshotCount).1
      · exact (h.link_round_silent hL hLgood hpos hq hanswered).1
    · exact (hother q hq hqp).1
  · by_cases hqp : q = p
    · subst hqp
      have hanswered := hcase.resolve_left fun hne => hne rfl
      exact (h.link_round_silent hL hLgood hpos hq hanswered).2
    · exact (hother q hq hqp).2

variable {rounds : Nat → NodeId × Delivery}
  (hanswers : ∀ k, (rounds k).2 = .answered → (rounds k).1 ∈ Q)

include hanswers

theorem ReadyFor.after (h : ReadyFor M T L B sm Q g) (k : Nat) :
    ReadyFor M T L B sm Q (g.after sm maxSnapshotCount rounds k) := by
  induction k with
  | zero => exact h
  | succ k ih => exact (ih.round hL hLgood hpos (hanswers k)).1

variable (hfair : ∀ q ∈ Q, ∀ k, ∃ j, k ≤ j ∧ rounds j = (q, .answered))

include hfair

/-- The leader comes to know that a follower that goes on answering has its whole log. -/
theorem ReadyFor.eventually_matched (h : ReadyFor M T L B sm Q g) {q : NodeId} (hq : q ∈ Q) :
    ∃ n, ∀ k, n ≤ k →
      (g.after sm maxSnapshotCount rounds k).leader.matchIndex q = L.length := by
  have hready : ∀ k, ReadyFor M T L B sm Q (g.after sm maxSnapshotCount rounds k) :=
    fun k => h.after hL hLgood hpos hanswers k
  have hanswered : ∀ k, rounds k = (q, .answered) →
      ((g.after sm maxSnapshotCount rounds (k + 1)).link q).rank q <
        ((g.after sm maxSnapshotCount rounds k).link q).rank q ∨
      (g.after sm maxSnapshotCount rounds (k + 1)).leader.matchIndex q = L.length := by
    intro k hk
    have hround := ((hready k q hq).round hL hLgood hpos maxSnapshotCount).2
    rw [← link_round_answered] at hround
    simp only [Group.after, hk]
    exact hround
  refine Rounds.eventually_of_fair (P := fun g => g.leader.matchIndex q = L.length)
    (g.after sm maxSnapshotCount rounds) (fun g => (g.link q).rank q)
    (fun k => ?_) hanswered (fun k hk => ?_) (hfair q hq)
  · by_cases hk : rounds k = (q, .answered)
    · exact (hanswered k hk).imp_left le_of_lt
    · refine .inl (((hready k).round hL hLgood hpos (hanswers k)).2 q hq ?_).le
      by_contra hboth
      simp only [not_or, not_not] at hboth
      exact hk (Prod.ext hboth.1.symm hboth.2)
  · have hgrows := ((g.after sm maxSnapshotCount rounds k).round_servesOnly maxSnapshotCount
      (rounds k).1 (rounds k).2).match_le q
    have hle := (hready (k + 1) q hq).match_le
    exact le_antisymm hle (hk.ge.trans hgrows)

/-- The leader comes to know so of all followers that go on answering. -/
theorem ReadyFor.eventually_all_matched (h : ReadyFor M T L B sm Q g) :
    ∃ n, ∀ k, n ≤ k → ∀ q ∈ Q,
      (g.after sm maxSnapshotCount rounds k).leader.matchIndex q = L.length := by
  have hall : ∀ Q' : List NodeId, (∀ q ∈ Q', q ∈ Q) → ∃ n, ∀ k, n ≤ k → ∀ q ∈ Q',
      (g.after sm maxSnapshotCount rounds k).leader.matchIndex q = L.length := by
    intro Q' hsub
    induction Q' with
    | nil => exact ⟨0, fun _ _ q hq => absurd hq List.not_mem_nil⟩
    | cons q Q' ih =>
      obtain ⟨n, hn⟩ := ih fun q' hq' => hsub q' (List.mem_cons_of_mem _ hq')
      have hq : ∃ m, ∀ k, m ≤ k →
          (g.after sm maxSnapshotCount rounds k).leader.matchIndex q = L.length :=
        h.eventually_matched hL hLgood hpos hanswers hfair (hsub q List.mem_cons_self)
      obtain ⟨m, hm⟩ := hq
      refine ⟨max n m, fun k hk q' hq' => ?_⟩
      rcases List.mem_cons.mp hq' with rfl | hq'
      · exact hm k ((le_max_right _ _).trans hk)
      · exact hn k ((le_max_left _ _).trans hk) q' hq'
  exact hall Q fun q hq => hq

omit hL hLgood hpos hanswers hfair in
theorem after_peers (g : Group sm.Image) (maxSnapshotCount : Nat)
    (rounds : Nat → NodeId × Delivery) (k : Nat) :
    (g.after sm maxSnapshotCount rounds k).leader.peers = g.leader.peers := by
  induction k with
  | zero => rfl
  | succ k ih =>
    exact ((g.after sm maxSnapshotCount rounds k).round_servesOnly maxSnapshotCount (rounds k).1
      (rounds k).2).peers.trans ih

/-- The followers of `Q` and the leader are a majority. -/
structure Majority (Q : List NodeId) (n : RaftNode) : Prop where
  nonempty : Q ≠ []
  nodup : Q.Nodup
  peers : ∀ q ∈ Q, q ∈ n.peers
  quorum : n.quorum ≤ Q.length + 1

omit hL hLgood hpos hanswers hfair in
theorem Majority.replicated {n n' : RaftNode} (h : Majority Q n) (hpeers : n'.peers = n.peers)
    {i : Nat} (hmatched : ∀ q ∈ Q, n'.matchIndex q = i) : n'.quorum ≤ n'.replicatedCount i := by
  have hquorum : n'.quorum = n.quorum := by rw [RaftNode.quorum, RaftNode.quorum, hpeers]
  have hsub : Q ⊆ n'.peers.filter fun q => i ≤ n'.matchIndex q := by
    intro q hq
    refine List.mem_filter.mpr ⟨hpeers ▸ h.peers q hq, ?_⟩
    simp [hmatched q hq]
  have hlength := (h.nodup.subperm hsub).length_le
  rw [← List.countP_eq_length_filter] at hlength
  have hmajority := h.quorum
  rw [hquorum, RaftNode.replicatedCount]
  omega

/-- When the leader has a record of its own term at the end of its log, it commits the log. -/
theorem ReadyFor.eventually_committed (h : ReadyFor M T L B sm Q g) (hQ : Majority Q g.leader)
    (hown : termAt LogRecord.term L L.length = T) :
    ∃ n, ∀ k, n ≤ k → L.length ≤ (g.after sm maxSnapshotCount rounds k).leader.commitIndex := by
  have hmatched : ∃ n, ∀ k, n ≤ k → ∀ q ∈ Q,
      (g.after sm maxSnapshotCount rounds k).leader.matchIndex q = L.length :=
    h.eventually_all_matched hL hLgood hpos hanswers hfair
  obtain ⟨n, hn⟩ := hmatched
  obtain ⟨q, hq⟩ := List.exists_mem_of_ne_nil Q hQ.nonempty
  have hready : ∀ k, ReadyFor M T L B sm Q (g.after sm maxSnapshotCount rounds k) :=
    fun k => h.after hL hLgood hpos hanswers k
  have hanswered : ∀ k, rounds (n + k) = (q, .answered) →
      ((g.after sm maxSnapshotCount rounds (n + (k + 1))).link q).rank q <
        ((g.after sm maxSnapshotCount rounds (n + k)).link q).rank q ∨
      L.length ≤ (g.after sm maxSnapshotCount rounds (n + (k + 1))).leader.commitIndex := by
    intro k hk
    have hreplicated := hQ.replicated (g.after_peers maxSnapshotCount rounds (n + k))
      (hn (n + k) (Nat.le_add_right n k))
    have hround := (hready (n + k) q hq).round_commits hL hLgood hpos hown hreplicated
      maxSnapshotCount
    rw [← link_round_answered] at hround
    rw [← Nat.add_assoc]
    simp only [Group.after, hk]
    exact hround
  have hreached := Rounds.eventually_of_fair (P := fun g => L.length ≤ g.leader.commitIndex)
    (fun k => g.after sm maxSnapshotCount rounds (n + k)) (fun g => (g.link q).rank q)
    (fun k => ?_) hanswered (fun k hk => ?_) fun k => ?_
  · obtain ⟨m, hm⟩ := hreached
    refine ⟨n + m, fun k hk => ?_⟩
    obtain ⟨j, rfl⟩ := Nat.exists_eq_add_of_le hk
    rw [Nat.add_assoc]
    exact hm (m + j) (Nat.le_add_right m j)
  · by_cases hk : rounds (n + k) = (q, .answered)
    · exact (hanswered k hk).imp_left le_of_lt
    · refine .inl (((hready (n + k)).round hL hLgood hpos (hanswers (n + k))).2 q hq ?_).le
      by_contra hboth
      simp only [not_or, not_not] at hboth
      exact hk (Prod.ext hboth.1.symm hboth.2)
  · exact hk.trans ((g.after sm maxSnapshotCount rounds (n + k)).round_servesOnly maxSnapshotCount
      (rounds (n + k)).1 (rounds (n + k)).2).commit
  · obtain ⟨j, hj, hjq⟩ := hfair q hq (n + k)
    obtain ⟨i, rfl⟩ := Nat.exists_eq_add_of_le hj
    exact ⟨k + i, Nat.le_add_right k i, by rw [← Nat.add_assoc]; exact hjq⟩

end

end Group

end CquptRaft
