import CquptRaft.Cluster.Directories
import CquptRaft.Replication.CatchUp

/-!
# Followers of a reachable cluster are brought up to date

In a reachable state the snapshot of a follower is one of the leader's log, unless the follower
has moved on to a later term. So the rounds of `ReplicateOnce` come to an end, and the follower
then holds the leader's record at every index that neither of them has compacted. What the
follower has behind the leader's last record stays: only a conflict truncates a log. A follower in
a later term makes the leader step down instead.
-/

namespace CquptRaft

open Replication Voting

variable {σ : Type} {sm : IStateMachine σ} {cfg : ClusterConfig} {H H' : History NodeId LogRecord}

/-! ## A leader and a follower -/

/-- A leader and a follower of the cluster, with any `next_index_`. -/
def Cluster.link {Image : Type} (c : Cluster σ Image) (l p : NodeId) (next : Nat) : Link Image where
  leader := { (c.members l).node with
    nextIndex := Function.update (c.members l).node.nextIndex p next }
  leaderSnapshots := (c.members l).snapshots
  follower := (c.members p).node
  followerSnapshots := (c.members p).snapshots

/-- `l` leads with `p` as one of its peers, both run, `next` is an index it may continue from, and
the snapshot at its boundary is there. -/
structure Cluster.Replicates {Image : Type} (c : Cluster σ Image) (l p : NodeId) (next : Nat) :
    Prop where
  leaderUp : (c.members l).up = true
  running : (c.members l).node.running = true
  role : (c.members l).node.role = .leader
  peer : p ∈ (c.members l).node.peers
  followerUp : (c.members p).up = true
  next_pos : 1 ≤ next
  next_le : next ≤ (c.members l).node.lastLogIndexLocked + 1
  file : 0 < (c.members l).node.lastSnapshotIndex → ∃ s ∈ (c.members l).snapshots,
    s.index = (c.members l).node.lastSnapshotIndex ∧ s.term = (c.members l).node.lastSnapshotTerm

/-- Above the boundaries of both, the follower holds the leader's record wherever the leader has
one. -/
def Link.SameRecords {Image : Type} (s : Link Image) : Prop :=
  ∀ i, max s.leader.lastSnapshotIndex s.follower.lastSnapshotIndex < i →
    i ≤ s.leader.lastLogIndexLocked → s.follower.logAtIndexLocked i = s.leader.logAtIndexLocked i

/-- Above the boundaries of both, the logs are the same. -/
def Link.SameLogs {Image : Type} (s : Link Image) : Prop :=
  ∀ i, max s.leader.lastSnapshotIndex s.follower.lastSnapshotIndex < i →
    s.follower.logAtIndexLocked i = s.leader.logAtIndexLocked i

/-- What a member's boundary or snapshot stands for is a prefix of the log of every leader of its
term or a later one. -/
theorem Held.termAt_eq {members : Finset NodeId} {t T index term : Nat}
    (h : Held H members t index term) (hH : H.Valid members LogRecord.term) (hT : H.Elected T)
    (hle : t ≤ T) : termAt LogRecord.term (H.leaderLog T) index = term := by
  obtain ⟨π, hlen, rfl, hπ⟩ := h
  have hprefix := hH.chosenBy_le hπ hT hle
  rw [termAt_of_le LogRecord.term hprefix hlen.ge]

/-- A snapshot that is there is chosen. -/
theorem chooseSnapshot_of_mem {Image : Type} {dir : List (Snapshot Image)} {s : Snapshot Image}
    (hs : s ∈ dir) : ∃ s', chooseSnapshot dir s.index s.term = some s' ∧ s' ∈ dir ∧
      s'.index = s.index ∧ s'.term = s.term := by
  have hsome : ((listSnapshots dir).find? fun other =>
      other.index == s.index && other.term == s.term).isSome = true := by
    rw [List.find?_isSome]
    exact ⟨s, mem_listSnapshots.mpr hs, by simp⟩
  obtain ⟨s', hs'⟩ := Option.isSome_iff_exists.mp hsome
  have hsame : s'.index = s.index ∧ s'.term = s.term := by simpa using List.find?_some hs'
  refine ⟨s', ?_, mem_listSnapshots.mp (List.mem_of_find?_eq_some hs'), hsame⟩
  rw [chooseSnapshot, hs']

/-- In a reachable state the rounds can begin. -/
theorem KnownInv.ready {c : Cluster σ sm.Image} (h : KnownInv cfg H c) (hloads : LoadsInv cfg c)
    {l p : NodeId} {next : Nat} (hl : l ∈ cfg.ids) (hlp : c.Replicates l p next)
    (hterm : (c.members p).node.currentTerm ≤ (c.members l).node.currentTerm) :
    ∃ T L B, L = H.leaderLog T ∧ Link.Ready H.leaderLog T L B sm p (c.link l p next) := by
  have hp : p ∈ cfg.ids := by
    have hpeer := hlp.peer
    rw [(h.sim.votes.members l hl).peers] at hpeer
    exact (List.mem_filter.mp hpeer).1
  obtain ⟨mem, dur, hprocess⟩ := h.sim.process hl hlp.leaderUp
  obtain ⟨hlead, -⟩ := hprocess.leader hlp.role
  obtain ⟨r, dur', hfollower⟩ := h.sim.process hp hlp.followerUp
  have hrep := hprocess.node.represents
  have helected := hlead.led.elected
  have hrterm : r.term ≤ mem.term := by
    rw [← hfollower.node.represents.term, ← hrep.term]
    exact hterm
  have hknown := h.known p hp
  have hdurable : (c.members p).node.durableTerm = r.term := by
    rw [← (hknown.term hlp.followerUp).durable, hfollower.node.represents.term]
  have hleads : Leads mem.term mem.log mem.snap (c.link l p next).leader :=
    ⟨hlp.running, hlp.role, mem.commit, hrep.congr rfl rfl rfl rfl rfl⟩
  have hnext : (c.link l p next).leader.nextIndex p = next := Function.update_self ..
  refine ⟨mem.term, mem.log, mem.snap, hlead.log, hleads, ?_, ?_, ?_, ?_, ?_, ?_⟩
  · rw [hnext]
    exact hlp.next_pos
  · rw [hnext, ← hrep.lastLogIndexLocked]
    exact hlp.next_le
  · rw [hlead.log]
    exact (hlead.matched p hlp.peer).1
  · intro hpos
    rw [← hrep.snapIndex] at hpos
    obtain ⟨s, hs, hindex, hlast⟩ := hlp.file hpos
    rw [hrep.snapIndex] at hindex
    rw [hrep.snapTerm] at hlast
    obtain ⟨s', hchoose, hmem, hindex', hlast'⟩ := chooseSnapshot_of_mem hs
    rw [hindex, hlast] at hchoose
    rw [hindex] at hindex'
    rw [hlast] at hlast'
    exact ⟨s', hchoose, hindex', hlast', (hloads.members l hl).snapshots s' hmem⟩
  · intro s hs hindex
    refine ⟨?_, (hloads.members p hp).snapshots s hs⟩
    have hheld := hknown.snapshots s hs
    rw [hdurable, hindex] at hheld
    rw [hlead.log]
    exact (hheld.termAt_eq h.sim.valid helected hrterm).symm
  · refine ⟨r, hfollower.node.represents, hrterm, hfollower.node.memSound.good, ?_⟩
    have hhead := hknown.memory hlp.followerUp
    rw [hdurable] at hhead
    have hchosen := hfollower.node.chosenBy_commit h.sim.valid hhead hfollower.node.memSound.snap_le
    rw [hlead.log]
    exact h.sim.valid.chosenBy_le hchosen helected hrterm

/-- A follower that has the whole log holds every record of it that is not compacted. -/
theorem Link.CaughtUp.sameRecords {M : Nat → List LogRecord} {T B : Nat} {L : List LogRecord}
    {peer : NodeId} {s : Link sm.Image} (h : Link.CaughtUp M T L B sm peer s) : s.SameRecords := by
  obtain ⟨commit, hlead⟩ := h.ready.leads.log
  obtain ⟨r, hr, hholds⟩ := h.holds
  intro i habove hle
  rw [hlead.snapIndex, hr.snapIndex] at habove
  rw [hlead.lastLogIndexLocked] at hle
  simp only at habove hle
  have hlength := hholds.length_le
  rw [hr.logAtIndexLocked (by omega) (by omega), hlead.logAtIndexLocked (by simp only; omega) hle]
  obtain ⟨tail, htail⟩ := hholds
  rw [← htail, List.getElem?_append_left (by omega)]

/-- In every state of a run whose steps are guarded and save every higher term, a leader that
repeats its rounds with a follower of no later term comes to know that the follower has its whole
log, and the follower then holds every record of it that neither has compacted. -/
theorem follower_catches_up (sm : IStateMachine σ) (cfg : ClusterConfig) {c : Cluster σ sm.Image}
    (hc : Relation.ReflTransGen (Cluster.SavingStep sm cfg) (Cluster.init sm cfg) c)
    {l p : NodeId} {next : Nat} (hl : l ∈ cfg.ids) (hlp : c.Replicates l p next)
    (hterm : (c.members p).node.currentTerm ≤ (c.members l).node.currentTerm)
    (maxSnapshotCount : Nat) :
    Rounds.Reaches (Link.replicateOnce sm maxSnapshotCount p) (fun s =>
      s.leader.log = (c.members l).node.log ∧
      s.leader.matchIndex p = s.leader.lastLogIndexLocked ∧ s.SameRecords) (c.link l p next) := by
  obtain ⟨H, -, hH⟩ := KnownInv.init.run hc
  have hloads : LoadsInv cfg c := by
    refine LoadsInv.init.run (Relation.ReflTransGen.mono (fun _ _ hstep => ?_) _ _ hc)
    obtain ⟨id, action, -, hmoved⟩ := hstep
    exact ⟨id, action, hmoved⟩
  obtain ⟨T, L, B, rfl, hready⟩ := hH.ready hloads hl hlp hterm
  obtain ⟨k, hdone⟩ := hready.reaches (hH.sim.indexed T) (hH.sim.valid.leaderLog_good T)
    hH.sim.term_pos maxSnapshotCount
  obtain ⟨commit, hbefore⟩ := hready.leads.log
  obtain ⟨commit', hafter⟩ := hdone.ready.leads.log
  refine ⟨k, ?_, ?_, hdone.sameRecords⟩
  · exact hafter.stores.eq.trans hbefore.stores.eq.symm
  · rw [hafter.lastLogIndexLocked]
    exact hdone.matched

/-! ## What the rounds leave -/

/-- An `AppendEntries` request without entries leaves the log alone. -/
theorem RaftNode.onAppendEntries_log_of_nil (n : RaftNode) {request : AppendEntriesRequest}
    (hentries : request.entries = []) (termSaved logSaved commitSaved : Bool) :
    (n.onAppendEntries request termSaved logSaved commitSaved).1.log = n.log := by
  have haccept := (n.acceptLeaderLocked_frame request.term request.leaderId termSaved).2.2.1
  unfold onAppendEntries appendEntriesBody
  rw [hentries]
  simp only [appendLoop]
  grind [persistStateLocked]

/-- A leader without records ships none. -/
theorem RaftNode.buildAppendEntriesRequest_of_empty {n n' : RaftNode} {peer : NodeId}
    {leaderTerm : Nat} {request : AppendEntriesRequest}
    (hlog : n.log = [RaftNode.bootstrapRecord])
    (h : n.buildAppendEntriesRequest peer leaderTerm = (n', .append request)) :
    request.entries = [] := by
  unfold buildAppendEntriesRequest at h
  simp only at h
  generalize (if n.nextIndex peer = 0 then n.lastLogIndexLocked + 1 else n.nextIndex peer) = next
    at h
  split at h
  · cases h
  · split at h
    · cases h
    · rename_i hfirst
      split at h
      · cases h
      · cases h
        have hpos : 0 < next := by
          simp only [firstLogIndexLocked, hlog, bootstrapRecord, List.head?_cons] at hfirst
          omega
        have hbehind : lastLogIndexLocked
            { n with nextIndex := Function.update n.nextIndex peer next } < next := by
          simpa [lastLogIndexLocked, hlog, bootstrapRecord] using hpos
        simp only [appendRequestFrom, kMaxAppendEntriesPerRpc]
        rw [batchLoop, if_pos (.inl hbehind)]

namespace Link

/-- With a leader that has no records, the follower keeps what it has. -/
theorem replicateOnce_of_empty {s : Link sm.Image} (maxSnapshotCount : Nat) (peer : NodeId)
    (hlog : s.leader.log = [RaftNode.bootstrapRecord]) (hsnap : s.leader.lastSnapshotIndex = 0) :
    (s.replicateOnce sm maxSnapshotCount peer).leader.log = [RaftNode.bootstrapRecord] ∧
      (s.replicateOnce sm maxSnapshotCount peer).leader.lastSnapshotIndex = 0 ∧
      (s.replicateOnce sm maxSnapshotCount peer).follower.log = s.follower.log ∧
      (s.replicateOnce sm maxSnapshotCount peer).follower.lastSnapshotIndex =
        s.follower.lastSnapshotIndex := by
  obtain ⟨next, hbuild⟩ := s.leader.buildAppendEntriesRequest_frame peer s.leader.currentTerm
  unfold replicateOnce
  simp only
  split
  · exact ⟨hlog, hsnap, rfl, rfl⟩
  · rename_i leader heq
    rw [heq] at hbuild
    simp only at hbuild
    subst hbuild
    simp only [sendInstallSnapshotToPeer, hsnap, if_true]
    exact ⟨hlog, trivial, trivial, trivial⟩
  · rename_i leader request heq
    have hentries := RaftNode.buildAppendEntriesRequest_of_empty hlog heq
    rw [heq] at hbuild
    simp only at hbuild
    subst hbuild
    have hfollower := s.follower.onAppendEntries_log_of_nil hentries true true true
    have hboundary := (s.follower.onAppendEntries_sameBoundary request true true true).snapshot
    generalize s.follower.onAppendEntries request true true true = handled at hfollower hboundary
    obtain ⟨follower, response, flag⟩ := handled
    obtain ⟨hkept, hsame, -⟩ := RaftNode.call_sameLog { s.leader with nextIndex := next }
      (.handleAppendEntriesResponse peer s.leader.currentTerm response true : Call sm.Image) rfl
    exact ⟨hkept.trans hlog, hsame.trans hsnap, hfollower, hboundary⟩

theorem iterate_of_empty {s : Link sm.Image} (maxSnapshotCount : Nat) (peer : NodeId)
    (hlog : s.leader.log = [RaftNode.bootstrapRecord]) (hsnap : s.leader.lastSnapshotIndex = 0)
    (k : Nat) :
    ((replicateOnce sm maxSnapshotCount peer)^[k] s).leader.log = [RaftNode.bootstrapRecord] ∧
      ((replicateOnce sm maxSnapshotCount peer)^[k] s).leader.lastSnapshotIndex = 0 ∧
      ((replicateOnce sm maxSnapshotCount peer)^[k] s).follower.log = s.follower.log ∧
      ((replicateOnce sm maxSnapshotCount peer)^[k] s).follower.lastSnapshotIndex =
        s.follower.lastSnapshotIndex := by
  induction k with
  | zero => exact ⟨hlog, hsnap, rfl, rfl⟩
  | succ k ih =>
    obtain ⟨hlog', hsnap', hkept, hsame⟩ := ih
    rw [Function.iterate_succ_apply']
    obtain ⟨hlog'', hsnap'', hkept', hsame'⟩ :=
      replicateOnce_of_empty maxSnapshotCount peer hlog' hsnap'
    exact ⟨hlog'', hsnap'', hkept'.trans hkept, hsame'.trans hsame⟩

/-- A node that does not lead ships nothing. -/
theorem replicateOnce_of_not_leader {s : Link sm.Image} (maxSnapshotCount : Nat) (peer : NodeId)
    (hrole : s.leader.role ≠ .leader) : s.replicateOnce sm maxSnapshotCount peer = s := by
  simp [replicateOnce, RaftNode.buildAppendEntriesRequest, hrole]

/-- A leader that steps down in its first round makes no second one. -/
theorem iterate_of_steps_down {s : Link sm.Image} (maxSnapshotCount : Nat) (peer : NodeId)
    (hrole : (s.replicateOnce sm maxSnapshotCount peer).leader.role ≠ .leader) (k : Nat) :
    (replicateOnce sm maxSnapshotCount peer)^[k] s = s ∨
      (replicateOnce sm maxSnapshotCount peer)^[k] s =
        s.replicateOnce sm maxSnapshotCount peer := by
  induction k with
  | zero => exact .inl rfl
  | succ k ih =>
    right
    rw [Function.iterate_succ_apply']
    rcases ih with heq | heq <;> rw [heq]
    exact replicateOnce_of_not_leader maxSnapshotCount peer hrole

end Link

/-! ## A stale tail and a later term

Member 1 leads term 1 and has appended a record that nobody else has. Member 3 votes for member 2,
which leads term 2 and has no records yet. Member 1 keeps its record through every round of member
2. Its own first round with member 3 makes it step down. -/

def partedSchedule : List (NodeId × Action) :=
  electionSchedule ++ [(1, .proposeNoOp true)] ++ bootSchedule 3 ++
  [(2, .startElection true), (3, .onRequestVote 4 true true), (2, .onVoteResponse 5 true),
    (2, .countVote 2), (2, .onElectionWon 2)]

section Parted

variable (c : Cluster KvMap kvStateMachine.Image)

/-- Member `l` leads term `T` with `p` as a peer, both run, and nothing is compacted. -/
def LeadsPeer (l p : NodeId) (T : Nat) : Prop :=
  (c.members l).up = true ∧ (c.members l).node.running = true ∧
    (c.members l).node.role = .leader ∧ p ∈ (c.members l).node.peers ∧ (c.members p).up = true ∧
    (c.members l).node.lastSnapshotIndex = 0 ∧ (c.members l).node.currentTerm = T

/-- Member 1 has a record that member 2 has not. -/
def KeepsRecord : Prop :=
  (c.members 2).node.log = [RaftNode.bootstrapRecord] ∧ (c.members 1).node.currentTerm = 1 ∧
    (c.members 1).node.lastSnapshotIndex = 0 ∧
    ((c.members 1).node.logAtIndexLocked 1).isSome = true

/-- Member 1 steps down in its first round with member 3. -/
def StepsDown : Prop :=
  (((c.link 1 3 1).replicateOnce kvStateMachine 5 3).leader.role ≠ .leader ∧
    ((c.link 1 3 1).replicateOnce kvStateMachine 5 3).leader.matchIndex 3 = 0 ∧
    ((c.link 1 3 1).replicateOnce kvStateMachine 5 3).leader.lastLogIndexLocked = 1) ∧
    (c.members 1).node.matchIndex 3 = 0 ∧ (c.members 1).node.lastLogIndexLocked = 1

instance (l p : NodeId) (T : Nat) : Decidable (LeadsPeer c l p T) :=
  inferInstanceAs (Decidable (_ ∧ _))

instance : Decidable (KeepsRecord c) := inferInstanceAs (Decidable (_ ∧ _))

instance : Decidable (StepsDown c) := inferInstanceAs (Decidable (_ ∧ _))

variable {c}

theorem LeadsPeer.replicates {l p : NodeId} {T next : Nat} (h : LeadsPeer c l p T)
    (hpos : 1 ≤ next) (hle : next ≤ (c.members l).node.lastLogIndexLocked + 1) :
    c.Replicates l p next := by
  obtain ⟨hup, hrunning, hrole, hpeer, hup', hsnap, -⟩ := h
  exact ⟨hup, hrunning, hrole, hpeer, hup', hpos, hle, fun hlt => absurd hsnap (by omega)⟩

end Parted

theorem exec_partedSchedule : ∃ c, Cluster.Reachable kvStateMachine threeMembers c ∧
    LeadsPeer c 2 1 2 ∧ LeadsPeer c 1 3 1 ∧ KeepsRecord c ∧ StepsDown c := by
  obtain ⟨c, hc, hP⟩ := Cluster.exists_of_exec kvStateMachine threeMembers
    (Cluster.init kvStateMachine threeMembers) partedSchedule
    (fun c => LeadsPeer c 2 1 2 ∧ LeadsPeer c 1 3 1 ∧ KeepsRecord c ∧ StepsDown c)
    (by decide +kernel)
  exact ⟨c, Cluster.exec_run hc, hP⟩

theorem follower_catches_up_three :
    ∃ c : Cluster KvMap kvStateMachine.Image,
      Relation.ReflTransGen (Cluster.SavingStep kvStateMachine threeMembers)
        (Cluster.init kvStateMachine threeMembers) c ∧ c.Replicates 2 1 2 ∧
      (c.members 2).node.lastLogIndexLocked = 1 ∧ (c.members 1).node.log ≠ (c.members 2).node.log ∧
      Rounds.Reaches (Link.replicateOnce kvStateMachine 5 1) (fun s =>
        s.leader.log = (c.members 2).node.log ∧
        s.leader.matchIndex 1 = s.leader.lastLogIndexLocked ∧ s.SameRecords) (c.link 2 1 2) := by
  have hexec : (Cluster.execWhen kvStateMachine threeMembers (fun c id action =>
      c.Guarded id action ∧ SavesTerm c.net (c.members id) action)
      (Cluster.init kvStateMachine threeMembers)
      (partedSchedule ++ [(2, .proposeNoOp true)])).any (fun c => decide (LeadsPeer c 2 1 2 ∧
        (c.members 1).node.currentTerm = 1 ∧ (c.members 2).node.lastLogIndexLocked = 1 ∧
        (c.members 1).node.log ≠ (c.members 2).node.log)) = true := by
    decide +kernel
  obtain ⟨c, hc, hP⟩ := (Option.any_eq_true _ _).mp hexec
  obtain ⟨hlead, hterm, hlast, hne⟩ := of_decide_eq_true hP
  have hrun := Cluster.execWhen_run hc
  have hreplicates : c.Replicates 2 1 2 := hlead.replicates (by decide) (by rw [hlast])
  have hle : (c.members 1).node.currentTerm ≤ (c.members 2).node.currentTerm := by
    rw [hterm, hlead.2.2.2.2.2.2]
    decide
  exact ⟨c, hrun, hreplicates, hlast, hne,
    follower_catches_up kvStateMachine threeMembers hrun (by decide) hreplicates hle 5⟩

/-- The record of member 1 stays, so its log is never that of its leader; and the leader of the
earlier term never knows member 3 to have its log. -/
theorem catch_up_falls_short :
    (¬ ∀ c, Cluster.Reachable kvStateMachine threeMembers c → ∀ l ∈ threeMembers.ids,
      ∀ p next maxSnapshotCount, c.Replicates l p next →
      (c.members p).node.currentTerm ≤ (c.members l).node.currentTerm →
      Rounds.Reaches (Link.replicateOnce kvStateMachine maxSnapshotCount p) (fun s =>
        s.leader.matchIndex p = s.leader.lastLogIndexLocked ∧ s.SameLogs) (c.link l p next)) ∧
    ¬ ∀ c, Cluster.Reachable kvStateMachine threeMembers c → ∀ l ∈ threeMembers.ids,
      ∀ p next maxSnapshotCount, c.Replicates l p next →
      Rounds.Reaches (Link.replicateOnce kvStateMachine maxSnapshotCount p) (fun s =>
        s.leader.matchIndex p = s.leader.lastLogIndexLocked ∧ s.SameRecords) (c.link l p next) := by
  obtain ⟨c, hc, hlead, hlead', hkeeps, hdown⟩ := exec_partedSchedule
  refine ⟨fun hall => ?_, fun hall => ?_⟩
  · obtain ⟨hlog, hterm, hsnap, hrecord⟩ := hkeeps
    have hle : (c.members 1).node.currentTerm ≤ (c.members 2).node.currentTerm := by
      rw [hterm, hlead.2.2.2.2.2.2]
      decide
    obtain ⟨k, -, hsame⟩ := hall c hc 2 (by decide) 1 1 5
      (hlead.replicates le_rfl (Nat.le_add_left 1 _)) hle
    obtain ⟨hlog', hsnap', hkept, hboundary⟩ :=
      Link.iterate_of_empty (s := c.link 2 1 1) 5 1 hlog hlead.2.2.2.2.2.1 k
    have hzero : (c.link 2 1 1).follower.lastSnapshotIndex = 0 := hsnap
    have hequal := hsame 1 (by rw [hsnap', hboundary, hzero]; decide)
    have hnone : ((Link.replicateOnce kvStateMachine 5 1)^[k]
        (c.link 2 1 1)).leader.logAtIndexLocked 1 = none := by
      simp [RaftNode.logAtIndexLocked, RaftNode.hasLogAtIndexLocked, hlog',
        RaftNode.bootstrapRecord]
    rw [hnone, RaftNode.logAtIndexLocked_of_log_eq hkept hboundary 1] at hequal
    have hrecord' : ((c.link 2 1 1).follower.logAtIndexLocked 1).isSome = true := hrecord
    rw [hequal] at hrecord'
    cases hrecord'
  · obtain ⟨⟨hrole, hmatch, hlast⟩, hmatch₀, hlast₀⟩ := hdown
    obtain ⟨k, hmatched, -⟩ := hall c hc 1 (by decide) 3 1 5
      (hlead'.replicates le_rfl (Nat.le_add_left 1 _))
    rcases Link.iterate_of_steps_down 5 3 hrole k with heq | heq <;> rw [heq] at hmatched
    · rw [show (c.link 1 3 1).leader.matchIndex 3 = 0 from hmatch₀,
        show (c.link 1 3 1).leader.lastLogIndexLocked = 1 from hlast₀] at hmatched
      cases hmatched
    · rw [hmatch, hlast] at hmatched
      cases hmatched

end CquptRaft
