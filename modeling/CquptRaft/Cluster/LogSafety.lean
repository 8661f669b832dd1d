import CquptRaft.Cluster.SimulationRuns

/-!
# Safety of the replicated log

State machine safety, leader completeness, log matching and the commit rule of followers, for
every guarded run. An unguarded run can break all four: a follower commits up to the smaller
of the leader's commit index and its own last index, while the request it handles vouches only
for a batch of 256 entries, and a tail behind the batch may come from an older leader.
-/

namespace CquptRaft

open Replication Voting

variable {σ : Type} {sm : IStateMachine σ} {cfg : ClusterConfig} {H H' : History NodeId LogRecord}

/-! ## Records of a node -/

/-- The record at `i`, unless it is the marker of a snapshot. -/
def RaftNode.ordinaryAt (n : RaftNode) (i : Nat) : Option LogRecord :=
  if 0 < n.lastSnapshotIndex ∧ i = n.lastSnapshotIndex then none else n.logAtIndexLocked i

/-- Two logs have equal terms at every index up to `i` that both hold, and equal commands where
both hold an ordinary record. -/
def RaftNode.AgreesUpTo (n n' : RaftNode) (i : Nat) : Prop :=
  ∀ j ≤ i, ∀ r r', n.logAtIndexLocked j = some r → n'.logAtIndexLocked j = some r' →
    r.term = r'.term ∧
    (n.ordinaryAt j = some r → n'.ordinaryAt j = some r' → r.command = r'.command)

/-- At every index of `π` the node holds the record of `π`, or a snapshot covers the index. -/
def RaftNode.HoldsAll (n : RaftNode) (π : List LogRecord) : Prop :=
  ∀ j, 0 < j → j ≤ π.length → j ≤ n.lastSnapshotIndex ∨ n.logAtIndexLocked j = π[j - 1]?

namespace Represents

variable {n n' : RaftNode} {mem mem' : Replica LogRecord}

theorem range (h : Represents n mem) {j : Nat} {r : LogRecord}
    (hr : n.logAtIndexLocked j = some r) : mem.snap ≤ j ∧ j ≤ mem.log.length := by
  by_contra hno
  rw [h.logAtIndexLocked_none hno] at hr
  cases hr

theorem term_eq (h : Represents n mem) {j : Nat} {r : LogRecord}
    (hr : n.logAtIndexLocked j = some r) : r.term = termAt LogRecord.term mem.log j := by
  obtain ⟨hsnap, hlen⟩ := h.range hr
  rcases hsnap.eq_or_lt with rfl | hlt
  · rw [h.logAtIndexLocked_snap] at hr
    cases hr
    exact headRecord_term mem
  · obtain ⟨k, rfl⟩ : ∃ k, j = k + 1 := ⟨j - 1, by omega⟩
    rw [h.logAtIndexLocked hlt hlen] at hr
    simp only [Nat.add_sub_cancel] at hr
    simp [termAt, hr]

/-- An ordinary record is in the log of the replica, or it is the bootstrap record. -/
theorem ordinaryAt (h : Represents n mem) {j : Nat} {r : LogRecord}
    (hr : n.ordinaryAt j = some r) :
    j = 0 ∧ r = RaftNode.bootstrapRecord ∨ 0 < j ∧ mem.log[j - 1]? = some r := by
  unfold RaftNode.ordinaryAt at hr
  split at hr
  · cases hr
  · rename_i hmarker
    obtain ⟨hsnap, hlen⟩ := h.range hr
    rw [h.snapIndex] at hmarker
    rcases hsnap.eq_or_lt with rfl | hlt
    · have hzero : mem.snap = 0 := by omega
      rw [h.logAtIndexLocked_snap, headRecord, if_pos hzero] at hr
      cases hr
      exact .inl ⟨hzero, rfl⟩
    · rw [h.logAtIndexLocked hlt hlen] at hr
      exact .inr ⟨by omega, hr⟩

/-- Replicas whose logs agree up to `i` have nodes that agree up to `i`. -/
theorem agreesUpTo (h : Represents n mem) (h' : Represents n' mem') {i : Nat}
    (htake : mem.log.take i = mem'.log.take i) : n.AgreesUpTo n' i := by
  intro j hj r r' hr hr'
  refine ⟨?_, fun ho ho' => ?_⟩
  · rw [h.term_eq hr, h'.term_eq hr', ← termAt_take LogRecord.term hj, htake,
      termAt_take LogRecord.term hj]
  · rcases h.ordinaryAt ho with ⟨rfl, rfl⟩ | ⟨h0, hget⟩
    · rcases h'.ordinaryAt ho' with ⟨-, rfl⟩ | ⟨h0, -⟩
      · rfl
      · omega
    · rcases h'.ordinaryAt ho' with ⟨rfl, -⟩ | ⟨-, hget'⟩
      · omega
      · have heq : mem.log[j - 1]? = mem'.log[j - 1]? := by
          rw [← List.getElem?_take_of_lt (show j - 1 < i by omega), htake,
            List.getElem?_take_of_lt (show j - 1 < i by omega)]
        rw [hget, hget'] at heq
        cases heq
        rfl

theorem holdsAll (h : Represents n mem) {π : List LogRecord} (hπ : π <+: mem.log) :
    n.HoldsAll π := by
  intro j h0 hj
  by_cases hsnap : j ≤ mem.snap
  · exact .inl (h.snapIndex ▸ hsnap)
  · right
    have hlt : j - 1 < π.length := by omega
    rw [h.logAtIndexLocked (by omega) (hj.trans hπ.length_le), List.getElem?_eq_getElem hlt,
      List.prefix_iff_getElem?.mp hπ (j - 1) hlt]

end Represents

theorem RaftNode.logAtIndexLocked_of_ordinaryAt {n : RaftNode} {i : Nat} {r : LogRecord}
    (h : n.ordinaryAt i = some r) : n.logAtIndexLocked i = some r := by
  unfold RaftNode.ordinaryAt at h
  split at h
  · cases h
  · exact h

theorem SimInv.process {c : Cluster σ sm.Image} (h : SimInv cfg H c) {p : NodeId}
    (hp : p ∈ cfg.ids) (hup : (c.members p).up = true) :
    ∃ mem dur, ProcessInv H cfg.members p (c.members p) mem dur := (h.members p hp).process hup

/-- The process of member `p` holds the ordinary record `r` at `i` and has committed it. -/
def Cluster.CommitsAt {Image : Type} (c : Cluster σ Image) (p : NodeId) (i : Nat)
    (r : LogRecord) : Prop :=
  (c.members p).up = true ∧ i ≤ (c.members p).node.commitIndex ∧
    (c.members p).node.ordinaryAt i = some r

instance {Image : Type} (c : Cluster σ Image) (p : NodeId) (i : Nat) (r : LogRecord) :
    Decidable (c.CommitsAt p i r) := inferInstanceAs (Decidable (_ ∧ _))

/-! ## A stale tail

Member 1 leads term 1 and puts record 1 on all members and records 2 to 257 on members 2 to 4;
the request with these 256 records for member 5 stays in flight, and record 258 of term 1
stays with member 1. Member 2 leads term 2 and commits its own record 258. Its first request
makes member 5 answer from index 1, but the new term cannot be saved and member 5 restarts in
term 1. There it takes the request in flight and record 258 of term 1. The next request of
member 2 brings records 2 to 257, and member 5 commits its own record 258. -/

def fiveMembers : ClusterConfig where
  ids := [1, 2, 3, 4, 5]
  nodup := by decide
  pos := by decide

def setCommand (value : String) : Command := ⟨.set, ascii "k", ascii value⟩

def bootSchedule (id : NodeId) : List (NodeId × Action) :=
  [(id, .restart (fun _ => true) true fun _ => true), (id, .start)]

/-- One round of replication, with the request as message `k`. -/
def shipSchedule (leader peer : NodeId) (k : Nat) : List (NodeId × Action) :=
  [(leader, .replicateOnce peer), (peer, .onAppendEntries k true true true),
    (leader, .appendResponse peer (k + 1) true), (leader, .finishRpc peer)]

/-- Candidate `id` wins term `T` with the votes of `p` and `q`, whose requests are the messages
`kp` and `kq` and whose responses are `k` and `k + 1`. -/
def winSchedule (id p q : NodeId) (T kp kq k : Nat) : List (NodeId × Action) :=
  [(id, .startElection true), (p, .onRequestVote kp true true), (q, .onRequestVote kq true true),
    (id, .onVoteResponse k true), (id, .countVote T), (id, .onVoteResponse (k + 1) true),
    (id, .countVote T), (id, .onElectionWon T)]

/-- Applies that many entries. -/
def applySchedule (id : NodeId) (entries : Nat) : List (NodeId × Action) :=
  [(id, .applyAcquire)] ++
  (List.replicate entries
    [(id, Action.applyPick), (id, .applyRun), (id, .applyFinish true)]).flatten ++
  [(id, .applyPick)]

def snapshotSchedule (id : NodeId) : List (NodeId × Action) :=
  [(id, .onSnapshotTimer), (id, .workerCapture true), (id, .workerSave .ok),
    (id, .workerCompact true)]

def staleTailSchedule : List (NodeId × Action) :=
  fiveMembers.ids.flatMap bootSchedule ++ winSchedule 1 2 3 1 0 1 4 ++ [(1, .proposeNoOp true)] ++
  shipSchedule 1 2 6 ++ shipSchedule 1 3 8 ++ shipSchedule 1 4 10 ++ shipSchedule 1 5 12 ++
  List.replicate 256 (1, .propose (setCommand "v") true) ++
  shipSchedule 1 2 14 ++ shipSchedule 1 3 16 ++ shipSchedule 1 4 18 ++
  [(1, .replicateOnce 5), (1, .propose (setCommand "w") true)] ++
  winSchedule 2 3 4 2 22 23 25 ++ [(2, .proposeNoOp true)] ++
  shipSchedule 2 3 27 ++ shipSchedule 2 4 29 ++
  [(2, .replicateOnce 5), (5, .onAppendEntries 31 false true true), (5, .crash)] ++
  bootSchedule 5 ++
  [(5, .onAppendEntries 20 true true true), (1, .appendResponse 5 33 true), (1, .finishRpc 5),
    (1, .replicateOnce 5), (5, .onAppendEntries 34 true true true),
    (2, .appendResponse 5 32 true), (2, .finishRpc 5)]

/-- Member 5 applies what it has committed and saves a snapshot of it; the compaction is still to
come. -/
def tailSnapshotSchedule : List (NodeId × Action) :=
  [(5, .applyAcquire)] ++
  (List.replicate 257 [(5, Action.applyPick), (5, .applyRun), (5, .applyFinish true)]).flatten ++
  [(5, .applyPick), (5, .onSnapshotTimer), (5, .workerCapture true), (5, .workerSave .ok),
    (2, .appendResponse 5 37 true), (2, .finishRpc 5)]

/-- With its snapshot saved, member 5 follows member 2 again. -/
def staleSnapshotSchedule : List (NodeId × Action) := tailSnapshotSchedule ++ shipSchedule 2 5 38

/-- Member 2 commits record 259 with members 3 and 5. -/
def commitSchedule : List (NodeId × Action) :=
  [(2, .propose (setCommand "x") true)] ++ shipSchedule 2 3 40 ++ shipSchedule 2 5 42

/-- The compaction of member 5 drops record 259, and member 4 wins term 3 without it. -/
def dropSchedule : List (NodeId × Action) :=
  [(5, .workerCompact true)] ++ winSchedule 4 1 5 3 44 47 48

/-- Member 5 wins term 3 and sends record 259 to member 4; its compaction drops the record, and
it writes another one in its place. -/
def rewriteSchedule : List (NodeId × Action) :=
  winSchedule 5 3 4 3 42 43 44 ++ [(5, .proposeNoOp true)] ++ shipSchedule 5 4 46 ++
  [(5, .workerCompact true), (5, .propose (setCommand "y") true)]

section StaleTail

variable (c₀ c₁ c e f x y : Cluster KvMap kvStateMachine.Image)

/-- Member 5 commits a record of term 1 where member 2 has committed one of term 2. -/
def CommitsTail : Prop :=
  c₀.net.length = 36 ∧ (appendRequestAt c₁.net 36).isSome ∧
    (c₁.members 5).node.commitIndex < 258 ∧ (c.members 5).node.commitIndex = 258 ∧
    (c.members 5).up = true ∧ (c.members 2).up = true ∧ (c.members 2).node.commitIndex = 258 ∧
    (c.members 5).node.ordinaryAt 258 = some ⟨258, 1, (setCommand "w").serialize⟩ ∧
    (c.members 2).node.ordinaryAt 258 = some ⟨258, 2, kInternalNoOpCommand⟩ ∧
    (c₀.members 2).node.ordinaryAt 258 = some ⟨258, 2, kInternalNoOpCommand⟩

/-- Member 4 leads term 3 without the record that member 2 has committed in term 2. -/
def DropsRecord : Prop :=
  (e.LeaderAt 2 2 ∧ 259 ≤ (e.members 2).node.commitIndex) ∧
    f.LeaderAt 4 3 ∧ (f.members 4).node.lastSnapshotIndex = 0 ∧
    (f.members 4).node.logAtIndexLocked 259 = none

/-- Members 4 and 5 hold different records 259 of term 3. -/
def RewritesRecord : Prop :=
  ((e.members 4).up = true ∧ (e.members 5).up = true) ∧
    (e.members 4).node.ordinaryAt 259 = some ⟨259, 3, kInternalNoOpCommand⟩ ∧
    (e.members 5).node.ordinaryAt 259 = some ⟨259, 3, (setCommand "y").serialize⟩

/-- Member 5 replaces the record that it has committed. -/
def ReplacesTail : Prop :=
  ((x.members 5).up = true ∧ (x.members 5).node.lastSnapshotIndex = 0 ∧
      (x.members 5).node.commitIndex = 258) ∧
    (x.members 5).node.logAtIndexLocked 258 = some ⟨258, 1, (setCommand "w").serialize⟩ ∧
    (y.members 5).node.logAtIndexLocked 258 = some ⟨258, 2, kInternalNoOpCommand⟩ ∧
    (y.members 5).node.lastSnapshotIndex = 0

instance : Decidable (CommitsTail c₀ c₁ c) := inferInstanceAs (Decidable (_ ∧ _))
instance : Decidable (DropsRecord e f) := inferInstanceAs (Decidable (_ ∧ _))
instance : Decidable (RewritesRecord e) := inferInstanceAs (Decidable (_ ∧ _))
instance : Decidable (ReplacesTail x y) := inferInstanceAs (Decidable (_ ∧ _))

end StaleTail

/-- The run with the stale tail, and the two ways it goes on. -/
theorem exec_staleTailSchedule :
    ∃ c₀ c₁ c d e f g : Cluster KvMap kvStateMachine.Image,
      Cluster.exec kvStateMachine fiveMembers (Cluster.init kvStateMachine fiveMembers)
        staleTailSchedule = some c₀ ∧
      c₀.step kvStateMachine fiveMembers 2 (.replicateOnce 5) = some c₁ ∧
      c₁.step kvStateMachine fiveMembers 5 (.onAppendEntries 36 true true true) = some c ∧
      CommitsTail c₀ c₁ c ∧
      Cluster.exec kvStateMachine fiveMembers c staleSnapshotSchedule = some d ∧
      Cluster.exec kvStateMachine fiveMembers d commitSchedule = some e ∧
      Cluster.exec kvStateMachine fiveMembers e dropSchedule = some f ∧ DropsRecord e f ∧
      Cluster.exec kvStateMachine fiveMembers d rewriteSchedule = some g ∧ RewritesRecord g ∧
      ∃ w x y, Cluster.exec kvStateMachine fiveMembers c tailSnapshotSchedule = some w ∧
        w.step kvStateMachine fiveMembers 2 (.replicateOnce 5) = some x ∧
        x.step kvStateMachine fiveMembers 5 (.onAppendEntries 38 true true true) = some y ∧
        ReplacesTail x y := by
  let sm := kvStateMachine
  let run := Cluster.exec sm fiveMembers
  have hrun : (run (Cluster.init sm fiveMembers) staleTailSchedule).any (fun c₀ =>
      (c₀.step sm fiveMembers 2 (.replicateOnce 5)).any fun c₁ =>
      (c₁.step sm fiveMembers 5 (.onAppendEntries 36 true true true)).any fun c =>
      decide (CommitsTail c₀ c₁ c) && (run c tailSnapshotSchedule).any fun w =>
      (w.step sm fiveMembers 2 (.replicateOnce 5)).any fun x =>
      (x.step sm fiveMembers 5 (.onAppendEntries 38 true true true)).any fun y =>
      decide (ReplacesTail x y) &&
        (run y [(2, .appendResponse 5 39 true), (2, .finishRpc 5)]).any fun d =>
      ((run d commitSchedule).any fun e => (run e dropSchedule).any fun f =>
        decide (DropsRecord e f)) &&
      (run d rewriteSchedule).any fun g => decide (RewritesRecord g)) = true := by
    decide +kernel
  simp only [Option.any_eq_true, Bool.and_eq_true, decide_eq_true_eq] at hrun
  obtain ⟨c₀, h₀, c₁, h₁, c, hc, hcommits, w, hw, x, hx, y, hy, hreplaces, d, hd,
    ⟨e, he, f, hf, hdrops⟩, g, hg, hrewrites⟩ := hrun
  have hd' : run c staleSnapshotSchedule = some d := by
    rw [show run c staleSnapshotSchedule = _ from Cluster.exec_append c _ _]
    exact Option.bind_eq_some_iff.mpr ⟨w, hw, Option.bind_eq_some_iff.mpr
      ⟨x, hx, Option.bind_eq_some_iff.mpr ⟨y, hy, hd⟩⟩⟩
  exact ⟨c₀, c₁, c, d, e, f, g, h₀, h₁, hc, hcommits, hd', he, hf, hdrops, hg, hrewrites, w, x, y,
    hw,
    hx, hy, hreplaces⟩

/-! ## A run without a stale tail -/

/-- Member 1 of three wins term 1 and commits its first record with member 2. -/
def threeSchedule : List (NodeId × Action) :=
  electionSchedule ++ [(1, .proposeNoOp true)] ++ shipSchedule 1 2 3

/-- Member 2 wins term 2 with the vote of member 1. -/
def succeedSchedule : List (NodeId × Action) :=
  [(2, .startElection true), (1, .onRequestVote 7 true true), (2, .onVoteResponse 9 true),
    (2, .countVote 2), (2, .onElectionWon 2)]

section Three

variable (c₀ c₁ c d : Cluster KvMap kvStateMachine.Image)

/-- Member 2 learns that record 1 is committed, and later leads term 2. -/
def CommitsFirst : Prop :=
  c₀.net.length = 5 ∧ (appendRequestAt c₁.net 5).isSome ∧
    (c₁.members 2).node.commitIndex < (c.members 2).node.commitIndex ∧
    (c₀.LeaderAt 1 1 ∧ 1 ≤ (c₀.members 1).node.commitIndex) ∧
    ((c.members 1).up = true ∧ (c.members 2).up = true) ∧
    (c₀.CommitsAt 1 1 ⟨1, 1, kInternalNoOpCommand⟩ ∧ c.CommitsAt 2 1 ⟨1, 1, kInternalNoOpCommand⟩) ∧
    ((c.members 1).node.logAtIndexLocked 1 = some ⟨1, 1, kInternalNoOpCommand⟩ ∧
      (c.members 2).node.logAtIndexLocked 1 = some ⟨1, 1, kInternalNoOpCommand⟩) ∧
    d.LeaderAt 2 2

instance : Decidable (CommitsFirst c₀ c₁ c d) := inferInstanceAs (Decidable (_ ∧ _))

end Three

theorem exec_threeSchedule :
    ∃ c₀ c₁ c d : Cluster KvMap kvStateMachine.Image,
      Cluster.execGuarded kvStateMachine threeMembers (Cluster.init kvStateMachine threeMembers)
        threeSchedule = some c₀ ∧
      c₀.step kvStateMachine threeMembers 1 (.replicateOnce 2) = some c₁ ∧
      c₁.Guarded 2 (.onAppendEntries 5 true true true) ∧
      c₁.step kvStateMachine threeMembers 2 (.onAppendEntries 5 true true true) = some c ∧
      Cluster.execGuarded kvStateMachine threeMembers c succeedSchedule = some d ∧
      CommitsFirst c₀ c₁ c d := by
  let sm := kvStateMachine
  let run := Cluster.execGuarded sm threeMembers
  have hrun : (run (Cluster.init sm threeMembers) threeSchedule).any (fun c₀ =>
      (c₀.step sm threeMembers 1 (.replicateOnce 2)).any fun c₁ =>
      decide (c₁.Guarded 2 (.onAppendEntries 5 true true true)) &&
      (c₁.step sm threeMembers 2 (.onAppendEntries 5 true true true)).any fun c =>
      (run c succeedSchedule).any fun d => decide (CommitsFirst c₀ c₁ c d)) = true := by
    decide +kernel
  simp only [Option.any_eq_true, Bool.and_eq_true, decide_eq_true_eq] at hrun
  obtain ⟨c₀, h₀, c₁, h₁, hguard, c, hc, d, hd, hcommits⟩ := hrun
  exact ⟨c₀, c₁, c, d, h₀, h₁, hguard, hc, hd, hcommits⟩

/-! ## State machine safety -/

/-- Committed records agree, between any two members and any two times of a guarded run. -/
theorem committed_records_agree (sm : IStateMachine σ) (cfg : ClusterConfig)
    {c c' : Cluster σ sm.Image} (hc : Cluster.GuardedRun sm cfg (Cluster.init sm cfg) c)
    (hrun : Cluster.GuardedRun sm cfg c c') {p q : NodeId} (hp : p ∈ cfg.ids) (hq : q ∈ cfg.ids)
    {i : Nat} {r r' : LogRecord} (hr : c.CommitsAt p i r) (hr' : c'.CommitsAt q i r') :
    r.term = r'.term ∧ r.command = r'.command := by
  obtain ⟨H, -, hH⟩ := SimInv.init.run hc
  obtain ⟨H', hext, hH'⟩ := hH.run hrun
  obtain ⟨hup, hi, hr⟩ := hr
  obtain ⟨hup', hi', hr'⟩ := hr'
  obtain ⟨mem, dur, hmem⟩ := hH.process hp hup
  obtain ⟨mem', dur', hmem'⟩ := hH'.process hq hup'
  rw [hmem.node.represents.commit] at hi
  rw [hmem'.node.represents.commit] at hi'
  -- both have committed a chosen prefix
  have hch := hext.chosen hH.valid (hmem.node.memSound.chosen.of_le (take_le_take hi))
  have hch' := hmem'.node.memSound.chosen.of_le (take_le_take hi')
  have hlen := hi.trans hmem.node.memSound.commit_le
  have hlen' := hi'.trans hmem'.node.memSound.commit_le
  have htake : mem.log.take i = mem'.log.take i := by
    refine List.IsPrefix.eq_of_length ?_ (by simp [hlen, hlen'])
    exact (hH'.valid.chosen_comparable hch hch').le (by simp [hlen, hlen'])
  have hagree := hmem.node.represents.agreesUpTo hmem'.node.represents htake i le_rfl r r'
    (RaftNode.logAtIndexLocked_of_ordinaryAt hr) (RaftNode.logAtIndexLocked_of_ordinaryAt hr')
  exact ⟨hagree.1, hagree.2 hr hr'⟩

theorem committed_records_agree_three :
    ∃ c c', Cluster.GuardedRun kvStateMachine threeMembers
        (Cluster.init kvStateMachine threeMembers) c ∧
      Cluster.GuardedRun kvStateMachine threeMembers c c' ∧
      ∃ r r', c.CommitsAt 1 1 r ∧ c'.CommitsAt 2 1 r' ∧
        r.term = r'.term ∧ r.command = r'.command := by
  obtain ⟨c₀, c₁, c, d, h₀, h₁, hguard, hc, -, hcommits⟩ := exec_threeSchedule
  obtain ⟨-, -, -, -, -, ⟨hr, hr'⟩, -⟩ := hcommits
  have hrun₀ := Cluster.execGuarded_run h₀
  have hrun : Cluster.GuardedRun kvStateMachine threeMembers c₀ c :=
    (Relation.ReflTransGen.single ⟨1, _, Cluster.guarded_of_none rfl rfl, h₁⟩).tail
    ⟨2, _, hguard, hc⟩
  exact ⟨c₀, c, hrun₀, hrun, _, _, hr, hr',
    committed_records_agree kvStateMachine threeMembers hrun₀
    hrun (p := 1) (q := 2) (by decide) (by decide) hr hr'⟩

/-- The run with the stale tail commits two records at index 258. -/
theorem committed_records_disagree :
    ¬ ∀ c c', Cluster.Reachable kvStateMachine fiveMembers c →
      Cluster.Run kvStateMachine fiveMembers c c' →
      ∀ p ∈ fiveMembers.ids, ∀ q ∈ fiveMembers.ids, ∀ i r r', c.CommitsAt p i r →
        c'.CommitsAt q i r' → r.term = r'.term ∧ r.command = r'.command := by
  intro hagree
  obtain ⟨c₀, c₁, c, -, -, -, -, h₀, h₁, hc, hcommits, -⟩ := exec_staleTailSchedule
  obtain ⟨-, -, -, hcommit, hup, hup', hcommit', hr, hr', -⟩ := hcommits
  have hrun : Cluster.Reachable kvStateMachine fiveMembers c :=
    ((Cluster.exec_run h₀).tail ⟨2, _, h₁⟩).tail ⟨5, _, hc⟩
  have hterm := (hagree c c hrun .refl 5 (by decide) 2 (by decide) 258 _ _
    ⟨hup, hcommit.ge, hr⟩ ⟨hup', hcommit'.ge, hr'⟩).1
  exact absurd hterm (by decide)

/-! ## Leader completeness -/

/-- What a leader has committed is a list of records that every later leader holds. -/
theorem leader_completeness (sm : IStateMachine σ) (cfg : ClusterConfig)
    {c : Cluster σ sm.Image} (hc : Cluster.GuardedRun sm cfg (Cluster.init sm cfg) c)
    {p : NodeId} (hp : p ∈ cfg.ids) {t i : Nat} (hleader : c.LeaderAt p t)
    (hi : i ≤ (c.members p).node.commitIndex) :
    ∃ π : List LogRecord, π.length = i ∧ (c.members p).node.HoldsAll π ∧
      ∀ c', Cluster.GuardedRun sm cfg c c' → ∀ q ∈ cfg.ids, ∀ T, t < T → c'.LeaderAt q T →
        (c'.members q).node.HoldsAll π := by
  obtain ⟨H, -, hH⟩ := SimInv.init.run hc
  obtain ⟨hup, hrole, rfl⟩ := hleader
  obtain ⟨mem, dur, hmem⟩ := hH.process hp hup
  obtain ⟨hlead, hclean⟩ := hmem.leader hrole
  rw [hmem.node.represents.commit] at hi
  have hlen := hi.trans hmem.node.memSound.commit_le
  have hch := hclean.commit.of_le (take_le_take hi)
  refine ⟨mem.log.take i, by simp [hlen], hmem.node.represents.holdsAll (take_le _ _), ?_⟩
  rintro c' hrun q hq T hT ⟨hup', hrole', hterm'⟩
  obtain ⟨H', hext, hH'⟩ := hH.run hrun
  obtain ⟨mem', dur', hmem'⟩ := hH'.process hq hup'
  obtain ⟨hlead', -⟩ := hmem'.leader hrole'
  rw [hmem.node.represents.term] at hT
  rw [hmem'.node.represents.term] at hterm'
  refine hmem'.node.represents.holdsAll ?_
  rw [hlead'.log]
  exact hH'.valid.chosenBy_le (hext.chosenBy hH.valid hch) hlead'.led.elected (by omega)

theorem leader_completeness_three :
    ∃ c c' : Cluster KvMap kvStateMachine.Image, c.LeaderAt 1 1 ∧
      1 ≤ (c.members 1).node.commitIndex ∧ c'.LeaderAt 2 2 ∧
      ∃ π : List LogRecord, π.length = 1 ∧ (c.members 1).node.HoldsAll π ∧
        (c'.members 2).node.HoldsAll π := by
  obtain ⟨c₀, c₁, c, d, h₀, h₁, hguard, hc, hd, hcommits⟩ := exec_threeSchedule
  obtain ⟨-, -, -, ⟨hleader, hcommit⟩, -, -, -, hleader'⟩ := hcommits
  have hrun : Cluster.GuardedRun kvStateMachine threeMembers c₀ c :=
    (Relation.ReflTransGen.single ⟨1, _, Cluster.guarded_of_none rfl rfl, h₁⟩).tail
    ⟨2, _, hguard, hc⟩
  obtain ⟨π, hlen, hholds, hlater⟩ := leader_completeness kvStateMachine threeMembers
    (Cluster.execGuarded_run h₀) (by decide) hleader hcommit
  exact ⟨c₀, d, hleader, hcommit, hleader', π, hlen, hholds,
    hlater d (hrun.trans (Cluster.execGuarded_run hd)) 2 (by decide) 2 (by decide) hleader'⟩

/-- Behind the stale tail a leader of term 3 misses a record committed in term 2. -/
theorem leader_incomplete :
    ¬ ∀ c, Cluster.Reachable kvStateMachine fiveMembers c → ∀ p ∈ fiveMembers.ids, ∀ t i,
      c.LeaderAt p t → i ≤ (c.members p).node.commitIndex →
      ∃ π : List LogRecord, π.length = i ∧ (c.members p).node.HoldsAll π ∧
        ∀ c', Cluster.Run kvStateMachine fiveMembers c c' → ∀ q ∈ fiveMembers.ids, ∀ T, t < T →
          c'.LeaderAt q T → (c'.members q).node.HoldsAll π := by
  intro hcomplete
  obtain ⟨c₀, c₁, c, d, e, f, -, h₀, h₁, hc, -, hd, he, hf, hdrops, -⟩ := exec_staleTailSchedule
  obtain ⟨⟨hleader, hcommit⟩, hleader', hsnap, hnone⟩ := hdrops
  have hreach : Cluster.Reachable kvStateMachine fiveMembers e :=
    ((((Cluster.exec_run h₀).tail ⟨2, _, h₁⟩).tail ⟨5, _, hc⟩).trans (Cluster.exec_run hd)).trans
      (Cluster.exec_run he)
  obtain ⟨π, hlen, -, hlater⟩ := hcomplete e hreach 2 (by decide) 2 259 hleader hcommit
  have hholds := hlater f (Cluster.exec_run hf) 4 (by decide) 3 (by decide) hleader' 259 (by decide)
    hlen.ge
  rw [hsnap, hnone] at hholds
  rcases hholds with hle | heq
  · exact absurd hle (by decide)
  · rw [eq_comm, List.getElem?_eq_none_iff] at heq
    omega

/-! ### A snapshot under a term that is over

The other half of the guard is needed too. Member 2 is about to send its snapshot to member 7 when
it loses term 1. Record 2 of term 2 is committed in term 4, and the snapshot that member 2 then
sends in term 1 ends with it. Member 7 installs it without being able to save its state, and
acknowledges the record to member 1, which leads term 2. After a restart that cannot read the
snapshot it votes for member 6 in term 3. -/

def sevenMembers : ClusterConfig where
  ids := [1, 2, 3, 4, 5, 6, 7]
  nodup := by decide
  pos := by decide
  snapshot _ := { maxSnapshotCount := 1 }

/-- Candidate `id` counts the vote of `p` in term `T`: message `kp` is the request and message `k`
the response. -/
def voteSchedule (id p : NodeId) (T kp k : Nat) : List (NodeId × Action) :=
  [(p, .onRequestVote kp true true), (id, .onVoteResponse k true), (id, .countVote T)]

/-- Member 2 leads term 1 and has read its boundary for member 7, member 1 leads term 2 with a
record that members 2 and 3 hold, and member 6 has two votes of term 3. -/
def threeTermsSchedule : List (NodeId × Action) :=
  sevenMembers.ids.flatMap bootSchedule ++ [(2, .startElection true)] ++
  voteSchedule 2 3 1 1 6 ++ voteSchedule 2 4 1 2 7 ++ voteSchedule 2 5 1 3 8 ++
  [(2, .onElectionWon 1), (2, .proposeNoOp true)] ++ shipSchedule 2 1 9 ++
  shipSchedule 2 3 11 ++ shipSchedule 2 4 13 ++ shipSchedule 2 5 15 ++ shipSchedule 2 6 17 ++
  applySchedule 2 1 ++ snapshotSchedule 2 ++ [(2, .replicateOnce 7), (2, .readBoundary 7)] ++
  [(1, .startElection true)] ++ voteSchedule 1 3 2 20 25 ++ voteSchedule 1 4 2 21 26 ++
  voteSchedule 1 5 2 22 27 ++ [(1, .onElectionWon 2), (1, .proposeNoOp true)] ++
  shipSchedule 1 2 28 ++ shipSchedule 1 3 30 ++
  [(6, .startElection true), (6, .startElection true)] ++ voteSchedule 6 4 3 41 44 ++
  voteSchedule 6 5 3 42 45

/-- Member 3 wins term 4 and commits the record. Member 2 applies it, which it cannot save, takes a
snapshot and removes the older one. -/
def laterTermSchedule : List (NodeId × Action) :=
  [(3, .startElection true), (3, .startElection true)] ++ voteSchedule 3 2 4 53 58 ++
  voteSchedule 3 4 4 54 59 ++ voteSchedule 3 5 4 55 60 ++
  [(3, .onElectionWon 4), (3, .proposeNoOp true)] ++ shipSchedule 3 2 61 ++
  shipSchedule 3 4 63 ++ shipSchedule 3 4 65 ++ shipSchedule 3 5 67 ++ shipSchedule 3 5 69 ++
  shipSchedule 3 2 71 ++
  [(2, .applyAcquire), (2, .applyPick), (2, .applyRun), (2, .applyFinish false)] ++
  snapshotSchedule 2 ++ [(2, .prune 2)]

/-- Member 7 installs the snapshot of term 1, and member 1 commits the record in term 2. -/
def staleSendSchedule : List (NodeId × Action) :=
  [(2, .sendSnapshot 7), (7, .onInstallSnapshot 73 true), (7, .installWrite 0 true),
    (7, .installSave 0 .ok), (7, .installLoad 0 true), (7, .installFinish false),
    (1, .replicateOnce 7), (7, .onAppendEntries 75 false true true),
    (1, .appendResponse 7 76 true), (1, .finishRpc 7)] ++ shipSchedule 1 7 77

/-- Member 7 forgets the snapshot and makes member 6 leader of term 3. -/
def forgetSchedule : List (NodeId × Action) :=
  [(7, .crash), (7, .restart (fun _ => false) true fun _ => true), (7, .start)] ++
  voteSchedule 6 7 3 43 79 ++ [(6, .onElectionWon 3)]

/-- Record 2 of member 1, which it has committed as leader of term 2, is not in the log of the
leader of term 3, and that one has member 1 replace it. -/
def LosesCommitted (c d e : Cluster KvMap kvStateMachine.Image) : Prop :=
  (c.LeaderAt 1 2 ∧ c.CommitsAt 1 2 ⟨2, 2, kInternalNoOpCommand⟩) ∧
    (d.LeaderAt 6 3 ∧ (d.members 6).node.lastSnapshotIndex = 0 ∧
      (d.members 6).node.logAtIndexLocked 2 = none) ∧
    e.CommitsAt 1 2 ⟨2, 3, kInternalNoOpCommand⟩

instance (c d e : Cluster KvMap kvStateMachine.Image) : Decidable (LosesCommitted c d e) :=
  inferInstanceAs (Decidable (_ ∧ _))

/-- The action of member `id` commits no records that its request does not vouch for. -/
def Cluster.Vouched {Image : Type} (c : Cluster σ Image) (id : NodeId) (action : Action) : Prop :=
  ∀ request ∈ action.appendRequest c.net, ¬ (c.members id).node.Overreaches request

instance {Image : Type} (c : Cluster σ Image) (id : NodeId) (action : Action) :
    Decidable (c.Vouched id action) := inferInstanceAs (Decidable (∀ request ∈ _, _))

/-- A run in which every commit is vouched for loses a committed record. -/
theorem vouched_run_loses_record :
    let Run := Relation.ReflTransGen
      (Cluster.StepWhen kvStateMachine sevenMembers Cluster.Vouched)
    ∃ c d e, Run (Cluster.init kvStateMachine sevenMembers) c ∧ Run c d ∧ Run d e ∧
      LosesCommitted c d e := by
  intro Run
  let run := Cluster.execWhen kvStateMachine sevenMembers Cluster.Vouched
  have hrun : (run (Cluster.init kvStateMachine sevenMembers)
      (threeTermsSchedule ++ laterTermSchedule ++ staleSendSchedule)).any (fun c =>
      (run c forgetSchedule).any fun d =>
      (run d ((6, .proposeNoOp true) :: shipSchedule 6 1 80)).any fun e =>
      decide (LosesCommitted c d e)) = true := by
    decide +kernel
  simp only [Option.any_eq_true, decide_eq_true_eq] at hrun
  obtain ⟨c, hc, d, hd, e, he, hloses⟩ := hrun
  exact ⟨c, d, e, Cluster.execWhen_run hc, Cluster.execWhen_run hd, Cluster.execWhen_run he,
    hloses⟩

/-! ## Log matching -/

/-- Logs that hold a record of the same term at the same index agree up to there. -/
theorem log_matching (sm : IStateMachine σ) (cfg : ClusterConfig) {c : Cluster σ sm.Image}
    (hc : Cluster.GuardedRun sm cfg (Cluster.init sm cfg) c) {p q : NodeId} (hp : p ∈ cfg.ids)
    (hq : q ∈ cfg.ids) (hup : (c.members p).up = true) (hup' : (c.members q).up = true) {i : Nat}
    {a b : LogRecord} (ha : (c.members p).node.logAtIndexLocked i = some a)
    (hb : (c.members q).node.logAtIndexLocked i = some b) (hterm : a.term = b.term) :
    (c.members p).node.AgreesUpTo (c.members q).node i := by
  obtain ⟨H, -, hH⟩ := SimInv.init.run hc
  obtain ⟨mem, dur, hmem⟩ := hH.process hp hup
  obtain ⟨mem', dur', hmem'⟩ := hH.process hq hup'
  have hrep := hmem.node.represents
  have hrep' := hmem'.node.represents
  refine hrep.agreesUpTo hrep' ?_
  refine hmem.node.memSound.good.take_eq_of_termAt_eq hmem'.node.memSound.good (hrep.range ha).2
    (hrep'.range hb).2 ?_
  rw [← hrep.term_eq ha, ← hrep'.term_eq hb, hterm]

theorem log_matching_three :
    ∃ c : Cluster KvMap kvStateMachine.Image, ∃ a b,
      (c.members 1).node.logAtIndexLocked 1 = some a ∧
      (c.members 2).node.logAtIndexLocked 1 = some b ∧ a.term = b.term ∧
      (c.members 1).node.AgreesUpTo (c.members 2).node 1 := by
  obtain ⟨c₀, c₁, c, d, h₀, h₁, hguard, hc, -, hcommits⟩ := exec_threeSchedule
  obtain ⟨-, -, -, -, ⟨hup, hup'⟩, -, ⟨ha, hb⟩, -⟩ := hcommits
  have hrun := ((Cluster.execGuarded_run h₀).tail ⟨1, _, Cluster.guarded_of_none rfl rfl, h₁⟩).tail
      ⟨2, _, hguard, hc⟩
  exact ⟨c, _, _, ha, hb, rfl, log_matching kvStateMachine threeMembers hrun (by decide) (by decide)
    hup hup' ha hb rfl⟩

/-- Behind the stale tail one leader writes two records at index 259. -/
theorem log_mismatch :
    ¬ ∀ c, Cluster.Reachable kvStateMachine fiveMembers c → ∀ p ∈ fiveMembers.ids,
      ∀ q ∈ fiveMembers.ids, (c.members p).up = true → (c.members q).up = true →
      ∀ i a b, (c.members p).node.logAtIndexLocked i = some a →
        (c.members q).node.logAtIndexLocked i = some b → a.term = b.term →
        (c.members p).node.AgreesUpTo (c.members q).node i := by
  intro hmatching
  obtain ⟨c₀, c₁, c, d, -, -, g, h₀, h₁, hc, -, hd, -, -, -, hg, hrewrites, -⟩ :=
    exec_staleTailSchedule
  obtain ⟨⟨hup, hup'⟩, hr, hr'⟩ := hrewrites
  have hreach : Cluster.Reachable kvStateMachine fiveMembers g :=
    ((((Cluster.exec_run h₀).tail ⟨2, _, h₁⟩).tail ⟨5, _, hc⟩).trans (Cluster.exec_run hd)).trans
      (Cluster.exec_run hg)
  have hlog := RaftNode.logAtIndexLocked_of_ordinaryAt hr
  have hlog' := RaftNode.logAtIndexLocked_of_ordinaryAt hr'
  have hcommand := (hmatching g hreach 4 (by decide) 5 (by decide) hup hup' 259 _ _ hlog hlog' rfl
    259 le_rfl _ _ hlog hlog').2 hr hr'
  exact absurd hcommand (by decide)

/-! ## The commit rule of followers -/

theorem Cluster.step_net {c c' : Cluster σ sm.Image} {id : NodeId} {action : Action}
    (h : c.step sm cfg id action = some c') : c.net <+: c'.net := by
  obtain ⟨-, m, outbox, -, rfl⟩ := Cluster.step_cases h
  exact List.prefix_append _ _

theorem Cluster.GuardedRun.net {c c' : Cluster σ sm.Image} (h : Cluster.GuardedRun sm cfg c c') :
    c.net <+: c'.net := by
  induction h with
  | refl => exact List.prefix_refl _
  | tail _ hstep ih =>
    obtain ⟨id, action, -, hstep⟩ := hstep
    exact ih.trans (Cluster.step_net hstep)

theorem appendRequestAt_of_le {Image : Type} {net net' : List (Message Image)} {k : Nat}
    {request : AppendEntriesRequest} (hle : net <+: net')
    (h : appendRequestAt net k = some request) : appendRequestAt net' k = some request := by
  obtain ⟨message, hk, hpayload⟩ := Option.bind_eq_some_iff.mp h
  obtain ⟨hlt, hget⟩ := List.getElem?_eq_some_iff.mp hk
  refine Option.bind_eq_some_iff.mpr ⟨message, ?_, hpayload⟩
  rw [List.prefix_iff_getElem?.mp hle k hlt, hget]

/-- The message of a step that sends nothing, or one message, is at the end of the network. -/
theorem Member.replicateOnce_request {Image : Type} {m m' : Member σ Image} {peer : NodeId}
    {outbox : Member.Outbox Image} {net : List (Message Image)} {request : AppendEntriesRequest}
    (h : m.replicateOnce peer = some (m', outbox))
    (hrequest : appendRequestAt (net ++ outbox) net.length = some request) :
    ∃ node, m.node.buildAppendEntriesRequest peer m.node.currentTerm = (node, .append request) := by
  unfold Member.replicateOnce at h
  split at h
  · split at h
    · cases h
    · cases h
      simp [appendRequestAt] at hrequest
    · rename_i node request' heq
      cases h
      simp only [appendRequestAt, List.getElem?_concat_length, Option.bind_some,
        Option.some.injEq] at hrequest
      exact ⟨node, hrequest ▸ heq⟩
  · cases h

/-- A request is a window of the log its leader had when it was built. -/
theorem SimInv.request_window {c c' : Cluster σ sm.Image} (h : SimInv cfg H c) {p peer : NodeId}
    (hstep : c.step sm cfg p (.replicateOnce peer) = some c') {request : AppendEntriesRequest}
    (hrequest : appendRequestAt c'.net c.net.length = some request) :
    ∃ mem, Represents (c.members p).node mem ∧ Window H cfg.members request ∧
      mem.log = H.leaderLog request.term := by
  obtain ⟨hp, m, outbox, hm, rfl⟩ := Cluster.step_cases hstep
  obtain ⟨hup, hm⟩ := act_of_memberStep hm (by simp)
  obtain ⟨mem, dur, hproc⟩ := h.process hp hup
  obtain ⟨node, hbuilt⟩ := Member.replicateOnce_request hm hrequest
  have hrole := (c.members p).node.buildAppendEntriesRequest_leader peer
    (c.members p).node.currentTerm (by simp [hbuilt])
  obtain ⟨hlead, hclean⟩ := hproc.leader hrole
  obtain ⟨hwindow, hterm, -⟩ := hproc.node.window hlead.led.elected hlead.log hclean.commit hbuilt
  exact ⟨mem, hproc.node.represents, hwindow, hterm ▸ hlead.log⟩

/-- What handling request `k` does to the log of a member. -/
theorem SimInv.appended {c c' : Cluster σ sm.Image} (h : SimInv cfg H c) {q : NodeId} {k : Nat}
    {termSaved logSaved commitSaved : Bool} {request : AppendEntriesRequest}
    (hrequest : appendRequestAt c.net k = some request) (hwindow : Window H cfg.members request)
    (hguard : c.Guarded q (.onAppendEntries k termSaved logSaved commitSaved))
    (hstep : c.step sm cfg q (.onAppendEntries k termSaved logSaved commitSaved) = some c') :
    ∃ mem response mem' dur', Represents (c.members q).node mem ∧
      Appended H cfg.members q mem request (c'.members q).node response mem' dur' := by
  obtain ⟨hq, m, outbox, hm, rfl⟩ := Cluster.step_cases hstep
  obtain ⟨hup, hm⟩ := act_of_memberStep hm (by simp)
  obtain ⟨mem, dur, hproc⟩ := h.process hq hup
  obtain ⟨message, hk, hpayload⟩ := Option.bind_eq_some_iff.mp hrequest
  obtain ⟨message', hreceive, hdeliver⟩ := Option.bind_eq_some_iff.mp hm
  obtain rfl : message = message' := by
    rw [(Option.filter_eq_some_iff.mp hreceive).1] at hk
    exact (Option.some.inj hk).symm
  simp only [Function.update_self]
  unfold Member.deliverAppendEntries at hdeliver
  split at hdeliver
  · rename_i request' hrequest'
    simp only [hrequest', Option.some.injEq] at hpayload
    subst hpayload
    obtain ⟨mem', dur', happended⟩ := hproc.node.onAppendEntries h.valid h.indexed hwindow
      (hguard.1 _ hrequest) termSaved logSaved commitSaved
    generalize (c.members q).node.onAppendEntries request' termSaved logSaved commitSaved = res at *
    obtain ⟨node, response, applies⟩ := res
    cases hdeliver
    exact ⟨mem, response, mem', dur', hproc.node.represents, happended⟩
  · cases hdeliver

/-- A follower that raises its commit index agrees, up to the new index, with the leader's log
as it was when the request was built. -/
theorem commit_within_agreement (sm : IStateMachine σ) (cfg : ClusterConfig)
    {c₀ c₁ c₂ c₃ : Cluster σ sm.Image}
    (hc : Cluster.GuardedRun sm cfg (Cluster.init sm cfg) c₀) {p q peer : NodeId}
    (hbuild : c₀.step sm cfg p (.replicateOnce peer) = some c₁) {request : AppendEntriesRequest}
    (hrequest : appendRequestAt c₁.net c₀.net.length = some request)
    (hrun : Cluster.GuardedRun sm cfg c₁ c₂) {termSaved logSaved commitSaved : Bool}
    (hguard : c₂.Guarded q (.onAppendEntries c₀.net.length termSaved logSaved commitSaved))
    (hstep : c₂.step sm cfg q (.onAppendEntries c₀.net.length termSaved logSaved commitSaved) =
      some c₃)
    (hraised : (c₂.members q).node.commitIndex < (c₃.members q).node.commitIndex) :
    (c₃.members q).node.AgreesUpTo (c₀.members p).node (c₃.members q).node.commitIndex := by
  obtain ⟨H₀, -, hH₀⟩ := SimInv.init.run hc
  have hbuilt : Cluster.GuardedStep sm cfg c₀ c₁ :=
    ⟨p, _, Cluster.guarded_of_none rfl rfl, hbuild⟩
  obtain ⟨H₂, hext, hH₂⟩ := hH₀.run (Relation.ReflTransGen.head hbuilt hrun)
  obtain ⟨mem₀, hrep₀, hwindow, hlog⟩ := hH₀.request_window hbuild hrequest
  obtain ⟨mem₂, -, mem₃, dur₃, hrep₂, hinv, -, -, hraise⟩ := hH₂.appended
    (appendRequestAt_of_le hrun.net hrequest) (hwindow.mono hH₀.valid hext) hguard hstep
  rw [hrep₂.commit, hinv.represents.commit] at hraised
  obtain ⟨-, htake, hle⟩ := hraise hraised
  refine hinv.represents.agreesUpTo hrep₀ ?_
  rw [hinv.represents.commit, htake, hlog]
  exact hext.written_eq (hle.trans hwindow.commit_le)

theorem commit_within_agreement_three :
    ∃ c c' : Cluster KvMap kvStateMachine.Image,
      (c.members 2).node.commitIndex < (c'.members 2).node.commitIndex ∧
      (c'.members 2).node.AgreesUpTo (c.members 1).node (c'.members 2).node.commitIndex := by
  obtain ⟨c₀, c₁, c, d, h₀, h₁, hguard, hc, -, hcommits⟩ := exec_threeSchedule
  obtain ⟨hnet, hrequest, hraised, -⟩ := hcommits
  obtain ⟨request, hrequest⟩ := Option.isSome_iff_exists.mp hrequest
  rw [← hnet] at hrequest hguard hc
  have hsame : (c₁.members 2).node = (c₀.members 2).node := by
    obtain ⟨-, m, outbox, -, rfl⟩ := Cluster.step_cases h₁
    rfl
  exact ⟨c₀, c, hsame ▸ hraised, commit_within_agreement kvStateMachine threeMembers
    (Cluster.execGuarded_run h₀) h₁ hrequest .refl hguard hc hraised⟩

/-- The follower with the stale tail commits past its agreement with the leader. -/
theorem commit_past_agreement :
    ¬ ∀ c₀ c₁ c₂ c₃, Cluster.Reachable kvStateMachine fiveMembers c₀ → ∀ p q peer,
      c₀.step kvStateMachine fiveMembers p (.replicateOnce peer) = some c₁ → ∀ request,
      appendRequestAt c₁.net c₀.net.length = some request →
      Cluster.Run kvStateMachine fiveMembers c₁ c₂ → ∀ termSaved logSaved commitSaved,
      c₂.step kvStateMachine fiveMembers q
        (.onAppendEntries c₀.net.length termSaved logSaved commitSaved) = some c₃ →
      (c₂.members q).node.commitIndex < (c₃.members q).node.commitIndex →
      (c₃.members q).node.AgreesUpTo (c₀.members p).node (c₃.members q).node.commitIndex := by
  intro hagree
  obtain ⟨c₀, c₁, c, -, -, -, -, h₀, h₁, hc, hcommits, -⟩ := exec_staleTailSchedule
  obtain ⟨hnet, hrequest, hlow, hhigh, -, -, -, hr, -, hr'⟩ := hcommits
  obtain ⟨request, hrequest⟩ := Option.isSome_iff_exists.mp hrequest
  rw [← hnet] at hrequest hc
  have hterm := (hagree c₀ c₁ c₁ c (Cluster.exec_run h₀) 2 5 5 h₁ request hrequest .refl true true
    true hc (by omega) 258 hhigh.ge _ _ (RaftNode.logAtIndexLocked_of_ordinaryAt hr)
    (RaftNode.logAtIndexLocked_of_ordinaryAt hr')).1
  exact absurd hterm (by decide)

end CquptRaft
