import CquptRaft.Cluster.LogSafety

/-!
# Leaders and their votes

A member grants at most one vote in a term, whichever of its processes answers the request. The log
of the leader of a term only grows: the leader never takes a record back, and the records it adds
are of its own term.
-/

namespace CquptRaft

open Replication Voting

variable {σ : Type} {sm : IStateMachine σ} {cfg : ClusterConfig} {H H' : History NodeId LogRecord}

/-! ## Votes -/

/-- The response grants the vote of its sender in the term of the campaign. -/
def Message.grantsVote {Image : Type} (message : Message Image) : Bool :=
  match message.payload with
  | .voteResponse response => response.voteGranted
  | _ => false

theorem MessageVotes.granted {Image : Type} {V : Votes NodeId} {message : Message Image}
    (h : MessageVotes V message) (hgrants : message.grantsVote = true) :
    V message.call.callee message.call.term message.call.caller := by
  unfold Message.grantsVote at hgrants
  unfold MessageVotes at h
  split at hgrants
  · rename_i response hpayload
    rw [hpayload] at h
    exact h hgrants
  · cases hgrants

/-- Whatever is lost, delayed, duplicated or reordered, whichever `Save` fails and however often
the voter crashes: all votes that it ever grants in a term go to one candidate. -/
theorem vote_granted_once (sm : IStateMachine σ) (cfg : ClusterConfig) {c : Cluster σ sm.Image}
    (hc : Cluster.Reachable sm cfg c) {granted granted' : Message sm.Image}
    (hmem : granted ∈ c.net) (hmem' : granted' ∈ c.net) (hgrants : granted.grantsVote = true)
    (hgrants' : granted'.grantsVote = true) (hvoter : granted.call.callee = granted'.call.callee)
    (hterm : granted.call.term = granted'.call.term) :
    granted.call.caller = granted'.call.caller := by
  obtain ⟨V, -, hV⟩ := VoteInv.init.run hc
  have hvote := (hV.net granted hmem).granted hgrants
  have hvote' := (hV.net granted' hmem').granted hgrants'
  rw [hvoter, hterm] at hvote
  exact hV.unique hvote hvote'

/-- A vote that is delivered twice is one vote. -/
theorem vote_granted_once_three :
    ∃ c : Cluster KvMap kvStateMachine.Image, Cluster.Reachable kvStateMachine threeMembers c ∧
      ∃ granted ∈ c.net, ∃ granted' ∈ c.net, c.net.length = 4 ∧ granted.call.caller = 1 ∧
        granted.call.caller = granted'.call.caller := by
  obtain ⟨c, hc, hnet, hvoter, hsame⟩ := Cluster.exists_of_exec kvStateMachine threeMembers
    (Cluster.init kvStateMachine threeMembers)
    (electionSchedule ++ [(2, .onRequestVote 0 true true)])
    (fun c => c.net.length = 4 ∧ (∀ k ∈ [2, 3], ∀ message ∈ c.net[k]?, message.grantsVote = true) ∧
      ∀ k ∈ [2, 3], (c.net[k]?).map Message.call = some ⟨1, 2, 1, 0⟩) (by decide +kernel)
  obtain ⟨granted, hget, hcall⟩ := Option.map_eq_some_iff.mp (hsame 2 (by simp))
  obtain ⟨granted', hget', hcall'⟩ := Option.map_eq_some_iff.mp (hsame 3 (by simp))
  refine ⟨c, Cluster.exec_run hc, granted, List.mem_of_getElem? hget, granted',
    List.mem_of_getElem? hget', hnet, by rw [hcall], ?_⟩
  exact vote_granted_once kvStateMachine threeMembers (Cluster.exec_run hc)
    (List.mem_of_getElem? hget) (List.mem_of_getElem? hget') (hvoter 2 (by simp) granted hget)
    (hvoter 3 (by simp) granted' hget') (by rw [hcall, hcall']) (by rw [hcall, hcall'])

/-! ## The log of a leader -/

/-- Apart from what has been compacted, `n'` has the records of `n` and behind them only records of
term `T`. -/
structure RaftNode.Extended (n n' : RaftNode) (T : Nat) : Prop where
  last : n.lastLogIndexLocked ≤ n'.lastLogIndexLocked
  kept : ∀ i r, n.ordinaryAt i = some r → n'.lastSnapshotIndex < i → n'.ordinaryAt i = some r
  added : ∀ i r, n'.ordinaryAt i = some r → n.lastLogIndexLocked < i → r.term = T

theorem Represents.ordinaryAt_eq {n : RaftNode} {mem : Replica LogRecord} (h : Represents n mem)
    {i : Nat} (hsnap : n.lastSnapshotIndex < i) (hi : i ≤ mem.log.length) :
    n.ordinaryAt i = mem.log[i - 1]? := by
  unfold RaftNode.ordinaryAt
  rw [if_neg (by omega), h.logAtIndexLocked (h.snapIndex ▸ hsnap) hi]

/-- The log of a leader is the log of its term. -/
theorem SimInv.leaderLog {c : Cluster σ sm.Image} (h : SimInv cfg H c) {p : NodeId} {T : Nat}
    (hp : p ∈ cfg.ids) (hleader : c.LeaderAt p T) :
    LedBy H p T ∧ ∃ mem, Represents (c.members p).node mem ∧ mem.log = H.leaderLog T := by
  obtain ⟨hup, hrole, rfl⟩ := hleader
  obtain ⟨mem, dur, hmem⟩ := h.process hp hup
  obtain ⟨hleading, -⟩ := hmem.leader hrole
  have hrep := hmem.node.represents
  rw [hrep.term]
  exact ⟨hleading.led, mem, hrep, hleading.log⟩

/-- What a later history has added to the log of a term that was won before is of that term. -/
theorem LedBy.term_eq {members : Finset NodeId} {p : NodeId} {T i : Nat} {r : LogRecord}
    (hled : LedBy H p T) (hH : H.Valid members LogRecord.term) (hext : History.Extends H H')
    (hH' : H'.Valid members LogRecord.term) (hlen : (H.leaderLog T).length ≤ i)
    (hr : (H'.leaderLog T)[i]? = some r) : r.term = T := by
  obtain ⟨e, he, rfl, -⟩ := hled
  obtain ⟨s, hs, hterm⟩ := hH'.leaderLog e (hext.elections e he)
  have hle := (hH.log_le he).length_le
  rw [hs, List.getElem?_append_right (by omega)] at hr
  exact hterm r (List.mem_of_getElem? hr)

/-- A leader only appends: between any two times of a guarded run at which a term has its leader,
no record of the leader is lost or changed, and every record it has added is of its term. -/
theorem leader_append_only (sm : IStateMachine σ) (cfg : ClusterConfig) {c c' : Cluster σ sm.Image}
    (hc : Cluster.GuardedRun sm cfg (Cluster.init sm cfg) c) (hrun : Cluster.GuardedRun sm cfg c c')
    {p q : NodeId} {T : Nat} (hp : p ∈ cfg.ids) (hq : q ∈ cfg.ids) (hleader : c.LeaderAt p T)
    (hleader' : c'.LeaderAt q T) :
    p = q ∧ RaftNode.Extended (c.members p).node (c'.members q).node T := by
  obtain ⟨H, -, hH⟩ := SimInv.init.run hc
  obtain ⟨H', hext, hH'⟩ := hH.run hrun
  obtain ⟨hled, mem, hmem, hlog⟩ := hH.leaderLog hp hleader
  obtain ⟨hled', mem', hmem', hlog'⟩ := hH'.leaderLog hq hleader'
  have hgrown : mem.log <+: mem'.log := by
    rw [hlog, hlog']
    exact hext.leaderLog T
  refine ⟨(hled.mono hext).unique hH'.valid hled', ?_, fun i r hr hsnap => ?_, fun i r hr hi => ?_⟩
  · rw [hmem.lastLogIndexLocked, hmem'.lastLogIndexLocked]
    exact hgrown.length_le
  · rcases hmem.ordinaryAt hr with ⟨rfl, -⟩ | ⟨hpos, hget⟩
    · exact absurd hsnap (Nat.not_lt_zero _)
    · obtain ⟨hlt, hat⟩ := List.getElem?_eq_some_iff.mp hget
      have hle := hgrown.length_le
      rw [hmem'.ordinaryAt_eq hsnap (by omega), List.prefix_iff_getElem?.mp hgrown _ hlt, hat]
  · rcases hmem'.ordinaryAt hr with ⟨rfl, -⟩ | ⟨hpos, hget⟩
    · omega
    · rw [hmem.lastLogIndexLocked, hlog] at hi
      rw [hlog'] at hget
      exact hled.term_eq hH.valid hext hH'.valid (by omega) hget

/-- Member 1 leads term 1 with a record, and again behind a second one and its replication. -/
theorem leader_append_only_three :
    ∃ c c' : Cluster KvMap kvStateMachine.Image, c.LeaderAt 1 1 ∧ c'.LeaderAt 1 1 ∧
      (c.members 1).node.lastLogIndexLocked = 1 ∧ (c'.members 1).node.lastLogIndexLocked = 2 ∧
      RaftNode.Extended (c.members 1).node (c'.members 1).node 1 ∧
      ∃ r, (c.members 1).node.ordinaryAt 1 = some r ∧
        (c'.members 1).node.ordinaryAt 1 = some r := by
  have hexec : (Cluster.execGuarded kvStateMachine threeMembers
      (Cluster.init kvStateMachine threeMembers) threeSchedule).any (fun c =>
      (Cluster.execGuarded kvStateMachine threeMembers c
        ([(1, .propose (setCommand "v") true)] ++ shipSchedule 1 2 5)).any fun c' =>
      decide (c.LeaderAt 1 1 ∧ c'.LeaderAt 1 1 ∧ (c.members 1).node.lastLogIndexLocked = 1 ∧
        (c'.members 1).node.lastLogIndexLocked = 2 ∧
        (c'.members 1).node.lastSnapshotIndex = 0 ∧
        ((c.members 1).node.ordinaryAt 1).isSome)) = true := by
    decide +kernel
  simp only [Option.any_eq_true, decide_eq_true_eq] at hexec
  obtain ⟨c, hc, c', hc', hleader, hleader', hone, htwo, hsnap, hsome⟩ := hexec
  obtain ⟨-, hextended⟩ := leader_append_only kvStateMachine threeMembers
    (Cluster.execGuarded_run hc) (Cluster.execGuarded_run hc') (by decide) (by decide) hleader
    hleader'
  obtain ⟨r, hr⟩ := Option.isSome_iff_exists.mp hsome
  exact ⟨c, c', hleader, hleader', hone, htwo, hextended, r, hr,
    hextended.kept 1 r hr (by omega)⟩

end CquptRaft
