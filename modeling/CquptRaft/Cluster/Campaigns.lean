import CquptRaft.Cluster.ElectionSafety

/-!
# Campaigns that succeed

What a campaign does when its messages arrive and every `Save` succeeds: a request of a newer term
makes a member follow, a member whose log is no further gives its vote, and enough votes make the
candidate leader. No log changes on the way.
-/

namespace CquptRaft

open Voting

variable {σ : Type} {sm : IStateMachine σ} {cfg : ClusterConfig}

/-! ## The steps of an election -/

/-- The steps an election is made of, when every `Save` succeeds. -/
def Action.elects : Action → Bool
  | .startElection saved | .onVoteResponse _ saved => saved
  | .onRequestVote _ termSaved voteSaved => termSaved && voteSaved
  | .countVote _ | .onElectionWon _ => true
  | _ => false

variable (sm cfg) in
/-- The members of `Q` hold elections. -/
abbrev Cluster.ElectionRun (Q : List NodeId) : Cluster σ sm.Image → Cluster σ sm.Image → Prop :=
  Relation.ReflTransGen (Cluster.StepWhen sm cfg fun _ id action => id ∈ Q ∧ action.elects = true)

theorem Cluster.ElectionRun.run {Q : List NodeId} {c c' : Cluster σ sm.Image}
    (h : ElectionRun sm cfg Q c c') : Run sm cfg c c' := by
  refine Relation.ReflTransGen.mono (fun _ _ hstep => ?_) _ _ h
  obtain ⟨id, action, -, hstep⟩ := hstep
  exact ⟨id, action, hstep⟩

/-- An election takes none of this away from a node. -/
structure RaftNode.LogKept (n n' : RaftNode) : Prop where
  nodeId : n'.nodeId = n.nodeId
  peers : n'.peers = n.peers
  running : n'.running = n.running
  log : n'.log = n.log
  snapIndex : n'.lastSnapshotIndex = n.lastSnapshotIndex
  snapTerm : n'.lastSnapshotTerm = n.lastSnapshotTerm

namespace RaftNode

variable {n n' n'' : RaftNode}

theorem LogKept.refl (n : RaftNode) : LogKept n n := ⟨rfl, rfl, rfl, rfl, rfl, rfl⟩

theorem LogKept.trans (h : LogKept n n') (h' : LogKept n' n'') : LogKept n n'' where
  nodeId := h'.nodeId.trans h.nodeId
  peers := h'.peers.trans h.peers
  running := h'.running.trans h.running
  log := h'.log.trans h.log
  snapIndex := h'.snapIndex.trans h.snapIndex
  snapTerm := h'.snapTerm.trans h.snapTerm

theorem LogKept.lastLogIndexLocked (h : LogKept n n') :
    n'.lastLogIndexLocked = n.lastLogIndexLocked := by
  simp only [RaftNode.lastLogIndexLocked, h.log, h.snapIndex]

theorem LogKept.lastLogTermLocked (h : LogKept n n') :
    n'.lastLogTermLocked = n.lastLogTermLocked := by
  simp only [RaftNode.lastLogTermLocked, h.log, h.snapTerm]

theorem LogKept.isCandidateLogUpToDateLocked (h : LogKept n n') (index term : Nat) :
    n'.isCandidateLogUpToDateLocked index term = n.isCandidateLogUpToDateLocked index term := by
  simp only [RaftNode.isCandidateLogUpToDateLocked, h.lastLogIndexLocked, h.lastLogTermLocked]

theorem LogKept.quorum (h : LogKept n n') : n'.quorum = n.quorum := by
  simp only [RaftNode.quorum, h.peers]

theorem startElection_campaigns (hrunning : n.running = true) (hrole : n.role ≠ .leader) :
    (n.startElection true).2 = true ∧ LogKept n (n.startElection true).1 ∧
      (n.startElection true).1.role = .candidate ∧
      (n.startElection true).1.currentTerm = n.currentTerm + 1 := by
  have hgo : ¬ ((!n.running) = true ∨ n.role = .leader) := by simp [hrunning, hrole]
  rw [startElection, if_neg hgo]
  exact ⟨rfl, ⟨rfl, rfl, rfl, rfl, rfl, rfl⟩, rfl, rfl⟩

/-- A request of a newer term ends whatever role the node had, and only the logs decide about its
vote. -/
theorem onRequestVote_newer {request : VoteRequest} (h : n.currentTerm < request.term) :
    ∃ n', n.onRequestVote request true true = (n', ⟨request.term,
        n.isCandidateLogUpToDateLocked request.lastLogIndex request.lastLogTerm⟩) ∧
      LogKept n n' ∧ n'.role = .follower ∧ n'.currentTerm = request.term := by
  have hnot : ¬ request.term < n.currentTerm := by omega
  have hlog : ∀ m : RaftNode, LogKept n m →
      m.isCandidateLogUpToDateLocked request.lastLogIndex request.lastLogTerm =
        n.isCandidateLogUpToDateLocked request.lastLogIndex request.lastLogTerm :=
    fun m hm => hm.isCandidateLogUpToDateLocked _ _
  have hsame : LogKept n (n.becomeFollowerLocked request.term (-1) true).1 := by
    simp only [becomeFollowerLocked, if_pos h]
    exact ⟨rfl, rfl, rfl, rfl, rfl, rfl⟩
  have hvoted : (n.becomeFollowerLocked request.term (-1) true).1.votedFor = -1 := by
    simp only [becomeFollowerLocked, if_pos h]
    rfl
  have hrole : (n.becomeFollowerLocked request.term (-1) true).1.role = .follower := by
    simp only [becomeFollowerLocked, if_pos h]
    rfl
  have hok : (n.becomeFollowerLocked request.term (-1) true).2 = true := by
    simp only [becomeFollowerLocked, if_pos h]
  have hterm : (n.becomeFollowerLocked request.term (-1) true).1.currentTerm = request.term := by
    simp only [becomeFollowerLocked_currentTerm]
    omega
  simp only [onRequestVote, if_neg hnot, if_pos h]
  generalize n.becomeFollowerLocked request.term (-1) true = result at hsame hvoted hrole hok hterm
  obtain ⟨m, ok⟩ := result
  simp only at hsame hvoted hrole hok hterm
  subst hok
  simp only [Bool.not_true, Bool.false_eq_true, if_false, hvoted, true_or, true_and, if_true,
    hlog m hsame, hterm]
  split
  · rename_i hup
    rw [hup]
    refine ⟨_, rfl, ?_, ?_, rfl⟩
    · exact hsame.trans ⟨rfl, rfl, rfl, rfl, rfl, rfl⟩
    · exact hrole
  · rename_i hup
    refine ⟨m, ?_, hsame, hrole, hterm⟩
    rw [Bool.not_eq_true] at hup
    rw [hup]

end RaftNode

/-! ## One step -/

/-- A message that was sent can be delivered. -/
theorem Member.exists_receive {Image : Type} {net : List (Message Image)} {message : Message Image}
    (hmem : message ∈ net) :
    ∃ k, ∀ accepts : CallId → Bool, accepts message.call = true →
      Member.receive net k accepts = some message := by
  obtain ⟨k, hk⟩ := List.mem_iff_getElem?.mp hmem
  refine ⟨k, ?_⟩
  intro accepts haccepts
  exact Option.filter_eq_some_iff.mpr ⟨hk, haccepts⟩

namespace Cluster

variable {Q : List NodeId} {c c' c'' : Cluster σ sm.Image} {l q : NodeId} {T k : Nat}

/-- The processes go on, with their logs. -/
structure Kept (c c' : Cluster σ sm.Image) : Prop where
  up : ∀ q, (c'.members q).up = (c.members q).up
  node : ∀ q, RaftNode.LogKept (c.members q).node (c'.members q).node
  term : ∀ q, (c.members q).node.currentTerm ≤ (c'.members q).node.currentTerm
  snapshots : ∀ q, (c'.members q).snapshots = (c.members q).snapshots

theorem Kept.refl (c : Cluster σ sm.Image) : Kept c c :=
  ⟨fun _ => rfl, fun _ => .refl _, fun _ => le_rfl, fun _ => rfl⟩

theorem Kept.trans (h : Kept c c') (h' : Kept c' c'') : Kept c c'' where
  up q := (h'.up q).trans (h.up q)
  node q := (h.node q).trans (h'.node q)
  term q := (h.term q).trans (h'.term q)
  snapshots q := (h'.snapshots q).trans (h.snapshots q)

/-- One member moves. -/
theorem Kept.of_update {m : Member σ sm.Image} {outbox : Member.Outbox sm.Image}
    (hup : m.up = (c.members l).up) (hnode : RaftNode.LogKept (c.members l).node m.node)
    (hterm : (c.members l).node.currentTerm ≤ m.node.currentTerm)
    (hsnapshots : m.snapshots = (c.members l).snapshots) :
    Kept c ⟨Function.update c.members l m, c.net ++ outbox⟩ := by
  constructor
  · intro q
    by_cases hq : q = l
    · subst hq
      simpa using hup
    · simp [Function.update_of_ne hq]
  · intro q
    by_cases hq : q = l
    · subst hq
      simpa using hnode
    · simpa [Function.update_of_ne hq] using RaftNode.LogKept.refl _
  · intro q
    by_cases hq : q = l
    · subst hq
      simpa using hterm
    · simp [Function.update_of_ne hq]
  · intro q
    by_cases hq : q = l
    · subst hq
      simpa using hsnapshots
    · simp [Function.update_of_ne hq]

theorem step_of_act {action : Action} {m : Member σ sm.Image} {outbox : Member.Outbox sm.Image}
    (hl : l ∈ cfg.ids) (hup : (c.members l).up = true)
    (hact : act sm cfg l c.net (c.members l) action = some (m, outbox)) :
    c.step sm cfg l action = some ⟨Function.update c.members l m, c.net ++ outbox⟩ := by
  simp [step, memberStep, hl, hup, hact]

theorem ElectionRun.single {action : Action} (hl : l ∈ Q) (helects : action.elects = true)
    (hstep : c.step sm cfg l action = some c') : ElectionRun sm cfg Q c c' :=
  Relation.ReflTransGen.single ⟨l, action, ⟨hl, helects⟩, hstep⟩

/-- A member that gets a request of a newer term follows, and answers for the logs. -/
theorem follow {message : Message sm.Image} {request : VoteRequest} (hqQ : q ∈ Q)
    (hq : q ∈ cfg.ids) (hup : (c.members q).up = true) (hmem : message ∈ c.net)
    (hcallee : message.call.callee = q) (hpayload : message.payload = .voteRequest request)
    (hlt : (c.members q).node.currentTerm < request.term) :
    ∃ c', ElectionRun sm cfg Q c c' ∧ Kept c c' ∧
      (∀ p, p ≠ q → c'.members p = c.members p) ∧
      (c'.members q).node.role = .follower ∧ (c'.members q).node.currentTerm = request.term ∧
      c'.net = c.net ++ [⟨message.call, .voteResponse ⟨request.term,
        (c.members q).node.isCandidateLogUpToDateLocked request.lastLogIndex
          request.lastLogTerm⟩⟩] := by
  obtain ⟨n', hvote, hsame, hrole, hterm⟩ := RaftNode.onRequestVote_newer hlt
  obtain ⟨k, hreceive⟩ := Member.exists_receive hmem
  have hact : act sm cfg q c.net (c.members q) (.onRequestVote k true true) =
      some ({ c.members q with node := n' }, [⟨message.call, .voteResponse ⟨request.term,
        (c.members q).node.isCandidateLogUpToDateLocked request.lastLogIndex
          request.lastLogTerm⟩⟩]) := by
    have hk : Member.receive c.net k (fun call => call.callee == q) = some message :=
      hreceive _ (by simp [hcallee])
    simp [act, hk, Member.deliverRequestVote, hpayload, hvote]
  refine ⟨_, .single hqQ rfl (step_of_act hq hup hact),
    .of_update rfl hsame (hlt.le.trans hterm.ge) rfl, ?_, ?_, ?_, rfl⟩
  · intro p hp
    simp [Function.update_of_ne hp]
  · simpa using hrole
  · simpa using hterm

/-! ## Campaigns -/

/-- The campaign of member `l` in term `T` has `k` votes, and the members of `R` are asked and have
not answered. -/
structure Campaign (c : Cluster σ sm.Image) (l : NodeId) (T k : Nat) (R : List NodeId) : Prop where
  up : (c.members l).up = true
  running : (c.members l).node.running = true
  role : (c.members l).node.role = .candidate
  term : (c.members l).node.currentTerm = T
  votes : (c.members l).votes T = k
  won : (c.members l).won T = true → T ∈ (c.members l).wonCalls
  enough : (c.members l).node.quorum ≤ k → T ∈ (c.members l).wonCalls
  calls : ∀ p ∈ R, (⟨l, p, T, 0⟩ : CallId) ∈ (c.members l).voteCalls
  asked : ∀ p ∈ R, (⟨⟨l, p, T, 0⟩, .voteRequest (c.members l).node.voteRequest⟩ :
    Message sm.Image) ∈ c.net

theorem Campaign.start (hlQ : l ∈ Q) (hl : l ∈ cfg.ids) (hid : (c.members l).node.nodeId = l)
    (hup : (c.members l).up = true) (hrunning : (c.members l).node.running = true)
    (hrole : (c.members l).node.role ≠ .leader) :
    ∃ c', ElectionRun sm cfg Q c c' ∧ Kept c c' ∧ (∀ p, p ≠ l → c'.members p = c.members p) ∧
      c'.Campaign l ((c.members l).node.currentTerm + 1) 1 (c.members l).node.peers := by
  obtain ⟨hflag, hsame, hcandidate, hterm⟩ :=
    RaftNode.startElection_campaigns hrunning hrole
  obtain ⟨node, flag, hstart⟩ : ∃ node flag, (c.members l).node.startElection true = (node, flag) :=
    ⟨_, _, rfl⟩
  rw [hstart] at hflag hsame hcandidate hterm
  simp only at hflag hsame hcandidate hterm
  subst hflag
  have hact : act sm cfg l c.net (c.members l) (.startElection true) =
      some ((c.members l).startElection true) := rfl
  have hself : node.nodeId = l := hsame.nodeId.trans hid
  have hgoes := hsame.running.trans hrunning
  have hnewer : (c.members l).node.currentTerm ≤ node.currentTerm := by omega
  by_cases hquorum : node.quorum ≤ 1
  · have hpeers : (c.members l).node.peers = [] := by
      rw [hsame.quorum, RaftNode.quorum] at hquorum
      exact List.length_eq_zero_iff.mp (by omega)
    have hm : (c.members l).startElection true = ({ c.members l with
        node
        votes := Function.update (c.members l).votes node.currentTerm 1
        won := Function.update (c.members l).won node.currentTerm false
        wonCalls := node.currentTerm :: (c.members l).wonCalls }, []) := by
      simp [Member.startElection, hstart, hquorum]
    rw [hm] at hact
    refine ⟨_, .single hlQ rfl (step_of_act hl hup hact), .of_update rfl hsame hnewer rfl, ?_,
      ?_⟩
    · intro p hp
      simp [Function.update_of_ne hp]
    · rw [hpeers]
      constructor <;> simp [hup, hgoes, hcandidate, hterm]
  · have hm : (c.members l).startElection true = ({ c.members l with
        node
        votes := Function.update (c.members l).votes node.currentTerm 1
        won := Function.update (c.members l).won node.currentTerm false
        voteCalls := (c.members l).voteCalls ++
          node.peers.map fun peer => (⟨node.nodeId, peer, node.currentTerm, 0⟩ : CallId) },
        (node.peers.map fun peer => (⟨node.nodeId, peer, node.currentTerm, 0⟩ : CallId)).map
          fun call => ⟨call, .voteRequest node.voteRequest⟩) := by
      simp [Member.startElection, hstart, hquorum]
    rw [hm] at hact
    refine ⟨_, .single hlQ rfl (step_of_act hl hup hact), .of_update rfl hsame hnewer rfl, ?_,
      ?_⟩
    · intro p hp
      simp [Function.update_of_ne hp]
    · have hquorum' : 1 < node.quorum := not_le.mp hquorum
      constructor <;> simp [hup, hgoes, hcandidate, hterm, hself, hsame.peers, hquorum']
      all_goals
        intro p hp
        exact .inr hp

/-- A member that does not lead can campaign in a term above any bound. -/
theorem Campaign.above (hlQ : l ∈ Q) (hl : l ∈ cfg.ids) (hid : (c.members l).node.nodeId = l)
    (hup : (c.members l).up = true) (hrunning : (c.members l).node.running = true)
    (hrole : (c.members l).node.role ≠ .leader) (bound : Nat) :
    ∃ c' T, ElectionRun sm cfg Q c c' ∧ Kept c c' ∧ (∀ p, p ≠ l → c'.members p = c.members p) ∧
      bound < T ∧ c'.Campaign l T 1 (c.members l).node.peers := by
  induction bound with
  | zero =>
    obtain ⟨c', hrun, hkept, hothers, hcampaign⟩ := start hlQ hl hid hup hrunning hrole
    exact ⟨c', _, hrun, hkept, hothers, Nat.succ_pos _, hcampaign⟩
  | succ bound ih =>
    obtain ⟨c', T, hrun, hkept, hothers, hT, hcampaign⟩ := ih
    have hself : (c'.members l).node.nodeId = l := (hkept.node l).nodeId.trans hid
    have hnot : (c'.members l).node.role ≠ .leader := by simp [hcampaign.role]
    obtain ⟨c'', hrun', hkept', hothers', hcampaign'⟩ :=
      start hlQ hl hself hcampaign.up hcampaign.running hnot
    rw [(hkept.node l).peers, hcampaign.term] at hcampaign'
    refine ⟨c'', T + 1, hrun.trans hrun', hkept.trans hkept', ?_, by omega, hcampaign'⟩
    intro p hp
    exact (hothers' p hp).trans (hothers p hp)

end Cluster

/-- What counting a vote does. -/
structure Member.Counts {Image : Type} (m m' : Member σ Image) (T : Nat) : Prop where
  up : m'.up = m.up
  node : m'.node = m.node
  voteCalls : m'.voteCalls = m.voteCalls
  snapshots : m'.snapshots = m.snapshots
  votes : m'.votes T = m.votes T + 1
  won : m'.won T = true → T ∈ m'.wonCalls
  enough : m.node.quorum ≤ m.votes T + 1 → T ∈ m'.wonCalls

theorem Member.countVote_counts {Image : Type} {m : Member σ Image} {T : Nat}
    (hwon : m.won T = true → T ∈ m.wonCalls) : Member.Counts m (m.countVote T) T := by
  unfold Member.countVote
  by_cases henough : m.node.quorum ≤ m.votes T + 1 ∧ m.won T = false
  · simp only [if_pos henough]
    constructor <;> simp
  · simp only [if_neg henough]
    have hall : m.node.quorum ≤ m.votes T + 1 → T ∈ m.wonCalls := by
      intro hquorum
      apply hwon
      by_contra hnot
      exact henough ⟨hquorum, by simpa using hnot⟩
    exact ⟨rfl, rfl, rfl, rfl, by simp, hwon, hall⟩

namespace Cluster

variable {Q : List NodeId} {c c' c'' : Cluster σ sm.Image} {l q : NodeId} {T k : Nat}

/-- A granted vote that comes back is counted. -/
theorem Campaign.count {p : NodeId} {R : List NodeId} (h : c.Campaign l T k (p :: R))
    (hp : p ∉ R) (hlQ : l ∈ Q) (hl : l ∈ cfg.ids)
    (hmem : (⟨⟨l, p, T, 0⟩, .voteResponse ⟨T, true⟩⟩ : Message sm.Image) ∈ c.net) :
    ∃ c', ElectionRun sm cfg Q c c' ∧ Kept c c' ∧ (∀ q, q ≠ l → c'.members q = c.members q) ∧
      c'.Campaign l T (k + 1) R := by
  obtain ⟨j, hreceive⟩ := Member.exists_receive hmem
  have hcall := h.calls p List.mem_cons_self
  have hvote : (c.members l).node.onVoteResponse T ⟨T, true⟩ true = ((c.members l).node, true) := by
    simp [RaftNode.onVoteResponse, h.running, h.role, h.term]
  have hj : Member.receive c.net j (fun call => (c.members l).voteCalls.contains call) =
      some ⟨⟨l, p, T, 0⟩, .voteResponse ⟨T, true⟩⟩ := hreceive _ (by simpa using hcall)
  have hact : act sm cfg l c.net (c.members l) (.onVoteResponse j true) =
      some ({ c.members l with
        voteCalls := (c.members l).voteCalls.erase ⟨l, p, T, 0⟩
        granted := T :: (c.members l).granted }, []) := by
    simp only [act, hj, Option.bind_eq_bind, Option.bind_some, Member.deliverVoteResponse,
      Member.onVoteResponse, hvote, if_true]
  have hfirst := step_of_act hl h.up hact
  generalize hm : { c.members l with
    voteCalls := (c.members l).voteCalls.erase ⟨l, p, T, 0⟩
    granted := T :: (c.members l).granted } = m at hfirst
  have hnode : m.node = (c.members l).node := by rw [← hm]
  have hmup : m.up = (c.members l).up := by rw [← hm]
  have hmsnapshots : m.snapshots = (c.members l).snapshots := by rw [← hm]
  have hcalls : m.voteCalls = (c.members l).voteCalls.erase ⟨l, p, T, 0⟩ := by rw [← hm]
  have hwon : m.won T = true → T ∈ m.wonCalls := by
    rw [← hm]
    exact h.won
  have hvotes : m.votes T = k := by
    rw [← hm]
    exact h.votes
  have hcount := Member.countVote_counts hwon
  have hact' : act sm cfg l (c.net ++ []) m (.countVote T) = some (m.countVote T, []) := by
    have hT : T ∈ m.granted := by simp [← hm]
    simp [act, hT]
  have hsecond := step_of_act (c := ⟨Function.update c.members l m, c.net ++ []⟩) hl
    (by simpa [hmup] using h.up) (by simpa using hact')
  have hrun := ElectionRun.single hlQ rfl hfirst
  refine ⟨_, hrun.trans (ElectionRun.single hlQ rfl hsecond), ?_, ?_, ?_⟩
  · refine .trans (.of_update hmup ?_ ?_ hmsnapshots) (.of_update ?_ ?_ ?_ ?_)
    · rw [hnode]
      exact .refl _
    · rw [hnode]
    · simp [hcount.up]
    · simpa [hcount.node] using RaftNode.LogKept.refl _
    · simp [hcount.node]
    · simp [hcount.snapshots]
  · intro q hq
    simp [Function.update_of_ne hq]
  · have hnode' : (m.countVote T).node = (c.members l).node := hcount.node.trans hnode
    constructor
    · simpa [hcount.up, hmup] using h.up
    · simpa [hnode'] using h.running
    · simpa [hnode'] using h.role
    · simpa [hnode'] using h.term
    · simp [hcount.votes, hvotes]
    · simpa using hcount.won
    · simpa [hnode', hnode, hvotes] using hcount.enough
    · intro q hq
      have hne : (⟨l, q, T, 0⟩ : CallId) ≠ ⟨l, p, T, 0⟩ := by
        rintro heq
        cases heq
        exact hp hq
      have hq' := h.calls q (List.mem_cons_of_mem p hq)
      simpa [hcount.voteCalls, hcalls] using (List.mem_erase_of_ne hne).mpr hq'
    · intro q hq
      simpa [hnode'] using h.asked q (List.mem_cons_of_mem p hq)

/-- A step of another member leaves a campaign alone. -/
theorem Campaign.of_other {R : List NodeId} (h : c.Campaign l T k R)
    (hl : c'.members l = c.members l) (hnet : ∀ message ∈ c.net, message ∈ c'.net) :
    c'.Campaign l T k R := by
  obtain ⟨hup, hrunning, hrole, hterm, hvotes, hwon, henough, hcalls, hasked⟩ := h
  rw [← hl] at hup hrunning hrole hterm hvotes hwon henough hcalls hasked
  exact ⟨hup, hrunning, hrole, hterm, hvotes, hwon, henough, hcalls,
    fun p hp => hnet _ (hasked p hp)⟩

/-- A member that is behind the term, and no further in its log, gives its vote. -/
theorem Campaign.ask {p : NodeId} {R : List NodeId} (h : c.Campaign l T k (p :: R))
    (hp : p ∉ R) (hlp : l ≠ p) (hlQ : l ∈ Q) (hpQ : p ∈ Q) (hids : ∀ q ∈ Q, q ∈ cfg.ids)
    (hup : (c.members p).up = true) (hlt : (c.members p).node.currentTerm < T)
    (hlog : (c.members p).node.isCandidateLogUpToDateLocked
      (c.members l).node.lastLogIndexLocked (c.members l).node.lastLogTermLocked = true) :
    ∃ c', ElectionRun sm cfg Q c c' ∧ Kept c c' ∧ c'.Campaign l T (k + 1) R ∧
      (c'.members p).node.currentTerm = T ∧
      ∀ q, q ≠ l → q ≠ p → c'.members q = c.members q := by
  obtain ⟨c₁, hrun₁, hkept₁, hothers₁, -, hterm₁, hnet₁⟩ := follow hpQ (hids p hpQ) hup
    (h.asked p List.mem_cons_self) rfl rfl (by simpa [RaftNode.voteRequest, h.term] using hlt)
  have hcampaign₁ : c₁.Campaign l T k (p :: R) := by
    refine h.of_other (hothers₁ l hlp) ?_
    intro message hmem
    rw [hnet₁]
    exact List.mem_append_left _ hmem
  have hanswer : (⟨⟨l, p, T, 0⟩, .voteResponse ⟨T, true⟩⟩ : Message sm.Image) ∈ c₁.net := by
    rw [hnet₁]
    simp [RaftNode.voteRequest, h.term, hlog]
  obtain ⟨c₂, hrun₂, hkept₂, hothers₂, hcampaign₂⟩ :=
    hcampaign₁.count hp hlQ (hids l hlQ) hanswer
  refine ⟨c₂, hrun₁.trans hrun₂, hkept₁.trans hkept₂, hcampaign₂, ?_, ?_⟩
  · rw [hothers₂ p hlp.symm, hterm₁]
    exact h.term
  · intro q hql hqp
    exact (hothers₂ q hql).trans (hothers₁ q hqp)

/-- The members that were asked vote one after the other. -/
theorem Campaign.collect {R : List NodeId} (h : c.Campaign l T k R) (hR : R.Nodup) (hlR : l ∉ R)
    (hRQ : ∀ p ∈ R, p ∈ Q) (hids : ∀ p ∈ Q, p ∈ cfg.ids) (hlQ : l ∈ Q)
    (hup : ∀ p ∈ R, (c.members p).up = true)
    (hlt : ∀ p ∈ R, (c.members p).node.currentTerm < T)
    (hlog : ∀ p ∈ R, (c.members p).node.isCandidateLogUpToDateLocked
      (c.members l).node.lastLogIndexLocked (c.members l).node.lastLogTermLocked = true) :
    ∃ c', ElectionRun sm cfg Q c c' ∧ Kept c c' ∧ c'.Campaign l T (k + R.length) [] ∧
      (∀ p ∈ R, (c'.members p).node.currentTerm = T) ∧
      ∀ p, p ≠ l → p ∉ R → c'.members p = c.members p := by
  induction R generalizing c k with
  | nil => exact ⟨c, .refl, .refl c, h, by simp, by simp⟩
  | cons p R ih =>
    obtain ⟨hp, hR⟩ := List.nodup_cons.mp hR
    obtain ⟨hlp, hlR⟩ := List.ne_and_not_mem_of_not_mem_cons hlR
    obtain ⟨c₁, hrun₁, hkept₁, hcampaign₁, hterm₁, hothers₁⟩ := h.ask hp hlp hlQ
      (hRQ p List.mem_cons_self) hids (hup p List.mem_cons_self) (hlt p List.mem_cons_self)
      (hlog p List.mem_cons_self)
    have hsame : ∀ q ∈ R, c₁.members q = c.members q := by
      intro q hq
      exact hothers₁ q (fun heq => hlR (heq ▸ hq)) (fun heq => hp (heq ▸ hq))
    have hlast := (hkept₁.node l).lastLogIndexLocked
    have hlastTerm := (hkept₁.node l).lastLogTermLocked
    obtain ⟨c₂, hrun₂, hkept₂, hcampaign₂, hterm₂, hothers₂⟩ := ih hcampaign₁ hR hlR
      (fun q hq => hRQ q (List.mem_cons_of_mem p hq))
      (fun q hq => by rw [hsame q hq]; exact hup q (List.mem_cons_of_mem p hq))
      (fun q hq => by rw [hsame q hq]; exact hlt q (List.mem_cons_of_mem p hq))
      (fun q hq => by
        rw [hsame q hq, hlast, hlastTerm]
        exact hlog q (List.mem_cons_of_mem p hq))
    rw [Nat.add_assoc, Nat.add_comm 1] at hcampaign₂
    refine ⟨c₂, hrun₁.trans hrun₂, hkept₁.trans hkept₂, hcampaign₂, ?_, ?_⟩
    · intro q hq
      rcases List.mem_cons.mp hq with rfl | hq
      · rw [hothers₂ q hlp.symm hp, hterm₁]
      · exact hterm₂ q hq
    · intro q hql hqR
      obtain ⟨hqp, hqR⟩ := List.ne_and_not_mem_of_not_mem_cons hqR
      exact (hothers₂ q hql hqR).trans (hothers₁ q hql hqp)

/-- Member `l` has just become leader of term `T`: its no-op is still to come, and it would send its
peers what follows its log. -/
structure NewLeader (c : Cluster σ sm.Image) (l : NodeId) (T : Nat) : Prop where
  leads : c.LeaderAt l T
  noOp : 0 < (c.members l).noOpCalls
  next : ∀ p ∈ (c.members l).node.peers,
    (c.members l).node.nextIndex p = (c.members l).node.lastLogIndexLocked + 1

/-- Enough votes make the candidate leader. -/
theorem Campaign.win (h : c.Campaign l T k []) (hquorum : (c.members l).node.quorum ≤ k)
    (hlQ : l ∈ Q) (hl : l ∈ cfg.ids) :
    ∃ c', ElectionRun sm cfg Q c c' ∧ Kept c c' ∧ c'.NewLeader l T ∧
      ∀ p, p ≠ l → c'.members p = c.members p := by
  have hwon := h.enough hquorum
  have hnode : (c.members l).node.onElectionWon T =
      ((c.members l).node.becomeLeaderLocked, true) := by
    simp [RaftNode.onElectionWon, h.running, h.role, h.term]
  have hact : act sm cfg l c.net (c.members l) (.onElectionWon T) =
      some ((c.members l).onElectionWon T, []) := by simp [act, hwon]
  have hm : (c.members l).onElectionWon T = { c.members l with
      node := (c.members l).node.becomeLeaderLocked
      wonCalls := (c.members l).wonCalls.erase T
      noOpCalls := (c.members l).noOpCalls + 1 } := by simp [Member.onElectionWon, hnode]
  rw [hm] at hact
  refine ⟨_, .single hlQ rfl (step_of_act hl h.up hact), .of_update rfl ?_ ?_ rfl, ⟨?_, ?_, ?_⟩, ?_⟩
  · exact ⟨rfl, rfl, rfl, rfl, rfl, rfl⟩
  · exact le_rfl
  · refine ⟨by simpa using h.up, by simp [RaftNode.becomeLeaderLocked], ?_⟩
    simpa [RaftNode.becomeLeaderLocked, RaftNode.cancelElectionTimerLocked] using h.term
  · simp
  · intro p hp
    simp only [Function.update_self] at hp ⊢
    exact if_pos (.inr hp)
  · intro p hp
    simp [Function.update_of_ne hp]

end Cluster

end CquptRaft
