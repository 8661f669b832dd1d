import CquptRaft.Cluster.SimulationElections

/-!
# Replication keeps the simulation

A leader's append extends its log in the history and is acknowledged by the leader itself; a
successful response is an acknowledgement of the follower. What a majority has acknowledged
is chosen, so the leader may commit it.
-/

namespace CquptRaft

open Replication Voting

variable {σ : Type} {cfg : ClusterConfig} {H H' : History NodeId LogRecord}
  {members : Finset NodeId} {q : NodeId} {Image : Type} {m m' : Member σ Image}
  {net : List (Message Image)} {outbox : Member.Outbox Image} {mem dur : Replica LogRecord}

/-! ## Acknowledgements -/

theorem NodeInv.acknowledge {n : RaftNode} (h : NodeInv H members q n mem dur)
    (hH : H.Valid members LogRecord.term) {T k : Nat} (hT : T ≤ mem.term)
    (hle : H.written T k <+: mem.log) :
    NodeInv (H.acknowledge LogRecord.term q T k dur) members q n mem dur := by
  refine h.mono hH History.extends_acknowledge ?_
  rintro T' i (hold | ⟨⟨-, rfl⟩, ⟨-, hik, -⟩, hdur⟩)
  · exact .inl hold
  · exact .inr ⟨⟨(take_le_take hik).trans hle, .inl hT⟩, hdur⟩

theorem untouched_acknowledge {T k : Nat} {p : NodeId} (hne : p ≠ q) :
    Untouched H (H.acknowledge LogRecord.term q T k dur) p := by
  refine ⟨?_, fun _ h => h, fun _ _ => rfl⟩
  rintro T' i (hold | ⟨⟨rfl, -⟩, -⟩)
  · exact hold
  · exact absurd rfl hne

/-- Every entry of the term up to `k` is acknowledged now, or chosen. -/
theorem NodeInv.matched {n : RaftNode} (h : NodeInv H members q n mem dur)
    (hH : H.Valid members LogRecord.term) {T k : Nat} (hT : mem.term = T)
    (hk : k ≤ (H.leaderLog T).length) (hle : H.written T k <+: mem.log) :
    Matched (H.acknowledge LogRecord.term q T k dur) members T q k :=
  ⟨hk, fun _ h0 hik hi => (h.backed.acknowledged hT hle hk h0 hik hi).imp id
    (History.extends_acknowledge.chosenBy hH)⟩

/-! ## Local appends -/

/-- The history behind an append of the leader `q` that its disk holds. -/
def written (H : History NodeId LogRecord) (q : NodeId) (mem : Replica LogRecord)
    (record : LogRecord) : History NodeId LogRecord :=
  (H.append mem.term record).acknowledge LogRecord.term q mem.term (mem.log.length + 1)
    { mem with log := mem.log ++ [record] }

theorem Before.appendLocalLogUnlocked (h : Before cfg H q m net) (hup : m.up = true)
    (hrole : m.node.role = .leader) (commandData : Bytes) (saved : Bool) :
    ∃ H', History.Extends H H' ∧ H'.Valid cfg.members LogRecord.term ∧
      (∀ T, Indexed (H'.leaderLog T)) ∧ H'.votes = H.votes ∧ H'.ballots = H.ballots ∧
      (∀ p, p ≠ q → Untouched H H' p) ∧
      ∃ mem dur, ProcessInv H' cfg.members q
        { m with node := (m.node.appendLocalLogUnlocked commandData saved).1 } mem dur := by
  obtain ⟨mem, dur, hp⟩ := h.member.process hup
  have hself : ∀ peer ∈ m.node.peers, peer ≠ m.node.nodeId := by
    intro peer hpeer
    rw [h.votes.peers] at hpeer
    rw [h.votes.nodeId]
    simpa using (List.mem_filter.mp hpeer).2
  cases saved with
  | false =>
    refine ⟨H, .refl H, h.valid, h.indexed, rfl, rfl, fun p _ => .refl H p, mem, dur, ?_⟩
    refine hp.keepRole (hp.node.congr rfl rfl rfl rfl rfl rfl rfl) rfl rfl (fun peer hpeer => ?_)
      rfl rfl rfl id
    simp only [RaftNode.appendLocalLogUnlocked, Bool.false_eq_true, if_false]
    exact Function.update_of_ne (hself peer hpeer) _ _
  | true =>
    obtain ⟨⟨hled, hlog, hacked, hmatched⟩, hclean⟩ := hp.leader hrole
    have hnode := hp.node.appendLocalLogUnlocked h.valid hled.elected hlog commandData
    have hvalid := h.valid.append (x := nextRecord mem commandData) hled.elected rfl
    have hext : History.Extends H (CquptRaft.written H q mem (nextRecord mem commandData)) :=
      History.extends_append.trans History.extends_acknowledge
    have hvotes : ∀ T c, H.votes q T c → T ≤ mem.term := fun T c hv =>
      (h.vote_le hup hv).trans hp.node.represents.term.le
    have hleader : (H.append mem.term (nextRecord mem commandData)).leaderLog mem.term =
        mem.log ++ [nextRecord mem commandData] := by
      simp [History.append, ← hlog]
    have hle : (H.append mem.term (nextRecord mem commandData)).written mem.term
        (mem.log.length + 1) <+: mem.log ++ [nextRecord mem commandData] := by
      rw [History.written, hleader]
      exact take_le _ _
    have hev : Evolves mem { mem with log := mem.log ++ [nextRecord mem commandData] } := by
      refine ⟨le_rfl, le_rfl, fun i hi => ?_⟩
      exact List.take_append_of_le_length (hi.trans hp.node.memSound.commit_le)
    have hrole' : (m.node.appendLocalLogUnlocked commandData true).1.role = m.node.role := by
      simp [RaftNode.appendLocalLogUnlocked]
    refine ⟨_, hext, hvalid.acknowledge hvotes, fun T => ?_, rfl, rfl, fun p hne => ?_, _, _,
      (hp.toThreadsInv.mono h.valid hext).process (hnode.acknowledge hvalid le_rfl hle) hev
        (.of_eq hrole' rfl id) (fun hc => ?_) fun _ => ⟨⟨hled.mono hext, hleader.symm, ?_, ?_⟩,
          ?_, (hclean.mono h.valid hext).snapshots⟩⟩
    · by_cases hT : T = mem.term
      · rw [hT]
        exact hleader ▸ hp.node.represents.stores.indexed.append rfl
      · simp only [CquptRaft.written, History.acknowledge, History.withAcks, History.append,
          Function.update_of_ne hT]
        exact h.indexed T
    · have huntouched : Untouched (H.append mem.term (nextRecord mem commandData))
          (CquptRaft.written H q mem (nextRecord mem commandData)) p := untouched_acknowledge hne
      refine ⟨huntouched.acks, huntouched.led, fun T hled' => ?_⟩
      have hT : T ≠ mem.term := by
        rintro rfl
        exact hne (hled'.unique h.valid hled)
      simp only [CquptRaft.written, History.acknowledge, History.withAcks, History.append,
        Function.update_of_ne hT]
    · rw [hrole', hrole] at hc
      cases hc
    · have hk := hnode.matched hvalid rfl (k := mem.log.length + 1) (by simp [hleader]) hle
      simpa [CquptRaft.written] using hk
    · intro peer hpeer
      have hpeer' : peer ∈ m.node.peers := by
        simpa [RaftNode.appendLocalLogUnlocked] using hpeer
      have heq : (m.node.appendLocalLogUnlocked commandData true).1.matchIndex peer =
          m.node.matchIndex peer := by
        simp [RaftNode.appendLocalLogUnlocked, Function.update_of_ne (hself peer hpeer')]
      rw [heq]
      exact (hmatched peer hpeer').mono h.valid hext
    · simp only [List.take_append_of_le_length hp.node.memSound.commit_le]
      exact (hclean.mono h.valid hext).commit

theorem Before.appendProposal (h : Before cfg H q m net) (hup : m.up = true)
    (hrole : m.node.role = .leader) (commandData : Bytes) (saved : Bool)
    (hm' : m'.node = (m.node.appendLocalLogUnlocked commandData saved).1)
    (hsame : m'.snapshots = m.snapshots ∧ m'.installs = m.installs ∧ m'.apply = m.apply ∧
      m'.worker = m.worker ∧ m'.replicators = m.replicators) :
    ∃ H', MemberStep cfg.members H q m' [] H' := by
  obtain ⟨H', hext, hvalid, hindexed, hvotes, hballots, hothers, mem, dur, hp⟩ :=
    h.appendLocalLogUnlocked hup hrole commandData saved
  obtain ⟨hsnapshots, hinstalls, happly, hworker, hreplicators⟩ := hsame
  have hkept := m.node.appendLocalLogUnlocked_votesKept commandData saved
  refine ⟨H', hext, hvalid, hindexed, ?_, ?_, hothers,
    .of_process ?_ (hp.same hm' hsnapshots hinstalls happly hworker hreplicators), by simp⟩
  · rw [hballots, hvotes]
    exact h.selfVoted
  · rw [hvotes, h.record_eq hup (hm'.symm ▸ hkept)]
  · rw [hsnapshots]
    exact h.member.snapshots.mono h.valid hext

theorem Before.proposeNoOp (h : Before cfg H q m net) (hup : m.up = true) (saved : Bool) :
    ∃ H', MemberStep cfg.members H q (m.proposeNoOp saved) [] H' := by
  obtain ⟨mem, dur, hp⟩ := h.member.process hup
  unfold Member.proposeNoOp
  simp only
  split
  · rename_i hleader
    refine h.appendProposal hup hleader.2 kInternalNoOpCommand saved ?_ ?_ <;>
      unfold Member.appendProposal <;> simp only <;> split <;> simp
  · exact ⟨H, h.quiet hup .refl h.member.snapshots (hp.same rfl rfl rfl rfl rfl rfl) (by simp)⟩

theorem Before.propose (h : Before cfg H q m net) (hup : m.up = true) (limits : KvRequestLimits)
    (command : Command) (saved : Bool) :
    ∃ H', MemberStep cfg.members H q (m.propose limits command saved) [] H' := by
  obtain ⟨mem, dur, hp⟩ := h.member.process hup
  unfold Member.propose
  split
  · rename_i hleader
    refine h.appendProposal hup hleader.2.1 command.serialize saved ?_ ?_ <;>
      unfold Member.appendProposal <;> simp only <;> split <;> simp
  · exact ⟨H, h.quiet hup .refl h.member.snapshots hp (by simp)⟩

/-! ## The commit index of the leader -/

/-- The members that the leader counts for an index are a majority. -/
theorem ClusterConfig.isQuorum_replicated (hq : q ∈ cfg.ids) {n : RaftNode}
    (hpeers : n.peers = cfg.peers q) {i : Nat} (hcount : n.quorum ≤ n.replicatedCount i) :
    IsQuorum cfg.members
      (insert q (n.peers.filter fun peer => decide (i ≤ n.matchIndex peer)).toFinset) := by
  have hnodup : (n.peers.filter fun peer => decide (i ≤ n.matchIndex peer)).Nodup := by
    rw [hpeers]
    exact (cfg.nodup.filter _).filter _
  refine ⟨fun p hp => ?_, ?_⟩
  · rw [ClusterConfig.members, List.mem_toFinset]
    rcases Finset.mem_insert.mp hp with rfl | hp
    · exact hq
    · have hmem := (List.mem_filter.mp (List.mem_toFinset.mp hp)).1
      rw [hpeers] at hmem
      exact (List.mem_filter.mp hmem).1
  · rw [Finset.card_insert_of_notMem, List.toFinset_card_of_nodup hnodup,
      ← List.countP_eq_length_filter, ← cfg.quorum_eq hq hpeers]
    · unfold RaftNode.replicatedCount at hcount
      omega
    · intro hmem
      have hmem := (List.mem_filter.mp (List.mem_toFinset.mp hmem)).1
      rw [hpeers] at hmem
      simpa using (List.mem_filter.mp hmem).2

/-- An entry of the leader's own term that a majority has is chosen. -/
theorem Leading.chosenBy {n : RaftNode} (h : Leading H cfg.members q n mem) (hq : q ∈ cfg.ids)
    (hpeers : n.peers = cfg.peers q) {i : Nat} (h0 : 0 < i) (hlen : i ≤ mem.log.length)
    (hterm : termAt LogRecord.term mem.log i = mem.term)
    (hcount : n.quorum ≤ n.replicatedCount i) :
    H.ChosenBy cfg.members mem.term (mem.log.take i) := by
  have hquorum := cfg.isQuorum_replicated hq hpeers hcount
  have hwritten : mem.log.take i = H.written mem.term i := by rw [History.written, ← h.log]
  rw [hwritten]
  rw [h.log] at hterm
  by_contra hnot
  refine hnot (.inr ⟨mem.term, i, le_rfl, ⟨_, hquorum, fun p hp => ?_⟩, List.prefix_refl _⟩)
  rcases Finset.mem_insert.mp hp with rfl | hp
  · exact (h.acked.2 i h0 hlen hterm).resolve_right hnot
  · obtain ⟨hpeer, hmatch⟩ := List.mem_filter.mp (List.mem_toFinset.mp hp)
    exact ((h.matched p hpeer).2 i h0 (of_decide_eq_true hmatch) hterm).resolve_right hnot

theorem ProcessInv.advanceCommitIndexUnlocked (h : ProcessInv H cfg.members q m mem dur)
    (hq : q ∈ cfg.ids) (hpeers : m.node.peers = cfg.peers q) (saved : Bool) :
    ∃ mem' dur', ProcessInv H cfg.members q
      { m with node := m.node.advanceCommitIndexUnlocked saved } mem' dur' := by
  rcases m.node.advanceCommitIndexUnlocked_cases saved with heq | ⟨hrole, i, heq, hlt, hhas, hterm,
    hcount⟩
  · rw [heq]
    exact ⟨mem, dur, h⟩
  · obtain ⟨hlead, hclean⟩ := h.leader hrole
    have hrange := (h.node.represents.hasLogAtIndexLocked i).mp hhas
    rw [h.node.represents.termAtIndexLocked hrange.1 hrange.2, h.node.represents.term] at hterm
    rw [h.node.represents.commit] at hlt
    have hch := hlead.chosenBy hq hpeers (by omega) hrange.2 hterm hcount
    have hinv := (h.node.commitTo hlt.le hrange.2 hch).persist saved
    rw [heq]
    refine ⟨_, _, h.process hinv (.commitTo hlt.le) (.of_eq (by simp) rfl
      (.of_eq (by simp) (by simp))) (fun hc => ?_) fun _ =>
        ⟨⟨hlead.led, hlead.log, hlead.acked, ?_⟩, hch, hclean.snapshots⟩⟩
    · simp [hrole] at hc
    · simpa using hlead.matched

theorem RaftNode.applyPick_frame (n : RaftNode) :
    n.applyPick.1 = { n with lastApplied := max n.lastApplied n.lastSnapshotIndex } := by
  unfold RaftNode.applyPick
  simp only
  split
  · rfl
  · split <;> rfl

theorem ProcessInv.applyPick (h : ProcessInv H members q m mem dur) :
    ProcessInv H members q { m with node := m.node.applyPick.1 } mem dur := by
  refine h.keepRole h.node.applyPick ?_ ?_ (fun peer _ => ?_) rfl rfl rfl fun hle => ?_ <;>
    rw [m.node.applyPick_frame]
  exact le_max_right _ _

theorem Before.proposal (h : Before cfg H q m net) (hup : m.up = true) {k : Nat}
    {step : ProposeStep} (hstep : m.proposal k step = some m') :
    MemberStep cfg.members H q m' [] H := by
  obtain ⟨mem, dur, hp⟩ := h.member.process hup
  unfold Member.proposal at hstep
  split at hstep
  · cases hstep
  · obtain ⟨⟨node, phase⟩, hnode, rfl⟩ := Option.map_eq_some_iff.mp hstep
    have hkept := Member.proposeStep_votesKept hnode
    have hp' : ∃ mem' dur', ProcessInv H cfg.members q { m with node } mem' dur' := by
      rcases Member.proposeStep_cases hnode with rfl | ⟨saved, rfl⟩ | rfl
      · exact ⟨mem, dur, hp⟩
      · exact hp.advanceCommitIndexUnlocked h.mem_ids h.votes.peers saved
      · exact ⟨mem, dur, hp.applyPick⟩
    obtain ⟨mem', dur', hp'⟩ := hp'
    exact h.quiet hup hkept h.member.snapshots (hp'.same rfl rfl rfl rfl rfl rfl) (by simp)

/-! ## Replicators -/

theorem ProcessInv.setReplicator (h : ProcessInv H members q m mem dur) {peer : NodeId}
    {call : ReplicatorCall} (hcall : ReplicatorInv H members q m.node mem peer call) :
    ProcessInv H members q (m.setReplicator peer call) mem dur := by
  refine h.congr rfl (fun _ hs => .inl hs) h.installs h.apply h.worker fun p => ?_
  simp only [Member.setReplicator]
  by_cases hp : p = peer
  · subst hp
    rw [Function.update_self]
    exact hcall
  · rw [Function.update_of_ne hp]
    exact h.replicators p

theorem Before.setReplicator (h : Before cfg H q m net) (hup : m.up = true) (peer : NodeId)
    {call : ReplicatorCall}
    (hcall : call = .idle ∨ call = .appendReturned ∨ call = .installReturned) :
    MemberStep cfg.members H q (m.setReplicator peer call) [] H := by
  obtain ⟨mem, dur, hp⟩ := h.member.process hup
  refine h.quiet hup .refl h.member.snapshots (hp.setReplicator ?_) (by simp)
  rcases hcall with rfl | rfl | rfl <;> trivial

theorem ProcessInv.buildAppendEntriesRequest (h : ProcessInv H members q m mem dur)
    (peer : NodeId) (leaderTerm : Nat) :
    ProcessInv H members q
      { m with node := (m.node.buildAppendEntriesRequest peer leaderTerm).1 } mem dur := by
  obtain ⟨next, hnext⟩ := m.node.buildAppendEntriesRequest_frame peer leaderTerm
  rw [hnext]
  exact h.keepRole (h.node.congr rfl rfl rfl rfl rfl rfl rfl) rfl rfl
    (fun _ _ => rfl) rfl rfl rfl id

/-- Only a running leader builds a request. -/
theorem RaftNode.buildAppendEntriesRequest_leader (n : RaftNode) (peer : NodeId) (leaderTerm : Nat)
    (h : (n.buildAppendEntriesRequest peer leaderTerm).2 ≠ .none) : n.role = .leader := by
  unfold RaftNode.buildAppendEntriesRequest at h
  split at h
  · exact absurd rfl h
  · rename_i hleader
    simp only [not_or, not_not] at hleader
    exact hleader.2.1

theorem Before.replicateOnce (h : Before cfg H q m net) (hup : m.up = true) {peer : NodeId}
    (hstep : m.replicateOnce peer = some (m', outbox)) :
    MemberStep cfg.members H q m' outbox H := by
  obtain ⟨mem, dur, hp⟩ := h.member.process hup
  have hkept := m.node.buildAppendEntriesRequest_votesKept peer m.node.currentTerm
  have hp' := hp.buildAppendEntriesRequest peer m.node.currentTerm
  have hleader := m.node.buildAppendEntriesRequest_leader peer m.node.currentTerm
  unfold Member.replicateOnce at hstep
  split at hstep
  · split at hstep
    · cases hstep
    · rename_i node heq
      cases hstep
      rw [heq] at hkept hp' hleader
      obtain ⟨hlead, -⟩ := hp.leader (hleader (by simp))
      have hterm : node.currentTerm = mem.term := hp'.node.represents.term
      exact h.quiet hup hkept h.member.snapshots
        (hp'.setReplicator ⟨hterm.le, hterm ▸ hlead.led⟩) (by simp)
    · rename_i node request heq
      cases hstep
      rw [heq] at hkept hp' hleader
      obtain ⟨hlead, hclean⟩ := hp.leader (hleader (by simp))
      have hterm : node.currentTerm = mem.term := hp'.node.represents.term
      obtain ⟨hwindow, hrequest, -⟩ :=
        hp.node.window hlead.led.elected hlead.log hclean.commit heq
      have hstarted : ProcessInv H cfg.members q
          { m with node, rpcStarted := m.rpcStarted + 1 } mem dur :=
            hp'.same rfl rfl rfl rfl rfl rfl
      refine h.quiet hup hkept h.member.snapshots (hstarted.setReplicator rfl) ?_
      simp only [List.mem_singleton, forall_eq]
      exact ⟨hwindow, hrequest.trans hterm.symm⟩
  · cases hstep

/-! ## Responses -/

/-- A leader that learns how far a peer has got. -/
theorem ProcessInv.setMatchIndex (h : ProcessInv H members q m mem dur)
    (hrole : m.node.role = .leader) {peer : NodeId} {k : Nat}
    (hk : Matched H members mem.term peer k) (next : NodeId → Nat) :
    ProcessInv H members q { m with node := { m.node with
      matchIndex := Function.update m.node.matchIndex peer (max (m.node.matchIndex peer) k)
      nextIndex := next } } mem dur := by
  obtain ⟨hlead, hclean⟩ := h.leader hrole
  refine h.process (h.node.congr rfl rfl rfl rfl rfl rfl rfl) (.refl mem) (.of_eq rfl rfl id)
    (fun hc => ?_) fun _ => ⟨⟨hlead.led, hlead.log, hlead.acked, fun p hp => ?_⟩, hclean⟩
  · simp [hrole] at hc
  · simp only
    by_cases hpeer : p = peer
    · subst hpeer
      rw [Function.update_self]
      rcases max_choice (m.node.matchIndex p) k with hmax | hmax <;> rw [hmax]
      · exact hlead.matched p hp
      · exact hk
    · rw [Function.update_of_ne hpeer]
      exact hlead.matched p hp

theorem ProcessInv.becomeFollowerLocked (h : ProcessInv H members q m mem dur) (newTerm : Nat)
    (newLeader : NodeId) (saved : Bool) :
    ∃ mem' dur', ProcessInv H members q
      { m with node := (m.node.becomeFollowerLocked newTerm newLeader saved).1 } mem' dur' := by
  obtain ⟨dur', hinv⟩ := h.node.becomeFollowerLocked newTerm newLeader saved
  exact ⟨_, dur', h.yield (le_max_left _ _) hinv (m.node.becomeFollowerLocked_yields _ _ _)⟩

theorem ProcessInv.handleAppendEntriesResponse (h : ProcessInv H cfg.members q m mem dur)
    (hq : q ∈ cfg.ids) (hpeers : m.node.peers = cfg.peers q) {peer : NodeId} {leaderTerm : Nat}
    {response : AppendEntriesResponse} (hresponse : response.success = true →
      Matched H cfg.members leaderTerm peer response.matchIndex) (saved : Bool) :
    ∃ mem' dur', ProcessInv H cfg.members q { m with
      node := m.node.handleAppendEntriesResponse peer leaderTerm response saved } mem' dur' := by
  unfold RaftNode.handleAppendEntriesResponse
  split
  · exact ⟨mem, dur, h⟩
  · split
    · exact h.becomeFollowerLocked _ _ saved
    · split
      · exact ⟨mem, dur, h⟩
      · rename_i hleader
        simp only [not_or, not_not] at hleader
        split
        · rename_i hsuccess
          have hterm : mem.term = leaderTerm := h.node.represents.term.symm.trans hleader.2
          have hset := h.setMatchIndex hleader.1 (hterm ▸ hresponse hsuccess)
            (Function.update m.node.nextIndex peer
              (max (m.node.nextIndex peer) (response.matchIndex + 1)))
          exact hset.advanceCommitIndexUnlocked hq hpeers saved
        · exact ⟨mem, dur, h.keepRole (h.node.congr rfl rfl rfl rfl rfl rfl rfl) rfl rfl
            (fun _ _ => rfl) rfl rfl rfl id⟩

theorem Before.deliverAppendResponse (h : Before cfg H q m net) (hup : m.up = true)
    {message : Message Image} (hmessage : message ∈ net) {peer : NodeId} {call : CallId}
    (hcall : m.replicators peer = .append call) (hthis : message.call = call) {saved : Bool}
    (hstep : m.deliverAppendResponse peer message saved = some (m', outbox)) :
    MemberStep cfg.members H q m' outbox H := by
  obtain ⟨mem, dur, hp⟩ := h.member.process hup
  have hresponse := h.net message hmessage
  have hcallee : call.callee = peer := by
    have := hp.replicators peer
    rwa [hcall] at this
  unfold Member.deliverAppendResponse at hstep
  split at hstep
  · rename_i response hpayload
    simp only [MessageInv, hpayload, hthis, hcallee] at hresponse
    have hkept := m.node.handleAppendEntriesResponse_votesKept peer message.call.term response saved
    obtain ⟨mem', dur', hp'⟩ := hp.handleAppendEntriesResponse h.mem_ids h.votes.peers
      hresponse saved
    cases hstep
    rw [hthis] at hkept ⊢
    exact h.quiet hup hkept h.member.snapshots (hp'.setReplicator trivial) (by simp)
  · cases hstep

/-! ## `OnAppendEntries` -/

theorem RaftNode.acceptLeaderLocked_yields (n : RaftNode) (term : Nat) (leaderId : NodeId)
    (saved : Bool) : (n.acceptLeaderLocked term leaderId saved).1.role = .follower ∧
      AppliedKept n (n.acceptLeaderLocked term leaderId saved).1 := by
  refine ⟨n.acceptLeaderLocked_role term leaderId saved, ?_⟩
  unfold RaftNode.acceptLeaderLocked
  split
  · exact (n.becomeFollowerLocked_yields term leaderId saved).applied
  · exact id

/-- A request of an older term leaves the node as it is. -/
theorem RaftNode.onAppendEntries_role (n : RaftNode) (request : AppendEntriesRequest)
    (termSaved logSaved commitSaved : Bool) :
    request.term < n.currentTerm ∧
        (n.onAppendEntries request termSaved logSaved commitSaved).1 = n ∨
      (n.onAppendEntries request termSaved logSaved commitSaved).1.role = .follower ∧
        AppliedKept n (n.onAppendEntries request termSaved logSaved commitSaved).1 := by
  have haccept := n.acceptLeaderLocked_yields request.term request.leaderId termSaved
  unfold RaftNode.onAppendEntries
  split
  · rename_i hlt
    exact .inl ⟨hlt, rfl⟩
  · refine .inr ?_
    simp only
    split
    · exact haccept
    · split
      · exact haccept
      · obtain ⟨hrole, hindex, happlied⟩ := (n.acceptLeaderLocked request.term request.leaderId
          termSaved).1.appendEntriesBody_frame request logSaved commitSaved
        exact ⟨hrole.trans haccept.1, fun hle => AppliedKept.of_eq hindex happlied (haccept.2 hle)⟩

theorem Before.deliverAppendEntries (h : Before cfg H q m net) (hup : m.up = true)
    {message : Message Image} (hmessage : message ∈ net) (hcallee : message.call.callee = q)
    {termSaved logSaved commitSaved : Bool}
    (hok : ∀ request, message.payload = .appendRequest request → ¬ m.node.Overreaches request)
    (hstep : m.deliverAppendEntries message termSaved logSaved commitSaved = some (m', outbox)) :
    ∃ H', MemberStep cfg.members H q m' outbox H' := by
  obtain ⟨mem, dur, hp⟩ := h.member.process hup
  have hrequest := h.net message hmessage
  unfold Member.deliverAppendEntries at hstep
  split at hstep
  · rename_i request hpayload
    simp only [MessageInv, hpayload] at hrequest
    obtain ⟨hwindow, hterm⟩ := hrequest
    obtain ⟨mem', dur', hinv, hev, hsuccess, -⟩ := hp.node.onAppendEntries h.valid h.indexed hwindow
      (hok request hpayload) termSaved logSaved commitSaved
    have hkept := m.node.onAppendEntries_votesKept request termSaved logSaved commitSaved
    have hrole := m.node.onAppendEntries_role request termSaved logSaved commitSaved
    generalize m.node.onAppendEntries request termSaved logSaved commitSaved = res at *
    obtain ⟨node, response, applies⟩ := res
    cases hstep
    simp only at hinv hsuccess hkept hrole
    by_cases hresponse : response.success = true
    · obtain ⟨hmemTerm, hk, hle⟩ := hsuccess hresponse
      have hfollower : node.role = .follower ∧ AppliedKept m.node node := by
        rcases hrole with ⟨hlt, -⟩ | hfollower
        · have hterms := hev.term
          rw [← hp.node.represents.term, hmemTerm] at hterms
          omega
        · exact hfollower
      -- what the response reports is acknowledged now
      have hvotes : ∀ T c, H.votes q T c → T ≤ request.term := by
        intro T c hv
        have hle := h.vote_le hup hv
        have hterms := hev.term
        rw [hp.node.represents.term] at hle
        omega
      have hext : History.Extends H
          (H.acknowledge LogRecord.term q request.term response.matchIndex dur') :=
        History.extends_acknowledge
      refine ⟨_, hext, h.valid.acknowledge hvotes, h.indexed, h.selfVoted,
        (h.record_eq hup hkept).symm, fun p hne => untouched_acknowledge hne,
        .of_process (h.member.snapshots.mono h.valid hext)
          ((hp.toThreadsInv.mono h.valid hext).process (hinv.acknowledge h.valid hmemTerm.ge hle)
            hev (.of_follower hfollower.1 hfollower.2) (fun hc => ?_) fun hl => ?_), ?_⟩
      · rw [hfollower.1] at hc
        cases hc
      · rw [hfollower.1] at hl
        cases hl
      · simp only [List.mem_singleton, forall_eq, MessageInv, hcallee, ← hterm]
        exact fun _ => hinv.matched h.valid hmemTerm hk hle
    · have hout : ∀ reply ∈ ([⟨message.call, .appendResponse response⟩] : Member.Outbox Image),
          MessageInv H cfg.members reply := by
        simp only [List.mem_singleton, forall_eq, MessageInv]
        exact fun hs => absurd hs hresponse
      rcases hrole with ⟨-, rfl⟩ | hfollower
      · exact ⟨H, h.quiet hup hkept h.member.snapshots hp hout⟩
      · exact ⟨H, h.quiet hup hkept h.member.snapshots
          (hp.toFollower hinv hev hfollower.1 hfollower.2) hout⟩
  · cases hstep

end CquptRaft
