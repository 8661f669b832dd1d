import CquptRaft.Cluster.SimulationMoves

/-!
# Elections keep the simulation

A campaign, a vote and a won election extend the history.
-/

namespace CquptRaft

open Replication Voting

variable {σ : Type} {cfg : ClusterConfig} {H H' : History NodeId LogRecord}
  {members : Finset NodeId} {q : NodeId} {Image : Type} {m m' : Member σ Image}
  {net : List (Message Image)} {outbox : Member.Outbox Image}

/-! ## Campaigns -/

theorem Before.ballot_none (h : Before cfg H q m net) (hup : m.up = true) {T : Nat}
    (hT : m.node.currentTerm < T) : H.ballots T q = none := by
  by_contra hne
  obtain ⟨ℓ, hℓ⟩ := Option.ne_none_iff_exists'.mp hne
  have := h.vote_le hup (h.selfVoted hℓ).2
  omega

/-- The history behind a campaign of `q` for term `T` with the log `ℓ` and its own vote. -/
def campaigned (H : History NodeId LogRecord) (q : NodeId) (T : Nat) (ℓ : List LogRecord) :
    History NodeId LogRecord :=
  (H.campaign T q ℓ).withVotes (H.votes.record (-1) q (some (T, q)))

theorem Before.campaigned (h : Before cfg H q m net) (hup : m.up = true) {T : Nat}
    (hT : m.node.currentTerm < T) {mem : Replica LogRecord}
    (hmem : Sound H cfg.members LogRecord.term q mem) :
    History.Extends H (campaigned H q T mem.log) ∧
      (campaigned H q T mem.log).Valid cfg.members LogRecord.term := by
  have hnone := h.ballot_none hup hT
  have hcamp := h.valid.campaign hnone hmem.good
  have hmay : MayVote (-1) m.node.ballot T q := .inl hT
  have hunique := h.valid.unique.cast (h.votes.holds hup) h.votes.accounted hmay
  have hold : ∀ ⦃p T' a⦄, H.votes p T' a → H.votes.record (-1) q (some (T, q)) p T' a :=
    fun _ _ _ hv => .inl hv
  have hadd : (H.campaign T q mem.log).MayAdd (H.votes.record (-1) q (some (T, q))) := by
    rintro p T' a (hv | ⟨rfl, heq, -⟩)
    · exact .inl hv
    · cases heq
      refine .inr ⟨fun T'' a hv => (h.vote_le hup hv).trans hT.le, mem.log, ?_, ?_⟩
      · simp [History.campaign]
      · intro T'' i hack _
        exact (hmem.keeps T'' i hack).symm.imp And.left id
  exact ⟨(History.extends_campaign hnone).trans (History.extends_withVotes hcamp hold hunique hadd),
    hcamp.withVotes hold hunique hadd⟩

theorem untouched_campaigned (H : History NodeId LogRecord) (T : Nat) (ℓ : List LogRecord)
    (p : NodeId) : Untouched H (campaigned H q T ℓ) p :=
  ⟨fun _ _ h => h, fun _ h => h, fun _ _ => rfl⟩

theorem NodeInv.startElection {n : RaftNode} {mem dur : Replica LogRecord}
    (h : NodeInv H members q n mem dur) (hstart : ¬ (!n.running ∨ n.role = .leader)) :
    NodeInv H members q (n.startElection true).1 { mem with term := mem.term + 1 }
      { mem with term := mem.term + 1 } := by
  have hnode : (n.startElection true).1 = ({ n with
      role := .candidate, currentTerm := n.currentTerm + 1, votedFor := n.nodeId, leaderId := -1
      }.persistStateLocked true).resetElectionTimerLocked := by
    rw [RaftNode.startElection, if_neg hstart, if_pos rfl]
  have hraise : NodeInv H members q { n with
      role := .candidate, currentTerm := n.currentTerm + 1, votedFor := n.nodeId, leaderId := -1 }
      { mem with term := mem.term + 1 } dur :=
    h.raise (Nat.le_succ _) (by rw [h.represents.term]) rfl rfl rfl rfl rfl rfl
  rw [hnode]
  exact (hraise.persist true).congr rfl rfl rfl rfl rfl rfl rfl

/-- A candidate of a new term is doomed, or nothing has been chosen in that term or later. -/
theorem Before.doomed_or_clean (h : Before cfg H q m net) (hup : m.up = true) {T : Nat}
    (hT : m.node.currentTerm < T) {mem : Replica LogRecord}
    (hmem : Sound H cfg.members LogRecord.term q mem) :
    (CquptRaft.campaigned H q T mem.log).Doomed T q ∨
      Clean H cfg.members { mem with term := T } m.snapshots := by
  by_cases hlate : ∃ e ∈ H.elections, T ≤ e.term
  · obtain ⟨e, he, hle⟩ := hlate
    refine .inl ⟨e, he, hle, ?_⟩
    rintro p hp (hv | ⟨rfl, -, -⟩)
    · obtain ⟨ℓ, hℓ, -⟩ := h.valid.votedKeeps hv
      rw [h.ballot_none hup hT] at hℓ
      cases hℓ
    · have := h.vote_le hup (h.valid.voted e he _ hp)
      omega
  · have hall : ∀ e ∈ H.elections, e.term < T := by
      intro e he
      by_contra hge
      exact hlate ⟨e, he, not_lt.mp hge⟩
    refine .inr ⟨h.valid.chosenBy_of_elections_lt hall hmem.chosen, fun s hs => ?_⟩
    obtain ⟨t, π, hlen, hterm, hπ⟩ := h.member.snapshots s hs
    exact ⟨π, hlen, hterm, h.valid.chosenBy_of_elections_lt hall hπ.chosen⟩

theorem Before.startElection (h : Before cfg H q m net) (hup : m.up = true) (saved : Bool) :
    ∃ H', MemberStep cfg.members H q (m.startElection saved).1 (m.startElection saved).2 H' := by
  obtain ⟨mem, dur, hp⟩ := h.member.process hup
  unfold Member.startElection
  by_cases hstart : !m.node.running ∨ m.node.role = .leader
  · simp only [RaftNode.startElection, if_pos hstart]
    exact ⟨H, h.quiet hup .refl h.member.snapshots hp (by simp)⟩
  cases saved with
  | false =>
    simp only [RaftNode.startElection, if_neg hstart, Bool.false_eq_true, if_false]
    have hnode : NodeInv H cfg.members q m.node.resetElectionTimerLocked mem dur :=
      hp.node.congr rfl rfl rfl rfl rfl rfl rfl
    exact ⟨H, h.quiet hup (.of_eq rfl rfl rfl rfl rfl rfl) h.member.snapshots
      (hp.keepRole hnode rfl rfl (fun _ _ => rfl) rfl rfl rfl id) (by simp)⟩
  | true =>
    have hinv := hp.node.startElection hstart
    have hcases := m.node.startElection_cases true
    have hrole : (m.node.startElection true).1.role = .candidate := by
      rw [RaftNode.startElection, if_neg hstart, if_pos rfl]
      simp [RaftNode.resetElectionTimerLocked, RaftNode.cancelElectionTimerLocked]
    have hflag : (m.node.startElection true).2 = true := by
      rw [RaftNode.startElection, if_neg hstart, if_pos rfl]
    have happlied : AppliedKept m.node (m.node.startElection true).1 := by
      rw [RaftNode.startElection, if_neg hstart, if_pos rfl]
      exact id
    generalize hres : m.node.startElection true = res at hinv hcases hrole hflag happlied
    obtain ⟨node, started⟩ := res
    simp only at hinv hcases hrole hflag happlied
    subst hflag
    obtain ⟨-, hcast, hterm⟩ := hcases.resolve_left (by simp)
    have hmemTerm := hp.node.represents.term
    have hT : m.node.currentTerm < mem.term + 1 := by omega
    obtain ⟨hext, hvalid⟩ := h.campaigned hup hT hp.node.memSound
    have hdurable : node.durable = some (mem.term + 1, q) := by
      rw [hcast.durable, hcast.ballot, hterm, hmemTerm, h.votes.nodeId]
    -- the new process, whatever it sends
    have hp' : ProcessInv (CquptRaft.campaigned H q (mem.term + 1) mem.log) cfg.members q
        { m with node } { mem with term := mem.term + 1 } { mem with term := mem.term + 1 } := by
      have huntouched := untouched_campaigned (q := q) H (mem.term + 1) mem.log q
      refine (hp.mono h.valid hext huntouched).process
        (hinv.mono h.valid hext fun T i ha => .inl (huntouched.acks T i ha))
        (.raise (Nat.le_succ _)) (.of_lt (Nat.lt_succ_self _) happlied) (fun _ => ⟨⟨?_, ?_⟩, ?_⟩)
        (fun hl => by rw [hrole] at hl; cases hl)
      · simp [CquptRaft.campaigned, History.withVotes, History.campaign]
      · rintro ⟨e, he, heT, heq⟩
        have hballot := h.valid.ballot e he
        rw [heT, heq] at hballot
        have hnone := h.ballot_none hup hT
        simp only at hballot
        rw [hnone] at hballot
        cases hballot
      · exact (h.doomed_or_clean hup hT hp.node.memSound).imp id fun hc => hc.mono h.valid hext
    have hsnap := h.member.snapshots.mono h.valid hext
    have hstep : ∀ (m' : Member σ Image) (outbox : Member.Outbox Image), m'.node = node →
        MemberInv (CquptRaft.campaigned H q (mem.term + 1) mem.log) cfg.members q m' →
        (∀ message ∈ outbox, MessageInv (CquptRaft.campaigned H q (mem.term + 1) mem.log)
          cfg.members message) →
        MemberStep cfg.members H q m' outbox (CquptRaft.campaigned H q (mem.term + 1) mem.log) := by
      intro m' outbox hnode hmember hout
      refine ⟨hext, hvalid, h.indexed, ?_, ?_, fun p _ => untouched_campaigned H _ _ p, hmember,
        hout⟩
      · intro T a ℓ hb
        by_cases hnew : T = mem.term + 1 ∧ a = q
        · obtain ⟨rfl, rfl⟩ := hnew
          exact ⟨Nat.succ_pos _, .inr ⟨rfl, rfl, cfg.ne_neg_one h.mem_ids⟩⟩
        · simp only [CquptRaft.campaigned, History.withVotes, History.campaign, if_neg hnew] at hb
          exact (h.selfVoted hb).imp id .inl
      · rw [hnode, hdurable]
        rfl
    simp only
    split
    · exact ⟨_, hstep _ _ rfl (.of_process hsnap (hp'.same rfl rfl rfl rfl rfl rfl)) (by simp)⟩
    · refine ⟨_, hstep _ _ rfl (.of_process hsnap (hp'.same rfl rfl rfl rfl rfl rfl)) ?_⟩
      intro message hmessage
      simp only [List.map_map, List.mem_map, Function.comp] at hmessage
      obtain ⟨peer, -, rfl⟩ := hmessage
      refine ⟨mem.log, ?_, hinv.represents.lastLogIndexLocked, hinv.represents.lastLogTermLocked⟩
      have hid : node.nodeId = q := hcast.nodeId.trans h.votes.nodeId
      have hnodeTerm : node.currentTerm = mem.term + 1 := hinv.represents.term
      simp [RaftNode.voteRequest, hid, hnodeTerm, CquptRaft.campaigned, History.withVotes,
        History.campaign]

/-! ## Votes -/

theorem RaftNode.becomeFollowerLocked_yields (n : RaftNode) (newTerm : Nat) (newLeader : NodeId)
    (saved : Bool) : Yields n (n.becomeFollowerLocked newTerm newLeader saved).1 := by
  refine ⟨.inl (n.becomeFollowerLocked_role newTerm newLeader saved), ?_⟩
  unfold RaftNode.becomeFollowerLocked
  split
  · exact .of_eq (by simp [RaftNode.resetElectionTimerLocked, RaftNode.cancelElectionTimerLocked])
      (by simp [RaftNode.resetElectionTimerLocked, RaftNode.cancelElectionTimerLocked])
  · exact id

theorem RaftNode.isCandidateLogUpToDateLocked_iff (n : RaftNode) (lastLogIndex lastLogTerm : Nat) :
    n.isCandidateLogUpToDateLocked lastLogIndex lastLogTerm = true ↔
      n.lastLogTermLocked < lastLogTerm ∨
      n.lastLogTermLocked = lastLogTerm ∧ n.lastLogIndexLocked ≤ lastLogIndex := by
  unfold RaftNode.isCandidateLogUpToDateLocked
  split <;> simp <;> omega

/-- The check of a candidate's log reads nothing but the voter's log. -/
theorem Represents.isCandidateLogUpToDateLocked_eq {n n' : RaftNode} {mem mem' : Replica LogRecord}
    (h : Represents n mem) (h' : Represents n' mem') (hlog : mem'.log = mem.log) :
    n'.isCandidateLogUpToDateLocked = n.isCandidateLogUpToDateLocked := by
  funext index term
  rw [Bool.eq_iff_iff, RaftNode.isCandidateLogUpToDateLocked_iff,
    RaftNode.isCandidateLogUpToDateLocked_iff, h'.lastLogTermLocked, h'.lastLogIndexLocked,
    h.lastLogTermLocked, h.lastLogIndexLocked, hlog]

theorem NodeInv.onRequestVote {n : RaftNode} {mem dur : Replica LogRecord}
    (h : NodeInv H members q n mem dur) (request : VoteRequest) (termSaved voteSaved : Bool) :
    ∃ dur', NodeInv H members q (n.onRequestVote request termSaved voteSaved).1
        { mem with term := max mem.term request.term } dur' ∧
      Yields n (n.onRequestVote request termSaved voteSaved).1 ∧
      ((n.onRequestVote request termSaved voteSaved).2.voteGranted = true →
        n.isCandidateLogUpToDateLocked request.lastLogIndex request.lastLogTerm = true) := by
  have hsame := Yields.refl n
  unfold RaftNode.onRequestVote
  split
  · rename_i hlt
    rw [h.represents.term] at hlt
    rw [max_eq_left hlt.le]
    exact ⟨dur, h, hsame, by simp⟩
  · rename_i hge
    rw [h.represents.term] at hge
    -- the node behind the term check
    have hmove : ∃ m ok dur', (if n.currentTerm < request.term
          then n.becomeFollowerLocked request.term (-1) termSaved else (n, true)) = (m, ok) ∧
        NodeInv H members q m { mem with term := max mem.term request.term } dur' ∧ Yields n m ∧
        m.isCandidateLogUpToDateLocked = n.isCandidateLogUpToDateLocked := by
      split
      · obtain ⟨dur', h'⟩ := h.becomeFollowerLocked request.term (-1) termSaved
        exact ⟨(n.becomeFollowerLocked request.term (-1) termSaved).1,
          (n.becomeFollowerLocked request.term (-1) termSaved).2, dur', rfl, h',
          n.becomeFollowerLocked_yields _ _ _,
          h.represents.isCandidateLogUpToDateLocked_eq h'.represents rfl⟩
      · rename_i hno
        rw [h.represents.term] at hno
        rw [max_eq_left (by omega)]
        exact ⟨n, true, dur, rfl, h, hsame, rfl⟩
    obtain ⟨m, ok, dur', heq, h', hyields, hup⟩ := hmove
    simp only [heq]
    split
    · exact ⟨dur', h', hyields, by simp⟩
    · split
      · rename_i hvote
        cases voteSaved with
        | false => exact ⟨dur', h', hyields, by simp⟩
        | true =>
          have hcast : NodeInv H members q { m with votedFor := request.candidateId } _ dur' :=
            h'.congr rfl rfl rfl rfl rfl rfl rfl
          exact ⟨_, (hcast.persist true).congr rfl rfl rfl rfl rfl rfl rfl,
            ⟨hyields.role, hyields.applied⟩,
            fun _ => hup ▸ hvote.2⟩
      · exact ⟨dur', h', hyields, by simp⟩

/-- The history behind a vote of `q`. -/
def voted (H : History NodeId LogRecord) (q : NodeId) (durable : Option (Nat × NodeId)) :
    History NodeId LogRecord :=
  H.withVotes (H.votes.record (-1) q durable)

theorem untouched_voted (H : History NodeId LogRecord) (durable : Option (Nat × NodeId))
    (p : NodeId) : Untouched H (voted H q durable) p :=
  ⟨fun _ _ h => h, fun _ h => h, fun _ _ => rfl⟩

/-- A candidate whose log is up to date may get the vote. -/
theorem Before.voted (h : Before cfg H q m net) (hup : m.up = true) {T : Nat} {a : NodeId}
    (hmay : MayVote (-1) m.node.ballot T a) {mem : Replica LogRecord}
    (hmem : Sound H cfg.members LogRecord.term q mem) {ℓ : List LogRecord}
    (hballot : H.ballots T a = some ℓ)
    (hlast : termAt LogRecord.term mem.log mem.log.length < termAt LogRecord.term ℓ ℓ.length ∨
      termAt LogRecord.term mem.log mem.log.length = termAt LogRecord.term ℓ ℓ.length ∧
        mem.log.length ≤ ℓ.length) :
    History.Extends H (voted H q (some (T, a))) ∧
      (voted H q (some (T, a))).Valid cfg.members LogRecord.term := by
  have hunique := h.valid.unique.cast (h.votes.holds hup) h.votes.accounted hmay
  have hold : ∀ ⦃p T' a'⦄, H.votes p T' a' → H.votes.record (-1) q (some (T, a)) p T' a' :=
    fun _ _ _ hv => .inl hv
  have hle : m.node.currentTerm ≤ T := by
    rcases hmay with hlt | ⟨heq, -⟩
    · exact hlt.le
    · exact heq.le
  have hadd : H.MayAdd (H.votes.record (-1) q (some (T, a))) := by
    rintro p T' a' (hv | ⟨rfl, heq, -⟩)
    · exact .inl hv
    · cases heq
      refine .inr ⟨fun T'' a'' hv => (h.vote_le hup hv).trans hle, ℓ, hballot, ?_⟩
      intro T'' i hack _
      rcases hmem.keeps T'' i hack with hlost | ⟨hpre, -⟩
      · exact .inr hlost
      · exact h.valid.upToDate_keeps hmem.good (h.valid.ballotGood hballot).1 hack hpre hlast
  exact ⟨History.extends_withVotes h.valid hold hunique hadd,
    h.valid.withVotes hold hunique hadd⟩

theorem Before.deliverRequestVote (h : Before cfg H q m net) (hup : m.up = true)
    {message : Message Image} (hmessage : message ∈ net) {termSaved voteSaved : Bool}
    (hstep : m.deliverRequestVote message termSaved voteSaved = some (m', outbox)) :
    ∃ H', MemberStep cfg.members H q m' outbox H' := by
  obtain ⟨mem, dur, hp⟩ := h.member.process hup
  have hrequest := h.net message hmessage
  unfold Member.deliverRequestVote at hstep
  split at hstep
  · rename_i request hpayload
    simp only [MessageInv, hpayload] at hrequest
    obtain ⟨ℓ, hballot, hindex, hterm⟩ := hrequest
    obtain ⟨dur', hinv, hyields, hgrants⟩ := hp.node.onRequestVote request termSaved voteSaved
    have hcases := m.node.onRequestVote_cases request termSaved voteSaved
    generalize m.node.onRequestVote request termSaved voteSaved = res at *
    obtain ⟨node, response⟩ := res
    cases hstep
    have hp' := hp.yield (le_max_left _ _) hinv hyields
    rcases hcases with ⟨-, hkept⟩ | ⟨hgranted, hcast, hnode⟩
    · exact ⟨H, h.quiet hup hkept h.member.snapshots hp' (by simp [MessageInv])⟩
    · -- the vote extends the history, and nothing else does
      have hlast := (m.node.isCandidateLogUpToDateLocked_iff _ _).mp (hgrants hgranted)
      rw [hp.node.represents.lastLogTermLocked, hp.node.represents.lastLogIndexLocked, hindex,
        hterm] at hlast
      have hmay := hcast.mayVote
      rw [hnode] at hmay
      obtain ⟨hext, hvalid⟩ := h.voted hup hmay hp.node.memSound hballot hlast
      have huntouched := untouched_voted (q := q) H (some (request.term, request.candidateId))
      refine ⟨_, hext, hvalid, h.indexed, fun T a ℓ hb => (h.selfVoted hb).imp id .inl, ?_,
        fun p _ => huntouched p, .of_process (h.member.snapshots.mono h.valid hext)
          (hp'.mono h.valid hext (huntouched q)), by simp [MessageInv]⟩
      simp only at hnode
      rw [hcast.durable, hcast.ballot, hnode]
      rfl
  · cases hstep

theorem Before.deliverVoteResponse (h : Before cfg H q m net) (hup : m.up = true)
    {message : Message Image} {saved : Bool}
    (hstep : m.deliverVoteResponse message saved = some (m', outbox)) :
    MemberStep cfg.members H q m' outbox H := by
  obtain ⟨mem, dur, hp⟩ := h.member.process hup
  unfold Member.deliverVoteResponse at hstep
  split at hstep
  · rename_i response _
    have hkept := m.node.onVoteResponse_votesKept message.call.term response saved
    have hmove : ∃ t dur', mem.term ≤ t ∧ NodeInv H cfg.members q
        (m.node.onVoteResponse message.call.term response saved).1 { mem with term := t } dur' ∧
        Yields m.node (m.node.onVoteResponse message.call.term response saved).1 := by
      unfold RaftNode.onVoteResponse
      split
      · exact ⟨mem.term, dur, le_rfl, hp.node, .refl _⟩
      · split
        · obtain ⟨dur', h'⟩ := hp.node.becomeFollowerLocked response.term (-1) saved
          exact ⟨_, dur', le_max_left _ _, h', m.node.becomeFollowerLocked_yields _ _ _⟩
        · split <;> exact ⟨mem.term, dur, le_rfl, hp.node, .refl _⟩
    obtain ⟨t, dur', ht, hinv, hyields⟩ := hmove
    cases hstep
    exact h.quiet hup hkept h.member.snapshots
      ((hp.yield ht hinv hyields).same rfl rfl rfl rfl rfl rfl) (by simp)
  · cases hstep

theorem Before.countVote (h : Before cfg H q m net) (hup : m.up = true) (T : Nat) :
    MemberStep cfg.members H q (m.countVote T) [] H := by
  obtain ⟨mem, dur, hp⟩ := h.member.process hup
  unfold Member.countVote
  simp only
  split <;> exact h.quiet hup .refl h.member.snapshots (hp.same rfl rfl rfl rfl rfl rfl) (by simp)

/-! ## Victories -/

theorem Before.onElectionWon (h : Before cfg H q m net) (hup : m.up = true) {T : Nat}
    (hT : T ∈ m.wonCalls) : ∃ H', MemberStep cfg.members H q (m.onElectionWon T) [] H' := by
  obtain ⟨mem, dur, hp⟩ := h.member.process hup
  have hcases := m.node.onElectionWon_cases T
  unfold Member.onElectionWon
  generalize m.node.onElectionWon T = res at hcases
  obtain ⟨node, won⟩ := res
  simp only at hcases ⊢
  rcases hcases with rfl | ⟨hrole, hterm, rfl⟩
  · exact ⟨H, h.quiet hup .refl h.member.snapshots (hp.same rfl rfl rfl rfl rfl rfl) (by simp)⟩
  · obtain ⟨⟨hballot, hfirst⟩, hcase⟩ := hp.candidate hrole
    have hmemTerm : mem.term = T := hp.node.represents.term.symm.trans hterm
    subst hmemTerm
    obtain ⟨Q, hQ, hvotes⟩ := (h.votes.campaigns hup).wonCalls _ hT
    have hclean := hcase.resolve_left (h.valid.not_doomed hQ hvotes)
    have hleader : ∀ e ∈ H.elections, e.term = mem.term → e.leader ≠ q :=
      fun e he heT heq => hfirst ⟨e, he, heT, heq⟩
    have hnot := h.valid.not_elected hQ hvotes hleader
    have hext := History.extends_elect h.valid q Q mem.log hnot
    have hvalid := h.valid.elect hQ hvotes hleader hballot
    have hlog : (H.elect mem.term q Q mem.log).leaderLog mem.term = mem.log := by
      simp [History.elect]
    -- every entry of the new leader is of an older term, so nothing has to be acknowledged
    have hmatched : ∀ p k, k ≤ mem.log.length →
        Matched (H.elect mem.term q Q mem.log) cfg.members mem.term p k := by
      intro p k hk
      refine ⟨hlog.symm ▸ hk, fun i h0 hik hi => ?_⟩
      rw [hlog] at hi
      obtain ⟨x, hx, hxT⟩ := exists_mem_of_termAt LogRecord.term h0 (hik.trans hk)
      have hlt : x.term < mem.term := hvalid.older _ List.mem_cons_self x hx
      omega
    have hinv : NodeInv (H.elect mem.term q Q mem.log) cfg.members q m.node.becomeLeaderLocked
        mem dur :=
      (hp.node.mono h.valid hext fun T i ha => .inl ha).congr rfl rfl rfl rfl rfl rfl rfl
    -- the threads see a candidate that has not won before
    have hthreads :
        ThreadsInv H cfg.members q { m with node := m.node.becomeLeaderLocked } mem := by
      refine hp.toThreadsInv.setNode (.refl mem) ⟨fun t _ hf ht => ?_, fun _ t _ hled ht => ?_, id⟩
      · rw [hf ht] at hrole
        cases hrole
      · exact absurd (ht ▸ hled) hfirst
    have hp' : ProcessInv (H.elect mem.term q Q mem.log) cfg.members q
        { m with node := m.node.becomeLeaderLocked } mem dur := by
      refine ⟨hthreads.mono h.valid hext, hinv, (by intro hc; cases hc), fun _ => ⟨⟨?_, hlog.symm,
        hmatched q _ le_rfl, fun peer _ => hmatched peer _ ?_⟩, hclean.mono h.valid hext⟩⟩
      · exact ⟨_, List.mem_cons_self, rfl, rfl⟩
      · simp only [RaftNode.becomeLeaderLocked, hp.node.represents.lastLogIndexLocked]
        split
        · exact le_rfl
        · exact Nat.zero_le _
    have hvotes' : H.votes.record (-1) q m.node.becomeLeaderLocked.durable = H.votes :=
      h.votes.accounted.record_eq (h.votes.holds hup) (VotesKept.refl (n := m.node)).follows
    refine ⟨_, hext, hvalid, fun T => ?_, h.selfVoted, hvotes'.symm,
      fun p hne => ⟨fun _ _ h => h, ?_, ?_⟩,
      .of_process (h.member.snapshots.mono h.valid hext) (hp'.same rfl rfl rfl rfl rfl rfl),
        by simp⟩
    · by_cases hT : T = mem.term
      · rw [hT, hlog]
        exact hp.node.represents.stores.indexed
      · simp only [History.elect, Function.update_of_ne hT]
        exact h.indexed T
    · rintro T ⟨e, he, heT, hep⟩
      rcases List.mem_cons.mp he with rfl | he
      · exact absurd hep.symm hne
      · exact ⟨e, he, heT, hep⟩
    · rintro T hled
      have hT : T ≠ mem.term := by
        rintro rfl
        exact hnot hled.elected
      simp only [History.elect, Function.update_of_ne hT]

end CquptRaft
