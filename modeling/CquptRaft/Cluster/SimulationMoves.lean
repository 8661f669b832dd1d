import CquptRaft.Cluster.Simulation

/-!
# Moves of one member

What a step does to the process of a member, and the two ways in which it leaves the history:
as it is, or longer by what the step did.
-/

namespace CquptRaft

open Replication Voting

variable {σ : Type} {sm : IStateMachine σ} {cfg : ClusterConfig}
  {H H' : History NodeId LogRecord} {members : Finset NodeId} {q : NodeId} {Image : Type}

/-! ## Moves of a process -/

section Process

variable {m m' : Member σ Image} {mem mem' dur dur' : Replica LogRecord} {n' : RaftNode}

/-- The apply index does not fall behind the snapshot. -/
def AppliedKept (n n' : RaftNode) : Prop :=
  n.lastSnapshotIndex ≤ n.lastApplied → n'.lastSnapshotIndex ≤ n'.lastApplied

theorem AppliedKept.of_eq {n n' : RaftNode} (hindex : n'.lastSnapshotIndex = n.lastSnapshotIndex)
    (happlied : n'.lastApplied = n.lastApplied) : AppliedKept n n' := by
  intro h
  rwa [hindex, happlied]

/-- How the role may change from `n` to `n'`: who followed a leader of the current term still
does, and a leader of a term that `q` had won was leading it before. -/
structure RoleStep (H : History NodeId LogRecord) (q : NodeId) (n n' : RaftNode)
    (mem mem' : Replica LogRecord) : Prop where
  follows : ∀ t ≤ mem.term, (t = mem.term → n.role = .follower) → t = mem'.term →
    n'.role = .follower
  leads : n'.role = .leader → ∀ t ≤ mem.term, LedBy H q t → mem'.term = t →
    n.role = .leader ∧ mem.term = t
  applied : AppliedKept n n'

namespace RoleStep

variable {n : RaftNode}

theorem of_follower (h : n'.role = .follower) (happlied : AppliedKept n n') :
    RoleStep H q n n' mem mem' :=
  ⟨fun _ _ _ _ => h, fun hl => (by rw [h] at hl; cases hl), happlied⟩

theorem of_eq (hrole : n'.role = n.role) (hterm : mem'.term = mem.term)
    (happlied : AppliedKept n n') : RoleStep H q n n' mem mem' :=
  ⟨fun _ _ hf ht => hrole.trans (hf (ht.trans hterm)),
    fun hl _ _ _ ht => ⟨hrole.symm.trans hl, hterm.symm.trans ht⟩, happlied⟩

theorem of_lt (hterm : mem.term < mem'.term) (happlied : AppliedKept n n') :
    RoleStep H q n n' mem mem' :=
  ⟨fun t hle _ ht => by omega, fun _ t hle _ ht => by omega, happlied⟩

end RoleStep

theorem HandlerInv.evolve {n : RaftNode} {handler : InstallHandler Image}
    (h : HandlerInv H members n mem handler) (hev : Evolves mem mem')
    (hrole : RoleStep H q n n' mem mem') : HandlerInv H members n' mem' handler :=
  ⟨h.term_le.trans hev.term, hrole.follows _ h.term_le h.role, h.held⟩

theorem ThreadsInv.setNode (h : ThreadsInv H members q m mem) (hev : Evolves mem mem')
    (hrole : RoleStep H q m.node n' mem mem') :
    ThreadsInv H members q { m with node := n' } mem' where
  installs handler hmem := (h.installs handler hmem).evolve hev hrole
  apply := by
    have := h.apply
    revert this
    simp only
    cases m.apply with
    | free | looping => exact id
    | picked _ _ | applied _ => exact fun h => le_trans h hev.commit
    | installing handler => exact fun h => HandlerInv.evolve h hev hrole
  worker := by
    have := h.worker
    revert this
    simp only
    cases m.worker with
    | idle => exact id
    | pending => exact hrole.applied
    | captured index term _ | saved index term =>
      rintro ⟨hle, hterm⟩
      refine ⟨hle.trans hev.commit, hterm.trans ?_⟩
      rw [← termAt_take LogRecord.term (le_refl index), ← hev.take index hle,
        termAt_take LogRecord.term le_rfl]
  replicators peer := by
    have := h.replicators peer
    revert this
    simp only
    cases m.replicators peer with
    | idle | appendReturned | installReturned | append _ => exact id
    | snapshot t => exact fun h => ⟨h.1.trans hev.term, h.2⟩
    | boundary t index term => exact fun h => ⟨h.1.trans hev.term, h.2⟩
    | install call index =>
      rintro ⟨hle, hled, hheld⟩
      refine ⟨hle.trans hev.term, hled, fun hlead hterm => ?_⟩
      obtain ⟨hwas, hsame⟩ := hrole.leads hlead _ hle hled hterm
      exact hheld hwas hsame

/-- The node moves on; its new role has to be settled anew. -/
theorem ThreadsInv.process (h : ThreadsInv H members q m mem)
    (hinv : NodeInv H members q n' mem' dur') (hev : Evolves mem mem')
    (hrole : RoleStep H q m.node n' mem mem')
    (hcandidate : n'.role = .candidate →
      Campaigning H q mem' ∧ (H.Doomed mem'.term q ∨ Clean H members mem' m.snapshots))
    (hleader : n'.role = .leader →
      Leading H members q n' mem' ∧ Clean H members mem' m.snapshots) :
    ProcessInv H members q { m with node := n' } mem' dur' where
  toThreadsInv := h.setNode hev hrole
  node := hinv
  candidate := hcandidate
  leader := hleader

theorem ProcessInv.toFollower (h : ProcessInv H members q m mem dur)
    (hinv : NodeInv H members q n' mem' dur') (hev : Evolves mem mem')
    (hrole : n'.role = .follower) (happlied : AppliedKept m.node n') :
    ProcessInv H members q { m with node := n' } mem' dur' :=
  h.process hinv hev (.of_follower hrole happlied) (fun h => by rw [hrole] at h; cases h)
    fun h => by rw [hrole] at h; cases h

/-- The node keeps its role, term and log, and what it has committed. -/
theorem ProcessInv.keepRole (h : ProcessInv H members q m mem dur)
    (hinv : NodeInv H members q n' mem' dur') (hrole : n'.role = m.node.role)
    (hpeers : n'.peers = m.node.peers)
    (hmatch : ∀ peer ∈ m.node.peers, n'.matchIndex peer = m.node.matchIndex peer)
    (hterm : mem'.term = mem.term) (hlog : mem'.log = mem.log)
    (hcommit : mem'.commit = mem.commit) (happlied : AppliedKept m.node n') :
    ProcessInv H members q { m with node := n' } mem' dur' := by
  have hclean : Clean H members mem m.snapshots → Clean H members mem' m.snapshots := by
    rintro ⟨h₁, h₂⟩
    exact ⟨by rw [hterm, hlog, hcommit]; exact h₁, fun s hs => hterm ▸ h₂ s hs⟩
  refine h.process hinv ⟨hterm.ge, hcommit.ge, fun i _ => by rw [hlog]⟩
    (.of_eq hrole hterm happlied)
    (fun hc => ?_) (fun hl => ?_)
  · obtain ⟨⟨hballot, hfirst⟩, hcase⟩ := h.candidate (hrole ▸ hc)
    refine ⟨⟨by rw [hterm, hlog]; exact hballot, hterm ▸ hfirst⟩, ?_⟩
    rw [hterm]
    exact hcase.imp id hclean
  · obtain ⟨hlead, hcl⟩ := h.leader (hrole ▸ hl)
    refine ⟨⟨hterm ▸ hlead.led, by rw [hterm, hlog]; exact hlead.log, ?_, ?_⟩, hclean hcl⟩
    · rw [hterm, hlog]
      exact hlead.acked
    · intro peer hpeer
      rw [hpeers] at hpeer
      rw [hterm, hmatch peer hpeer]
      exact hlead.matched peer hpeer

/-- From `n` to `n'` the node steps down, or keeps its role and term. -/
structure Yields (n n' : RaftNode) : Prop where
  role : n'.role = .follower ∨ n'.role = n.role ∧ n'.currentTerm = n.currentTerm ∧
    n'.peers = n.peers ∧ n'.matchIndex = n.matchIndex
  applied : AppliedKept n n'

theorem Yields.refl (n : RaftNode) : Yields n n := ⟨.inr ⟨rfl, rfl, rfl, rfl⟩, id⟩

/-- The node may have learnt of a later term; log and commit index stay. -/
theorem ProcessInv.yield (h : ProcessInv H members q m mem dur) {t : Nat} (ht : mem.term ≤ t)
    (hinv : NodeInv H members q n' { mem with term := t } dur') (hyields : Yields m.node n') :
    ProcessInv H members q { m with node := n' } { mem with term := t } dur' := by
  rcases hyields.role with hrole | ⟨hrole, hterm, hpeers, hmatch⟩
  · exact h.toFollower hinv (.raise ht) hrole hyields.applied
  · have hterm' : t = mem.term := by
      rw [← h.node.represents.term, ← hterm, hinv.represents.term]
    exact h.keepRole hinv hrole hpeers (fun peer _ => congrFun hmatch peer) hterm' rfl rfl
      hyields.applied

/-- The node stays as it is. A new snapshot on disk must not show a candidate or leader what is
chosen later. -/
theorem ProcessInv.congr (h : ProcessInv H members q m mem dur) (hnode : m'.node = m.node)
    (hsnapshots : ∀ s ∈ m'.snapshots, s ∈ m.snapshots ∨
      (Clean H members mem m.snapshots → Held H members mem.term s.index s.term))
    (hinstalls : ∀ handler ∈ m'.installs, HandlerInv H members m.node mem handler)
    (happly : ApplyInv H members m.node mem m'.apply) (hworker : WorkerInv m.node mem m'.worker)
    (hreplicators : ∀ peer, ReplicatorInv H members q m.node mem peer (m'.replicators peer)) :
    ProcessInv H members q m' mem dur := by
  have hclean : Clean H members mem m.snapshots → Clean H members mem m'.snapshots := fun hc =>
    ⟨hc.commit, fun s hs => (hsnapshots s hs).elim (hc.snapshots s) fun hnew => hnew hc⟩
  refine ⟨⟨?_, ?_, ?_, ?_⟩, ?_, ?_, ?_⟩ <;> rw [hnode]
  · exact hinstalls
  · exact happly
  · exact hworker
  · exact hreplicators
  · exact h.node
  · exact fun hrole => (h.candidate hrole).imp id fun hcase => hcase.imp id hclean
  · exact fun hrole => (h.leader hrole).imp id hclean

theorem ProcessInv.same (h : ProcessInv H members q m mem dur) (hnode : m'.node = m.node)
    (hsnapshots : m'.snapshots = m.snapshots) (hinstalls : m'.installs = m.installs)
    (happly : m'.apply = m.apply) (hworker : m'.worker = m.worker)
    (hreplicators : m'.replicators = m.replicators) : ProcessInv H members q m' mem dur :=
  h.congr hnode (fun _ hs => .inl (hsnapshots ▸ hs)) (hinstalls ▸ h.installs) (happly ▸ h.apply)
    (hworker ▸ h.worker) (hreplicators ▸ h.replicators)

theorem MemberInv.of_process (hsnap : SnapshotsInv H members m.snapshots)
    (h : ProcessInv H members q m mem dur) : MemberInv H members q m :=
  ⟨hsnap, ⟨dur, h.node.durable, h.node.durSound⟩, fun _ => ⟨mem, dur, h⟩⟩

end Process

/-! ## The state before a step -/

/-- What the simulation says of the acting member and of the network. -/
structure Before {Image : Type} (cfg : ClusterConfig) (H : History NodeId LogRecord) (q : NodeId)
    (m : Member σ Image) (net : List (Message Image)) : Prop where
  mem_ids : q ∈ cfg.ids
  valid : H.Valid cfg.members LogRecord.term
  indexed : ∀ T, Indexed (H.leaderLog T)
  selfVoted : ∀ ⦃T a ℓ⦄, H.ballots T a = some ℓ → 0 < T ∧ H.votes a T a
  votes : MemberVotes cfg H.votes q m
  member : MemberInv H cfg.members q m
  net : ∀ message ∈ net, MessageInv H cfg.members message

section Before

variable {m m' : Member σ Image} {net : List (Message Image)} {outbox : Member.Outbox Image}

/-- A step that leaves the history as it is. -/
theorem Before.same (h : Before cfg H q m net)
    (hvotes : H.votes.record (-1) q m'.node.durable = H.votes)
    (hmember : MemberInv H cfg.members q m')
    (hout : ∀ message ∈ outbox, MessageInv H cfg.members message) :
    MemberStep cfg.members H q m' outbox H :=
  ⟨.refl H, h.valid, h.indexed, h.selfVoted, hvotes.symm, fun p _ => .refl H p, hmember, hout⟩

theorem Before.record_eq (h : Before cfg H q m net) (hup : m.up = true)
    (hnode : VotesKept m.node m'.node) : H.votes.record (-1) q m'.node.durable = H.votes :=
  h.votes.accounted.record_eq (h.votes.holds hup) hnode.follows

/-- A step of a running process that casts no vote and leaves the history as it is. -/
theorem Before.quiet (h : Before cfg H q m net) (hup : m.up = true)
    (hnode : VotesKept m.node m'.node) {mem dur : Replica LogRecord}
    (hsnap : SnapshotsInv H cfg.members m'.snapshots)
    (hp : ProcessInv H cfg.members q m' mem dur)
    (hout : ∀ message ∈ outbox, MessageInv H cfg.members message) :
    MemberStep cfg.members H q m' outbox H :=
  h.same (h.record_eq hup hnode) (.of_process hsnap hp) hout

/-- The votes of a member are of terms it has reached. -/
theorem Before.vote_le (h : Before cfg H q m net) (hup : m.up = true) {T : Nat} {a : NodeId}
    (hv : H.votes q T a) : T ≤ m.node.currentTerm := by
  rcases h.votes.accounted.covers_of_holds (h.votes.holds hup) hv with hlt | heq
  · exact le_of_lt hlt
  · exact (congrArg Prod.fst heq).ge

end Before

end CquptRaft
