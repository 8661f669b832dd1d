import CquptRaft.Cluster.ElectionSafety
import CquptRaft.Node.Boundaries
import CquptRaft.Replication.Leader

/-!
# The cluster against a history

`SimInv` relates a state of the cluster to a history of elections, leaders' logs and
acknowledgements: every replica is sound, a candidate has cast its ballot, a leader's log is
the one the history gives it, and every message in flight says something true about the
history.
-/

namespace CquptRaft

open Replication Voting

variable {σ : Type} {sm : IStateMachine σ} {cfg : ClusterConfig}
  {H H' : History NodeId LogRecord} {members : Finset NodeId} {q : NodeId}

/-- Member `q` has won term `t`. -/
def LedBy (H : History NodeId LogRecord) (q : NodeId) (t : Nat) : Prop :=
  ∃ e ∈ H.elections, e.term = t ∧ e.leader = q

theorem LedBy.elected {t : Nat} (h : LedBy H q t) : H.Elected t := by
  obtain ⟨e, he, hterm, -⟩ := h
  exact ⟨e, he, hterm⟩

theorem LedBy.mono {t : Nat} (h : LedBy H q t) (hext : History.Extends H H') : LedBy H' q t := by
  obtain ⟨e, he, hterm, hleader⟩ := h
  exact ⟨e, hext.elections e he, hterm, hleader⟩

theorem LedBy.unique {t : Nat} {q' : NodeId} (hH : H.Valid members LogRecord.term)
    (h : LedBy H q t) (h' : LedBy H q' t) : q = q' := by
  obtain ⟨e, he, hterm, rfl⟩ := h
  obtain ⟨e', he', hterm', rfl⟩ := h'
  rw [hH.distinct e he e' he' (hterm.trans hterm'.symm)]

/-! ## Members -/

/-- Nothing that a node of term `t` shows to others has been chosen later. -/
structure Clean {Image : Type} (H : History NodeId LogRecord) (members : Finset NodeId)
    (mem : Replica LogRecord) (snapshots : List (Snapshot Image)) : Prop where
  commit : H.ChosenBy members mem.term (mem.log.take mem.commit)
  snapshots : ∀ s ∈ snapshots, Held H members mem.term s.index s.term

/-- A candidate campaigns with its log, and has not won the term before. -/
structure Campaigning (H : History NodeId LogRecord) (q : NodeId) (mem : Replica LogRecord) :
    Prop where
  ballot : H.ballots mem.term q = some mem.log
  first : ¬ LedBy H q mem.term

/-- The entries of the term up to index `k` are acknowledged by `p`, or chosen. -/
def Matched (H : History NodeId LogRecord) (members : Finset NodeId) (T : Nat) (p : NodeId)
    (k : Nat) : Prop :=
  k ≤ (H.leaderLog T).length ∧ ∀ i, 0 < i → i ≤ k →
    termAt LogRecord.term (H.leaderLog T) i = T →
    H.acks p T i ∨ H.ChosenBy members T (H.written T i)

structure Leading (H : History NodeId LogRecord) (members : Finset NodeId) (q : NodeId)
    (n : RaftNode) (mem : Replica LogRecord) : Prop where
  led : LedBy H q mem.term
  log : mem.log = H.leaderLog mem.term
  acked : Matched H members mem.term q mem.log.length
  matched : ∀ peer ∈ n.peers, Matched H members mem.term peer (n.matchIndex peer)

/-- An install handler behind its admission check. -/
structure HandlerInv {Image : Type} (H : History NodeId LogRecord) (members : Finset NodeId)
    (n : RaftNode) (mem : Replica LogRecord) (handler : InstallHandler Image) : Prop where
  term_le : handler.request.term ≤ mem.term
  role : handler.request.term = mem.term → n.role = .follower
  held : Held H members handler.request.term handler.request.lastIncludedIndex
    handler.request.lastIncludedTerm

def ApplyInv {Image : Type} (H : History NodeId LogRecord) (members : Finset NodeId)
    (n : RaftNode) (mem : Replica LogRecord) : ApplyLock Image → Prop
  | .free | .looping => True
  | .picked index _ | .applied index => index ≤ mem.commit
  | .installing handler => HandlerInv H members n mem handler

/-- A worker is asked only when there is something behind the snapshot to capture, and the
boundary it has captured is committed. -/
def WorkerInv {Image : Type} (n : RaftNode) (mem : Replica LogRecord) :
    SnapshotWorker Image → Prop
  | .idle => True
  | .pending => n.lastSnapshotIndex ≤ n.lastApplied
  | .captured index term _ | .saved index term =>
    index ≤ mem.commit ∧ term = termAt LogRecord.term mem.log index

def ReplicatorInv (H : History NodeId LogRecord) (members : Finset NodeId) (q : NodeId)
    (n : RaftNode) (mem : Replica LogRecord) (peer : NodeId) : ReplicatorCall → Prop
  | .idle | .appendReturned | .installReturned => True
  | .append call => call.callee = peer
  | .snapshot t => t ≤ mem.term ∧ LedBy H q t
  | .boundary t index term => t ≤ mem.term ∧ LedBy H q t ∧ Held H members t index term
  | .install call index => call.term ≤ mem.term ∧ LedBy H q call.term ∧
    (n.role = .leader → mem.term = call.term → ∃ term, Held H members call.term index term)

/-- The threads of a process of member `q`. -/
structure ThreadsInv {Image : Type} (H : History NodeId LogRecord) (members : Finset NodeId)
    (q : NodeId) (m : Member σ Image) (mem : Replica LogRecord) : Prop where
  installs : ∀ handler ∈ m.installs, HandlerInv H members m.node mem handler
  apply : ApplyInv H members m.node mem m.apply
  worker : WorkerInv m.node mem m.worker
  replicators : ∀ peer, ReplicatorInv H members q m.node mem peer (m.replicators peer)

/-- A running process of member `q`. -/
structure ProcessInv {Image : Type} (H : History NodeId LogRecord) (members : Finset NodeId)
    (q : NodeId) (m : Member σ Image) (mem dur : Replica LogRecord) : Prop
    extends ThreadsInv H members q m mem where
  node : NodeInv H members q m.node mem dur
  candidate : m.node.role = .candidate →
    Campaigning H q mem ∧ (H.Doomed mem.term q ∨ Clean H members mem m.snapshots)
  leader : m.node.role = .leader → Leading H members q m.node mem ∧ Clean H members mem m.snapshots

/-- Every snapshot on disk is of a chosen prefix. -/
def SnapshotsInv {Image : Type} (H : History NodeId LogRecord) (members : Finset NodeId)
    (snapshots : List (Snapshot Image)) : Prop :=
  ∀ s ∈ snapshots, ∃ t, Held H members t s.index s.term

structure MemberInv {Image : Type} (H : History NodeId LogRecord) (members : Finset NodeId)
    (q : NodeId) (m : Member σ Image) : Prop where
  snapshots : SnapshotsInv H members m.snapshots
  durable : ∃ dur, Durable m.node.storage dur ∧ Sound H members LogRecord.term q dur
  process : m.up = true → ∃ mem dur, ProcessInv H members q m mem dur

/-! ## Messages -/

def MessageInv {Image : Type} (H : History NodeId LogRecord) (members : Finset NodeId)
    (message : Message Image) : Prop :=
  match message.payload with
  | .voteRequest request => ∃ ℓ, H.ballots request.term request.candidateId = some ℓ ∧
    request.lastLogIndex = ℓ.length ∧
    request.lastLogTerm = termAt LogRecord.term ℓ ℓ.length
  | .appendRequest request => Window H members request ∧ request.term = message.call.term
  | .appendResponse response => response.success = true →
    Matched H members message.call.term message.call.callee response.matchIndex
  | .installRequest request => Held H members request.term request.lastIncludedIndex
    request.lastIncludedTerm
  | _ => True

/-- The whole cluster. -/
structure SimInv (cfg : ClusterConfig) (H : History NodeId LogRecord)
    (c : Cluster σ sm.Image) : Prop where
  votes : VoteInv cfg H.votes c
  valid : H.Valid cfg.members LogRecord.term
  indexed : ∀ T, Indexed (H.leaderLog T)
  selfVoted : ∀ ⦃T a ℓ⦄, H.ballots T a = some ℓ → 0 < T ∧ H.votes a T a
  members : ∀ q ∈ cfg.ids, MemberInv H cfg.members q (c.members q)
  net : ∀ message ∈ c.net, MessageInv H cfg.members message

/-! ## Growing histories -/

theorem Held.mono {t index term : Nat} (h : Held H members t index term)
    (hH : H.Valid members LogRecord.term) (hext : History.Extends H H') :
    Held H' members t index term := by
  obtain ⟨π, hlen, hterm, hch⟩ := h
  exact ⟨π, hlen, hterm, hext.chosenBy hH hch⟩

/-- The history has grown without touching what member `q` did. -/
structure Untouched (H H' : History NodeId LogRecord) (q : NodeId) : Prop where
  acks : ∀ T i, H'.acks q T i → H.acks q T i
  led : ∀ T, LedBy H' q T → LedBy H q T
  log : ∀ T, LedBy H q T → H'.leaderLog T = H.leaderLog T

section Mono

variable {mem dur : Replica LogRecord} {n : RaftNode} {Image : Type}
  (hH : H.Valid members LogRecord.term) (hext : History.Extends H H')
include hH hext

theorem Clean.mono {snapshots : List (Snapshot Image)} (h : Clean H members mem snapshots) :
    Clean H' members mem snapshots :=
  ⟨hext.chosenBy hH h.commit, fun s hs => (h.snapshots s hs).mono hH hext⟩

theorem Matched.mono {T k : Nat} {p : NodeId} (h : Matched H members T p k) :
    Matched H' members T p k := by
  refine ⟨h.1.trans (hext.leaderLog T).length_le, fun i h0 hik hterm => ?_⟩
  have hi := hik.trans h.1
  rw [← termAt_of_le LogRecord.term (hext.leaderLog T) hi] at hterm
  rw [hext.written_eq hi]
  exact (h.2 i h0 hik hterm).imp (fun ha => hext.acks ha) (hext.chosenBy hH)

theorem HandlerInv.mono {handler : InstallHandler Image} (h : HandlerInv H members n mem handler) :
    HandlerInv H' members n mem handler := ⟨h.term_le, h.role, h.held.mono hH hext⟩

theorem ApplyInv.mono {lock : ApplyLock Image} (h : ApplyInv H members n mem lock) :
    ApplyInv H' members n mem lock := by
  cases lock with
  | free | looping | picked _ _ | applied _ => exact h
  | installing handler => exact HandlerInv.mono hH hext h

theorem ReplicatorInv.mono {peer : NodeId} {call : ReplicatorCall}
    (h : ReplicatorInv H members q n mem peer call) :
    ReplicatorInv H' members q n mem peer call := by
  cases call with
  | idle | appendReturned | installReturned | append _ => exact h
  | snapshot t => exact ⟨h.1, h.2.mono hext⟩
  | boundary t index term => exact ⟨h.1, h.2.1.mono hext, h.2.2.mono hH hext⟩
  | install call index =>
    refine ⟨h.1, h.2.1.mono hext, fun hrole hterm => ?_⟩
    obtain ⟨term, hheld⟩ := h.2.2 hrole hterm
    exact ⟨term, hheld.mono hH hext⟩

theorem SnapshotsInv.mono {snapshots : List (Snapshot Image)}
    (h : SnapshotsInv H members snapshots) : SnapshotsInv H' members snapshots := by
  intro s hs
  obtain ⟨t, ht⟩ := h s hs
  exact ⟨t, ht.mono hH hext⟩

theorem Leading.mono (hq : Untouched H H' q) (h : Leading H members q n mem) :
    Leading H' members q n mem := by
  have hlog := hq.log _ h.led
  exact ⟨h.led.mono hext, hlog ▸ h.log, h.acked.mono hH hext,
    fun peer hpeer => (h.matched peer hpeer).mono hH hext⟩

/-- The replicas have what their member newly acknowledged. -/
theorem NodeInv.mono (h : NodeInv H members q n mem dur)
    (hacks : ∀ T i, H'.acks q T i → H.acks q T i ∨
      (H'.written T i <+: mem.log ∧ (T ≤ mem.term ∨ i ≤ mem.snap)) ∧
      H'.written T i <+: dur.log ∧ (T ≤ dur.term ∨ i ≤ dur.snap)) :
    NodeInv H' members q n mem dur :=
  ⟨h.represents, h.durable, h.memSound.mono hH hext fun T i ha => (hacks T i ha).imp id And.left,
    h.durSound.mono hH hext fun T i ha => (hacks T i ha).imp id And.right,
    h.backed.mono hH hext, h.applied⟩

theorem ThreadsInv.mono {m : Member σ Image} (h : ThreadsInv H members q m mem) :
    ThreadsInv H' members q m mem where
  installs handler hmem := (h.installs handler hmem).mono hH hext
  apply := h.apply.mono hH hext
  worker := h.worker
  replicators peer := (h.replicators peer).mono hH hext

theorem ProcessInv.mono (hq : Untouched H H' q) {m : Member σ Image}
    (h : ProcessInv H members q m mem dur) : ProcessInv H' members q m mem dur where
  toThreadsInv := h.toThreadsInv.mono hH hext
  node := h.node.mono hH hext fun T i ha => .inl (hq.acks T i ha)
  candidate hrole := by
    obtain ⟨⟨hballot, hfirst⟩, hcase⟩ := h.candidate hrole
    exact ⟨⟨hext.ballots hballot, fun hled => hfirst (hq.led _ hled)⟩,
      hcase.imp (fun hd => hext.doomed hd) fun hc => hc.mono hH hext⟩
  leader hrole := ⟨(h.leader hrole).1.mono hH hext hq, (h.leader hrole).2.mono hH hext⟩

theorem MemberInv.mono (hq : Untouched H H' q) {m : Member σ Image}
    (h : MemberInv H members q m) : MemberInv H' members q m where
  snapshots := h.snapshots.mono hH hext
  durable := by
    obtain ⟨dur, hdur, hsound⟩ := h.durable
    exact ⟨dur, hdur, hsound.mono hH hext fun T i ha => .inl (hq.acks T i ha)⟩
  process hup := by
    obtain ⟨mem, dur, hp⟩ := h.process hup
    exact ⟨mem, dur, hp.mono hH hext hq⟩

theorem Window.mono {request : AppendEntriesRequest} (h : Window H members request) :
    Window H' members request := by
  have hle := hext.leaderLog request.term
  refine ⟨hext.elected h.elected, h.prev_le.trans hle.length_le, ?_, ?_,
    h.commit_le.trans hle.length_le, ?_⟩
  · rw [h.prevTerm, termAt_of_le LogRecord.term hle h.prev_le]
  · refine h.entries.trans ?_
    obtain ⟨s, hs⟩ := hle
    rw [← hs, List.drop_append_of_le_length h.prev_le]
    exact List.prefix_append _ _
  · rw [hext.written_eq h.commit_le]
    exact hext.chosenBy hH h.chosen

theorem MessageInv.mono {message : Message Image} (h : MessageInv H members message) :
    MessageInv H' members message := by
  revert h
  unfold MessageInv
  split
  · rintro ⟨ℓ, hℓ, hlast⟩
    exact ⟨ℓ, hext.ballots hℓ, hlast⟩
  · exact fun h => ⟨h.1.mono hH hext, h.2⟩
  · exact fun h hsuccess => (h hsuccess).mono hH hext
  · exact fun h => h.mono hH hext
  · exact id

end Mono

/-! ## One member moves -/

/-- What a step of member `q` has to establish. -/
structure MemberStep {Image : Type} (members : Finset NodeId) (H : History NodeId LogRecord)
    (q : NodeId) (m' : Member σ Image) (outbox : Member.Outbox Image)
    (H' : History NodeId LogRecord) : Prop where
  ext : History.Extends H H'
  valid : H'.Valid members LogRecord.term
  indexed : ∀ T, Indexed (H'.leaderLog T)
  selfVoted : ∀ ⦃T a ℓ⦄, H'.ballots T a = some ℓ → 0 < T ∧ H'.votes a T a
  votes : H'.votes = H.votes.record (-1) q m'.node.durable
  others : ∀ p, p ≠ q → Untouched H H' p
  member : MemberInv H' members q m'
  outbox : ∀ message ∈ outbox, MessageInv H' members message

theorem Untouched.refl (H : History NodeId LogRecord) (q : NodeId) : Untouched H H q :=
  ⟨fun _ _ h => h, fun _ h => h, fun _ _ => rfl⟩

theorem SimInv.step {c : Cluster σ sm.Image} {id : NodeId} {action : Action}
    {m : Member σ sm.Image} {outbox : Member.Outbox sm.Image} (h : SimInv cfg H c)
    (hstep : c.step sm cfg id action = some ⟨Function.update c.members id m, c.net ++ outbox⟩)
    (hm : MemberStep cfg.members H id m outbox H') :
    SimInv cfg H' ⟨Function.update c.members id m, c.net ++ outbox⟩ where
  votes := by
    have hvotes := h.votes.step hstep
    simp only [Cluster.recordVotes, Function.update_self] at hvotes
    rwa [hm.votes]
  valid := hm.valid
  indexed := hm.indexed
  selfVoted := hm.selfVoted
  members p hp := by
    by_cases hpid : p = id
    · subst hpid
      simp only [Function.update_self]
      exact hm.member
    · simp only [Function.update_of_ne hpid]
      exact (h.members p hp).mono h.valid hm.ext (hm.others p hpid)
  net message hmem := by
    rcases List.mem_append.mp hmem with hold | hnew
    · exact (h.net message hold).mono h.valid hm.ext
    · exact hm.outbox message hnew

end CquptRaft
