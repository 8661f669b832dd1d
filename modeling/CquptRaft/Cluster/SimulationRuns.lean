import CquptRaft.Cluster.SimulationSnapshots

/-!
# Guarded runs

Two sections of a node can break the simulation: an append that commits records its request
does not vouch for, and a snapshot that is sent under a term its sender no longer leads. A run
is guarded when neither happens in it. Every state of a guarded run has a history, and the
histories along the run grow.
-/

namespace CquptRaft

open Replication Voting

variable {σ : Type} {sm : IStateMachine σ} {cfg : ClusterConfig} {H H' : History NodeId LogRecord}

/-! ## Guarded steps -/

/-- The request in message `k`, when it is an `AppendEntries` request. -/
def appendRequestAt {Image : Type} (net : List (Message Image)) (k : Nat) :
    Option AppendEntriesRequest :=
  net[k]?.bind fun message =>
    match message.payload with
    | .appendRequest request => some request
    | _ => none

/-- The `AppendEntries` request an action handles. -/
def Action.appendRequest {Image : Type} (net : List (Message Image)) :
    Action → Option AppendEntriesRequest
  | .onAppendEntries k _ _ _ => appendRequestAt net k
  | _ => none

/-- The peer an action sends a snapshot to. -/
def Action.snapshotPeer : Action → Option NodeId
  | .sendSnapshot peer => some peer
  | _ => none

/-- The action of member `id` neither commits records that its request does not vouch for nor
sends a snapshot beyond the term it was read in. -/
def Cluster.Guarded {Image : Type} (c : Cluster σ Image) (id : NodeId) (action : Action) : Prop :=
  (∀ request ∈ action.appendRequest c.net, ¬ (c.members id).node.Overreaches request) ∧
    ∀ peer ∈ action.snapshotPeer, (c.members id).sendsStale peer = false

instance {Image : Type} (c : Cluster σ Image) (id : NodeId) (action : Action) :
    Decidable (c.Guarded id action) := inferInstanceAs (Decidable (_ ∧ _))

/-- Only these two kinds of action have something to guard. -/
theorem Cluster.guarded_of_none {Image : Type} {c : Cluster σ Image} {id : NodeId}
    {action : Action} (happend : action.appendRequest c.net = none)
    (hsend : action.snapshotPeer = none) : c.Guarded id action := by
  simp [Cluster.Guarded, happend, hsend]

variable (sm cfg) in
/-- Some member takes a guarded step. -/
abbrev Cluster.GuardedStep : Cluster σ sm.Image → Cluster σ sm.Image → Prop :=
  Cluster.StepWhen sm cfg Cluster.Guarded

variable (sm cfg) in
/-- `c'` can be reached from `c` by guarded steps. -/
abbrev Cluster.GuardedRun : Cluster σ sm.Image → Cluster σ sm.Image → Prop :=
  Relation.ReflTransGen (Cluster.GuardedStep sm cfg)

variable (sm cfg) in
/-- A schedule, executed as long as its steps are guarded. -/
abbrev Cluster.execGuarded : Cluster σ sm.Image → List (NodeId × Action) →
    Option (Cluster σ sm.Image) :=
  Cluster.execWhen sm cfg Cluster.Guarded

theorem Cluster.execGuarded_run {schedule : List (NodeId × Action)} {c c' : Cluster σ sm.Image}
    (h : execGuarded sm cfg c schedule = some c') : GuardedRun sm cfg c c' := execWhen_run h

/-! ## One step -/

theorem Before.memberStep {q : NodeId} {net : List (Message sm.Image)} {m m' : Member σ sm.Image}
    {action : Action} {outbox : Member.Outbox sm.Image} (h : Before cfg H q m net)
    (happend : ∀ request ∈ action.appendRequest net, ¬ m.node.Overreaches request)
    (hsend : ∀ peer ∈ action.snapshotPeer, m.sendsStale peer = false)
    (hstep : memberStep sm cfg q net m action = some (m', outbox)) :
    ∃ H', MemberStep cfg.members H q m' outbox H' := by
  rcases memberStep_cases hstep with
    ⟨hup, hstep⟩ | ⟨hdown, rfl, readable, saved, replaySaved, -, rfl⟩
  · cases action with
    | restart _ _ _ => cases hstep
    | start =>
      cases hstep
      exact ⟨H, h.idle hup (.of_eq rfl rfl rfl rfl rfl rfl) rfl rfl id
        fun _ _ hinv => ⟨_, hinv.congr rfl rfl rfl rfl rfl rfl rfl⟩⟩
    | stop =>
      cases hstep
      exact ⟨H, h.idle hup (.of_eq rfl rfl rfl rfl rfl rfl) rfl rfl id
        fun _ _ hinv => ⟨_, hinv.congr rfl rfl rfl rfl rfl rfl rfl⟩⟩
    | persist saved =>
      simp only [act] at hstep
      split at hstep <;> cases hstep
      exact ⟨H, h.idle hup (.persist .refl saved) (by simp) (by simp)
        (.of_eq (by simp) (by simp)) fun _ _ hinv => ⟨_, hinv.persist saved⟩⟩
    | crash =>
      cases hstep
      exact ⟨H, h.crash hup⟩
    | startElection saved =>
      have hstarted := h.startElection hup saved
      rwa [show m.startElection saved = (m', outbox) from Option.some.inj hstep] at hstarted
    | onRequestVote k termSaved voteSaved =>
      obtain ⟨message, hreceive, hstep⟩ := Option.bind_eq_some_iff.mp hstep
      exact h.deliverRequestVote hup (Member.receive_mem hreceive).1 hstep
    | onVoteResponse k saved =>
      obtain ⟨message, -, hstep⟩ := Option.bind_eq_some_iff.mp hstep
      exact ⟨H, h.deliverVoteResponse hup hstep⟩
    | countVote T =>
      simp only [act] at hstep
      split at hstep <;> cases hstep
      exact ⟨H, h.countVote hup T⟩
    | onElectionWon T =>
      simp only [act] at hstep
      split at hstep
      · rename_i hT
        cases hstep
        exact h.onElectionWon hup hT
      · cases hstep
    | proposeNoOp saved =>
      simp only [act] at hstep
      split at hstep <;> cases hstep
      exact h.proposeNoOp hup saved
    | propose command saved =>
      cases hstep
      exact h.propose hup _ command saved
    | proposal k step =>
      obtain ⟨_, hmoved, heq⟩ := Option.map_eq_some_iff.mp hstep
      cases heq
      exact ⟨H, h.proposal hup hmoved⟩
    | replicateOnce peer => exact ⟨H, h.replicateOnce hup hstep⟩
    | appendResponse peer k saved =>
      simp only [act] at hstep
      split at hstep
      · rename_i call hcall
        obtain ⟨message, hreceive, hstep⟩ := Option.bind_eq_some_iff.mp hstep
        obtain ⟨hmem, hthis⟩ := Member.receive_mem hreceive
        exact ⟨H, h.deliverAppendResponse hup hmem hcall (by simpa using hthis) hstep⟩
      · cases hstep
    | appendFailed peer =>
      simp only [act] at hstep
      split at hstep <;> cases hstep
      exact ⟨H, h.setReplicator hup peer (.inr (.inl rfl))⟩
    | readBoundary peer =>
      obtain ⟨_, hmoved, heq⟩ := Option.map_eq_some_iff.mp hstep
      cases heq
      exact ⟨H, h.readBoundary hup hmoved⟩
    | sendSnapshot peer => exact ⟨H, h.sendSnapshot hup (hsend peer rfl) hstep⟩
    | installResponse peer k saved =>
      simp only [act] at hstep
      split at hstep
      · rename_i call index hcall
        obtain ⟨message, hreceive, hstep⟩ := Option.bind_eq_some_iff.mp hstep
        obtain ⟨-, hthis⟩ := Member.receive_mem hreceive
        exact ⟨H, h.deliverInstallResponse hup hcall (by simpa using hthis) hstep⟩
      · cases hstep
    | installFailed peer =>
      simp only [act] at hstep
      split at hstep <;> cases hstep
      exact ⟨H, h.setReplicator hup peer (.inr (.inr rfl))⟩
    | finishRpc peer =>
      simp only [act] at hstep
      split at hstep <;> cases hstep <;> exact ⟨H, h.setReplicator hup peer (.inl rfl)⟩
    | onAppendEntries k termSaved logSaved commitSaved =>
      obtain ⟨message, hreceive, hstep⟩ := Option.bind_eq_some_iff.mp hstep
      obtain ⟨hmem, hcallee⟩ := Member.receive_mem hreceive
      refine h.deliverAppendEntries hup hmem (by simpa using hcallee) (fun request hpayload => ?_)
        hstep
      refine happend request ?_
      have hk := (Option.filter_eq_some_iff.mp hreceive).1
      simp [Action.appendRequest, appendRequestAt, hk, hpayload]
    | onInstallSnapshot k saved =>
      obtain ⟨message, hreceive, hstep⟩ := Option.bind_eq_some_iff.mp hstep
      exact ⟨H, h.deliverInstallSnapshot hup (Member.receive_mem hreceive).1 hstep⟩
    | installWrite k ok => exact ⟨H, h.installWrite hup hstep⟩
    | installSave k outcome => exact ⟨H, h.installSave hup hstep⟩
    | installLoad k ok => exact ⟨H, h.installLoad hup hstep⟩
    | installFinish saved => exact ⟨H, h.installFinish hup hstep⟩
    | applyAcquire =>
      simp only [act] at hstep
      split at hstep <;> cases hstep
      obtain ⟨mem, dur, hp⟩ := h.member.process hup
      exact ⟨H, h.keepNode hup hp rfl (fun _ hs => .inl hs) hp.installs trivial hp.worker rfl
        (by simp)⟩
    | applyPick =>
      obtain ⟨_, hmoved, heq⟩ := Option.map_eq_some_iff.mp hstep
      cases heq
      exact ⟨H, h.applyPick hup hmoved⟩
    | applyRun =>
      obtain ⟨_, hmoved, heq⟩ := Option.map_eq_some_iff.mp hstep
      cases heq
      exact ⟨H, h.applyRun hup hmoved⟩
    | applyFinish saved =>
      obtain ⟨_, hmoved, heq⟩ := Option.map_eq_some_iff.mp hstep
      cases heq
      exact ⟨H, h.applyFinish hup hmoved⟩
    | onSnapshotTimer =>
      simp only [act] at hstep
      split at hstep
      · split at hstep <;> cases hstep
        rename_i hwants
        exact ⟨H, h.onSnapshotTimer hup hwants⟩
      · cases hstep
    | workerCapture ok =>
      obtain ⟨_, hmoved, heq⟩ := Option.map_eq_some_iff.mp hstep
      cases heq
      exact ⟨H, h.workerCapture hup hmoved⟩
    | workerSave outcome =>
      obtain ⟨_, hmoved, heq⟩ := Option.map_eq_some_iff.mp hstep
      cases heq
      exact ⟨H, h.workerSave hup hmoved⟩
    | workerCompact saved =>
      obtain ⟨_, hmoved, heq⟩ := Option.map_eq_some_iff.mp hstep
      cases heq
      exact ⟨H, h.workerCompact hup hmoved⟩
    | prune upto =>
      cases hstep
      obtain ⟨mem, dur, hp⟩ := h.member.process hup
      exact ⟨H, h.keepNode hup hp rfl (fun _ hs => .inl (pruneSnapshots_mem hs)) hp.installs
        hp.apply hp.worker rfl (by simp)⟩
  · exact ⟨H, h.restart hdown readable saved replaySaved⟩

theorem SimInv.before {c : Cluster σ sm.Image} (h : SimInv cfg H c) {q : NodeId}
    (hq : q ∈ cfg.ids) : Before cfg H q (c.members q) c.net :=
  ⟨hq, h.valid, h.indexed, h.selfVoted, h.votes.members q hq, h.members q hq, h.net⟩

theorem SimInv.guardedStep {c c' : Cluster σ sm.Image} (h : SimInv cfg H c)
    (hstep : Cluster.GuardedStep sm cfg c c') :
    ∃ H', History.Extends H H' ∧ SimInv cfg H' c' := by
  obtain ⟨id, action, hguard, hstep⟩ := hstep
  obtain ⟨hid, m, outbox, hm, rfl⟩ := Cluster.step_cases hstep
  obtain ⟨H', hH'⟩ := (h.before hid).memberStep hguard.1 hguard.2 hm
  exact ⟨H', hH'.ext, h.step hstep hH'⟩

/-- Nobody leads term 0. -/
theorem SimInv.term_pos {c : Cluster σ sm.Image} (h : SimInv cfg H c) (T : Nat) :
    ∀ x ∈ H.leaderLog T, 0 < x.term := by
  intro x hx
  obtain ⟨e, he, hterm⟩ := h.valid.elected_of_mem (h.valid.leaderLog_good T) hx
  rw [← hterm]
  exact (h.selfVoted (h.valid.ballot e he)).1

/-! ## Runs -/

/-- Nothing has happened yet. -/
def emptyHistory : History NodeId LogRecord where
  elections := []
  leaderLog _ := []
  votes _ _ _ := False
  ballots _ _ := none
  acks _ _ _ := False

theorem valid_emptyHistory (members : Finset NodeId) :
    emptyHistory.Valid members LogRecord.term := by
  constructor <;> simp [emptyHistory, Votes.Unique, History.Supported]

theorem SimInv.init : SimInv cfg emptyHistory (Cluster.init sm cfg) where
  votes := VoteInv.init
  valid := valid_emptyHistory cfg.members
  indexed T i hi := absurd hi (Nat.not_lt_zero i)
  selfVoted T a ℓ h := by cases h
  members q _ := by
    refine ⟨by simp [SnapshotsInv, Cluster.init, Member.fresh], ⟨⟨0, [], 0, 0⟩, ?_, ?_⟩, ?_⟩
    · simp [Cluster.init, Member.fresh, RaftNode.recover_storage, Durable]
    · exact ⟨.nil, le_rfl, le_rfl, ⟨0, .inl rfl⟩, .inl rfl,
        fun i h0 hi => absurd hi (by simp at hi ⊢; omega), fun T i h => h.elim⟩
    · simp [Cluster.init, Member.fresh]
  net := by simp [Cluster.init]

theorem SimInv.run {c c' : Cluster σ sm.Image} (h : SimInv cfg H c)
    (hrun : Cluster.GuardedRun sm cfg c c') : ∃ H', History.Extends H H' ∧ SimInv cfg H' c' := by
  induction hrun with
  | refl => exact ⟨H, .refl H, h⟩
  | tail _ hstep ih =>
    obtain ⟨H₁, hext₁, h₁⟩ := ih
    obtain ⟨H₂, hext₂, h₂⟩ := h₁.guardedStep hstep
    exact ⟨H₂, hext₁.trans hext₂, h₂⟩

end CquptRaft
