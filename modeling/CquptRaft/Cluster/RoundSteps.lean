import CquptRaft.Cluster.Electable
import CquptRaft.Cluster.Progress

/-!
# The rounds of a leader, step by step

A round of `ReplicateOnce` as the group of a leader has it is one function on the nodes and
directories of two members. In the cluster it is a sequence of critical sections and file
operations of both, with the request and the response on the network in between. When the threads
that the round needs are free, the sequence exists and does what the function says.
-/

namespace CquptRaft

open Replication

variable {σ : Type} {sm : IStateMachine σ} {cfg : ClusterConfig}

variable (sm cfg) in
/-- The members of `Q` take steps with actions of this kind. -/
abbrev Cluster.RunBy (Q : List NodeId) (allowed : Action → Prop) :
    Cluster σ sm.Image → Cluster σ sm.Image → Prop :=
  Relation.ReflTransGen (Cluster.StepWhen sm cfg fun _ id action => id ∈ Q ∧ allowed action)

/-- The steps of members that go on: none of them stops or crashes, and whatever is saved or written
is saved and written. A call may still fail, since its answer may never come. -/
def Action.goesOn : Action → Bool
  | .startElection saved | .onVoteResponse _ saved | .proposeNoOp saved => saved
  | .onRequestVote _ termSaved voteSaved => termSaved && voteSaved
  | .countVote _ | .onElectionWon _ => true
  | .replicateOnce _ | .readBoundary _ | .sendSnapshot _ | .finishRpc _ => true
  | .appendFailed _ | .installFailed _ => true
  | .appendResponse _ _ saved | .installResponse _ _ saved => saved
  | .onAppendEntries _ termSaved logSaved commitSaved => termSaved && logSaved && commitSaved
  | .onInstallSnapshot _ saved | .installFinish saved => saved
  | .installWrite _ ok | .installLoad _ ok => ok
  | .installSave _ outcome => outcome == .ok
  | .applyPick | .applyRun | .prune _ => true
  | .applyFinish saved => saved
  | _ => false

variable (sm cfg) in
/-- The members of `Q` go on. -/
abbrev Cluster.Moves (Q : List NodeId) : Cluster σ sm.Image → Cluster σ sm.Image → Prop :=
  Cluster.RunBy sm cfg Q fun action => action.goesOn = true

theorem Cluster.exists_step {allowed : Action → Prop} {Q : List NodeId} {c : Cluster σ sm.Image}
    {id : NodeId} {action : Action} {m : Member σ sm.Image} {outbox : Member.Outbox sm.Image}
    (hQ : id ∈ Q) (hid : id ∈ cfg.ids) (hup : (c.members id).up = true) (hallowed : allowed action)
    (hact : act sm cfg id c.net (c.members id) action = some (m, outbox)) :
    ∃ c', RunBy sm cfg Q allowed c c' ∧ c'.members id = m ∧
      (∀ p, p ≠ id → c'.members p = c.members p) ∧ c'.net = c.net ++ outbox := by
  refine ⟨_, .single ⟨id, action, ⟨hQ, hallowed⟩, step_of_act hid hup hact⟩, by simp, ?_, rfl⟩
  intro p hp
  simp [Function.update_of_ne hp]

/-! ## A round with `AppendEntries` -/

namespace Cluster

/-- Leader `l` can begin a round with follower `q`. -/
structure Serves (cfg : ClusterConfig) (c : Cluster σ sm.Image) (l q : NodeId) : Prop where
  leader : l ∈ cfg.ids
  follower : q ∈ cfg.ids
  ne : q ≠ l
  leaderUp : (c.members l).up = true
  followerUp : (c.members q).up = true
  identity : (c.members l).node.nodeId = l
  peer : q ∈ (c.members l).node.peers
  idle : (c.members l).replicators q = .idle
  free : (c.members q).apply = .free

/-- What a round with follower `q` leaves as it was. -/
structure Served (c c' : Cluster σ sm.Image) (l q : NodeId) : Prop where
  others : ∀ p, p ≠ l → p ≠ q → c'.members p = c.members p
  leaderUp : (c'.members l).up = (c.members l).up
  followerUp : (c'.members q).up = (c.members q).up
  snapshots : (c'.members l).snapshots = (c.members l).snapshots
  replicators : (c'.members l).replicators = (c.members l).replicators
  free : (c'.members q).apply = .free

variable {c : Cluster σ sm.Image} {l q : NodeId}

/-- Request, response and the handling of both. -/
theorem Serves.appendRound (h : c.Serves cfg l q) {leader follower : RaftNode}
    {request : AppendEntriesRequest} {response : AppendEntriesResponse} {applies : Bool}
    (hbuild : (c.members l).node.buildAppendEntriesRequest q (c.members l).node.currentTerm =
      (leader, .append request))
    (hhandle : (c.members q).node.onAppendEntries request true true true =
      (follower, response, applies)) :
    ∃ c', Moves sm cfg [l, q] c c' ∧ Served c c' l q ∧
      (c'.members l).node =
        leader.handleAppendEntriesResponse q (c.members l).node.currentTerm response true ∧
      (c'.members q).node = follower ∧ (c'.members q).snapshots = (c.members q).snapshots := by
  obtain ⟨next, hnext⟩ := (c.members l).node.buildAppendEntriesRequest_frame q
    (c.members l).node.currentTerm
  have hterm : leader.currentTerm = (c.members l).node.currentTerm := by
    rw [hbuild] at hnext
    simp only at hnext
    rw [hnext]
  -- the leader sends
  obtain ⟨call, hcall⟩ : ∃ call : CallId,
      call = ⟨leader.nodeId, q, leader.currentTerm, (c.members l).rpcStarted⟩ := ⟨_, rfl⟩
  have hsend : act sm cfg l c.net (c.members l) (.replicateOnce q) =
      some ({ c.members l with
        node := leader, rpcStarted := (c.members l).rpcStarted + 1 }.setReplicator q (.append call),
        [⟨call, .appendRequest request⟩]) := by
    simp [act, Member.replicateOnce, h.idle, h.peer, hbuild, hcall]
  obtain ⟨c₁, hrun₁, hl₁, hothers₁, hnet₁⟩ : ∃ c', Moves sm cfg [l, q] c c' ∧ _ :=
    exists_step (by simp) h.leader h.leaderUp rfl hsend
  -- the follower handles the request
  obtain ⟨i, hreceive⟩ := Member.exists_receive
    (show (⟨call, .appendRequest request⟩ : Message sm.Image) ∈ c₁.net by simp [hnet₁])
  have hq₁ : c₁.members q = c.members q := hothers₁ q h.ne
  have hi : Member.receive c₁.net i (fun other => other.callee == q) =
      some ⟨call, .appendRequest request⟩ := hreceive _ (by simp [hcall])
  have hget : act sm cfg q c₁.net (c₁.members q) (.onAppendEntries i true true true) =
      some ({ c.members q with node := follower }, [⟨call, .appendResponse response⟩]) := by
    simp only [act, hi, Option.bind_eq_bind, Option.bind_some, Member.deliverAppendEntries, hq₁,
      hhandle]
  obtain ⟨c₂, hrun₂, hq₂, hothers₂, hnet₂⟩ : ∃ c', Moves sm cfg [l, q] c₁ c' ∧ _ :=
    exists_step (by simp) h.follower (by rw [hq₁]; exact h.followerUp) rfl hget
  -- the leader handles the response
  obtain ⟨j, hreceive⟩ := Member.exists_receive
    (show (⟨call, .appendResponse response⟩ : Message sm.Image) ∈ c₂.net by simp [hnet₂])
  have hl₂ := (hothers₂ l h.ne.symm).trans hl₁
  have hj : Member.receive c₂.net j (fun other => other == call) =
      some ⟨call, .appendResponse response⟩ := hreceive _ (by simp)
  have hanswer : act sm cfg l c₂.net (c₂.members l) (.appendResponse q j true) =
      some ({ c₂.members l with
        node := leader.handleAppendEntriesResponse q (c.members l).node.currentTerm response true
        }.setReplicator q .appendReturned, []) := by
    have hin : (c₂.members l).replicators q = .append call := by simp [hl₂, Member.setReplicator]
    have hnode : (c₂.members l).node = leader := by simp [hl₂, Member.setReplicator]
    have hcallTerm : call.term = (c.members l).node.currentTerm := by simp [hcall, hterm]
    simp only [act, hin, hj, Option.bind_eq_bind, Option.bind_some, Member.deliverAppendResponse,
      hnode, hcallTerm]
  have hup₂ : (c₂.members l).up = true := by simpa [hl₂, Member.setReplicator] using h.leaderUp
  obtain ⟨c₃, hrun₃, hl₃, hothers₃, hnet₃⟩ : ∃ c', Moves sm cfg [l, q] c₂ c' ∧ _ :=
    exists_step (by simp) h.leader hup₂ rfl hanswer
  -- and ends the call
  have hend : act sm cfg l c₃.net (c₃.members l) (.finishRpc q) =
      some ((c₃.members l).setReplicator q .idle, []) := by
    have hin : (c₃.members l).replicators q = .appendReturned := by
      simp [hl₃, Member.setReplicator]
    simp only [act, hin]
  have hup₃ : (c₃.members l).up = true := by simpa [hl₃, Member.setReplicator] using hup₂
  obtain ⟨c₄, hrun₄, hl₄, hothers₄, hnet₄⟩ : ∃ c', Moves sm cfg [l, q] c₃ c' ∧ _ :=
    exists_step (by simp) h.leader hup₃ rfl hend
  have hq₄ : c₄.members q = { c.members q with node := follower } :=
    ((hothers₄ q h.ne).trans (hothers₃ q h.ne)).trans hq₂
  refine ⟨c₄, ((hrun₁.trans hrun₂).trans hrun₃).trans hrun₄, ?_, ?_, ?_, ?_⟩
  · constructor
    · intro p hpl hpq
      rw [hothers₄ p hpl, hothers₃ p hpl, hothers₂ p hpq, hothers₁ p hpl]
    · simp [hl₄, hl₃, hl₂, Member.setReplicator]
    · simp [hq₄]
    · simp [hl₄, hl₃, hl₂, Member.setReplicator]
    · simp only [hl₄, hl₃, hl₂, Member.setReplicator, Function.update_idem]
      rw [← h.idle]
      exact Function.update_eq_self q _
    · simpa [hq₄] using h.free
  · simp [hl₄, hl₃, Member.setReplicator]
  · simp [hq₄]
  · simp [hq₄]

/-! ## `OnInstallSnapshot` from its request to its response -/

/-- Handler `k` of member `q` is under way, and no other thread has moved. -/
structure Installing (c₀ c : Cluster σ sm.Image) (q : NodeId) (k : Nat)
    (handler : InstallHandler sm.Image) (node : RaftNode) (dir : List (Snapshot sm.Image)) :
    Prop where
  others : ∀ p, p ≠ q → c.members p = c₀.members p
  up : (c.members q).up = true
  free : (c.members q).apply = .free
  node : (c.members q).node = node
  snapshots : (c.members q).snapshots = dir
  stands : (c.members q).installs[k]? = some handler
  temp : handler.phase = .written →
    (c.members q).installTemp = some handler.request.snapshotData

/-- The handler has answered. -/
structure Installed (c₀ c : Cluster σ sm.Image) (q : NodeId) (call : CallId) (node : RaftNode)
    (dir : List (Snapshot sm.Image)) (response : InstallSnapshotResponse) : Prop where
  others : ∀ p, p ≠ q → c.members p = c₀.members p
  up : (c.members q).up = true
  free : (c.members q).apply = .free
  node : (c.members q).node = node
  snapshots : (c.members q).snapshots = dir
  answered : (⟨call, .installResponse response⟩ : Message sm.Image) ∈ c.net

variable {c₀ : Cluster σ sm.Image} {Q : List NodeId} {k : Nat} {handler : InstallHandler sm.Image}
  {node : RaftNode} {dir dir' : List (Snapshot sm.Image)}

theorem Installing.write (h : Installing c₀ c q k handler node dir) (hQ : q ∈ Q)
    (hq : q ∈ cfg.ids) (hphase : handler.phase = .checked) :
    ∃ c', Moves sm cfg Q c c' ∧
      Installing c₀ c' q k { handler with phase := .written } node dir := by
  have hact : act sm cfg q c.net (c.members q) (.installWrite k true) =
      some ({ (c.members q).advanceInstall k handler .written with
        installTemp := some handler.request.snapshotData }, []) := by
    simp [act, Member.installWrite, h.stands, hphase]
  obtain ⟨c', hrun, hm, hothers, -⟩ : ∃ c', Moves sm cfg Q c c' ∧ _ :=
    exists_step hQ hq h.up rfl hact
  refine ⟨c', hrun, ?_⟩
  obtain ⟨hk, -⟩ := List.getElem?_eq_some_iff.mp h.stands
  constructor
  · intro p hp
    exact (hothers p hp).trans (h.others p hp)
  · simpa [hm, Member.advanceInstall] using h.up
  · simpa [hm, Member.advanceInstall] using h.free
  · simpa [hm, Member.advanceInstall] using h.node
  · simpa [hm, Member.advanceInstall] using h.snapshots
  · simp [hm, Member.advanceInstall, hk]
  · simp [hm]

theorem Installing.save (h : Installing c₀ c q k handler node dir) (hQ : q ∈ Q)
    (hq : q ∈ cfg.ids) (hphase : handler.phase = .written)
    (hsave : saveSnapshotFile dir (some handler.request.snapshotData)
      handler.request.lastIncludedIndex handler.request.lastIncludedTerm .ok = (dir', true)) :
    ∃ c', Moves sm cfg Q c c' ∧
      Installing c₀ c' q k { handler with phase := .saved } node dir' := by
  have hact : act sm cfg q c.net (c.members q) (.installSave k .ok) =
      some ({ (c.members q).advanceInstall k handler .saved with
        snapshots := dir', installTemp := none }, []) := by
    simp [act, Member.installSave, h.stands, hphase, h.snapshots, h.temp hphase, hsave]
  obtain ⟨c', hrun, hm, hothers, -⟩ : ∃ c', Moves sm cfg Q c c' ∧ _ :=
    exists_step hQ hq h.up rfl hact
  refine ⟨c', hrun, ?_⟩
  obtain ⟨hk, -⟩ := List.getElem?_eq_some_iff.mp h.stands
  constructor
  · intro p hp
    exact (hothers p hp).trans (h.others p hp)
  · simpa [hm, Member.advanceInstall] using h.up
  · simpa [hm, Member.advanceInstall] using h.free
  · simpa [hm, Member.advanceInstall] using h.node
  · simp [hm]
  · simp [hm, Member.advanceInstall, hk]
  · simp

/-- A handler that gives up. -/
theorem Installing.fail {action : Action} {m : Member σ sm.Image} {message : String}
    (h : Installing c₀ c q k handler node dir) (hQ : q ∈ Q) (hq : q ∈ cfg.ids)
    (hgoesOn : action.goesOn = true)
    (hact : act sm cfg q c.net (c.members q) action = some (m.failInstall k handler message))
    (hup : m.up = (c.members q).up) (hfree : m.apply = (c.members q).apply)
    (hnode : m.node = (c.members q).node) (hdir : m.snapshots = dir') :
    ∃ c', Moves sm cfg Q c c' ∧ Installed c₀ c' q handler.call node dir'
      { handler.response with message := message } := by
  obtain ⟨c', hrun, hm, hothers, hnet⟩ : ∃ c', Moves sm cfg Q c c' ∧ _ :=
    exists_step hQ hq h.up hgoesOn hact
  refine ⟨c', hrun, ?_⟩
  constructor
  · intro p hp
    exact (hothers p hp).trans (h.others p hp)
  · simpa [hm, hup] using h.up
  · simpa [hm, hfree] using h.free
  · simpa [hm, hnode] using h.node
  · simpa [hm] using hdir
  · simp [hnet]

/-- Load, finish and prune. -/
theorem Installing.finish (h : Installing c₀ c q k handler node dir) (hQ : q ∈ Q)
    (hq : q ∈ cfg.ids) (hphase : handler.phase = .saved) {kv : σ}
    (hload : ((dir.find? fun s => s.index == handler.request.lastIncludedIndex).bind
      fun s => sm.loadSnapshot s.image) = some kv) {node' : RaftNode}
    {response : InstallSnapshotResponse}
    (hfinish : node.installFinish handler.request handler.response true = (node', response)) :
    ∃ c', Moves sm cfg Q c c' ∧ Installed c₀ c' q handler.call node'
      (pruneSnapshots dir (cfg.snapshot q).maxSnapshotCount dir.length) response := by
  have hact₁ : act sm cfg q c.net (c.members q) (.installLoad k true) =
      some ({ c.members q with
        kv, installs := (c.members q).installs.eraseIdx k, apply := .installing handler }, []) := by
    simp only [act, Member.installLoad, h.stands, h.free, h.snapshots, hphase, hload, if_true]
  obtain ⟨c₁, hrun₁, hm₁, hothers₁, -⟩ : ∃ c', Moves sm cfg Q c c' ∧ _ :=
    exists_step hQ hq h.up rfl hact₁
  have hact₂ : act sm cfg q c₁.net (c₁.members q) (.installFinish true) =
      some ({ c₁.members q with node := node', apply := .free },
        [⟨handler.call, .installResponse response⟩]) := by
    have hlock : (c₁.members q).apply = .installing handler := by simp [hm₁]
    have hnode : (c₁.members q).node = node := by simpa [hm₁] using h.node
    simp only [act, Member.installFinish, hlock, hnode, hfinish]
  obtain ⟨c₂, hrun₂, hm₂, hothers₂, hnet₂⟩ : ∃ c', Moves sm cfg Q c₁ c' ∧ _ :=
    exists_step hQ hq (by simpa [hm₁] using h.up) rfl hact₂
  have hact₃ : act sm cfg q c₂.net (c₂.members q) (.prune dir.length) =
      some ({ c₂.members q with
        snapshots := pruneSnapshots dir (cfg.snapshot q).maxSnapshotCount dir.length }, []) := by
    have hdir : (c₂.members q).snapshots = dir := by simpa [hm₂, hm₁] using h.snapshots
    simp only [act, hdir]
  obtain ⟨c₃, hrun₃, hm₃, hothers₃, hnet₃⟩ : ∃ c', Moves sm cfg Q c₂ c' ∧ _ :=
    exists_step hQ hq (by simpa [hm₂, hm₁] using h.up) rfl hact₃
  refine ⟨c₃, (hrun₁.trans hrun₂).trans hrun₃, ?_⟩
  constructor
  · intro p hp
    rw [hothers₃ p hp, hothers₂ p hp, hothers₁ p hp, h.others p hp]
  · simpa [hm₃, hm₂, hm₁] using h.up
  · simp [hm₃, hm₂]
  · simp [hm₃, hm₂]
  · simp [hm₃]
  · simp [hnet₃, hnet₂]

/-- A request that has arrived is handled to the end as `onInstallSnapshot` says. -/
theorem install {call : CallId} {request : InstallSnapshotRequest sm.Image} (hQ : q ∈ Q)
    (hq : q ∈ cfg.ids) (hup : (c.members q).up = true) (hfree : (c.members q).apply = .free)
    (henabled : (cfg.snapshot q).enabled = true) (hcall : call.callee = q)
    (hmem : (⟨call, .installRequest request⟩ : Message sm.Image) ∈ c.net)
    {node : RaftNode} {dir : List (Snapshot sm.Image)} {response : InstallSnapshotResponse}
    (hinstall : (c.members q).node.onInstallSnapshot sm (c.members q).snapshots
      (cfg.snapshot q).maxSnapshotCount request = (node, dir, response)) :
    ∃ c', Moves sm cfg Q c c' ∧ Installed c c' q call node dir response := by
  obtain ⟨i, hreceive⟩ := Member.exists_receive hmem
  have hi : Member.receive c.net i (fun other => other.callee == q) =
      some ⟨call, .installRequest request⟩ := hreceive _ (by simp [hcall])
  have hact : act sm cfg q c.net (c.members q) (.onInstallSnapshot i true) =
      some ((c.members q).onInstallSnapshot true call request true) := by
    simp only [act, hi, Option.bind_eq_bind, Option.bind_some, Member.deliverInstallSnapshot,
      henabled]
  unfold RaftNode.onInstallSnapshot at hinstall
  unfold Member.onInstallSnapshot at hact
  generalize (c.members q).node.installCheck true request true = check at hinstall hact
  obtain ⟨n, answer⟩ := check
  cases answer with
  | some answer =>
    simp only [Prod.mk.injEq] at hinstall hact
    obtain ⟨rfl, rfl, rfl⟩ := hinstall
    obtain ⟨c', hrun, hm, hothers, hnet⟩ : ∃ c', Moves sm cfg Q c c' ∧ _ :=
      exists_step hQ hq hup rfl hact
    refine ⟨c', hrun, hothers, ?_, ?_, ?_, ?_, ?_⟩
    · simpa [hm] using hup
    · simpa [hm] using hfree
    · simp [hm]
    · simp [hm]
    · simp [hnet]
  | none =>
    simp only at hinstall hact
    obtain ⟨c₁, hrun₁, hm₁, hothers₁, -⟩ : ∃ c', Moves sm cfg Q c c' ∧ _ :=
      exists_step hQ hq hup rfl hact
    have hchecked : Installing c c₁ q (c.members q).installs.length
        ⟨call, request, (c.members q).node.installResponse, .checked⟩ n
        (c.members q).snapshots := by
      refine ⟨hothers₁, ?_, ?_, ?_, ?_, ?_, ?_⟩
      · simpa [hm₁] using hup
      · simpa [hm₁] using hfree
      · simp [hm₁]
      · simp [hm₁]
      · simp [hm₁]
      · simp
    obtain ⟨c₂, hrun₂, hwritten⟩ := hchecked.write hQ hq rfl
    have hrun := hrun₁.trans hrun₂
    generalize hsave : saveSnapshotFile (c.members q).snapshots (some request.snapshotData)
      request.lastIncludedIndex request.lastIncludedTerm .ok = saved at hinstall
    obtain ⟨dir', ok⟩ := saved
    cases ok with
    | false =>
      simp only [Prod.mk.injEq] at hinstall
      obtain ⟨rfl, rfl, rfl⟩ := hinstall
      have hfails : act sm cfg q c₂.net (c₂.members q)
          (.installSave (c.members q).installs.length .ok) =
          some ({ c₂.members q with snapshots := dir', installTemp := none }.failInstall
            (c.members q).installs.length
            ⟨call, request, (c.members q).node.installResponse, .written⟩
            "persist installed snapshot failed") := by
        simp only [act, Member.installSave, hwritten.stands, hwritten.snapshots,
          hwritten.temp rfl, hsave, if_true]
      obtain ⟨c₃, hrun₃, hdone⟩ := hwritten.fail hQ hq rfl hfails rfl rfl rfl rfl
      exact ⟨c₃, hrun.trans hrun₃, hdone⟩
    | true =>
      simp only at hinstall
      obtain ⟨c₃, hrun₃, hsaved⟩ := hwritten.save hQ hq rfl hsave
      cases hload : (dir'.find? fun s => s.index == request.lastIncludedIndex).bind
          fun s => sm.loadSnapshot s.image with
      | none =>
        simp only [hload, Prod.mk.injEq] at hinstall
        obtain ⟨rfl, rfl, rfl⟩ := hinstall
        have hfails : act sm cfg q c₃.net (c₃.members q)
            (.installLoad (c.members q).installs.length true) =
            some ((c₃.members q).failInstall (c.members q).installs.length
              ⟨call, request, (c.members q).node.installResponse, .saved⟩
              "load installed snapshot failed") := by
          simp only [act, Member.installLoad, hsaved.stands, hsaved.free, hsaved.snapshots,
            hload, if_true]
        obtain ⟨c₄, hrun₄, hdone⟩ := hsaved.fail hQ hq rfl hfails rfl rfl rfl hsaved.snapshots
        exact ⟨c₄, (hrun.trans hrun₃).trans hrun₄, hdone⟩
      | some kv =>
        simp only [hload, Prod.mk.injEq] at hinstall
        obtain ⟨rfl, rfl, rfl⟩ := hinstall
        obtain ⟨c₄, hrun₄, hdone⟩ := hsaved.finish hQ hq rfl hload rfl
        exact ⟨c₄, (hrun.trans hrun₃).trans hrun₄, hdone⟩

/-! ## A round with `InstallSnapshot` -/

theorem exists_finishRpc (hQ : l ∈ Q) (hl : l ∈ cfg.ids) (hup : (c.members l).up = true)
    (hreturned : (c.members l).replicators q = .installReturned) :
    ∃ c', Moves sm cfg Q c c' ∧ c'.members l = (c.members l).setReplicator q .idle ∧
      ∀ p, p ≠ l → c'.members p = c.members p := by
  have hact : act sm cfg l c.net (c.members l) (.finishRpc q) =
      some ((c.members l).setReplicator q .idle, []) := by
    simp only [act, hreturned]
  obtain ⟨c', hrun, hm, hothers, -⟩ : ∃ c', Moves sm cfg Q c c' ∧ _ :=
    exists_step hQ hl hup rfl hact
  exact ⟨c', hrun, hm, hothers⟩

/-- The leader has no snapshot to send. -/
theorem Serves.sendsNothing (h : c.Serves cfg l q) {c₁ : Cluster σ sm.Image} {leader : RaftNode}
    {call : ReplicatorCall} (hrun : Moves sm cfg [l, q] c c₁)
    (hl₁ : c₁.members l = { c.members l with node := leader }.setReplicator q call)
    (hothers₁ : ∀ p, p ≠ l → c₁.members p = c.members p)
    {action : Action} (hgoesOn : action.goesOn = true)
    (hact : act sm cfg l c₁.net (c₁.members l) action =
      some ((c₁.members l).setReplicator q .installReturned, [])) :
    ∃ c', Moves sm cfg [l, q] c c' ∧ Served c c' l q ∧ (c'.members l).node = leader ∧
      c'.members q = c.members q := by
  have hup₁ : (c₁.members l).up = true := by simpa [hl₁, Member.setReplicator] using h.leaderUp
  obtain ⟨c₂, hrun₂, hl₂, hothers₂, -⟩ : ∃ c', Moves sm cfg [l, q] c₁ c' ∧ _ :=
    exists_step (by simp) h.leader hup₁ hgoesOn hact
  obtain ⟨c₃, hrun₃, hl₃, hothers₃⟩ : ∃ c', Moves sm cfg [l, q] c₂ c' ∧ _ :=
    exists_finishRpc (by simp) h.leader (by simpa [hl₂, Member.setReplicator] using hup₁)
      (show (c₂.members l).replicators q = .installReturned by simp [hl₂, Member.setReplicator])
  have hsame : ∀ p, p ≠ l → c₃.members p = c.members p := by
    intro p hp
    rw [hothers₃ p hp, hothers₂ p hp, hothers₁ p hp]
  refine ⟨c₃, (hrun.trans hrun₂).trans hrun₃, ?_, ?_, hsame q h.ne⟩
  · constructor
    · intro p hpl _
      exact hsame p hpl
    · simp [hl₃, hl₂, hl₁, Member.setReplicator]
    · rw [hsame q h.ne]
    · simp [hl₃, hl₂, hl₁, Member.setReplicator]
    · simp only [hl₃, hl₂, hl₁, Member.setReplicator, Function.update_idem]
      rw [← h.idle]
      exact Function.update_eq_self q _
    · rw [hsame q h.ne]
      exact h.free
  · simp [hl₃, hl₂, hl₁, Member.setReplicator]

/-- The leader sends a snapshot, and the follower installs it. -/
theorem Serves.sendsSnapshot (h : c.Serves cfg l q) (henabled : (cfg.snapshot q).enabled = true)
    {c₁ : Cluster σ sm.Image} {leader : RaftNode} {index term : Nat}
    (hrun₁ : Moves sm cfg [l, q] c c₁)
    (hl₁ : c₁.members l = { c.members l with node := leader }.setReplicator q
      (.boundary leader.currentTerm index term))
    (hothers₁ : ∀ p, p ≠ l → c₁.members p = c.members p) {snapshot : Snapshot sm.Image}
    (hchoose : chooseSnapshot (c.members l).snapshots index term = some snapshot)
    {follower : RaftNode} {dir : List (Snapshot sm.Image)} {response : InstallSnapshotResponse}
    (hinstall : (c.members q).node.onInstallSnapshot sm (c.members q).snapshots
      (cfg.snapshot q).maxSnapshotCount
      ⟨leader.currentTerm, leader.nodeId, snapshot.index, snapshot.term, snapshot.image⟩ =
        (follower, dir, response)) :
    ∃ c', Moves sm cfg [l, q] c c' ∧ Served c c' l q ∧
      (c'.members l).node = leader.handleInstallSnapshotResponse q leader.currentTerm
        snapshot.index response true ∧
      (c'.members q).node = follower ∧ (c'.members q).snapshots = dir := by
  obtain ⟨call, hcall⟩ : ∃ call : CallId,
      call = ⟨leader.nodeId, q, leader.currentTerm, (c.members l).rpcStarted⟩ := ⟨_, rfl⟩
  have hup₁ : (c₁.members l).up = true := by simpa [hl₁, Member.setReplicator] using h.leaderUp
  have hsend : act sm cfg l c₁.net (c₁.members l) (.sendSnapshot q) =
      some ({ c₁.members l with rpcStarted := (c.members l).rpcStarted + 1 }.setReplicator q
        (.install call snapshot.index), [⟨call, .installRequest ⟨leader.currentTerm, leader.nodeId,
          snapshot.index, snapshot.term, snapshot.image⟩⟩]) := by
    simp [act, Member.sendSnapshot, hl₁, Member.setReplicator, hchoose, hcall]
  obtain ⟨c₂, hrun₂, hl₂, hothers₂, hnet₂⟩ : ∃ c', Moves sm cfg [l, q] c₁ c' ∧ _ :=
    exists_step (by simp) h.leader hup₁ rfl hsend
  have hq₂ : c₂.members q = c.members q := (hothers₂ q h.ne).trans (hothers₁ q h.ne)
  -- the follower installs
  have hsent : (⟨call, .installRequest ⟨leader.currentTerm, leader.nodeId, snapshot.index,
      snapshot.term, snapshot.image⟩⟩ : Message sm.Image) ∈ c₂.net := by simp [hnet₂]
  rw [← hq₂] at hinstall
  obtain ⟨c₃, hrun₃, hdone⟩ : ∃ c', Moves sm cfg [l, q] c₂ c' ∧ _ :=
    install (by simp) h.follower (by rw [hq₂]; exact h.followerUp) (by rw [hq₂]; exact h.free)
      henabled (by simp [hcall]) hsent hinstall
  -- the leader handles the response
  obtain ⟨j, hreceive⟩ := Member.exists_receive hdone.answered
  have hj : Member.receive c₃.net j (fun other => other == call) =
      some ⟨call, .installResponse response⟩ := hreceive _ (by simp)
  have hl₃ := (hdone.others l h.ne.symm).trans hl₂
  have hanswer : act sm cfg l c₃.net (c₃.members l) (.installResponse q j true) =
      some ({ c₃.members l with
        node := leader.handleInstallSnapshotResponse q leader.currentTerm snapshot.index response
          true }.setReplicator q .installReturned, []) := by
    have hin : (c₃.members l).replicators q = .install call snapshot.index := by
      simp [hl₃, Member.setReplicator]
    have hnode : (c₃.members l).node = leader := by simp [hl₃, hl₁, Member.setReplicator]
    have hcallTerm : call.term = leader.currentTerm := by simp [hcall]
    simp only [act, hin, hj, Option.bind_eq_bind, Option.bind_some, Member.deliverInstallResponse,
      hnode, hcallTerm]
  have hup₃ : (c₃.members l).up = true := by simpa [hl₃, Member.setReplicator] using hup₁
  obtain ⟨c₄, hrun₄, hl₄, hothers₄, -⟩ : ∃ c', Moves sm cfg [l, q] c₃ c' ∧ _ :=
    exists_step (by simp) h.leader hup₃ rfl hanswer
  obtain ⟨c₅, hrun₅, hl₅, hothers₅⟩ : ∃ c', Moves sm cfg [l, q] c₄ c' ∧ _ :=
    exists_finishRpc (by simp) h.leader (by simpa [hl₄, Member.setReplicator] using hup₃)
      (show (c₄.members l).replicators q = .installReturned by simp [hl₄, Member.setReplicator])
  have hq₅ : c₅.members q = c₃.members q := (hothers₅ q h.ne).trans (hothers₄ q h.ne)
  refine ⟨c₅, (((hrun₁.trans hrun₂).trans hrun₃).trans hrun₄).trans hrun₅, ?_, ?_, ?_, ?_⟩
  · constructor
    · intro p hpl hpq
      rw [hothers₅ p hpl, hothers₄ p hpl, hdone.others p hpq, hothers₂ p hpl, hothers₁ p hpl]
    · simp [hl₅, hl₄, hl₃, hl₁, Member.setReplicator]
    · rw [hq₅, hdone.up, h.followerUp]
    · simp [hl₅, hl₄, hl₃, hl₁, Member.setReplicator]
    · simp only [hl₅, hl₄, hl₃, hl₁, Member.setReplicator, Function.update_idem]
      rw [← h.idle]
      exact Function.update_eq_self q _
    · rw [hq₅]
      exact hdone.free
  · simp [hl₅, hl₄, Member.setReplicator]
  · rw [hq₅]
    exact hdone.node
  · rw [hq₅]
    exact hdone.snapshots

/-- The leader sends the snapshot at its boundary, if it has one to send. -/
theorem Serves.snapshotRound (h : c.Serves cfg l q) (henabled : (cfg.snapshot q).enabled = true)
    {leader : RaftNode} (hrunning : leader.running = true) (hrole : leader.role = .leader)
    (hbuild : (c.members l).node.buildAppendEntriesRequest q (c.members l).node.currentTerm =
      (leader, .snapshot)) {s : Link sm.Image}
    (hs : { (c.group l).link q with leader }.sendInstallSnapshotToPeer sm
      (cfg.snapshot q).maxSnapshotCount q = s) :
    ∃ c', Moves sm cfg [l, q] c c' ∧ Served c c' l q ∧ (c'.members l).node = s.leader ∧
      (c'.members q).node = s.follower ∧ (c'.members q).snapshots = s.followerSnapshots := by
  -- the leader turns to its snapshot
  have hturn : act sm cfg l c.net (c.members l) (.replicateOnce q) =
      some ({ c.members l with node := leader }.setReplicator q (.snapshot leader.currentTerm),
        []) := by
    simp [act, Member.replicateOnce, h.idle, h.peer, hbuild]
  obtain ⟨c₁, hrun₁, hl₁, hothers₁, -⟩ : ∃ c', Moves sm cfg [l, q] c c' ∧ _ :=
    exists_step (by simp) h.leader h.leaderUp rfl hturn
  have hnode₁ : (c₁.members l).node = leader := by simp [hl₁, Member.setReplicator]
  have hin₁ : (c₁.members l).replicators q = .snapshot leader.currentTerm := by
    simp [hl₁, Member.setReplicator]
  have hup₁ : (c₁.members l).up = true := by simpa [hl₁, Member.setReplicator] using h.leaderUp
  unfold Link.sendInstallSnapshotToPeer at hs
  simp only [Group.link, Cluster.group] at hs
  by_cases hzero : leader.lastSnapshotIndex = 0
  · rw [if_pos hzero] at hs
    have hreturn : act sm cfg l c₁.net (c₁.members l) (.readBoundary q) =
        some ((c₁.members l).setReplicator q .installReturned, []) := by
      simp [act, Member.readBoundary, hin₁, hnode₁, hzero]
    obtain ⟨c', hrun, hserved, hnode, hq⟩ := h.sendsNothing hrun₁ hl₁ hothers₁ rfl hreturn
    rw [← hs]
    exact ⟨c', hrun, hserved, hnode, by rw [hq], by rw [hq]⟩
  · rw [if_neg hzero] at hs
    have hread : act sm cfg l c₁.net (c₁.members l) (.readBoundary q) =
        some ((c₁.members l).setReplicator q (.boundary leader.currentTerm
          leader.lastSnapshotIndex leader.lastSnapshotTerm), []) := by
      simp [act, Member.readBoundary, hin₁, hnode₁, hzero, hrunning, hrole]
    obtain ⟨c₂, hrun₂, hl₂, hothers₂, -⟩ : ∃ c', Moves sm cfg [l, q] c₁ c' ∧ _ :=
      exists_step (by simp) h.leader hup₁ rfl hread
    have hl₂' : c₂.members l = { c.members l with node := leader }.setReplicator q (.boundary
        leader.currentTerm leader.lastSnapshotIndex leader.lastSnapshotTerm) := by
      simp [hl₂, hl₁, Member.setReplicator]
    have hothers₂' : ∀ p, p ≠ l → c₂.members p = c.members p := by
      intro p hp
      rw [hothers₂ p hp, hothers₁ p hp]
    have hin₂ : (c₂.members l).replicators q = .boundary leader.currentTerm
        leader.lastSnapshotIndex leader.lastSnapshotTerm := by
      simp [hl₂', Member.setReplicator]
    have hdir₂ : (c₂.members l).snapshots = (c.members l).snapshots := by
      simp [hl₂', Member.setReplicator]
    cases hchoose : chooseSnapshot (c.members l).snapshots leader.lastSnapshotIndex
        leader.lastSnapshotTerm with
    | none =>
      rw [hchoose] at hs
      have hreturn : act sm cfg l c₂.net (c₂.members l) (.sendSnapshot q) =
          some ((c₂.members l).setReplicator q .installReturned, []) := by
        simp [act, Member.sendSnapshot, hin₂, hdir₂, hchoose]
      obtain ⟨c', hrun, hserved, hnode, hq⟩ :=
        h.sendsNothing (hrun₁.trans hrun₂) hl₂' hothers₂' rfl hreturn
      rw [← hs]
      exact ⟨c', hrun, hserved, hnode, by rw [hq], by rw [hq]⟩
    | some snapshot =>
      rw [hchoose] at hs
      simp only at hs
      rw [← hs]
      exact h.sendsSnapshot henabled (hrun₁.trans hrun₂) hl₂' hothers₂' hchoose rfl

end Cluster

/-- Only a running leader has something to send. -/
theorem RaftNode.leads_of_build {n n' : RaftNode} {peer : NodeId} {leaderTerm : Nat}
    {shipment : Shipment} (h : n.buildAppendEntriesRequest peer leaderTerm = (n', shipment))
    (hsome : shipment ≠ .none) : n'.running = true ∧ n'.role = .leader := by
  have hgo : ¬ ((!n.running) = true ∨ n.role ≠ .leader ∨ n.currentTerm ≠ leaderTerm) := by
    intro hstop
    rw [buildAppendEntriesRequest, if_pos hstop] at h
    exact hsome (congrArg Prod.snd h).symm
  obtain ⟨next, hnext⟩ := n.buildAppendEntriesRequest_frame peer leaderTerm
  rw [h] at hnext
  simp only [not_or, ne_eq, not_not, Bool.not_eq_true'] at hgo hnext
  rw [hnext]
  exact ⟨by simpa using hgo.1, hgo.2.1⟩

namespace Cluster

variable {c : Cluster σ sm.Image} {l q : NodeId}

/-- A round of the group that is answered is a sequence of steps of leader and follower. -/
theorem Serves.round (h : c.Serves cfg l q) (henabled : (cfg.snapshot q).enabled = true)
    {s : Link sm.Image}
    (hs : ((c.group l).link q).replicateOnce sm (cfg.snapshot q).maxSnapshotCount q = s) :
    ∃ c', Moves sm cfg [l, q] c c' ∧ Served c c' l q ∧ (c'.members l).node = s.leader ∧
      (c'.members q).node = s.follower ∧ (c'.members q).snapshots = s.followerSnapshots := by
  have hbuild : ∃ leader shipment, (c.members l).node.buildAppendEntriesRequest q
      (c.members l).node.currentTerm = (leader, shipment) := ⟨_, _, rfl⟩
  obtain ⟨leader, shipment, hbuild⟩ := hbuild
  have hlink : ((c.group l).link q).leader = (c.members l).node := rfl
  simp only [Link.replicateOnce, hlink, hbuild] at hs
  cases shipment with
  | none =>
    rw [← hs]
    exact ⟨c, .refl, ⟨fun _ _ _ => rfl, rfl, rfl, rfl, rfl, h.free⟩, rfl, rfl, rfl⟩
  | snapshot =>
    have hleads := RaftNode.leads_of_build hbuild (by simp)
    exact h.snapshotRound henabled hleads.1 hleads.2 hbuild hs
  | append request =>
    rw [← hs]
    exact h.appendRound hbuild rfl

end Cluster

end CquptRaft
