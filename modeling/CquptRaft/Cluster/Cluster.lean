import CquptRaft.Cluster.Member
import Mathlib.Logic.Relation

/-!
# The cluster

A cluster is its members and the messages ever sent. A message stays in `net`, so it may be
delivered at any later time, any number of times, or never: loss, delay, duplication and
reordering of RPCs are choices of which message a step picks. A timer may fire whenever the
section it runs is enabled.

`Cluster.step` is executable: it takes the acting member and an `Action`, and yields the next
cluster when the action is enabled.
-/

namespace CquptRaft

variable {σ : Type}

namespace Member

variable {Image : Type}

/-- The payload of message `k`, when the message belongs to a call this predicate accepts. -/
def receive (net : List (Message Image)) (k : Nat) (accepts : CallId → Bool) :
    Option (Message Image) :=
  net[k]?.filter fun message => accepts message.call

/-! ## Messages -/

def deliverRequestVote (m : Member σ Image) (message : Message Image)
    (termSaved voteSaved : Bool) : Option (Member σ Image × Outbox Image) :=
  match message.payload with
  | .voteRequest request =>
    match m.node.onRequestVote request termSaved voteSaved with
    | (node, response) => some ({ m with node }, [⟨message.call, .voteResponse response⟩])
  | _ => none

def deliverVoteResponse (m : Member σ Image) (message : Message Image) (saved : Bool) :
    Option (Member σ Image × Outbox Image) :=
  match message.payload with
  | .voteResponse response => some (m.onVoteResponse message.call response saved, [])
  | _ => none

def deliverAppendEntries (m : Member σ Image) (message : Message Image)
    (termSaved logSaved commitSaved : Bool) : Option (Member σ Image × Outbox Image) :=
  match message.payload with
  | .appendRequest request =>
    match m.node.onAppendEntries request termSaved logSaved commitSaved with
    | (node, response, _) => some ({ m with node }, [⟨message.call, .appendResponse response⟩])
  | _ => none

def deliverAppendResponse (m : Member σ Image) (peer : NodeId) (message : Message Image)
    (saved : Bool) : Option (Member σ Image × Outbox Image) :=
  match message.payload with
  | .appendResponse response =>
    some ({ m with
      node := m.node.handleAppendEntriesResponse peer message.call.term response saved
      }.setReplicator peer .appendReturned, [])
  | _ => none

def deliverInstallSnapshot (m : Member σ Image) (enabled : Bool) (message : Message Image)
    (saved : Bool) : Option (Member σ Image × Outbox Image) :=
  match message.payload with
  | .installRequest request => some (m.onInstallSnapshot enabled message.call request saved)
  | _ => none

def deliverInstallResponse (m : Member σ Image) (peer : NodeId) (lastIncludedIndex : Nat)
    (message : Message Image) (saved : Bool) : Option (Member σ Image × Outbox Image) :=
  match message.payload with
  | .installResponse response =>
    some ({ m with
      node := m.node.handleInstallSnapshotResponse peer message.call.term lastIncludedIndex
        response saved }.setReplicator peer .installReturned, [])
  | _ => none

/-- A member that runs no thread and has nothing on its disk. -/
def fresh (sm : IStateMachine σ) (id : NodeId) (peers : List NodeId) : Member σ sm.Image where
  up := false
  node := RaftNode.recover id peers none
  kv := sm.initial
  voteCalls := []
  granted := []
  votes _ := 0
  won _ := false
  wonCalls := []
  noOpCalls := 0
  replicators _ := .idle
  rpcStarted := 0
  proposals := []
  apply := .free
  installs := []
  worker := .idle
  snapshots := []
  installTemp := none

end Member

/-! ## Steps -/

/-- The actions of a running process. -/
def act (sm : IStateMachine σ) (cfg : ClusterConfig) (id : NodeId)
    (net : List (Message sm.Image)) (m : Member σ sm.Image) :
    Action → Option (Member σ sm.Image × Member.Outbox sm.Image)
  | .restart _ _ _ => none
  | .start => some ({ m with node := { m.node with running := true } }, [])
  | .stop =>
    some ({ m with node := { m.node.cancelElectionTimerLocked with running := false } }, [])
  | .persist saved =>
    if m.node.running then none
    else some ({ m with node := m.node.persistStateLocked saved }, [])
  | .crash => some ({ m with up := false }, [])
  | .startElection saved => some (m.startElection saved)
  | .onRequestVote k termSaved voteSaved => do
    let message ← Member.receive net k (fun call => call.callee == id)
    m.deliverRequestVote message termSaved voteSaved
  | .onVoteResponse k saved => do
    let message ← Member.receive net k (fun call => m.voteCalls.contains call)
    m.deliverVoteResponse message saved
  | .countVote term => if term ∈ m.granted then some (m.countVote term, []) else none
  | .onElectionWon term => if term ∈ m.wonCalls then some (m.onElectionWon term, []) else none
  | .proposeNoOp saved => if 0 < m.noOpCalls then some (m.proposeNoOp saved, []) else none
  | .propose command saved => some (m.propose (cfg.kvLimits id) command saved, [])
  | .proposal h step => (m.proposal h step).map (·, [])
  | .replicateOnce peer => m.replicateOnce peer
  | .appendResponse peer k saved =>
    match m.replicators peer with
    | .append call => do
      let message ← Member.receive net k (fun other => other == call)
      m.deliverAppendResponse peer message saved
    | _ => none
  | .appendFailed peer =>
    match m.replicators peer with
    | .append _ => some (m.setReplicator peer .appendReturned, [])
    | _ => none
  | .readBoundary peer => (m.readBoundary peer).map (·, [])
  | .sendSnapshot peer => m.sendSnapshot peer
  | .installResponse peer k saved =>
    match m.replicators peer with
    | .install call lastIncludedIndex => do
      let message ← Member.receive net k (fun other => other == call)
      m.deliverInstallResponse peer lastIncludedIndex message saved
    | _ => none
  | .installFailed peer =>
    match m.replicators peer with
    | .install _ _ => some (m.setReplicator peer .installReturned, [])
    | _ => none
  | .finishRpc peer =>
    match m.replicators peer with
    | .appendReturned | .installReturned => some (m.setReplicator peer .idle, [])
    | _ => none
  | .onAppendEntries k termSaved logSaved commitSaved => do
    let message ← Member.receive net k (fun call => call.callee == id)
    m.deliverAppendEntries message termSaved logSaved commitSaved
  | .onInstallSnapshot k saved => do
    let message ← Member.receive net k (fun call => call.callee == id)
    m.deliverInstallSnapshot (cfg.snapshot id).enabled message saved
  | .installWrite h ok => m.installWrite h ok
  | .installSave h outcome => m.installSave h outcome
  | .installLoad h ok => m.installLoad sm h ok
  | .installFinish saved => m.installFinish saved
  | .applyAcquire =>
    match m.apply with
    | .free => some ({ m with apply := .looping }, [])
    | _ => none
  | .applyPick => m.applyPick.map (·, [])
  | .applyRun => (m.applyRun sm).map (·, [])
  | .applyFinish saved => (m.applyFinish saved).map (·, [])
  | .onSnapshotTimer =>
    match m.worker with
    | .idle =>
      if m.node.wantsSnapshotLocked (cfg.snapshot id) true then
        some ({ m with worker := .pending }, [])
      else none
    | _ => none
  | .workerCapture ok => (m.workerCapture sm ok).map (·, [])
  | .workerSave outcome => (m.workerSave outcome).map (·, [])
  | .workerCompact saved => (m.workerCompact saved).map (·, [])
  | .prune upto =>
    some ({ m with
      snapshots := pruneSnapshots m.snapshots (cfg.snapshot id).maxSnapshotCount upto }, [])

/-- A member that is down can only restart. -/
def memberStep (sm : IStateMachine σ) (cfg : ClusterConfig) (id : NodeId)
    (net : List (Message sm.Image)) (m : Member σ sm.Image) (action : Action) :
    Option (Member σ sm.Image × Member.Outbox sm.Image) :=
  if m.up then act sm cfg id net m action
  else
    match action with
    | .restart readable saved replaySaved =>
      some (m.restart sm cfg id readable saved replaySaved, [])
    | _ => none

/-- A step of a member is one of a running process, or a restart. -/
theorem memberStep_cases {sm : IStateMachine σ} {cfg : ClusterConfig} {id : NodeId}
    {net : List (Message sm.Image)} {m m' : Member σ sm.Image} {action : Action}
    {outbox : Member.Outbox sm.Image}
    (h : memberStep sm cfg id net m action = some (m', outbox)) :
    m.up = true ∧ act sm cfg id net m action = some (m', outbox) ∨
      m.up = false ∧ outbox = [] ∧ ∃ readable saved replaySaved,
        action = .restart readable saved replaySaved ∧
        m' = m.restart sm cfg id readable saved replaySaved := by
  unfold memberStep at h
  split at h
  · rename_i hup
    exact .inl ⟨hup, h⟩
  · rename_i hdown
    split at h
    · rename_i readable saved replaySaved
      cases h
      exact .inr ⟨by simpa using hdown, rfl, readable, saved, replaySaved, rfl, rfl⟩
    · cases h

/-- Every step but a restart is one of a running process. -/
theorem act_of_memberStep {sm : IStateMachine σ} {cfg : ClusterConfig} {id : NodeId}
    {net : List (Message sm.Image)} {m : Member σ sm.Image} {action : Action}
    {result : Member σ sm.Image × Member.Outbox sm.Image}
    (h : memberStep sm cfg id net m action = some result)
    (hrestart : ∀ readable saved replaySaved, action ≠ .restart readable saved replaySaved) :
    m.up = true ∧ act sm cfg id net m action = some result := by
  rcases memberStep_cases h with hact | ⟨-, -, readable, saved, replaySaved, haction, -⟩
  · exact hact
  · exact absurd haction (hrestart readable saved replaySaved)

structure Cluster (σ Image : Type) where
  members : NodeId → Member σ Image
  net : List (Message Image)

namespace Cluster

variable (sm : IStateMachine σ) (cfg : ClusterConfig)

def init : Cluster σ sm.Image where
  members id := Member.fresh sm id (cfg.peers id)
  net := []

def step (c : Cluster σ sm.Image) (id : NodeId) (action : Action) :
    Option (Cluster σ sm.Image) :=
  if id ∈ cfg.ids then
    (memberStep sm cfg id c.net (c.members id) action).map fun (m, outbox) =>
      ⟨Function.update c.members id m, c.net ++ outbox⟩
  else none

/-- Some member takes some step. -/
def Step (c c' : Cluster σ sm.Image) : Prop :=
  ∃ id action, c.step sm cfg id action = some c'

/-- `c'` can be reached from `c`. -/
abbrev Run : Cluster σ sm.Image → Cluster σ sm.Image → Prop :=
  Relation.ReflTransGen (Step sm cfg)

/-- A state of some run that starts with empty disks. -/
def Reachable (c : Cluster σ sm.Image) : Prop := Run sm cfg (init sm cfg) c

/-- A whole schedule, executed. -/
def exec (c : Cluster σ sm.Image) : List (NodeId × Action) → Option (Cluster σ sm.Image)
  | [] => some c
  | (id, action) :: rest => (c.step sm cfg id action).bind fun c' => exec c' rest

variable {sm cfg}

theorem exec_run {schedule : List (NodeId × Action)} {c c' : Cluster σ sm.Image}
    (h : exec sm cfg c schedule = some c') : Run sm cfg c c' := by
  induction schedule generalizing c with
  | nil =>
    cases h
    exact .refl
  | cons first rest ih =>
    obtain ⟨d, hd, hrest⟩ := Option.bind_eq_some_iff.mp h
    exact .head ⟨first.1, first.2, hd⟩ (ih hrest)

variable (sm cfg) in
/-- Some member takes a step that is allowed where it is taken. -/
def StepWhen (allowed : Cluster σ sm.Image → NodeId → Action → Prop) (c c' : Cluster σ sm.Image) :
    Prop :=
  ∃ id action, allowed c id action ∧ c.step sm cfg id action = some c'

variable (sm cfg) in
/-- A schedule, executed as long as its steps are allowed. -/
def execWhen (allowed : Cluster σ sm.Image → NodeId → Action → Prop)
    [∀ c id action, Decidable (allowed c id action)] (c : Cluster σ sm.Image) :
    List (NodeId × Action) → Option (Cluster σ sm.Image)
  | [] => some c
  | (id, action) :: rest =>
    if allowed c id action then
      (c.step sm cfg id action).bind fun c' => execWhen allowed c' rest
    else none

theorem execWhen_run {allowed : Cluster σ sm.Image → NodeId → Action → Prop}
    [∀ c id action, Decidable (allowed c id action)] {schedule : List (NodeId × Action)}
    {c c' : Cluster σ sm.Image} (h : execWhen sm cfg allowed c schedule = some c') :
    Relation.ReflTransGen (StepWhen sm cfg allowed) c c' := by
  induction schedule generalizing c with
  | nil =>
    cases h
    exact .refl
  | cons first rest ih =>
    rw [execWhen] at h
    split at h
    · rename_i hallowed
      obtain ⟨d, hd, hrest⟩ := Option.bind_eq_some_iff.mp h
      exact .head ⟨first.1, first.2, hallowed, hd⟩ (ih hrest)
    · cases h

variable (sm cfg) in
/-- A schedule that runs through to a state with property `P`. -/
theorem exists_of_exec (c : Cluster σ sm.Image) (schedule : List (NodeId × Action))
    (P : Cluster σ sm.Image → Prop) [DecidablePred P]
    (h : (exec sm cfg c schedule).any (fun c' => decide (P c')) = true) :
    ∃ c', exec sm cfg c schedule = some c' ∧ P c' := by
  obtain ⟨c', hc', hP⟩ := (Option.any_eq_true _ _).mp h
  exact ⟨c', hc', of_decide_eq_true hP⟩

theorem exec_append (c : Cluster σ sm.Image) (xs ys : List (NodeId × Action)) :
    exec sm cfg c (xs ++ ys) = (exec sm cfg c xs).bind fun c' => exec sm cfg c' ys := by
  induction xs generalizing c with
  | nil => rfl
  | cons first rest ih =>
    simp only [List.cons_append, exec, Option.bind_assoc]
    exact congrArg _ (funext fun d => ih d)

/-- What a step of the cluster is: one member moves and the rest stay. -/
theorem step_cases {c c' : Cluster σ sm.Image} {id : NodeId} {action : Action}
    (h : c.step sm cfg id action = some c') :
    id ∈ cfg.ids ∧ ∃ m outbox,
      memberStep sm cfg id c.net (c.members id) action = some (m, outbox) ∧
      c' = ⟨Function.update c.members id m, c.net ++ outbox⟩ := by
  unfold step at h
  split at h
  · rename_i hid
    obtain ⟨⟨m, outbox⟩, hm, rfl⟩ := Option.map_eq_some_iff.mp h
    exact ⟨hid, m, outbox, hm, rfl⟩
  · cases h

end Cluster

end CquptRaft
