import CquptRaft.Cluster.Positions
import CquptRaft.Service.KvService
import CquptRaft.Theory.Sessions

/-!
# What clients see of the cluster

The cluster together with the calls of its clients. The answers that the clients of one process
get, in the order in which they are given, are a session: a write that is answered with `OK` stands
at its log index in the one sequence of committed entries, and reads are answered from places of
that sequence that never go back, behind one another or behind an acknowledged write.

Two reads at different processes have no such order: a read asks the role of its node and its own
map, nobody else.
-/

namespace CquptRaft

open Replication Voting Sessions

/-! ## The cluster and its clients -/

/-- An acknowledged write with its term, and the answer to a read. -/
abbrev KvEvent := Event (Nat × Command) (Bytes × Option Bytes)

/-- What a step of a handler tells the client. -/
def KvCall.event : KvCall → KvCall → List KvEvent
  | .returned command _, .answered (.write response) =>
    if response.code = .ok then [.wrote response.logIndex (response.term, command)] else []
  | .reading key _, .answered (.get response) =>
    [.read (key, if response.found then some response.value else none)]
  | _, _ => []

structure KvHost where
  cluster : Cluster KvMap kvStateMachine.Image
  /-- The handlers of the process of each member. -/
  calls : NodeId → List KvCall
  /-- What the clients of the process of each member have been told. -/
  session : NodeId → List KvEvent

inductive KvStep where
  /-- A step of a thread of the node itself. -/
  | member (id : NodeId) (action : Action)
  | arrive (id : NodeId) (request : KvRequest)
  /-- Handler `k` takes its next step. -/
  | advance (id : NodeId) (k : Nat) (saved : Bool) (message : String)

/-- A restarted process has no handlers, and its clients start anew. -/
def Action.isRestart : Action → Bool
  | .restart _ _ _ => true
  | _ => false

namespace KvHost

def init (cfg : ClusterConfig) : KvHost where
  cluster := Cluster.init kvStateMachine cfg
  calls _ := []
  session _ := []

/-- The cluster behind a step of a handler. -/
def runs (cfg : ClusterConfig) (s : KvHost) (id : NodeId) :
    Option Action → Option (Cluster KvMap kvStateMachine.Image)
  | none => some s.cluster
  | some action => s.cluster.step kvStateMachine cfg id action

def step (cfg : ClusterConfig) (addresses : NodeId → String) (s : KvHost) : KvStep → Option KvHost
  | .member id action =>
    (s.cluster.step kvStateMachine cfg id action).map fun cluster =>
      if action.isRestart then
        ⟨cluster, Function.update s.calls id [], Function.update s.session id []⟩
      else { s with cluster }
  | .arrive id request =>
    some { s with calls := Function.update s.calls id (s.calls id ++ [.arrived request]) }
  | .advance id k saved message =>
    if id ∈ cfg.ids ∧ (s.cluster.members id).up = true then do
      let call ← (s.calls id)[k]?
      let next ← call.next (cfg.kvLimits id) addresses (s.cluster.members id) saved message
      let cluster ← s.runs cfg id (call.action saved)
      return ⟨cluster, Function.update s.calls id ((s.calls id).set k next),
        Function.update s.session id (s.session id ++ call.event next)⟩
    else none

/-- A step of a node keeps its state machine in step and confirms no proposal outside the
leadership it was made in. -/
def Allowed (cfg : ClusterConfig) (s : KvHost) : KvStep → Prop
  | .member id action => Cluster.KeepsState kvStateMachine cfg s.cluster id action ∧
    s.cluster.ConfirmsOwn id action
  | _ => True

instance (cfg : ClusterConfig) (s : KvHost) (move : KvStep) : Decidable (s.Allowed cfg move) :=
  match move with
  | .member _ _ => inferInstanceAs (Decidable (_ ∧ _))
  | .arrive _ _ | .advance _ _ _ _ => inferInstanceAs (Decidable True)

def StepWhen (cfg : ClusterConfig) (addresses : NodeId → String) (s s' : KvHost) : Prop :=
  ∃ move, s.Allowed cfg move ∧ s.step cfg addresses move = some s'

/-- A schedule of allowed steps, executed. -/
def execWhen (cfg : ClusterConfig) (addresses : NodeId → String) (s : KvHost) :
    List KvStep → Option KvHost
  | [] => some s
  | move :: rest =>
    if s.Allowed cfg move then
      (s.step cfg addresses move).bind fun s' => execWhen cfg addresses s' rest
    else none

theorem execWhen_run {cfg : ClusterConfig} {addresses : NodeId → String} {s s' : KvHost}
    {schedule : List KvStep} (h : s.execWhen cfg addresses schedule = some s') :
    Relation.ReflTransGen (StepWhen cfg addresses) s s' := by
  induction schedule generalizing s with
  | nil =>
    cases h
    exact .refl
  | cons move rest ih =>
    simp only [execWhen] at h
    split at h
    · rename_i hallowed
      obtain ⟨next, hnext, hrest⟩ := Option.bind_eq_some_iff.mp h
      exact .head ⟨move, hallowed, hnext⟩ (ih hrest)
    · cases h

/-- The step of a handler, taken apart. -/
theorem step_advance {cfg : ClusterConfig} {addresses : NodeId → String} {s s' : KvHost}
    {id : NodeId} {k : Nat} {saved : Bool} {message : String}
    (h : s.step cfg addresses (.advance id k saved message) = some s') :
    id ∈ cfg.ids ∧ (s.cluster.members id).up = true ∧ ∃ call next cluster,
      (s.calls id)[k]? = some call ∧
      call.next (cfg.kvLimits id) addresses (s.cluster.members id) saved message = some next ∧
      s.runs cfg id (call.action saved) = some cluster ∧
      s' = ⟨cluster, Function.update s.calls id ((s.calls id).set k next),
        Function.update s.session id (s.session id ++ call.event next)⟩ := by
  simp only [step] at h
  split at h
  · rename_i hcond
    obtain ⟨call, hcall, h⟩ := Option.bind_eq_some_iff.mp h
    obtain ⟨next, hnext, h⟩ := Option.bind_eq_some_iff.mp h
    obtain ⟨cluster, hcluster, h⟩ := Option.bind_eq_some_iff.mp h
    cases h
    exact ⟨hcond.1, hcond.2, call, next, cluster, hcall, hnext, hcluster, rfl⟩
  · cases h

end KvHost

/-! ## The invariant -/

/-- Some limits admit the command. -/
def Command.Admitted (command : Command) : Prop :=
  ∃ limits, validateCommandUnlocked limits command = .ok ()

/-- The slot belongs to this command of a client. -/
structure Proposal.For (p : Proposal) (command : Command) : Prop where
  admitted : command.Admitted
  command : p.command = command.serialize

/-- The entry at `place` of the chosen sequence is the one of the write. -/
def WroteIn (H : History NodeId LogRecord) (members : Finset NodeId) (place : Nat)
    (write : Nat × Command) : Prop :=
  ∃ p : Proposal, ProposalInv H members p ∧ p.phase = .finished .ok ∧ p.logIndex = place ∧
    p.term = write.1 ∧ p.For write.2

/-- The answer is what the map behind the first `place` chosen entries says. -/
def SeenIn (H : History NodeId LogRecord) (members : Finset NodeId) (place : Nat)
    (answer : Bytes × Option Bytes) : Prop :=
  ∃ kv : KvMap, StateAt kvStateMachine H members place kv ∧ kv[answer.1]? = answer.2

/-- What a handler knows of the `Propose` call it waits for, or that has returned. -/
def CallInv {Image : Type} (m : Member KvMap Image) : KvCall → Prop
  | .proposing command h => ∃ p, m.proposals[h]? = some p ∧ p.For command
  | .returned command result => result.status = .ok → ∃ (k : Nat) (p : Proposal),
    m.proposals[k]? = some p ∧ p.phase = .finished .ok ∧ p.logIndex = result.logIndex ∧
    p.term = result.term ∧ p.For command
  | _ => True

/-- The session of a process, which its map has caught up with. -/
def SessionInv (H : History NodeId LogRecord) (members : Finset NodeId)
    (m : Member KvMap kvStateMachine.Image) (events : List KvEvent) : Prop :=
  ∃ reached, reached ≤ m.position ∧ Session (WroteIn H members) (SeenIn H members) events reached

structure ClientInv (cfg : ClusterConfig) (H : History NodeId LogRecord) (s : KvHost) : Prop where
  sim : SimInv cfg H s.cluster
  applied : AppliedInv cfg H s.cluster
  proposals : ∀ id ∈ cfg.ids, ProposalsInv H cfg.members (s.cluster.members id)
  confirmed : ∀ id ∈ cfg.ids, ConfirmedInv (s.cluster.members id)
  calls : ∀ id ∈ cfg.ids, ∀ call ∈ s.calls id, CallInv (s.cluster.members id) call
  session : ∀ id ∈ cfg.ids, SessionInv H cfg.members (s.cluster.members id) (s.session id)

section

variable {cfg : ClusterConfig} {H H' : History NodeId LogRecord} {members : Finset NodeId}

theorem WroteIn.mono {place : Nat} {write : Nat × Command} (h : WroteIn H members place write)
    (hH : H.Valid members LogRecord.term) (hext : History.Extends H H') :
    WroteIn H' members place write := by
  obtain ⟨p, hp, hrest⟩ := h
  exact ⟨p, hp.mono hH hext, hrest⟩

theorem SeenIn.mono {place : Nat} {answer : Bytes × Option Bytes}
    (h : SeenIn H members place answer) (hH : H.Valid members LogRecord.term)
    (hext : History.Extends H H') : SeenIn H' members place answer := by
  obtain ⟨kv, hkv, hanswer⟩ := h
  exact ⟨kv, hkv.mono hH hext, hanswer⟩

theorem SessionInv.mono {m m' : Member KvMap kvStateMachine.Image} {events : List KvEvent}
    (h : SessionInv H members m events) (hH : H.Valid members LogRecord.term)
    (hext : History.Extends H H') (hle : m.position ≤ m'.position) :
    SessionInv H' members m' events := by
  obtain ⟨reached, hreached, hsession⟩ := h
  exact ⟨reached, hreached.trans hle,
    hsession.mono (fun _ _ hw => hw.mono hH hext) fun _ _ hs => hs.mono hH hext⟩

theorem SessionInv.start (m : Member KvMap kvStateMachine.Image) : SessionInv H members m [] :=
  ⟨0, Nat.zero_le _, .start⟩

/-- A step of the process does not disturb what a handler knows. -/
theorem CallInv.act {id : NodeId} {net : List (Message kvStateMachine.Image)}
    {m m' : Member KvMap kvStateMachine.Image} {action : Action}
    {outbox : Member.Outbox kvStateMachine.Image} {call : KvCall} (h : CallInv m call)
    (hstep : CquptRaft.act kvStateMachine cfg id net m action = some (m', outbox)) :
    CallInv m' call := by
  cases call with
  | proposing command k =>
    obtain ⟨p, hk, hfor⟩ := h
    obtain ⟨phase, hk', -⟩ := act_proposals_getElem? hstep hk
    exact ⟨_, hk', hfor.admitted, hfor.command⟩
  | returned command result =>
    intro hok
    obtain ⟨k, p, hk, hphase, hindex, hterm, hfor⟩ := h hok
    obtain ⟨phase, hk', hkeeps⟩ := act_proposals_getElem? hstep hk
    exact ⟨k, _, hk', hkeeps _ hphase, hindex, hterm, hfor.admitted, hfor.command⟩
  | _ => trivial

/-! ## Steps -/

/-- Only the member that takes the step has to be looked at. -/
theorem forall_update {Q : NodeId → Member KvMap kvStateMachine.Image → Prop}
    {f : NodeId → Member KvMap kvStateMachine.Image} {id : NodeId}
    {m : Member KvMap kvStateMachine.Image} (hself : Q id m) (hothers : ∀ p ∈ cfg.ids, Q p (f p)) :
    ∀ p ∈ cfg.ids, Q p (Function.update f id m p) := by
  intro p hp
  by_cases hpid : p = id
  · subst hpid
    rw [Function.update_self]
    exact hself
  · rw [Function.update_of_ne hpid]
    exact hothers p hp

/-- A step of a process, its handlers and its clients aside. -/
theorem ClientInv.act {s : KvHost} (h : ClientInv cfg H s) {id : NodeId} {action : Action}
    {cluster : Cluster KvMap kvStateMachine.Image} (hrestart : action.isRestart = false)
    (hkeeps : (s.cluster.members id).keepsState kvStateMachine cfg id action = true)
    (hguard : s.cluster.Guarded id action)
    (hconfirms : (s.cluster.members id).confirmsOwn action = true)
    (hstep : s.cluster.step kvStateMachine cfg id action = some cluster) :
    ∃ H', History.Extends H H' ∧ ClientInv cfg H' { s with cluster } := by
  obtain ⟨H', hext, hsim⟩ := h.sim.guardedStep ⟨id, action, hguard, hstep⟩
  have happlied := h.applied.step h.sim hext hkeeps hstep
  refine ⟨H', hext, ?_⟩
  obtain ⟨hid, m, outbox, hm, rfl⟩ := Cluster.step_cases hstep
  have hafter := hsim.members id hid
  simp only [Function.update_self] at hafter
  have hproposals := (h.proposals id hid).memberStep (h.sim.before hid) hext hafter hconfirms hm
  obtain ⟨hup, hact⟩ := act_of_memberStep hm fun _ _ _ heq => by
    rw [heq] at hrestart
    cases hrestart
  obtain ⟨mem, dur, hprocess⟩ := h.sim.process hid hup
  have hinv := hprocess.node.represents.logInv
  have hposition := ((h.applied.members id hid).process hup).position_le hinv hkeeps hact
  have hvalid := h.sim.valid
  refine ⟨hsim, happlied, ?_, ?_, ?_, ?_⟩
  · exact forall_update (Q := fun _ => ProposalsInv H' cfg.members) hproposals
      fun p hp r hr => (h.proposals p hp r hr).mono hvalid hext
  · exact forall_update (Q := fun _ => ConfirmedInv) ((h.confirmed id hid).act hinv hact)
      h.confirmed
  · exact forall_update (Q := fun p m => ∀ call ∈ s.calls p, CallInv m call)
      (fun call hcall => (h.calls id hid call hcall).act hact) h.calls
  · exact forall_update (Q := fun p m => SessionInv H' cfg.members m (s.session p))
      ((h.session id hid).mono hvalid hext hposition)
      fun p hp => (h.session p hp).mono hvalid hext le_rfl

theorem ConfirmedInv.restart {m : Member KvMap kvStateMachine.Image} (h : ConfirmedInv m)
    (id : NodeId) (readable : Nat → Bool) (saved : Bool) (replaySaved : Nat → Bool) :
    ConfirmedInv (m.restart kvStateMachine cfg id readable saved replaySaved) := by
  unfold Member.restart
  split
  · exact h
  · exact fun p hp => absurd hp List.not_mem_nil

theorem ClientInv.restart {s : KvHost} (h : ClientInv cfg H s) {id : NodeId} {action : Action}
    {cluster : Cluster KvMap kvStateMachine.Image} (hrestart : action.isRestart = true)
    (hkeeps : (s.cluster.members id).keepsState kvStateMachine cfg id action = true)
    (hguard : s.cluster.Guarded id action)
    (hconfirms : (s.cluster.members id).confirmsOwn action = true)
    (hstep : s.cluster.step kvStateMachine cfg id action = some cluster) :
    ∃ H', History.Extends H H' ∧ ClientInv cfg H'
      ⟨cluster, Function.update s.calls id [], Function.update s.session id []⟩ := by
  obtain ⟨H', hext, hsim⟩ := h.sim.guardedStep ⟨id, action, hguard, hstep⟩
  have happlied := h.applied.step h.sim hext hkeeps hstep
  refine ⟨H', hext, ?_⟩
  obtain ⟨hid, m, outbox, hm, rfl⟩ := Cluster.step_cases hstep
  have hafter := hsim.members id hid
  simp only [Function.update_self] at hafter
  have hproposals := (h.proposals id hid).memberStep (h.sim.before hid) hext hafter hconfirms hm
  have hconfirmed : ConfirmedInv m := by
    rcases memberStep_cases hm with ⟨-, hact⟩ | ⟨-, -, readable, saved, replaySaved, -, rfl⟩
    · cases action with
      | restart _ _ _ => cases hact
      | _ => cases hrestart
    · exact (h.confirmed id hid).restart id readable saved replaySaved
  have hvalid := h.sim.valid
  refine ⟨hsim, happlied, ?_, ?_, fun p hp => ?_, fun p hp => ?_⟩
  · exact forall_update (Q := fun _ => ProposalsInv H' cfg.members) hproposals
      fun p hp r hr => (h.proposals p hp r hr).mono hvalid hext
  · exact forall_update (Q := fun _ => ConfirmedInv) hconfirmed h.confirmed
  · by_cases hpid : p = id
    · subst hpid
      simp
    · simp only [Function.update_of_ne hpid]
      exact h.calls p hp
  · by_cases hpid : p = id
    · subst hpid
      simp only [Function.update_self]
      exact .start _
    · simp only [Function.update_of_ne hpid]
      exact (h.session p hp).mono hvalid hext le_rfl

/-! ## Handlers -/

/-- A refused proposal is not acknowledged. -/
theorem RaftNode.proposeRefusal_ne_ok {n : RaftNode} {limits : KvRequestLimits} {command : Command}
    {saved : Bool} {result : ProposeResult}
    (h : n.proposeRefusal limits command saved = some result) : result.status ≠ .ok := by
  unfold RaftNode.proposeRefusal at h
  split at h
  · cases h
    simp
  · split at h
    · cases h
      simp
    · split at h
      · cases h
        simp
      · split at h
        · cases h
          simp
        · split at h <;> cases h
          simp

theorem RaftNode.proposeResult_ok {n : RaftNode} {p : Proposal} {message : String}
    {status : ProposeStatus} (h : (n.proposeResult p message status).status = .ok) :
    status = .ok ∧ (n.proposeResult p message status).logIndex = p.logIndex ∧
      (n.proposeResult p message status).term = p.term := by
  cases status with
  | ok => exact ⟨rfl, rfl, rfl⟩
  | _ => cases h

/-- The section of `Propose` that a handler runs starts the thread that it waits for. -/
theorem CallInv.proposed {Image : Type} {m : Member KvMap Image} {limits : KvRequestLimits}
    {command : Command} {saved : Bool}
    (h : m.node.proposeRefusal limits command saved = none) :
    CallInv (m.propose limits command saved) (.proposing command m.proposals.length) := by
  obtain ⟨hrunning, hrole, hvalid, hne, rfl⟩ :=
    (m.node.proposeRefusal_eq_none_iff limits command saved).mp h
  refine ⟨⟨command.serialize, m.node.currentTerm, m.node.lastLogIndexLocked + 1, .replicating⟩, ?_,
    ⟨limits, hvalid⟩, rfl⟩
  simp [Member.propose, hrunning, hrole, hvalid, hne, Member.appendProposal,
    RaftNode.appendLocalLogUnlocked]

/-- The next step of a handler that runs no section of the node. -/
theorem CallInv.next {Image : Type} {m : Member KvMap Image} {limits : KvRequestLimits}
    {addresses : NodeId → String} {saved : Bool} {message : String} {call next : KvCall}
    (h : CallInv m call) (hquiet : call.action saved = none)
    (hnext : call.next limits addresses m saved message = some next) : CallInv m next := by
  cases call with
  | arrived request =>
    simp only [KvCall.next] at hnext
    split at hnext <;> cases hnext
    · trivial
    · cases request <;> trivial
  | propose command => cases hquiet
  | proposing command k =>
    obtain ⟨p, hk, hfor⟩ := h
    simp only [KvCall.next, hk] at hnext
    split at hnext <;> cases hnext
    rename_i status hphase
    intro hok
    obtain ⟨rfl, hindex, hterm⟩ := RaftNode.proposeResult_ok hok
    exact ⟨k, p, hk, hphase, hindex.symm, hterm.symm, hfor⟩
  | lookup key =>
    simp only [KvCall.next] at hnext
    split at hnext <;> cases hnext <;> trivial
  | refused _ _ | returned _ _ | reading _ _ =>
    cases hnext
    trivial
  | answered _ => cases hnext

/-- What a handler tells its client fits into the session. -/
theorem SessionInv.next {m : Member KvMap kvStateMachine.Image} {limits : KvRequestLimits}
    {addresses : NodeId → String} {saved : Bool} {message : String} {call next : KvCall}
    {events : List KvEvent} (h : SessionInv H members m events)
    (happlied : AppliedProcess kvStateMachine H members m) (hproposals : ProposalsInv H members m)
    (hconfirmed : ConfirmedInv m) (hcall : CallInv m call)
    (hnext : call.next limits addresses m saved message = some next) :
    SessionInv H members m (events ++ call.event next) := by
  obtain ⟨reached, hreached, hsession⟩ := h
  obtain ⟨hstate, hposition⟩ := happlied.stateAt
  cases call with
  | returned command result =>
    cases hnext
    simp only [KvCall.event]
    split
    · rename_i hcode
      obtain ⟨k, p, hk, hphase, hindex, hterm, hfor⟩ := hcall (toKvStatusCode_eq_ok.mp hcode)
      have hmem := List.mem_of_getElem? hk
      have hle := hconfirmed p hmem hphase
      refine ⟨_, ?_, hsession.wrote ⟨p, hproposals p hmem, hphase, hindex, hterm, hfor⟩⟩
      have hslot : result.logIndex ≤ m.position := hindex ▸ hle.trans hposition
      exact max_le hreached hslot
    · rw [List.append_nil]
      exact ⟨reached, hreached, hsession⟩
  | reading key status =>
    cases hnext
    refine ⟨m.position, le_rfl, hsession.read hreached ⟨m.kv, hstate, ?_⟩⟩
    cases hlookup : m.kv[key]? with
    | none => simp [lookupResponse]
    | some value => simp [lookupResponse]
  | _ =>
    have hnone : ∀ call' : KvCall, (∀ command result, call' ≠ .returned command result) →
        (∀ key status, call' ≠ .reading key status) → call'.event next = [] := by
      intro call' hreturned hreading
      unfold KvCall.event
      split
      · exact absurd rfl (hreturned _ _)
      · exact absurd rfl (hreading _ _)
      · rfl
    rw [hnone _ (by simp) (by simp), List.append_nil]
    exact ⟨reached, hreached, hsession⟩

theorem ClientInv.answer {s : KvHost} (h : ClientInv cfg H s) {id : NodeId} {next : KvCall}
    {events : List KvEvent} (k : Nat) (hnext : CallInv (s.cluster.members id) next)
    (hsession : SessionInv H cfg.members (s.cluster.members id) events) :
    ClientInv cfg H ⟨s.cluster, Function.update s.calls id ((s.calls id).set k next),
      Function.update s.session id events⟩ := by
  refine ⟨h.sim, h.applied, h.proposals, h.confirmed, fun p hp => ?_, fun p hp => ?_⟩
  · by_cases hpid : p = id
    · subst hpid
      simp only [Function.update_self]
      intro call hcall
      rcases List.mem_or_eq_of_mem_set hcall with hold | rfl
      · exact h.calls p hp call hold
      · exact hnext
    · simp only [Function.update_of_ne hpid]
      exact h.calls p hp
  · by_cases hpid : p = id
    · subst hpid
      simp only [Function.update_self]
      exact hsession
    · simp only [Function.update_of_ne hpid]
      exact h.session p hp

theorem ClientInv.advance {s s' : KvHost} {addresses : NodeId → String} (h : ClientInv cfg H s)
    {id : NodeId} {k : Nat} {saved : Bool} {message : String}
    (hstep : s.step cfg addresses (.advance id k saved message) = some s') :
    ∃ H', History.Extends H H' ∧ ClientInv cfg H' s' := by
  obtain ⟨hid, hup, call, next, cluster, hk, hnext, hcluster, rfl⟩ := KvHost.step_advance hstep
  have hcall := h.calls id hid call (List.mem_of_getElem? hk)
  cases haction : call.action saved with
  | none =>
    rw [haction] at hcluster
    cases hcluster
    refine ⟨H, .refl H, h.answer k (hcall.next haction hnext) ?_⟩
    exact (h.session id hid).next ((h.applied.members id hid).process hup) (h.proposals id hid)
      (h.confirmed id hid) hcall hnext
  | some action =>
    -- the first section of `Propose`, which tells the client nothing yet
    rw [haction] at hcluster
    cases call with
    | propose command =>
      cases haction
      obtain ⟨H', hext, h'⟩ := h.act rfl rfl (Cluster.guarded_of_none rfl rfl) rfl hcluster
      have hmember : (cluster.members id) =
          (s.cluster.members id).propose (cfg.kvLimits id) command saved := by
        obtain ⟨-, m, outbox, hm, rfl⟩ := Cluster.step_cases hcluster
        obtain ⟨-, hact⟩ := act_of_memberStep hm (by simp)
        cases hact
        exact Function.update_self ..
      refine ⟨H', hext, h'.answer k ?_ ?_⟩
      · simp only [KvCall.next] at hnext
        split at hnext <;> cases hnext
        · rename_i hrefused
          exact fun hok => absurd hok (RaftNode.proposeRefusal_ne_ok hrefused)
        · rename_i hproposed
          rw [hmember]
          exact .proposed hproposed
      · have hsession := h'.session id hid
        rwa [show (KvCall.propose command).event next = [] by cases next <;> rfl, List.append_nil]
    | _ => cases haction

theorem ClientInv.step {s s' : KvHost} {addresses : NodeId → String} (h : ClientInv cfg H s)
    (hstep : s.StepWhen cfg addresses s') : ∃ H', History.Extends H H' ∧ ClientInv cfg H' s' := by
  obtain ⟨move, hallowed, hmoved⟩ := hstep
  cases move with
  | member id action =>
    obtain ⟨⟨hguard, hkeeps⟩, -, hconfirms⟩ := hallowed
    obtain ⟨cluster, hcluster, rfl⟩ := Option.map_eq_some_iff.mp hmoved
    cases hrestart : action.isRestart with
    | false => exact h.act hrestart hkeeps hguard hconfirms hcluster
    | true => exact h.restart hrestart hkeeps hguard hconfirms hcluster
  | arrive id request =>
    cases hmoved
    refine ⟨H, .refl H, h.sim, h.applied, h.proposals, h.confirmed, fun p hp => ?_, h.session⟩
    by_cases hpid : p = id
    · subst hpid
      simp only [Function.update_self]
      intro call hcall
      rcases List.mem_append.mp hcall with hold | hnew
      · exact h.calls p hp call hold
      · cases List.mem_singleton.mp hnew
        trivial
    · simp only [Function.update_of_ne hpid]
      exact h.calls p hp
  | advance id k saved message => exact h.advance hmoved

theorem ClientInv.init : ClientInv cfg emptyHistory (KvHost.init cfg) where
  sim := SimInv.init
  applied := AppliedInv.init
  proposals _ _ := by simp [ProposalsInv, KvHost.init, Cluster.init, Member.fresh]
  confirmed _ _ := by simp [ConfirmedInv, KvHost.init, Cluster.init, Member.fresh]
  calls _ _ := by simp [KvHost.init]
  session _ _ := .start _

end

/-! ## Runs -/

/-- The map behind the first `place` entries. -/
def mapBehind (committed : Nat → LogRecord) (place : Nat) : Option KvMap :=
  kvStateMachine.applyAll kvStateMachine.initial
    ((List.range' 1 place).map fun i => (committed i).command)

/-- The answer is what the map says once the first `place` entries have been applied. -/
def Seen (committed : Nat → LogRecord) (place : Nat) (answer : Bytes × Option Bytes) : Prop :=
  ∃ kv, mapBehind committed place = some kv ∧ kv[answer.1]? = answer.2

section

variable {cfg : ClusterConfig} {H G : History NodeId LogRecord} {s : KvHost}

/-- A run has a history over which every one of its states fits. -/
theorem KvHost.exists_history {addresses : NodeId → String} {trace : List KvHost}
    (hrun : List.IsChain (KvHost.StepWhen cfg addresses) (KvHost.init cfg :: trace)) :
    ∃ H, H.Valid cfg.members LogRecord.term ∧
      IsCommittedSequence cfg ((KvHost.init cfg :: trace).map KvHost.cluster)
        (H.chosenEntry cfg.members) ∧
      ∀ s ∈ KvHost.init cfg :: trace, ∃ G, History.Extends G H ∧ ClientInv cfg G s := by
  obtain ⟨H, -, ⟨_, hlast⟩, hall⟩ := exists_history_of_isChain
    (fun H s s' h hstep => ClientInv.step h hstep) hrun ClientInv.init
  refine ⟨H, hlast.sim.valid, fun c hc p hp i r h0 hr => ?_, hall⟩
  obtain ⟨s, hs, rfl⟩ := List.mem_map.mp hc
  obtain ⟨G, hext, h⟩ := hall s hs
  exact h.sim.commitsAt_eq hlast.sim.valid hext hp h0 hr

end

section

variable {committed : Nat → LogRecord} {kv : KvMap}

end

end CquptRaft
