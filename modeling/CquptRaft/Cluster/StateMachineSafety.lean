import CquptRaft.Cluster.AppliedSteps
import CquptRaft.Cluster.LogSafety
import Mathlib.Data.List.Chain

/-!
# Safety of the state machine

Along a run there is one sequence of committed entries, and a node whose `apply_mu_` is free
has the first `last_applied_` of them in its state machine, as long as no step of the run leaves
the two out of step. An `OnInstallSnapshot` handler does: it replaces the map before its last
critical section, which gives up when the term has changed.
-/

namespace CquptRaft

open Replication Voting

variable {σ : Type} {sm : IStateMachine σ} {cfg : ClusterConfig} {H H' : History NodeId LogRecord}

/-! ## Histories along a run -/

/-- An invariant over a history that grows at every step holds along the run, over histories that
the last one continues. -/
theorem exists_history_of_isChain {S : Type} {step : S → S → Prop}
    {Inv : History NodeId LogRecord → S → Prop}
    (hstep : ∀ H c c', Inv H c → step c c' → ∃ H', History.Extends H H' ∧ Inv H' c')
    {c : S} {trace : List S}
    (hchain : List.IsChain step (c :: trace)) (h : Inv H c) :
    ∃ H', History.Extends H H' ∧ (∃ d, Inv H' d) ∧
      ∀ d ∈ c :: trace, ∃ G, History.Extends G H' ∧ Inv G d := by
  induction trace generalizing c H with
  | nil => exact ⟨H, .refl H, ⟨c, h⟩, by simpa using ⟨H, .refl H, h⟩⟩
  | cons d rest ih =>
    obtain ⟨hfirst, hrest⟩ := List.isChain_cons_cons.mp hchain
    obtain ⟨H₁, hext₁, h₁⟩ := hstep H c d h hfirst
    obtain ⟨H', hext, hlast, hall⟩ := ih hrest h₁
    refine ⟨H', hext₁.trans hext, hlast, fun e he => ?_⟩
    rcases List.mem_cons.mp he with rfl | he
    · exact ⟨H, hext₁.trans hext, h⟩
    · exact hall e he

/-- Every record that a member holds as committed, at some state of the run, is the one of the
sequence. -/
def IsCommittedSequence (cfg : ClusterConfig) {Image : Type} (trace : List (Cluster σ Image))
    (committed : Nat → LogRecord) : Prop :=
  ∀ c ∈ trace, ∀ p ∈ cfg.ids, ∀ i r, 0 < i → c.CommitsAt p i r → r = committed i

/-- A record that a member holds as committed is chosen. -/
theorem SimInv.commitsAt_eq {c : Cluster σ sm.Image} (h : SimInv cfg H c)
    (hH' : H'.Valid cfg.members LogRecord.term) (hext : History.Extends H H') {p : NodeId}
    (hp : p ∈ cfg.ids) {i : Nat} {r : LogRecord} (h0 : 0 < i) (hr : c.CommitsAt p i r) :
    r = H'.chosenEntry cfg.members i := by
  obtain ⟨hup, hi, hr⟩ := hr
  obtain ⟨mem, dur, hmem⟩ := h.process hp hup
  rw [hmem.node.represents.commit] at hi
  rcases hmem.node.represents.ordinaryAt hr with ⟨rfl, -⟩ | ⟨-, hget⟩
  · omega
  · have hchosen := hext.chosen h.valid hmem.node.memSound.chosen
    have hlen : (mem.log.take mem.commit).length = mem.commit := by
      rw [List.length_take]
      exact min_eq_left hmem.node.memSound.commit_le
    have hentry := hH'.getElem?_chosen hchosen h0 (hi.trans hlen.ge)
    rw [List.getElem?_take_of_lt (by omega), hget] at hentry
    exact Option.some.inj hentry

/-! ## The state machine -/

/-- Nobody holds `apply_mu_`. -/
def ApplyLock.isFree {Image : Type} : ApplyLock Image → Bool
  | .free => true
  | _ => false

/-- The step is guarded and leaves map and apply index in step. -/
def Cluster.KeepsState (sm : IStateMachine σ) (cfg : ClusterConfig) (c : Cluster σ sm.Image)
    (id : NodeId) (action : Action) : Prop :=
  c.Guarded id action ∧ (c.members id).keepsState sm cfg id action = true

instance (c : Cluster σ sm.Image) (id : NodeId) (action : Action) :
    Decidable (Cluster.KeepsState sm cfg c id action) := inferInstanceAs (Decidable (_ ∧ _))

/-- Along a run whose steps keep the state there is one sequence of committed entries, and a
member whose `apply_mu_` is free has applied exactly the first `last_applied_` of them. -/
theorem state_machine_matches (sm : IStateMachine σ) (cfg : ClusterConfig)
    {trace : List (Cluster σ sm.Image)}
    (hrun : List.IsChain (Cluster.StepWhen sm cfg (Cluster.KeepsState sm cfg))
      (Cluster.init sm cfg :: trace)) :
    ∃ committed, IsCommittedSequence cfg (Cluster.init sm cfg :: trace) committed ∧
      ∀ c ∈ Cluster.init sm cfg :: trace, ∀ p ∈ cfg.ids, (c.members p).up = true →
        (c.members p).apply.isFree = true →
        sm.applyAll sm.initial ((List.range' 1 (c.members p).node.lastApplied).map fun i =>
          (committed i).command) = some (c.members p).kv := by
  have hstep : ∀ H (c c' : Cluster σ sm.Image), SimInv cfg H c ∧ AppliedInv cfg H c →
      Cluster.StepWhen sm cfg (Cluster.KeepsState sm cfg) c c' →
      ∃ H', History.Extends H H' ∧ SimInv cfg H' c' ∧ AppliedInv cfg H' c' := by
    rintro H c c' ⟨hsim, happlied⟩ ⟨id, action, ⟨hguard, hkeeps⟩, hmoved⟩
    obtain ⟨H', hext, hsim'⟩ := hsim.guardedStep ⟨id, action, hguard, hmoved⟩
    exact ⟨H', hext, hsim', happlied.step hsim hext hkeeps hmoved⟩
  obtain ⟨H, -, ⟨_, hlast, -⟩, hall⟩ :=
    exists_history_of_isChain hstep hrun ⟨SimInv.init, AppliedInv.init⟩
  refine ⟨H.chosenEntry cfg.members, fun c hc p hp i r h0 hr => ?_, fun c hc p hp hup hfree => ?_⟩
  · obtain ⟨G, hext, hsim, -⟩ := hall c hc
    exact hsim.commitsAt_eq hlast.valid hext hp h0 hr
  · obtain ⟨G, hext, hsim, happlied⟩ := hall c hc
    have hlock := ((happlied.members p hp).process hup).lock
    cases hlocked : (c.members p).apply with
    | free =>
      rw [hlocked] at hlock
      obtain ⟨π, hπ, hlen, hkv⟩ := hlock
      rw [hlast.valid.eq_map_chosenEntry (hext.chosen hsim.valid hπ), hlen, List.map_map] at hkv
      exact hkv
    | looping | picked _ _ | applied _ | installing _ =>
      rw [hlocked] at hfree
      cases hfree

/-! ## An interrupted installation

Member 1 leads term 1, commits and applies a write with member 2, takes a snapshot and sends it
to member 3. Member 3 has loaded the snapshot when member 2 campaigns in term 2: the handler
finds its term passed and leaves the apply index where it was. -/

/-- Member 3 has loaded the snapshot of two entries that member 1 has sent. -/
def loadSchedule : List (NodeId × Action) :=
  electionSchedule ++ bootSchedule 3 ++
  [(1, .proposeNoOp true), (1, .propose (setCommand "v") true)] ++ shipSchedule 1 2 3 ++
  applySchedule 1 2 ++ snapshotSchedule 1 ++
  [(1, .replicateOnce 3), (1, .readBoundary 3), (1, .sendSnapshot 3),
    (3, .onInstallSnapshot 5 true), (3, .installWrite 0 true), (3, .installSave 0 .ok),
    (3, .installLoad 0 true)]

def interruptedSchedule : List (NodeId × Action) :=
  loadSchedule ++ [(2, .startElection true), (3, .onRequestVote 7 true true),
    (3, .installFinish true)]

theorem exists_trace {step : Cluster σ sm.Image → Cluster σ sm.Image → Prop}
    {c c' : Cluster σ sm.Image} (h : Relation.ReflTransGen step c c') :
    ∃ trace, List.IsChain step (c :: trace) ∧ c' ∈ c :: trace := by
  obtain ⟨trace, hchain, hlast⟩ := List.exists_isChain_cons_of_relationReflTransGen h
  exact ⟨trace, hchain, hlast ▸ List.getLast_mem _⟩

theorem state_machine_matches_three :
    ∃ trace, List.IsChain (Cluster.StepWhen kvStateMachine threeMembers
        (Cluster.KeepsState kvStateMachine threeMembers))
        (Cluster.init kvStateMachine threeMembers :: trace) ∧
      ∃ committed, IsCommittedSequence threeMembers
          (Cluster.init kvStateMachine threeMembers :: trace) committed ∧
        ∃ c ∈ Cluster.init kvStateMachine threeMembers :: trace,
          (c.members 3).node.lastApplied = 2 ∧
          kvStateMachine.applyAll kvStateMachine.initial
            ((List.range' 1 (c.members 3).node.lastApplied).map fun i => (committed i).command) =
            some (c.members 3).kv := by
  have hexec : (Cluster.execWhen kvStateMachine threeMembers
      (Cluster.KeepsState kvStateMachine threeMembers) (Cluster.init kvStateMachine threeMembers)
      (loadSchedule ++ [(3, .installFinish true)])).any (fun c => decide ((c.members 3).up = true ∧
        (c.members 3).apply.isFree = true ∧ (c.members 3).node.lastApplied = 2)) = true := by
    decide +kernel
  obtain ⟨c, hc, hP⟩ := (Option.any_eq_true _ _).mp hexec
  obtain ⟨hup, hfree, happlied⟩ := of_decide_eq_true hP
  obtain ⟨trace, hchain, hmem⟩ := exists_trace (Cluster.execWhen_run hc)
  obtain ⟨committed, hsequence, hall⟩ := state_machine_matches kvStateMachine threeMembers hchain
  exact ⟨trace, hchain, committed, hsequence, c, hmem, happlied,
    hall c hmem 3 (by decide) hup hfree⟩

/-- The interrupted installation leaves a written map with nothing applied. -/
theorem state_machine_mismatch :
    ¬ ∀ trace, List.IsChain (Cluster.Step kvStateMachine threeMembers)
        (Cluster.init kvStateMachine threeMembers :: trace) →
      ∃ committed, IsCommittedSequence threeMembers
          (Cluster.init kvStateMachine threeMembers :: trace) committed ∧
        ∀ c ∈ Cluster.init kvStateMachine threeMembers :: trace, ∀ p ∈ threeMembers.ids,
          (c.members p).up = true → (c.members p).apply.isFree = true →
          kvStateMachine.applyAll kvStateMachine.initial
            ((List.range' 1 (c.members p).node.lastApplied).map fun i => (committed i).command) =
            some (c.members p).kv := by
  intro hmatches
  obtain ⟨c, hc, hup, hfree, happlied, hkv⟩ := Cluster.exists_of_exec kvStateMachine threeMembers
    (Cluster.init kvStateMachine threeMembers) interruptedSchedule
    (fun c => (c.members 3).up = true ∧ (c.members 3).apply.isFree = true ∧
      (c.members 3).node.lastApplied = 0 ∧ (c.members 3).kv[ascii "k"]? = some (ascii "v"))
    (by decide +kernel)
  obtain ⟨trace, hchain, hmem⟩ := exists_trace (Cluster.exec_run hc)
  obtain ⟨committed, -, hall⟩ := hmatches trace hchain
  have hempty := hall c hmem 3 (by decide) hup hfree
  rw [happlied] at hempty
  rw [← Option.some.inj hempty] at hkv
  exact absurd hkv (by decide)

end CquptRaft
