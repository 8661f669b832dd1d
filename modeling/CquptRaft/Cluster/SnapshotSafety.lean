import CquptRaft.Cluster.StateMachineSafety

/-!
# Safety of snapshots

A snapshot goes through many hands: a worker captures it, a directory keeps it while its process is
down, a leader sends it, a handler stores and loads it. Along a run whose steps keep the state, all
of them stand for the committed entries up to their index.
-/

namespace CquptRaft

open Replication Voting

variable {σ : Type} {sm : IStateMachine σ} {cfg : ClusterConfig} {H G : History NodeId LogRecord}

/-- The image loads as the state behind the first `index` entries, the last of which has the
term. -/
structure Summarizes (sm : IStateMachine σ) (committed : Nat → LogRecord) (index term : Nat)
    (image : sm.Image) : Prop where
  term : 0 < index → (committed index).term = term
  state : ∃ kv, sm.loadSnapshot image = some kv ∧
    sm.applyAll sm.initial ((List.range' 1 index).map fun i => (committed i).command) = some kv

theorem Summarizes.of_chosen (hvalid : H.Valid cfg.members LogRecord.term)
    (hG : G.Valid cfg.members LogRecord.term) (hext : History.Extends G H) {t index term : Nat}
    {image : sm.Image} (hheld : Held G cfg.members t index term)
    (himage : ImageAt sm G cfg.members index image) :
    Summarizes sm (H.chosenEntry cfg.members) index term image := by
  constructor
  · intro h0
    obtain ⟨π, rfl, rfl, hπ⟩ := hheld
    have hget := hvalid.getElem?_chosen (hext.chosen hG hπ.chosen) h0 le_rfl
    obtain ⟨k, hk⟩ := Nat.exists_eq_succ_of_ne_zero (Nat.pos_iff_ne_zero.mp h0)
    rw [hk, Nat.succ_sub_one] at hget
    rw [hk, termAt, hget]
    rfl
  · obtain ⟨kv, hload, π, hπ, rfl, hkv⟩ := himage
    refine ⟨kv, hload, ?_⟩
    rw [hvalid.eq_map_chosenEntry (hext.chosen hG hπ), List.map_map] at hkv
    exact hkv

/-- A run whose steps keep the state has a history over which every one of its states fits. -/
theorem Cluster.exists_history {trace : List (Cluster σ sm.Image)}
    (hrun : List.IsChain (Cluster.StepWhen sm cfg (Cluster.KeepsState sm cfg))
      (Cluster.init sm cfg :: trace)) :
    ∃ H, H.Valid cfg.members LogRecord.term ∧
      IsCommittedSequence cfg (Cluster.init sm cfg :: trace) (H.chosenEntry cfg.members) ∧
      ∀ c ∈ Cluster.init sm cfg :: trace, ∃ G, History.Extends G H ∧ SimInv cfg G c ∧
        AppliedInv cfg G c := by
  have hstep : ∀ H (c c' : Cluster σ sm.Image), SimInv cfg H c ∧ AppliedInv cfg H c →
      Cluster.StepWhen sm cfg (Cluster.KeepsState sm cfg) c c' →
      ∃ H', History.Extends H H' ∧ SimInv cfg H' c' ∧ AppliedInv cfg H' c' := by
    rintro H c c' ⟨hsim, happlied⟩ ⟨id, action, ⟨hguard, hkeeps⟩, hmoved⟩
    obtain ⟨H', hext, hsim'⟩ := hsim.guardedStep ⟨id, action, hguard, hmoved⟩
    exact ⟨H', hext, hsim', happlied.step hsim hext hkeeps hmoved⟩
  obtain ⟨H, -, ⟨_, hlast, -⟩, hall⟩ :=
    exists_history_of_isChain hstep hrun ⟨SimInv.init, AppliedInv.init⟩
  refine ⟨H, hlast.valid, fun c hc p hp i r h0 hr => ?_, hall⟩
  obtain ⟨G, hext, hsim, -⟩ := hall c hc
  exact hsim.commitsAt_eq hlast.valid hext hp h0 hr

/-- One sequence of committed entries fits a run, and every snapshot, in a directory or in a
request, sums up a beginning of it. -/
theorem snapshots_summarize_committed (sm : IStateMachine σ) (cfg : ClusterConfig)
    {trace : List (Cluster σ sm.Image)}
    (hrun : List.IsChain (Cluster.StepWhen sm cfg (Cluster.KeepsState sm cfg))
      (Cluster.init sm cfg :: trace)) :
    ∃ committed, IsCommittedSequence cfg (Cluster.init sm cfg :: trace) committed ∧
      ∀ c ∈ Cluster.init sm cfg :: trace,
        (∀ p ∈ cfg.ids, ∀ s ∈ (c.members p).snapshots,
          Summarizes sm committed s.index s.term s.image) ∧
        ∀ message ∈ c.net, ∀ request, message.payload = .installRequest request →
          Summarizes sm committed request.lastIncludedIndex request.lastIncludedTerm
            request.snapshotData := by
  obtain ⟨H, hvalid, hcommitted, hall⟩ := Cluster.exists_history hrun
  refine ⟨H.chosenEntry cfg.members, hcommitted, ?_⟩
  intro c hc
  obtain ⟨G, hext, hsim, happlied⟩ := hall c hc
  constructor
  · intro p hp s hs
    obtain ⟨t, hheld⟩ := (hsim.members p hp).snapshots s hs
    exact .of_chosen hvalid hsim.valid hext hheld ((happlied.members p hp).snapshots s hs)
  · intro message hmem request hpayload
    have hheld := hsim.net message hmem
    have himage := happlied.net message hmem
    rw [MessageInv, hpayload] at hheld
    rw [AppliedMessage, hpayload] at himage
    exact .of_chosen hvalid hsim.valid hext hheld himage

/-- Member 3 has stored the snapshot that member 1 took behind two entries. -/
theorem snapshots_summarize_committed_three :
    ∃ (committed : Nat → LogRecord) (s : Snapshot kvStateMachine.Image), s.index = 2 ∧
      Summarizes kvStateMachine committed s.index s.term s.image := by
  have hexec : (Cluster.execWhen kvStateMachine threeMembers
      (Cluster.KeepsState kvStateMachine threeMembers) (Cluster.init kvStateMachine threeMembers)
      (loadSchedule ++ [(3, .installFinish true)])).any (fun c =>
        (c.members 3).snapshots.any fun s => s.index == 2) = true := by
    decide +kernel
  obtain ⟨c, hc, hP⟩ := (Option.any_eq_true _ _).mp hexec
  obtain ⟨s, hs, hindex⟩ := List.any_eq_true.mp hP
  obtain ⟨trace, hchain, hmem⟩ := exists_trace (Cluster.execWhen_run hc)
  obtain ⟨committed, -, hall⟩ := snapshots_summarize_committed kvStateMachine threeMembers hchain
  exact ⟨committed, s, beq_iff_eq.mp hindex, (hall c hmem).1 3 (by decide) s hs⟩

end CquptRaft
