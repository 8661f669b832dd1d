import CquptRaft.Cluster.RoundSteps

/-!
# A majority can go on

From every state of a guarded run, a majority that is up gets on by steps of its own, as long as one
of its members does not lead itself: it elects a leader, which appends a record of its term and has
all of its log committed. The others need do nothing. No member stops or crashes on the way, no
`Save` and no file operation fails, and whatever is being applied is applied to the end. Only the
calls of the new leader that are still in flight are given up, since their answers may be lost.
-/

namespace CquptRaft

open Replication Voting

variable {σ : Type} {sm : IStateMachine σ} {cfg : ClusterConfig}

namespace Cluster

variable {c : Cluster σ sm.Image} {l q : NodeId} {Q : List NodeId}

/-! ## Threads that come to rest -/

/-- The leader's replicators move, and nothing else. -/
def Replicating (c c' : Cluster σ sm.Image) (l : NodeId) : Prop :=
  (∃ replicators rpcStarted, c'.members l = { c.members l with replicators, rpcStarted }) ∧
    ∀ p, p ≠ l → c'.members p = c.members p

theorem Replicating.refl (c : Cluster σ sm.Image) (l : NodeId) : Replicating c c l :=
  ⟨⟨_, _, rfl⟩, fun _ _ => rfl⟩

theorem Replicating.trans {c' c'' : Cluster σ sm.Image} (h : Replicating c c' l)
    (h' : Replicating c' c'' l) : Replicating c c'' l := by
  obtain ⟨⟨replicators, rpcStarted, hl⟩, hothers⟩ := h
  obtain ⟨⟨replicators', rpcStarted', hl'⟩, hothers'⟩ := h'
  refine ⟨⟨replicators', rpcStarted', by rw [hl', hl]⟩, ?_⟩
  intro p hp
  rw [hothers' p hp, hothers p hp]

/-- The states of a call in the order in which it passes them. -/
def callsLeft : ReplicatorCall → Nat
  | .idle => 0
  | .appendReturned | .installReturned => 1
  | .append _ | .install _ _ => 2
  | .boundary _ _ _ => 3
  | .snapshot _ => 4

/-- A call that is not through takes one more step. -/
theorem exists_callStep (hQ : l ∈ Q) (hl : l ∈ cfg.ids) (hup : (c.members l).up = true)
    (hbusy : (c.members l).replicators q ≠ .idle) :
    ∃ c', Moves sm cfg Q c c' ∧ Replicating c c' l ∧
      callsLeft ((c'.members l).replicators q) < callsLeft ((c.members l).replicators q) ∧
      ∀ p, p ≠ q → (c'.members l).replicators p = (c.members l).replicators p := by
  have hmove : ∃ action call sent rpcStarted, action.goesOn = true ∧
      act sm cfg l c.net (c.members l) action =
        some ({ c.members l with rpcStarted }.setReplicator q call, sent) ∧
      callsLeft call < callsLeft ((c.members l).replicators q) := by
    cases hin : (c.members l).replicators q with
    | idle => exact absurd hin hbusy
    | append call =>
      refine ⟨.appendFailed q, .appendReturned, [], (c.members l).rpcStarted, rfl, ?_,
        by simp [callsLeft]⟩
      simp only [act, hin]
    | install call index =>
      refine ⟨.installFailed q, .installReturned, [], (c.members l).rpcStarted, rfl, ?_,
        by simp [callsLeft]⟩
      simp only [act, hin]
    | appendReturned | installReturned =>
      refine ⟨.finishRpc q, .idle, [], (c.members l).rpcStarted, rfl, ?_,
        by simp [callsLeft]⟩
      simp only [act, hin]
    | snapshot term =>
      by_cases hstop : (!(c.members l).node.running) = true ∨ (c.members l).node.role ≠ .leader ∨
          (c.members l).node.currentTerm ≠ term ∨ (c.members l).node.lastSnapshotIndex = 0
      · refine ⟨.readBoundary q, .installReturned, [], (c.members l).rpcStarted, rfl, ?_,
          by simp [callsLeft]⟩
        simp only [act, Member.readBoundary, hin, if_pos hstop, Option.map_some]
      · refine ⟨.readBoundary q, .boundary term (c.members l).node.lastSnapshotIndex
          (c.members l).node.lastSnapshotTerm, [], (c.members l).rpcStarted, rfl, ?_,
          by simp [callsLeft]⟩
        simp only [act, Member.readBoundary, hin, if_neg hstop, Option.map_some]
    | boundary term index snapshotTerm =>
      cases hchoose : chooseSnapshot (c.members l).snapshots index snapshotTerm with
      | none =>
        refine ⟨.sendSnapshot q, .installReturned, [], (c.members l).rpcStarted, rfl, ?_,
          by simp [callsLeft]⟩
        simp only [act, Member.sendSnapshot, hin, hchoose]
      | some snapshot =>
        refine ⟨.sendSnapshot q, .install ⟨(c.members l).node.nodeId, q, term,
          (c.members l).rpcStarted⟩ snapshot.index, [⟨⟨(c.members l).node.nodeId, q, term,
          (c.members l).rpcStarted⟩, .installRequest ⟨term, (c.members l).node.nodeId,
          snapshot.index, snapshot.term, snapshot.image⟩⟩], (c.members l).rpcStarted + 1, rfl, ?_,
          by simp [callsLeft]⟩
        simp only [act, Member.sendSnapshot, hin, hchoose]
  obtain ⟨action, call, sent, rpcStarted, hgoesOn, hact, hless⟩ := hmove
  obtain ⟨c', hrun, hm, hothers, -⟩ : ∃ c', Moves sm cfg Q c c' ∧ _ :=
    exists_step hQ hl hup hgoesOn hact
  refine ⟨c', hrun, ⟨⟨_, _, hm⟩, hothers⟩, ?_, ?_⟩
  · simpa [hm, Member.setReplicator] using hless
  · intro p hp
    simp [hm, Member.setReplicator, Function.update_of_ne hp]

/-- A call comes to its end. -/
theorem exists_idle (hQ : l ∈ Q) (hl : l ∈ cfg.ids) (hup : (c.members l).up = true) (q : NodeId) :
    ∃ c', Moves sm cfg Q c c' ∧ Replicating c c' l ∧ (c'.members l).replicators q = .idle ∧
      ∀ p, p ≠ q → (c'.members l).replicators p = (c.members l).replicators p := by
  induction hleft : callsLeft ((c.members l).replicators q) using Nat.strong_induction_on
    generalizing c with
  | h left ih =>
    subst hleft
    by_cases hidle : (c.members l).replicators q = .idle
    · exact ⟨c, .refl, .refl c l, hidle, fun _ _ => rfl⟩
    · obtain ⟨c₁, hrun₁, hmoved₁, hless, hsame₁⟩ := exists_callStep hQ hl hup hidle
      have hup₁ : (c₁.members l).up = true := by
        obtain ⟨⟨replicators, rpcStarted, hm⟩, -⟩ := hmoved₁
        simpa [hm] using hup
      obtain ⟨c₂, hrun₂, hmoved₂, hidle₂, hsame₂⟩ := ih _ hless hup₁ rfl
      refine ⟨c₂, hrun₁.trans hrun₂, hmoved₁.trans hmoved₂, hidle₂, ?_⟩
      intro p hp
      rw [hsame₂ p hp, hsame₁ p hp]

/-- The calls to all members of `R` come to their end. -/
theorem exists_all_idle (hQ : l ∈ Q) (hl : l ∈ cfg.ids) (hup : (c.members l).up = true)
    (R : List NodeId) :
    ∃ c', Moves sm cfg Q c c' ∧ Replicating c c' l ∧
      ∀ q ∈ R, (c'.members l).replicators q = .idle := by
  induction R with
  | nil => exact ⟨c, .refl, .refl c l, by simp⟩
  | cons q R ih =>
    obtain ⟨c₁, hrun₁, hmoved₁, hidle₁⟩ := ih
    have hup₁ : (c₁.members l).up = true := by
      obtain ⟨⟨replicators, rpcStarted, hm⟩, -⟩ := hmoved₁
      simpa [hm] using hup
    obtain ⟨c₂, hrun₂, hmoved₂, hidle₂, hsame₂⟩ := exists_idle hQ hl hup₁ q
    refine ⟨c₂, hrun₁.trans hrun₂, hmoved₁.trans hmoved₂, ?_⟩
    intro p hp
    by_cases hpq : p = q
    · exact hpq ▸ hidle₂
    · rw [hsame₂ p hpq]
      exact hidle₁ p ((List.mem_cons.mp hp).resolve_left hpq)

end Cluster

theorem RaftNode.lastApplied_lt_of_applyPick {n m : RaftNode} {index : Nat} {command : Bytes}
    (h : n.applyPick = (m, .entry index command)) : n.lastApplied < index := by
  unfold RaftNode.applyPick at h
  simp only at h
  split at h
  · cases h
  · split at h
    · cases h
    · cases h
      exact Nat.lt_succ_of_le (le_max_left _ _)

theorem RaftNode.installFinish_currentTerm {Image : Type} (n : RaftNode)
    (request : InstallSnapshotRequest Image) (response : InstallSnapshotResponse) (saved : Bool) :
    (n.installFinish request response saved).1.currentTerm = n.currentTerm := by
  grind [RaftNode.installFinish, RaftNode.adoptSnapshotLocked, RaftNode.compactLogPrefixLocked,
    RaftNode.restoreLogAfterSnapshotLocked, RaftNode.persistStateLocked_eq]

/-- The steps of a thread that holds `apply_mu_`, when every `Save` succeeds. -/
def Action.applies : Action → Bool
  | .applyPick | .applyRun => true
  | .applyFinish saved | .installFinish saved => saved
  | _ => false

theorem Action.goesOn_of_elects {action : Action} (h : action.elects = true) :
    action.goesOn = true := by
  cases action <;> first | exact h | cases h

theorem Action.goesOn_of_applies {action : Action} (h : action.applies = true) :
    action.goesOn = true := by
  cases action <;> first | exact h | cases h

namespace Cluster

variable {c : Cluster σ sm.Image} {l q : NodeId} {Q : List NodeId}

/-- Member `q` applies, and the others do nothing. -/
structure Applying (c c' : Cluster σ sm.Image) (q : NodeId) : Prop where
  others : ∀ p, p ≠ q → c'.members p = c.members p
  up : (c'.members q).up = (c.members q).up
  term : (c'.members q).node.currentTerm = (c.members q).node.currentTerm

theorem Applying.refl (c : Cluster σ sm.Image) (q : NodeId) : Applying c c q :=
  ⟨fun _ _ => rfl, rfl, rfl⟩

theorem Applying.trans {c' c'' : Cluster σ sm.Image} (h : Applying c c' q)
    (h' : Applying c' c'' q) : Applying c c'' q where
  others p hp := (h'.others p hp).trans (h.others p hp)
  up := h'.up.trans h.up
  term := h'.term.trans h.term

variable (sm cfg) in
/-- The lock gets free. -/
def ComesFree (Q : List NodeId) (c : Cluster σ sm.Image) (q : NodeId) : Prop :=
  ∃ c', RunBy sm cfg Q (fun action => action.applies = true) c c' ∧ Applying c c' q ∧
    (c'.members q).apply = .free

/-- One step on the way. -/
theorem ComesFree.step {action : Action} {m : Member σ sm.Image} {outbox : Member.Outbox sm.Image}
    (hQ : q ∈ Q) (hq : q ∈ cfg.ids) (hup : (c.members q).up = true)
    (happlies : action.applies = true)
    (hact : act sm cfg q c.net (c.members q) action = some (m, outbox))
    (hmup : m.up = true) (hmterm : m.node.currentTerm = (c.members q).node.currentTerm)
    (hrest : ∀ c' : Cluster σ sm.Image, c'.members q = m → ComesFree sm cfg Q c' q) :
    ComesFree sm cfg Q c q := by
  obtain ⟨c₁, hrun₁, hm, hothers, -⟩ :
      ∃ c', RunBy sm cfg Q (fun action => action.applies = true) c c' ∧ _ :=
    exists_step hQ hq hup happlies hact
  obtain ⟨c₂, hrun₂, hmoved, hfree⟩ := hrest c₁ hm
  have hfirst : Applying c c₁ q := ⟨hothers, by rw [hm, hmup, hup], by rw [hm, hmterm]⟩
  exact ⟨c₂, hrun₁.trans hrun₂, hfirst.trans hmoved, hfree⟩

theorem ComesFree.now (hfree : (c.members q).apply = .free) : ComesFree sm cfg Q c q :=
  ⟨c, .refl, .refl c q, hfree⟩

/-- Behind an applied entry the loop goes on. -/
theorem ComesFree.applied {index : Nat} (hQ : q ∈ Q) (hq : q ∈ cfg.ids)
    (hup : (c.members q).up = true) (hlock : (c.members q).apply = .applied index)
    (hrest : ∀ c' : Cluster σ sm.Image, (c'.members q).up = true →
      (c'.members q).apply = .looping →
      (c'.members q).node.commitIndex = (c.members q).node.commitIndex →
      index ≤ (c'.members q).node.lastApplied → ComesFree sm cfg Q c' q) :
    ComesFree sm cfg Q c q := by
  obtain ⟨node, goesOn, hfinish⟩ : ∃ node goesOn,
      (c.members q).node.applyFinish index true = (node, goesOn) := ⟨_, _, rfl⟩
  have hnode : goesOn = true ∧ node.currentTerm = (c.members q).node.currentTerm ∧
      node.commitIndex = (c.members q).node.commitIndex ∧ index ≤ node.lastApplied := by
    rw [RaftNode.applyFinish] at hfinish
    split at hfinish
    · cases hfinish
      exact ⟨rfl, rfl, rfl, le_rfl⟩
    · cases hfinish
      exact ⟨rfl, rfl, rfl, by omega⟩
  obtain ⟨rfl, hterm, hcommit, happlied⟩ := hnode
  have hact : act sm cfg q c.net (c.members q) (.applyFinish true) =
      some ({ c.members q with node, apply := .looping }, []) := by
    simp [act, Member.applyFinish, hlock, hfinish]
  refine .step hQ hq hup rfl hact hup hterm ?_
  intro c' hm
  exact hrest c' (by rw [hm]; exact hup) (by rw [hm]) (by rw [hm]; exact hcommit)
    (by rw [hm]; exact happlied)

/-- Behind a picked entry the loop goes on, unless the entry cannot be applied. -/
theorem ComesFree.picked {index : Nat} {command : Bytes} (hQ : q ∈ Q) (hq : q ∈ cfg.ids)
    (hup : (c.members q).up = true) (hlock : (c.members q).apply = .picked index command)
    (hrest : ∀ c' : Cluster σ sm.Image, (c'.members q).up = true →
      (c'.members q).apply = .looping →
      (c'.members q).node.commitIndex = (c.members q).node.commitIndex →
      index ≤ (c'.members q).node.lastApplied → ComesFree sm cfg Q c' q) :
    ComesFree sm cfg Q c q := by
  cases happly : sm.apply (c.members q).kv command with
  | ok kv =>
    have hact : act sm cfg q c.net (c.members q) .applyRun =
        some ({ c.members q with kv, apply := .applied index }, []) := by
      simp [act, Member.applyRun, hlock, happly]
    refine .step hQ hq hup rfl hact hup rfl ?_
    intro c' hm
    refine .applied hQ hq (by rw [hm]; exact hup) (by rw [hm]) ?_
    intro c'' hup'' hlock'' hcommit
    exact hrest c'' hup'' hlock'' (by rw [hcommit, hm])
  | error _ =>
    have hact : act sm cfg q c.net (c.members q) .applyRun =
        some ({ c.members q with apply := .free }, []) := by
      simp [act, Member.applyRun, hlock, happly]
    refine .step hQ hq hup rfl hact hup rfl ?_
    intro c' hm
    exact .now (by rw [hm])

/-- The loop ends: every pass takes `last_applied_` on towards `commit_index_`. -/
theorem ComesFree.looping (hQ : q ∈ Q) (hq : q ∈ cfg.ids) (hup : (c.members q).up = true)
    (hlock : (c.members q).apply = .looping) : ComesFree sm cfg Q c q := by
  induction hleft : (c.members q).node.commitIndex - (c.members q).node.lastApplied using
    Nat.strong_induction_on generalizing c with
  | h left ih =>
    obtain ⟨node, pick, hpick⟩ : ∃ node pick, (c.members q).node.applyPick = (node, pick) :=
      ⟨_, _, rfl⟩
    have hnode : node.currentTerm = (c.members q).node.currentTerm ∧
        node.commitIndex = (c.members q).node.commitIndex := by
      have hframe := (c.members q).node.applyPick_frame
      rw [hpick] at hframe
      simp [show node = _ from hframe]
    cases pick with
    | nothing | outOfRange =>
      have hact : act sm cfg q c.net (c.members q) .applyPick =
          some ({ c.members q with node, apply := .free }, []) := by
        simp [act, Member.applyPick, hlock, hpick]
      refine .step hQ hq hup rfl hact hup hnode.1 ?_
      intro c' hm
      exact .now (by rw [hm])
    | entry index command =>
      have hindex := RaftNode.lastApplied_lt_of_applyPick hpick
      have hle := RaftNode.applyPick_entry hpick
      have hact : act sm cfg q c.net (c.members q) .applyPick =
          some ({ c.members q with node, apply := .picked index command }, []) := by
        simp [act, Member.applyPick, hlock, hpick]
      refine .step hQ hq hup rfl hact hup hnode.1 ?_
      intro c' hm
      refine .picked hQ hq (by rw [hm]; exact hup) (by rw [hm]) ?_
      intro c'' hup'' hlock'' hcommit happlied
      refine ih _ ?_ hup'' hlock'' rfl
      have hcommit' : (c''.members q).node.commitIndex = node.commitIndex := by
        rw [hcommit, hm]
      have hcommit := hnode.2
      omega

/-- Whatever the thread that holds the lock is doing, it gets through. -/
theorem exists_free (hQ : q ∈ Q) (hq : q ∈ cfg.ids) (hup : (c.members q).up = true) :
    ComesFree sm cfg Q c q := by
  cases hlock : (c.members q).apply with
  | free => exact .now hlock
  | looping => exact .looping hQ hq hup hlock
  | picked index command =>
    refine .picked hQ hq hup hlock ?_
    intro c' hup' hlock' _ _
    exact .looping hQ hq hup' hlock'
  | applied index =>
    refine .applied hQ hq hup hlock ?_
    intro c' hup' hlock' _ _
    exact .looping hQ hq hup' hlock'
  | installing handler =>
    have hact : act sm cfg q c.net (c.members q) (.installFinish true) =
        some ({ c.members q with
          node := ((c.members q).node.installFinish handler.request handler.response true).1
          apply := .free }, [⟨handler.call, .installResponse
            ((c.members q).node.installFinish handler.request handler.response true).2⟩]) := by
      simp [act, Member.installFinish, hlock]
    refine .step hQ hq hup rfl hact hup ?_ ?_
    · exact RaftNode.installFinish_currentTerm _ _ _ _
    · intro c' hm
      exact .now (by rw [hm])

/-- All members of `R` get their locks free. -/
theorem exists_all_free {R : List NodeId} (hRQ : ∀ q ∈ R, q ∈ Q) (hids : ∀ q ∈ Q, q ∈ cfg.ids)
    (hup : ∀ q ∈ R, (c.members q).up = true) (hR : R.Nodup) :
    ∃ c', RunBy sm cfg Q (fun action => action.applies = true) c c' ∧
      (∀ p, p ∉ R → c'.members p = c.members p) ∧
      ∀ q ∈ R, (c'.members q).up = true ∧ (c'.members q).apply = .free ∧
        (c'.members q).node.currentTerm = (c.members q).node.currentTerm := by
  induction R with
  | nil => exact ⟨c, .refl, fun _ _ => rfl, by simp⟩
  | cons q R ih =>
    obtain ⟨hqR, hR⟩ := List.nodup_cons.mp hR
    obtain ⟨c₁, hrun₁, hothers₁, hfree₁⟩ := ih (fun p hp => hRQ p (List.mem_cons_of_mem q hp))
      (fun p hp => hup p (List.mem_cons_of_mem q hp)) hR
    have hq₁ := hothers₁ q hqR
    have hqQ := hRQ q List.mem_cons_self
    have hup₁ : (c₁.members q).up = true := by
      rw [hq₁]
      exact hup q List.mem_cons_self
    obtain ⟨c₂, hrun₂, happlying, hfree₂⟩ : ComesFree sm cfg Q c₁ q :=
      exists_free hqQ (hids q hqQ) hup₁
    refine ⟨c₂, hrun₁.trans hrun₂, ?_, ?_⟩
    · intro p hp
      obtain ⟨hpq, hpR⟩ := List.ne_and_not_mem_of_not_mem_cons hp
      rw [happlying.others p hpq, hothers₁ p hpR]
    · intro p hp
      by_cases hpq : p = q
      · subst hpq
        exact ⟨happlying.up.trans hup₁, hfree₂, by rw [happlying.term, hq₁]⟩
      · rw [happlying.others p hpq]
        exact hfree₁ p ((List.mem_cons.mp hp).resolve_left hpq)

/-! ## Rounds with a majority -/

theorem RunBy.mono {R : List NodeId} {allowed : Action → Prop} {c c' : Cluster σ sm.Image}
    (h : RunBy sm cfg R allowed c c') (hRQ : ∀ q ∈ R, q ∈ Q)
    (hallowed : ∀ action, allowed action → action.goesOn = true) : Moves sm cfg Q c c' := by
  refine Relation.ReflTransGen.mono (fun _ _ hstep => ?_) _ _ h
  obtain ⟨id, action, ⟨hid, haction⟩, hstep⟩ := hstep
  exact ⟨id, action, ⟨hRQ id hid, hallowed action haction⟩, hstep⟩

theorem Moves.run {c c' : Cluster σ sm.Image} (h : Moves sm cfg Q c c') : Run sm cfg c c' := by
  refine Relation.ReflTransGen.mono (fun _ _ hstep => ?_) _ _ h
  obtain ⟨id, action, -, hstep⟩ := hstep
  exact ⟨id, action, hstep⟩

variable {R : List NodeId} {M : Nat → List LogRecord} {T B : Nat} {L : List LogRecord}

/-- Leader `l` and the followers of `R` can go on with their rounds. -/
structure InRounds (cfg : ClusterConfig) (c : Cluster σ sm.Image) (l : NodeId) (R : List NodeId)
    (M : Nat → List LogRecord) (T : Nat) (L : List LogRecord) (B : Nat) : Prop where
  reachable : Reachable sm cfg c
  serves : ∀ q ∈ R, c.Serves cfg l q
  ready : Group.ReadyFor M T L B sm R (c.group l)

/-- What the leader knows of the followers does not go back. -/
theorem servesOnly_of_link {c' : Cluster σ sm.Image} {maxSnapshotCount : Nat}
    (hlink : (c'.group l).link q =
      ((c.group l).round sm maxSnapshotCount q .answered).link q) :
    RaftNode.ServesOnly q (c.members l).node (c'.members l).node := by
  have hleader : (c'.members l).node =
      ((c.group l).round sm maxSnapshotCount q .answered).leader := congrArg Link.leader hlink
  rw [hleader]
  exact (c.group l).round_servesOnly maxSnapshotCount q .answered

section

variable (hL : Indexed L) (hLgood : Good LogRecord.term M L)
  (hpos : ∀ T, ∀ x ∈ M T, 0 < LogRecord.term x)
  (henabled : ∀ q ∈ R, (cfg.snapshot q).enabled = true) (hlQ : l ∈ Q) (hRQ : ∀ q ∈ R, q ∈ Q)

include hL hLgood hpos henabled hlQ hRQ

/-- One round with `q`. -/
theorem InRounds.round (h : InRounds cfg c l R M T L B) (hq : q ∈ R) :
    ∃ c', Moves sm cfg Q c c' ∧ InRounds cfg c' l R M T L B ∧
      ∀ p ∈ R, (c'.group l).link p =
        ((c.group l).round sm (cfg.snapshot q).maxSnapshotCount q .answered).link p := by
  have hserves := h.serves q hq
  obtain ⟨c', hmoves, hserved, hleader, hfollower, hdir⟩ := hserves.round (henabled q hq) rfl
  have hmoves' : Moves sm cfg Q c c' := by
    refine hmoves.mono ?_ fun _ haction => haction
    intro p hp
    rcases List.mem_cons.mp hp with rfl | hp
    · exact hlQ
    · rw [List.mem_singleton.mp hp]
      exact hRQ q hq
  have hlink : ∀ p ∈ R, (c'.group l).link p =
      ((c.group l).round sm (cfg.snapshot q).maxSnapshotCount q .answered).link p := by
    intro p hp
    by_cases hpq : p = q
    · subst hpq
      have hsnapshots : (((c.group l).link p).replicateOnce sm
          (cfg.snapshot p).maxSnapshotCount p).leaderSnapshots = (c.members l).snapshots :=
        Link.replicateOnce_leaderSnapshots _ _ p
      rw [Group.link_round_answered]
      generalize ((c.group l).link p).replicateOnce sm (cfg.snapshot p).maxSnapshotCount p = s
        at hleader hfollower hdir hsnapshots ⊢
      simp only [Cluster.group, Group.link]
      rw [hleader, hfollower, hdir, hserved.snapshots, ← hsnapshots]
    · rw [Group.link_round_ne _ _ hpq]
      have hsame := hserved.others p (h.serves p hp).ne hpq
      simp only [Cluster.group, Group.link, Group.round] at hleader ⊢
      rw [hleader, hsame, hserved.snapshots]
  have hc' : Reachable sm cfg c' := h.reachable.trans hmoves'.run
  refine ⟨c', hmoves', ⟨hc', ?_, ?_⟩, hlink⟩
  · intro p hp
    have hp' := h.serves p hp
    obtain ⟨hid, hpeers⟩ := hc'.identity hp'.leader
    obtain ⟨-, hpeers₀⟩ := h.reachable.identity hp'.leader
    have hfollows : (c'.members p).up = true ∧ (c'.members p).apply = .free := by
      by_cases hpq : p = q
      · subst hpq
        exact ⟨hserved.followerUp.trans hp'.followerUp, hserved.free⟩
      · rw [hserved.others p hp'.ne hpq]
        exact ⟨hp'.followerUp, hp'.free⟩
    refine ⟨hp'.leader, hp'.follower, hp'.ne, hserved.leaderUp.trans hp'.leaderUp, hfollows.1, hid,
      ?_, ?_, hfollows.2⟩
    · rw [hpeers, ← hpeers₀]
      exact hp'.peer
    · rw [hserved.replicators]
      exact hp'.idle
  · intro p hp
    rw [hlink p hp]
    exact (h.ready.round hL hLgood hpos (fun _ => hq)).1 p hp

/-- Rounds with `q` go on until the leader knows that it has the whole log. -/
theorem InRounds.exists_matched (h : InRounds cfg c l R M T L B) (hq : q ∈ R) :
    ∃ c', Moves sm cfg Q c c' ∧ InRounds cfg c' l R M T L B ∧
      (c'.members l).node.matchIndex q = L.length ∧
      ∀ p, (c.members l).node.matchIndex p ≤ (c'.members l).node.matchIndex p := by
  induction hrank : ((c.group l).link q).rank q using Nat.strong_induction_on generalizing c with
  | h rank ih =>
    subst hrank
    obtain ⟨c₁, hmoves₁, h₁, hlink⟩ : ∃ c', Moves sm cfg Q c c' ∧ InRounds cfg c' l R M T L B ∧ _ :=
      h.round hL hLgood hpos henabled hlQ hRQ hq
    have hserves₁ := servesOnly_of_link (hlink q hq)
    have hround := ((h.ready q hq).round hL hLgood hpos (cfg.snapshot q).maxSnapshotCount).2
    rw [← Group.link_round_answered, ← hlink q hq] at hround
    rcases hround with hless | hmatched
    · obtain ⟨c₂, hmoves₂, h₂, hmatched, hgrows⟩ := ih _ hless h₁ rfl
      refine ⟨c₂, hmoves₁.trans hmoves₂, h₂, hmatched, ?_⟩
      intro p
      exact (hserves₁.match_le p).trans (hgrows p)
    · exact ⟨c₁, hmoves₁, h₁, hmatched, hserves₁.match_le⟩

/-- The leader comes to know it of all followers. -/
theorem InRounds.exists_all_matched (h : InRounds cfg c l R M T L B) {R' : List NodeId}
    (hsub : ∀ q ∈ R', q ∈ R) :
    ∃ c', Moves sm cfg Q c c' ∧ InRounds cfg c' l R M T L B ∧
      ∀ q ∈ R', (c'.members l).node.matchIndex q = L.length := by
  induction R' with
  | nil => exact ⟨c, .refl, h, by simp⟩
  | cons q R' ih =>
    obtain ⟨c₁, hmoves₁, h₁, hall⟩ := ih fun p hp => hsub p (List.mem_cons_of_mem q hp)
    have hq : ∃ c', Moves sm cfg Q c₁ c' ∧ InRounds cfg c' l R M T L B ∧
        (c'.members l).node.matchIndex q = L.length ∧
        ∀ p, (c₁.members l).node.matchIndex p ≤ (c'.members l).node.matchIndex p :=
      h₁.exists_matched hL hLgood hpos henabled hlQ hRQ (hsub q List.mem_cons_self)
    obtain ⟨c₂, hmoves₂, h₂, hmatched, hgrows⟩ := hq
    refine ⟨c₂, hmoves₁.trans hmoves₂, h₂, ?_⟩
    intro p hp
    rcases List.mem_cons.mp hp with rfl | hp
    · exact hmatched
    · have hle : (c₂.members l).node.matchIndex p ≤ L.length :=
        (h₂.ready p (hsub p (List.mem_cons_of_mem q hp))).match_le
      exact le_antisymm hle ((hall p hp).ge.trans (hgrows p))

/-- With all of a majority up to date, one of them is asked until the log is committed. -/
theorem InRounds.exists_committed (h : InRounds cfg c l R M T L B)
    (hown : termAt LogRecord.term L L.length = T)
    (hmajority : Group.Majority R (c.members l).node)
    (hmatched : ∀ q ∈ R, (c.members l).node.matchIndex q = L.length) (hq : q ∈ R) :
    ∃ c', Moves sm cfg Q c c' ∧ InRounds cfg c' l R M T L B ∧
      L.length ≤ (c'.members l).node.commitIndex := by
  induction hrank : ((c.group l).link q).rank q using Nat.strong_induction_on generalizing c with
  | h rank ih =>
    subst hrank
    obtain ⟨c₁, hmoves₁, h₁, hlink⟩ : ∃ c', Moves sm cfg Q c c' ∧ InRounds cfg c' l R M T L B ∧ _ :=
      h.round hL hLgood hpos henabled hlQ hRQ hq
    have hserves₁ := servesOnly_of_link (hlink q hq)
    have hquorum := hmajority.replicated rfl hmatched
    have hround := (h.ready q hq).round_commits hL hLgood hpos hown hquorum
      (cfg.snapshot q).maxSnapshotCount
    rw [← Group.link_round_answered, ← hlink q hq] at hround
    rcases hround with hless | hcommitted
    · have hmajority₁ : Group.Majority R (c₁.members l).node := by
        have hsame : (c₁.members l).node.quorum = (c.members l).node.quorum := by
          rw [RaftNode.quorum, RaftNode.quorum, hserves₁.peers]
        exact ⟨hmajority.nonempty, hmajority.nodup, hserves₁.peers ▸ hmajority.peers,
          hsame ▸ hmajority.quorum⟩
      have hmatched₁ : ∀ p ∈ R, (c₁.members l).node.matchIndex p = L.length := by
        intro p hp
        have hle : (c₁.members l).node.matchIndex p ≤ L.length := (h₁.ready p hp).match_le
        exact le_antisymm hle ((hmatched p hp).ge.trans (hserves₁.match_le p))
      obtain ⟨c₂, hmoves₂, h₂, hcommitted⟩ := ih _ hless h₁ hmajority₁ hmatched₁ rfl
      exact ⟨c₂, hmoves₁.trans hmoves₂, h₂, hcommitted⟩
    · exact ⟨c₁, hmoves₁, h₁, hcommitted⟩

end

/-! ## From any state -/

theorem savingStep_of_elects {id : NodeId} {action : Action} (h : action.elects = true) :
    c.Guarded id action ∧ SavesTerm c.net (c.members id) action := by
  cases action with
  | startElection _ | countVote _ | onElectionWon _ => exact ⟨guarded_of_none rfl rfl, rfl⟩
  | onRequestVote k termSaved voteSaved =>
    have hsaved : termSaved = true := ((Bool.and_eq_true _ _).mp h).1
    exact ⟨guarded_of_none rfl rfl, by simp [SavesTerm, Member.savesTerm, hsaved]⟩
  | onVoteResponse k saved =>
    have hsaved : saved = true := h
    exact ⟨guarded_of_none rfl rfl, by simp [SavesTerm, Member.savesTerm, hsaved]⟩
  | _ => cases h

theorem savingStep_of_applies {id : NodeId} {action : Action} (h : action.applies = true) :
    c.Guarded id action ∧ SavesTerm c.net (c.members id) action := by
  cases action with
  | applyPick | applyRun | applyFinish _ | installFinish _ =>
    exact ⟨guarded_of_none rfl rfl, rfl⟩
  | _ => cases h

/-- Runs with actions that are guarded and save every higher term. -/
theorem RunBy.saving {allowed : Action → Prop} {c' : Cluster σ sm.Image}
    (h : RunBy sm cfg Q allowed c c')
    (hallowed : ∀ (c : Cluster σ sm.Image) (id : NodeId) (action : Action), allowed action →
      c.Guarded id action ∧ SavesTerm c.net (c.members id) action) :
    Relation.ReflTransGen (SavingStep sm cfg) c c' := by
  refine Relation.ReflTransGen.mono (fun d _ hstep => ?_) _ _ h
  obtain ⟨id, action, ⟨-, haction⟩, hstep⟩ := hstep
  exact ⟨id, action, hallowed d id action haction, hstep⟩

theorem Reachable.of_saving (h : Relation.ReflTransGen (SavingStep sm cfg) (init sm cfg) c) :
    Reachable sm cfg c := by
  refine Relation.ReflTransGen.mono (fun _ _ hstep => ?_) _ _ h
  obtain ⟨id, action, -, hstep⟩ := hstep
  exact ⟨id, action, hstep⟩

/-- What the new leader is behind its no-op. -/
structure NoOpAppended (c c' : Cluster σ sm.Image) (l : NodeId) : Prop where
  others : ∀ p, p ≠ l → c'.members p = c.members p
  up : (c'.members l).up = (c.members l).up
  running : (c'.members l).node.running = true
  role : (c'.members l).node.role = .leader
  term : (c'.members l).node.currentTerm = (c.members l).node.currentTerm
  peers : (c'.members l).node.peers = (c.members l).node.peers
  next : ∀ p, p ≠ (c.members l).node.nodeId →
    (c'.members l).node.nextIndex p = (c.members l).node.nextIndex p
  snapIndex : (c'.members l).node.lastSnapshotIndex = (c.members l).node.lastSnapshotIndex
  snapTerm : (c'.members l).node.lastSnapshotTerm = (c.members l).node.lastSnapshotTerm
  snapshots : (c'.members l).snapshots = (c.members l).snapshots
  lastIndex : (c'.members l).node.lastLogIndexLocked = (c.members l).node.lastLogIndexLocked + 1
  lastTerm : (c'.members l).node.lastLogTermLocked = (c.members l).node.currentTerm

theorem NewLeader.appends {T : Nat} (h : c.NewLeader l T) (hQ : l ∈ Q) (hl : l ∈ cfg.ids)
    (hrunning : (c.members l).node.running = true) :
    ∃ c', RunBy sm cfg Q (fun action => action = .proposeNoOp true) c c' ∧
      NoOpAppended c c' l := by
  obtain ⟨hup, hrole, -⟩ := h.leads
  have hact : act sm cfg l c.net (c.members l) (.proposeNoOp true) =
      some ((c.members l).proposeNoOp true, []) := by simp [act, h.noOp]
  obtain ⟨c', hrun, hm, hothers, -⟩ :
      ∃ c', RunBy sm cfg Q (fun action => action = .proposeNoOp true) c c' ∧ _ :=
    exists_step hQ hl hup rfl hact
  have hmember : (c.members l).proposeNoOp true =
      { c.members l with noOpCalls := (c.members l).noOpCalls - 1 }.appendProposal
        kInternalNoOpCommand true := by
    simp [Member.proposeNoOp, hrunning, hrole]
  have happend : ∃ proposals, (c'.members l) = { c.members l with
      noOpCalls := (c.members l).noOpCalls - 1
      node := ((c.members l).node.appendLocalLogUnlocked kInternalNoOpCommand true).1
      proposals } := by
    rw [hm, hmember]
    simp only [Member.appendProposal]
    split
    · exact ⟨_, rfl⟩
    · exact ⟨_, rfl⟩
  obtain ⟨proposals, hmember'⟩ := happend
  refine ⟨c', hrun, hothers, ?_, ?_, ?_, ?_, ?_, ?_, ?_, ?_, ?_, ?_, ?_⟩
  all_goals rw [hmember']
  · exact hrunning
  · exact hrole
  · rfl
  · rfl
  · intro p hp
    exact Function.update_of_ne hp _ _
  · rfl
  · rfl
  · simp [RaftNode.appendLocalLogUnlocked, RaftNode.persistStateLocked,
      RaftNode.lastLogIndexLocked]
  · simp [RaftNode.appendLocalLogUnlocked, RaftNode.persistStateLocked,
      RaftNode.lastLogTermLocked]

/-- A leader whose last record is of its own term gets its log committed by a majority whose locks
are free. -/
theorem exists_leader_commits
    (hc : Relation.ReflTransGen (SavingStep sm cfg) (init sm cfg) c) (hl : l ∈ cfg.ids)
    (hR : Group.Majority R (c.members l).node)
    (hreplicates : ∀ p ∈ R, c.Replicates l p ((c.members l).node.nextIndex p))
    (hterm : ∀ p ∈ R, (c.members p).node.currentTerm ≤ (c.members l).node.currentTerm)
    (hown : (c.members l).node.lastLogTermLocked = (c.members l).node.currentTerm)
    (hfree : ∀ p ∈ R, (c.members p).apply = .free)
    (henabled : ∀ p ∈ R, (cfg.snapshot p).enabled = true) (hlQ : l ∈ Q)
    (hRQ : ∀ p ∈ R, p ∈ Q) :
    ∃ c', Moves sm cfg Q c c' ∧ c'.LeaderAt l (c.members l).node.currentTerm ∧
      (c'.members l).node.log = (c.members l).node.log ∧
      (c'.members l).node.lastLogIndexLocked = (c.members l).node.lastLogIndexLocked ∧
      (c'.members l).node.lastLogTermLocked = (c.members l).node.currentTerm ∧
      (c'.members l).node.lastLogIndexLocked ≤ (c'.members l).node.commitIndex := by
  obtain ⟨H, -, hH⟩ := KnownInv.init.run hc
  have hrun := Reachable.of_saving hc
  have hready := hH.readyFor (LoadsInv.init.run hrun) hl hreplicates hterm
  obtain ⟨q, hq⟩ := List.exists_mem_of_ne_nil R hR.nonempty
  obtain ⟨commit, hrep⟩ := (hready q hq).leads.log
  have hend : termAt LogRecord.term (H.leaderLog (c.members l).node.currentTerm)
      (H.leaderLog (c.members l).node.currentTerm).length = (c.members l).node.currentTerm :=
    hrep.lastLogTermLocked.symm.trans hown
  -- the calls of the leader come to their end
  obtain ⟨c₁, hmoves₁, ⟨⟨replicators, rpcStarted, hl₁⟩, hothers₁⟩, hidle⟩ :
      ∃ c', Moves sm cfg Q c c' ∧ Replicating c c' l ∧ _ :=
    exists_all_idle hlQ hl (hreplicates q hq).leaderUp R
  have hne : ∀ p ∈ R, p ≠ l := by
    intro p hp
    have hpeer := (hreplicates p hp).peer
    rw [(hrun.identity hl).2, ClusterConfig.peers, List.mem_filter] at hpeer
    simpa using hpeer.2
  have hrounds : InRounds cfg c₁ l R H.leaderLog (c.members l).node.currentTerm
      (H.leaderLog (c.members l).node.currentTerm) (c.members l).node.lastSnapshotIndex := by
    refine ⟨hrun.trans hmoves₁.run, ?_, ?_⟩
    · intro p hp
      have hp' := hreplicates p hp
      have hpids : p ∈ cfg.ids := by
        have hpeer := hp'.peer
        rw [(hrun.identity hl).2] at hpeer
        exact (List.mem_filter.mp hpeer).1
      refine ⟨hl, hpids, hne p hp, ?_, ?_, ?_, ?_, hidle p hp, ?_⟩
      · simpa [hl₁] using hp'.leaderUp
      · rw [hothers₁ p (hne p hp)]
        exact hp'.followerUp
      · simpa [hl₁] using (hrun.identity hl).1
      · simpa [hl₁] using hp'.peer
      · rw [hothers₁ p (hne p hp)]
        exact hfree p hp
    · intro p hp
      have hlink : (c₁.group l).link p = (c.group l).link p := by
        simp [Cluster.group, Group.link, hl₁, hothers₁ p (hne p hp)]
      rw [hlink]
      exact hready p hp
  have hL := hH.sim.indexed (c.members l).node.currentTerm
  have hLgood := hH.sim.valid.leaderLog_good (c.members l).node.currentTerm
  obtain ⟨c₂, hmoves₂, hrounds₂, hmatched⟩ :
      ∃ c', Moves sm cfg Q c₁ c' ∧ InRounds cfg c' l R H.leaderLog _ _ _ ∧ ∀ p ∈ R, _ :=
    hrounds.exists_all_matched hL hLgood hH.sim.term_pos henabled hlQ hRQ (fun p hp => hp)
  -- the majority is the same
  have hR₂ : Group.Majority R (c₂.members l).node := by
    have hpeers : (c₂.members l).node.peers = (c.members l).node.peers := by
      rw [(hrounds₂.reachable.identity hl).2, (hrun.identity hl).2]
    have hquorum : (c₂.members l).node.quorum = (c.members l).node.quorum := by
      rw [RaftNode.quorum, RaftNode.quorum, hpeers]
    exact ⟨hR.nonempty, hR.nodup, hpeers ▸ hR.peers, hquorum ▸ hR.quorum⟩
  obtain ⟨c₃, hmoves₃, hrounds₃, hcommitted⟩ :
      ∃ c', Moves sm cfg Q c₂ c' ∧ InRounds cfg c' l R H.leaderLog _ _ _ ∧ _ :=
    hrounds₂.exists_committed hL hLgood hH.sim.term_pos henabled hlQ hRQ hend hR₂ hmatched hq
  have hleads : Leads _ _ _ (c₃.members l).node := (hrounds₃.ready q hq).leads
  obtain ⟨commit', hrep'⟩ := hleads.log
  refine ⟨c₃, (hmoves₁.trans hmoves₂).trans hmoves₃,
    ⟨(hrounds₃.serves q hq).leaderUp, hleads.role, hleads.term⟩,
    hrep'.stores.eq.trans hrep.stores.eq.symm, ?_, ?_, ?_⟩
  · exact hrep'.lastLogIndexLocked.trans hrep.lastLogIndexLocked.symm
  · exact hrep'.lastLogTermLocked.trans hend
  · rw [hrep'.lastLogIndexLocked]
    exact hcommitted

/-- The snapshot at the boundary of member `q` is in its directory. -/
def BoundaryKept (c : Cluster σ sm.Image) (q : NodeId) : Prop :=
  0 < (c.members q).node.lastSnapshotIndex → ∃ s ∈ (c.members q).snapshots,
    s.index = (c.members q).node.lastSnapshotIndex ∧ s.term = (c.members q).node.lastSnapshotTerm

instance (c : Cluster σ sm.Image) (q : NodeId) : Decidable (c.BoundaryKept q) :=
  inferInstanceAs (Decidable (_ → _))

/-- Member `l` leads term `T` with one record more than it had, and the others of `Q` are there to
follow. -/
structure LeaderReady (cfg : ClusterConfig) (Q : List NodeId) (c c' : Cluster σ sm.Image)
    (l : NodeId) (T : Nat) : Prop where
  saving : Relation.ReflTransGen (SavingStep sm cfg) (init sm cfg) c'
  leads : c'.LeaderAt l T
  running : (c'.members l).node.running = true
  next : ∀ p ∈ Q, p ≠ l →
    (c'.members l).node.nextIndex p = (c.members l).node.lastLogIndexLocked + 1
  lastIndex : (c'.members l).node.lastLogIndexLocked = (c.members l).node.lastLogIndexLocked + 1
  lastTerm : (c'.members l).node.lastLogTermLocked = T
  boundary : c.BoundaryKept l → c'.BoundaryKept l
  followers : ∀ p ∈ Q, p ≠ l → (c'.members p).up = true ∧ (c'.members p).apply = .free ∧
    (c'.members p).node.currentTerm = T

/-- A majority gets there: it elects a leader, which appends its no-op, and the others finish what
they apply. -/
theorem Assembled.exists_leaderReady (h : Assembled cfg Q c)
    (hc : Relation.ReflTransGen (SavingStep sm cfg) (init sm cfg) c) {p₀ : NodeId} (hp₀ : p₀ ∈ Q)
    (hrole : (c.members p₀).node.role ≠ .leader) :
    ∃ c' l T, Moves sm cfg Q c c' ∧ l ∈ Q ∧ (∀ q ∈ Q, (c.members q).node.currentTerm ≤ T) ∧
      LeaderReady cfg Q c c' l T := by
  have hreachable := Reachable.of_saving hc
  -- the election
  obtain ⟨c₁, l, T, helection, hkept, hl, hnew, hterm⟩ := h.exists_leader hreachable hp₀ hrole
  have hlid := h.ids l hl
  have helects : RunBy sm cfg Q (fun action => action.elects = true) c c₁ := helection
  have hreachable₁ : Reachable sm cfg c₁ := hreachable.trans helection.run
  -- the record of the new term
  obtain ⟨c₂, happend, hnoOp⟩ := hnew.appends hl hlid
    ((hkept.node l).running.trans (h.running l hl))
  -- the followers finish what they apply
  have hrest : ∀ q ∈ Q.erase l, q ≠ l ∧ q ∈ Q := fun q hq => (h.nodup.mem_erase_iff).mp hq
  have hfollower : ∀ q ∈ Q.erase l, c₂.members q = c₁.members q := fun q hq =>
    hnoOp.others q (hrest q hq).1
  obtain ⟨c₃, happlied, hothers, hfree⟩ :
      ∃ c', RunBy sm cfg Q (fun action => action.applies = true) c₂ c' ∧ _ ∧ _ :=
    exists_all_free (fun q hq => (hrest q hq).2) h.ids (fun q hq => by
      rw [hfollower q hq, hkept.up q]
      exact h.up q (hrest q hq).2) (h.nodup.erase l)
  have hl₃ : c₃.members l = c₂.members l := hothers l h.nodup.not_mem_erase
  have hmoves₁ : Moves sm cfg Q c c₁ := helects.mono (fun _ hq => hq) fun _ =>
    Action.goesOn_of_elects
  have hmoves₂ : Moves sm cfg Q c₁ c₂ := by
    refine happend.mono (fun _ hq => hq) ?_
    rintro action rfl
    rfl
  have hmoves₃ : Moves sm cfg Q c₂ c₃ := happlied.mono (fun _ hq => hq) fun _ =>
    Action.goesOn_of_applies
  have hmoves := (hmoves₁.trans hmoves₂).trans hmoves₃
  refine ⟨c₃, l, T, hmoves, hl, ?_, ?_, ?_, ?_, ?_, ?_, ?_, ?_, ?_⟩
  · intro q hq
    exact (hkept.term q).trans (hterm q hq).le
  · refine ((hc.trans (helects.saving ?_)).trans (happend.saving ?_)).trans (happlied.saving ?_)
    · intro d id action haction
      exact savingStep_of_elects haction
    · rintro d id action rfl
      exact ⟨guarded_of_none rfl rfl, rfl⟩
    · intro d id action haction
      exact savingStep_of_applies haction
  · rw [LeaderAt, hl₃, hnoOp.up, hnoOp.term]
    exact ⟨hnew.leads.1, hnoOp.role, hnew.leads.2.2⟩
  · rw [hl₃]
    exact hnoOp.running
  · intro p hp hpl
    have hself : p ≠ (c₁.members l).node.nodeId := by
      rw [(hreachable₁.identity hlid).1]
      exact hpl
    have hpeer := (h.kept hkept).mem_peers hreachable₁ hl ((h.nodup.mem_erase_iff).mpr ⟨hpl, hp⟩)
    rw [hl₃, hnoOp.next p hself, hnew.next p hpeer, (hkept.node l).lastLogIndexLocked]
  · rw [hl₃, hnoOp.lastIndex, (hkept.node l).lastLogIndexLocked]
  · rw [hl₃, hnoOp.lastTerm]
    exact hnew.leads.2.2
  · intro hboundary
    rw [BoundaryKept, hl₃, hnoOp.snapIndex, hnoOp.snapTerm, hnoOp.snapshots,
      (hkept.node l).snapIndex, (hkept.node l).snapTerm, hkept.snapshots l]
    exact hboundary
  · intro p hp hpl
    have hp' := (h.nodup.mem_erase_iff).mpr ⟨hpl, hp⟩
    obtain ⟨hup, happly, hsame⟩ := hfree p hp'
    exact ⟨hup, happly, by rw [hsame, hfollower p hp', hterm p hp]⟩

/-- The others and the leader are a majority of their own. -/
theorem Assembled.majority_erase (h : Assembled cfg Q c) (hl : l ∈ Q) (hmany : 1 < cfg.ids.length)
    {c' : Cluster σ sm.Image} (hc' : Reachable sm cfg c') :
    Group.Majority (Q.erase l) (c'.members l).node := by
  have hlid := h.ids l hl
  have hcount := List.length_erase_add_one hl
  have hmost := h.majority
  refine ⟨?_, h.nodup.erase l, ?_, ?_⟩
  · intro hnil
    rw [hnil, List.length_nil] at hcount
    omega
  · intro q hq
    obtain ⟨hne, hqQ⟩ := (h.nodup.mem_erase_iff).mp hq
    rw [(hc'.identity hlid).2, ClusterConfig.peers, List.mem_filter]
    exact ⟨h.ids q hqQ, by simpa using hne⟩
  · have hcard : cfg.members.card = cfg.ids.length := List.toFinset_card_of_nodup cfg.nodup
    rw [cfg.quorum_eq hlid (hc'.identity hlid).2, hcard]
    omega

/-- From every state of a run whose steps are guarded and save every higher term: the members of a
majority that is up, one of which does not lead, with snapshots enabled and the snapshots at their
boundaries on disk, can elect a leader of a term that is no lower than any they had, which then has
its whole log, with a new record of its term at the end, committed. All steps are their own, and
none of them is a stop, a crash or a `Save` that fails. -/
theorem majority_goes_on (sm : IStateMachine σ) (cfg : ClusterConfig) {c : Cluster σ sm.Image}
    (hc : Relation.ReflTransGen (SavingStep sm cfg) (init sm cfg) c) {Q : List NodeId}
    (h : Assembled cfg Q c) (hmany : 1 < cfg.ids.length)
    (hfree : ∃ q ∈ Q, (c.members q).node.role ≠ .leader)
    (henabled : ∀ q ∈ Q, (cfg.snapshot q).enabled = true) (hkept : ∀ q ∈ Q, c.BoundaryKept q) :
    ∃ c' l T, Moves sm cfg Q c c' ∧ l ∈ Q ∧ c'.LeaderAt l T ∧
      (∀ q ∈ Q, (c.members q).node.currentTerm ≤ T) ∧
      (c.members l).node.lastLogIndexLocked < (c'.members l).node.lastLogIndexLocked ∧
      (c'.members l).node.lastLogTermLocked = T ∧
      (c'.members l).node.lastLogIndexLocked ≤ (c'.members l).node.commitIndex := by
  obtain ⟨p, hp, hrole⟩ := hfree
  obtain ⟨c₁, l, T, hmoves₁, hl, hT, hready⟩ := h.exists_leaderReady hc hp hrole
  have hreachable := Reachable.of_saving hready.saving
  have hmajority : Group.Majority (Q.erase l) (c₁.members l).node :=
    h.majority_erase hl hmany hreachable
  have hrest : ∀ q ∈ Q.erase l, q ∈ Q ∧ q ≠ l := fun q hq =>
    ((h.nodup.mem_erase_iff).mp hq).symm
  have hterm : (c₁.members l).node.currentTerm = T := hready.leads.2.2
  have hreplicates : ∀ q ∈ Q.erase l, c₁.Replicates l q ((c₁.members l).node.nextIndex q) := by
    intro q hq
    have hnext := hready.next q (hrest q hq).1 (hrest q hq).2
    refine ⟨hready.leads.1, hready.running, hready.leads.2.1, hmajority.peers q hq,
      (hready.followers q (hrest q hq).1 (hrest q hq).2).1, by omega, ?_,
      hready.boundary (hkept l hl)⟩
    rw [hnext, hready.lastIndex]
    omega
  have hfollowers : ∀ q ∈ Q.erase l, (c₁.members q).apply = .free ∧
      (c₁.members q).node.currentTerm = T := fun q hq =>
    (hready.followers q (hrest q hq).1 (hrest q hq).2).2
  obtain ⟨c₂, hmoves₂, hleads, -, hindex, hlastTerm, hcommitted⟩ :
      ∃ c', Moves sm cfg Q c₁ c' ∧ _ :=
    exists_leader_commits hready.saving (h.ids l hl) hmajority hreplicates
      (fun q hq => ((hfollowers q hq).2.trans hterm.symm).le)
      (hready.lastTerm.trans hterm.symm) (fun q hq => (hfollowers q hq).1)
      (fun q hq => henabled q (hrest q hq).1) hl (fun q hq => (hrest q hq).1)
  refine ⟨c₂, l, T, hmoves₁.trans hmoves₂, hl, hterm ▸ hleads, hT, ?_, hlastTerm.trans hterm,
    hcommitted⟩
  rw [hindex, hready.lastIndex]
  exact Nat.lt_succ_self _

/-- Member 1 has led term 1 of a cluster of three and crashed. Members 2 and 3 go on without it. -/
theorem majority_goes_on_three :
    ∃ c c' : Cluster KvMap kvStateMachine.Image,
      Relation.ReflTransGen (SavingStep kvStateMachine threeMembers)
        (init kvStateMachine threeMembers) c ∧
      (c.members 1).up = false ∧ Moves kvStateMachine threeMembers [2, 3] c c' ∧
      ∃ l ∈ [2, 3], 0 < (c'.members l).node.commitIndex := by
  have hexec : (execWhen kvStateMachine threeMembers (fun c id action =>
      c.Guarded id action ∧ SavesTerm c.net (c.members id) action)
      (init kvStateMachine threeMembers) (electionSchedule ++ [(1, .crash),
        (3, .restart (fun _ => true) true fun _ => true), (3, .start)])).any (fun c =>
      decide ((c.members 1).up = false ∧ ∀ q ∈ ([2, 3] : List NodeId), (c.members q).up = true ∧
        (c.members q).node.running = true ∧ (c.members q).node.role = .follower ∧
        (c.members q).node.lastSnapshotIndex = 0)) = true := by
    decide +kernel
  obtain ⟨c, hc, hP⟩ := (Option.any_eq_true _ _).mp hexec
  obtain ⟨hdown, hQ⟩ := of_decide_eq_true hP
  have hassembled : Assembled threeMembers [2, 3] c := ⟨by decide, by decide, by decide,
    fun q hq => (hQ q hq).1, fun q hq => (hQ q hq).2.1⟩
  have hfollows := (hQ 2 (by decide)).2.2.1
  have hkept : ∀ q ∈ [2, 3], c.BoundaryKept q := by
    intro q hq hpos
    rw [(hQ q hq).2.2.2] at hpos
    exact absurd hpos (Nat.lt_irrefl 0)
  obtain ⟨c', l, T, hmoves, hl, -, -, hgrows, -, hcommitted⟩ := majority_goes_on kvStateMachine
    threeMembers (execWhen_run hc) hassembled (by decide) ⟨2, by decide, by simp [hfollows]⟩
    (by decide) hkept
  exact ⟨c, c', execWhen_run hc, hdown, hmoves, l, hl, by omega⟩

end Cluster

end CquptRaft
