import CquptRaft.Cluster.Campaigns
import Mathlib.Data.Prod.Lex
import Mathlib.Data.Finset.Max

/-!
# A majority can elect a leader

Whatever has happened so far, the members of a majority that are up can elect a leader without the
help of the others, as long as one of them does not lead itself: no crash, no lost message, no
failed `Save` and no unfinished campaign leaves them in a state that they cannot get out of. First
that member campaigns in a term above all others, which ends every leadership among them. Then the
member with the most advanced log campaigns, and the others vote for it. All messages that this
takes are sent on the way.
-/

namespace CquptRaft

open Voting

variable {σ : Type} {sm : IStateMachine σ} {cfg : ClusterConfig}

namespace Cluster

variable {Q : List NodeId} {c c' : Cluster σ sm.Image} {T : Nat}

/-! ## The end of every leadership -/

/-- Member `p` was sent a request for its vote in term `T`. -/
def Asked {Image : Type} (net : List (Message Image)) (p : NodeId) (T : Nat) : Prop :=
  ∃ message ∈ net, message.call.callee = p ∧ ∃ request : VoteRequest,
    message.payload = .voteRequest request ∧ request.term = T

theorem Asked.mono {Image : Type} {net net' : List (Message Image)} {p : NodeId}
    (h : Asked net p T) (hnet : ∀ message ∈ net, message ∈ net') : Asked net' p T := by
  obtain ⟨message, hmem, hrest⟩ := h
  exact ⟨message, hnet message hmem, hrest⟩

/-- All members of `R` get a request of a term above their own. -/
theorem Asked.follow {R : List NodeId} (hasked : ∀ p ∈ R, Asked c.net p T) (hR : R.Nodup)
    (hRQ : ∀ p ∈ R, p ∈ Q) (hids : ∀ p ∈ Q, p ∈ cfg.ids)
    (hup : ∀ p ∈ R, (c.members p).up = true)
    (hlt : ∀ p ∈ R, (c.members p).node.currentTerm < T) :
    ∃ c', ElectionRun sm cfg Q c c' ∧ Kept c c' ∧
      (∀ p ∈ R, (c'.members p).node.role = .follower ∧ (c'.members p).node.currentTerm = T) ∧
      ∀ p, p ∉ R → c'.members p = c.members p := by
  induction R generalizing c with
  | nil => exact ⟨c, .refl, .refl c, by simp, by simp⟩
  | cons p R ih =>
    obtain ⟨hp, hR⟩ := List.nodup_cons.mp hR
    have hpQ := hRQ p List.mem_cons_self
    obtain ⟨message, hmem, hcallee, request, hpayload, rfl⟩ := hasked p List.mem_cons_self
    obtain ⟨c₁, hrun₁, hkept₁, hothers₁, hrole₁, hterm₁, hnet₁⟩ := Cluster.follow hpQ (hids p hpQ)
      (hup p List.mem_cons_self) hmem hcallee hpayload (hlt p List.mem_cons_self)
    have hsame : ∀ q ∈ R, c₁.members q = c.members q := by
      intro q hq
      exact hothers₁ q fun heq => hp (heq ▸ hq)
    have hasked₁ : ∀ q ∈ R, Asked c₁.net q request.term := by
      intro q hq
      refine (hasked q (List.mem_cons_of_mem p hq)).mono ?_
      intro message hmem
      rw [hnet₁]
      exact List.mem_append_left _ hmem
    obtain ⟨c₂, hrun₂, hkept₂, hfollow₂, hothers₂⟩ := ih hasked₁ hR
      (fun q hq => hRQ q (List.mem_cons_of_mem p hq))
      (fun q hq => by rw [hsame q hq]; exact hup q (List.mem_cons_of_mem p hq))
      (fun q hq => by rw [hsame q hq]; exact hlt q (List.mem_cons_of_mem p hq))
    refine ⟨c₂, hrun₁.trans hrun₂, hkept₁.trans hkept₂, ?_, ?_⟩
    · intro q hq
      rcases List.mem_cons.mp hq with rfl | hq
      · rw [hothers₂ q hp]
        exact ⟨hrole₁, hterm₁⟩
      · exact hfollow₂ q hq
    · intro q hq
      obtain ⟨hqp, hqR⟩ := List.ne_and_not_mem_of_not_mem_cons hq
      exact (hothers₂ q hqR).trans (hothers₁ q hqp)

/-! ## The election -/

theorem Reachable.identity (hc : Reachable sm cfg c) {q : NodeId} (hq : q ∈ cfg.ids) :
    (c.members q).node.nodeId = q ∧ (c.members q).node.peers = cfg.peers q := by
  obtain ⟨V, -, hV⟩ := VoteInv.init.run hc
  exact ⟨(hV.members q hq).nodeId, (hV.members q hq).peers⟩

theorem Campaign.subset {l : NodeId} {T k : Nat} {R R' : List NodeId} (h : c.Campaign l T k R)
    (hsub : ∀ p ∈ R', p ∈ R) : c.Campaign l T k R' :=
  { h with
    calls := fun p hp => h.calls p (hsub p hp)
    asked := fun p hp => h.asked p (hsub p hp) }

/-- The members of a majority, all of them up. -/
structure Assembled (cfg : ClusterConfig) (Q : List NodeId) (c : Cluster σ sm.Image) : Prop where
  nodup : Q.Nodup
  ids : ∀ q ∈ Q, q ∈ cfg.ids
  majority : cfg.ids.length < 2 * Q.length
  up : ∀ q ∈ Q, (c.members q).up = true
  running : ∀ q ∈ Q, (c.members q).node.running = true

theorem Assembled.kept {c' : Cluster σ sm.Image} (h : Assembled cfg Q c) (hkept : Kept c c') :
    Assembled cfg Q c' where
  nodup := h.nodup
  ids := h.ids
  majority := h.majority
  up q hq := (hkept.up q).trans (h.up q hq)
  running q hq := (hkept.node q).running.trans (h.running q hq)

/-- The others are peers. -/
theorem Assembled.mem_peers (h : Assembled cfg Q c) (hc : Reachable sm cfg c) {l p : NodeId}
    (hl : l ∈ Q) (hp : p ∈ Q.erase l) : p ∈ (c.members l).node.peers := by
  obtain ⟨hne, hpQ⟩ := (h.nodup.mem_erase_iff).mp hp
  rw [(hc.identity (h.ids l hl)).2, ClusterConfig.peers, List.mem_filter]
  exact ⟨h.ids p hpQ, by simpa using hne⟩

/-- A member that does not lead campaigns above all others, which makes them followers. -/
theorem Assembled.settle (h : Assembled cfg Q c) (hc : Reachable sm cfg c) {l : NodeId}
    (hl : l ∈ Q) (hrole : (c.members l).node.role ≠ .leader) :
    ∃ c' T, ElectionRun sm cfg Q c c' ∧ Kept c c' ∧
      ∀ q ∈ Q, (c'.members q).node.role ≠ .leader ∧ (c'.members q).node.currentTerm = T := by
  obtain ⟨bound, hbound⟩ : ∃ bound, ∀ q ∈ Q, (c.members q).node.currentTerm ≤ bound :=
    ⟨Q.toFinset.sup fun q => (c.members q).node.currentTerm,
      fun q hq => Finset.le_sup (f := fun q => (c.members q).node.currentTerm) (by simpa using hq)⟩
  obtain ⟨c₁, T, hrun₁, hkept₁, hothers₁, hT, hcampaign⟩ := Campaign.above hl (h.ids l hl)
    (hc.identity (h.ids l hl)).1 (h.up l hl) (h.running l hl) hrole bound
  have hrest : ∀ q ∈ Q.erase l, q ≠ l ∧ q ∈ Q := fun q hq => (h.nodup.mem_erase_iff).mp hq
  have hasked : ∀ q ∈ Q.erase l, Asked c₁.net q T := by
    intro q hq
    exact ⟨_, hcampaign.asked q (h.mem_peers hc hl hq), rfl, _, rfl, hcampaign.term⟩
  obtain ⟨c₂, hrun₂, hkept₂, hfollow, hothers₂⟩ := Asked.follow hasked (h.nodup.erase l)
    (fun q hq => (hrest q hq).2) h.ids
    (fun q hq => by rw [hothers₁ q (hrest q hq).1]; exact h.up q (hrest q hq).2)
    (fun q hq => by rw [hothers₁ q (hrest q hq).1]; exact (hbound q (hrest q hq).2).trans_lt hT)
  refine ⟨c₂, T, hrun₁.trans hrun₂, hkept₁.trans hkept₂, ?_⟩
  intro q hq
  by_cases hql : q = l
  · subst hql
    rw [hothers₂ q (h.nodup.not_mem_erase)]
    exact ⟨by simp [hcampaign.role], hcampaign.term⟩
  · obtain ⟨hrole', hterm'⟩ := hfollow q ((h.nodup.mem_erase_iff).mpr ⟨hql, hq⟩)
    exact ⟨by simp [hrole'], hterm'⟩

/-- Some member has a log that none of the others is ahead of. -/
theorem exists_most_advanced (c : Cluster σ sm.Image) (hQ : Q ≠ []) :
    ∃ l ∈ Q, ∀ p ∈ Q, (c.members p).node.isCandidateLogUpToDateLocked
      (c.members l).node.lastLogIndexLocked (c.members l).node.lastLogTermLocked = true := by
  obtain ⟨l, hl, hmax⟩ := Finset.exists_max_image Q.toFinset
    (fun q => toLex ((c.members q).node.lastLogTermLocked, (c.members q).node.lastLogIndexLocked))
    (by simpa using hQ)
  refine ⟨l, by simpa using hl, ?_⟩
  intro p hp
  have hle := hmax p (by simpa using hp)
  rw [Prod.Lex.toLex_le_toLex] at hle
  rw [RaftNode.isCandidateLogUpToDateLocked]
  split
  · rename_i hne
    simp only [decide_eq_true_eq]
    rcases hle with hlt | ⟨heq, -⟩
    · exact hlt
    · exact absurd heq.symm hne
  · rename_i heq
    simp only [ne_eq, not_not] at heq
    simp only [decide_eq_true_eq]
    rcases hle with hlt | ⟨-, hle⟩
    · exact absurd heq (ne_of_gt hlt)
    · exact hle

/-- Members of one term, none of which leads, elect the most advanced one. -/
theorem Assembled.elect (h : Assembled cfg Q c) (hc : Reachable sm cfg c) {T : Nat}
    (hterm : ∀ q ∈ Q, (c.members q).node.role ≠ .leader ∧ (c.members q).node.currentTerm = T) :
    ∃ c' l, ElectionRun sm cfg Q c c' ∧ Kept c c' ∧ l ∈ Q ∧ c'.NewLeader l (T + 1) ∧
      ∀ q ∈ Q, (c'.members q).node.currentTerm = T + 1 := by
  have hQ : Q ≠ [] := by
    intro hempty
    have hmajority := h.majority
    simp [hempty] at hmajority
  obtain ⟨l, hl, hadvanced⟩ := c.exists_most_advanced hQ
  have hrest : ∀ q ∈ Q.erase l, q ≠ l ∧ q ∈ Q := fun q hq => (h.nodup.mem_erase_iff).mp hq
  obtain ⟨c₁, hrun₁, hkept₁, hothers₁, hcampaign₁⟩ := Campaign.start hl (h.ids l hl)
    (hc.identity (h.ids l hl)).1 (h.up l hl) (h.running l hl) (hterm l hl).1
  rw [(hterm l hl).2] at hcampaign₁
  obtain ⟨c₂, hrun₂, hkept₂, hcampaign₂, hvoters, -⟩ :=
    (hcampaign₁.subset fun p hp => h.mem_peers hc hl hp).collect (h.nodup.erase l)
      h.nodup.not_mem_erase (fun q hq => (hrest q hq).2) h.ids hl
      (fun q hq => by rw [hothers₁ q (hrest q hq).1]; exact h.up q (hrest q hq).2)
      (fun q hq => by
        rw [hothers₁ q (hrest q hq).1, (hterm q (hrest q hq).2).2]
        exact Nat.lt_succ_self T)
      (fun q hq => by
        rw [hothers₁ q (hrest q hq).1, (hkept₁.node l).lastLogIndexLocked,
          (hkept₁.node l).lastLogTermLocked]
        exact hadvanced q (hrest q hq).2)
  have hquorum : (c₂.members l).node.quorum ≤ 1 + (Q.erase l).length := by
    have hpeers := (hc.identity (h.ids l hl)).2
    have hlength := List.length_erase_add_one hl
    have hmajority := h.majority
    have hcard : cfg.members.card = cfg.ids.length := List.toFinset_card_of_nodup cfg.nodup
    rw [(hkept₂.node l).quorum, (hkept₁.node l).quorum, cfg.quorum_eq (h.ids l hl) hpeers, hcard]
    omega
  obtain ⟨c₃, hrun₃, hkept₃, hleader, hothers₃⟩ := hcampaign₂.win hquorum hl (h.ids l hl)
  refine ⟨c₃, l, (hrun₁.trans hrun₂).trans hrun₃, (hkept₁.trans hkept₂).trans hkept₃, hl, hleader,
    ?_⟩
  intro q hq
  by_cases hql : q = l
  · exact hql ▸ hleader.leads.2.2
  · rw [hothers₃ q hql]
    exact hvoters q ((h.nodup.mem_erase_iff).mpr ⟨hql, hq⟩)

/-- If one of them does not lead, a new leader is elected. -/
theorem Assembled.exists_leader (h : Assembled cfg Q c) (hc : Reachable sm cfg c) {p : NodeId}
    (hp : p ∈ Q) (hrole : (c.members p).node.role ≠ .leader) :
    ∃ c' l T, ElectionRun sm cfg Q c c' ∧ Kept c c' ∧ l ∈ Q ∧ c'.NewLeader l T ∧
      ∀ q ∈ Q, (c'.members q).node.currentTerm = T := by
  obtain ⟨c₁, T, hrun₁, hkept₁, hsettled⟩ := h.settle hc hp hrole
  have hc₁ : Reachable sm cfg c₁ := hc.trans hrun₁.run
  obtain ⟨c₂, w, hrun₂, hkept₂, hw, hleader, hterm⟩ := (h.kept hkept₁).elect hc₁ hsettled
  exact ⟨c₂, w, T + 1, hrun₁.trans hrun₂, hkept₁.trans hkept₂, hw, hleader, hterm⟩

end Cluster

end CquptRaft
