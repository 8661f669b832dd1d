import CquptRaft.Cluster.ReplicatorCalls

/-!
# What a leader knows of its peers

A leader raises `match_index_` of a peer when a response reports success: up to the index that an
`AppendEntries` response names, or up to the snapshot it has sent with an `InstallSnapshot` call. By
then the peer keeps the leader's records up to this index, in its log or behind a snapshot boundary,
and it does so as long as it knows no later term, also over restarts. A peer that could not save the
term of the leader may answer nevertheless; behind a restart it follows an earlier leader again.
-/

namespace CquptRaft

open Replication Voting

variable {σ : Type} {sm : IStateMachine σ} {cfg : ClusterConfig} {H H' : History NodeId LogRecord}

/-! ## Sections -/

namespace RaftNode

/-- What a section of a leader may do to `match_index_` of a peer. -/
inductive MatchMove {Image : Type} (n n' : RaftNode) (c : Call Image) (peer : NodeId) : Prop where
  | elected (hrole : n.role = .candidate) (hterm : n'.currentTerm = n.currentTerm)
    (hzero : n'.matchIndex peer = 0)
  | same (hrole : n.role = .leader) (hterm : n'.currentTerm = n.currentTerm)
    (hmatch : n'.matchIndex peer = n.matchIndex peer)
  | append (response : AppendEntriesResponse) (saved : Bool)
    (hcall : c = .handleAppendEntriesResponse peer n.currentTerm response saved)
    (hrole : n.role = .leader) (hterm : n'.currentTerm = n.currentTerm)
    (hsuccess : response.success = true)
    (hmatch : n'.matchIndex peer = max (n.matchIndex peer) response.matchIndex)
  | install (index : Nat) (response : InstallSnapshotResponse) (saved : Bool)
    (hcall : c = .handleInstallSnapshotResponse peer n.currentTerm index response saved)
    (hrole : n.role = .leader) (hterm : n'.currentTerm = n.currentTerm)
    (hsuccess : response.success = true)
    (hmatch : n'.matchIndex peer = max (n.matchIndex peer) index)

theorem handleAppendEntriesResponse_match {Image : Type} (n : RaftNode)
    {target peer : NodeId} {leaderTerm : Nat} {response : AppendEntriesResponse} {saved : Bool}
    (h : (n.handleAppendEntriesResponse target leaderTerm response saved).role = .leader) :
    MatchMove n (n.handleAppendEntriesResponse target leaderTerm response saved)
      (.handleAppendEntriesResponse target leaderTerm response saved : Call Image) peer := by
  have hfollower := n.becomeFollowerLocked_role response.term (-1) saved
  unfold handleAppendEntriesResponse at h ⊢
  split_ifs at h ⊢ with hstopped hterm hno hsuccess
  · exact .same h rfl rfl
  · rw [hfollower] at h
    cases h
  · exact .same h rfl rfl
  · simp only [not_or, not_not] at hno
    obtain ⟨hrole, rfl⟩ := hno
    obtain ⟨hmatch, -, -, hsame⟩ := advanceCommitIndexUnlocked_indexes { n with
      matchIndex := Function.update n.matchIndex target
        (max (n.matchIndex target) response.matchIndex)
      nextIndex := Function.update n.nextIndex target
        (max (n.nextIndex target) (response.matchIndex + 1)) } saved
    by_cases hpeer : peer = target
    · subst hpeer
      refine .append response saved rfl hrole hsame hsuccess ?_
      rw [hmatch]
      exact Function.update_self ..
    · refine .same hrole hsame ?_
      rw [hmatch]
      exact Function.update_of_ne hpeer ..
  · exact .same h rfl rfl
  · exact .same h rfl rfl

theorem handleInstallSnapshotResponse_match {Image : Type} (n : RaftNode)
    {target peer : NodeId} {leaderTerm index : Nat} {response : InstallSnapshotResponse}
    {saved : Bool}
    (h : (n.handleInstallSnapshotResponse target leaderTerm index response saved).role = .leader) :
    MatchMove n (n.handleInstallSnapshotResponse target leaderTerm index response saved)
      (.handleInstallSnapshotResponse target leaderTerm index response saved : Call Image)
      peer := by
  have hfollower := n.becomeFollowerLocked_role response.term (-1) saved
  unfold handleInstallSnapshotResponse at h ⊢
  split_ifs at h ⊢ with hterm hno hrefused
  · rw [hfollower] at h
    cases h
  · exact .same h rfl rfl
  · exact .same h rfl rfl
  · simp only [not_or, not_not] at hno
    obtain ⟨-, hrole, rfl⟩ := hno
    by_cases hpeer : peer = target
    · subst hpeer
      refine .install index response saved rfl hrole rfl (by simpa using hrefused) ?_
      exact Function.update_self ..
    · exact .same hrole rfl (Function.update_of_ne hpeer ..)

theorem call_match {Image : Type} (n : RaftNode) (c : Call Image) (h : (n.call c).role = .leader)
    {peer : NodeId} (hpeer : peer ≠ n.nodeId) : MatchMove n (n.call c) c peer := by
  by_cases hc : c.writesIndexes = false
  · obtain ⟨hrole, hterm, hmatch, -⟩ := n.call_steady c hc h
    exact .same hrole hterm (congrFun hmatch peer)
  cases c with
  | onElectionWon term =>
    rcases n.onElectionWon_cases term with hsame | ⟨hrole, -, helected⟩
    · simp only [call, hsame] at h ⊢
      exact .same h rfl rfl
    · simp only [call, helected]
      exact .elected hrole rfl (if_neg hpeer)
  | appendLocalLogUnlocked commandData saved =>
    cases saved with
    | false => exact .same h rfl (Function.update_of_ne hpeer ..)
    | true => exact .same h rfl (Function.update_of_ne hpeer ..)
  | buildAppendEntriesRequest target leaderTerm =>
    refine .same ?_ ?_ ?_ <;> grind [call, buildAppendEntriesRequest]
  | handleAppendEntriesResponse target leaderTerm response saved =>
    exact n.handleAppendEntriesResponse_match h
  | handleInstallSnapshotResponse target leaderTerm index response saved =>
    exact n.handleInstallSnapshotResponse_match h
  | _ => exact absurd rfl hc

end RaftNode

/-! ## Members -/

/-- The member keeps what the leader of term `T` has at index `j`, as long as it knows no later
term. -/
def Confirmed {Image : Type} (H : History NodeId LogRecord) (m : Member σ Image) (T j : Nat) :
    Prop :=
  Reached m j ∨ ∃ r, (H.leaderLog T)[j - 1]? = some r ∧ Acked m T j r

/-- A term with a record has a leader. -/
theorem SimInv.elected_of_getElem? {c : Cluster σ sm.Image} (h : SimInv cfg H c) {T j : Nat}
    {r : LogRecord} (hr : (H.leaderLog T)[j]? = some r) : H.Elected T := by
  by_contra hnone
  rw [h.valid.empty T hnone] at hr
  cases hr

theorem Confirmed.mono {Image : Type} {m : Member σ Image} {T j : Nat} (h : Confirmed H m T j)
    (hext : History.Extends H H') : Confirmed H' m T j := by
  refine h.imp_right ?_
  rintro ⟨r, hr, hacked⟩
  obtain ⟨hlt, rfl⟩ := List.getElem?_eq_some_iff.mp hr
  exact ⟨_, List.prefix_iff_getElem?.mp (hext.leaderLog T) _ hlt, hacked⟩

theorem Confirmed.step {c c' : Cluster σ sm.Image} {id p : NodeId} {action : Action} {T j : Nat}
    (h : RetentionInv cfg H c) (h' : RetentionInv cfg H' c') (hext : History.Extends H H')
    (hkeeping : c.Keeping cfg id action) (hmoved : c.step sm cfg id action = some c') (hj : 0 < j)
    (hconfirmed : Confirmed H (c.members p) T j) : Confirmed H' (c'.members p) T j := by
  refine Confirmed.mono ?_ hext
  rcases hconfirmed with hreached | ⟨r, hr, hacked⟩
  · exact .inl (hreached.step h hkeeping hmoved)
  · exact .inr ⟨r, hr, hacked.step h h' hkeeping hmoved (h.sim.elected_of_getElem? hr) hj hr⟩

/-- A member that reports success keeps the leader's records up to the index it names, in the term
of the leader. -/
theorem RetentionInv.onAppendEntries {c c' : Cluster σ sm.Image} {id : NodeId}
    (h : RetentionInv cfg H c) (h' : RetentionInv cfg H' c') (hid : id ∈ cfg.ids)
    (hup : (c.members id).up = true) (hup' : (c'.members id).up = true)
    {request : AppendEntriesRequest} {termSaved logSaved commitSaved : Bool}
    (hw : Window H cfg.members request) (hok : ¬ (c.members id).node.Overreaches request)
    (hnode : (c'.members id).node =
      ((c.members id).node.onAppendEntries request termSaved logSaved commitSaved).1)
    (hsuccess : ((c.members id).node.onAppendEntries request termSaved logSaved
      commitSaved).2.1.success = true) {j : Nat} (hj : 0 < j)
    (hle : j ≤ ((c.members id).node.onAppendEntries request termSaved logSaved
      commitSaved).2.1.matchIndex) : Confirmed H (c'.members id) request.term j := by
  obtain ⟨mem, dur, hprocess⟩ := h.sim.process hid hup
  obtain ⟨mem', dur', happended⟩ := hprocess.node.onAppendEntries h.sim.valid h.sim.indexed hw hok
    termSaved logSaved commitSaved
  obtain ⟨hterm, hlength, hwritten⟩ := happended.success hsuccess
  have hlt : j - 1 < (H.leaderLog request.term).length := by omega
  have hr := List.getElem?_eq_getElem hlt
  have hinv := happended.inv
  rw [← hnode] at hinv
  have hkeeps : (c'.members id).node.Keeps j (H.leaderLog request.term)[j - 1] := by
    rw [hinv.represents.keeps_iff hinv.memSound.good h.sim.valid hj hr]
    exact .inr ((List.take_prefix_take_left hle).trans hwritten)
  have hdurable : request.term = (c'.members id).node.durableTerm := by
    rw [← ((h'.known id hid).term hup').durable, hinv.represents.term, hterm]
  exact .inr ⟨_, hr, .inr (.inr ⟨hdurable,
    (h'.covered id hid).retains hup' hinv.represents.logInv hkeeps⟩)⟩

/-! ## Runs -/

variable (sm cfg) in
abbrev Cluster.KeepingRun : Cluster σ sm.Image → Cluster σ sm.Image → Prop :=
  Relation.ReflTransGen (Cluster.StepWhen sm cfg (Cluster.Keeping cfg))

/-- Every report of success in flight, and every index that a leader has recorded for a peer, is
backed by the peer. -/
structure MatchInv (cfg : ClusterConfig) (H : History NodeId LogRecord)
    (c : Cluster σ sm.Image) : Prop extends RetentionInv cfg H c where
  calls : CallsInv cfg H c
  appended : ∀ message ∈ c.net, ∀ response, message.payload = .appendResponse response →
    response.success = true → ∀ j, 0 < j → j ≤ response.matchIndex →
      Confirmed H (c.members message.call.callee) message.call.term j
  installed : ∀ message ∈ c.net, ∀ response, message.payload = .installResponse response →
    response.success = true → ∃ index, Asks c.net message.call index ∧
      Reached (c.members message.call.callee) index
  matched : ∀ q ∈ cfg.ids, (c.members q).up = true → (c.members q).node.role = .leader →
    ∀ p ∈ cfg.peers q, ∀ j, 0 < j → j ≤ (c.members q).node.matchIndex p →
      Confirmed H (c.members p) (c.members q).node.currentTerm j

namespace MatchInv

variable {c c' : Cluster σ sm.Image} {id : NodeId} {action : Action}

theorem init : MatchInv cfg emptyHistory (Cluster.init sm cfg) where
  toRetentionInv := .init
  calls := .init
  appended message hmem := by cases hmem
  installed message hmem := by cases hmem
  matched q _ hup := by cases hup

section Step

variable {m : Member σ sm.Image} {outbox : Member.Outbox sm.Image}

/-- A response that a step sends. -/
theorem sent_append (h : MatchInv cfg H c) (h' : RetentionInv cfg H' c')
    (hkeeping : c.Keeping cfg id action) (hid : id ∈ cfg.ids) (hup : (c.members id).up = true)
    (hm : act sm cfg id c.net (c.members id) action = some (m, outbox)) (hself : c'.members id = m)
    {message : Message sm.Image} (hmem : message ∈ outbox) {response : AppendEntriesResponse}
    (hpayload : message.payload = .appendResponse response) (hsuccess : response.success = true)
    {j : Nat} (hj : 0 < j) (hle : j ≤ response.matchIndex) :
    Confirmed H (c'.members message.call.callee) message.call.term j := by
  obtain ⟨hsame, horigin⟩ := act_origin hm hmem
  rw [Origin, hpayload] at horigin
  obtain ⟨k, request, termSaved, logSaved, commitSaved, rfl, hk, hcallee, hnode, rfl⟩ := horigin
  have hmessage := h.sim.net _ (List.mem_of_getElem? hk)
  have hok : ¬ (c.members id).node.Overreaches request :=
    hkeeping.1.1 request (by simp [Action.appendRequest, appendRequestAt, hk])
  rw [hcallee, ← hmessage.2]
  exact h.toRetentionInv.onAppendEntries h' hid hup (by rw [hself, hsame, hup]) hmessage.1 hok
    (by rw [hself, hnode]) hsuccess hj hle

theorem sent_install (h : MatchInv cfg H c) (h' : RetentionInv cfg H' c') (hid : id ∈ cfg.ids)
    (hup : (c.members id).up = true)
    (hm : act sm cfg id c.net (c.members id) action = some (m, outbox)) (hself : c'.members id = m)
    {message : Message sm.Image} (hmem : message ∈ outbox) {response : InstallSnapshotResponse}
    (hpayload : message.payload = .installResponse response) (hsuccess : response.success = true) :
    ∃ index, Asks c.net message.call index ∧ Reached (c'.members message.call.callee) index := by
  obtain ⟨hsame, horigin⟩ := act_origin hm hmem
  rw [Origin, hpayload] at horigin
  have hup' : (c'.members id).up = true := by rw [hself, hsame, hup]
  obtain ⟨mem', dur', hprocess'⟩ := h'.sim.process hid hup'
  -- the boundary of the member is behind the snapshot of the request
  obtain ⟨request, hnet, hcallee, hle⟩ : ∃ request,
      ⟨message.call, .installRequest request⟩ ∈ c.net ∧ message.call.callee = id ∧
        request.lastIncludedIndex ≤ m.node.lastSnapshotIndex := by
    rcases horigin with ⟨request, hnet, hcallee, hchecked, -⟩ |
      ⟨handler, hhandler, hcall, hdone, -⟩
    · exact ⟨request, hnet, hcallee, hchecked hsuccess⟩
    · obtain ⟨hnet, hcallee, hfailed⟩ := h.calls.handled id hid hup handler hhandler
      rw [hcall] at hnet hcallee
      refine ⟨handler.request, hnet, hcallee, (hdone hsuccess).resolve_left fun hok => ?_⟩
      exact absurd (hfailed.symm.trans hok) Bool.false_ne_true
  refine ⟨request.lastIncludedIndex, ⟨request, hnet, rfl⟩, ?_⟩
  rw [hcallee]
  refine (h'.covered id hid).reached hup' hprocess'.node.represents.logInv ?_
  rw [hself]
  exact hle

/-- What a leader has recorded for a peer behind a step was confirmed by the peer before it. -/
theorem matched_act (h : MatchInv cfg H c) (hid : id ∈ cfg.ids) (hup : (c.members id).up = true)
    (hm : act sm cfg id c.net (c.members id) action = some (m, outbox))
    (hrole : m.node.role = .leader) {p : NodeId} (hp : p ∈ cfg.peers id) {j : Nat} (hj : 0 < j)
    (hle : j ≤ m.node.matchIndex p) : Confirmed H (c.members p) m.node.currentTerm j := by
  rcases act_call hm with hsame | ⟨-, call, hcall, hgrounded⟩
  · rw [hsame] at hrole hle ⊢
    exact h.matched id hid hup hrole p hp j hj hle
  have hpeer : p ≠ (c.members id).node.nodeId := by
    rw [(h.sim.votes.members id hid).nodeId]
    simpa using (List.mem_filter.mp hp).2
  rw [hcall] at hrole hle ⊢
  cases (c.members id).node.call_match call hrole hpeer with
  | elected _ _ hzero => omega
  | same hbefore hterm hmatch =>
    rw [hmatch] at hle
    rw [hterm]
    exact h.matched id hid hup hbefore p hp j hj hle
  | append response saved hc hbefore hterm hsuccess hmatch =>
    subst hc
    rw [hterm]
    rw [hmatch] at hle
    rcases le_max_iff.mp hle with hold | hnew
    · exact h.matched id hid hup hbefore p hp j hj hold
    · obtain ⟨k, message, -, hk, hreplicator, hcallTerm, hpayload⟩ := hgrounded
      obtain ⟨mem, dur, hprocess⟩ := h.sim.process hid hup
      have hcallee := hprocess.replicators p
      rw [hreplicator] at hcallee
      have hconfirmed := h.appended message (List.mem_of_getElem? hk) response hpayload hsuccess j
        hj hnew
      rwa [hcallee, hcallTerm] at hconfirmed
  | install index response saved hc hbefore hterm hsuccess hmatch =>
    subst hc
    rw [hterm]
    rw [hmatch] at hle
    rcases le_max_iff.mp hle with hold | hnew
    · exact h.matched id hid hup hbefore p hp j hj hold
    · obtain ⟨k, message, -, hk, hreplicator, -, hpayload⟩ := hgrounded
      have hasks := h.calls.shipped id hid hup p message.call index hreplicator
      obtain ⟨-, -, hcallee⟩ := h.calls.awaited id hid hup p message.call (by rw [hreplicator]; rfl)
      obtain ⟨index', hasks', hreached⟩ := h.installed message (List.mem_of_getElem? hk) response
        hpayload hsuccess
      rw [h.calls.unique _ _ _ hasks' hasks, hcallee] at hreached
      exact .inl (hreached.of_le hnew)

end Step

theorem step (h : MatchInv cfg H c) (hkeeping : c.Keeping cfg id action)
    (hmoved : c.step sm cfg id action = some c') :
    ∃ H', History.Extends H H' ∧ MatchInv cfg H' c' := by
  obtain ⟨H', hext, hret⟩ := h.toRetentionInv.step hkeeping hmoved
  have hcalls := h.calls.step h.sim hext hmoved
  have hconfirmed : ∀ {p T j}, 0 < j → Confirmed H (c.members p) T j →
      Confirmed H' (c'.members p) T j :=
    fun hj => Confirmed.step h.toRetentionInv hret hext hkeeping hmoved hj
  have hreached : ∀ {p j}, Reached (c.members p) j → Reached (c'.members p) j :=
    Reached.step h.toRetentionInv hkeeping hmoved
  obtain ⟨hid, m, outbox, hm, rfl⟩ := Cluster.step_cases hmoved
  have hself : (Function.update c.members id m) id = m := Function.update_self ..
  -- what is sent comes from a running process, and a new process does not lead
  have hcases : outbox = [] ∧ (m.up = true → m.node.role ≠ .leader) ∨
      (c.members id).up = true ∧
        act sm cfg id c.net (c.members id) action = some (m, outbox) := by
    rcases memberStep_cases hm with hact | ⟨hdown, hsent, _, _, _, -, rfl⟩
    · exact .inr hact
    · exact .inl ⟨hsent, Member.restart_role hdown⟩
  refine ⟨H', hext, hret, hcalls, ?_, ?_, ?_⟩
  · intro message hmem response hpayload hsuccess j hj hle
    rcases List.mem_append.mp hmem with hold | hnew
    · exact hconfirmed hj (h.appended message hold response hpayload hsuccess j hj hle)
    · rcases hcases with ⟨rfl, -⟩ | ⟨hup, hact⟩
      · cases hnew
      · exact (h.sent_append hret hkeeping hid hup hact hself hnew hpayload hsuccess hj hle).mono
          hext
  · intro message hmem response hpayload hsuccess
    rcases List.mem_append.mp hmem with hold | hnew
    · obtain ⟨index, hasks, hindex⟩ := h.installed message hold response hpayload hsuccess
      exact ⟨index, asks_append.mpr (.inl hasks), hreached hindex⟩
    · rcases hcases with ⟨rfl, -⟩ | ⟨hup, hact⟩
      · cases hnew
      · obtain ⟨index, hasks, hindex⟩ := h.sent_install hret hid hup hact hself hnew hpayload
          hsuccess
        exact ⟨index, asks_append.mpr (.inl hasks), hindex⟩
  · intro q hq hup hrole p hp j hj hle
    refine hconfirmed hj ?_
    by_cases hqid : q = id
    · subst hqid
      simp only [hself] at hup hrole hle ⊢
      rcases hcases with ⟨-, hnot⟩ | ⟨hbefore, hact⟩
      · exact absurd hrole (hnot hup)
      · exact h.matched_act hid hbefore hact hrole hp hj hle
    · simp only [Function.update_of_ne hqid] at hup hrole hle ⊢
      exact h.matched q hq hup hrole p hp j hj hle

theorem run (h : MatchInv cfg H c)
    (hrun : Cluster.KeepingRun sm cfg c c') :
    ∃ H', History.Extends H H' ∧ MatchInv cfg H' c' ∧
      ∀ p T j, 0 < j → Confirmed H (c.members p) T j → Confirmed H' (c'.members p) T j := by
  induction hrun with
  | refl => exact ⟨H, .refl H, h, fun _ _ _ _ hconfirmed => hconfirmed⟩
  | tail _ hstep ih =>
    obtain ⟨H₁, hext₁, h₁, hkept⟩ := ih
    obtain ⟨id, action, hkeeping, hmoved⟩ := hstep
    obtain ⟨H₂, hext₂, h₂⟩ := h₁.step hkeeping hmoved
    refine ⟨H₂, hext₁.trans hext₂, h₂, fun p T j hj hconfirmed => ?_⟩
    exact (hkept p T j hj hconfirmed).step h₁.toRetentionInv h₂.toRetentionInv hext₂ hkeeping
      hmoved hj

/-- What a leader has behind its boundary is in the log of its term. -/
theorem leader_record (h : MatchInv cfg H c) (hid : id ∈ cfg.ids) {T j : Nat}
    (hleader : c.LeaderAt id T) {r : LogRecord}
    (hsnap : (c.members id).node.lastSnapshotIndex < j)
    (hr : (c.members id).node.logAtIndexLocked j = some r) :
    (H.leaderLog T)[j - 1]? = some r := by
  obtain ⟨hup, hrole, rfl⟩ := hleader
  obtain ⟨mem, dur, hprocess⟩ := h.sim.process hid hup
  have hrep := hprocess.node.represents
  rw [hrep.term, ← (hprocess.leader hrole).1.log]
  rw [hrep.snapIndex] at hsnap
  rcases le_or_gt j mem.log.length with hle | hlt
  · rwa [hrep.logAtIndexLocked hsnap hle] at hr
  · rw [hrep.logAtIndexLocked_none (by omega)] at hr
    cases hr

end MatchInv

theorem Reached.retains {Image : Type} {m : Member σ Image} {j : Nat} (h : Reached m j)
    (r : LogRecord) : Retains m j r := ⟨fun hup => .inl (h.memory hup), .inl h.disk⟩

theorem Confirmed.retains {Image : Type} {m : Member σ Image} {T j : Nat} (h : Confirmed H m T j)
    (hterm : m.node.durableTerm ≤ T) :
    (∃ r, Retains m j r) ∧ ∀ r, (H.leaderLog T)[j - 1]? = some r → Retains m j r := by
  rcases h with hreached | ⟨r, hr, hreached | hlater | ⟨-, hretains⟩⟩
  · exact ⟨⟨RaftNode.bootstrapRecord, hreached.retains _⟩, fun r _ => hreached.retains r⟩
  · exact ⟨⟨r, hreached.retains r⟩, fun r _ => hreached.retains r⟩
  · omega
  · refine ⟨⟨r, hretains⟩, fun r' hr' => ?_⟩
    rw [hr] at hr'
    cases hr'
    exact hretains

/-- In every run whose steps save each term they learn of and whose restarts load the newest
snapshot: from the moment a leader has recorded index `j` for a peer, the peer keeps there what the
leader has, or had before it compacted its log, in memory and on disk, as long as the durable term
of the peer is not later. -/
theorem match_index_sound (sm : IStateMachine σ) (cfg : ClusterConfig)
    {c₁ c₂ c₃ : Cluster σ sm.Image} (h₁ : Cluster.KeepingRun sm cfg (Cluster.init sm cfg) c₁)
    (h₂ : Cluster.KeepingRun sm cfg c₁ c₂) (h₃ : Cluster.KeepingRun sm cfg c₂ c₃) {L p : NodeId}
    (hL : L ∈ cfg.ids) (hp : p ∈ cfg.peers L) {t j : Nat} (hleads₁ : c₁.LeaderAt L t)
    (hleads₂ : c₂.LeaderAt L t) (hj : 1 ≤ j) (hmatch : j ≤ (c₂.members L).node.matchIndex p)
    (hterm : (c₃.members p).node.durableTerm ≤ t) :
    (∃ r, Retains (c₃.members p) j r) ∧
      ∀ r, (c₁.members L).node.lastSnapshotIndex < j →
        (c₁.members L).node.logAtIndexLocked j = some r → Retains (c₃.members p) j r := by
  obtain ⟨H₁, -, hinv₁, -⟩ := MatchInv.init.run h₁
  obtain ⟨H₂, hext₂, hinv₂, -⟩ := hinv₁.run h₂
  obtain ⟨H₃, hext₃, hinv₃, hkept⟩ := hinv₂.run h₃
  obtain ⟨hup, hrole, rfl⟩ := hleads₂
  have hconfirmed := hkept p _ j hj (hinv₂.matched L hL hup hrole p hp j hj hmatch)
  obtain ⟨hsome, hrecord⟩ := hconfirmed.retains hterm
  refine ⟨hsome, fun r hsnap hr => hrecord r ?_⟩
  obtain ⟨hlt, rfl⟩ := List.getElem?_eq_some_iff.mp (hinv₁.leader_record hL hleads₁ hsnap hr)
  exact List.prefix_iff_getElem?.mp ((hext₂.trans hext₃).leaderLog _) _ hlt

/-- Member 2 has acknowledged record 1 to member 1, crashes and restarts. -/
theorem match_index_sound_three :
    ∃ c c' : Cluster KvMap kvStateMachine.Image,
      Cluster.KeepingRun kvStateMachine threeMembers (Cluster.init kvStateMachine threeMembers) c ∧
      Cluster.KeepingRun kvStateMachine threeMembers c c' ∧
      c.LeaderAt 1 1 ∧ (c.members 1).node.matchIndex 2 = 1 ∧
      ∃ r, (c.members 1).node.logAtIndexLocked 1 = some r ∧ Retains (c'.members 2) 1 r := by
  have hexec : (Cluster.execWhen kvStateMachine threeMembers (Cluster.Keeping threeMembers)
      (Cluster.init kvStateMachine threeMembers) threeSchedule).any (fun c =>
        decide (c.LeaderAt 1 1 ∧ (c.members 1).node.matchIndex 2 = 1 ∧
          (c.members 1).node.lastSnapshotIndex = 0 ∧
          ((c.members 1).node.logAtIndexLocked 1).isSome) &&
        (Cluster.execWhen kvStateMachine threeMembers (Cluster.Keeping threeMembers) c
          ((2, .crash) :: bootSchedule 2)).any fun c' =>
            decide ((c'.members 2).node.durableTerm ≤ 1)) = true := by
    decide +kernel
  obtain ⟨c, hc, hP⟩ := (Option.any_eq_true _ _).mp hexec
  obtain ⟨hstate, hrest⟩ := Bool.and_eq_true_iff.mp hP
  obtain ⟨hleads, hmatch, hsnap, hsome⟩ := of_decide_eq_true hstate
  obtain ⟨c', hc', hterm⟩ := (Option.any_eq_true _ _).mp hrest
  obtain ⟨r, hr⟩ := Option.isSome_iff_exists.mp hsome
  have hrun := Cluster.execWhen_run hc
  have hrun' := Cluster.execWhen_run hc'
  have hsound := match_index_sound kvStateMachine threeMembers hrun .refl hrun' (by decide)
    (by decide) hleads hleads le_rfl hmatch.ge (of_decide_eq_true hterm)
  exact ⟨c, c', hrun, hrun', hleads, hmatch, r, hr, hsound.2 r (by omega) hr⟩

/-! ## A term that was not saved

Member 1 leads term 1 and puts record 1 on member 3. Members 4 and 5 elect member 2 in term 2, which
writes a record 1 of its own, and then member 1 in term 3, which cannot save its first record there.
Member 3 cannot save term 3 and refuses the first heartbeat. The second one finds the term in memory
and has nothing to write, so member 3 reports success. Behind a restart it is in term 1 again and
takes the record of member 2. -/

def unsavedTermSchedule : List (NodeId × Action) :=
  fiveMembers.ids.flatMap bootSchedule ++ winSchedule 1 4 5 1 2 3 4 ++ [(1, .proposeNoOp true)] ++
  shipSchedule 1 3 6 ++ [(2, .startElection true)] ++ winSchedule 2 4 5 2 14 15 16 ++
  [(2, .proposeNoOp true), (1, .onRequestVote 12 true true)] ++ winSchedule 1 4 5 3 21 22 23 ++
  [(1, .proposeNoOp false), (1, .replicateOnce 3), (3, .onAppendEntries 25 false true true),
    (1, .appendResponse 3 26 true), (1, .finishRpc 3)] ++
  shipSchedule 1 3 27 ++ [(3, .crash)] ++ bootSchedule 3 ++
  [(2, .replicateOnce 3), (3, .onAppendEntries 29 true true true)]

/-- Member 1 leads term 3 and has recorded index 1 for member 3, which runs in term 2 with another
record there and no boundary. -/
def LosesRecord (c : Cluster KvMap kvStateMachine.Image) : Prop :=
  c.LeaderAt 1 3 ∧ (c.members 1).node.matchIndex 3 = 1 ∧
    (c.members 1).node.lastSnapshotIndex = 0 ∧ (c.members 3).up = true ∧
    (c.members 3).node.durableTerm = 2 ∧ (c.members 3).node.lastSnapshotIndex = 0 ∧
    ((c.members 1).node.logAtIndexLocked 1).isSome ∧
    (c.members 3).node.logAtIndexLocked 1 ≠ (c.members 1).node.logAtIndexLocked 1

instance (c : Cluster KvMap kvStateMachine.Image) : Decidable (LosesRecord c) :=
  inferInstanceAs (Decidable (_ ∧ _))

/-- Restarts load the newest snapshot, and still a peer loses a record that its leader has recorded
for it. -/
theorem match_index_unsound :
    ¬ ∀ c, Relation.ReflTransGen (Cluster.StepWhen kvStateMachine fiveMembers fun c id action =>
        c.Guarded id action ∧ (c.members id).loadsNewest fiveMembers id action = true)
        (Cluster.init kvStateMachine fiveMembers) c →
      ∀ L ∈ fiveMembers.ids, ∀ p ∈ fiveMembers.peers L, ∀ t j, c.LeaderAt L t → 1 ≤ j →
      j ≤ (c.members L).node.matchIndex p → (c.members p).node.durableTerm ≤ t →
      ∀ r, (c.members L).node.lastSnapshotIndex < j →
        (c.members L).node.logAtIndexLocked j = some r → Retains (c.members p) j r := by
  intro hsound
  have hexec : (Cluster.execWhen kvStateMachine fiveMembers (fun c id action =>
      c.Guarded id action ∧ (c.members id).loadsNewest fiveMembers id action = true)
      (Cluster.init kvStateMachine fiveMembers) unsavedTermSchedule).any
        (fun c => decide (LosesRecord c)) = true := by
    decide +kernel
  obtain ⟨c, hc, hP⟩ := (Option.any_eq_true _ _).mp hexec
  obtain ⟨hleads, hmatch, hsnap, hup, hterm, hsnap', hsome, hne⟩ := of_decide_eq_true hP
  obtain ⟨r, hr⟩ := Option.isSome_iff_exists.mp hsome
  have hretains := hsound c (Cluster.execWhen_run hc) 1 (by decide) 3 (by decide) 3 1 hleads le_rfl
    hmatch.ge (by omega) r (by omega) hr
  rcases hretains.memory hup with hle | hat
  · omega
  · exact hne (hat.trans hr.symm)

end CquptRaft
