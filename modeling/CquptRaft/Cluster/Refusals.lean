import CquptRaft.Cluster.MatchIndex
import CquptRaft.Replication.CatchUp

/-!
# Refusals and the next index

A member that refuses an `AppendEntries` says where its log ends, or where it parts from the
request. By then it has what the leader has recorded for it, and the request builds on a record no
earlier than that. So the leader goes on above `match_index_`, as long as it still has a record of
the term that the member names. A member that refuses a snapshot only says where its log ends, and
nothing bounds this by the log of the leader.
-/

namespace CquptRaft

open Replication Voting

variable {σ : Type} {sm : IStateMachine σ} {cfg : ClusterConfig} {H H' : History NodeId LogRecord}

/-! ## What a refusal says -/

namespace RaftNode

/-- The node refuses a request that builds on `prev`: it says where its log ends, and perhaps where
the leader should go on. -/
structure Refuses (n : RaftNode) (prev : Nat) (response : AppendEntriesResponse) : Prop where
  term : response.term = n.currentTerm
  last : response.lastLogIndex = n.lastLogIndexLocked
  hint : response.conflictTerm = 0 ∧ (response.conflictIndex = 0 ∨
      prev < n.lastSnapshotIndex ∧ response.conflictIndex = n.lastSnapshotIndex + 1 ∨
      response.conflictIndex = n.lastLogIndexLocked + 1) ∨
    n.lastSnapshotIndex ≤ prev ∧ n.hasLogAtIndexLocked prev = true ∧
      response.conflictTerm = n.termAtIndexLocked prev ∧
      response.conflictIndex = n.firstIndexOfTermLocked (n.termAtIndexLocked prev)

theorem refuses_appendEntriesResponse (n : RaftNode) (prev : Nat) :
    n.Refuses prev n.appendEntriesResponse := ⟨rfl, rfl, .inl ⟨rfl, .inl rfl⟩⟩

theorem refuses_conflictHint (n : RaftNode) (prev : Nat) {response : AppendEntriesResponse}
    (hterm : response.term = n.currentTerm) :
    n.Refuses prev (n.setAppendEntriesConflictHintLocked prev response) := by
  unfold setAppendEntriesConflictHintLocked
  dsimp only
  split
  · rename_i hcompacted
    exact ⟨hterm, rfl, .inl ⟨rfl, .inr (.inl ⟨hcompacted, rfl⟩)⟩⟩
  · rename_i hkept
    split
    · exact ⟨hterm, rfl, .inl ⟨rfl, .inr (.inr rfl)⟩⟩
    · rename_i hhas
      refine ⟨hterm, rfl, .inr ⟨not_lt.mp hkept, ?_, rfl, rfl⟩⟩
      simpa using hhas

/-- The loop stops at a gap behind the end of its log. -/
theorem appendLoop_gap {entries : List LogRecord} {p : AppendProgress} {m : RaftNode}
    {probe : Nat} (h : appendLoop p entries = .inl (m, probe)) : m.lastLogIndexLocked < probe := by
  fun_induction appendLoop p entries with
  | case1 p => cases h
  | case2 p entry rest hold ih => exact ih h
  | case3 p entry rest hold gap =>
    cases h
    omega
  | case4 p entry rest hold gap has offset same ih => exact ih h
  | case5 p entry rest hold gap has offset same ih => exact ih h
  | case6 p entry rest hold gap has ih => exact ih h

theorem appendEntriesBody_refuses {n : RaftNode} {request : AppendEntriesRequest}
    {logSaved commitSaved : Bool}
    (hinv : (n.appendEntriesBody request logSaved commitSaved).1.LogInv)
    (hrefused : (n.appendEntriesBody request logSaved commitSaved).2.1.success = false) :
    (n.appendEntriesBody request logSaved commitSaved).1.Refuses request.prevLogIndex
      (n.appendEntriesBody request logSaved commitSaved).2.1 := by
  have hframe := appendLoop_frame request.entries ⟨n, false, request.prevLogIndex⟩
  unfold appendEntriesBody at hinv hrefused ⊢
  generalize hloop : appendLoop ⟨n, false, request.prevLogIndex⟩ request.entries = outcome
    at hinv hrefused hframe ⊢
  obtain ⟨m, probe⟩ | p := outcome
  · -- the index that is missing is behind the log, so this index is reported as such
    have hgap := appendLoop_gap hloop
    dsimp only at hinv hframe ⊢
    have hterm : n.appendEntriesResponse.term = m.currentTerm := by
      rw [hframe]
      rfl
    obtain ⟨hterm, hlast, hhint⟩ := m.refuses_conflictHint probe hterm
    refine ⟨hterm, hlast, .inl ?_⟩
    rcases hhint with ⟨hzero, hindex | ⟨hlt, -⟩ | hindex⟩ | ⟨-, hhas, -⟩
    · exact ⟨hzero, .inl hindex⟩
    · have hend := hinv.lastLogIndexLocked
      have hpos := List.length_pos_iff.mpr hinv.nonempty
      omega
    · exact ⟨hzero, .inr (.inr hindex)⟩
    · have hend := hinv.lastLogIndexLocked
      rw [hinv.hasLogAtIndexLocked] at hhas
      omega
  · dsimp only at hrefused ⊢
    split_ifs at hrefused ⊢
    all_goals exact ⟨rfl, rfl, .inl ⟨rfl, .inl rfl⟩⟩

/-- Whatever the handler refuses for, it says so about the node it leaves. -/
theorem onAppendEntries_refuses {n : RaftNode} (h : n.LogInv) {request : AppendEntriesRequest}
    {termSaved logSaved commitSaved : Bool}
    (hrefused : (n.onAppendEntries request termSaved logSaved commitSaved).2.1.success = false) :
    (n.onAppendEntries request termSaved logSaved commitSaved).1.Refuses request.prevLogIndex
      (n.onAppendEntries request termSaved logSaved commitSaved).2.1 := by
  have haccept := h.acceptLeaderLocked request.term request.leaderId termSaved
  unfold onAppendEntries at hrefused ⊢
  split
  · exact n.refuses_appendEntriesResponse _
  rename_i hterm
  rw [if_neg hterm] at hrefused
  generalize n.acceptLeaderLocked request.term request.leaderId termSaved = res
    at haccept hrefused ⊢
  obtain ⟨m, ok⟩ := res
  dsimp only at haccept hrefused ⊢
  split
  · exact m.refuses_appendEntriesResponse _
  rename_i hok
  rw [if_neg hok] at hrefused
  split
  · exact m.refuses_conflictHint _ rfl
  · rename_i hcheck
    rw [if_neg hcheck] at hrefused
    exact appendEntriesBody_refuses
      (haccept.appendEntriesBody request logSaved commitSaved) hrefused

end RaftNode

/-- The refusal sends a leader with log `L` to an index above `k`, if the leader still has a record
of the term that the refusal names. -/
structure RefusalAbove (L : List LogRecord) (k : Nat) (response : AppendEntriesResponse) :
    Prop where
  last : k ≤ response.lastLogIndex
  index : response.conflictTerm = 0 → response.conflictIndex ≠ 0 → k < response.conflictIndex
  pos : response.conflictTerm ≠ 0 → 0 < response.conflictIndex
  term_le : response.conflictTerm ≠ 0 → termAt LogRecord.term L k ≤ response.conflictTerm
  term_eq : response.conflictTerm ≠ 0 → response.conflictIndex ≤ k →
    termAt LogRecord.term L k = response.conflictTerm

theorem RefusalAbove.mono {L L' : List LogRecord} {k : Nat} {response : AppendEntriesResponse}
    (h : RefusalAbove L k response) (hle : L <+: L') (hk : k ≤ L.length) :
    RefusalAbove L' k response := by
  have hsame := termAt_of_le LogRecord.term hle hk
  exact ⟨h.last, h.index, h.pos, hsame ▸ h.term_le, hsame ▸ h.term_eq⟩

/-- A node that has the first `k` records of `L` refuses nothing that builds on them but above. -/
theorem RaftNode.Refuses.above {n : RaftNode} {mem : Replica LogRecord} {L : List LogRecord}
    {k prev : Nat} {response : AppendEntriesResponse} (h : n.Refuses prev response)
    (hrep : Represents n mem) (hgood : Good LogRecord.term H.leaderLog mem.log)
    (hterms : ∀ T, ∀ x ∈ H.leaderLog T, x.term ≤ T) (hpos : ∀ T, ∀ x ∈ H.leaderLog T, 0 < x.term)
    (hk : k ≤ L.length) (hprev : k ≤ prev) (hle : L.take k <+: mem.log) :
    RefusalAbove L k response := by
  have hlen : k ≤ mem.log.length := by
    have hlength := hle.length_le
    rwa [List.length_take, min_eq_left hk] at hlength
  have hsame : termAt LogRecord.term L k = termAt LogRecord.term mem.log k := by
    rw [← termAt_take LogRecord.term le_rfl]
    exact termAt_of_le LogRecord.term hle (by rw [List.length_take, min_eq_left hk])
  have hlast : k ≤ response.lastLogIndex := by rwa [h.last, hrep.lastLogIndexLocked]
  rcases h.hint with ⟨hzero, hindex⟩ | ⟨hsnap, hhas, hterm, hindex⟩
  · refine ⟨hlast, fun _ hne => ?_, fun hne => absurd hzero hne, fun hne => absurd hzero hne,
      fun hne => absurd hzero hne⟩
    rw [h.last] at hlast
    rcases hindex with hindex | ⟨hlt, hindex⟩ | hindex <;> omega
  · -- the record at `prev` is no earlier than the one at `k`, and neither is the first one of its
    -- term, unless this is the term at `k`
    obtain ⟨hlow, hhigh⟩ := (hrep.hasLogAtIndexLocked prev).mp hhas
    rw [hrep.termAtIndexLocked hlow hhigh] at hterm hindex
    obtain ⟨hback, hfirst⟩ := hrep.firstIndexOfTermLocked hlow hhigh
    rw [← hindex] at hback hfirst
    rw [← hterm] at hfirst
    have hmono := hgood.termAt_le hterms hprev hhigh
    rw [← hterm, ← hsame] at hmono
    refine ⟨hlast, fun hzero hne => ?_, fun hne => ?_, fun _ => hmono, fun hne hback => ?_⟩
    · -- only the bootstrap record is of term 0
      have hprobe := (hgood.termAt_pos hpos (Nat.pos_of_ne_zero hne |>.trans_le hback) hhigh).ne'
      exact absurd (hterm.symm.trans hzero) hprobe
    · refine Nat.pos_of_ne_zero fun hzero => ?_
      rw [hzero] at hfirst
      exact hne hfirst.symm
    · have hback' := hgood.termAt_le hterms hback hlen
      rw [hfirst, ← hsame] at hback'
      omega

/-! ## What the leader makes of it -/

namespace RaftNode

/-- The leader has a record of the term that the refusal names, unless it knows of no record that
the peer has, or still has the record at the last index it knows of. -/
def KnowsConflict (n : RaftNode) (peer : NodeId) (response : AppendEntriesResponse) : Prop :=
  response.conflictTerm ≠ 0 → n.lastIndexOfTerm response.conflictTerm = none →
    n.matchIndex peer = 0 ∨ n.firstLogIndexLocked ≤ n.matchIndex peer

instance (n : RaftNode) (peer : NodeId) (response : AppendEntriesResponse) :
    Decidable (n.KnowsConflict peer response) :=
  inferInstanceAs (Decidable (_ → _))

/-- Where the leader finds the term, its last record of it is no earlier than `match_index_`. -/
theorem appendHintAbove_of_refusal {n : RaftNode} {mem : Replica LogRecord} {peer : NodeId}
    {response : AppendEntriesResponse} (h : RefusalAbove mem.log (n.matchIndex peer) response)
    (hrep : Represents n mem) (hgood : Good LogRecord.term H.leaderLog mem.log)
    (hterms : ∀ T, ∀ x ∈ H.leaderLog T, x.term ≤ T) (hmatch : n.matchIndex peer ≤ mem.log.length)
    (hknows : n.KnowsConflict peer response) : n.AppendHintAbove peer response := by
  -- the record at `match_index_` is of the term that is named, and the leader still has it
  have hfound : response.conflictTerm ≠ 0 → mem.snap ≤ n.matchIndex peer →
      termAt LogRecord.term mem.log (n.matchIndex peer) = response.conflictTerm →
      ∃ last, n.lastIndexOfTerm response.conflictTerm = some last ∧ n.matchIndex peer ≤ last := by
    intro hne hsnap hsame
    rw [← hsame]
    exact hrep.le_lastIndexOfTerm hsnap hmatch
  unfold AppendHintAbove
  split
  · rename_i hne
    split
    · rename_i index hindex
      obtain ⟨hlow, hhigh, hterm⟩ := hrep.lastIndexOfTerm hindex
      by_contra hbelow
      have hback := hgood.termAt_le hterms (not_le.mp hbelow).le hmatch
      rw [hterm] at hback
      obtain ⟨last, hlast, hle⟩ := hfound hne (by omega) (le_antisymm (h.term_le hne) hback)
      rw [hindex] at hlast
      cases hlast
      exact hbelow hle
    · rename_i hnone
      have hpos := h.pos hne
      by_contra hbelow
      rcases hknows hne hnone with hzero | hkept
      · omega
      · rw [hrep.firstLogIndexLocked] at hkept
        obtain ⟨last, hlast, -⟩ := hfound hne hkept (h.term_eq hne (not_lt.mp hbelow))
        rw [hnone] at hlast
        cases hlast
  · rename_i hzero
    split
    · rename_i hne
      exact h.index (not_not.mp hzero) hne
    · exact h.last

end RaftNode

/-! ## Conditions on the steps -/

/-- The response to `AppendEntries` that the message carries. -/
def Payload.appendAnswer {Image : Type} : Payload Image → Option AppendEntriesResponse
  | .appendResponse response => some response
  | _ => none

/-- The response to `InstallSnapshot` that the message carries. -/
def Payload.installAnswer {Image : Type} : Payload Image → Option InstallSnapshotResponse
  | .installResponse response => some response
  | _ => none

/-- A leader that goes by a refusal knows the term that it names. -/
def Cluster.KnowsConflict {Image : Type} (c : Cluster σ Image) (id : NodeId) : Action → Prop
  | .appendResponse peer k _ => ∀ message ∈ c.net[k]?,
    ∀ response ∈ message.payload.appendAnswer,
      (c.members id).node.Heeds message.call.term response.term → response.success = false →
        (c.members id).node.KnowsConflict peer response
  | _ => True

variable (sm cfg) in
/-- A member that refuses a snapshot to the leader of its term has no longer log than the leader. -/
def Cluster.RefusesWithinLog (c : Cluster σ sm.Image) (id : NodeId) (action : Action) : Prop :=
  ∀ sent ∈ memberStep sm cfg id c.net (c.members id) action, ∀ message ∈ sent.2,
    ∀ response ∈ message.payload.installAnswer, response.success = false →
      response.term ≤ message.call.term → c.LeaderAt message.call.caller message.call.term →
        response.lastLogIndex ≤ (c.members message.call.caller).node.lastLogIndexLocked

variable (sm cfg) in
def Cluster.Continues (c : Cluster σ sm.Image) (id : NodeId) (action : Action) : Prop :=
  c.Keeping cfg id action ∧ c.RefusesWithinLog sm cfg id action ∧ c.KnowsConflict id action

instance {Image : Type} (c : Cluster σ Image) (id : NodeId) (action : Action) :
    Decidable (c.KnowsConflict id action) := by
  cases action <;> unfold Cluster.KnowsConflict <;> infer_instance

instance (c : Cluster σ sm.Image) (id : NodeId) (action : Action) :
    Decidable (c.RefusesWithinLog sm cfg id action) := by
  unfold Cluster.RefusesWithinLog
  infer_instance

instance (c : Cluster σ sm.Image) (id : NodeId) (action : Action) :
    Decidable (c.Continues sm cfg id action) := inferInstanceAs (Decidable (_ ∧ _))

/-! ## Calls under way -/

/-- Member `p` leads the term of the call and waits for the response of `peer`. -/
structure Cluster.Waits {Image : Type} (c : Cluster σ Image) (p peer : NodeId) (call : CallId) :
    Prop where
  leads : c.LeaderAt p call.term
  awaits : ((c.members p).replicators peer).Awaits call

theorem Cluster.Waits.congr {Image : Type} {c c' : Cluster σ Image} {p peer : NodeId}
    {call : CallId} (h : c.Waits p peer call) (hsame : c'.members p = c.members p) :
    c'.Waits p peer call := by
  obtain ⟨hleads, hawaits⟩ := h
  rw [Cluster.LeaderAt, ← hsame] at hleads
  exact ⟨hleads, hsame ▸ hawaits⟩

/-- A message of a call in term `T` fits a leader with log `L` that has recorded index `k` for the
peer. -/
def Payload.Above {Image : Type} (L : List LogRecord) (T k : Nat) : Payload Image → Prop
  | .appendRequest request => k ≤ request.prevLogIndex
  | .appendResponse response =>
    response.success = false → response.term ≤ T → RefusalAbove L k response
  | .installResponse response => response.success = false → response.term ≤ T →
    k ≤ response.lastLogIndex ∧ response.lastLogIndex ≤ L.length
  | _ => True

section Above

variable {Image : Type} {payload : Payload Image} {L L' : List LogRecord} {T k : Nat}

theorem Payload.Above.mono (h : payload.Above L T k) (hle : L <+: L') (hk : k ≤ L.length) :
    payload.Above L' T k := by
  cases payload with
  | appendResponse response => exact fun hrefused hterm => (h hrefused hterm).mono hle hk
  | installResponse response =>
    intro hrefused hterm
    obtain ⟨hlow, hhigh⟩ := h hrefused hterm
    exact ⟨hlow, hhigh.trans hle.length_le⟩
  | _ => exact h

/-- The calls of an election say nothing of this kind. -/
theorem Payload.above_of_quiet (hasks : payload.asks = false) (hanswers : payload.answers = false) :
    payload.Above L T k := by
  cases payload with
  | appendRequest _ | installRequest _ => cases hasks
  | appendResponse _ | installResponse _ => cases hanswers
  | _ => trivial

end Above

/-- A replicator that has received its response does not wait any more. -/
theorem act_returned {id : NodeId} {net : List (Message sm.Image)} {m m' : Member σ sm.Image}
    {action : Action} {outbox : Member.Outbox sm.Image} {peer : NodeId} {k : Nat} {saved : Bool}
    (haction : action = .appendResponse peer k saved ∨ action = .installResponse peer k saved)
    (h : act sm cfg id net m action = some (m', outbox)) (call : CallId) :
    ¬ (m'.replicators peer).Awaits call := by
  intro hawaits
  rcases haction with rfl | rfl
  · simp only [act] at h
    split at h
    · obtain ⟨message, -, h⟩ := Option.bind_eq_some_iff.mp h
      unfold Member.deliverAppendResponse at h
      split at h <;> cases h
      simp only [Member.setReplicator, Function.update_self] at hawaits
      exact hawaits
    · cases h
  · simp only [act] at h
    split at h
    · obtain ⟨message, -, h⟩ := Option.bind_eq_some_iff.mp h
      unfold Member.deliverInstallResponse at h
      split at h <;> cases h
      simp only [Member.setReplicator, Function.update_self] at hawaits
      exact hawaits
    · cases h

/-- The process of a leader has the log of its term, and has recorded nothing beyond it. -/
theorem SimInv.leading {c : Cluster σ sm.Image} (h : SimInv cfg H c) {p : NodeId} {T : Nat}
    (hp : p ∈ cfg.ids) (hleader : c.LeaderAt p T) :
    ∃ mem dur, ProcessInv H cfg.members p (c.members p) mem dur ∧ LedBy H p T ∧
      mem.log = H.leaderLog T ∧ ∀ peer ∈ cfg.peers p,
        (c.members p).node.matchIndex peer ≤ (H.leaderLog T).length := by
  obtain ⟨hup, hrole, rfl⟩ := hleader
  obtain ⟨mem, dur, hprocess⟩ := h.process hp hup
  obtain ⟨hleading, -⟩ := hprocess.leader hrole
  have hterm := hprocess.node.represents.term
  have hpeers := (h.votes.members p hp).peers
  rw [hterm]
  exact ⟨mem, dur, hprocess, hleading.led, hleading.log, fun peer hpeer =>
    (hleading.matched peer (hpeers ▸ hpeer)).1⟩

/-- What a member of the leader's term or an earlier one keeps of the leader's log, it keeps with
all that comes before. -/
theorem Confirmed.holds {m : Member σ sm.Image} {q : NodeId} {members : Finset NodeId}
    {mem dur : Replica LogRecord} {T j : Nat} (h : Confirmed H m T j) (hup : m.up = true)
    (hp : ProcessInv H members q m mem dur) (hknown : KnownMember H members m)
    (hH : H.Valid members LogRecord.term) (hT : H.Elected T) (hj : 0 < j)
    (hterm : m.node.currentTerm ≤ T) : (H.leaderLog T).take j <+: mem.log := by
  have hrep := hp.node.represents
  have hdurable := (hknown.term hup).durable
  rw [hrep.term] at hdurable hterm
  have hcompacted : j ≤ mem.snap → (H.leaderLog T).take j <+: mem.log := by
    intro hsnap
    -- what the boundary stands for was chosen before the leader was elected
    have hhead : KnownHead H members mem.term m.node.log := hdurable ▸ hknown.memory hup
    have hchosen := hp.node.chosenBy_commit hH hhead hp.node.memSound.snap_le
    have hbase := hH.chosenBy_le hchosen hT hterm
    have hlen : j ≤ (mem.log.take mem.snap).length := by
      rw [List.length_take]
      exact le_min hsnap (hsnap.trans hrep.stores.snap_le)
    rw [← take_eq_of_le hbase hlen]
    exact (take_le _ j).trans (take_le _ _)
  rcases h with hreached | ⟨r, hr, hreached | hlater | ⟨hsame, hretains⟩⟩
  · exact hcompacted (hrep.snapIndex ▸ hreached.memory hup)
  · exact hcompacted (hrep.snapIndex ▸ hreached.memory hup)
  · omega
  · have hkeeps := hretains.memory hup
    rw [hrep.keeps_iff hp.node.memSound.good hH hj hr] at hkeeps
    exact hkeeps.elim hcompacted fun hwritten => hwritten

namespace MatchInv

variable {c c' : Cluster σ sm.Image} {id : NodeId} {action : Action}

/-- A leader that waits behind a step waited before, with the same `match_index_`, or has just made
the call. -/
theorem waits_act {m : Member σ sm.Image} {outbox : Member.Outbox sm.Image} {peer : NodeId}
    {call : CallId} (h : MatchInv cfg H c) (hid : id ∈ cfg.ids) (hup : (c.members id).up = true)
    (hm : act sm cfg id c.net (c.members id) action = some (m, outbox))
    (hpeer : peer ∈ cfg.peers id) (hrole : m.node.role = .leader)
    (hterm : m.node.currentTerm = call.term) (hawaits : (m.replicators peer).Awaits call) :
    c.Waits id peer call ∧ m.node.matchIndex peer = (c.members id).node.matchIndex peer ∨
      Made outbox call := by
  rcases ((act_replicators hm).2 peer).awaits call hawaits with hold | ⟨hnew, -⟩
  swap
  · exact .inr hnew
  left
  rcases act_call hm with hsame | ⟨-, moved, hcall, hgrounded⟩
  · rw [hsame] at hrole hterm
    exact ⟨⟨⟨hup, hrole, hterm⟩, hold⟩, by rw [hsame]⟩
  have hother : peer ≠ (c.members id).node.nodeId := by
    rw [(h.sim.votes.members id hid).nodeId]
    simpa using (List.mem_filter.mp hpeer).2
  rw [hcall] at hrole hterm ⊢
  cases (c.members id).node.call_match moved hrole hother with
  | elected hcandidate hsame _ =>
    -- a candidate has not led its term
    obtain ⟨mem, dur, hprocess⟩ := h.sim.process hid hup
    obtain ⟨hmade, rfl, -⟩ := h.calls.awaited id hid hup peer call hold
    have hfirst := (hprocess.candidate hcandidate).1.first
    rw [← hprocess.node.represents.term, ← hsame, hterm] at hfirst
    exact absurd (h.calls.led call hmade) hfirst
  | same hbefore hsame hmatch => exact ⟨⟨⟨hup, hbefore, hsame ▸ hterm⟩, hold⟩, hmatch⟩
  | append response saved hmoved =>
    subst hmoved
    obtain ⟨k, message, haction, -⟩ := hgrounded
    exact absurd hawaits (act_returned (.inl haction) hm call)
  | install index response saved hmoved =>
    subst hmoved
    obtain ⟨k, message, haction, -⟩ := hgrounded
    exact absurd hawaits (act_returned (.inr haction) hm call)

/-- The call that a leader waits for has been made by it, to the peer. -/
theorem waits_made (h : MatchInv cfg H c) {p peer : NodeId} {call : CallId} (hp : p ∈ cfg.ids)
    (hwaits : c.Waits p peer call) : Made c.net call ∧ call.caller = p ∧ call.callee = peer :=
  h.calls.awaited p hp hwaits.leads.1 peer call hwaits.awaits

/-- A peer in the term of the leader or an earlier one has what the leader has recorded for it. -/
theorem peer_holds (h : MatchInv cfg H c) {p peer : NodeId} {T : Nat} (hp : p ∈ cfg.ids)
    (hpeer : peer ∈ cfg.peers p) (hleader : c.LeaderAt p T) (hup : (c.members peer).up = true)
    (hterm : (c.members peer).node.currentTerm ≤ T) :
    ∃ mem dur, ProcessInv H cfg.members peer (c.members peer) mem dur ∧
      (H.leaderLog T).take ((c.members p).node.matchIndex peer) <+: mem.log ∧
      (c.members p).node.matchIndex peer ≤ (c.members peer).node.lastLogIndexLocked := by
  have hpeer_id : peer ∈ cfg.ids := (List.mem_filter.mp hpeer).1
  obtain ⟨-, -, -, hled, -, hmatch⟩ := h.sim.leading hp hleader
  obtain ⟨mem, dur, hprocess⟩ := h.sim.process hpeer_id hup
  have hholds : (H.leaderLog T).take ((c.members p).node.matchIndex peer) <+: mem.log := by
    rcases Nat.eq_zero_or_pos ((c.members p).node.matchIndex peer) with hzero | hpos
    · rw [hzero]
      exact List.nil_prefix
    · obtain ⟨hleads, hrole, rfl⟩ := hleader
      exact (h.matched p hp hleads hrole peer hpeer _ hpos le_rfl).holds hup hprocess
        (h.known peer hpeer_id) h.sim.valid hled.elected hpos hterm
  refine ⟨mem, dur, hprocess, hholds, ?_⟩
  have hlength := hholds.length_le
  rw [List.length_take, min_eq_left (hmatch peer hpeer)] at hlength
  rwa [hprocess.node.represents.lastLogIndexLocked]

end MatchInv

/-! ## Runs -/

/-- Every leader is inside its log with every peer, and whatever is under way for a call that a
leader waits for fits what it has recorded. -/
structure NextInv (cfg : ClusterConfig) (H : History NodeId LogRecord)
    (c : Cluster σ sm.Image) : Prop extends MatchInv cfg H c where
  inside : ∀ p ∈ cfg.ids, (c.members p).up = true → (c.members p).node.role = .leader →
    ∀ peer ∈ cfg.peers p, (c.members p).node.NextInside peer
  said : ∀ p ∈ cfg.ids, ∀ peer ∈ cfg.peers p, ∀ call, c.Waits p peer call →
    ∀ message ∈ c.net, message.call = call →
      message.payload.Above (H.leaderLog call.term) call.term
        ((c.members p).node.matchIndex peer)
  handling : ∀ p ∈ cfg.ids, ∀ peer ∈ cfg.peers p, ∀ call, c.Waits p peer call →
    (c.members peer).up = true → ∀ handler, (c.members peer).Handles handler →
      handler.call = call → (c.members p).node.matchIndex peer ≤ handler.response.lastLogIndex

namespace NextInv

variable {c c' : Cluster σ sm.Image} {id : NodeId} {action : Action}

theorem init : NextInv cfg emptyHistory (Cluster.init sm cfg) where
  toMatchInv := .init
  inside _ _ hup := by cases hup
  said _ _ _ _ _ hwaits := by cases hwaits.leads.1
  handling _ _ _ _ _ hwaits := by cases hwaits.leads.1

/-- A refusal that a section goes by names an index inside. -/
theorem hints (h : NextInv cfg H c) (hknows : c.KnowsConflict id action) (hid : id ∈ cfg.ids)
    (hup : (c.members id).up = true) {moved : Call sm.Image}
    (hgrounded : moved.Grounded c.net (c.members id) action) {peer : NodeId}
    (hpeer : peer ∈ cfg.peers id) : (c.members id).node.HintsInside peer moved := by
  cases moved with
  | handleAppendEntriesResponse target leaderTerm response saved =>
    obtain ⟨k, message, rfl, hk, hreplicator, rfl, hpayload⟩ := hgrounded
    rintro rfl hheeds hrefused
    have ⟨_, hrole, hterm, hle⟩ := hheeds
    have hwaits : c.Waits id target message.call := ⟨⟨hup, hrole, hterm⟩, by rw [hreplicator]; rfl⟩
    have habove := h.said id hid target hpeer _ hwaits message (List.mem_of_getElem? hk) rfl
    rw [hpayload] at habove
    obtain ⟨mem, dur, hprocess, -, hlog, hmatch⟩ := h.sim.leading hid hwaits.leads
    rw [← hlog] at habove hmatch
    refine RaftNode.appendHintAbove_of_refusal (habove hrefused (hterm ▸ hle))
      hprocess.node.represents hprocess.node.memSound.good h.sim.valid.term_le
        (hmatch target hpeer) ?_
    exact hknows message hk response (by rw [hpayload]; rfl) hheeds hrefused
  | handleInstallSnapshotResponse target leaderTerm index response saved =>
    obtain ⟨k, message, rfl, hk, hreplicator, rfl, hpayload⟩ := hgrounded
    rintro rfl ⟨-, hrole, hterm, hle⟩ hrefused
    have hwaits : c.Waits id target message.call := ⟨⟨hup, hrole, hterm⟩, by rw [hreplicator]; rfl⟩
    have habove := h.said id hid target hpeer _ hwaits message (List.mem_of_getElem? hk) rfl
    rw [hpayload] at habove
    obtain ⟨mem, dur, hprocess, -, hlog, -⟩ := h.sim.leading hid hwaits.leads
    rw [RaftNode.InstallHintInside, hprocess.node.represents.lastLogIndexLocked, hlog]
    exact habove hrefused (hterm ▸ hle)
  | _ => trivial

/-- The node of a leader moves inside its log. -/
theorem inside_call (h : NextInv cfg H c) (hsim : SimInv cfg H' c') (hext : History.Extends H H')
    (hid : id ∈ cfg.ids) {moved : Call sm.Image} (hup : (c.members id).up = true)
    (hup' : (c'.members id).up = true)
    (hcall : (c'.members id).node = (c.members id).node.call moved) {peer : NodeId}
    (hpeer : peer ∈ cfg.peers id) (hhints : (c.members id).node.HintsInside peer moved)
    (hrole : (c'.members id).node.role = .leader) : (c'.members id).node.NextInside peer := by
  have hmember := h.sim.votes.members id hid
  have hself : peer ≠ (c.members id).node.nodeId := by
    rw [hmember.nodeId]
    simpa using (List.mem_filter.mp hpeer).2
  rcases (c.members id).node.call_next moved (hcall ▸ hrole) with helected | ⟨hled, hterm, hmoves⟩
  · rw [hcall, helected]
    exact RaftNode.becomeLeaderLocked_inside (hmember.peers ▸ hpeer) hself
  · obtain ⟨mem, dur, hprocess, -, hlog, -⟩ := h.sim.leading hid ⟨hup, hled, rfl⟩
    obtain ⟨mem', dur', hprocess', -, hlog', hmatched⟩ := hsim.leading hid ⟨hup', hrole, rfl⟩
    have hmatch := hmatched peer hpeer
    -- the log of the term's leader only grows
    have hgrown := (hext.leaderLog (c.members id).node.currentTerm).length_le
    rw [← hlog, ← hprocess.node.represents.lastLogIndexLocked] at hgrown
    rw [hcall, hterm] at hlog' hmatch
    rw [← hlog', ← hprocess'.node.represents.lastLogIndexLocked, hcall] at hgrown hmatch
    rw [hcall]
    exact (hmoves peer hself).inside (h.inside id hid hup hled peer hpeer) hhints hmatch hgrown

section Peers

variable {m : Member σ sm.Image} {outbox : Member.Outbox sm.Image} {p : NodeId} {call : CallId}

/-- What a peer answers to a call that its leader waits for fits what the leader has recorded. -/
theorem answer (h : NextInv cfg H c) (h' : MatchInv cfg H' c') (hext : History.Extends H H')
    (hrefuses : c.RefusesWithinLog sm cfg id action)
    (hstep : memberStep sm cfg id c.net (c.members id) action = some (m, outbox))
    (hid : id ∈ cfg.ids) (hup : (c.members id).up = true)
    (hm : act sm cfg id c.net (c.members id) action = some (m, outbox)) (hself : c'.members id = m)
    (hp : p ∈ cfg.ids) (hsame : c'.members p = c.members p) (hpeer : id ∈ cfg.peers p)
    (hwaits : c.Waits p id call) {message : Message sm.Image} (hmem : message ∈ outbox)
    (hcall : message.call = call) (hanswers : message.payload.answers = true) :
    message.payload.Above (H'.leaderLog call.term) call.term
      ((c'.members p).node.matchIndex id) := by
  have hleads : c'.LeaderAt p call.term := by
    rw [Cluster.LeaderAt, hsame]
    exact hwaits.leads
  obtain ⟨hsameUp, horigin⟩ := act_origin hm hmem
  have hup' : (c'.members id).up = true := by rw [hself, hsameUp, hup]
  obtain ⟨-, -, -, -, -, hmatch⟩ := h'.sim.leading hp hleads
  obtain ⟨answered, payload⟩ := message
  obtain rfl : answered = call := hcall
  cases payload with
  | appendResponse response =>
    intro hrefused hterm
    obtain ⟨k, request, termSaved, logSaved, commitSaved, -, hk, -, hnode, rfl⟩ := horigin
    obtain ⟨before, _, hbefore⟩ := h.sim.process hid hup
    have hrefusal := RaftNode.onAppendEntries_refuses hbefore.node.represents.logInv hrefused
    rw [← hnode, ← hself] at hrefusal
    obtain ⟨mem, dur, hprocess, hholds, -⟩ := h'.peer_holds hp hpeer hleads hup'
      (hrefusal.term ▸ hterm)
    refine hrefusal.above hprocess.node.represents hprocess.node.memSound.good
      h'.sim.valid.term_le h'.sim.term_pos (hmatch id hpeer) ?_ hholds
    rw [hsame]
    exact h.said p hp id hpeer _ hwaits _ (List.mem_of_getElem? hk) rfl
  | installResponse response =>
    intro hrefused hterm
    have hcaller := (h.waits_made hp hwaits).2.1
    constructor
    · have hreports : ∀ reported, Reports m.node reported → reported.term ≤ answered.term →
          (c'.members p).node.matchIndex id ≤ reported.lastLogIndex := by
        rintro reported ⟨hlast, hsameTerm⟩ hle
        rw [hsameTerm, ← hself] at hle
        obtain ⟨-, -, -, -, hholds⟩ := h'.peer_holds hp hpeer hleads hup' hle
        rw [hlast, ← hself]
        exact hholds
      rcases horigin with ⟨request, -, -, -, hreport⟩ | ⟨handler, hhandler, hhandled, -, hreport⟩
      · exact hreports response (hreport hrefused) hterm
      · rcases hreport hrefused with hreport | hlast
        · exact hreports response hreport hterm
        · rw [hlast, hsame]
          exact h.handling p hp id hpeer _ hwaits hup handler hhandler hhandled
    · obtain ⟨mem, dur, hprocess, -, hlog, -⟩ := h.sim.leading hp hwaits.leads
      have hwithin := hrefuses _ hstep _ hmem response rfl hrefused hterm
        (by rw [hcaller]; exact hwaits.leads)
      rw [hcaller, hprocess.node.represents.lastLogIndexLocked, hlog] at hwithin
      exact hwithin.trans (hext.leaderLog _).length_le
  | _ => cases hanswers

/-- The handler of a snapshot has found a log that goes as far as the leader has recorded. -/
theorem handler_above (h : NextInv cfg H c) (h' : MatchInv cfg H' c')
    (hup : (c.members id).up = true)
    (hm : act sm cfg id c.net (c.members id) action = some (m, outbox)) (hself : c'.members id = m)
    (hp : p ∈ cfg.ids) (hsame : c'.members p = c.members p) (hpeer : id ∈ cfg.peers p)
    (hwaits : c.Waits p id call) (hup' : (c'.members id).up = true)
    {handler : InstallHandler sm.Image} (hhandler : m.Handles handler)
    (hcall : handler.call = call) :
    (c'.members p).node.matchIndex id ≤ handler.response.lastLogIndex := by
  rcases act_handles hm hhandler with
    ⟨old, hold, holdCall, -, hresponse⟩ | ⟨⟨hnet, -⟩, hterm, hlast⟩
  · rw [hsame, ← hresponse]
    exact h.handling p hp id hpeer call hwaits hup old hold (holdCall.trans hcall)
  · have hleads : c'.LeaderAt p call.term := by
      rw [Cluster.LeaderAt, hsame]
      exact hwaits.leads
    have hnamed := h.calls.named _ hnet _ rfl
    rw [hcall] at hnamed
    rw [hlast, ← hself]
    obtain ⟨-, -, -, -, hholds⟩ := h'.peer_holds hp hpeer hleads hup'
      (by rw [hself, hterm, hnamed])
    exact hholds

end Peers

section Steps

variable {m : Member σ sm.Image} {outbox : Member.Outbox sm.Image} {p peer : NodeId}
  {call : CallId}

/-- The calls of the process that moves: what it has just sent builds on `next_index_`. -/
theorem said_own (h : NextInv cfg H c) (h' : MatchInv cfg H' c') (hext : History.Extends H H')
    (hid : id ∈ cfg.ids) (hup : (c.members id).up = true)
    (hm : act sm cfg id c.net (c.members id) action = some (m, outbox)) (hself : c'.members id = m)
    (hpeer : peer ∈ cfg.peers id) (hinside : (c'.members id).node.NextInside peer)
    (hwaits : c'.Waits id peer call) {message : Message sm.Image}
    (hmem : message ∈ c.net ++ outbox) (hcall : message.call = call) :
    message.payload.Above (H'.leaderLog call.term) call.term
      ((c'.members id).node.matchIndex peer) := by
  have hnode := (h.sim.votes.members id hid).nodeId
  have hcallee := (h'.waits_made hid hwaits).2.2
  have ⟨⟨_, hrole, hterm⟩, hawaits⟩ := hwaits
  rw [hself] at hrole hterm hawaits
  rcases h.waits_act hid hup hm hpeer hrole hterm hawaits with ⟨hold, hmatch⟩ | hnew
  · rcases List.mem_append.mp hmem with hmem | hmem
    · obtain ⟨-, -, -, -, -, hlength⟩ := h.sim.leading hid hold.leads
      rw [hself, hmatch]
      exact (h.said id hid peer hpeer call hold message hmem hcall).mono (hext.leaderLog _)
        (hlength peer hpeer)
    · -- what the process sends now belongs to another call
      refine Payload.above_of_quiet (Bool.eq_false_iff.mpr fun hasks => ?_)
        (Bool.eq_false_iff.mpr fun hanswers => ?_)
      · exact h.calls.fresh hnode hup hm ⟨message, hmem, hcall, hasks⟩ (h.waits_made hid hold).1
      · have hanswered := (h.calls.answer_made hid hup hm hmem hanswers).2
        rw [hcall, hcallee] at hanswered
        rw [hanswered] at hpeer
        simpa using (List.mem_filter.mp hpeer).2
  · have hfresh := h.calls.fresh hnode hup hm hnew
    rcases List.mem_append.mp hmem with hmem | hmem
    · -- nobody has heard of the call
      refine Payload.above_of_quiet (Bool.eq_false_iff.mpr fun hasks => ?_)
        (Bool.eq_false_iff.mpr fun hanswers => ?_)
      · exact hfresh ⟨message, hmem, hcall, hasks⟩
      · exact hfresh (hcall ▸ h.calls.answered message hmem hanswers)
    · have hasks : message.payload.answers = true → False := fun hanswers =>
        hfresh (hcall ▸ (h.calls.answer_made hid hup hm hmem hanswers).1)
      obtain ⟨-, horigin⟩ := act_origin hm hmem
      obtain ⟨sent, payload⟩ := message
      obtain rfl : sent = call := hcall
      cases payload with
      | appendRequest request =>
        obtain ⟨target, -, hsent, -, -, hbuild⟩ := horigin
        have htarget : sent.callee = target := congrArg CallId.callee hsent
        rw [hcallee] at htarget
        subst htarget
        have hprev := RaftNode.buildAppendEntriesRequest_prev hbuild
        have habove := hinside.above
        rw [hself] at habove ⊢
        simp only [Payload.Above]
        omega
      | appendResponse _ | installResponse _ => exact (hasks rfl).elim
      | _ => trivial

/-- The calls of another process: a response comes from the peer that moves. -/
theorem said_other (h : NextInv cfg H c) (h' : MatchInv cfg H' c') (hext : History.Extends H H')
    (hrefuses : c.RefusesWithinLog sm cfg id action)
    (hstep : memberStep sm cfg id c.net (c.members id) action = some (m, outbox))
    (hid : id ∈ cfg.ids) (hself : c'.members id = m) (hp : p ∈ cfg.ids) (hpid : p ≠ id)
    (hsame : c'.members p = c.members p) (hpeer : peer ∈ cfg.peers p)
    (hwaits : c.Waits p peer call) {message : Message sm.Image}
    (hmem : message ∈ c.net ++ outbox) (hcall : message.call = call) :
    message.payload.Above (H'.leaderLog call.term) call.term
      ((c'.members p).node.matchIndex peer) := by
  obtain ⟨-, hcaller, hcallee⟩ := h.waits_made hp hwaits
  obtain ⟨-, -, -, -, -, hlength⟩ := h.sim.leading hp hwaits.leads
  rcases List.mem_append.mp hmem with hmem | hmem
  · rw [hsame]
    exact (h.said p hp peer hpeer call hwaits message hmem hcall).mono (hext.leaderLog _)
      (hlength peer hpeer)
  rcases memberStep_cases hstep with ⟨hup, hm⟩ | ⟨-, rfl, -⟩
  swap
  · cases hmem
  by_cases hanswers : message.payload.answers = true
  · have hanswered := (h.calls.answer_made hid hup hm hmem hanswers).2
    rw [hcall, hcallee] at hanswered
    subst hanswered
    exact h.answer h' hext hrefuses hstep hid hup hm hself hp hsame hpeer hwaits hmem hcall hanswers
  · refine Payload.above_of_quiet (Bool.eq_false_iff.mpr fun hasks => ?_)
      (Bool.eq_false_iff.mpr hanswers)
    have hmade : Made outbox call := ⟨message, hmem, hcall, hasks⟩
    have hsender := (hmade.sent hup hm).1
    rw [hcaller, (h.sim.votes.members id hid).nodeId] at hsender
    exact hpid hsender

/-- The node of the process that moves, and that leads behind the step. -/
theorem inside_own (h : NextInv cfg H c) (h' : MatchInv cfg H' c') (hext : History.Extends H H')
    (hknows : c.KnowsConflict id action) (hid : id ∈ cfg.ids) (hup : (c.members id).up = true)
    (hm : act sm cfg id c.net (c.members id) action = some (m, outbox)) (hself : c'.members id = m)
    (hup' : (c'.members id).up = true) (hrole : (c'.members id).node.role = .leader)
    (hpeer : peer ∈ cfg.peers id) : (c'.members id).node.NextInside peer := by
  rcases act_call hm with hsame | ⟨-, moved, hcall, hgrounded⟩
  · rw [hself, hsame] at hrole ⊢
    exact h.inside id hid hup hrole peer hpeer
  · exact h.inside_call h'.sim hext hid hup hup' ((congrArg Member.node hself).trans hcall) hpeer
      (h.hints hknows hid hup hgrounded hpeer) hrole

/-- A handler works on a request that was there before the process moved. -/
theorem handling_own (h : NextInv cfg H c) (hid : id ∈ cfg.ids) (hup : (c.members id).up = true)
    (hm : act sm cfg id c.net (c.members id) action = some (m, outbox)) (hself : c'.members id = m)
    (hpeer : peer ∈ cfg.peers id) (hwaits : c'.Waits id peer call)
    (hup' : (c.members peer).up = true)
    {handler : InstallHandler sm.Image} (hhandler : (c.members peer).Handles handler)
    (hcall : handler.call = call) :
    (c'.members id).node.matchIndex peer ≤ handler.response.lastLogIndex := by
  have hnode := (h.sim.votes.members id hid).nodeId
  have ⟨⟨_, hrole, hterm⟩, hawaits⟩ := hwaits
  rw [hself] at hrole hterm hawaits ⊢
  rcases h.waits_act hid hup hm hpeer hrole hterm hawaits with ⟨hold, hmatch⟩ | hnew
  · rw [hmatch]
    exact h.handling id hid peer hpeer call hold hup' handler hhandler hcall
  · have hnet := (h.calls.handled peer (List.mem_filter.mp hpeer).1 hup' handler hhandler).1
    exact absurd ⟨_, hnet, hcall, rfl⟩ (h.calls.fresh hnode hup hm hnew)

end Steps

theorem step (h : NextInv cfg H c) (hcontinues : c.Continues sm cfg id action)
    (hmoved : c.step sm cfg id action = some c') :
    ∃ H', History.Extends H H' ∧ NextInv cfg H' c' := by
  obtain ⟨hkeeping, hrefuses, hknows⟩ := hcontinues
  obtain ⟨H', hext, h'⟩ := h.toMatchInv.step hkeeping hmoved
  obtain ⟨hid, m, outbox, hm, rfl⟩ := Cluster.step_cases hmoved
  have hself : (Function.update c.members id m) id = m := Function.update_self ..
  have hother : ∀ {q}, q ≠ id → (Function.update c.members id m) q = c.members q :=
    fun hq => Function.update_of_ne hq ..
  have hcases := memberStep_cases hm
  -- a leader behind the step ran before it, a restart leads nothing
  have hran : m.up = true → m.node.role = .leader → (c.members id).up = true ∧
      act sm cfg id c.net (c.members id) action = some (m, outbox) := by
    intro hup hrole
    rcases hcases with hact | ⟨hdown, -, _, _, _, -, rfl⟩
    · exact hact
    · exact absurd hrole (Member.restart_role hdown hup)
  have hinside : ∀ p ∈ cfg.ids, ((Function.update c.members id m) p).up = true →
      ((Function.update c.members id m) p).node.role = .leader → ∀ peer ∈ cfg.peers p,
        ((Function.update c.members id m) p).node.NextInside peer := by
    intro p hp hup hrole peer hpeer
    by_cases hpid : p = id
    · subst hpid
      obtain ⟨hbefore, hact⟩ := hran (hself ▸ hup) (hself ▸ hrole)
      exact h.inside_own h' hext hknows hp hbefore hact hself hup hrole hpeer
    · rw [hother hpid] at hup hrole ⊢
      exact h.inside p hp hup hrole peer hpeer
  refine ⟨H', hext, h', hinside, ?_, ?_⟩
  · intro p hp peer hpeer call hwaits message hmem hcall
    by_cases hpid : p = id
    · subst hpid
      have ⟨hup, hrole, _⟩ := hwaits.leads
      obtain ⟨hbefore, hact⟩ := hran (hself ▸ hup) (hself ▸ hrole)
      exact h.said_own h' hext hp hbefore hact hself hpeer
        (hinside p hp hup hrole peer hpeer) hwaits hmem hcall
    · exact h.said_other h' hext hrefuses hm hid hself hp hpid (hother hpid) hpeer
        (hwaits.congr (hother hpid).symm) hmem hcall
  · intro p hp peer hpeer call hwaits hup handler hhandler hcall
    by_cases hpid : p = id
    · subst hpid
      have hpeerid : peer ≠ p := by simpa using (List.mem_filter.mp hpeer).2
      have ⟨hupOwn, hrole, _⟩ := hwaits.leads
      obtain ⟨hbefore, hact⟩ := hran (hself ▸ hupOwn) (hself ▸ hrole)
      exact h.handling_own hp hbefore hact hself hpeer hwaits (hother hpeerid ▸ hup)
        (hother hpeerid ▸ hhandler) hcall
    · have hwaited := hwaits.congr (hother hpid).symm
      by_cases hpeerid : peer = id
      · subst hpeerid
        rcases hcases with ⟨hbefore, hact⟩ | ⟨hdown, -, _, _, _, -, rfl⟩
        · exact h.handler_above h' hbefore hact hself hp (hother hpid) hpeer hwaited hup
            (hself ▸ hhandler) hcall
        · simp only [hself] at hup hhandler
          exact absurd hhandler ((Member.restart_threads hdown hup).2 handler)
      · simp only [hother hpid, hother hpeerid] at hup hhandler ⊢
        exact h.handling p hp peer hpeer call hwaited hup handler hhandler hcall

theorem run (h : NextInv cfg H c)
    (hrun : Relation.ReflTransGen (Cluster.StepWhen sm cfg (Cluster.Continues sm cfg)) c c') :
    ∃ H', NextInv cfg H' c' := by
  induction hrun with
  | refl => exact ⟨H, h⟩
  | tail _ hstep ih =>
    obtain ⟨H₁, h₁⟩ := ih
    obtain ⟨id, action, hcontinues, hmoved⟩ := hstep
    obtain ⟨H₂, -, h₂⟩ := h₁.step hcontinues hmoved
    exact ⟨H₂, h₂⟩

end NextInv

/-- In every run that keeps what is acknowledged, in which nobody refuses a snapshot of its leader
with a longer log than the leader's and no leader goes by a term it knows nothing of, a leader stays
inside its log with every peer, and sends a snapshot only for records it has compacted. -/
theorem next_index_inside_log (sm : IStateMachine σ) (cfg : ClusterConfig)
    {c : Cluster σ sm.Image}
    (hc : Relation.ReflTransGen (Cluster.StepWhen sm cfg (Cluster.Continues sm cfg))
      (Cluster.init sm cfg) c) {p : NodeId} (hp : p ∈ cfg.ids) (hup : (c.members p).up = true)
    (hrole : (c.members p).node.role = .leader) {peer : NodeId}
    (hpeer : peer ∈ (c.members p).node.peers) :
    (c.members p).node.NextInside peer ∧ ∀ leaderTerm,
      ((c.members p).node.buildAppendEntriesRequest peer leaderTerm).2 = .snapshot →
        (c.members p).node.nextIndex peer ≤ (c.members p).node.firstLogIndexLocked := by
  obtain ⟨H, hH⟩ := NextInv.init.run hc
  rw [(hH.sim.votes.members p hp).peers] at hpeer
  have hinside := hH.inside p hp hup hrole peer hpeer
  exact ⟨hinside, hinside.snapshot_le hH.sim hp hup hrole⟩

/-! ## A refused snapshot

Member 1 leads term 1 and keeps records 2 to 4 to itself. Member 2 leads term 2, commits its own
record 2 with member 3 and compacts its log up to there, so member 1 is sent the snapshot. It
cannot write the file, and its refusal reports the end of its own log, which is behind the end of
the leader's. -/

/-- Member 2 has compacted its log, and member 1 has a longer one. -/
def longerPeerSchedule : List (NodeId × Action) :=
  threeSchedule ++ bootSchedule 3 ++ shipSchedule 1 3 5 ++
  List.replicate 3 (1, .propose (setCommand "v") true) ++
  [(2, .startElection true), (3, .onRequestVote 8 true true), (2, .onVoteResponse 9 true),
    (2, .countVote 2), (2, .onElectionWon 2), (2, .proposeNoOp true)] ++
  shipSchedule 2 3 10 ++ applySchedule 2 2 ++ snapshotSchedule 2

/-- Member 1 refuses the snapshot. -/
def refusedSnapshotSchedule : List (NodeId × Action) :=
  [(2, .replicateOnce 1), (2, .readBoundary 1), (2, .sendSnapshot 1),
    (1, .onInstallSnapshot 12 true), (1, .installWrite 0 false), (2, .installResponse 1 13 true)]

section RefusedSnapshot

variable (c d : Cluster KvMap kvStateMachine.Image)

/-- Member 2 has caught up with member 3 and has a snapshot for member 1. -/
def SendsSnapshot : Prop :=
  ((c.members 2).up = true ∧ (c.members 2).node.role = .leader ∧
      3 ∈ (c.members 2).node.peers ∧ 1 ∈ (c.members 2).node.peers) ∧
    (c.members 2).node.matchIndex 3 = 2 ∧
    ((c.members 2).node.buildAppendEntriesRequest 1 2).2 = .snapshot

/-- Member 2 continues behind the end of its log. -/
def ContinuesOutside : Prop :=
  ((d.members 2).up = true ∧ (d.members 2).node.role = .leader ∧
      1 ∈ (d.members 2).node.peers) ∧
    (d.members 2).node.lastLogIndexLocked = 2 ∧ (d.members 2).node.nextIndex 1 = 5

instance : Decidable (SendsSnapshot c) := inferInstanceAs (Decidable (_ ∧ _))
instance : Decidable (ContinuesOutside d) := inferInstanceAs (Decidable (_ ∧ _))

end RefusedSnapshot

theorem exec_longerPeerSchedule :
    ∃ c d : Cluster KvMap kvStateMachine.Image,
      Cluster.execWhen kvStateMachine threeMembers (Cluster.Continues kvStateMachine threeMembers)
        (Cluster.init kvStateMachine threeMembers) longerPeerSchedule = some c ∧
      Cluster.exec kvStateMachine threeMembers (Cluster.init kvStateMachine threeMembers)
        (longerPeerSchedule ++ refusedSnapshotSchedule) = some d ∧
      SendsSnapshot c ∧ ContinuesOutside d := by
  let sm := kvStateMachine
  have hc : (Cluster.execWhen sm threeMembers (Cluster.Continues sm threeMembers)
      (Cluster.init sm threeMembers) longerPeerSchedule).any (fun c => decide (SendsSnapshot c)) =
      true := by
    decide +kernel
  have hd : (Cluster.exec sm threeMembers (Cluster.init sm threeMembers)
      (longerPeerSchedule ++ refusedSnapshotSchedule)).any (fun d =>
      decide (ContinuesOutside d)) = true := by
    decide +kernel
  simp only [Option.any_eq_true, decide_eq_true_eq] at hc hd
  obtain ⟨c, hc, hsends⟩ := hc
  obtain ⟨d, hd, hcontinues⟩ := hd
  exact ⟨c, d, hc, hd, hsends, hcontinues⟩

/-- Member 2 is inside its log with member 3, and sends member 1 a snapshot of what it has
compacted. -/
theorem next_index_inside_log_three :
    ∃ c : Cluster KvMap kvStateMachine.Image, (c.members 2).node.role = .leader ∧
      (c.members 2).node.matchIndex 3 = 2 ∧ (c.members 2).node.NextInside 3 ∧
      (c.members 2).node.nextIndex 1 ≤ (c.members 2).node.firstLogIndexLocked := by
  obtain ⟨c, -, hc, -, ⟨⟨hup, hrole, hthree, hone⟩, hmatch, hsnapshot⟩, -⟩ :=
    exec_longerPeerSchedule
  have hrun := Cluster.execWhen_run hc
  exact ⟨c, hrole, hmatch,
    (next_index_inside_log kvStateMachine threeMembers hrun (by decide) hup hrole hthree).1,
    (next_index_inside_log kvStateMachine threeMembers hrun (by decide) hup hrole hone).2 2
      hsnapshot⟩

/-- After the refusal the next index is behind the end of the log. -/
theorem next_index_outside_log :
    ¬ ∀ c, Cluster.Reachable kvStateMachine threeMembers c → ∀ p ∈ threeMembers.ids,
      (c.members p).up = true → (c.members p).node.role = .leader →
      ∀ peer ∈ (c.members p).node.peers, (c.members p).node.NextInside peer ∧ ∀ leaderTerm,
        ((c.members p).node.buildAppendEntriesRequest peer leaderTerm).2 = .snapshot →
          (c.members p).node.nextIndex peer ≤ (c.members p).node.firstLogIndexLocked := by
  intro hinside
  obtain ⟨-, d, -, hd, -, ⟨hup, hrole, hpeer⟩, hlast, hnext⟩ := exec_longerPeerSchedule
  have hwithin := (hinside d (Cluster.exec_run hd) 2 (by decide) hup hrole 1 hpeer).1.within
  rw [hlast, hnext] at hwithin
  omega

/-! ## What lets a leader fall back

Each of the other conditions keeps the leader above what it knows of a peer. Member 2 leads term 2
with a compacted record of term 1, and goes by a refusal of member 1 that names term 1. Member 3
reports success in a term that it could not save, and a restart takes what it acknowledged. Member 3
restarts without the snapshot it has acknowledged. -/

section FallsBack

variable (sm : IStateMachine σ) (cfg : ClusterConfig)

/-- Every leader is inside its log with every peer, in every run of such steps. -/
def InsideWhen (allowed : Cluster σ sm.Image → NodeId → Action → Prop) : Prop :=
  ∀ c, Relation.ReflTransGen (Cluster.StepWhen sm cfg allowed) (Cluster.init sm cfg) c →
    ∀ p ∈ cfg.ids, (c.members p).up = true → (c.members p).node.role = .leader →
      ∀ peer ∈ (c.members p).node.peers, (c.members p).node.NextInside peer

/-- Member `p` leads, and would go on with its peer where the peer has acknowledged records. -/
def FallsBack {Image : Type} (p peer : NodeId) (c : Cluster σ Image) : Prop :=
  ((c.members p).up = true ∧ (c.members p).node.role = .leader) ∧
    peer ∈ (c.members p).node.peers ∧
      (c.members p).node.nextIndex peer ≤ (c.members p).node.matchIndex peer

instance {Image : Type} (p peer : NodeId) (c : Cluster σ Image) : Decidable (FallsBack p peer c) :=
  inferInstanceAs (Decidable (_ ∧ _))

variable {sm cfg} in
theorem not_insideWhen {allowed : Cluster σ sm.Image → NodeId → Action → Prop}
    [∀ c id action, Decidable (allowed c id action)] (schedule : List (NodeId × Action))
    (p peer : NodeId) (hp : p ∈ cfg.ids)
    (h : (Cluster.execWhen sm cfg allowed (Cluster.init sm cfg) schedule).any
      (fun c => decide (FallsBack p peer c)) = true) : ¬ InsideWhen sm cfg allowed := by
  intro hinside
  obtain ⟨c, hc, hfalls⟩ := (Option.any_eq_true _ _).mp h
  obtain ⟨⟨hup, hrole⟩, hpeer, hback⟩ := of_decide_eq_true hfalls
  have habove := (hinside c (Cluster.execWhen_run hc) p hp hup hrole peer hpeer).above
  omega

end FallsBack

/-- Member 2 has compacted its log up to record 2, and member 1 refuses an `AppendEntries` that it
has kept since before. -/
def compactedConflictSchedule : List (NodeId × Action) :=
  threeSchedule ++ bootSchedule 3 ++ shipSchedule 1 3 5 ++
  List.replicate 3 (1, .propose (setCommand "v") true) ++
  [(2, .startElection true), (3, .onRequestVote 8 true true), (2, .onVoteResponse 9 true),
    (2, .countVote 2), (2, .onElectionWon 2)] ++ shipSchedule 2 1 10 ++
  [(2, .proposeNoOp true), (2, .replicateOnce 1), (1, .onAppendEntries 12 true false true),
    (2, .appendResponse 1 13 true), (2, .finishRpc 1)] ++
  shipSchedule 2 3 14 ++ applySchedule 2 2 ++ snapshotSchedule 2 ++ shipSchedule 2 1 16

/-- Member 3 installs the snapshot of member 1, fails to save its log behind it, and restarts
without the snapshot. -/
def lostSnapshotSchedule : List (NodeId × Action) :=
  threeSchedule ++ [(1, .propose (setCommand "v") true)] ++ shipSchedule 1 2 5 ++
  applySchedule 1 2 ++ snapshotSchedule 1 ++ bootSchedule 3 ++
  [(1, .replicateOnce 3), (1, .readBoundary 3), (1, .sendSnapshot 3),
    (3, .onInstallSnapshot 7 true), (3, .installWrite 0 true), (3, .installSave 0 .ok),
    (3, .installLoad 0 true), (3, .installFinish false), (1, .installResponse 3 8 true),
    (1, .finishRpc 3)] ++ shipSchedule 1 3 9 ++
  [(3, .crash), (3, .restart (fun _ => false) true fun _ => true), (3, .start)] ++
  shipSchedule 1 3 11

/-- Without one of the conditions a leader falls back. -/
theorem insideWhen_fails :
    (¬ InsideWhen kvStateMachine threeMembers fun c id action =>
      c.Keeping threeMembers id action ∧ c.RefusesWithinLog kvStateMachine threeMembers id action) ∧
    (¬ InsideWhen kvStateMachine fiveMembers fun c id action =>
      (c.Guarded id action ∧ (c.members id).loadsNewest fiveMembers id action = true) ∧
        c.RefusesWithinLog kvStateMachine fiveMembers id action ∧ c.KnowsConflict id action) ∧
    ¬ InsideWhen kvStateMachine threeMembers fun c id action =>
      (c.Guarded id action ∧ SavesTerm c.net (c.members id) action) ∧
        c.RefusesWithinLog kvStateMachine threeMembers id action ∧ c.KnowsConflict id action := by
  refine ⟨not_insideWhen compactedConflictSchedule 2 1 ?_ ?_,
    not_insideWhen (unsavedTermSchedule ++ shipSchedule 1 3 31) 1 3 ?_ ?_,
    not_insideWhen lostSnapshotSchedule 1 3 ?_ ?_⟩ <;> decide +kernel

end CquptRaft
