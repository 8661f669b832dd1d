import CquptRaft.Cluster.Applied

/-!
# Application, snapshots and restarts keep the state machine in step

One lemma for each action that touches the map, the apply index or the snapshots, and from
them the invariant over runs whose steps all keep the state.
-/

namespace CquptRaft

open Replication Voting

variable {σ : Type} {sm : IStateMachine σ} {cfg : ClusterConfig} {H H' : History NodeId LogRecord}
  {members : Finset NodeId} {q : NodeId} {m m' : Member σ sm.Image} {net : List (Message sm.Image)}
  {outbox : Member.Outbox sm.Image} {mem dur : Replica LogRecord}

/-- Whether the action leaves map and apply index in step. A handler must not write the temporary
file that another handler has yet to save, must not load a snapshot that the node is already
past, and must not give up behind the load when its term has passed. A restart must load a
snapshot that reaches the head of the durable log. -/
def Member.keepsState (sm : IStateMachine σ) (cfg : ClusterConfig) (id : NodeId)
    (m : Member σ sm.Image) : Action → Bool
  | .installWrite _ _ => m.installs.all fun handler => handler.phase != .written
  | .installLoad h _ => (m.installs[h]?).all fun handler =>
    decide (m.node.lastApplied ≤ handler.request.lastIncludedIndex)
  | .installFinish _ =>
    match m.apply with
    | .installing handler => decide (m.node.currentTerm ≤ handler.request.term) ||
      decide (m.node.lastApplied = handler.request.lastIncludedIndex)
    | _ => true
  | .restart readable _ _ =>
    decide ((RaftNode.recover id (cfg.peers id) m.node.storage).lastSnapshotIndex ≤
      RaftNode.loadedIndex sm (cfg.snapshot id) m.snapshots readable)
  | _ => true

/-! ## The temporary file -/

namespace TempInv

variable {installs : List (InstallHandler sm.Image)} {installTemp : Option sm.Image} {k : Nat}
  {handler : InstallHandler sm.Image}

theorem append (h : TempInv sm installs installTemp) (hphase : handler.phase = .checked) :
    TempInv sm (installs ++ [handler]) installTemp := by
  refine ⟨?_, fun other hmem hwritten => ?_⟩
  · simpa [List.countP_append, hphase] using h.once
  · rcases List.mem_append.mp hmem with hold | hnew
    · exact h.content other hold hwritten
    · rw [List.mem_singleton.mp hnew, hphase] at hwritten
      cases hwritten

theorem eraseIdx (h : TempInv sm installs installTemp) (k : Nat) :
    TempInv sm (installs.eraseIdx k) installTemp :=
  ⟨(List.eraseIdx_sublist installs k).countP_le.trans h.once,
    fun other hmem => h.content other (List.mem_of_mem_eraseIdx hmem)⟩

/-- Nobody uses the file any more. -/
theorem of_none (h : ∀ handler ∈ installs, handler.phase ≠ .written) :
    TempInv sm installs installTemp := by
  refine ⟨?_, fun handler hmem hwritten => absurd hwritten (h handler hmem)⟩
  rw [List.countP_eq_zero.mpr]
  · exact Nat.zero_le 1
  · simpa using h

theorem write (h : ∀ handler ∈ installs, handler.phase ≠ .written)
    (hk : installs[k]? = some handler) :
    TempInv sm (installs.set k { handler with phase := .written })
      (some handler.request.snapshotData) := by
  have hlt := (List.getElem?_eq_some_iff.mp hk).1
  have hzero : installs.countP (fun handler => handler.phase == .written) = 0 :=
    List.countP_eq_zero.mpr (by simpa using h)
  refine ⟨?_, fun other hmem hwritten => ?_⟩
  · rw [List.countP_set hlt, hzero]
    simp
  · rcases List.mem_or_eq_of_mem_set hmem with hold | rfl
    · exact absurd hwritten (h other hold)
    · rfl

/-- Behind the handler that has written the file there is no other. -/
theorem others (h : TempInv sm installs installTemp) (hk : installs[k]? = some handler)
    (hphase : handler.phase = .written) :
    ∀ other ∈ installs.eraseIdx k, other.phase ≠ .written := by
  obtain ⟨hlt, hget⟩ := List.getElem?_eq_some_iff.mp hk
  have hperm := (List.getElem_cons_eraseIdx_perm hlt).countP_eq
    (fun handler : InstallHandler sm.Image => handler.phase == .written)
  rw [hget, List.countP_cons_of_pos (by simpa using hphase)] at hperm
  have hzero : (installs.eraseIdx k).countP (fun handler => handler.phase == .written) = 0 := by
    have := h.once
    omega
  simpa using List.countP_eq_zero.mp hzero

theorem release (h : TempInv sm installs installTemp) (hk : installs[k]? = some handler)
    (hphase : handler.phase = .written) :
    TempInv sm (installs.eraseIdx k) none ∧
    TempInv sm (installs.set k { handler with phase := .saved }) none := by
  refine ⟨.of_none (h.others hk hphase), .of_none fun other hmem => ?_⟩
  have hlt := (List.getElem?_eq_some_iff.mp hk).1
  have hperm := List.getElem_cons_eraseIdx_perm
    (l := installs.set k { handler with phase := .saved }) (n := k) (by simpa using hlt)
  rw [List.getElem_set_self, List.eraseIdx_set_eq] at hperm
  rcases List.mem_cons.mp (hperm.mem_iff.mpr hmem) with rfl | hother
  · simp
  · exact h.others hk hphase other hother

end TempInv

/-! ## One step of a member -/

/-- What a step of a member has to establish. -/
structure AppliedStep (sm : IStateMachine σ) (H : History NodeId LogRecord)
    (members : Finset NodeId) (m' : Member σ sm.Image) (outbox : Member.Outbox sm.Image) :
    Prop where
  member : AppliedMember sm H members m'
  outbox : ∀ message ∈ outbox, AppliedMessage sm H members message

theorem Unrelated.appliedStep (h : Unrelated m m' outbox) (hm : AppliedMember sm H members m) :
    AppliedStep sm H members m' outbox := by
  refine ⟨hm.same h.same, fun message hmem => ?_⟩
  have hno := h.outbox message hmem
  unfold AppliedMessage
  split
  · rename_i request hpayload
    rw [hpayload] at hno
    cases hno
  · trivial

/-- The process moves on; its threads have to be settled anew. -/
theorem AppliedStep.of_process
    (hsnapshots : ∀ s ∈ m'.snapshots, ImageAt sm H members s.index s.image)
    (hp : AppliedProcess sm H members m')
    (hout : ∀ message ∈ outbox, message.payload.isSnapshot = false) :
    AppliedStep sm H members m' outbox := by
  refine ⟨⟨hsnapshots, fun _ => hp⟩, fun message hmem => ?_⟩
  have hno := hout message hmem
  unfold AppliedMessage
  split
  · rename_i request hpayload
    rw [hpayload] at hno
    cases hno
  · trivial

namespace AppliedMember

variable (hm : AppliedMember sm H members m) (hup : m.up = true)
include hm hup

/-- `ApplyCommittedEntries` in a `Propose` thread finds nothing to do. -/
theorem proposal {k : Nat} {step : ProposeStep} (hstep : m.proposal k step = some m') :
    AppliedStep sm H members m' [] := by
  have hboundary := (hm.process hup).boundary
  unfold Member.proposal at hstep
  split at hstep
  · cases hstep
  · obtain ⟨⟨node, phase⟩, hnode, rfl⟩ := Option.map_eq_some_iff.mp hstep
    have hsame : SameBoundary m.node node := by
      rcases Member.proposeStep_cases hnode with rfl | ⟨saved, rfl⟩ | rfl
      · exact .refl _
      · exact m.node.advanceCommitIndexUnlocked_sameBoundary saved
      · rw [m.node.applyPick_frame]
        exact ⟨max_eq_left hboundary, rfl⟩
    exact Unrelated.appliedStep (m := m) ⟨⟨rfl, hsame, rfl, rfl, rfl, rfl, rfl, rfl⟩, by simp⟩ hm

omit hup in
theorem sendSnapshot {peer : NodeId} (hstep : m.sendSnapshot peer = some (m', outbox)) :
    AppliedStep sm H members m' outbox := by
  unfold Member.sendSnapshot at hstep
  split at hstep
  · split at hstep
    · cases hstep
      exact Unrelated.appliedStep ⟨m.setReplicator_same peer _, by simp⟩ hm
    · rename_i s hs
      cases hstep
      refine ⟨hm.same ⟨rfl, .refl _, rfl, rfl, rfl, rfl, rfl, rfl⟩, fun message hmem => ?_⟩
      rw [List.mem_singleton.mp hmem]
      exact hm.snapshots s (chooseSnapshot_mem hs)
  · cases hstep

theorem onInstallSnapshot (enabled saved : Bool) (call : CallId)
    {request : InstallSnapshotRequest sm.Image}
    (hrequest : ImageAt sm H members request.lastIncludedIndex request.snapshotData) :
    AppliedStep sm H members (m.onInstallSnapshot enabled call request saved).1
      (m.onInstallSnapshot enabled call request saved).2 := by
  have hnode := m.node.installCheck_sameBoundary enabled request saved
  obtain ⟨hboundary, hlock, hinstalls, htemp, hworker⟩ :=
    (hm.same (.of_node hnode)).process hup
  unfold Member.onInstallSnapshot
  generalize m.node.installCheck enabled request saved = result at *
  obtain ⟨node, response⟩ := result
  cases response with
  | some response =>
    exact .of_process hm.snapshots ⟨hboundary, hlock, hinstalls, htemp, hworker⟩
      (by simp [Payload.isSnapshot])
  | none =>
    refine .of_process hm.snapshots ⟨hboundary, hlock, fun handler hmem => ?_, htemp.append rfl,
      hworker⟩ (by simp)
    rcases List.mem_append.mp hmem with hold | hnew
    · exact hinstalls handler hold
    · rw [List.mem_singleton.mp hnew]
      exact hrequest

theorem installWrite {k : Nat} {ok : Bool}
    (hkeeps : m.keepsState sm cfg q (.installWrite k ok) = true)
    (hstep : m.installWrite k ok = some (m', outbox)) : AppliedStep sm H members m' outbox := by
  obtain ⟨hboundary, hlock, hinstalls, htemp, hworker⟩ := hm.process hup
  have hnone : ∀ handler ∈ m.installs, handler.phase ≠ .written := by
    simpa [Member.keepsState] using hkeeps
  unfold Member.installWrite at hstep
  split at hstep
  · rename_i handler hk
    split at hstep
    · split at hstep <;> cases hstep
      · refine .of_process hm.snapshots ⟨hboundary, hlock, fun other hmem => ?_,
          .write hnone hk, hworker⟩ (by simp)
        rcases List.mem_or_eq_of_mem_set hmem with hold | rfl
        · exact hinstalls other hold
        · exact hinstalls handler (List.mem_of_getElem? hk)
      · exact .of_process hm.snapshots ⟨hboundary, hlock,
          fun other hmem => hinstalls other (List.mem_of_mem_eraseIdx hmem),
          .of_none fun other hmem => hnone other (List.mem_of_mem_eraseIdx hmem), hworker⟩
          (by simp [Payload.isSnapshot])
    · cases hstep
  · cases hstep

theorem installSave {k : Nat} {outcome : SaveOutcome}
    (hstep : m.installSave k outcome = some (m', outbox)) :
    AppliedStep sm H members m' outbox := by
  obtain ⟨hboundary, hlock, hinstalls, htemp, hworker⟩ := hm.process hup
  unfold Member.installSave at hstep
  split at hstep
  · rename_i handler hk
    have himage := hinstalls handler (List.mem_of_getElem? hk)
    split at hstep
    · rename_i hphase
      have htempData := htemp.content handler (List.mem_of_getElem? hk) hphase
      -- what is published is what this handler has written
      have hnew : ∀ s ∈ (saveSnapshotFile m.snapshots m.installTemp
          handler.request.lastIncludedIndex handler.request.lastIncludedTerm outcome).1,
          ImageAt sm H members s.index s.image := by
        intro s hs
        rcases saveSnapshotFile_mem hs with hold | ⟨image, himageEq, rfl⟩
        · exact hm.snapshots s hold
        · rw [htempData] at himageEq
          cases himageEq
          exact himage
      generalize saveSnapshotFile m.snapshots m.installTemp handler.request.lastIncludedIndex
        handler.request.lastIncludedTerm outcome = result at *
      obtain ⟨snapshots, ok⟩ := result
      obtain ⟨herased, hset⟩ := htemp.release hk hphase
      cases ok with
      | true =>
        cases hstep
        refine .of_process hnew ⟨hboundary, hlock, fun other hmem => ?_, hset, hworker⟩ (by simp)
        rcases List.mem_or_eq_of_mem_set hmem with hold | rfl
        · exact hinstalls other hold
        · exact himage
      | false =>
        cases hstep
        exact .of_process hnew ⟨hboundary, hlock,
          fun other hmem => hinstalls other (List.mem_of_mem_eraseIdx hmem), herased, hworker⟩
          (by simp [Payload.isSnapshot])
    · cases hstep
  · cases hstep

theorem installLoad {k : Nat} {ok : Bool}
    (hkeeps : m.keepsState sm cfg q (.installLoad k ok) = true)
    (hstep : m.installLoad sm k ok = some (m', outbox)) : AppliedStep sm H members m' outbox := by
  obtain ⟨hboundary, hlock, hinstalls, htemp, hworker⟩ := hm.process hup
  unfold Member.installLoad at hstep
  split at hstep
  · rename_i handler hk hfree
    have hle : m.node.lastApplied ≤ handler.request.lastIncludedIndex := by
      simpa [Member.keepsState, hk] using hkeeps
    have hothers := fun other hmem => hinstalls other (List.mem_of_mem_eraseIdx (i := k) hmem)
    split at hstep
    · split at hstep
      · rename_i kv hload
        cases hstep
        obtain ⟨s, hfind, hs⟩ := Option.bind_eq_some_iff.mp hload
        obtain ⟨kv', hs', hstate⟩ := hm.snapshots s (List.mem_of_find?_eq_some hfind)
        obtain rfl : kv = kv' := Option.some.inj (hs.symm.trans hs')
        have hindex : s.index = handler.request.lastIncludedIndex := by
          simpa using List.find?_some hfind
        exact .of_process hm.snapshots ⟨hboundary, ⟨hle, hindex ▸ hstate⟩, hothers,
          htemp.eraseIdx k, hworker⟩ (by simp)
      · cases hstep
        exact .of_process hm.snapshots ⟨hboundary, hlock, hothers, htemp.eraseIdx k, hworker⟩
          (by simp [Payload.isSnapshot])
    · cases hstep
  · cases hstep

end AppliedMember

/-- Where an installed snapshot leaves the two boundaries. -/
theorem RaftNode.adoptSnapshotLocked_boundary (n : RaftNode) (index term : Nat)
    (hboundary : n.lastSnapshotIndex ≤ n.lastApplied) :
    (n.adoptSnapshotLocked index term).lastApplied = max n.lastApplied index ∧
    (n.adoptSnapshotLocked index term).lastSnapshotIndex ≤ max n.lastApplied index := by
  unfold adoptSnapshotLocked compactLogPrefixLocked restoreLogAfterSnapshotLocked
  simp only
  split
  · exact ⟨rfl, hboundary.trans (le_max_left _ _)⟩
  · exact ⟨by simp, le_max_right _ _⟩

/-- Compaction behind the apply index leaves it alone. -/
theorem RaftNode.compactAfterSnapshot_boundary (n : RaftNode) {index : Nat} (term : Nat)
    (saved : Bool) (hboundary : n.lastSnapshotIndex ≤ n.lastApplied)
    (hindex : index ≤ n.lastApplied) :
    (n.compactAfterSnapshot index term saved).lastApplied = n.lastApplied ∧
    (n.compactAfterSnapshot index term saved).lastSnapshotIndex ≤ n.lastApplied := by
  unfold compactAfterSnapshot
  split
  · unfold compactLogPrefixLocked restoreLogAfterSnapshotLocked
    split
    · simpa using hboundary
    · simpa using hindex
  · exact ⟨rfl, hboundary⟩

theorem CaptureInv.of_le {lastApplied lastApplied' : Nat} {worker : SnapshotWorker sm.Image}
    (h : CaptureInv sm H members lastApplied worker) (hle : lastApplied ≤ lastApplied') :
    CaptureInv sm H members lastApplied' worker := by
  cases worker with
  | idle | pending => trivial
  | captured _ _ _ => exact ⟨h.1.trans hle, h.2⟩
  | saved _ _ => exact le_trans h hle

namespace AppliedMember

variable (hm : AppliedMember sm H members m) (hup : m.up = true)
include hm hup

theorem installFinish {saved : Bool} (hkeeps : m.keepsState sm cfg q (.installFinish saved) = true)
    (hstep : m.installFinish saved = some (m', outbox)) : AppliedStep sm H members m' outbox := by
  obtain ⟨hboundary, hlock, hinstalls, htemp, hworker⟩ := hm.process hup
  unfold Member.installFinish at hstep
  split at hstep
  · rename_i handler hlocked
    rw [hlocked] at hlock
    obtain ⟨hle, hstate⟩ := hlock
    simp only [Member.keepsState, hlocked, Bool.or_eq_true, decide_eq_true_eq] at hkeeps
    -- either way the apply index ends at the index of the snapshot
    have hfinish : (m.node.installFinish handler.request handler.response saved).1.lastApplied =
          handler.request.lastIncludedIndex ∧
        (m.node.installFinish handler.request handler.response saved).1.lastSnapshotIndex ≤
          handler.request.lastIncludedIndex := by
      unfold RaftNode.installFinish
      split
      · rename_i hlt
        have heq : m.node.lastApplied = handler.request.lastIncludedIndex := by omega
        exact ⟨heq, heq ▸ hboundary⟩
      · obtain ⟨happlied, hsnap⟩ := m.node.adoptSnapshotLocked_boundary
          handler.request.lastIncludedIndex handler.request.lastIncludedTerm hboundary
        rw [max_eq_right hle] at happlied hsnap
        cases saved
        · exact ⟨happlied, hsnap⟩
        · simpa using ⟨happlied, hsnap⟩
    generalize m.node.installFinish handler.request handler.response saved = result at *
    obtain ⟨node, response⟩ := result
    cases hstep
    obtain ⟨happlied, hsnap⟩ := hfinish
    simp only at happlied hsnap
    refine .of_process hm.snapshots ⟨?_, ?_, hinstalls, htemp, ?_⟩ (by simp [Payload.isSnapshot])
    · exact happlied ▸ hsnap
    · simp only [LockInv, happlied]
      exact hstate
    · exact hworker.of_le (by simp only [happlied]; exact hle)
  · cases hstep

omit hup in
theorem applyAcquire (hfree : m.apply = .free) :
    AppliedStep sm H members { m with apply := .looping } [] := by
  refine ⟨⟨hm.snapshots, fun hup => ?_⟩, by simp⟩
  obtain ⟨hboundary, hlock, hinstalls, htemp, hworker⟩ := hm.process hup
  rw [hfree] at hlock
  exact ⟨hboundary, hlock, hinstalls, htemp, hworker⟩

theorem applyPick (hrep : Represents m.node mem) (hlen : mem.commit ≤ mem.log.length)
    (hchosen : H.Chosen members (mem.log.take mem.commit)) (hstep : m.applyPick = some m') :
    AppliedStep sm H members m' [] := by
  obtain ⟨hboundary, hlock, hinstalls, htemp, hworker⟩ := hm.process hup
  have hmax : max m.node.lastApplied mem.snap = m.node.lastApplied := by
    rw [← hrep.snapIndex]
    exact max_eq_left hboundary
  unfold Member.applyPick at hstep
  split at hstep
  · rename_i hlocked
    rw [hlocked] at hlock
    rw [hrep.applyPick_eq hlen, hmax] at hstep
    by_cases hdone : mem.commit ≤ m.node.lastApplied
    · simp only [if_pos hdone] at hstep
      cases hstep
      exact .of_process hm.snapshots ⟨hboundary, hlock, hinstalls, htemp, hworker⟩ (by simp)
    · simp only [if_neg hdone] at hstep
      cases hstep
      have hlt : m.node.lastApplied < mem.log.length := by omega
      refine .of_process hm.snapshots ⟨hboundary, ⟨hlock, rfl, ?_⟩, hinstalls, htemp, hworker⟩
        (by simp)
      refine ⟨mem.log.take m.node.lastApplied, mem.log[m.node.lastApplied], ?_, ?_, ?_⟩
      · rw [List.take_append_getElem]
        exact hchosen.of_le (take_le_take (by omega))
      · rw [List.length_take]
        omega
      · rw [List.getElem?_eq_getElem hlt, Option.elim_some]
  · cases hstep

theorem applyRun (hH : H.Valid members LogRecord.term) (hstep : m.applyRun sm = some m') :
    AppliedStep sm H members m' [] := by
  obtain ⟨hboundary, hlock, hinstalls, htemp, hworker⟩ := hm.process hup
  unfold Member.applyRun at hstep
  split at hstep
  · rename_i index command hlocked
    rw [hlocked] at hlock
    obtain ⟨hstate, rfl, hcommand⟩ := hlock
    split at hstep
    · rename_i kv happly
      cases hstep
      exact .of_process hm.snapshots ⟨hboundary, ⟨rfl, hstate.apply hH hcommand happly⟩, hinstalls,
        htemp, hworker⟩ (by simp)
    · cases hstep
      exact .of_process hm.snapshots ⟨hboundary, hstate, hinstalls, htemp, hworker⟩ (by simp)
  · cases hstep

theorem applyFinish {saved : Bool} (hstep : m.applyFinish saved = some m') :
    AppliedStep sm H members m' [] := by
  obtain ⟨hboundary, hlock, hinstalls, htemp, hworker⟩ := hm.process hup
  unfold Member.applyFinish at hstep
  split at hstep
  · rename_i index hlocked
    rw [hlocked] at hlock
    obtain ⟨rfl, hstate⟩ := hlock
    have hfinish : m.node.applyFinish (m.node.lastApplied + 1) saved =
        ({ m.node with lastApplied := m.node.lastApplied + 1 }.persistStateLocked saved,
          saved) := by
      simp [RaftNode.applyFinish]
    rw [hfinish] at hstep
    cases hstep
    refine .of_process hm.snapshots ⟨?_, ?_, hinstalls, htemp, ?_⟩ (by simp)
    · simp only [RaftNode.persistStateLocked_lastSnapshotIndex,
        RaftNode.persistStateLocked_lastApplied]
      omega
    · cases saved <;> exact hstate
    · refine hworker.of_le ?_
      simp
  · cases hstep

omit hup in
theorem onSnapshotTimer : AppliedStep sm H members { m with worker := .pending } [] := by
  refine ⟨⟨hm.snapshots, fun hup => ?_⟩, by simp⟩
  obtain ⟨hboundary, hlock, hinstalls, htemp, -⟩ := hm.process hup
  exact ⟨hboundary, hlock, hinstalls, htemp, trivial⟩

theorem workerCapture {ok : Bool} (hstep : m.workerCapture sm ok = some m') :
    AppliedStep sm H members m' [] := by
  obtain ⟨hboundary, hlock, hinstalls, htemp, hworker⟩ := hm.process hup
  unfold Member.workerCapture at hstep
  split at hstep
  · rename_i hpending hfree
    cases hstep
    rw [hfree] at hlock
    refine .of_process hm.snapshots ⟨hboundary, ?_, hinstalls, htemp, ?_⟩ (by simp)
    · rw [hfree]
      exact hlock
    · cases ok with
      | true => exact ⟨le_rfl, .of_save hlock⟩
      | false => trivial
  · cases hstep

theorem workerSave {outcome : SaveOutcome} (hstep : m.workerSave outcome = some m') :
    AppliedStep sm H members m' [] := by
  obtain ⟨hboundary, hlock, hinstalls, htemp, hworker⟩ := hm.process hup
  unfold Member.workerSave at hstep
  split at hstep
  · rename_i index term image hcaptured
    rw [hcaptured] at hworker
    have hnew : ∀ s ∈ (saveSnapshotFile m.snapshots (some image) index term outcome).1,
        ImageAt sm H members s.index s.image := by
      intro s hs
      rcases saveSnapshotFile_mem hs with hold | ⟨image', heq, rfl⟩
      · exact hm.snapshots s hold
      · cases heq
        exact hworker.2
    generalize saveSnapshotFile m.snapshots (some image) index term outcome = result at *
    obtain ⟨snapshots, ok⟩ := result
    cases hstep
    refine .of_process hnew ⟨hboundary, hlock, hinstalls, htemp, ?_⟩ (by simp)
    cases ok with
    | true => exact hworker.1
    | false => trivial
  · cases hstep

theorem workerCompact {saved : Bool} (hstep : m.workerCompact saved = some m') :
    AppliedStep sm H members m' [] := by
  obtain ⟨hboundary, hlock, hinstalls, htemp, hworker⟩ := hm.process hup
  unfold Member.workerCompact at hstep
  split at hstep
  · rename_i index term hsaved
    rw [hsaved] at hworker
    cases hstep
    obtain ⟨happlied, hsnap⟩ :=
      m.node.compactAfterSnapshot_boundary term saved hboundary hworker
    refine .of_process hm.snapshots ⟨?_, ?_, hinstalls, htemp, trivial⟩ (by simp)
    · exact hsnap.trans happlied.ge
    · simp only [happlied]
      exact hlock
  · cases hstep

omit hup in
theorem prune (maxKeep upto : Nat) : AppliedStep sm H members
    { m with snapshots := pruneSnapshots m.snapshots maxKeep upto } [] := by
  refine ⟨⟨fun s hs => hm.snapshots s (pruneSnapshots_mem hs), fun hup => ?_⟩, by simp⟩
  obtain ⟨hboundary, hlock, hinstalls, htemp, hworker⟩ := hm.process hup
  exact ⟨hboundary, hlock, hinstalls, htemp, hworker⟩

end AppliedMember

/-! ## Restarts -/

theorem Snapshot.Of.mono {π π' : List LogRecord} {s : Snapshot sm.Image} (h : s.Of sm π)
    (hle : π <+: π') : s.Of sm π' := by
  obtain ⟨hindex, hterm, himage⟩ := h
  refine ⟨hindex.trans hle.length_le, hterm.trans (termAt_of_le LogRecord.term hle hindex), ?_⟩
  rwa [← take_eq_of_le hle hindex]

/-- A snapshot of a chosen prefix, with its image. -/
theorem ImageAt.exists_of {t : Nat} {s : Snapshot sm.Image}
    (h : ImageAt sm H members s.index s.image)
    (hH : H.Valid members LogRecord.term) (hheld : Held H members t s.index s.term) :
    ∃ π, H.Chosen members π ∧ s.Of sm π := by
  obtain ⟨kv, hload, π, hπ, hlen, hkv⟩ := h
  obtain ⟨π', hlen', hterm, hπ'⟩ := hheld
  obtain rfl : π = π' :=
    ((hH.chosen_comparable hπ hπ'.chosen).le (by omega)).eq_of_length (by omega)
  refine ⟨π, hπ, hlen.ge, hterm.symm, kv, hload, ?_⟩
  rwa [List.take_of_length_le hlen.le]

/-- One chosen prefix covers the committed log and every snapshot of a member. -/
theorem AppliedMember.exists_chosen (hm : AppliedMember sm H members m)
    (hH : H.Valid members LogRecord.term) (hsnapshots : SnapshotsInv H members m.snapshots)
    {ρ : List LogRecord} (hρ : H.Chosen members ρ) :
    ∃ π, H.Chosen members π ∧ ρ <+: π ∧ ∀ s ∈ m.snapshots, s.Of sm π := by
  have himages := hm.snapshots
  generalize m.snapshots = dir at *
  induction dir with
  | nil => exact ⟨ρ, hρ, List.prefix_refl ρ, by simp⟩
  | cons s rest ih =>
    obtain ⟨π, hπ, hle, hrest⟩ := ih (fun s hs => hsnapshots s (List.mem_cons_of_mem _ hs))
      (fun s hs => himages s (List.mem_cons_of_mem _ hs))
    obtain ⟨t, hheld⟩ := hsnapshots s List.mem_cons_self
    obtain ⟨π', hπ', hs⟩ := (himages s List.mem_cons_self).exists_of hH hheld
    rcases hH.chosen_comparable hπ hπ' with hpre | hpre
    · refine ⟨π', hπ', hle.trans hpre, fun s' hs' => ?_⟩
      rcases List.mem_cons.mp hs' with rfl | hold
      · exact hs
      · exact (hrest s' hold).mono hpre
    · refine ⟨π, hπ, hle, fun s' hs' => ?_⟩
      rcases List.mem_cons.mp hs' with rfl | hold
      · exact hs.mono hpre
      · exact hrest s' hold

/-- What a member has on disk is what recovery relies on. -/
theorem AppliedMember.holdsCommitted (hm : AppliedMember sm H members m)
    (hH : H.Valid members LogRecord.term) (hmember : MemberInv H members q m) :
    ∃ π dur, H.Chosen members π ∧ HoldsCommitted sm π m.node.storage dur m.snapshots := by
  obtain ⟨dur, hdur, hsound⟩ := hmember.durable
  obtain ⟨π, hπ, hle, hdir⟩ := hm.exists_chosen hH hmember.snapshots hsound.chosen
  exact ⟨π, dur, hπ, hdur, hsound.snap_le, hsound.commit_le, hle, hdir⟩

/-- Replay does not move the snapshot boundary. -/
theorem RaftNode.construct_lastSnapshotIndex {id : NodeId} {peers : List NodeId}
    {storage : Option PersistentRaftState} {config : SnapshotConfig}
    {dir : List (Snapshot sm.Image)} {readable : Nat → Bool} {saved : Bool}
    {replaySaved : Nat → Bool} {n : RaftNode} {kv : σ}
    (h : construct sm id peers storage config dir readable saved replaySaved = .ready n kv) :
    n.lastSnapshotIndex ≤ max (recover id peers storage).lastSnapshotIndex
      (loadedIndex sm config dir readable) := by
  let P (n : RaftNode) : Prop := n.lastSnapshotIndex ≤
    max (recover id peers storage).lastSnapshotIndex (loadedIndex sm config dir readable)
  have hload : ∀ n kv, loadLatestSnapshotOnStartup sm (recover id peers storage) config dir
      readable saved = some (n, kv) → P n := by
    intro n kv hload
    rw [loadLatestSnapshotOnStartup_eq] at hload
    simp only [P, loadedIndex]
    split at hload
    · rename_i hnone
      cases hload
      exact le_max_left _ _
    · rename_i s kv' hsome
      rw [hsome]
      split at hload <;> cases hload
      simp only [persistStateLocked_lastSnapshotIndex, compactLogPrefixLocked,
        restoreLogAfterSnapshotLocked, Option.elim_some]
      split
      · exact le_max_left _ _
      · exact le_max_right _ _
  have hpick : ∀ n, P n → P n.applyPick.1 := by
    intro n hn
    rw [n.applyPick_frame]
    exact hn
  have hfinish :
      ∀ n index saved, P n → index ≤ n.commitIndex → P (n.applyFinish index saved).1 := by
    intro n index saved hn _
    unfold applyFinish
    split
    · simpa [P] using hn
    · exact hn
  rcases construct_induct replaySaved hload hpick hfinish with ⟨n', kv', hn', heq⟩ | ⟨_, _, heq⟩ <;>
    rw [h] at heq <;> cases heq
  exact hn'

theorem AppliedMember.restart (hm : AppliedMember sm H members m)
    (hH : H.Valid members LogRecord.term) (hmember : MemberInv H members q m)
    (hdown : m.up = false) {readable : Nat → Bool} {saved : Bool} {replaySaved : Nat → Bool}
    (hkeeps : m.keepsState sm cfg q (.restart readable saved replaySaved) = true) :
    AppliedStep sm H members (m.restart sm cfg q readable saved replaySaved) [] := by
  obtain ⟨π, dur, hπ, hdisk⟩ := hm.holdsCommitted hH hmember
  have hrep := hdisk.durable.represents_recover hdisk.commit_le q (cfg.peers q)
  simp only [Member.keepsState, decide_eq_true_eq, hrep.snapIndex] at hkeeps
  have hdir : ∀ s kv, RaftNode.loadedSnapshot sm (cfg.snapshot q) m.snapshots readable =
      some (s, kv) → s.Of sm π :=
    fun s kv hs => hdisk.snapshots s (RaftNode.loadedSnapshot_mem hs).1
  have hspec := (construct_spec hdisk.durable hdisk.commit_le hdisk.snap_le hdisk.committed hdir q
    (cfg.peers q) saved replaySaved).1
  unfold Member.restart
  cases hconstruct : RaftNode.construct sm q (cfg.peers q) m.node.storage (cfg.snapshot q)
      m.snapshots readable saved replaySaved with
  | thrown storage =>
    refine ⟨⟨hm.snapshots, fun hup => ?_⟩, by simp⟩
    rw [show ({ m with node := { m.node with storage } } : Member σ sm.Image).up = m.up from rfl,
      hdown] at hup
    cases hup
  | ready n kv =>
    obtain ⟨happlied, hkv⟩ := hspec n kv hconstruct
    have hsnap := RaftNode.construct_lastSnapshotIndex hconstruct
    rw [hrep.snapIndex] at hsnap
    rw [recoveredCommands_of_snap_le hkeeps, ← happlied] at hkv
    have hle : n.lastApplied ≤ π.length := by
      have hcommit := hdisk.committed.length_le
      rw [List.length_take, min_eq_left hdisk.commit_le] at hcommit
      have hindex : RaftNode.loadedIndex sm (cfg.snapshot q) m.snapshots readable ≤ π.length := by
        rw [RaftNode.loadedIndex]
        cases hs : RaftNode.loadedSnapshot sm (cfg.snapshot q) m.snapshots readable with
        | none => exact Nat.zero_le _
        | some loaded => exact (hdir _ _ hs).index_le
      omega
    refine .of_process hm.snapshots ⟨?_, ?_, by simp [Member.boot], ⟨by simp [Member.boot],
      by simp [Member.boot]⟩, trivial⟩ (by simp)
    · show n.lastSnapshotIndex ≤ n.lastApplied
      omega
    · refine ⟨π.take n.lastApplied, hπ.of_le (take_le _ _), ?_, hkv⟩
      rw [List.length_take]
      exact min_eq_left hle

/-! ## Runs -/

theorem Before.appliedStep {action : Action} (h : Before cfg H q m net)
    (hm : AppliedMember sm H cfg.members m)
    (hnet : ∀ message ∈ net, AppliedMessage sm H cfg.members message)
    (hkeeps : m.keepsState sm cfg q action = true)
    (hstep : CquptRaft.memberStep sm cfg q net m action = some (m', outbox)) :
    AppliedStep sm H cfg.members m' outbox := by
  rcases memberStep_cases hstep with ⟨hup, hstep⟩ | ⟨hdown, rfl, _, _, _, rfl, rfl⟩
  · by_cases hother : action.appliesState = false
    · exact (act_unrelated hother hstep).appliedStep hm
    obtain ⟨mem, dur, hp⟩ := h.member.process hup
    cases action with
    | crash =>
      cases hstep
      exact ⟨⟨hm.snapshots, fun hc => by cases hc⟩, by simp⟩
    | proposal k step =>
      obtain ⟨_, hmoved, heq⟩ := Option.map_eq_some_iff.mp hstep
      cases heq
      exact hm.proposal hup hmoved
    | sendSnapshot peer => exact hm.sendSnapshot hstep
    | onInstallSnapshot k saved =>
      obtain ⟨message, hreceive, hstep⟩ := Option.bind_eq_some_iff.mp hstep
      have hmessage := hnet message (Member.receive_mem hreceive).1
      unfold Member.deliverInstallSnapshot at hstep
      split at hstep
      · rename_i request hpayload
        rw [AppliedMessage, hpayload] at hmessage
        have hmoved := hm.onInstallSnapshot hup (cfg.snapshot q).enabled saved message.call hmessage
        rwa [show m.onInstallSnapshot (cfg.snapshot q).enabled message.call request saved =
          (m', outbox) from Option.some.inj hstep] at hmoved
      · cases hstep
    | installWrite k ok => exact hm.installWrite hup hkeeps hstep
    | installSave k outcome => exact hm.installSave hup hstep
    | installLoad k ok => exact hm.installLoad hup hkeeps hstep
    | installFinish saved => exact hm.installFinish hup hkeeps hstep
    | applyAcquire =>
      simp only [act] at hstep
      split at hstep
      · rename_i hfree
        cases hstep
        exact hm.applyAcquire hfree
      · cases hstep
    | applyPick =>
      obtain ⟨_, hmoved, heq⟩ := Option.map_eq_some_iff.mp hstep
      cases heq
      exact hm.applyPick hup hp.node.represents hp.node.memSound.commit_le hp.node.memSound.chosen
        hmoved
    | applyRun =>
      obtain ⟨_, hmoved, heq⟩ := Option.map_eq_some_iff.mp hstep
      cases heq
      exact hm.applyRun hup h.valid hmoved
    | applyFinish saved =>
      obtain ⟨_, hmoved, heq⟩ := Option.map_eq_some_iff.mp hstep
      cases heq
      exact hm.applyFinish hup hmoved
    | onSnapshotTimer =>
      simp only [act] at hstep
      split at hstep
      · split at hstep <;> cases hstep
        exact hm.onSnapshotTimer
      · cases hstep
    | workerCapture ok =>
      obtain ⟨_, hmoved, heq⟩ := Option.map_eq_some_iff.mp hstep
      cases heq
      exact hm.workerCapture hup hmoved
    | workerSave outcome =>
      obtain ⟨_, hmoved, heq⟩ := Option.map_eq_some_iff.mp hstep
      cases heq
      exact hm.workerSave hup hmoved
    | workerCompact saved =>
      obtain ⟨_, hmoved, heq⟩ := Option.map_eq_some_iff.mp hstep
      cases heq
      exact hm.workerCompact hup hmoved
    | prune upto =>
      cases hstep
      exact hm.prune _ upto
    | restart _ _ _ => cases hstep
    | _ => exact absurd rfl hother
  · exact hm.restart h.valid h.member hdown hkeeps

theorem AppliedInv.init : AppliedInv cfg H (Cluster.init sm cfg) where
  members q _ := ⟨by simp [Cluster.init, Member.fresh], by simp [Cluster.init, Member.fresh]⟩
  net := by simp [Cluster.init]

theorem AppliedInv.step {c c' : Cluster σ sm.Image} {id : NodeId} {action : Action}
    (h : AppliedInv cfg H c) (hsim : SimInv cfg H c) (hext : History.Extends H H')
    (hkeeps : (c.members id).keepsState sm cfg id action = true)
    (hstep : c.step sm cfg id action = some c') : AppliedInv cfg H' c' := by
  obtain ⟨hid, m, outbox, hm, rfl⟩ := Cluster.step_cases hstep
  have happlied := (hsim.before hid).appliedStep (h.members id hid) h.net hkeeps hm
  refine ⟨fun p hp => ?_, fun message hmem => ?_⟩
  · by_cases hpid : p = id
    · subst hpid
      simp only [Function.update_self]
      exact happlied.member.mono hsim.valid hext
    · simp only [Function.update_of_ne hpid]
      exact (h.members p hp).mono hsim.valid hext
  · rcases List.mem_append.mp hmem with hold | hnew
    · exact (h.net message hold).mono hsim.valid hext
    · exact (happlied.outbox message hnew).mono hsim.valid hext

end CquptRaft
