import CquptRaft.Cluster.SimulationReplication

/-!
# Snapshots keep the simulation

A snapshot of a chosen prefix travels from the disk of a leader into the log of a follower. A
leader may show what is chosen in its own term and before; a snapshot that is read under an
old term may hold more.
-/

namespace CquptRaft

open Replication Voting

variable {σ : Type} {sm : IStateMachine σ} {cfg : ClusterConfig} {H H' : History NodeId LogRecord}
  {members : Finset NodeId} {q : NodeId} {Image : Type} {m m' : Member σ Image}
  {net : List (Message Image)} {outbox : Member.Outbox Image} {mem dur : Replica LogRecord}

/-! ## Chosen prefixes -/

/-- A chosen prefix that is shorter than one chosen up to `t` is chosen up to `t` itself. -/
theorem Held.of_le {t t' index term index' term' : Nat} (h : Held H members t index term)
    (hH : H.Valid members LogRecord.term) (h' : Held H members t' index' term')
    (hle : index' ≤ index) : Held H members t index' term' := by
  obtain ⟨π, rfl, -, hπ⟩ := h
  obtain ⟨π', hlen, hterm, hπ'⟩ := h'
  refine ⟨π', hlen, hterm, hπ.of_le ?_⟩
  rcases hH.chosen_comparable hπ'.chosen hπ.chosen with hpre | hpre
  · exact hpre
  · exact (hpre.eq_of_length (le_antisymm hpre.length_le (hlen ▸ hle))) ▸ List.prefix_refl _

/-- What is chosen up to the leader's term needs no acknowledgement. -/
theorem Held.matched {T index term : Nat} (h : Held H members T index term)
    (hH : H.Valid members LogRecord.term) (hT : H.Elected T) (p : NodeId) :
    Matched H members T p index := by
  obtain ⟨π, rfl, -, hπ⟩ := h
  have hle := hH.chosenBy_le hπ hT le_rfl
  refine ⟨hle.length_le, fun i _ hi _ => .inr (hπ.of_le ?_)⟩
  rw [History.written, ← take_eq_of_le hle hi]
  exact take_le _ _

/-- The committed prefix of a node that shows nothing later. -/
theorem Clean.held {snapshots : List (Snapshot Image)} (h : Clean H members mem snapshots)
    {index : Nat} (hindex : index ≤ mem.commit) (hlen : mem.commit ≤ mem.log.length) :
    Held H members mem.term index (termAt LogRecord.term mem.log index) := by
  refine ⟨mem.log.take index, ?_, termAt_take LogRecord.term le_rfl,
    h.commit.of_le (take_le_take hindex)⟩
  rw [List.length_take]
  omega

/-! ## Sending -/

theorem chooseSnapshot_mem {dir : List (Snapshot Image)} {index term : Nat} {s : Snapshot Image}
    (h : chooseSnapshot dir index term = some s) : s ∈ dir := by
  unfold chooseSnapshot at h
  split at h
  · rename_i s' hfind
    cases h
    exact mem_listSnapshots.mp (List.mem_of_find?_eq_some hfind)
  · exact mem_listSnapshots.mp (List.mem_of_mem_head? h)

/-- The replicator is about to send, under a term its node no longer leads, a snapshot beyond
the boundary it had read as the leader. -/
def Member.sendsStale (m : Member σ Image) (peer : NodeId) : Bool :=
  match m.replicators peer with
  | .boundary term index snapshotTerm =>
    ((chooseSnapshot m.snapshots index snapshotTerm).any fun s => decide (index < s.index)) &&
      !decide (m.node.role = .leader ∧ m.node.currentTerm = term)
  | _ => false

theorem Before.readBoundary (h : Before cfg H q m net) (hup : m.up = true) {peer : NodeId}
    (hstep : m.readBoundary peer = some m') : MemberStep cfg.members H q m' [] H := by
  obtain ⟨mem, dur, hp⟩ := h.member.process hup
  unfold Member.readBoundary at hstep
  split at hstep
  · rename_i term hcall
    split at hstep
    · cases hstep
      exact h.quiet hup .refl h.member.snapshots (hp.setReplicator trivial) (by simp)
    · rename_i hno
      simp only [not_or, not_not] at hno
      cases hstep
      obtain ⟨hlead, hclean⟩ := hp.leader hno.2.1
      have hterm : mem.term = term := hp.node.represents.term.symm.trans hno.2.2.1
      have hheld := hclean.held hp.node.memSound.snap_le hp.node.memSound.commit_le
      refine h.quiet hup .refl h.member.snapshots
        (hp.setReplicator ⟨hterm.ge, hterm ▸ hlead.led, ?_⟩)
        (by simp)
      rw [hp.node.represents.snapIndex, hp.node.represents.snapTerm, ← hterm]
      exact hheld
  · cases hstep

theorem Before.sendSnapshot (h : Before cfg H q m net) (hup : m.up = true) {peer : NodeId}
    (hok : m.sendsStale peer = false) (hstep : m.sendSnapshot peer = some (m', outbox)) :
    MemberStep cfg.members H q m' outbox H := by
  obtain ⟨mem, dur, hp⟩ := h.member.process hup
  have hreplicator := hp.replicators peer
  unfold Member.sendSnapshot at hstep
  split at hstep
  · rename_i term index snapshotTerm hcall
    rw [hcall] at hreplicator
    obtain ⟨hle, hled, hboundary⟩ := hreplicator
    simp only [Member.sendsStale, hcall] at hok
    split at hstep
    · cases hstep
      exact h.quiet hup .refl h.member.snapshots (hp.setReplicator trivial) (by simp)
    · rename_i s hs
      cases hstep
      have hmem := chooseSnapshot_mem hs
      have hheld : Held H cfg.members term s.index s.term := by
        by_cases hle : s.index ≤ index
        · obtain ⟨t, ht⟩ := h.member.snapshots s hmem
          exact hboundary.of_le h.valid ht hle
        · -- the newest snapshot reaches beyond the boundary, so the node still leads
          have hleads : m.node.role = .leader ∧ m.node.currentTerm = term := by
            by_contra hnot
            simp [hs, not_le.mp hle, hnot] at hok
          rw [← hleads.2, hp.node.represents.term]
          exact (hp.leader hleads.1).2.snapshots s hmem
      have hstarted :
          ProcessInv H cfg.members q { m with rpcStarted := m.rpcStarted + 1 } mem dur :=
        hp.same rfl rfl rfl rfl rfl rfl
      refine h.quiet hup .refl h.member.snapshots
        (hstarted.setReplicator ⟨hle, hled, fun _ _ => ⟨_, hheld⟩⟩) ?_
      simpa [MessageInv] using hheld
  · cases hstep

theorem ProcessInv.handleInstallSnapshotResponse (h : ProcessInv H members q m mem dur)
    (hH : H.Valid members LogRecord.term) {peer : NodeId} {call : CallId} {index : Nat}
    (hcall : m.replicators peer = .install call index) (response : InstallSnapshotResponse)
    (saved : Bool) :
    ∃ mem' dur', ProcessInv H members q { m with
      node := m.node.handleInstallSnapshotResponse peer call.term index response saved }
      mem' dur' := by
  have hreplicator := h.replicators peer
  rw [hcall] at hreplicator
  obtain ⟨-, hled, hheld⟩ := hreplicator
  unfold RaftNode.handleInstallSnapshotResponse
  split
  · exact h.becomeFollowerLocked _ _ saved
  · split
    · exact ⟨mem, dur, h⟩
    · rename_i hleader
      simp only [not_or, not_not] at hleader
      split
      · exact ⟨mem, dur, h.keepRole (h.node.congr rfl rfl rfl rfl rfl rfl rfl) rfl rfl
          (fun _ _ => rfl) rfl rfl rfl id⟩
      · have hterm : mem.term = call.term := h.node.represents.term.symm.trans hleader.2.2
        obtain ⟨term, hheld⟩ := hheld hleader.2.1 hterm
        exact ⟨mem, dur, h.setMatchIndex hleader.2.1
          (hterm ▸ hheld.matched hH hled.elected peer) _⟩

theorem Before.deliverInstallResponse (h : Before cfg H q m net) (hup : m.up = true)
    {message : Message Image} {peer : NodeId} {call : CallId} {index : Nat}
    (hcall : m.replicators peer = .install call index) (hthis : message.call = call) {saved : Bool}
    (hstep : m.deliverInstallResponse peer index message saved = some (m', outbox)) :
    MemberStep cfg.members H q m' outbox H := by
  obtain ⟨mem, dur, hp⟩ := h.member.process hup
  unfold Member.deliverInstallResponse at hstep
  split at hstep
  · rename_i response hpayload
    have hkept := m.node.handleInstallSnapshotResponse_votesKept peer message.call.term index
      response saved
    obtain ⟨mem', dur', hp'⟩ := hp.handleInstallSnapshotResponse h.valid hcall response saved
    cases hstep
    rw [hthis] at hkept ⊢
    exact h.quiet hup hkept h.member.snapshots (hp'.setReplicator trivial) (by simp)
  · cases hstep

/-! ## Receiving -/

theorem NodeInv.installCheck {n : RaftNode} (h : NodeInv H members q n mem dur) (enabled : Bool)
    (request : InstallSnapshotRequest Image) (saved : Bool) :
    ∃ t dur', mem.term ≤ t ∧
      NodeInv H members q (n.installCheck enabled request saved).1 { mem with term := t } dur' ∧
      Yields n (n.installCheck enabled request saved).1 ∧
      ((n.installCheck enabled request saved).2 = none → t = request.term ∧
        (n.installCheck enabled request saved).1.role = .follower) := by
  unfold RaftNode.installCheck
  split
  · exact ⟨mem.term, dur, le_rfl, h, .refl n, by simp⟩
  · split
    · exact ⟨mem.term, dur, le_rfl, h, .refl n, by simp⟩
    · rename_i hge
      obtain ⟨dur', h'⟩ := h.acceptLeaderLocked hge request.leaderId saved
      obtain ⟨hrole, happlied⟩ := n.acceptLeaderLocked_yields request.term request.leaderId saved
      have hle : mem.term ≤ request.term := by
        rw [← h.represents.term]
        omega
      refine ⟨request.term, dur', hle, ?_⟩
      simp only
      split
      · exact ⟨h', ⟨.inl hrole, happlied⟩, by simp⟩
      · split
        · exact ⟨h', ⟨.inl hrole, happlied⟩, by simp⟩
        · exact ⟨h', ⟨.inl hrole, happlied⟩, fun _ => ⟨trivial, hrole⟩⟩

theorem Before.deliverInstallSnapshot (h : Before cfg H q m net) (hup : m.up = true)
    {message : Message Image} (hmessage : message ∈ net) {enabled saved : Bool}
    (hstep : m.deliverInstallSnapshot enabled message saved = some (m', outbox)) :
    MemberStep cfg.members H q m' outbox H := by
  obtain ⟨mem, dur, hp⟩ := h.member.process hup
  have hrequest := h.net message hmessage
  unfold Member.deliverInstallSnapshot at hstep
  split at hstep
  · rename_i request hpayload
    simp only [MessageInv, hpayload] at hrequest
    obtain ⟨t, dur', ht, hinv, hyields, hgo⟩ := hp.node.installCheck enabled request saved
    have hkept := m.node.installCheck_votesKept enabled request saved
    have hp' := hp.yield ht hinv hyields
    unfold Member.onInstallSnapshot at hstep
    generalize m.node.installCheck enabled request saved = res at *
    obtain ⟨node, response⟩ := res
    cases response with
    | some response =>
      cases hstep
      exact h.quiet hup hkept h.member.snapshots hp' (by simp [MessageInv])
    | none =>
      cases hstep
      obtain ⟨rfl, hrole⟩ := hgo rfl
      refine h.quiet hup hkept h.member.snapshots (hp'.congr rfl (fun _ hs => .inl hs) ?_ hp'.apply
        hp'.worker hp'.replicators) (by simp)
      intro handler hmem
      rcases List.mem_append.mp hmem with hold | hnew
      · exact hp'.installs handler hold
      · rw [List.mem_singleton.mp hnew]
        exact ⟨le_rfl, fun _ => hrole, hrequest⟩
  · cases hstep

/-- A step that touches the handlers, `apply_mu_` and the snapshots of a process. -/
theorem Before.keepNode (h : Before cfg H q m net) (hup : m.up = true)
    (hp : ProcessInv H cfg.members q m mem dur) (hnode : m'.node = m.node)
    (hsnapshots : ∀ s ∈ m'.snapshots, s ∈ m.snapshots ∨
      (∃ t, Held H cfg.members t s.index s.term) ∧
      (Clean H cfg.members mem m.snapshots → Held H cfg.members mem.term s.index s.term))
    (hinstalls : ∀ handler ∈ m'.installs, HandlerInv H cfg.members m.node mem handler)
    (happly : ApplyInv H cfg.members m.node mem m'.apply)
    (hworker : WorkerInv m.node mem m'.worker) (hreplicators : m'.replicators = m.replicators)
    (hout : ∀ message ∈ outbox, MessageInv H cfg.members message) :
    MemberStep cfg.members H q m' outbox H := by
  refine h.quiet hup (hnode.symm ▸ .refl) (fun s hs => ?_) (hp.congr hnode
    (fun s hs => (hsnapshots s hs).imp id And.right) hinstalls happly hworker
    (hreplicators ▸ hp.replicators)) hout
  exact (hsnapshots s hs).elim (h.member.snapshots s) And.left

theorem HandlerInv.set {n : RaftNode} {installs : List (InstallHandler Image)} {k : Nat}
    {handler : InstallHandler Image} {phase : InstallPhase}
    (h : ∀ other ∈ installs, HandlerInv H members n mem other)
    (hk : installs[k]? = some handler) :
    ∀ other ∈ installs.set k { handler with phase }, HandlerInv H members n mem other := by
  intro other hother
  rcases List.mem_or_eq_of_mem_set hother with hold | rfl
  · exact h other hold
  · obtain ⟨hterm, hrole, hheld⟩ := h handler (List.mem_of_getElem? hk)
    exact ⟨hterm, hrole, hheld⟩

theorem Before.installWrite (h : Before cfg H q m net) (hup : m.up = true) {k : Nat} {ok : Bool}
    (hstep : m.installWrite k ok = some (m', outbox)) : MemberStep cfg.members H q m' outbox H := by
  obtain ⟨mem, dur, hp⟩ := h.member.process hup
  unfold Member.installWrite at hstep
  split at hstep
  · rename_i handler hk
    split at hstep
    · split at hstep <;> cases hstep
      · exact h.keepNode hup hp rfl (fun _ hs => .inl hs) (HandlerInv.set hp.installs hk) hp.apply
          hp.worker rfl (by simp)
      · exact h.keepNode hup hp rfl (fun _ hs => .inl hs)
          (fun other ho => hp.installs other (List.mem_of_mem_eraseIdx ho)) hp.apply hp.worker rfl
          (by simp [MessageInv])
    · cases hstep
  · cases hstep

theorem saveSnapshotFile_mem {dir : List (Snapshot Image)} {input : Option Image}
    {index term : Nat} {outcome : SaveOutcome} {s : Snapshot Image}
    (h : s ∈ (saveSnapshotFile dir input index term outcome).1) :
    s ∈ dir ∨ ∃ image, input = some image ∧ s = ⟨index, term, image⟩ := by
  unfold saveSnapshotFile at h
  split at h
  · exact .inl h
  · exact .inl h
  · rcases List.mem_cons.mp h with rfl | hold
    · exact .inr ⟨_, rfl, rfl⟩
    · exact .inl hold
  · rcases List.mem_cons.mp h with rfl | hold
    · exact .inr ⟨_, rfl, rfl⟩
    · exact .inl hold
  · exact .inl h

theorem Before.installSave (h : Before cfg H q m net) (hup : m.up = true) {k : Nat}
    {outcome : SaveOutcome} (hstep : m.installSave k outcome = some (m', outbox)) :
    MemberStep cfg.members H q m' outbox H := by
  obtain ⟨mem, dur, hp⟩ := h.member.process hup
  unfold Member.installSave at hstep
  split at hstep
  · rename_i handler hk
    have hhandler := hp.installs handler (List.mem_of_getElem? hk)
    split at hstep
    · have hnew : ∀ s ∈ (saveSnapshotFile m.snapshots m.installTemp
          handler.request.lastIncludedIndex handler.request.lastIncludedTerm outcome).1,
          s ∈ m.snapshots ∨ (∃ t, Held H cfg.members t s.index s.term) ∧
          (Clean H cfg.members mem m.snapshots → Held H cfg.members mem.term s.index s.term) := by
        intro s hs
        refine (saveSnapshotFile_mem hs).imp id ?_
        rintro ⟨image, -, rfl⟩
        exact ⟨⟨_, hhandler.held⟩, fun _ => hhandler.held.mono_term hhandler.term_le⟩
      generalize saveSnapshotFile m.snapshots m.installTemp handler.request.lastIncludedIndex
        handler.request.lastIncludedTerm outcome = res at *
      obtain ⟨snapshots, ok⟩ := res
      cases ok with
      | true =>
        cases hstep
        exact h.keepNode hup hp rfl hnew (HandlerInv.set hp.installs hk) hp.apply hp.worker rfl
          (by simp)
      | false =>
        cases hstep
        exact h.keepNode hup hp rfl hnew
          (fun other ho => hp.installs other (List.mem_of_mem_eraseIdx ho)) hp.apply hp.worker rfl
          (by simp [MessageInv])
    · cases hstep
  · cases hstep

theorem Before.installLoad {m m' : Member σ sm.Image} {net : List (Message sm.Image)}
    {outbox : Member.Outbox sm.Image} (h : Before cfg H q m net) (hup : m.up = true) {k : Nat}
    {ok : Bool} (hstep : m.installLoad sm k ok = some (m', outbox)) :
    MemberStep cfg.members H q m' outbox H := by
  obtain ⟨mem, dur, hp⟩ := h.member.process hup
  unfold Member.installLoad at hstep
  split at hstep
  · rename_i handler hk hfree
    have herase : ∀ other ∈ m.installs.eraseIdx k, HandlerInv H cfg.members m.node mem other :=
      fun other ho => hp.installs other (List.mem_of_mem_eraseIdx ho)
    split at hstep
    · split at hstep <;> cases hstep
      · exact h.keepNode hup hp rfl (fun _ hs => .inl hs) herase
          (hp.installs handler (List.mem_of_getElem? hk)) hp.worker rfl (by simp)
      · exact h.keepNode hup hp rfl (fun _ hs => .inl hs) herase hp.apply hp.worker rfl
          (by simp [MessageInv])
    · cases hstep
  · cases hstep

theorem RaftNode.adoptSnapshotLocked_frame (n : RaftNode) (index term : Nat) :
    (n.adoptSnapshotLocked index term).role = n.role ∧
      AppliedKept n (n.adoptSnapshotLocked index term) := by
  unfold RaftNode.adoptSnapshotLocked RaftNode.compactLogPrefixLocked
    RaftNode.restoreLogAfterSnapshotLocked
  simp only
  split
  · exact ⟨rfl, fun hle => hle.trans (le_max_left _ _)⟩
  · exact ⟨rfl, fun _ => le_max_right _ _⟩

theorem Before.installFinish (h : Before cfg H q m net) (hup : m.up = true) {saved : Bool}
    (hstep : m.installFinish saved = some (m', outbox)) :
    MemberStep cfg.members H q m' outbox H := by
  obtain ⟨mem, dur, hp⟩ := h.member.process hup
  have happly := hp.apply
  unfold Member.installFinish at hstep
  split at hstep
  · rename_i handler hlock
    rw [hlock] at happly
    have hkept := m.node.installFinish_votesKept handler.request handler.response saved
    have hp' : ∃ mem' dur', ProcessInv H cfg.members q
        { m with node := (m.node.installFinish handler.request handler.response saved).1 }
        mem' dur' := by
      unfold RaftNode.installFinish
      split
      · exact ⟨mem, dur, hp⟩
      · rename_i hterm
        rw [hp.node.represents.term] at hterm
        have hsame : handler.request.term = mem.term := by
          have := happly.term_le
          omega
        have hrole := happly.role hsame
        obtain ⟨mem', hinv, hev⟩ := hp.node.adoptSnapshotLocked h.valid h.indexed happly.held
          happly.term_le
        obtain ⟨hframe, happlied⟩ := m.node.adoptSnapshotLocked_frame
          handler.request.lastIncludedIndex handler.request.lastIncludedTerm
        cases saved with
        | true => exact
          ⟨mem', _, hp.toFollower (hinv.persist true) hev (hframe.trans hrole) happlied⟩
        | false => exact ⟨mem', dur, hp.toFollower hinv hev (hframe.trans hrole) happlied⟩
    obtain ⟨mem', dur', hp'⟩ := hp'
    cases hstep
    exact h.quiet hup hkept h.member.snapshots (hp'.congr rfl (fun _ hs => .inl hs) hp'.installs
      trivial hp'.worker hp'.replicators) (by simp [MessageInv])
  · cases hstep

/-! ## Application -/

theorem Before.applyPick (h : Before cfg H q m net) (hup : m.up = true)
    (hstep : m.applyPick = some m') : MemberStep cfg.members H q m' [] H := by
  obtain ⟨mem, dur, hp⟩ := h.member.process hup
  have hkept := m.node.applyPick_votesKept
  have hp' := hp.applyPick
  have hindex : ∀ index command, m.node.applyPick.2 = .entry index command →
      index ≤ mem.commit := by
    intro index command hpick
    unfold RaftNode.applyPick at hpick
    simp only at hpick
    split at hpick
    · cases hpick
    · rename_i hlt
      rw [hp.node.represents.commit] at hlt
      split at hpick <;> cases hpick
      omega
  unfold Member.applyPick at hstep
  generalize m.node.applyPick = res at *
  obtain ⟨node, pick⟩ := res
  split at hstep
  · cases pick with
    | entry index command =>
      cases hstep
      exact h.quiet hup hkept h.member.snapshots (hp'.congr rfl (fun _ hs => .inl hs) hp'.installs
        (hindex index command rfl) hp'.worker hp'.replicators) (by simp)
    | nothing | outOfRange =>
      cases hstep
      exact h.quiet hup hkept h.member.snapshots (hp'.congr rfl (fun _ hs => .inl hs) hp'.installs
        trivial hp'.worker hp'.replicators) (by simp)
  · cases hstep

theorem Before.applyRun {m m' : Member σ sm.Image} {net : List (Message sm.Image)}
    (h : Before cfg H q m net) (hup : m.up = true) (hstep : m.applyRun sm = some m') :
    MemberStep cfg.members H q m' [] H := by
  obtain ⟨mem, dur, hp⟩ := h.member.process hup
  have happly := hp.apply
  unfold Member.applyRun at hstep
  split at hstep
  · rename_i index command hlock
    rw [hlock] at happly
    split at hstep <;> cases hstep
    · exact h.keepNode hup hp rfl (fun _ hs => .inl hs) hp.installs happly hp.worker rfl (by simp)
    · exact h.keepNode hup hp rfl (fun _ hs => .inl hs) hp.installs trivial hp.worker rfl (by simp)
  · cases hstep

theorem RaftNode.applyFinish_frame (n : RaftNode) (index : Nat) (saved : Bool) :
    (n.applyFinish index saved).1.role = n.role ∧ (n.applyFinish index saved).1.peers = n.peers ∧
      (n.applyFinish index saved).1.matchIndex = n.matchIndex ∧
      AppliedKept n (n.applyFinish index saved).1 := by
  unfold RaftNode.applyFinish
  split
  · rename_i hlt
    refine ⟨by simp, by simp, by simp, fun hle => ?_⟩
    simp only [RaftNode.persistStateLocked_lastSnapshotIndex,
      RaftNode.persistStateLocked_lastApplied]
    omega
  · exact ⟨rfl, rfl, rfl, id⟩

theorem Before.applyFinish (h : Before cfg H q m net) (hup : m.up = true) {saved : Bool}
    (hstep : m.applyFinish saved = some m') : MemberStep cfg.members H q m' [] H := by
  obtain ⟨mem, dur, hp⟩ := h.member.process hup
  have happly := hp.apply
  unfold Member.applyFinish at hstep
  split at hstep
  · rename_i index hlock
    rw [hlock] at happly
    have hkept := m.node.applyFinish_votesKept index saved
    obtain ⟨dur', hinv⟩ := hp.node.applyFinish happly saved
    obtain ⟨hrole, hpeers, hmatch, happlied⟩ := m.node.applyFinish_frame index saved
    have hp' := hp.keepRole hinv hrole hpeers (fun peer _ => congrFun hmatch peer) rfl rfl rfl
      happlied
    cases hstep
    refine h.quiet hup hkept h.member.snapshots (hp'.congr rfl (fun _ hs => .inl hs) hp'.installs
      ?_ hp'.worker hp'.replicators) (by simp)
    simp only
    split <;> trivial
  · cases hstep

/-! ## The snapshot worker -/

theorem Before.onSnapshotTimer (h : Before cfg H q m net) (hup : m.up = true)
    {config : SnapshotConfig} (hwants : m.node.wantsSnapshotLocked config true = true) :
    MemberStep cfg.members H q { m with worker := .pending } [] H := by
  obtain ⟨mem, dur, hp⟩ := h.member.process hup
  have hlt : m.node.lastSnapshotIndex < m.node.lastApplied := by
    simp only [RaftNode.wantsSnapshotLocked, Bool.and_eq_true, decide_eq_true_eq] at hwants
    exact hwants.1.2
  exact h.keepNode hup hp rfl (fun _ hs => .inl hs) hp.installs hp.apply hlt.le rfl (by simp)

theorem Before.workerCapture {m m' : Member σ sm.Image} {net : List (Message sm.Image)}
    (h : Before cfg H q m net) (hup : m.up = true) {ok : Bool}
    (hstep : m.workerCapture sm ok = some m') : MemberStep cfg.members H q m' [] H := by
  obtain ⟨mem, dur, hp⟩ := h.member.process hup
  have hworker := hp.worker
  unfold Member.workerCapture at hstep
  split at hstep <;> cases hstep
  rename_i hpending hfree
  rw [hpending] at hworker
  refine h.keepNode hup hp rfl (fun _ hs => .inl hs) hp.installs hp.apply ?_ rfl (by simp)
  simp only
  split
  · have happlied := hp.node.applied
    have hsnap : mem.snap ≤ m.node.lastApplied := hp.node.represents.snapIndex ▸ hworker
    rw [hp.node.represents.commit] at happlied
    exact ⟨happlied, hp.node.represents.termAtIndexLocked hsnap
      (happlied.trans hp.node.memSound.commit_le)⟩
  · trivial

theorem Before.workerSave (h : Before cfg H q m net) (hup : m.up = true) {outcome : SaveOutcome}
    (hstep : m.workerSave outcome = some m') : MemberStep cfg.members H q m' [] H := by
  obtain ⟨mem, dur, hp⟩ := h.member.process hup
  have hworker := hp.worker
  unfold Member.workerSave at hstep
  split at hstep
  · rename_i index term image hcaptured
    rw [hcaptured] at hworker
    obtain ⟨hindex, hterm⟩ := hworker
    have hsaved : ∀ s ∈ (saveSnapshotFile m.snapshots (some image) index term outcome).1,
        s ∈ m.snapshots ∨ ∃ image', some image = some image' ∧ s = ⟨index, term, image'⟩ :=
      fun s hs => saveSnapshotFile_mem hs
    generalize saveSnapshotFile m.snapshots (some image) index term outcome = res at *
    obtain ⟨snapshots, ok⟩ := res
    cases hstep
    refine h.keepNode hup hp rfl (fun s hs => ?_) hp.installs hp.apply ?_ rfl (by simp)
    · refine (hsaved s hs).imp id fun heq => ?_
      obtain ⟨image', -, rfl⟩ := heq
      simp only [hterm]
      refine ⟨?_, fun hclean => hclean.held hindex hp.node.memSound.commit_le⟩
      obtain ⟨t, ht⟩ := hp.node.memSound.chosen
      refine ⟨t, mem.log.take index, ?_, termAt_take LogRecord.term le_rfl,
        ht.of_le (take_le_take hindex)⟩
      have := hp.node.memSound.commit_le
      rw [List.length_take]
      omega
    · cases ok with
      | true => exact ⟨hindex, hterm⟩
      | false => trivial
  · cases hstep

theorem RaftNode.compactAfterSnapshot_frame (n : RaftNode) (index term : Nat) (saved : Bool) :
    (n.compactAfterSnapshot index term saved).role = n.role ∧
      (n.compactAfterSnapshot index term saved).peers = n.peers ∧
      (n.compactAfterSnapshot index term saved).matchIndex = n.matchIndex ∧
      AppliedKept n (n.compactAfterSnapshot index term saved) := by
  unfold RaftNode.compactAfterSnapshot
  split
  · unfold RaftNode.compactLogPrefixLocked RaftNode.restoreLogAfterSnapshotLocked AppliedKept
    split
    · simp
    · simp
  · exact ⟨rfl, rfl, rfl, id⟩

theorem Before.workerCompact (h : Before cfg H q m net) (hup : m.up = true) {saved : Bool}
    (hstep : m.workerCompact saved = some m') : MemberStep cfg.members H q m' [] H := by
  obtain ⟨mem, dur, hp⟩ := h.member.process hup
  have hworker := hp.worker
  unfold Member.workerCompact at hstep
  split at hstep <;> cases hstep
  rename_i index term hsaved
  rw [hsaved] at hworker
  obtain ⟨hindex, rfl⟩ := hworker
  have hkept := m.node.compactAfterSnapshot_votesKept index (termAt LogRecord.term mem.log index)
    saved
  obtain ⟨mem', dur', hinv, -, hlog, hterm, hcommit⟩ :=
    hp.node.compactAfterSnapshot h.valid h.indexed hindex saved
  obtain ⟨hrole, hpeers, hmatch, happlied⟩ :=
    m.node.compactAfterSnapshot_frame index (termAt LogRecord.term mem.log index) saved
  have hp' := hp.keepRole hinv hrole hpeers (fun peer _ => congrFun hmatch peer) hterm hlog hcommit
    happlied
  exact h.quiet hup hkept h.member.snapshots (hp'.congr rfl (fun _ hs => .inl hs) hp'.installs
    hp'.apply trivial hp'.replicators) (by simp)

theorem pruneSnapshots_mem {dir : List (Snapshot Image)} {maxKeep upto : Nat} {s : Snapshot Image}
    (h : s ∈ pruneSnapshots dir maxKeep upto) : s ∈ dir := by
  unfold pruneSnapshots at h
  rcases List.mem_append.mp h with hkept | hleft
  · exact mem_listSnapshots.mp (List.mem_of_mem_take hkept)
  · exact mem_listSnapshots.mp (List.mem_of_mem_drop hleft)

/-! ## Starting and stopping -/

/-- A step that touches neither role, term, log nor commit index. -/
theorem Before.idle (h : Before cfg H q m net) (hup : m.up = true) {n' : RaftNode}
    (hkept : VotesKept m.node n') (hrole : n'.role = m.node.role)
    (hmatch : n'.matchIndex = m.node.matchIndex) (happlied : AppliedKept m.node n')
    (hinv : ∀ mem dur, NodeInv H cfg.members q m.node mem dur →
      ∃ dur', NodeInv H cfg.members q n' mem dur') :
    MemberStep cfg.members H q { m with node := n' } [] H := by
  obtain ⟨mem, dur, hp⟩ := h.member.process hup
  obtain ⟨dur', hinv⟩ := hinv mem dur hp.node
  exact h.quiet hup hkept h.member.snapshots (hp.keepRole hinv hrole hkept.peers
    (fun peer _ => congrFun hmatch peer) rfl rfl rfl happlied) (by simp)

theorem Before.crash (h : Before cfg H q m net) (hup : m.up = true) :
    MemberStep cfg.members H q { m with up := false } [] H :=
  h.same (h.record_eq hup .refl) ⟨h.member.snapshots, h.member.durable, fun h => by cases h⟩
    (by simp)

theorem RaftNode.loadLatestSnapshotOnStartup_role {n n' : RaftNode} {config : SnapshotConfig}
    {dir : List (Snapshot sm.Image)} {readable : Nat → Bool} {saved : Bool} {kv : σ}
    (h : loadLatestSnapshotOnStartup sm n config dir readable saved = some (n', kv)) :
    n'.role = n.role := by
  unfold loadLatestSnapshotOnStartup at h
  split at h
  · cases h
    rfl
  · split at h
    · cases h
      rfl
    · split at h
      · cases h
        unfold compactLogPrefixLocked restoreLogAfterSnapshotLocked
        split <;> simp
      · cases h

theorem RaftNode.applyFinish_role (n : RaftNode) (index : Nat) (saved : Bool) :
    (n.applyFinish index saved).1.role = n.role := by
  unfold applyFinish
  split <;> simp

theorem Before.restart {m : Member σ sm.Image} {net : List (Message sm.Image)}
    (h : Before cfg H q m net) (hdown : m.up = false) (readable : Nat → Bool) (saved : Bool)
    (replaySaved : Nat → Bool) :
    MemberStep cfg.members H q (m.restart sm cfg q readable saved replaySaved) [] H := by
  obtain ⟨dur, hdur, hsound⟩ := h.member.durable
  have hrecovered := hdur.recover hsound q (cfg.peers q)
  let n := RaftNode.recover q (cfg.peers q) m.node.storage
  have hvotes : ∀ n', VotesKept n n' → H.votes.record (-1) q n'.durable = H.votes := by
    intro n' hkept
    have hfollows := hkept.follows
    rw [RaftNode.recover_ballot, RaftNode.durable, RaftNode.recover_storage] at hfollows
    exact h.votes.accounted.record_eq (.recover h.votes.accounted) hfollows
  -- a process that only replays: it follows, keeps its votes and holds sound replicas
  let Replaying (n' : RaftNode) : Prop :=
    n'.role = .follower ∧ VotesKept n n' ∧ ∃ mem dur, NodeInv H cfg.members q n' mem dur
  have hcases := m.restart_induct (P := Replaying) cfg q readable saved replaySaved
    (fun n' kv hload => ⟨
      (RaftNode.loadLatestSnapshotOnStartup_role hload).trans (RaftNode.recover_role _ _ _),
      RaftNode.loadLatestSnapshotOnStartup_votesKept hload,
      hrecovered.loadLatestSnapshotOnStartup h.valid h.indexed h.member.snapshots hload⟩)
    (fun n' hreplaying => by
      obtain ⟨hrole, hkept, mem, dur, hinv⟩ := hreplaying
      exact ⟨by rw [n'.applyPick_frame]; exact hrole, hkept.trans n'.applyPick_votesKept, mem, dur,
        hinv.applyPick⟩)
    (fun n' index saved hreplaying hindex => by
      obtain ⟨hrole, hkept, mem, dur, hinv⟩ := hreplaying
      rw [hinv.represents.commit] at hindex
      exact ⟨(n'.applyFinish_role index saved).trans hrole,
        hkept.trans (n'.applyFinish_votesKept index saved), mem, hinv.applyFinish hindex saved⟩)
  rcases hcases with ⟨n', kv, ⟨hrole, hkept, mem', dur', hinv⟩, heq⟩ | ⟨storage, hstorage, heq⟩ <;>
    rw [heq]
  · have hp : ProcessInv H cfg.members q (m.boot n' kv) mem' dur' := by
      refine ⟨⟨by simp [Member.boot], trivial, trivial, fun _ => trivial⟩, hinv, fun hc => ?_,
        fun hl => ?_⟩
      · exact absurd (hrole.symm.trans hc) (by simp)
      · exact absurd (hrole.symm.trans hl) (by simp)
    exact h.same (hvotes n' hkept) (.of_process h.member.snapshots hp) (by simp)
  · rcases hstorage with rfl | ⟨n', ⟨-, hkept, mem', dur', hinv⟩, rfl⟩
    · refine h.same ?_ ⟨h.member.snapshots, h.member.durable, by simp [hdown]⟩ (by simp)
      have := hvotes n .refl
      rwa [RaftNode.durable, RaftNode.recover_storage] at this
    · exact h.same (hvotes n' hkept)
        ⟨h.member.snapshots, ⟨dur', hinv.durable, hinv.durSound⟩, by simp [hdown]⟩ (by simp)

end CquptRaft
